import Mathlib.Data.List.Basic
import Mathlib.Data.List.Nodup
import Mathlib.Tactic.Common

/-!
# Hash tables

A `GHashTable κ ν` holds its entries in the order in which an iteration would visit them; that
order is unspecified, so nothing below a table's own operations may depend on it. The keys are
pairwise distinct, as a field of the structure.

* `lookup` and `replace` are `g_hash_table_lookup` and `g_hash_table_replace`;
* `getKeys` and `mapValues` visit the entries in iteration order;
* `setAll` replays every entry of one table into another, as a loop over an iterator does;
* `Caches` says that a table only holds what a function returns.
-/

/-- A hash table from `κ` to `ν`, with its entries in iteration order. -/
structure GHashTable (κ ν : Type) where
  /-- The entries, in iteration order. -/
  entries : List (κ × ν)
  /-- No key occurs twice. -/
  nodup : (entries.map Prod.fst).Nodup

namespace GHashTable

variable {κ ν ω : Type}

/-- A table without entries. -/
def empty : GHashTable κ ν := ⟨[], List.nodup_nil⟩

/-- Hash tables are equal if their entries are. -/
instance [DecidableEq κ] [DecidableEq ν] : DecidableEq (GHashTable κ ν) := fun t t' =>
  decidable_of_iff (t.entries = t'.entries)
    ⟨fun h => by cases t; cases t'; cases h; rfl, fun h => h ▸ rfl⟩

/-- The keys, in iteration order. -/
def getKeys (t : GHashTable κ ν) : List κ := t.entries.map Prod.fst

/-- The table with the same keys and every value rewritten by `f`. -/
def mapValues (f : κ → ν → ω) (t : GHashTable κ ν) : GHashTable κ ω where
  entries := t.entries.map fun e => (e.1, f e.1 e.2)
  nodup := by simpa [Function.comp_def] using t.nodup

variable [DecidableEq κ]

/-- The value stored under a key, if any. -/
def lookup (t : GHashTable κ ν) (k : κ) : Option ν :=
  (t.entries.find? fun e => decide (e.1 = k)).map Prod.snd

/-- Store a value under a key, dropping the value it had. -/
def replace (t : GHashTable κ ν) (k : κ) (v : ν) : GHashTable κ ν where
  entries := (k, v) :: t.entries.filter fun e => decide (e.1 ≠ k)
  nodup := by
    have hsub : ((t.entries.filter fun e => decide (e.1 ≠ k)).map Prod.fst).Sublist
        (t.entries.map Prod.fst) := List.filter_sublist.map _
    rw [List.map_cons, List.nodup_cons]
    -- the filter has removed the key that is put in front
    exact ⟨by simp, t.nodup.sublist hsub⟩

/-- Drop the value that is stored under a key. -/
def remove (t : GHashTable κ ν) (k : κ) : GHashTable κ ν where
  entries := t.entries.filter fun e => decide (e.1 ≠ k)
  nodup := t.nodup.sublist (List.filter_sublist.map _)

/-- Store every entry of `new` in `t`, in iteration order. -/
def setAll (t new : GHashTable κ ν) : GHashTable κ ν :=
  new.entries.foldl (fun acc e => acc.replace e.1 e.2) t

@[simp]
theorem lookup_empty (k : κ) : (empty : GHashTable κ ν).lookup k = none := rfl

/-- What has another key is not affected by dropping a key. -/
private theorem find?_filter_of_ne (entries : List (κ × ν)) {k k' : κ} (h : k ≠ k') :
    (entries.filter fun e => decide (e.1 ≠ k)).find? (fun e => decide (e.1 = k')) =
      entries.find? fun e => decide (e.1 = k') := by
  rw [List.find?_filter]
  congr 1
  funext e
  by_cases he : e.1 = k'
  · simp [he, Ne.symm h]
  · simp [he]

@[simp]
theorem lookup_replace (t : GHashTable κ ν) (k k' : κ) (v : ν) :
    (t.replace k v).lookup k' = if k = k' then some v else t.lookup k' := by
  by_cases h : k = k'
  · simp [lookup, replace, h]
  · simp only [lookup, replace, List.find?_cons, h, decide_false, if_false, find?_filter_of_ne _ h]

@[simp]
theorem lookup_remove_self (t : GHashTable κ ν) (k : κ) : (t.remove k).lookup k = none := by
  rw [lookup, remove, Option.map_eq_none_iff, List.find?_eq_none]
  intro e he
  simpa using (List.mem_filter.1 he).2

theorem lookup_remove_of_ne (t : GHashTable κ ν) {k k' : κ} (h : k ≠ k') :
    (t.remove k).lookup k' = t.lookup k' := by
  rw [lookup, lookup, remove, find?_filter_of_ne _ h]

/-- An entry is in the table exactly when its value is the one looked up under its key. -/
theorem mem_entries_iff (t : GHashTable κ ν) (k : κ) (v : ν) :
    (k, v) ∈ t.entries ↔ t.lookup k = some v := by
  obtain ⟨entries, nodup⟩ := t
  simp only [lookup]
  induction entries with
  | nil => simp
  | cons e rest ih =>
      obtain ⟨k₀, v₀⟩ := e
      rw [List.map_cons, List.nodup_cons] at nodup
      by_cases hk : k₀ = k
      · subst hk
        -- the first entry with the key is the only one
        have hrest : (k₀, v) ∉ rest := fun hmem =>
          nodup.1 (List.mem_map.2 ⟨_, hmem, rfl⟩)
        simp [hrest, eq_comm]
      · have hk' : ¬ k = k₀ := fun h => hk h.symm
        simp [hk, hk', ih nodup.2]

/-- A key is listed exactly when a value is stored under it. -/
theorem mem_getKeys_iff (t : GHashTable κ ν) (k : κ) :
    k ∈ t.getKeys ↔ ∃ v, t.lookup k = some v := by
  simp [getKeys, ← mem_entries_iff]

@[simp]
theorem lookup_mapValues (f : κ → ν → ω) (t : GHashTable κ ν) (k : κ) :
    (t.mapValues f).lookup k = (t.lookup k).map (f k) := by
  simp only [lookup, mapValues]
  induction t.entries with
  | nil => rfl
  | cons e rest ih =>
      by_cases hk : e.1 = k
      · simp [hk]
      · simpa [hk] using ih

/-- A loop that stores a list of entries with distinct keys leaves the listed value under a
listed key, and the old value elsewhere. -/
private theorem lookup_foldl_replace (k : κ) (es : List (κ × ν)) (t : GHashTable κ ν)
    (hnodup : (es.map Prod.fst).Nodup) :
    (es.foldl (fun acc e => acc.replace e.1 e.2) t).lookup k =
      ((es.find? fun e => decide (e.1 = k)).map Prod.snd).or (t.lookup k) := by
  induction es generalizing t with
  | nil => simp
  | cons e rest ih =>
      rw [List.map_cons, List.nodup_cons] at hnodup
      rw [List.foldl_cons, ih _ hnodup.2, lookup_replace]
      by_cases hk : e.1 = k
      · -- no later entry has the key, so what is stored now stays
        have hnone : rest.find? (fun e => decide (e.1 = k)) = none := by
          rw [List.find?_eq_none]
          intro e' he' hdec
          have hkey : e'.1 = e.1 := by rw [hk]; simpa using hdec
          exact hnodup.1 (hkey ▸ List.mem_map_of_mem he')
        simp [hnone, hk]
      · simp [hk]

/-- After replaying `new` into `t`, a key has the value of `new` if it has one there, and its
old value otherwise. -/
@[simp]
theorem lookup_setAll (t new : GHashTable κ ν) (k : κ) :
    (t.setAll new).lookup k = (new.lookup k).or (t.lookup k) :=
  lookup_foldl_replace k new.entries t new.nodup

/-! ### Tables as caches -/

/-- The table is a cache of `f`: what is stored under a key is what `f` returns for it. -/
def Caches (t : GHashTable κ ν) (f : κ → ν) : Prop := ∀ k v, t.lookup k = some v → v = f k

theorem caches_empty (f : κ → ν) : (empty : GHashTable κ ν).Caches f := by
  intro k v h
  rw [lookup_empty] at h
  cases h

/-- A cache stays one when what `f` returns for a key is stored under it. -/
theorem Caches.replace {t : GHashTable κ ν} {f : κ → ν} (h : t.Caches f) (k : κ) :
    (t.replace k (f k)).Caches f := by
  intro k' v hv
  rw [lookup_replace] at hv
  split at hv
  · next hk =>
      cases hv
      rw [hk]
  · exact h k' v hv

end GHashTable
