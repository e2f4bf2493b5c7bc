import EosUpdater.GLib.HashTable
import EosUpdater.Flatpak.Action

/-!
# Squashing a list of actions

`squash_ref_actions_ptr_array` (`flatpak-util.c`) keeps one action per ref. Its first loop fills a
hash table from refs to actions, its second picks the actions that are still in the table, and
the result is sorted.

The table holds pointers, and the second loop compares pointers. Every array the function is
called on holds each action object once, so an object is identified here by its position.

The loops are tied to the general account of overwriting in `GLib.Overwrite`: squashing is sorting
the survivors (`squashRefActionsPtrArray_eq`).
-/

namespace Euu

open Overwrite

/-- What an action is keyed by when lists are squashed. -/
abbrev refKey (a : FlatpakRemoteRefAction) : FlatpakRef := a.ref.ref

/-- One step of the first loop of `squash_ref_actions_ptr_array`. An install or uninstall takes
the place of whatever is there; an update only of nothing or of another update. -/
def squashStep (hashTable : GHashTable FlatpakRef (FlatpakRemoteRefAction × ℕ))
    (action : FlatpakRemoteRefAction × ℕ) : GHashTable FlatpakRef (FlatpakRemoteRefAction × ℕ) :=
  match hashTable.lookup action.1.ref.ref with
  | none => hashTable.replace action.1.ref.ref action
  | some existingActionForRef =>
      if action.1.type = .install || action.1.type = .uninstall ||
          existingActionForRef.1.type = .update then
        hashTable.replace action.1.ref.ref action
      else hashTable

/-- One step of the second loop: add the action if the table holds this very object, unless an
action on its ref has been added already. -/
def squashCollect (hashTable : GHashTable FlatpakRef (FlatpakRemoteRefAction × ℕ))
    (squashedRefActions : List FlatpakRemoteRefAction) (action : FlatpakRemoteRefAction × ℕ) :
    List FlatpakRemoteRefAction :=
  match hashTable.lookup action.1.ref.ref with
  | none => squashedRefActions
  | some squashedActionForRef =>
      -- the pointers are compared, not what they point to
      if squashedActionForRef.2 ≠ action.2 then squashedRefActions
      else if squashedRefActions.any fun a => a.ref.ref = action.1.ref.ref then squashedRefActions
      else squashedRefActions ++ [action.1]

/-- `squash_ref_actions_ptr_array`. -/
def squashRefActionsPtrArray (refActions : List FlatpakRemoteRefAction) :
    List FlatpakRemoteRefAction :=
  let objects := refActions.zipIdx
  let hashTable := objects.foldl squashStep GHashTable.empty
  ptrArraySort (objects.foldl (squashCollect hashTable) [])

/-- The actions of a list that are not squashed, in list order. -/
abbrev survivors (actions : List FlatpakRemoteRefAction) : List FlatpakRemoteRefAction :=
  Overwrite.survivors refKey FlatpakRemoteRefAction.overridesUpdate actions

/-- The first loop overwrites the slot of each ref. -/
private theorem lookup_squashStep
    (hashTable : GHashTable FlatpakRef (FlatpakRemoteRefAction × ℕ))
    (p : FlatpakRemoteRefAction × ℕ) (k : FlatpakRef) :
    (squashStep hashTable p).lookup k =
      if refKey p.1 = k then supersede (fun q => q.1.overridesUpdate) (hashTable.lookup k) p
      else hashTable.lookup k := by
  by_cases hk : p.1.ref.ref = k
  · subst hk
    rw [squashStep, if_pos rfl]
    cases hlookup : hashTable.lookup p.1.ref.ref with
    | none => simp [supersede]
    | some e =>
        -- the condition of the loop is that of an overwriting, on types
        have htype : (p.1.type = .install || p.1.type = .uninstall || e.1.type = .update) =
            (p.1.overridesUpdate || !e.1.overridesUpdate) := by
          rw [FlatpakRemoteRefAction.overridesUpdate, FlatpakRemoteRefAction.overridesUpdate]
          cases e.1.type <;> simp
        simp only [supersede, htype]
        split
        · simp
        · exact hlookup
  · rw [squashStep, if_neg hk]
    split
    · simp [hk]
    · split
      · simp [hk]
      · rfl

private theorem lookup_foldl_squashStep (ps : List (FlatpakRemoteRefAction × ℕ))
    (hashTable : GHashTable FlatpakRef (FlatpakRemoteRefAction × ℕ)) (k : FlatpakRef) :
    (ps.foldl squashStep hashTable).lookup k =
      (ps.filter fun p => decide (refKey p.1 = k)).foldl
        (supersede fun q => q.1.overridesUpdate) (hashTable.lookup k) := by
  induction ps generalizing hashTable with
  | nil => rfl
  | cons p ps ih =>
      rw [List.foldl_cons, ih, lookup_squashStep]
      by_cases hk : refKey p.1 = k
      · simp [hk]
      · simp [hk]

/-- After the first loop the table holds the winner of each ref. -/
theorem lookup_squash_table (objects : List (FlatpakRemoteRefAction × ℕ)) (k : FlatpakRef) :
    (objects.foldl squashStep GHashTable.empty).lookup k =
      winner (fun q => refKey q.1) (fun q => q.1.overridesUpdate) objects k :=
  lookup_foldl_squashStep objects GHashTable.empty k

/-- If no two objects the table holds share a ref, the second loop picks just these. -/
private theorem foldl_squashCollect
    (hashTable : GHashTable FlatpakRef (FlatpakRemoteRefAction × ℕ))
    (ps : List (FlatpakRemoteRefAction × ℕ)) (squashed : List FlatpakRemoteRefAction)
    (hdistinct : (squashed ++ (ps.filter fun p => decide
      ((hashTable.lookup (refKey p.1)).map Prod.snd = some p.2)).map Prod.fst).Pairwise
        fun a b => refKey a ≠ refKey b) :
    ps.foldl (squashCollect hashTable) squashed =
      squashed ++ (ps.filter fun p => decide
        ((hashTable.lookup (refKey p.1)).map Prod.snd = some p.2)).map Prod.fst := by
  -- over the objects, for whatever has been collected
  induction ps generalizing squashed with
  | nil => simp
  | cons p ps ih =>
      by_cases hp : (hashTable.lookup (refKey p.1)).map Prod.snd = some p.2
      · rw [List.filter_cons_of_pos (by simpa using hp), List.map_cons] at hdistinct ⊢
        rw [List.append_cons] at hdistinct ⊢
        rw [List.foldl_cons, ← ih _ hdistinct]
        congr 1
        obtain ⟨q, hq, hsnd⟩ := Option.map_eq_some_iff.1 hp
        -- nothing that has been collected is on the ref of `p`
        have hnew : ¬ squashed.any fun a => a.ref.ref = p.1.ref.ref := by
          simp only [List.any_eq_true, decide_eq_true_eq, not_exists, not_and]
          intro a ha
          rw [List.append_assoc] at hdistinct
          exact (List.pairwise_append.1 hdistinct).2.2 a ha p.1 (by simp)
        simp [squashCollect, hq, hsnd, hnew]
      · rw [List.filter_cons_of_neg (by simpa using hp)] at hdistinct ⊢
        rw [List.foldl_cons, ← ih _ hdistinct]
        congr 1
        rw [squashCollect]
        split
        · rfl
        · next q hq =>
            have hne : q.2 ≠ p.2 := by
              rintro hsnd
              exact hp (by rw [hq, Option.map_some, hsnd])
            rw [if_pos hne]

/-- **Squashing is sorting the survivors.** -/
theorem squashRefActionsPtrArray_eq (refActions : List FlatpakRemoteRefAction) :
    squashRefActionsPtrArray refActions = ptrArraySort (survivors refActions) := by
  have hpick : (refActions.zipIdx.filter fun p => decide
      (((refActions.zipIdx.foldl squashStep GHashTable.empty).lookup (refKey p.1)).map Prod.snd =
        some p.2)).map Prod.fst = survivors refActions := by
    simp only [lookup_squash_table]
    rfl
  have hdistinct : (survivors refActions).Pairwise fun a b => refKey a ≠ refKey b :=
    pairwise_survivors refActions
  rw [squashRefActionsPtrArray, foldl_squashCollect _ _ [] (by rw [hpick]; exact hdistinct), hpick,
    List.nil_append]

theorem mem_squash_iff {l : List FlatpakRemoteRefAction} {a : FlatpakRemoteRefAction} :
    a ∈ squashRefActionsPtrArray l ↔ a ∈ survivors l := by
  rw [squashRefActionsPtrArray_eq, mem_ptrArraySort]

/-- Squashing keeps at most one action per ref. -/
theorem pairwise_squash (l : List FlatpakRemoteRefAction) :
    (squashRefActionsPtrArray l).Pairwise fun a b => refKey a ≠ refKey b := by
  rw [squashRefActionsPtrArray_eq]
  exact (GLib.msort_perm _).symm.pairwise (pairwise_survivors l) fun h => h.symm

/-- What is kept was there. -/
theorem mem_of_mem_squash {l : List FlatpakRemoteRefAction} {a : FlatpakRemoteRefAction}
    (h : a ∈ squashRefActionsPtrArray l) : a ∈ l :=
  (survivors_sublist refKey FlatpakRemoteRefAction.overridesUpdate l).subset (mem_squash_iff.1 h)

/-- The squashed list has no action twice. -/
theorem nodup_squash (l : List FlatpakRemoteRefAction) : (squashRefActionsPtrArray l).Nodup :=
  (pairwise_squash l).imp fun hne heq => hne (congrArg refKey heq)

/-- Squashing changes no winner. -/
theorem winner_squash (l : List FlatpakRemoteRefAction) (ref : FlatpakRef) :
    winner refKey FlatpakRemoteRefAction.overridesUpdate (squashRefActionsPtrArray l) ref =
      winner refKey FlatpakRemoteRefAction.overridesUpdate l ref := by
  ext a
  rw [winner_eq_some_iff_mem (pairwise_squash l), mem_squash_iff, mem_survivors]
  constructor
  · rintro ⟨h, rfl⟩
    exact h
  · intro h
    obtain rfl : refKey a = ref := key_of_winner h
    exact ⟨h, rfl⟩

end Euu
