import EosUpdater.GLib.HashTable
import EosUpdater.Updater.Poll
import Mathlib.Data.List.Find
import Mathlib.Data.List.MinMax

/-!
# The latest update of several fetchers

`run_fetchers` keeps what the fetchers found in a hash table under the names of their sources, and
`get_latest_update` visits this table in whatever order it iterates, to collect the updates with
the latest timestamp in a second table, of which it takes the one whose source is named first.

The order of the iteration does not matter: what `get_latest_update` returns is the first of the
latest updates in the order of the sources (`getLatestUpdate_eq`), which is what `Updater.Poll`
takes it for (`map_timed_getLatestUpdate`). A source that is listed twice keeps only what its last
successful fetcher found; `strv_to_download_order` lists none twice.
-/

namespace Updater.Fetchers

open Euu Machine Machine.Program

variable {σ ρ : Type}

/-! ### Timestamps -/

/-- `GDateTime`, in UTC: the seconds since 1970, from the year 1 to the year 9999. -/
structure GDateTime where
  unix : ℤ
  inRange : -62135596800 ≤ unix ∧ unix ≤ 253402300799

/-- `g_date_time_new_from_unix_utc`. It is irreducible, lest the bounds be unfolded. -/
@[irreducible]
def GDateTime.newFromUnixUtc (t : Int64) : Option GDateTime :=
  if h : -62135596800 ≤ t.toInt ∧ t.toInt ≤ 253402300799 then some ⟨t.toInt, h⟩ else none

/-- `g_date_time_compare`. -/
def GDateTime.compare (a b : GDateTime) : ℤ :=
  if a.unix < b.unix then -1 else if b.unix < a.unix then 1 else 0

/-- A time compares greater exactly if it is later. -/
theorem GDateTime.compare_pos_iff {a b : GDateTime} : 0 < a.compare b ↔ b.unix < a.unix := by
  rw [compare]
  split_ifs <;> grind

/-- Times compare equal exactly if they are the same. -/
theorem GDateTime.compare_eq_zero_iff {a b : GDateTime} : a.compare b = 0 ↔ a.unix = b.unix := by
  rw [compare]
  split_ifs <;> grind

/-- An update whose commit has a timestamp that a `GDateTime` can represent. The timestamp is what
`ostree_commit_get_timestamp` reads from the commit. -/
structure DatedUpdate (ρ : Type) where
  info : EosUpdateInfo ρ
  timestamp : UInt64
  representable : (GDateTime.newFromUnixUtc timestamp.toInt64).isSome = true

/-- `eos_update_info_get_commit_timestamp`. -/
def DatedUpdate.commitTimestamp (update : DatedUpdate ρ) : GDateTime :=
  (GDateTime.newFromUnixUtc update.timestamp.toInt64).get update.representable

/-- The seconds by which updates are compared. -/
def DatedUpdate.time (update : DatedUpdate ρ) : ℤ := update.commitTimestamp.unix

/-- A time can be made exactly within the years 1 to 9999. -/
theorem GDateTime.isSome_newFromUnixUtc_iff {t : Int64} :
    (newFromUnixUtc t).isSome = true ↔ -62135596800 ≤ t.toInt ∧ t.toInt ≤ 253402300799 := by
  rw [newFromUnixUtc]
  split <;> simp_all

/-- A time that can be made is the one asked for. -/
theorem GDateTime.unix_of_newFromUnixUtc {t : Int64} {time : GDateTime}
    (h : newFromUnixUtc t = some time) : time.unix = t.toInt := by
  rw [newFromUnixUtc] at h
  split at h
  · rw [← Option.some.inj h]
  · cases h

/-- The timestamp, read as a signed number. -/
theorem DatedUpdate.time_eq (update : DatedUpdate ρ) :
    update.time = update.timestamp.toInt64.toInt :=
  GDateTime.unix_of_newFromUnixUtc (Option.some_get update.representable).symm

/-! ### The tables -/

/-- `download_source_to_string`. The names are static strings, and those of different sources
differ, so that comparing them compares the pointers. -/
def downloadSourceToString : DownloadSource → String
  | .main => "main"
  | .lan => "lan"
  | .volume => "volume"

theorem downloadSourceToString_inj {source source' : DownloadSource} :
    downloadSourceToString source = downloadSourceToString source' ↔ source = source' := by
  cases source <;> cases source' <;> decide

/-- The order in which tables are iterated over: it visits each entry once. -/
structure IterationOrder (κ ν : Type) where
  visit : List (κ × ν) → List (κ × ν)
  perm : ∀ entries, (visit entries).Perm entries

/-- The updates with the latest timestamp so far, and this timestamp. -/
structure Latest (ρ : Type) where
  latest : GHashTable String (DatedUpdate ρ)
  latestTimestamp : Option GDateTime

/-- The loop body of `get_latest_update` over the entries of the table. -/
def Latest.visit (s : Latest ρ) (entry : String × DatedUpdate ρ) : Latest ρ :=
  let updateTimestamp := entry.2.commitTimestamp
  let compareValue := s.latestTimestamp.elim 1 updateTimestamp.compare
  if 0 < compareValue then ⟨GHashTable.empty.replace entry.1 entry.2, some updateTimestamp⟩
  else if compareValue = 0 then ⟨s.latest.replace entry.1 entry.2, s.latestTimestamp⟩
  else s

/-- `get_latest_update`. -/
def getLatestUpdate (order : IterationOrder String (DatedUpdate ρ)) (sources : List DownloadSource)
    (sourceToUpdate : GHashTable String (DatedUpdate ρ)) : Option (DatedUpdate ρ) :=
  let found := (order.visit sourceToUpdate.entries).foldl Latest.visit ⟨.empty, none⟩
  sources.findSome? fun source => found.latest.lookup (downloadSourceToString source)

/-- The loop of `run_fetchers`, over the fetchers with their sources. -/
def runFetchersLoop (sourceToUpdate : GHashTable String (DatedUpdate ρ)) :
    List (DownloadSource × Program σ Failure (Option (DatedUpdate ρ))) →
      Program σ Failure (GHashTable String (DatedUpdate ρ))
  | [] => return sourceToUpdate
  | (source, fetcher) :: fetchers => do
      match ← attempt fetcher with
      | .error e =>
          if e.code = .ioCancelled then throw (.error e)
          else runFetchersLoop sourceToUpdate fetchers
      | .ok none => runFetchersLoop sourceToUpdate fetchers
      | .ok (some info) =>
          runFetchersLoop (sourceToUpdate.replace (downloadSourceToString source) info) fetchers

/-- `run_fetchers`. It wants as many fetchers as sources, and returns nothing otherwise. -/
def runFetchers (order : IterationOrder String (DatedUpdate ρ))
    (fetchers : List (Program σ Failure (Option (DatedUpdate ρ))))
    (sources : List DownloadSource) : Program σ Failure (Option (EosUpdateInfo ρ)) :=
  if fetchers.length ≠ sources.length then return none
  else do
    let sourceToUpdate ← runFetchersLoop .empty (sources.zip fetchers)
    if 0 < sourceToUpdate.entries.length then
      return (getLatestUpdate order sources sourceToUpdate).map (·.info)
    else return none

/-! ### The latest updates -/

/-- What the loop of `get_latest_update` keeps of the entries it has seen, the last one first: the
latest timestamp, and those that have it. -/
structure Latest.Holds (s : Latest ρ) (seen : List (String × DatedUpdate ρ)) : Prop where
  lookup_iff : ∀ name update, s.latest.lookup name = some update ↔
    (name, update) ∈ seen ∧ ∃ t, s.latestTimestamp = some t ∧ update.time = t.unix
  seen_of_none : s.latestTimestamp = none → seen = []
  reached : ∀ t, s.latestTimestamp = some t → ∃ e ∈ seen, e.2.time = t.unix
  le_latest : ∀ t, s.latestTimestamp = some t → ∀ e ∈ seen, e.2.time ≤ t.unix

variable {s : Latest ρ} {seen : List (String × DatedUpdate ρ)} {name : String}
  {update : DatedUpdate ρ}

theorem Latest.holds_nil : (⟨.empty, none⟩ : Latest ρ).Holds [] where
  lookup_iff := by simp
  seen_of_none := fun _ => rfl
  reached := by simp
  le_latest := by simp

/-- The table has exactly the entries that no other one is later than. -/
theorem Latest.Holds.lookup_eq_some_iff (h : s.Holds seen) : s.latest.lookup name = some update ↔
    (name, update) ∈ seen ∧ ∀ e ∈ seen, e.2.time ≤ update.time := by
  rw [h.lookup_iff]
  refine and_congr_right fun hmem => ⟨?_, fun hmax => ?_⟩
  · rintro ⟨t, ht, htime⟩ e he
    rw [htime]
    exact h.le_latest t ht e he
  · cases ht : s.latestTimestamp with
    | none => rw [h.seen_of_none ht] at hmem; cases hmem
    | some t =>
        obtain ⟨e, he, htime⟩ := h.reached t ht
        have hle : update.time ≤ t.unix := h.le_latest t ht _ hmem
        exact ⟨t, rfl, hle.antisymm (htime.symm.le.trans (hmax e he))⟩

/-- An entry that is later than all before it starts the table anew. -/
theorem Latest.holds_of_later (hlater : ∀ e ∈ seen, e.2.time < update.time) :
    (⟨GHashTable.empty.replace name update, some update.commitTimestamp⟩ : Latest ρ).Holds
      ((name, update) :: seen) where
  lookup_iff := by
    intro name' update'
    rw [GHashTable.lookup_replace, GHashTable.lookup_empty]
    constructor
    · intro h
      split at h
      · next hname =>
        rw [← Option.some.inj h, ← hname]
        exact ⟨List.mem_cons_self, _, rfl, rfl⟩
      · cases h
    · rintro ⟨hmem, t, ht, htime⟩
      rw [← Option.some.inj ht] at htime
      rcases List.mem_cons.1 hmem with heq | hseen
      · rw [(Prod.mk.inj heq).1, (Prod.mk.inj heq).2, if_pos rfl]
      · exact absurd htime (hlater _ hseen).ne
  seen_of_none := fun hnone => absurd hnone (Option.some_ne_none _)
  reached := by
    intro t ht
    rw [← Option.some.inj ht]
    exact ⟨_, List.mem_cons_self, rfl⟩
  le_latest := by
    intro t ht e he
    rw [← Option.some.inj ht]
    rcases List.mem_cons.1 he with rfl | hseen
    · exact le_rfl
    · exact (hlater e hseen).le

/-- With a latest timestamp, the table has the entries that have it. -/
theorem Latest.Holds.lookup_of_some {t : GDateTime} (h : s.Holds seen)
    (ht : s.latestTimestamp = some t) (name : String) (update : DatedUpdate ρ) :
    s.latest.lookup name = some update ↔ (name, update) ∈ seen ∧ update.time = t.unix := by
  rw [h.lookup_iff, ht]
  simp

/-- An entry that is not later than the latest before it leaves the timestamp as it was. -/
theorem Latest.Holds.of_not_later {s' : Latest ρ} {t : GDateTime} (h : s.Holds seen)
    (ht : s.latestTimestamp = some t) (hs' : s'.latestTimestamp = some t)
    (htime : update.time ≤ t.unix)
    (hlookup : ∀ name' update', s'.latest.lookup name' = some update' ↔
      (name', update') ∈ (name, update) :: seen ∧ update'.time = t.unix) :
    s'.Holds ((name, update) :: seen) where
  lookup_iff := by
    intro name' update'
    rw [hlookup, hs']
    simp
  seen_of_none := fun hnone => by rw [hs'] at hnone; cases hnone
  reached := by
    intro t' ht'
    rw [hs', ← ht] at ht'
    exact (h.reached t' ht').imp fun _ he => ⟨List.mem_cons_of_mem _ he.1, he.2⟩
  le_latest := by
    intro t' ht' e he
    rcases List.mem_cons.1 he with rfl | hseen
    · rwa [← Option.some.inj (hs'.symm.trans ht')]
    · rw [hs', ← ht] at ht'
      exact h.le_latest t' ht' e hseen

/-- An entry that is as late as the latest before it joins them. -/
theorem Latest.Holds.join {t : GDateTime} (h : s.Holds seen) (hnew : name ∉ seen.map Prod.fst)
    (ht : s.latestTimestamp = some t) (htime : update.time = t.unix) :
    (⟨s.latest.replace name update, s.latestTimestamp⟩ : Latest ρ).Holds
      ((name, update) :: seen) := by
  refine h.of_not_later ht ht htime.le fun name' update' => ?_
  rw [GHashTable.lookup_replace, List.mem_cons, Prod.mk.injEq]
  by_cases hname : name = name'
  · subst hname
    -- no entry before has this name
    have hseen : (name, update') ∉ seen := fun hmem => hnew (List.mem_map_of_mem hmem)
    rw [if_pos rfl, Option.some_inj]
    constructor
    · rintro rfl
      exact ⟨Or.inl ⟨rfl, rfl⟩, htime⟩
    · rintro ⟨⟨-, rfl⟩ | hmem, -⟩
      · rfl
      · exact absurd hmem hseen
  · rw [if_neg hname, h.lookup_of_some ht]
    simp [Ne.symm hname]

/-- An entry that is older than the latest before it changes nothing. -/
theorem Latest.Holds.skip {t : GDateTime} (h : s.Holds seen) (ht : s.latestTimestamp = some t)
    (htime : update.time < t.unix) : s.Holds ((name, update) :: seen) := by
  refine h.of_not_later ht ht htime.le fun name' update' => ?_
  rw [h.lookup_of_some ht, List.mem_cons, Prod.mk.injEq]
  refine and_congr_left fun htime' => ⟨Or.inr, fun hmem => hmem.resolve_left ?_⟩
  rintro ⟨-, rfl⟩
  exact htime.ne htime'

/-- One entry, whose name has not been seen. -/
theorem Latest.Holds.visit (h : s.Holds seen) (hnew : name ∉ seen.map Prod.fst) :
    (s.visit (name, update)).Holds ((name, update) :: seen) := by
  rw [Latest.visit]
  cases ht : s.latestTimestamp with
  | none =>
      rw [h.seen_of_none ht]
      exact holds_of_later (by simp)
  | some t =>
      simp only [Option.elim_some, GDateTime.compare_pos_iff, GDateTime.compare_eq_zero_iff]
      split_ifs with hlater heq
      · exact holds_of_later fun e he => (h.le_latest t ht e he).trans_lt hlater
      · rw [← ht]
        exact h.join hnew ht heq
      · exact h.skip ht (lt_of_le_of_ne (not_lt.1 hlater) heq)

/-- The whole iteration, over entries whose names are all different. -/
theorem Latest.Holds.foldl {entries : List (String × DatedUpdate ρ)} (h : s.Holds seen)
    (hnodup : ((entries.reverse ++ seen).map Prod.fst).Nodup) :
    (entries.foldl Latest.visit s).Holds (entries.reverse ++ seen) := by
  induction entries generalizing s seen with
  | nil => exact h
  | cons e entries ih =>
      rw [List.reverse_cons, List.append_assoc, List.singleton_append] at hnodup ⊢
      refine ih (h.visit fun hmem => ?_) hnodup
      rw [List.map_append, List.nodup_append, List.map_cons, List.nodup_cons] at hnodup
      exact hnodup.2.1.1 hmem

/-- The order in which the entries are stored. -/
def IterationOrder.asStored {κ ν : Type} : IterationOrder κ ν := ⟨id, fun _ => List.Perm.refl _⟩

/-- Every order visits the entries of the table. -/
theorem IterationOrder.mem_visit_iff (order : IterationOrder String (DatedUpdate ρ))
    (table : GHashTable String (DatedUpdate ρ)) :
    (name, update) ∈ order.visit table.entries ↔ table.lookup name = some update := by
  rw [(order.perm table.entries).mem_iff, table.mem_entries_iff]

/-- Whatever the order of the iteration, it ends with the entries that no other is later than. -/
theorem lookup_latest (order : IterationOrder String (DatedUpdate ρ))
    (table : GHashTable String (DatedUpdate ρ)) :
    ((order.visit table.entries).foldl Latest.visit ⟨.empty, none⟩).latest.lookup name =
        some update ↔
      table.lookup name = some update ∧
        ∀ name' update', table.lookup name' = some update' → update'.time ≤ update.time := by
  have hnodup : (((order.visit table.entries).reverse ++ []).map Prod.fst).Nodup := by
    rw [List.append_nil, List.map_reverse, List.nodup_reverse]
    exact ((order.perm table.entries).map Prod.fst).nodup_iff.2 table.nodup
  have hholds := Latest.holds_nil.foldl hnodup
  rw [hholds.lookup_eq_some_iff, List.append_nil, List.mem_reverse, order.mem_visit_iff]
  refine and_congr_right fun _ => ⟨fun hmax name' update' h => ?_, fun hmax e he => ?_⟩
  · exact hmax (name', update') (List.mem_reverse.2 ((order.mem_visit_iff table).2 h))
  · exact hmax e.1 e.2 ((order.mem_visit_iff table).1 (List.mem_reverse.1 he))

/-- The updates of a table in the order of their sources. -/
def inOrder (sources : List DownloadSource) (table : GHashTable String (DatedUpdate ρ)) :
    List (DatedUpdate ρ) :=
  sources.filterMap fun source => table.lookup (downloadSourceToString source)

theorem mem_inOrder {sources : List DownloadSource} {table : GHashTable String (DatedUpdate ρ)} :
    update ∈ inOrder sources table ↔
      ∃ source ∈ sources, table.lookup (downloadSourceToString source) = some update :=
  List.mem_filterMap

private theorem find?_filterMap_eq {α β : Type} {f g : α → Option β} {p : β → Bool} {l : List α}
    (h : ∀ a ∈ l, ∀ b, g a = some b ↔ f a = some b ∧ p b = true) :
    l.findSome? g = (l.filterMap f).find? p := by
  induction l with
  | nil => rfl
  | cons a l ih =>
      have hrest := ih fun a' ha' => h a' (List.mem_cons_of_mem a ha')
      have ha := h a List.mem_cons_self
      -- where `f` has nothing that meets `p`, `g` has nothing at all
      have hnone : (∀ b, f a = some b → p b = false) → g a = none := fun hfalse => by
        rw [Option.eq_none_iff_forall_ne_some]
        intro b hb
        obtain ⟨hf, hp⟩ := (ha b).1 hb
        rw [hfalse b hf] at hp
        cases hp
      rw [List.findSome?_cons, List.filterMap_cons]
      cases hf : f a with
      | none => rw [hnone (fun b hb => by rw [hf] at hb; cases hb), hrest]
      | some b =>
          rw [List.find?_cons]
          cases hp : p b with
          | true => rw [(ha b).2 ⟨hf, hp⟩]
          | false =>
              have hfalse : ∀ b', f a = some b' → p b' = false := fun b' hb' => by
                rw [hf] at hb'
                rw [← Option.some.inj hb', hp]
              rw [hnone hfalse, hrest]

/-- **The order of the iteration does not matter.** `get_latest_update` returns the first of the
latest updates in the order of the sources, provided that the names in the table are theirs. -/
theorem getLatestUpdate_eq (order : IterationOrder String (DatedUpdate ρ))
    {sources : List DownloadSource} {table : GHashTable String (DatedUpdate ρ)}
    (hnames : ∀ name update, table.lookup name = some update →
      ∃ source ∈ sources, name = downloadSourceToString source) :
    getLatestUpdate order sources table = (inOrder sources table).find? fun update =>
      (inOrder sources table).all fun other => other.time ≤ update.time := by
  refine find?_filterMap_eq fun source _ update => ?_
  rw [lookup_latest, List.all_eq_true]
  simp only [decide_eq_true_eq, mem_inOrder]
  refine and_congr_right fun _ => ⟨?_, fun hmax name other h => ?_⟩
  · rintro hmax other ⟨source', -, h⟩
    exact hmax _ other h
  · obtain ⟨source', hsource', rfl⟩ := hnames name other h
    exact hmax other ⟨source', hsource', h⟩

/-- An update with its timestamp, as polls see it. -/
def DatedUpdate.timed (update : DatedUpdate ρ) : TimedUpdate ρ :=
  ⟨update.info, update.timestamp.toNat⟩

/-- A timestamp below 2^63 is kept as a time. -/
theorem DatedUpdate.time_eq_timed (h : update.timestamp.toNat < 2 ^ 63) :
    update.time = update.timed.timestamp := by
  rw [update.time_eq, timed, ← Int64.toInt_toBitVec, UInt64.toBitVec_toInt64,
    BitVec.toInt_eq_toNat_of_lt (by rw [UInt64.toNat_toBitVec]; omega), UInt64.toNat_toBitVec]

/-- Polls pick the same update from those of the table, in the order of their sources. -/
theorem map_timed_getLatestUpdate (order : IterationOrder String (DatedUpdate ρ))
    {sources : List DownloadSource} {table : GHashTable String (DatedUpdate ρ)}
    (hnames : ∀ name update, table.lookup name = some update →
      ∃ source ∈ sources, name = downloadSourceToString source)
    (hsmall : ∀ name update, table.lookup name = some update → update.timestamp.toNat < 2 ^ 63) :
    (getLatestUpdate order sources table).map (·.timed) =
      Updater.getLatestUpdate ((inOrder sources table).map (·.timed)) := by
  have htime : ∀ update ∈ inOrder sources table, update.time = update.timed.timestamp := by
    intro update hmem
    obtain ⟨source, -, hlookup⟩ := mem_inOrder.1 hmem
    exact DatedUpdate.time_eq_timed (hsmall _ _ hlookup)
  rw [getLatestUpdate_eq order hnames, Updater.getLatestUpdate, List.find?_map]
  congr 1
  refine List.find?_congr fun update hmem => ?_
  rw [Function.comp_apply, List.all_map, Bool.eq_iff_iff, List.all_eq_true, List.all_eq_true]
  refine forall₂_congr fun other hother => ?_
  rw [Function.comp_apply, decide_eq_true_eq, decide_eq_true_eq, htime update hmem,
    htime other hother, Int.ofNat_le]

/-! ### What the fetchers found -/

/-- The fetchers, run one after the other, come to these results. -/
inductive Answers : List (Program σ Failure (Option (DatedUpdate ρ))) → σ →
    List (Except GError (Option (DatedUpdate ρ))) → σ → Prop
  | nil (s : σ) : Answers [] s [] s
  | cons {fetcher fetchers result results} {s t u : σ}
      (first : fetcher.Ends s (result.mapError .error) t) (rest : Answers fetchers t results u) :
      Answers (fetcher :: fetchers) s (result :: results) u

/-- The results of the fetchers, with their sources. -/
abbrev Results (ρ : Type) : Type := List (DownloadSource × Except GError (Option (DatedUpdate ρ)))

/-- The update is the last one that was found for the source. -/
def LastFound (found : Results ρ) (source : DownloadSource) (update : DatedUpdate ρ) : Prop :=
  ∃ before after, found = before ++ (source, .ok (some update)) :: after ∧
    ∀ later, (source, .ok (some later)) ∉ after

/-- What a result of a fetcher does to the table. -/
def store (table : GHashTable String (DatedUpdate ρ)) :
    DownloadSource × Except GError (Option (DatedUpdate ρ)) → GHashTable String (DatedUpdate ρ)
  | (source, .ok (some update)) => table.replace (downloadSourceToString source) update
  | _ => table

variable {source : DownloadSource} {found : Results ρ} {s t : σ}
  {fetchers : List (Program σ Failure (Option (DatedUpdate ρ)))}
  {result : Except GError (Option (DatedUpdate ρ))}

/-- What a source found last is among what was found. -/
theorem LastFound.mem (h : LastFound found source update) :
    (source, .ok (some update)) ∈ found := by
  obtain ⟨before, after, rfl, -⟩ := h
  simp

/-- One result more: it is the last one if it is an update for this source, and changes nothing
otherwise. -/
theorem lastFound_concat {source' : DownloadSource} : LastFound (found ++ [(source', result)])
      source update ↔
    (source', result) = (source, .ok (some update)) ∨
      (LastFound found source update ∧
        ∀ later, (source', result) ≠ (source, .ok (some later))) := by
  constructor
  · rintro ⟨before, after, heq, hafter⟩
    rcases List.eq_nil_or_concat' after with rfl | ⟨after, last, rfl⟩
    · exact Or.inl (List.cons.inj (List.append_inj' heq rfl).2).1
    · rw [← List.cons_append, ← List.append_assoc] at heq
      obtain ⟨rfl, hlast⟩ := List.append_inj' heq rfl
      cases hlast
      refine Or.inr ⟨⟨before, after, rfl, fun later hmem => ?_⟩, fun later heq => ?_⟩
      · exact hafter later (List.mem_append_left _ hmem)
      · exact hafter later (List.mem_append_right _ (by rw [heq]; exact List.mem_singleton_self _))
  · rintro (heq | ⟨⟨before, after, rfl, hafter⟩, hother⟩)
    · exact ⟨found, [], by rw [heq], by simp⟩
    · refine ⟨before, after ++ [(source', result)], by simp, fun later hmem => ?_⟩
      rcases List.mem_append.1 hmem with hmem | hmem
      · exact hafter later hmem
      · exact hother later (List.mem_singleton.1 hmem).symm

/-- A source that is listed once keeps whatever it has found. -/
theorem lastFound_iff_mem (hnodup : (found.map Prod.fst).Nodup) :
    LastFound found source update ↔ (source, .ok (some update)) ∈ found := by
  refine ⟨LastFound.mem, fun hmem => ?_⟩
  obtain ⟨before, after, rfl⟩ := List.append_of_mem hmem
  refine ⟨before, after, rfl, fun later hlater => ?_⟩
  rw [List.map_append, List.map_cons, List.nodup_append, List.nodup_cons] at hnodup
  exact hnodup.2.1.1 (List.mem_map.2 ⟨_, hlater, rfl⟩)

/-- Wherever something was found for a source, something was found last. -/
theorem exists_lastFound (h : (source, .ok (some update)) ∈ found) :
    ∃ last, LastFound found source last := by
  induction found using List.reverseRecOn with
  | nil => cases h
  | append_singleton found e ih =>
      by_cases hlast : ∃ last, e = (source, .ok (some last))
      · obtain ⟨last, rfl⟩ := hlast
        exact ⟨last, lastFound_concat.2 (Or.inl rfl)⟩
      · have hmem : (source, .ok (some update)) ∈ found := by
          rcases List.mem_append.1 h with hmem | hmem
          · exact hmem
          · exact absurd ⟨update, (List.mem_singleton.1 hmem).symm⟩ hlast
        obtain ⟨last, hfound⟩ := ih hmem
        exact ⟨last, lastFound_concat.2 (Or.inr ⟨hfound, fun later heq => hlast ⟨later, heq⟩⟩)⟩

/-- What is no update is not stored. -/
theorem store_of_forall_ne {table : GHashTable String (DatedUpdate ρ)}
    (h : ∀ update, result ≠ .ok (some update)) : store table (source, result) = table := by
  rcases result with e | _ | update
  · rfl
  · rfl
  · exact absurd rfl (h update)

/-- The table of `run_fetchers` has the update that was found last under the name of each source,
and nothing else. -/
theorem lookup_store : (found.foldl store GHashTable.empty).lookup name = some update ↔
    ∃ source, name = downloadSourceToString source ∧ LastFound found source update := by
  induction found using List.reverseRecOn with
  | nil =>
      have hnone : ∀ source, ¬ LastFound ([] : Results ρ) source update := fun _ h => by
        cases h.mem
      simp [hnone]
  | append_singleton found e ih =>
      obtain ⟨source', result⟩ := e
      rw [List.foldl_append, List.foldl_cons, List.foldl_nil]
      simp only [lastFound_concat]
      by_cases hresult : ∃ found', result = .ok (some found')
      · -- the update found last replaces an earlier one of its source, and only that
        obtain ⟨update', rfl⟩ := hresult
        rw [store, GHashTable.lookup_replace]
        split
        · next hname =>
          subst hname
          simp [downloadSourceToString_inj]
        · next hname =>
          rw [ih]
          refine exists_congr fun source => and_congr_right fun hsource => ?_
          have hne : source' ≠ source := fun h => hname (h ▸ hsource.symm)
          simp [hne]
      · rw [store_of_forall_ne fun update' heq => hresult ⟨update', heq⟩, ih]
        refine exists_congr fun source => and_congr_right fun hsource => ?_
        have hne : ∀ later, (source', result) ≠ (source, .ok (some later)) :=
          fun later heq => hresult ⟨later, (Prod.mk.inj heq).2⟩
        simp [hne]

/-- The loop over the fetchers, none of which is cancelled, stores what they have found. -/
theorem ends_runFetchersLoop (hrun : Answers fetchers s (found.map Prod.snd) t)
    (hcancelled : ∀ source e, (source, .error e) ∈ found → e.code ≠ .ioCancelled)
    (table : GHashTable String (DatedUpdate ρ)) :
    (runFetchersLoop table ((found.map Prod.fst).zip fetchers)).Ends s
      (.ok (found.foldl store table)) t := by
  induction found generalizing fetchers s table with
  | nil =>
      cases hrun
      exact ends_pure.2 ⟨rfl, rfl⟩
  | cons e found ih =>
      obtain ⟨source, result⟩ := e
      obtain _ | ⟨first, rest⟩ := hrun
      have hrest := ih rest fun source e he => hcancelled source e (List.mem_cons_of_mem _ he)
      refine (ends_bind_of_ok (ends_attempt.2 first)).2 ?_
      rcases result with e | _ | update
      · have he := hcancelled source e List.mem_cons_self
        simp only [if_neg he]
        exact hrest table
      · exact hrest table
      · exact hrest (table.replace (downloadSourceToString source) update)

/-- An update with the latest timestamp of all that count, and of those the one whose source is
listed first. -/
def Newest (sources : List DownloadSource) (counts : DownloadSource → DatedUpdate ρ → Prop)
    (update : DatedUpdate ρ) : Prop :=
  ∃ source, counts source update ∧ ∀ source' other, counts source' other →
    other.time < update.time ∨
      (other.time = update.time ∧ sources.idxOf source ≤ sources.idxOf source')

/-- What `get_latest_update` returns of the updates that were found last. -/
theorem newest_of_getLatestUpdate {order : IterationOrder String (DatedUpdate ρ)}
    (h : getLatestUpdate order (found.map Prod.fst) (found.foldl store .empty) = some update) :
    Newest (found.map Prod.fst) (LastFound found) update := by
  rw [getLatestUpdate, List.findSome?_eq_some_iff] at h
  obtain ⟨before, source, after, hsources, hlookup, hbefore⟩ := h
  rw [lookup_latest, lookup_store] at hlookup
  obtain ⟨⟨source₀, hname, hfound⟩, hmax⟩ := hlookup
  obtain rfl := downloadSourceToString_inj.1 hname
  -- a source in front of this one, with an update as late, would have been taken
  have hnot : ∀ source' other, LastFound found source' other → other.time = update.time →
      source' ∉ before := by
    intro source' other hother heq hmem
    have hnone := hbefore source' hmem
    rw [Option.eq_none_iff_forall_ne_some] at hnone
    have hlast := lookup_store.2 ⟨source', rfl, hother⟩
    exact hnone other ((lookup_latest _ _).2 ⟨hlast, fun name later hlater =>
      (hmax name later hlater).trans heq.ge⟩)
  refine ⟨source, hfound, fun source' other hother => ?_⟩
  have hle := hmax _ other (lookup_store.2 ⟨source', rfl, hother⟩)
  refine hle.lt_or_eq.imp_right fun heq => ⟨heq, ?_⟩
  rw [hsources, List.idxOf_append_of_notMem (hnot source update hfound rfl),
    List.idxOf_append_of_notMem (hnot source' other hother heq), List.idxOf_cons_self]
  omega

theorem names_of_store (h : (found.foldl store GHashTable.empty).lookup name = some update) :
    ∃ source ∈ found.map Prod.fst, name = downloadSourceToString source := by
  obtain ⟨source, rfl, hlast⟩ := lookup_store.1 h
  exact ⟨source, List.mem_map_of_mem hlast.mem, rfl⟩

/-- Where something was found, one of the updates is the latest. -/
theorem isSome_getLatestUpdate (order : IterationOrder String (DatedUpdate ρ))
    (h : (source, .ok (some update)) ∈ found) :
    (getLatestUpdate order (found.map Prod.fst) (found.foldl store .empty)).isSome = true := by
  rw [getLatestUpdate_eq order fun _ _ => names_of_store, List.find?_isSome]
  obtain ⟨last, hlast⟩ := exists_lastFound h
  have hmem : last ∈ inOrder (found.map Prod.fst) (found.foldl store .empty) :=
    mem_inOrder.2 ⟨source, List.mem_map_of_mem h, lookup_store.2 ⟨source, rfl, hlast⟩⟩
  cases hmax : (inOrder (found.map Prod.fst) (found.foldl store .empty)).argmax
      DatedUpdate.time with
  | none => rw [List.argmax_eq_none.1 hmax] at hmem; cases hmem
  | some newest =>
      refine ⟨newest, List.argmax_mem hmax, List.all_eq_true.2 fun other hother => ?_⟩
      exact decide_eq_true (List.le_of_mem_argmax hother hmax)

theorem Answers.length_eq {results : List (Except GError (Option (DatedUpdate ρ)))}
    (h : Answers fetchers s results t) : fetchers.length = results.length := by
  induction h with
  | nil => rfl
  | cons _ _ ih => rw [List.length_cons, List.length_cons, ih]

theorem getLatestUpdate_of_empty (order : IterationOrder String (DatedUpdate ρ))
    {sources : List DownloadSource} {table : GHashTable String (DatedUpdate ρ)}
    (h : table.entries = []) : getLatestUpdate order sources table = none := by
  have hvisit : order.visit [] = [] := (order.perm []).eq_nil
  rw [getLatestUpdate, h, hvisit, List.findSome?_eq_none_iff]
  exact fun _ _ => rfl

/-- What `run_fetchers` comes to: the size of the table makes no difference. -/
theorem ends_runFetchers (hrun : Answers fetchers s (found.map Prod.snd) t)
    (hcancelled : ∀ source e, (source, .error e) ∈ found → e.code ≠ .ioCancelled)
    (order : IterationOrder String (DatedUpdate ρ)) :
    (runFetchers order fetchers (found.map Prod.fst)).Ends s
      (.ok ((getLatestUpdate order (found.map Prod.fst) (found.foldl store .empty)).map (·.info)))
      t := by
  have hlen : fetchers.length = (found.map Prod.fst).length := by
    rw [hrun.length_eq, List.length_map, List.length_map]
  rw [runFetchers, if_neg (not_not.2 hlen)]
  refine (ends_bind_of_ok (ends_runFetchersLoop hrun hcancelled .empty)).2 ?_
  split
  · exact ends_pure.2 ⟨rfl, rfl⟩
  · next hsize =>
    rw [getLatestUpdate_of_empty order (List.length_eq_zero_iff.1 (by omega))]
    exact ends_pure.2 ⟨rfl, rfl⟩

/-- What `run_fetchers` returns, for any list of sources: of a source that is listed more than once,
what was found last counts. -/
theorem runFetchers_newestOfLast (hrun : Answers fetchers s (found.map Prod.snd) t)
    (hcancelled : ∀ source e, (source, .error e) ∈ found → e.code ≠ .ioCancelled) :
    ∃ returned : Option (DatedUpdate ρ),
      (∀ order, (runFetchers order fetchers (found.map Prod.fst)).Ends s
        (.ok (returned.map (·.info))) t) ∧
      (returned = none ↔ ∀ source update, (source, .ok (some update)) ∉ found) ∧
      ∀ update, returned = some update →
        Newest (found.map Prod.fst) (LastFound found) update := by
  refine ⟨getLatestUpdate .asStored (found.map Prod.fst) (found.foldl store .empty),
    fun order => ?_, ⟨fun hnone source update hmem => ?_, fun hnothing => ?_⟩,
    fun update => newest_of_getLatestUpdate⟩
  · rw [getLatestUpdate_eq IterationOrder.asStored fun _ _ => names_of_store,
      ← getLatestUpdate_eq order fun _ _ => names_of_store]
    exact ends_runFetchers hrun hcancelled order
  · have hsome := isSome_getLatestUpdate IterationOrder.asStored hmem
    rw [hnone] at hsome
    cases hsome
  · rw [Option.eq_none_iff_forall_ne_some]
    intro update hreturned
    obtain ⟨source, hlast, -⟩ := newest_of_getLatestUpdate hreturned
    exact hnothing source update hlast.mem

/-- **The newest update wins, whatever the order of the iteration.** If none of the fetchers is
cancelled and no source is listed twice, `run_fetchers` returns an update with the latest timestamp
of all that were found, and of these the one whose source is listed first; it returns none exactly
if nothing was found. -/
theorem runFetchers_newest (hrun : Answers fetchers s (found.map Prod.snd) t)
    (hcancelled : ∀ source e, (source, .error e) ∈ found → e.code ≠ .ioCancelled)
    (hnodup : (found.map Prod.fst).Nodup) :
    ∃ returned : Option (DatedUpdate ρ),
      (∀ order, (runFetchers order fetchers (found.map Prod.fst)).Ends s
        (.ok (returned.map (·.info))) t) ∧
      (returned = none ↔ ∀ source update, (source, .ok (some update)) ∉ found) ∧
      ∀ update, returned = some update →
        Newest (found.map Prod.fst) (fun source update => (source, .ok (some update)) ∈ found)
          update := by
  obtain ⟨returned, hends, hnone, hnewest⟩ := runFetchers_newestOfLast hrun hcancelled
  refine ⟨returned, hends, hnone, fun update hreturned => ?_⟩
  have hlast : LastFound found = fun source update => (source, .ok (some update)) ∈ found :=
    funext fun source => funext fun update => propext (lastFound_iff_mem hnodup)
  rw [← hlast]
  exact hnewest update hreturned

/-! ### An example -/

/-- An update whose commit was made so many seconds after 1970. -/
def updateAt (timestamp : UInt64)
    (h : -62135596800 ≤ timestamp.toInt64.toInt ∧ timestamp.toInt64.toInt ≤ 253402300799) :
    DatedUpdate Unit where
  info :=
    { checksum := toString timestamp, commit := { subject := "", body := "" }
      newRefspec := "eos:os/eos/amd64/eos4", oldRefspec := "eos:os/eos/amd64/eos4"
      version := none, urls := none, offlineResultsOnly := false, isUserVisible := true
      releaseNotesUri := none, results := none }
  timestamp := timestamp
  representable := GDateTime.isSome_newFromUnixUtc_iff.2 h

/-- The first and the second second. -/
def first : DatedUpdate Unit := updateAt 1 (by decide)

def second : DatedUpdate Unit := updateAt 2 (by decide)

/-- A fetcher that comes to this result. -/
def fetcherOf (result : Except GError (Option (DatedUpdate Unit))) :
    Program Unit Failure (Option (DatedUpdate Unit)) := query fun _ => result.mapError .error

/-- Fetchers of given results answer with these. -/
theorem answers_fetcherOf (results : List (Except GError (Option (DatedUpdate Unit)))) :
    Answers (results.map fetcherOf) () results () := by
  induction results with
  | nil => exact .nil ()
  | cons result results ih => exact .cons (ends_query.2 ⟨rfl, rfl⟩) ih

/-- The search of the local network fails, and of the main source and a volume, the volume has the
newer update. -/
def lanFails : Results Unit :=
  [(.lan, .error ⟨.ioFailed, "No peers"⟩), (.main, .ok (some first)), (.volume, .ok (some second))]

/-- Where the local network fails, the update of the main server is returned. -/
theorem runFetchers_newest_lanFails :
    ∃ returned : Option (DatedUpdate Unit),
      (∀ order, (runFetchers order ((lanFails.map Prod.snd).map fetcherOf)
        (lanFails.map Prod.fst)).Ends () (.ok (returned.map (·.info))) ()) ∧
      (returned = none ↔ ∀ source update, (source, .ok (some update)) ∉ lanFails) ∧
      ∀ update, returned = some update →
        Newest (lanFails.map Prod.fst)
          (fun source update => (source, .ok (some update)) ∈ lanFails) update := by
  refine runFetchers_newest (answers_fetcherOf _) (fun source e he => ?_) (by decide)
  simp only [lanFails, List.mem_cons, Prod.mk.injEq, Except.error.injEq, reduceCtorEq, and_false,
    or_false, List.not_mem_nil] at he
  rw [he.2]
  decide

end Updater.Fetchers
