import EosUpdater.Flatpak.Table

/-!
# What flattening selects, and in which order

`mem_flatten_filtered` is the general result on filtered tables; `mem_flatten_new` and
`mem_flatten_existing` are its instances for the two filters. `pairwise_flatten_filtered` gives the
order of a flattened list as long as no comparison overflows.

The documented order is `documentedActions`: the concatenation of the files in filename order,
less the entries that lose. Flattening agrees with it exactly on the tables in which the winners'
serials do not descend from one file to a later one
(`flatten_eq_documented_iff`).
-/

namespace Euu

open Overwrite

/-! ### Filtering by progress -/

/-- Behind an action beyond the progress there are only such actions. -/
def Divided (progress : Int32) (l : List FlatpakRemoteRefAction) : Prop :=
  l.Pairwise fun a b => progress < a.serial → progress < b.serial

/-- Ascending serials are divided by every progress. -/
theorem divided_of_ascending (progress : Int32) {l : List FlatpakRemoteRefAction}
    (hasc : l.Pairwise fun a b => a.serial.toInt < b.serial.toInt) : Divided progress l := by
  refine hasc.imp fun {a b} hab ha => ?_
  rw [Int32.lt_iff_toInt_lt] at ha ⊢
  exact ha.trans hab

/-- Then dropping up to the first new action drops just the old ones. -/
theorem Divided.dropWhile_eq_filter {progress : Int32} {l : List FlatpakRemoteRefAction}
    (h : Divided progress l) : l.dropWhile (fun a => !decide (a.serial > progress)) =
      l.filter fun a => decide (progress < a.serial) := by
  induction l with
  | nil => rfl
  | cons a l ih =>
      rw [Divided, List.pairwise_cons] at h
      by_cases ha : progress < a.serial
      · have hall : ∀ b ∈ l, progress < b.serial := fun b hb => h.1 b hb ha
        rw [List.dropWhile_cons_of_neg (by simpa using ha),
          List.filter_cons_of_pos (by simpa using ha),
          List.filter_eq_self.2 fun b hb => by simpa using hall b hb]
      · rw [List.dropWhile_cons_of_pos (by simpa using ha),
          List.filter_cons_of_neg (by simpa using ha), ih h.2]

/-- And taking up to the first new action takes just the old ones. -/
theorem Divided.takeWhile_eq_filter {progress : Int32} {l : List FlatpakRemoteRefAction}
    (h : Divided progress l) : l.takeWhile (fun a => !decide (a.serial > progress)) =
      l.filter fun a => decide (a.serial ≤ progress) := by
  induction l with
  | nil => rfl
  | cons a l ih =>
      rw [Divided, List.pairwise_cons] at h
      by_cases ha : progress < a.serial
      · -- the search stops here, and no old action comes later
        have hall : ∀ b ∈ a :: l, ¬ b.serial ≤ progress := fun b hb => Int32.not_le.2 <| by
          rcases List.mem_cons.1 hb with rfl | hb
          · exact ha
          · exact h.1 b hb ha
        rw [List.takeWhile_cons_of_neg (by simpa using ha),
          List.filter_eq_nil_iff.2 fun b hb => by simpa using hall b hb]
      · have hle : a.serial ≤ progress := Int32.not_lt.1 ha
        rw [List.takeWhile_cons_of_pos (by simpa using ha),
          List.filter_cons_of_pos (by simpa using hle), ih h.2]

theorem keepOnlyNewActions_sublist (progresses : Progresses) (name : String)
    (l : List FlatpakRemoteRefAction) : (keepOnlyNewActions progresses name l).Sublist l := by
  rw [keepOnlyNewActions]
  split
  · exact List.Sublist.refl _
  · exact List.dropWhile_sublist _

theorem keepOnlyExistingActions_sublist (progresses : Progresses) (name : String)
    (l : List FlatpakRemoteRefAction) : (keepOnlyExistingActions progresses name l).Sublist l := by
  rw [keepOnlyExistingActions]
  split
  · exact List.nil_sublist _
  · exact List.takeWhile_sublist _

theorem mem_keepOnlyNewActions {progresses : Progresses} {name : String}
    {l : List FlatpakRemoteRefAction}
    (hasc : l.Pairwise fun a b => a.serial.toInt < b.serial.toInt) {a : FlatpakRemoteRefAction} :
    a ∈ keepOnlyNewActions progresses name l ↔
      a ∈ l ∧ ∀ progress, progresses.lookup name = some progress → progress < a.serial := by
  rw [keepOnlyNewActions]
  cases progresses.lookup name with
  | none => simp
  | some progress =>
      simp only [(divided_of_ascending progress hasc).dropWhile_eq_filter, List.mem_filter,
        decide_eq_true_eq, Option.some.injEq, forall_eq']

theorem mem_keepOnlyExistingActions {progresses : Progresses} {name : String}
    {l : List FlatpakRemoteRefAction}
    (hasc : l.Pairwise fun a b => a.serial.toInt < b.serial.toInt) {a : FlatpakRemoteRefAction} :
    a ∈ keepOnlyExistingActions progresses name l ↔
      a ∈ l ∧ ∃ progress, progresses.lookup name = some progress ∧ a.serial ≤ progress := by
  rw [keepOnlyExistingActions]
  cases progresses.lookup name with
  | none => simp
  | some progress =>
      simp only [(divided_of_ascending progress hasc).takeWhile_eq_filter, List.mem_filter,
        decide_eq_true_eq, Option.some.injEq, exists_eq_left']

/-- Without any assumption on the order of the list, what lies beyond the progress is kept. -/
theorem mem_keepOnlyNewActions_of_lt {progresses : Progresses} {name : String}
    {l : List FlatpakRemoteRefAction} {a : FlatpakRemoteRefAction} (ha : a ∈ l)
    (hnew : ∀ progress, progresses.lookup name = some progress → progress < a.serial) :
    a ∈ keepOnlyNewActions progresses name l := by
  rw [keepOnlyNewActions]
  cases hlookup : progresses.lookup name with
  | none => exact ha
  | some progress =>
      have hlt := hnew progress hlookup
      simp only
      induction l with
      | nil => cases ha
      | cons b l ih =>
          by_cases hb : progress < b.serial
          · rw [List.dropWhile_cons_of_neg (by simpa using hb)]
            exact ha
          · rw [List.dropWhile_cons_of_pos (by simpa using hb)]
            rcases List.mem_cons.1 ha with rfl | ha
            · exact absurd hlt hb
            · exact ih ha

/-! ### The concatenation -/

theorem mem_concatenatedActions {t : RefActionsTable} {a : FlatpakRemoteRefAction} :
    a ∈ concatenatedActions t ↔ ∃ name actions, t.lookup name = some actions ∧ a ∈ actions := by
  simp only [concatenatedActions, List.mem_flatMap, GLib.mem_msort, GHashTable.mem_getKeys_iff]
  constructor
  · rintro ⟨name, ⟨actions, hlookup⟩, ha⟩
    rw [hlookup, Option.getD_some] at ha
    exact ⟨name, actions, hlookup, ha⟩
  · rintro ⟨name, actions, hlookup, ha⟩
    exact ⟨name, ⟨actions, hlookup⟩, by rwa [hlookup, Option.getD_some]⟩

/-- The filenames are visited in strictly ascending order. -/
private theorem pairwise_keys (t : RefActionsTable) :
    (GLib.msort (fun s t => decide (s ≤ t)) t.getKeys).Pairwise fun s t : String => s < t := by
  have hle : (GLib.msort (fun s t => decide (s ≤ t)) t.getKeys).Pairwise
      fun s t : String => s ≤ t :=
    GLib.pairwise_msort id fun s _ u _ =>
      ⟨fun h => of_decide_eq_true h, fun h => (lt_of_not_ge (of_decide_eq_false h)).le⟩
  -- a hash table has each key once
  have hnodup : (GLib.msort (fun s t => decide (s ≤ t)) t.getKeys).Nodup :=
    (GLib.msort_perm _).nodup_iff.2 t.nodup
  exact (List.Pairwise.and hle hnodup).imp fun h => lt_of_le_of_ne h.1 h.2

/-- If the actions of each list bear the filename, the concatenation has those listed for their
file. -/
theorem mem_concatenatedActions_iff_source {t : RefActionsTable}
    (hsource : ∀ name actions, t.lookup name = some actions → ∀ a ∈ actions, a.source = name)
    {a : FlatpakRemoteRefAction} :
    a ∈ concatenatedActions t ↔ ∃ actions, t.lookup a.source = some actions ∧ a ∈ actions := by
  rw [mem_concatenatedActions]
  constructor
  · rintro ⟨name, actions, hlookup, ha⟩
    exact ⟨actions, by rwa [hsource name actions hlookup a ha], ha⟩
  · rintro ⟨actions, hlookup, ha⟩
    exact ⟨a.source, actions, hlookup, ha⟩

/-- An entry of an earlier file comes first, whatever the serials are. -/
theorem docPosition_lt_of_source {a b : FlatpakRemoteRefAction} (h : a.source < b.source) :
    docPosition a < docPosition b := by
  rw [docPosition, docPosition, Prod.Lex.toLex_lt_toLex]
  exact Or.inl h

/-- If a relation holds across files in filename order and within each file, it holds along the
concatenation. -/
theorem pairwise_concatenatedActions {t : RefActionsTable}
    {R : FlatpakRemoteRefAction → FlatpakRemoteRefAction → Prop}
    (hwithin : ∀ name actions, t.lookup name = some actions → actions.Pairwise R)
    (hacross : ∀ name actions name' actions', t.lookup name = some actions →
      t.lookup name' = some actions' → name < name' → ∀ a ∈ actions, ∀ b ∈ actions', R a b) :
    (concatenatedActions t).Pairwise R := by
  rw [concatenatedActions, List.pairwise_flatMap]
  constructor
  · intro name _
    cases hlookup : t.lookup name with
    | none => exact List.Pairwise.nil
    | some actions => exact hwithin name actions hlookup
  · refine (pairwise_keys t).imp fun {name name'} hlt a ha b hb => ?_
    cases hlookup : t.lookup name with
    | none => rw [hlookup] at ha; cases ha
    | some actions =>
        cases hlookup' : t.lookup name' with
        | none => rw [hlookup'] at hb; cases hb
        | some actions' =>
            rw [hlookup] at ha
            rw [hlookup'] at hb
            exact hacross name actions name' actions' hlookup hlookup' hlt a ha b hb

/-! ### Which actions are selected -/

/-- A list of one file, or any part of it, is squashed to its winners. -/
theorem mem_squash_iff_wins {l : List FlatpakRemoteRefAction}
    (hrank : l.Pairwise fun a b => refKey a = refKey b → docPosition a < docPosition b)
    {a : FlatpakRemoteRefAction} :
    a ∈ squashRefActionsPtrArray l ↔ Wins (· ∈ l) a := by
  rw [mem_squash_iff, mem_survivors, winner_eq_some_iff hrank]
  exact ⟨fun ⟨ha, _, hmax⟩ => ⟨ha, hmax⟩, fun ⟨ha, hmax⟩ => ⟨ha, rfl, hmax⟩⟩

/-- Every entry yields to some winner on its ref. -/
theorem exists_mem_squash {l : List FlatpakRemoteRefAction}
    (hrank : l.Pairwise fun a b => refKey a = refKey b → docPosition a < docPosition b)
    {b : FlatpakRemoteRefAction} (hb : b ∈ l) :
    ∃ x ∈ squashRefActionsPtrArray l, refKey x = refKey b ∧ docPriority b ≤ docPriority x := by
  obtain ⟨x, hx⟩ := exists_winner refKey FlatpakRemoteRefAction.overridesUpdate hb
  obtain ⟨-, hkey, hmax⟩ := (winner_eq_some_iff hrank).1 hx
  refine ⟨x, mem_squash_iff.2 (mem_survivors.2 ?_), hkey, hmax b hb rfl⟩
  rwa [hkey]

/-- Flattening a table selects the winners among all its entries, if the lists keep the documented
order on each ref. -/
theorem mem_flatten_iff_wins {t : RefActionsTable}
    (hsource : ∀ name actions, t.lookup name = some actions → ∀ a ∈ actions, a.source = name)
    (hrank : ∀ name actions, t.lookup name = some actions →
      actions.Pairwise fun a b => refKey a = refKey b → docPosition a < docPosition b)
    {a : FlatpakRemoteRefAction} :
    a ∈ flattenFlatpakRefActionsTable t ↔
      Wins (fun b => ∃ actions, t.lookup b.source = some actions ∧ b ∈ actions) a := by
  have hconcat : (concatenatedActions t).Pairwise
      fun a b => refKey a = refKey b → docPosition a < docPosition b :=
    pairwise_concatenatedActions hrank fun name actions name' actions' hlookup hlookup' hlt a ha b
        hb _ => docPosition_lt_of_source (by
      rwa [hsource name actions hlookup a ha, hsource name' actions' hlookup' b hb])
  rw [flattenFlatpakRefActionsTable, mem_squash_iff_wins hconcat]
  simp only [Wins, mem_concatenatedActions_iff_source hsource]

/-- Squashing each list of a table changes no winner of the concatenation. -/
theorem winner_concatenatedActions_squash (t : RefActionsTable) (ref : FlatpakRef) :
    winner refKey FlatpakRemoteRefAction.overridesUpdate
        (concatenatedActions (squashRemoteRefActions t)) ref =
      winner refKey FlatpakRemoteRefAction.overridesUpdate (concatenatedActions t) ref := by
  have hkeys : (squashRemoteRefActions t).getKeys = t.getKeys := by
    simp [squashRemoteRefActions, GHashTable.getKeys, GHashTable.mapValues, Function.comp_def]
  rw [concatenatedActions, concatenatedActions, hkeys]
  refine winner_flatMap_congr fun name _ => ?_
  rw [squashRemoteRefActions, GHashTable.lookup_mapValues]
  cases t.lookup name with
  | none => rfl
  | some actions => exact winner_squash actions ref

/-- Squashing each file first gives the same actions in the end, in some order. -/
theorem perm_flatten_squash (t : RefActionsTable) :
    (flattenFlatpakRefActionsTable (squashRemoteRefActions t)).Perm
      (flattenFlatpakRefActionsTable t) := by
  refine (List.perm_ext_iff_of_nodup (nodup_squash _) (nodup_squash _)).2 fun a => ?_
  show a ∈ squashRefActionsPtrArray _ ↔ a ∈ squashRefActionsPtrArray _
  rw [mem_squash_iff, mem_squash_iff, mem_survivors, mem_survivors,
    winner_concatenatedActions_squash]

/-- **Squashing per file first does not change what is selected**, whatever the lists contain. So
a filtered table, which is always squashed, flattens to the actions that filtering alone would
give. -/
theorem flatten_squashed_perm (t : RefActionsTable) :
    (flattenFlatpakRefActionsTable (squashRemoteRefActions t)).Perm
        (flattenFlatpakRefActionsTable t) ∧
      ∀ filterFunc : String → List FlatpakRemoteRefAction → List FlatpakRemoteRefAction,
        (flattenFlatpakRefActionsTable (filterFlatpakRefActionsTable t filterFunc)).Perm
          (flattenFlatpakRefActionsTable (t.mapValues filterFunc)) :=
  ⟨perm_flatten_squash t, fun filterFunc => perm_flatten_squash (t.mapValues filterFunc)⟩

namespace AutoinstallTable

variable {T : AutoinstallTable} {a b : FlatpakRemoteRefAction}

/-- Within a file, entries lie in the documented order. -/
theorem pairwise_docPosition {name : String} {actions : List FlatpakRemoteRefAction}
    (hlookup : T.files.lookup name = some actions) :
    actions.Pairwise fun a b => docPosition a < docPosition b := by
  refine (T.ascending name actions hlookup).imp_of_mem fun {a b} ha hb hlt => ?_
  rw [docPosition, docPosition, Prod.Lex.toLex_lt_toLex, T.source_eq name actions hlookup a ha,
    T.source_eq name actions hlookup b hb]
  exact Or.inr ⟨rfl, hlt⟩

/-- So do those of any part of it, on each ref. -/
private theorem rank_of_sublist {name : String} {actions l : List FlatpakRemoteRefAction}
    (hlookup : T.files.lookup name = some actions) (hsub : l.Sublist actions) :
    l.Pairwise fun a b => refKey a = refKey b → docPosition a < docPosition b := by
  refine ((pairwise_docPosition hlookup).sublist hsub).imp ?_
  intro a b hlt _
  exact hlt

/-- A list of a filtered table is some of a file's entries, squashed. -/
private theorem lookup_filtered {T : AutoinstallTable}
    {filterFunc : String → List FlatpakRemoteRefAction → List FlatpakRemoteRefAction}
    {name : String} {squashed : List FlatpakRemoteRefAction}
    (h : (filterFlatpakRefActionsTable T.files filterFunc).lookup name = some squashed) :
    ∃ actions, T.files.lookup name = some actions ∧
      squashed = squashRefActionsPtrArray (filterFunc name actions) := by
  rw [filterFlatpakRefActionsTable, squashRemoteRefActions, GHashTable.lookup_mapValues,
    GHashTable.lookup_mapValues, Option.map_map, Option.map_eq_some_iff] at h
  obtain ⟨actions, hlookup, rfl⟩ := h
  exact ⟨actions, hlookup, rfl⟩

/-- **Filtering, squashing and flattening select the winners of the filtered entries.** Squashing
each file first makes no difference to the set. -/
theorem mem_flatten_filtered (T : AutoinstallTable)
    {filterFunc : String → List FlatpakRemoteRefAction → List FlatpakRemoteRefAction}
    (hsub : ∀ name l, (filterFunc name l).Sublist l) :
    a ∈ flattenFlatpakRefActionsTable (filterFlatpakRefActionsTable T.files filterFunc) ↔
      Wins (fun b => ∃ actions, T.files.lookup b.source = some actions ∧
        b ∈ filterFunc b.source actions) a := by
  have hmem : ∀ b, (∃ squashed, (filterFlatpakRefActionsTable T.files filterFunc).lookup b.source =
        some squashed ∧ b ∈ squashed) ↔
      ∃ actions, T.files.lookup b.source = some actions ∧
        b ∈ squashRefActionsPtrArray (filterFunc b.source actions) := fun b => by
    constructor
    · rintro ⟨squashed, hlookup, hb⟩
      obtain ⟨actions, hfile, rfl⟩ := lookup_filtered hlookup
      exact ⟨actions, hfile, hb⟩
    · rintro ⟨actions, hfile, hb⟩
      refine ⟨_, ?_, hb⟩
      simp [filterFlatpakRefActionsTable, squashRemoteRefActions, hfile]
  rw [mem_flatten_iff_wins]
  · simp only [Wins, hmem]
    constructor
    · rintro ⟨⟨actions, hfile, ha⟩, hmax⟩
      refine ⟨⟨actions, hfile, mem_of_mem_squash ha⟩, ?_⟩
      -- an entry that its own file drops yields to one that the file keeps
      rintro b ⟨actions', hfile', hb⟩ hkey
      obtain ⟨x, hx, hxkey, hle⟩ := exists_mem_squash (rank_of_sublist hfile' (hsub _ _)) hb
      have hxsource : x.source = b.source :=
        T.source_eq _ _ hfile' x ((hsub _ _).subset (mem_of_mem_squash hx))
      exact hle.trans (hmax x ⟨actions', by rwa [hxsource], by rwa [hxsource]⟩ (hxkey.trans hkey))
    · rintro ⟨⟨actions, hfile, ha⟩, hmax⟩
      refine ⟨⟨actions, hfile, ?_⟩, ?_⟩
      · rw [mem_squash_iff_wins (rank_of_sublist hfile (hsub _ _))]
        refine ⟨ha, fun b hb hkey => hmax b ?_ hkey⟩
        have hbsource : b.source = a.source :=
          T.source_eq _ _ hfile b ((hsub _ _).subset hb)
        exact ⟨actions, by rwa [hbsource], by rwa [hbsource]⟩
      · rintro b ⟨actions', hfile', hb⟩
        exact hmax b ⟨actions', hfile', mem_of_mem_squash hb⟩
  · intro name squashed hlookup b hb
    obtain ⟨actions, hfile, rfl⟩ := lookup_filtered hlookup
    exact T.source_eq name actions hfile b ((hsub _ _).subset (mem_of_mem_squash hb))
  · -- a squashed list has one action per ref, so there is no order to keep
    intro name squashed hlookup
    obtain ⟨actions, hfile, rfl⟩ := lookup_filtered hlookup
    exact (pairwise_squash _).imp fun hne heq => absurd heq hne

/-- What a run executes: the winners of the new entries. -/
theorem mem_flatten_new (T : AutoinstallTable) (P : Progresses) :
    a ∈ flattenFlatpakRefActionsTable (filterForNewFlatpakRefActions T.files P) ↔
      Wins (T.New P) a := by
  rw [filterForNewFlatpakRefActions, mem_flatten_filtered T (keepOnlyNewActions_sublist P)]
  have hnew : ∀ b, (∃ actions, T.files.lookup b.source = some actions ∧
      b ∈ keepOnlyNewActions P b.source actions) ↔ T.New P b := fun b => by
    constructor
    · rintro ⟨actions, hfile, hb⟩
      rw [mem_keepOnlyNewActions (T.ascending _ _ hfile)] at hb
      exact ⟨⟨actions, hfile, hb.1⟩, hb.2⟩
    · rintro ⟨⟨actions, hfile, hb⟩, hprogress⟩
      exact ⟨actions, hfile, (mem_keepOnlyNewActions (T.ascending _ _ hfile)).2 ⟨hb, hprogress⟩⟩
  simp only [Wins, hnew]

/-- What a check looks at: the winners of the entries that the progress covers. -/
theorem mem_flatten_existing (T : AutoinstallTable) (P : Progresses) :
    a ∈ flattenFlatpakRefActionsTable (filterForExistingFlatpakRefActions T.files P) ↔
      Wins (T.Existing P) a := by
  rw [filterForExistingFlatpakRefActions,
    mem_flatten_filtered T (keepOnlyExistingActions_sublist P)]
  have hexisting : ∀ b, (∃ actions, T.files.lookup b.source = some actions ∧
      b ∈ keepOnlyExistingActions P b.source actions) ↔ T.Existing P b := fun b => by
    constructor
    · rintro ⟨actions, hfile, hb⟩
      rw [mem_keepOnlyExistingActions (T.ascending _ _ hfile)] at hb
      exact ⟨⟨actions, hfile, hb.1⟩, hb.2⟩
    · rintro ⟨⟨actions, hfile, hb⟩, hprogress⟩
      exact ⟨actions, hfile,
        (mem_keepOnlyExistingActions (T.ascending _ _ hfile)).2 ⟨hb, hprogress⟩⟩
  simp only [Wins, hexisting]

/-! ### The order of a flattened list -/

/-- Files that are each in the documented order are so one behind the other. -/
theorem pairwise_lt_concatenatedActions {t : RefActionsTable}
    (hwithin : ∀ name actions, t.lookup name = some actions →
      actions.Pairwise fun a b => docPosition a < docPosition b)
    (hsource : ∀ name actions, t.lookup name = some actions → ∀ a ∈ actions, a.source = name) :
    (concatenatedActions t).Pairwise fun a b => docPosition a < docPosition b :=
  pairwise_concatenatedActions hwithin fun name actions name' actions' hlookup hlookup' hlt a ha b
      hb => docPosition_lt_of_source (by
    rwa [hsource name actions hlookup a ha, hsource name' actions' hlookup' b hb])

/-- Sorting entries that lie in the documented order puts them in that of the runs. -/
theorem pairwise_execPosition_ptrArraySort {l : List FlatpakRemoteRefAction}
    (hdoc : l.Pairwise fun a b => docPosition a < docPosition b) (hfit : Euu.SerialsFit l)
    (hdep : ∀ a ∈ l, a.isDependency = false) :
    (ptrArraySort l).Pairwise fun a b => execPosition a < execPosition b := by
  have hnodup : l.Nodup := hdoc.imp fun h heq => h.ne (congrArg docPosition heq)
  have hnodup' : (ptrArraySort l).Nodup := (GLib.msort_perm l).nodup_iff.2 hnodup
  rw [GLib.pairwise_iff_before]
  intro x y hxy
  have hx : x ∈ l := mem_ptrArraySort.1 hxy.mem_left
  have hy : y ∈ l := mem_ptrArraySort.1 hxy.mem_right
  have hserial := GLib.pairwise_iff_before.1 (pairwise_ptrArraySort hfit) x y hxy
  rw [execPosition, execPosition, Prod.Lex.toLex_lt_toLex]
  rcases hserial.lt_or_eq with hlt | heq
  · exact Or.inl hlt
  · refine Or.inr ⟨heq, ?_⟩
    -- at equal serials the sort is stable, so `x` was in front before
    have hbefore : GLib.Before l x y := by
      rcases GLib.Before.total hx hy (hxy.ne hnodup') with h | h
      · exact h
      · have hsort : GLib.Before (ptrArraySort l) y x :=
          GLib.before_msort_of_key (fun a : FlatpakRemoteRefAction => a.serial.toInt)
            (fun a ha b hb => ⟨serial_le_of_sorted (hfit a ha b hb) (hfit b hb a ha),
              serial_le_of_not_sorted (hfit a ha b hb) (hfit b hb a ha)⟩)
            (fun z hz => (sorted_iff_of_not_dependency (hdep z hz) (hdep x hx) (hfit z hz x hx)
              (hfit x hx z hz)).2) h heq.ge
        exact absurd hsort (hxy.asymm hnodup')
    have hpos := GLib.pairwise_iff_before.1 hdoc x y hbefore
    rw [docPosition, docPosition, Prod.Lex.toLex_lt_toLex] at hpos
    exact hpos.resolve_right fun h => h.2.ne heq

/-- Flattening a filtered table lists what it selects in the order of the runs. -/
theorem pairwise_flatten_filtered (hfit : T.SerialsFit)
    {filterFunc : String → List FlatpakRemoteRefAction → List FlatpakRemoteRefAction}
    (hsub : ∀ name l, (filterFunc name l).Sublist l) :
    (flattenFlatpakRefActionsTable (filterFlatpakRefActionsTable T.files filterFunc)).Pairwise
      fun a b => execPosition a < execPosition b := by
  have hentry : ∀ name squashed,
      (filterFlatpakRefActionsTable T.files filterFunc).lookup name = some squashed →
        ∀ a ∈ squashed, T.Entry a ∧ a.source = name ∧ a.isDependency = false := by
    intro name squashed hlookup a ha
    obtain ⟨actions, hfile, rfl⟩ := lookup_filtered hlookup
    have hmem := (hsub _ _).subset (mem_of_mem_squash ha)
    have hsource := T.source_eq name actions hfile a hmem
    exact ⟨⟨actions, by rwa [hsource], hmem⟩, hsource, T.not_dependency name actions hfile a hmem⟩
  -- squashing sorts each list, which within one file keeps the documented order
  have hwithin : ∀ name squashed,
      (filterFlatpakRefActionsTable T.files filterFunc).lookup name = some squashed →
        squashed.Pairwise fun a b => docPosition a < docPosition b := by
    intro name squashed hlookup
    have hentries := hentry name squashed hlookup
    obtain ⟨actions, hfile, rfl⟩ := lookup_filtered hlookup
    rw [squashRefActionsPtrArray_eq] at hentries ⊢
    simp only [mem_ptrArraySort] at hentries
    have hdoc := (pairwise_docPosition hfile).sublist
      ((survivors_sublist refKey FlatpakRemoteRefAction.overridesUpdate _).trans
        (hsub name actions))
    refine (pairwise_execPosition_ptrArraySort hdoc
      (fun a ha b hb => hfit a b (hentries a ha).1 (hentries b hb).1)
      fun a ha => (hentries a ha).2.2).imp_of_mem fun {a b} ha hb hlt => ?_
    rw [execPosition, execPosition, Prod.Lex.toLex_lt_toLex,
      (hentries a (mem_ptrArraySort.1 ha)).2.1, (hentries b (mem_ptrArraySort.1 hb)).2.1] at hlt
    rw [docPosition, docPosition, Prod.Lex.toLex_lt_toLex,
      (hentries a (mem_ptrArraySort.1 ha)).2.1, (hentries b (mem_ptrArraySort.1 hb)).2.1]
    exact Or.inr ⟨rfl, hlt.resolve_right fun h => lt_irrefl _ h.2⟩
  have hconcat := pairwise_lt_concatenatedActions hwithin fun name squashed hlookup a ha =>
    (hentry name squashed hlookup a ha).2.1
  have hmem : ∀ a ∈ survivors (concatenatedActions
      (filterFlatpakRefActionsTable T.files filterFunc)), T.Entry a ∧ a.isDependency = false := by
    intro a ha
    obtain ⟨name, squashed, hlookup, ha⟩ := mem_concatenatedActions.1
      ((survivors_sublist refKey FlatpakRemoteRefAction.overridesUpdate _).subset ha)
    exact ⟨(hentry name squashed hlookup a ha).1, (hentry name squashed hlookup a ha).2.2⟩
  rw [flattenFlatpakRefActionsTable, squashRefActionsPtrArray_eq]
  exact pairwise_execPosition_ptrArraySort
    (hconcat.sublist (survivors_sublist refKey FlatpakRemoteRefAction.overridesUpdate _))
    (fun a ha b hb => hfit a b (hmem a ha).1 (hmem b hb).1) fun a ha => (hmem a ha).2

/-- The flattened list ascends in the order of execution. -/
theorem pairwise_flatten_new (hfit : T.SerialsFit) (P : Progresses) :
    (flattenFlatpakRefActionsTable (filterForNewFlatpakRefActions T.files P)).Pairwise
      fun a b => execPosition a < execPosition b :=
  pairwise_flatten_filtered hfit (keepOnlyNewActions_sublist P)

/-- As far as serials fit, those of a file ascend strictly along the flattened list. -/
theorem ascendsPerFile_flatten_new (hfit : T.SerialsFit) (P : Progresses) :
    AscendsPerFile (flattenFlatpakRefActionsTable (filterForNewFlatpakRefActions T.files P)) := by
  refine (pairwise_flatten_new hfit P).imp ?_
  intro a b hlt hsource
  rw [execPosition, execPosition, Prod.Lex.toLex_lt_toLex] at hlt
  rcases hlt with hlt | ⟨-, hlt⟩
  · exact Int32.lt_iff_toInt_lt.2 hlt
  · exact absurd hsource hlt.ne

/-! ### Entries -/

theorem mem_concatenatedActions_files (T : AutoinstallTable) :
    a ∈ concatenatedActions T.files ↔ T.Entry a :=
  mem_concatenatedActions_iff_source T.source_eq

/-- The concatenation of the files is in the documented order. -/
theorem pairwise_docPosition_files (T : AutoinstallTable) :
    (concatenatedActions T.files).Pairwise fun a b => docPosition a < docPosition b :=
  pairwise_lt_concatenatedActions (fun _ _ => pairwise_docPosition) T.source_eq

/-- Entries of one file with one serial are the same. -/
theorem Entry.eq_of_serial (ha : T.Entry a) (hb : T.Entry b) (hsource : a.source = b.source)
    (hserial : a.serial = b.serial) : a = b := by
  have hposition : docPosition a = docPosition b := by
    rw [docPosition, docPosition, hsource, hserial]
  by_contra hne
  rcases GLib.Before.total ((mem_concatenatedActions_files T).2 ha)
    ((mem_concatenatedActions_files T).2 hb) hne with h | h
  · exact (GLib.pairwise_iff_before.1 (pairwise_docPosition_files T) _ _ h).ne hposition
  · exact (GLib.pairwise_iff_before.1 (pairwise_docPosition_files T) _ _ h).ne' hposition

/-- A file has a last entry. -/
theorem Entry.exists_last (ha : T.Entry a) :
    ∃ x, T.Entry x ∧ x.source = a.source ∧
      ∀ y, T.Entry y → y.source = a.source → y.serial ≤ x.serial := by
  obtain ⟨actions, hlookup, hmem⟩ := ha
  obtain ⟨l, x, rfl⟩ := (List.eq_nil_or_concat actions).resolve_left (List.ne_nil_of_mem hmem)
  have hx : x.source = a.source := T.source_eq _ _ hlookup x (by simp)
  refine ⟨x, ⟨_, by rwa [hx], by simp⟩, hx, ?_⟩
  rintro y ⟨actions', hlookup', hy⟩ hsource
  rw [hsource, hlookup] at hlookup'
  cases hlookup'
  have hasc := T.ascending _ _ hlookup
  rw [List.concat_eq_append, List.pairwise_append] at hasc
  rcases List.mem_append.1 (List.concat_eq_append ▸ hy) with hy | hy
  · exact Int32.le_iff_toInt_le.2 (hasc.2.2 y hy x List.mem_cons_self).le
  · rw [List.mem_singleton.1 hy]
    exact Int32.le_iff_toInt_le.2 le_rfl

/-- Among any entries, some entry wins the ref of each. -/
theorem exists_wins {S : FlatpakRemoteRefAction → Prop} (hS : ∀ c, S c → T.Entry c) (hb : S b) :
    ∃ x, Wins S x ∧ refKey x = refKey b ∧ docPriority b ≤ docPriority x := by
  classical
  -- the winner of the slot, among the entries in `S` in the documented order
  have hmem : ∀ c, c ∈ (concatenatedActions T.files).filter (fun c => decide (S c)) ↔ S c :=
    fun c => by
      rw [List.mem_filter, mem_concatenatedActions_files, decide_eq_true_eq]
      exact ⟨fun h => h.2, fun h => ⟨hS c h, h⟩⟩
  have hrank : ((concatenatedActions T.files).filter fun c => decide (S c)).Pairwise
      fun c d => refKey c = refKey d → docPosition c < docPosition d := by
    refine ((pairwise_docPosition_files T).sublist List.filter_sublist).imp ?_
    intro c d hlt _
    exact hlt
  obtain ⟨x, hx, hkey, hle⟩ := exists_mem_squash hrank ((hmem b).2 hb)
  rw [mem_squash_iff_wins hrank] at hx
  simp only [Wins, hmem] at hx
  exact ⟨x, hx, hkey, hle⟩

/-- Two winners on a ref are the same. -/
theorem Wins.eq_of_refKey {S : FlatpakRemoteRefAction → Prop} (hS : ∀ c, S c → T.Entry c)
    (ha : Wins S a) (hb : Wins S b) (hkey : refKey a = refKey b) : a = b := by
  -- equal priority means one file and one serial
  have hpriority := le_antisymm (hb.2 a ha.1 hkey) (ha.2 b hb.1 hkey.symm)
  have hposition : docPosition a = docPosition b := congrArg (fun p => (ofLex p).2) hpriority
  have hsource : a.source = b.source := congrArg (fun p => (ofLex p).1) hposition
  have hserial : a.serial.toInt = b.serial.toInt := congrArg (fun p => (ofLex p).2) hposition
  exact (hS a ha.1).eq_of_serial (hS b hb.1) hsource (Int32.toInt_inj.1 hserial)

/-! ### The documented order -/

/-- The order that the documentation describes: the files' lists one after the other in filename
order, without the entries that lose to another on their ref. -/
def documentedActions (T : AutoinstallTable) : List FlatpakRemoteRefAction :=
  (concatenatedActions T.files).filter fun a => decide
    (∀ b ∈ concatenatedActions T.files, refKey b = refKey a → docPriority b ≤ docPriority a)

theorem mem_documentedActions (T : AutoinstallTable) :
    a ∈ documentedActions T ↔ Wins T.Entry a := by
  simp only [documentedActions, List.mem_filter, mem_concatenatedActions_files, decide_eq_true_eq,
    Wins]

/-- The serials of a table fit if those of its concatenation do. -/
theorem serialsFit_iff (T : AutoinstallTable) :
    T.SerialsFit ↔ Euu.SerialsFit (concatenatedActions T.files) := by
  simp only [SerialsFit, Euu.SerialsFit, mem_concatenatedActions_files]
  exact ⟨fun h a ha b hb => h a b ha hb, fun h a b ha hb => h a ha b hb⟩

/-- The documented order is that of the entries before the last sort. -/
theorem documentedActions_eq_survivors (T : AutoinstallTable) :
    documentedActions T = survivors (concatenatedActions T.files) := by
  have hdoc := pairwise_docPosition_files T
  have hrank : (concatenatedActions T.files).Pairwise
      fun a b => refKey a = refKey b → docPosition a < docPosition b := by
    refine hdoc.imp ?_
    intro a b hlt _
    exact hlt
  refine (survivors_eq_filter (hdoc.imp fun h heq => h.ne (congrArg docPosition heq))
    fun x hx => ?_).symm
  rw [winner_eq_some_iff hrank, decide_eq_true_eq]
  exact ⟨fun h => ⟨hx, rfl, h⟩, fun h => h.2.2⟩

/-- **When flattening follows the documented order**: exactly when the serials of the winners do
not descend from one file to a later one. -/
theorem flatten_eq_documented_iff (T : AutoinstallTable) (hfit : T.SerialsFit) :
    flattenFlatpakRefActionsTable T.files = documentedActions T ↔
      ∀ a b, Wins T.Entry a → Wins T.Entry b → a.source < b.source → a.serial ≤ b.serial := by
  have hdoc : (documentedActions T).Pairwise fun a b => docPosition a < docPosition b :=
    (pairwise_docPosition_files T).sublist List.filter_sublist
  have hentries : ∀ a ∈ documentedActions T, T.Entry a ∧ a.isDependency = false := fun a ha => by
    obtain ⟨actions, hlookup, hmem⟩ := ((mem_documentedActions T).1 ha).1
    exact ⟨⟨actions, hlookup, hmem⟩, T.not_dependency _ _ hlookup a hmem⟩
  have hfitdoc : Euu.SerialsFit (documentedActions T) := fun a ha b hb =>
    hfit a b (hentries a ha).1 (hentries b hb).1
  rw [flattenFlatpakRefActionsTable, squashRefActionsPtrArray_eq, ← documentedActions_eq_survivors]
  constructor
  · -- the sort ascends by serial, so a list that it leaves alone does
    intro heq a b ha hb hlt
    have hasc := pairwise_ptrArraySort hfitdoc
    rw [heq, GLib.pairwise_iff_before] at hasc
    have hbefore : GLib.Before (documentedActions T) a b := by
      rcases GLib.Before.total ((mem_documentedActions T).2 ha) ((mem_documentedActions T).2 hb)
        (fun h => hlt.ne (congrArg FlatpakRemoteRefAction.source h)) with h | h
      · exact h
      · have hpos := GLib.pairwise_iff_before.1 hdoc b a h
        rw [docPosition, docPosition, Prod.Lex.toLex_lt_toLex] at hpos
        rcases hpos with hpos | ⟨hpos, -⟩
        · exact absurd hlt hpos.asymm
        · exact absurd hpos hlt.ne'
    exact Int32.le_iff_toInt_le.2 (hasc a b hbefore)
  · -- a list whose pairs all compare in order is not touched
    intro hcond
    refine GLib.msort_eq_self (GLib.pairwise_iff_before.2 fun a b hab => ?_)
    have ha := hentries a hab.mem_left
    have hb := hentries b hab.mem_right
    rw [sorted_iff_of_not_dependency ha.2 hb.2 (hfit a b ha.1 hb.1) (hfit b a hb.1 ha.1)]
    have hpos := GLib.pairwise_iff_before.1 hdoc a b hab
    rw [docPosition, docPosition, Prod.Lex.toLex_lt_toLex] at hpos
    rcases hpos with hlt | ⟨-, hlt⟩
    · exact Int32.le_iff_toInt_le.1 (hcond a b ((mem_documentedActions T).1 hab.mem_left)
        ((mem_documentedActions T).1 hab.mem_right) hlt)
    · exact le_of_lt hlt

/-- Two files on different apps, where the later file has the smaller serial. -/
def descendingFiles : AutoinstallTable :=
  ofFiles
    [("10-a", [sampleAction .install "org.example.X" "10-a" 5]),
      ("20-b", [sampleAction .install "org.example.Y" "20-b" 1])]
    (by decide) (by decide)

/-- Where a later file has the smaller serial, the flattened list is not the documented one. -/
theorem flatten_descendingFiles :
    flattenFlatpakRefActionsTable descendingFiles.files =
        [sampleAction .install "org.example.Y" "20-b" 1,
          sampleAction .install "org.example.X" "10-a" 5] ∧
      flattenFlatpakRefActionsTable descendingFiles.files ≠ documentedActions descendingFiles := by
  decide +kernel

/-- The same two files, with ascending serials. -/
theorem flatten_ascendingFiles :
    let T := ofFiles
      [("10-a", [sampleAction .install "org.example.X" "10-a" 1]),
        ("20-b", [sampleAction .install "org.example.Y" "20-b" 5])] (by decide) (by decide)
    flattenFlatpakRefActionsTable T.files = documentedActions T := by
  intro T
  refine (flatten_eq_documented_iff T ((serialsFit_iff T).2 (by decide +kernel))).2 ?_
  have hwinners : ∀ a ∈ documentedActions T, ∀ b ∈ documentedActions T,
      a.source < b.source → a.serial ≤ b.serial := by
    decide +kernel
  exact fun a b ha hb => hwinners a ((mem_documentedActions T).2 ha) b
    ((mem_documentedActions T).2 hb)

end AutoinstallTable

end Euu
