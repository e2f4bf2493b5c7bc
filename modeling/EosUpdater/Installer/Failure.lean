import EosUpdater.Flatpak.DependencyFirst
import EosUpdater.Installer.Apply

/-!
# What is recorded when a run fails

`RecordsOnlyApplied old flags actions` says that however and wherever a run over `actions` fails,
the counter saved on the way out covers no action that failed or was not reached, so that the next
run selects all of these again.

The counter is one serial per file, so this is a matter of the list: exactly if the serials of each
file ascend strictly along it, beyond what was recorded before (`recordsOnlyApplied_iff`). The
flattened list of new actions is such a list. With dependencies added it is one only if no
dependency shares the file and serial of another action in it (`handed_list_records_iff`).
-/

namespace Eufi

open Euu Overwrite

/-- However a run over `actions` fails, each file's progress stays below all that failed or was not
reached, and all of that is selected again. -/
def RecordsOnlyApplied (old : Option Progresses) (flags : InstallerFlags)
    (actions : List FlatpakRemoteRefAction) : Prop :=
  ∀ (σ : Type) (installation : FlatpakInstallation σ) (s s₁ s₂ : σ) (e : GError)
    (done rest : List FlatpakRemoteRefAction) (a : FlatpakRemoteRefAction),
    actions = done ++ a :: rest → Performed installation .perform flags s done s₁ →
    performAction installation s₁ a flags = (.error (.error e), s₂) →
    ∃ saved, applyFlatpakRefActions installation .reliable s old actions .perform flags =
        ⟨.error (.error e), s₂, some saved⟩ ∧
      ∀ b ∈ a :: rest, (∀ progress, saved.lookup b.source = some progress → progress < b.serial) ∧
        ∀ incomingActions, b ∈ incomingActions →
          b ∈ keepOnlyNewActions saved b.source incomingActions

/-! ### An installation that fails on demand -/

/-- An installation that counts the transactions it runs, and fails at number `n`. -/
def failingAt (n : ℕ) : FlatpakInstallation ℕ where
  getInstalledRef _ _ := .ok ()
  repoRemotes _ := .ok []
  listRemotes _ := .ok []
  transactionNew _ := .ok ()
  transactionAdd _ _ := .ok ()
  transactionReady _ _ := .ok []
  transactionRun k _ _ :=
    if k = n then ([], .error ⟨.ioFailed, "No space left on device"⟩, k + 1)
    else ([], .ok (), k + 1)

variable {flags : InstallerFlags} {a : FlatpakRemoteRefAction}
variable {actions done rest : List FlatpakRemoteRefAction} {old : Option Progresses}

/-- The failing installation has no conflicting remotes. -/
private theorem conflictingRemote_failingAt (n k : ℕ) (collectionId : Option String)
    (remote : String) : conflictingRemote (failingAt n) k collectionId remote = none := by
  cases collectionId <;> rfl

/-- The failing installation counts the transactions and fails the n-th. -/
private theorem flatpakTransaction_failingAt (n k : ℕ) (transaction : FlatpakTransaction) :
    flatpakTransaction (failingAt n) k transaction =
      if k = n then (.error ⟨.ioFailed, "No space left on device"⟩, k + 1)
      else (.ok (), k + 1) := by
  simp only [flatpakTransaction, failingAt, transactionRunSingleOp]
  by_cases hk : k = n <;> simp [hk]

/-- Each action is one transaction of the failing installation. -/
theorem performAction_failingAt (flags : InstallerFlags) (n k : ℕ)
    (ha : a.type = .install → a.ref.remote.isSome = true) :
    performAction (failingAt n) k a flags =
      if k = n then (.error (.error ⟨.ioFailed, "No space left on device"⟩), k + 1)
      else (.ok (), k + 1) := by
  rw [performAction]
  cases htype : a.type with
  | install =>
      obtain ⟨remote, hremote⟩ := Option.isSome_iff_exists.1 (ha htype)
      simp only [hremote, tryInstallApplication, conflictingRemote_failingAt,
        flatpakTransactionInstall, flatpakTransaction_failingAt]
      by_cases hk : k = n <;> simp [hk]
  | update =>
      simp only [tryUpdateApplication, flatpakTransactionUpdate, flatpakTransaction_failingAt]
      by_cases hk : k = n <;> simp [hk]
  | uninstall =>
      simp only [tryUninstallApplication, flatpakTransactionUninstall, flatpakTransaction_failingAt]
      by_cases hk : k = n <;> simp [hk]

/-- The actions before the failing one succeed. -/
theorem performed_failingAt (flags : InstallerFlags) (n k : ℕ)
    (hremote : ∀ a ∈ done, a.type = .install → a.ref.remote.isSome = true)
    (hn : k + done.length ≤ n) :
    Performed (failingAt n) .perform flags k done (k + done.length) := by
  induction done generalizing k with
  | nil => exact .nil k
  | cons b done ih =>
      rw [List.length_cons] at hn ⊢
      have hk : k ≠ n := by omega
      have hstep : stepAction (failingAt n) .perform flags k b = (.ok (), k + 1) := by
        rw [stepAction_perform, performAction_failingAt flags n k (hremote b List.mem_cons_self),
          if_neg hk]
      have hrest := ih (k + 1) (fun a ha => hremote a (List.mem_cons_of_mem _ ha)) (by omega)
      rw [Nat.add_right_comm, Nat.add_assoc] at hrest
      exact .cons hstep hrest

/-- A run that fails, or ends, behind `done` records just that. -/
theorem counterFile_failingAt (flags : InstallerFlags) (old : Option Progresses)
    (done rest : List FlatpakRemoteRefAction) (hexpected : Expected flags (done ++ rest))
    (hremote : ∀ a ∈ done ++ rest, a.type = .install → a.ref.remote.isSome = true) :
    (applyFlatpakRefActions (failingAt done.length) .reliable 0 old (done ++ rest) .perform
        flags).counterFile =
      some ((old.getD GHashTable.empty).setAll (progressOf done)) := by
  have hperformed := performed_failingAt flags (0 + done.length) 0
    (fun c hc => hremote c (List.mem_append_left _ hc)) (Nat.le_refl _)
  rw [Nat.zero_add] at hperformed
  -- behind `done`, the run is over or the next action fails
  cases rest with
  | nil =>
      rw [List.append_nil] at hexpected ⊢
      rw [apply_of_performed hperformed hexpected]
  | cons a rest =>
      have hstep := performAction_failingAt flags done.length done.length (hremote a (by simp))
      rw [if_pos rfl, ← stepAction_perform] at hstep
      rw [apply_of_failure old hperformed hexpected hstep]

/-! ### The progress after a failure -/

/-- **When a failure records only what was applied**: exactly if each file's serials ascend
strictly along the list, beyond the old progress. -/
theorem recordsOnlyApplied_iff (hexpected : Expected flags actions)
    (hremote : ∀ a ∈ actions, a.type = .install → a.ref.remote.isSome = true) :
    RecordsOnlyApplied old flags actions ↔
      (∀ b ∈ actions, ∀ progress,
        (old.getD GHashTable.empty).lookup b.source = some progress → progress < b.serial) ∧
      AscendsPerFile actions := by
  constructor
  · intro hrecords
    -- the run that fails at any given action
    have hfail : ∀ done a rest, actions = done ++ a :: rest → ∀ b ∈ a :: rest, ∀ progress,
        ((old.getD GHashTable.empty).setAll (progressOf done)).lookup b.source = some progress →
          progress < b.serial := by
      rintro done a rest rfl b hb progress hprogress
      have hperformed := performed_failingAt flags done.length 0
        (fun c hc => hremote c (List.mem_append_left _ hc)) (Nat.zero_add _).le
      rw [Nat.zero_add] at hperformed
      have hstep := performAction_failingAt flags done.length done.length (hremote a (by simp))
      rw [if_pos rfl] at hstep
      obtain ⟨saved, hsaved, hall⟩ := hrecords ℕ (failingAt done.length) 0 _ _ _ done rest a
        rfl hperformed hstep
      have hend := counterFile_failingAt flags old done (a :: rest) hexpected hremote
      rw [hsaved] at hend
      obtain rfl : saved = _ := Option.some_inj.1 hend
      exact (hall b hb).1 progress hprogress
    constructor
    · intro b hb progress hprogress
      obtain ⟨a, rest, rfl⟩ := List.exists_cons_of_ne_nil (List.ne_nil_of_mem hb)
      refine hfail [] a rest rfl b hb progress ?_
      rw [lookup_recorded]
      exact hprogress
    · rw [AscendsPerFile, GLib.pairwise_iff_before]
      intro x y hxy hsource
      obtain ⟨l₁, l₂, rfl, hx⟩ := hxy.exists_split
      obtain ⟨m₁, m₂, rfl⟩ := List.append_of_mem hx
      -- the run that fails right behind `x`
      obtain ⟨c, rest, hrest⟩ := List.exists_cons_of_ne_nil
        (List.append_ne_nil_of_right_ne_nil m₂ (List.cons_ne_nil y l₂))
      refine hfail (m₁ ++ [x]) c rest (by simp [← hrest]) y (by simp [← hrest]) x.serial ?_
      rw [lookup_recorded, lastOfFile]
      simp [hsource]
  · rintro ⟨hold, hasc⟩ σ installation s s₁ s₂ e done rest a rfl hperformed hstep
    rw [← stepAction_perform] at hstep
    refine ⟨_, apply_of_failure old hperformed hexpected hstep, fun b hb => ?_⟩
    have hbelow : ∀ progress, ((old.getD GHashTable.empty).setAll (progressOf done)).lookup
        b.source = some progress → progress < b.serial := by
      intro progress hprogress
      rw [lookup_recorded] at hprogress
      cases hlast : lastOfFile done b.source with
      -- nothing of the file was performed, so it keeps its old progress
      | none =>
          rw [hlast] at hprogress
          exact hold b (List.mem_append_right _ hb) progress hprogress
      | some c =>
          rw [hlast] at hprogress
          obtain rfl : c.serial = progress := Option.some_inj.1 hprogress
          obtain ⟨hc, hsource⟩ := mem_of_lastOfFile hlast
          rw [AscendsPerFile, List.pairwise_append] at hasc
          exact hasc.2.2 c hc b hb hsource
    exact ⟨hbelow, fun incoming hmem => mem_keepOnlyNewActions_of_lt hmem hbelow⟩

/-! ### The lists that are handed over -/

variable {T : AutoinstallTable} {P : Progresses}

/-- An install of the list has a remote. -/
private theorem remote_of_mem_flatten_new
    (ha : a ∈ flattenFlatpakRefActionsTable (filterForNewFlatpakRefActions T.files P))
    (htype : a.type = .install) : a.ref.remote.isSome = true := by
  obtain ⟨actions, hlookup, hmem⟩ := ((T.mem_flatten_new P).1 ha).1.1
  exact T.install_remote _ _ hlookup a hmem htype

/-- **What the handed lists record.** With or without dependencies added, a failure records only
what was applied exactly if each file's serials ascend strictly along the list. As long as no
subtraction of serials overflows, they do along the flattened list of new actions; and with
dependencies added they do exactly if no two actions of the list share their file and serial. -/
theorem handed_list_records_iff (T : AutoinstallTable) (counterFile : Option Progresses) :
    let new := flattenFlatpakRefActionsTable
      (filterForNewFlatpakRefActions T.files (counterFile.getD GHashTable.empty))
    (∀ flags, RecordsOnlyApplied counterFile flags new ↔ AscendsPerFile new) ∧
    (∀ (σ : Type) (installation : FlatpakInstallation σ) (s : σ) handed,
      addDependencyRefActionsForInstallation installation s new = .ok handed →
        (RecordsOnlyApplied counterFile ⟨true⟩ handed ↔ AscendsPerFile handed)) ∧
    (T.SerialsFit → AscendsPerFile new ∧
      ∀ (σ : Type) (installation : FlatpakInstallation σ) (s : σ) handed,
        addDependencyRefActionsForInstallation installation s new = .ok handed →
          (AscendsPerFile handed ↔
            handed.Pairwise fun a b => ¬ (a.source = b.source ∧ a.serial = b.serial))) := by
  intro new
  have hnew : ∀ a ∈ new, ∀ progress, (counterFile.getD GHashTable.empty).lookup a.source =
      some progress → progress < a.serial := fun a ha => ((T.mem_flatten_new _).1 ha).1.2
  have hL : FlattenedList new := flattenedList_new T _
  refine ⟨fun flags => ?_, ?_, fun hfit =>
    ⟨AutoinstallTable.ascendsPerFile_flatten_new hfit _, ?_⟩⟩
  · rw [recordsOnlyApplied_iff (fun a ha hdep => ?_) fun a ha => remote_of_mem_flatten_new ha]
    · exact and_iff_right hnew
    · rw [hL.not_dependency a ha] at hdep
      cases hdep
  · intro σ installation s handed hhanded
    have hrel := relatedActions_reportedActions installation s
    -- a related action carries the file and serial of the new one that it is related to
    have howner : ∀ a ∈ handed, ∃ c ∈ new, (a = c ∨ a ∈ reportedActions installation s c) ∧
        a.source = c.source ∧ a.serial = c.serial := fun a ha => by
      rw [addDependencyRefActions_eq_ok hhanded] at ha
      exact exists_owner hrel hL.not_dependency (mem_of_mem_squash ha)
    rw [recordsOnlyApplied_iff (fun _ _ _ => rfl) fun a ha htype => ?_]
    · refine and_iff_right fun a ha progress hprogress => ?_
      obtain ⟨c, hc, -, hsource, hserial⟩ := howner a ha
      rw [hsource] at hprogress
      rw [hserial]
      exact hnew c hc progress hprogress
    · obtain ⟨c, hc, rfl | hrelated, -, -⟩ := howner a ha
      · exact remote_of_mem_flatten_new hc htype
      · exact hrel.remote c a hrelated
  · intro σ installation s handed hhanded
    obtain rfl := (addDependencyRefActions_eq_ok hhanded).symm
    -- squashing sorts by serial, so along the list the serials of a file can only tie
    have hserials : (squashRefActionsPtrArray (addDependencies (reportedActions installation s)
        new)).Pairwise fun a b => a.serial.toInt ≤ b.serial.toInt := by
      rw [squashRefActionsPtrArray_eq]
      exact pairwise_ptrArraySort ((serialsFit_addDependencies
        (relatedActions_reportedActions installation s) (sortedList_new hfit _)).mono fun a ha =>
          (survivors_sublist refKey FlatpakRemoteRefAction.overridesUpdate _).subset ha)
    constructor
    · refine fun hasc => hasc.imp ?_
      rintro a b hlt ⟨hsource, hserial⟩
      have hself := hlt hsource
      rw [hserial, Int32.lt_iff_toInt_lt] at hself
      exact lt_irrefl _ hself
    · refine fun hdiffer => (hserials.and hdiffer).imp ?_
      rintro a b ⟨hle, hne⟩ hsource
      rw [Int32.lt_iff_toInt_lt]
      exact lt_of_le_of_ne hle fun heq => hne ⟨hsource, Int32.toInt_inj.1 heq⟩

/-! ### A failed action that is recorded -/

/-- Two files, the first with an action in front of those of the second and one behind them. -/
def interleavedFiles : AutoinstallTable :=
  .ofFiles
    [("10-a", [sampleAction .install "org.example.App" "10-a" 1,
        sampleAction .uninstall "org.example.Old" "10-a" 4]),
      ("20-b", [sampleAction .install "org.example.Game" "20-b" 2,
        sampleAction .install "org.example.Levels" "20-b" 3])]
    (by decide) (by decide)

/-- Where the third of four actions fails, both files record what was executed of them, and the
action that failed is selected again with the one that was not reached. -/
theorem interleavedFiles_records_only_applied :
    let new := flattenFlatpakRefActionsTable
      (filterForNewFlatpakRefActions interleavedFiles.files .empty)
    let failed := applyFlatpakRefActions (failingAt 2) .reliable 0 none new .perform ⟨false⟩
    let saved := failed.counterFile.getD .empty
    RecordsOnlyApplied none ⟨false⟩ new ∧
      failed.result = .error (.error ⟨.ioFailed, "No space left on device"⟩) ∧
      saved.lookup "10-a" = some 1 ∧ saved.lookup "20-b" = some 2 ∧
      flattenFlatpakRefActionsTable (filterForNewFlatpakRefActions interleavedFiles.files saved) =
        [sampleAction .install "org.example.Levels" "20-b" 3,
          sampleAction .uninstall "org.example.Old" "10-a" 4] := by
  intro new failed saved
  exact ⟨((handed_list_records_iff interleavedFiles none).1 ⟨false⟩).2 (by decide +kernel),
    by decide +kernel, by decide +kernel, by decide +kernel, by decide +kernel⟩

/-- A file that installs an app. -/
def appFile : AutoinstallTable :=
  .ofFiles [("20-b", [sampleAction .install "org.example.App" "20-b" 2])] (by decide) (by decide)

/-- With its runtime added, the runtime is installed first; then the app fails, and is not selected
again. -/
theorem dependency_records_failed_action :
    let app := sampleAction .install "org.example.App" "20-b" 2
    let runtime :=
      { sampleAction .install "org.example.Platform" "20-b" 2 with isDependency := true }
    let failed :=
      applyFlatpakRefActions (failingAt 1) .reliable 0 none [runtime, app] .perform ⟨true⟩
    addDependencyRefActionsForInstallation appWithRuntime ()
        (flattenFlatpakRefActionsTable (filterForNewFlatpakRefActions appFile.files .empty)) =
      .ok [runtime, app] ∧
    failed.result = .error (.error ⟨.ioFailed, "No space left on device"⟩) ∧
    (failed.counterFile.getD .empty).lookup "20-b" = some app.serial ∧
    keepOnlyNewActions (failed.counterFile.getD .empty) "20-b" [app] = [] ∧
    ¬ RecordsOnlyApplied none ⟨true⟩ [runtime, app] := by
  intro app runtime failed
  refine ⟨by decide +kernel, by decide +kernel, by decide +kernel, by decide +kernel, ?_⟩
  rw [recordsOnlyApplied_iff (fun _ _ _ => rfl) (by decide)]
  rintro ⟨-, hasc⟩
  exact absurd hasc (show ¬ AscendsPerFile [runtime, app] by decide)

end Eufi
