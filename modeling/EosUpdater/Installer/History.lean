import EosUpdater.Installer.Check
import EosUpdater.Installer.Counter

/-!
# The installer over any number of runs

The installer runs on every boot. Nothing but the counter file, which is a key file, is kept between
its runs: the autoinstall files may be others each time, the flatpak installation is changed by the
user, and reading, applying or saving may fail.

Whatever happens, the serials that runs have applied and recorded of a file ascend strictly from one
run to the next, so no entry is ever applied a second time after that has been recorded
(`history_ascends`). Where the files stay the same and runs succeed, as many of them as there are
entries apply everything there is to apply (`history_settles`); a single one need not, where
entries disagree on a ref.
-/

namespace Eufi

open GLib Euu Overwrite

variable {σ : Type}

/-! ### Runs -/

/-- A start of the installer: the system as it finds it, and how it is called. -/
structure Start where
  State : Type
  installation : FlatpakInstallation State
  getInstallation : Except GError Unit
  io : CounterIO
  state : State
  table : AutoinstallTable
  /-- The autoinstall files cannot be read. -/
  readError : Option ReadFailure
  options : InstallerOptions

/-- The actions that the loop of `eufi_apply_flatpak_ref_actions` gets through. -/
def performedActions (installation : FlatpakInstallation σ) (mode : ApplyMode)
    (flags : InstallerFlags) : List FlatpakRemoteRefAction → σ → List FlatpakRemoteRefAction
  | [], _ => []
  | a :: rest, s =>
      if a.isDependency && !flags.alsoPull then []
      else
        match stepAction installation mode flags s a with
        | (.ok (), s') => a :: performedActions installation mode flags rest s'
        | (.error _, _) => []

namespace Start

variable (start : Start) (counterFile : Option Progresses)

/-- What reading the autoinstall files gives. -/
def refActions : Except ReadFailure RefActionsTable :=
  match start.readError with
  | none => .ok start.table.files
  | some failure => .error failure

/-- The run. -/
def finished : Finished start.State :=
  main start.installation start.getInstallation start.io start.state start.refActions counterFile
    start.options

/-- The list that the run is to apply, and in which mode. -/
def toApply : Option (ApplyMode × List FlatpakRemoteRefAction) :=
  match parseInstallerMode (start.options.mode.getD "perform") with
  | .error _ => none
  | .ok .check => none
  | .ok (.apply mode) =>
      match start.getInstallation with
      | .error _ => none
      | .ok () =>
          match determineFlatpakRefActionsToApply start.refActions
              (applicationProgressInStatePath start.io counterFile) with
          | .error _ => none
          | .ok new =>
              match handedActions start.installation start.state start.options.pull
                  (flattenFlatpakRefActionsTable new) with
              | .error _ => none
              | .ok handed => if start.options.dryRun then none else some (mode, handed)

/-- What the run applies and records. -/
def recorded : List FlatpakRemoteRefAction :=
  match start.toApply counterFile with
  | none => []
  | some (mode, handed) =>
      match start.io.error with
      | some _ => []
      | none =>
          match applyLoop start.installation mode ⟨start.options.pull⟩ handed start.state
              GHashTable.empty with
          | .aborted _ => []
          | _ =>
              performedActions start.installation mode ⟨start.options.pull⟩ handed start.state

/-- What loading the counter file gives. -/
def loadCounter (file : Option KeyFile) : Except GError KeyFile :=
  match start.io.loadFromFile with
  | some e => .error e
  | none => loadKeyFile file

/-- What a run that finds the counter file applies and records. -/
def records (file : Option KeyFile) : List FlatpakRemoteRefAction :=
  match applicationProgressInStateFile (start.loadCounter file) with
  | .error _ => []
  | .ok progresses => start.recorded (file.map fun _ => progresses)

/-- The counter file after the run. -/
def counterFileAfter (file : Option KeyFile) : Option KeyFile :=
  match applicationProgressInStateFile (start.loadCounter file) with
  | .error _ => file
  | .ok progresses =>
      match start.toApply (file.map fun _ => progresses) with
      | none => file
      | some (mode, handed) =>
          match applyLoop start.installation mode ⟨start.options.pull⟩ handed start.state
              GHashTable.empty with
          | .aborted _ => file
          | .failed _ _ newProgresses => (updateCounterFile start.io file newProgresses).2
          | .done _ newProgresses => (updateCounterFile start.io file newProgresses).2

/-- A file is not found only if there is none. -/
def Finds {α : Type} (file : Option α) : Prop :=
  ∀ e, start.io.loadFromFile = some e → e.code = .fileNoent → file = none

/-- What the run relies on: a key file can hold the names of the autoinstall files, and the serials
in these fit. -/
structure Sound (file : Option KeyFile) : Prop where
  finds : start.Finds file
  named : ∀ a, start.table.Entry a → isGroupName a.source = true
  serialsFit : start.table.SerialsFit

/-- The run succeeds in applying what there is to apply of some files. -/
structure Succeeds (T : AutoinstallTable) (file : Option KeyFile) : Prop where
  table : start.table = T
  applied : ∃ progresses mode handed,
    applicationProgressInStateFile (start.loadCounter file) = .ok progresses ∧
      start.toApply (file.map fun _ => progresses) = some (mode, handed) ∧
      (start.finished (file.map fun _ => progresses)).status = .ok

end Start

/-- What runs apply and record, one after the other. -/
def history : Option KeyFile → List Start → List (List FlatpakRemoteRefAction)
  | _, [] => []
  | file, start :: starts => start.records file :: history (start.counterFileAfter file) starts

/-- The counter file after runs. -/
def counterFileAfterAll : Option KeyFile → List Start → Option KeyFile
  | file, [] => file
  | file, start :: starts => counterFileAfterAll (start.counterFileAfter file) starts

/-- Every run meets a condition on it and the counter file that it finds. -/
def Throughout (cond : Start → Option KeyFile → Prop) : Option KeyFile → List Start → Prop
  | _, [] => True
  | file, start :: starts =>
      cond start file ∧ Throughout cond (start.counterFileAfter file) starts

/-- The counter file can be read. -/
def Reads (file : Option KeyFile) (P : Progresses) : Prop :=
  applicationProgressInStateFile (loadKeyFile file) = .ok P

/-! ### What a run records -/

variable {installation : FlatpakInstallation σ} {mode : ApplyMode} {flags : InstallerFlags}
variable {start : Start} {counterFile : Option Progresses}

/-- The actions performed are the first ones of the list. -/
theorem append_performedActions (installation : FlatpakInstallation σ) (mode : ApplyMode)
    (flags : InstallerFlags) (actions : List FlatpakRemoteRefAction) (s : σ) :
    ∃ rest, actions = performedActions installation mode flags actions s ++ rest := by
  induction actions generalizing s with
  | nil => exact ⟨[], rfl⟩
  | cons a actions ih =>
      rw [performedActions]
      split
      · exact ⟨a :: actions, rfl⟩
      split
      next s' _ =>
        obtain ⟨rest, hrest⟩ := ih s'
        exact ⟨rest, congrArg (a :: ·) hrest⟩
      next => exact ⟨a :: actions, rfl⟩

/-- Unless it aborts, the loop collects the progresses of the actions that it gets through; and at
its end it has got through all of them. -/
theorem applyLoop_performed (installation : FlatpakInstallation σ) (mode : ApplyMode)
    (flags : InstallerFlags) (actions : List FlatpakRemoteRefAction) (s : σ)
    (newProgresses : Progresses) :
    (∃ s', applyLoop installation mode flags actions s newProgresses =
        .done s' (collectProgresses newProgresses actions) ∧
      performedActions installation mode flags actions s = actions) ∨
    (∃ e s', applyLoop installation mode flags actions s newProgresses =
      .failed e s' (collectProgresses newProgresses
        (performedActions installation mode flags actions s))) ∨
    (∃ s', applyLoop installation mode flags actions s newProgresses = .aborted s') := by
  induction actions generalizing s newProgresses with
  | nil => exact .inl ⟨s, rfl, rfl⟩
  | cons a actions ih =>
      rw [applyLoop, ← stepAction, performedActions]
      split
      · exact .inr (.inr ⟨s, rfl⟩)
      rcases hstep : stepAction installation mode flags s a with ⟨(_ | e) | _, s'⟩
      · exact .inr (.inl ⟨_, s', rfl⟩)
      · exact .inr (.inr ⟨s', rfl⟩)
      · rcases ih s' (newProgresses.replace a.source a.serial) with
          ⟨s'', hloop, hall⟩ | ⟨e, s'', hloop⟩ | ⟨s'', hloop⟩
        · exact .inl ⟨s'', hloop, congrArg (a :: ·) hall⟩
        · exact .inr (.inl ⟨e, s'', hloop⟩)
        · exact .inr (.inr ⟨s'', hloop⟩)

/-- A run that is to apply a list succeeds only if it does. -/
theorem result_of_status (start : Start) (counterFile : Option Progresses) (mode : ApplyMode)
    (handed : List FlatpakRemoteRefAction) :
    start.toApply counterFile = some (mode, handed) →
      (start.finished counterFile).status = .ok →
        (applyFlatpakRefActions start.installation start.io start.state counterFile handed mode
          ⟨start.options.pull⟩).result = .ok () := by
  rw [Start.finished, Start.toApply, main]
  rcases parseInstallerMode (start.options.mode.getD "perform") with e | parsedMode | _
  · simp
  · cases start.getInstallation with
    | error e => simp
    | ok _ =>
    dsimp only
    rw [mainApply]
    cases determineFlatpakRefActionsToApply start.refActions
        (applicationProgressInStatePath start.io counterFile) with
    | error e => simp
    | ok new =>
    dsimp only
    cases handedActions start.installation start.state start.options.pull
        (flattenFlatpakRefActionsTable new) with
    | error failure => simp
    | ok list =>
    dsimp only
    split
    · simp
    intro htoApply
    obtain ⟨rfl, rfl⟩ := Prod.mk.inj (Option.some.inj htoApply)
    -- an error of the list is one of the run
    rcases (applyFlatpakRefActions start.installation start.io start.state counterFile list
      parsedMode ⟨start.options.pull⟩).result with (_ | e) | _
    · exact fun h => ExitStatus.noConfusion h
    · exact fun h => ExitStatus.noConfusion h
    · exact fun _ => rfl
  · simp

/-- The list that a run is to apply comes from the files and the counter file that it has found. -/
theorem handed_of_toApply (hfinds : start.Finds counterFile) {handed : List FlatpakRemoteRefAction}
    (h : start.toApply counterFile = some (mode, handed)) :
    Deployment.handed start.installation ⟨start.table, counterFile, start.state⟩
      start.options.pull = .ok handed := by
  -- a file that is there is loaded, so only one that is not gives the empty table
  have hprogress : ∀ progresses, applicationProgressInStatePath start.io counterFile =
      .ok progresses → progresses = counterFile.getD GHashTable.empty := by
    intro progresses hok
    rw [applicationProgressInStatePath] at hok
    split at hok
    · exact (Except.ok.inj hok).symm
    next e hload =>
      split at hok
      · cases hok
      next hcode =>
        rw [hfinds e hload (not_not.1 hcode)]
        exact (Except.ok.inj hok).symm
  rw [Start.toApply] at h
  split at h
  · cases h
  · cases h
  split at h
  · cases h
  split at h
  · cases h
  next new hnew =>
  split at h
  · cases h
  next handed' hhanded =>
  split at h
  · cases h
  obtain ⟨-, rfl⟩ := Prod.mk.inj (Option.some.inj h)
  -- what is new is filtered by the table that was read, as in the definition of the list
  have hlist : new = filterForNewFlatpakRefActions start.table.files
      (counterFile.getD GHashTable.empty) := by
    rw [determineFlatpakRefActionsToApply, flatpakRefActionsAndProgresses.eq_def,
      Start.refActions] at hnew
    cases hread : start.readError with
    | some e =>
        rw [hread] at hnew
        cases hnew
    | none =>
        rw [hread] at hnew
        cases hprogresses : applicationProgressInStatePath start.io counterFile with
        | error e =>
            rw [hprogresses] at hnew
            cases hnew
        | ok progresses =>
            rw [hprogresses, hprogress progresses hprogresses] at hnew
            exact (Except.ok.inj hnew).symm
  rw [Deployment.handed, actionsToApply, ← hlist]
  exact hhanded

/-! ### What runs find -/

variable {T : AutoinstallTable} {P : Progresses} {d : Deployment σ} {pull : Bool}
variable {actions l : List FlatpakRemoteRefAction}

/-- The list of a run ascends by serial. -/
theorem pairwise_serial_handed (hfit : d.table.SerialsFit)
    (hactions : d.handed installation pull = .ok actions) :
    actions.Pairwise fun a b => a.serial ≤ b.serial := by
  have hL : SortedList (actionsToApply d.table.files d.counterFile) := sortedList_new hfit _
  have hsorted : actions.Pairwise fun a b => a.serial.toInt ≤ b.serial.toInt := by
    cases pull with
    | false =>
        obtain rfl : actionsToApply d.table.files d.counterFile = actions := by
          simpa [Deployment.handed, handedActions] using hactions
        exact hL.ascending
    | true =>
        obtain rfl := (addDependencyRefActions_eq_ok hactions).symm
        rw [squashRefActionsPtrArray_eq]
        exact pairwise_ptrArraySort ((serialsFit_addDependencies
          (relatedActions_reportedActions installation d.state) hL).mono fun a ha =>
            (survivors_sublist refKey FlatpakRemoteRefAction.overridesUpdate _).subset ha)
  exact hsorted.imp Int32.le_iff_toInt_le.2

/-- What a run records: actions with the file and serial of a new entry, by ascending serials. -/
structure RecordsNew (T : AutoinstallTable) (P : Progresses)
    (l : List FlatpakRemoteRefAction) : Prop where
  owner : ∀ a ∈ l, ∃ c, T.New P c ∧ a.source = c.source ∧ a.serial = c.serial
  ascends : l.Pairwise fun a b => a.serial ≤ b.serial

/-- A run records serials of new entries only. -/
theorem recordsNew (hfinds : start.Finds counterFile) (hfit : start.table.SerialsFit) :
    RecordsNew start.table (counterFile.getD GHashTable.empty) (start.recorded counterFile) := by
  have hnil : RecordsNew start.table (counterFile.getD GHashTable.empty) [] :=
    ⟨fun _ hmem => absurd hmem List.not_mem_nil, .nil⟩
  rw [Start.recorded]
  cases htoApply : start.toApply counterFile with
  | none => exact hnil
  | some list =>
  obtain ⟨mode, handed⟩ := list
  have hhanded := handed_of_toApply hfinds htoApply
  obtain ⟨rest, hsplit⟩ := append_performedActions start.installation mode
    ⟨start.options.pull⟩ handed start.state
  -- what is performed is a front of the list, which ascends and has new entries only
  have hperformed : RecordsNew start.table (counterFile.getD GHashTable.empty)
      (performedActions start.installation mode ⟨start.options.pull⟩ handed start.state) := by
    constructor
    · intro a ha
      refine (appliesNew_handed hhanded).owner a ?_
      rw [hsplit]
      exact List.mem_append_left _ ha
    · refine (pairwise_serial_handed hfit hhanded).sublist ?_
      conv_rhs => rw [hsplit]
      exact List.sublist_append_left _ _
  dsimp only
  cases start.io.error with
  | some e => exact hnil
  | none =>
      dsimp only
      split
      · exact hnil
      · exact hperformed

/-! ### What the counter file says after a run -/

variable {file : Option KeyFile}

/-- The progresses that a file is read as are those the run goes by. -/
theorem getD_of_reads (hreads : Reads file P) :
    (file.map fun _ => P).getD GHashTable.empty = P := by
  cases file with
  | none => exact Except.ok.inj hreads
  | some keyFile => rfl

/-- A run fails to load the counter file, or reads what it says. -/
theorem load_cases (hfinds : start.Finds file) (hreads : Reads file P) :
    (∃ e, applicationProgressInStateFile (start.loadCounter file) = .error e) ∨
      applicationProgressInStateFile (start.loadCounter file) = .ok P := by
  rw [Start.loadCounter]
  cases hload : start.io.loadFromFile with
  | none => exact .inr hreads
  | some e =>
      by_cases hcode : e.code = .fileNoent
      · obtain rfl := hfinds e hload hcode
        refine .inr ?_
        rw [← hreads]
        simp [applicationProgressInStateFile, loadKeyFile, hcode]
      · refine .inl ⟨e, ?_⟩
        simp [applicationProgressInStateFile, hcode]

/-- What a run of a history records is new. -/
theorem records_new (hsound : start.Sound file) (hreads : Reads file P) :
    RecordsNew start.table P (start.records file) := by
  rw [Start.records]
  rcases load_cases hsound.finds hreads with ⟨e, hload⟩ | hload
  · rw [hload]
    exact ⟨fun _ hmem => absurd hmem List.not_mem_nil, .nil⟩
  · rw [hload]
    have hfinds : start.Finds (file.map fun _ => P) := fun e he hcode => by
      rw [hsound.finds e he hcode]
      rfl
    have hrecords := recordsNew hfinds hsound.serialsFit
    rwa [getD_of_reads hreads] at hrecords

/-- An update of the counter file that succeeds takes in progresses of the files. -/
theorem reads_updateCounterFile (hsound : start.Sound file) (hreads : Reads file P)
    (herror : start.io.error = none) (hl : RecordsNew start.table P l) :
    ∃ P', Reads (updateCounterFile start.io file (progressOf l)).2 P' ∧
      ∀ name, P'.lookup name = (P.setAll (progressOf l)).lookup name := by
  have hold : applicationProgressInStateFile (.ok (file.getD KeyFile.empty)) = .ok P := by
    cases file with
    | none => exact hreads
    | some keyFile => exact hreads
  rw [updateCounterFile_of_no_error _ hsound.finds herror]
  refine (overridden_iff (progressOf l) hold).2 fun name hname => ?_
  obtain ⟨n, hn⟩ := ((progressOf l).mem_getKeys_iff name).1 hname
  have hlookup : (GHashTable.empty.setAll (progressOf l)).lookup name = some n := by
    rw [GHashTable.lookup_setAll, hn]
    rfl
  rcases recorded_from hlookup with ⟨a, ha, rfl, -⟩ | hnone
  · obtain ⟨c, hc, hsource, -⟩ := hl.owner a ha
    rw [hsource]
    exact hsound.named c hc.1
  · cases hnone

/-- **One run.** The counter file takes in what the run records. -/
theorem reads_counterFileAfter (hsound : start.Sound file) (hreads : Reads file P) :
    ∃ P', Reads (start.counterFileAfter file) P' ∧
      ∀ name, P'.lookup name = (P.setAll (progressOf (start.records file))).lookup name := by
  have hnothing : ∃ P', Reads file P' ∧
      ∀ name, P'.lookup name = (P.setAll (progressOf [])).lookup name := by
    refine ⟨P, hreads, fun name => ?_⟩
    rw [lookup_recorded]
    rfl
  have hrecords := records_new hsound hreads
  revert hrecords
  rw [Start.records, Start.counterFileAfter]
  rcases load_cases hsound.finds hreads with ⟨e, hload⟩ | hload
  · rw [hload]
    exact fun _ => hnothing
  rw [hload]
  dsimp only
  rw [Start.recorded]
  rcases start.toApply (file.map fun _ => P) with _ | ⟨mode, handed⟩
  · exact fun _ => hnothing
  dsimp only
  -- an update of the counter that fails leaves it, and a successful one takes in the progresses
  have hunchanged : ∀ e new, start.io.error = some e →
      (updateCounterFile start.io file new).2 = file := fun e new herror => by
    rw [updateCounterFile_eq, herror]
  rcases applyLoop_performed start.installation mode ⟨start.options.pull⟩ handed start.state
      GHashTable.empty with
    ⟨s', hloop, hall⟩ | ⟨e, s', hloop⟩ | ⟨s', hloop⟩
  · rw [hloop, hall]
    cases herror : start.io.error with
    | none => exact reads_updateCounterFile hsound hreads herror
    | some e =>
        dsimp only
        rw [hunchanged e _ herror]
        exact fun _ => hnothing
  · rw [hloop]
    cases herror : start.io.error with
    | none => exact reads_updateCounterFile hsound hreads herror
    | some e' =>
        dsimp only
        rw [hunchanged e' _ herror]
        exact fun _ => hnothing
  · rw [hloop]
    cases start.io.error <;> exact fun _ => hnothing

/-! ### What runs leave behind -/

variable {a c : FlatpakRemoteRefAction} {name : String} {progress : Int32}

/-- Progress does not go back. -/
theorem RecordsNew.progress_le (h : RecordsNew T P l) (hprogress : P.lookup name = some progress) :
    ∃ progress', (P.setAll (progressOf l)).lookup name = some progress' ∧ progress ≤ progress' :=
  progress_le_recorded (fun a ha progress hprogress => by
    obtain ⟨c, hc, hsource, hserial⟩ := h.owner a ha
    rw [hserial]
    exact hc.2 progress (by rwa [← hsource])) hprogress

/-- It covers what has been recorded. -/
theorem RecordsNew.covers (h : RecordsNew T P l) (ha : a ∈ l) :
    ∃ progress, (P.setAll (progressOf l)).lookup a.source = some progress ∧
      a.serial ≤ progress := by
  rw [lookup_recorded]
  cases hlast : lastOfFile l a.source with
  | none => exact absurd rfl (source_ne_of_lastOfFile hlast a ha)
  | some z =>
      refine ⟨z.serial, rfl, ?_⟩
      -- the last action of the file is not in front of `a`
      obtain ⟨front, hfront⟩ := List.getLast?_eq_some_iff.1 hlast
      have hsorted := h.ascends.sublist
        (List.filter_sublist (p := fun b => decide (b.source = a.source)))
      rw [hfront, List.pairwise_append] at hsorted
      have hmem : a ∈ front ++ [z] := by
        rw [← hfront, List.mem_filter]
        exact ⟨ha, decide_eq_true rfl⟩
      rcases List.mem_append.1 hmem with hmem | hmem
      · exact hsorted.2.2 a hmem z List.mem_cons_self
      · rw [List.mem_singleton.1 hmem]
        exact Int32.le_refl _

/-- The progresses after a run: none has gone back, and what has been recorded is covered. -/
structure Advances (P : Progresses) (l : List FlatpakRemoteRefAction) (P' : Progresses) : Prop where
  progress_le : ∀ name progress, P.lookup name = some progress →
    ∃ progress', P'.lookup name = some progress' ∧ progress ≤ progress'
  covers : ∀ a ∈ l, ∃ progress, P'.lookup a.source = some progress ∧ a.serial ≤ progress

/-- Each run of a sound history leaves a counter that can be read and has only advanced. -/
theorem exists_advances (hsound : start.Sound file) (hreads : Reads file P) :
    ∃ P', Reads (start.counterFileAfter file) P' ∧ Advances P (start.records file) P' := by
  obtain ⟨P', hreads', hlookup⟩ := reads_counterFileAfter hsound hreads
  have hrecords := records_new hsound hreads
  refine ⟨P', hreads', fun name progress hprogress => ?_, fun a ha => ?_⟩
  · rw [hlookup]
    exact hrecords.progress_le hprogress
  · rw [hlookup]
    exact hrecords.covers ha

/-- What is new after a run was new before it. -/
theorem Advances.new_of_new {P' : Progresses} (h : Advances P l P') (hc : T.New P' c) :
    T.New P c := by
  refine ⟨hc.1, fun progress hprogress => ?_⟩
  obtain ⟨progress', hprogress', hle⟩ := h.progress_le _ _ hprogress
  exact Int32.lt_of_le_of_lt hle (hc.2 progress' hprogress')

variable {starts : List Start}

/-- Runs record nothing that the progress covers. -/
theorem lt_of_mem_history (hsound : Throughout Start.Sound file starts) (hreads : Reads file P)
    (hprogress : P.lookup name = some progress) (hl : l ∈ history file starts) (ha : a ∈ l)
    (hsource : a.source = name) : progress < a.serial := by
  induction starts generalizing file P progress with
  | nil => cases hl
  | cons start starts ih =>
      rcases List.mem_cons.1 hl with rfl | hl
      · obtain ⟨c, hc, hcsource, hcserial⟩ := (records_new hsound.1 hreads).owner a ha
        rw [hcserial]
        exact hc.2 progress (by rwa [← hcsource, hsource])
      · obtain ⟨P', hreads', hadvances⟩ := exists_advances hsound.1 hreads
        obtain ⟨progress', hprogress', hle⟩ := hadvances.progress_le _ _ hprogress
        exact Int32.lt_of_le_of_lt hle (ih hsound.2 hreads' hprogress' hl)

/-- **Nothing is applied twice.** Over any runs, what is applied and recorded of a file has greater
serials than all that has been in earlier ones. -/
theorem history_ascends (hsound : Throughout Start.Sound file starts) (hreads : Reads file P) :
    (history file starts).Pairwise fun l l' =>
      ∀ a ∈ l, ∀ b ∈ l', a.source = b.source → a.serial < b.serial := by
  induction starts generalizing file P with
  | nil => exact .nil
  | cons start starts ih =>
      obtain ⟨P', hreads', hadvances⟩ := exists_advances hsound.1 hreads
      refine List.pairwise_cons.2 ⟨fun l' hl' a ha b hb hsource => ?_, ih hsound.2 hreads'⟩
      obtain ⟨progress, hprogress, hle⟩ := hadvances.covers a ha
      exact Int32.lt_of_le_of_lt hle (lt_of_mem_history hsound.2 hreads' hprogress hl' hb
        hsource.symm)

/-- A run over two files that disagree on an app, where everything works. -/
def conflictingStart : Start where
  State := Unit
  installation := reportingInstallation (fun _ => true) fun _ => []
  getInstallation := .ok ()
  io := .reliable
  state := ()
  table := conflictingFiles
  readError := none
  options := ⟨false, none, false⟩

/-- The run of the sample is sound. -/
private theorem sound_conflictingStart (file : Option KeyFile) : conflictingStart.Sound file := by
  have hnamed : ∀ a ∈ concatenatedActions conflictingFiles.files, isGroupName a.source = true := by
    decide +kernel
  exact ⟨fun _ h => (by cases h),
    fun a ha => hnamed a ((AutoinstallTable.mem_concatenatedActions_files _).2 ha),
    (AutoinstallTable.serialsFit_iff conflictingFiles).2 (by decide +kernel)⟩

/-- The first run uninstalls the app, the second one installs it, and the third does nothing. -/
theorem history_conflictingFiles :
    let runs := history none [conflictingStart, conflictingStart, conflictingStart]
    runs = [[sampleAction .uninstall "org.example.X" "20-b" 1],
        [sampleAction .install "org.example.X" "10-a" 1], []] ∧
      runs.Pairwise fun l l' => ∀ a ∈ l, ∀ b ∈ l', a.source = b.source → a.serial < b.serial := by
  intro runs
  have hsound : Throughout Start.Sound none
      [conflictingStart, conflictingStart, conflictingStart] :=
    ⟨sound_conflictingStart _, sound_conflictingStart _, sound_conflictingStart _, trivial⟩
  exact ⟨by decide +kernel, history_ascends (P := GHashTable.empty) hsound rfl⟩

/-! ### When runs have nothing left to do -/

/-- A run that succeeds in applying its list has recorded all of it. -/
theorem Start.Succeeds.records_eq (h : start.Succeeds T file) (hsound : start.Sound file)
    (hreads : Reads file P) :
    Deployment.handed start.installation ⟨start.table, file.map fun _ => P, start.state⟩
      start.options.pull = .ok (start.records file) := by
  obtain ⟨progresses, mode, handed, hload, htoApply, hstatus⟩ := h.applied
  obtain rfl : P = progresses := by
    rcases load_cases hsound.finds hreads with ⟨e, hload'⟩ | hload'
    · rw [hload] at hload'
      cases hload'
    · exact Except.ok.inj (hload'.symm.trans hload)
  have hfinds : start.Finds (file.map fun _ => P) := fun e he hcode => by
    rw [hsound.finds e he hcode]
    rfl
  -- it has applied the whole list and has written the counter, else it would have failed
  have hresult := result_of_status start _ mode handed htoApply hstatus
  rw [applyFlatpakRefActions] at hresult
  rw [handed_of_toApply hfinds htoApply, Start.records, hload]
  dsimp only
  rw [Start.recorded, htoApply]
  dsimp only
  rcases applyLoop_performed start.installation mode ⟨start.options.pull⟩ handed start.state
      GHashTable.empty with
    ⟨s', hloop, hall⟩ | ⟨e, s', hloop⟩ | ⟨s', hloop⟩
  · rw [hloop] at hresult
    dsimp only at hresult
    rw [updateCounter_eq] at hresult
    rw [hloop, hall]
    cases herror : start.io.error with
    | none => rfl
    | some e =>
        rw [herror] at hresult
        cases hresult
  · rw [hloop] at hresult
    cases hresult
  · rw [hloop] at hresult
    cases hresult

/-- What is new after runs was new before them. -/
theorem new_of_new_after {P' : Progresses} (hsound : Throughout Start.Sound file starts)
    (hreads : Reads file P) (hreads' : Reads (counterFileAfterAll file starts) P')
    (hc : T.New P' c) : T.New P c := by
  induction starts generalizing file P with
  | nil =>
      obtain rfl : P = P' := Except.ok.inj (hreads.symm.trans hreads')
      exact hc
  | cons start starts ih =>
      obtain ⟨P₁, hreads₁, hadvances⟩ := exists_advances hsound.1 hreads
      exact hadvances.new_of_new (ih hsound.2 hreads₁ hreads')

/-- Each of a number of successful runs, after which there is a new entry, has covered another
one. -/
theorem exists_covered {P' : Progresses} (hsound : Throughout Start.Sound file starts)
    (hsucceeds : Throughout (Start.Succeeds · T) file starts) (hreads : Reads file P)
    (hreads' : Reads (counterFileAfterAll file starts) P') (hc : T.New P' c) :
    ∃ covered : List FlatpakRemoteRefAction, covered.length = starts.length ∧ covered.Nodup ∧
      ∀ e ∈ covered, T.New P e ∧ ¬ T.New P' e := by
  induction starts generalizing file P with
  | nil => exact ⟨[], rfl, .nil, fun _ hmem => absurd hmem List.not_mem_nil⟩
  | cons start starts ih =>
      obtain ⟨P₁, hreads₁, hadvances⟩ := exists_advances hsound.1 hreads
      obtain ⟨covered, hlength, hnodup, hnew⟩ := ih hsound.2 hsucceeds.2 hreads₁ hreads'
      -- the first run has recorded something on the ref of the new entry
      have happlies := appliesNew_handed (hsucceeds.1.records_eq hsound.1 hreads)
      rw [Deployment.progresses] at happlies
      dsimp only at happlies
      rw [hsucceeds.1.table, getD_of_reads hreads] at happlies
      obtain ⟨a, ha, -⟩ := happlies.covers c (new_of_new_after hsound hreads hreads' hc)
      obtain ⟨e, he, hsource, hserial⟩ := happlies.owner a ha
      have hcovered : ¬ T.New P₁ e := fun h => by
        obtain ⟨progress, hprogress, hle⟩ := hadvances.covers a ha
        rw [hsource] at hprogress
        rw [hserial] at hle
        exact Int32.not_lt.2 hle (h.2 progress hprogress)
      refine ⟨e :: covered, congrArg Nat.succ hlength,
        List.nodup_cons.2 ⟨fun hmem => hcovered (hnew e hmem).1, hnodup⟩, fun e' hmem => ?_⟩
      rcases List.mem_cons.1 hmem with rfl | hmem
      · exact ⟨he, fun h => hcovered (new_of_new_after hsound.2 hreads₁ hreads' h)⟩
      · exact ⟨hadvances.new_of_new (hnew e' hmem).1, (hnew e' hmem).2⟩

/-- After any number of sound runs the counter can be read. -/
theorem reads_after (hsound : Throughout Start.Sound file starts) (hreads : Reads file P) :
    ∃ P', Reads (counterFileAfterAll file starts) P' := by
  induction starts generalizing file P with
  | nil => exact ⟨P, hreads⟩
  | cons start starts ih =>
      obtain ⟨P₁, hreads₁, -⟩ := exists_advances hsound.1 hreads
      exact ih hsound.2 hreads₁

/-- **Runs settle.** Over files that stay the same, as many successful runs as there are entries
leave nothing to apply. -/
theorem history_settles (hsound : Throughout Start.Sound file starts)
    (hsucceeds : Throughout (Start.Succeeds · T) file starts) (hreads : Reads file P)
    (hlength : (concatenatedActions T.files).length ≤ starts.length) :
    ∃ P', Reads (counterFileAfterAll file starts) P' ∧
      flattenFlatpakRefActionsTable (filterForNewFlatpakRefActions T.files P') = [] := by
  obtain ⟨P', hreads'⟩ := reads_after hsound hreads
  refine ⟨P', hreads', (actionsToApply_eq_nil_iff (some P')).2 fun c hc => ?_⟩
  obtain ⟨covered, hcovered, hnodup, hnew⟩ := exists_covered hsound hsucceeds hreads hreads' hc
  -- with the new entry, there would be more entries than there are
  have hmore : (c :: covered).Nodup :=
    List.nodup_cons.2 ⟨fun hmem => (hnew c hmem).2 hc, hnodup⟩
  have hsubset : c :: covered ⊆ concatenatedActions T.files := fun e hmem => by
    rw [AutoinstallTable.mem_concatenatedActions_files]
    rcases List.mem_cons.1 hmem with rfl | hmem
    · exact hc.1
    · exact (hnew e hmem).1.1
  have hle := (List.subperm_of_subset hmore hsubset).length_le
  rw [List.length_cons, hcovered] at hle
  omega

/-- Two files with an entry each are applied by two runs, although they disagree. -/
theorem history_settles_conflictingFiles :
    ∃ P', Reads (counterFileAfterAll none [conflictingStart, conflictingStart]) P' ∧
      flattenFlatpakRefActionsTable (filterForNewFlatpakRefActions conflictingFiles.files P') =
        [] := by
  refine history_settles (P := GHashTable.empty)
    ⟨sound_conflictingStart _, sound_conflictingStart _, trivial⟩ ⟨?_, ?_, trivial⟩ rfl
    (by decide +kernel)
  · exact ⟨rfl, GHashTable.empty, .perform, [sampleAction .uninstall "org.example.X" "20-b" 1], rfl,
      by decide +kernel, by decide +kernel⟩
  · exact ⟨rfl, GHashTable.empty.replace "20-b" 1, .perform,
      [sampleAction .install "org.example.X" "10-a" 1], by decide +kernel,
      by decide +kernel, by decide +kernel⟩

end Eufi
