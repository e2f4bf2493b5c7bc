import EosUpdater.Flatpak.Squash

/-!
# Tables of autoinstall files

The functions of `flatpak-util.c` that take a table from filenames to actions: filtering it by the
recorded progress, squashing each list, and flattening it into one list.

An `AutoinstallTable` is a table as the parser fills it: the actions of a file bear its name, none
is a dependency, installs name a remote, and the serials ascend strictly.

The documentation orders entries by filename and then by serial (`docPosition`), and lets an
install or uninstall beat an update. `Wins S a` says that `a` is first by that measure among the
entries in `S` on its ref. Filtering, squashing per file and flattening together select exactly
the winners of the filtered entries (`mem_flatten_new`, `mem_flatten_existing`), whatever the
sorts in between do. As long as the serials fit, the flattened list is in the order of
`execPosition`, by serial and then by filename (`pairwise_flatten_new`).
-/

namespace Euu

open Overwrite

/-- A hash table from filenames to serials, as kept in the counter file. -/
abbrev Progresses := GHashTable String Int32

/-- A hash table from filenames to arrays of actions. -/
abbrev RefActionsTable := GHashTable String (List FlatpakRemoteRefAction)

/-! ### The functions -/

/-- `keep_only_new_actions`: everything from the first action whose serial exceeds the progress. -/
def keepOnlyNewActions (alreadyAppliedActionsTable : Progresses) (tableName : String)
    (incomingActions : List FlatpakRemoteRefAction) : List FlatpakRemoteRefAction :=
  match alreadyAppliedActionsTable.lookup tableName with
  | none => incomingActions
  | some alreadyAppliedActionsProgress =>
      -- the first new action is looked for, and the list is not looked at beyond it
      incomingActions.dropWhile fun action =>
        !decide (action.serial > alreadyAppliedActionsProgress)

/-- `keep_only_existing_actions`: everything up to the first action whose serial exceeds the
progress, and nothing if there is no progress for the file. -/
def keepOnlyExistingActions (alreadyAppliedActionsTable : Progresses) (tableName : String)
    (incomingActions : List FlatpakRemoteRefAction) : List FlatpakRemoteRefAction :=
  match alreadyAppliedActionsTable.lookup tableName with
  | none => []
  | some alreadyAppliedActionsProgress =>
      incomingActions.takeWhile fun action =>
        !decide (action.serial > alreadyAppliedActionsProgress)

/-- `euu_squash_remote_ref_actions`. -/
def squashRemoteRefActions (refActionsTable : RefActionsTable) : RefActionsTable :=
  refActionsTable.mapValues fun _ actions => squashRefActionsPtrArray actions

/-- `filter_flatpak_ref_actions_table`, which always squashes what it has filtered. -/
def filterFlatpakRefActionsTable (refActionsTable : RefActionsTable)
    (filterFunc : String → List FlatpakRemoteRefAction → List FlatpakRemoteRefAction) :
    RefActionsTable :=
  squashRemoteRefActions (refActionsTable.mapValues filterFunc)

/-- `euu_filter_for_new_flatpak_ref_actions`. -/
def filterForNewFlatpakRefActions (refActions : RefActionsTable) (progresses : Progresses) :
    RefActionsTable :=
  filterFlatpakRefActionsTable refActions (keepOnlyNewActions progresses)

/-- `euu_filter_for_existing_flatpak_ref_actions`. -/
def filterForExistingFlatpakRefActions (refActions : RefActionsTable) (progresses : Progresses) :
    RefActionsTable :=
  filterFlatpakRefActionsTable refActions (keepOnlyExistingActions progresses)

/-- `concatenated_actions_pointer_array` in `euu_flatten_flatpak_ref_actions_table`: the lists of
the files, in `g_strcmp0` order of the filenames. -/
def concatenatedActions (refActionsTable : RefActionsTable) : List FlatpakRemoteRefAction :=
  -- `g_strcmp0` compares bytes, which for UTF-8 is the order of the code points
  let remoteRefActionsKeys := GLib.msort (fun s t => decide (s ≤ t)) refActionsTable.getKeys
  remoteRefActionsKeys.flatMap fun key => (refActionsTable.lookup key).getD []

/-- `euu_flatten_flatpak_ref_actions_table`. -/
def flattenFlatpakRefActionsTable (refActionsTable : RefActionsTable) :
    List FlatpakRemoteRefAction :=
  squashRefActionsPtrArray (concatenatedActions refActionsTable)

/-! ### Parsed tables -/

/-- A table as `euu_flatpak_ref_actions_from_paths` returns it, as far as serials fit. -/
structure AutoinstallTable where
  /-- The table itself. -/
  files : RefActionsTable
  /-- The serials of a file ascend strictly. -/
  ascending : ∀ name actions, files.lookup name = some actions →
    actions.Pairwise fun a b => a.serial.toInt < b.serial.toInt
  /-- The actions of a file bear its name. -/
  source_eq : ∀ name actions, files.lookup name = some actions → ∀ a ∈ actions, a.source = name
  /-- Dependencies are only added to flattened lists. -/
  not_dependency : ∀ name actions, files.lookup name = some actions →
    ∀ a ∈ actions, a.isDependency = false
  /-- An install names the remote to install from. -/
  install_remote : ∀ name actions, files.lookup name = some actions →
    ∀ a ∈ actions, a.type = .install → a.ref.remote.isSome = true

/-! ### The documented order -/

/-- Where the documentation puts an entry: by filename, then by serial. -/
def docPosition (a : FlatpakRemoteRefAction) : String ×ₗ ℤ := toLex (a.source, a.serial.toInt)

/-- Which of two entries on a ref takes priority: an install or uninstall over an update, then the
later one in the documented order. -/
def docPriority (a : FlatpakRemoteRefAction) : Bool ×ₗ String ×ₗ ℤ :=
  priority FlatpakRemoteRefAction.overridesUpdate docPosition a

/-- Where a run executes an entry: by serial, then by filename. -/
def execPosition (a : FlatpakRemoteRefAction) : ℤ ×ₗ String := toLex (a.serial.toInt, a.source)

/-- Each file's serials ascend strictly along the list. -/
def AscendsPerFile (actions : List FlatpakRemoteRefAction) : Prop :=
  actions.Pairwise fun a b => a.source = b.source → a.serial < b.serial

/-- The serials are compared pair by pair. -/
instance (actions : List FlatpakRemoteRefAction) : Decidable (AscendsPerFile actions) := by
  unfold AscendsPerFile
  infer_instance

/-- `a` takes priority over every other entry in `S` on its ref. -/
def Wins (S : FlatpakRemoteRefAction → Prop) (a : FlatpakRemoteRefAction) : Prop :=
  S a ∧ ∀ b, S b → refKey b = refKey a → docPriority b ≤ docPriority a

namespace AutoinstallTable

/-- `a` is an entry of the table. -/
def Entry (T : AutoinstallTable) (a : FlatpakRemoteRefAction) : Prop :=
  ∃ actions, T.files.lookup a.source = some actions ∧ a ∈ actions

/-- `a` is an entry beyond the progress recorded for its file. -/
def New (T : AutoinstallTable) (P : Progresses) (a : FlatpakRemoteRefAction) : Prop :=
  T.Entry a ∧ ∀ progress, P.lookup a.source = some progress → progress < a.serial

/-- `a` is an entry that the progress of its file covers. -/
def Existing (T : AutoinstallTable) (P : Progresses) (a : FlatpakRemoteRefAction) : Prop :=
  T.Entry a ∧ ∃ progress, P.lookup a.source = some progress ∧ a.serial ≤ progress

/-- The table of a list of files. -/
def ofFiles (files : List (String × List FlatpakRemoteRefAction))
    (nodup : (files.map Prod.fst).Nodup)
    (wellFormed : ∀ file ∈ files, file.2.Pairwise (fun a b => a.serial.toInt < b.serial.toInt) ∧
      ∀ a ∈ file.2, a.source = file.1 ∧ a.isDependency = false ∧
        (a.type = .install → a.ref.remote.isSome = true)) : AutoinstallTable where
  files := ⟨files, nodup⟩
  ascending name actions h :=
    (wellFormed (name, actions) ((GHashTable.mem_entries_iff _ _ _).2 h)).1
  source_eq name actions h a ha :=
    ((wellFormed (name, actions) ((GHashTable.mem_entries_iff _ _ _).2 h)).2 a ha).1
  not_dependency name actions h a ha :=
    ((wellFormed (name, actions) ((GHashTable.mem_entries_iff _ _ _).2 h)).2 a ha).2.1
  install_remote name actions h a ha :=
    ((wellFormed (name, actions) ((GHashTable.mem_entries_iff _ _ _).2 h)).2 a ha).2.2

/-- No comparison of two entries of the table overflows. -/
def SerialsFit (T : AutoinstallTable) : Prop :=
  ∀ a b, T.Entry a → T.Entry b → a.serial.toInt - b.serial.toInt < 2 ^ 31

end AutoinstallTable

/-- An entry on an app of a sample remote, for concrete tables. -/
def sampleAction (type : FlatpakRemoteRefActionType) (name source : String) (serial : Int32) :
    FlatpakRemoteRefAction where
  type := type
  ref :=
    { ref := ⟨.app, name, "x86_64", "stable"⟩
      remote := if type = .install then some "eos-apps" else none
      collectionId := if type = .install then some "com.endlessm.Apps" else none }
  source := source
  serial := serial
  isDependency := false

end Euu
