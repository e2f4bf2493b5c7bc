import EosUpdater.Flatpak.Installation
import EosUpdater.Flatpak.Table

/-!
# Reading autoinstall files

The parser of `flatpak-util.c` for autoinstall files, from the JSON tree of a file to its list of
actions, and the directories that the files come from.

What an entry amounts to depends on the `ParserEnvironment`: the architecture and locales, the
filters and action types that the program knows, and whether the flatpak installation can be
opened. An entry is filtered out, skipped or read as an action (`readEntry`), and the list of a file
consists of the actions of its entries (`mem_readFlatpakRefActions`). A table read from directories
is an `AutoinstallTable` as far as the serials of each file fit (`exists_autoinstallTable`).
-/

namespace Euu

/-- A `JsonNode` of json-glib, with the members of an object in order. -/
inductive JsonNode
  | object (members : List (String × JsonNode))
  | array (elements : List JsonNode)
  | string (value : String)
  | int (value : Int64)
  | double (text : String)
  | boolean (value : Bool)
  | null

/-- `JsonObject`. -/
abbrev JsonObject := List (String × JsonNode)

/-- `json_object_get_member`. -/
def JsonObject.getMember (object : JsonObject) (key : String) : Option JsonNode :=
  (object.find? fun member => decide (member.1 = key)).map Prod.snd

/-- What the parser depends on beside the file. -/
structure ParserEnvironment where
  /-- `euu_get_system_architecture_string`. -/
  architecture : String
  /-- `eos_updater_override_locales_list`. -/
  locales : List String
  /-- `eos_updater_get_flatpak_installation`. -/
  getFlatpakInstallation : Except GError Unit
  /-- The filters that the program knows, of those that the current version does. -/
  knowsFilter : String → Bool
  /-- The action types that the program knows. -/
  knowsActionType : FlatpakRemoteRefActionType → Bool
  /-- `json_generator_to_data`. -/
  jsonGeneratorToData : JsonNode → String
  /-- `ostree_validate_remote_name`. -/
  validateRemoteName : String → Bool
  /-- `ostree_validate_collection_id`. -/
  validateCollectionId : String → Bool

/-- A file in one of the directories. -/
structure GFile where
  directory : String
  name : String
deriving DecidableEq, Repr

/-- `g_file_get_path`. -/
def GFile.path (file : GFile) : String := file.directory ++ "/" ++ file.name

/-- An error on what the file says. -/
def malformed (message : String) : GError := ⟨.updaterMalformedAutoinstallSpec, message⟩

/-- An error on something in the file that the program does not know. -/
def unknownEntry (message : String) : GError := ⟨.updaterUnknownEntryInAutoinstallSpec, message⟩

variable (env : ParserEnvironment)

/-! ### Actions -/

/-- `maybe_get_json_object_string_member`. -/
def maybeGetJsonObjectStringMember (object : JsonObject) (key : String) : Except GError String :=
  match object.getMember key with
  | none => .error (malformed ("Expected a ‘" ++ key ++ "’ member"))
  | some (.string value) => .ok value
  | some _ => .error (malformed ("Expected ‘" ++ key ++ "’ member to be a string"))

/-- `parse_ref_kind`. -/
def parseRefKind (refKindStr : String) : Except GError FlatpakRefKind :=
  if refKindStr = "app" then .ok .app
  else if refKindStr = "runtime" then .ok .runtime
  else .error (malformed ("Invalid kind: " ++ refKindStr))

/-- `parse_flatpak_ref_from_entry`, with the architecture that its callers add. -/
def parseFlatpakRefFromEntry (entry : JsonObject) : Except GError FlatpakRef := do
  let name ← maybeGetJsonObjectStringMember entry "name"
  let branch ← maybeGetJsonObjectStringMember entry "branch"
  let refKindStr ← maybeGetJsonObjectStringMember entry "ref-kind"
  let kind ← parseRefKind refKindStr
  return ⟨kind, name, env.architecture, branch⟩

/-- A `GError` as a failure to read. -/
def liftError {α : Type} : Except GError α → Except ReadFailure α
  | .ok a => .ok a
  | .error e => .error (.error e)

/-- `euu_flatpak_location_ref_new`: names that `g_return_val_if_fail` finds invalid give `NULL`
without an error. -/
def flatpakLocationRefNew (ref : FlatpakRef) (remote collectionId : Option String) :
    Except ReadFailure FlatpakLocationRef :=
  if remote.all env.validateRemoteName && collectionId.all env.validateCollectionId then
    .ok ⟨ref, remote, collectionId⟩
  else .error .unset

/-- `flatpak_remote_ref_from_install_action_entry`. -/
def flatpakRemoteRefFromInstallActionEntry (entry : JsonObject) :
    Except ReadFailure FlatpakLocationRef := do
  let ref ← liftError (parseFlatpakRefFromEntry env entry)
  let collectionId ← liftError (maybeGetJsonObjectStringMember entry "collection-id")
  let remote ← liftError (maybeGetJsonObjectStringMember entry "remote")
  flatpakLocationRefNew env ref (some remote) (some collectionId)

/-- The common body of the functions for uninstall and update entries, which name no remote. -/
def flatpakRemoteRefFromPlainActionEntry (entry : JsonObject) :
    Except ReadFailure FlatpakLocationRef := do
  let ref ← liftError (parseFlatpakRefFromEntry env entry)
  flatpakLocationRefNew env ref none none

/-- `flatpak_remote_ref_from_uninstall_action_entry`. -/
def flatpakRemoteRefFromUninstallActionEntry := flatpakRemoteRefFromPlainActionEntry env

/-- `flatpak_remote_ref_from_update_action_entry`. -/
def flatpakRemoteRefFromUpdateActionEntry := flatpakRemoteRefFromPlainActionEntry env

/-- `flatpak_remote_ref_from_action_entry`. -/
def flatpakRemoteRefFromActionEntry (actionType : FlatpakRemoteRefActionType)
    (entry : JsonObject) : Except ReadFailure FlatpakLocationRef :=
  match actionType with
  | .install => flatpakRemoteRefFromInstallActionEntry env entry
  | .uninstall => flatpakRemoteRefFromUninstallActionEntry env entry
  | .update => flatpakRemoteRefFromUpdateActionEntry env entry

/-- `flatpak_remote_ref_action_type_parse`. -/
def flatpakRemoteRefActionTypeParse (action : String) : Except GError FlatpakRemoteRefActionType :=
  let unknown : GError :=
    unknownEntry ("Unknown action type ‘" ++ action ++ "’ specified in autoinstall spec")
  let known (type : FlatpakRemoteRefActionType) : Except GError FlatpakRemoteRefActionType :=
    if env.knowsActionType type then .ok type else .error unknown
  if action = "install" then known .install
  else if action = "uninstall" then known .uninstall
  else if action = "update" then known .update
  else .error unknown

/-- `is_valid_serial`. -/
def isValidSerial (maybeSerial : Int64) : Bool :=
  Int32.minValue.toInt64 ≤ maybeSerial && maybeSerial ≤ Int32.maxValue.toInt64

/-- The member `serial` of an entry. -/
def parseSerial (node : JsonNode) (object : JsonObject) : Except GError Int32 :=
  match object.getMember "serial" with
  | some (.int serial64) =>
      if isValidSerial serial64 then .ok serial64.toInt32
      else .error (malformed ("The ‘serial’ member in in the autoinstall spec must fit within a " ++
        "32 bit integer (at " ++ env.jsonGeneratorToData node ++ ")"))
  | _ => .error (malformed
      ("Expected ‘serial’ member of type int in, " ++ env.jsonGeneratorToData node))

/-- `flatpak_remote_ref_action_from_json_node`, on the object that the node holds. -/
def flatpakRemoteRefActionFromJsonNode (source : String) (object : JsonObject) :
    Except ReadFailure FlatpakRemoteRefAction := do
  let node := JsonNode.object object
  let actionTypeStr ← liftError (maybeGetJsonObjectStringMember object "action")
  let actionType ← liftError (flatpakRemoteRefActionTypeParse env actionTypeStr)
  let serial ← liftError (parseSerial env node object)
  match flatpakRemoteRefFromActionEntry env actionType object with
  | .ok flatpakLocationRef =>
      .ok { type := actionType, ref := flatpakLocationRef, source, serial, isDependency := false }
  | .error (.error e) =>
      .error (.error { e with message := "Error parsing action detail (at " ++ actionTypeStr ++
        ") ‘" ++ env.jsonGeneratorToData node ++ "’: " ++ e.message })
  -- where no error is set, none is propagated
  | .error failure => .error failure

/-! ### Filters -/

/-- `lookup_array_nodes`. -/
def lookupArrayNodes (object : JsonObject) (key : String) : Except GError (List JsonNode) :=
  match object.getMember key with
  | some (.array elements) => .ok elements
  | some filterValue => .error (malformed ("Expected ‘" ++ key ++
      "’ filter to be an array, was: " ++ env.jsonGeneratorToData filterValue))
  -- the callers pass keys of the object
  | none => .ok []

/-- `strv_element_in_json_string_node_list`. -/
def strvElementInJsonStringNodeList (strv : List String) : List JsonNode → Except GError Bool
  | [] => .ok false
  | .string string :: nodes =>
      if strv.any fun s => decide (string = s) then .ok true
      else strvElementInJsonStringNodeList strv nodes
  | node :: _ =>
      .error (malformed ("Unexpected non-string value: " ++ env.jsonGeneratorToData node))

/-- `strv_element_in_json_member`. -/
def strvElementInJsonMember (strv : List String) (object : JsonObject) (key : String) :
    Except GError Bool := do
  let arrayNodes ← lookupArrayNodes env object key
  strvElementInJsonStringNodeList env strv arrayNodes

/-- `action_filter_applies`. -/
def actionFilterApplies (object : JsonObject) (filterKeyName : String) : Except GError Bool := do
  env.getFlatpakInstallation
  if filterKeyName = "architecture" && env.knowsFilter "architecture" then
    return !(← strvElementInJsonMember env [env.architecture] object filterKeyName)
  else if filterKeyName = "~architecture" && env.knowsFilter "~architecture" then
    strvElementInJsonMember env [env.architecture] object filterKeyName
  else if filterKeyName = "locale" && env.knowsFilter "locale" then
    return !(← strvElementInJsonMember env env.locales object filterKeyName)
  else if filterKeyName = "~locale" && env.knowsFilter "~locale" then
    strvElementInJsonMember env env.locales object filterKeyName
  else
    .error (unknownEntry ("Unknown action filter value ‘" ++ filterKeyName ++
      "’; expected one of ‘~architecture’, ‘architecture’, ‘~locale’ and ‘locale’"))

/-- The loop of `action_node_should_be_filtered_out` over the keys of the filters. -/
def anyFilterApplies (filtersObject : JsonObject) : List String → Except GError Bool
  | [] => .ok false
  | key :: keys =>
      match actionFilterApplies env filtersObject key with
      | .error e => .error e
      | .ok true => .ok true
      | .ok false => anyFilterApplies filtersObject keys

/-- `action_node_should_be_filtered_out`, on the object that the node holds. -/
def actionNodeShouldBeFilteredOut (object : JsonObject) : Except GError Bool :=
  let nodeStr := env.jsonGeneratorToData (.object object)
  match object.getMember "filters" with
  | none => .ok false
  | some (.object filtersObject) =>
      let hasMember (key : String) : Bool := (JsonObject.getMember filtersObject key).isSome
      if hasMember "locale" && hasMember "~locale" ||
          hasMember "architecture" && hasMember "~architecture" then
        .error (malformed
          ("Invalid ‘filters’ object contained a filter and its inverse: " ++ nodeStr))
      else anyFilterApplies env filtersObject (filtersObject.map Prod.fst)
  | some _ =>
      .error (malformed ("Expected ‘filters’ node to be an object, but was " ++ nodeStr))

/-! ### Files -/

/-- What an entry of a file amounts to. -/
inductive ReadEntry
  | filtered
  | skipped (nodeStr : String)
  | action (action : FlatpakRemoteRefAction)
deriving DecidableEq, Repr

/-- How an error on an entry is passed on: what is malformed fails the file, and what is unknown
skips the entry. -/
def entryError (file : GFile) (node : JsonNode) : ReadFailure → Except ReadFailure ReadEntry
  | .error localError =>
      if localError.code = .updaterMalformedAutoinstallSpec then
        .error (.error { localError with
          message := "Error parsing ‘" ++ file.path ++ "’: " ++ localError.message })
      else if localError.code = .updaterUnknownEntryInAutoinstallSpec then
        .ok (.skipped (env.jsonGeneratorToData node))
      else .error (.error localError)
  | failure => .error failure

/-- One iteration of the loop of `read_flatpak_ref_actions_from_node`. -/
def readEntry (file : GFile) (elementNode : JsonNode) : Except ReadFailure ReadEntry :=
  match elementNode with
  | .object object =>
      match actionNodeShouldBeFilteredOut env object with
      | .error e => entryError env file elementNode (.error e)
      | .ok true => .ok .filtered
      | .ok false =>
          match flatpakRemoteRefActionFromJsonNode env file.name object with
          | .error failure => entryError env file elementNode failure
          | .ok action => .ok (.action action)
  | _ =>
      .error (.error (malformed ("Expected node to be an object when parsing " ++
        env.jsonGeneratorToData elementNode ++ " at " ++ file.path)))

/-- The actions read from a file, and the entries that were skipped. -/
structure ReadActions where
  actions : List FlatpakRemoteRefAction
  skippedActionEntries : List String
deriving DecidableEq, Repr

/-- The loop of `read_flatpak_ref_actions_from_node`. -/
def readEntries (file : GFile) : List JsonNode → Except ReadFailure ReadActions
  | [] => .ok ⟨[], []⟩
  | node :: nodes =>
      match readEntry env file node with
      | .error failure => .error failure
      | .ok entry =>
          match readEntries file nodes with
          | .error failure => .error failure
          | .ok rest =>
              match entry with
              | .filtered => .ok rest
              | .skipped nodeStr =>
                  .ok { rest with skippedActionEntries := nodeStr :: rest.skippedActionEntries }
              | .action action => .ok { rest with actions := action :: rest.actions }

/-- The first two neighbours with the same serial. -/
def sharedSerial : List FlatpakRemoteRefAction → Option Int32
  | prevAction :: action :: rest =>
      if prevAction.serial = action.serial then some prevAction.serial
      else sharedSerial (action :: rest)
  | _ => none

/-- `read_flatpak_ref_actions_from_node`. -/
def readFlatpakRefActionsFromNode (file : GFile) (node : JsonNode) :
    Except ReadFailure ReadActions :=
  match node with
  | .array elements =>
      match readEntries env file elements with
      | .error failure => .error failure
      | .ok read =>
          let actions := ptrArraySort read.actions
          match sharedSerial actions with
          | some serial => .error (.error (malformed ("Two entries share serial number " ++
              toString serial ++ " in ‘" ++ file.path ++ "’")))
          | none => .ok { read with actions := actions }
  | _ =>
      .error (.error (malformed ("Expected node to be an array when parsing " ++
        env.jsonGeneratorToData node ++ " at " ++ file.path)))

/-- `euu_flatpak_ref_actions_from_file`, given the root of the parsed file (none if it is empty) or
the error in reading it. -/
def flatpakRefActionsFromFile (file : GFile) (root : Except GError (Option JsonNode)) :
    Except ReadFailure ReadActions :=
  match root with
  | .error e => .error (.error e)
  | .ok root => readFlatpakRefActionsFromNode env file (root.getD (.array []))

/-! ### Directories -/

/-- `EuuFlatpakRemoteRefActionsFile`. -/
structure FlatpakRemoteRefActionsFile where
  remoteRefActions : List FlatpakRemoteRefAction
  priority : ℤ

/-- What enumerating a directory gives in turn: a filename with the root of that file, or an
error. -/
abbrev FileEnumerator := List (Except GError (String × Except GError (Option JsonNode)))

/-- The warning of `euu_flatpak_ref_actions_append_from_directory` about the entries of a file that
are skipped. To list them it calls `g_strjoinv` on the `pdata` of a `GPtrArray`, which is not
terminated by `NULL`, so that this reads on behind them. -/
def warnSkipped (skippedActionRefs : List String) : Except ReadFailure Unit :=
  if skippedActionRefs = [] then .ok () else .error .undefined

/-- What an iteration of the loop of `euu_flatpak_ref_actions_append_from_directory` reads from a
file. -/
def readActionsFile (file : GFile) (root : Except GError (Option JsonNode)) :
    Except ReadFailure ReadActions := do
  let actionRefs ← flatpakRefActionsFromFile env file root
  warnSkipped actionRefs.skippedActionEntries
  return actionRefs

/-- The loop of `euu_flatpak_ref_actions_append_from_directory`. -/
def appendFiles (directory : String) (priority : ℤ) :
    FileEnumerator → GHashTable String FlatpakRemoteRefActionsFile →
      Except ReadFailure (GHashTable String FlatpakRemoteRefActionsFile)
  | [], refActionsForFiles => .ok refActionsForFiles
  | .error e :: _, _ => .error (.error e)
  | .ok (filename, root) :: files, refActionsForFiles =>
      if !".json".toList.isSuffixOf filename.toList then
        appendFiles directory priority files refActionsForFiles
      else if (refActionsForFiles.lookup filename).any fun existing =>
          decide (existing.priority < priority) then
        appendFiles directory priority files refActionsForFiles
      else
        match readActionsFile env ⟨directory, filename⟩ root with
        | .error failure => .error failure
        | .ok actionRefs =>
            appendFiles directory priority files
              (refActionsForFiles.replace filename ⟨actionRefs.actions, priority⟩)

/-- `euu_flatpak_ref_actions_append_from_directory`. -/
def flatpakRefActionsAppendFromDirectory (directory : String)
    (enumerator : Except GError FileEnumerator) (priority : ℤ) (allowNoent : Bool)
    (refActionsForFiles : GHashTable String FlatpakRemoteRefActionsFile) :
    Except ReadFailure (GHashTable String FlatpakRemoteRefActionsFile) :=
  match enumerator with
  | .error e =>
      if allowNoent && e.code = .ioNotFound then .ok refActionsForFiles else .error (.error e)
  | .ok files => appendFiles env directory priority files refActionsForFiles

/-- The loop of `euu_flatpak_ref_actions_from_paths`. -/
def appendDirectories : List (String × Except GError FileEnumerator) → ℤ →
    GHashTable String FlatpakRemoteRefActionsFile →
      Except ReadFailure (GHashTable String FlatpakRemoteRefActionsFile)
  | [], _, refActions => .ok refActions
  | (directory, enumerator) :: directories, priorityCounter, refActions =>
      match flatpakRefActionsAppendFromDirectory env directory enumerator priorityCounter true
          refActions with
      | .error failure => .error failure
      | .ok refActions => appendDirectories directories (priorityCounter + 1) refActions

/-- `euu_hoist_flatpak_remote_ref_actions`. -/
def hoistFlatpakRemoteRefActions
    (refActionsFileTable : GHashTable String FlatpakRemoteRefActionsFile) : RefActionsTable :=
  refActionsFileTable.mapValues fun _ file => file.remoteRefActions

/-- `euu_flatpak_ref_actions_from_paths`. -/
def flatpakRefActionsFromPaths
    (directoriesToSearch : List (String × Except GError FileEnumerator)) :
    Except ReadFailure RefActionsTable :=
  match appendDirectories env directoriesToSearch 0 GHashTable.empty with
  | .error failure => .error failure
  | .ok refActions => .ok (hoistFlatpakRemoteRefActions refActions)

/-! ### What is read -/

variable {env} {file : GFile} {nodes : List JsonNode} {a : FlatpakRemoteRefAction}

/-- A sequence succeeds through both of its parts. -/
theorem bind_eq_ok {ε α β : Type} {x : Except ε α} {f : α → Except ε β} {b : β}
    (h : (x >>= f) = .ok b) : ∃ a, x = .ok a ∧ f a = .ok b := by
  cases x with
  | error e => cases h
  | ok a => exact ⟨a, rfl, h⟩

/-- An install that is read has a remote. -/
private theorem remote_of_install {object : JsonObject} {ref : FlatpakLocationRef}
    (h : flatpakRemoteRefFromActionEntry env .install object = .ok ref) :
    ref.remote.isSome = true := by
  obtain ⟨_, -, h⟩ := bind_eq_ok h
  obtain ⟨_, -, h⟩ := bind_eq_ok h
  obtain ⟨remote, -, h⟩ := bind_eq_ok h
  rw [flatpakLocationRefNew] at h
  split at h
  · cases h
    rfl
  · cases h

/-- An action bears the name of its file, is no dependency, and names a remote if it installs. -/
private theorem spec_of_actionFromJsonNode {source : String} {object : JsonObject}
    (h : flatpakRemoteRefActionFromJsonNode env source object = .ok a) :
    a.source = source ∧ a.isDependency = false ∧
      (a.type = .install → a.ref.remote.isSome = true) := by
  obtain ⟨_, -, h⟩ := bind_eq_ok h
  obtain ⟨actionType, -, h⟩ := bind_eq_ok h
  obtain ⟨serial, -, h⟩ := bind_eq_ok h
  split at h
  · next ref href =>
      cases h
      refine ⟨rfl, rfl, ?_⟩
      rintro rfl
      exact remote_of_install href
  · cases h
  · cases h

/-- An entry that is read as an action is an object. -/
theorem action_of_readEntry {node : JsonNode} (h : readEntry env file node = .ok (.action a)) :
    ∃ object, node = .object object ∧
      flatpakRemoteRefActionFromJsonNode env file.name object = .ok a := by
  have hentry : ∀ node failure, entryError env file node failure ≠ .ok (.action a) := by
    intro node failure heq
    rw [entryError.eq_def] at heq
    split at heq
    · split at heq
      · cases heq
      · split at heq <;> cases heq
    · cases heq
  rw [readEntry.eq_def] at h
  split at h
  · next object =>
      split at h
      · exact absurd h (hentry _ _)
      · cases h
      · split at h
        · exact absurd h (hentry _ _)
        · next action haction =>
            cases h
            exact ⟨object, rfl, haction⟩
  · cases h

/-- An action that is read carries the name of its file, is no dependency and has a remote if it is
an install. -/
theorem spec_of_readEntry {node : JsonNode} (h : readEntry env file node = .ok (.action a)) :
    a.source = file.name ∧ a.isDependency = false ∧
      (a.type = .install → a.ref.remote.isSome = true) := by
  obtain ⟨object, -, haction⟩ := action_of_readEntry h
  exact spec_of_actionFromJsonNode haction

/-- The action of an element, unless that is filtered out or skipped, or cannot be read. -/
def keptAction (env : ParserEnvironment) (file : GFile) (node : JsonNode) :
    Option FlatpakRemoteRefAction :=
  match readEntry env file node with
  | .ok (.action a) => some a
  | _ => none

/-- The actions of a document, in the order of its elements. -/
def keptActions (env : ParserEnvironment) (file : GFile) (nodes : List JsonNode) :
    List FlatpakRemoteRefAction :=
  nodes.filterMap (keptAction env file)

/-- An action is kept exactly if its entry is read as one. -/
theorem keptAction_eq_some_iff {node : JsonNode} :
    keptAction env file node = some a ↔ readEntry env file node = .ok (.action a) := by
  rw [keptAction]
  split <;> simp_all

theorem mem_keptActions :
    a ∈ keptActions env file nodes ↔ ∃ node ∈ nodes, keptAction env file node = some a :=
  List.mem_filterMap

/-- Reading the elements one after the other collects the actions that are kept. -/
theorem readEntries_ok {read : ReadActions} (h : readEntries env file nodes = .ok read) :
    read.actions = keptActions env file nodes ∧
      ∀ node ∈ nodes, ∃ entry, readEntry env file node = .ok entry := by
  induction nodes generalizing read with
  | nil =>
      cases h
      exact ⟨rfl, by simp⟩
  | cons node nodes ih =>
      rw [readEntries] at h
      split at h
      · cases h
      next entry hentry =>
        split at h
        · cases h
        next rest hrest =>
          obtain ⟨hactions, hreadable⟩ := ih hrest
          have hall : ∀ n ∈ node :: nodes, ∃ entry, readEntry env file n = .ok entry := by
            intro n hn
            rcases List.mem_cons.1 hn with rfl | hn
            · exact ⟨entry, hentry⟩
            · exact hreadable n hn
          refine ⟨?_, hall⟩
          -- an entry without an action is not kept either
          cases entry with
          | filtered =>
              cases h
              simp [keptActions, keptAction, hentry, hactions]
          | skipped nodeStr =>
              cases h
              simp [keptActions, keptAction, hentry, hactions]
          | action b =>
              cases h
              simp [keptActions, keptAction, hentry, hactions]

/-- Ascending serials of which no two neighbours are equal ascend strictly. -/
theorem pairwise_lt_of_sharedSerial {l : List FlatpakRemoteRefAction}
    (hle : l.Pairwise fun a b => a.serial.toInt ≤ b.serial.toInt) (hnone : sharedSerial l = none) :
    l.Pairwise fun a b => a.serial.toInt < b.serial.toInt := by
  induction l with
  | nil => exact .nil
  | cons a l ih =>
      rw [List.pairwise_cons] at hle
      cases l with
      | nil => exact List.pairwise_singleton _ a
      | cons b rest =>
          rw [sharedSerial] at hnone
          split at hnone
          · cases hnone
          · next hne =>
              have hrest := ih hle.2 hnone
              have hab : a.serial.toInt < b.serial.toInt :=
                lt_of_le_of_ne (hle.1 b List.mem_cons_self) fun heq => hne (Int32.toInt_inj.1 heq)
              refine List.pairwise_cons.2 ⟨fun c hc => ?_, hrest⟩
              rcases List.mem_cons.1 hc with rfl | hc
              · exact hab
              · exact hab.trans ((List.pairwise_cons.1 hrest).1 c hc)

/-- A file that is read is an array of entries that are read, sorted by serials that differ. -/
theorem readFlatpakRefActions_ok {node : JsonNode} {read : ReadActions}
    (h : readFlatpakRefActionsFromNode env file node = .ok read) :
    ∃ elements entries, node = .array elements ∧ readEntries env file elements = .ok entries ∧
      read.actions = ptrArraySort entries.actions ∧ sharedSerial read.actions = none := by
  rw [readFlatpakRefActionsFromNode.eq_def] at h
  split at h
  · next elements =>
      split at h
      · cases h
      · next entries hentries =>
          dsimp only at h
          split at h
          · cases h
          · next hnone =>
              cases h
              exact ⟨elements, entries, rfl, hentries, rfl, hnone⟩
  · cases h

/-- **What a file amounts to**: the actions of its entries. -/
theorem mem_readFlatpakRefActions {read : ReadActions}
    (h : readFlatpakRefActionsFromNode env file (.array nodes) = .ok read) :
    a ∈ read.actions ↔ ∃ node ∈ nodes, readEntry env file node = .ok (.action a) := by
  obtain ⟨elements, entries, hnode, hentries, hactions, -⟩ := readFlatpakRefActions_ok h
  cases hnode
  rw [hactions, mem_ptrArraySort, (readEntries_ok hentries).1, mem_keptActions]
  exact exists_congr fun node => and_congr_right fun _ => keptAction_eq_some_iff

/-- As far as its serials fit, they ascend strictly. -/
theorem pairwise_readFlatpakRefActions {node : JsonNode} {read : ReadActions}
    (h : readFlatpakRefActionsFromNode env file node = .ok read) (hfit : SerialsFit read.actions) :
    read.actions.Pairwise fun a b => a.serial.toInt < b.serial.toInt := by
  obtain ⟨elements, entries, -, -, hactions, hnone⟩ := readFlatpakRefActions_ok h
  refine pairwise_lt_of_sharedSerial ?_ hnone
  rw [hactions]
  refine pairwise_ptrArraySort (hfit.mono fun a ha => ?_)
  rwa [hactions, mem_ptrArraySort]

/-- What is said of an action when it is read holds of all actions of a file. -/
theorem spec_of_mem_read {node : JsonNode} {read : ReadActions}
    (h : readFlatpakRefActionsFromNode env file node = .ok read) (ha : a ∈ read.actions) :
    a.source = file.name ∧ a.isDependency = false ∧
      (a.type = .install → a.ref.remote.isSome = true) := by
  obtain ⟨elements, -, rfl, -⟩ := readFlatpakRefActions_ok h
  obtain ⟨node, -, hentry⟩ := (mem_readFlatpakRefActions h).1 ha
  exact spec_of_readEntry hentry

/-! ### How reading fails -/

/-- A sequence is defined if both of its parts are. -/
theorem bind_ne_undefined {α β : Type} {x : Except ReadFailure α} {f : α → Except ReadFailure β}
    (hx : x ≠ .error .undefined) (hf : ∀ a, x = .ok a → f a ≠ .error .undefined) :
    (x >>= f) ≠ .error .undefined := by
  cases x with
  | error failure => exact fun h => hx (congrArg Except.error (Except.error.inj h))
  | ok a => exact hf a rfl

/-- A call that sets its error on failure is defined. -/
theorem liftError_ne_undefined {α : Type} (x : Except GError α) :
    liftError x ≠ .error .undefined := by
  cases x <;> simp [liftError]

/-- Making a location ref is defined, though it may fail without an error. -/
theorem flatpakLocationRefNew_ne_undefined (ref : FlatpakRef)
    (remote collectionId : Option String) :
    flatpakLocationRefNew env ref remote collectionId ≠ .error .undefined := by
  rw [flatpakLocationRefNew]
  split <;> simp

/-- Reading the ref of an entry is defined. -/
theorem flatpakRemoteRefFromActionEntry_ne_undefined (actionType : FlatpakRemoteRefActionType)
    (entry : JsonObject) :
    flatpakRemoteRefFromActionEntry env actionType entry ≠ .error .undefined := by
  have hplain : flatpakRemoteRefFromPlainActionEntry env entry ≠ .error .undefined :=
    bind_ne_undefined (liftError_ne_undefined _) fun _ _ =>
      flatpakLocationRefNew_ne_undefined _ _ _
  cases actionType with
  | install =>
      exact bind_ne_undefined (liftError_ne_undefined _) fun _ _ =>
        bind_ne_undefined (liftError_ne_undefined _) fun _ _ =>
          bind_ne_undefined (liftError_ne_undefined _) fun _ _ =>
            flatpakLocationRefNew_ne_undefined _ _ _
  | uninstall => exact hplain
  | update => exact hplain

/-- Reading an action is defined. -/
theorem flatpakRemoteRefActionFromJsonNode_ne_undefined (source : String) (object : JsonObject) :
    flatpakRemoteRefActionFromJsonNode env source object ≠ .error .undefined := by
  refine bind_ne_undefined (liftError_ne_undefined _) fun actionTypeStr _ =>
    bind_ne_undefined (liftError_ne_undefined _) fun actionType _ =>
      bind_ne_undefined (liftError_ne_undefined _) fun serial _ => ?_
  have hentry : flatpakRemoteRefFromActionEntry env actionType object ≠ .error .undefined :=
    flatpakRemoteRefFromActionEntry_ne_undefined actionType object
  cases hfrom : flatpakRemoteRefFromActionEntry env actionType object with
  | ok ref => simp
  | error failure =>
      rw [hfrom] at hentry
      cases failure with
      | error e => simp
      | unset => simp
      | undefined => exact absurd rfl hentry

/-- Reading an entry is defined. -/
theorem readEntry_ne_undefined (file : GFile) (node : JsonNode) :
    readEntry env file node ≠ .error .undefined := by
  have hentry : ∀ failure, failure ≠ .undefined →
      entryError env file node failure ≠ .error .undefined := by
    intro failure hfailure
    rw [entryError.eq_def]
    split
    · split
      · simp
      · split <;> simp
    · exact fun h => hfailure (Except.error.inj h)
  rw [readEntry.eq_def]
  split
  · next object =>
      split
      · exact hentry _ (by simp)
      · simp
      · have haction : flatpakRemoteRefActionFromJsonNode env file.name object ≠
            .error .undefined :=
          flatpakRemoteRefActionFromJsonNode_ne_undefined file.name object
        split
        · next failure heq =>
            rw [heq] at haction
            exact hentry failure fun h => haction (congrArg Except.error h)
        · simp
  · simp

/-- Parsing a file reads nothing that was not written. -/
theorem flatpakRefActionsFromFile_ne_undefined (file : GFile)
    (root : Except GError (Option JsonNode)) :
    flatpakRefActionsFromFile env file root ≠ .error .undefined := by
  -- an entry that fails is the only way out of the loop
  have hentries : ∀ nodes, readEntries env file nodes ≠ .error .undefined := by
    intro nodes
    induction nodes with
    | nil => simp [readEntries]
    | cons node nodes ih =>
        rw [readEntries]
        have hnode : readEntry env file node ≠ .error .undefined := readEntry_ne_undefined file node
        cases hentry : readEntry env file node with
        | error failure =>
            rw [hentry] at hnode
            exact fun h => hnode (congrArg Except.error (Except.error.inj h))
        | ok entry =>
            cases hrest : readEntries env file nodes with
            | error failure =>
                rw [hrest] at ih
                exact fun h => ih (congrArg Except.error (Except.error.inj h))
            | ok rest => cases entry <;> simp
  cases root with
  | error e => simp [flatpakRefActionsFromFile]
  | ok root =>
      rw [flatpakRefActionsFromFile, readFlatpakRefActionsFromNode.eq_def]
      split
      · next elements _ =>
          have hnodes := hentries elements
          split
          · next failure heq =>
              rw [heq] at hnodes
              exact fun h => hnodes (congrArg Except.error (Except.error.inj h))
          · dsimp only
            split <;> simp
      · simp

variable {root : Except GError (Option JsonNode)} {read : ReadActions} {failure : ReadFailure}

/-- A file goes into a table if it can be parsed and none of its entries is skipped. -/
theorem readActionsFile_eq_ok : readActionsFile env file root = .ok read ↔
    flatpakRefActionsFromFile env file root = .ok read ∧ read.skippedActionEntries = [] := by
  rw [readActionsFile]
  cases flatpakRefActionsFromFile env file root with
  | error failure => exact ⟨fun h => (nomatch h), fun h => (nomatch h.1)⟩
  | ok actionRefs =>
      by_cases hskipped : actionRefs.skippedActionEntries = []
      · simp only [bind, Except.bind, warnSkipped, hskipped, if_true, pure, Except.pure,
          Except.ok.injEq]
        exact ⟨fun h => ⟨h, h ▸ hskipped⟩, fun h => h.1⟩
      · simp only [bind, Except.bind, warnSkipped, hskipped, if_false, Except.ok.injEq]
        exact ⟨fun h => (nomatch h), fun h => absurd (h.1 ▸ h.2) hskipped⟩

/-- It fails like parsing it, and it is undefined what happens where entries are skipped. -/
theorem readActionsFile_eq_error : readActionsFile env file root = .error failure ↔
    flatpakRefActionsFromFile env file root = .error failure ∨
      failure = .undefined ∧ ∃ read, flatpakRefActionsFromFile env file root = .ok read ∧
        read.skippedActionEntries ≠ [] := by
  rw [readActionsFile]
  cases flatpakRefActionsFromFile env file root with
  | error failure' =>
      exact ⟨Or.inl, fun h => h.elim id fun h => by
        obtain ⟨-, _, hok, -⟩ := h
        cases hok⟩
  | ok actionRefs =>
      by_cases hskipped : actionRefs.skippedActionEntries = [] <;>
        simp [bind, Except.bind, warnSkipped, hskipped, pure, Except.pure, eq_comm]

/-! ### Tables read from directories -/

/-- Every list of a table has been read from a file of that name. -/
private def ReadFromFiles (env : ParserEnvironment)
    (t : GHashTable String FlatpakRemoteRefActionsFile) : Prop :=
  ∀ name entry, t.lookup name = some entry → ∃ directory node read,
    readFlatpakRefActionsFromNode env ⟨directory, name⟩ node = .ok read ∧
      read.actions = entry.remoteRefActions

/-- The files of one directory put only actions into the table that were read from them. -/
private theorem readFromFiles_appendFiles {directory : String} {priority : ℤ}
    {files : FileEnumerator} {t t' : GHashTable String FlatpakRemoteRefActionsFile}
    (ht : ReadFromFiles env t) (h : appendFiles env directory priority files t = .ok t') :
    ReadFromFiles env t' := by
  induction files generalizing t with
  | nil =>
      cases h
      exact ht
  | cons entry files ih =>
      rcases entry with e | ⟨filename, root⟩
      · cases h
      rw [appendFiles] at h
      split at h
      · exact ih ht h
      split at h
      · exact ih ht h
      split at h
      · cases h
      -- the file goes into the table under its own name
      · next actionRefs hread =>
          refine ih (fun name file hlookup => ?_) h
          rw [GHashTable.lookup_replace] at hlookup
          split at hlookup
          · next hname =>
              cases hlookup
              subst hname
              rw [readActionsFile_eq_ok, flatpakRefActionsFromFile.eq_def] at hread
              replace hread := hread.1
              split at hread
              · cases hread
              · exact ⟨directory, _, actionRefs, hread, rfl⟩
          · exact ht name file hlookup

/-- All directories put only actions into the table that were read from them. -/
private theorem readFromFiles_appendDirectories
    {directories : List (String × Except GError FileEnumerator)} {priorityCounter : ℤ}
    {t t' : GHashTable String FlatpakRemoteRefActionsFile} (ht : ReadFromFiles env t)
    (h : appendDirectories env directories priorityCounter t = .ok t') : ReadFromFiles env t' := by
  induction directories generalizing t priorityCounter with
  | nil =>
      cases h
      exact ht
  | cons directory directories ih =>
      rw [appendDirectories] at h
      split at h
      · cases h
      · next t₁ happend =>
          refine ih ?_ h
          rw [flatpakRefActionsAppendFromDirectory.eq_def] at happend
          split at happend
          · split at happend
            · cases happend
              exact ht
            · cases happend
          · exact readFromFiles_appendFiles ht happend

/-- **Tables are well formed.** A table read from directories is an autoinstall table, as far as the
serials of each file fit. -/
theorem exists_autoinstallTable
    {directoriesToSearch : List (String × Except GError FileEnumerator)} {t : RefActionsTable}
    (h : flatpakRefActionsFromPaths env directoriesToSearch = .ok t)
    (hfit : ∀ name actions, t.lookup name = some actions → SerialsFit actions) :
    ∃ T : AutoinstallTable, T.files = t := by
  rw [flatpakRefActionsFromPaths] at h
  split at h
  · cases h
  · next files hfiles =>
      cases h
      have hread : ReadFromFiles env files :=
        readFromFiles_appendDirectories (fun _ _ hlookup => by cases hlookup) hfiles
      have hfile : ∀ name actions, (hoistFlatpakRemoteRefActions files).lookup name = some actions →
          ∃ directory node read, readFlatpakRefActionsFromNode env ⟨directory, name⟩ node =
            .ok read ∧ read.actions = actions := by
        intro name actions hlookup
        rw [hoistFlatpakRemoteRefActions, GHashTable.lookup_mapValues] at hlookup
        obtain ⟨entry, hentry, rfl⟩ := Option.map_eq_some_iff.1 hlookup
        exact hread name entry hentry
      -- each list of the table was read from a file, and the parser checks what the fields say
      refine ⟨⟨hoistFlatpakRemoteRefActions files, ?_, ?_, ?_, ?_⟩, rfl⟩
      · intro name actions hlookup
        obtain ⟨directory, node, read, hok, rfl⟩ := hfile name actions hlookup
        exact pairwise_readFlatpakRefActions hok (hfit name _ hlookup)
      all_goals
        intro name actions hlookup a ha
        obtain ⟨directory, node, read, hok, rfl⟩ := hfile name actions hlookup
      · exact (spec_of_mem_read hok ha).1
      · exact (spec_of_mem_read hok ha).2.1
      · exact (spec_of_mem_read hok ha).2.2

end Euu
