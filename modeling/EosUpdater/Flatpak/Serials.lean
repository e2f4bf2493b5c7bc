import EosUpdater.Flatpak.Parse

/-!
# Serials of autoinstall files

What the parser promises about a list: its entries are those of the document, each with what its
element says (`Describes`), in ascending order, and no two with the same serial
(`ReadFaithfully`).

The sort behind this compares serials by a difference that wraps around, and duplicates are only
looked for among neighbours. A comparison that goes wrong puts an entry in front of one with a
smaller serial, which no later comparison puts right. So the promise is kept exactly if, in the
order in which the elements are given, the sort compares no two serials whose difference overflows
(`Overflows`), or the document is refused for another reason (`readFaithfully_iff`).
-/

namespace Euu

variable (env : ParserEnvironment) (file : GFile)

/-- The name of an action type in autoinstall files. -/
def actionTypeName : FlatpakRemoteRefActionType → String
  | .install => "install"
  | .uninstall => "uninstall"
  | .update => "update"

/-- The name of a kind of ref in autoinstall files. -/
def refKindName : FlatpakRefKind → String
  | .app => "app"
  | .runtime => "runtime"

/-- The members of an object that an action is read from. -/
structure Describes (object : JsonObject) (a : FlatpakRemoteRefAction) : Prop where
  type : object.getMember "action" = some (.string (actionTypeName a.type))
  serial : ∃ serial64, object.getMember "serial" = some (.int serial64) ∧
    serial64.toInt = a.serial.toInt
  name : object.getMember "name" = some (.string a.ref.ref.name)
  branch : object.getMember "branch" = some (.string a.ref.ref.branch)
  kind : object.getMember "ref-kind" = some (.string (refKindName a.ref.ref.kind))
  architecture : a.ref.ref.arch = env.architecture
  install : a.type = .install →
    object.getMember "remote" = a.ref.remote.map .string ∧
      object.getMember "collection-id" = a.ref.collectionId.map .string

/-- What reading a document promises. If the document is accepted, every element could be read, and
the list has the action of each element that is kept, by strictly ascending serials. If two of
these share a serial, the document is not accepted; it is reported as malformed unless there is
another error. -/
structure ReadFaithfully (nodes : List JsonNode) : Prop where
  accepted : ∀ read, readFlatpakRefActionsFromNode env file (.array nodes) = .ok read →
    (∀ node ∈ nodes, ∃ entry, readEntry env file node = .ok entry) ∧
      read.actions.Perm (keptActions env file nodes) ∧
      read.actions.Pairwise fun a b => a.serial.toInt < b.serial.toInt
  described : ∀ node ∈ nodes, ∀ a, keptAction env file node = some a →
    ∃ object, node = .object object ∧ Describes env object a
  rejected : ¬ (keptActions env file nodes).Pairwise (fun a b => a.serial ≠ b.serial) →
    (∀ read, readFlatpakRefActionsFromNode env file (.array nodes) ≠ .ok read) ∧
      ((∀ node ∈ nodes, ∃ entry, readEntry env file node = .ok entry) →
        ∃ message, readFlatpakRefActionsFromNode env file (.array nodes) =
          .error (.error (malformed message)))

variable {env file} {nodes : List JsonNode} {a b : FlatpakRemoteRefAction}

/-! ### Elements -/

/-- A string member that is read is in the object. -/
theorem getMember_of_maybeGet {object : JsonObject} {key value : String}
    (h : maybeGetJsonObjectStringMember object key = .ok value) :
    object.getMember key = some (.string value) := by
  rw [maybeGetJsonObjectStringMember] at h
  split at h
  · cases h
  · next hmember =>
      cases h
      exact hmember
  · cases h

/-- A call that sets its error on failure succeeds as before. -/
theorem liftError_eq_ok {α : Type} {x : Except GError α} {a : α} (h : liftError x = .ok a) :
    x = .ok a := by
  cases x with
  | error e => cases h
  | ok b =>
      cases h
      rfl

/-- A kind is read from its own name only. -/
theorem refKindName_of_parse {text : String} {kind : FlatpakRefKind}
    (h : parseRefKind text = .ok kind) : text = refKindName kind := by
  rw [parseRefKind] at h
  split at h
  · next htext =>
      cases h
      exact htext
  split at h
  · next htext =>
      cases h
      exact htext
  · cases h

/-- An action type is read from its own name only. -/
theorem actionTypeName_of_parse {text : String} {type : FlatpakRemoteRefActionType}
    (h : flatpakRemoteRefActionTypeParse env text = .ok type) : text = actionTypeName type := by
  simp only [flatpakRemoteRefActionTypeParse] at h
  -- each name is looked for in turn, and may be one that the program does not know
  split at h
  · next htext =>
      split at h
      · cases h
        exact htext
      · cases h
  split at h
  · next htext =>
      split at h
      · cases h
        exact htext
      · cases h
  split at h
  · next htext =>
      split at h
      · cases h
        exact htext
      · cases h
  · cases h

/-- A serial is accepted only if it fits, so that the cast keeps its value. -/
theorem serial_of_parse {node : JsonNode} {object : JsonObject} {serial : Int32}
    (h : parseSerial env node object = .ok serial) :
    ∃ serial64, object.getMember "serial" = some (.int serial64) ∧
      serial64.toInt = serial.toInt := by
  rw [parseSerial] at h
  split at h
  · next serial64 hmember =>
      split at h
      · next hvalid =>
          cases h
          refine ⟨serial64, hmember, ?_⟩
          rw [isValidSerial, Bool.and_eq_true, decide_eq_true_eq, decide_eq_true_eq,
            Int64.le_iff_toInt_le, Int64.le_iff_toInt_le] at hvalid
          -- the remainder in the range of an `Int32` is the number itself
          have hlow : -2 ^ 31 ≤ serial64.toInt := hvalid.1
          have hhigh : serial64.toInt ≤ 2 ^ 31 - 1 := hvalid.2
          rw [Int64.toInt_toInt32, Int.bmod_eq_emod]
          split <;> omega
      · cases h
  · cases h

/-- What a ref is made of. -/
theorem ref_of_entry {object : JsonObject} {ref : FlatpakRef}
    (h : parseFlatpakRefFromEntry env object = .ok ref) :
    object.getMember "name" = some (.string ref.name) ∧
      object.getMember "branch" = some (.string ref.branch) ∧
      object.getMember "ref-kind" = some (.string (refKindName ref.kind)) ∧
      ref.arch = env.architecture := by
  obtain ⟨name, hname, h⟩ := bind_eq_ok h
  obtain ⟨branch, hbranch, h⟩ := bind_eq_ok h
  obtain ⟨kindText, hkindText, h⟩ := bind_eq_ok h
  obtain ⟨kind, hkind, h⟩ := bind_eq_ok h
  cases h
  refine ⟨getMember_of_maybeGet hname, getMember_of_maybeGet hbranch, ?_, rfl⟩
  show object.getMember "ref-kind" = some (.string (refKindName kind))
  rw [← refKindName_of_parse hkind]
  exact getMember_of_maybeGet hkindText

/-- `euu_flatpak_location_ref_new` keeps what it is given. -/
theorem flatpakLocationRefNew_ok {ref : FlatpakRef} {remote collectionId : Option String}
    {location : FlatpakLocationRef}
    (h : flatpakLocationRefNew env ref remote collectionId = .ok location) :
    location = ⟨ref, remote, collectionId⟩ := by
  rw [flatpakLocationRefNew] at h
  split at h
  · cases h
    rfl
  · cases h

/-- The members that the location of an entry comes from, by the type of the entry. -/
theorem location_of_entry {type : FlatpakRemoteRefActionType} {object : JsonObject}
    {location : FlatpakLocationRef}
    (h : flatpakRemoteRefFromActionEntry env type object = .ok location) :
    parseFlatpakRefFromEntry env object = .ok location.ref ∧
      (type = .install →
        object.getMember "remote" = location.remote.map .string ∧
          object.getMember "collection-id" = location.collectionId.map .string) := by
  -- an uninstall or update has no members for a location
  have hplain : ∀ location, flatpakRemoteRefFromPlainActionEntry env object = .ok location →
      parseFlatpakRefFromEntry env object = .ok location.ref := by
    intro location hplain
    obtain ⟨ref, href, hnew⟩ := bind_eq_ok hplain
    cases flatpakLocationRefNew_ok hnew
    exact liftError_eq_ok href
  cases type with
  | install =>
      obtain ⟨ref, href, h⟩ := bind_eq_ok h
      obtain ⟨collectionId, hcollectionId, h⟩ := bind_eq_ok h
      obtain ⟨remote, hremote, h⟩ := bind_eq_ok h
      cases flatpakLocationRefNew_ok h
      exact ⟨liftError_eq_ok href, fun _ =>
        ⟨getMember_of_maybeGet (liftError_eq_ok hremote),
          getMember_of_maybeGet (liftError_eq_ok hcollectionId)⟩⟩
  | uninstall => exact ⟨hplain location h, fun htype => by cases htype⟩
  | update => exact ⟨hplain location h, fun htype => by cases htype⟩

/-- An action says what the members of its object do. -/
theorem describes_of_action {source : String} {object : JsonObject}
    (h : flatpakRemoteRefActionFromJsonNode env source object = .ok a) :
    Describes env object a := by
  obtain ⟨typeText, htypeText, h⟩ := bind_eq_ok h
  obtain ⟨type, htype, h⟩ := bind_eq_ok h
  obtain ⟨serial, hserial, h⟩ := bind_eq_ok h
  split at h
  · next location hlocation =>
      cases h
      obtain ⟨href, hinstall⟩ := location_of_entry hlocation
      obtain ⟨hname, hbranch, hkind, harch⟩ := ref_of_entry href
      refine ⟨?_, serial_of_parse (liftError_eq_ok hserial), hname, hbranch, hkind, harch, hinstall⟩
      show object.getMember "action" = some (.string (actionTypeName type))
      rw [← actionTypeName_of_parse (liftError_eq_ok htype)]
      exact getMember_of_maybeGet (liftError_eq_ok htypeText)
  · cases h
  · cases h

/-- An action that is read is described by its entry. -/
theorem describes_of_readEntry {node : JsonNode}
    (h : readEntry env file node = .ok (.action a)) :
    ∃ object, node = .object object ∧ Describes env object a := by
  obtain ⟨object, rfl, haction⟩ := action_of_readEntry h
  exact ⟨object, rfl, describes_of_action haction⟩

/-! ### Documents -/

/-- Elements that can all be read are read. -/
theorem readEntries_of_readable
    (h : ∀ node ∈ nodes, ∃ entry, readEntry env file node = .ok entry) :
    ∃ read, readEntries env file nodes = .ok read := by
  induction nodes with
  | nil => exact ⟨_, rfl⟩
  | cons node nodes ih =>
      obtain ⟨entry, hentry⟩ := h node List.mem_cons_self
      obtain ⟨rest, hrest⟩ := ih fun n hn => h n (List.mem_cons_of_mem _ hn)
      rw [readEntries, hentry]
      simp only [hrest]
      cases entry with
      | filtered => exact ⟨_, rfl⟩
      | skipped nodeStr => exact ⟨_, rfl⟩
      | action b => exact ⟨_, rfl⟩

/-- Actions of pairwise different serials stay so in any order. -/
theorem pairwise_serial_ne_of_perm {l l' : List FlatpakRemoteRefAction} (hperm : l.Perm l')
    (hlt : l.Pairwise fun a b => a.serial.toInt < b.serial.toInt) :
    l'.Pairwise fun a b => a.serial ≠ b.serial := by
  have hne : l.Pairwise fun a b => a.serial ≠ b.serial :=
    hlt.imp fun h heq => h.ne (congrArg Int32.toInt heq)
  exact hperm.pairwise hne fun h => h.symm

/-- An element that is kept is no dependency. -/
theorem not_dependency_of_kept (ha : a ∈ keptActions env file nodes) : a.isDependency = false := by
  obtain ⟨node, -, hkept⟩ := mem_keptActions.1 ha
  exact (spec_of_readEntry (keptAction_eq_some_iff.1 hkept)).2.1

/-- Elements that can all be read are accepted in the order of the sort, unless this leaves two of
one serial side by side. -/
theorem read_of_readable (h : ∀ node ∈ nodes, ∃ entry, readEntry env file node = .ok entry) :
    ∃ skipped, readFlatpakRefActionsFromNode env file (.array nodes) =
      match sharedSerial (ptrArraySort (keptActions env file nodes)) with
      | some serial => .error (.error (malformed ("Two entries share serial number " ++
          toString serial ++ " in ‘" ++ file.path ++ "’")))
      | none => .ok ⟨ptrArraySort (keptActions env file nodes), skipped⟩ := by
  obtain ⟨entries, hentries⟩ := readEntries_of_readable h
  refine ⟨entries.skippedActionEntries, ?_⟩
  rewrite [readFlatpakRefActionsFromNode, ← (readEntries_ok hentries).1, hentries]
  rfl

/-- What was read are the elements that are kept, in the order of the sort. -/
theorem actions_of_read {read : ReadActions}
    (h : readFlatpakRefActionsFromNode env file (.array nodes) = .ok read) :
    (∀ node ∈ nodes, ∃ entry, readEntry env file node = .ok entry) ∧
      read.actions = ptrArraySort (keptActions env file nodes) ∧
      sharedSerial (ptrArraySort (keptActions env file nodes)) = none := by
  obtain ⟨elements, entries, hnode, hentries, hactions, hnone⟩ := readFlatpakRefActions_ok h
  cases hnode
  obtain ⟨hkept, hreadable⟩ := readEntries_ok hentries
  rw [hkept] at hactions
  exact ⟨hreadable, hactions, hactions ▸ hnone⟩

/-- A document whose entries the sort puts into ascending order is read faithfully. -/
theorem readFaithfully_of_pairwise (h : (ptrArraySort (keptActions env file nodes)).Pairwise
      fun a b => a.serial.toInt ≤ b.serial.toInt) : ReadFaithfully env file nodes := by
  have haccepted : ∀ read, readFlatpakRefActionsFromNode env file (.array nodes) = .ok read →
      (∀ node ∈ nodes, ∃ entry, readEntry env file node = .ok entry) ∧
        read.actions.Perm (keptActions env file nodes) ∧
        read.actions.Pairwise fun a b => a.serial.toInt < b.serial.toInt := by
    intro read hread
    obtain ⟨hreadable, hactions, hnone⟩ := actions_of_read hread
    rw [hactions]
    exact ⟨hreadable, GLib.msort_perm _, pairwise_lt_of_sharedSerial h hnone⟩
  refine ⟨haccepted, ?_, ?_⟩
  · intro node _ a hkept
    exact describes_of_readEntry (keptAction_eq_some_iff.1 hkept)
  · intro hshared
    have hnotok : ∀ read, readFlatpakRefActionsFromNode env file (.array nodes) ≠ .ok read := by
      intro read hread
      obtain ⟨-, hperm, hlt⟩ := haccepted read hread
      exact hshared (pairwise_serial_ne_of_perm hperm hlt)
    refine ⟨hnotok, fun hreadable => ?_⟩
    -- nothing but the check for duplicates can fail now
    obtain ⟨skipped, hread⟩ := read_of_readable hreadable
    cases hserial : sharedSerial (ptrArraySort (keptActions env file nodes)) with
    | none =>
        simp only [hserial] at hread
        exact absurd hread (hnotok _)
    | some serial =>
        simp only [hserial] at hread
        exact ⟨_, hread⟩

/-- A document that is refused is read faithfully, if it is refused as malformed where all of its
elements can be read. -/
theorem readFaithfully_of_refused
    (h : (∀ node ∈ nodes, ∃ entry, readEntry env file node = .ok entry) →
      sharedSerial (ptrArraySort (keptActions env file nodes)) ≠ none) :
    ReadFaithfully env file nodes := by
  have hnotok : ∀ read, readFlatpakRefActionsFromNode env file (.array nodes) ≠ .ok read := by
    intro read hread
    obtain ⟨hreadable, -, hnone⟩ := actions_of_read hread
    exact h hreadable hnone
  refine ⟨fun read hread => absurd hread (hnotok read), ?_, fun _ => ⟨hnotok, fun hreadable => ?_⟩⟩
  · intro node _ a hkept
    exact describes_of_readEntry (keptAction_eq_some_iff.1 hkept)
  · obtain ⟨skipped, hread⟩ := read_of_readable hreadable
    obtain ⟨serial, hserial⟩ := Option.ne_none_iff_exists'.1 (h hreadable)
    simp only [hserial] at hread
    exact ⟨_, hread⟩

/-- Of two entries, the comparison decides right on the serials exactly if their difference does not
overflow. -/
theorem decides_iff_not_overflows (ha : a.isDependency = false) (hb : b.isDependency = false) :
    GLib.Decides sorted (fun a b => a.serial.toInt ≤ b.serial.toInt) a b ↔ ¬ Overflows a b := by
  by_cases h : Overflows a b
  · refine iff_of_false (fun hdecides => ?_) (not_not.2 h)
    have hne : a.serial.toInt ≠ b.serial.toInt := by rw [Overflows] at h; omega
    cases hsorted : sorted a b with
    | true =>
        have hle := hdecides.1 hsorted
        have hlt := (sorted_iff_of_overflows h).1 hsorted
        omega
    | false =>
        have hle := hdecides.2 hsorted
        have hlt := mt (sorted_iff_of_overflows h).2 (by simp [hsorted])
        omega
  · refine iff_of_true ⟨(sorted_iff_of_not_overflows ha hb h).1, fun hsorted => ?_⟩ h
    have hnot := mt (sorted_iff_of_not_overflows ha hb h).2 (by simp [hsorted])
    omega

/-- The entries come out of the sort in order exactly if no difference that is taken overflows. -/
theorem pairwise_ptrArraySort_iff :
    ((ptrArraySort (keptActions env file nodes)).Pairwise
        fun a b => a.serial.toInt ≤ b.serial.toInt) ↔
      ∀ p ∈ GLib.comparisons sorted (keptActions env file nodes), ¬ Overflows p.1 p.2 := by
  have htrans : GLib.TransOn (fun a b : FlatpakRemoteRefAction =>
      a.serial.toInt ≤ b.serial.toInt) (keptActions env file nodes) :=
    fun _ _ _ _ _ _ => le_trans
  rw [ptrArraySort, GLib.pairwise_msort_iff htrans]
  refine forall₂_congr fun p hp => ?_
  obtain ⟨hp₁, hp₂⟩ := GLib.mem_of_mem_comparisons hp
  exact decides_iff_not_overflows (not_dependency_of_kept hp₁) (not_dependency_of_kept hp₂)

/-- The sort leaves two entries of one serial side by side. -/
def LeavesNeighbours (l : List FlatpakRemoteRefAction) : Prop :=
  sharedSerial (ptrArraySort l) ≠ none

/-- **When the promise is kept**: if no two serials that the sort compares have a difference that
overflows, or if the document is refused, for an element that cannot be read or two entries of one
serial that the sort leaves side by side; and only then. -/
theorem readFaithfully_iff (env : ParserEnvironment) (file : GFile) (nodes : List JsonNode) :
    ReadFaithfully env file nodes ↔
      ((∀ node ∈ nodes, ∃ entry, readEntry env file node = .ok entry) →
        ¬ LeavesNeighbours (keptActions env file nodes) →
          ∀ p ∈ GLib.comparisons sorted (keptActions env file nodes), ¬ Overflows p.1 p.2) := by
  constructor
  · intro h hreadable hnone
    rw [LeavesNeighbours, not_not] at hnone
    obtain ⟨skipped, hread⟩ := read_of_readable hreadable
    simp only [hnone] at hread
    exact pairwise_ptrArraySort_iff.1 ((h.accepted _ hread).2.2.imp le_of_lt)
  · intro h
    by_cases hreadable : ∀ node ∈ nodes, ∃ entry, readEntry env file node = .ok entry
    · by_cases hneighbours : LeavesNeighbours (keptActions env file nodes)
      · exact readFaithfully_of_refused fun _ => hneighbours
      · exact readFaithfully_of_pairwise (pairwise_ptrArraySort_iff.2 (h hreadable hneighbours))
    · exact readFaithfully_of_refused fun hall => absurd hall hreadable

/-- The first and last serial are far apart, but are not compared. -/
example : ∀ p ∈ GLib.comparisons sorted ([-2000000000, -1, 0, 2000000000].map
    (sampleAction .update "org.example.X" "10-apps.json")), ¬ Overflows p.1 p.2 := by
  decide +kernel

/-! ### Serials that are too far apart -/

mutual

/-- The compact text of a node, none of whose strings has to be escaped. -/
def JsonNode.text : JsonNode → String
  | .object members => "\x7b" ++ ",".intercalate (memberTexts members) ++ "\x7d"
  | .array elements => "[" ++ ",".intercalate (elementTexts elements) ++ "]"
  | .string value => "\"" ++ value ++ "\""
  | .int value => toString value
  | .double text => text
  | .boolean value => toString value
  | .null => "null"

/-- The text of a member of an object. -/
def memberText : String × JsonNode → String
  | (key, node) => "\"" ++ key ++ "\":" ++ node.text

/-- The texts of the members of an object. -/
def memberTexts : List (String × JsonNode) → List String
  | [] => []
  | member :: members => memberText member :: memberTexts members

/-- The texts of the elements of an array. -/
def elementTexts : List JsonNode → List String
  | [] => []
  | node :: nodes => node.text :: elementTexts nodes

end

/-- A remote name has letters, digits, and the characters `-`, `.` and `_`. -/
def isRemoteName (text : String) : Bool :=
  text ≠ "" && text.toList.all fun c => c.isAlphanum || c = '-' || c = '.' || c = '_'

/-- An element of a collection ID does not start with a digit. -/
def isCollectionIdElement : List Char → Bool
  | [] => false
  | c :: cs => (c.isAlpha || c = '_') && cs.all fun c => c.isAlphanum || c = '_'

/-- A collection ID has at least two elements, with dots between them. -/
def isCollectionId (text : String) : Bool :=
  let elements := text.toList.splitOnP (· = '.')
  1 < elements.length && elements.all isCollectionIdElement && text.length ≤ 255

/-- An environment in which the program knows everything. -/
def plainEnvironment : ParserEnvironment where
  architecture := "x86_64"
  locales := ["en"]
  getFlatpakInstallation := .ok ()
  knowsFilter _ := true
  knowsActionType _ := true
  jsonGeneratorToData := JsonNode.text
  validateRemoteName := isRemoteName
  validateCollectionId := isCollectionId

/-- An entry that updates an app. -/
def updateNode (name : String) (serial : Int64) : JsonNode :=
  .object
    [("action", .string "update"), ("serial", .int serial), ("name", .string name),
      ("branch", .string "stable"), ("ref-kind", .string "app")]

/-- The greatest serial is taken to be in front of `-1`; and between two entries of serial `0`, the
least serial hides that they are two. -/
theorem not_readFaithfully_farApart :
    ¬ ReadFaithfully plainEnvironment ⟨"/etc", "10-apps.json"⟩
        [updateNode "org.example.X" 2147483647, updateNode "org.example.Y" (-1)] ∧
      ¬ ReadFaithfully plainEnvironment ⟨"/etc", "10-apps.json"⟩
        [updateNode "org.example.X" 0, updateNode "org.example.Y" (-2147483648),
          updateNode "org.example.Z" 0] := by
  constructor
  · intro h
    have hread : readFlatpakRefActionsFromNode plainEnvironment ⟨"/etc", "10-apps.json"⟩
        (.array [updateNode "org.example.X" 2147483647, updateNode "org.example.Y" (-1)]) =
          .ok ⟨[sampleAction .update "org.example.X" "10-apps.json" 2147483647,
            sampleAction .update "org.example.Y" "10-apps.json" (-1)], []⟩ := by
      decide +kernel
    obtain ⟨-, -, hlt⟩ := h.accepted _ hread
    revert hlt
    decide +kernel
  · intro h
    have hread : readFlatpakRefActionsFromNode plainEnvironment ⟨"/etc", "10-apps.json"⟩
        (.array [updateNode "org.example.X" 0, updateNode "org.example.Y" (-2147483648),
          updateNode "org.example.Z" 0]) =
          .ok ⟨[sampleAction .update "org.example.X" "10-apps.json" 0,
            sampleAction .update "org.example.Y" "10-apps.json" (-2147483648),
            sampleAction .update "org.example.Z" "10-apps.json" 0], []⟩ := by
      decide +kernel
    exact (h.rejected (by decide +kernel)).1 _ hread

end Euu
