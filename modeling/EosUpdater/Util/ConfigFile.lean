import Mathlib.Data.List.Induction
import EosUpdater.GLib.KeyFile
import EosUpdater.GLib.Sort
import EosUpdater.Util.Error

/-!
# Layered configuration files

`config-util.c` of the utility library: an `EuuConfigFile` answers a lookup from the first of its
files that has the key, and last from the default file. Files are loaded when a lookup first gets to
them, and are cached by their index.

A file is put into the cache before it is loaded, and stays there if loading fails. What a lookup
should answer from the contents of the files alone is `fileForKey`; a history of lookups answers
so, and keeps the cache `Cached`, exactly if none of them gets to a file that exists but cannot be
loaded (`answers_iff`).
-/

namespace Euu

open GLib

/-! ### The functions -/

/-- What is at the path of a configuration file. If loading fails, the key file has what was parsed
before the error. -/
inductive ConfigContents
  | missing
  | unloadable (error : GError) (parsed : KeyFile) (found : error.code ≠ .fileNoent)
  | wellFormed (keyFile : KeyFile)

/-- `g_key_file_load_from_file`: the key file, and the error. -/
def ConfigContents.load : ConfigContents → KeyFile × Option GError
  | missing => (KeyFile.empty, some ⟨.fileNoent, "No such file or directory"⟩)
  | unloadable error parsed _ => (parsed, some error)
  | wellFormed keyFile => (keyFile, none)

/-- `EuuConfigFile`, with the number of critical warnings on its array. -/
structure ConfigFile where
  paths : List String
  /-- The key files loaded so far, with the indices of their paths. -/
  keyFiles : List KeyFile
  defaultPath : String
  defaultKeyFile : KeyFile
  criticals : ℕ

namespace ConfigFile

/-- `euu_config_file_new`, with the default file loaded. -/
def new (paths : List String) (defaultPath : String) (defaultKeyFile : KeyFile) : ConfigFile :=
  { paths, keyFiles := [], defaultPath, defaultKeyFile, criticals := 0 }

/-- `g_ptr_array_insert` on the key files, which refuses an index beyond the end. -/
def insert (self : ConfigFile) (idx : ℕ) (keyFile : KeyFile) : ConfigFile :=
  if idx ≤ self.keyFiles.length then
    { self with keyFiles := self.keyFiles.insertIdx idx keyFile }
  else { self with criticals := self.criticals + 1 }

variable (disk : String → ConfigContents)

/-- `euu_config_file_ensure_loaded`. -/
def ensureLoaded (self : ConfigFile) (idx : ℕ) : Except GError KeyFile × ConfigFile :=
  match self.paths[idx]? with
  -- the default file has the index behind the last path
  | none => (.ok self.defaultKeyFile, self)
  | some path =>
      match self.keyFiles[idx]? with
      | some keyFile => (.ok keyFile, self)
      | none =>
          let (keyFile, localError) := (disk path).load
          -- the key file is kept whether or not it could be loaded
          let self := self.insert idx keyFile
          match localError with
          | none => (.ok keyFile, self)
          | some e => if e.code = .fileNoent then (.ok keyFile, self) else (.error e, self)

/-- The loop of `euu_config_file_get_file_for_key`. -/
def findFileForKey (groupName keyName : String) :
    List ℕ → ConfigFile → Except GError (Option (KeyFile × String)) × ConfigFile
  | [], self => (.ok none, self)
  | i :: rest, self =>
      let path := self.paths[i]?.getD self.defaultPath
      match self.ensureLoaded disk i with
      | (.error e, self) => (.error e, self)
      | (.ok keyFile, self) =>
          if keyFile.hasKey groupName keyName then (.ok (some (keyFile, path)), self)
          else findFileForKey groupName keyName rest self

/-- `euu_config_file_get_file_for_key`. -/
def getFileForKey (self : ConfigFile) (groupName keyName : String) :
    Except GError (Option (KeyFile × String)) × ConfigFile :=
  findFileForKey disk groupName keyName (List.range (self.paths.length + 1)) self

/-- `g_hash_table_add`, for each group of a file. -/
def addGroups (groups : GHashTable String Unit) (keyFile : KeyFile) : GHashTable String Unit :=
  keyFile.getGroups.foldl (fun groups group => groups.replace group ()) groups

/-- The loop of `euu_config_file_get_groups`. -/
def collectGroups :
    List ℕ → GHashTable String Unit → ConfigFile →
      Except GError (GHashTable String Unit) × ConfigFile
  | [], groups, self => (.ok groups, self)
  | i :: rest, groups, self =>
      match self.ensureLoaded disk i with
      | (.error e, self) => (.error e, self)
      | (.ok keyFile, self) => collectGroups rest (addGroups groups keyFile) self

/-- The sort at the end of `euu_config_file_get_groups`. -/
def sortGroups (groups : GHashTable String Unit) : List String :=
  GLib.msort (fun s t => decide (s ≤ t)) groups.getKeys

/-- `euu_config_file_get_groups`. -/
def getGroups (self : ConfigFile) : Except GError (List String) × ConfigFile :=
  match collectGroups disk (List.range (self.paths.length + 1)) GHashTable.empty self with
  | (.error e, self) => (.error e, self)
  | (.ok groups, self) => (.ok (sortGroups groups), self)

/-- The code of an error that `GKeyFile` reports. -/
def keyFileErrorCode (code : ℤ) : ErrorCode := .other "g-key-file-error-quark" code

/-- An error that `GKeyFile` reports. -/
def keyFileError : KeyFileError → GError
  | .keyNotFound message => ⟨keyFileErrorCode 3, message⟩
  | .groupNotFound message => ⟨keyFileErrorCode 4, message⟩
  | .invalidValue message => ⟨keyFileErrorCode 5, message⟩

/-- The checks of `euu_config_file_get_uint` on the value in a file. -/
def checkedUint (keyFile : KeyFile) (path groupName keyName : String) (minValue maxValue : UInt32) :
    Except Failure {n : UInt32 // minValue ≤ n ∧ n ≤ maxValue} :=
  match keyFile.getUint64 groupName keyName with
  | .error e => .error (.error (keyFileError e))
  | .ok val =>
      if h : minValue.toNat ≤ val.toNat ∧ val.toNat ≤ maxValue.toNat then
        .ok ⟨val.toUInt32, by
          -- the conversion loses nothing of a value within the range
          have hval : val.toUInt32.toNat = val.toNat := by
            rw [UInt64.toNat_toUInt32]
            exact Nat.mod_eq_of_lt (h.2.trans_lt maxValue.toNat_lt)
          rw [UInt32.le_iff_toNat_le, UInt32.le_iff_toNat_le, hval]
          exact h⟩
      else
        .error (.error ⟨keyFileErrorCode 5, "Integer value " ++ toString val.toNat ++
          " for key ‘" ++ groupName ++ "/" ++ keyName ++ "’ in configuration file ‘" ++ path ++
          "’ outside valid range [" ++ toString minValue.toNat ++ ", " ++
          toString maxValue.toNat ++ "]."⟩)

/-- `euu_config_file_get_uint`. It aborts if the key is not in the default file either. -/
def getUint (self : ConfigFile) (groupName keyName : String) (minValue maxValue : UInt32) :
    Except Failure {n : UInt32 // minValue ≤ n ∧ n ≤ maxValue} × ConfigFile :=
  match self.getFileForKey disk groupName keyName with
  | (.error e, self) => (.error (.error e), self)
  | (.ok none, self) => (.error .aborted, self)
  | (.ok (some (keyFile, path)), self) =>
      (checkedUint keyFile path groupName keyName minValue maxValue, self)

/-- `euu_config_file_get_boolean`, `euu_config_file_get_string` and `euu_config_file_get_strv`, with
the function that gets the value from a key file. They abort if the key is not in the default file
either. -/
def getFrom {α : Type} (self : ConfigFile)
    (get : KeyFile → String → String → Except KeyFileError α) (groupName keyName : String) :
    Except Failure α × ConfigFile :=
  match self.getFileForKey disk groupName keyName with
  | (.error e, self) => (.error (.error e), self)
  | (.ok none, self) => (.error .aborted, self)
  | (.ok (some (keyFile, _)), self) =>
      match get keyFile groupName keyName with
      | .error e => (.error (.error (keyFileError e)), self)
      | .ok a => (.ok a, self)

/-- `euu_config_file_get_boolean`. -/
def getBoolean (self : ConfigFile) (groupName keyName : String) :
    Except Failure Bool × ConfigFile :=
  self.getFrom disk KeyFile.getBoolean groupName keyName

/-- `euu_config_file_get_string`. -/
def getString (self : ConfigFile) (groupName keyName : String) :
    Except Failure String × ConfigFile :=
  self.getFrom disk KeyFile.getString groupName keyName

/-- `euu_config_file_get_strv`. -/
def getStrv (self : ConfigFile) (groupName keyName : String) :
    Except Failure (List String) × ConfigFile :=
  self.getFrom disk KeyFile.getStringList groupName keyName

end ConfigFile

/-- What can be asked of a configuration. The functions that return the value of a key, as an
integer and so on, ask for its file. -/
inductive ConfigCall
  | getFileForKey (groupName keyName : String)
  | getGroups

/-- What is answered. -/
inductive ConfigAnswer
  | file (result : Except GError (Option (KeyFile × String)))
  | groups (result : Except GError (List String))

namespace ConfigCall

/-- One call. -/
def run (disk : String → ConfigContents) (call : ConfigCall) (self : ConfigFile) :
    ConfigAnswer × ConfigFile :=
  match call with
  | getFileForKey groupName keyName =>
      let (result, self) := self.getFileForKey disk groupName keyName
      (.file result, self)
  | getGroups =>
      let (result, self) := self.getGroups disk
      (.groups result, self)

end ConfigCall

/-- A configuration after a history of calls. -/
def ConfigFile.after (disk : String → ConfigContents) (self : ConfigFile)
    (calls : List ConfigCall) : ConfigFile :=
  calls.foldl (fun self call => (call.run disk self).2) self

/-! ### What should be answered -/

section Spec

variable (disk : String → ConfigContents) (defaultPath : String) (defaultKeyFile : KeyFile)

/-- The first file that has the key, the default file last, unless a file in front of it exists and
cannot be loaded. -/
def fileForKey (groupName keyName : String) :
    List String → Except GError (Option (KeyFile × String))
  | [] =>
      .ok (if defaultKeyFile.hasKey groupName keyName then some (defaultKeyFile, defaultPath)
        else none)
  | path :: paths =>
      match disk path with
      | .missing => fileForKey groupName keyName paths
      | .unloadable e _ _ => .error e
      | .wellFormed keyFile =>
          if keyFile.hasKey groupName keyName then .ok (some (keyFile, path))
          else fileForKey groupName keyName paths

/-- The groups of all files, unless one exists and cannot be loaded. -/
def groupsOf : List String → GHashTable String Unit → Except GError (GHashTable String Unit)
  | [], groups => .ok (ConfigFile.addGroups groups defaultKeyFile)
  | path :: paths, groups =>
      match disk path with
      | .missing => groupsOf paths groups
      | .unloadable e _ _ => .error e
      | .wellFormed keyFile => groupsOf paths (ConfigFile.addGroups groups keyFile)

/-- What a call should answer, from the contents of the files. -/
def ConfigCall.answer (paths : List String) : ConfigCall → ConfigAnswer
  | .getFileForKey groupName keyName =>
      .file (fileForKey disk defaultPath defaultKeyFile groupName keyName paths)
  | .getGroups =>
      .groups ((groupsOf disk defaultKeyFile paths GHashTable.empty).map ConfigFile.sortGroups)

/-- Going through the files until one has what is looked for, one gets to a file that exists and
cannot be loaded. -/
def reachesUnloadable (found : KeyFile → Bool) : List String → Bool
  | [] => false
  | path :: paths =>
      match disk path with
      | .missing => reachesUnloadable found paths
      | .unloadable _ _ _ => true
      | .wellFormed keyFile => !found keyFile && reachesUnloadable found paths

/-- A call gets to a file that exists and cannot be loaded. -/
def ConfigCall.reachesUnloadable (paths : List String) : ConfigCall → Bool
  | .getFileForKey groupName keyName =>
      Euu.reachesUnloadable disk (fun keyFile => keyFile.hasKey groupName keyName) paths
  | .getGroups => Euu.reachesUnloadable disk (fun _ => false) paths

end Spec

/-! ### The cache -/

/-- The parse of a file, if it has one. A missing file counts as an empty one. -/
def ConfigContents.parse : ConfigContents → Option KeyFile
  | missing => some KeyFile.empty
  | unloadable _ _ _ => none
  | wellFormed keyFile => some keyFile

/-- Every key file in the cache is the parse of the path of the same index. -/
def ConfigFile.Cached (disk : String → ConfigContents) (self : ConfigFile) : Prop :=
  ∀ (i : ℕ) (keyFile : KeyFile), self.keyFiles[i]? = some keyFile →
    ∃ path : String, self.paths[i]? = some path ∧ (disk path).parse = some keyFile

namespace ConfigFile

variable {disk : String → ConfigContents} {self self' : ConfigFile} {i : ℕ}

/-- `c'` differs from `c` at most in its cache. -/
structure SameLayers (c c' : ConfigFile) : Prop where
  paths : c'.paths = c.paths
  defaultPath : c'.defaultPath = c.defaultPath
  defaultKeyFile : c'.defaultKeyFile = c.defaultKeyFile
  criticals : c'.criticals = c.criticals

theorem SameLayers.refl (self : ConfigFile) : SameLayers self self := ⟨rfl, rfl, rfl, rfl⟩

theorem SameLayers.trans {self'' : ConfigFile} (h : SameLayers self self')
    (h' : SameLayers self' self'') : SameLayers self self'' :=
  ⟨h'.paths.trans h.paths, h'.defaultPath.trans h.defaultPath,
    h'.defaultKeyFile.trans h.defaultKeyFile, h'.criticals.trans h.criticals⟩

/-- An index up to the end of the cache can be inserted. -/
theorem insert_of_length {keyFile : KeyFile} (hi : i = self.keyFiles.length) :
    self.insert i keyFile = { self with keyFiles := self.keyFiles ++ [keyFile] } := by
  subst hi
  rw [insert, if_pos le_rfl, List.insertIdx_length_self]

theorem sameLayers_append (self : ConfigFile) (keyFile : KeyFile) :
    SameLayers self { self with keyFiles := self.keyFiles ++ [keyFile] } := ⟨rfl, rfl, rfl, rfl⟩

/-- A further file is cached rightly if it is what the next path holds. -/
theorem cached_append_iff {path : String} {keyFile : KeyFile} (h : self.Cached disk)
    (hpath : self.paths[self.keyFiles.length]? = some path) :
    ConfigFile.Cached disk { self with keyFiles := self.keyFiles ++ [keyFile] } ↔
      (disk path).parse = some keyFile := by
  constructor
  · intro hcached
    obtain ⟨path', hpath', hparse⟩ := hcached self.keyFiles.length keyFile (by simp)
    cases hpath.symm.trans hpath'
    exact hparse
  · intro hparse j file hj
    rcases Nat.lt_trichotomy j self.keyFiles.length with hlt | heq | hgt
    · rw [List.getElem?_append_left hlt] at hj
      exact h j file hj
    · subst heq
      rw [List.getElem?_concat_length] at hj
      cases hj
      exact ⟨path, hpath, hparse⟩
    · rw [List.getElem?_eq_none (by rw [List.length_append, List.length_singleton]; omega)] at hj
      cases hj

/-- The default file is always there. -/
theorem ensureLoaded_default (hi : self.paths[i]? = none) :
    self.ensureLoaded disk i = (.ok self.defaultKeyFile, self) := by
  rw [ensureLoaded, hi]

/-- **Loading a file that can be loaded** returns its parse, from the cache or from the disk. -/
theorem ensureLoaded_of_parse {path : String} {keyFile : KeyFile} (h : self.Cached disk)
    (hpath : self.paths[i]? = some path) (hparse : (disk path).parse = some keyFile)
    (hi : i ≤ self.keyFiles.length) :
    ∃ self', self.ensureLoaded disk i = (.ok keyFile, self') ∧ SameLayers self self' ∧
      self'.Cached disk ∧ i + 1 ≤ self'.keyFiles.length := by
  rw [ensureLoaded, hpath]
  cases hcache : self.keyFiles[i]? with
  | some cached =>
      -- the cache is in order, so it has this very parse
      obtain ⟨path', hpath', hparse'⟩ := h i cached hcache
      cases hpath.symm.trans hpath'
      cases hparse.symm.trans hparse'
      obtain ⟨hlt, -⟩ := List.getElem?_eq_some_iff.1 hcache
      exact ⟨self, rfl, SameLayers.refl self, h, hlt⟩
  | none =>
      -- files are loaded one after the other, so it goes to the end of the cache
      have hlength : i = self.keyFiles.length :=
        le_antisymm hi (List.getElem?_eq_none_iff.1 hcache)
      have hcached : ConfigFile.Cached disk { self with keyFiles := self.keyFiles ++ [keyFile] } :=
        (cached_append_iff h (hlength ▸ hpath)).2 hparse
      refine ⟨{ self with keyFiles := self.keyFiles ++ [keyFile] }, ?_,
        sameLayers_append self keyFile, hcached, by simp [hlength]⟩
      simp only [insert_of_length hlength]
      cases hdisk : disk path with
      | missing =>
          rw [hdisk] at hparse
          cases hparse
          rfl
      | unloadable e parsed found =>
          rw [hdisk] at hparse
          cases hparse
      | wellFormed file =>
          rw [hdisk] at hparse
          cases hparse
          rfl

/-- **Loading a file that cannot be loaded** reports the error, and leaves in the cache what is not
its parse. -/
theorem ensureLoaded_unloadable {path : String} {e : GError} {parsed : KeyFile}
    {found : e.code ≠ .fileNoent} (h : self.Cached disk) (hpath : self.paths[i]? = some path)
    (hdisk : disk path = .unloadable e parsed found) (hi : i ≤ self.keyFiles.length) :
    ∃ self', self.ensureLoaded disk i = (.error e, self') ∧ SameLayers self self' ∧
      ¬ self'.Cached disk := by
  have hparse : (disk path).parse = none := by rw [hdisk]; rfl
  -- a cache that is in order has no key file for it yet
  have hcache : self.keyFiles[i]? = none := by
    cases hcache : self.keyFiles[i]? with
    | none => rfl
    | some cached =>
        obtain ⟨path', hpath', hparse'⟩ := h i cached hcache
        cases hpath.symm.trans hpath'
        rw [hparse] at hparse'
        cases hparse'
  have hlength : i = self.keyFiles.length :=
    le_antisymm hi (List.getElem?_eq_none_iff.1 hcache)
  refine ⟨{ self with keyFiles := self.keyFiles ++ [parsed] }, ?_,
    sameLayers_append self parsed, ?_⟩
  · rw [ensureLoaded, hpath]
    simp only [hcache, hdisk, ConfigContents.load, insert_of_length hlength, if_neg found]
  · rw [cached_append_iff h (hlength ▸ hpath), hparse]
    simp

/-! ### Lookups -/

/-- What a call leaves: the layers as they were, and a cache that is in order exactly if no file
that the call got to was unloadable. -/
structure Leaves (disk : String → ConfigContents) (reaches : Bool) (c c' : ConfigFile) : Prop where
  layers : SameLayers c c'
  cached : c'.Cached disk ↔ reaches = false

theorem hasKey_empty (group key : String) : KeyFile.empty.hasKey group key = false := rfl

theorem addGroups_empty (groups : GHashTable String Unit) :
    addGroups groups KeyFile.empty = groups := rfl

/-- A missing file is passed over as an empty one would be. -/
theorem fileForKey_of_parse {path groupName keyName defaultPath : String} {paths : List String}
    {keyFile defaultKeyFile : KeyFile} (hparse : (disk path).parse = some keyFile) :
    fileForKey disk defaultPath defaultKeyFile groupName keyName (path :: paths) =
      if keyFile.hasKey groupName keyName then .ok (some (keyFile, path))
      else fileForKey disk defaultPath defaultKeyFile groupName keyName paths := by
  rw [fileForKey]
  cases hdisk : disk path <;> rw [hdisk] at hparse <;> cases hparse
  · simp [hasKey_empty]
  · rfl

/-- The groups of a file that can be loaded are added to those of the others. -/
theorem groupsOf_of_parse {path : String} {paths : List String} {keyFile defaultKeyFile : KeyFile}
    {groups : GHashTable String Unit} (hparse : (disk path).parse = some keyFile) :
    groupsOf disk defaultKeyFile (path :: paths) groups =
      groupsOf disk defaultKeyFile paths (addGroups groups keyFile) := by
  rw [groupsOf]
  cases hdisk : disk path <;> rw [hdisk] at hparse <;> cases hparse
  · rw [addGroups_empty]
  · rfl

/-- A search goes past a file that can be loaded if it does not find anything there. -/
theorem reachesUnloadable_of_parse {path : String} {paths : List String} {keyFile : KeyFile}
    {found : KeyFile → Bool} (hempty : found KeyFile.empty = false)
    (hparse : (disk path).parse = some keyFile) :
    reachesUnloadable disk found (path :: paths) =
      (!found keyFile && reachesUnloadable disk found paths) := by
  rw [reachesUnloadable]
  cases hdisk : disk path <;> rw [hdisk] at hparse <;> cases hparse
  · simp [hempty]
  · rfl

/-- A file either has a parse or is unloadable. -/
theorem parse_or_unloadable (contents : ConfigContents) :
    (∃ keyFile, contents.parse = some keyFile) ∨
      ∃ e parsed found, contents = .unloadable e parsed found := by
  cases contents with
  | missing => exact Or.inl ⟨_, rfl⟩
  | unloadable e parsed found => exact Or.inr ⟨e, parsed, found, rfl⟩
  | wellFormed keyFile => exact Or.inl ⟨_, rfl⟩

/-- A path in front of the others. -/
private theorem getElem?_of_drop {paths rest : List String} {path : String}
    (h : paths.drop i = path :: rest) : paths[i]? = some path ∧ paths.drop (i + 1) = rest := by
  constructor
  · rw [← List.head?_drop, h]
    rfl
  · rw [← List.tail_drop, h]
    rfl

/-- From the `i`-th path on, a lookup answers from the contents of the files. -/
theorem findFileForKey_spec (groupName keyName : String) (rest : List String)
    (hrest : self.paths.drop i = rest) (hi : i ≤ self.keyFiles.length) (h : self.Cached disk) :
    (findFileForKey disk groupName keyName (List.range' i (rest.length + 1)) self).1 =
        fileForKey disk self.defaultPath self.defaultKeyFile groupName keyName rest ∧
      Leaves disk (reachesUnloadable disk (fun keyFile => keyFile.hasKey groupName keyName) rest)
        self (findFileForKey disk groupName keyName (List.range' i (rest.length + 1)) self).2 := by
  induction rest generalizing i self with
  | nil =>
      have hnone : self.paths[i]? = none := by
        rw [List.getElem?_eq_none_iff]
        exact List.drop_eq_nil_iff.1 hrest
      -- only the default file is left
      simp only [List.length_nil, List.range'_succ, List.range'_zero, findFileForKey,
        ensureLoaded_default hnone, hnone, Option.getD_none]
      cases hkey : self.defaultKeyFile.hasKey groupName keyName with
      | true =>
        exact ⟨by simp [fileForKey, hkey], SameLayers.refl self, by simpa [reachesUnloadable]⟩
      | false =>
        exact ⟨by simp [fileForKey, hkey], SameLayers.refl self, by simpa [reachesUnloadable]⟩
  | cons path rest ih =>
      obtain ⟨hpath, hdrop⟩ := getElem?_of_drop hrest
      rw [List.length_cons, List.range'_succ, findFileForKey]
      simp only [hpath, Option.getD_some]
      rcases parse_or_unloadable (disk path) with ⟨keyFile, hparse⟩ | ⟨e, parsed, found, hdisk⟩
      · obtain ⟨self', hload, hsame, hcached, hi'⟩ := ensureLoaded_of_parse h hpath hparse hi
        rw [fileForKey_of_parse hparse,
          reachesUnloadable_of_parse (hasKey_empty groupName keyName) hparse]
        simp only [hload]
        cases hkey : keyFile.hasKey groupName keyName with
        | true => exact ⟨rfl, hsame, by simpa using hcached⟩
        | false =>
            -- the loop goes on with the cache that loading this file has left
            obtain ⟨hresult, hleaves⟩ := ih (hsame.paths ▸ hdrop) hi' hcached
            rw [hsame.defaultPath, hsame.defaultKeyFile] at hresult
            exact ⟨hresult, hsame.trans hleaves.layers, hleaves.cached⟩
      · obtain ⟨self', hload, hsame, hcached⟩ := ensureLoaded_unloadable h hpath hdisk hi
        simp only [hload]
        refine ⟨by simp [fileForKey, hdisk], hsame, ?_⟩
        simpa [reachesUnloadable, hdisk] using hcached

/-- So does a listing of the groups. -/
theorem collectGroups_spec (rest : List String) (groups : GHashTable String Unit)
    (hrest : self.paths.drop i = rest) (hi : i ≤ self.keyFiles.length) (h : self.Cached disk) :
    (collectGroups disk (List.range' i (rest.length + 1)) groups self).1 =
        groupsOf disk self.defaultKeyFile rest groups ∧
      Leaves disk (reachesUnloadable disk (fun _ => false) rest) self
        (collectGroups disk (List.range' i (rest.length + 1)) groups self).2 := by
  induction rest generalizing i self groups with
  | nil =>
      have hnone : self.paths[i]? = none := by
        rw [List.getElem?_eq_none_iff]
        exact List.drop_eq_nil_iff.1 hrest
      -- behind the paths there are only the defaults
      simp only [List.length_nil, List.range'_succ, List.range'_zero, collectGroups,
        ensureLoaded_default hnone]
      exact ⟨rfl, SameLayers.refl self, by simpa [reachesUnloadable]⟩
  | cons path rest ih =>
      obtain ⟨hpath, hdrop⟩ := getElem?_of_drop hrest
      rw [List.length_cons, List.range'_succ, collectGroups]
      rcases parse_or_unloadable (disk path) with ⟨keyFile, hparse⟩ | ⟨e, parsed, found, hdisk⟩
      · obtain ⟨self', hload, hsame, hcached, hi'⟩ := ensureLoaded_of_parse h hpath hparse hi
        rw [groupsOf_of_parse hparse, reachesUnloadable_of_parse rfl hparse]
        simp only [hload]
        obtain ⟨hresult, hleaves⟩ := ih (addGroups groups keyFile) (hsame.paths ▸ hdrop) hi' hcached
        rw [hsame.defaultKeyFile] at hresult
        exact ⟨hresult, hsame.trans hleaves.layers, hleaves.cached⟩
      · obtain ⟨self', hload, hsame, hcached⟩ := ensureLoaded_unloadable h hpath hdisk hi
        simp only [hload]
        refine ⟨by simp [groupsOf, hdisk], hsame, ?_⟩
        simpa [reachesUnloadable, hdisk] using hcached

/-- **One call**, with a cache that is in order, answers from the contents of the files. -/
theorem run_spec (call : ConfigCall) (h : self.Cached disk) :
    (call.run disk self).1 =
        call.answer disk self.defaultPath self.defaultKeyFile self.paths ∧
      Leaves disk (call.reachesUnloadable disk self.paths) self (call.run disk self).2 := by
  cases call with
  | getFileForKey groupName keyName =>
      have hfind := findFileForKey_spec groupName keyName self.paths (i := 0) rfl (Nat.zero_le _) h
      rw [← List.range_eq_range'] at hfind
      exact ⟨congrArg ConfigAnswer.file hfind.1, hfind.2⟩
  | getGroups =>
      have hcollect := collectGroups_spec self.paths GHashTable.empty (i := 0) rfl (Nat.zero_le _) h
      rw [← List.range_eq_range'] at hcollect
      rw [ConfigCall.run, getGroups, ConfigCall.answer]
      obtain ⟨hresult, hleaves⟩ := hcollect
      rw [← hresult]
      cases hc : collectGroups disk (List.range (self.paths.length + 1)) GHashTable.empty self with
      | mk result self' =>
          rw [hc] at hleaves
          cases result with
          | error e => exact ⟨rfl, hleaves⟩
          | ok groups => exact ⟨rfl, hleaves⟩

/-! ### Histories -/

theorem after_append (self : ConfigFile) (calls calls' : List ConfigCall) :
    self.after disk (calls ++ calls') = (self.after disk calls).after disk calls' :=
  List.foldl_append

/-- **A history of calls** that get to no unloadable file leaves the cache in order. -/
theorem cached_after (calls : List ConfigCall) (h : self.Cached disk)
    (hcalls : ∀ call ∈ calls, call.reachesUnloadable disk self.paths = false) :
    SameLayers self (self.after disk calls) ∧ (self.after disk calls).Cached disk := by
  induction calls generalizing self with
  | nil => exact ⟨SameLayers.refl self, h⟩
  | cons call calls ih =>
      obtain ⟨-, hleaves⟩ := run_spec call h
      have hcached := hleaves.cached.2 (hcalls call List.mem_cons_self)
      obtain ⟨hsame, hafter⟩ := ih hcached fun c hc => by
        rw [hleaves.layers.paths]
        exact hcalls c (List.mem_cons_of_mem _ hc)
      exact ⟨hleaves.layers.trans hsame, hafter⟩

/-- A new configuration has cached nothing. -/
theorem cached_new (paths : List String) (defaultPath : String) (defaultKeyFile : KeyFile) :
    (new paths defaultPath defaultKeyFile).Cached disk := by
  intro i keyFile h
  simp [new] at h

end ConfigFile

/-- **When lookups do not depend on history.** Every call of a history answers from the contents of
the files, keeps the cache in order and inserts only within the array, exactly if no call gets to a
file that exists and cannot be read or parsed. -/
theorem answers_iff (disk : String → ConfigContents) (paths : List String) (defaultPath : String)
    (defaultKeyFile : KeyFile) (calls : List ConfigCall) :
    let start := ConfigFile.new paths defaultPath defaultKeyFile
    (∀ done call rest, calls = done ++ call :: rest →
        (call.run disk (start.after disk done)).1 =
            call.answer disk defaultPath defaultKeyFile paths ∧
          (start.after disk (done ++ [call])).Cached disk ∧
          (start.after disk (done ++ [call])).criticals = 0) ↔
      ∀ call ∈ calls, call.reachesUnloadable disk paths = false := by
  intro start
  have hstart : start.Cached disk := ConfigFile.cached_new paths defaultPath defaultKeyFile
  constructor
  · intro h
    suffices hall : ∀ done rest, calls = done ++ rest →
        ∀ call ∈ done, call.reachesUnloadable disk paths = false from hall calls [] (by simp)
    intro done
    induction done using List.reverseRecOn with
    | nil => intro rest _ call hcall; cases hcall
    | append_singleton done call ih =>
        intro rest hsplit
        rw [List.append_assoc] at hsplit
        -- the calls before it have gone well, so it starts from a cache that is in order
        have hdone := ih _ hsplit
        obtain ⟨hsame, hcached⟩ := ConfigFile.cached_after done hstart hdone
        obtain ⟨-, hleaves⟩ := ConfigFile.run_spec call hcached
        have hafter := (h done call rest hsplit).2.1
        rw [ConfigFile.after_append] at hafter
        have hcall := hleaves.cached.1 hafter
        rw [hsame.paths] at hcall
        intro c hc
        rcases List.mem_append.1 hc with hc | hc
        · exact hdone c hc
        · rw [List.mem_singleton.1 hc]
          exact hcall
  · intro h done call rest hsplit
    have hdone : ∀ c ∈ done, c.reachesUnloadable disk paths = false := fun c hc =>
      h c (by rw [hsplit]; exact List.mem_append_left _ hc)
    have hcall : call.reachesUnloadable disk paths = false :=
      h call (by rw [hsplit]; simp)
    obtain ⟨hsame, hcached⟩ := ConfigFile.cached_after done hstart hdone
    obtain ⟨hanswer, hleaves⟩ := ConfigFile.run_spec call hcached
    rw [hsame.paths] at hanswer hleaves
    rw [hsame.defaultPath, hsame.defaultKeyFile] at hanswer
    refine ⟨hanswer, ?_, ?_⟩
    · rw [ConfigFile.after_append]
      exact hleaves.cached.2 hcall
    · rw [ConfigFile.after_append]
      exact hleaves.layers.criticals.trans hsame.criticals

/-- A file that is no key file, in front of the defaults. Asked twice for the same key, the error is
the answer the first time, and the default the second. -/
theorem malformed_forgotten :
    let defaultKeyFile := KeyFile.empty.setInt64 "Automatic Updates" "LastAutomaticStep" 3
    let disk : String → ConfigContents := fun _ =>
      .unloadable ⟨.other "g-key-file-error-quark" 1, "not a key-value pair"⟩ KeyFile.empty
        (by decide)
    let paths := ["/etc/eos-updater/eos-autoupdater.conf"]
    let start := ConfigFile.new paths "/default.conf" defaultKeyFile
    let call := ConfigCall.getFileForKey "Automatic Updates" "LastAutomaticStep"
    let again := (call.run disk (start.after disk [call])).1
    again = .file (.ok (some (defaultKeyFile, "/default.conf"))) ∧
      again ≠ call.answer disk "/default.conf" defaultKeyFile paths ∧
      ¬ (start.after disk [call]).Cached disk := by
  intro defaultKeyFile disk paths start call again
  have hagain : again = .file (.ok (some (defaultKeyFile, "/default.conf"))) := rfl
  refine ⟨hagain, ?_, ?_⟩
  · rw [hagain]
    intro h
    cases h
  · intro h
    obtain ⟨path, -, hparse⟩ := h 0 KeyFile.empty rfl
    cases hparse

end Euu
