import Mathlib.Data.Option.Basic
import EosUpdater.Util.ConfigFile

/-!
# Layers of a configuration

Where all files of an `EuuConfigFile` can be loaded, its contents are those of its layers: the files
in the order of their paths, a missing one as an empty one, and the default file last (`Layers`). A
lookup answers from these contents, whatever has been loaded before (`getFrom_fst`); so it answers
from the first layer that has the key (`fileValue_of_layers`, `layerValue_eq_ok_iff`), and aborts if
none has it (`layerValue_eq_aborted_iff`). The groups are those of all layers
(`getGroups_of_cached`).
-/

namespace Euu

open GLib

/-- All files can be loaded, and the layers are their key files, with the default file behind. -/
def Layers (disk : String → ConfigContents) (paths : List String) (defaultKeyFile : KeyFile)
    (layers : List KeyFile) : Prop :=
  ∃ keyFiles, paths.map (fun path => (disk path).parse) = keyFiles.map some ∧
    layers = keyFiles ++ [defaultKeyFile]

variable {disk : String → ConfigContents} {paths : List String} {path : String}
  {defaultKeyFile : KeyFile} {layers layers' : List KeyFile}

theorem layers_nil : Layers disk [] defaultKeyFile layers ↔ layers = [defaultKeyFile] := by
  constructor
  · rintro ⟨keyFiles, hparse, rfl⟩
    rw [List.map_nil, eq_comm, List.map_eq_nil_iff] at hparse
    rw [hparse]
    rfl
  · rintro rfl
    exact ⟨[], rfl, rfl⟩

theorem layers_cons : Layers disk (path :: paths) defaultKeyFile layers ↔
    ∃ keyFile rest, (disk path).parse = some keyFile ∧ Layers disk paths defaultKeyFile rest ∧
      layers = keyFile :: rest := by
  constructor
  · rintro ⟨keyFiles, hparse, rfl⟩
    cases keyFiles with
    | nil => cases hparse
    | cons keyFile keyFiles =>
        obtain ⟨hfirst, hrest⟩ := List.cons.inj hparse
        exact ⟨keyFile, _, hfirst, ⟨keyFiles, hrest, rfl⟩, rfl⟩
  · rintro ⟨keyFile, _, hfirst, ⟨keyFiles, hrest, rfl⟩, rfl⟩
    exact ⟨keyFile :: keyFiles, by rw [List.map_cons, hfirst, hrest, List.map_cons], rfl⟩

/-- There is one stack of layers. -/
theorem Layers.unique (h : Layers disk paths defaultKeyFile layers)
    (h' : Layers disk paths defaultKeyFile layers') : layers = layers' := by
  obtain ⟨keyFiles, hparse, rfl⟩ := h
  obtain ⟨keyFiles', hparse', rfl⟩ := h'
  rw [List.map_injective_iff.2 (Option.some_injective _) (hparse.symm.trans hparse')]

/-- Where all files can be loaded, no search reaches one that cannot. -/
theorem Layers.reachesUnloadable (h : Layers disk paths defaultKeyFile layers)
    {found : KeyFile → Bool} (hempty : found KeyFile.empty = false) :
    reachesUnloadable disk found paths = false := by
  induction paths generalizing layers with
  | nil => rfl
  | cons path paths ih =>
      obtain ⟨keyFile, rest, hparse, hrest, rfl⟩ := layers_cons.1 h
      rw [ConfigFile.reachesUnloadable_of_parse hempty hparse, ih hrest, Bool.and_false]

/-- The file for a key is the first layer that has it. -/
theorem Layers.fileForKey (h : Layers disk paths defaultKeyFile layers)
    (defaultPath groupName keyName : String) :
    ∃ file, fileForKey disk defaultPath defaultKeyFile groupName keyName paths = .ok file ∧
      file.map Prod.fst = layers.find? fun keyFile => keyFile.hasKey groupName keyName := by
  induction paths generalizing layers with
  | nil =>
      rw [layers_nil.1 h]
      refine ⟨_, rfl, ?_⟩
      rw [List.find?_singleton]
      split <;> rfl
  | cons path paths ih =>
      obtain ⟨keyFile, rest, hparse, hrest, rfl⟩ := layers_cons.1 h
      rw [ConfigFile.fileForKey_of_parse hparse, List.find?_cons]
      split
      · next hkey =>
        rw [hkey]
        exact ⟨_, rfl, rfl⟩
      · next hkey =>
        rw [Bool.eq_false_of_not_eq_true hkey]
        exact ih hrest

namespace ConfigFile

/-- The value that the first layer with the key gives it. -/
def layerValue {α : Type} (get : KeyFile → String → String → Except KeyFileError α)
    (layers : List KeyFile) (groupName keyName : String) : Except Failure α :=
  match layers.find? fun keyFile => keyFile.hasKey groupName keyName with
  | none => .error .aborted
  | some keyFile => (get keyFile groupName keyName).mapError fun e => .error (keyFileError e)

/-- No layer has the key. -/
def Missing (layers : List KeyFile) (groupName keyName : String) : Prop :=
  ∀ layer ∈ layers, layer.hasKey groupName keyName = false

/-- The value is that of the first layer that has the key. -/
def FirstValue {α : Type} (get : KeyFile → String → String → Except KeyFileError α)
    (layers : List KeyFile) (groupName keyName : String) (value : α) : Prop :=
  ∃ before layer after, layers = before ++ layer :: after ∧ Missing before groupName keyName ∧
    layer.hasKey groupName keyName = true ∧ get layer groupName keyName = .ok value

/-- A key with a value is not missing. -/
theorem FirstValue.not_missing {α : Type} {get : KeyFile → String → String → Except KeyFileError α}
    {groupName keyName : String} {value : α} (h : FirstValue get layers groupName keyName value) :
    ¬ Missing layers groupName keyName := by
  obtain ⟨before, layer, after, rfl, -, hkey, -⟩ := h
  intro hmissing
  rw [hmissing layer (by simp)] at hkey
  cases hkey

/-- A value is returned if the first layer with the key has one. -/
theorem layerValue_eq_ok_iff {α : Type} {get : KeyFile → String → String → Except KeyFileError α}
    {groupName keyName : String} {value : α} :
    layerValue get layers groupName keyName = .ok value ↔
      FirstValue get layers groupName keyName value := by
  rw [layerValue]
  constructor
  · intro h
    split at h
    · cases h
    · next layer hfind =>
      obtain ⟨hkey, before, after, hsplit, hbefore⟩ := List.find?_eq_some_iff_append.1 hfind
      refine ⟨before, layer, after, hsplit, fun other hother => by simpa using hbefore other hother,
        hkey, ?_⟩
      cases hvalue : get layer groupName keyName with
      | error e => rw [hvalue] at h; cases h
      | ok text => rw [hvalue] at h; cases h; rfl
  · rintro ⟨before, layer, after, hsplit, hbefore, hkey, hvalue⟩
    have hfind : layers.find? (fun keyFile => keyFile.hasKey groupName keyName) = some layer :=
      List.find?_eq_some_iff_append.2 ⟨hkey, before, after, hsplit,
        fun other hother => by simpa using hbefore other hother⟩
    rw [hfind]
    dsimp only
    rw [hvalue]
    rfl

/-- The lookup aborts if no layer has the key. -/
theorem layerValue_eq_aborted_iff {α : Type}
    {get : KeyFile → String → String → Except KeyFileError α} {groupName keyName : String} :
    layerValue get layers groupName keyName = .error .aborted ↔
      Missing layers groupName keyName := by
  have hfind : layers.find? (fun keyFile => keyFile.hasKey groupName keyName) = none ↔
      Missing layers groupName keyName := by
    simp [Missing]
  rw [layerValue, ← hfind]
  constructor
  · intro h
    split at h
    · next hnone => exact hnone
    · next layer _ => cases hvalue : get layer groupName keyName <;> rw [hvalue] at h <;> cases h
  · intro hnone
    rw [hnone]

variable {self : ConfigFile}

/-- A lookup that finds its key has not got to a file that cannot be loaded. -/
theorem reachesUnloadable_of_fileForKey {defaultPath groupName keyName : String}
    {file : Option (KeyFile × String)}
    (h : fileForKey disk defaultPath defaultKeyFile groupName keyName paths = .ok file) :
    reachesUnloadable disk (fun keyFile => keyFile.hasKey groupName keyName) paths = false := by
  induction paths with
  | nil => rfl
  | cons path paths ih =>
      rcases parse_or_unloadable (disk path) with ⟨keyFile, hparse⟩ | ⟨e, parsed, found, hdisk⟩
      · rw [fileForKey_of_parse hparse] at h
        rw [reachesUnloadable_of_parse (hasKey_empty groupName keyName) hparse]
        split at h
        · next hkey => rw [hkey]; rfl
        · rw [ih h, Bool.and_false]
      · rw [fileForKey, hdisk] at h
        cases h

/-- A lookup with a result leaves the cache in order. -/
theorem cached_of_getFrom {α : Type} {get : KeyFile → String → String → Except KeyFileError α}
    {groupName keyName : String} {a : α} {self' : ConfigFile} (h : self.Cached disk)
    (hget : self.getFrom disk get groupName keyName = (.ok a, self')) :
    SameLayers self self' ∧ self'.Cached disk := by
  have hfind := findFileForKey_spec groupName keyName self.paths (i := 0) rfl (Nat.zero_le _) h
  rw [← List.range_eq_range'] at hfind
  obtain ⟨hanswer, hleaves⟩ := hfind
  rw [getFrom, getFileForKey] at hget
  generalize findFileForKey disk groupName keyName (List.range (self.paths.length + 1)) self =
    result at hanswer hleaves hget
  obtain ⟨answer, config⟩ := result
  have hcached : ∀ file, answer = .ok file → config.Cached disk := fun file heq =>
    hleaves.cached.2 (reachesUnloadable_of_fileForKey (hanswer.symm.trans heq))
  rcases answer with e | _ | ⟨keyFile, path⟩
  · cases (Prod.mk.inj hget).1
  · cases (Prod.mk.inj hget).1
  · have hconfig : config = self' := by
      dsimp only at hget
      split at hget <;> exact (Prod.mk.inj hget).2
    rw [← hconfig]
    exact ⟨hleaves.layers, hcached _ rfl⟩

/-- The value of a key in the first file that has it, from the contents of the files alone. -/
def fileValue {α : Type} (disk : String → ConfigContents) (self : ConfigFile)
    (get : KeyFile → String → String → Except KeyFileError α) (groupName keyName : String) :
    Except Failure α :=
  match fileForKey disk self.defaultPath self.defaultKeyFile groupName keyName self.paths with
  | .error e => .error (.error e)
  | .ok none => .error .aborted
  | .ok (some (keyFile, _)) =>
      (get keyFile groupName keyName).mapError fun e => .error (keyFileError e)

/-- A lookup answers from the contents of the files, whatever is in the cache. -/
theorem getFrom_fst {α : Type} (get : KeyFile → String → String → Except KeyFileError α)
    (h : self.Cached disk) (groupName keyName : String) :
    (self.getFrom disk get groupName keyName).1 = self.fileValue disk get groupName keyName := by
  have hfind := findFileForKey_spec groupName keyName self.paths (i := 0) rfl (Nat.zero_le _) h
  rw [← List.range_eq_range'] at hfind
  rw [getFrom, getFileForKey, fileValue, ← hfind.1]
  generalize findFileForKey disk groupName keyName (List.range (self.paths.length + 1)) self =
    result
  obtain ⟨answer, self'⟩ := result
  rcases answer with e | _ | ⟨keyFile, path⟩
  · rfl
  · rfl
  · dsimp only
    cases get keyFile groupName keyName <;> rfl

/-- The contents of the files are those of the layers. -/
theorem fileValue_of_layers {α : Type} (get : KeyFile → String → String → Except KeyFileError α)
    (hlayers : Layers disk self.paths self.defaultKeyFile layers) (groupName keyName : String) :
    self.fileValue disk get groupName keyName = layerValue get layers groupName keyName := by
  obtain ⟨file, hfile, hfirst⟩ := hlayers.fileForKey self.defaultPath groupName keyName
  rw [fileValue, hfile, layerValue, ← hfirst]
  rcases file with _ | ⟨keyFile, path⟩ <;> rfl

/-- A value depends on the layers only. -/
theorem fileValue_of_sameLayers {α : Type} {self' : ConfigFile}
    (h : SameLayers self self') (get : KeyFile → String → String → Except KeyFileError α)
    (groupName keyName : String) :
    self'.fileValue disk get groupName keyName = self.fileValue disk get groupName keyName := by
  rw [ConfigFile.fileValue, ConfigFile.fileValue, h.paths, h.defaultPath, h.defaultKeyFile]

/-! ### Groups -/

theorem mem_addGroups {groups : GHashTable String Unit} {keyFile : KeyFile} {group : String} :
    group ∈ (addGroups groups keyFile).getKeys ↔
      group ∈ groups.getKeys ∨ group ∈ keyFile.getGroups := by
  rw [addGroups]
  induction keyFile.getGroups generalizing groups with
  | nil => simp
  | cons first rest ih =>
      rw [List.foldl_cons, ih, GHashTable.mem_getKeys_iff, GHashTable.mem_getKeys_iff,
        List.mem_cons]
      by_cases heq : first = group
      · simp [heq]
      · simp [heq, Ne.symm heq]

/-- The groups are those of all layers, if these can be loaded. -/
theorem groupsOf_eq_ok_iff {groups all : GHashTable String Unit} :
    groupsOf disk defaultKeyFile paths groups = .ok all ↔
      ∃ layers, Layers disk paths defaultKeyFile layers ∧ all = layers.foldl addGroups groups := by
  induction paths generalizing groups with
  | nil => simp [groupsOf, layers_nil, eq_comm]
  | cons path paths ih =>
      rcases parse_or_unloadable (disk path) with ⟨keyFile, hparse⟩ | ⟨e, parsed, found, hdisk⟩
      · rw [groupsOf_of_parse hparse, ih]
        simp only [layers_cons]
        constructor
        · rintro ⟨rest, hrest, hall⟩
          exact ⟨_, ⟨keyFile, rest, hparse, hrest, rfl⟩, hall⟩
        · rintro ⟨_, ⟨keyFile', rest, hparse', hrest, rfl⟩, hall⟩
          cases hparse.symm.trans hparse'
          exact ⟨rest, hrest, hall⟩
      · simp [groupsOf, hdisk, layers_cons, ConfigContents.parse]

theorem mem_foldl_addGroups {groups : GHashTable String Unit} {group : String} :
    group ∈ (layers.foldl addGroups groups).getKeys ↔
      group ∈ groups.getKeys ∨ ∃ layer ∈ layers, group ∈ layer.getGroups := by
  induction layers generalizing groups with
  | nil => simp
  | cons layer layers ih =>
      rw [List.foldl_cons, ih, mem_addGroups]
      simp [or_assoc]

/-- **Listing the groups** succeeds exactly if there are layers, and lists each of their groups
once. -/
theorem getGroups_of_cached (h : self.Cached disk) :
    ∃ result self', self.getGroups disk = (result, self') ∧ SameLayers self self' ∧
      ∀ groups, result = .ok groups →
        self'.Cached disk ∧ groups.Nodup ∧ ∃ layers,
          Layers disk self.paths self.defaultKeyFile layers ∧
          ∀ group, group ∈ groups ↔ ∃ layer ∈ layers, group ∈ layer.getGroups := by
  have hcollect := collectGroups_spec self.paths GHashTable.empty (i := 0) rfl (Nat.zero_le _) h
  rw [← List.range_eq_range'] at hcollect
  obtain ⟨hanswer, hleaves⟩ := hcollect
  rw [getGroups]
  generalize collectGroups disk (List.range (self.paths.length + 1)) GHashTable.empty self =
    collected at hanswer hleaves
  obtain ⟨answer, self'⟩ := collected
  cases answer with
  | error e =>
      refine ⟨_, self', rfl, hleaves.layers, fun groups hgroups => ?_⟩
      cases hgroups
  | ok all =>
      refine ⟨_, self', rfl, hleaves.layers, ?_⟩
      rintro groups ⟨⟩
      obtain ⟨layers, hlayers, rfl⟩ := groupsOf_eq_ok_iff.1 hanswer.symm
      refine ⟨hleaves.cached.2 (hlayers.reachesUnloadable rfl),
        (GLib.msort_perm _).nodup_iff.2 (GHashTable.nodup _), layers, hlayers, fun group => ?_⟩
      rw [sortGroups, GLib.mem_msort, mem_foldl_addGroups]
      simp [GHashTable.getKeys, GHashTable.empty]

end ConfigFile

end Euu
