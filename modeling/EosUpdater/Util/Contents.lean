import Mathlib.Data.List.Sort
import Mathlib.Data.String.Basic
import EosUpdater.Util.Layers

/-!
# The contents of configuration files

What an `EuuConfigFile` answers depends on the contents of its files only, and not on the order in
which they are loaded and cached (`getFrom_contents`, `getGroups_fst`).

A program that changes a value loads the first file that there is, and writes it in front of all
others. Then no other value of the configuration changes (`Rewritten.fileValue_eq`), and neither do
the groups, if the one of the value was there before (`Rewritten.groupContents_eq`).
-/

namespace Euu

open GLib

namespace ConfigFile

variable {disk disk' : String → ConfigContents} {config config' : ConfigFile}

/-! ### The cache makes no difference -/

/-- A lookup in files that have been loaded before. -/
theorem getFrom_contents {α : Type} (get : KeyFile → String → String → Except KeyFileError α)
    (hsame : SameLayers config config') (hcached : config'.Cached disk) (group key : String) :
    ∃ config'', config'.getFrom disk get group key =
        (config.fileValue disk get group key, config'') ∧
      ∀ a, config.fileValue disk get group key = .ok a →
        SameLayers config config'' ∧ config''.Cached disk := by
  have hfst := getFrom_fst get hcached group key
  rw [fileValue_of_sameLayers hsame] at hfst
  refine ⟨(config'.getFrom disk get group key).2, Prod.ext hfst rfl, fun a hvalue => ?_⟩
  obtain ⟨hsame', hcached'⟩ := cached_of_getFrom hcached
    (Prod.ext (hfst.trans hvalue) rfl)
  exact ⟨hsame.trans hsame', hcached'⟩

/-- The groups of all files. -/
def groupContents (disk : String → ConfigContents) (config : ConfigFile) :
    Except GError (List String) :=
  (groupsOf disk config.defaultKeyFile config.paths GHashTable.empty).map sortGroups

/-- The groups are those of the layers on the disk. -/
theorem getGroups_fst (h : config.Cached disk) :
    (config.getGroups disk).1 = groupContents disk config := by
  have hcollect := collectGroups_spec config.paths GHashTable.empty (i := 0) rfl
    (Nat.zero_le _) h
  rw [← List.range_eq_range'] at hcollect
  rw [getGroups, groupContents, ← hcollect.1]
  generalize collectGroups disk (List.range (config.paths.length + 1)) GHashTable.empty
    config = collected
  obtain ⟨answer, self'⟩ := collected
  cases answer <;> rfl

/-- The groups of the layers are listed in their order. -/
theorem groupContents_of_layers {layers : List KeyFile}
    (h : Layers disk config.paths config.defaultKeyFile layers) :
    ∃ groups, config.groupContents disk = .ok groups ∧ groups.Pairwise (· < ·) ∧
      ∀ group, group ∈ groups ↔ ∃ layer ∈ layers, group ∈ layer.getGroups := by
  have hgroups : groupsOf disk config.defaultKeyFile config.paths GHashTable.empty =
      .ok (layers.foldl addGroups GHashTable.empty) := groupsOf_eq_ok_iff.2 ⟨layers, h, rfl⟩
  refine ⟨_, by rw [groupContents, hgroups]; rfl, ?_, fun group => ?_⟩
  · have hsorted : (sortGroups (layers.foldl addGroups GHashTable.empty)).Pairwise (· ≤ ·) :=
      GLib.pairwise_msort id fun s _ t _ => ⟨fun hle => of_decide_eq_true hle,
        fun hle => le_of_not_ge (of_decide_eq_false hle)⟩
    have hnodup : (sortGroups (layers.foldl addGroups GHashTable.empty)).Nodup :=
      (GLib.msort_perm _).nodup_iff.2 (GHashTable.nodup _)
    exact (hsorted.and hnodup).imp fun h => lt_of_le_of_ne h.1 h.2
  · rw [sortGroups, GLib.mem_msort, mem_foldl_addGroups]
    simp [GHashTable.getKeys, GHashTable.empty]

/-- Where the groups are listed, there are layers. -/
theorem exists_layers_of_groupContents {groups : List String}
    (h : config.groupContents disk = .ok groups) :
    ∃ layers, Layers disk config.paths config.defaultKeyFile layers := by
  rw [groupContents] at h
  cases hgroups : groupsOf disk config.defaultKeyFile config.paths GHashTable.empty with
  | error e =>
      rw [hgroups] at h
      cases h
  | ok all =>
      obtain ⟨layers, hlayers, -⟩ := groupsOf_eq_ok_iff.1 hgroups
      exact ⟨layers, hlayers⟩

/-! ### Groups -/

/-- Tables with the same groups give the same list of them. -/
theorem sortGroups_congr {groups groups' : GHashTable String Unit}
    (h : ∀ group, group ∈ groups.getKeys ↔ group ∈ groups'.getKeys) :
    sortGroups groups = sortGroups groups' := by
  exact msort_eq_of_perm (fun _ _ => decide_eq_true_iff)
    ((List.perm_ext_iff_of_nodup groups.nodup groups'.nodup).2 h)

theorem mem_addGroups_congr {groups groups' : GHashTable String Unit} (keyFile : KeyFile)
    (h : ∀ group, group ∈ groups.getKeys ↔ group ∈ groups'.getKeys) (group : String) :
    group ∈ (addGroups groups keyFile).getKeys ↔
      group ∈ (addGroups groups' keyFile).getKeys := by
  rw [mem_addGroups, mem_addGroups, h]

theorem groupsOf_congr {defaultKeyFile : KeyFile} {paths : List String}
    {groups groups' : GHashTable String Unit}
    (h : ∀ group, group ∈ groups.getKeys ↔ group ∈ groups'.getKeys) :
    (groupsOf disk defaultKeyFile paths groups).map sortGroups =
      (groupsOf disk defaultKeyFile paths groups').map sortGroups := by
  induction paths generalizing groups groups' with
  | nil => exact congrArg Except.ok (sortGroups_congr (mem_addGroups_congr defaultKeyFile h))
  | cons path paths ih =>
      rcases parse_or_unloadable (disk path) with
        ⟨keyFile, hparse⟩ | ⟨e, parsed, found, hdisk⟩
      · rw [groupsOf_of_parse hparse, groupsOf_of_parse hparse]
        exact ih (mem_addGroups_congr keyFile h)
      · simp only [groupsOf, hdisk]

/-! ### A file in front of all others -/

/-- The first file that is not missing, with the paths behind it. -/
def FirstFile (disk : String → ConfigContents) (paths : List String) (keyFile : KeyFile)
    (rest : List String) : Prop :=
  ∃ before path, paths = before ++ path :: rest ∧ (∀ other ∈ before, disk other = .missing) ∧
    disk path = .wellFormed keyFile

/-- The first file that is not missing has been written in front of all files, with the value of one
key changed. -/
structure Rewritten (disk disk' : String → ConfigContents) (paths : List String)
    (keyFile keyFile' : KeyFile) (groupName keyName : String) : Prop where
  exists_first : ∃ rest, FirstFile disk paths keyFile rest
  disk_eq : ∃ front rest, paths = front :: rest ∧ front ∉ rest ∧
    disk' = Function.update disk front (.wellFormed keyFile')
  value_eq : ∀ group key, (group ≠ groupName ∨ key ≠ keyName) →
    keyFile'.value group key = keyFile.value group key
  groups_eq : ∀ group, group ∈ keyFile'.getGroups ↔ group ∈ keyFile.getGroups

/-- Files that are missing are passed over in the search for a key. -/
theorem fileForKey_missing {before rest : List String} {defaultPath groupName keyName : String}
    {defaultKeyFile : KeyFile} (h : ∀ path ∈ before, disk path = .missing) :
    fileForKey disk defaultPath defaultKeyFile groupName keyName (before ++ rest) =
      fileForKey disk defaultPath defaultKeyFile groupName keyName rest := by
  induction before with
  | nil => rfl
  | cons path before ih =>
      rw [List.forall_mem_cons] at h
      rw [List.cons_append, fileForKey, h.1]
      exact ih h.2

/-- Files that are missing add no groups. -/
theorem groupsOf_missing {before rest : List String} {defaultKeyFile : KeyFile}
    {groups : GHashTable String Unit} (h : ∀ path ∈ before, disk path = .missing) :
    groupsOf disk defaultKeyFile (before ++ rest) groups =
      groupsOf disk defaultKeyFile rest groups := by
  induction before with
  | nil => rfl
  | cons path before ih =>
      rw [List.forall_mem_cons] at h
      rw [List.cons_append, groupsOf, h.1]
      exact ih h.2

/-- A file that is not among the layers does not matter for a key. -/
theorem fileForKey_update {front : String} {contents : ConfigContents} {paths : List String}
    {defaultPath groupName keyName : String} {defaultKeyFile : KeyFile} (h : front ∉ paths) :
    fileForKey (Function.update disk front contents) defaultPath defaultKeyFile groupName keyName
        paths = fileForKey disk defaultPath defaultKeyFile groupName keyName paths := by
  induction paths with
  | nil => rfl
  | cons path paths ih =>
      rw [List.mem_cons, not_or] at h
      rw [fileForKey, fileForKey, Function.update_of_ne (Ne.symm h.1), ih h.2]

/-- A file that is not among the layers does not matter for the groups. -/
theorem groupsOf_update {front : String} {contents : ConfigContents} {paths : List String}
    {defaultKeyFile : KeyFile} {groups : GHashTable String Unit} (h : front ∉ paths) :
    groupsOf (Function.update disk front contents) defaultKeyFile paths groups =
      groupsOf disk defaultKeyFile paths groups := by
  induction paths generalizing groups with
  | nil => rfl
  | cons path paths ih =>
      rw [List.mem_cons, not_or] at h
      rw [groupsOf, groupsOf, Function.update_of_ne (Ne.symm h.1)]
      simp only [ih h.2]

variable {keyFile keyFile' : KeyFile} {groupName keyName group key defaultPath : String}
  {defaultKeyFile : KeyFile} {paths : List String}

/-- Before and after the change, a lookup first looks into the file that is changed, and then into
the same files. -/
theorem Rewritten.exists_rest (h : Rewritten disk disk' paths keyFile keyFile' groupName keyName)
    (defaultPath : String) (defaultKeyFile : KeyFile) :
    ∃ rest front path, ∀ group key, keyFile'.hasKey group key = keyFile.hasKey group key →
      fileForKey disk defaultPath defaultKeyFile group key paths =
          (if keyFile.hasKey group key then .ok (some (keyFile, path))
            else fileForKey disk defaultPath defaultKeyFile group key rest) ∧
        fileForKey disk' defaultPath defaultKeyFile group key paths =
          (if keyFile.hasKey group key then .ok (some (keyFile', front))
            else fileForKey disk defaultPath defaultKeyFile group key rest) := by
  obtain ⟨rest, before, path, hsplit, hmissing, hpath⟩ := h.exists_first
  obtain ⟨front, others, rfl, hnot, rfl⟩ := h.disk_eq
  refine ⟨rest, front, path, fun group key hkey => ⟨?_, ?_⟩⟩
  · rw [hsplit, fileForKey_missing hmissing, fileForKey, hpath]
  · rw [fileForKey, Function.update_self]
    dsimp only
    rw [hkey, fileForKey_update hnot]
    by_cases hfound : keyFile.hasKey group key = true
    · rw [if_pos hfound, if_pos hfound]
    · rw [if_neg hfound, if_neg hfound]
      -- the file itself may still be behind the one in front
      cases before with
      | nil =>
          obtain ⟨-, rfl⟩ := List.cons.inj hsplit
          rfl
      | cons _ before =>
          rw [List.cons_append] at hsplit
          obtain ⟨-, rfl⟩ := List.cons.inj hsplit
          rw [fileForKey_missing (List.forall_mem_cons.1 hmissing).2, fileForKey, hpath]
          dsimp only
          rw [if_neg hfound]

theorem Rewritten.hasKey_eq (h : Rewritten disk disk' paths keyFile keyFile' groupName keyName)
    (hne : group ≠ groupName ∨ key ≠ keyName) :
    keyFile'.hasKey group key = keyFile.hasKey group key := by
  rw [KeyFile.hasKey, KeyFile.hasKey, h.value_eq group key hne]

/-- **No other value changes.** -/
theorem Rewritten.fileValue_eq {α : Type} {parse : String → Option α}
    (h : Rewritten disk disk' config.paths keyFile keyFile' groupName keyName)
    (hne : group ≠ groupName ∨ key ≠ keyName) :
    config.fileValue disk' (fun file => file.getParsed parse) group key =
      config.fileValue disk (fun file => file.getParsed parse) group key := by
  obtain ⟨rest, front, path, hlookup⟩ :=
    h.exists_rest config.defaultPath config.defaultKeyFile
  obtain ⟨hbefore, hafter⟩ := hlookup group key (h.hasKey_eq hne)
  rw [fileValue, fileValue, hbefore, hafter]
  by_cases hkey : keyFile.hasKey group key = true
  · rw [if_pos hkey, if_pos hkey]
    dsimp only
    rw [KeyFile.getParsed_congr parse (h.value_eq group key hne) hkey]
  · rw [if_neg hkey, if_neg hkey]

/-- The first file that there is answers for the keys that it has. -/
theorem FirstFile.fileValue {α : Type} {parse : String → Option α} {a : α} {rest : List String}
    (h : FirstFile disk config.paths keyFile rest)
    (hvalue : keyFile.getParsed parse group key = .ok a) :
    config.fileValue disk (fun file => file.getParsed parse) group key = .ok a := by
  obtain ⟨before, path, hsplit, hmissing, hpath⟩ := h
  rw [ConfigFile.fileValue, hsplit, fileForKey_missing hmissing, fileForKey, hpath]
  dsimp only
  rw [if_pos (KeyFile.hasKey_of_getParsed hvalue)]
  dsimp only
  rw [hvalue]
  rfl

/-- The value that is changed is then the one of the file in front. -/
theorem Rewritten.fileValue_key {α : Type} {parse : String → Option α} {a : α}
    (h : Rewritten disk disk' config.paths keyFile keyFile' groupName keyName)
    (hvalue : keyFile'.getParsed parse groupName keyName = .ok a) :
    config.fileValue disk' (fun file => file.getParsed parse) groupName keyName = .ok a := by
  obtain ⟨front, rest, hpaths, -, rfl⟩ := h.disk_eq
  have hfirst : FirstFile (Function.update disk front (.wellFormed keyFile')) config.paths keyFile'
      rest := ⟨[], front, hpaths, nofun, Function.update_self ..⟩
  exact hfirst.fileValue hvalue

/-- **The groups stay the same.** -/
theorem Rewritten.groupContents_eq
    (h : Rewritten disk disk' config.paths keyFile keyFile' groupName keyName) :
    config.groupContents disk' = config.groupContents disk := by
  obtain ⟨rest, before, path, hsplit, hmissing, hpath⟩ := h.exists_first
  obtain ⟨front, others, hpaths, hnot, rfl⟩ := h.disk_eq
  have hadd : ∀ groups group, group ∈ (addGroups groups keyFile').getKeys ↔
      group ∈ (addGroups groups keyFile).getKeys := fun groups group => by
    rw [mem_addGroups, mem_addGroups, h.groups_eq]
  rw [groupContents, groupContents]
  conv_rhs => rw [hsplit, groupsOf_missing hmissing, groupsOf, hpath]
  rw [hpaths, groupsOf, Function.update_self]
  dsimp only
  rw [groupsOf_update hnot]
  rw [hsplit] at hpaths
  cases before with
  | nil =>
      obtain ⟨-, rfl⟩ := List.cons.inj hpaths
      exact groupsOf_congr (hadd _)
  | cons _ before =>
      rw [List.cons_append] at hpaths
      obtain ⟨-, rfl⟩ := List.cons.inj hpaths
      -- the groups of the file itself are added to those of the one in front
      rw [groupsOf_missing (List.forall_mem_cons.1 hmissing).2, groupsOf, hpath]
      refine groupsOf_congr fun group => ?_
      rw [mem_addGroups, hadd, mem_addGroups]
      tauto

end ConfigFile

end Euu
