import EosUpdater.GLib.Unsigned
import EosUpdater.Util.Contents

/-!
# The configuration of the update server

`config.c` of the update server: `eus_read_config_file` collects the sections `[Repository N]` of
all configuration files. A section is a group, known by its name, so that one file can set its path
and another one its remote; but repositories have numbers, and a number can be written with zeros in
front.

What is returned depends on the contents of the files only, and not on the order in which they are
loaded and cached (`readConfig_eq_readContents`). Where the function succeeds there is one
configuration for each of these groups, no two of them with the same number
(`readsAll_of_readConfigFile`). It ought to fail where a group has no number, the number of another
group, or no path or remote in any file. But a lookup of a key that is in no file does not fail, it
aborts, so this is so exactly if the groups, in their order, are stopped by an error before such a
lookup (`readConfigFile_repositories_iff`).
-/

namespace Eus

open Euu GLib

/-! ### The functions -/

/-- `EusRepoConfig`. -/
structure RepoConfig where
  index : UInt16
  path : String
  remoteName : String
deriving DecidableEq, Repr

/-- `repository_configs_contains_index`. -/
def repositoryConfigsContainsIndex (repositoryConfigs : List RepoConfig) (idx : UInt16) : Bool :=
  repositoryConfigs.any fun config => config.index = idx

/-- The group is that of a repository: its name starts with `REPOSITORY_GROUP`. -/
def isRepositoryGroup (group : String) : Bool := "Repository ".toList.isPrefixOf group.toList

/-- What stands behind `REPOSITORY_GROUP` in the name of a group. -/
def repositorySuffix (group : String) : String :=
  String.ofList (group.toList.drop "Repository ".length)

/-- `G_KEY_FILE_ERROR_INVALID_VALUE`. -/
def invalidValue (message : String) : Failure := .error ⟨ConfigFile.keyFileErrorCode 5, message⟩

variable (disk : String → ConfigContents)

/-- The loop of `eus_read_config_file` over the groups. -/
def readRepositories :
    List String → List RepoConfig → ConfigFile → Except Failure (List RepoConfig) × ConfigFile
  | [], repositoryConfigs, config => (.ok repositoryConfigs, config)
  | group :: groups, repositoryConfigs, config =>
      if ¬ isRepositoryGroup group then readRepositories groups repositoryConfigs config
      else
        match asciiStringToUnsigned (repositorySuffix group) 0 65535 with
        | .error localError =>
            (.error (invalidValue ("Invalid group name " ++ group ++ ": " ++ localError.message)),
              config)
        | .ok index64 =>
            let index16 := UInt16.ofNat index64
            match config.getString disk group "Path" with
            | (.error e, config) => (.error e, config)
            | (.ok repositoryPath, config) =>
                match config.getString disk group "RemoteName" with
                | (.error e, config) => (.error e, config)
                | (.ok remoteName, config) =>
                    if repositoryConfigsContainsIndex repositoryConfigs index16 then
                      (.error (invalidValue ("Duplicate group name: " ++ group)), config)
                    else
                      readRepositories groups
                        (repositoryConfigs ++ [⟨index16, repositoryPath, remoteName⟩]) config

/-- `eus_read_config_file` with a configuration. -/
def readConfig (config : ConfigFile) : Except Failure (Bool × List RepoConfig) :=
  match config.getBoolean disk "Local Network Updates" "AdvertiseUpdates" with
  | (.error e, _) => .error e
  | (.ok advertiseUpdates, config) =>
      match config.getGroups disk with
      | (.error e, _) => .error (.error e)
      | (.ok groups, config) =>
          match (readRepositories disk groups [] config).1 with
          | .error e => .error e
          | .ok repositoryConfigs => .ok (advertiseUpdates, repositoryConfigs)

/-- The directories that the build chooses. -/
structure Directories where
  sysconfdir : String
  datadir : String
  installPrefix : String

/-- The configuration files, with one that may be given to be used instead. -/
def Directories.configPaths (dirs : Directories) : Option String → List String
  | some configFilePath => [configFilePath, dirs.datadir ++ "/eos-updater/eos-update-server.conf"]
  | none =>
      [dirs.sysconfdir ++ "/eos-updater/eos-update-server.conf",
        dirs.installPrefix ++ "/local/share/eos-updater/eos-update-server.conf",
        dirs.datadir ++ "/eos-updater/eos-update-server.conf"]

/-- `eus_read_config_file`. The default file is a resource. -/
def readConfigFile (dirs : Directories) (defaultKeyFile : KeyFile)
    (configFilePath : Option String) : Except Failure (Bool × List RepoConfig) :=
  readConfig disk (ConfigFile.new (dirs.configPaths configFilePath)
    "/com/endlessm/Updater/config/eos-update-server.conf" defaultKeyFile)

/-! ### From the contents of the files -/

variable {disk disk' : String → ConfigContents} {config config' : ConfigFile}

/-- One repository, from the contents of the files. -/
def repositoryContents (disk : String → ConfigContents) (config : ConfigFile) (group : String)
    (repositoryConfigs : List RepoConfig) : Except Failure RepoConfig :=
  match asciiStringToUnsigned (repositorySuffix group) 0 65535 with
  | .error localError =>
      .error (invalidValue ("Invalid group name " ++ group ++ ": " ++ localError.message))
  | .ok index64 =>
      match config.fileValue disk KeyFile.getString group "Path" with
      | .error e => .error e
      | .ok repositoryPath =>
          match config.fileValue disk KeyFile.getString group "RemoteName" with
          | .error e => .error e
          | .ok remoteName =>
              if repositoryConfigsContainsIndex repositoryConfigs (UInt16.ofNat index64) then
                .error (invalidValue ("Duplicate group name: " ++ group))
              else .ok ⟨UInt16.ofNat index64, repositoryPath, remoteName⟩

/-- The loop over the groups, from the contents of the files. -/
def readRepositoryContents (disk : String → ConfigContents) (config : ConfigFile) :
    List String → List RepoConfig → Except Failure (List RepoConfig)
  | [], repositoryConfigs => .ok repositoryConfigs
  | group :: groups, repositoryConfigs =>
      if ¬ isRepositoryGroup group then readRepositoryContents disk config groups repositoryConfigs
      else
        match repositoryContents disk config group repositoryConfigs with
        | .error e => .error e
        | .ok repo => readRepositoryContents disk config groups (repositoryConfigs ++ [repo])

/-- The configuration, from the contents of the files. -/
def readContents (disk : String → ConfigContents) (config : ConfigFile) :
    Except Failure (Bool × List RepoConfig) :=
  match config.fileValue disk KeyFile.getBoolean "Local Network Updates" "AdvertiseUpdates" with
  | .error e => .error e
  | .ok advertiseUpdates =>
      match config.groupContents disk with
      | .error e => .error (.error e)
      | .ok groups =>
          match readRepositoryContents disk config groups [] with
          | .error e => .error e
          | .ok repositoryConfigs => .ok (advertiseUpdates, repositoryConfigs)

/-! ### The cache makes no difference -/

/-- The repositories read are those of the layers on the disk. -/
theorem readRepositories_fst (groups : List String) (repositoryConfigs : List RepoConfig)
    (hsame : ConfigFile.SameLayers config config') (hcached : config'.Cached disk) :
    (readRepositories disk groups repositoryConfigs config').1 =
      readRepositoryContents disk config groups repositoryConfigs := by
  induction groups generalizing repositoryConfigs config' with
  | nil => rfl
  | cons group groups ih =>
      rw [readRepositories, readRepositoryContents]
      by_cases hgroup : isRepositoryGroup group = true
      · rw [if_neg (not_not.2 hgroup), if_neg (not_not.2 hgroup), repositoryContents]
        cases asciiStringToUnsigned (repositorySuffix group) 0 65535 with
        | error localError => rfl
        | ok index64 =>
            obtain ⟨config₁, hpath, hfirst⟩ :=
              ConfigFile.getFrom_contents KeyFile.getString hsame hcached group "Path"
            simp only [ConfigFile.getString, hpath]
            cases hpathValue : config.fileValue disk KeyFile.getString group "Path" with
            | error e => rfl
            | ok path =>
                -- each lookup leaves the layers as they are, and only fills the cache
                obtain ⟨hsame₁, hcached₁⟩ := hfirst path hpathValue
                obtain ⟨config₂, hremote, hsecond⟩ := ConfigFile.getFrom_contents
                  KeyFile.getString hsame₁ hcached₁ group "RemoteName"
                simp only [hremote]
                cases hremoteValue : config.fileValue disk KeyFile.getString group
                    "RemoteName" with
                | error e => rfl
                | ok remoteName =>
                    obtain ⟨hsame₂, hcached₂⟩ := hsecond remoteName hremoteValue
                    dsimp only
                    split
                    · rfl
                    · exact ih _ hsame₂ hcached₂
      · rw [if_pos hgroup, if_pos hgroup]
        exact ih _ hsame hcached

/-- **The configuration is that of the contents of the files.** -/
theorem readConfig_eq_readContents (h : config.Cached disk) :
    readConfig disk config = readContents disk config := by
  obtain ⟨config₁, hadvertise, hfirst⟩ := ConfigFile.getFrom_contents KeyFile.getBoolean
    (ConfigFile.SameLayers.refl config) h "Local Network Updates" "AdvertiseUpdates"
  rw [readConfig, readContents, ConfigFile.getBoolean, hadvertise]
  cases hvalue : config.fileValue disk KeyFile.getBoolean "Local Network Updates"
      "AdvertiseUpdates" with
  | error e => rfl
  | ok advertiseUpdates =>
      obtain ⟨hsame₁, hcached₁⟩ := hfirst advertiseUpdates hvalue
      obtain ⟨result, config₂, hgroups, hsame₂, hlisted⟩ :=
        ConfigFile.getGroups_of_cached hcached₁
      have hcontents : result = config.groupContents disk := by
        have hfst := ConfigFile.getGroups_fst hcached₁
        rw [hgroups, ConfigFile.groupContents, hsame₁.defaultKeyFile, hsame₁.paths] at hfst
        exact hfst
      simp only [hgroups, ← hcontents]
      cases result with
      | error e => rfl
      | ok groups =>
          obtain ⟨hcached₂, -⟩ := hlisted groups rfl
          have hrepositories := readRepositories_fst groups [] (hsame₁.trans hsame₂) hcached₂
          cases hresult : readRepositoryContents disk config groups [] with
          | error e => simp only [hrepositories, hresult]
          | ok configs => simp only [hrepositories, hresult]

/-! ### What is read -/

variable {layers : List KeyFile} {group other : String} {read : RepoConfig}
  {configs configs' : List RepoConfig} {groups done : List String}

/-- The text is that of the first layer that has the key. -/
def FirstString (layers : List KeyFile) (group key value : String) : Prop :=
  ConfigFile.FirstValue KeyFile.getString layers group key value

/-- The number that the suffix of a group denotes, if this is a number. -/
def repositoryNumber (group : String) : ℕ := Nat.ofDigitChars 10 (repositorySuffix group).toList 0

/-- The suffix of a group is a number that a repository can have. -/
def IsNumbered (group : String) : Prop :=
  IsDecimal (repositorySuffix group).toList ∧ repositoryNumber group ≤ 65535

/-- The configuration is that of the group: its index is the number in the name of the group. -/
structure IsConfigOf (layers : List KeyFile) (group : String) (config : RepoConfig) : Prop where
  decimal : IsDecimal (repositorySuffix group).toList
  index : repositoryNumber group = config.index.toNat
  path : FirstString layers group "Path" config.path
  remoteName : FirstString layers group "RemoteName" config.remoteName

/-- The group of a repository in the union of all layers. -/
def IsRepository (layers : List KeyFile) (group : String) : Prop :=
  isRepositoryGroup group = true ∧ ∃ layer ∈ layers, group ∈ layer.getGroups

/-- What the configurations of the groups are that the loop has read. -/
structure Reads (layers : List KeyFile) (groups : List String) (configs : List RepoConfig) :
    Prop where
  entries : List.Forall₂ (IsConfigOf layers) (groups.filter isRepositoryGroup) configs
  nodup : (configs.map (·.index)).Nodup

/-- The configurations are those of the repositories in the union of the layers, one for each group
and no two with one index. -/
def ReadsAll (layers : List KeyFile) (configs : List RepoConfig) : Prop :=
  ∃ groups : List String, groups.Nodup ∧ (∀ group, group ∈ groups ↔ IsRepository layers group) ∧
    List.Forall₂ (IsConfigOf layers) groups configs ∧ (configs.map (·.index)).Nodup

/-- The group of a repository cannot be read: its suffix is no number in range, or that of another
group in another spelling, or a key of it is nowhere. -/
def Unusable (layers : List KeyFile) (group : String) : Prop :=
  ¬ IsNumbered group ∨
    (∃ other, IsRepository layers other ∧ other ≠ group ∧
      repositoryNumber other = repositoryNumber group) ∨
    ConfigFile.Missing layers group "Path" ∨ ConfigFile.Missing layers group "RemoteName"

/-- The number of the group is in order, and of its keys, which are looked up in turn, the first one
that is not found with a value is in no layer. -/
def LooksUpMissing (layers : List KeyFile) (group : String) : Prop :=
  IsNumbered group ∧
    (ConfigFile.Missing layers group "Path" ∨
      (∃ path, FirstString layers group "Path" path) ∧
        ConfigFile.Missing layers group "RemoteName")

/-- All groups in front of one of a repository can be read, and for this one a key is looked up that
is in no layer. -/
def GetsToMissing (layers : List KeyFile) (groups : List String) : Prop :=
  ∃ before group after configs, groups = before ++ group :: after ∧
    isRepositoryGroup group = true ∧ Reads layers before configs ∧ LooksUpMissing layers group

/-! ### One repository -/

/-- A group that is read as a repository has a number. -/
theorem IsConfigOf.isNumbered (h : IsConfigOf layers group read) : IsNumbered group := by
  refine ⟨h.decimal, ?_⟩
  have hlt := read.index.toNat_lt
  rw [h.index]
  omega

/-- The suffix that is a number in range is read as this number. -/
theorem asciiStringToUnsigned_suffix {index64 : ℕ} :
    asciiStringToUnsigned (repositorySuffix group) 0 65535 = .ok index64 ↔
      IsNumbered group ∧ repositoryNumber group = index64 := by
  rw [asciiStringToUnsigned_eq_ok_iff (by decide), IsNumbered, repositoryNumber]
  constructor
  · rintro ⟨hdecimal, hvalue, -, hmax⟩
    exact ⟨⟨hdecimal, hvalue ▸ hmax⟩, hvalue⟩
  · rintro ⟨⟨hdecimal, hmax⟩, hvalue⟩
    exact ⟨hdecimal, hvalue, Nat.zero_le _, hvalue ▸ hmax⟩

theorem IsNumbered.toNat_ofNat (h : IsNumbered group) :
    (UInt16.ofNat (repositoryNumber group)).toNat = repositoryNumber group :=
  UInt16.toNat_ofNat_of_lt' (show repositoryNumber group < 2 ^ 16 by have := h.2; omega)

/-- **One repository** is read if its configuration in the layers has a new index. -/
theorem repositoryContents_eq_ok_iff
    (hlayers : Layers disk config.paths config.defaultKeyFile layers) :
    repositoryContents disk config group configs = .ok read ↔
      IsConfigOf layers group read ∧
        ¬ repositoryConfigsContainsIndex configs read.index = true := by
  simp only [repositoryContents, ConfigFile.fileValue_of_layers _ hlayers]
  constructor
  · intro h
    split at h
    · cases h
    next index64 hindex =>
    split at h
    · cases h
    next path hpath =>
    split at h
    · cases h
    next remoteName hremote =>
    split at h
    · cases h
    next hnew =>
    cases h
    obtain ⟨hnumbered, rfl⟩ := asciiStringToUnsigned_suffix.1 hindex
    exact ⟨⟨hnumbered.1, hnumbered.toNat_ofNat.symm, ConfigFile.layerValue_eq_ok_iff.1 hpath,
      ConfigFile.layerValue_eq_ok_iff.1 hremote⟩, hnew⟩
  · rintro ⟨hconfig, hnew⟩
    -- the number fits its sixteen bits, so the index read is the number
    have hindex : UInt16.ofNat (repositoryNumber group) = read.index := by
      rw [← UInt16.toNat_inj, hconfig.isNumbered.toNat_ofNat, hconfig.index]
    rw [asciiStringToUnsigned_suffix.2 ⟨hconfig.isNumbered, rfl⟩]
    dsimp only
    rw [ConfigFile.layerValue_eq_ok_iff.2 hconfig.path,
      ConfigFile.layerValue_eq_ok_iff.2 hconfig.remoteName, hindex]
    exact if_neg hnew

/-- The process aborts in a lookup of a key that is in no layer. -/
theorem repositoryContents_eq_aborted_iff
    (hlayers : Layers disk config.paths config.defaultKeyFile layers) :
    repositoryContents disk config group configs = .error .aborted ↔
      LooksUpMissing layers group := by
  simp only [repositoryContents, ConfigFile.fileValue_of_layers _ hlayers]
  constructor
  · intro h
    split at h
    · cases h
    next index64 hindex =>
    obtain ⟨hnumbered, -⟩ := asciiStringToUnsigned_suffix.1 hindex
    split at h
    · next e hpath =>
      cases h
      exact ⟨hnumbered, Or.inl (ConfigFile.layerValue_eq_aborted_iff.1 hpath)⟩
    next path hpath =>
    split at h
    · next e hremote =>
      cases h
      exact ⟨hnumbered, Or.inr ⟨⟨path, ConfigFile.layerValue_eq_ok_iff.1 hpath⟩,
        ConfigFile.layerValue_eq_aborted_iff.1 hremote⟩⟩
    · split at h <;> cases h
  · rintro ⟨hnumbered, hpath | ⟨⟨path, hpath⟩, hremote⟩⟩
    · rw [asciiStringToUnsigned_suffix.2 ⟨hnumbered, rfl⟩]
      dsimp only
      rw [ConfigFile.layerValue_eq_aborted_iff.2 hpath]
    · rw [asciiStringToUnsigned_suffix.2 ⟨hnumbered, rfl⟩]
      dsimp only
      rw [ConfigFile.layerValue_eq_ok_iff.2 hpath, ConfigFile.layerValue_eq_aborted_iff.2 hremote]

/-! ### All of them -/

/-- An index is taken if a repository has it. -/
theorem repositoryConfigsContainsIndex_iff {idx : UInt16} :
    repositoryConfigsContainsIndex configs idx = true ↔ idx ∈ configs.map (·.index) := by
  simp [repositoryConfigsContainsIndex]

/-- One group more, which is not that of a repository. -/
theorem Reads.skip (h : Reads layers groups configs) (hgroup : ¬ isRepositoryGroup group = true) :
    Reads layers (groups ++ [group]) configs where
  entries := by simpa [hgroup] using h.entries
  nodup := h.nodup

/-- One repository more, with a number that none before it has. -/
theorem Reads.concat (h : Reads layers groups configs) (hgroup : isRepositoryGroup group = true)
    (hconfig : IsConfigOf layers group read)
    (hnew : ¬ repositoryConfigsContainsIndex configs read.index = true) :
    Reads layers (groups ++ [group]) (configs ++ [read]) where
  entries := by
    rw [List.filter_append]
    refine List.rel_append h.entries ?_
    simpa [hgroup] using hconfig
  nodup := by
    rw [List.map_append, List.nodup_append]
    refine ⟨h.nodup, List.nodup_singleton _, ?_⟩
    intro idx hidx idx' hidx' heq
    rw [repositoryConfigsContainsIndex_iff] at hnew
    rw [List.map_singleton, List.mem_singleton] at hidx'
    exact hnew (hidx' ▸ heq ▸ hidx)

theorem Reads.nil : Reads layers [] [] := ⟨List.Forall₂.nil, List.nodup_nil⟩

/-- **The loop.** If it comes to its end, it has read all groups. -/
theorem reads_of_readRepositoryContents
    (hlayers : Layers disk config.paths config.defaultKeyFile layers)
    (hdone : Reads layers done configs)
    (h : readRepositoryContents disk config groups configs = .ok configs') :
    Reads layers (done ++ groups) configs' := by
  induction groups generalizing done configs with
  | nil =>
      cases h
      rwa [List.append_nil]
  | cons group groups ih =>
      rw [List.append_cons]
      rw [readRepositoryContents] at h
      split at h
      · next hgroup => exact ih (hdone.skip hgroup) h
      next hgroup =>
      split at h
      · cases h
      next read hread =>
      obtain ⟨hconfig, hnew⟩ := (repositoryContents_eq_ok_iff hlayers).1 hread
      exact ih (hdone.concat (not_not.1 hgroup) hconfig hnew) h

/-- **Where the loop aborts.** The groups in front of that of the lookup have been read. -/
theorem exists_of_readRepositoryContents_aborted
    (hlayers : Layers disk config.paths config.defaultKeyFile layers)
    (hdone : Reads layers done configs)
    (h : readRepositoryContents disk config groups configs = .error .aborted) :
    ∃ before group after configs', groups = before ++ group :: after ∧
      isRepositoryGroup group = true ∧ Reads layers (done ++ before) configs' ∧
      LooksUpMissing layers group := by
  induction groups generalizing done configs with
  | nil => cases h
  | cons group groups ih =>
      -- a group that is got past is put in front of the groups before the lookup
      have hpast {configs : List RepoConfig} (hdone : Reads layers (done ++ [group]) configs)
          (h : readRepositoryContents disk config groups configs = .error .aborted) :
          ∃ before group' after configs', group :: groups = before ++ group' :: after ∧
            isRepositoryGroup group' = true ∧ Reads layers (done ++ before) configs' ∧
            LooksUpMissing layers group' := by
        obtain ⟨before, group', after, configs', rfl, hgroup', hreads, hmissing⟩ := ih hdone h
        rw [← List.append_cons] at hreads
        exact ⟨group :: before, group', after, configs', rfl, hgroup', hreads, hmissing⟩
      rw [readRepositoryContents] at h
      split at h
      · next hgroup => exact hpast (hdone.skip hgroup) h
      next hgroup =>
      split at h
      · next e hread =>
        cases h
        refine ⟨[], group, groups, configs, rfl, not_not.1 hgroup, ?_,
          (repositoryContents_eq_aborted_iff hlayers).1 hread⟩
        rwa [List.append_nil]
      next read hread =>
      obtain ⟨hconfig, hnew⟩ := (repositoryContents_eq_ok_iff hlayers).1 hread
      exact hpast (hdone.concat (not_not.1 hgroup) hconfig hnew) h

/-- Groups that can be read are got past. -/
theorem readRepositoryContents_append {before : List String}
    (hlayers : Layers disk config.paths config.defaultKeyFile layers)
    (hentries : List.Forall₂ (IsConfigOf layers) (before.filter isRepositoryGroup) configs')
    (hnodup : ((configs ++ configs').map (·.index)).Nodup) :
    readRepositoryContents disk config (before ++ groups) configs =
      readRepositoryContents disk config groups (configs ++ configs') := by
  induction before generalizing configs configs' with
  | nil =>
      cases hentries
      rw [List.nil_append, List.append_nil]
  | cons group before ih =>
      rw [List.cons_append, readRepositoryContents]
      by_cases hgroup : isRepositoryGroup group = true
      · rw [List.filter_cons_of_pos hgroup] at hentries
        obtain ⟨read, rest, hconfig, hrest, rfl⟩ := List.forall₂_cons_left_iff.1 hentries
        rw [List.append_cons] at hnodup
        have hnew : ¬ repositoryConfigsContainsIndex configs read.index = true := by
          have hfirst := (List.nodup_append.1 (List.map_append ▸ hnodup)).1
          rw [List.map_append] at hfirst
          rw [repositoryConfigsContainsIndex_iff]
          exact fun hmem => (List.nodup_append.1 hfirst).2.2 _ hmem _ (by simp) rfl
        rw [if_neg (not_not.2 hgroup),
          (repositoryContents_eq_ok_iff hlayers).2 ⟨hconfig, hnew⟩, List.append_cons]
        exact ih hrest hnodup
      · rw [List.filter_cons_of_neg hgroup] at hentries
        rw [if_pos hgroup]
        exact ih hentries hnodup

/-- The loop aborts exactly if it gets to a repository with a key that is in no layer. -/
theorem readRepositoryContents_eq_aborted_iff
    (hlayers : Layers disk config.paths config.defaultKeyFile layers) :
    readRepositoryContents disk config groups [] = .error .aborted ↔
      GetsToMissing layers groups := by
  refine ⟨exists_of_readRepositoryContents_aborted hlayers Reads.nil, ?_⟩
  rintro ⟨before, group, after, configs, rfl, hgroup, hreads, hmissing⟩
  have hpast : readRepositoryContents disk config (before ++ group :: after) [] =
      readRepositoryContents disk config (group :: after) ([] ++ configs) :=
    readRepositoryContents_append hlayers hreads.entries hreads.nodup
  rw [hpast, readRepositoryContents, if_neg (not_not.2 hgroup),
    (repositoryContents_eq_aborted_iff hlayers).2 hmissing]

private theorem exists_of_forall₂ {α β : Type} {R : α → β → Prop} {l : List α} {l' : List β}
    (h : List.Forall₂ R l l') {a : α} (ha : a ∈ l) : ∃ b ∈ l', R a b := by
  induction h with
  | nil => cases ha
  | cons hab _ ih =>
      rcases List.mem_cons.1 ha with rfl | ha
      · exact ⟨_, List.mem_cons_self, hab⟩
      · obtain ⟨b, hb, hR⟩ := ih ha
        exact ⟨b, List.mem_cons_of_mem _ hb, hR⟩

/-- Groups with one number are one group. -/
theorem Reads.number_inj (h : Reads layers groups configs)
    (hgroup : group ∈ groups.filter isRepositoryGroup)
    (hother : other ∈ groups.filter isRepositoryGroup)
    (hsame : repositoryNumber group = repositoryNumber other) : group = other := by
  have hnumbers : (groups.filter isRepositoryGroup).map repositoryNumber =
      (configs.map (·.index)).map UInt16.toNat := by
    rw [List.map_map, ← List.forall₂_eq_eq_eq, List.forall₂_map_left_iff,
      List.forall₂_map_right_iff]
    exact h.entries.imp fun _ _ hconfig => hconfig.index
  have hnodup : ((groups.filter isRepositoryGroup).map repositoryNumber).Nodup := by
    rw [hnumbers]
    exact h.nodup.map fun _ _ heq => UInt16.toNat_inj.1 heq
  exact List.inj_on_of_nodup_map hnodup hgroup hother hsame

/-- The groups of all layers, in the order in which they are listed. -/
structure InOrder (layers : List KeyFile) (groups : List String) : Prop where
  ascending : groups.Pairwise (· < ·)
  mem_iff : ∀ group, group ∈ groups ↔ ∃ layer ∈ layers, group ∈ layer.getGroups

/-- There is one order. -/
theorem InOrder.unique {groups' : List String} (h : InOrder layers groups)
    (h' : InOrder layers groups') : groups = groups' := by
  have hperm : groups.Perm groups' := (List.perm_ext_iff_of_nodup (h.ascending.imp ne_of_lt)
    (h'.ascending.imp ne_of_lt)).2 fun group => (h.mem_iff group).trans (h'.mem_iff group).symm
  exact hperm.eq_of_pairwise (fun _ _ _ _ hlt hgt => absurd hgt hlt.asymm) h.ascending h'.ascending

/-- The groups of repositories are those of the layers. -/
theorem InOrder.mem_filter (h : InOrder layers groups) :
    group ∈ groups.filter isRepositoryGroup ↔ IsRepository layers group := by
  rw [List.mem_filter, h.mem_iff, and_comm, IsRepository]

/-- What has been read can be used. -/
theorem Reads.not_unusable (h : Reads layers groups configs) (hgroups : InOrder layers groups)
    (hgroup : IsRepository layers group) : ¬ Unusable layers group := by
  obtain ⟨config, -, hconfig⟩ := exists_of_forall₂ h.entries (hgroups.mem_filter.2 hgroup)
  rintro (hnumber | ⟨other, hother, hne, hsame⟩ | hpath | hremote)
  · exact hnumber hconfig.isNumbered
  · exact hne (h.number_inj (hgroups.mem_filter.2 hother) (hgroups.mem_filter.2 hgroup) hsame)
  · exact hconfig.path.not_missing hpath
  · exact hconfig.remoteName.not_missing hremote

/-- Reading the groups in order reads all repositories. -/
theorem Reads.readsAll (h : Reads layers groups configs) (hgroups : InOrder layers groups) :
    ReadsAll layers configs :=
  ⟨groups.filter isRepositoryGroup, (hgroups.ascending.imp ne_of_lt).filter _,
    fun _ => hgroups.mem_filter, h.entries, h.nodup⟩

/-! ### The configuration -/

section File

variable (disk : String → ConfigContents) (dirs : Directories) (defaultKeyFile : KeyFile)
  (configFilePath : Option String)

/-- **The repositories are read completely and without clashes.** Where the configuration is read,
all files can be loaded and all repositories of their union are read; where one of these cannot be
used, the function fails. -/
structure ReadsRepositories : Prop where
  complete : ∀ advertise configs,
    readConfigFile disk dirs defaultKeyFile configFilePath = .ok (advertise, configs) →
      ∃ layers, Layers disk (dirs.configPaths configFilePath) defaultKeyFile layers ∧
        ReadsAll layers configs
  fails : ∀ layers, Layers disk (dirs.configPaths configFilePath) defaultKeyFile layers →
    (∃ group, IsRepository layers group ∧ Unusable layers group) →
      ∃ e, readConfigFile disk dirs defaultKeyFile configFilePath = .error (.error e)

/-- There is a repository that cannot be used, and a key that is in no layer is looked up before an
error has stopped the function: that whether to advertise updates, or one of a repository, where all
repositories in front of it have been read. -/
def AbortsOnMissing : Prop :=
  ∃ layers groups, Layers disk (dirs.configPaths configFilePath) defaultKeyFile layers ∧
    InOrder layers groups ∧
    ((ConfigFile.Missing layers "Local Network Updates" "AdvertiseUpdates" ∧
        ∃ group, IsRepository layers group ∧ Unusable layers group) ∨
      (∃ advertise, ConfigFile.FirstValue KeyFile.getBoolean layers "Local Network Updates"
          "AdvertiseUpdates" advertise) ∧
        GetsToMissing layers groups)

variable {disk dirs defaultKeyFile configFilePath}

/-- The function, with layers. -/
theorem readConfigFile_of_layers
    (hlayers : Layers disk (dirs.configPaths configFilePath) defaultKeyFile layers) :
    ∃ config groups, Layers disk config.paths config.defaultKeyFile layers ∧
      InOrder layers groups ∧
      readConfigFile disk dirs defaultKeyFile configFilePath =
        match ConfigFile.layerValue KeyFile.getBoolean layers "Local Network Updates"
          "AdvertiseUpdates" with
        | .error e => .error e
        | .ok advertiseUpdates =>
            match readRepositoryContents disk config groups [] with
            | .error e => .error e
            | .ok repositoryConfigs => .ok (advertiseUpdates, repositoryConfigs) := by
  rw [readConfigFile]
  generalize hnew : ConfigFile.new (dirs.configPaths configFilePath)
    "/com/endlessm/Updater/config/eos-update-server.conf" defaultKeyFile = config
  have hlayers' : Layers disk config.paths config.defaultKeyFile layers := by rwa [← hnew]
  have hcached : config.Cached disk := hnew ▸ ConfigFile.cached_new _ _ _
  obtain ⟨groups, hgroups, hascending, hmem⟩ := ConfigFile.groupContents_of_layers hlayers'
  refine ⟨config, groups, hlayers', ⟨hascending, hmem⟩, ?_⟩
  rw [readConfig_eq_readContents hcached, readContents, ConfigFile.fileValue_of_layers _ hlayers',
    hgroups]

/-- Where there is a result, there are layers. -/
theorem exists_layers_of_readConfigFile {result : Bool × List RepoConfig}
    (h : readConfigFile disk dirs defaultKeyFile configFilePath = .ok result) :
    ∃ layers, Layers disk (dirs.configPaths configFilePath) defaultKeyFile layers := by
  rw [readConfigFile, readConfig_eq_readContents (ConfigFile.cached_new _ _ _), readContents] at h
  split at h
  · cases h
  split at h
  · cases h
  next groups hgroups =>
  exact ConfigFile.exists_layers_of_groupContents hgroups

/-- Where the configuration is read, all repositories are, and each of them can be used. -/
theorem readConfigFile_eq_ok {advertise : Bool}
    (hlayers : Layers disk (dirs.configPaths configFilePath) defaultKeyFile layers)
    (h : readConfigFile disk dirs defaultKeyFile configFilePath = .ok (advertise, configs)) :
    ReadsAll layers configs ∧ ∀ group, IsRepository layers group → ¬ Unusable layers group := by
  obtain ⟨config, groups, hlayers', hgroups, hresult⟩ := readConfigFile_of_layers hlayers
  rw [hresult] at h
  split at h
  · cases h
  split at h
  · cases h
  next repositoryConfigs hread =>
  cases h
  have hreads : Reads layers ([] ++ groups) configs :=
    reads_of_readRepositoryContents hlayers' Reads.nil hread
  exact ⟨hreads.readsAll hgroups, fun group => hreads.not_unusable hgroups⟩

/-- A configuration that can be read has been read in full. -/
theorem readsAll_of_readConfigFile {advertise : Bool}
    (h : readConfigFile disk dirs defaultKeyFile configFilePath = .ok (advertise, configs)) :
    ∃ layers, Layers disk (dirs.configPaths configFilePath) defaultKeyFile layers ∧
      ReadsAll layers configs := by
  obtain ⟨layers, hlayers⟩ := exists_layers_of_readConfigFile h
  exact ⟨layers, hlayers, (readConfigFile_eq_ok hlayers h).1⟩

/-- **Where the function aborts**: in the first lookup, or in one of those of the loop. -/
theorem readConfigFile_eq_aborted_iff
    (hlayers : Layers disk (dirs.configPaths configFilePath) defaultKeyFile layers)
    (hgroups : InOrder layers groups) :
    readConfigFile disk dirs defaultKeyFile configFilePath = .error .aborted ↔
      ConfigFile.Missing layers "Local Network Updates" "AdvertiseUpdates" ∨
        (∃ advertise, ConfigFile.FirstValue KeyFile.getBoolean layers "Local Network Updates"
            "AdvertiseUpdates" advertise) ∧
          GetsToMissing layers groups := by
  obtain ⟨config, groups', hlayers', hgroups', hresult⟩ := readConfigFile_of_layers hlayers
  obtain rfl := hgroups.unique hgroups'
  have hadvertise : ConfigFile.layerValue KeyFile.getBoolean layers "Local Network Updates"
      "AdvertiseUpdates" = .error .aborted ↔
        ConfigFile.Missing layers "Local Network Updates" "AdvertiseUpdates" :=
    ConfigFile.layerValue_eq_aborted_iff
  rw [hresult, ← readRepositoryContents_eq_aborted_iff hlayers', ← hadvertise]
  simp only [← ConfigFile.layerValue_eq_ok_iff]
  cases ConfigFile.layerValue KeyFile.getBoolean layers "Local Network Updates"
      "AdvertiseUpdates" with
  | error e => simp
  | ok advertiseUpdates => cases readRepositoryContents disk config groups [] <;> simp

/-- A repository whose keys are missing cannot be used. -/
theorem LooksUpMissing.unusable (h : LooksUpMissing layers group) : Unusable layers group :=
  h.2.elim (fun hpath => Or.inr (Or.inr (Or.inl hpath)))
    fun hremote => Or.inr (Or.inr (Or.inr hremote.2))

end File

/-- **When repositories are read as they ought to be.** The function succeeds with all of them, and
fails where one cannot be used, exactly if no key that is in no layer is looked up first. -/
theorem readConfigFile_repositories_iff (disk : String → ConfigContents) (dirs : Directories)
    (defaultKeyFile : KeyFile) (configFilePath : Option String) :
    ReadsRepositories disk dirs defaultKeyFile configFilePath ↔
      ¬ AbortsOnMissing disk dirs defaultKeyFile configFilePath := by
  constructor
  · rintro hreads ⟨layers, groups, hlayers, hgroups, hcase⟩
    have hunusable : ∃ group, IsRepository layers group ∧ Unusable layers group := by
      rcases hcase with ⟨-, hunusable⟩ | ⟨-, before, group, after, -, rfl, hgroup, -, hmissing⟩
      · exact hunusable
      · exact ⟨group, ⟨hgroup, (hgroups.mem_iff group).1 (by simp)⟩, hmissing.unusable⟩
    have haborted := (readConfigFile_eq_aborted_iff hlayers hgroups).2
      (hcase.imp And.left fun hloop => hloop)
    obtain ⟨e, herror⟩ := hreads.fails layers hlayers hunusable
    rw [haborted] at herror
    cases herror
  · intro hnot
    refine ⟨fun advertise configs => readsAll_of_readConfigFile, fun layers hlayers hunusable => ?_⟩
    cases hresult : readConfigFile disk dirs defaultKeyFile configFilePath with
    | ok result =>
        obtain ⟨group, hgroup, hgroupUnusable⟩ := hunusable
        exact absurd hgroupUnusable ((readConfigFile_eq_ok hlayers hresult).2 group hgroup)
    | error failure =>
        cases failure with
        | error e => exact ⟨e, rfl⟩
        | aborted =>
            obtain ⟨-, groups, -, hgroups, -⟩ := readConfigFile_of_layers hlayers
            have hcase := (readConfigFile_eq_aborted_iff hlayers hgroups).1 hresult
            exact absurd ⟨layers, groups, hlayers, hgroups,
              hcase.imp (fun hmissing => ⟨hmissing, hunusable⟩) fun hloop => hloop⟩ hnot

/-- A key file with one group. -/
def keyFileOf (group : String) (h : isGroupName group = true) (keys : GHashTable String String) :
    KeyFile where
  groups := GHashTable.empty.replace group keys
  named := fun name _ hlookup => by
    rw [GHashTable.lookup_replace] at hlookup
    split at hlookup
    · next heq => rwa [← heq]
    · cases hlookup

/-- The default file. -/
def shippedKeyFile : KeyFile :=
  keyFileOf "Local Network Updates" (by decide)
    (GHashTable.empty.replace "AdvertiseUpdates" "false")

/-- A repository without a remote, in the only file that there is. -/
theorem withoutRemote_aborts :
    let disk := fun path : String =>
      if path = "/etc/eos-updater/eos-update-server.conf" then
        .wellFormed (keyFileOf "Repository 1" (by decide) (GHashTable.empty.replace "Path" "/srv"))
      else .missing
    readConfigFile disk ⟨"/etc", "/usr/share", "/usr"⟩ shippedKeyFile none = .error .aborted ∧
      ¬ ReadsRepositories disk ⟨"/etc", "/usr/share", "/usr"⟩ shippedKeyFile none := by
  intro disk
  have haborted : readConfigFile disk ⟨"/etc", "/usr/share", "/usr"⟩ shippedKeyFile none =
      .error .aborted := by decide
  refine ⟨haborted, fun hreads => ?_⟩
  let repository := keyFileOf "Repository 1" (by decide) (GHashTable.empty.replace "Path" "/srv")
  have hunusable : Unusable [repository, KeyFile.empty, KeyFile.empty, shippedKeyFile]
      "Repository 1" := Or.inr (Or.inr (Or.inr fun layer hlayer => by
    rw [List.mem_cons, List.mem_cons, List.mem_cons, List.mem_singleton] at hlayer
    rcases hlayer with rfl | rfl | rfl | rfl <;> decide))
  obtain ⟨e, herror⟩ := hreads.fails [repository, KeyFile.empty, KeyFile.empty, shippedKeyFile]
    ⟨[repository, KeyFile.empty, KeyFile.empty], rfl, rfl⟩
    ⟨"Repository 1", ⟨by decide, repository, List.mem_cons_self, by decide⟩, hunusable⟩
  rw [haborted] at herror
  cases herror

/-- A path in `/etc`, and a remote for the same group in `/usr`. -/
example :
    let disk := fun path : String =>
      if path = "/etc/eos-updater/eos-update-server.conf" then
        .wellFormed (keyFileOf "Repository 07" (by decide) (GHashTable.empty.replace "Path" "/srv"))
      else if path = "/usr/share/eos-updater/eos-update-server.conf" then
        .wellFormed (keyFileOf "Repository 07" (by decide)
          (GHashTable.empty.replace "RemoteName" "eos"))
      else .missing
    readConfigFile disk ⟨"/etc", "/usr/share", "/usr"⟩ shippedKeyFile none =
      .ok (false, [⟨7, "/srv", "eos"⟩]) := by
  decide

/-! ### Files with the same contents -/

/-- Files with the same values for the keys of repositories have the same repositories. -/
theorem readRepositoryContents_congr {groups : List String} {repositoryConfigs : List RepoConfig}
    (h : ∀ group key, isRepositoryGroup group = true →
      config.fileValue disk KeyFile.getString group key =
        config'.fileValue disk' KeyFile.getString group key) :
    readRepositoryContents disk config groups repositoryConfigs =
      readRepositoryContents disk' config' groups repositoryConfigs := by
  induction groups generalizing repositoryConfigs with
  | nil => rfl
  | cons group groups ih =>
      rw [readRepositoryContents, readRepositoryContents]
      by_cases hgroup : isRepositoryGroup group = true
      · rw [if_neg (not_not.2 hgroup), if_neg (not_not.2 hgroup), repositoryContents,
          repositoryContents, h group "Path" hgroup, h group "RemoteName" hgroup]
        simp only [ih]
      · rw [if_pos hgroup, if_pos hgroup, ih]

/-- The repositories are the same, if all that they are read from is. -/
theorem readContents_congr {advertise advertise' : Bool}
    (hadvertise : config.fileValue disk KeyFile.getBoolean "Local Network Updates"
      "AdvertiseUpdates" = .ok advertise)
    (hadvertise' : config'.fileValue disk' KeyFile.getBoolean "Local Network Updates"
      "AdvertiseUpdates" = .ok advertise')
    (hgroups : config.groupContents disk = config'.groupContents disk')
    (hvalues : ∀ group key, isRepositoryGroup group = true →
      config.fileValue disk KeyFile.getString group key =
        config'.fileValue disk' KeyFile.getString group key) :
    readContents disk' config' =
      (readContents disk config).map fun result => (advertise', result.2) := by
  rw [readContents, readContents, hadvertise, hadvertise', ← hgroups]
  cases config.groupContents disk with
  | error e => rfl
  | ok groups =>
      simp only [readRepositoryContents_congr hvalues]
      cases readRepositoryContents disk' config' groups [] <;> rfl

end Eus
