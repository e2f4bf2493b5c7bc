import EosUpdater.GLib.Path
import EosUpdater.Updater.Poll
import EosUpdater.Util.Layers

/-!
# The sources of updates

`poll.c`: a poll reads the sources from the configuration files, and a poll of a volume has its
repository as the only source. What holds of every search that the configuration permits holds of a
whole poll, so that it searches nothing else (`poll_searches_configured`).

If the URIs that override the sources cannot be read, the poll goes on without them, but the error
stays behind. It is reported in place of the error of the poll, should this fail.
-/

namespace Updater

open Euu GLib Machine Machine.Program

variable {σ ρ α : Type}

/-! ### Reading the configuration -/

/-- No source is added twice. -/
theorem nodup_of_addDownloadSources {found order : List DownloadSource} {texts : List String}
    (h : addDownloadSources found texts = .ok order) (hnodup : found.Nodup) : order.Nodup := by
  induction texts generalizing found with
  | nil => exact Except.ok.inj h ▸ hnodup
  | cons text texts ih =>
      simp only [addDownloadSources, bind, Except.bind] at h
      split at h
      · cases h
      next source _ =>
      split at h
      · cases h
      next hadd =>
      refine ih h (List.nodup_append.2 ⟨hnodup, List.nodup_singleton _, ?_⟩)
      rintro other hother _ hsource rfl
      obtain rfl := List.mem_singleton.1 hsource
      exact hadd hother

/-- An order that is accepted has sources in it, and none twice. -/
theorem strvToDownloadOrder_ok {sources : List String} {order : List DownloadSource}
    (h : strvToDownloadOrder sources = .ok order) : order ≠ [] ∧ order.Nodup := by
  simp only [strvToDownloadOrder, bind, Except.bind] at h
  split at h
  · cases h
  next found hfound =>
  by_cases hempty : found = []
  · rw [if_pos hempty] at h
    cases h
  · rw [if_neg hempty] at h
    obtain rfl := Except.ok.inj h
    exact ⟨hempty, nodup_of_addDownloadSources hfound List.nodup_nil⟩

/-- `strv_to_download_order`, with what it has checked. -/
def checkedDownloadOrder (sources : List String) :
    Except GError {order : List DownloadSource // order ≠ [] ∧ order.Nodup} :=
  match h : strvToDownloadOrder sources with
  | .error e => .error e
  | .ok order => .ok ⟨order, strvToDownloadOrder_ok h⟩

/-- The checked order is the one that is read. -/
theorem strvToDownloadOrder_of_checked {sources : List String}
    {order : {order : List DownloadSource // order ≠ [] ∧ order.Nodup}}
    (h : checkedDownloadOrder sources = .ok order) : strvToDownloadOrder sources = .ok order.1 := by
  rw [checkedDownloadOrder] at h
  split at h
  · cases h
  · next horder => rw [horder, ← Except.ok.inj h]

/-- A `SourcesConfig`, for which an empty list of URIs is none. -/
def SourcesConfig.of (order : {order : List DownloadSource // order ≠ [] ∧ order.Nodup})
    (uris : List String) : SourcesConfig where
  downloadOrder := order.1
  overrideUris := if uris = [] then none else some uris
  order_ne_nil := order.2.1
  order_nodup := order.2.2
  uris_ne_nil := by split <;> simp [*]

/-- The directories that the build chooses. -/
structure Directories where
  sysconfdir : String
  datadir : String
  installPrefix : String

/-- `get_config_file_path`, with the path that the environment may give. -/
def getConfigFilePath (dirs : Directories) (envvar : Option String) : String :=
  envvar.getD (dirs.sysconfdir ++ "/eos-updater/eos-updater.conf")

/-- The configuration files of `read_config`. -/
def Directories.configPaths (dirs : Directories) (configFilePath : String) : List String :=
  [configFilePath, dirs.installPrefix ++ "/local/share/eos-updater/eos-updater.conf",
    dirs.datadir ++ "/eos-updater/eos-updater.conf"]

variable (disk : String → ConfigContents)

/-- `read_config`, with an error that it may set although it succeeds. -/
def readConfig (config : ConfigFile) : Except Failure (SourcesConfig × Option GError) :=
  match config.getStrv disk "Download" "Order" with
  | (.error failure, _) => .error failure
  | (.ok downloadOrderStrv, config) =>
      match checkedDownloadOrder downloadOrderStrv with
      | .error e => .error (.error e)
      | .ok order =>
          match (config.getStrv disk "Download" "OverrideUris").1 with
          | .error .aborted => .error .aborted
          -- this key is not checked to have been read
          | .error (.error e) => .ok (.of order [], some e)
          | .ok uris => .ok (.of order uris, none)

/-- The configuration of the updater, from its files. The default file is a resource. -/
def Directories.config (dirs : Directories) (defaultKeyFile : GLib.KeyFile)
    (configFilePath : String) : ConfigFile :=
  ConfigFile.new (dirs.configPaths configFilePath)
    "/com/endlessm/Updater/config/eos-updater.conf" defaultKeyFile

/-! ### Polls with their configuration -/

/-- `g_propagate_error` to where an error may have been set before: that one stays. -/
def propagateError (left : Option GError) : Except Failure α → Except Failure α
  | .error (.error e) => .error (.error (left.getD e))
  | .error .aborted => .error .aborted
  | .ok a => .ok a

/-- A program that fails with the error that has been set before, if there is one. -/
def withLeftError (left : Option GError) (program : Program σ Failure α) : Program σ Failure α :=
  ExceptT.mk (propagateError left <$> program.run)

/-- `metadata_fetch_internal`, with the configuration that it reads. -/
def metadataFetch (search : Search σ ρ) (booted : Except GError OstreeDeployment)
    (config : ConfigFile) (avahiStart : Except GError Unit) (disableOldCode : Bool) :
    Program σ Failure (Option (EosUpdateInfo ρ)) := do
  .query fun _ => (checkOstreeSystem booted).mapError .error
  let (config, left) ← .query fun _ => readConfig disk config
  withLeftError left do
    let info ← metadataFetchUsingFinders search config avahiStart
    metadataFetchFallback search config disableOldCode info

/-- The configuration of `poll_volume_internal`. -/
def volumeConfig (volumePath : Text) : SourcesConfig :=
  .of ⟨[.main], by decide⟩
    ["file://" ++ String.ofList (buildFilename [volumePath, ".ostree".toList, "repo".toList])]

/-- `poll_volume_internal`. There is no Avahi finder to be started. -/
def pollVolumeInternal (search : Search σ ρ) (booted : Except GError OstreeDeployment)
    (volumePath : Text) : Program σ Failure (Option (EosUpdateInfo ρ)) := do
  .query fun _ => (checkOstreeSystem booted).mapError .error
  metadataFetchNew search (volumeConfig volumePath) (.ok ())

/-! ### What a configuration permits -/

variable {disk}

/-- The first configuration file that has a key of the group for downloads gives it this list. -/
def Configures (disk : String → ConfigContents) (config : ConfigFile) (keyName : String)
    (strv : List String) : Prop :=
  config.fileValue disk GLib.KeyFile.getStringList "Download" keyName = .ok strv

/-- The configuration files list the source. -/
def ListsSource (disk : String → ConfigContents) (config : ConfigFile) (source : DownloadSource) :
    Prop :=
  ∃ strv order, Configures disk config "Order" strv ∧ strvToDownloadOrder strv = .ok order ∧
    source ∈ order

/-- The finder for a source. -/
def DownloadSource.finder : DownloadSource → OstreeRepoFinder
  | .main => .config
  | .lan => .avahi
  | .volume => .mount

/-- The configuration files permit a finder: that of a source they list, unless they list URIs
instead. -/
inductive PermitsFinder (disk : String → ConfigContents) (config : ConfigFile) :
    OstreeRepoFinder → Prop
  | source {source : DownloadSource} (hlists : ListsSource disk config source)
      (huris : ∀ uris, Configures disk config "OverrideUris" uris → uris = []) :
      PermitsFinder disk config source.finder
  | override {uris : List String} (huris : Configures disk config "OverrideUris" uris)
      (hne : uris ≠ []) : PermitsFinder disk config (.override uris)

/-- The configuration files permit a search: one with such finders, or that of the old code path if
they list the main source. -/
def PermitsSearch (disk : String → ConfigContents) (config : ConfigFile) :
    Option (List OstreeRepoFinder) → Prop
  | none => ListsSource disk config .main
  | some finders => ∀ finder ∈ finders, PermitsFinder disk config finder

/-! ### What a configuration has been read from -/

variable {config : ConfigFile} {sources : SourcesConfig} {left : Option GError}

/-- What has been read: the sources that the files list, and the URIs that they list instead if they
list some. -/
structure ReadFrom (disk : String → ConfigContents) (config : ConfigFile)
    (sources : SourcesConfig) : Prop where
  order : ∃ strv, Configures disk config "Order" strv ∧
    strvToDownloadOrder strv = .ok sources.downloadOrder
  some : ∀ uris, sources.overrideUris = some uris → Configures disk config "OverrideUris" uris
  none : sources.overrideUris = none →
    ∀ uris, Configures disk config "OverrideUris" uris → uris = []

/-- The configuration that is read is the one on the disk. -/
theorem readFrom_of_readConfig (hcached : config.Cached disk)
    (h : readConfig disk config = .ok (sources, left)) : ReadFrom disk config sources := by
  rw [readConfig] at h
  split at h
  · cases h
  next strv config' hstrv =>
  split at h
  · cases h
  next order horder =>
  have hfirst := ConfigFile.getFrom_fst GLib.KeyFile.getStringList hcached "Download" "Order"
  obtain ⟨hsame, hcached'⟩ := ConfigFile.cached_of_getFrom hcached hstrv
  -- the second lookup is in the same files, even if they are in the cache
  have hsecond :=
    ConfigFile.getFrom_fst GLib.KeyFile.getStringList hcached' "Download" "OverrideUris"
  rw [ConfigFile.fileValue_of_sameLayers hsame] at hsecond
  have hlists : ∃ strv, Configures disk config "Order" strv ∧
      strvToDownloadOrder strv = .ok order.1 := by
    rw [ConfigFile.getStrv] at hstrv
    rw [hstrv] at hfirst
    exact ⟨strv, hfirst.symm, strvToDownloadOrder_of_checked horder⟩
  rw [ConfigFile.getStrv, hsecond] at h
  split at h
  · cases h
  · next e huris =>
    obtain ⟨rfl, -⟩ := Prod.mk.inj (Except.ok.inj h)
    refine ⟨hlists, fun uris hsome => ?_, fun _ uris hset => ?_⟩
    · simp [SourcesConfig.of] at hsome
    · rw [Configures, huris] at hset
      cases hset
  · next uris huris =>
    obtain ⟨rfl, -⟩ := Prod.mk.inj (Except.ok.inj h)
    refine ⟨hlists, fun uris' hsome => ?_, fun hnone uris' hset => ?_⟩
    · simp only [SourcesConfig.of] at hsome
      split at hsome
      · cases hsome
      · rwa [← Option.some.inj hsome]
    · rw [Configures, huris] at hset
      obtain rfl := Except.ok.inj hset
      by_contra hne
      simp [SourcesConfig.of, hne] at hnone

/-! ### What is searched -/

/-- Without an error left over a program runs as it is. -/
@[simp] theorem withLeftError_none (program : Program σ Failure α) :
    withLeftError none program = program := by
  have hid : propagateError none = (id : Except Failure α → Except Failure α) := by
    funext result
    rcases result with (e | _) | a <;> rfl
  rw [withLeftError, hid, id_map]
  rfl

/-- Where all of the configuration can be read, a poll is one with this configuration. -/
theorem metadataFetch_of_readConfig (search : Search σ ρ)
    (booted : Except GError OstreeDeployment) (avahiStart : Except GError Unit)
    (disableOldCode : Bool) (h : readConfig disk config = .ok (sources, none)) :
    metadataFetch disk search booted config avahiStart disableOldCode =
      metadataFetchInternal search booted (.ok sources) avahiStart disableOldCode := by
  rw [metadataFetch, metadataFetchInternal, h]
  have hread : (query fun _ => .ok (sources, none) :
      Program σ Failure (SourcesConfig × Option GError)) = pure (sources, none) := rfl
  have hgiven : (query fun _ => (.ok sources : Except GError SourcesConfig).mapError .error :
      Program σ Failure SourcesConfig) = pure sources := rfl
  simp only [hread, hgiven, pure_bind, withLeftError_none]

section Keeps

variable {R : σ → σ → Prop}

theorem keeps_attempt {program : Program σ Failure α} (h : Keeps R program) :
    Keeps R (attempt program) := by
  intro s result t hend
  simp only [Ends, attempt, ExceptT.run_mk, StateT.run_bind] at hend
  cases hrun : program.run.run s with
  | none => simp [hrun] at hend
  | some ended =>
      obtain ⟨ended, s'⟩ := ended
      have hkept : R s s' := h s ended s' hrun
      have hstate : s' = t := by
        rcases ended with (e | _) | a <;> simp [hrun] at hend <;> exact hend.2
      exact hstate ▸ hkept

/-- An error left over takes the place of the one that the program fails with. -/
theorem ends_withLeftError {program : Program σ Failure α} {s t : σ}
    {result : Except Failure α} : (withLeftError left program).Ends s result t ↔
      ∃ result', program.Ends s result' t ∧ propagateError left result' = result := by
  simp only [Ends, withLeftError, ExceptT.run_mk, StateT.run_map, Option.map_eq_map,
    Option.map_eq_some_iff, Prod.mk.injEq, Prod.exists]
  constructor
  · rintro ⟨result', t', hend, hresult, rfl⟩
    exact ⟨result', hend, hresult⟩
  · rintro ⟨result', hend, hresult⟩
    exact ⟨result', t, hend, hresult, rfl⟩

theorem keeps_withLeftError {program : Program σ Failure α} (left : Option GError)
    (h : Keeps R program) : Keeps R (withLeftError left program) := by
  intro s result t hend
  obtain ⟨result', hend', -⟩ := ends_withLeftError.1 hend
  exact h s result' t hend'

/-- A search is one that the sources are for. -/
def SourcesConfig.Searches (sources : SourcesConfig) : Option (List OstreeRepoFinder) → Prop
  | none => .main ∈ sources.downloadOrder
  | some finders => ∀ finder ∈ finders,
      finder ∈ sources.offlineFinders ∨ finder ∈ sources.onlineFinders

/-- A terminated array has the finders that were put into it. -/
theorem of_terminate {array finders : List α} (h : terminate array = some finders) :
    finders = array := by
  rw [terminate] at h
  split at h
  · cases h
  · exact (Option.some.inj h).symm

/-- The finders are those of the configured sources. -/
theorem searches_getFinders (sources : SourcesConfig) (avahiStart : Except GError Unit) :
    (∀ finders, (getFinders sources avahiStart).1 = some finders →
        sources.Searches (some finders)) ∧
      ∀ finders, (getFinders sources avahiStart).2 = some finders →
        sources.Searches (some finders) := by
  constructor
  · intro finders h finder hfinder
    cases avahiStart with
    | ok _ => exact .inl (of_terminate h ▸ hfinder)
    | error e =>
        obtain ⟨all, hall, rfl⟩ := Option.map_eq_some_iff.1 h
        exact .inl (of_terminate hall ▸ List.mem_of_mem_erase hfinder)
  · intro finders h finder hfinder
    exact .inr (of_terminate h ▸ hfinder)

variable [Std.Refl R] [IsTrans σ R] {search : Search σ ρ}

theorem keeps_metadataFetchOnline {finders : Terminated OstreeRepoFinder}
    (hsearch : ∀ fs info, finders = some fs → Keeps R (search (some fs) info))
    (info : UpdateRefInfo ρ) : Keeps R (metadataFetchOnline search finders info) := by
  have hused (online : UpdateRefInfo ρ) : Keeps R (if online.IsUsable then
      (return online.toUpdateInfo false online.results) else return none :
        Program σ Failure (Option (EosUpdateInfo ρ))) := by
    split <;> exact keeps_pure _
  rw [metadataFetchOnline]
  cases finders with
  | none => exact (keeps_pure _).bind hused
  | some fs => exact (hsearch fs _ rfl).bind hused

theorem keeps_metadataFetchNew (avahiStart : Except GError Unit)
    (hsearch : ∀ finders info, (getFinders sources avahiStart).1 = some finders ∨
      (getFinders sources avahiStart).2 = some finders → Keeps R (search (some finders) info)) :
    Keeps R (metadataFetchNew search sources avahiStart) := by
  rw [metadataFetchNew]
  generalize getFinders sources avahiStart = both at hsearch
  obtain ⟨offline, online⟩ := both
  have hrest (info : UpdateRefInfo ρ) :
      Keeps R (if info.IsUsable then (return info.toUpdateInfo true info.results)
        else metadataFetchOnline search online info) := by
    split
    · exact keeps_pure _
    · exact keeps_metadataFetchOnline (fun fs info hfs => hsearch fs info (.inr hfs)) info
  cases offline with
  | none =>
      dsimp only
      split
      · exact (keeps_throw _).bind fun _ => (keeps_pure _).bind hrest
      · exact (keeps_pure _).bind hrest
  | some fs =>
      have hsome : ¬ ((some fs : Terminated OstreeRepoFinder) = none ∧ online = none) := by simp
      dsimp only
      rw [if_neg hsome]
      exact (hsearch fs _ (.inl rfl)).bind hrest

theorem keeps_runFetchersLoop {fetchers : List (Program σ Failure (Option (TimedUpdate ρ)))}
    (h : ∀ fetcher ∈ fetchers, Keeps R fetcher) (found : List (TimedUpdate ρ)) :
    Keeps R (runFetchersLoop found fetchers) := by
  induction fetchers generalizing found with
  | nil => exact keeps_pure found
  | cons fetcher fetchers ih =>
      rw [List.forall_mem_cons] at h
      refine (keeps_attempt h.1).bind fun result => ?_
      cases result with
      | ok info => exact ih h.2 _
      | error e =>
          dsimp only
          split
          · exact keeps_throw _
          · exact ih h.2 found

theorem keeps_metadataFetchFallback (disableOldCode : Bool) (info : Option (EosUpdateInfo ρ))
    (hsearch : ∀ info, sources.Searches none → Keeps R (search none info)) :
    Keeps R (metadataFetchFallback search sources disableOldCode info) := by
  rw [metadataFetchFallback]
  split
  · next hfallback =>
    have hmain : Keeps R (metadataFetchFromMain search) :=
      (hsearch {} hfallback.2.2).bind fun _ => keeps_pure _
    refine (keeps_runFetchersLoop (fun fetcher hfetcher => ?_) []).bind fun _ => keeps_pure _
    rwa [List.mem_singleton.1 hfetcher]
  · exact keeps_pure info

theorem keeps_metadataFetchUsingFinders (avahiStart : Except GError Unit)
    (hsearch : ∀ finders info, sources.Searches (some finders) →
      Keeps R (search (some finders) info)) :
    Keeps R (metadataFetchUsingFinders search sources avahiStart) := by
  obtain ⟨hoffline, honline⟩ := searches_getFinders sources avahiStart
  have hnew : Keeps R (metadataFetchNew search sources avahiStart) :=
    keeps_metadataFetchNew avahiStart fun fs info hfs =>
      hsearch fs info (hfs.elim (hoffline fs) (honline fs))
  refine (keeps_attempt hnew).bind fun result => ?_
  cases result with
  | ok info => exact keeps_pure info
  | error e =>
      dsimp only
      split
      · exact keeps_throw _
      · exact keeps_pure _

end Keeps

/-- The sources that have been read search only with what is permitted. -/
theorem ReadFrom.permitsSearch (h : ReadFrom disk config sources)
    {finders : Option (List OstreeRepoFinder)} (hsearches : sources.Searches finders) :
    PermitsSearch disk config finders := by
  obtain ⟨strv, hstrv, horder⟩ := h.order
  cases finders with
  | none => exact ⟨strv, _, hstrv, horder, hsearches⟩
  | some finders =>
      intro finder hfinder
      cases huris : sources.overrideUris with
      | none =>
          -- without override URIs each source has its own finder
          have hsource (source : DownloadSource) (hmem : source ∈ sources.downloadOrder) :
              PermitsFinder disk config source.finder :=
            .source ⟨strv, _, hstrv, horder, hmem⟩ (h.none huris)
          rcases hsearches finder hfinder with hoffline | honline
          · rw [SourcesConfig.offlineFinders, huris] at hoffline
            obtain ⟨source, hmem, hfinder⟩ := List.mem_filterMap.1 hoffline
            cases source with
            | main => cases hfinder
            | lan => exact Option.some.inj hfinder ▸ hsource .lan hmem
            | volume => exact Option.some.inj hfinder ▸ hsource .volume hmem
          · rw [SourcesConfig.onlineFinders, huris] at honline
            obtain ⟨source, hmem, hfinder⟩ := List.mem_filterMap.1 honline
            cases source with
            | main => exact Option.some.inj hfinder ▸ hsource .main hmem
            | lan | volume => cases hfinder
      | some uris =>
          rcases hsearches finder hfinder with hoffline | honline
          · simp [SourcesConfig.offlineFinders, huris] at hoffline
          · simp only [SourcesConfig.onlineFinders, huris, List.mem_singleton] at honline
            exact honline ▸ .override (h.some uris huris) fun hnil =>
              sources.uris_ne_nil (huris.trans (congrArg Option.some hnil))

/-- **Polls search what is configured.** What is kept by each search that the configuration files
permit is kept by a poll. A poll of a volume only searches its repository. -/
theorem poll_searches_configured (R : σ → σ → Prop) [Std.Refl R] [IsTrans σ R]
    (search : Search σ ρ) (booted : Except GError OstreeDeployment) :
    (∀ (disk : String → ConfigContents) (dirs : Directories) (defaultKeyFile : GLib.KeyFile)
        (configFilePath : String) (avahiStart : Except GError Unit) (disableOldCode : Bool),
      (∀ finders info,
        PermitsSearch disk (dirs.config defaultKeyFile configFilePath) finders →
          Keeps R (search finders info)) →
        Keeps R (metadataFetch disk search booted (dirs.config defaultKeyFile configFilePath)
          avahiStart disableOldCode)) ∧
    ∀ volumePath : Text,
      (∀ info, Keeps R (search (some [.override ["file://" ++ String.ofList
          (buildFilename [volumePath, ".ostree".toList, "repo".toList])]]) info)) →
        Keeps R (pollVolumeInternal search booted volumePath) := by
  constructor
  · intro disk dirs defaultKeyFile configFilePath avahiStart disableOldCode hsearch
    refine (keeps_query _).bind fun _ => keeps_query_bind fun _ read hread => ?_
    obtain ⟨sources, left⟩ := read
    have hfrom := readFrom_of_readConfig (ConfigFile.cached_new _ _ _) hread
    -- the sources are read once, and every search takes its finders from them
    have hpermitted (finders : Option (List OstreeRepoFinder)) (info : UpdateRefInfo ρ)
        (h : sources.Searches finders) : Keeps R (search finders info) :=
      hsearch finders info (hfrom.permitsSearch h)
    refine keeps_withLeftError left ((keeps_metadataFetchUsingFinders avahiStart
      fun finders info => hpermitted finders info).bind fun info => ?_)
    exact keeps_metadataFetchFallback disableOldCode info fun info => hpermitted none info
  · intro volumePath hsearch
    refine (keeps_query _).bind fun _ => keeps_metadataFetchNew _ fun finders info hfinders => ?_
    rcases hfinders with hoffline | honline
    · cases hoffline
    · exact Option.some.inj honline ▸ hsearch info

/-! ### A poll of removable drives -/

/-- The default configuration, or an edited copy of it with another order. -/
def updaterKeyFile (order : String) : GLib.KeyFile :=
  (GLib.KeyFile.empty.setValue "Download" "Order" order).setValue "Download" "OverrideUris" ""

/-- The files of a system whose administrator has copied the default configuration, and edited it so
that only removable drives are searched. -/
def volumeDisk (path : String) : ConfigContents :=
  if path = "/etc/eos-updater/eos-updater.conf" then .wellFormed (updaterKeyFile "volume;")
  else if path = "/usr/share/eos-updater/eos-updater.conf" then
    .wellFormed (updaterKeyFile "volume;main;")
  else .missing

/-- A search that finds nothing, and records what it was to be done with. -/
def recordedSearch : Search (List (Option (List OstreeRepoFinder))) Unit := fun finders _ =>
  .perform fun made => (.ok {}, finders :: made)

/-- The configuration of a system as it is installed. -/
def installedConfig : ConfigFile :=
  let dirs : Directories := ⟨"/etc", "/usr/share", "/usr"⟩
  dirs.config (updaterKeyFile "volume;main;") (getConfigFilePath dirs none)

/-- No search has used the Internet. -/
def Offline (made : List (Option (List OstreeRepoFinder))) : Prop :=
  ∀ finders ∈ made, SearchKind.ofFinders finders = .offline

/-- Whatever search the files permit does not use the Internet. -/
theorem offline_of_permitsSearch {finders : Option (List OstreeRepoFinder)}
    (h : PermitsSearch volumeDisk installedConfig finders) :
    SearchKind.ofFinders finders = .offline := by
  have hsources : ∀ source, ListsSource volumeDisk installedConfig source →
      source = .volume := by
    rintro source ⟨strv, order, hstrv, hlist, hmem⟩
    obtain rfl : ["volume"] = strv := Except.ok.inj hstrv
    obtain rfl : [.volume] = order := Except.ok.inj hlist
    exact List.mem_singleton.1 hmem
  cases finders with
  | none => cases hsources .main h
  | some finders =>
      have hoffline : ∀ finder ∈ finders, finder.isOnline = false := by
        intro finder hfinder
        cases h finder hfinder with
        | source hlists => exact hsources _ hlists ▸ rfl
        | override huris hne => exact absurd (Except.ok.inj huris).symm hne
      rw [SearchKind.ofFinders, List.any_eq_false.2 fun finder hfinder => by
        simp [hoffline finder hfinder], if_neg Bool.false_ne_true]

/-- With this configuration a poll does not use the Internet. -/
theorem volumeOnly_offline :
    (metadataFetch volumeDisk recordedSearch (.ok ⟨"eos", "booted", none⟩) installedConfig
      (.ok ()) false).Ends [] (.ok none) [some [.mount]] ∧ Offline [some [.mount]] := by
  have hend : (metadataFetch volumeDisk recordedSearch (.ok ⟨"eos", "booted", none⟩)
      installedConfig (.ok ()) false).Ends [] (.ok none) [some [.mount]] := by
    rfl
  let R := fun made made' => Offline made → Offline made'
  have : Std.Refl R := ⟨fun _ h => h⟩
  have : IsTrans _ R := ⟨fun _ _ _ h h' hmade => h' (h hmade)⟩
  refine ⟨hend, (poll_searches_configured R recordedSearch (.ok ⟨"eos", "booted", none⟩)).1
    volumeDisk ⟨"/etc", "/usr/share", "/usr"⟩ (updaterKeyFile "volume;main;") _ (.ok ()) false
    (fun finders info hpermits => ?_) [] _ _ hend nofun⟩
  have hkind := offline_of_permitsSearch hpermits
  exact keeps_perform fun made hmade other hother =>
    (List.mem_cons.1 hother).elim (fun heq => heq ▸ hkind) (hmade other)

end Updater
