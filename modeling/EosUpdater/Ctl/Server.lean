import EosUpdater.Avahi.Program
import EosUpdater.UpdateServer.Config
import EosUpdater.UpdateServer.Served
import EosUpdater.Updater.Sources

/-!
# `eos-updater-ctl server`

The command enables or disables the update server: it loads the first configuration file of the
server that there is, sets `AdvertiseUpdates` in it and writes it to `/etc`, where it is in front of
all others. So the layers of the configuration have the new value afterwards and are otherwise what
they were, and after any number of such commands the last successful one is in effect
(`commands_take_effect`).

An exception that is not caught makes Python exit with 1. What the command prints is left out.
-/

namespace Ctl

open Euu GLib

/-- `EOS_UPDATE_SERVER_CONFS`. -/
def eosUpdateServerConfs : List String :=
  ["/etc/eos-updater/eos-update-server.conf",
    "/usr/local/share/eos-updater/eos-update-server.conf",
    "/usr/share/eos-updater/eos-update-server.conf"]

/-- `EOS_UPDATER_CONFS`. -/
def eosUpdaterConfs : List String :=
  ["/etc/eos-updater/eos-updater.conf", "/usr/local/share/eos-updater/eos-updater.conf",
    "/usr/share/eos-updater/eos-updater.conf"]

/-- The commands of the parser for `server`. -/
inductive ServerCommand
  | enable
  | disable
deriving DecidableEq, Repr

/-- The state that a command is for. -/
def ServerCommand.newState : ServerCommand → Bool
  | enable => true
  | disable => false

/-- How a function of the command ends. -/
inductive Outcome
  | returned (status : ℕ)
  | raised (error : KeyFileError)
deriving DecidableEq, Repr

/-- The exit status of the process. -/
def Outcome.status : Outcome → ℕ
  | returned status => status
  | raised _ => 1

/-- The files of a system. -/
abbrev Disk := String → ConfigContents

/-- The loop of `command_server` over the configuration files of the updater: errors are passed
over. -/
def downloadOrder (disk : Disk) : List String → List String
  | [] => []
  | path :: paths =>
      match (disk path).load with
      | (_, some _) => downloadOrder disk paths
      | (conf, none) =>
          match conf.getStringList "Download" "Order" with
          | .error _ => downloadOrder disk paths
          | .ok order => order

/-- The loop of `command_server` over the configuration files of the server: a file that is missing
is passed over, and there is nothing if another one cannot be loaded. -/
def loadServerConf (disk : Disk) : List String → Option KeyFile
  | [] => some KeyFile.empty
  | path :: paths =>
      match (disk path).load with
      | (keyFile, none) => some keyFile
      | (_, some exc) => if exc.code = .fileNoent then loadServerConf disk paths else none

/-- A run of the command: with which command, whether as root, and what `save_to_file` returns. -/
structure ServerRun where
  command : ServerCommand
  isRoot : Bool
  saveToFile : KeyFile → Except GError Unit

/-- `command_server`, from where the configuration has been loaded. -/
def setServerState (run : ServerRun) (disk : Disk) (keyFile : KeyFile) : Outcome × Disk :=
  match keyFile.getBoolean "Local Network Updates" "AdvertiseUpdates" with
  | .error error => (.raised error, disk)
  | .ok oldState =>
      if oldState = run.command.newState then (.returned 0, disk)
      else
        let keyFile := keyFile.setBoolean "Local Network Updates" "AdvertiseUpdates"
          run.command.newState
        match run.saveToFile keyFile with
        | .error _ => (.returned 1, disk)
        | .ok () => (.returned 0,
            Function.update disk "/etc/eos-updater/eos-update-server.conf" (.wellFormed keyFile))

/-- `command_server`. -/
def commandServer (run : ServerRun) (disk : Disk) : Outcome × Disk :=
  if ¬ run.isRoot then (.returned 1, disk)
  else if run.command.newState ∧ "main" ∉ downloadOrder disk eosUpdaterConfs then
    (.returned 1, disk)
  else
    match loadServerConf disk eosUpdateServerConfs with
    | none => (.returned 1, disk)
    | some keyFile => setServerState run disk keyFile

/-! ### The file that is written -/

variable {disk disk' : Disk} {run : ServerRun} {outcome : Outcome} {keyFile : KeyFile}

/-- The configuration that is changed is the first file there is, or an empty one. -/
theorem firstFile_of_loadServerConf {paths : List String}
    (h : loadServerConf disk paths = some keyFile) :
    keyFile = KeyFile.empty ∨ ∃ rest, ConfigFile.FirstFile disk paths keyFile rest := by
  induction paths with
  | nil => exact .inl (Option.some.inj h).symm
  | cons path paths ih =>
      rw [loadServerConf] at h
      cases hdisk : disk path with
      | missing =>
          rw [hdisk] at h
          rcases ih h with hempty | ⟨rest, before, other, hsplit, hbefore, hfile⟩
          · exact .inl hempty
          · exact .inr ⟨rest, path :: before, other, by rw [hsplit, List.cons_append],
              List.forall_mem_cons.2 ⟨hdisk, hbefore⟩, hfile⟩
      | unloadable error parsed found =>
          rw [hdisk, ConfigContents.load] at h
          simp only [found, if_false] at h
          cases h
      | wellFormed keyFile' =>
          rw [hdisk] at h
          obtain rfl := Option.some.inj h
          exact .inr ⟨paths, [], path, rfl, fun _ hmem => absurd hmem List.not_mem_nil, hdisk⟩

/-- The file with the new state, as it is read back. -/
theorem getBoolean_setBoolean (keyFile : KeyFile) (state : Bool) :
    (keyFile.setBoolean "Local Network Updates" "AdvertiseUpdates" state).getBoolean
      "Local Network Updates" "AdvertiseUpdates" = .ok state := by
  have hvalue : (keyFile.setBoolean "Local Network Updates" "AdvertiseUpdates" state).value
      "Local Network Updates" "AdvertiseUpdates" = some (if state then "true" else "false") := by
    rw [KeyFile.setBoolean, KeyFile.value_setValue, if_pos ⟨rfl, rfl, by decide +kernel⟩]
  rw [KeyFile.getBoolean, KeyFile.getParsed_of_value _ hvalue]
  cases state <;> decide +kernel

/-- Saving rewrites the one key in the file in /etc. -/
theorem rewritten_of_save {rest : List String} {oldState : Bool} (state : Bool)
    (hfirst : ConfigFile.FirstFile disk eosUpdateServerConfs keyFile rest)
    (hold : keyFile.getBoolean "Local Network Updates" "AdvertiseUpdates" = .ok oldState) :
    ConfigFile.Rewritten disk (Function.update disk "/etc/eos-updater/eos-update-server.conf"
        (.wellFormed (keyFile.setBoolean "Local Network Updates" "AdvertiseUpdates" state)))
      eosUpdateServerConfs keyFile
      (keyFile.setBoolean "Local Network Updates" "AdvertiseUpdates" state)
      "Local Network Updates" "AdvertiseUpdates" where
  exists_first := ⟨rest, hfirst⟩
  disk_eq := ⟨_, _, rfl, by decide +kernel, rfl⟩
  value_eq group key hne := by
    rw [KeyFile.setBoolean, KeyFile.value_setValue, if_neg]
    rintro ⟨rfl, rfl, -⟩
    exact hne.elim (absurd rfl) (absurd rfl)
  groups_eq group := by
    rw [KeyFile.setBoolean, KeyFile.mem_getGroups_setValue, or_iff_left_of_imp]
    rintro ⟨rfl, -⟩
    -- there was a value of the group
    have hkey := KeyFile.hasKey_of_getParsed hold
    obtain ⟨text, htext⟩ := Option.isSome_iff_exists.1 hkey
    obtain ⟨keys, hkeys, -⟩ := Option.bind_eq_some_iff.1 htext
    exact (GHashTable.mem_getKeys_iff _ _).2 ⟨keys, hkeys⟩

/-- **What one run does**: with another status than 0 nothing, and else the state is in the first
file that there is, or has been written to the one in front of all others. -/
theorem commandServer_cases (h : commandServer run disk = (outcome, disk')) :
    (outcome.status ≠ 0 ∧ disk' = disk) ∨
      outcome.status = 0 ∧ ∃ keyFile rest oldState,
        ConfigFile.FirstFile disk eosUpdateServerConfs keyFile rest ∧
        keyFile.getBoolean "Local Network Updates" "AdvertiseUpdates" = .ok oldState ∧
        (oldState = run.command.newState ∧ disk' = disk ∨
          disk' = Function.update disk "/etc/eos-updater/eos-update-server.conf" (.wellFormed
            (keyFile.setBoolean "Local Network Updates" "AdvertiseUpdates"
              run.command.newState))) := by
  rw [commandServer] at h
  split at h
  · obtain ⟨rfl, rfl⟩ := Prod.mk.inj h
    exact .inl ⟨Nat.one_ne_zero, rfl⟩
  split at h
  · obtain ⟨rfl, rfl⟩ := Prod.mk.inj h
    exact .inl ⟨Nat.one_ne_zero, rfl⟩
  split at h
  · obtain ⟨rfl, rfl⟩ := Prod.mk.inj h
    exact .inl ⟨Nat.one_ne_zero, rfl⟩
  next keyFile hload =>
  rw [setServerState] at h
  split at h
  · obtain ⟨rfl, rfl⟩ := Prod.mk.inj h
    exact .inl ⟨Nat.one_ne_zero, rfl⟩
  next oldState hold =>
  -- a key file that has the value is one that was found
  rcases firstFile_of_loadServerConf hload with rfl | ⟨rest, hfirst⟩
  · cases hold
  split at h
  · next hsame =>
    obtain ⟨rfl, rfl⟩ := Prod.mk.inj h
    exact .inr ⟨rfl, keyFile, rest, oldState, hfirst, hold, .inl ⟨hsame, rfl⟩⟩
  · dsimp only at h
    split at h
    · obtain ⟨rfl, rfl⟩ := Prod.mk.inj h
      exact .inl ⟨Nat.one_ne_zero, rfl⟩
    · obtain ⟨rfl, rfl⟩ := Prod.mk.inj h
      exact .inr ⟨rfl, keyFile, rest, oldState, hfirst, hold, .inr rfl⟩

/-! ### The state that is in effect -/

/-- The directories that the paths of the command are in. -/
def directories : Eus.Directories := ⟨"/etc", "/usr/share", "/usr"⟩

/-- What the programs of the server read, where no file is given on their command line. -/
def serverConfig (disk : Disk) (defaultKeyFile : KeyFile) :
    Except Failure (Bool × List Eus.RepoConfig) :=
  Eus.readConfigFile disk directories defaultKeyFile none

theorem serverConfig_eq (disk : Disk) (defaultKeyFile : KeyFile) :
    serverConfig disk defaultKeyFile = Eus.readContents disk (ConfigFile.new eosUpdateServerConfs
      "/com/endlessm/Updater/config/eos-update-server.conf" defaultKeyFile) :=
  Eus.readConfig_eq_readContents (ConfigFile.cached_new _ _ _)

/-- One run sets the state, and changes nothing else. -/
theorem serverConfig_commandServer (defaultKeyFile : KeyFile)
    (h : commandServer run disk = (outcome, disk')) (hstatus : outcome.status = 0) :
    serverConfig disk' defaultKeyFile =
      (serverConfig disk defaultKeyFile).map fun result => (run.command.newState, result.2) := by
  rcases commandServer_cases h with ⟨hne, -⟩ | ⟨-, keyFile, rest, oldState, hfirst, hold, hdisk⟩
  · exact absurd hstatus hne
  rw [serverConfig_eq, serverConfig_eq]
  set config := ConfigFile.new eosUpdateServerConfs
    "/com/endlessm/Updater/config/eos-update-server.conf" defaultKeyFile
  have hadvertise : config.fileValue disk KeyFile.getBoolean "Local Network Updates"
      "AdvertiseUpdates" = .ok oldState := ConfigFile.FirstFile.fileValue hfirst hold
  rcases hdisk with ⟨rfl, rfl⟩ | rfl
  · exact Eus.readContents_congr hadvertise hadvertise rfl fun _ _ _ => rfl
  · have hwritten := rewritten_of_save run.command.newState hfirst hold
    refine Eus.readContents_congr hadvertise
      (ConfigFile.Rewritten.fileValue_key hwritten (getBoolean_setBoolean keyFile _))
      (ConfigFile.Rewritten.groupContents_eq hwritten).symm fun group key hgroup =>
        (ConfigFile.Rewritten.fileValue_eq hwritten (.inl ?_)).symm
    rintro rfl
    exact absurd hgroup (by decide +kernel)

/-- Runs of the command, one after the other. -/
def commandsServer : List ServerRun → Disk → List Outcome × Disk
  | [], disk => ([], disk)
  | run :: runs, disk =>
      let (outcome, disk) := commandServer run disk
      let (outcomes, disk) := commandsServer runs disk
      (outcome :: outcomes, disk)

/-- The state of the last run that was successful, after one that was in effect before. -/
def lastState (state : Option Bool) : List ServerRun → List Outcome → Option Bool
  | run :: runs, outcome :: outcomes =>
      lastState (if outcome.status = 0 then some run.command.newState else state) runs outcomes
  | _, _ => state

/-- **The last successful command is in effect.** After any runs of the command, the configuration
of the server has the state of the last one that has exited with 0, and is what it was
otherwise. -/
theorem commands_take_effect (runs : List ServerRun) (disk : Disk) (defaultKeyFile : KeyFile) :
    serverConfig (commandsServer runs disk).2 defaultKeyFile =
        (serverConfig disk defaultKeyFile).map (fun result =>
          ((lastState none runs (commandsServer runs disk).1).getD result.1, result.2)) ∧
      ∀ path, path ≠ "/etc/eos-updater/eos-update-server.conf" →
        (commandsServer runs disk).2 path = disk path := by
  -- a state in effect is what the configuration has been changed to
  suffices hruns : ∀ (disk' : Disk) (state : Option Bool),
      serverConfig disk' defaultKeyFile = (serverConfig disk defaultKeyFile).map
        (fun result => (state.getD result.1, result.2)) →
      (∀ path, path ≠ "/etc/eos-updater/eos-update-server.conf" → disk' path = disk path) →
      serverConfig (commandsServer runs disk').2 defaultKeyFile =
          (serverConfig disk defaultKeyFile).map (fun result =>
            ((lastState state runs (commandsServer runs disk').1).getD result.1, result.2)) ∧
        ∀ path, path ≠ "/etc/eos-updater/eos-update-server.conf" →
          (commandsServer runs disk').2 path = disk path by
    refine hruns disk none ?_ fun _ _ => rfl
    cases serverConfig disk defaultKeyFile <;> rfl
  induction runs with
  | nil => exact fun disk' state hconfig hother => ⟨hconfig, hother⟩
  | cons run runs ih =>
      intro disk' state hconfig hother
      cases hrun : commandServer run disk' with
      | mk outcome disk'' =>
          have hcommands : commandsServer (run :: runs) disk' =
              (outcome :: (commandsServer runs disk'').1, (commandsServer runs disk'').2) := by
            rw [commandsServer, hrun]
          rw [hcommands]
          refine ih disk'' _ ?_ fun path hpath => ?_
          · by_cases hstatus : outcome.status = 0
            · rw [if_pos hstatus, serverConfig_commandServer defaultKeyFile hrun hstatus, hconfig]
              cases serverConfig disk defaultKeyFile <;> rfl
            · rw [if_neg hstatus]
              rcases commandServer_cases hrun with ⟨-, rfl⟩ | ⟨hzero, -⟩
              · exact hconfig
              · exact absurd hzero hstatus
          · rw [← hother path hpath]
            rcases commandServer_cases hrun with ⟨-, rfl⟩ | ⟨-, _, _, _, -, -, ⟨-, rfl⟩ | rfl⟩
            · rfl
            · rfl
            · exact Function.update_of_ne hpath ..

/-! ### The programs that read the state -/

/-- Without the option for it, no configuration file is given. -/
theorem configFile_of_optionsInit {parseRefspec : Text → Option Text} {argv : List Eus.Argument}
    {options options' : Eus.Options} (hargv : ∀ path, .configFile path ∉ argv)
    (h : argv.foldlM (Eus.Options.set parseRefspec) options = .ok options') :
    options'.configFile = options.configFile := by
  induction argv generalizing options with
  | nil => exact Except.ok.inj h ▸ rfl
  | cons argument argv ih =>
      simp only [List.foldlM_cons, bind, Except.bind] at h
      split at h
      · cases h
      next options'' hset =>
      rw [ih (fun path hmem => hargv path (List.mem_cons_of_mem _ hmem)) h]
      cases argument with
      | localPort value =>
          simp only [Eus.Options.set, Eus.localPortGoption] at hset
          split at hset
          · cases hset
          · exact Except.ok.inj hset ▸ rfl
      | timeout seconds => exact Except.ok.inj hset ▸ rfl
      | serveRemote value =>
          simp only [Eus.Options.set, Eus.serveRemoteGoption] at hset
          split at hset
          · exact Except.ok.inj hset ▸ rfl
          · cases hset
      | portFile path => exact Except.ok.inj hset ▸ rfl
      | configFile path => exact absurd List.mem_cons_self (hargv path)
      | invalid error => cases hset

/-- A server without the option for a configuration file reads that of the command. -/
theorem readConfigFile_eq_serverConfig {env : Eus.Environment} {argv : List Eus.Argument}
    {defaultKeyFile : KeyFile} {options : Eus.Options} (hargv : ∀ path, .configFile path ∉ argv)
    (hoptions : Eus.optionsInit env.parseRefspec argv = .ok options)
    (hdirs : env.dirs = directories) (hdefault : env.defaultKeyFile = defaultKeyFile) :
    Eus.readConfigFile env.disk env.dirs env.defaultKeyFile options.configFile =
      serverConfig env.disk defaultKeyFile := by
  rw [configFile_of_optionsInit hargv hoptions, hdirs, hdefault, serverConfig]

/-- **Disabling.** After a successful `disable`, the server does not get to its main loop, and a
successful update of the advertisement leaves no service file. -/
theorem disable_withdraws (isRoot : Bool) (saveToFile : KeyFile → Except GError Unit)
    (disk disk' : Disk) (outcome : Outcome) (defaultKeyFile : KeyFile)
    (h : commandServer ⟨.disable, isRoot, saveToFile⟩ disk = (outcome, disk'))
    (hstatus : outcome.status = 0) :
    (∀ (env : Eus.Environment) (argv : List Eus.Argument), env.disk = disk' →
      env.dirs = directories → env.defaultKeyFile = defaultKeyFile →
      (∀ path, .configFile path ∉ argv) → ∀ server, Eus.main env argv ≠ .ok server) ∧
    ∀ (env : Avahi.Environment) (sysroot : Avahi.Sysroot) (io : Avahi.DirectoryIO)
      (directory : Avahi.Directory), io.delete (Avahi.ostreeServiceFile 0) = none →
      (Avahi.main (.ok none) disk' directories defaultKeyFile env sysroot io directory).1 =
        .status .ok →
      (Avahi.main (.ok none) disk' directories defaultKeyFile env sysroot io directory).2.lookup
        (Avahi.ostreeServiceFile 0) = none := by
  have hconfig := serverConfig_commandServer defaultKeyFile h hstatus
  constructor
  · rintro env argv rfl hdirs hdefault hargv server hmain
    obtain ⟨options, configs, hoptions, hread, -⟩ := Eus.serves_of_main hmain
    -- the server has read that it is to advertise, and the configuration says it is not
    rw [readConfigFile_eq_serverConfig hargv hoptions hdirs hdefault, hconfig] at hread
    cases hbefore : serverConfig disk defaultKeyFile with
    | error failure =>
        rw [hbefore] at hread
        cases hread
    | ok result =>
        rw [hbefore] at hread
        cases hread
  · intro env sysroot io directory hdelete hok
    rw [serverConfig] at hconfig
    cases hbefore : serverConfig disk defaultKeyFile with
    | error failure =>
        rw [hbefore] at hconfig
        rw [Avahi.main] at hok
        simp only [hconfig, Except.map] at hok
        cases failure <;> cases hok
    | ok result =>
        rw [hbefore] at hconfig
        exact Avahi.lookup_of_main_ok hdelete hconfig hok

/-! ### The sources of the updater -/

theorem mem_addDownloadSources {found order : List Updater.DownloadSource} {texts : List String}
    (h : Updater.addDownloadSources found texts = .ok order) :
    (∀ source ∈ found, source ∈ order) ∧ ("main" ∈ texts → .main ∈ order) := by
  induction texts generalizing found with
  | nil => exact ⟨fun _ hmem => Except.ok.inj h ▸ hmem, nofun⟩
  | cons text texts ih =>
      simp only [Updater.addDownloadSources, bind, Except.bind] at h
      split at h
      · cases h
      next source hsource =>
      split at h
      · cases h
      obtain ⟨hfound, hmain⟩ := ih h
      refine ⟨fun other hother => hfound other (List.mem_append_left _ hother), fun hmem => ?_⟩
      rcases List.mem_cons.1 hmem with rfl | hmem
      · have hstrip : Updater.strStrip "main" = "main" := by decide +kernel
        rw [hstrip] at hsource
        obtain rfl : .main = source := Except.ok.inj hsource
        exact hfound _ (List.mem_append_right _ (List.mem_singleton_self _))
      · exact hmain hmem

/-- Where the command finds the main source, it has found the list that the updater finds. -/
theorem downloadOrder_eq {paths : List String} {defaultPath path : String}
    {defaultKeyFile keyFile : KeyFile} {strv : List String}
    (hfile : fileForKey disk defaultPath defaultKeyFile "Download" "Order" paths =
      .ok (some (keyFile, path)))
    (hvalue : keyFile.getStringList "Download" "Order" = .ok strv)
    (hmain : "main" ∈ downloadOrder disk paths) : downloadOrder disk paths = strv := by
  induction paths with
  | nil => cases hmain
  | cons other paths ih =>
      rw [downloadOrder] at hmain ⊢
      rw [fileForKey] at hfile
      cases hdisk : disk other with
      | missing =>
          rw [hdisk] at hfile hmain
          exact ih hfile hmain
      | unloadable error parsed found =>
          rw [hdisk] at hfile
          cases hfile
      | wellFormed conf =>
          rw [hdisk] at hfile hmain
          simp only [ConfigContents.load] at hfile hmain ⊢
          split at hfile
          · obtain ⟨rfl, -⟩ := Prod.mk.inj (Option.some.inj (Except.ok.inj hfile))
            rw [hvalue]
          · -- the updater goes on to the next file only if this one does not have the key
            next hkey =>
            cases hconf : conf.getStringList "Download" "Order" with
            | error e =>
                rw [hconf] at hmain
                exact ih hfile hmain
            | ok order => exact absurd (KeyFile.hasKey_of_getParsed hconf) hkey

/-- A file that is not among the layers does not matter for the download order. -/
theorem downloadOrder_update {front : String} {contents : ConfigContents} {paths : List String}
    (h : front ∉ paths) :
    downloadOrder (Function.update disk front contents) paths = downloadOrder disk paths := by
  induction paths with
  | nil => rfl
  | cons path paths ih =>
      rw [List.mem_cons, not_or] at h
      rw [downloadOrder, downloadOrder, Function.update_of_ne (Ne.symm h.1), ih h.2]

/-- Where `main` is listed, the order has it. -/
theorem main_mem_of_strv {strv : List String} {order : List Updater.DownloadSource}
    (h : Updater.strvToDownloadOrder strv = .ok order) (hmain : "main" ∈ strv) :
    .main ∈ order := by
  simp only [Updater.strvToDownloadOrder, bind, Except.bind] at h
  split at h
  · cases h
  next found hfound =>
  split at h
  · cases h
  · exact Except.ok.inj h ▸ (mem_addDownloadSources hfound).2 hmain

/-- Where the server has been enabled, the command has found the main source. -/
theorem main_mem_of_commandServer (h : commandServer run disk = (outcome, disk'))
    (hstatus : outcome.status = 0) (hcommand : run.command = .enable) :
    "main" ∈ downloadOrder disk' eosUpdaterConfs := by
  have hbefore : "main" ∈ downloadOrder disk eosUpdaterConfs := by
    by_contra hnot
    rw [commandServer] at h
    split at h
    · obtain ⟨rfl, -⟩ := Prod.mk.inj h
      cases hstatus
    · rw [if_pos ⟨by rw [hcommand]; rfl, hnot⟩] at h
      obtain ⟨rfl, -⟩ := Prod.mk.inj h
      cases hstatus
  rcases commandServer_cases h with ⟨-, rfl⟩ | ⟨-, _, _, _, -, -, ⟨-, rfl⟩ | rfl⟩
  · exact hbefore
  · exact hbefore
  · rwa [downloadOrder_update (by decide +kernel)]

/-- **Enabling.** After a successful `enable`, the server is not found to be disabled, and the
updater takes updates from the main source, if it can read its configuration at all. -/
theorem enable_has_main (isRoot : Bool) (saveToFile : KeyFile → Except GError Unit)
    (disk disk' : Disk) (outcome : Outcome) (defaultKeyFile : KeyFile)
    (h : commandServer ⟨.enable, isRoot, saveToFile⟩ disk = (outcome, disk'))
    (hstatus : outcome.status = 0) :
    (∀ (env : Eus.Environment) (argv : List Eus.Argument), env.disk = disk' →
      env.dirs = directories → env.defaultKeyFile = defaultKeyFile →
      (∀ path, .configFile path ∉ argv) → Eus.main env argv ≠ .error (.status .disabled)) ∧
    ∀ (updaterKeyFile : KeyFile) (sources : Updater.SourcesConfig) (left : Option GError),
      Updater.readConfig disk' (ConfigFile.new eosUpdaterConfs
        "/com/endlessm/Updater/config/eos-updater.conf" updaterKeyFile) = .ok (sources, left) →
      .main ∈ sources.downloadOrder := by
  constructor
  · rintro env argv rfl hdirs hdefault hargv hmain
    have hconfig := serverConfig_commandServer defaultKeyFile h hstatus
    obtain ⟨options, configs, hoptions, hread⟩ := Eus.disabled_of_main hmain
    rw [readConfigFile_eq_serverConfig hargv hoptions hdirs hdefault, hconfig] at hread
    cases hbefore : serverConfig disk defaultKeyFile with
    | error failure =>
        rw [hbefore] at hread
        cases hread
    | ok result =>
        rw [hbefore] at hread
        cases hread
  · intro updaterKeyFile sources left hread
    -- the command asks for `main` in the order that the updater is going to read
    have hmain := main_mem_of_commandServer h hstatus rfl
    obtain ⟨strv, hstrv, horder⟩ :=
      (Updater.readFrom_of_readConfig (ConfigFile.cached_new _ _ _) hread).order
    rw [Updater.Configures, ConfigFile.fileValue] at hstrv
    split at hstrv
    · cases hstrv
    · cases hstrv
    next keyFile path hfile =>
    cases hvalue : keyFile.getStringList "Download" "Order" with
    | error e =>
        rw [hvalue] at hstrv
        cases hstrv
    | ok found =>
        rw [hvalue] at hstrv
        obtain rfl : found = strv := Except.ok.inj hstrv
        have hfound : downloadOrder disk' eosUpdaterConfs = found :=
          downloadOrder_eq hfile hvalue hmain
        exact main_mem_of_strv horder (hfound ▸ hmain)

/-! ### A system as it is installed -/

/-- The files of a system as it is installed, with updates that are not advertised. -/
def installedDisk : Disk := fun path =>
  if path = "/usr/share/eos-updater/eos-update-server.conf" then
    .wellFormed (KeyFile.empty.setBoolean "Local Network Updates" "AdvertiseUpdates" false)
  else if path = "/usr/share/eos-updater/eos-updater.conf" then
    .wellFormed ((KeyFile.empty.setValue "Download" "Order" "volume;main;").setValue "Download"
      "OverrideUris" "")
  else .missing

/-- A run as root, with files that can be written. -/
def rootRun (command : ServerCommand) : ServerRun := ⟨command, true, fun _ => .ok ()⟩

/-- The default configuration of the server. -/
def defaultServerKeyFile : KeyFile :=
  KeyFile.empty.setBoolean "Local Network Updates" "AdvertiseUpdates" false

/-- A server that reads some files. -/
def serverOn (disk : Disk) : Eus.Environment :=
  { Eus.sampleEnvironment with disk := disk, defaultKeyFile := defaultServerKeyFile }

/-- An update of the advertisement of a system with a ref. -/
def sampleAvahiMain (disk : Disk) (directory : Avahi.Directory) : Avahi.Exit × Avahi.Directory :=
  Avahi.main (.ok none) disk directories defaultServerKeyFile Avahi.sampleEnvironment
    (Avahi.bootedSysroot [⟨"com.endlessm.Os", "eos3"⟩]) .reliable directory

/-- A system that advertises its updates stops to do so: the server does not start any more, and the
service file that was there is gone. -/
theorem enabledDisk_disable :
    let enabled := (commandServer (rootRun .enable) installedDisk).2
    let disabled := commandServer (rootRun .disable) enabled
    let advertised := (sampleAvahiMain enabled GHashTable.empty).2
    disabled.1.status = 0 ∧ (∀ server, Eus.main (serverOn disabled.2) [] ≠ .ok server) ∧
      advertised.lookup (Avahi.ostreeServiceFile 0) ≠ none ∧
      (sampleAvahiMain disabled.2 advertised).2.lookup (Avahi.ostreeServiceFile 0) = none := by
  intro enabled disabled advertised
  have hstatus : disabled.1.status = 0 := by decide +kernel
  obtain ⟨hserver, hadvertised⟩ := disable_withdraws true (fun _ => .ok ()) enabled _ _
    defaultServerKeyFile rfl hstatus
  exact ⟨hstatus, hserver _ [] rfl rfl rfl nofun, by decide +kernel,
    hadvertised _ _ .reliable advertised rfl (by decide +kernel)⟩

/-- A system as it is installed starts to advertise its updates. -/
theorem installedDisk_enable :
    (commandServer (rootRun .enable) installedDisk).1.status = 0 ∧
      Eus.main (serverOn (commandServer (rootRun .enable) installedDisk).2) [] ≠
        .error (.status .disabled) := by
  have hstatus : (commandServer (rootRun .enable) installedDisk).1.status = 0 := by decide +kernel
  exact ⟨hstatus, (enable_has_main true (fun _ => .ok ()) installedDisk _ _ defaultServerKeyFile
    rfl hstatus).1 _ [] rfl rfl rfl nofun⟩

end Ctl
