import EosUpdater.UpdateServer.Config
import EosUpdater.UpdateServer.Repo
import EosUpdater.UpdateServer.Timeout

/-!
# The update server

`eos-update-server.c`: the options, the repositories that are added to the server from its
configuration, and the socket it listens on. Each repository is served below its number, and the
one with the number 0 also without a number in front, as it was when there was only one.

libsoup chooses the handler for a request; this is a parameter, with what is documented of it
(`SoupServer.Documented`). Numbers are printed without zeros in front, so that a path is below one
of them only (`eq_of_below`), and where a number is not a whole element of a path, there is no file
(`handleStripped_refusal`).
-/

namespace Eus

open Euu GLib

/-! ### Options -/

/-- `Options`. -/
structure Options where
  localPort : UInt16
  rawPortPath : Option String
  timeoutSeconds : Int32
  servedRemote : Text
  configFile : Option String
deriving DecidableEq, Repr

/-- What GOption finds on the command line. -/
inductive Argument
  | localPort (value : String)
  | timeout (seconds : Int32)
  | serveRemote (value : Text)
  | portFile (path : String)
  | configFile (path : String)
  | invalid (error : GError)
deriving DecidableEq, Repr

/-- `G_OPTION_ERROR_FAILED`. -/
def optionError (message : String) : GError := ⟨.other "g-option-context-error-quark" 2, message⟩

/-- `local_port_goption`. -/
def localPortGoption (options : Options) (value : String) : Except GError Options :=
  match asciiStringToUnsigned value 1 65535 with
  | .error localError =>
      .error (optionError ("Invalid port number " ++ value ++ ": " ++ localError.message))
  | .ok number => .ok { options with localPort := UInt16.ofNat number }

/-- `serve_remote_goption`, with the remote that `ostree_parse_refspec` finds in a refspec. -/
def serveRemoteGoption (parseRefspec : Text → Option Text) (options : Options) (value : Text) :
    Except GError Options :=
  if parseRefspec (value ++ ":test".toList) = some value then
    .ok { options with servedRemote := value }
  else .error (optionError ("Badly-formed remote name " ++ String.ofList value))

/-- What an argument sets. -/
def Options.set (parseRefspec : Text → Option Text) (options : Options) :
    Argument → Except GError Options
  | .localPort value => localPortGoption options value
  | .timeout seconds => .ok { options with timeoutSeconds := seconds }
  | .serveRemote value => serveRemoteGoption parseRefspec options value
  | .portFile path => .ok { options with rawPortPath := some path }
  | .configFile path => .ok { options with configFile := some path }
  | .invalid error => .error error

/-- `options_init`. -/
def optionsInit (parseRefspec : Text → Option Text) (argv : List Argument) :
    Except GError Options :=
  argv.foldlM (Options.set parseRefspec) ⟨0, none, 200, "eos".toList, none⟩

/-! ### Starting -/

/-- The exit codes of `main`. -/
inductive ExitStatus
  | ok
  | failed
  | invalidArguments
  | badConfiguration
  | disabled
  | noSockets
deriving DecidableEq, Repr

/-- The value of an exit code. -/
def ExitStatus.number : ExitStatus → ℕ
  | .ok => 0
  | .failed => 1
  | .invalidArguments => 2
  | .badConfiguration => 3
  | .disabled => 4
  | .noSockets => 5

/-- How `main` ends before its main loop. -/
inductive Exit
  | status (status : ExitStatus)
  | aborted
deriving DecidableEq, Repr

/-- The sockets that the server can listen on. -/
structure Sockets where
  /-- `soup_server_listen_local`. -/
  listenLocal : UInt16 → Except GError Unit
  /-- The port of `get_first_uri_from_server`. -/
  firstPort : Except GError ℤ
  /-- `g_file_replace_contents`. -/
  replaceContents : String → String → Except GError Unit
  /-- `sd_listen_fds`, and the text for `errno` after it. -/
  sdListenFds : ℤ
  strerror : String
  /-- `g_socket_new_from_fd` for the first socket. -/
  newFromFd : Except GError Unit
  /-- `soup_server_listen_socket`. -/
  listenSocket : Except GError Unit

/-- `listen_local`. -/
def listenLocal (sockets : Sockets) (options : Options) : Except GError Unit := do
  sockets.listenLocal options.localPort
  match options.rawPortPath with
  | none => return ()
  | some path =>
      let port ← sockets.firstPort
      sockets.replaceContents path (toString port)

/-- `start_listening`. -/
def startListening (sockets : Sockets) (options : Options) : Except GError Unit :=
  if options.localPort > 0 ∨ options.rawPortPath.isSome then listenLocal sockets options
  else if sockets.sdListenFds < 0 then
    .error ⟨.ioFailed, "Failed to get listen sockets count from systemd: " ++ sockets.strerror⟩
  else if sockets.sdListenFds = 0 then
    .error ⟨.ioFailed, "Received zero listen sockets from system"⟩
  else if sockets.sdListenFds > 1 then
    .error ⟨.ioFailed, "Expected only one listen socket from systemd, got "
      ++ toString sockets.sdListenFds⟩
  else
    match sockets.newFromFd with
    | .error error => .error { error with
        message := "Failed to initialize listen socket from systemd" ++ error.message }
    | .ok () => sockets.listenSocket

/-- What the server runs on. -/
structure Environment where
  parseRefspec : Text → Option Text
  disk : String → ConfigContents
  dirs : Directories
  defaultKeyFile : KeyFile
  /-- `ostree_repo_new` and `ostree_repo_open`. -/
  openRepo : Text → Except GError OstreeRepo
  /-- `ostree_repo_new_default` and `ostree_repo_open`. -/
  openDefaultRepo : Except GError OstreeRepo
  /-- `timeout_data_maybe_setup_quit_file`. -/
  setupQuitFile : Except GError Unit
  sockets : Sockets

/-- The server in its main loop. -/
structure UpdateServer where
  repos : List EusRepo
  timeout : TimeoutData

/-- `add_repo`. -/
def addRepo (repos : List EusRepo) (repo : Except GError OstreeRepo) (rootPath remoteName : Text) :
    Except Exit (List EusRepo) :=
  match repo with
  | .error _ => .error (.status .failed)
  | .ok repo =>
      match EusRepo.new repo rootPath remoteName with
      | .error _ => .error (.status .failed)
      | .ok eusRepo => .ok (repos ++ [eusRepo])

/-- The root path of a repository, as it is printed from its index. -/
def numberPath (index : UInt16) : Text := '/' :: (Nat.repr index.toNat).toList

/-- The loop of `main` over the configured repositories. -/
def addRepos (env : Environment) :
    List RepoConfig → List EusRepo → Except Exit (List EusRepo)
  | [], repos => .ok repos
  | config :: configs, repos => do
      let ostreeRepo := env.openRepo config.path.toList
      let remoteName := config.remoteName.toList
      -- for compatibility with the server that had a single repository
      let repos ← if config.index = 0 then addRepo repos ostreeRepo [] remoteName else .ok repos
      let repos ← addRepo repos ostreeRepo (numberPath config.index) remoteName
      addRepos env configs repos

/-- The repositories that `main` adds. -/
def allRepos (env : Environment) (options : Options) (configs : List RepoConfig) :
    Except Exit (List EusRepo) := do
  let repos ← addRepos env configs []
  if configs.length = 0 then
    let repos ← addRepo repos env.openDefaultRepo [] options.servedRemote
    addRepo repos env.openDefaultRepo (numberPath 0) options.servedRemote
  else return repos

/-- `main`, up to its main loop. -/
def main (env : Environment) (argv : List Argument) : Except Exit UpdateServer :=
  match optionsInit env.parseRefspec argv with
  | .error _ => .error (.status .invalidArguments)
  | .ok options =>
      match readConfigFile env.disk env.dirs env.defaultKeyFile options.configFile with
      | .error .aborted => .error .aborted
      | .error (.error _) => .error (.status .badConfiguration)
      | .ok (advertiseUpdates, configs) =>
          if ¬ advertiseUpdates then .error (.status .disabled)
          else
            match allRepos env options configs with
            | .error exit => .error exit
            | .ok repos =>
                match env.setupQuitFile with
                | .error _ => .error (.status .failed)
                | .ok () =>
                    match startListening env.sockets options with
                    | .error _ => .error (.status .noSockets)
                    | .ok () => .ok ⟨repos, .init options.timeoutSeconds⟩

/-! ### Requests -/

/-- A `SoupServer`: the path of the handler for a request, of those with handlers. -/
structure SoupServer where
  handlerFor : List Text → Text → Option Text

/-- `soup_server_add_handler`: a handler is called for the paths below its own, unless there is a
closer one. -/
structure SoupServer.Documented (soup : SoupServer) : Prop where
  registered {paths : List Text} {path root : Text} (h : soup.handlerFor paths path = some root) :
    root ∈ paths ∧ root <+: path
  closest {paths : List Text} {path root : Text} (hmem : root ∈ paths)
    (hbelow : root ++ ['/'] <+: path) :
    ∃ found, soup.handlerFor paths path = some found ∧ root.length ≤ found.length

/-- A request to the server, as libsoup passes it on to `server_cb`. -/
def UpdateServer.handle (soup : SoupServer) (ostree : Libostree) (server : UpdateServer)
    (files : Files) (path : Text) : Response × Files :=
  match soup.handlerFor (server.repos.map (·.rootPath)) path with
  | none => (.ofStatus .notFound, files)
  | some root =>
      match server.repos.find? (fun repo => repo.rootPath = root) with
      | none => (.ofStatus .notFound, files)
      | some repo => repo.handlePath ostree files path

/-! ### What is added -/

variable {repos repos' : List EusRepo} {eusRepo : EusRepo} {repo : OstreeRepo}
  {rootPath remoteName path : Text} {index : UInt16}

/-- A repository that can be opened is added. -/
theorem addRepo_ok {opened : Except GError OstreeRepo}
    (h : addRepo repos opened rootPath remoteName = .ok repos') :
    ∃ repo, opened = .ok repo ∧ repos' = repos ++ [.of repo (setRootPath rootPath) remoteName] := by
  rw [addRepo.eq_def] at h
  split at h
  · cases h
  · next repo =>
    split at h
    · cases h
    · next hnew =>
      rw [eq_of_new hnew] at h
      exact ⟨repo, rfl, (Except.ok.inj h).symm⟩

/-! ### Numbers in paths -/

theorem isDigit_of_mem_numberPath {c : Char} (h : c ∈ numberPath index) :
    c = '/' ∨ c.isDigit = true := by
  rw [numberPath, List.mem_cons] at h
  exact h.imp_right isDigit_of_mem_repr

/-- A number path has at least one digit. -/
theorem exists_numberPath (index : UInt16) :
    ∃ c digits, numberPath index = '/' :: c :: digits ∧ c.isDigit = true ∧
      ∀ d ∈ digits, d.isDigit = true := by
  have hdigits : ∀ c ∈ (Nat.repr index.toNat).toList, c.isDigit = true :=
    fun c hc => isDigit_of_mem_repr hc
  rw [numberPath]
  cases hrepr : (Nat.repr index.toNat).toList with
  | nil =>
      rw [Nat.toList_repr] at hrepr
      exact absurd hrepr Nat.toDigits_ne_nil
  | cons c digits =>
      rw [hrepr, List.forall_mem_cons] at hdigits
      exact ⟨c, digits, rfl, hdigits⟩

theorem numberPath_inj {other : UInt16} (h : numberPath index = numberPath other) :
    index = other := by
  have hdigits : Nat.toDigits 10 index.toNat = Nat.toDigits 10 other.toNat := by
    rw [← Nat.toList_repr, ← Nat.toList_repr]
    exact (List.cons.inj h).2
  -- the digits can be read back
  rw [← UInt16.toNat_inj, ← Nat.ofDigitChars_ten_toDigits (n := index.toNat), hdigits,
    Nat.ofDigitChars_ten_toDigits]

@[simp] theorem setRootPath_nil : setRootPath [] = [] := rfl

@[simp] theorem setRootPath_numberPath (index : UInt16) :
    setRootPath (numberPath index) = numberPath index := by
  obtain ⟨c, digits, hpath, hc, hdigits⟩ := exists_numberPath index
  -- the last character is a digit, so that there is no slash to cut off
  have hlast : (c :: digits).getLast? ≠ some '/' := by
    intro hslash
    have hmem : '/' ∈ c :: digits := List.mem_of_getLast? hslash
    rcases List.mem_cons.1 hmem with rfl | hmem
    · cases hc
    · cases hdigits _ hmem
  rw [setRootPath, hpath]
  simp [hlast]

theorem slash_notMem_numberPath_tail : '/' ∉ (numberPath index).tail := by
  intro hmem
  cases isDigit_of_mem_repr hmem

/-- A path is below one number only, and a number that is longer in characters is not in front. -/
theorem eq_of_below {other : UInt16} (hbelow : numberPath index ++ ['/'] <+: path)
    (hother : numberPath other <+: path) (hlength : (numberPath index).length ≤
      (numberPath other).length) : index = other := by
  have hfront : numberPath index <+: numberPath other :=
    List.prefix_of_prefix_length_le ((List.prefix_append _ _).trans hbelow) hother hlength
  rcases hlength.eq_or_lt with heq | hlt
  · exact numberPath_inj (hfront.eq_of_length heq)
  · -- otherwise there is a slash in a number
    have hslash : numberPath index ++ ['/'] <+: numberPath other :=
      List.prefix_of_prefix_length_le hbelow hother (by simpa using hlt)
    obtain ⟨rest, hrest⟩ := hslash
    have htail : '/' ∈ (numberPath other).tail := by
      rw [← hrest, numberPath]
      simp
    exact absurd htail slash_notMem_numberPath_tail

theorem dots_infix_append {front rest : Text} (h : '.' ∉ front) :
    "..".toList <:+: front ++ rest ↔ "..".toList <:+: rest := by
  induction front with
  | nil => rfl
  | cons c front ih =>
      rw [List.mem_cons, not_or] at h
      rw [List.cons_append, List.infix_cons_iff, ih h.2, or_iff_right]
      rintro ⟨suffix, hsuffix⟩
      exact h.1 (List.cons.inj hsuffix).1

theorem dot_notMem_numberPath : '.' ∉ numberPath index := by
  intro hmem
  rcases isDigit_of_mem_numberPath hmem with hslash | hdigit
  · cases hslash
  · cases hdigit

/-! ### Paths of no file -/

/-- What the paths of the files of a repository begin with. -/
def places : List Text :=
  ["/objects/".toList, "/deltas/".toList, "/extensions/".toList, "/config".toList,
    "/summary".toList, "/refs/".toList]

/-- The response where there is no such file. -/
def refusal (stripped : Text) : Response :=
  .ofStatus (if "..".toList <:+: stripped then .forbidden else .notFound)

/-- A request outside the known places is refused. -/
theorem handleStripped_refusal {ostree : Libostree} {server : EusRepo} {files : Files}
    {stripped : Text} (h : ∀ place ∈ places, ¬ place <+: stripped) :
    server.handleStripped ostree files stripped = (refusal stripped, files) := by
  rw [places] at h
  simp only [List.forall_mem_cons, List.not_mem_nil, false_implies, implies_true, and_true] at h
  obtain ⟨hobjects, hdeltas, hextensions, hconfig, hsummary, hrefs⟩ := h
  have hasIs : pathIsHandledAsIs stripped = false := by
    rw [pathIsHandledAsIs, if_neg hobjects, decide_eq_false_iff_not]
    exact not_or.2 ⟨hdeltas, hextensions⟩
  have hisSummary : pathIsSummary stripped = false := by
    rw [pathIsSummary, decide_eq_false_iff_not]
    rintro (rfl | rfl)
    · exact hsummary List.prefix_rfl
    · exact hsummary ⟨".sig".toList, rfl⟩
  have hheads : ¬ "/refs/heads/".toList <+: stripped :=
    fun hheads => hrefs (List.IsPrefix.trans ⟨"heads/".toList, rfl⟩ hheads)
  have hmirrors : ¬ "/refs/mirrors/".toList <+: stripped :=
    fun hmirrors => hrefs (List.IsPrefix.trans ⟨"mirrors/".toList, rfl⟩ hmirrors)
  have hisConfig : stripped ≠ "/config".toList := by
    rintro rfl
    exact hconfig List.prefix_rfl
  rw [EusRepo.handleStripped, refusal]
  simp only [hobjects, hasIs, hisConfig, hisSummary, hheads, hmirrors, false_and, if_false,
    Bool.false_eq_true]
  split <;> rfl

/-- The known places begin with a slash. -/
theorem not_place_of_head {stripped : Text} (h : stripped.head? ≠ some '/') :
    ∀ place ∈ places, ¬ place <+: stripped := by
  have hslash : ∀ place ∈ places, place.head? = some '/' := by decide
  rintro place hplace ⟨rest, rfl⟩
  have hhead := hslash place hplace
  cases place with
  | nil => cases hhead
  | cons c place => exact h hhead

/-- No known place begins with a digit. -/
theorem not_place_of_digit {c : Char} {rest : Text} (h : c.isDigit = true) :
    ∀ place ∈ places, ¬ place <+: '/' :: c :: rest := by
  have hletter : ∀ place ∈ places, place[1]?.map Char.isDigit = some false := by decide
  rintro place hplace ⟨tail, htail⟩
  have hsecond := hletter place hplace
  obtain ⟨d, hd, hdigit⟩ := Option.map_eq_some_iff.1 hsecond
  have heq : (place ++ tail)[1]? = some d := by
    rw [List.getElem?_append_left (List.getElem?_eq_some_iff.1 hd).1, hd]
  rw [htail] at heq
  cases heq
  rw [h] at hdigit
  cases hdigit

end Eus
