import Mathlib.Data.List.MinMax
import EosUpdater.UpdateServer.Agreement
import EosUpdater.UpdateServer.Main

/-!
# What the update server serves

A request is answered from the repository whose number it begins with, as the layers of the
configuration define it, or else from that with the number 0; if it gets to another handler there
is nothing in the response (`handle_confined`). So what is served without a number is what is served
below the number 0 (`responses_without_number`).
-/

namespace Eus

open Euu GLib

variable {env : Environment} {options : Options} {configs : List RepoConfig}
  {repos repos' : List EusRepo} {repo : OstreeRepo} {remoteName path : Text} {index : UInt16}

/-! ### What is served -/

/-- What is served below a number: a repository, and the remote whose refs it has. -/
inductive Provides (env : Environment) (options : Options) (configs : List RepoConfig) :
    UInt16 → OstreeRepo → Text → Prop
  | configured {config : RepoConfig} {repo : OstreeRepo} (hmem : config ∈ configs)
      (hopen : env.openRepo config.path.toList = .ok repo) :
      Provides env options configs config.index repo config.remoteName.toList
  | default {repo : OstreeRepo} (hnone : configs = []) (hopen : env.openDefaultRepo = .ok repo) :
      Provides env options configs 0 repo options.servedRemote

/-- Where a repository is served: below its number, and the one with the number 0 also without. -/
def IsRoot (index : UInt16) (root : Text) : Prop :=
  root = numberPath index ∨ index = 0 ∧ root = []

/-- One thing is served below a number. -/
theorem Provides.unique {other : OstreeRepo} {otherRemote : Text}
    (hnodup : (configs.map (·.index)).Nodup)
    (h : Provides env options configs index repo remoteName)
    (hother : Provides env options configs index other otherRemote) :
    repo = other ∧ remoteName = otherRemote := by
  cases h with
  | @configured config _ hmem hopen =>
      generalize hindex : config.index = index at hother
      cases hother with
      | @configured config' _ hmem' hopen' =>
          obtain rfl := List.inj_on_of_nodup_map hnodup hmem hmem' hindex
          rw [hopen] at hopen'
          exact ⟨Except.ok.inj hopen', rfl⟩
      | default hnone =>
          rw [hnone] at hmem
          cases hmem
  | default hnone hopen =>
      generalize hindex : (0 : UInt16) = index at hother
      cases hother with
      | configured hmem' =>
          rw [hnone] at hmem'
          cases hmem'
      | default _ hopen' =>
          rw [hopen] at hopen'
          exact ⟨Except.ok.inj hopen', rfl⟩

/-- What one configuration adds. -/
theorem addRepos_cons_ok {config : RepoConfig}
    (h : addRepos env (config :: configs) repos = .ok repos') :
    ∃ repo more, env.openRepo config.path.toList = .ok repo ∧
      (∀ eusRepo, eusRepo ∈ more ↔ ∃ root, IsRoot config.index root ∧
        eusRepo = .of repo root config.remoteName.toList) ∧
      addRepos env configs (repos ++ more) = .ok repos' := by
  simp only [addRepos] at h
  by_cases hindex : config.index = 0
  · simp only [hindex, if_true] at h
    cases hfirst : addRepo repos (env.openRepo config.path.toList) []
        config.remoteName.toList with
    | error exit => rw [hfirst] at h; cases h
    | ok repos₁ =>
        rw [hfirst] at h
        obtain ⟨repo, hopen, rfl⟩ := addRepo_ok hfirst
        simp only [bind, Except.bind] at h
        split at h
        · cases h
        next repos₂ hsecond =>
        -- the same repository is opened twice, for `/` and for its number
        obtain ⟨repo', hopen', rfl⟩ := addRepo_ok hsecond
        rw [hopen] at hopen'
        obtain rfl := Except.ok.inj hopen'
        rw [List.append_assoc] at h
        refine ⟨repo, _, hopen, fun eusRepo => ?_, h⟩
        simp only [setRootPath_nil, setRootPath_numberPath, List.singleton_append, List.mem_cons,
          List.not_mem_nil, or_false, IsRoot, hindex, true_and]
        constructor
        · rintro (rfl | rfl)
          · exact ⟨_, .inr rfl, rfl⟩
          · exact ⟨_, .inl rfl, rfl⟩
        · rintro ⟨root, rfl | rfl, rfl⟩
          · exact .inr rfl
          · exact .inl rfl
  · simp only [hindex, if_false, bind, Except.bind] at h
    split at h
    · cases h
    next repos₁ hadd =>
    obtain ⟨repo, hopen, rfl⟩ := addRepo_ok hadd
    refine ⟨repo, _, hopen, fun eusRepo => ?_, h⟩
    simp [IsRoot, hindex]

theorem mem_addRepos (h : addRepos env configs repos = .ok repos') :
    (∀ config ∈ configs, ∃ repo, env.openRepo config.path.toList = .ok repo) ∧
      ∀ eusRepo, eusRepo ∈ repos' ↔ eusRepo ∈ repos ∨ ∃ config ∈ configs, ∃ repo root,
        env.openRepo config.path.toList = .ok repo ∧ IsRoot config.index root ∧
          eusRepo = .of repo root config.remoteName.toList := by
  induction configs generalizing repos with
  | nil =>
      cases h
      simp
  | cons config configs ih =>
      obtain ⟨repo, more, hopen, hmore, hrest⟩ := addRepos_cons_ok h
      obtain ⟨hall, hmem⟩ := ih hrest
      refine ⟨List.forall_mem_cons.2 ⟨⟨repo, hopen⟩, hall⟩, fun eusRepo => ?_⟩
      rw [hmem, List.mem_append, hmore, or_assoc]
      simp only [List.exists_mem_cons_iff, hopen, Except.ok.injEq, exists_eq_left',
        exists_and_left]

/-- **What the server has**: what is provided, wherever it is served. -/
theorem mem_allRepos (h : allRepos env options configs = .ok repos) :
    (∀ config ∈ configs, ∃ repo, env.openRepo config.path.toList = .ok repo) ∧
      ∀ eusRepo, eusRepo ∈ repos ↔ ∃ index repo remoteName root,
        Provides env options configs index repo remoteName ∧ IsRoot index root ∧
          eusRepo = .of repo root remoteName := by
  simp only [allRepos, bind, Except.bind] at h
  split at h
  · cases h
  next repos₁ hadd =>
  obtain ⟨hopen, hmem⟩ := mem_addRepos hadd
  refine ⟨hopen, fun eusRepo => ?_⟩
  cases configs with
  | nil =>
      simp only [addRepos, Except.ok.injEq] at hadd
      subst hadd
      simp only [List.length_nil, if_true] at h
      split at h
      · cases h
      next repos₂ hfirst =>
      obtain ⟨repo, hdefault, rfl⟩ := addRepo_ok hfirst
      -- with no configuration the default one is opened twice, as in `addRepos`
      obtain ⟨repo', hdefault', rfl⟩ := addRepo_ok h
      rw [hdefault] at hdefault'
      obtain rfl := Except.ok.inj hdefault'
      simp only [setRootPath_nil, setRootPath_numberPath, List.nil_append, List.singleton_append,
        List.mem_cons, List.not_mem_nil, or_false]
      constructor
      · rintro (rfl | rfl)
        · exact ⟨0, repo, _, _, .default rfl hdefault, .inr ⟨rfl, rfl⟩, rfl⟩
        · exact ⟨0, repo, _, _, .default rfl hdefault, .inl rfl, rfl⟩
      · rintro ⟨index, repo', remoteName, root, hprovides, hroot, rfl⟩
        cases hprovides with
        | configured hmem => cases hmem
        | default _ hopen =>
            rw [hdefault] at hopen
            obtain rfl := Except.ok.inj hopen
            rcases hroot with rfl | ⟨-, rfl⟩
            · exact .inr rfl
            · exact .inl rfl
  | cons config configs =>
      obtain rfl : repos₁ = repos := by simpa [pure, Except.pure] using h
      rw [hmem]
      constructor
      · rintro (hnil | ⟨config', hconfig', repo, root, hopen', hroot, rfl⟩)
        · cases hnil
        · exact ⟨_, repo, _, root, .configured hconfig' hopen', hroot, rfl⟩
      · rintro ⟨index, repo, remoteName, root, hprovides, hroot, rfl⟩
        cases hprovides with
        | configured hconfig' hopen' =>
            exact .inr ⟨_, hconfig', repo, root, hopen', hroot, rfl⟩
        | default hnone => cases hnone

/-! ### Answering requests -/

variable {soup : SoupServer} {ostree : Libostree} {server : UpdateServer} {files : Files}

/-- A path below the root is handled without it. -/
theorem handlePath_of {root stripped : Text} (h : path = root ++ stripped) :
    (EusRepo.of repo root remoteName).handlePath ostree files path =
      (EusRepo.of repo root remoteName).handleStripped ostree files stripped := by
  have hfront : List.isPrefixOf? root path = some stripped :=
    List.isPrefixOf?_eq_some_iff_append_eq.2 h.symm
  simp [EusRepo.handlePath, EusRepo.of, hfront]

theorem handlePath_of_nil (path : Text) :
    (EusRepo.of repo [] remoteName).handlePath ostree files path =
      (EusRepo.of repo [] remoteName).handleStripped ostree files path :=
  handlePath_of rfl

/-- The root does not matter for the search of the remotes. -/
theorem serveFromRemotes_of (root root' : Text) {collectionId collectionRef : Text}
    (remotes : List Text) :
    (EusRepo.of repo root remoteName).serveFromRemotes files collectionId collectionRef remotes =
      (EusRepo.of repo root' remoteName).serveFromRemotes files collectionId collectionRef
        remotes := by
  induction remotes with
  | nil => rfl
  | cons remote remotes ih =>
      rw [EusRepo.serveFromRemotes, EusRepo.serveFromRemotes, ih]
      rfl

/-- Where a repository is served makes no difference to what it answers to the rest of a path. -/
theorem handleStripped_of (root root' stripped : Text) :
    (EusRepo.of repo root remoteName).handleStripped ostree files stripped =
      (EusRepo.of repo root' remoteName).handleStripped ostree files stripped := by
  have hmirrors : EusRepo.handleRefsMirrors ostree (.of repo root remoteName) files stripped =
      EusRepo.handleRefsMirrors ostree (.of repo root' remoteName) files stripped := by
    simp only [EusRepo.handleRefsMirrors, serveFromRemotes_of root root']
    rfl
  rw [EusRepo.handleStripped, EusRepo.handleStripped, hmirrors]
  rfl

/-- A request is passed on to one of the repositories, if libsoup finds a handler. -/
theorem handle_cases (hsoup : soup.Documented) (ostree : Libostree) (server : UpdateServer)
    (files : Files) (path : Text) :
    soup.handlerFor (server.repos.map (·.rootPath)) path = none ∧
        server.handle soup ostree files path = (.ofStatus .notFound, files) ∨
      ∃ eusRepo ∈ server.repos, eusRepo.rootPath <+: path ∧
        soup.handlerFor (server.repos.map (·.rootPath)) path = some eusRepo.rootPath ∧
        server.handle soup ostree files path = eusRepo.handlePath ostree files path := by
  rw [UpdateServer.handle]
  cases hfound : soup.handlerFor (server.repos.map (·.rootPath)) path with
  | none => exact .inl ⟨rfl, rfl⟩
  | some root =>
      obtain ⟨hroot, hfront⟩ := hsoup.registered hfound
      obtain ⟨eusRepo, hmem, rfl⟩ := List.mem_map.1 hroot
      cases hfind : server.repos.find? (fun repo => repo.rootPath = eusRepo.rootPath) with
      | none =>
          rw [List.find?_eq_none] at hfind
          exact absurd (decide_eq_true rfl) (hfind eusRepo hmem)
      | some found =>
          have hroot : found.rootPath = eusRepo.rootPath := by
            simpa using List.find?_some hfind
          refine .inr ⟨found, List.mem_of_find?_eq_some hfind, ?_, ?_, ?_⟩
          · rwa [hroot]
          · rw [hroot]
          · simp only [hfind]

/-- The server has what is provided. -/
structure Serves (env : Environment) (options : Options) (configs : List RepoConfig)
    (server : UpdateServer) : Prop where
  nodup : (configs.map (·.index)).Nodup
  mem : ∀ eusRepo, eusRepo ∈ server.repos ↔ ∃ index repo remoteName root,
    Provides env options configs index repo remoteName ∧ IsRoot index root ∧
      eusRepo = .of repo root remoteName

/-- A request below the number of a repository is answered by it. -/
theorem Serves.handle_below (h : Serves env options configs server) (hsoup : soup.Documented)
    (hprovides : Provides env options configs index repo remoteName) (rest : Text) :
    server.handle soup ostree files (numberPath index ++ '/' :: rest) =
      (EusRepo.of repo (numberPath index) remoteName).handleStripped ostree files
        ('/' :: rest) := by
  have hbelow : numberPath index ++ ['/'] <+: numberPath index ++ '/' :: rest :=
    ⟨rest, by simp⟩
  have hmem : numberPath index ∈ server.repos.map (·.rootPath) :=
    List.mem_map.2 ⟨.of repo (numberPath index) remoteName,
      (h.mem _).2 ⟨index, repo, remoteName, _, hprovides, .inl rfl, rfl⟩, rfl⟩
  obtain ⟨root, hfound, hlength⟩ := hsoup.closest hmem hbelow
  rcases handle_cases hsoup ostree server files (numberPath index ++ '/' :: rest) with
    ⟨hnone, -⟩ | ⟨eusRepo, hrepo, hfront, hsome, hhandle⟩
  · rw [hfound] at hnone
    cases hnone
  · rw [hsome] at hfound
    obtain ⟨index', repo', remoteName', root', hprovides', hroot', rfl⟩ := (h.mem eusRepo).1 hrepo
    obtain rfl : root' = root := Option.some.inj hfound
    -- no other root is as long and in front of the path
    rcases hroot' with rfl | ⟨-, rfl⟩
    · obtain rfl := eq_of_below hbelow hfront hlength
      obtain ⟨rfl, rfl⟩ := hprovides.unique h.nodup hprovides'
      rw [hhandle, handlePath_of rfl]
    · cases hlength

/-- No number of a repository is in front of the path. -/
def NotNumbered (env : Environment) (options : Options) (configs : List RepoConfig) (path : Text) :
    Prop :=
  ∀ index repo remoteName, Provides env options configs index repo remoteName →
    ¬ numberPath index ++ ['/'] <+: path

/-- A number that is not a whole element of the path is in front of no file. -/
theorem handlePath_refusal (ostree : Libostree) (files : Files) (repo : OstreeRepo)
    (remoteName : Text) (hfront : numberPath index <+: path)
    (hnot : ¬ numberPath index ++ ['/'] <+: path) :
    (EusRepo.of repo (numberPath index) remoteName).handlePath ostree files path =
      (refusal path, files) := by
  obtain ⟨rest, rfl⟩ := hfront
  have hhead : rest.head? ≠ some '/' := by
    intro hslash
    obtain ⟨tail, rfl⟩ := List.head?_eq_some_iff.1 hslash
    exact hnot ⟨tail, by simp⟩
  rw [handlePath_of rfl, handleStripped_refusal (not_place_of_head hhead), refusal, refusal]
  simp only [dots_infix_append dot_notMem_numberPath]

/-- Without a number a request is answered by the repository with the number 0. -/
theorem Serves.handle_system (h : Serves env options configs server) (hsoup : soup.Documented)
    (hprovides : Provides env options configs 0 repo remoteName) {rest : Text}
    (hnot : NotNumbered env options configs ('/' :: rest)) :
    server.handle soup ostree files ('/' :: rest) =
      (EusRepo.of repo [] remoteName).handleStripped ostree files ('/' :: rest) := by
  have hmem : [] ∈ server.repos.map (·.rootPath) :=
    List.mem_map.2 ⟨.of repo [] remoteName,
      (h.mem _).2 ⟨0, repo, remoteName, _, hprovides, .inr ⟨rfl, rfl⟩, rfl⟩, rfl⟩
  have hbelow : [] ++ ['/'] <+: '/' :: rest := ⟨rest, rfl⟩
  -- the handler of `/` is there, so some handler takes the request
  obtain ⟨root, hfound, -⟩ := hsoup.closest hmem hbelow
  rcases handle_cases hsoup ostree server files ('/' :: rest) with
    ⟨hnone, -⟩ | ⟨eusRepo, hrepo, hfront, -, hhandle⟩
  · rw [hfound] at hnone
    cases hnone
  · obtain ⟨index, repo', remoteName', root', hprovides', hroot', rfl⟩ := (h.mem eusRepo).1 hrepo
    rcases hroot' with rfl | ⟨rfl, rfl⟩
    · -- the handler refuses the request, as there is no file with such a name
      obtain ⟨c, digits, hnumber, hc, -⟩ := exists_numberPath index
      have hrefused := handlePath_refusal ostree files repo' remoteName' hfront
        (hnot _ _ _ hprovides')
      rw [hhandle, hrefused]
      obtain ⟨tail, htail⟩ : numberPath index <+: '/' :: rest := hfront
      rw [← htail, hnumber, List.cons_append, List.cons_append,
        handleStripped_refusal (not_place_of_digit hc)]
    · obtain ⟨rfl, rfl⟩ := hprovides.unique h.nodup hprovides'
      rw [hhandle, handlePath_of_nil]

/-- The repository that a request is for, and what of it. -/
inductive IsFor (env : Environment) (options : Options) (configs : List RepoConfig) :
    Text → OstreeRepo → Text → Text → Prop
  | numbered {index : UInt16} {repo : OstreeRepo} {remoteName : Text}
      (hprovides : Provides env options configs index repo remoteName) (rest : Text) :
      IsFor env options configs (numberPath index ++ '/' :: rest) repo remoteName ('/' :: rest)
  | system {repo : OstreeRepo} {remoteName rest : Text}
      (hprovides : Provides env options configs 0 repo remoteName)
      (hnot : NotNumbered env options configs ('/' :: rest)) :
      IsFor env options configs ('/' :: rest) repo remoteName ('/' :: rest)

/-- The server answers a request by the repository it is for. -/
theorem Serves.handle_isFor (h : Serves env options configs server) (hsoup : soup.Documented)
    {stripped : Text} (hfor : IsFor env options configs path repo remoteName stripped) :
    server.handle soup ostree files path =
      (EusRepo.of repo [] remoteName).handleStripped ostree files stripped := by
  cases hfor with
  | numbered hprovides rest =>
      rw [h.handle_below hsoup hprovides]
      exact handleStripped_of _ _ _
  | system hprovides hnot => exact h.handle_system hsoup hprovides hnot

/-- Where there is something in a response, the request was for a repository. -/
theorem Serves.exists_isFor (h : Serves env options configs server) (hsoup : soup.Documented)
    (hbody : (server.handle soup ostree files path).1.body ≠ []) :
    ∃ repo remoteName stripped, IsFor env options configs path repo remoteName stripped := by
  rcases handle_cases hsoup ostree server files path with
    ⟨-, hhandle⟩ | ⟨eusRepo, hrepo, hfront, -, hhandle⟩
  · rw [hhandle] at hbody
    exact absurd rfl hbody
  rw [hhandle] at hbody
  obtain ⟨index, repo, remoteName, root, hprovides, hroot, rfl⟩ := (h.mem eusRepo).1 hrepo
  rcases hroot with rfl | ⟨rfl, rfl⟩
  · -- a handler with a number refuses what is not below its directory
    by_cases hbelow : numberPath index ++ ['/'] <+: path
    · obtain ⟨rest, rfl⟩ := hbelow
      rw [List.append_assoc]
      exact ⟨repo, remoteName, _, .numbered hprovides rest⟩
    · rw [handlePath_refusal ostree files repo remoteName hfront hbelow] at hbody
      exact absurd rfl hbody
  · -- the handler of `/` takes what no other one takes
    by_cases hnumbered : NotNumbered env options configs path
    · by_cases hslash : path.head? = some '/'
      · obtain ⟨rest, rfl⟩ := List.head?_eq_some_iff.1 hslash
        exact ⟨repo, remoteName, _, .system hprovides hnumbered⟩
      · rw [handlePath_of_nil, handleStripped_refusal (not_place_of_head hslash)] at hbody
        exact absurd rfl hbody
    · simp only [NotNumbered, not_forall, not_not] at hnumbered
      obtain ⟨index, repo', remoteName', hprovides', rest, rfl⟩ := hnumbered
      rw [List.append_assoc]
      exact ⟨repo', remoteName', _, .numbered hprovides' rest⟩

/-- What it takes for the server to get to its main loop. -/
theorem serves_of_main {argv : List Argument} (h : main env argv = .ok server) :
    ∃ options configs, optionsInit env.parseRefspec argv = .ok options ∧
      readConfigFile env.disk env.dirs env.defaultKeyFile options.configFile =
        .ok (true, configs) ∧
      (∀ config ∈ configs, ∃ repo, env.openRepo config.path.toList = .ok repo) ∧
      Serves env options configs server := by
  rw [main] at h
  split at h
  · cases h
  next options hoptions =>
  split at h
  · cases h
  · cases h
  next advertiseUpdates configs hread =>
  split at h
  · cases h
  next hadvertise =>
  split at h
  · cases h
  next repos hrepos =>
  split at h
  · cases h
  split at h
  · cases h
  cases h
  obtain ⟨hopen, hmem⟩ := mem_allRepos hrepos
  obtain ⟨layers, -, hreads⟩ := readsAll_of_readConfigFile hread
  obtain ⟨-, -, -, -, hnodup⟩ := hreads
  obtain rfl := not_not.1 hadvertise
  exact ⟨options, configs, hoptions, hread, hopen, hnodup, hmem⟩

/-- A repository that cannot be opened ends the program with a failure. -/
theorem addRepo_error {opened : Except GError OstreeRepo} {root : Text} {exit : Exit}
    (h : addRepo repos opened root remoteName = .error exit) : exit = .status .failed := by
  rw [addRepo.eq_def] at h
  split at h
  · exact (Except.error.inj h).symm
  · split at h
    · exact (Except.error.inj h).symm
    · cases h

/-- Repositories of which one cannot be opened end the program with a failure. -/
theorem addRepos_error {exit : Exit} (h : addRepos env configs repos = .error exit) :
    exit = .status .failed := by
  induction configs generalizing repos with
  | nil => cases h
  | cons config configs ih =>
      have hnumbered {repos : List EusRepo}
          (h : (addRepo repos (env.openRepo config.path.toList) (numberPath config.index)
            config.remoteName.toList).bind (addRepos env configs) = .error exit) :
          exit = .status .failed := by
        simp only [Except.bind] at h
        split at h
        · next hadd =>
          obtain rfl := Except.error.inj h
          exact addRepo_error hadd
        · exact ih h
      simp only [addRepos] at h
      split at h
      · simp only [bind, Except.bind] at h
        split at h
        · next hadd =>
          obtain rfl := Except.error.inj h
          exact addRepo_error hadd
        · exact hnumbered h
      · exact hnumbered h

/-- Repositories can only fail to open with that failure. -/
theorem allRepos_error {exit : Exit} (h : allRepos env options configs = .error exit) :
    exit = .status .failed := by
  simp only [allRepos, bind, Except.bind] at h
  split at h
  · next hadd =>
    obtain rfl := Except.error.inj h
    exact addRepos_error hadd
  · split at h
    · split at h
      · next hfirst =>
        obtain rfl := Except.error.inj h
        exact addRepo_error hfirst
      · exact addRepo_error h
    · cases h

/-- The server is disabled only by its configuration. -/
theorem disabled_of_main {argv : List Argument} (h : main env argv = .error (.status .disabled)) :
    ∃ options configs, optionsInit env.parseRefspec argv = .ok options ∧
      readConfigFile env.disk env.dirs env.defaultKeyFile options.configFile =
        .ok (false, configs) := by
  rw [main] at h
  split at h
  · cases h
  next options hoptions =>
  split at h
  · cases h
  · cases h
  next advertiseUpdates configs hread =>
  split at h
  · next hadvertise =>
    rw [Bool.not_eq_true] at hadvertise
    exact ⟨options, configs, hoptions, hadvertise ▸ hread⟩
  split at h
  · next exit hrepos =>
    obtain rfl := allRepos_error hrepos
    cases h
  split at h
  · cases h
  split at h
  · cases h
  · cases h

/-- **Requests are answered from the configured repositories.** When the server is in its main loop,
all repositories of the configuration have been opened. A request that begins with the number of one
of them gets what this repository answers to the rest of it, and another one what that with the
number 0 answers. Whatever there is in a response, it is confined to what is served of one of
them. -/
theorem handle_confined (soup : SoupServer) (hsoup : soup.Documented) (ostree : Libostree)
    (env : Environment) (argv : List Argument) (server : UpdateServer)
    (h : main env argv = .ok server) :
    ∃ options layers configs, optionsInit env.parseRefspec argv = .ok options ∧
      Layers env.disk (env.dirs.configPaths options.configFile) env.defaultKeyFile layers ∧
      ReadsAll layers configs ∧
      (∀ config ∈ configs, ∃ repo, env.openRepo config.path.toList = .ok repo) ∧
      ∀ files path,
        (∀ repo remoteName stripped, IsFor env options configs path repo remoteName stripped →
          server.handle soup ostree files path =
            (EusRepo.of repo [] remoteName).handleStripped ostree files stripped) ∧
        ((server.handle soup ostree files path).1.body ≠ [] →
          ∃ repo remoteName stripped, IsFor env options configs path repo remoteName stripped ∧
            Confined ostree (.of repo [] remoteName) (server.handle soup ostree files path).2
              stripped (server.handle soup ostree files path).1.body) := by
  obtain ⟨options, configs, hoptions, hread, hopen, hserves⟩ := serves_of_main h
  obtain ⟨layers, hlayers, hreads⟩ := readsAll_of_readConfigFile hread
  refine ⟨options, layers, configs, hoptions, hlayers, hreads, hopen, fun files path =>
    ⟨fun repo remoteName stripped hfor => hserves.handle_isFor hsoup hfor, fun hbody => ?_⟩⟩
  obtain ⟨repo, remoteName, stripped, hfor⟩ := hserves.exists_isFor hsoup hbody
  refine ⟨repo, remoteName, stripped, hfor, ?_⟩
  rw [hserves.handle_isFor hsoup hfor]
  exact EusRepo.handleStripped_confined rfl

/-! ### Without a number -/

/-- The responses to requests to the server, one after the other. -/
def UpdateServer.responses (soup : SoupServer) (ostree : Libostree) (server : UpdateServer) :
    Files → List Text → List Response
  | _, [] => []
  | files, path :: paths =>
      (server.handle soup ostree files path).1 ::
        server.responses soup ostree (server.handle soup ostree files path).2 paths

/-- The second request is the first one, maybe with the number 0 in front of a path without a
number. -/
def AsNumbered (env : Environment) (options : Options) (configs : List RepoConfig)
    (path path' : Text) : Prop :=
  path' = path ∨ ∃ rest, path = '/' :: rest ∧ NotNumbered env options configs path ∧
    path' = numberPath 0 ++ path

/-- A path with the number 0 is answered as the path without it. -/
theorem Serves.handle_asNumbered (h : Serves env options configs server)
    (hsoup : soup.Documented) (hprovides : Provides env options configs 0 repo remoteName)
    {path' : Text} (hasNumbered : AsNumbered env options configs path path') :
    server.handle soup ostree files path' = server.handle soup ostree files path := by
  rcases hasNumbered with rfl | ⟨rest, rfl, hnot, rfl⟩
  · rfl
  · rw [h.handle_isFor hsoup (.numbered hprovides rest),
      h.handle_isFor hsoup (.system hprovides hnot)]

/-- **The number 0 can be left out.** If there is a repository with the number 0, requests get the
same responses, one after the other, with this number in front and without it, as long as they do
not begin with the number of another repository. -/
theorem responses_without_number (soup : SoupServer) (hsoup : soup.Documented)
    (ostree : Libostree) (env : Environment) (argv : List Argument) (server : UpdateServer)
    (options : Options) (configs : List RepoConfig) (repo : OstreeRepo) (remoteName : Text)
    (h : main env argv = .ok server) (hoptions : optionsInit env.parseRefspec argv = .ok options)
    (hread : readConfigFile env.disk env.dirs env.defaultKeyFile options.configFile =
      .ok (true, configs))
    (hprovides : Provides env options configs 0 repo remoteName) (files : Files)
    (paths paths' : List Text)
    (hpaths : List.Forall₂ (AsNumbered env options configs) paths paths') :
    server.responses soup ostree files paths' = server.responses soup ostree files paths := by
  obtain ⟨options', configs', hoptions', hread', -, hserves⟩ := serves_of_main h
  rw [hoptions] at hoptions'
  obtain rfl := Except.ok.inj hoptions'
  rw [hread] at hread'
  obtain rfl := (Prod.mk.inj (Except.ok.inj hread')).2
  induction hpaths generalizing files with
  | nil => rfl
  | cons hpath _ ih =>
      rw [UpdateServer.responses, UpdateServer.responses,
        hserves.handle_asNumbered hsoup hprovides hpath, ih]

/-! ### A server of two repositories -/

/-- A server that calls the handler of the closest directory. -/
def directoryHandlers : SoupServer where
  handlerFor paths path :=
    (paths.filter fun root => root ++ ['/'] <+: path ∨ root = path).argmax List.length

/-- Handlers by directory behave as documented. -/
theorem directoryHandlers_documented : directoryHandlers.Documented where
  registered h := by
    have hmem := List.argmax_mem h
    rw [List.mem_filter, decide_eq_true_eq] at hmem
    refine ⟨hmem.1, ?_⟩
    rcases hmem.2 with hbelow | rfl
    · exact (List.prefix_append _ _).trans hbelow
    · exact List.prefix_rfl
  closest {paths path root} hmem hbelow := by
    have hfiltered : root ∈ paths.filter fun root => root ++ ['/'] <+: path ∨ root = path :=
      List.mem_filter.2 ⟨hmem, decide_eq_true (.inl hbelow)⟩
    cases hfound : directoryHandlers.handlerFor paths path with
    | none =>
        rw [List.argmax_eq_none.1 hfound] at hfiltered
        cases hfiltered
    | some found => exact ⟨found, rfl, List.le_of_mem_argmax hfiltered hfound⟩

/-- The configuration of a server of two repositories. -/
def sampleKeyFile : KeyFile :=
  [("Repository 0", "Path", "/ostree/repo"), ("Repository 0", "RemoteName", "eos"),
    ("Repository 7", "Path", "/srv"), ("Repository 7", "RemoteName", "apps")].foldl
      (fun file (group, key, value) => file.setValue group key value)
      (KeyFile.empty.setBoolean "Local Network Updates" "AdvertiseUpdates" true)

/-- A repository that can be served, without a remote. -/
def servedRepo (path : Text) (h : dotDot ∉ names path) : OstreeRepo where
  path := path
  path_canonical := h
  config := KeyFile.empty.setInt64 "core" "repo_version" 1
  mode := .bare
  remoteList := []
  getRemoteOption _ _ := .ok none
  loadFile _ := .error ⟨.ioNotFound, "No object"⟩
  regenerateSummary files := (.error ⟨.ioFailed, "Read-only file system"⟩, files)

/-- A system with these repositories, and a socket from systemd. -/
def sampleEnvironment : Environment where
  parseRefspec _ := none
  disk path :=
    if path = "/etc/eos-updater/eos-update-server.conf" then .wellFormed sampleKeyFile else .missing
  dirs := ⟨"/etc", "/usr/share", "/usr"⟩
  defaultKeyFile := KeyFile.empty
  openRepo path :=
    if path = "/srv".toList then .ok (servedRepo "/srv".toList (by decide))
    else .ok (servedRepo "/ostree/repo".toList (by decide))
  openDefaultRepo := .error ⟨.ioNotFound, "No repository"⟩
  setupQuitFile := .ok ()
  sockets := {
    listenLocal := fun _ => .error ⟨.ioFailed, "Address in use"⟩
    firstPort := .ok 0
    replaceContents := fun _ _ => .ok ()
    sdListenFds := 1
    strerror := ""
    newFromFd := .ok ()
    listenSocket := .ok () }

/-- The server of the sample starts. -/
theorem exists_sampleServer : ∃ server, main sampleEnvironment [] = .ok server := by
  have hok : (main sampleEnvironment []).isOk = true := by decide +kernel
  cases hmain : main sampleEnvironment [] with
  | error exit =>
      rw [hmain] at hok
      cases hok
  | ok server => exact ⟨server, rfl⟩

/-- What these repositories can answer, it does. -/
theorem sampleServer_confined : ∃ server, main sampleEnvironment [] = .ok server ∧
    ∀ files path, (server.handle directoryHandlers sampleOstree files path).1.body ≠ [] →
      ∃ repo remoteName stripped, Confined sampleOstree (.of repo [] remoteName)
        (server.handle directoryHandlers sampleOstree files path).2 stripped
        (server.handle directoryHandlers sampleOstree files path).1.body := by
  obtain ⟨server, hmain⟩ := exists_sampleServer
  obtain ⟨_, _, _, -, -, -, -, hhandle⟩ := handle_confined directoryHandlers
    directoryHandlers_documented sampleOstree sampleEnvironment [] server hmain
  refine ⟨server, hmain, fun files path hbody => ?_⟩
  obtain ⟨repo, remoteName, stripped, -, hconfined⟩ := (hhandle files path).2 hbody
  exact ⟨repo, remoteName, stripped, hconfined⟩

/-- The server of the sample answers alike with and without the number. -/
theorem sampleServer_without_number : ∃ server, main sampleEnvironment [] = .ok server ∧
    ∀ files, server.responses directoryHandlers sampleOstree files
        ["/config".toList, "/0/summary".toList] =
      server.responses directoryHandlers sampleOstree files
        ["/config".toList, "/summary".toList] := by
  obtain ⟨server, hmain⟩ := exists_sampleServer
  have hmem : (⟨0, "/ostree/repo", "eos"⟩ : RepoConfig) ∈
      [⟨0, "/ostree/repo", "eos"⟩, ⟨7, "/srv", "apps"⟩] := List.mem_cons_self
  have hprovides : Provides sampleEnvironment ⟨0, none, 200, "eos".toList, none⟩ _ 0
      (servedRepo "/ostree/repo".toList (by decide)) "eos".toList := .configured hmem rfl
  refine ⟨server, hmain, fun files => responses_without_number directoryHandlers
    directoryHandlers_documented sampleOstree sampleEnvironment [] server _ _ _ _ hmain rfl
    (by decide +kernel) hprovides files _ _
    (.cons (.inl rfl) (.cons (.inr ⟨_, rfl, ?_, rfl⟩) .nil))⟩
  -- the path begins with a letter
  intro index repo remoteName _ hbelow
  obtain ⟨c, digits, hnumber, hc, -⟩ := exists_numberPath index
  rw [hnumber] at hbelow
  obtain ⟨-, hbelow⟩ := List.cons_prefix_cons.1 hbelow
  obtain ⟨rfl, -⟩ := List.cons_prefix_cons.1 hbelow
  cases hc

end Eus
