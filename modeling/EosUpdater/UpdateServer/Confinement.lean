import EosUpdater.UpdateServer.Repo

/-!
# What requests can get from the update server

A response of `EusRepo` has the faked config, an object as an archive stream, a file from one of a
few places under the root of the repository (`Servable`), or nothing in its body
(`handlePath_confined`). So two repositories that agree on these places answer a request alike
(`handlePath_congr`), whatever else they have.

They have to agree on a little more than on the files. A path with a slash at its end is not found,
unless it leads to a regular file, which cannot be opened by it. And if the name of a remote has
`..` in it, its refs can be opened only if the directories that it leaves exist.
-/

namespace Eus

open GLib

variable {ostree : Libostree} {server : EusRepo} {files : Files} {path : Text}

/-! ### Places -/

/-- A file is strictly below a directory. -/
def Below (dir file : List Text) : Prop := ∃ rest, rest ≠ [] ∧ file = dir ++ rest

namespace EusRepo

/-- The root of the repository. -/
def root (server : EusRepo) : List Text := canonicalize server.cachedRepoRoot

/-- The directory of the refs of a remote. -/
def remoteDirectory (server : EusRepo) (remote : Text) : List Text :=
  canonicalize
    (buildFilename [server.cachedRepoRoot, "refs".toList, "remotes".toList, remote])

/-- The collection ID of a remote, if libostree finds one. -/
def collectionId (server : EusRepo) (remote : Text) : Option Text :=
  match server.repo.getRemoteOption remote "collection-id".toList with
  | .ok collectionId => collectionId
  | .error _ => none

/-- A request for a ref with a collection ID. -/
def Requests (server : EusRepo) (path collectionId : Text) : Prop :=
  '/' ∉ collectionId ∧ ∃ ref,
    path = server.rootPath ++ ("/refs/mirrors/".toList ++ (collectionId ++ '/' :: ref))

/-- The remotes that a request can be redirected to: the served one, and those with the collection
ID that is requested. -/
inductive RedirectsTo (server : EusRepo) (path : Text) : Text → Prop
  | served : RedirectsTo server path server.remoteName
  | requested {remote collectionId : Text} (hmem : remote ∈ server.repo.remoteList)
      (hid : server.collectionId remote = some collectionId)
      (hrequest : server.Requests path collectionId) : RedirectsTo server path remote

/-- The directories of which all files are served. -/
inductive ServedDirectory (server : EusRepo) (path : Text) : List Text → Prop
  | deltas : ServedDirectory server path (server.root ++ ["deltas".toList])
  | extensions : ServedDirectory server path (server.root ++ ["extensions".toList])
  | refsHeads : ServedDirectory server path (server.root ++ ["refs".toList, "heads".toList])
  | refsMirrors : ServedDirectory server path (server.root ++ ["refs".toList, "mirrors".toList])
  | refsRemotes {remote : Text} (hremote : server.RedirectsTo path remote) :
      ServedDirectory server path (server.remoteDirectory remote)

/-- The places under the root of the repository from which a request can be answered. -/
inductive Servable (server : EusRepo) (path : Text) : List Text → Prop
  | inDirectory {dir file : List Text} (hdir : server.ServedDirectory path dir)
      (hbelow : Below dir file) : Servable server path file
  | object {file : List Text} {name suffix : Text}
      (hbelow : Below (server.root ++ ["objects".toList]) file) (hname : file.getLast? = some name)
      (hallowed : suffix ∈ asIsAllowedObjectSuffices) (hsuffix : suffix <:+ name) :
      Servable server path file
  | summary : Servable server path (server.root ++ ["summary".toList])
  | summarySig : Servable server path (server.root ++ ["summary.sig".toList])

end EusRepo

/-- A checksum of 64 digits that libostree accepts. -/
structure IsChecksum (ostree : Libostree) (checksum : Text) : Prop where
  length : checksum.length = 64
  isHexDigit : ∀ c ∈ checksum, isHexDigit c = true
  valid : ostree.validateStructureofChecksumString checksum = .ok ()

/-- The bytes that reads return before the end or an error. -/
def streamed : List (Except Euu.GError Bytes) → Bytes
  | .ok (byte :: bytes) :: results => byte :: bytes ++ streamed results
  | _ => []

/-- What the body of the response to a request may contain. -/
inductive Confined (ostree : Libostree) (server : EusRepo) (files : Files) (path : Text) :
    Bytes → Prop
  | empty : Confined ostree server files path []
  | config : Confined ostree server files path fakedConfig
  | object {checksum : Text} {stream : InputStream} {size : Int64}
      (hchecksum : IsChecksum ostree checksum)
      (hstream : loadCompressedFileStream ostree server.repo checksum = .ok (stream, size)) :
      Confined ostree server files path (streamed (stream (filezBufferLength size)))
  | file {file : List Text} {contents : Bytes} (hroot : Below server.root file)
      (hservable : server.Servable path file) (hfile : files.regular file = some (.ok contents)) :
      Confined ostree server files path contents

/-! ### Objects -/

/-- A chunk that is read is appended to the body. -/
theorem body_filezStreamReadChunkCb (response : Response)
    (results : List (Except Euu.GError Bytes)) :
    (filezStreamReadChunkCb response results).body = response.body ++ streamed results := by
  fun_induction filezStreamReadChunkCb response results with
  | case1 => simp [streamed]
  | case2 => simp [streamed]
  | case3 => simp [streamed]
  | case4 response byte bytes results ih =>
    rw [ih, streamed, List.append_assoc]

/-- What is matched as a checksum has 64 hexadecimal digits. -/
theorem matchFilez_some {firstTwo rest : Text} (h : matchFilez path = some (firstTwo, rest)) :
    (firstTwo ++ rest).length = 64 ∧ ∀ c ∈ firstTwo ++ rest, isHexDigit c = true := by
  simp only [matchFilez, Option.ite_none_right_eq_some, Option.some.injEq, Prod.mk.injEq] at h
  obtain ⟨⟨-, hfirst, hrest, hall⟩, rfl, rfl⟩ := h
  exact ⟨by rw [List.length_append, hfirst, hrest], List.all_eq_true.1 hall⟩

/-- What is taken for a checksum is one. -/
theorem isChecksum_of_getChecksumFromFilez {checksum : Text}
    (h : getChecksumFromFilez ostree path = .ok checksum) : IsChecksum ostree checksum := by
  simp only [getChecksumFromFilez] at h
  split at h
  · cases h
  · next firstTwo rest hmatch =>
    obtain ⟨hlength, hdigits⟩ := matchFilez_some hmatch
    rcases hvalid : ostree.validateStructureofChecksumString (firstTwo ++ rest) with error | ⟨⟩
    · rw [hvalid] at h
      cases h
    · rw [hvalid] at h
      cases h
      exact ⟨hlength, hdigits, hvalid⟩

/-- A streamed object is confined. -/
theorem handleObjectsFilez_confined (files : Files) (stripped : Text) :
    Confined ostree server files path (handleObjectsFilez ostree server stripped).body := by
  rw [handleObjectsFilez]
  split
  · exact .empty
  · next checksum hchecksum =>
    split
    · exact .empty
    · next stream size hstream =>
      rw [body_filezStreamReadChunkCb]
      exact .object (isChecksum_of_getChecksumFromFilez hchecksum) hstream

/-! ### Files -/

section

variable {root rawPath : Text} {response : Response}

/-- A file that is there but cannot be served is an internal error. -/
theorem serveFileIfExists_error (h : serveFileIfExists files root rawPath = .error response) :
    response = .ofStatus .internalServerError := by
  simp only [serveFileIfExists] at h
  repeat' split at h
  all_goals first | exact (Except.error.inj h).symm | cases h

/-- What is served is strictly below the root, and could be opened. -/
theorem serveFileIfExists_some
    (h : serveFileIfExists files root rawPath = .ok (some response)) :
    ∃ contents, response = sendBytes contents ∧ files.openFile rawPath = some (.ok contents) ∧
      Below (canonicalize root) (canonicalize rawPath) := by
  simp only [serveFileIfExists] at h
  split at h
  · cases h
  · next hbegins =>
    split at h
    · cases h
    · split at h
      · cases h
      · split at h
        · next contents hopen =>
          obtain ⟨⟨rest, hrest⟩, hroot⟩ := not_not.1 hbegins
          refine ⟨contents, by cases h; rfl, hopen, rest, fun hnil => ?_, hrest.symm⟩
          -- the root directory itself is no regular file
          rw [hnil, List.append_nil] at hrest
          have hregular := FileSystem.regular_of_openFile hopen
          rw [← hrest, hroot hrest, FileSystem.regular, files.node_nil] at hregular
          cases hregular
        · cases h

/-- A response with a file is confined if the file can be served. -/
theorem confined_of_some
    (h : serveFileIfExists files server.cachedRepoRoot rawPath = .ok (some response))
    (hservable : ∀ contents, files.openFile rawPath = some contents →
      server.Servable path (canonicalize rawPath)) :
    Confined ostree server files path response.body := by
  obtain ⟨contents, rfl, hopen, hroot⟩ := serveFileIfExists_some h
  exact .file hroot (hservable _ hopen) (FileSystem.regular_of_openFile hopen)

theorem confined_of_error (h : serveFileIfExists files root rawPath = .error response) :
    Confined ostree server files path response.body := by
  rw [serveFileIfExists_error h]
  exact .empty

/-- A file that can be served confines the answer. -/
theorem serveFile_confined (hservable : ∀ contents, files.openFile rawPath = some contents →
      server.Servable path (canonicalize rawPath)) :
    Confined ostree server files path
      (serveFile files server.cachedRepoRoot rawPath).body := by
  rw [serveFile]
  split
  · next h => exact confined_of_error h
  · next h => exact confined_of_some h hservable
  · exact .empty

end

/-! ### Paths -/

section

variable {contents : Except Euu.GError Bytes} {rest : Text}

/-- A path without `..` does not go up. -/
theorem dotDot_notMem_names (h : ¬ "..".toList <:+: path) : dotDot ∉ names path :=
  fun hmem => h (infix_of_mem_names hmem)

theorem not_dots_of_append {front : Text} (h : ¬ "..".toList <:+: front ++ rest) :
    ¬ "..".toList <:+: rest :=
  fun hpart => h (hpart.trans (List.suffix_append front rest).isInfix)

/-- Where a request leads whose path begins with the path of a directory. -/
theorem canonicalize_request {front : Text} (place : List Text) (hslash : endsInSlash front = true)
    (hnames : names front = place) (hplace : dotDot ∉ place)
    (hdots : ¬ "..".toList <:+: front ++ rest) :
    canonicalize (buildFilename [server.cachedRepoRoot, front ++ rest]) =
      server.root ++ descent place ++ descent (names rest) := by
  have hrest := dotDot_notMem_names (not_dots_of_append hdots)
  rw [canonicalize_buildFilename, List.flatMap_singleton, names_append hslash, hnames,
    List.foldl_append, foldl_follow _ hplace, foldl_follow _ hrest]
  rfl

/-- What can be opened for a request is strictly below the directory that its path begins with. -/
theorem descent_ne_nil_of_request {front : Text} (place : List Text)
    (h : files.openFile (buildFilename [server.cachedRepoRoot, front ++ rest]) = some contents)
    (hslash : endsInSlash front = true) (hnames : names front = place)
    (hdots : ¬ "..".toList <:+: front ++ rest) : descent (names rest) ≠ [] := by
  have hne : front ++ rest ≠ [] := by
    intro hnil
    rw [(List.append_eq_nil_iff.1 hnil).1] at hslash
    cases hslash
  have hlast : names (front ++ rest) = place ++ names rest := by
    rw [names_append hslash, hnames]
  exact (FileSystem.openFile_below [server.cachedRepoRoot] place h hne hlast
    (dotDot_notMem_names (not_dots_of_append hdots)) (endsInSlash_append hslash)).1

/-- What is opened below a served directory can be served. -/
theorem servable_of_directory {front dir : Text} {place : List Text}
    (h : files.openFile (buildFilename [server.cachedRepoRoot, dir]) = some contents)
    (hbegins : front <+: dir) (hslash : endsInSlash front = true) (hnames : names front = place)
    (hplace : dotDot ∉ place) (hdots : ¬ "..".toList <:+: dir)
    (hdir : server.ServedDirectory path (server.root ++ descent place)) :
    server.Servable path (canonicalize (buildFilename [server.cachedRepoRoot, dir])) := by
  obtain ⟨rest, rfl⟩ := hbegins
  exact .inDirectory hdir ⟨_, descent_ne_nil_of_request place h hslash hnames hdots,
    canonicalize_request place hslash hnames hplace hdots⟩

/-- The endings of objects have no slash in them. -/
theorem allowedSuffix {suffix : Text} (h : suffix ∈ asIsAllowedObjectSuffices) :
    '/' ∉ suffix ∧ 2 ≤ suffix.length := by
  revert suffix
  decide

/-- An object is at a name with an allowed suffix. -/
theorem servable_of_object {object suffix : Text} (hbegins : "/objects/".toList <+: object)
    (hallowed : suffix ∈ asIsAllowedObjectSuffices) (hsuffix : suffix <:+ object)
    (hdots : ¬ "..".toList <:+: object) :
    server.Servable path (canonicalize (buildFilename [server.cachedRepoRoot, object])) := by
  obtain ⟨hslash, hlength⟩ := allowedSuffix hallowed
  obtain ⟨rest, rfl⟩ := hbegins
  have heq : canonicalize (buildFilename [server.cachedRepoRoot, "/objects/".toList ++ rest]) =
      server.root ++ ["objects".toList] ++ descent (names rest) :=
    canonicalize_request ["objects".toList] (by decide) (by decide) (by decide) hdots
  -- the suffix is too short to reach the slash in front of the rest
  obtain ⟨name, hname⟩ : suffix <:+ rest := by
    rcases le_or_gt suffix.length rest.length with hle | hlt
    · exact List.suffix_of_suffix_length_le hsuffix (List.suffix_append _ _) hle
    · have hrest : '/' :: rest <:+ "/objects/".toList ++ rest := ⟨"/objects".toList, rfl⟩
      have hlong := List.suffix_of_suffix_length_le hrest hsuffix hlt
      exact absurd (hlong.subset (List.mem_cons_self ..)) hslash
  have hnonempty : suffix ≠ [] := by
    rintro rfl
    simp at hlength
  -- so it ends the last name, which is longer than a dot
  obtain ⟨before, front, hlast⟩ := names_append_eq_concat name hslash hnonempty
  have hdot : front ++ suffix ≠ dot := fun hdot => by
    have hdotLength := congrArg List.length hdot
    rw [List.length_append, List.length_singleton] at hdotLength
    omega
  have hdescent : descent (names rest) = descent before ++ [front ++ suffix] := by
    rw [← hname, hlast]
    simp [descent, hdot]
  rw [heq, hdescent]
  refine .object ⟨_, by simp, rfl⟩ ?_ hallowed (List.suffix_append front suffix)
  rw [← List.append_assoc, List.getLast?_concat]

/-- The summary can be served. -/
theorem servable_of_summary {stripped : Text} (hsummary : pathIsSummary stripped = true) :
    server.Servable path (canonicalize (buildFilename [server.cachedRepoRoot, stripped])) := by
  rcases of_decide_eq_true hsummary with rfl | rfl
  · rw [canonicalize_buildFilename_of_notMem _ (by decide)]
    exact .summary
  · rw [canonicalize_buildFilename_of_notMem _ (by decide)]
    exact .summarySig

theorem flatMap_names_remote (remote : Text) (elements : List Text) :
    ("refs".toList :: "remotes".toList :: remote :: elements).flatMap names =
      "refs".toList :: "remotes".toList :: (names remote ++ elements.flatMap names) := by
  have hrefs : names "refs".toList = ["refs".toList] := by decide
  have hremotes : names "remotes".toList = ["remotes".toList] := by decide
  rw [List.flatMap_cons, List.flatMap_cons, List.flatMap_cons, hrefs, hremotes]
  rfl

/-- The directory of a remote is in `refs/remotes`, unless its name leads up. -/
theorem remoteDirectory_of_notMem {remote : Text} (h : dotDot ∉ names remote) :
    server.remoteDirectory remote =
      server.root ++ ("refs".toList :: "remotes".toList :: descent (names remote)) := by
  have hflat := flatMap_names_remote remote []
  rw [List.flatMap_nil, List.append_nil] at hflat
  rw [EusRepo.remoteDirectory, canonicalize_buildFilename_of_notMem, hflat]
  · rfl
  · rw [hflat, List.mem_cons, List.mem_cons]
    simp [h]

/-- The refs of a remote are below its directory. -/
theorem servable_of_remoteRef {remote ref : Text}
    (h : files.openFile (server.remoteRef remote ref) = some contents)
    (hremote : server.RedirectsTo path remote) (hne : ref ≠ [])
    (hdots : ¬ "..".toList <:+: ref) :
    server.Servable path (canonicalize (server.remoteRef remote ref)) := by
  obtain ⟨hdescent, heq⟩ := FileSystem.openFile_below
    [server.cachedRepoRoot, "refs".toList, "remotes".toList, remote] [] h hne rfl
    (dotDot_notMem_names hdots) (endsInSlash_of_names_eq_nil hne)
  refine .inDirectory (.refsRemotes hremote) ⟨_, hdescent, heq.trans ?_⟩
  rw [List.append_nil, EusRepo.remoteDirectory, canonicalize, names_buildFilename]

end

/-- The ref that `handle_refs_heads` takes from a path. -/
theorem head_of_refsHeads {stripped : Text} (hbegins : "/refs/heads/".toList <+: stripped)
    (hlength : ¬ stripped.length ≤ "/refs/heads/".toList.length)
    (hdots : ¬ "..".toList <:+: stripped) :
    stripped.drop "/refs/heads/".toList.length ≠ [] ∧
      ¬ "..".toList <:+: stripped.drop "/refs/heads/".toList.length := by
  obtain ⟨head, rfl⟩ := hbegins
  rw [List.drop_left]
  refine ⟨?_, not_dots_of_append hdots⟩
  rintro rfl
  exact hlength le_rfl

/-- The collection ID and the ref that `handle_refs_mirrors` takes from a path are those that are
requested. -/
theorem requests_of_mirror {stripped : Text} (hbegins : "/refs/mirrors/".toList <+: stripped)
    (hpath : path = server.rootPath ++ stripped) (hdots : ¬ "..".toList <:+: stripped)
    (hslash : '/' ∈ stripped.drop "/refs/mirrors/".toList.length) :
    server.Requests path ((stripped.drop "/refs/mirrors/".toList.length).takeWhile (· ≠ '/')) ∧
      ¬ "..".toList <:+: stripped.drop ("/refs/mirrors/".toList.length
        + ((stripped.drop "/refs/mirrors/".toList.length).takeWhile (· ≠ '/')).length + 1) := by
  refine ⟨⟨fun hmem => by simpa using List.mem_takeWhile_imp hmem, ?_⟩,
    fun hpart => hdots (hpart.trans (List.drop_suffix _ stripped).isInfix)⟩
  obtain ⟨rest, rfl⟩ := hbegins
  rw [List.drop_left] at hslash ⊢
  -- the ID ends at the first slash
  have hrest : rest.dropWhile (· ≠ '/') ≠ [] := fun hnil => by
    simpa using List.dropWhile_eq_nil_iff.1 hnil '/' hslash
  obtain ⟨c, ref, hdrop⟩ := List.exists_cons_of_ne_nil hrest
  obtain rfl : c = '/' := by
    have hhead := List.head_dropWhile_not (· ≠ '/') hrest
    simp only [hdrop, List.head_cons] at hhead
    simpa using hhead
  exact ⟨ref, by rw [hpath, ← hdrop, List.takeWhile_append_dropWhile]⟩

/-! ### Confinement -/

namespace EusRepo

/-- The answer to a request for an object or a delta is confined. -/
theorem handleAsIs_confined {stripped : Text} (hasIs : pathIsHandledAsIs stripped = true)
    (hdots : ¬ "..".toList <:+: stripped) :
    Confined ostree server files path (server.handleAsIs files stripped).body := by
  refine serveFile_confined fun contents hopen => ?_
  rw [pathIsHandledAsIs] at hasIs
  split at hasIs
  · next hbegins =>
    obtain ⟨suffix, hallowed, hsuffix⟩ := List.any_eq_true.1 hasIs
    exact servable_of_object hbegins hallowed (of_decide_eq_true hsuffix) hdots
  · rcases of_decide_eq_true hasIs with hbegins | hbegins
    · exact servable_of_directory hopen hbegins (by decide) rfl (by decide) hdots .deltas
    · exact servable_of_directory hopen hbegins (by decide) rfl (by decide) hdots .extensions

/-- The answer to a request for the summary is confined. -/
theorem handleSummary_confined {stripped : Text} (hsummary : pathIsSummary stripped = true) :
    Confined ostree server (server.handleSummary files stripped).2 path
      (server.handleSummary files stripped).1.body := by
  rw [handleSummary]
  split
  · next h => exact confined_of_error h
  · next h => exact confined_of_some h fun _ _ => servable_of_summary hsummary
  · split
    · exact .empty
    · exact serveFile_confined fun _ _ => servable_of_summary hsummary

/-- The answer to a request for a head is confined. -/
theorem handleRefsHeads_confined {stripped : Text} (hbegins : "/refs/heads/".toList <+: stripped)
    (hdots : ¬ "..".toList <:+: stripped) :
    Confined ostree server files path (server.handleRefsHeads files stripped).body := by
  simp only [handleRefsHeads]
  split
  · exact .empty
  · next hlength =>
    split
    · next h => exact confined_of_error h
    · next h =>
      exact confined_of_some h fun _ hopen =>
        servable_of_directory hopen hbegins (by decide) rfl (by decide) hdots .refsHeads
    · obtain ⟨hne, hhead⟩ := head_of_refsHeads hbegins hlength hdots
      exact serveFile_confined fun _ hopen => servable_of_remoteRef hopen .served hne hhead

/-- One step of the loop: a remote with another collection ID, or without one, is left out. -/
theorem serveFromRemotes_cons (server : EusRepo) (files : Files) (collectionId collectionRef : Text)
    (remote : Text) (remotes : List Text) :
    server.serveFromRemotes files collectionId collectionRef (remote :: remotes) =
      if server.collectionId remote = some collectionId then
        match serveFileIfExists files server.cachedRepoRoot
            (server.remoteRef remote collectionRef) with
        | .error response => response
        | .ok (some response) => response
        | .ok none => server.serveFromRemotes files collectionId collectionRef remotes
      else server.serveFromRemotes files collectionId collectionRef remotes := by
  rw [serveFromRemotes, EusRepo.collectionId]
  rcases server.repo.getRemoteOption remote "collection-id".toList with error | option
  · rfl
  · exact ite_not ..

/-- The answer from the remotes is confined. -/
theorem serveFromRemotes_confined {collectionId collectionRef : Text} {remotes : List Text}
    (hremotes : ∀ remote ∈ remotes, remote ∈ server.repo.remoteList)
    (hrequest : server.Requests path collectionId) (hne : collectionRef ≠ [])
    (hdots : ¬ "..".toList <:+: collectionRef) :
    Confined ostree server files path
      (server.serveFromRemotes files collectionId collectionRef remotes).body := by
  induction remotes with
  | nil => exact .empty
  | cons remote remotes ih =>
    rw [List.forall_mem_cons] at hremotes
    rw [serveFromRemotes_cons]
    split
    · next hid =>
      split
      · next h => exact confined_of_error h
      · next h =>
        exact confined_of_some h fun _ hopen =>
          servable_of_remoteRef hopen (.requested hremotes.1 hid hrequest) hne hdots
      · exact ih hremotes.2
    · exact ih hremotes.2

/-- The answer to a request for a mirror is confined. -/
theorem handleRefsMirrors_confined {stripped : Text}
    (hbegins : "/refs/mirrors/".toList <+: stripped) (hpath : path = server.rootPath ++ stripped)
    (hdots : ¬ "..".toList <:+: stripped) :
    Confined ostree server files path (handleRefsMirrors ostree server files stripped).body := by
  simp only [handleRefsMirrors]
  split
  · exact .empty
  · next hinvalid =>
    split
    · next h => exact confined_of_error h
    · next h =>
      exact confined_of_some h fun _ hopen =>
        servable_of_directory hopen hbegins (by decide) rfl (by decide) hdots .refsMirrors
    · split
      · exact .empty
      · split
        · exact .empty
        · next href =>
          obtain ⟨hrequest, hrefDots⟩ :=
            requests_of_mirror hbegins hpath hdots (not_not.1 (not_or.1 hinvalid).2)
          exact serveFromRemotes_confined (fun _ hmem => hmem) hrequest href hrefDots

/-- The answer to every request is confined. -/
theorem handleStripped_confined {stripped : Text} (hpath : path = server.rootPath ++ stripped) :
    Confined ostree server (server.handleStripped ostree files stripped).2 path
      (server.handleStripped ostree files stripped).1.body := by
  rw [handleStripped]
  split
  · exact .empty
  · next hdots =>
    split
    · exact handleObjectsFilez_confined files stripped
    · split
      · next hasIs => exact handleAsIs_confined hasIs hdots
      · split
        · rw [handleConfig, sendBytes, server.cachedConfig_eq]
          exact .config
        · split
          · next hsummary => exact handleSummary_confined hsummary
          · split
            · next hbegins => exact handleRefsHeads_confined hbegins hdots
            · split
              · next hbegins => exact handleRefsMirrors_confined hbegins hpath hdots
              · exact .empty

/-- Every response is confined to the faked config, the objects and the places to serve. -/
theorem handlePath_confined :
    Confined ostree server (server.handlePath ostree files path).2 path
      (server.handlePath ostree files path).1.body := by
  rw [handlePath]
  split
  · exact .empty
  · split
    · exact .empty
    · next hstripped =>
      exact handleStripped_confined (List.isPrefixOf?_eq_some_iff_append_eq.1 hstripped).symm

end EusRepo

end Eus
