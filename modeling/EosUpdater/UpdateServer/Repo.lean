import EosUpdater.GLib.KeyFile
import EosUpdater.GLib.Path
import EosUpdater.Util.Error

/-!
# The repository of the update server

`repo.c` of the update server: `EusRepo` answers requests for the files of a bare `OstreeRepo` as if
it were an archive. It makes up the config and the compressed objects, and it redirects requests for
refs and mirrors that the repository does not have to the refs of its remotes.

libostree is a parameter: `Libostree` for its functions, `OstreeRepo` for a repository. Apart from
the summary, which libostree regenerates, the files are in a `GLib.FileSystem`, and what reading
them gives with them.
-/

namespace Eus

open Euu (GError ErrorCode)
open GLib

/-! ### libostree -/

/-- Bytes, as in a `GBytes`. -/
abbrev Bytes := List UInt8

/-- Files, with the result of reading them. -/
abbrev Files := FileSystem (Except GError Bytes)

/-- A `GInputStream`: what the reads with a buffer of some length return until there are no more
bytes. -/
abbrev InputStream := ℕ → List (Except GError Bytes)

/-- `OstreeRepoMode`. -/
inductive OstreeRepoMode
  | bare
  | archive
  | bareUser
  | bareUserOnly
  | bareSplitXattrs
deriving DecidableEq, Repr

/-- The value of a mode. -/
def OstreeRepoMode.number : OstreeRepoMode → ℕ
  | .bare => 0
  | .archive => 1
  | .bareUser => 2
  | .bareUserOnly => 3
  | .bareSplitXattrs => 4

/-- What `ostree_repo_load_file` loads. -/
structure LoadedFile where
  input : Bytes
  size : Int64
  xattrs : List (Bytes × Bytes)
deriving DecidableEq, Repr

/-- The functions of libostree that are not about a repository. -/
structure Libostree where
  validateStructureofChecksumString : Text → Except GError Unit
  validateCollectionId : Text → Except GError Unit
  rawFileToArchiveZ2Stream : LoadedFile → Int32 → Except GError InputStream

/-- `OstreeRepo`. -/
structure OstreeRepo where
  path : Text
  /-- The path is that of a `GFile`. -/
  path_canonical : dotDot ∉ names path
  config : KeyFile
  mode : OstreeRepoMode
  remoteList : List Text
  getRemoteOption : Text → Text → Except GError (Option Text)
  loadFile : Text → Except GError LoadedFile
  /-- What `ostree_repo_regenerate_summary` returns and leaves behind. -/
  regenerateSummary : Files → Except GError Unit × Files

/-! ### The server -/

/-- `g_key_file_to_data`. -/
def keyFileToData (groups : List (String × List (String × String))) : String :=
  "\n".intercalate <| groups.map fun (group, keys) =>
    "[" ++ group ++ "]\n" ++ String.join (keys.map fun (key, value) => key ++ "=" ++ value ++ "\n")

/-- The configuration file that `generate_faked_config` makes. -/
def fakedConfig : Bytes :=
  (keyFileToData [("core", [("repo_version", "1"), ("mode", "archive-z2")])]).toUTF8.toList

/-- `generate_faked_config`. -/
def generateFakedConfig (repo : OstreeRepo) : Except GError Bytes :=
  let repoVersion : Int32 :=
    match repo.config.getInteger "core" "repo_version" with
    | .ok version => version
    | .error _ => 0
  if repo.mode ≠ .bare ∨ repoVersion ≠ 1 then
    .error ⟨.other "g-io-error-quark" 15,
      "Repository is in the wrong mode (" ++ toString repo.mode.number ++ ") or version ("
        ++ toString repoVersion.toInt ++ ")."⟩
  else .ok fakedConfig

/-- The configuration that is served is the faked one. -/
theorem eq_fakedConfig {repo : OstreeRepo} {config : Bytes}
    (h : generateFakedConfig repo = .ok config) : config = fakedConfig := by
  simp only [generateFakedConfig] at h
  generalize (match repo.config.getInteger "core" "repo_version" with
    | .ok version => version
    | .error _ => 0 : Int32) = version at h
  split at h
  · cases h
  · exact (Except.ok.inj h).symm

/-- `EusRepo`, after its initialisation. -/
structure EusRepo where
  repo : OstreeRepo
  rootPath : Text
  remoteName : Text
  cancelled : Bool
  cachedRepoRoot : Text
  cachedConfig : Bytes
  cachedRepoRoot_eq : cachedRepoRoot = repo.path
  cachedConfig_eq : cachedConfig = fakedConfig

/-- The root path that `eus_repo_set_property` stores. -/
def setRootPath (rootPath : Text) : Text :=
  let rootPath :=
    if rootPath ≠ [] ∧ rootPath.head? ≠ some '/' then '/' :: rootPath else rootPath
  -- a single slash stays
  if 1 < rootPath.length ∧ rootPath.getLast? = some '/' then rootPath.dropLast else rootPath

/-- `eus_repo_new`. -/
def EusRepo.new (repo : OstreeRepo) (rootPath servedRemote : Text) : Except GError EusRepo :=
  match h : generateFakedConfig repo with
  | .error error => .error error
  | .ok config => .ok {
      repo := repo
      rootPath := setRootPath rootPath
      remoteName := servedRemote
      cancelled := false
      cachedRepoRoot := repo.path
      cachedConfig := config
      cachedRepoRoot_eq := rfl
      cachedConfig_eq := eq_fakedConfig h }

/-- The `EusRepo` that is made of a repository. -/
def EusRepo.of (repo : OstreeRepo) (rootPath remoteName : Text) : EusRepo where
  repo := repo
  rootPath := rootPath
  remoteName := remoteName
  cancelled := false
  cachedRepoRoot := repo.path
  cachedConfig := fakedConfig
  cachedRepoRoot_eq := rfl
  cachedConfig_eq := rfl

/-- A new repository serves what it is given. -/
theorem eq_of_new {repo : OstreeRepo} {rootPath remoteName : Text} {eusRepo : EusRepo}
    (h : EusRepo.new repo rootPath remoteName = .ok eusRepo) :
    eusRepo = .of repo (setRootPath rootPath) remoteName := by
  rw [EusRepo.new] at h
  split at h
  · cases h
  · next config hconfig =>
    obtain rfl := eq_fakedConfig hconfig
    exact (Except.ok.inj h).symm

/-! ### Responses -/

/-- The statuses that the server sets. -/
inductive SoupStatus
  | ok
  | badRequest
  | forbidden
  | notFound
  | internalServerError
  | serviceUnavailable
deriving DecidableEq, Repr

/-- The response of a `SoupServerMessage`. -/
structure Response where
  status : SoupStatus
  body : Bytes
  chunked : Bool
deriving DecidableEq, Repr

/-- A response without a body. -/
def Response.ofStatus (status : SoupStatus) : Response := ⟨status, [], false⟩

/-- `send_bytes`. -/
def sendBytes (bytes : Bytes) : Response := ⟨.ok, bytes, false⟩

/-! ### Compressed objects -/

/-- The character class of the regular expression for the paths of objects. -/
def isHexDigit (c : Char) : Bool :=
  ('a' ≤ c && c ≤ 'f') || ('A' ≤ c && c ≤ 'F') || ('0' ≤ c && c ≤ '9')

/-- The groups of a match of the path of an object. A `$` also matches in front of a newline at the
end. -/
def matchFilez (path : Text) : Option (Text × Text) :=
  -- both groups have a fixed length, so that their places are known
  let firstTwo := (path.drop 9).take 2
  let rest := (path.drop 12).take 62
  let filez := "/objects/".toList ++ firstTwo ++ '/' :: rest ++ ".filez".toList
  if (path = filez ∨ path = filez ++ ['\n']) ∧ firstTwo.length = 2 ∧ rest.length = 62 ∧
      (firstTwo ++ rest).all isHexDigit = true
  then some (firstTwo, rest) else none

/-- `get_checksum_from_filez`. -/
def getChecksumFromFilez (ostree : Libostree) (path : Text) : Except GError Text :=
  match matchFilez path with
  | none => .error ⟨.ioFailed, "Invalid filez path " ++ String.ofList path⟩
  | some (firstTwo, rest) => do
      let checksum := firstTwo ++ rest
      ostree.validateStructureofChecksumString checksum
      return checksum

/-- `load_compressed_file_stream`. -/
def loadCompressedFileStream (ostree : Libostree) (repo : OstreeRepo) (checksum : Text) :
    Except GError (InputStream × Int64) := do
  let file ← repo.loadFile checksum
  let stream ← ostree.rawFileToArchiveZ2Stream file 2
  return (stream, file.size)

/-- The length of the buffer for a file of some size. -/
def filezBufferLength (uncompressedSize : Int64) : ℕ :=
  max 1024 (min (2 * 1024 * 1024) (uncompressedSize + 1).toUInt64.toNat)

/-- `filez_stream_read_chunk_cb`, called with the result of one read after the other. -/
def filezStreamReadChunkCb (response : Response) : List (Except GError Bytes) → Response
  | [] => response
  -- the chunks in front of the failure stay in the body
  | .error _ :: _ => { response with status := .internalServerError }
  | .ok [] :: _ => response
  | .ok (byte :: bytes) :: results =>
      filezStreamReadChunkCb { response with body := response.body ++ byte :: bytes } results

/-- `handle_objects_filez`. -/
def handleObjectsFilez (ostree : Libostree) (server : EusRepo) (path : Text) : Response :=
  match getChecksumFromFilez ostree path with
  | .error _ => .ofStatus .notFound
  | .ok checksum =>
      match loadCompressedFileStream ostree server.repo checksum with
      | .error _ => .ofStatus .notFound
      | .ok (stream, uncompressedSize) =>
          filezStreamReadChunkCb ⟨.ok, [], true⟩ (stream (filezBufferLength uncompressedSize))

/-! ### Files -/

/-- `as_is_allowed_object_suffices`. -/
def asIsAllowedObjectSuffices : List Text :=
  [".commit".toList, ".commitmeta".toList, ".dirmeta".toList, ".dirtree".toList, ".sig".toList,
    ".sizes2".toList]

/-- `path_is_handled_as_is`. -/
def pathIsHandledAsIs (path : Text) : Bool :=
  if "/objects/".toList <+: path then asIsAllowedObjectSuffices.any fun suffix => suffix <:+ path
  else "/deltas/".toList <+: path ∨ "/extensions/".toList <+: path

/-- `path_is_summary`. -/
def pathIsSummary (path : Text) : Bool := path = "/summary".toList ∨ path = "/summary.sig".toList

/-- `serve_file_if_exists`: the response for a failure, or that for the file if it is served. -/
def serveFileIfExists (files : Files) (root rawPath : Text) : Except Response (Option Response) :=
  let path := canonicalize rawPath
  -- symbolic links inside the root are followed
  if ¬ hasPrefix path (canonicalize root) then .ok none
  else if (files.node path).isNone then .ok none
  else if (files.regular path).isNone then .ok none
  else
    -- the raw path is opened, as it is, to map the file or to read it
    match files.openFile rawPath with
    | some (.ok contents) => .ok (some (sendBytes contents))
    | _ => .error (.ofStatus .internalServerError)

/-- `serve_file`. -/
def serveFile (files : Files) (root rawPath : Text) : Response :=
  match serveFileIfExists files root rawPath with
  | .error response => response
  | .ok (some response) => response
  | .ok none => .ofStatus .notFound

namespace EusRepo

/-- `handle_as_is`. -/
def handleAsIs (server : EusRepo) (files : Files) (path : Text) : Response :=
  serveFile files server.cachedRepoRoot (buildFilename [server.cachedRepoRoot, path])

/-- `handle_config`. -/
def handleConfig (server : EusRepo) : Response := sendBytes server.cachedConfig

/-- `handle_summary`. -/
def handleSummary (server : EusRepo) (files : Files) (path : Text) : Response × Files :=
  let rawPath := buildFilename [server.cachedRepoRoot, path]
  match serveFileIfExists files server.cachedRepoRoot rawPath with
  | .error response => (response, files)
  | .ok (some response) => (response, files)
  | .ok none =>
      -- there is no summary, so it is made
      match server.repo.regenerateSummary files with
      | (.error _, files) => (.ofStatus .notFound, files)
      | (.ok (), files) => (serveFile files server.cachedRepoRoot rawPath, files)

/-- The path of a ref of a remote. -/
def remoteRef (server : EusRepo) (remote ref : Text) : Text :=
  buildFilename [server.cachedRepoRoot, "refs".toList, "remotes".toList, remote, ref]

/-- `handle_refs_heads`. -/
def handleRefsHeads (server : EusRepo) (files : Files) (path : Text) : Response :=
  let prefixLen := "/refs/heads/".toList.length
  if path.length ≤ prefixLen then .ofStatus .badRequest
  else
    match serveFileIfExists files server.cachedRepoRoot
        (buildFilename [server.cachedRepoRoot, path]) with
    | .error response => response
    | .ok (some response) => response
    | .ok none =>
        -- probably a head that this repository only has as a ref of the remote
        serveFile files server.cachedRepoRoot
          (server.remoteRef server.remoteName (path.drop prefixLen))

/-- The loop of `handle_refs_mirrors` over the remotes. -/
def serveFromRemotes (server : EusRepo) (files : Files) (collectionId collectionRef : Text) :
    List Text → Response
  | [] => .ofStatus .notFound
  | remote :: remotes =>
      match server.repo.getRemoteOption remote "collection-id".toList with
      -- a remote whose collection ID cannot be read is skipped
      | .error _ => server.serveFromRemotes files collectionId collectionRef remotes
      | .ok remoteCollectionId =>
          if remoteCollectionId ≠ some collectionId then
            server.serveFromRemotes files collectionId collectionRef remotes
          else
            match serveFileIfExists files server.cachedRepoRoot
                (server.remoteRef remote collectionRef) with
            | .error response => response
            | .ok (some response) => response
            | .ok none => server.serveFromRemotes files collectionId collectionRef remotes

/-- `handle_refs_mirrors`. -/
def handleRefsMirrors (ostree : Libostree) (server : EusRepo) (files : Files) (path : Text) :
    Response :=
  let prefixLen := "/refs/mirrors/".toList.length
  if path.length ≤ prefixLen ∨ '/' ∉ path.drop prefixLen then .ofStatus .badRequest
  else
    match serveFileIfExists files server.cachedRepoRoot
        (buildFilename [server.cachedRepoRoot, path]) with
    | .error response => response
    | .ok (some response) => response
    | .ok none =>
        -- otherwise a ref of one of the remotes with this collection ID
        let collectionId := (path.drop prefixLen).takeWhile (· ≠ '/')
        match ostree.validateCollectionId collectionId with
        | .error _ => .ofStatus .badRequest
        | .ok () =>
            let collectionRef := path.drop (prefixLen + collectionId.length + 1)
            if collectionRef = [] then .ofStatus .badRequest
            else server.serveFromRemotes files collectionId collectionRef server.repo.remoteList

/-- `handle_path`, on what is left of a path without the root path. -/
def handleStripped (ostree : Libostree) (server : EusRepo) (files : Files) (path : Text) :
    Response × Files :=
  if "..".toList <:+: path then (.ofStatus .forbidden, files)
  else if "/objects/".toList <+: path ∧ ".filez".toList <:+ path then
    (handleObjectsFilez ostree server path, files)
  else if pathIsHandledAsIs path then (server.handleAsIs files path, files)
  else if path = "/config".toList then (server.handleConfig, files)
  else if pathIsSummary path then server.handleSummary files path
  else if "/refs/heads/".toList <+: path then (server.handleRefsHeads files path, files)
  else if "/refs/mirrors/".toList <+: path then
    (handleRefsMirrors ostree server files path, files)
  else (.ofStatus .notFound, files)

/-- `handle_path`: the response, and the files after it. -/
def handlePath (ostree : Libostree) (server : EusRepo) (files : Files) (path : Text) :
    Response × Files :=
  if server.cancelled then (.ofStatus .serviceUnavailable, files)
  else
    match server.rootPath.isPrefixOf? path with
    | none => (.ofStatus .notFound, files)
    | some stripped => handleStripped ostree server files stripped

end EusRepo

end Eus
