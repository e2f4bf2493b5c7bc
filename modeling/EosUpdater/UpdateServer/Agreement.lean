import EosUpdater.UpdateServer.Confinement

/-!
# Repositories that answer alike

Two repositories that agree on the places from which a request can be answered
(`AgreeOnServed`) have the same regular files there, at any places in their file systems. That is
not quite enough for the same answer (`agreeOnServed_not_sufficient`): a directory of these places
may be a regular file in one of them, and the name of a remote may lead through a directory that
only one of them has. Those that agree on this too (`Agree`) answer the request alike.
-/

namespace Eus

open GLib

variable {ostree : Libostree} {path : Text} {a b : EusRepo} {filesA filesB : Files}

/-- Two repositories, with a summary, that agree on what the response to a request can contain. -/
structure AgreeOnServed (ostree : Libostree) (path : Text) (a : EusRepo) (filesA : Files)
    (b : EusRepo) (filesB : Files) : Prop where
  rootPath : a.rootPath = b.rootPath
  remoteName : a.remoteName = b.remoteName
  cancelled : a.cancelled = b.cancelled
  remoteList : a.repo.remoteList = b.repo.remoteList
  collectionId : ∀ remote ∈ a.repo.remoteList, a.collectionId remote = b.collectionId remote
  object : ∀ checksum, IsChecksum ostree checksum →
    (loadCompressedFileStream ostree a.repo checksum).toOption =
      (loadCompressedFileStream ostree b.repo checksum).toOption
  served : ∀ rest, a.Servable path (a.root ++ rest) →
    filesA.regular (a.root ++ rest) = filesB.regular (b.root ++ rest)
  summary : (filesA.regular (a.root ++ ["summary".toList])).isSome

/-- Two repositories that also agree on whether the directories of what they serve are regular
files, and on whether there are the directories that the names of remotes with `..` lead through. -/
structure Agree (ostree : Libostree) (path : Text) (a : EusRepo) (filesA : Files) (b : EusRepo)
    (filesB : Files) : Prop extends AgreeOnServed ostree path a filesA b filesB where
  directory : ∀ rest, a.ServedDirectory path (a.root ++ rest) →
    (filesA.regular (a.root ++ rest)).isSome = (filesB.regular (b.root ++ rest)).isSome
  upwards : ∀ remote, a.RedirectsTo path remote → dotDot ∈ names remote →
    a.repo.path = b.repo.path ∧
      (filesA.walk [] (names (a.remoteRef remote []))).isSome =
        (filesB.walk [] (names (b.remoteRef remote []))).isSome

/-- Regenerating the summary makes no signature for it. -/
def LeavesUnsigned (server : EusRepo) : Prop :=
  ∀ files : Files, files.regular (server.root ++ ["summary.sig".toList]) = none →
    (server.repo.regenerateSummary files).2.regular (server.root ++ ["summary.sig".toList]) = none

/-! ### Files -/

theorem serveFileIfExists_eq (files : Files) (root rawPath : Text) :
    serveFileIfExists files root rawPath =
      if hasPrefix (canonicalize rawPath) (canonicalize root) ∧
          (files.regular (canonicalize rawPath)).isSome then
        match files.openFile rawPath with
        | some (.ok contents) => .ok (some (sendBytes contents))
        | _ => .error (.ofStatus .internalServerError)
      else .ok none := by
  simp only [serveFileIfExists]
  -- a regular file exists, so the three checks are two
  by_cases hbegins : hasPrefix (canonicalize rawPath) (canonicalize root)
  · rw [if_neg (not_not.2 hbegins)]
    rcases hregular : files.regular (canonicalize rawPath) with _ | contents
    · simp
    · have hnode : (files.node (canonicalize rawPath)).isSome :=
        FileSystem.isSome_node_of_regular (by rw [hregular]; rfl)
      exact (if_neg (by simpa using Option.isSome_iff_ne_none.1 hnode)).trans
        ((if_neg (by simp)).trans (if_pos ⟨hbegins, rfl⟩).symm)
  · rw [if_pos hbegins, if_neg fun h => hbegins h.1]

theorem serveFileIfExists_congr {root root' rawPath rawPath' : Text}
    (hbegins : hasPrefix (canonicalize rawPath) (canonicalize root) ↔
      hasPrefix (canonicalize rawPath') (canonicalize root'))
    (hregular : hasPrefix (canonicalize rawPath) (canonicalize root) →
      (filesA.regular (canonicalize rawPath)).isSome =
        (filesB.regular (canonicalize rawPath')).isSome)
    (hopen : hasPrefix (canonicalize rawPath) (canonicalize root) →
      (filesA.regular (canonicalize rawPath)).isSome →
      filesA.openFile rawPath = filesB.openFile rawPath') :
    serveFileIfExists filesA root rawPath = serveFileIfExists filesB root' rawPath' := by
  rw [serveFileIfExists_eq, serveFileIfExists_eq]
  by_cases h : hasPrefix (canonicalize rawPath) (canonicalize root)
  · rw [← hregular h]
    by_cases hsome : (filesA.regular (canonicalize rawPath)).isSome
    · rw [if_pos ⟨h, hsome⟩, if_pos ⟨hbegins.1 h, hsome⟩, hopen h hsome]
    · rw [if_neg fun hboth => hsome hboth.2, if_neg fun hboth => hsome hboth.2]
  · rw [if_neg fun hboth => h hboth.1, if_neg fun hboth => h (hbegins.2 hboth.1)]

/-- What is below the root begins with the root's canonical path. -/
theorem hasPrefix_root (server : EusRepo) {rest : List Text} (hne : rest ≠ []) :
    hasPrefix (server.root ++ rest) (canonicalize server.cachedRepoRoot) :=
  ⟨List.prefix_append _ _, fun heq => absurd (List.self_eq_append_right.1 heq) hne⟩

/-- The walk to the root of a repository arrives if there is something below it. -/
theorem walk_root {server : EusRepo} {files : Files} {rest : List Text}
    (h : (files.regular (server.root ++ rest)).isSome) (hne : rest ≠ []) :
    files.walk [] (names server.cachedRepoRoot) = some server.root := by
  have hdots : dotDot ∉ names server.cachedRepoRoot := by
    rw [server.cachedRepoRoot_eq]
    exact server.repo.path_canonical
  have hroot : server.root = [] ++ descent (names server.cachedRepoRoot) := foldl_follow [] hdots
  rw [hroot] at h ⊢
  exact FileSystem.walk_of_isSome hdots (FileSystem.isSome_node_of_regular h) hne

/-- Two repositories serve a path without `..` alike if they agree on whether it leads to a regular
file, and on the file if it can be served. -/
theorem serve_congr (h : AgreeOnServed ostree path a filesA b filesB) (elements : List Text)
    {last : Text} (hlast : last ≠ []) (hdots : dotDot ∉ (elements ++ [last]).flatMap names)
    (hne : descent ((elements ++ [last]).flatMap names) ≠ [])
    (hregular : (filesA.regular (a.root ++ descent ((elements ++ [last]).flatMap names))).isSome =
      (filesB.regular (b.root ++ descent ((elements ++ [last]).flatMap names))).isSome)
    (hservable : ∀ contents,
      filesA.openFile (buildFilename (a.cachedRepoRoot :: (elements ++ [last]))) = some contents →
      a.Servable path (a.root ++ descent ((elements ++ [last]).flatMap names))) :
    serveFileIfExists filesA a.cachedRepoRoot
        (buildFilename (a.cachedRepoRoot :: (elements ++ [last]))) =
      serveFileIfExists filesB b.cachedRepoRoot
        (buildFilename (b.cachedRepoRoot :: (elements ++ [last]))) := by
  have hcanonical (server : EusRepo) :
      canonicalize (buildFilename (server.cachedRepoRoot :: (elements ++ [last]))) =
        server.root ++ descent ((elements ++ [last]).flatMap names) :=
    canonicalize_buildFilename_of_notMem server.cachedRepoRoot hdots
  have hnames (server : EusRepo) :
      names (buildFilename (server.cachedRepoRoot :: (elements ++ [last]))) =
        names server.cachedRepoRoot ++ (elements ++ [last]).flatMap names := by
    rw [names_buildFilename, List.flatMap_cons]
  have hbegins (server : EusRepo) :
      hasPrefix (canonicalize (buildFilename (server.cachedRepoRoot :: (elements ++ [last]))))
        (canonicalize server.cachedRepoRoot) := by
    rw [hcanonical]
    exact hasPrefix_root server hne
  -- without `..` the path leads below the root, so the check for that succeeds in both
  refine serveFileIfExists_congr (iff_of_true (hbegins a) (hbegins b)) (fun _ => ?_)
    fun _ hsome => FileSystem.openFile_congr ?_ ?_ hsome fun contents hopen => ?_
  · rw [hcanonical, hcanonical, hregular]
  · rw [← List.cons_append, ← List.cons_append, endsInSlash_buildFilename _ hlast,
      endsInSlash_buildFilename _ hlast]
  · -- both roots can be reached, and from there the walks are alike
    rw [hcanonical] at hsome
    have hsome' := hregular ▸ hsome
    rw [hnames, hnames, FileSystem.walk_append, FileSystem.walk_append, walk_root hsome hne,
      walk_root hsome' hne]
    exact FileSystem.walk_isSome_congr hdots hsome hsome'
  · rw [hcanonical, ← h.served _ (hservable contents hopen), ← hcanonical a]
    exact FileSystem.regular_of_openFile hopen

/-! ### Places -/

/-- At and below a directory of what is served, the two have regular files at the same places. -/
theorem regular_isSome_congr (h : Agree ostree path a filesA b filesB) {dir below rest : List Text}
    (hdir : a.ServedDirectory path dir) (heq : dir ++ below = a.root ++ rest) :
    (filesA.regular (a.root ++ rest)).isSome = (filesB.regular (b.root ++ rest)).isSome := by
  by_cases hbelow : below = []
  · rw [hbelow, List.append_nil] at heq
    exact h.directory rest (heq ▸ hdir)
  · rw [h.served rest (.inDirectory hdir ⟨below, hbelow, heq.symm⟩)]

theorem descent_append (front rest : List Text) :
    descent (front ++ rest) = descent front ++ descent rest :=
  List.filter_append ..

/-- Two servers that agree on a directory serve it alike. -/
theorem serve_congr_directory (h : Agree ostree path a filesA b filesB) {front dir : Text}
    {place : List Text} (hbegins : front <+: dir) (hslash : endsInSlash front = true)
    (hnames : names front = place) (hplace : dotDot ∉ place) (hne : descent place ≠ [])
    (hdots : ¬ "..".toList <:+: dir)
    (hdir : a.ServedDirectory path (a.root ++ descent place)) :
    serveFileIfExists filesA a.cachedRepoRoot (buildFilename [a.cachedRepoRoot, dir]) =
      serveFileIfExists filesB b.cachedRepoRoot (buildFilename [b.cachedRepoRoot, dir]) := by
  have hlast : dir ≠ [] := by
    rintro rfl
    rw [List.prefix_nil.1 hbegins] at hslash
    cases hslash
  have hflat : ([] ++ [dir]).flatMap names = names dir := List.flatMap_singleton ..
  have hdescent : ∃ below, descent (names dir) = descent place ++ below := by
    obtain ⟨rest, rfl⟩ := hbegins
    exact ⟨_, by rw [names_append hslash, hnames, descent_append]⟩
  obtain ⟨below, hbelow⟩ := hdescent
  refine serve_congr h.toAgreeOnServed [] hlast ?_ ?_ ?_ fun contents hopen => ?_
  · exact hflat ▸ dotDot_notMem_names hdots
  · rw [hflat, hbelow]
    exact List.append_ne_nil_of_left_ne_nil hne below
  · rw [hflat, hbelow]
    exact regular_isSome_congr h hdir (List.append_assoc _ _ _)
  · have hservable := servable_of_directory hopen hbegins hslash hnames hplace hdots hdir
    rwa [canonicalize_buildFilename_of_notMem _ (hflat ▸ dotDot_notMem_names hdots)] at hservable

/-- A path that can be served in any case. -/
theorem serve_congr_servable (h : AgreeOnServed ostree path a filesA b filesB) {last : Text}
    (hdots : ¬ "..".toList <:+: last) (hne : descent (names last) ≠ [])
    (hservable : a.Servable path (canonicalize (buildFilename [a.cachedRepoRoot, last]))) :
    serveFileIfExists filesA a.cachedRepoRoot (buildFilename [a.cachedRepoRoot, last]) =
      serveFileIfExists filesB b.cachedRepoRoot (buildFilename [b.cachedRepoRoot, last]) := by
  have hlast : last ≠ [] := by
    rintro rfl
    exact hne (by simp [descent])
  have hflat : ([] ++ [last]).flatMap names = names last := List.flatMap_singleton ..
  have hnotMem : dotDot ∉ ([] ++ [last]).flatMap names := hflat ▸ dotDot_notMem_names hdots
  have hplace : a.Servable path (a.root ++ descent (([] ++ [last]).flatMap names)) :=
    canonicalize_buildFilename_of_notMem a.cachedRepoRoot hnotMem ▸ hservable
  exact serve_congr h [] hlast hnotMem (hflat ▸ hne) (by rw [h.served _ hplace]) fun _ _ => hplace

theorem names_remoteRef (server : EusRepo) (remote ref : Text) :
    names (server.remoteRef remote ref) = names (server.remoteRef remote []) ++ names ref := by
  simp [EusRepo.remoteRef, names_buildFilename]

/-- Where a request is redirected to. -/
theorem canonicalize_remoteRef (server : EusRepo) (remote : Text) {ref : Text}
    (hdots : ¬ "..".toList <:+: ref) :
    canonicalize (server.remoteRef remote ref) =
      server.remoteDirectory remote ++ descent (names ref) := by
  rw [canonicalize, names_remoteRef, List.foldl_append, foldl_follow _ (dotDot_notMem_names hdots)]
  rfl

/-- Redirection to a remote whose name leads up, from the same path. -/
theorem serve_congr_upwards (h : Agree ostree path a filesA b filesB) {remote ref : Text}
    (hremote : a.RedirectsTo path remote) (hne : ref ≠ []) (hdots : ¬ "..".toList <:+: ref)
    (hup : dotDot ∈ names remote) :
    serveFileIfExists filesA a.cachedRepoRoot (a.remoteRef remote ref) =
      serveFileIfExists filesB b.cachedRepoRoot (b.remoteRef remote ref) := by
  obtain ⟨hpath, hwalk⟩ := h.upwards remote hremote hup
  have hroot : a.cachedRepoRoot = b.cachedRepoRoot := by
    rw [a.cachedRepoRoot_eq, b.cachedRepoRoot_eq, hpath]
  have hrawPath (ref : Text) : b.remoteRef remote ref = a.remoteRef remote ref := by
    rw [EusRepo.remoteRef, EusRepo.remoteRef, hroot]
  have hroots : b.root = a.root := by rw [EusRepo.root, EusRepo.root, hroot]
  have hcanonical := canonicalize_remoteRef a remote hdots
  have hregular {rest : List Text}
      (hrest : a.root ++ rest = canonicalize (a.remoteRef remote ref)) :
      (filesA.regular (canonicalize (a.remoteRef remote ref))).isSome =
        (filesB.regular (canonicalize (a.remoteRef remote ref))).isSome := by
    have hsome := regular_isSome_congr h (.refsRemotes hremote) (hcanonical.symm.trans hrest.symm)
    rwa [hroots, hrest] at hsome
  rw [hrawPath] at hwalk
  rw [hrawPath, ← hroot]
  refine serveFileIfExists_congr Iff.rfl (fun ⟨⟨rest, hrest⟩, _⟩ => hregular hrest)
    fun ⟨⟨rest, hrest⟩, _⟩ hsome => FileSystem.openFile_congr rfl ?_ hsome fun contents hopen => ?_
  · have hsome' := hregular hrest ▸ hsome
    -- the walks to the directory of the remote succeed alike, and those from there
    rw [hcanonical] at hsome hsome'
    rw [names_remoteRef, FileSystem.walk_append, FileSystem.walk_append]
    rcases hdir : filesA.walk [] (names (a.remoteRef remote [])) with _ | dir
    · rw [hdir, Option.isSome_none, eq_comm, Option.isSome_eq_false_iff,
        Option.isNone_iff_eq_none] at hwalk
      rw [hwalk]
      rfl
    · rw [hdir, Option.isSome_some, eq_comm, Option.isSome_iff_exists] at hwalk
      obtain ⟨dir', hdir'⟩ := hwalk
      obtain rfl : dir = a.remoteDirectory remote := FileSystem.eq_foldl_of_walk hdir
      obtain rfl : dir' = a.remoteDirectory remote := FileSystem.eq_foldl_of_walk hdir'
      rw [hdir']
      exact FileSystem.walk_isSome_congr (dotDot_notMem_names hdots) hsome hsome'
  · have hservable := servable_of_remoteRef hopen hremote hne hdots
    have hrest' : a.root ++ rest = canonicalize (a.remoteRef remote ref) := hrest
    have hplace := h.served rest
    rw [hroots, hrest'] at hplace
    exact (hplace hservable).symm.trans (FileSystem.regular_of_openFile hopen)

/-- Two servers that agree serve the refs of a remote alike. -/
theorem serve_congr_remoteRef (h : Agree ostree path a filesA b filesB) {remote ref : Text}
    (hremote : a.RedirectsTo path remote) (hne : ref ≠ []) (hdots : ¬ "..".toList <:+: ref) :
    serveFileIfExists filesA a.cachedRepoRoot (a.remoteRef remote ref) =
      serveFileIfExists filesB b.cachedRepoRoot (b.remoteRef remote ref) := by
  by_cases hup : dotDot ∈ names remote
  · exact serve_congr_upwards h hremote hne hdots hup
  · let elements := ["refs".toList, "remotes".toList, remote]
    have hflat : (elements ++ [ref]).flatMap names =
        "refs".toList :: "remotes".toList :: (names remote ++ names ref) := by
      rw [← List.flatMap_singleton (f := names) (x := ref)]
      exact flatMap_names_remote remote [ref]
    have hnotMem : dotDot ∉ (elements ++ [ref]).flatMap names := by
      rw [hflat, List.mem_cons, List.mem_cons, List.mem_append]
      simp [hup, dotDot_notMem_names hdots]
    have hcanonical : canonicalize (a.remoteRef remote ref) =
        a.root ++ descent ((elements ++ [ref]).flatMap names) :=
      canonicalize_buildFilename_of_notMem a.cachedRepoRoot hnotMem
    refine serve_congr h.toAgreeOnServed elements hne hnotMem ?_ ?_ fun contents hopen => ?_
    · rw [hflat]
      simp [descent]
    · exact regular_isSome_congr h (.refsRemotes hremote)
        ((canonicalize_remoteRef a remote hdots).symm.trans hcanonical)
    · exact hcanonical ▸ servable_of_remoteRef hopen hremote hne hdots

/-! ### Responses -/

theorem handleObjectsFilez_congr (h : AgreeOnServed ostree path a filesA b filesB)
    (stripped : Text) :
    handleObjectsFilez ostree a stripped = handleObjectsFilez ostree b stripped := by
  rw [handleObjectsFilez, handleObjectsFilez]
  split
  · rfl
  · next checksum hchecksum =>
    have hload := h.object checksum (isChecksum_of_getChecksumFromFilez hchecksum)
    rcases hA : loadCompressedFileStream ostree a.repo checksum with errorA | ⟨streamA, sizeA⟩ <;>
      rcases hB : loadCompressedFileStream ostree b.repo checksum with errorB | ⟨streamB, sizeB⟩
    · rfl
    · rw [hA, hB] at hload
      cases hload
    · rw [hA, hB] at hload
      cases hload
    · rw [hA, hB] at hload
      cases hload
      rfl

namespace EusRepo

theorem handleAsIs_congr (h : Agree ostree path a filesA b filesB) {stripped : Text}
    (hasIs : pathIsHandledAsIs stripped = true) (hdots : ¬ "..".toList <:+: stripped) :
    a.handleAsIs filesA stripped = b.handleAsIs filesB stripped := by
  rw [handleAsIs, handleAsIs, serveFile, serveFile]
  suffices heq : serveFileIfExists filesA a.cachedRepoRoot
      (buildFilename [a.cachedRepoRoot, stripped]) =
        serveFileIfExists filesB b.cachedRepoRoot (buildFilename [b.cachedRepoRoot, stripped]) by
    rw [heq]
  rw [pathIsHandledAsIs] at hasIs
  split at hasIs
  · next hbegins =>
    obtain ⟨suffix, hallowed, hsuffix⟩ := List.any_eq_true.1 hasIs
    refine serve_congr_servable h.toAgreeOnServed hdots ?_
      (servable_of_object hbegins hallowed (of_decide_eq_true hsuffix) hdots)
    obtain ⟨rest, rfl⟩ := hbegins
    rw [names_append (by decide), descent_append]
    exact List.append_ne_nil_of_left_ne_nil (by decide) _
  · rcases of_decide_eq_true hasIs with hbegins | hbegins
    · exact serve_congr_directory h hbegins (by decide) rfl (by decide) (by decide) hdots .deltas
    · exact serve_congr_directory h hbegins (by decide) rfl (by decide) (by decide) hdots
        .extensions

end EusRepo

/-- Nothing is served under the root only where there is no regular file. -/
theorem regular_of_serveFileIfExists_none {files : Files} {root rawPath : Text}
    (hbegins : hasPrefix (canonicalize rawPath) (canonicalize root)) :
    serveFileIfExists files root rawPath = .ok none ↔
      files.regular (canonicalize rawPath) = none := by
  rw [serveFileIfExists_eq]
  rcases hregular : files.regular (canonicalize rawPath) with _ | contents
  · simp
  · rw [if_pos ⟨hbegins, rfl⟩]
    refine iff_of_false ?_ (by simp)
    split <;> simp

/-- A file right under the root is not served only if it is not there. -/
theorem serveFileIfExists_root_eq_none (server : EusRepo) (files : Files) {stripped name : Text}
    (hnames : names stripped = [name]) (hdotDot : dotDot ≠ name) (hdot : name ≠ dot) :
    serveFileIfExists files server.cachedRepoRoot
        (buildFilename [server.cachedRepoRoot, stripped]) = .ok none ↔
      files.regular (server.root ++ [name]) = none := by
  have hflat : [stripped].flatMap names = [name] := by rw [List.flatMap_singleton, hnames]
  have hplace : canonicalize (buildFilename [server.cachedRepoRoot, stripped]) =
      server.root ++ [name] := by
    rw [canonicalize_buildFilename_of_notMem _ (by rw [hflat]; simpa using hdotDot), hflat]
    simp [descent, hdot, EusRepo.root]
  rw [regular_of_serveFileIfExists_none (hplace ▸ hasPrefix_root server (by simp)), hplace]

theorem serveFileIfExists_summary_eq_none (server : EusRepo) (files : Files) :
    serveFileIfExists files server.cachedRepoRoot
        (buildFilename [server.cachedRepoRoot, "/summary".toList]) = .ok none ↔
      files.regular (server.root ++ ["summary".toList]) = none :=
  serveFileIfExists_root_eq_none server files
    (show names "/summary".toList = ["summary".toList] by decide) (by decide) (by decide)

theorem serveFileIfExists_summarySig_eq_none (server : EusRepo) (files : Files) :
    serveFileIfExists files server.cachedRepoRoot
        (buildFilename [server.cachedRepoRoot, "/summary.sig".toList]) = .ok none ↔
      files.regular (server.root ++ ["summary.sig".toList]) = none :=
  serveFileIfExists_root_eq_none server files
    (show names "/summary.sig".toList = ["summary.sig".toList] by decide) (by decide) (by decide)

namespace EusRepo

/-- A signature that is not there is not made. -/
theorem handleSummary_unsigned {server : EusRepo} {files : Files}
    (hunsigned : LeavesUnsigned server)
    (hnone : serveFileIfExists files server.cachedRepoRoot
      (buildFilename [server.cachedRepoRoot, "/summary.sig".toList]) = .ok none) :
    (server.handleSummary files "/summary.sig".toList).1 = .ofStatus .notFound := by
  have hregenerated :=
    hunsigned files ((serveFileIfExists_summarySig_eq_none server files).1 hnone)
  simp only [handleSummary, hnone]
  rcases hregenerate : server.repo.regenerateSummary files with ⟨error | ⟨⟩, regenerated⟩
  · rfl
  · rw [hregenerate] at hregenerated
    simp only [serveFile,
      (serveFileIfExists_summarySig_eq_none server regenerated).2 hregenerated]

theorem handleSummary_congr (h : AgreeOnServed ostree path a filesA b filesB)
    (hunsignedA : LeavesUnsigned a) (hunsignedB : LeavesUnsigned b) {stripped : Text}
    (hsummary : pathIsSummary stripped = true) :
    (a.handleSummary filesA stripped).1 = (b.handleSummary filesB stripped).1 := by
  rcases of_decide_eq_true hsummary with rfl | rfl
  · have heq := serve_congr_servable h (by decide) (by decide) (servable_of_summary hsummary)
    have hthere := (serveFileIfExists_summary_eq_none a filesA).1
    simp only [handleSummary, ← heq]
    rcases hserve : serveFileIfExists filesA a.cachedRepoRoot
      (buildFilename [a.cachedRepoRoot, "/summary".toList]) with response | _ | response
    · rfl
    · exact absurd (hthere hserve) (Option.isSome_iff_ne_none.1 h.summary)
    · rfl
  · have heq := serve_congr_servable h (by decide) (by decide) (servable_of_summary hsummary)
    rcases hserve : serveFileIfExists filesA a.cachedRepoRoot
      (buildFilename [a.cachedRepoRoot, "/summary.sig".toList]) with response | _ | response
    · simp only [handleSummary, ← heq, hserve]
    · rw [handleSummary_unsigned hunsignedA hserve,
        handleSummary_unsigned hunsignedB (heq.symm.trans hserve)]
    · simp only [handleSummary, ← heq, hserve]

theorem handleRefsHeads_congr (h : Agree ostree path a filesA b filesB) {stripped : Text}
    (hbegins : "/refs/heads/".toList <+: stripped) (hdots : ¬ "..".toList <:+: stripped) :
    a.handleRefsHeads filesA stripped = b.handleRefsHeads filesB stripped := by
  have heq := serve_congr_directory h hbegins (by decide) rfl (by decide) (by decide) hdots
    .refsHeads
  simp only [handleRefsHeads, ← heq, ← h.remoteName]
  split
  · rfl
  · next hlength =>
    obtain ⟨hne, hhead⟩ := head_of_refsHeads hbegins hlength hdots
    rw [serveFile, serveFile, serve_congr_remoteRef h .served hne hhead]

theorem serveFromRemotes_congr (h : Agree ostree path a filesA b filesB)
    {collectionId collectionRef : Text} {remotes : List Text}
    (hremotes : ∀ remote ∈ remotes, remote ∈ a.repo.remoteList)
    (hrequest : a.Requests path collectionId) (hne : collectionRef ≠ [])
    (hdots : ¬ "..".toList <:+: collectionRef) :
    a.serveFromRemotes filesA collectionId collectionRef remotes =
      b.serveFromRemotes filesB collectionId collectionRef remotes := by
  induction remotes with
  | nil => rfl
  | cons remote remotes ih =>
    rw [List.forall_mem_cons] at hremotes
    rw [serveFromRemotes_cons, serveFromRemotes_cons, ← h.collectionId remote hremotes.1,
      ih hremotes.2]
    split
    · next hid =>
      rw [serve_congr_remoteRef h (.requested hremotes.1 hid hrequest) hne hdots]
    · rfl

theorem handleRefsMirrors_congr (h : Agree ostree path a filesA b filesB) {stripped : Text}
    (hbegins : "/refs/mirrors/".toList <+: stripped) (hpath : path = a.rootPath ++ stripped)
    (hdots : ¬ "..".toList <:+: stripped) :
    handleRefsMirrors ostree a filesA stripped = handleRefsMirrors ostree b filesB stripped := by
  have heq := serve_congr_directory h hbegins (by decide) rfl (by decide) (by decide) hdots
    .refsMirrors
  simp only [handleRefsMirrors, ← heq, ← h.remoteList]
  split
  · rfl
  · next hvalid =>
    split
    · rfl
    · rfl
    · split
      · rfl
      · split
        · rfl
        · next href =>
          obtain ⟨hrequest, hrefDots⟩ :=
            requests_of_mirror hbegins hpath hdots (not_not.1 (not_or.1 hvalid).2)
          exact serveFromRemotes_congr h (fun _ hmem => hmem) hrequest href hrefDots

theorem handleStripped_congr (h : Agree ostree path a filesA b filesB)
    (hunsignedA : LeavesUnsigned a) (hunsignedB : LeavesUnsigned b) {stripped : Text}
    (hpath : path = a.rootPath ++ stripped) :
    (a.handleStripped ostree filesA stripped).1 = (b.handleStripped ostree filesB stripped).1 := by
  rw [handleStripped, handleStripped]
  split
  · rfl
  · next hdots =>
    split
    · exact handleObjectsFilez_congr h.toAgreeOnServed stripped
    · split
      · next hasIs => exact handleAsIs_congr h hasIs hdots
      · split
        · rw [handleConfig, handleConfig, a.cachedConfig_eq, b.cachedConfig_eq]
        · split
          · next hsummary =>
            exact handleSummary_congr h.toAgreeOnServed hunsignedA hunsignedB hsummary
          · split
            · next hbegins => exact handleRefsHeads_congr h hbegins hdots
            · split
              · next hbegins => exact handleRefsMirrors_congr h hbegins hpath hdots
              · rfl

/-- Repositories that agree on what the response to a request can contain give the same one. -/
theorem handlePath_congr (h : Agree ostree path a filesA b filesB)
    (hunsignedA : LeavesUnsigned a) (hunsignedB : LeavesUnsigned b) :
    (a.handlePath ostree filesA path).1 = (b.handlePath ostree filesB path).1 := by
  rw [handlePath, handlePath, ← h.cancelled, ← h.rootPath]
  split
  · rfl
  · split
    · rfl
    · next hstripped =>
      exact handleStripped_congr h hunsignedA hunsignedB
        (List.isPrefixOf?_eq_some_iff_append_eq.1 hstripped).symm

/-! ### Requests one after the other -/

/-- The files stay as they are while there are a summary and its signature. -/
theorem handlePath_files {server : EusRepo} {files : Files}
    (hsummary : (files.regular (server.root ++ ["summary".toList])).isSome)
    (hsigned : (files.regular (server.root ++ ["summary.sig".toList])).isSome) (path : Text) :
    (server.handlePath ostree files path).2 = files := by
  have hkept {stripped : Text} (h : pathIsSummary stripped = true) :
      (server.handleSummary files stripped).2 = files := by
    -- the summary that is asked for is there, so none is made
    have hserved : serveFileIfExists files server.cachedRepoRoot
        (buildFilename [server.cachedRepoRoot, stripped]) ≠ .ok none := by
      rcases of_decide_eq_true h with rfl | rfl
      · exact fun hnone => Option.isSome_iff_ne_none.1 hsummary
          ((serveFileIfExists_summary_eq_none server files).1 hnone)
      · exact fun hnone => Option.isSome_iff_ne_none.1 hsigned
          ((serveFileIfExists_summarySig_eq_none server files).1 hnone)
    rw [handleSummary]
    split
    · rfl
    · rfl
    · next hnone => exact absurd hnone hserved
  rw [handlePath]
  split
  · rfl
  · split
    · rfl
    · rw [handleStripped]
      repeat' split
      all_goals first | rfl | exact hkept ‹_›

/-- The responses to requests, one after the other. -/
def responses (ostree : Libostree) (server : EusRepo) : Files → List Text → List Response
  | _, [] => []
  | files, path :: paths =>
      (server.handlePath ostree files path).1 ::
        responses ostree server (server.handlePath ostree files path).2 paths

/-- Repositories with a signed summary give the same responses to requests one after the other. -/
theorem responses_congr {paths : List Text}
    (h : ∀ path ∈ paths, Agree ostree path a filesA b filesB)
    (hsigned : (filesA.regular (a.root ++ ["summary.sig".toList])).isSome)
    (hunsignedA : LeavesUnsigned a) (hunsignedB : LeavesUnsigned b) :
    a.responses ostree filesA paths = b.responses ostree filesB paths := by
  induction paths with
  | nil => rfl
  | cons path paths ih =>
    rw [List.forall_mem_cons] at h
    have hsummary := h.1.summary
    have hsummaryB := hsummary
    rw [h.1.served _ .summary] at hsummaryB
    have hsignedB := hsigned
    rw [h.1.served _ .summarySig] at hsignedB
    rw [responses, responses, handlePath_files hsummary hsigned path,
      handlePath_files hsummaryB hsignedB path, handlePath_congr h.1 hunsignedA hunsignedB, ih h.2]

end EusRepo

/-! ### The statement for both -/

/-- The bodies of responses are confined, and repositories that agree on what they can contain give
the same responses. -/
theorem responses_confined (ostree : Libostree) :
    (∀ (server : EusRepo) (files : Files) (path : Text),
      Confined ostree server (server.handlePath ostree files path).2 path
        (server.handlePath ostree files path).1.body) ∧
    ∀ (a b : EusRepo) (filesA filesB : Files) (path : Text), LeavesUnsigned a → LeavesUnsigned b →
      Agree ostree path a filesA b filesB →
        (a.handlePath ostree filesA path).1 = (b.handlePath ostree filesB path).1 :=
  ⟨fun _ _ _ => EusRepo.handlePath_confined,
    fun _ _ _ _ _ hunsignedA hunsignedB h => EusRepo.handlePath_congr h hunsignedA hunsignedB⟩

/-! ### A repository without collection IDs -/

/-- libostree, where it finds no objects. -/
def sampleOstree : Libostree where
  validateStructureofChecksumString checksum :=
    if checksum.length = 64 ∧ checksum.all (fun c => c.isDigit || ('a' ≤ c && c ≤ 'f')) = true then
      .ok ()
    else .error ⟨.ioFailed, "Invalid rev"⟩
  validateCollectionId id :=
    if '.' ∈ id then .ok () else .error ⟨.ioFailed, "Invalid collection ID"⟩
  rawFileToArchiveZ2Stream _ _ := .error ⟨.ioFailed, "No object"⟩

/-- A server of a repository at `/repo`, with one remote and no objects. -/
def sampleServer (config : KeyFile) (remoteName : Text) : EusRepo where
  repo := {
    path := "/repo".toList
    path_canonical := by decide
    config := config
    mode := .bare
    remoteList := [remoteName]
    getRemoteOption := fun _ _ => .ok none
    loadFile := fun _ => .error ⟨.ioNotFound, "No object"⟩
    regenerateSummary := fun files => (.error ⟨.ioFailed, "Read-only file system"⟩, files) }
  rootPath := []
  remoteName := remoteName
  cancelled := false
  cachedRepoRoot := "/repo".toList
  cachedConfig := fakedConfig
  cachedRepoRoot_eq := rfl
  cachedConfig_eq := rfl

/-- A place in the repository. -/
def sample (names : List String) : List Text := "repo".toList :: names.map String.toList

/-- The names of the two paths are compared. -/
instance (dir file : List Text) : Decidable (Below dir file) :=
  decidable_of_iff (dir <+: file ∧ dir ≠ file) ⟨
    fun ⟨⟨rest, hrest⟩, hne⟩ => ⟨rest, fun hnil => hne (by rw [← hrest, hnil, List.append_nil]),
      hrest.symm⟩,
    fun ⟨rest, hne, hrest⟩ => ⟨⟨rest, hrest.symm⟩, fun heq =>
      hne (List.self_eq_append_right.1 (heq.trans hrest))⟩⟩

/-- Without collection IDs, requests are redirected only to the served remote. -/
theorem redirectsTo_cases {server : EusRepo} {remote : Text}
    (hids : ∀ remote, server.collectionId remote = none) (h : server.RedirectsTo path remote) :
    remote = server.remoteName := by
  cases h with
  | served => rfl
  | requested hmem hid hrequest =>
    rw [hids] at hid
    cases hid

/-- The directories of what is served without collection IDs. -/
def EusRepo.directories (server : EusRepo) : List (List Text) :=
  [server.root ++ ["deltas".toList], server.root ++ ["extensions".toList],
    server.root ++ ["refs".toList, "heads".toList],
    server.root ++ ["refs".toList, "mirrors".toList],
    server.remoteDirectory server.remoteName]

/-- Without collection IDs, the directories served are known beforehand. -/
theorem servedDirectory_cases {server : EusRepo} {dir : List Text}
    (hids : ∀ remote, server.collectionId remote = none) (h : server.ServedDirectory path dir) :
    dir ∈ server.directories := by
  cases h with
  | refsRemotes hremote =>
    rw [redirectsTo_cases hids hremote]
    simp [EusRepo.directories]
  | _ => simp [EusRepo.directories]

/-- Without collection IDs, the files that can be served are known beforehand. -/
theorem servable_cases {server : EusRepo} {file : List Text}
    (hids : ∀ remote, server.collectionId remote = none) (h : server.Servable path file) :
    (∃ dir ∈ (server.root ++ ["objects".toList]) :: server.directories, Below dir file) ∨
      file ∈ [server.root ++ ["summary".toList], server.root ++ ["summary.sig".toList]] := by
  cases h with
  | inDirectory hdir hbelow =>
    exact .inl ⟨_, List.mem_cons_of_mem _ (servedDirectory_cases hids hdir), hbelow⟩
  | object hbelow => exact .inl ⟨_, List.mem_cons_self .., hbelow⟩
  | summary => exact .inr (by simp)
  | summarySig => exact .inr (by simp)

/-- What both repositories have in the examples. -/
def sampleEntries : List (List Text × Node (Except Euu.GError Bytes)) :=
  [(sample ["summary"], .regular (.ok [0])),
    (sample ["refs", "remotes", "eos", "stable"], .regular (.ok [1]))]

/-- Agreeing on what can be served is not enough: `/deltas/` is not found if there is no `deltas`,
but cannot be opened if it is a regular file, and refs of `gone/../eos` cannot be opened without a
directory `gone`. -/
theorem agreeOnServed_not_sufficient :
    let server := sampleServer KeyFile.empty "gone/../eos".toList
    let filesA := FileSystem.ofEntries ((sample ["deltas"], .regular (.ok [2])) ::
      (sample ["refs", "remotes", "gone"], .directory) :: sampleEntries)
    let filesB := FileSystem.ofEntries sampleEntries
    LeavesUnsigned server ∧
      (∀ path, AgreeOnServed sampleOstree path server filesA server filesB) ∧
      (server.handlePath sampleOstree filesA "/deltas/".toList).1 ≠
        (server.handlePath sampleOstree filesB "/deltas/".toList).1 ∧
      (server.handlePath sampleOstree filesA "/refs/heads/stable".toList).1 ≠
        (server.handlePath sampleOstree filesB "/refs/heads/stable".toList).1 := by
  intro server filesA filesB
  refine ⟨fun _ h => h, fun path => ?_, by decide, by decide⟩
  refine ⟨rfl, rfl, rfl, rfl, fun _ _ => rfl, fun _ _ => rfl, fun rest h => ?_, by decide⟩
  -- what can be served is below `deltas`, and not the place itself
  have hcases := servable_cases (fun _ => rfl) h
  have hdeltas : server.root ++ rest ≠ sample ["deltas"] := fun heq => by
    rw [heq] at hcases
    revert hcases
    decide
  have hgone : server.root ++ rest ≠ sample ["refs", "remotes", "gone"] := fun heq => by
    rw [heq] at hcases
    revert hcases
    decide
  exact (FileSystem.regular_ofEntries_cons hdeltas (by decide)).trans
    (FileSystem.regular_ofEntries_cons hgone (by decide))

/-- Two repositories with different configurations, refs of another remote and other files. -/
theorem responses_same :
    let a := sampleServer KeyFile.empty "eos".toList
    let b := sampleServer (KeyFile.empty.setInt64 "remote \"eos\"" "secret" 1) "eos".toList
    let filesA := FileSystem.ofEntries ((sample ["config"], .regular (.ok [2])) ::
      (sample ["refs", "remotes", "other", "stable"], .regular (.ok [3])) :: sampleEntries)
    let filesB := FileSystem.ofEntries sampleEntries
    (a.handlePath sampleOstree filesA "/refs/heads/stable".toList).1 =
        (b.handlePath sampleOstree filesB "/refs/heads/stable".toList).1 ∧
      (b.handlePath sampleOstree filesB "/refs/heads/stable".toList).1 = sendBytes [1] := by
  intro a b filesA filesB
  have hregular {rest : List Text} (hconfig : a.root ++ rest ≠ sample ["config"])
      (hother : a.root ++ rest ≠ sample ["refs", "remotes", "other", "stable"]) :
      filesA.regular (a.root ++ rest) = filesB.regular (b.root ++ rest) :=
    (FileSystem.regular_ofEntries_cons hconfig (by decide)).trans
      (FileSystem.regular_ofEntries_cons hother (by decide))
  refine ⟨(responses_confined sampleOstree).2 a b filesA filesB _ (fun _ h => h) (fun _ h => h)
    ⟨⟨rfl, rfl, rfl, rfl, fun _ _ => rfl, fun _ _ => rfl, fun rest h => ?_, by decide⟩,
      fun rest h => ?_, fun remote h hup => ?_⟩, by decide⟩
  · have hcases := servable_cases (fun _ => rfl) h
    refine hregular (fun heq => ?_) fun heq => ?_ <;> rw [heq] at hcases <;> revert hcases <;>
      decide
  · have hcases := servedDirectory_cases (fun _ => rfl) h
    refine congrArg Option.isSome (hregular (fun heq => ?_) fun heq => ?_) <;>
      rw [heq] at hcases <;> revert hcases <;> decide
  · rw [redirectsTo_cases (fun _ => rfl) h] at hup
    exact absurd hup (by decide)

end Eus
