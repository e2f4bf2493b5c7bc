import EosUpdater.GLib.Path
import EosUpdater.Flatpak.Directories
import EosUpdater.Flatpak.Flatten

/-!
# The autoinstall files of a commit

Before an update is deployed, the daemon reads the autoinstall files that will be in effect with it:
those of the directories that override others, which an update does not change, and behind them
those that it has checked out of the commit. After the reboot the installer reads the same
directories, and behind them the one of the running system.

If this one has what was checked out, and no file in effect has entries that are skipped, both read
the same: both fail, or the actions for each file are the same, and so are the lists that they make
of them, whatever the progress is (`commit_deployed`). The order in which the files of a directory
are found, and where it is, make no difference.
-/

namespace Euu

open GLib

/-! ### The directories -/

/-- `g_strsplit`, at semicolons. -/
def strsplit (string : Text) : List Text :=
  if string = [] then [] else string.splitOnP (· = ';')

/-- `g_strjoin`, with semicolons. -/
def strjoin (strings : List Text) : Text := [';'].intercalate strings

/-- What `g_file_enumerate_children` gives for the directory at a path. -/
abbrev Directories := Text → Except GError FileEnumerator

/-- `euu_flatpak_ref_actions_from_paths`, given the paths. -/
def flatpakRefActionsAt (env : ParserEnvironment) (directories : Directories) (paths : List Text) :
    Except ReadFailure RefActionsTable :=
  flatpakRefActionsFromPaths env
    (paths.map fun path => (String.ofList path, directories path))

/-- The directory of the autoinstall files that come with a system. -/
def refActionsPath (datadir : Text) : Text :=
  buildFilename [datadir, "eos-application-tools".toList, "flatpak-autoinstall.d".toList]

/-- `directories_to_search_from_environment`. -/
def directoriesToSearchFromEnvironment (overridePaths datadir : Text) : List Text :=
  strsplit (strjoin [overridePaths, refActionsPath datadir])

/-- What a system has for `euu_flatpak_ref_actions_from_ostree_commit`: `g_dir_make_tmp` and
`ostree_repo_checkout_at` may fail, and the files that are checked out are found as in a
directory. -/
structure Checkout where
  dirMakeTmp : Except GError Text
  checkoutAt : Except GError FileEnumerator

/-- `checkout_path`. -/
def checkoutPath (tempDirPath : Text) : Text := buildFilename [tempDirPath, "checkout".toList]

/-- `euu_flatpak_ref_actions_from_ostree_commit`. -/
def flatpakRefActionsFromOstreeCommit (env : ParserEnvironment) (directories : Directories)
    (overridePaths : Text) (checkout : Checkout) : Except ReadFailure RefActionsTable :=
  match checkout.dirMakeTmp with
  | .error e => .error (.error e)
  | .ok tempDirPath =>
      match checkout.checkoutAt with
      | .ok files =>
          -- the files that are checked out have the lowest priority
          flatpakRefActionsAt env
            (Function.update directories (checkoutPath tempDirPath) (.ok files))
            (strsplit (strjoin [overridePaths, checkoutPath tempDirPath]))
      | .error localError =>
          if localError.code ≠ .ioNotFound then .error (.error localError)
          else flatpakRefActionsAt env directories (strsplit overridePaths)

/-- Splitting at the separators gives back a last path that has none in it. -/
theorem strsplit_join {a b : Text} (ha : a ≠ []) (hb : ';' ∉ b) :
    strsplit (strjoin [a, b]) = strsplit a ++ [b] := by
  have hjoin : strjoin [a, b] = a ++ ';' :: b := by simp [strjoin, List.intercalate]
  have hsplit : b.splitOnP (· = ';') = [b] := List.splitOnP_eq_singleton fun c hc =>
    decide_eq_false fun heq => hb (heq ▸ hc)
  rw [hjoin, strsplit, strsplit, if_neg ha, if_neg (List.append_ne_nil_of_left_ne_nil ha _),
    List.splitOnP_append_cons a b (by simp), hsplit]

/-! ### Where a file is -/

variable {env : ParserEnvironment} {file file' : GFile} {name : String}

/-- An error that an entry of one file is let off for is let off in every other file. -/
theorem entryError_ok {node : JsonNode} {failure : ReadFailure} {entry : ReadEntry}
    (h : entryError env file node failure = .ok entry) :
    entryError env file' node failure = .ok entry := by
  cases failure with
  | unset => cases h
  | undefined => cases h
  | error localError =>
      rw [entryError] at h ⊢
      split at h
      · cases h
      next hcode =>
      rw [if_neg hcode]
      exact h

/-- An entry that can be read is read alike in two files of one name, whichever directory they are
in. -/
theorem readEntry_ok (hname : file'.name = file.name) {node : JsonNode} {entry : ReadEntry}
    (h : readEntry env file node = .ok entry) : readEntry env file' node = .ok entry := by
  unfold readEntry at h ⊢
  split at h
  case h_2 => cases h
  next object =>
  cases hfiltered : actionNodeShouldBeFilteredOut env object with
  | error e =>
      simp only [hfiltered] at h ⊢
      exact entryError_ok h
  | ok filtered =>
      cases filtered with
      | true =>
          simp only [hfiltered] at h ⊢
          exact h
      | false =>
          simp only [hfiltered] at h ⊢
          rw [hname]
          cases haction : flatpakRemoteRefActionFromJsonNode env file.name object with
          | error failure =>
              simp only [haction] at h ⊢
              exact entryError_ok h
          | ok action =>
              simp only [haction] at h ⊢
              exact h

theorem readEntries_congr (hname : file'.name = file.name) {nodes : List JsonNode}
    {read : ReadActions} (h : readEntries env file nodes = .ok read) :
    readEntries env file' nodes = .ok read := by
  induction nodes generalizing read with
  | nil => exact h
  | cons node nodes ih =>
      rw [readEntries] at h ⊢
      cases hentry : readEntry env file node with
      | error failure =>
          rw [hentry] at h
          cases h
      | ok entry =>
          rw [hentry] at h
          cases hrest : readEntries env file nodes with
          | error failure =>
              rw [hrest] at h
              cases h
          | ok rest =>
              rw [hrest] at h
              rw [readEntry_ok hname hentry, ih hrest]
              exact h

/-- The directory of a file is only for its errors. -/
theorem flatpakRefActionsFromFile_congr {root : Except GError (Option JsonNode)}
    {read : ReadActions} (h : flatpakRefActionsFromFile env file root = .ok read) (file' : GFile)
    (hname : file'.name = file.name) :
    flatpakRefActionsFromFile env file' root = .ok read := by
  cases root with
  | error e => cases h
  | ok root =>
      rw [flatpakRefActionsFromFile] at h ⊢
      unfold readFlatpakRefActionsFromNode at h ⊢
      split at h
      case h_2 => cases h
      next elements _ =>
      cases hentries : readEntries env file elements with
      | error failure => simp [hentries] at h
      | ok entries =>
          simp only [hentries, readEntries_congr hname hentries] at h ⊢
          cases hshared : sharedSerial (ptrArraySort entries.actions) with
          | some serial => simp [hshared] at h
          | none =>
              simp only [hshared] at h ⊢
              exact h

/-! ### Directories with the same files -/

variable {directories directories' : List (String × Except GError FileEnumerator)}
variable {t t' : RefActionsTable}

/-- Two directories have the same files, in whatever order they are found; or neither can be looked
into, and both or none because they are missing. -/
inductive SameFiles : Except GError FileEnumerator → Except GError FileEnumerator → Prop
  | error {e e' : GError} (h : e.code = .ioNotFound ↔ e'.code = .ioNotFound) :
      SameFiles (.error e) (.error e')
  | files {files files' : FileEnumerator} (h : files.Perm files') :
      SameFiles (.ok files) (.ok files')

/-- The directories of two lists have the same files. -/
abbrev AllSame := List.Forall₂ fun d d' : String × Except GError FileEnumerator =>
  SameFiles d.2 d'.2

theorem SameFiles.symm {x y : Except GError FileEnumerator} (h : SameFiles x y) :
    SameFiles y x := by
  cases h with
  | error h => exact .error h.symm
  | files h => exact .files h.symm

theorem AllSame.symm (h : AllSame directories directories') : AllSame directories' directories :=
  h.flip.imp fun _ _ h => h.symm

/-- Names that are distinct in each directory are so in the directories with the same files. -/
theorem AllSame.distinctNames (h : AllSame directories directories')
    (hnodup : DistinctNames directories) : DistinctNames directories' := by
  induction h with
  | nil => exact fun _ _ hmem => nomatch hmem
  | @cons first first' directories directories' hsame hrest ih =>
      intro directory files' hmem
      rcases List.mem_cons.1 hmem with rfl | hmem
      · rcases first with ⟨other, enumerator⟩
        cases hsame with
        | files hperm =>
            exact (hperm.filterMap _).nodup_iff.1 (hnodup other _ List.mem_cons_self)
      · exact ih hnodup.tail directory files' hmem

/-- The same contents win. -/
theorem AllSame.winningFile (h : AllSame directories directories')
    (hnodup : DistinctNames directories) (name : String) :
    (winningFile directories name).map Prod.snd = (winningFile directories' name).map Prod.snd := by
  induction h with
  | nil => rfl
  | @cons first first' directories directories' hsame hrest ih =>
      rcases first with ⟨directory, enumerator⟩
      rcases first' with ⟨directory', enumerator'⟩
      cases hsame with
      | error _ => exact ih hnodup.tail
      | @files files files' hperm =>
          have hroot := FileEnumerator.root?_perm hperm
            (hnodup directory files List.mem_cons_self) name
          rw [Euu.winningFile, Euu.winningFile, ← hroot]
          cases files.root? name with
          | none => exact ih hnodup.tail
          | some root => rfl

/-- Where enumerating some directory fails, it fails too for the directories with the same files. -/
theorem AllSame.enumerationFails (h : AllSame directories directories') {failure : ReadFailure}
    (hfails : EnumerationFails directories failure) :
    ∃ failure', EnumerationFails directories' failure' := by
  obtain ⟨directory, enumerator, e, hmem, -, hcause⟩ := hfails
  induction h with
  | nil => cases hmem
  | @cons first first' directories directories' hsame hrest ih =>
      rcases List.mem_cons.1 hmem with rfl | hmem
      · rcases first' with ⟨directory', enumerator'⟩
        cases hsame with
        | @error _ e' hcode =>
            rcases hcause with ⟨heq, hne⟩ | ⟨files, heq, -⟩
            · obtain rfl := Except.error.inj heq
              exact ⟨.error e', directory', _, e', List.mem_cons_self, rfl,
                .inl ⟨rfl, fun h' => hne (hcode.2 h')⟩⟩
            · cases heq
        | @files _ files' hperm =>
            rcases hcause with ⟨heq, -⟩ | ⟨files, heq, he⟩
            · cases heq
            · obtain rfl := Except.ok.inj heq
              exact ⟨.error e, directory', _, e, List.mem_cons_self, rfl,
                .inr ⟨files', rfl, hperm.mem_iff.1 he⟩⟩
      · obtain ⟨failure', directory', enumerator', e', hmem', hfails⟩ := ih hmem
        exact ⟨failure', directory', enumerator', e', List.mem_cons_of_mem _ hmem', hfails⟩

/-- All of directories with the same files is read, or of neither. -/
theorem AllSame.allRead (h : AllSame directories directories') (hnodup : DistinctNames directories)
    (hall : AllRead env directories) : AllRead env directories' := by
  refine ⟨fun failure hfails => ?_, fun name directory' root hjson hwinning' => ?_⟩
  · obtain ⟨failure', hfails⟩ := h.symm.enumerationFails hfails
    exact hall.enumerated failure' hfails
  · have hwinning := h.winningFile hnodup name
    rw [hwinning'] at hwinning
    obtain ⟨⟨directory, root'⟩, hfirst, rfl⟩ := Option.map_eq_some_iff.1 hwinning
    obtain ⟨read, hread, hskipped⟩ := hall.parsed name directory root' hjson hfirst
    exact ⟨read, flatpakRefActionsFromFile_congr hread ⟨directory', name⟩ rfl, hskipped⟩

/-- Directories with the same files, that are read, can be read as well. -/
theorem AllSame.exists_ok (h : AllSame directories directories')
    (hnodup : DistinctNames directories)
    (hok : flatpakRefActionsFromPaths env directories = .ok t) :
    ∃ t', flatpakRefActionsFromPaths env directories' = .ok t' :=
  (h.allRead hnodup (allRead_of_ok hnodup hok)).exists_ok (h.distinctNames hnodup)

/-- No file in effect has entries that are skipped. -/
def NoneSkipped (env : ParserEnvironment)
    (directories : List (String × Except GError FileEnumerator)) : Prop :=
  ∀ name directory root read, isJsonFile name = true →
    winningFile directories name = some (directory, root) →
    flatpakRefActionsFromFile env ⟨directory, name⟩ root = .ok read →
      read.skippedActionEntries = []

/-- It is defined then what reading the directories does. -/
theorem NoneSkipped.ne_undefined (h : NoneSkipped env directories)
    (hnodup : DistinctNames directories) :
    flatpakRefActionsFromPaths env directories ≠ .error .undefined := by
  intro hundefined
  obtain ⟨file, root, read, hfile, hread, hskipped⟩ :=
    (fromPaths_eq_undefined_iff hnodup).1 hundefined
  obtain ⟨-, -, -, -, -, hjson, -⟩ := id hfile
  exact hskipped (h _ _ _ _ hjson hfile.winningFile hread)

/-- Files that can all be read are none of them left with skipped entries. -/
theorem AllRead.noneSkipped (h : AllRead env directories) : NoneSkipped env directories := by
  intro name directory root read hjson hwinning hread
  obtain ⟨read', hread', hskipped⟩ := h.parsed name directory root hjson hwinning
  obtain rfl := Except.ok.inj (hread'.symm.trans hread)
  exact hskipped

/-- Whether a file that is read has skipped entries depends on the files of the directories only. -/
theorem AllSame.noneSkipped (h : AllSame directories directories')
    (hnodup : DistinctNames directories) (hnone : NoneSkipped env directories) :
    NoneSkipped env directories' := by
  intro name directory' root read hjson hwinning' hread
  have hwinning := h.winningFile hnodup name
  rw [hwinning'] at hwinning
  obtain ⟨⟨directory, root'⟩, hfirst, rfl⟩ := Option.map_eq_some_iff.1 hwinning
  exact hnone name directory root' read hjson hfirst
    (flatpakRefActionsFromFile_congr hread ⟨directory, name⟩ rfl)

/-- What is read from directories with the same files. -/
theorem AllSame.lookup_eq (h : AllSame directories directories')
    (hnodup : DistinctNames directories) (hok : flatpakRefActionsFromPaths env directories = .ok t)
    (hok' : flatpakRefActionsFromPaths env directories' = .ok t') (name : String) :
    t.lookup name = t'.lookup name := by
  cases hjson : isJsonFile name with
  | false => rw [lookup_fromPaths_of_not_json hnodup hok hjson,
      lookup_fromPaths_of_not_json (h.distinctNames hnodup) hok' hjson]
  | true =>
      have hwinning := h.winningFile hnodup name
      rcases lookup_fromPaths hnodup hok hjson with
        ⟨hnone, hlookup⟩ | ⟨directory, root, read, hsome, hread, hlookup⟩ <;>
      rcases lookup_fromPaths (h.distinctNames hnodup) hok' hjson with
        ⟨hnone', hlookup'⟩ | ⟨directory', root', read', hsome', hread', hlookup'⟩
      · rw [hlookup, hlookup']
      · rw [hnone, hsome'] at hwinning
        cases hwinning
      · rw [hsome, hnone'] at hwinning
        cases hwinning
      · rw [hsome, hsome'] at hwinning
        obtain rfl : root = root' := Option.some.inj hwinning
        have hsame := flatpakRefActionsFromFile_congr (readActionsFile_eq_ok.1 hread).1
          ⟨directory', name⟩ rfl
        have hread' := (readActionsFile_eq_ok.1 hread').1
        rw [hlookup, hlookup', Except.ok.inj (hsame.symm.trans hread')]

/-! ### Tables with the same lists -/

theorem concatenatedActions_congr (h : ∀ name, t.lookup name = t'.lookup name) :
    concatenatedActions t = concatenatedActions t' := by
  have hkeys : ∀ name, name ∈ t.getKeys ↔ name ∈ t'.getKeys := fun name => by
    rw [GHashTable.mem_getKeys_iff, GHashTable.mem_getKeys_iff, h]
  have hsorted : msort (fun s t => decide (s ≤ t)) t.getKeys =
      msort (fun s t => decide (s ≤ t)) t'.getKeys :=
    msort_eq_of_perm (fun _ _ => decide_eq_true_iff)
      ((List.perm_ext_iff_of_nodup t.nodup t'.nodup).2 hkeys)
  simp only [concatenatedActions, hsorted, h]

/-- Tables with the same lists are flattened to the same list, after they have been filtered. -/
theorem flatten_filtered_congr (h : ∀ name, t.lookup name = t'.lookup name)
    (filterFunc : String → List FlatpakRemoteRefAction → List FlatpakRemoteRefAction) :
    flattenFlatpakRefActionsTable (filterFlatpakRefActionsTable t filterFunc) =
      flattenFlatpakRefActionsTable (filterFlatpakRefActionsTable t' filterFunc) := by
  refine congrArg squashRefActionsPtrArray (concatenatedActions_congr fun name => ?_)
  simp only [filterFlatpakRefActionsTable, squashRemoteRefActions, GHashTable.lookup_mapValues, h]

/-- Two readings agree: it is defined what both do, and both have failed, or the tables that they
give have the same lists, and lead to the same list of new and of existing actions, whatever the
progress is. -/
def Agree (read read' : Except ReadFailure RefActionsTable) : Prop :=
  (∃ failure failure', (read = .error failure ∧ failure ≠ .undefined) ∧
      read' = .error failure' ∧ failure' ≠ .undefined) ∨
    ∃ t t', read = .ok t ∧ read' = .ok t' ∧ (∀ name, t.lookup name = t'.lookup name) ∧
      ∀ progresses,
        flattenFlatpakRefActionsTable (filterForNewFlatpakRefActions t progresses) =
            flattenFlatpakRefActionsTable (filterForNewFlatpakRefActions t' progresses) ∧
          flattenFlatpakRefActionsTable (filterForExistingFlatpakRefActions t progresses) =
            flattenFlatpakRefActionsTable (filterForExistingFlatpakRefActions t' progresses)

theorem Agree.symm {read read' : Except ReadFailure RefActionsTable} (h : Agree read read') :
    Agree read' read := by
  rcases h with ⟨failure, failure', hread, hread'⟩ | ⟨t, t', hread, hread', hlookup, hlists⟩
  · exact .inl ⟨failure', failure, hread', hread⟩
  · exact .inr ⟨t', t, hread', hread, fun name => (hlookup name).symm, fun progresses =>
      ⟨(hlists progresses).1.symm, (hlists progresses).2.symm⟩⟩

/-- Directories with the same files are read with results that agree. -/
theorem AllSame.agree (h : AllSame directories directories')
    (hnodup : DistinctNames directories) (hnone : NoneSkipped env directories) :
    Agree (flatpakRefActionsFromPaths env directories)
      (flatpakRefActionsFromPaths env directories') := by
  have hdefined := hnone.ne_undefined hnodup
  have hdefined' := (h.noneSkipped hnodup hnone).ne_undefined (h.distinctNames hnodup)
  cases hok : flatpakRefActionsFromPaths env directories with
  | ok t =>
      obtain ⟨t', hok'⟩ := h.exists_ok hnodup hok
      have hlookup := h.lookup_eq hnodup hok hok'
      exact .inr ⟨t, t', rfl, hok', hlookup, fun progresses =>
        ⟨flatten_filtered_congr hlookup _, flatten_filtered_congr hlookup _⟩⟩
  | error failure =>
      cases hok' : flatpakRefActionsFromPaths env directories' with
      | error failure' =>
          refine .inl ⟨failure, failure', ⟨rfl, ?_⟩, rfl, ?_⟩
          · rintro rfl
            exact hdefined hok
          · rintro rfl
            exact hdefined' hok'
      | ok t' =>
          obtain ⟨t, ht⟩ := h.symm.exists_ok (h.distinctNames hnodup) hok'
          rw [hok] at ht
          cases ht

/-! ### The deployed commit -/

/-- The commit that has been checked out is deployed: the directory of the system has what was
checked out, and the ones that override it are what they were. -/
structure Deployed (overridePaths datadir : Text) (checkout : Checkout)
    (before after : Directories) : Prop where
  overrides : ∀ path ∈ strsplit overridePaths, SameFiles (before path) (after path)
  system : SameFiles checkout.checkoutAt (after (refActionsPath datadir))

/-- The names in each directory are distinct. -/
def Directories.Distinct (directories : Directories) : Prop :=
  ∀ path files, directories path = .ok files → files.names.Nodup

variable {overridePaths datadir : Text} {checkout : Checkout} {before after : Directories}

/-- What is read while the commit is checked out, where the paths do not get into each other's
way. -/
theorem flatpakRefActionsFromOstreeCommit_of_ok {tempDirPath : Text} {files : FileEnumerator}
    (hoverride : overridePaths ≠ []) (htemp : checkout.dirMakeTmp = .ok tempDirPath)
    (hseparator : ';' ∉ checkoutPath tempDirPath)
    (hfresh : checkoutPath tempDirPath ∉ strsplit overridePaths)
    (hfiles : checkout.checkoutAt = .ok files) :
    flatpakRefActionsFromOstreeCommit env before overridePaths checkout =
      flatpakRefActionsFromPaths env (((strsplit overridePaths).map fun path =>
        (String.ofList path, before path)) ++
          [(String.ofList (checkoutPath tempDirPath), .ok files)]) := by
  have hothers : ∀ path ∈ strsplit overridePaths,
      Function.update before (checkoutPath tempDirPath) (.ok files) path = before path :=
    fun path hmem => by
      have hne : path ≠ checkoutPath tempDirPath := fun heq => hfresh (heq ▸ hmem)
      exact Function.update_of_ne hne ..
  simp only [flatpakRefActionsFromOstreeCommit, htemp, hfiles]
  rw [flatpakRefActionsAt, strsplit_join hoverride hseparator, List.map_append, List.map_singleton,
    Function.update_self, List.map_congr_left fun path hmem => by rw [hothers path hmem]]

/-- A directory behind all others that is missing makes no difference. -/
theorem fromPaths_append_missing (directory : String) {e : GError} (h : e.code = .ioNotFound) :
    flatpakRefActionsFromPaths env (directories ++ [(directory, .error e)]) =
      flatpakRefActionsFromPaths env directories := by
  have happend : ∀ priority table,
      appendDirectories env (directories ++ [(directory, .error e)]) priority table =
        appendDirectories env directories priority table := by
    induction directories with
    | nil =>
        intro priority table
        simp [appendDirectories, flatpakRefActionsAppendFromDirectory, h]
    | cons first directories ih =>
        intro priority table
        rcases first with ⟨other, enumerator⟩
        simp only [List.cons_append, appendDirectories, ih]
  rw [flatpakRefActionsFromPaths, flatpakRefActionsFromPaths, happend]

/-- The directories at some paths. -/
def Directories.at (directories : Directories) (paths : List Text) :
    List (String × Except GError FileEnumerator) :=
  paths.map fun path => (String.ofList path, directories path)

/-- The override directories of the booted system have the same files after the deployment as before
it. -/
theorem Deployed.overrides_allSame
    (h : Deployed overridePaths datadir checkout before after) :
    AllSame (after.at (strsplit overridePaths)) (before.at (strsplit overridePaths)) :=
  List.forall₂_map_left_iff.2 (List.forall₂_map_right_iff.2
    (List.forall₂_same.2 fun path hmem => (h.overrides path hmem).symm))

/-- Where every directory lists each name once, so do those at any list of paths. -/
theorem Directories.Distinct.distinctNames (h : before.Distinct) (paths : List Text) :
    DistinctNames (before.at paths) := fun directory files hmem => by
  obtain ⟨path, -, heq⟩ := List.mem_map.1 hmem
  exact h path files (Prod.mk.inj heq).2

/-- **What is deployed is what was in the commit.** Where a commit that has been checked out is
deployed, the installer reads from the directories after the reboot what the daemon has read from
the commit before it. -/
theorem commit_deployed (env : ParserEnvironment) {tempDirPath : Text}
    (hdeployed : Deployed overridePaths datadir checkout before after)
    (hafter : after.Distinct)
    (hskipped : NoneSkipped env
      (after.at (directoriesToSearchFromEnvironment overridePaths datadir)))
    (hoverride : overridePaths ≠ []) (hdatadir : ';' ∉ refActionsPath datadir)
    (htemp : checkout.dirMakeTmp = .ok tempDirPath) (hseparator : ';' ∉ checkoutPath tempDirPath)
    (hfresh : checkoutPath tempDirPath ∉ strsplit overridePaths) :
    Agree (flatpakRefActionsFromOstreeCommit env before overridePaths checkout)
      (flatpakRefActionsAt env after
        (directoriesToSearchFromEnvironment overridePaths datadir)) := by
  have hoverrides := hdeployed.overrides_allSame
  have hdistinct := hafter.distinctNames (directoriesToSearchFromEnvironment overridePaths datadir)
  have hall : after.at (directoriesToSearchFromEnvironment overridePaths datadir) =
      after.at (strsplit overridePaths) ++
        [(String.ofList (refActionsPath datadir), after (refActionsPath datadir))] := by
    rw [Directories.at, directoriesToSearchFromEnvironment, strsplit_join hoverride hdatadir,
      List.map_append, List.map_singleton, Directories.at]
  rw [flatpakRefActionsAt, ← Directories.at]
  rw [hall] at hskipped hdistinct ⊢
  refine Agree.symm ?_
  have hsystem := hdeployed.system
  cases hfiles : checkout.checkoutAt with
  | ok files =>
      rw [flatpakRefActionsFromOstreeCommit_of_ok hoverride htemp hseparator hfresh hfiles]
      rw [hfiles] at hsystem
      exact AllSame.agree (List.rel_append hoverrides (.cons hsystem.symm .nil)) hdistinct hskipped
  | error localError =>
      simp only [flatpakRefActionsFromOstreeCommit, htemp, hfiles]
      rw [hfiles] at hsystem
      cases hlast : after (refActionsPath datadir) with
      | ok files' =>
          rw [hlast] at hsystem
          cases hsystem
      | error e =>
          rw [hlast] at hsystem hskipped hdistinct
          cases hsystem with
          | error hcode =>
          by_cases hmissing : localError.code = .ioNotFound
          · rw [if_neg (not_not.2 hmissing), fromPaths_append_missing _ (hcode.1 hmissing)]
            refine hoverrides.agree hdistinct.left fun name directory root read hjson hwinning => ?_
            refine hskipped name directory root read hjson ?_
            rw [winningFile_append, hwinning]
            rfl
          · rw [if_pos hmissing]
            -- the directory of the system cannot be read either
            cases hok : flatpakRefActionsFromPaths env (after.at (strsplit overridePaths) ++
                [(String.ofList (refActionsPath datadir), .error e)]) with
            | error failure =>
                refine .inl ⟨failure, _, ⟨rfl, ?_⟩, rfl, ReadFailure.noConfusion⟩
                rintro rfl
                exact hskipped.ne_undefined hdistinct hok
            | ok t =>
                exact absurd ⟨_, _, e, List.mem_append_right _ (List.mem_singleton_self _), rfl,
                  .inl ⟨rfl, fun h => hmissing (hcode.2 h)⟩⟩
                    ((allRead_of_ok hdistinct hok).enumerated (.error e))

/-! ### A commit with one file -/

/-- The directories that override others as they are configured. -/
def sampleOverridePaths : Text :=
  ("/etc/eos-application-tools/flatpak-autoinstall.d;" ++
    "/var/lib/eos-application-tools/flatpak-autoinstall.d").toList

/-- The commit updates an app. -/
def sampleCheckout : Checkout where
  dirMakeTmp := .ok "/tmp/ostree-checkout-1A2B3C".toList
  checkoutAt := .ok (singleFile (.array [updateNode "org.example.App" 1]))

/-- A system without autoinstall files of its own. -/
def emptySystem : Directories := fun _ => .error ⟨.ioNotFound, "No such file or directory"⟩

/-- The system on which the commit is deployed. -/
def deployedSystem : Directories :=
  Function.update emptySystem (refActionsPath "/usr/share".toList) sampleCheckout.checkoutAt

/-- The commit of the sample ships one file, which is read alike before its deployment and after
it. -/
theorem sampleCommit_deployed :
    (∃ t, flatpakRefActionsFromOstreeCommit plainEnvironment emptySystem sampleOverridePaths
        sampleCheckout = .ok t ∧ t.getKeys = ["10-apps.json"]) ∧
      Agree
        (flatpakRefActionsFromOstreeCommit plainEnvironment emptySystem sampleOverridePaths
          sampleCheckout)
        (flatpakRefActionsAt plainEnvironment deployedSystem
          (directoriesToSearchFromEnvironment sampleOverridePaths "/usr/share".toList)) := by
  have hkeys : (flatpakRefActionsFromOstreeCommit plainEnvironment emptySystem sampleOverridePaths
      sampleCheckout).toOption.map GHashTable.getKeys = some ["10-apps.json"] := by
    decide +kernel
  have hdeployed : Deployed sampleOverridePaths "/usr/share".toList sampleCheckout emptySystem
      deployedSystem := by
    refine ⟨fun path hmem => ?_, ?_⟩
    · have hne : path ≠ refActionsPath "/usr/share".toList := by
        rintro rfl
        revert hmem
        decide +kernel
      rw [deployedSystem, Function.update_of_ne hne]
      exact .error Iff.rfl
    · rw [deployedSystem, Function.update_self]
      exact .files (.refl _)
  have hafter : deployedSystem.Distinct := by
    intro path files hfiles
    by_cases hpath : path = refActionsPath "/usr/share".toList
    · rw [hpath, deployedSystem, Function.update_self] at hfiles
      obtain rfl := Except.ok.inj hfiles
      exact List.nodup_singleton _
    · rw [deployedSystem, Function.update_of_ne hpath] at hfiles
      cases hfiles
  have hskipped : NoneSkipped plainEnvironment (deployedSystem.at
      (directoriesToSearchFromEnvironment sampleOverridePaths "/usr/share".toList)) := by
    have hok : (flatpakRefActionsAt plainEnvironment deployedSystem
        (directoriesToSearchFromEnvironment sampleOverridePaths
          "/usr/share".toList)).toOption.isSome := by decide +kernel
    cases hread : flatpakRefActionsAt plainEnvironment deployedSystem
        (directoriesToSearchFromEnvironment sampleOverridePaths "/usr/share".toList) with
    | error failure =>
        rw [hread] at hok
        cases hok
    | ok t => exact (allRead_of_ok (hafter.distinctNames _) hread).noneSkipped
  refine ⟨?_, commit_deployed plainEnvironment hdeployed hafter hskipped
    (by decide +kernel) (by decide +kernel) rfl (by decide +kernel) (by decide +kernel)⟩
  cases hread : flatpakRefActionsFromOstreeCommit plainEnvironment emptySystem
      sampleOverridePaths sampleCheckout with
  | error failure =>
      rw [hread] at hkeys
      cases hkeys
  | ok t =>
      rw [hread] at hkeys
      exact ⟨t, rfl, Option.some.inj hkeys⟩

end Euu
