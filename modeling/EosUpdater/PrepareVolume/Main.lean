import Mathlib.Data.Finset.Basic
import EosUpdater.Flatpak.Commit
import EosUpdater.Installer.Check

/-!
# Preparing a volume

`eos-updater-prepare-volume` copies the booted commit, some flatpaks that it is told, and the ones
that the autoinstall files ask for to a volume, from which other computers can be updated. As these
may have applied other entries of the files, it copies what all entries together amount to.

This is what a computer that parses the files alike and has applied nothing needs. One that has
applied some entries needs something else exactly if there is an entry to uninstall it that has
priority over all others, and that it has applied (`needed_iff`). If the program finishes, all of
this has been copied, or has been attempted at least, and if it fails before that, nothing has been
run (`prepareVolume_copies`).

What the program prints is left out.
-/

namespace PrepareVolume

open GLib Euu Eufi Overwrite

/-! ### The program -/

/-- A command that is run. -/
inductive Command
  | ostreeCreateUsb (repoPath commit volumePath collectionId ref : String)
  | flatpakCreateUsb (volumePath flatpakRef : String)
  /-- Any user may read the volume. -/
  | chmodVolume (volumePath : String)
  /-- Any user may write to the `.ostree` directory. -/
  | chmodOstree (volumePath : String)
deriving DecidableEq, Repr

/-- How `subprocess.check_call` ends: the command exits with 0 or not, or cannot be run. -/
inductive CallResult
  | succeeded
  | calledProcessError
  | otherException
deriving DecidableEq, Repr

/-- How the program ends: at its end, in `__fail` with an exit status, with an exception that is not
caught, or in reading memory that was never written. -/
inductive Outcome
  | finished
  | failed (exitStatus : ℕ)
  | raised
  | undefined
deriving DecidableEq, Repr

/-- The command line. -/
structure Options where
  volumePath : String
  flatpakRefs : List String
  preservePermissions : Bool
deriving DecidableEq, Repr

/-- The bindings in the metadata of a commit. -/
structure CommitMetadata where
  collectionBinding : Option String
  refBinding : Option (List String)
deriving DecidableEq, Repr

/-- The system that the program runs on. -/
structure Environment where
  isRoot : Bool
  /-- `EOS_UPDATER_TEST_UPDATER_DEPLOYMENT_FALLBACK` is set. -/
  deploymentFallback : Bool
  loadSysroot : Except GError Unit
  bootedDeployment : Option String
  deployments : List String
  repoPath : String
  loadCommit : String → Except GError CommitMetadata
  /-- `Flatpak.Ref.parse` accepts the text. -/
  parsesRef : String → Bool
  parser : ParserEnvironment
  /-- What the bindings make of a list that is `NULL`, if they do not raise an exception. -/
  nullList : Option (List FlatpakRemoteRefAction)
  directories : Directories
  /-- The paths of the autoinstall files that override others. -/
  overridePaths : Text
  datadir : Text
  /-- The order in which a set is iterated over. -/
  iterate : Finset String → List String
  mem_iterate : ∀ set text, text ∈ iterate set ↔ text ∈ set
  /-- What running a command gives after others. -/
  checkCall : List Command → Command → CallResult

variable (env : Environment) (options : Options)

/-- `_get_collection_refs_for_commit`; the checksum is that of the commit. -/
def getCollectionRefsForCommit (rev : String) : Except GError (Option (List (String × String))) :=
  match env.loadCommit rev with
  | .error e => .error e
  | .ok metadata =>
      match metadata.collectionBinding with
      | none => .ok none
      | some collectionId =>
          match metadata.refBinding with
          | none => .ok none
          | some refs => .ok (some (refs.map fun ref => (collectionId, ref)))

/-- The deployment that `_get_os_collection_ref_checksums` looks at. -/
def osDeployment : Option String :=
  match env.bootedDeployment with
  | some deployment => some deployment
  | none => if env.deploymentFallback then env.deployments.head? else none

/-- `_get_os_collection_ref_checksums`, with the checksum. -/
def getOsCollectionRefChecksums :
    Except GError (Option (String × List (String × String))) :=
  match osDeployment env with
  | none => .ok none
  | some bootedCommit =>
      if bootedCommit = "" then .ok none
      else
        match getCollectionRefsForCommit env bootedCommit with
        | .error e => .error e
        | .ok refs => .ok (refs.map fun refs => (bootedCommit, refs))

/-- The loop of `_get_autoinstall_flatpaks`. -/
def autoinstallFlatpaks (appliedActions : List FlatpakRemoteRefAction) : Finset String :=
  appliedActions.foldl (fun autoinstalls action =>
    if action.type ≠ .uninstall then insert (formatRef action.ref.ref) autoinstalls
    else autoinstalls.erase (formatRef action.ref.ref)) ∅

/-- `euu_flatpak_ref_actions_from_paths`, for the paths of the environment. -/
def refActionsFromPaths : Except ReadFailure RefActionsTable :=
  flatpakRefActionsAt env.parser env.directories
    (directoriesToSearchFromEnvironment env.overridePaths env.datadir)

/-- `euu_flattened_flatpak_ref_actions_from_paths`, as the bindings hand its result over. -/
def flattenedRefActionsFromPaths : Except ReadFailure (List FlatpakRemoteRefAction) :=
  match refActionsFromPaths env with
  | .error .unset =>
      match env.nullList with
      | some actions => .ok actions
      | none => .error .unset
  | .error failure => .error failure
  | .ok refActions => .ok (flattenFlatpakRefActionsTable refActions)

/-- `_get_autoinstall_flatpaks`. -/
def getAutoinstallFlatpaks : Except ReadFailure (Finset String) :=
  match flattenedRefActionsFromPaths env with
  | .error failure => .error failure
  | .ok appliedActions => .ok (autoinstallFlatpaks appliedActions)

/-- `__run`, for one command after the other: the commands that have been run with their results,
and whether there was no exception. -/
def runAll (fatalError : Bool) :
    List Command → List (Command × CallResult) → Bool × List (Command × CallResult)
  | [], done => (true, done)
  | cmd :: cmds, done =>
      let result := env.checkCall (done.map Prod.fst) cmd
      match result with
      | .succeeded => runAll fatalError cmds (done ++ [(cmd, result)])
      | .calledProcessError =>
          if fatalError then (false, done ++ [(cmd, result)])
          else runAll fatalError cmds (done ++ [(cmd, result)])
      | .otherException => (false, done ++ [(cmd, result)])

/-- The commands that copy the commit. -/
def osCommands (commit : String) (refs : List (String × String)) : List Command :=
  refs.map fun ref => .ostreeCreateUsb env.repoPath commit options.volumePath ref.1 ref.2

/-- The commands that copy flatpaks. -/
def flatpakCommands (flatpakRefs : List String) : List Command :=
  flatpakRefs.map fun flatpakRef => .flatpakCreateUsb options.volumePath flatpakRef

/-- The commands that change the permissions. -/
def chmodCommands : List Command :=
  (if options.preservePermissions then [] else [.chmodVolume options.volumePath]) ++
    [.chmodOstree options.volumePath]

/-- `prepare_volume`, from where the commands are run. -/
def copyAll (commit : String) (refs : List (String × String)) (autoinstalls : Finset String) :
    Outcome × List (Command × CallResult) :=
  match runAll env true (osCommands env options commit refs) [] with
  | (false, done) => (.raised, done)
  | (true, done) =>
      match runAll env true (flatpakCommands options options.flatpakRefs) done with
      | (false, done) => (.raised, done)
      | (true, done) =>
          match runAll env false (flatpakCommands options (env.iterate autoinstalls)) done with
          | (false, done) => (.raised, done)
          | (true, done) =>
              match runAll env true (chmodCommands options) done with
              | (false, done) => (.raised, done)
              | (true, done) => (.finished, done)

/-- `prepare_volume`. -/
def prepareVolume : Outcome × List (Command × CallResult) :=
  if !env.isRoot && !env.deploymentFallback then (.failed 3, [])
  else
    match env.loadSysroot with
    | .error _ => (.failed 1, [])
    | .ok () =>
        if options.flatpakRefs.any fun flatpakRef => !env.parsesRef flatpakRef then (.failed 2, [])
        else
          match getAutoinstallFlatpaks env with
          | .error (.error _) => (.failed 1, [])
          -- an exception other than `GLib.Error` is not caught
          | .error .unset => (.raised, [])
          | .error .undefined => (.undefined, [])
          | .ok autoinstalls =>
              match getOsCollectionRefChecksums env with
              | .error _ => (.raised, [])
              | .ok none => (.failed 1, [])
              | .ok (some (commit, refs)) =>
                  if refs = [] then (.failed 1, [])
                  else copyAll env options commit refs autoinstalls

/-! ### The text of a ref -/

/-- The texts in front of a first slash, and behind it. -/
theorem eq_of_append_slash {a a' b b' : List Char} (ha : '/' ∉ a) (ha' : '/' ∉ a')
    (h : a ++ '/' :: b = a' ++ '/' :: b') : a = a' ∧ b = b' := by
  induction a generalizing a' with
  | nil =>
      cases a' with
      | nil => exact ⟨rfl, List.tail_eq_of_cons_eq h⟩
      | cons c a' =>
          obtain rfl := List.head_eq_of_cons_eq h
          exact absurd List.mem_cons_self ha'
  | cons c a ih =>
      cases a' with
      | nil =>
          obtain rfl := List.head_eq_of_cons_eq h
          exact absurd List.mem_cons_self ha
      | cons c' a' =>
          rw [List.cons_append, List.cons_append] at h
          obtain ⟨rfl, htail⟩ := List.cons_eq_cons.1 h
          obtain ⟨rfl, rfl⟩ := ih (fun hmem => ha (List.mem_cons_of_mem _ hmem))
            (fun hmem => ha' (List.mem_cons_of_mem _ hmem)) htail
          exact ⟨rfl, rfl⟩

/-- The name and the architecture of a ref have no slash. -/
def PlainRef (ref : FlatpakRef) : Prop := '/' ∉ ref.name.toList ∧ '/' ∉ ref.arch.toList

/-- The parts of a ref are looked at one by one. -/
instance (ref : FlatpakRef) : Decidable (PlainRef ref) := inferInstanceAs (Decidable (_ ∧ _))

/-- A formatted ref is its four parts with slashes between them. -/
theorem formatRef_toList (ref : FlatpakRef) :
    (formatRef ref).toList = (refKindName ref.kind).toList ++ '/' ::
      (ref.name.toList ++ '/' :: (ref.arch.toList ++ '/' :: ref.branch.toList)) := by
  rw [formatRef]
  cases ref.kind <;> simp [refKindName, String.toList_append]

/-- The text of a ref says which one it is. -/
theorem formatRef_inj {ref ref' : FlatpakRef} (h : PlainRef ref) (h' : PlainRef ref')
    (heq : formatRef ref = formatRef ref') : ref = ref' := by
  have hslash : ∀ kind, '/' ∉ (refKindName kind).toList := fun kind => by
    cases kind <;> decide
  have hlists := congrArg String.toList heq
  rw [formatRef_toList, formatRef_toList] at hlists
  obtain ⟨hkinds, hlists⟩ := eq_of_append_slash (hslash _) (hslash _) hlists
  obtain ⟨hnames, hlists⟩ := eq_of_append_slash h.1 h'.1 hlists
  obtain ⟨harchs, hbranches⟩ := eq_of_append_slash h.2 h'.2 hlists
  have hkind : ∀ kind kind', (refKindName kind).toList = (refKindName kind').toList →
      kind = kind' := fun kind kind' => by
    cases kind <;> cases kind' <;> decide
  cases ref
  cases ref'
  simp only [FlatpakRef.mk.injEq]
  exact ⟨hkind _ _ hkinds, String.toList_inj.1 hnames, String.toList_inj.1 harchs,
    String.toList_inj.1 hbranches⟩

/-! ### The flatpaks that are copied -/

variable {env options}

theorem mem_autoinstallFlatpaks_foldl {actions : List FlatpakRemoteRefAction} {text : String}
    (hdistinct : actions.Pairwise fun a b => formatRef (refKey a) ≠ formatRef (refKey b))
    (autoinstalls : Finset String) :
    text ∈ actions.foldl (fun autoinstalls action =>
        if action.type ≠ .uninstall then insert (formatRef action.ref.ref) autoinstalls
        else autoinstalls.erase (formatRef action.ref.ref)) autoinstalls ↔
      (∃ a ∈ actions, a.type ≠ .uninstall ∧ formatRef (refKey a) = text) ∨
        text ∈ autoinstalls ∧ ∀ a ∈ actions, formatRef (refKey a) ≠ text := by
  induction actions generalizing autoinstalls with
  | nil => simp
  | cons action actions ih =>
      rw [List.pairwise_cons] at hdistinct
      rw [List.foldl_cons, ih hdistinct.2]
      have hkey : formatRef action.ref.ref = formatRef (refKey action) := rfl
      rw [hkey]
      by_cases htext : formatRef (refKey action) = text
      · -- another action on the same text does not follow
        have hrest : ∀ a ∈ actions, formatRef (refKey a) ≠ text := fun a ha heq =>
          hdistinct.1 a ha (htext.trans heq.symm)
        have hnone : ¬ ∃ a ∈ actions, a.type ≠ .uninstall ∧ formatRef (refKey a) = text := by
          rintro ⟨a, ha, -, heq⟩
          exact hrest a ha heq
        -- it is the last action on the text, and so decides on it
        by_cases htype : action.type = .uninstall
        · simp [htype, htext, hnone]
        · rw [if_pos htype]
          refine iff_of_true (.inr ⟨?_, hrest⟩) (.inl ⟨action, List.mem_cons_self, htype, htext⟩)
          rw [htext]
          exact Finset.mem_insert_self ..
      · have hne : text ≠ formatRef (refKey action) := fun heq => htext heq.symm
        by_cases htype : action.type = .uninstall <;> simp [htype, htext, hne]

/-- The set has the refs of the installs and updates. -/
theorem mem_autoinstallFlatpaks {actions : List FlatpakRemoteRefAction} {text : String}
    (hdistinct : actions.Pairwise fun a b => formatRef (refKey a) ≠ formatRef (refKey b)) :
    text ∈ autoinstallFlatpaks actions ↔
      ∃ a ∈ actions, a.type ≠ .uninstall ∧ formatRef (refKey a) = text := by
  rw [autoinstallFlatpaks, mem_autoinstallFlatpaks_foldl hdistinct]
  simp

variable {T : AutoinstallTable} {x : FlatpakRemoteRefAction} {P : Progresses}

/-- The refs of all entries have plain names. -/
def PlainRefs (T : AutoinstallTable) : Prop := ∀ a, T.Entry a → PlainRef (refKey a)

/-- All entries together are flattened to the winners among them. -/
theorem mem_flatten_files (T : AutoinstallTable) (a : FlatpakRemoteRefAction) :
    a ∈ flattenFlatpakRefActionsTable T.files ↔ Wins T.Entry a :=
  mem_flatten_iff_wins T.source_eq fun _ _ hlookup => by
    refine (AutoinstallTable.pairwise_docPosition hlookup).imp ?_
    intro a b hlt _
    exact hlt

/-- The flattened entries have different texts. -/
theorem pairwise_formatRef (hplain : PlainRefs T) :
    (flattenFlatpakRefActionsTable T.files).Pairwise
      fun a b => formatRef (refKey a) ≠ formatRef (refKey b) := by
  refine (pairwise_squash _).imp_of_mem fun {a b} ha hb hne heq => hne ?_
  exact formatRef_inj (hplain a ((mem_flatten_files T a).1 ha).1)
    (hplain b ((mem_flatten_files T b).1 hb).1) heq

/-- What is copied for the entries of a plain table. -/
theorem mem_autoinstallFlatpaks_files (hplain : PlainRefs T) (text : String) :
    text ∈ autoinstallFlatpaks (flattenFlatpakRefActionsTable T.files) ↔
      ∃ w, Wins T.Entry w ∧ w.type ≠ .uninstall ∧ formatRef (refKey w) = text := by
  rw [mem_autoinstallFlatpaks (pairwise_formatRef hplain)]
  simp only [mem_flatten_files]

/-- What is to be installed or updated and is not copied: the entry with priority on the ref is one
to uninstall it that has been applied. -/
theorem exists_uninstall_of_notMem (hplain : PlainRefs T)
    (hx : x ∈ flattenFlatpakRefActionsTable (filterForNewFlatpakRefActions T.files P))
    (htype : x.type ≠ .uninstall)
    (hnone : formatRef (refKey x) ∉
      autoinstallFlatpaks (flattenFlatpakRefActionsTable T.files)) :
    ∃ u, Wins T.Entry u ∧ T.Existing P u ∧ u.type = .uninstall ∧ refKey u = refKey x := by
  have hwins := (T.mem_flatten_new P).1 hx
  rw [mem_autoinstallFlatpaks_files hplain] at hnone
  obtain ⟨w, hw, hkey, -⟩ := AutoinstallTable.exists_wins (fun _ h => h) hwins.1.1
  have hwtype : w.type = .uninstall := by
    by_contra hne
    exact hnone ⟨w, hw, hne, congrArg formatRef hkey⟩
  refine ⟨w, hw, existing_of_not_new hw.1 fun hnew => ?_, hwtype, hkey⟩
  -- if it were new, it would have priority among the new ones as well
  have hwnew : Wins (T.New P) w := ⟨hnew, fun b hb => hw.2 b hb.1⟩
  rw [AutoinstallTable.Wins.eq_of_refKey (fun _ h => h.1) hwnew hwins hkey] at hwtype
  exact htype hwtype

/-- **What a volume has.** What a computer with some progress is to install or update is not among
the flatpaks that are copied exactly if the entry with priority on the ref is one to uninstall it
that the computer has applied. -/
theorem needed_iff (hplain : PlainRefs T)
    (hx : x ∈ flattenFlatpakRefActionsTable (filterForNewFlatpakRefActions T.files P))
    (htype : x.type ≠ .uninstall) :
    formatRef (refKey x) ∉ autoinstallFlatpaks (flattenFlatpakRefActionsTable T.files) ↔
      ∃ u, Wins T.Entry u ∧ T.Existing P u ∧ u.type = .uninstall ∧ refKey u = refKey x := by
  refine ⟨exists_uninstall_of_notMem hplain hx htype, ?_⟩
  rintro ⟨u, hu, -, hutype, hkey⟩ hcopied
  obtain ⟨w, hw, hwtype, htext⟩ := (mem_autoinstallFlatpaks_files hplain _).1 hcopied
  have hwkey := formatRef_inj (hplain w hw.1)
    (hplain x ((T.mem_flatten_new P).1 hx).1.1) htext
  rw [AutoinstallTable.Wins.eq_of_refKey (fun _ h => h) hw hu (hwkey.trans hkey.symm)] at hwtype
  exact hwtype hutype

/-- A computer that has applied the later of two files, which uninstalls an app, is about to install
it, as the earlier one asks for. It is not on the volume. -/
theorem needed_conflictingFiles :
    let P : Progresses := GHashTable.empty.replace "20-b" 1
    let x := sampleAction .install "org.example.X" "10-a" 1
    formatRef (refKey x) ∉ autoinstallFlatpaks
        (flattenFlatpakRefActionsTable conflictingFiles.files) ∧
      ∃ u, Wins conflictingFiles.Entry u ∧ conflictingFiles.Existing P u ∧ u.type = .uninstall ∧
        refKey u = refKey x := by
  intro P x
  have hplain : PlainRefs conflictingFiles := fun a ha => by
    rw [← AutoinstallTable.mem_concatenatedActions_files] at ha
    revert a
    decide +kernel
  have hneeded := needed_iff (P := P) (x := x) hplain (by decide +kernel) (by decide)
  have hmissing : formatRef (refKey x) ∉ autoinstallFlatpaks
      (flattenFlatpakRefActionsTable conflictingFiles.files) := by
    decide +kernel
  exact ⟨hmissing, hneeded.1 hmissing⟩

/-! ### What is run -/

/-- Where there is no exception, all commands have been run in order; if their errors are fatal, all
have succeeded. -/
theorem runAll_eq_true {fatalError : Bool} {cmds : List Command}
    {done done' : List (Command × CallResult)}
    (h : runAll env fatalError cmds done = (true, done')) :
    ∃ results, done' = done ++ results ∧ results.map Prod.fst = cmds ∧
      (fatalError = true → ∀ r ∈ results, r.2 = .succeeded) := by
  induction cmds generalizing done with
  | nil =>
      obtain ⟨-, rfl⟩ := Prod.mk.inj h
      exact ⟨[], (List.append_nil _).symm, rfl, fun _ _ hmem => absurd hmem List.not_mem_nil⟩
  | cons cmd cmds ih =>
      -- a command may fail where errors are not fatal, and only then
      have hstep : ∃ result, (fatalError = true → result = .succeeded) ∧
          runAll env fatalError cmds (done ++ [(cmd, result)]) = (true, done') := by
        rw [runAll] at h
        cases hresult : env.checkCall (done.map Prod.fst) cmd with
        | succeeded =>
            simp only [hresult] at h
            exact ⟨_, fun _ => rfl, h⟩
        | calledProcessError =>
            simp only [hresult] at h
            split at h
            · cases h
            next hfatal => exact ⟨_, fun h => absurd h hfatal, h⟩
        | otherException =>
            simp only [hresult] at h
            cases h
      obtain ⟨result, hsucceeded, hrest⟩ := hstep
      obtain ⟨results, rfl, hcmds, hall⟩ := ih hrest
      refine ⟨(cmd, result) :: results, by simp, by simp [hcmds], fun hfatal r hmem => ?_⟩
      rcases List.mem_cons.1 hmem with rfl | hmem
      · exact hsucceeded hfatal
      · exact hall hfatal r hmem

/-- An exception comes from the last command that has been run. -/
theorem runAll_eq_false {fatalError : Bool} {cmds : List Command}
    {done done' : List (Command × CallResult)}
    (h : runAll env fatalError cmds done = (false, done')) :
    ∃ before cmd result, done' = before ++ [(cmd, result)] ∧ result ≠ .succeeded := by
  induction cmds generalizing done with
  | nil => cases h
  | cons cmd cmds ih =>
      rw [runAll] at h
      cases hresult : env.checkCall (done.map Prod.fst) cmd with
      | succeeded =>
          simp only [hresult] at h
          exact ih h
      | calledProcessError =>
          simp only [hresult] at h
          split at h
          · obtain ⟨-, rfl⟩ := Prod.mk.inj h
            exact ⟨done, cmd, _, rfl, by decide⟩
          · exact ih h
      | otherException =>
          simp only [hresult] at h
          obtain ⟨-, rfl⟩ := Prod.mk.inj h
          exact ⟨done, cmd, _, rfl, by decide⟩

variable {commit : String} {refs : List (String × String)} {autoinstalls : Finset String}

/-- The four parts of a run that finishes. -/
structure Copied (env : Environment) (options : Options) (commit : String)
    (refs : List (String × String)) (autoinstalls : Finset String)
    (os given attempted permissions : List (Command × CallResult)) : Prop where
  os_cmds : os.map Prod.fst = osCommands env options commit refs
  given_cmds : given.map Prod.fst = flatpakCommands options options.flatpakRefs
  attempted_cmds : attempted.map Prod.fst = flatpakCommands options (env.iterate autoinstalls)
  permissions_cmds : permissions.map Prod.fst = chmodCommands options
  succeeded : ∀ r ∈ os ++ given ++ permissions, r.2 = .succeeded

/-- Where copying finishes, everything has been copied. -/
theorem copyAll_finished
    (h : (copyAll env options commit refs autoinstalls).1 = .finished) :
    ∃ os given attempted permissions,
      Copied env options commit refs autoinstalls os given attempted permissions ∧
        (copyAll env options commit refs autoinstalls).2 =
          os ++ given ++ attempted ++ permissions := by
  unfold copyAll at h ⊢
  rcases hos : runAll env true (osCommands env options commit refs) [] with ⟨_ | _, done⟩
  · simp [hos] at h
  simp only [hos] at h ⊢
  rcases hgiven : runAll env true (flatpakCommands options options.flatpakRefs) done
    with ⟨_ | _, done₁⟩
  · simp [hgiven] at h
  simp only [hgiven] at h ⊢
  rcases hattempted : runAll env false (flatpakCommands options (env.iterate autoinstalls)) done₁
    with ⟨_ | _, done₂⟩
  · simp [hattempted] at h
  simp only [hattempted] at h ⊢
  rcases hpermissions : runAll env true (chmodCommands options) done₂ with ⟨_ | _, done₃⟩
  · simp [hpermissions] at h
  -- each of the four parts begins with what was run before it
  obtain ⟨os, hdone, hoscmds, hosall⟩ := runAll_eq_true hos
  obtain rfl : done = os := hdone
  obtain ⟨given, rfl, hgivencmds, hgivenall⟩ := runAll_eq_true hgiven
  obtain ⟨attempted, rfl, hattemptedcmds, -⟩ := runAll_eq_true hattempted
  obtain ⟨permissions, rfl, hpermissionscmds, hpermissionsall⟩ := runAll_eq_true hpermissions
  refine ⟨done, given, attempted, permissions,
    ⟨hoscmds, hgivencmds, hattemptedcmds, hpermissionscmds, fun r hmem => ?_⟩, by simp⟩
  rcases List.mem_append.1 hmem with hmem | hmem
  · rcases List.mem_append.1 hmem with hmem | hmem
    · exact hosall rfl r hmem
    · exact hgivenall rfl r hmem
  · exact hpermissionsall rfl r hmem

/-- Where copying does not finish, it ends with the command that failed. -/
theorem copyAll_raised (h : (copyAll env options commit refs autoinstalls).1 ≠ .finished) :
    (copyAll env options commit refs autoinstalls).1 = .raised ∧
      ∃ before cmd result, (copyAll env options commit refs autoinstalls).2 =
        before ++ [(cmd, result)] ∧ result ≠ .succeeded := by
  unfold copyAll at h ⊢
  rcases hos : runAll env true (osCommands env options commit refs) [] with ⟨_ | _, done⟩
  · exact ⟨rfl, runAll_eq_false hos⟩
  simp only [hos] at h ⊢
  rcases hgiven : runAll env true (flatpakCommands options options.flatpakRefs) done
    with ⟨_ | _, done₁⟩
  · exact ⟨rfl, runAll_eq_false hgiven⟩
  simp only [hgiven] at h ⊢
  rcases hattempted : runAll env false (flatpakCommands options (env.iterate autoinstalls)) done₁
    with ⟨_ | _, done₂⟩
  · exact ⟨rfl, runAll_eq_false hattempted⟩
  simp only [hattempted] at h ⊢
  rcases hpermissions : runAll env true (chmodCommands options) done₂ with ⟨_ | _, done₃⟩
  · exact ⟨rfl, runAll_eq_false hpermissions⟩
  simp [hpermissions] at h

/-- Nothing is run unless everything has been found. -/
theorem prepareVolume_cases (env : Environment) (options : Options) :
    ((prepareVolume env options).1 ≠ .finished ∧ (prepareVolume env options).2 = []) ∨
      ∃ autoinstalls commit refs, (∀ flatpakRef ∈ options.flatpakRefs, env.parsesRef flatpakRef) ∧
        getAutoinstallFlatpaks env = .ok autoinstalls ∧
        getOsCollectionRefChecksums env = .ok (some (commit, refs)) ∧ refs ≠ [] ∧
        prepareVolume env options = copyAll env options commit refs autoinstalls := by
  rw [prepareVolume]
  split
  · simp
  cases env.loadSysroot with
  | error e => simp
  | ok _ =>
  dsimp only
  split
  · simp
  next hparses =>
  -- only now the files and the deployment are looked at, and still nothing has been run
  rcases hflatpaks : getAutoinstallFlatpaks env with (_ | _ | _) | autoinstalls
  · simp
  · simp
  · simp
  rcases hos : getOsCollectionRefChecksums env with e | _ | ⟨commit, refs⟩
  · simp
  · simp
  dsimp only
  split
  · simp
  next hrefs =>
  refine .inr ⟨autoinstalls, commit, refs, fun flatpakRef hmem => ?_, rfl, rfl, hrefs, rfl⟩
  by_contra hinvalid
  exact hparses (List.any_eq_true.2 ⟨flatpakRef, hmem, by simpa using hinvalid⟩)

/-- The refs are the ones that the commit of the deployment is bound to. -/
theorem getOsCollectionRefChecksums_ok
    (h : getOsCollectionRefChecksums env = .ok (some (commit, refs))) :
    osDeployment env = some commit ∧ ∃ collectionId names,
      env.loadCommit commit = .ok ⟨some collectionId, some names⟩ ∧
        refs = names.map fun ref => (collectionId, ref) := by
  unfold getOsCollectionRefChecksums at h
  split at h
  · cases h
  next bootedCommit hdeployment =>
  split at h
  · cases h
  unfold getCollectionRefsForCommit at h
  rcases hload : env.loadCommit bootedCommit with e | ⟨_ | collectionId, _ | names⟩
  · simp [hload] at h
  · simp [hload] at h
  · simp [hload] at h
  · simp [hload] at h
  · simp only [hload, Option.map_some, Except.ok.injEq, Option.some.injEq, Prod.mk.injEq] at h
    obtain ⟨rfl, rfl⟩ := h
    exact ⟨hdeployment, collectionId, names, hload, rfl⟩

/-- Only the two paths of the volume get new permissions. -/
theorem not_mem_chmodCommands {cmd : Command} (hvolume : cmd ≠ .chmodVolume options.volumePath)
    (hostree : cmd ≠ .chmodOstree options.volumePath) : cmd ∉ chmodCommands options := by
  rw [chmodCommands]
  split <;> simp [hvolume, hostree]

/-- What has been done to a volume for the computers that parse the files as `T`. -/
structure Prepared (env : Environment) (options : Options) (T : AutoinstallTable)
    (run : List (Command × CallResult)) : Prop where
  /-- The commit of the deployment has been copied under each ref that it is bound to. -/
  os : ∃ commit collectionId refs, osDeployment env = some commit ∧ refs ≠ [] ∧
    env.loadCommit commit = .ok ⟨some collectionId, some refs⟩ ∧
    ∀ ref ∈ refs, (Command.ostreeCreateUsb env.repoPath commit options.volumePath collectionId ref,
      CallResult.succeeded) ∈ run
  /-- So have all flatpaks of the command line. -/
  given : ∀ flatpakRef ∈ options.flatpakRefs, env.parsesRef flatpakRef ∧
    (Command.flatpakCreateUsb options.volumePath flatpakRef, CallResult.succeeded) ∈ run
  /-- What a computer is to install or update has been copied, or at least attempted, unless it has
  applied the uninstall that has priority over all entries on the ref. -/
  needed : ∀ (P : Progresses),
    ∀ x ∈ flattenFlatpakRefActionsTable (filterForNewFlatpakRefActions T.files P),
      x.type ≠ .uninstall →
        (∃ result, (Command.flatpakCreateUsb options.volumePath (formatRef (refKey x)), result) ∈
          run) ∨
        ∃ u, Wins T.Entry u ∧ T.Existing P u ∧ u.type = .uninstall ∧ refKey u = refKey x
  /-- No other flatpaks have been copied. -/
  only : ∀ volumePath flatpakRef result,
    (Command.flatpakCreateUsb volumePath flatpakRef, result) ∈ run →
      volumePath = options.volumePath ∧ (flatpakRef ∈ options.flatpakRefs ∨
        ∃ w, Wins T.Entry w ∧ w.type ≠ .uninstall ∧ formatRef (refKey w) = flatpakRef)
  /-- The permissions are changed once everything has been copied. -/
  permissions : ∃ copied, run = copied ++ (chmodCommands options).map (·, .succeeded) ∧
    ∀ r ∈ copied, r.1 ∉ chmodCommands options

/-- Commands that have all succeeded. -/
theorem eq_map_succeeded {results : List (Command × CallResult)} {cmds : List Command}
    (hcmds : results.map Prod.fst = cmds) (hall : ∀ r ∈ results, r.2 = .succeeded) :
    results = cmds.map (·, .succeeded) := by
  subst hcmds
  rw [List.map_map]
  refine (List.map_id results).symm.trans (List.map_congr_left fun r hmem => ?_)
  exact Prod.ext rfl (hall r hmem)

variable {os given attempted permissions : List (Command × CallResult)}

/-- A volume onto which everything was copied is prepared. -/
theorem Copied.prepared (h : Copied env options commit refs autoinstalls os given attempted
      permissions)
    (hplain : PlainRefs T) (hparses : ∀ flatpakRef ∈ options.flatpakRefs, env.parsesRef flatpakRef)
    (hautoinstalls : autoinstalls = autoinstallFlatpaks (flattenFlatpakRefActionsTable T.files))
    (hos : getOsCollectionRefChecksums env = .ok (some (commit, refs))) (hrefs : refs ≠ []) :
    Prepared env options T (os ++ given ++ attempted ++ permissions) := by
  have hoseq := eq_map_succeeded h.os_cmds fun r hmem => h.succeeded r (by simp [hmem])
  have hgiveneq := eq_map_succeeded h.given_cmds fun r hmem => h.succeeded r (by simp [hmem])
  have hpermissionseq := eq_map_succeeded h.permissions_cmds fun r hmem =>
    h.succeeded r (by simp [hmem])
  -- the autoinstalls are copied in the order of a set, each of them once
  have hattempted : ∀ cmd, cmd ∈ attempted.map Prod.fst ↔
      ∃ flatpakRef ∈ autoinstalls, cmd = .flatpakCreateUsb options.volumePath flatpakRef :=
    fun cmd => by
      rw [h.attempted_cmds, flatpakCommands, List.mem_map]
      refine exists_congr fun flatpakRef => ?_
      rw [env.mem_iterate, eq_comm]
  constructor
  case os =>
    obtain ⟨hdeployment, collectionId, names, hload, rfl⟩ := getOsCollectionRefChecksums_ok hos
    refine ⟨commit, collectionId, names, hdeployment, fun hnil => hrefs (by simp [hnil]), hload,
      fun ref hmem => ?_⟩
    rw [hoseq]
    simp [osCommands, hmem]
  case given =>
    intro flatpakRef hmem
    refine ⟨hparses flatpakRef hmem, ?_⟩
    rw [hgiveneq]
    simp [flatpakCommands, hmem]
  case needed =>
    intro P x hx htype
    -- what a computer installs and was left out here has an uninstall with priority
    by_cases hcopied : formatRef (refKey x) ∈ autoinstalls
    · obtain ⟨⟨_, result⟩, hmem, rfl⟩ := List.mem_map.1 ((hattempted _).2 ⟨_, hcopied, rfl⟩)
      exact .inl ⟨result, by simp [hmem]⟩
    · rw [hautoinstalls] at hcopied
      exact .inr (exists_uninstall_of_notMem hplain hx htype hcopied)
  case only =>
    intro volumePath flatpakRef result hmem
    -- a copy of a flatpak is one of the given ones or of the autoinstalls, by the command's form
    have hcmd := List.mem_map_of_mem (f := Prod.fst) hmem
    simp only [List.map_append, List.mem_append, h.os_cmds, h.given_cmds, h.permissions_cmds,
      hattempted] at hcmd
    rcases hcmd with ((hcmd | hcmd) | ⟨attemptedRef, hauto, heq⟩) | hcmd
    · simp [osCommands] at hcmd
    · obtain ⟨givenRef, hgiven, heq⟩ := List.mem_map.1 hcmd
      obtain ⟨rfl, rfl⟩ := Command.flatpakCreateUsb.inj heq
      exact ⟨rfl, .inl hgiven⟩
    · obtain ⟨rfl, rfl⟩ := Command.flatpakCreateUsb.inj heq
      rw [hautoinstalls] at hauto
      exact ⟨rfl, .inr ((mem_autoinstallFlatpaks_files hplain _).1 hauto)⟩
    · exact absurd hcmd (not_mem_chmodCommands (by simp) (by simp))
  case permissions =>
    refine ⟨os ++ given ++ attempted, by rw [hpermissionseq], fun r hmem hchmod => ?_⟩
    -- nothing that was run before changes permissions
    have hcmd := List.mem_map_of_mem (f := Prod.fst) hmem
    simp only [List.map_append, List.mem_append, h.os_cmds, h.given_cmds, hattempted] at hcmd
    revert hchmod
    rcases hcmd with (hcmd | hcmd) | ⟨attemptedRef, -, heq⟩
    · obtain ⟨ref, -, heq⟩ := List.mem_map.1 hcmd
      rw [← heq]
      exact not_mem_chmodCommands (by simp) (by simp)
    · obtain ⟨givenRef, -, heq⟩ := List.mem_map.1 hcmd
      rw [← heq]
      exact not_mem_chmodCommands (by simp) (by simp)
    · rw [heq]
      exact not_mem_chmodCommands (by simp) (by simp)

/-- **A run of the program.** If it finishes, the volume has what it is for; if it fails, nothing
has been run; and if it raises an exception after that, this comes from the last command. -/
theorem prepareVolume_copies (hplain : PlainRefs T)
    (hfiles : refActionsFromPaths env = .ok T.files) :
    ((prepareVolume env options).1 = .finished →
        Prepared env options T (prepareVolume env options).2) ∧
      (∀ exitStatus, (prepareVolume env options).1 = .failed exitStatus →
        (prepareVolume env options).2 = []) ∧
      ((prepareVolume env options).1 = .raised → (prepareVolume env options).2 = [] ∨
        ∃ before cmd result, (prepareVolume env options).2 = before ++ [(cmd, result)] ∧
          result ≠ .succeeded) := by
  rcases prepareVolume_cases env options with
    ⟨hunfinished, hnothing⟩ | ⟨autoinstalls, commit, refs, hparses, hflatpaks, hos, hrefs, hrun⟩
  · exact ⟨fun hfinished => absurd hfinished hunfinished, fun _ _ => hnothing,
      fun _ => .inl hnothing⟩
  rw [hrun]
  have hautoinstalls : autoinstalls =
      autoinstallFlatpaks (flattenFlatpakRefActionsTable T.files) := by
    rw [getAutoinstallFlatpaks, flattenedRefActionsFromPaths, hfiles] at hflatpaks
    exact (Except.ok.inj hflatpaks).symm
  by_cases hfinished : (copyAll env options commit refs autoinstalls).1 = .finished
  · obtain ⟨os, given, attempted, permissions, hcopied, heq⟩ := copyAll_finished hfinished
    rw [heq, hfinished]
    exact ⟨fun _ => hcopied.prepared hplain hparses hautoinstalls hos hrefs,
      fun _ h => Outcome.noConfusion h, fun h => Outcome.noConfusion h⟩
  · obtain ⟨hraised, hlast⟩ := copyAll_raised hfinished
    rw [hraised]
    exact ⟨fun h => Outcome.noConfusion h, fun _ h => Outcome.noConfusion h, fun _ => .inr hlast⟩

/-! ### A volume with one app -/

/-- The texts of a set in lexical order. -/
def sortedTexts (set : Finset String) : List String :=
  Quotient.liftOn set.val (msort fun s t => decide (s ≤ t)) fun _ _ hperm =>
    msort_eq_of_perm (fun _ _ => decide_eq_true_iff) hperm

theorem mem_sortedTexts (set : Finset String) (text : String) :
    text ∈ sortedTexts set ↔ text ∈ set := by
  rcases set with ⟨⟨texts⟩, hnodup⟩
  exact mem_msort

/-- A system with one autoinstall file, on which everything succeeds. -/
def sampleSystem : Environment where
  isRoot := true
  deploymentFallback := false
  loadSysroot := .ok ()
  bootedDeployment := some "470ab0359"
  deployments := ["470ab0359"]
  repoPath := "/ostree/repo"
  loadCommit _ := .ok ⟨some "com.endlessm.Os", some ["os/eos/amd64/eos3a"]⟩
  parsesRef _ := true
  parser := plainEnvironment
  nullList := some []
  directories := deployedSystem
  overridePaths := sampleOverridePaths
  datadir := "/usr/share".toList
  iterate := sortedTexts
  mem_iterate := mem_sortedTexts
  checkCall _ _ := .succeeded

/-- The command line names a volume. -/
def sampleOptions : Options := ⟨"/run/media/volume", [], false⟩

/-- The volume of the sample is prepared. -/
theorem prepareVolume_sampleSystem :
    (prepareVolume sampleSystem sampleOptions).1 = .finished ∧
      ∃ T : AutoinstallTable,
        concatenatedActions T.files = [sampleAction .update "org.example.App" "10-apps.json" 1] ∧
          Prepared sampleSystem sampleOptions T
            (prepareVolume sampleSystem sampleOptions).2 := by
  have hfinished : (prepareVolume sampleSystem sampleOptions).1 = .finished := by
    decide +kernel
  have hactions : (refActionsFromPaths sampleSystem).toOption.map concatenatedActions =
      some [sampleAction .update "org.example.App" "10-apps.json" 1] := by
    decide +kernel
  cases hread : refActionsFromPaths sampleSystem with
  | error failure =>
      rw [hread] at hactions
      cases hactions
  | ok t =>
      rw [hread] at hactions
      have hone := Option.some.inj hactions
      have hfit : ∀ name actions, t.lookup name = some actions → SerialsFit actions := by
        intro name actions hlookup
        refine SerialsFit.mono (l := concatenatedActions t) ?_ fun a ha =>
          mem_concatenatedActions.2 ⟨name, actions, hlookup, ha⟩
        rw [hone]
        decide +kernel
      have hpaths := hread
      rw [refActionsFromPaths, flatpakRefActionsAt] at hpaths
      obtain ⟨T, rfl⟩ := exists_autoinstallTable hpaths hfit
      have hplain : PlainRefs T := fun a ha => by
        rw [← AutoinstallTable.mem_concatenatedActions_files, hone] at ha
        obtain rfl := List.mem_singleton.1 ha
        decide +kernel
      exact ⟨hfinished, T, hone, (prepareVolume_copies hplain hread).1 hfinished⟩

end PrepareVolume
