import EosUpdater.Updater.Rebase
import EosUpdater.Util.Checkpoint
import Mathlib.Data.List.TakeWhile

/-!
# Checking for an update

A poll looks for an update on the branch that is booted, and if there is none on the branch that the
checkpoint of the booted commit points to, if there is one and the system may follow it. What it
then offers is never what is booted and, on the same branch, never older; and all of it belongs to
one branch.
-/

namespace Updater

open Euu Machine Machine.Program

variable {σ ρ : Type}

/-! ### Refspecs -/

/-- What `get_booted_refspec` and `get_refspec_to_upgrade_on` return. -/
structure Refspec where
  refspec : String
  remote : String
  ref : String
  collectionRef : Option OstreeCollectionRef
deriving DecidableEq, Repr

namespace Ostree

variable (ostree : Ostree σ ρ)

/-- `get_booted_refspec`. -/
def getBootedRefspec (deployment : OstreeDeployment) (s : σ) : Except GError Refspec := do
  let some origin := deployment.origin
    | throw ⟨.ioNotFound, "No origin found for " ++ deployment.osname ++ " (" ++ deployment.csum ++
        "), cannot upgrade"⟩
  let refspec ← origin
  let (remote, ref) ← ostree.parseRefspec refspec
  let some remote := remote
    | throw ⟨.ioFailed, "Invalid refspec ‘" ++ refspec ++
        "’ in origin: did not contain a remote name"⟩
  ostree.localRepo s
  let collectionId ← ostree.remoteCollectionId s remote
  return { refspec, remote, ref, collectionRef := collectionId.map (⟨·, ref⟩) }

/-- `get_booted_refspec_from_default_booted_sysroot_deployment`. -/
def getBootedRefspecFromDefaultBootedSysrootDeployment (s : σ) : Except GError Refspec := do
  ostree.getBootedRefspec (← ostree.bootedDeployment s) s

/-- The ref that the checkpoint of a commit points to, without the remote that it may name. A target
that cannot be parsed is ignored. -/
def checkpointRef (commit : Commit) : Option String :=
  commit.checkpointTarget.bind fun target => (ostree.parseRefspec target).toOption.map (·.2)

/-- `get_ref_to_upgrade_on_from_deployment`. A booted commit that is missing has no checkpoint. -/
def getRefToUpgradeOnFromDeployment (platform : Platform) (deployment : OstreeDeployment)
    (bootedRef : String) (s : σ) : Except GError (Option String) := do
  ostree.sysrootRepo s
  let commit := (ostree.loadCommit s deployment.csum).toOption
  return (commit.bind ostree.checkpointRef).filter fun ref =>
    (shouldFollowCheckpoint platform bootedRef ref).isOk

/-- `get_refspec_to_upgrade_on`. -/
def getRefspecToUpgradeOn (platform : Platform) (s : σ) : Except GError Refspec := do
  let deployment ← ostree.bootedDeployment s
  let booted ← ostree.getBootedRefspec deployment s
  match ← ostree.getRefToUpgradeOnFromDeployment platform deployment booted.ref s with
  | some ref =>
      return {
        refspec := booted.remote ++ ":" ++ ref
        remote := booted.remote
        ref
        collectionRef := booted.collectionRef.map ({ · with refName := ref }) }
  | none => return booted

end Ostree

/-! ### Whether a commit is an update -/

/-- `g_ascii_isspace`. -/
def asciiIsSpace (c : Char) : Bool := c ∈ [' ', '\x0c', '\n', '\r', '\t', '\x0b']

/-- `g_ascii_strtoull` for the base 10, with what it returns if the number is too large. -/
def asciiStrtoull (text : String) : ℕ :=
  let chars := text.toList.dropWhile asciiIsSpace
  let negative := chars.head? = some '-'
  -- like `strtoull`, with a sign; a negative number is taken modulo `2 ^ 64`
  let digits := if chars.head? ∈ [some '-', some '+'] then chars.tail else chars
  let number := (digits.takeWhile Char.isDigit).foldl (fun n c => 10 * n + (c.toNat - '0'.toNat)) 0
  if 2 ^ 64 ≤ number then 2 ^ 64 - 1
  else if negative then (2 ^ 64 - number) % 2 ^ 64
  else number

/-- `compare_major_versions`, with its negative, zero and positive results as an `Ordering`. -/
def compareMajorVersions (versionA versionB : Option String) : Ordering :=
  match versionA, versionB with
  | some a, some b => compare (asciiStrtoull a) (asciiStrtoull b)
  | _, _ => .eq

/-- What `is_checksum_an_update` returns: there is a commit only if it is an update. -/
structure ChecksumUpdate where
  commit : Option Commit := none
  isUpdateUserVisible : Bool := false
  bootedVersion : Option String := none
  updateVersion : Option String := none
deriving DecidableEq, Repr

/-- `is_checksum_an_update`, for a booted commit that could be loaded. -/
def compareCommits (bootedRef updateRef : String) (current update : Commit) : ChecksumUpdate :=
  let isNewer := bootedRef ≠ updateRef ∨ current.timestamp < update.timestamp
  { commit := if isNewer then some update else none
    isUpdateUserVisible :=
      if isNewer then compareMajorVersions current.version update.version = .lt else false
    bootedVersion := current.version
    updateVersion := update.version }

/-- `is_checksum_an_update`. -/
def Ostree.isChecksumAnUpdate (ostree : Ostree σ ρ) (updateChecksum bootedRef updateRef : String)
    (s : σ) : Except GError ChecksumUpdate := do
  let bootedChecksum ← ostree.bootedChecksum s
  if bootedChecksum = updateChecksum then return {}
  let update ← ostree.loadCommit s updateChecksum
  match ostree.loadCommit s bootedChecksum with
  -- the booted commit is missing: assume that the other one is an update
  | .error _ => return { commit := some update }
  | .ok current => return compareCommits bootedRef updateRef current update

/-- `format_release_notes_uri`. -/
def formatReleaseNotesUri (template bootedVersion updateVersion : Option String) : String :=
  ((template.getD "").replace "${booted_version}" (bootedVersion.getD "-")).replace
    "${update_version}" (updateVersion.getD "-")

/-! ### The searches -/

/-- `UpdateRefInfo`. -/
structure UpdateRefInfo (ρ : Type) where
  refspec : Option String := none
  remote : Option String := none
  ref : Option String := none
  collectionRef : Option OstreeCollectionRef := none
  results : Option (List ρ) := none
  newRefspec : Option String := none
  checksum : Option String := none
  version : Option String := none
  isUserVisible : Bool := false
  releaseNotesUri : Option String := none
  commit : Option Commit := none
deriving DecidableEq, Repr

/-- `update_ref_info_clear`, which leaves the flag as it is. -/
def UpdateRefInfo.clear (info : UpdateRefInfo ρ) : UpdateRefInfo ρ :=
  { isUserVisible := info.isUserVisible }

namespace Ostree

variable (ostree : Ostree σ ρ) (platform : Platform) (bound : ℕ)
  (finders : Option (List OstreeRepoFinder)) (info : UpdateRefInfo ρ)

/-- What `check_for_update_using_booted_branch` and `check_for_update_following_checkpoint_commits`
do once they have the booted refspec and the one to look for an update on. -/
def checkForUpdateOn (booted upgrade : Refspec) : Program σ Failure (Bool × UpdateRefInfo ρ) := do
  let latest ←
    ostree.fetchLatestCommit bound upgrade.refspec none finders upgrade.collectionRef
  let (_, newRef) ← .query fun _ => check (ostree.parseRefspec latest.newRefspec)
  let update ← .query fun s => check (ostree.isChecksumAnUpdate latest.checksum booted.ref newRef s)
  match update.commit with
  | some commit =>
      return (true, {
        refspec := some booted.refspec
        remote := some upgrade.remote
        ref := some upgrade.ref
        collectionRef := upgrade.collectionRef
        results := latest.results
        newRefspec := some latest.newRefspec
        checksum := some latest.checksum
        version := latest.version
        isUserVisible := update.isUpdateUserVisible
        releaseNotesUri := some (formatReleaseNotesUri latest.releaseNotesUriTemplate
          update.bootedVersion update.updateVersion)
        commit := some commit })
  | none => return (false, info.clear)

/-- `check_for_update_using_booted_branch`. -/
def checkForUpdateUsingBootedBranch : Program σ Failure (Bool × UpdateRefInfo ρ) := do
  let booted ← .query fun s =>
    check (ostree.getBootedRefspecFromDefaultBootedSysrootDeployment s)
  ostree.checkForUpdateOn bound finders info booted booted

/-- `check_for_update_following_checkpoint_commits`, which does not return whether there is one. -/
def checkForUpdateFollowingCheckpointCommits : Program σ Failure (UpdateRefInfo ρ) := do
  let booted ← .query fun s =>
    check (ostree.getBootedRefspecFromDefaultBootedSysrootDeployment s)
  let upgrade ← .query fun s => check (ostree.getRefspecToUpgradeOn platform s)
  let (_, info) ← ostree.checkForUpdateOn bound finders info booted upgrade
  return info

/-- `check_for_update_following_checkpoint_if_allowed`. -/
def checkForUpdateFollowingCheckpointIfAllowed : Program σ Failure (UpdateRefInfo ρ) := do
  let (hadUpdateOnBranch, info) ← ostree.checkForUpdateUsingBootedBranch bound finders info
  if hadUpdateOnBranch then return info
  else ostree.checkForUpdateFollowingCheckpointCommits platform bound finders info.clear

end Ostree

/-! ### The branch of a commit -/

/-- What the searches rely on: what is booted and the collection ids of the remotes stay the same,
and a refspec is the name of a remote and a ref, which a further ref does not change. -/
structure Ostree.Stable (ostree : Ostree σ ρ) (booted : OstreeDeployment)
    (collectionId : String → Option String) : Prop where
  bootedDeployment : ∀ s deployment, ostree.bootedDeployment s = .ok deployment →
    deployment = booted
  remoteCollectionId : ∀ s remote id, ostree.remoteCollectionId s remote = .ok id →
    id = collectionId remote
  parse_eq : ∀ refspec remote ref, ostree.parseRefspec refspec = .ok (some remote, ref) →
    refspec = remote ++ ":" ++ ref
  parse_remote : ∀ refspec remote ref, ostree.parseRefspec refspec = .ok (some remote, ref) →
    ∀ target parsed, ostree.parseRefspec (remote ++ ":" ++ target) = .ok parsed →
      parsed = (some remote, target)

namespace Ostree

/-- A remote is named in a refspec. -/
def IsRemote (ostree : Ostree σ ρ) (remote : String) : Prop :=
  ∃ refspec ref, ostree.parseRefspec refspec = .ok (some remote, ref)

/-- A branch has been rebased to another one, by what was its latest commit at some time. -/
def RebasedTo (ostree : Ostree σ ρ) (remote ref target : String) : Prop :=
  ∃ s checksum commit, ostree.resolveRev s (remote ++ ":" ++ ref) = .ok checksum ∧
    ostree.loadCommit s checksum = .ok commit ∧ commit.endoflifeRebase = some target ∧
    target ≠ ref

/-- The results of finders are for a branch; without finders there are none. -/
def FoundOn (ostree : Ostree σ ρ) (collectionId : String → Option String)
    (finders : Option (List OstreeRepoFinder)) (remote ref : String) (results : Option (List ρ)) :
    Prop :=
  match finders with
  | none => results = none
  | some finders => ∃ id found s t, collectionId remote = some id ∧
      ostree.findRemotes ⟨id, ref⟩ finders s = (.ok found, t) ∧ results = some found

/-- What `fetch_latest_commit` returns is the commit of a branch, with the refspec of the branch and
what finders found on it. -/
structure OnBranch (ostree : Ostree σ ρ) (collectionId : String → Option String)
    (finders : Option (List OstreeRepoFinder)) (remote ref : String) (latest : LatestCommit ρ)
    (s : σ) : Prop where
  newRefspec : latest.newRefspec = remote ++ ":" ++ ref
  checksum : ostree.resolveRev s (remote ++ ":" ++ ref) = .ok latest.checksum
  results : ostree.FoundOn collectionId finders remote ref latest.results

variable {ostree : Ostree σ ρ} {booted : OstreeDeployment} {collectionId : String → Option String}
  {remote start : String} {bound : ℕ} {url : Option String}
  {finders : Option (List OstreeRepoFinder)} {s t : σ}

/-- A pull returns what the finders have found. -/
theorem foundOn_of_pullLatestCommit {upgrade : UpgradeRef} {ref : String}
    {results : Option (List ρ)}
    (hend : (ostree.pullLatestCommit url finders upgrade).Ends s (.ok results) t)
    (hcollection : finders.isSome →
      upgrade.collectionRef = (collectionId remote).map (⟨·, ref⟩)) :
    ostree.FoundOn collectionId finders remote ref results := by
  cases finders with
  | none =>
      simp only [pullLatestCommit, ends_bind_ok] at hend
      obtain ⟨⟨remoteName, ref⟩, s', -, hend⟩ := hend
      cases remoteName with
      | none => simp at hend
      | some remoteName =>
          simp only [ends_bind_ok, ends_pure, Except.ok.injEq] at hend
          obtain ⟨-, -, -, hresults, -⟩ := hend
          exact hresults
  | some finders =>
      simp only [pullLatestCommit] at hend
      rw [hcollection rfl] at hend
      cases hid : collectionId remote with
      | none => simp [hid] at hend
      | some id =>
          simp only [hid, Option.map_some, ends_bind_ok, ends_perform] at hend
          obtain ⟨found, s', hfind, hrest⟩ := hend
          -- whether or not anything is pulled, the results are those that were found
          have hresults : results = some found := by
            split at hrest
            · simp only [ends_bind_ok, ends_pure, Except.ok.injEq] at hrest
              obtain ⟨-, -, -, hresults, -⟩ := hrest
              exact hresults
            · simp only [ends_pure, Except.ok.injEq] at hrest
              exact hrest.1
          refine ⟨id, found, s, s', hid, ?_, hresults⟩
          obtain ⟨hfound, hs⟩ := Prod.mk.inj hfind
          exact Prod.ext (check_ok_iff.1 hfound) hs

/-- The loop of `fetch_latest_commit` is at a branch, with its collection ref if finders need
that. -/
structure IsAt (collectionId : String → Option String) (finders : Option (List OstreeRepoFinder))
    (remote ref : String) (upgrade : UpgradeRef) : Prop where
  refspec : upgrade.refspec = remote ++ ":" ++ ref
  collectionRef : finders.isSome → upgrade.collectionRef = (collectionId remote).map (⟨·, ref⟩)

/-- What an iteration of the loop reads belongs to the branch that it is at. -/
theorem Stable.ends_step (h : ostree.Stable booted collectionId) (hremote : ostree.IsRemote remote)
    {ref : String} {upgrade : UpgradeRef} (hat : IsAt collectionId finders remote ref upgrade)
    {result : UpgradeRef ⊕ LatestCommit ρ}
    (hend : (ostree.fetchLatestCommitStep url finders upgrade).Ends s (.ok result) t) :
    ∃ results checksum, ostree.FoundOn collectionId finders remote ref results ∧
      ostree.resolveRev t (remote ++ ":" ++ ref) = .ok checksum ∧
      ∃ parsed, parsed = ParsedCommit.ofCommit remote ref checksum
          (if finders.isSome then collectionId remote else none)
          (ostree.loadCommit t checksum).toOption ∧
        result =
          if parsed.redirectFollowed then
            .inl ⟨parsed.newRefspec, parsed.newCollectionRef.or upgrade.collectionRef⟩
          else .inr ⟨results, parsed.checksum, parsed.newRefspec, parsed.version,
            parsed.releaseNotesUriTemplate⟩ := by
  obtain ⟨refspec, ref₀, hrefspec⟩ := hremote
  obtain ⟨results, parsed, hpull, hparsed, hresult⟩ := ends_fetchLatestCommitStep.1 hend
  obtain ⟨remote', ref', checksum, id, hparse, hchecksum, hid, hcommit⟩ :=
    parseLatestCommit_eq_ok.1 hparsed
  rw [hat.refspec] at hparse hchecksum
  obtain ⟨hremote', href'⟩ := Prod.mk.inj (h.parse_remote refspec remote ref₀ hrefspec ref _ hparse)
  obtain rfl := Option.some_inj.1 hremote'
  obtain rfl := href'
  obtain rfl := h.remoteCollectionId t remote' id hid
  exact ⟨results, checksum, foundOn_of_pullLatestCommit hpull hat.collectionRef, hchecksum, parsed,
    hcommit, hresult⟩

/-- An iteration that goes on is at a branch that the one before has been rebased to. -/
theorem Stable.isAt_of_step (h : ostree.Stable booted collectionId)
    (hremote : ostree.IsRemote remote) {ref : String} {upgrade upgrade' : UpgradeRef}
    (hat : IsAt collectionId finders remote ref upgrade)
    (hstep : (ostree.fetchLatestCommitStep url finders upgrade).Ends s (.ok (.inl upgrade')) t) :
    ∃ target, ostree.RebasedTo remote ref target ∧
      IsAt collectionId finders remote target upgrade' := by
  obtain ⟨results, checksum, -, hchecksum, parsed, hparsed, hresult⟩ :=
    h.ends_step hremote hat hstep
  rcases ParsedCommit.ofCommit_cases remote ref checksum
    (if finders.isSome then collectionId remote else none)
    (ostree.loadCommit t checksum).toOption with
    ⟨c, target, hc, hrebase, hne, hfollowed, hrefspec, hnew⟩ | ⟨-, hfollowed, -⟩
  -- the commit has been rebased, so the loop goes on with the target
  · rw [← hparsed] at hfollowed hrefspec hnew
    rw [if_pos hfollowed] at hresult
    obtain rfl := Sum.inl.inj hresult
    refine ⟨target, ⟨t, checksum, c, hchecksum, ?_, hrebase, hne⟩, hrefspec, fun hfinders => ?_⟩
    · exact except_toOption_eq_some.1 hc
    · show parsed.newCollectionRef.or upgrade.collectionRef = _
      rw [hnew, if_pos hfinders, hat.collectionRef hfinders]
      cases collectionId remote <;> rfl
  · rw [← hparsed] at hfollowed
    simp [hfollowed] at hresult

/-- The last iteration returns the commit of the branch that it is at. -/
theorem Stable.onBranch_of_step (h : ostree.Stable booted collectionId)
    (hremote : ostree.IsRemote remote) {ref : String} {upgrade : UpgradeRef}
    {latest : LatestCommit ρ} (hat : IsAt collectionId finders remote ref upgrade)
    (hstep : (ostree.fetchLatestCommitStep url finders upgrade).Ends s (.ok (.inr latest)) t) :
    ostree.OnBranch collectionId finders remote ref latest t := by
  obtain ⟨results, checksum, hfound, hchecksum, parsed, hparsed, hresult⟩ :=
    h.ends_step hremote hat hstep
  rcases ParsedCommit.ofCommit_cases remote ref checksum
    (if finders.isSome then collectionId remote else none)
    (ostree.loadCommit t checksum).toOption with
    ⟨c, target, -, -, -, hfollowed, -, -⟩ | ⟨-, hfollowed, hrefspec⟩
  · rw [← hparsed] at hfollowed
    simp [hfollowed] at hresult
  · rw [← hparsed] at hfollowed hrefspec
    simp only [hfollowed, Bool.false_eq_true, if_false] at hresult
    obtain rfl := Sum.inr.inj hresult
    exact ⟨hrefspec, by rw [hchecksum, hparsed]; rfl, hfound⟩

/-- **The branch.** What `fetch_latest_commit` returns belongs to one branch, which the one that it
was called for has been rebased to. -/
theorem Stable.onBranch (h : ostree.Stable booted collectionId) (hremote : ostree.IsRemote remote)
    {collectionRef : Option OstreeCollectionRef}
    (hcollection : collectionRef = (collectionId remote).map (⟨·, start⟩))
    {latest : LatestCommit ρ}
    (hend : (ostree.fetchLatestCommit bound (remote ++ ":" ++ start) url finders
      collectionRef).Ends s (.ok latest) t) :
    ∃ ref, Relation.ReflTransGen (ostree.RebasedTo remote) start ref ∧
      ostree.OnBranch collectionId finders remote ref latest t := by
  -- the invariant of the loop: it is at a branch that the start has been rebased to
  have hcontinue : ∀ upgrade s upgrade' t,
      (∃ ref, Relation.ReflTransGen (ostree.RebasedTo remote) start ref ∧
        IsAt collectionId finders remote ref upgrade) →
      (ostree.fetchLatestCommitStep url finders upgrade).Ends s (.ok (.inl upgrade')) t →
      ∃ ref, Relation.ReflTransGen (ostree.RebasedTo remote) start ref ∧
        IsAt collectionId finders remote ref upgrade' := by
    rintro upgrade s upgrade' t ⟨ref, hchain, hat⟩ hstep
    obtain ⟨target, hrebased, hat'⟩ := h.isAt_of_step hremote hat hstep
    exact ⟨target, hchain.tail hrebased, hat'⟩
  have hresult : ∀ upgrade s latest t,
      (∃ ref, Relation.ReflTransGen (ostree.RebasedTo remote) start ref ∧
        IsAt collectionId finders remote ref upgrade) →
      (ostree.fetchLatestCommitStep url finders upgrade).Ends s (.ok (.inr latest)) t →
      ∃ ref, Relation.ReflTransGen (ostree.RebasedTo remote) start ref ∧
        ostree.OnBranch collectionId finders remote ref latest t := by
    rintro upgrade s latest t ⟨ref, hchain, hat⟩ hstep
    exact ⟨ref, hchain, h.onBranch_of_step hremote hat hstep⟩
  unfold fetchLatestCommit at hend
  split at hend
  · cases (ends_throw.1 hend).1
  · exact of_loop_ends hcontinue hresult ⟨start, .refl, rfl, fun _ => hcollection⟩ hend

/-! ### What is booted -/

/-- A refspec is that of what is booted. -/
structure IsBooted (ostree : Ostree σ ρ) (booted : OstreeDeployment)
    (collectionId : String → Option String) (r : Refspec) : Prop where
  origin : booted.origin = some (.ok r.refspec)
  parse : ostree.parseRefspec r.refspec = .ok (some r.remote, r.ref)
  collectionRef : r.collectionRef = (collectionId r.remote).map (⟨·, r.ref⟩)

theorem IsBooted.unique {r r' : Refspec} (h : ostree.IsBooted booted collectionId r)
    (h' : ostree.IsBooted booted collectionId r') : r = r' := by
  obtain ⟨refspec, remote, ref, collectionRef⟩ := r
  obtain ⟨refspec', remote', ref', collectionRef'⟩ := r'
  obtain rfl : refspec = refspec' :=
    Except.ok.inj (Option.some_inj.1 (h.origin.symm.trans h'.origin))
  obtain ⟨hremote, rfl⟩ := Prod.mk.inj (Except.ok.inj (h.parse.symm.trans h'.parse))
  obtain rfl := Option.some_inj.1 hremote
  obtain rfl := h.collectionRef.trans h'.collectionRef.symm
  rfl

/-- The refspec that is read is the booted one. -/
theorem Stable.getBootedRefspec (h : ostree.Stable booted collectionId) {r : Refspec}
    (hr : ostree.getBootedRefspec booted s = .ok r) : ostree.IsBooted booted collectionId r := by
  unfold Ostree.getBootedRefspec at hr
  cases horigin : booted.origin with
  | none => simp [horigin] at hr
  | some origin =>
      rw [horigin] at hr
      obtain ⟨refspec, hrefspec, hrest⟩ := except_bind_ok.1 hr
      obtain ⟨⟨remote, ref⟩, hparse, hrest⟩ := except_bind_ok.1 hrest
      cases remote with
      | none => cases hrest
      | some remote =>
          obtain ⟨-, -, hrest⟩ := except_bind_ok.1 hrest
          obtain ⟨id, hid, hrest⟩ := except_bind_ok.1 hrest
          obtain rfl := h.remoteCollectionId s remote id hid
          obtain rfl := Except.ok.inj hrest
          exact ⟨horigin.trans (congrArg some hrefspec), hparse, rfl⟩

/-- The refspec that is read from the default deployment is the booted one. -/
theorem Stable.getBootedRefspecFromDefault (h : ostree.Stable booted collectionId) {r : Refspec}
    (hr : ostree.getBootedRefspecFromDefaultBootedSysrootDeployment s = .ok r) :
    ostree.IsBooted booted collectionId r := by
  obtain ⟨deployment, hdeployment, hr⟩ := except_bind_ok.1 hr
  obtain rfl := h.bootedDeployment s deployment hdeployment
  exact h.getBootedRefspec hr

/-- The checkpoint of the booted commit points to a ref, and may be followed. -/
def AllowsCheckpoint (ostree : Ostree σ ρ) (platform : Platform) (booted : OstreeDeployment)
    (bootedRef ref : String) (s : σ) : Prop :=
  ∃ commit, ostree.loadCommit s booted.csum = .ok commit ∧
    ostree.checkpointRef commit = some ref ∧
    shouldFollowCheckpoint platform bootedRef ref = .ok ()

/-- The refspec to upgrade on is the booted one, or the one that the checkpoint points to. -/
theorem Stable.getRefspecToUpgradeOn (h : ostree.Stable booted collectionId)
    {platform : Platform} {b r : Refspec} (hb : ostree.IsBooted booted collectionId b)
    (hr : ostree.getRefspecToUpgradeOn platform s = .ok r) :
    r = b ∨ ∃ ref, ostree.AllowsCheckpoint platform booted b.ref ref s ∧
      r = ⟨b.remote ++ ":" ++ ref, b.remote, ref, (collectionId b.remote).map (⟨·, ref⟩)⟩ := by
  obtain ⟨deployment, hdeployment, hr⟩ := except_bind_ok.1 hr
  obtain rfl := h.bootedDeployment s deployment hdeployment
  obtain ⟨b', hb', hr⟩ := except_bind_ok.1 hr
  obtain rfl := hb.unique (h.getBootedRefspec hb')
  obtain ⟨checkpoint, hcheckpoint, hr⟩ := except_bind_ok.1 hr
  obtain ⟨-, -, hcheckpoint⟩ := except_bind_ok.1 hcheckpoint
  obtain rfl := Except.ok.inj hcheckpoint
  split at hr
  · next ref href =>
      obtain rfl := Except.ok.inj hr
      obtain ⟨href, hallowed⟩ := Option.filter_eq_some_iff.1 href
      obtain ⟨commit, hcommit, href⟩ := Option.bind_eq_some_iff.1 href
      refine Or.inr ⟨ref, ⟨commit, except_toOption_eq_some.1 hcommit, href, ?_⟩, ?_⟩
      · cases hfollow : shouldFollowCheckpoint platform b.ref ref with
        | error block => simp [hfollow, Except.isOk, Except.toBool] at hallowed
        | ok _ => rfl
      -- the remote is the booted one, so its collection id is
      · rw [hb.collectionRef]
        cases collectionId b.remote <;> rfl
  · obtain rfl := Except.ok.inj hr
    exact Or.inl rfl

/-! ### What is offered -/

/-- A commit that is an update is not booted and, on the same branch, newer than what is, unless
what is booted cannot be loaded. -/
theorem Stable.isChecksumAnUpdate (h : ostree.Stable booted collectionId)
    {updateChecksum bootedRef updateRef : String} {update : ChecksumUpdate} {commit : Commit}
    (hupdate : ostree.isChecksumAnUpdate updateChecksum bootedRef updateRef s = .ok update)
    (hcommit : update.commit = some commit) :
    updateChecksum ≠ booted.csum ∧ ostree.loadCommit s updateChecksum = .ok commit ∧
      (updateRef ≠ bootedRef ∨
        (∃ current, ostree.loadCommit s booted.csum = .ok current ∧
          current.timestamp < commit.timestamp) ∨
        ∃ e, ostree.loadCommit s booted.csum = .error e) := by
  obtain ⟨bootedChecksum, hbooted, hupdate⟩ := except_bind_ok.1 hupdate
  obtain ⟨deployment, hdeployment, hcsum⟩ := except_bind_ok.1 hbooted
  obtain rfl := h.bootedDeployment s deployment hdeployment
  obtain rfl := Except.ok.inj hcsum
  split at hupdate
  · obtain rfl := Except.ok.inj hupdate
    cases hcommit
  · next hne =>
    obtain ⟨loaded, hloaded, hupdate⟩ := except_bind_ok.1 hupdate
    refine ⟨fun heq => hne heq.symm, ?_⟩
    split at hupdate
    -- what is booted cannot be loaded, and anything else is taken for newer
    · next e hload =>
      obtain rfl := Except.ok.inj hupdate
      obtain rfl := Option.some_inj.1 hcommit
      exact ⟨hloaded, Or.inr (Or.inr ⟨e, hload⟩)⟩
    · next current hload =>
      obtain rfl := Except.ok.inj hupdate
      simp only [compareCommits] at hcommit
      split at hcommit
      · next hnewer =>
        obtain rfl := Option.some_inj.1 hcommit
        refine ⟨hloaded, hnewer.imp Ne.symm fun hlt => Or.inl ⟨current, hload, hlt⟩⟩
      · cases hcommit

/-- An update that is offered, from what is booted: it is on the branch `ref`, that the branch
`start` has been rebased to, and what is offered is its latest commit. -/
structure Offers (ostree : Ostree σ ρ) (booted : OstreeDeployment)
    (collectionId : String → Option String) (finders : Option (List OstreeRepoFinder))
    (b : Refspec) (start ref : String) (info : UpdateRefInfo ρ) (commit : Commit) (s : σ) :
    Prop where
  isBooted : ostree.IsBooted booted collectionId b
  rebased : Relation.ReflTransGen (ostree.RebasedTo b.remote) start ref
  checksum : ∃ checksum, info.checksum = some checksum ∧ checksum ≠ booted.csum ∧
    ostree.resolveRev s (b.remote ++ ":" ++ ref) = .ok checksum ∧
    ostree.loadCommit s checksum = .ok commit
  newer : ref ≠ b.ref ∨
    (∃ current, ostree.loadCommit s booted.csum = .ok current ∧
      current.timestamp < commit.timestamp) ∨
    ∃ e, ostree.loadCommit s booted.csum = .error e
  oldRefspec : info.refspec = some b.refspec
  newRefspec : info.newRefspec = some (b.remote ++ ":" ++ ref)
  remote : info.remote = some b.remote
  results : ostree.FoundOn collectionId finders b.remote ref info.results

/-- **One search.** What it finds is offered, on a branch that the one to upgrade on has been
rebased to. -/
theorem Stable.offers_of_checkForUpdateOn (h : ostree.Stable booted collectionId)
    {b upgrade : Refspec} (hb : ostree.IsBooted booted collectionId b)
    (hrefspec : upgrade.refspec = upgrade.remote ++ ":" ++ upgrade.ref)
    (hremote : upgrade.remote = b.remote)
    (hcollection : upgrade.collectionRef = (collectionId upgrade.remote).map (⟨·, upgrade.ref⟩))
    {info info' : UpdateRefInfo ρ} {found : Bool}
    (hend : (ostree.checkForUpdateOn bound finders info b upgrade).Ends s (.ok (found, info')) t) :
    info'.commit.isSome = found ∧ ∀ commit, info'.commit = some commit →
      ∃ ref, ostree.Offers booted collectionId finders b upgrade.ref ref info' commit t := by
  simp only [checkForUpdateOn, ends_bind_ok, ends_query] at hend
  obtain ⟨latest, s₁, hfetch, ⟨_, newRef⟩, s₂, ⟨hparse, rfl⟩, update, s₃, ⟨hupdate, rfl⟩,
    hresult⟩ := hend
  have hparse := check_ok_iff.1 hparse.symm
  have hupdate := check_ok_iff.1 hupdate.symm
  rw [hrefspec] at hfetch
  obtain ⟨ref, hrebased, hrefspec', hchecksum, hresults⟩ :=
    h.onBranch ⟨_, _, hremote ▸ hb.parse⟩ hcollection hfetch
  -- the refspec that is returned is parsed again, which gives the ref of the last branch
  rw [hrefspec', hremote] at hparse
  obtain ⟨-, rfl⟩ := Prod.mk.inj (h.parse_remote _ _ _ hb.parse ref _ hparse)
  rw [hremote] at hrebased hrefspec' hchecksum hresults
  split at hresult
  · next commit hcommit =>
    obtain ⟨heq, rfl⟩ := ends_pure.1 hresult
    obtain ⟨rfl, rfl⟩ := Prod.mk.inj (Except.ok.inj heq)
    refine ⟨rfl, fun commit' hcommit' => ?_⟩
    obtain rfl := Option.some_inj.1 hcommit'
    obtain ⟨hne, hload, hnewer⟩ := h.isChecksumAnUpdate hupdate hcommit
    exact ⟨newRef, hb, hrebased, ⟨latest.checksum, rfl, hne, hchecksum, hload⟩, hnewer, rfl,
      congrArg some hrefspec', congrArg some hremote, hresults⟩
  · obtain ⟨heq, rfl⟩ := ends_pure.1 hresult
    obtain ⟨rfl, rfl⟩ := Prod.mk.inj (Except.ok.inj heq)
    exact ⟨rfl, fun _ hcommit' => by cases hcommit'⟩

/-- **What a poll offers.** It is not what is booted, and no downgrade on the same branch; it
belongs to one branch; and this is the booted branch or one that it has been rebased to, unless a
search of these had found nothing and the system may follow the checkpoint of the booted commit. -/
theorem Stable.offers_of_ends (h : ostree.Stable booted collectionId) {platform : Platform}
    {info info' : UpdateRefInfo ρ} {commit : Commit}
    (hend : (ostree.checkForUpdateFollowingCheckpointIfAllowed platform bound finders info).Ends s
      (.ok info') t)
    (hcommit : info'.commit = some commit) :
    ∃ b start ref, ostree.Offers booted collectionId finders b start ref info' commit t ∧
      (start = b.ref ∨
        ∃ s₁ info₁, (ostree.checkForUpdateUsingBootedBranch bound finders info).Ends s
            (.ok (false, info₁)) s₁ ∧
          ostree.AllowsCheckpoint platform booted b.ref start s₁) := by
  simp only [checkForUpdateFollowingCheckpointIfAllowed, ends_bind_ok] at hend
  obtain ⟨⟨found, info₁⟩, s₁, hbranch, hrest⟩ := hend
  cases found with
  | true =>
      obtain ⟨heq, rfl⟩ := ends_pure.1 hrest
      obtain rfl := Except.ok.inj heq
      -- found on the booted branch, or where that has been rebased to
      simp only [checkForUpdateUsingBootedBranch, ends_bind_ok, ends_query] at hbranch
      obtain ⟨b, s', ⟨hbooted, rfl⟩, hsearch⟩ := hbranch
      have hb := h.getBootedRefspecFromDefault (check_ok_iff.1 hbooted.symm)
      obtain ⟨ref, hoffers⟩ := (h.offers_of_checkForUpdateOn hb (h.parse_eq _ _ _ hb.parse) rfl
        hb.collectionRef hsearch).2 commit hcommit
      exact ⟨b, b.ref, ref, hoffers, Or.inl rfl⟩
  | false =>
      -- nothing found there: search again, where the checkpoint may lead elsewhere
      simp only [Bool.false_eq_true, if_false, checkForUpdateFollowingCheckpointCommits,
        ends_bind_ok, ends_query] at hrest
      obtain ⟨b, s', ⟨hbooted, rfl⟩, upgrade, s'', ⟨hupgrade, rfl⟩, ⟨found, info₂⟩, s₂, hsearch,
        hresult⟩ := hrest
      obtain ⟨heq, rfl⟩ := ends_pure.1 hresult
      obtain rfl := Except.ok.inj heq
      have hb := h.getBootedRefspecFromDefault (check_ok_iff.1 hbooted.symm)
      rcases h.getRefspecToUpgradeOn hb (check_ok_iff.1 hupgrade.symm) with
        rfl | ⟨ref, hallowed, rfl⟩
      · obtain ⟨ref, hoffers⟩ := (h.offers_of_checkForUpdateOn hb (h.parse_eq _ _ _ hb.parse) rfl
          hb.collectionRef hsearch).2 commit hcommit
        exact ⟨_, _, ref, hoffers, Or.inl rfl⟩
      · obtain ⟨ref', hoffers⟩ : ∃ ref', ostree.Offers booted collectionId finders b ref ref' info'
            commit t := by
          refine (h.offers_of_checkForUpdateOn hb ?_ ?_ ?_ hsearch).2 commit hcommit <;> rfl
        exact ⟨b, ref, ref', hoffers, Or.inr ⟨_, info₁, hbranch, hallowed⟩⟩

end Ostree

/-- A refspec that is split is put together again, and its remote has no colon. -/
private theorem splitRefspec_eq_some {refspec remote ref : String}
    (h : splitRefspec refspec = (some remote, ref)) :
    refspec = remote ++ ":" ++ ref ∧ ':' ∉ remote.toList := by
  unfold splitRefspec at h
  rw [List.span_eq_takeWhile_dropWhile] at h
  split at h
  · next before c after hspan =>
    obtain ⟨hbefore, hafter⟩ := Prod.mk.inj hspan
    obtain ⟨hremote, rfl⟩ := Prod.mk.inj h
    obtain rfl := Option.some_inj.1 hremote
    have hcolon := List.head?_dropWhile_not (· != ':') refspec.toList
    have hall := refspec.toList.takeWhile_append_dropWhile (p := (· != ':'))
    rw [hafter] at hcolon hall
    rw [hbefore] at hall
    obtain rfl : c = ':' := by simpa using hcolon
    refine ⟨?_, fun hmem => ?_⟩
    · apply String.toList_inj.1
      simp [← hall]
    · rw [String.toList_ofList, ← hbefore] at hmem
      simpa using List.mem_takeWhile_imp hmem
  · cases (Prod.mk.inj h).1

private theorem splitRefspec_append {remote target : String} (h : ':' ∉ remote.toList) :
    splitRefspec (remote ++ ":" ++ target) = (some remote, target) := by
  have hpass : ∀ c ∈ remote.toList, (c != ':') = true := by
    intro c hc
    rw [bne_iff_ne]
    rintro rfl
    exact h hc
  have hspan : (remote ++ ":" ++ target).toList.span (· != ':') =
      (remote.toList, ':' :: target.toList) := by
    rw [List.span_eq_takeWhile_dropWhile, String.toList_append, String.toList_append,
      List.append_assoc, List.takeWhile_append_of_pos hpass, List.dropWhile_append_of_pos hpass]
    simp
  rw [splitRefspec, hspan]
  simp

/-- The mirror of some branches is stable. -/
private theorem mirrorOf_stable (branches : Branches) (booted : OstreeDeployment) :
    (mirrorOf branches (some booted)).Stable booted fun _ => some "com.example.Os" where
  bootedDeployment _ _ h := (Except.ok.inj h).symm
  remoteCollectionId _ _ _ h := (Except.ok.inj h).symm
  parse_eq _ _ _ h := (splitRefspec_eq_some (Except.ok.inj h)).1
  parse_remote _ _ _ h _ _ h' := (Except.ok.inj h').symm.trans
    (splitRefspec_append (splitRefspec_eq_some (Except.ok.inj h)).2)

/-- A search that evaluates to an update ends with it. -/
private theorem exists_info_of_run {search : Program Unit Failure (UpdateRefInfo Unit)}
    {checksum : String}
    (h : (search.run.run ()).bind (fun run =>
      run.1.toOption.map fun info => (info.checksum, info.commit.isSome)) =
        some (some checksum, true)) :
    ∃ info commit t, search.Ends () (.ok info) t ∧ info.checksum = some checksum ∧
      info.commit = some commit := by
  obtain ⟨⟨result, t⟩, hend, hresult⟩ := Option.bind_eq_some_iff.1 h
  obtain ⟨info, hinfo, hpair⟩ := Option.map_eq_some_iff.1 hresult
  obtain ⟨hchecksum, hsome⟩ := Prod.mk.inj hpair
  obtain ⟨commit, hcommit⟩ := Option.isSome_iff_exists.1 hsome
  obtain rfl := except_toOption_eq_some.1 hinfo
  exact ⟨info, commit, t, hend, hchecksum, hcommit⟩

/-- A remote with two branches that have not been rebased, where the latest commit of `eos3` is a
checkpoint that leads to `eos4`. -/
def checkpointBranches : Branches where
  refs := {"eos3", "eos4"}
  checksum ref := ref
  commit ref :=
    { subject := "", body := "", timestamp := 0, endoflifeRebase := none, version := some ref
      releaseNotesUri := none
      checkpointTarget := if ref = "eos3" then some "eos:eos4" else none }
  closed _ _ _ htarget := by cases htarget

/-- On a system that has booted an old commit of `eos3`, which has been rebased to `eos4`, the
latest commit of `eos4` is offered. On one that has booted the checkpoint of `eos3`, nothing is
found on this branch, and the checkpoint is followed to `eos4`. -/
theorem twoBranches_offered :
    (∃ (info : UpdateRefInfo Unit) (commit : Commit) (b : Refspec) (start ref : String),
      info.checksum = some "eos4" ∧
      (mirrorOf (twoBranches false) (some ⟨"eos", "old", some (.ok "eos:eos3")⟩)).Offers
        ⟨"eos", "old", some (.ok "eos:eos3")⟩ (fun _ => some "com.example.Os") (some [.config]) b
        start ref info commit ()) ∧
    let booted : OstreeDeployment := ⟨"eos", "eos3", some (.ok "eos:eos3")⟩
    let ostree := mirrorOf checkpointBranches (some booted)
    ∃ (info info₁ : UpdateRefInfo Unit) (commit : Commit) (b : Refspec) (ref : String),
      info.checksum = some "eos4" ∧
      ostree.Offers booted (fun _ => some "com.example.Os") (some [.config]) b "eos4" ref info
        commit () ∧
      (ostree.checkForUpdateUsingBootedBranch 2 (some [.config]) {}).Ends ()
        (.ok (false, info₁)) () ∧
      ostree.AllowsCheckpoint ⟨none, .ok []⟩ booted b.ref "eos4" () := by
  refine ⟨?_, ?_⟩
  · have hoffered : (((mirrorOf (twoBranches false)
        (some ⟨"eos", "old", some (.ok "eos:eos3")⟩)).checkForUpdateFollowingCheckpointIfAllowed
          ⟨none, .ok []⟩ 2 (some [.config]) {}).run.run ()).bind
            (fun run => run.1.toOption.map fun info => (info.checksum, info.commit.isSome)) =
        some (some "eos4", true) := by decide +kernel
    obtain ⟨info, commit, t, hend, hchecksum, hcommit⟩ := exists_info_of_run hoffered
    obtain ⟨b, start, ref, hoffers, -⟩ := (mirrorOf_stable _ _).offers_of_ends hend hcommit
    exact ⟨info, commit, b, start, ref, hchecksum, hoffers⟩
  · intro booted ostree
    have hoffered : ((ostree.checkForUpdateFollowingCheckpointIfAllowed ⟨none, .ok []⟩ 2
        (some [.config]) {}).run.run ()).bind
          (fun run => run.1.toOption.map fun info => (info.checksum, info.commit.isSome)) =
        some (some "eos4", true) := by decide +kernel
    obtain ⟨info, commit, t, hend, hchecksum, hcommit⟩ := exists_info_of_run hoffered
    obtain ⟨b, start, ref, hoffers, hstart⟩ := (mirrorOf_stable _ _).offers_of_ends hend hcommit
    have horigin : "eos:eos3" = b.refspec :=
      Except.ok.inj (Option.some_inj.1 hoffers.isBooted.origin)
    have hparse := hoffers.isBooted.parse
    rw [← horigin] at hparse
    obtain ⟨hremote, href⟩ : some "eos" = some b.remote ∧ "eos3" = b.ref :=
      Prod.mk.inj (Except.ok.inj hparse)
    rcases hstart with rfl | ⟨s₁, info₁, hsearch, hallows⟩
    · -- no branch has been rebased, and the latest commit of `eos3` is booted
      obtain ⟨checksum, hinfo, hne, hresolve, -⟩ := hoffers.checksum
      have hstay : b.ref = ref := by
        refine hoffers.rebased.cases_head.resolve_right ?_
        rintro ⟨target, ⟨_, _, commit, -, hload, hrebase, -⟩, -⟩
        obtain rfl := Except.ok.inj hload
        cases hrebase
      rw [← hstay, ← href, ← Option.some_inj.1 hremote] at hresolve
      exact absurd (Except.ok.inj hresolve).symm hne
    · obtain ⟨current, hload, hcheckpoint, -⟩ := id hallows
      obtain rfl := Except.ok.inj hload
      obtain rfl : "eos4" = start := Option.some_inj.1 hcheckpoint
      exact ⟨info, info₁, commit, b, ref, hchecksum, hoffers, hsearch, hallows⟩

end Updater
