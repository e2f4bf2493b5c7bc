import EosUpdater.Updater.Ostree
import Mathlib.Data.Set.Finite.Basic

/-!
# Following rebases

A commit can say in its metadata that its branch has been rebased to another one.
`fetchLatestCommit` pulls the latest commit of a branch, and as long as this has been rebased to
another branch, that of the other branch. It recognises a branch that has been rebased to itself,
and no other loop.
-/

namespace Updater

open Euu Machine Machine.Program

variable {σ ρ : Type}

/-! ### The code -/

/-- What `parse_latest_commit` returns. -/
structure ParsedCommit where
  redirectFollowed : Bool
  checksum : String
  newRefspec : String
  newCollectionRef : Option OstreeCollectionRef
  version : Option String
  releaseNotesUriTemplate : Option String
deriving DecidableEq, Repr

/-- The end of `parse_latest_commit`, for a commit of a branch that may be missing: it is then
assumed not to have been rebased. -/
def ParsedCommit.ofCommit (remoteName ref checksum : String) (collectionId : Option String)
    (commit : Option Commit) : ParsedCommit :=
  let rebase := (commit.bind (·.endoflifeRebase)).filter (· ≠ ref)
  { redirectFollowed := rebase.isSome
    checksum
    newRefspec := remoteName ++ ":" ++ rebase.getD ref
    newCollectionRef := collectionId.map (⟨·, rebase.getD ref⟩)
    version := commit.bind (·.version)
    releaseNotesUriTemplate := commit.bind (·.releaseNotesUri) }

/-- `parse_latest_commit`. The collection ref is returned only if it is asked for. -/
def Ostree.parseLatestCommit (ostree : Ostree σ ρ) (refspec : String) (wantsCollectionRef : Bool)
    (s : σ) : Except Failure ParsedCommit := do
  let (remoteName, ref) ← check (ostree.parseRefspec refspec)
  let some remoteName := remoteName | throw .aborted
  let checksum ← check (ostree.resolveRev s refspec)
  let collectionId ← check (ostree.remoteCollectionId s remoteName)
  return .ofCommit remoteName ref checksum (if wantsCollectionRef then collectionId else none)
    (ostree.loadCommit s checksum).toOption

/-- `get_repo_pull_options`. -/
def getRepoPullOptions (urlOverride : Option String) (ref : String) : RepoPullOptions where
  overrideUrl := urlOverride
  flags := .commitOnly
  refs := [ref]

/-- What `fetch_latest_commit` returns. -/
structure LatestCommit (ρ : Type) where
  results : Option (List ρ)
  checksum : String
  newRefspec : String
  version : Option String
  releaseNotesUriTemplate : Option String
deriving DecidableEq, Repr

/-- The branch that the loop of `fetch_latest_commit` is at. -/
structure UpgradeRef where
  refspec : String
  collectionRef : Option OstreeCollectionRef
deriving DecidableEq, Repr

/-- The first half of the loop of `fetch_latest_commit`: pull the commit, from the remote itself
without finders, and else from the remotes that they find. -/
def Ostree.pullLatestCommit (ostree : Ostree σ ρ) (urlOverride : Option String)
    (finders : Option (List OstreeRepoFinder)) (upgrade : UpgradeRef) :
    Program σ Failure (Option (List ρ)) :=
  match finders with
  | none => do
      let (remoteName, ref) ← .query fun _ => check (ostree.parseRefspec upgrade.refspec)
      let some remoteName := remoteName | throw .aborted
      .perform fun s =>
        (ostree.pullWithOptions remoteName (getRepoPullOptions urlOverride ref) s).map check id
      return none
  | some finders => do
      let some collectionRef := upgrade.collectionRef | throw .aborted
      let results ← .perform fun s => (ostree.findRemotes collectionRef finders s).map check id
      -- there is nothing to be pulled if no remote has the ref
      if results ≠ [] then
        .perform fun s => (ostree.pullFromRemotes results .commitOnly s).map check id
      return some results

/-- The loop of `fetch_latest_commit`. -/
def Ostree.fetchLatestCommitStep (ostree : Ostree σ ρ) (urlOverride : Option String)
    (finders : Option (List OstreeRepoFinder)) (upgrade : UpgradeRef) :
    Program σ Failure (UpgradeRef ⊕ LatestCommit ρ) := do
  let results ← ostree.pullLatestCommit urlOverride finders upgrade
  let parsed ← .query (ostree.parseLatestCommit upgrade.refspec finders.isSome)
  if parsed.redirectFollowed then
    return .inl ⟨parsed.newRefspec, parsed.newCollectionRef.or upgrade.collectionRef⟩
  else
    return .inr ⟨results, parsed.checksum, parsed.newRefspec, parsed.version,
      parsed.releaseNotesUriTemplate⟩

/-- `fetch_latest_commit`, with a bound on the iterations of its loop. -/
def Ostree.fetchLatestCommit (ostree : Ostree σ ρ) (bound : ℕ) (refspec : String)
    (urlOverride : Option String) (finders : Option (List OstreeRepoFinder))
    (collectionRef : Option OstreeCollectionRef) : Program σ Failure (LatestCommit ρ) :=
  if finders.isSome ∧ collectionRef = none then
    throw (.error ⟨.other "g-io-error-quark" 15,
      "No collection ID set for currently booted deployment."⟩)
  else .loop (ostree.fetchLatestCommitStep urlOverride finders) bound ⟨refspec, collectionRef⟩

/-- A commit of a branch leads to the branch that it has been rebased to, or stays with its own. -/
theorem ParsedCommit.ofCommit_cases (remote ref checksum : String) (collectionId : Option String)
    (commit : Option Commit) :
    (∃ c target, commit = some c ∧ c.endoflifeRebase = some target ∧ target ≠ ref ∧
      (ofCommit remote ref checksum collectionId commit).redirectFollowed = true ∧
      (ofCommit remote ref checksum collectionId commit).newRefspec = remote ++ ":" ++ target ∧
      (ofCommit remote ref checksum collectionId commit).newCollectionRef =
        collectionId.map (⟨·, target⟩)) ∨
    (∀ c, commit = some c → ∀ target, c.endoflifeRebase = some target → target = ref) ∧
      (ofCommit remote ref checksum collectionId commit).redirectFollowed = false ∧
      (ofCommit remote ref checksum collectionId commit).newRefspec = remote ++ ":" ++ ref := by
  have hnone (h : (commit.bind (·.endoflifeRebase)).filter (· ≠ ref) = none) :
      (ofCommit remote ref checksum collectionId commit).redirectFollowed = false ∧
        (ofCommit remote ref checksum collectionId commit).newRefspec = remote ++ ":" ++ ref := by
    simp only [ofCommit, h]
    exact ⟨rfl, rfl⟩
  cases commit with
  | none => exact Or.inr ⟨nofun, hnone rfl⟩
  | some c =>
      cases hrebase : c.endoflifeRebase with
      | none =>
          refine Or.inr ⟨fun c' hc target htarget => ?_, hnone (by simp [hrebase])⟩
          cases hc
          exact absurd (hrebase.symm.trans htarget) nofun
      | some target =>
          -- a rebase to the branch itself is ignored
          by_cases hself : target = ref
          · refine Or.inr ⟨fun c' hc target' htarget => ?_, hnone (by simp [hrebase, hself])⟩
            cases hc
            exact (Option.some_inj.1 (htarget.symm.trans hrebase)).trans hself
          · have hfilter : ((some c).bind (·.endoflifeRebase)).filter (· ≠ ref) = some target := by
              simp [hrebase, hself]
            refine Or.inl ⟨c, target, rfl, hrebase, hself, ?_⟩
            simp only [ofCommit, hfilter]
            exact ⟨rfl, rfl, rfl⟩

/-- What `parse_latest_commit` reads. -/
theorem Ostree.parseLatestCommit_eq_ok {ostree : Ostree σ ρ} {refspec : String}
    {wantsCollectionRef : Bool} {s : σ} {parsed : ParsedCommit} :
    ostree.parseLatestCommit refspec wantsCollectionRef s = .ok parsed ↔
      ∃ remote ref checksum collectionId, ostree.parseRefspec refspec = .ok (some remote, ref) ∧
        ostree.resolveRev s refspec = .ok checksum ∧
        ostree.remoteCollectionId s remote = .ok collectionId ∧
        parsed = .ofCommit remote ref checksum (if wantsCollectionRef then collectionId else none)
          (ostree.loadCommit s checksum).toOption := by
  unfold parseLatestCommit
  show Except.bind _ _ = _ ↔ _
  rw [except_bind_ok]
  constructor
  · rintro ⟨⟨remoteName, ref⟩, hparse, h⟩
    cases remoteName with
    | none => cases h
    | some remote =>
        obtain ⟨checksum, hchecksum, h⟩ := except_bind_ok.1 h
        obtain ⟨collectionId, hcollection, h⟩ := except_bind_ok.1 h
        exact ⟨remote, ref, checksum, collectionId, check_ok_iff.1 hparse,
          check_ok_iff.1 hchecksum, check_ok_iff.1 hcollection, (Except.ok.inj h).symm⟩
  · rintro ⟨remote, ref, checksum, collectionId, hparse, hchecksum, hcollection, rfl⟩
    exact ⟨(some remote, ref), check_ok_iff.2 hparse, except_bind_ok.2 ⟨checksum,
      check_ok_iff.2 hchecksum, except_bind_ok.2 ⟨collectionId, check_ok_iff.2 hcollection, rfl⟩⟩⟩

/-- An iteration of the loop pulls and parses a commit, and goes on if this has been rebased. -/
theorem Ostree.ends_fetchLatestCommitStep {ostree : Ostree σ ρ} {url : Option String}
    {finders : Option (List OstreeRepoFinder)} {upgrade : UpgradeRef}
    {result : UpgradeRef ⊕ LatestCommit ρ} {s t : σ} :
    (ostree.fetchLatestCommitStep url finders upgrade).Ends s (.ok result) t ↔
      ∃ results parsed, (ostree.pullLatestCommit url finders upgrade).Ends s (.ok results) t ∧
        ostree.parseLatestCommit upgrade.refspec finders.isSome t = .ok parsed ∧
        result =
          if parsed.redirectFollowed then
            .inl ⟨parsed.newRefspec, parsed.newCollectionRef.or upgrade.collectionRef⟩
          else .inr ⟨results, parsed.checksum, parsed.newRefspec, parsed.version,
            parsed.releaseNotesUriTemplate⟩ := by
  simp only [fetchLatestCommitStep, ends_bind_ok, ends_query]
  constructor
  · rintro ⟨results, t', hpull, parsed, t'', ⟨hparsed, rfl⟩, hresult⟩
    split at hresult <;> next hfollowed =>
      obtain ⟨heq, rfl⟩ := ends_pure.1 hresult
      cases heq
      exact ⟨results, parsed, hpull, hparsed.symm, by simp [hfollowed]⟩
  · rintro ⟨results, parsed, hpull, hparsed, rfl⟩
    refine ⟨results, t, hpull, parsed, t, ⟨hparsed.symm, rfl⟩, ?_⟩
    split <;> exact ends_pure.2 ⟨rfl, rfl⟩

/-- Unless finders have no collection ref to look for, the loop is all there is. -/
theorem Ostree.fetchLatestCommit_eq_loop {ostree : Ostree σ ρ} {bound : ℕ} {refspec : String}
    {url : Option String} {finders : Option (List OstreeRepoFinder)}
    {collectionRef : Option OstreeCollectionRef}
    (hcollection : finders.isSome → collectionRef ≠ none) :
    ostree.fetchLatestCommit bound refspec url finders collectionRef =
      .loop (ostree.fetchLatestCommitStep url finders) bound ⟨refspec, collectionRef⟩ :=
  if_neg fun h => hcollection h.1 h.2

/-! ### Branches -/

/-- The latest commits of finitely many branches. A branch is only rebased to another one of
these. -/
structure Branches where
  refs : Finset String
  checksum : String → String
  commit : String → Commit
  closed : ∀ ref ∈ refs, ∀ target, (commit ref).endoflifeRebase = some target → target ∈ refs

namespace Branches

variable (branches : Branches)

/-- A branch has been rebased to another one. -/
def RebasedTo (ref target : String) : Prop :=
  (branches.commit ref).endoflifeRebase = some target ∧ target ≠ ref

/-- The last branch of the chain of rebases from a branch: it has not been rebased, or to itself. -/
def Last (start last : String) : Prop :=
  Relation.ReflTransGen branches.RebasedTo start last ∧ ∀ target, ¬ branches.RebasedTo last target

/-- The chain of rebases from a branch runs into a cycle, of two branches or more as no branch has
been rebased to itself here. -/
def RunsIntoCycle (start : String) : Prop :=
  ∃ ref, Relation.ReflTransGen branches.RebasedTo start ref ∧
    Relation.TransGen branches.RebasedTo ref ref

/-- A branch is rebased to one branch at most. -/
theorem rebasedTo_rightUnique : Relator.RightUnique branches.RebasedTo :=
  fun _ _ _ h h' => Option.some_inj.1 (h.1.symm.trans h'.1)

variable {branches} in
/-- Every branch of the chain has a latest commit. -/
theorem mem_refs {start ref : String} (hstart : start ∈ branches.refs)
    (h : Relation.ReflTransGen branches.RebasedTo start ref) : ref ∈ branches.refs := by
  induction h with
  | refl => exact hstart
  -- a branch is only rebased to one that has a latest commit itself
  | tail _ hstep ih => exact branches.closed _ ih _ hstep.1

variable {branches} in
/-- The chain has a last branch unless it runs into a cycle. -/
theorem exists_last_iff {start : String} (hstart : start ∈ branches.refs) :
    (∃ last, branches.Last start last) ↔ ¬ branches.RunsIntoCycle start :=
  exists_end_iff_no_cycle branches.rebasedTo_rightUnique
    (branches.refs.finite_toSet.subset fun _ h => mem_refs hstart h)

/-- What `fetch_latest_commit` returns for a branch. -/
def Describes (remote ref : String) (latest : LatestCommit ρ) : Prop :=
  latest.checksum = branches.checksum ref ∧
    latest.newRefspec = remote ++ ":" ++ ref ∧
    latest.version = (branches.commit ref).version ∧
    latest.releaseNotesUriTemplate = (branches.commit ref).releaseNotesUri

/-- The loop is at a branch, with its collection ref if finders need that. -/
structure IsAt (remote : String) (collectionId : Option String) (wantsCollectionRef : Bool)
    (ref : String) (upgrade : UpgradeRef) : Prop where
  mem : ref ∈ branches.refs
  refspec : upgrade.refspec = remote ++ ":" ++ ref
  collectionRef : wantsCollectionRef → ∃ id, collectionId = some id ∧
    upgrade.collectionRef = some ⟨id, ref⟩

variable {branches} in

/-- Where a collection ref is wanted, there is one. -/
theorem IsAt.hasCollectionRef {remote : String} {collectionId : Option String}
    {wantsCollectionRef : Bool} {ref : String} {upgrade : UpgradeRef}
    (h : branches.IsAt remote collectionId wantsCollectionRef ref upgrade)
    (hwants : wantsCollectionRef) : upgrade.collectionRef ≠ none := by
  obtain ⟨id, -, hcollection⟩ := h.collectionRef hwants
  simp [hcollection]

end Branches

/-- The repository has the latest commit of a branch. -/
def Ostree.Holds (ostree : Ostree σ ρ) (branches : Branches) (remote ref : String) (s : σ) : Prop :=
  ostree.resolveRev s (remote ++ ":" ++ ref) = .ok (branches.checksum ref) ∧
    ostree.loadCommit s (branches.checksum ref) = .ok (branches.commit ref)

/-- A remote serves branches: every pull succeeds, and then the repository has the latest commit of
the branch. A refspec is read as the name of the remote and a ref, and the configuration of the
remote stays the same. -/
structure Ostree.Serves (ostree : Ostree σ ρ) (branches : Branches) (remote : String)
    (collectionId : Option String) : Prop where
  parseRefspec : ∀ ref ∈ branches.refs,
    ostree.parseRefspec (remote ++ ":" ++ ref) = .ok (some remote, ref)
  remoteCollectionId : ∀ s, ostree.remoteCollectionId s remote = .ok collectionId
  pull : ∀ ref ∈ branches.refs, ∀ url s, ∃ t,
    ostree.pullWithOptions remote (getRepoPullOptions url ref) s = (.ok (), t) ∧
      ostree.Holds branches remote ref t
  pullFrom : ∀ ref ∈ branches.refs, ∀ id ∈ collectionId, ∀ finders s, ∃ results t,
    ostree.findRemotes ⟨id, ref⟩ finders s = (.ok results, t) ∧
      (results = [] ∧ ostree.Holds branches remote ref t ∨
        results ≠ [] ∧ ∃ t', ostree.pullFromRemotes results .commitOnly t = (.ok (), t') ∧
          ostree.Holds branches remote ref t')

namespace Ostree.Serves

variable {ostree : Ostree σ ρ} {branches : Branches} {remote ref : String}
  {collectionId : Option String} {s : σ}

/-- The latest commit of a branch is read as its last one, or with what it has been rebased to. -/
theorem parseLatestCommit (h : ostree.Serves branches remote collectionId)
    (href : ref ∈ branches.refs) (hholds : ostree.Holds branches remote ref s)
    (wantsCollectionRef : Bool) :
    ∃ parsed, ostree.parseLatestCommit (remote ++ ":" ++ ref) wantsCollectionRef s = .ok parsed ∧
      parsed.checksum = branches.checksum ref ∧
      parsed.version = (branches.commit ref).version ∧
      parsed.releaseNotesUriTemplate = (branches.commit ref).releaseNotesUri ∧
      ((∃ target, branches.RebasedTo ref target ∧ parsed.redirectFollowed = true ∧
          parsed.newRefspec = remote ++ ":" ++ target ∧
          parsed.newCollectionRef =
            (if wantsCollectionRef then collectionId else none).map (⟨·, target⟩)) ∨
        (∀ target, ¬ branches.RebasedTo ref target) ∧ parsed.redirectFollowed = false ∧
          parsed.newRefspec = remote ++ ":" ++ ref) := by
  -- what is parsed is read from the repository, which has the latest commit
  obtain ⟨hchecksum, hcommit⟩ := hholds
  refine ⟨_, Ostree.parseLatestCommit_eq_ok.2 ⟨remote, ref, _, collectionId,
    h.parseRefspec ref href, hchecksum, h.remoteCollectionId s, rfl⟩, rfl, ?_⟩
  rw [hcommit]
  refine ⟨rfl, rfl, ?_⟩
  rcases ParsedCommit.ofCommit_cases remote ref (branches.checksum ref)
    (if wantsCollectionRef then collectionId else none) (some (branches.commit ref)) with
    ⟨c, target, hc, hrebase, hne, hfollowed, hrefspec, hcollection⟩ | ⟨hself, hfollowed, hrefspec⟩
  · cases hc
    exact Or.inl ⟨target, ⟨hrebase, hne⟩, hfollowed, hrefspec, hcollection⟩
  · exact Or.inr ⟨fun target htarget => htarget.2 (hself _ rfl target htarget.1), hfollowed,
      hrefspec⟩

/-- A pull brings the latest commit of the branch into the repository. -/
theorem pullLatestCommit (h : ostree.Serves branches remote collectionId) (url : Option String)
    {finders : Option (List OstreeRepoFinder)} {upgrade : UpgradeRef}
    (hat : branches.IsAt remote collectionId finders.isSome ref upgrade) (s : σ) :
    ∃ results t, (ostree.pullLatestCommit url finders upgrade).Ends s (.ok results) t ∧
      ostree.Holds branches remote ref t := by
  obtain ⟨href, hrefspec, hcollection⟩ := hat
  cases finders with
  | none =>
      obtain ⟨t, hpull, hholds⟩ := h.pull ref href url s
      refine ⟨none, t, ?_, hholds⟩
      simp [Ostree.pullLatestCommit, hrefspec, h.parseRefspec ref href, hpull, check,
        Except.mapError]
  | some finders =>
      obtain ⟨id, hid, hupgrade⟩ := hcollection rfl
      obtain ⟨results, t, hfind, hcases⟩ := h.pullFrom ref href id hid finders s
      rcases hcases with ⟨hnone, hholds⟩ | ⟨hsome, t', hpull, hholds⟩
      · refine ⟨some results, t, ?_, hholds⟩
        simp [Ostree.pullLatestCommit, hupgrade, hfind, hnone, check, Except.mapError]
      · refine ⟨some results, t', ?_, hholds⟩
        simp [Ostree.pullLatestCommit, hupgrade, hfind, hsome, hpull, check, Except.mapError]

/-- The loop follows the rebases. -/
theorem follows (h : ostree.Serves branches remote collectionId) (url : Option String)
    (finders : Option (List OstreeRepoFinder)) :
    Program.Follows (ostree.fetchLatestCommitStep url finders) branches.RebasedTo
      (fun ref upgrade _ => branches.IsAt remote collectionId finders.isSome ref upgrade)
      (fun ref latest _ => branches.Describes remote ref latest) := by
  intro ref upgrade s hat
  obtain ⟨results, t, hpull, hholds⟩ := h.pullLatestCommit url hat s
  obtain ⟨href, hrefspec, hcollection⟩ := hat
  obtain ⟨parsed, hparsed, hchecksum, hversion, htemplate, hcases⟩ :=
    h.parseLatestCommit href hholds finders.isSome
  rw [← hrefspec] at hparsed
  -- the loop goes on with the target, or returns the commit of the last branch
  rcases hcases with ⟨target, hrebased, hfollowed, hnew, hnewCollection⟩ |
    ⟨hlast, hfollowed, hnew⟩
  · refine Or.inl ⟨target, ⟨parsed.newRefspec, parsed.newCollectionRef.or upgrade.collectionRef⟩,
      t, hrebased, ?_, ⟨branches.closed _ href _ hrebased.1, hnew, fun hfinders => ?_⟩⟩
    · exact ends_fetchLatestCommitStep.2 ⟨results, parsed, hpull, hparsed, by rw [if_pos hfollowed]⟩
    · obtain ⟨id, hid, -⟩ := hcollection hfinders
      exact ⟨id, hid, by simp [hnewCollection, hfinders, hid]⟩
  · refine Or.inr ⟨hlast, ⟨results, parsed.checksum, parsed.newRefspec, parsed.version,
      parsed.releaseNotesUriTemplate⟩, t, ?_, hchecksum, hnew, hversion, htemplate⟩
    exact ends_fetchLatestCommitStep.2 ⟨results, parsed, hpull, hparsed, by simp [hfollowed]⟩

/-- Whatever is returned in the end is the commit of the last branch. -/
theorem last_of_ends (h : ostree.Serves branches remote collectionId) {url : Option String}
    {finders : Option (List OstreeRepoFinder)} {collectionRef : Option OstreeCollectionRef}
    (hat : branches.IsAt remote collectionId finders.isSome ref
      ⟨remote ++ ":" ++ ref, collectionRef⟩)
    {bound : ℕ} {result : Except Failure (LatestCommit ρ)} {t : σ}
    (hend : (ostree.fetchLatestCommit bound (remote ++ ":" ++ ref) url finders collectionRef).Ends s
      result t) :
    ∃ last latest, branches.Last ref last ∧ result = .ok latest ∧
      branches.Describes remote last latest := by
  rw [Ostree.fetchLatestCommit_eq_loop hat.hasCollectionRef] at hend
  obtain ⟨last, latest, hchain, hlast, hresult, hdescribes⟩ :=
    (h.follows url finders).of_loop_ends hat hend
  exact ⟨last, latest, ⟨hchain, hlast⟩, hresult, hdescribes⟩

end Ostree.Serves

/-- **When following rebases comes to an end**: exactly if the chain of rebases from the branch does
not run into a cycle of two branches or more. Then the commit of the last branch is returned, with
the refspec of that branch. -/
theorem Ostree.Serves.fetchLatestCommit_ends_iff {ostree : Ostree σ ρ} {branches : Branches}
    {remote : String} {collectionId : Option String}
    (h : ostree.Serves branches remote collectionId) {start : String}
    (hstart : start ∈ branches.refs) (url : Option String)
    (finders : Option (List OstreeRepoFinder)) (collectionRef : Option OstreeCollectionRef)
    (hfinders : finders.isSome → ∃ id, collectionId = some id ∧ collectionRef = some ⟨id, start⟩)
    (s : σ) :
    ((∃ bound result t,
        (ostree.fetchLatestCommit bound (remote ++ ":" ++ start) url finders collectionRef).Ends s
          result t) ∧
      ∀ bound result t,
        (ostree.fetchLatestCommit bound (remote ++ ":" ++ start) url finders collectionRef).Ends s
          result t →
        ∃ last latest, branches.Last start last ∧ result = .ok latest ∧
          branches.Describes remote last latest) ↔
      ¬ branches.RunsIntoCycle start := by
  have hat : branches.IsAt remote collectionId finders.isSome start
      ⟨remote ++ ":" ++ start, collectionRef⟩ := ⟨hstart, rfl, hfinders⟩
  -- no cycle means that the chain of rebases has a last branch
  rw [← Branches.exists_last_iff hstart]
  constructor
  · rintro ⟨⟨bound, result, t, hend⟩, -⟩
    obtain ⟨last, -, hlast, -⟩ := h.last_of_ends hat hend
    exact ⟨last, hlast⟩
  · rintro ⟨last, hchain, hlast⟩
    obtain ⟨bound, latest, t, hend, -⟩ :=
      (h.follows url finders).loop_ends branches.rebasedTo_rightUnique hchain hlast hat
    rw [← Ostree.fetchLatestCommit_eq_loop hat.hasCollectionRef] at hend
    exact ⟨⟨bound, .ok latest, t, hend⟩, fun _ _ _ => h.last_of_ends hat⟩

/-- A remote with two branches: `eos3` has been rebased to `eos4`, and this to itself or back. -/
def twoBranches (back : Bool) : Branches where
  refs := {"eos3", "eos4"}
  checksum ref := ref
  commit ref :=
    { subject := "", body := "", timestamp := 0
      endoflifeRebase := some (if ref = "eos4" ∧ back then "eos3" else "eos4")
      version := some ref, releaseNotesUri := none, checkpointTarget := none }
  closed := by
    intro ref _ target htarget
    obtain rfl := Option.some_inj.1 htarget
    split <;> simp

/-- A refspec, split at its first colon. -/
def splitRefspec (refspec : String) : Option String × String :=
  match refspec.toList.span (· != ':') with
  | (remote, _ :: ref) => (some (String.ofList remote), String.ofList ref)
  | (ref, []) => (none, String.ofList ref)

/-- A repository that always has the latest commits of its branches, on a system that has booted a
deployment, if any. -/
def mirrorOf (branches : Branches) (booted : Option OstreeDeployment) : Ostree Unit Unit where
  parseRefspec refspec := .ok (splitRefspec refspec)
  loadSysroot _ := .ok booted
  sysrootRepo _ := .ok ()
  localRepo _ := .ok ()
  remoteCollectionId _ _ := .ok (some "com.example.Os")
  resolveRev _ refspec := .ok (branches.checksum (splitRefspec refspec).2)
  loadCommit _ checksum := .ok (branches.commit checksum)
  pullWithOptions _ _ _ := (.ok (), ())
  findRemotes _ _ _ := (.ok [()], ())
  pullFromRemotes _ _ _ := (.ok (), ())

/-- The mirror of two branches serves them. -/
private theorem mirrorOf_serves (back : Bool) :
    (mirrorOf (twoBranches back) none).Serves (twoBranches back) "eos" (some "com.example.Os") := by
  have hholds ref (href : ref ∈ (twoBranches back).refs) :
      (mirrorOf (twoBranches back) none).parseRefspec ("eos" ++ ":" ++ ref) =
          .ok (some "eos", ref) ∧
        (mirrorOf (twoBranches back) none).Holds (twoBranches back) "eos" ref () := by
    have hcases : ref = "eos3" ∨ ref = "eos4" := by simpa [twoBranches] using href
    rcases hcases with rfl | rfl <;> exact ⟨rfl, rfl, rfl⟩
  exact ⟨fun ref href => (hholds ref href).1, fun _ => rfl,
    fun ref href _ _ => ⟨(), rfl, (hholds ref href).2⟩,
    fun ref href _ _ _ _ => ⟨[()], (), rfl, Or.inr ⟨nofun, (), rfl, (hholds ref href).2⟩⟩⟩

/-- From a branch that has been rebased, finders lead to the commit of the other one. -/
theorem twoBranches_rebase_followed :
    (∃ bound result t, ((mirrorOf (twoBranches false) none).fetchLatestCommit bound
      ("eos" ++ ":" ++ "eos3") none (some [.config]) (some ⟨"com.example.Os", "eos3"⟩)).Ends ()
        result t) ∧
    ∀ bound result t, ((mirrorOf (twoBranches false) none).fetchLatestCommit bound
      ("eos" ++ ":" ++ "eos3") none (some [.config]) (some ⟨"com.example.Os", "eos3"⟩)).Ends ()
        result t →
      ∃ last latest, (twoBranches false).Last "eos3" last ∧ result = .ok latest ∧
        (twoBranches false).Describes "eos" last latest := by
  refine ((mirrorOf_serves false).fetchLatestCommit_ends_iff (by simp [twoBranches]) none
    (some [.config]) (some ⟨"com.example.Os", "eos3"⟩) (fun _ => ⟨_, rfl, rfl⟩) ()).2 ?_
  refine (Branches.exists_last_iff (by simp [twoBranches])).1 ⟨"eos4", .single ⟨rfl, by decide⟩, ?_⟩
  rintro target ⟨htarget, hne⟩
  exact hne (Option.some_inj.1 htarget).symm

/-- Two branches that have been rebased to each other are followed forever, with finders and
without. -/
theorem twoBranches_never_end :
    ¬ ∃ (finders : Option (List OstreeRepoFinder)) (bound : ℕ)
        (result : Except Failure (LatestCommit Unit)) (t : Unit),
      ((mirrorOf (twoBranches true) none).fetchLatestCommit bound ("eos" ++ ":" ++ "eos3") none
        finders (some ⟨"com.example.Os", "eos3"⟩)).Ends () result t := by
  rintro ⟨finders, bound, result, t, hend⟩
  have hmem : "eos3" ∈ (twoBranches true).refs := by simp [twoBranches]
  have hat : (twoBranches true).IsAt "eos" (some "com.example.Os") finders.isSome "eos3"
      ⟨"eos" ++ ":" ++ "eos3", some ⟨"com.example.Os", "eos3"⟩⟩ :=
    ⟨hmem, rfl, fun _ => ⟨_, rfl, rfl⟩⟩
  obtain ⟨last, -, ⟨hchain, hlast⟩, -⟩ := (mirrorOf_serves true).last_of_ends hat hend
  -- each of the two has been rebased to the other one
  have hcases : last = "eos3" ∨ last = "eos4" := by
    simpa [twoBranches] using Branches.mem_refs hmem hchain
  rcases hcases with rfl | rfl
  · exact hlast "eos4" ⟨rfl, by decide⟩
  · exact hlast "eos3" ⟨rfl, by decide⟩

end Updater
