import Mathlib.Data.List.Induction
import EosUpdater.Avahi.Main

/-!
# The advertisable commit

Of the deployments of the booted OS, the commit with the greatest timestamp of those that load is
advertised, and the call fails with the first error in loading them if none of them does
(`AdvertisesNewest`).

The scan takes a timestamp of `0` to mean that nothing has been found. So the call does this exactly
if no commit loads or one that does is later than the epoch (`advertisesNewest_iff`).
-/

namespace Avahi

open Euu Updater

variable (sysroot : Sysroot) (osname : String)

/-- The deployment is of the OS, and its commit can be loaded with a timestamp. -/
def LoadsAt (deployment : OstreeDeployment) (timestamp : UInt64) : Prop :=
  deployment.osname = osname ∧ sysroot.loadCommit deployment.csum = .ok timestamp

/-- The error in loading the commit of a deployment of the OS. -/
def loadError (deployment : OstreeDeployment) : Option GError :=
  if deployment.osname = osname then
    match sysroot.loadCommit deployment.csum with
    | .error e => some e
    | .ok _ => none
  else none

/-- The commit returned is one of the booted OS that loads, and there is none of a greater
timestamp; the call fails exactly if none loads, with the first error; and no assertion fails. -/
structure AdvertisesNewest : Prop where
  newest : ∀ commit, getAdvertisableCommit sysroot = .ok commit →
    (∃ deployment ∈ sysroot.deployments, deployment.csum = commit.checksum ∧
      LoadsAt sysroot osname deployment commit.timestamp) ∧
    ∀ deployment ∈ sysroot.deployments, ∀ timestamp,
      LoadsAt sysroot osname deployment timestamp → timestamp ≤ commit.timestamp
  failed : ∀ e, getAdvertisableCommit sysroot = .error (.error e) ↔
    (∀ deployment ∈ sysroot.deployments, ∀ timestamp,
      ¬ LoadsAt sysroot osname deployment timestamp) ∧
    sysroot.deployments.findSome? (loadError sysroot osname) = some e
  holds : getAdvertisableCommit sysroot ≠ .error .aborted

/-- What the scan knows after some deployments. With a timestamp of `0`, there may be a checksum or
not. -/
structure ScansLatest (deployments : List OstreeDeployment) (latest : LatestCommit) : Prop where
  error : latest.loadCommitError = deployments.findSome? (loadError sysroot osname)
  greatest : ∀ deployment ∈ deployments, ∀ timestamp,
    LoadsAt sysroot osname deployment timestamp → timestamp ≤ latest.timestamp
  checksum : latest.checksum = none ∧ latest.timestamp = 0 ∧
      (∀ deployment ∈ deployments, ∀ timestamp, ¬ LoadsAt sysroot osname deployment timestamp) ∨
    ∃ deployment ∈ deployments, latest.checksum = some deployment.csum ∧
      LoadsAt sysroot osname deployment latest.timestamp

variable {sysroot osname} {deployments : List OstreeDeployment} {deployment : OstreeDeployment}
variable {latest : LatestCommit} {booted : OstreeDeployment} {path : String}

/-- A commit loads with one timestamp. -/
theorem loadsAt_unique {timestamp timestamp' : UInt64}
    (h : LoadsAt sysroot osname deployment timestamp)
    (h' : LoadsAt sysroot osname deployment timestamp') : timestamp = timestamp' := by
  have hsame := h.2.symm.trans h'.2
  cases hsame
  rfl

/-- A deployment whose commit does not load adds at most its error. -/
theorem ScansLatest.concat_of_not_loads (h : ScansLatest sysroot osname deployments latest)
    (hloads : ∀ timestamp, ¬ LoadsAt sysroot osname deployment timestamp) {error : Option GError}
    (herror : error = latest.loadCommitError.or (loadError sysroot osname deployment)) :
    ScansLatest sysroot osname (deployments ++ [deployment])
      { latest with loadCommitError := error } := by
  refine ⟨?_, ?_, ?_⟩
  · rw [herror, h.error, List.findSome?_append, List.findSome?_singleton]
  · intro d hd timestamp ht
    rcases List.mem_append.1 hd with hd | hd
    · exact h.greatest d hd timestamp ht
    · rw [List.mem_singleton.1 hd] at ht
      exact absurd ht (hloads timestamp)
  · rcases h.checksum with ⟨hnone, hzero, hall⟩ | ⟨d, hd, hsum, ht⟩
    · refine .inl ⟨hnone, hzero, fun d hd => ?_⟩
      rcases List.mem_append.1 hd with hd | hd
      · exact hall d hd
      · rw [List.mem_singleton.1 hd]
        exact hloads
    · exact .inr ⟨d, List.mem_append_left _ hd, hsum, ht⟩

/-- A deployment whose commit loads is taken if it is later, or nothing but `0` has been found. -/
theorem ScansLatest.concat_of_loads {timestamp : UInt64}
    (h : ScansLatest sysroot osname deployments latest)
    (hloads : LoadsAt sysroot osname deployment timestamp) :
    ScansLatest sysroot osname (deployments ++ [deployment])
      (latestCommitStep sysroot osname latest deployment) := by
  have herror : latest.loadCommitError =
      (deployments ++ [deployment]).findSome? (loadError sysroot osname) := by
    rw [h.error, List.findSome?_append, List.findSome?_singleton, loadError, if_pos hloads.1,
      hloads.2, Option.or_none]
  have hlast : deployment ∈ deployments ++ [deployment] := by simp
  -- it is taken, or what was found has a timestamp other than 0 and is not older
  rw [latestCommitStep, if_neg (not_not.2 hloads.1), hloads.2]
  dsimp only
  split_ifs with htake
  · refine ⟨herror, fun d hd t ht => ?_, .inr ⟨deployment, hlast, rfl, hloads⟩⟩
    rcases List.mem_append.1 hd with hd | hd
    · have hle := h.greatest d hd t ht
      simp only [Bool.or_eq_true, decide_eq_true_eq] at htake
      rcases htake with hzero | hlt
      · -- what was found before has the least timestamp
        rw [hzero] at hle
        exact UInt64.le_trans hle UInt64.zero_le
      · exact UInt64.le_trans hle (UInt64.le_of_lt hlt)
    · rw [List.mem_singleton.1 hd] at ht
      rw [loadsAt_unique ht hloads]
      exact UInt64.le_refl _
  · simp only [Bool.or_eq_true, decide_eq_true_eq, not_or] at htake
    refine ⟨herror, fun d hd t ht => ?_, .inr ?_⟩
    · rcases List.mem_append.1 hd with hd | hd
      · exact h.greatest d hd t ht
      · rw [List.mem_singleton.1 hd] at ht
        rw [loadsAt_unique ht hloads]
        exact UInt64.not_lt.1 htake.2
    -- not taken, so a commit has been found before
    · rcases h.checksum with ⟨-, hzero, -⟩ | ⟨d, hd, hsum, ht⟩
      · exact absurd hzero htake.1
      · exact ⟨d, List.mem_append_left _ hd, hsum, ht⟩

/-- One deployment more. -/
theorem ScansLatest.step (h : ScansLatest sysroot osname deployments latest) :
    ScansLatest sysroot osname (deployments ++ [deployment])
      (latestCommitStep sysroot osname latest deployment) := by
  by_cases hos : deployment.osname = osname
  · cases hload : sysroot.loadCommit deployment.csum with
    | ok timestamp => exact h.concat_of_loads ⟨hos, hload⟩
    | error e =>
        -- its error is kept if it is the first
        rw [latestCommitStep, if_neg (not_not.2 hos), hload]
        refine h.concat_of_not_loads (fun timestamp ht => ?_) ?_
        · rw [LoadsAt, hload] at ht
          exact nomatch ht.2
        · rw [loadError, if_pos hos, hload]
          cases latest.loadCommitError with
          | none => rfl
          | some _ => rfl
  · rw [latestCommitStep, if_pos hos]
    refine h.concat_of_not_loads (fun timestamp ht => hos ht.1) ?_
    rw [loadError, if_neg hos, Option.or_none]

variable (sysroot osname) in
/-- **What the scan finds.** -/
theorem scansLatest_foldl (deployments : List OstreeDeployment) :
    ScansLatest sysroot osname deployments
      (deployments.foldl (latestCommitStep sysroot osname) ⟨none, 0, none⟩) := by
  induction deployments using List.reverseRecOn with
  | nil => exact ⟨rfl, by simp, .inl ⟨rfl, rfl, by simp⟩⟩
  | append_singleton deployments deployment ih =>
      rw [List.foldl_concat]
      exact ih.step

/-! ### The result -/

/-- What the call makes of the scan. -/
theorem exists_scan (hrepo : sysroot.commitRepo = .ok ())
    (hbooted : sysroot.bootedDeployment = .ok booted)
    (hpath : sysroot.ostreePath booted.osname = .ok path) :
    ∃ latest, ScansLatest sysroot booted.osname sysroot.deployments latest ∧
      getAdvertisableCommit sysroot =
        if latest.timestamp = 0 then
          match latest.loadCommitError with
          | some e => .error (.error e)
          | none => .error .aborted
        else
          match latest.checksum with
          | some checksum => .ok ⟨checksum, path, latest.timestamp⟩
          | none => .error .aborted := by
  refine ⟨_, scansLatest_foldl sysroot booted.osname sysroot.deployments, ?_⟩
  simp only [getAdvertisableCommit, hrepo, hbooted, Ostree.check, Except.mapError, bind,
    Except.bind, hpath]
  rfl

/-- Without a deployment that loads, there is an error to return. -/
theorem exists_loadError (hmem : booted ∈ deployments)
    (hnone : ∀ deployment ∈ deployments, ∀ timestamp,
      ¬ LoadsAt sysroot booted.osname deployment timestamp) :
    ∃ e, deployments.findSome? (loadError sysroot booted.osname) = some e := by
  -- the booted deployment itself is of the OS
  refine Option.isSome_iff_exists.1 (List.findSome?_isSome_iff.2 ⟨booted, hmem, ?_⟩)
  rw [loadError, if_pos rfl]
  cases hload : sysroot.loadCommit booted.csum with
  | error e => rfl
  | ok timestamp => exact absurd ⟨rfl, hload⟩ (hnone booted hmem timestamp)

/-- A commit later than the epoch is found in spite of errors with others. -/
theorem advertisesNewest_of_later (hrepo : sysroot.commitRepo = .ok ())
    (hbooted : sysroot.bootedDeployment = .ok booted)
    (hpath : sysroot.ostreePath booted.osname = .ok path) {timestamp : UInt64}
    (hmem : deployment ∈ sysroot.deployments) (hlater : timestamp ≠ 0)
    (hloads : LoadsAt sysroot booted.osname deployment timestamp) :
    AdvertisesNewest sysroot booted.osname := by
  obtain ⟨latest, hscan, heq⟩ := exists_scan hrepo hbooted hpath
  -- the greatest timestamp is no less than the one that is later than the epoch
  have hzero : latest.timestamp ≠ 0 := fun hzero => by
    have hle := hscan.greatest deployment hmem timestamp hloads
    rw [hzero] at hle
    exact hlater (UInt64.le_antisymm hle UInt64.zero_le)
  obtain ⟨-, htimestamp, -⟩ | ⟨d, hd, hsum, ht⟩ := hscan.checksum
  · exact absurd htimestamp hzero
  have hresult : getAdvertisableCommit sysroot = .ok ⟨d.csum, path, latest.timestamp⟩ := by
    rw [heq, if_neg hzero, hsum]
  refine ⟨fun commit hcommit => ?_, fun e => ?_, ?_⟩
  · rw [hresult] at hcommit
    cases hcommit
    exact ⟨⟨d, hd, rfl, ht⟩, hscan.greatest⟩
  · rw [hresult]
    constructor
    · exact fun h => nomatch h
    · rintro ⟨hnone, -⟩
      exact absurd hloads (hnone deployment hmem timestamp)
  · rw [hresult]
    exact fun h => nomatch h

/-- If no commit loads, the first error is returned. -/
theorem advertisesNewest_of_none (hrepo : sysroot.commitRepo = .ok ())
    (hbooted : sysroot.bootedDeployment = .ok booted) (hmem : booted ∈ sysroot.deployments)
    (hpath : sysroot.ostreePath booted.osname = .ok path)
    (hnone : ∀ deployment ∈ sysroot.deployments, ∀ timestamp,
      ¬ LoadsAt sysroot booted.osname deployment timestamp) :
    AdvertisesNewest sysroot booted.osname := by
  obtain ⟨latest, hscan, heq⟩ := exists_scan hrepo hbooted hpath
  obtain ⟨first, hfirst⟩ := exists_loadError hmem hnone
  -- nothing has been found, as nothing loads
  obtain ⟨-, hzero, -⟩ | ⟨d, hd, -, ht⟩ := hscan.checksum
  swap
  · exact absurd ht (hnone d hd _)
  have hresult : getAdvertisableCommit sysroot = .error (.error first) := by
    rw [heq, if_pos hzero, hscan.error, hfirst]
  refine ⟨fun commit hcommit => ?_, fun e => ?_, ?_⟩
  · rw [hresult] at hcommit
    cases hcommit
  · rw [hresult, hfirst]
    simp only [Except.error.injEq, Failure.error.injEq, Option.some.injEq]
    exact ⟨fun h => ⟨hnone, h⟩, fun h => h.2⟩
  · rw [hresult]
    exact fun h => nomatch h

/-- **When the advertisable commit is the newest**: exactly if no commit of the booted OS loads, or
one of those that do is later than the epoch. -/
theorem advertisesNewest_iff (sysroot : Sysroot) (booted : OstreeDeployment) (path : String)
    (hrepo : sysroot.commitRepo = .ok ()) (hbooted : sysroot.bootedDeployment = .ok booted)
    (hmem : booted ∈ sysroot.deployments) (hpath : sysroot.ostreePath booted.osname = .ok path) :
    AdvertisesNewest sysroot booted.osname ↔
      (∀ deployment ∈ sysroot.deployments, ∀ timestamp,
        ¬ LoadsAt sysroot booted.osname deployment timestamp) ∨
      ∃ deployment ∈ sysroot.deployments, ∃ timestamp, timestamp ≠ 0 ∧
        LoadsAt sysroot booted.osname deployment timestamp := by
  constructor
  · intro h
    by_contra hnot
    rw [not_or] at hnot
    obtain ⟨hloads, hepoch⟩ := hnot
    obtain ⟨latest, hscan, hresult⟩ := exists_scan hrepo hbooted hpath
    -- whatever has been found has the timestamp 0, which is taken for nothing
    have hzero : latest.timestamp = 0 := by
      rcases hscan.checksum with ⟨-, hzero, -⟩ | ⟨d, hd, -, ht⟩
      · exact hzero
      · by_contra hlater
        exact hepoch ⟨d, hd, _, hlater, ht⟩
    rw [if_pos hzero] at hresult
    cases herror : latest.loadCommitError with
    | none =>
        rw [herror] at hresult
        exact h.holds hresult
    | some e =>
        rw [herror] at hresult
        exact hloads ((h.failed e).1 hresult).1
  · rintro (hnone | ⟨deployment, hdeployment, timestamp, hlater, hloads⟩)
    · exact advertisesNewest_of_none hrepo hbooted hmem hpath hnone
    · exact advertisesNewest_of_later hrepo hbooted hpath hdeployment hlater hloads

/-- A system that has booted the only commit it has, with a timestamp. -/
def commitSysroot (timestamp : UInt64) : Sysroot :=
  { bootedSysroot [] with loadCommit := fun _ => .ok timestamp }

/-- A system with one commit, from after the epoch, advertises it. -/
theorem commitSysroot_later : AdvertisesNewest (commitSysroot 1500000000) "eos" :=
  (advertisesNewest_iff (commitSysroot 1500000000) ⟨"eos", "c1", none⟩ "os/eos/amd64/eos3" rfl rfl
    List.mem_cons_self rfl).2
      (.inr ⟨⟨"eos", "c1", none⟩, List.mem_cons_self, 1500000000, by decide, rfl, rfl⟩)

/-- The commit that a system has booted is taken for none at all if it is from the epoch, and an
assertion fails. -/
theorem not_advertisesNewest_epoch :
    getAdvertisableCommit (commitSysroot 0) = .error .aborted ∧
      ¬ AdvertisesNewest (commitSysroot 0) "eos" := by
  have haborted : getAdvertisableCommit (commitSysroot 0) = .error .aborted := rfl
  exact ⟨haborted, fun h => h.holds haborted⟩

end Avahi
