import EosUpdater.GLib.HashTable
import EosUpdater.Machine.Run
import EosUpdater.Updater.Ostree

/-!
# Applying an update

`apply_internal` deploys the update, then deletes the ref that it replaces, and then does what may
fail: it cleans up, and sets two options of the remote. Once the update is deployed, nothing takes
this back. An update that is reported as an error has therefore changed nothing only if the error
comes before that (`apply_failsCleanly_iff`).

What libostree does is given by `ApplyOutcomes`, for each of its operations, which changes nothing
if it fails.
-/

namespace Updater

open Euu Machine Machine.Program

variable {ρ : Type}

/-! ### What an apply uses -/

/-- `GKeyFile`: its groups, with the values of their keys. -/
abbrev KeyFile := GHashTable String (GHashTable String String)

/-- `g_key_file_set_value`. -/
def keyFileSetValue (keyFile : KeyFile) (group key value : String) : KeyFile :=
  keyFile.replace group (((keyFile.lookup group).getD .empty).replace key value)

/-- What an apply can change: the deployments that are staged or written, the most recent one first,
and the refs and the configuration of the repository. -/
structure ApplyState where
  deployments : List Deployment
  refs : GHashTable String String
  config : KeyFile

/-- A deployment is staged or written. -/
def ApplyState.deploy (s : ApplyState) (deployment : Deployment) : ApplyState :=
  { s with deployments := deployment :: s.deployments }

/-- What libostree returns to an apply. -/
structure ApplyOutcomes where
  /-- `ostree_sysroot_lock`. -/
  lock : Except GError Unit
  /-- `ostree_sysroot_load`. -/
  load : Except GError Unit
  /-- `eos_updater_get_booted_deployment_from_loaded_sysroot`. -/
  bootedDeployment : Except GError OstreeDeployment
  /-- `ostree_sysroot_is_booted`. -/
  isBooted : Bool
  /-- `ostree_sysroot_stage_tree`. -/
  stageTree : Except GError Unit
  /-- `ostree_sysroot_deploy_tree`. -/
  deployTree : Except GError Unit
  /-- `ostree_sysroot_simple_write_deployment`. -/
  writeDeployment : Except GError Unit
  /-- `ostree_repo_resolve_rev` for the original refspec: whether it fails. -/
  resolveOrig : Except GError Unit
  /-- `ostree_repo_prepare_transaction`. -/
  prepareTransaction : Except GError Unit
  /-- `ostree_repo_commit_transaction`. -/
  commitTransaction : Except GError Unit
  /-- `ostree_sysroot_cleanup`. -/
  cleanup : Except GError Unit
  /-- `ostree_parse_refspec` for the refspec of the update. -/
  parseRefspec : Except GError (Option String × String)
  /-- `ostree_repo_get_remote_option` for `branches`. -/
  branches : Except GError (Option String)
  /-- `ostree_repo_get_remote_option` for `collection-id`. -/
  collectionId : Except GError (Option String)
  /-- `ostree_repo_resolve_rev` for the refspec of the update. -/
  resolveUpdate : Except GError String
  /-- `ostree_repo_load_variant` for its commit, and the metadata `ostree.collection-binding`. -/
  collectionBinding : Except GError (Option String)
  /-- `ostree_repo_write_config`, for the branches and for the collection ID. -/
  writeBranches : Except GError Unit
  writeCollectionId : Except GError Unit
  /-- The path of the repository. -/
  repoPath : String

/-! ### The functions -/

section Functions

variable (data : ApplyData) (outcomes : ApplyOutcomes)

/-- An operation of libostree, and what it does if it succeeds. -/
def operation (outcome : Except GError Unit) (effect : ApplyState → ApplyState) :
    Program ApplyState GError Unit :=
  .perform fun s =>
    match outcome with
    | .ok () => (.ok (), effect s)
    | .error e => (.error e, s)

/-- The error for a refspec without a remote. -/
def noRemoteError (refspec : Option String) : GError :=
  ⟨.ioFailed, "Invalid refspec ‘" ++ refspec.getD "(null)" ++
    "’ in origin: did not contain a remote name"⟩

/-- What `update_remote_branches` and `update_remote_collection_id` end with: set an option of a
remote that the configuration has, and write it. -/
def setRemoteOption (outcome : Except GError Unit) (remote key value : String) :
    Program ApplyState GError Unit := do
  let remoteGroup := "remote \"" ++ remote ++ "\""
  let group ← .query fun s => .ok (s.config.lookup remoteGroup)
  -- a group made here would duplicate a remote that is defined in another file
  if group = none then
    throw ⟨.ioFailed, "Remote ‘" ++ remote ++ "’ does not exist in " ++ outcomes.repoPath ++
      "/config"⟩
  else operation outcome fun s =>
    { s with config := keyFileSetValue s.config remoteGroup key value }

/-- `update_remote_branches`. -/
def updateRemoteBranches : Program ApplyState GError Unit := do
  let (remote, ref) ← .query fun _ => outcomes.parseRefspec
  match remote with
  | none => throw (noRemoteError data.updateRefspec)
  | some remote =>
      let curBranches ← .query fun _ => outcomes.branches
      -- the option holds this branch alone, whatever it held before
      let newBranches := ref ++ ";"
      if curBranches = some newBranches then return ()
      else setRemoteOption outcomes outcomes.writeBranches remote "branches" newBranches

/-- `update_remote_collection_id`. -/
def updateRemoteCollectionId : Program ApplyState GError Unit := do
  let (remote, _) ← .query fun _ => outcomes.parseRefspec
  match remote with
  | none => throw (noRemoteError data.updateRefspec)
  | some remote =>
      let curCollectionId ← .query fun _ => outcomes.collectionId
      -- an empty collection ID counts as none
      if curCollectionId.getD "" ≠ "" then return ()
      else do
        let _ ← .query fun _ => outcomes.resolveUpdate
        match ← .query fun _ => outcomes.collectionBinding with
        | none => return ()
        | some collectionId =>
            setRemoteOption outcomes outcomes.writeCollectionId remote "collection-id" collectionId

/-- `apply_internal`, for the deployment: it is staged on a booted system, and otherwise written. -/
def deployUpdate : Program ApplyState GError Unit :=
  let deployment : Deployment := ⟨data.updateId, data.updateRefspec⟩
  if outcomes.isBooted then operation outcomes.stageTree (·.deploy deployment)
  else do
    -- this checks the tree out, and adds no deployment yet
    operation outcomes.deployTree id
    operation outcomes.writeDeployment (·.deploy deployment)

/-- `apply_internal`, for the transaction that deletes a ref, if there is a revision of it. -/
def deleteRef (refspec rev : Option String) : Program ApplyState GError Unit :=
  if rev ≠ none then do
    -- the ref is not dropped before the transaction is committed
    operation outcomes.prepareTransaction id
    operation outcomes.commitTransaction fun s =>
      { s with refs := s.refs.remove (refspec.getD "") }
  else return ()

/-- `apply_internal`, for the ref of the tree that the update replaces. -/
def deleteOrigRef : Program ApplyState GError Unit :=
  if data.updateRefspec ≠ data.origRefspec then do
    operation outcomes.resolveOrig id
    -- a ref that is not there is no error
    let rev ← .query fun s => .ok (data.origRefspec.bind s.refs.lookup)
    deleteRef outcomes data.origRefspec rev
  else return ()

/-- `apply_internal`, for what may fail. -/
def finishApply : Program ApplyState GError Unit := do
  -- each of these is only logged if it fails
  ignoreError (operation outcomes.cleanup id)
  ignoreError (updateRemoteBranches data outcomes)
  ignoreError (updateRemoteCollectionId data outcomes)

/-- `apply_internal`. -/
def applyInternal : Program ApplyState GError Unit := do
  operation outcomes.lock id
  operation outcomes.load id
  let _ ← .query fun _ => outcomes.bootedDeployment
  deployUpdate data outcomes
  deleteOrigRef data outcomes
  finishApply data outcomes

end Functions

/-! ### What is deployed, and what fails afterwards -/

namespace ApplyOutcomes

variable (outcomes : ApplyOutcomes)

/-- The sysroot is locked and loaded, and has a booted deployment. -/
def Opens : Prop :=
  outcomes.lock = .ok () ∧ outcomes.load = .ok () ∧
    ∃ booted, outcomes.bootedDeployment = .ok booted

/-- The tree is staged, or it is deployed and the deployment is written. -/
def Writes : Prop :=
  if outcomes.isBooted then outcomes.stageTree = .ok ()
  else outcomes.deployTree = .ok () ∧ outcomes.writeDeployment = .ok ()

/-- Every step succeeds, up to the one that stages or writes the deployment. -/
def Deploys : Prop := outcomes.Opens ∧ outcomes.Writes

/-- The ref that is replaced is to be deleted, and cannot be. -/
def FailsToDelete (data : ApplyData) (refs : GHashTable String String) : Prop :=
  data.updateRefspec ≠ data.origRefspec ∧
    ((∃ e, outcomes.resolveOrig = .error e) ∨
      data.origRefspec.bind refs.lookup ≠ none ∧
        ((∃ e, outcomes.prepareTransaction = .error e) ∨
          ∃ e, outcomes.commitTransaction = .error e))

end ApplyOutcomes

section Ends

variable {data : ApplyData} {outcomes : ApplyOutcomes} {outcome : Except GError Unit}
  {effect : ApplyState → ApplyState} {s t : ApplyState}

/-- An operation that succeeds has its effect. -/
theorem ends_operation_ok (h : outcome = .ok ()) :
    (operation outcome effect).Ends s (.ok ()) (effect s) := by
  subst h
  exact ends_perform.2 rfl

/-- An operation that fails has none. -/
theorem ends_operation_error {e : GError} (h : outcome = .error e) :
    (operation outcome effect).Ends s (.error e) s := by
  subst h
  exact ends_perform.2 rfl

/-- An operation of libostree succeeds or fails. -/
theorem outcome_cases (outcome : Except GError Unit) :
    outcome = .ok () ∨ ∃ e, outcome = .error e := by
  cases outcome with
  | ok _ => exact Or.inl rfl
  | error e => exact Or.inr ⟨e, rfl⟩

/-- The sysroot is opened, or nothing is done. -/
theorem ends_applyInternal (data : ApplyData) (outcomes : ApplyOutcomes) (s : ApplyState) :
    (outcomes.Opens ∧ ∀ {result t}, (do
        deployUpdate data outcomes
        deleteOrigRef data outcomes
        finishApply data outcomes).Ends s result t →
      (applyInternal data outcomes).Ends s result t) ∨
    ¬ outcomes.Opens ∧ ∃ e, (applyInternal data outcomes).Ends s (.error e) s := by
  unfold ApplyOutcomes.Opens
  rcases outcome_cases outcomes.lock with hlock | ⟨e, hlock⟩
  · have hlocked : (operation outcomes.lock id).Ends s (.ok ()) s := ends_operation_ok hlock
    rcases outcome_cases outcomes.load with hload | ⟨e, hload⟩
    · have hloaded : (operation outcomes.load id).Ends s (.ok ()) s := ends_operation_ok hload
      rcases hbooted : outcomes.bootedDeployment with e | booted
      · have hquery : (query fun _ => outcomes.bootedDeployment : Program ApplyState _ _).Ends s
            (.error e) s := ends_query.2 ⟨hbooted.symm, rfl⟩
        exact Or.inr ⟨by simp, e, (ends_bind_of_ok hlocked).2 ((ends_bind_of_ok hloaded).2
          (ends_bind_error.2 (Or.inl hquery)))⟩
      · have hquery : (query fun _ => outcomes.bootedDeployment : Program ApplyState _ _).Ends s
            (.ok booted) s := ends_query.2 ⟨hbooted.symm, rfl⟩
        refine Or.inl ⟨⟨hlock, hload, booted, rfl⟩, fun hend => ?_⟩
        exact (ends_bind_of_ok hlocked).2 ((ends_bind_of_ok hloaded).2
          ((ends_bind_of_ok hquery).2 hend))
    · exact Or.inr ⟨by simp [hload], e, (ends_bind_of_ok hlocked).2
        (ends_bind_error.2 (Or.inl (ends_operation_error hload)))⟩
  · exact Or.inr ⟨by simp [hlock], e, ends_bind_error.2 (Or.inl (ends_operation_error hlock))⟩

/-- The deployment is made, or nothing is. -/
theorem ends_deployUpdate (data : ApplyData) (outcomes : ApplyOutcomes) (s : ApplyState) :
    (outcomes.Writes ∧ (deployUpdate data outcomes).Ends s (.ok ())
      (s.deploy ⟨data.updateId, data.updateRefspec⟩)) ∨
    ¬ outcomes.Writes ∧ ∃ e, (deployUpdate data outcomes).Ends s (.error e) s := by
  unfold deployUpdate ApplyOutcomes.Writes
  cases outcomes.isBooted with
  | true =>
      rcases outcome_cases outcomes.stageTree with hstage | ⟨e, hstage⟩
      · exact Or.inl ⟨by simpa using hstage, ends_operation_ok hstage⟩
      · exact Or.inr ⟨by simp [hstage], e, ends_operation_error hstage⟩
  | false =>
      rcases outcome_cases outcomes.deployTree with hdeploy | ⟨e, hdeploy⟩
      · rcases outcome_cases outcomes.writeDeployment with hwrite | ⟨e, hwrite⟩
        · exact Or.inl ⟨by simp [hdeploy, hwrite],
            (ends_bind_of_ok (ends_operation_ok hdeploy)).2 (ends_operation_ok hwrite)⟩
        · exact Or.inr ⟨by simp [hwrite], e,
            (ends_bind_of_ok (ends_operation_ok hdeploy)).2 (ends_operation_error hwrite)⟩
      · exact Or.inr ⟨by simp [hdeploy], e,
          ends_bind_error.2 (Or.inl (ends_operation_error hdeploy))⟩

/-- The transaction leaves the deployments as they are, and fails if one of its steps does. -/
theorem ends_deleteRef (outcomes : ApplyOutcomes) (refspec rev : Option String) (s : ApplyState) :
    (¬ (rev ≠ none ∧ ((∃ e, outcomes.prepareTransaction = .error e) ∨
        ∃ e, outcomes.commitTransaction = .error e)) ∧
      ∃ t, (deleteRef outcomes refspec rev).Ends s (.ok ()) t ∧ t.deployments = s.deployments) ∨
    (rev ≠ none ∧ ((∃ e, outcomes.prepareTransaction = .error e) ∨
        ∃ e, outcomes.commitTransaction = .error e)) ∧
      ∃ e, (deleteRef outcomes refspec rev).Ends s (.error e) s := by
  unfold deleteRef
  by_cases hrev : rev = none
  · exact Or.inl ⟨fun h => h.1 hrev, s, by simp [hrev], rfl⟩
  rw [if_pos hrev]
  rcases outcome_cases outcomes.prepareTransaction with hprepare | ⟨e, hprepare⟩
  · rcases outcome_cases outcomes.commitTransaction with hcommit | ⟨e, hcommit⟩
    · exact Or.inl ⟨by simp [hprepare, hcommit], _,
        (ends_bind_of_ok (ends_operation_ok hprepare)).2 (ends_operation_ok hcommit), rfl⟩
    · exact Or.inr ⟨⟨hrev, Or.inr ⟨e, hcommit⟩⟩, e,
        (ends_bind_of_ok (ends_operation_ok hprepare)).2 (ends_operation_error hcommit)⟩
  · exact Or.inr ⟨⟨hrev, Or.inl ⟨e, hprepare⟩⟩, e,
      ends_bind_error.2 (Or.inl (ends_operation_error hprepare))⟩

/-- The deletion of the ref leaves the deployments as they are, and fails exactly if it has to be
made and cannot be. -/
theorem ends_deleteOrigRef (data : ApplyData) (outcomes : ApplyOutcomes) (s : ApplyState) :
    (¬ outcomes.FailsToDelete data s.refs ∧
      ∃ t, (deleteOrigRef data outcomes).Ends s (.ok ()) t ∧ t.deployments = s.deployments) ∨
    outcomes.FailsToDelete data s.refs ∧
      ∃ e, (deleteOrigRef data outcomes).Ends s (.error e) s := by
  unfold deleteOrigRef ApplyOutcomes.FailsToDelete
  by_cases hsame : data.updateRefspec = data.origRefspec
  · exact Or.inl ⟨fun h => h.1 hsame, s, by simp [hsame], rfl⟩
  rw [if_pos hsame]
  rcases outcome_cases outcomes.resolveOrig with hresolve | ⟨e, hresolve⟩
  · have hno : ¬ ∃ e, outcomes.resolveOrig = .error e := by simp [hresolve]
    rcases ends_deleteRef outcomes data.origRefspec (data.origRefspec.bind s.refs.lookup) s with
      ⟨hnot, t, hend, hdeployments⟩ | ⟨hfails, e, hend⟩
    · refine Or.inl ⟨fun h => h.2.elim hno hnot, t, ?_, hdeployments⟩
      exact (ends_bind_of_ok (ends_operation_ok hresolve)).2
        ((ends_bind_of_ok (ends_query.2 ⟨rfl, rfl⟩)).2 hend)
    · refine Or.inr ⟨⟨hsame, Or.inr hfails⟩, e, ?_⟩
      exact (ends_bind_of_ok (ends_operation_ok hresolve)).2
        ((ends_bind_of_ok (ends_query.2 ⟨rfl, rfl⟩)).2 hend)
  · exact Or.inr ⟨⟨hsame, Or.inl ⟨e, hresolve⟩⟩, e,
      ends_bind_error.2 (Or.inl (ends_operation_error hresolve))⟩

/-- Two states have the same deployments. -/
def SameDeployments (s t : ApplyState) : Prop := t.deployments = s.deployments

/-- Doing nothing keeps the deployments. -/
instance : Std.Refl SameDeployments := ⟨fun _ => rfl⟩

/-- Two parts that keep the deployments keep them together. -/
instance : IsTrans ApplyState SameDeployments := ⟨fun _ _ _ h h' => Eq.trans h' h⟩

/-- An operation keeps the deployments if its effect does. -/
theorem endsWithin_operation (heffect : ∀ s, SameDeployments s (effect s)) :
    EndsWithin SameDeployments (operation outcome effect) := by
  refine endsWithin_perform fun s => ?_
  cases outcome with
  | ok _ => exact heffect s
  | error e => exact Std.Refl.refl s

/-- Setting an option of a remote keeps the deployments. -/
theorem endsWithin_setRemoteOption (remote key value : String) :
    EndsWithin SameDeployments (setRemoteOption outcomes outcome remote key value) := by
  refine (endsWithin_query _).bind fun group => ?_
  split
  · exact endsWithin_throw _
  · exact endsWithin_operation fun _ => rfl

/-- Setting the branches of the remotes keeps the deployments. -/
theorem endsWithin_updateRemoteBranches (data : ApplyData) (outcomes : ApplyOutcomes) :
    EndsWithin SameDeployments (updateRemoteBranches data outcomes) := by
  unfold updateRemoteBranches
  refine EndsWithin.bind (endsWithin_query _) fun (remote, ref) => ?_
  cases remote with
  | none => exact endsWithin_throw _
  | some remote =>
      refine EndsWithin.bind (endsWithin_query _) fun branches => ?_
      dsimp only
      split
      · exact endsWithin_pure _
      · exact endsWithin_setRemoteOption _ _ _

/-- Setting the collection ID of the remote keeps the deployments. -/
theorem endsWithin_updateRemoteCollectionId (data : ApplyData) (outcomes : ApplyOutcomes) :
    EndsWithin SameDeployments (updateRemoteCollectionId data outcomes) := by
  unfold updateRemoteCollectionId
  refine EndsWithin.bind (endsWithin_query _) fun (remote, _) => ?_
  cases remote with
  | none => exact endsWithin_throw _
  | some remote =>
      refine EndsWithin.bind (endsWithin_query _) fun collectionId => ?_
      split
      · exact endsWithin_pure _
      · refine EndsWithin.bind (endsWithin_query _) fun _ => ?_
        refine EndsWithin.bind (endsWithin_query _) fun binding => ?_
        cases binding with
        | none => exact endsWithin_pure _
        | some collectionId => exact endsWithin_setRemoteOption _ _ _

/-- What may fail succeeds as a whole, and leaves the deployments as they are. -/
theorem ends_finishApply (data : ApplyData) (outcomes : ApplyOutcomes) (s : ApplyState) :
    ∃ t, (finishApply data outcomes).Ends s (.ok ()) t ∧ t.deployments = s.deployments := by
  -- an error of one step does not keep the next one from being taken
  have hcleanup : EndsWithin SameDeployments (operation outcomes.cleanup id) :=
    endsWithin_operation fun _ => rfl
  obtain ⟨s₁, hend₁, hs₁⟩ := hcleanup.ignoreError s
  obtain ⟨s₂, hend₂, hs₂⟩ := (endsWithin_updateRemoteBranches data outcomes).ignoreError s₁
  obtain ⟨s₃, hend₃, hs₃⟩ := (endsWithin_updateRemoteCollectionId data outcomes).ignoreError s₂
  exact ⟨s₃, (ends_bind_of_ok hend₁).2 ((ends_bind_of_ok hend₂).2 hend₃),
    hs₃.trans (hs₂.trans hs₁)⟩

/-- What `apply_internal` comes to: it fails and nothing is deployed, it fails once the update has
been deployed, or it succeeds. -/
theorem applyInternal_cases (data : ApplyData) (outcomes : ApplyOutcomes) (s : ApplyState) :
    (¬ outcomes.Deploys ∧ ∃ e, (applyInternal data outcomes).Ends s (.error e) s) ∨
    (outcomes.Deploys ∧ outcomes.FailsToDelete data s.refs ∧
      ∃ e, (applyInternal data outcomes).Ends s (.error e)
        (s.deploy ⟨data.updateId, data.updateRefspec⟩)) ∨
    outcomes.Deploys ∧ ¬ outcomes.FailsToDelete data s.refs ∧
      ∃ t, (applyInternal data outcomes).Ends s (.ok ()) t ∧
        t.deployments = ⟨data.updateId, data.updateRefspec⟩ :: s.deployments := by
  rcases ends_applyInternal data outcomes s with ⟨hopens, hrest⟩ | ⟨hnot, hend⟩
  · rcases ends_deployUpdate data outcomes s with ⟨hwrites, hend⟩ | ⟨hnot, e, hend⟩
    · rcases ends_deleteOrigRef data outcomes (s.deploy ⟨data.updateId, data.updateRefspec⟩) with
        ⟨hdelete, t, hend', hdeployments⟩ | ⟨hfails, e, hend'⟩
      · obtain ⟨u, hend'', hdeployments'⟩ := ends_finishApply data outcomes t
        exact Or.inr (Or.inr ⟨⟨hopens, hwrites⟩, hdelete, u,
          hrest ((ends_bind_of_ok hend).2 ((ends_bind_of_ok hend').2 hend'')),
          hdeployments'.trans hdeployments⟩)
      · exact Or.inr (Or.inl ⟨⟨hopens, hwrites⟩, hfails, e,
          hrest ((ends_bind_of_ok hend).2 (ends_bind_error.2 (Or.inl hend')))⟩)
    · exact Or.inl ⟨fun h => hnot h.2, e, hrest (ends_bind_error.2 (Or.inl hend))⟩
  · exact Or.inl ⟨fun h => hnot h.1, hend⟩

/-- To the daemon, what an apply does to the deployments is one event of its worker, or none. -/
theorem applyInternal_simulates {daemon : Daemon ρ} {worker cancellable : ℕ}
    {result : Except GError Unit}
    (hworker : daemon.workers[worker]? = some ⟨cancellable, .apply data⟩)
    (hsame : s.deployments = daemon.deployments)
    (hend : (applyInternal data outcomes).Ends s result t) :
    ∃ daemon', (daemon' = daemon ∨ daemon.step (.deploy worker) = some daemon') ∧
      t.deployments = daemon'.deployments := by
  have hdeploy : daemon.step (.deploy worker) = some { daemon with
      deployments := ⟨data.updateId, data.updateRefspec⟩ :: daemon.deployments } := by
    simp only [Daemon.step, hworker]
  rcases applyInternal_cases data outcomes s with
    ⟨-, e, hend'⟩ | ⟨-, -, e, hend'⟩ | ⟨-, -, u, hend', hdeployments⟩
  · obtain ⟨-, rfl⟩ := hend.unique hend'
    exact ⟨daemon, Or.inl rfl, hsame⟩
  · obtain ⟨-, rfl⟩ := hend.unique hend'
    exact ⟨_, Or.inr hdeploy, congrArg (_ :: ·) hsame⟩
  · obtain ⟨-, rfl⟩ := hend.unique hend'
    exact ⟨_, Or.inr hdeploy, hdeployments.trans (congrArg (_ :: ·) hsame)⟩

end Ends

/-! ### How an apply ends -/

/-- What is asked of an apply that ends in a state: in `Error` it has changed nothing, and in
`UpdateApplied` it has deployed the update. -/
structure FailsCleanly (data : ApplyData) (s t : ApplyState) (state : EosUpdaterState) : Prop where
  error : state = .error →
    t.deployments = s.deployments ∧ t.refs = s.refs ∧ t.config = s.config
  applied_iff : state = .updateApplied ↔
    t.deployments = ⟨data.updateId, data.updateRefspec⟩ :: s.deployments

/-- An apply that fails or is cancelled ends in the error state. -/
theorem applyFinished_error (daemon : Daemon ρ) {task : Task} {result : Except GError Unit}
    (h : task.cancellable ∈ daemon.cancellables.cancelled ∨ ∃ e, result = .error e) :
    (daemon.applyFinished task result).updater.state = .error := by
  obtain ⟨e, he⟩ : ∃ e, daemon.propagate task result = .error e := by
    unfold Daemon.propagate
    split
    · exact ⟨_, rfl⟩
    · next hcancelled => exact h.resolve_left hcancelled
  rw [Daemon.applyFinished, he]
  rfl

/-- An apply that succeeds and is not cancelled ends in its own state. -/
theorem applyFinished_ok (daemon : Daemon ρ) {task : Task}
    (h : task.cancellable ∉ daemon.cancellables.cancelled) :
    (daemon.applyFinished task (.ok ())).updater.state = .updateApplied := by
  rw [Daemon.applyFinished, show daemon.propagate task (.ok ()) = .ok () from if_neg h]
  rfl

/-- **When a failed apply changes nothing**: unless the update is deployed, and then the ref that it
replaces cannot be deleted or the apply is cancelled before it completes. Such an apply ends in
`Error` with the update deployed. -/
theorem apply_failsCleanly_iff (data : ApplyData) (outcomes : ApplyOutcomes) (s : ApplyState)
    (daemon : Daemon ρ) (task : Task) :
    ∃ result t, (applyInternal data outcomes).Ends s result t ∧
      (FailsCleanly data s t (daemon.applyFinished task result).updater.state ↔
        ¬ (outcomes.Deploys ∧ (outcomes.FailsToDelete data s.refs ∨
          task.cancellable ∈ daemon.cancellables.cancelled))) := by
  -- a deployment that is made shows, as it is one more
  have hne {deployments : List Deployment} {deployment : Deployment} :
      deployments ≠ deployment :: deployments := fun h => by simpa using congrArg List.length h
  rcases applyInternal_cases data outcomes s with
    ⟨hnot, e, hend⟩ | ⟨hdeploys, hfails, e, hend⟩ | ⟨hdeploys, hdelete, t, hend, hdeployments⟩
  -- nothing is deployed, and the error is reported
  · refine ⟨_, _, hend, iff_of_true ?_ fun h => hnot h.1⟩
    rw [applyFinished_error daemon (Or.inr ⟨e, rfl⟩)]
    exact ⟨fun _ => ⟨rfl, rfl, rfl⟩, iff_of_false nofun hne⟩
  -- the error comes after the deployment, which stays
  · refine ⟨_, _, hend, iff_of_false (fun hcleanly => ?_) (not_not_intro ⟨hdeploys, Or.inl hfails⟩)⟩
    have hsame := (hcleanly.error (applyFinished_error daemon (Or.inr ⟨e, rfl⟩))).1
    exact hne hsame.symm
  · refine ⟨_, _, hend, ?_⟩
    by_cases hcancelled : task.cancellable ∈ daemon.cancellables.cancelled
    -- the result is `TRUE`, but the callback reports that the task was cancelled
    · refine iff_of_false (fun hcleanly => ?_) (not_not_intro ⟨hdeploys, Or.inr hcancelled⟩)
      have hsame := (hcleanly.error (applyFinished_error daemon (Or.inl hcancelled))).1
      exact hne (hsame.symm.trans hdeployments)
    · refine iff_of_true ?_ fun h => h.2.elim hdelete hcancelled
      rw [applyFinished_ok daemon hcancelled]
      exact ⟨nofun, iff_of_true rfl hdeployments⟩

/-- An update to another branch, from when it is found to when it is applied. -/
def branchUpdate : List (Event Unit) :=
  [.call .poll,
    .finished 0 (.metadata (.ok (some
      { checksum := "update", commit := ⟨"", ""⟩, newRefspec := "eos:new", oldRefspec := "eos:old"
        version := none, urls := none, offlineResultsOnly := false, isUserVisible := true
        releaseNotesUri := none, results := some [()] })) ⟨.ok (), .ok []⟩),
    .call .fetch, .finished 0 (.boolean (.ok ())), .call .apply]

/-- What an apply finds: a repository with the old ref. -/
def oldRef : ApplyState := ⟨[], GHashTable.empty.replace "eos:old" "booted", .empty⟩

/-- An apply in which nothing fails but the transaction that deletes the old ref. -/
def keptRef (isBooted : Bool) : ApplyOutcomes where
  lock := .ok ()
  load := .ok ()
  bootedDeployment := .ok ⟨"eos", "booted", some (.ok "eos:old")⟩
  isBooted := isBooted
  stageTree := .ok ()
  deployTree := .ok ()
  writeDeployment := .ok ()
  resolveOrig := .ok ()
  prepareTransaction := .ok ()
  commitTransaction := .error ⟨.ioFailed, "No space left on device"⟩
  cleanup := .ok ()
  parseRefspec := .ok (some "eos", "new")
  branches := .ok (some "new;")
  collectionId := .ok (some "com.endlessm.Os")
  resolveUpdate := .ok "update"
  collectionBinding := .ok none
  writeBranches := .ok ()
  writeCollectionId := .ok ()
  repoPath := "/ostree/repo"

/-- As the old ref is kept, the daemon reports an error, although the update is staged or
written. -/
theorem keptRef_deployed :
    ∃ history daemon data,
      exec Daemon.step [] (Daemon.onBusAcquired (.ok "booted") true) branchUpdate =
        some (history, daemon) ∧
      daemon.workers = [⟨0, .apply data⟩] ∧
      ∀ isBooted, ∃ result t, (applyInternal data (keptRef isBooted)).Ends oldRef result t ∧
        (daemon.applyFinished ⟨0, .apply data⟩ result).updater.state = .error ∧
        t.deployments = [⟨some "update", some "eos:new"⟩] ∧
        ¬ FailsCleanly data oldRef t
          (daemon.applyFinished ⟨0, .apply data⟩ result).updater.state := by
  let data : ApplyData := ⟨some "update", some "eos:new", some "eos:old"⟩
  have happlying : (exec Daemon.step [] (Daemon.onBusAcquired (.ok "booted") true)
      branchUpdate).map (fun run => run.2.workers) = some [⟨0, .apply data⟩] := by decide +kernel
  obtain ⟨⟨history, daemon⟩, hexec, hworkers⟩ := Option.map_eq_some_iff.1 happlying
  refine ⟨history, daemon, data, hexec, hworkers, fun isBooted => ?_⟩
  have hend : (applyInternal data (keptRef isBooted)).Ends oldRef
      (.error ⟨.ioFailed, "No space left on device"⟩)
      (oldRef.deploy ⟨some "update", some "eos:new"⟩) := by
    cases isBooted <;> rfl
  have herror : (daemon.applyFinished ⟨0, .apply data⟩
      (.error ⟨.ioFailed, "No space left on device"⟩)).updater.state = .error :=
    applyFinished_error daemon (Or.inr ⟨_, rfl⟩)
  exact ⟨_, _, hend, herror, rfl, fun hcleanly =>
    absurd (hcleanly.error herror).1 (List.cons_ne_nil _ _)⟩

end Updater
