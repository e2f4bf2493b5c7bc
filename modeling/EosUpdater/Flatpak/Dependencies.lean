import EosUpdater.Flatpak.Flatten
import EosUpdater.Flatpak.Installation

/-!
# Adding dependencies

`euu_add_dependency_ref_actions_for_installation` (`flatpak-util.c`) and the functions that ask
libflatpak for the related refs of an action.

The array that the function builds before it squashes is `addDependencies related L`, where
`related` gives the related actions of each action in `L`
(`addDependencyRefActions_eq_ok`). `RelatedPart` says what the inner loop adds to it for one action.
-/

namespace Euu

open Overwrite

variable {σ : Type}

/-! ### The functions -/

/-- Whether the ref of an action is installed, as `find_related_refs_for_action` asks. -/
def isInstalledRef (installation : FlatpakInstallation σ) (s : σ) (ref : FlatpakRef) :
    Except Failure Bool :=
  match installation.getInstalledRef s ref with
  | .ok () => .ok true
  | .error e => if e.code = .flatpakNotInstalled then .ok false else .error (.error e)

/-- The request of the trial transaction for an action, or `none` if there is nothing to do for
it: an update or uninstall of a ref that is not installed. -/
def resolvedRequest (action : FlatpakRemoteRefAction) (isInstalled : Bool) :
    Option TransactionRequest :=
  match action.type with
  | .install =>
      if isInstalled then some (.update action.ref.ref)
      else some (.install action.ref.remote action.ref.ref)
  | .uninstall => if isInstalled then some (.uninstall action.ref.ref) else none
  | .update => if isInstalled then some (.update action.ref.ref) else none

/-- The type of the action for an operation; bundles are not expected. -/
def actionTypeOfOperation : TransactionOperationType → Option FlatpakRemoteRefActionType
  | .install => some .install
  | .uninstall => some .uninstall
  | .update => some .update
  | .installBundle => none

/-- The body of `transaction_ready`: an action for every operation on another ref. It is a
dependency with the source and serial of the action it comes from, and its remote is one that can
provide dependencies. -/
def transactionReady (refAction : FlatpakRemoteRefAction) (remotes : List FlatpakRemote) :
    List TransactionOperation → Except Failure (List FlatpakRemoteRefAction)
  | [] => .ok []
  | op :: ops =>
      if op.ref = refAction.ref.ref then transactionReady refAction remotes ops
      else
        -- both an unknown remote and a bundle violate an assertion
        match remotes.find? fun r => !r.disabled && !r.nodeps && decide (op.remote = some r.name),
          actionTypeOfOperation op.type with
        | some remote, some actionType =>
            match transactionReady refAction remotes ops with
            | .error e => .error e
            | .ok relatedRefActions =>
                .ok ({ type := actionType
                       ref := ⟨op.ref, some remote.name, remote.collectionId⟩
                       source := refAction.source
                       serial := refAction.serial
                       isDependency := true } :: relatedRefActions)
        | _, _ => .error .aborted

/-- `find_related_refs_for_action`. The transaction is only run until it is ready, so the state
does not change. -/
def findRelatedRefsForAction (installation : FlatpakInstallation σ) (s : σ)
    (remotes : List FlatpakRemote) (refAction : FlatpakRemoteRefAction) :
    Except Failure (List FlatpakRemoteRefAction) :=
  match isInstalledRef installation s refAction.ref.ref with
  | .error e => .error e
  | .ok isInstalled =>
      match resolvedRequest refAction isInstalled with
      -- what is not installed is neither updated nor uninstalled
      | none => .ok []
      | some request =>
          let transaction : FlatpakTransaction :=
            { request, noDeploy := false, noPull := false, disablePrune := false }
          match installation.transactionNew s with
          | .error e => .error (.error e)
          | .ok () =>
              match installation.transactionAdd s transaction with
              | .error e => .error (.error e)
              | .ok () =>
                  match installation.transactionReady s transaction with
                  -- the handler of `ready` aborts the transaction once it has the operations
                  | .error e => if e.code = .flatpakAborted then .ok [] else .error (.error e)
                  | .ok ops => transactionReady refAction remotes ops

/-- One step of the inner loop of `euu_add_dependency_ref_actions_for_installation`: a related
install or update is skipped if an action on its ref, of any type, has been added before. -/
def addRelatedRefAction (dependencyRefActions : List FlatpakRemoteRefAction)
    (relatedRefAction : FlatpakRemoteRefAction) : List FlatpakRemoteRefAction :=
  if relatedRefAction.isUpdateOrInstall &&
      dependencyRefActions.any (fun a => a.ref.ref = relatedRefAction.ref.ref) then
    dependencyRefActions
  else dependencyRefActions ++ [relatedRefAction]

/-- One step of the outer loop: an uninstall goes in front of its related actions, an install or
update behind them. -/
def addWithRelated (dependencyRefActions : List FlatpakRemoteRefAction)
    (refAction : FlatpakRemoteRefAction) (relatedRefActions : List FlatpakRemoteRefAction) :
    List FlatpakRemoteRefAction :=
  let before :=
    if refAction.type = .uninstall then dependencyRefActions ++ [refAction]
    else dependencyRefActions
  let withRelated := relatedRefActions.foldl addRelatedRefAction before
  if refAction.isUpdateOrInstall then withRelated ++ [refAction] else withRelated

/-- The outer loop of `euu_add_dependency_ref_actions_for_installation`. -/
def addDependencyLoop (findRelated : FlatpakRemoteRefAction →
      Except Failure (List FlatpakRemoteRefAction)) :
    List FlatpakRemoteRefAction → List FlatpakRemoteRefAction →
      Except Failure (List FlatpakRemoteRefAction)
  | dependencyRefActions, [] => .ok dependencyRefActions
  | dependencyRefActions, refAction :: refActions =>
      match findRelated refAction with
      | .error e => .error e
      | .ok relatedRefActions =>
          addDependencyLoop findRelated
            (addWithRelated dependencyRefActions refAction relatedRefActions) refActions

/-- `euu_add_dependency_ref_actions_for_installation`. -/
def addDependencyRefActionsForInstallation (installation : FlatpakInstallation σ) (s : σ)
    (refActions : List FlatpakRemoteRefAction) : Except Failure (List FlatpakRemoteRefAction) :=
  match installation.listRemotes s with
  | .error e => .error (.error e)
  | .ok remotes =>
      match addDependencyLoop (findRelatedRefsForAction installation s remotes) [] refActions with
      | .error e => .error e
      | .ok dependencyRefActions => .ok (squashRefActionsPtrArray dependencyRefActions)

/-! ### Related actions -/

/-- What is known of related actions whatever the installation reports: they are dependencies that
take their source and serial from the action they are related to, they are never about its own ref,
and they name a remote. -/
structure RelatedActions (related : FlatpakRemoteRefAction → List FlatpakRemoteRefAction) :
    Prop where
  isDependency : ∀ a, ∀ r ∈ related a, r.isDependency = true
  source : ∀ a, ∀ r ∈ related a, r.source = a.source
  serial : ∀ a, ∀ r ∈ related a, r.serial = a.serial
  ref_ne : ∀ a, ∀ r ∈ related a, refKey r ≠ refKey a
  remote : ∀ a, ∀ r ∈ related a, r.ref.remote.isSome = true

/-- What the transaction reports for an action are dependencies with its source and serial, and not
on its own ref. -/
private theorem transactionReady_spec {refAction : FlatpakRemoteRefAction}
    {remotes : List FlatpakRemote} {ops : List TransactionOperation}
    {l : List FlatpakRemoteRefAction} (h : transactionReady refAction remotes ops = .ok l) :
    ∀ r ∈ l, r.isDependency = true ∧ r.source = refAction.source ∧ r.serial = refAction.serial ∧
      refKey r ≠ refKey refAction ∧ r.ref.remote.isSome = true := by
  -- over the operations, as the loop goes
  induction ops generalizing l with
  | nil =>
      cases h
      simp
  | cons op ops ih =>
      rw [transactionReady] at h
      split at h
      · exact ih h
      · next hne =>
          split at h
          · split at h
            · cases h
            · next rest hrest =>
                cases h
                intro r hr
                rcases List.mem_cons.1 hr with rfl | hr
                · exact ⟨rfl, rfl, rfl, hne, rfl⟩
                · exact ih hrest r hr
          · cases h

/-- The related actions of an action, as far as they can be found. -/
def relatedOf (findRelated : FlatpakRemoteRefAction →
    Except Failure (List FlatpakRemoteRefAction)) (a : FlatpakRemoteRefAction) :
    List FlatpakRemoteRefAction :=
  match findRelated a with
  | .ok l => l
  | .error _ => []

/-- The actions collected while the transaction gets ready are related actions. -/
theorem relatedActions_relatedOf (installation : FlatpakInstallation σ) (s : σ)
    (remotes : List FlatpakRemote) :
    RelatedActions (relatedOf (findRelatedRefsForAction installation s remotes)) := by
  have hspec : ∀ a, ∀ r ∈ relatedOf (findRelatedRefsForAction installation s remotes) a,
      r.isDependency = true ∧ r.source = a.source ∧ r.serial = a.serial ∧
        refKey r ≠ refKey a ∧ r.ref.remote.isSome = true := by
    intro a r hr
    rw [relatedOf] at hr
    split at hr
    · next l hl =>
        -- every way out but the last fails or returns nothing
        rw [findRelatedRefsForAction] at hl
        split at hl
        · cases hl
        split at hl
        · cases hl
          cases hr
        simp only at hl
        split at hl
        · cases hl
        split at hl
        · cases hl
        split at hl
        · split at hl
          · cases hl
            cases hr
          · cases hl
        · exact transactionReady_spec hl r hr
    · cases hr
  exact ⟨fun a r hr => (hspec a r hr).1, fun a r hr => (hspec a r hr).2.1,
    fun a r hr => (hspec a r hr).2.2.1, fun a r hr => (hspec a r hr).2.2.2.1,
    fun a r hr => (hspec a r hr).2.2.2.2⟩

/-! ### The array before squashing -/

/-- The array that the outer loop builds, given the related actions of each action. -/
def addDependencies (related : FlatpakRemoteRefAction → List FlatpakRemoteRefAction)
    (refActions : List FlatpakRemoteRefAction) : List FlatpakRemoteRefAction :=
  refActions.foldl (fun D a => addWithRelated D a (related a)) []

/-- The outer loop succeeds if the related actions of every action can be found. -/
theorem addDependencyLoop_eq_ok {findRelated : FlatpakRemoteRefAction →
      Except Failure (List FlatpakRemoteRefAction)} {D D' L : List FlatpakRemoteRefAction}
    (h : addDependencyLoop findRelated D L = .ok D') :
    D' = L.foldl (fun D a => addWithRelated D a (relatedOf findRelated a)) D := by
  induction L generalizing D with
  | nil => cases h; rfl
  | cons a L ih =>
      rw [addDependencyLoop] at h
      split at h
      · cases h
      · next related hrelated =>
          have hof : relatedOf findRelated a = related := by rw [relatedOf, hrelated]
          rw [List.foldl_cons, hof]
          exact ih h

/-- The related actions that the installation reports for an action. -/
def reportedActions (installation : FlatpakInstallation σ) (s : σ) :
    FlatpakRemoteRefAction → List FlatpakRemoteRefAction :=
  match installation.listRemotes s with
  | .ok remotes => relatedOf (findRelatedRefsForAction installation s remotes)
  | .error _ => fun _ => []

/-- The actions reported by an installation are related actions. -/
theorem relatedActions_reportedActions (installation : FlatpakInstallation σ) (s : σ) :
    RelatedActions (reportedActions installation s) := by
  rw [reportedActions]
  split
  · exact relatedActions_relatedOf installation s _
  · exact ⟨by simp, by simp, by simp, by simp, by simp⟩

/-- The result is the squashed array, for the related actions that the installation reports. -/
theorem addDependencyRefActions_eq_ok {installation : FlatpakInstallation σ} {s : σ}
    {L O : List FlatpakRemoteRefAction}
    (h : addDependencyRefActionsForInstallation installation s L = .ok O) :
    O = squashRefActionsPtrArray (addDependencies (reportedActions installation s) L) := by
  rw [addDependencyRefActionsForInstallation] at h
  split at h
  · cases h
  · next remotes hremotes =>
      have hreported : reportedActions installation s =
          relatedOf (findRelatedRefsForAction installation s remotes) := by
        rw [reportedActions, hremotes]
      split at h
      · cases h
      · next D hD =>
          cases h
          rw [addDependencyLoop_eq_ok hD, hreported, addDependencies]

/-- What the inner loop adds to an array `D`: all related uninstalls, and the installs and updates
on refs that are not mentioned before. -/
structure RelatedPart (D related added : List FlatpakRemoteRefAction) : Prop where
  sublist : added.Sublist related
  fresh : ∀ r ∈ added, r.isUpdateOrInstall = true → ∀ d ∈ D, refKey d ≠ refKey r
  first : added.Pairwise fun x y => y.isUpdateOrInstall = true → refKey x ≠ refKey y
  uninstalls : ∀ r ∈ related, r.isUpdateOrInstall = false → r ∈ added
  mentioned : ∀ r ∈ related, ∃ d ∈ D ++ added, refKey d = refKey r

/-- Adding the related actions one by one appends some of them, in their order. -/
theorem exists_relatedPart (D related : List FlatpakRemoteRefAction) :
    ∃ added, related.foldl addRelatedRefAction D = D ++ added ∧ RelatedPart D related added := by
  -- over the related actions, for any array to begin with
  induction related generalizing D with
  | nil => exact ⟨[], by simp, ⟨by simp, by simp, by simp, by simp, by simp⟩⟩
  | cons r related ih =>
      rw [List.foldl_cons, addRelatedRefAction]
      split
      · -- `r` is skipped: it is an install or update on a ref that is in the array
        next hskip =>
          obtain ⟨added, heq, hpart⟩ := ih D
          rw [Bool.and_eq_true, List.any_eq_true] at hskip
          obtain ⟨hinstall, d, hd, hdr⟩ := hskip
          refine ⟨added, heq, hpart.sublist.cons r, hpart.fresh, hpart.first, ?_, ?_⟩
          · intro r' hr' huninstall
            rcases List.mem_cons.1 hr' with rfl | hr'
            · rw [hinstall] at huninstall
              cases huninstall
            · exact hpart.uninstalls r' hr' huninstall
          · intro r' hr'
            rcases List.mem_cons.1 hr' with rfl | hr'
            · exact ⟨d, List.mem_append_left _ hd, of_decide_eq_true hdr⟩
            · exact hpart.mentioned r' hr'
      · -- `r` is added, and the rest is added to an array that has it
        next hadd =>
          obtain ⟨added, heq, hpart⟩ := ih (D ++ [r])
          refine ⟨r :: added, by rw [heq]; simp, hpart.sublist.cons_cons r, ?_, ?_, ?_, ?_⟩
          · intro r' hr' hinstall d hd
            rcases List.mem_cons.1 hr' with rfl | hr'
            · intro hkey
              exact hadd (by
                rw [Bool.and_eq_true, List.any_eq_true]
                exact ⟨hinstall, d, hd, decide_eq_true hkey⟩)
            · exact hpart.fresh r' hr' hinstall d (List.mem_append_left _ hd)
          · refine List.pairwise_cons.2 ⟨fun y hy hinstall => ?_, hpart.first⟩
            exact hpart.fresh y hy hinstall r (by simp)
          · intro r' hr' huninstall
            rcases List.mem_cons.1 hr' with rfl | hr'
            · exact List.mem_cons_self
            · exact List.mem_cons_of_mem _ (hpart.uninstalls r' hr' huninstall)
          · intro r' hr'
            rcases List.mem_cons.1 hr' with rfl | hr'
            · exact ⟨r', by simp, rfl⟩
            · obtain ⟨d, hd, hkey⟩ := hpart.mentioned r' hr'
              exact ⟨d, by simpa using hd, hkey⟩

end Euu
