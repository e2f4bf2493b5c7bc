import EosUpdater.Flatpak.Action
import EosUpdater.Util.Error

/-!
# The Flatpak installation

What the code calls in libflatpak and libostree is a parameter: a `FlatpakInstallation σ` answers
queries about a state `σ` and runs transactions that change it. Here are the functions of
`flatpak-util.c` that wrap these calls, with the error that each of them reports.

`DeploysRefs` collects what the documentation of libflatpak says about the ref that a transaction is
for, in terms of an abstract state per ref; it leaves open what happens to the related refs that
libflatpak installs, updates or removes in the same transaction. `TracksRefs` leaves related refs
out: there a transaction changes no ref but its own.
-/

namespace Euu

/-- `FlatpakRemote`. -/
structure FlatpakRemote where
  name : String
  collectionId : Option String
  disabled : Bool
  nodeps : Bool
deriving DecidableEq, Repr

/-- `FlatpakTransactionOperationType`. -/
inductive TransactionOperationType
  | install
  | update
  | installBundle
  | uninstall
deriving DecidableEq, Repr

/-- `FlatpakTransactionOperation`, with its ref parsed. -/
structure TransactionOperation where
  type : TransactionOperationType
  ref : FlatpakRef
  remote : Option String
deriving DecidableEq, Repr

/-- What a transaction is asked to do: `flatpak_transaction_add_install`, `…_update` or
`…_uninstall`. -/
inductive TransactionRequest
  | install (remote : Option String) (ref : FlatpakRef)
  | update (ref : FlatpakRef)
  | uninstall (ref : FlatpakRef)
deriving DecidableEq, Repr

/-- A `FlatpakTransaction` with a single request. -/
structure FlatpakTransaction where
  request : TransactionRequest
  noDeploy : Bool
  noPull : Bool
  disablePrune : Bool
deriving DecidableEq, Repr

/-- The arguments of the signal `operation-error`. -/
structure OperationError where
  error : GError
  nonFatal : Bool
deriving DecidableEq, Repr

/-- What the code uses of a `FlatpakInstallation` and of the OSTree repository in it. -/
structure FlatpakInstallation (σ : Type) where
  /-- `flatpak_installation_get_installed_ref`. -/
  getInstalledRef : σ → FlatpakRef → Except GError Unit
  /-- `ostree_repo_open` and `ostree_repo_remote_list`, with the option `collection-id` of each
  remote. -/
  repoRemotes : σ → Except GError (List (String × Except GError (Option String)))
  /-- `flatpak_installation_list_remotes`. -/
  listRemotes : σ → Except GError (List FlatpakRemote)
  /-- `flatpak_transaction_new_for_installation`. -/
  transactionNew : σ → Except GError Unit
  /-- `flatpak_transaction_add_install`, `…_update` or `…_uninstall`. -/
  transactionAdd : σ → FlatpakTransaction → Except GError Unit
  /-- The operations of a transaction by the time of its signal `ready`, or the error if
  `flatpak_transaction_run` fails before that. -/
  transactionReady : σ → FlatpakTransaction → Except GError (List TransactionOperation)
  /-- `flatpak_transaction_run`, given the handler of `operation-error` (which says whether to
  continue): the signals emitted, the result, and the state afterwards. -/
  transactionRun : σ → FlatpakTransaction → (OperationError → Bool) →
    List OperationError × Except GError Unit × σ

variable {σ : Type}

/-- `euu_lookup_flatpak_remote_for_collection_id`, once it has the list of remotes. -/
def lookupRemoteIn (collectionId : String) :
    List (String × Except GError (Option String)) → Except GError String
  | [] =>
      .error ⟨.ioNotFound, "Could not find remote with collection ID ‘" ++ collectionId ++ "’"⟩
  | (remote, .ok remoteCollectionId) :: remotes =>
      if remoteCollectionId = some collectionId then .ok remote
      else lookupRemoteIn collectionId remotes
  | (_, .error e) :: _ => .error e

/-- `euu_lookup_flatpak_remote_for_collection_id`. -/
def lookupFlatpakRemoteForCollectionId (installation : FlatpakInstallation σ) (s : σ)
    (collectionId : String) : Except GError String :=
  match installation.repoRemotes s with
  | .error e => .error e
  | .ok remotes => lookupRemoteIn collectionId remotes

/-- `transaction_operation_error`: whether to continue after the error. -/
def transactionOperationError (operationError : OperationError) : Bool :=
  operationError.error.code = .flatpakSkipped || operationError.nonFatal

/-- `transaction_run_single_op`: run the transaction, and report the first operation error that
was not passed over, if there is one, instead of the transaction's own. -/
def transactionRunSingleOp (installation : FlatpakInstallation σ) (s : σ)
    (transaction : FlatpakTransaction) : Except GError Unit × σ :=
  match installation.transactionRun s transaction transactionOperationError with
  | (_, .ok (), s') => (.ok (), s')
  | (operationErrors, .error transactionError, s') =>
      -- only the first error is kept; the handler stops the transaction there
      match operationErrors.find? fun e => !transactionOperationError e with
      | some operationError => (.error operationError.error, s')
      | none => (.error transactionError, s')

/-- The common body of `euu_flatpak_transaction_install`, `…_update` and `…_uninstall`. Their
callers never ask for both `no_deploy` and `no_pull`. -/
def flatpakTransaction (installation : FlatpakInstallation σ) (s : σ)
    (transaction : FlatpakTransaction) : Except GError Unit × σ :=
  match installation.transactionNew s with
  | .error e => (.error e, s)
  | .ok () =>
      match installation.transactionAdd s transaction with
      | .error e => (.error e, s)
      | .ok () => transactionRunSingleOp installation s transaction

/-- `euu_flatpak_transaction_install`. -/
def flatpakTransactionInstall (installation : FlatpakInstallation σ) (s : σ)
    (remote : Option String) (ref : FlatpakRef) (noDeploy noPull : Bool) :
    Except GError Unit × σ :=
  flatpakTransaction installation s
    { request := .install remote ref, noDeploy, noPull, disablePrune := false }

/-- `euu_flatpak_transaction_update`. -/
def flatpakTransactionUpdate (installation : FlatpakInstallation σ) (s : σ)
    (ref : FlatpakRef) (noDeploy noPull noPrune : Bool) : Except GError Unit × σ :=
  flatpakTransaction installation s
    { request := .update ref, noDeploy, noPull, disablePrune := noPrune }

/-- `euu_flatpak_transaction_uninstall`. -/
def flatpakTransactionUninstall (installation : FlatpakInstallation σ) (s : σ)
    (ref : FlatpakRef) (noPrune : Bool) : Except GError Unit × σ :=
  flatpakTransaction installation s
    { request := .uninstall ref, noDeploy := false, noPull := false, disablePrune := noPrune }

/-- An installation with one remote, on which every transaction succeeds and nothing changes. It
reports the given refs as installed, and the given operations for each request. -/
def reportingInstallation (isInstalled : FlatpakRef → Bool)
    (operations : TransactionRequest → List TransactionOperation) : FlatpakInstallation Unit where
  getInstalledRef _ ref :=
    if isInstalled ref then .ok ()
    else .error ⟨.flatpakNotInstalled, ref.name ++ " not installed"⟩
  repoRemotes _ := .ok [("eos-apps", .ok (some "com.endlessm.Apps"))]
  listRemotes _ := .ok [⟨"eos-apps", some "com.endlessm.Apps", false, false⟩]
  transactionNew _ := .ok ()
  transactionAdd _ _ := .ok ()
  transactionReady _ transaction := .ok (operations transaction.request)
  transactionRun s _ _ := ([], .ok (), s)

/-! ### What transactions do -/

/-- Whether a ref is installed, and at its latest version. -/
inductive RefState
  | absent
  | outdated
  | latest
deriving DecidableEq, Repr

/-- What an action does to its ref: install it or bring it up to date, update it if it is
installed, or remove it. -/
def RefState.after : FlatpakRemoteRefActionType → RefState → RefState
  | .install, _ => .latest
  | .uninstall, _ => .absent
  | .update, .absent => .absent
  | .update, _ => .latest

/-- An install or uninstall does the same to every ref. -/
theorem RefState.after_eq_of_overridesUpdate {a : FlatpakRemoteRefAction}
    (h : a.overridesUpdate = true) (state state' : RefState) :
    RefState.after a.type state = RefState.after a.type state' := by
  rw [FlatpakRemoteRefAction.overridesUpdate] at h
  cases htype : a.type with
  | install => rfl
  | uninstall => rfl
  | update => simp [htype] at h

/-- An update behind another action on its ref does nothing: what that leaves is not outdated. -/
theorem RefState.after_update_after (type : FlatpakRemoteRefActionType) (state : RefState) :
    RefState.after .update (RefState.after type state) = RefState.after type state := by
  cases type <;> cases state <;> rfl

/-- The state of one ref changes to `state`. -/
def setRef (refs : FlatpakRef → RefState) (ref : FlatpakRef) (state : RefState) :
    FlatpakRef → RefState :=
  fun r => if r = ref then state else refs r

/-- `refs` follows the installed refs of the installation: queries answer by it, a transaction that
deploys leaves its own ref installed or not, as it says, if it succeeds; and the error for a ref
that is not installed is reported for such refs only. Transactions may change other refs too. -/
structure DeploysRefs (installation : FlatpakInstallation σ) (refs : σ → FlatpakRef → RefState) :
    Prop where
  installed : ∀ s ref, refs s ref ≠ .absent → installation.getInstalledRef s ref = .ok ()
  not_installed : ∀ s ref, refs s ref = .absent →
    ∃ message, installation.getInstalledRef s ref = .error ⟨.flatpakNotInstalled, message⟩
  install_ok : ∀ s s' remote ref noPull,
    flatpakTransactionInstall installation s remote ref false noPull = (.ok (), s') →
      refs s' ref ≠ .absent
  update_ok : ∀ s s' ref noPull noPrune,
    flatpakTransactionUpdate installation s ref false noPull noPrune = (.ok (), s') →
      refs s ref ≠ .absent ∧ refs s' ref ≠ .absent
  uninstall_ok : ∀ s s' ref noPrune,
    flatpakTransactionUninstall installation s ref noPrune = (.ok (), s') → refs s' ref = .absent
  update_not_installed : ∀ s s' ref noPull noPrune message,
    flatpakTransactionUpdate installation s ref false noPull noPrune =
      (.error ⟨.flatpakNotInstalled, message⟩, s') → refs s ref = .absent ∧ refs s' ref = .absent
  uninstall_not_installed : ∀ s s' ref noPrune message,
    flatpakTransactionUninstall installation s ref noPrune =
      (.error ⟨.flatpakNotInstalled, message⟩, s') → refs s' ref = .absent

/-- `refs` follows the installed refs of an installation without related refs: queries answer by it,
a transaction that deploys changes just the ref that it is about if it succeeds, and changes nothing
if it fails; and the error for a ref that is not installed is reported for such refs only. -/
structure TracksRefs (installation : FlatpakInstallation σ) (refs : σ → FlatpakRef → RefState) :
    Prop where
  installed : ∀ s ref, refs s ref ≠ .absent → installation.getInstalledRef s ref = .ok ()
  not_installed : ∀ s ref, refs s ref = .absent →
    ∃ message, installation.getInstalledRef s ref = .error ⟨.flatpakNotInstalled, message⟩
  install_ok : ∀ s s' remote ref noPull,
    flatpakTransactionInstall installation s remote ref false noPull = (.ok (), s') →
      refs s' = setRef (refs s) ref .latest
  update_ok : ∀ s s' ref noPull noPrune,
    flatpakTransactionUpdate installation s ref false noPull noPrune = (.ok (), s') →
      refs s ref ≠ .absent ∧ refs s' = setRef (refs s) ref .latest
  uninstall_ok : ∀ s s' ref noPrune,
    flatpakTransactionUninstall installation s ref noPrune = (.ok (), s') →
      refs s' = setRef (refs s) ref .absent
  failed : ∀ s s' transaction e,
    flatpakTransaction installation s transaction = (.error e, s') → refs s' = refs s
  update_not_installed : ∀ s s' ref noPull noPrune message,
    flatpakTransactionUpdate installation s ref false noPull noPrune =
      (.error ⟨.flatpakNotInstalled, message⟩, s') → refs s ref = .absent
  uninstall_not_installed : ∀ s s' ref noPrune message,
    flatpakTransactionUninstall installation s ref noPrune =
      (.error ⟨.flatpakNotInstalled, message⟩, s') → refs s ref = .absent

/-- An installation without related refs deploys as documented. -/
theorem TracksRefs.deploysRefs {installation : FlatpakInstallation σ}
    {refs : σ → FlatpakRef → RefState} (htracks : TracksRefs installation refs) :
    DeploysRefs installation refs where
  installed := htracks.installed
  not_installed := htracks.not_installed
  install_ok _ _ _ _ _ h := by simp [htracks.install_ok _ _ _ _ _ h, setRef]
  update_ok _ _ _ _ _ h := by
    obtain ⟨hinstalled, hrefs⟩ := htracks.update_ok _ _ _ _ _ h
    exact ⟨hinstalled, by simp [hrefs, setRef]⟩
  uninstall_ok _ _ _ _ h := by simp [htracks.uninstall_ok _ _ _ _ h, setRef]
  update_not_installed _ _ _ _ _ _ h := by
    have habsent := htracks.update_not_installed _ _ _ _ _ _ h
    exact ⟨habsent, by rw [htracks.failed _ _ _ _ h, habsent]⟩
  uninstall_not_installed _ _ _ _ _ h := by
    rw [htracks.failed _ _ _ _ h, htracks.uninstall_not_installed _ _ _ _ _ h]

/-! ### An installation that keeps just its refs -/

/-- The states of the refs, and the ref on which transactions fail. -/
structure TrackedRefs where
  refs : FlatpakRef → RefState
  broken : Option FlatpakRef

/-- The ref of a request, and the type of action that it stands for. -/
def TransactionRequest.target : TransactionRequest → FlatpakRef × FlatpakRemoteRefActionType
  | .install _ ref => (ref, .install)
  | .update ref => (ref, .update)
  | .uninstall ref => (ref, .uninstall)

namespace TrackedRefs

/-- Refs are installed only if they are not yet, and updated or uninstalled only if they are. -/
def add (s : TrackedRefs) (transaction : FlatpakTransaction) : Except GError Unit :=
  let (ref, type) := transaction.request.target
  if type = .install then
    if s.refs ref = .absent then .ok ()
    else .error ⟨.flatpakAlreadyInstalled, ref.name ++ " is already installed"⟩
  else if s.refs ref = .absent then .error ⟨.flatpakNotInstalled, ref.name ++ " is not installed"⟩
  else .ok ()

/-- A transaction that deploys changes its ref. -/
def run (s : TrackedRefs) (transaction : FlatpakTransaction) : Except GError Unit × TrackedRefs :=
  let (ref, type) := transaction.request.target
  if s.broken = some ref then (.error ⟨.ioFailed, "No space left on device"⟩, s)
  else if transaction.noDeploy then (.ok (), s)
  else (.ok (), { s with refs := setRef s.refs ref (RefState.after type (s.refs ref)) })

end TrackedRefs

/-- An installation without remotes that keeps just the states of its refs. -/
def trackingInstallation : FlatpakInstallation TrackedRefs where
  getInstalledRef s ref :=
    if s.refs ref = .absent then .error ⟨.flatpakNotInstalled, ref.name ++ " is not installed"⟩
    else .ok ()
  repoRemotes _ := .ok []
  listRemotes _ := .ok []
  transactionNew _ := .ok ()
  transactionAdd := TrackedRefs.add
  transactionReady _ _ := .ok []
  transactionRun s transaction _ := ([], s.run transaction)

/-- A transaction of the tracking installation does what its one action says. -/
private theorem flatpakTransaction_tracking (s : TrackedRefs) (transaction : FlatpakTransaction) :
    flatpakTransaction trackingInstallation s transaction =
      match s.add transaction with
      | .error e => (.error e, s)
      | .ok () => s.run transaction := by
  simp only [flatpakTransaction, trackingInstallation, transactionRunSingleOp]
  cases s.add transaction with
  | error e => rfl
  | ok => rcases s.run transaction with ⟨_ | _, s'⟩ <;> rfl

section Tracking

variable {s s' : TrackedRefs} {transaction : FlatpakTransaction} {ref : FlatpakRef}

/-- A transaction that succeeds changes its ref, which it found installed unless it installs it. -/
private theorem refs_of_tracking_ok (type : FlatpakRemoteRefActionType)
    (htarget : transaction.request.target = (ref, type)) (hdeploy : transaction.noDeploy = false)
    (h : flatpakTransaction trackingInstallation s transaction = (.ok (), s')) :
    (type ≠ .install → s.refs ref ≠ .absent) ∧
      s'.refs = setRef s.refs ref (RefState.after type (s.refs ref)) := by
  rw [flatpakTransaction_tracking] at h
  split at h
  · cases h
  · next hadd =>
    simp only [TrackedRefs.run, htarget, hdeploy, Bool.false_eq_true, if_false] at h
    split at h
    · cases h
    · cases h
      refine ⟨fun htype habsent => ?_, rfl⟩
      simp [TrackedRefs.add, htarget, htype, habsent] at hadd

/-- Only a ref that is not installed is refused as such. -/
private theorem absent_of_tracking_error {message : String} (type : FlatpakRemoteRefActionType)
    (htarget : transaction.request.target = (ref, type)) (htype : type ≠ .install)
    (h : flatpakTransaction trackingInstallation s transaction =
      (.error ⟨.flatpakNotInstalled, message⟩, s')) : s.refs ref = .absent := by
  by_contra habsent
  have hadd : s.add transaction = .ok () := by
    simp [TrackedRefs.add, htarget, htype, habsent]
  rw [flatpakTransaction_tracking, hadd] at h
  simp only [TrackedRefs.run] at h
  split at h
  · cases h
  · split at h <;> cases h

/-- A transaction that fails changes nothing. -/
private theorem refs_of_tracking_error {e : GError}
    (h : flatpakTransaction trackingInstallation s transaction = (.error e, s')) :
    s'.refs = s.refs := by
  rw [flatpakTransaction_tracking] at h
  split at h
  · cases h
    rfl
  · simp only [TrackedRefs.run] at h
    split at h
    · cases h
      rfl
    · split at h <;> cases h

end Tracking

/-- The sample installation behaves as documented. -/
theorem tracksRefs_tracking : TracksRefs trackingInstallation TrackedRefs.refs where
  installed s ref h := by simp [trackingInstallation, h]
  not_installed s ref h := ⟨ref.name ++ " is not installed", by simp [trackingInstallation, h]⟩
  install_ok _ _ _ _ _ h := (refs_of_tracking_ok .install rfl rfl h).2
  update_ok s s' ref noPull noPrune h := by
    obtain ⟨hinstalled, hrefs⟩ := refs_of_tracking_ok .update rfl rfl h
    have habsent : s.refs ref ≠ .absent := hinstalled (by decide)
    refine ⟨habsent, hrefs.trans (congrArg (setRef s.refs ref) ?_)⟩
    -- an update makes a ref that is installed the latest
    cases hstate : s.refs ref with
    | absent => exact absurd hstate habsent
    | outdated => rfl
    | latest => rfl
  uninstall_ok _ _ _ _ h := (refs_of_tracking_ok .uninstall rfl rfl h).2
  failed _ _ _ _ h := refs_of_tracking_error h
  update_not_installed _ _ _ _ _ _ h := absent_of_tracking_error .update rfl (by decide) h
  uninstall_not_installed _ _ _ _ _ h := absent_of_tracking_error .uninstall rfl (by decide) h

/-! ### An installation with related refs -/

/-- A transaction that deploys does to the related refs what it does to its own. -/
def TrackedRefs.runRelated (related : FlatpakRef → List FlatpakRef) (s : TrackedRefs)
    (transaction : FlatpakTransaction) : Except GError Unit × TrackedRefs :=
  let (ref, type) := transaction.request.target
  if s.broken = some ref then (.error ⟨.ioFailed, "No space left on device"⟩, s)
  else if transaction.noDeploy then (.ok (), s)
  else
    (.ok (), { s with refs := fun r =>
      if r = ref ∨ r ∈ related ref then RefState.after type (s.refs r) else s.refs r })

/-- The installation that keeps just the states of its refs, where each has related refs. -/
def relatedInstallation (related : FlatpakRef → List FlatpakRef) :
    FlatpakInstallation TrackedRefs :=
  { trackingInstallation with
    transactionRun := fun s transaction _ => ([], s.runRelated related transaction) }

section Related

variable {related : FlatpakRef → List FlatpakRef} {s s' : TrackedRefs}
variable {transaction : FlatpakTransaction} {ref : FlatpakRef}

/-- A transaction with related refs does what its action says to each of them. -/
private theorem flatpakTransaction_related (s : TrackedRefs) (transaction : FlatpakTransaction) :
    flatpakTransaction (relatedInstallation related) s transaction =
      match s.add transaction with
      | .error e => (.error e, s)
      | .ok () => s.runRelated related transaction := by
  simp only [flatpakTransaction, relatedInstallation, trackingInstallation, transactionRunSingleOp]
  cases s.add transaction with
  | error e => rfl
  | ok => rcases s.runRelated related transaction with ⟨_ | _, s'⟩ <;> rfl

/-- A transaction that succeeds changes its ref, which it found installed unless it installs it. -/
private theorem refs_of_related_ok (type : FlatpakRemoteRefActionType)
    (htarget : transaction.request.target = (ref, type)) (hdeploy : transaction.noDeploy = false)
    (h : flatpakTransaction (relatedInstallation related) s transaction = (.ok (), s')) :
    (type ≠ .install → s.refs ref ≠ .absent) ∧
      s'.refs ref = RefState.after type (s.refs ref) := by
  rw [flatpakTransaction_related] at h
  split at h
  · cases h
  · next hadd =>
    simp only [TrackedRefs.runRelated, htarget, hdeploy, Bool.false_eq_true, if_false] at h
    split at h
    · cases h
    · cases h
      refine ⟨fun htype habsent => ?_, if_pos (Or.inl rfl)⟩
      simp [TrackedRefs.add, htarget, htype, habsent] at hadd

/-- Only a ref that is not installed is refused as such, and then nothing changes. -/
private theorem absent_of_related_error {message : String} (type : FlatpakRemoteRefActionType)
    (htarget : transaction.request.target = (ref, type)) (htype : type ≠ .install)
    (h : flatpakTransaction (relatedInstallation related) s transaction =
      (.error ⟨.flatpakNotInstalled, message⟩, s')) :
    s.refs ref = .absent ∧ s'.refs ref = .absent := by
  rw [flatpakTransaction_related] at h
  split at h
  · next hadd =>
    cases h
    by_contra habsent
    rw [and_self] at habsent
    simp [TrackedRefs.add, htarget, htype, habsent] at hadd
  · simp only [TrackedRefs.runRelated] at h
    split at h
    · cases h
    · split at h <;> cases h

end Related

/-- The sample installation with related refs deploys as documented. -/
theorem deploysRefs_related (related : FlatpakRef → List FlatpakRef) :
    DeploysRefs (relatedInstallation related) TrackedRefs.refs where
  installed s ref h := by simp [relatedInstallation, trackingInstallation, h]
  not_installed s ref h :=
    ⟨ref.name ++ " is not installed", by simp [relatedInstallation, trackingInstallation, h]⟩
  install_ok _ _ _ _ _ h := by simp [(refs_of_related_ok .install rfl rfl h).2, RefState.after]
  update_ok s s' ref _ _ h := by
    obtain ⟨hinstalled, hrefs⟩ := refs_of_related_ok .update rfl rfl h
    have habsent : s.refs ref ≠ .absent := hinstalled (by decide)
    refine ⟨habsent, ?_⟩
    rw [hrefs]
    -- an update makes a ref that is installed the latest
    cases hstate : s.refs ref with
    | absent => exact absurd hstate habsent
    | outdated => simp [RefState.after]
    | latest => simp [RefState.after]
  uninstall_ok _ _ _ _ h := (refs_of_related_ok .uninstall rfl rfl h).2
  update_not_installed _ _ _ _ _ _ h := absent_of_related_error .update rfl (by decide) h
  uninstall_not_installed _ _ _ _ _ h := (absent_of_related_error .uninstall rfl (by decide) h).2

end Euu
