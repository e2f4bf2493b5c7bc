import EosUpdater.Installer.Perform
import EosUpdater.Updater.PrepareFlatpaks

/-!
# Conflicting remotes

An action to install says which remote to install from, and may give a collection ID as well. The
remote that the ID is looked up to must then be the same one. This is checked twice: in `fetch.c`
for a whole list before any of it is pulled, with each ID looked up only once, and after the reboot
in `perform-flatpak-actions.c` for one action at a time.

With a cache that only holds what a lookup returns, the loop of the first check is the check of
each action by itself (`transitionCollectionIds_eq`), so both accept the same actions
(`transitionCollectionIds_iff`) for as long as the remotes are configured in the same way.
-/

namespace Updater

open Euu

variable {σ σ' : Type}

/-! ### The check of one action by itself -/

/-- The remote that a collection ID is looked up to, unless the lookup fails. -/
def foundRemote (installation : FlatpakInstallation σ) (s : σ) (collectionId : String) :
    Option String :=
  (lookupFlatpakRemoteForCollectionId installation s collectionId).toOption

/-- What the loop checks for one action, with nothing cached. -/
def checkRemote (installation : FlatpakInstallation σ) (s : σ) (action : FlatpakRemoteRefAction) :
    Except Failure Unit :=
  if action.type ≠ .install then .ok ()
  else
    match action.ref.remote with
    | none => .error .aborted
    | some remote =>
        match action.ref.collectionId.bind (foundRemote installation s) with
        | some candidateRemoteName =>
            if remote ≠ candidateRemoteName then
              .error (.error (preparationConflict remote (action.ref.collectionId.getD "")
                candidateRemoteName))
            else .ok ()
        | none => .ok ()

/-- The action specifies a remote, and its collection ID does not belong to another one. -/
def RemoteAgrees (installation : FlatpakInstallation σ) (s : σ) (action : FlatpakRemoteRefAction) :
    Prop :=
  ∃ remote, action.ref.remote = some remote ∧
    ∀ collectionId candidateRemoteName, action.ref.collectionId = some collectionId →
      lookupFlatpakRemoteForCollectionId installation s collectionId = .ok candidateRemoteName →
        candidateRemoteName = remote

/-- A remote is found for a collection ID that there is. -/
theorem bind_foundRemote_eq_some_iff {installation : FlatpakInstallation σ} {s : σ}
    {collectionId : Option String} {remote : String} :
    collectionId.bind (foundRemote installation s) = some remote ↔
      ∃ id, collectionId = some id ∧
        lookupFlatpakRemoteForCollectionId installation s id = .ok remote := by
  have hfound : ∀ id, foundRemote installation s id = some remote ↔
      lookupFlatpakRemoteForCollectionId installation s id = .ok remote := fun id => by
    rw [foundRemote]
    cases lookupFlatpakRemoteForCollectionId installation s id <;> simp [Except.toOption]
  rw [Option.bind_eq_some_iff]
  exact exists_congr fun id => and_congr_right fun _ => hfound id

/-- The remote of an action agrees if each one found for its collection ID is it. -/
theorem remoteAgrees_iff {installation : FlatpakInstallation σ} {s : σ}
    {action : FlatpakRemoteRefAction} {remote : String}
    (hremote : action.ref.remote = some remote) :
    RemoteAgrees installation s action ↔
      ∀ candidateRemoteName, action.ref.collectionId.bind (foundRemote installation s) =
        some candidateRemoteName → candidateRemoteName = remote := by
  constructor
  · rintro ⟨remote', hremote', h⟩ candidate hcandidate
    obtain rfl : remote = remote' := Option.some_inj.1 (hremote.symm.trans hremote')
    obtain ⟨id, hid, hlookup⟩ := bind_foundRemote_eq_some_iff.1 hcandidate
    exact h id candidate hid hlookup
  · intro h
    exact ⟨remote, hremote, fun id candidate hid hlookup =>
      h candidate (bind_foundRemote_eq_some_iff.2 ⟨id, hid, hlookup⟩)⟩

/-- The check of an action passes exactly if it is no install or its remote agrees. -/
theorem checkRemote_eq_ok_iff {installation : FlatpakInstallation σ} {s : σ}
    {action : FlatpakRemoteRefAction} :
    checkRemote installation s action = .ok () ↔
      (action.type = .install → RemoteAgrees installation s action) := by
  rw [checkRemote]
  split
  · next htype => simp [htype]
  next htype =>
  rw [not_not] at htype
  cases hremote : action.ref.remote with
  | none => simp [htype, RemoteAgrees, hremote]
  | some remote =>
      rw [remoteAgrees_iff hremote]
      cases action.ref.collectionId.bind (foundRemote installation s) with
      | none => simp
      | some candidate =>
          by_cases hsame : remote = candidate
          · simp [hsame]
          · simp [htype, hsame, Ne.symm hsame]

/-! ### The loop with its cache -/

/-- A collection ID is looked up in the cache first. -/
theorem candidateRemote_some (installation : FlatpakInstallation σ) (s : σ)
    (cache : GHashTable String (Option String)) (collectionId : String) :
    candidateRemote installation s cache (some collectionId) =
      match cache.lookup collectionId with
      | some candidateRemoteName => (candidateRemoteName, cache)
      | none => (foundRemote installation s collectionId,
          cache.replace collectionId (foundRemote installation s collectionId)) := by
  rw [candidateRemote, foundRemote]
  cases lookupFlatpakRemoteForCollectionId installation s collectionId <;> rfl

/-- A candidate is what looking up the collection ID would find, and the cache stays one of what
lookups find. -/
theorem candidateRemote_spec {installation : FlatpakInstallation σ} {s : σ}
    {cache : GHashTable String (Option String)} (h : cache.Caches (foundRemote installation s))
    (collectionId : Option String) :
    (candidateRemote installation s cache collectionId).1 =
        collectionId.bind (foundRemote installation s) ∧
      (candidateRemote installation s cache collectionId).2.Caches
        (foundRemote installation s) := by
  cases collectionId with
  | none => exact ⟨rfl, h⟩
  | some collectionId =>
      rw [candidateRemote_some]
      cases hcached : cache.lookup collectionId with
      -- a lookup that has failed is found in the cache as well
      | some candidate => exact ⟨h _ _ hcached, h⟩
      | none => exact ⟨rfl, h.replace collectionId⟩

/-- The loop checks every action by itself: caching makes no difference to the result. -/
theorem transitionCollectionIds_eq {installation : FlatpakInstallation σ} {s : σ}
    {cache : GHashTable String (Option String)} (h : cache.Caches (foundRemote installation s))
    (actions : List FlatpakRemoteRefAction) :
    transitionCollectionIds installation s cache actions =
      forM actions (checkRemote installation s) := by
  induction actions generalizing cache with
  | nil => rfl
  | cons action actions ih =>
      obtain ⟨hcandidate, hcache⟩ := candidateRemote_spec h action.ref.collectionId
      rw [transitionCollectionIds, List.forM_cons, checkRemote]
      split
      · exact ih h
      cases action.ref.remote with
      | none => rfl
      | some remote =>
          simp only [hcandidate]
          cases action.ref.collectionId.bind (foundRemote installation s) with
          | none => exact ih hcache
          | some candidate =>
              by_cases hconflict : remote ≠ candidate
              · simp only [if_pos hconflict]
                rfl
              · simp only [if_neg hconflict]
                exact ih hcache

/-- The check of a list passes exactly if the remotes of all installs agree. -/
theorem forM_checkRemote_eq_ok_iff {installation : FlatpakInstallation σ} {s : σ}
    {actions : List FlatpakRemoteRefAction} :
    forM actions (checkRemote installation s) = .ok () ↔
      ∀ action ∈ actions, action.type = .install → RemoteAgrees installation s action := by
  induction actions with
  | nil => simp [pure, Except.pure]
  | cons action actions ih =>
      rw [List.forM_cons, List.forall_mem_cons, ← ih, ← checkRemote_eq_ok_iff]
      cases checkRemote installation s action with
      | error e => exact iff_of_false (fun h => by cases h) (fun h => by cases h.1)
      | ok => exact (and_iff_right rfl).symm

/-! ### The check when installing -/

/-- `try_install_application` finds no other remote for the collection ID of the action. -/
def PassesRemoteCheck (installation : FlatpakInstallation σ) (s : σ)
    (action : FlatpakRemoteRefAction) : Prop :=
  ∃ remote, action.ref.remote = some remote ∧
    Eufi.conflictingRemote installation s action.ref.collectionId remote = none

/-- There is no conflict exactly if each remote found is the one given. -/
theorem conflictingRemote_eq_none_iff {installation : FlatpakInstallation σ} {s : σ}
    {collectionId : Option String} {remote : String} :
    Eufi.conflictingRemote installation s collectionId remote = none ↔
      ∀ candidateRemoteName, collectionId.bind (foundRemote installation s) =
        some candidateRemoteName → candidateRemoteName = remote := by
  cases collectionId with
  | none => simp [Eufi.conflictingRemote]
  | some id =>
      simp only [Eufi.conflictingRemote, foundRemote, Option.bind_some]
      cases lookupFlatpakRemoteForCollectionId installation s id with
      | error e => simp [Except.toOption]
      | ok candidate => simp [Except.toOption, eq_comm]

/-- Both checks ask for the same. -/
theorem passesRemoteCheck_iff {installation : FlatpakInstallation σ} {s : σ}
    {action : FlatpakRemoteRefAction} :
    PassesRemoteCheck installation s action ↔ RemoteAgrees installation s action := by
  constructor
  · rintro ⟨remote, hremote, h⟩
    exact (remoteAgrees_iff hremote).2 (conflictingRemote_eq_none_iff.1 h)
  · intro h
    obtain ⟨remote, hremote, -⟩ := id h
    exact ⟨remote, hremote, conflictingRemote_eq_none_iff.2 ((remoteAgrees_iff hremote).1 h)⟩

/-- Only the configuration of the remotes matters to the check. -/
theorem passesRemoteCheck_congr {installation : FlatpakInstallation σ} {s : σ}
    {installation' : FlatpakInstallation σ'} {s' : σ'}
    (hconfig : installation'.repoRemotes s' = installation.repoRemotes s)
    (action : FlatpakRemoteRefAction) :
    PassesRemoteCheck installation' s' action ↔ PassesRemoteCheck installation s action := by
  simp only [passesRemoteCheck_iff, RemoteAgrees, lookupFlatpakRemoteForCollectionId, hconfig]

/-- What passes the check is installed as if it had no collection ID. -/
theorem tryInstallApplication_of_passes {installation : FlatpakInstallation σ} {s : σ}
    {action : FlatpakRemoteRefAction} (h : PassesRemoteCheck installation s action)
    (flags : Eufi.InstallerFlags) :
    Eufi.tryInstallApplication installation s action.ref.collectionId action.ref.remote
        action.ref.ref flags =
      Eufi.tryInstallApplication installation s none action.ref.remote action.ref.ref flags := by
  obtain ⟨remote, hremote, hpasses⟩ := h
  have hnone : Eufi.conflictingRemote installation s none remote = none := rfl
  simp only [Eufi.tryInstallApplication, hremote, hpasses, hnone]

/-- **The remotes checked while fetching are the remotes checked while applying.** The cached loop
accepts a list of actions exactly if every action to install specifies a remote and looking up its
collection ID, on its own, finds no other one; which is, with the remotes configured as they were,
exactly if every action to install passes the check of `try_install_application`, and then goes on
to be installed as if there was nothing to check. -/
theorem transitionCollectionIds_iff (installation : FlatpakInstallation σ) (s : σ)
    (installation' : FlatpakInstallation σ') (s' : σ')
    (hconfig : installation'.repoRemotes s' = installation.repoRemotes s)
    (actions : List FlatpakRemoteRefAction) :
    let accepted := transitionCollectionIds installation s GHashTable.empty actions = .ok ()
    (accepted ↔
        ∀ action ∈ actions, action.type = .install → RemoteAgrees installation s action) ∧
      (accepted ↔
        ∀ action ∈ actions, action.type = .install →
          PassesRemoteCheck installation' s' action) ∧
      (accepted → ∀ action ∈ actions, action.type = .install → ∀ flags,
        Eufi.performAction installation' s' action flags =
          Eufi.tryInstallApplication installation' s' none action.ref.remote action.ref.ref
            flags) := by
  intro accepted
  have haccepted : accepted ↔
      ∀ action ∈ actions, action.type = .install → RemoteAgrees installation s action := by
    rw [← forM_checkRemote_eq_ok_iff, ← transitionCollectionIds_eq (GHashTable.caches_empty _)]
  have hpasses : accepted ↔
      ∀ action ∈ actions, action.type = .install → PassesRemoteCheck installation' s' action := by
    simp only [haccepted, passesRemoteCheck_congr hconfig, passesRemoteCheck_iff]
  refine ⟨haccepted, hpasses, fun h action haction htype flags => ?_⟩
  rw [Eufi.performAction, htype]
  exact tryInstallApplication_of_passes (hpasses.1 h action haction htype) flags

/-- Two remotes with one collection ID between them. -/
def sharedCollectionId : FlatpakInstallation Unit :=
  { reportingInstallation (fun _ => false) fun _ => [] with
    repoRemotes := fun _ => .ok [("eos-sdk", .ok none),
      ("eos-apps", .ok (some "com.endlessm.Apps")),
      ("eos-mirror", .ok (some "com.endlessm.Apps"))] }

/-- An install from a remote, with the collection ID that the autoinstall file gives for it. -/
def installFrom (name remote collectionId : String) : FlatpakRemoteRefAction :=
  { sampleAction .install name "10-a" 1 with
    ref := ⟨(sampleAction .install name "10-a" 1).ref.ref, some remote, some collectionId⟩ }

/-- A list with an ID that is in the cache the second time, and one that no remote has. -/
def cachedInstalls : List FlatpakRemoteRefAction :=
  [installFrom "org.example.X" "eos-apps" "com.endlessm.Apps",
    installFrom "org.example.Y" "eos-apps" "com.endlessm.Apps",
    installFrom "org.example.Z" "flathub" "org.flathub.Stable"]

/-- The cached check accepts the sample, and so does the installer's. -/
theorem transitionCollectionIds_iff_cached :
    transitionCollectionIds sharedCollectionId () GHashTable.empty cachedInstalls = .ok () ∧
      ∀ action ∈ cachedInstalls, action.type = .install →
        PassesRemoteCheck sharedCollectionId () action := by
  have haccepted :
      transitionCollectionIds sharedCollectionId () GHashTable.empty cachedInstalls = .ok () := by
    decide
  have hpasses :=
    (transitionCollectionIds_iff sharedCollectionId () sharedCollectionId () rfl cachedInstalls).2.1
  exact ⟨haccepted, hpasses.1 haccepted⟩

/-- The lookup ends at the first of the two remotes, so both checks refuse the second. -/
example :
    let action := installFrom "org.example.X" "eos-mirror" "com.endlessm.Apps"
    transitionCollectionIds sharedCollectionId () GHashTable.empty [action] =
        .error (.error (preparationConflict "eos-mirror" "com.endlessm.Apps" "eos-apps")) ∧
      Eufi.conflictingRemote sharedCollectionId () (some "com.endlessm.Apps") "eos-mirror" =
        some (Eufi.remoteConflict "eos-mirror" "com.endlessm.Apps" "eos-apps") := by
  decide

end Updater
