import EosUpdater.Installer.Apply

/-!
# What runs do to single refs

A transaction may install or remove related refs along with its own, so a run of the installer can
change refs that none of its actions is for. Here is what is left to say of a run on an installation
that deploys as documented.

* `Effect` — a ref is installed, or uninstalled.
* `stepEffect` — what one action does to a ref: what its type says if it is for this ref, and else
  what becomes of the ref as a related one.
* `lastEffect` — the last thing that a list of actions does to a ref.

The last effect decides whether the ref is installed in the end, and without one it is installed
exactly if it was before (`leaves_lastEffect`). Where there are no related refs, the last effect is
that of the run's action for the ref (`lastEffect_of_mem`, `lastEffect_of_ne`).
-/

namespace Eufi

open Euu

variable {σ : Type}

/-! ### Effects -/

/-- A ref is installed, or uninstalled. -/
inductive Effect
  | installs
  | uninstalls
deriving DecidableEq, Repr

namespace Effect

/-- The effect that an action of the given type has on its ref. -/
def ofType : FlatpakRemoteRefActionType → Option Effect
  | .install => some .installs
  | .uninstall => some .uninstalls
  | .update => none

/-- The effect that took a ref from one state to another. -/
def between (before after : RefState) : Option Effect :=
  if before = .absent then if after = .absent then none else some .installs
  else if after = .absent then some .uninstalls else none

/-- The effect is the opposite of what an action of the given type does. -/
def Reverses : Effect → FlatpakRemoteRefActionType → Prop
  | .installs, .uninstall => True
  | .uninstalls, .install => True
  | _, _ => False

/-- Whether an effect reverses a type is read off the two. -/
instance (effect : Effect) (type : FlatpakRemoteRefActionType) :
    Decidable (effect.Reverses type) := by
  unfold Reverses
  split <;> infer_instance

/-- `after` is as the effect leaves a ref that was in the state `before`. -/
def Leaves (before after : RefState) : Option Effect → Prop
  | some .installs => after ≠ .absent
  | some .uninstalls => after = .absent
  | none => after = .absent ↔ before = .absent

/-- What has not changed has had no effect. -/
@[simp]
theorem between_self (state : RefState) : between state state = none := by
  rw [between]
  split <;> rfl

/-- An effect leaves the state that it led to. -/
theorem leaves_between (before after : RefState) : Leaves before after (between before after) := by
  rw [between]
  split
  · next hbefore =>
    split
    · next hafter => exact iff_of_true hafter hbefore
    · next hafter => exact hafter
  · next hbefore =>
    split
    · next hafter => exact hafter
    · next hafter => exact iff_of_false hafter hbefore

/-- Of two effects after each other the later one counts. -/
theorem Leaves.or {state state₁ state₂ : RefState} {earlier later : Option Effect}
    (hearlier : Leaves state state₁ earlier) (hlater : Leaves state₁ state₂ later) :
    Leaves state state₂ (later.or earlier) := by
  cases later with
  | some effect => cases effect <;> exact hlater
  | none =>
      rw [Option.none_or]
      rw [Leaves] at hlater
      match earlier with
      | some .installs => exact mt hlater.1 hearlier
      | some .uninstalls => exact hlater.2 hearlier
      | none => exact hlater.trans hearlier

end Effect

/-- What an action does to a ref that is in the state `before` when it is performed and in the state
`after` then. -/
def stepEffect (action : FlatpakRemoteRefAction) (ref : FlatpakRef) (before after : RefState) :
    Option Effect :=
  if refKey action = ref then Effect.ofType action.type else Effect.between before after

/-- The last effect on a ref of a list of actions that are performed in turn. -/
def lastEffect (installation : FlatpakInstallation σ) (refs : σ → FlatpakRef → RefState)
    (flags : InstallerFlags) (ref : FlatpakRef) : List FlatpakRemoteRefAction → σ → Option Effect
  | [], _ => none
  | action :: rest, s =>
      let s' := (performAction installation s action flags).2
      (lastEffect installation refs flags ref rest s').or
        (stepEffect action ref (refs s ref) (refs s' ref))

/-! ### What they leave -/

variable {installation : FlatpakInstallation σ} {refs : σ → FlatpakRef → RefState}
variable {s s' : σ} {flags : InstallerFlags} {action : FlatpakRemoteRefAction}
variable {actions : List FlatpakRemoteRefAction} {ref : FlatpakRef}

/-- An update that succeeds neither installs its ref nor removes it. -/
private theorem absent_iff_of_tryUpdate (hdeploys : DeploysRefs installation refs)
    (h : tryUpdateApplication installation s ref flags = (.ok (), s')) :
    refs s' ref = .absent ↔ refs s ref = .absent := by
  simp only [tryUpdateApplication] at h
  split at h
  · next s₁ hupdate =>
      cases h
      obtain ⟨hbefore, hafter⟩ := hdeploys.update_ok _ _ _ _ _ hupdate
      exact iff_of_false hafter hbefore
  -- what is not installed stays so
  · next e s₁ hupdate =>
      split at h
      · next hcode =>
          cases h
          obtain ⟨code, message⟩ := e
          cases hcode
          obtain ⟨hbefore, hafter⟩ := hdeploys.update_not_installed _ _ _ _ _ _ hupdate
          exact iff_of_true hafter hbefore
      · cases h

/-- An install that succeeds leaves its ref installed. -/
private theorem present_of_tryInstall (hdeploys : DeploysRefs installation refs)
    {collectionId remote : Option String}
    (h : tryInstallApplication installation s collectionId remote ref flags = (.ok (), s')) :
    refs s' ref ≠ .absent := by
  simp only [tryInstallApplication] at h
  split at h
  · cases h
  split at h
  · cases h
  split at h
  · next s₁ hinstall =>
      cases h
      exact hdeploys.install_ok _ _ _ _ _ hinstall
  -- the ref was installed already and is updated
  · split at h
    · cases h
    split at h
    · next s₂ hupdate =>
        cases h
        exact (hdeploys.update_ok _ _ _ _ _ hupdate).2
    · cases h

/-- An uninstall that succeeds leaves its ref uninstalled. -/
private theorem absent_of_tryUninstall (hdeploys : DeploysRefs installation refs)
    (h : tryUninstallApplication installation s ref = (.ok (), s')) : refs s' ref = .absent := by
  simp only [tryUninstallApplication] at h
  split at h
  · next s₁ huninstall =>
      cases h
      exact hdeploys.uninstall_ok _ _ _ _ huninstall
  · next e s₁ huninstall =>
      split at h
      · cases h
      · next hcode =>
          cases h
          obtain ⟨code, message⟩ := e
          obtain rfl : code = .flatpakNotInstalled := by simpa using hcode
          exact hdeploys.uninstall_not_installed _ _ _ _ _ huninstall

/-- **One action.** Every ref is left as the action's effect on it says. -/
theorem leaves_stepEffect (hdeploys : DeploysRefs installation refs)
    (h : performAction installation s action flags = (.ok (), s')) (ref : FlatpakRef) :
    Effect.Leaves (refs s ref) (refs s' ref)
      (stepEffect action ref (refs s ref) (refs s' ref)) := by
  rw [stepEffect]
  split
  · next hkey =>
    subst hkey
    cases htype : action.type with
    | install =>
        simp only [performAction, htype] at h
        exact present_of_tryInstall hdeploys h
    | update =>
        simp only [performAction, htype] at h
        exact absent_iff_of_tryUpdate hdeploys h
    | uninstall =>
        simp only [performAction, htype] at h
        exact absent_of_tryUninstall hdeploys h
  · exact Effect.leaves_between _ _

/-- **A run.** Every ref is left as the last effect on it says. -/
theorem leaves_lastEffect (hdeploys : DeploysRefs installation refs)
    (h : Performed installation .perform flags s actions s') (ref : FlatpakRef) :
    Effect.Leaves (refs s ref) (refs s' ref)
      (lastEffect installation refs flags ref actions s) := by
  induction h with
  | nil s => exact Iff.rfl
  | cons hstep _ ih =>
      rw [stepAction_perform] at hstep
      rw [lastEffect, hstep]
      exact (leaves_stepEffect hdeploys hstep ref).or ih

/-- A run with an install or uninstall for a ref has an effect on it. -/
theorem lastEffect_ne_none (haction : action ∈ actions) (hstrong : action.overridesUpdate = true) :
    lastEffect installation refs flags (refKey action) actions s ≠ none := by
  induction actions generalizing s with
  | nil => cases haction
  | cons b rest ih =>
      rw [lastEffect, Ne, Option.or_eq_none_iff, not_and]
      rcases List.mem_cons.1 haction with rfl | hrest
      · intro _
        rw [stepEffect, if_pos rfl]
        rw [FlatpakRemoteRefAction.overridesUpdate] at hstrong
        cases htype : action.type <;> simp [Effect.ofType, htype] at hstrong ⊢
      · exact fun hnone => absurd hnone (ih hrest)

/-! ### Without related refs -/

/-- No effect on a ref without an action for it. -/
theorem lastEffect_of_ne (htracks : TracksRefs installation refs)
    (h : Performed installation .perform flags s actions s') (hne : ∀ a ∈ actions, refKey a ≠ ref) :
    lastEffect installation refs flags ref actions s = none := by
  induction h with
  | nil s => rfl
  | @cons s s₁ s₂ a l hstep _ ih =>
      have hother := hne a List.mem_cons_self
      rw [stepAction_perform] at hstep
      have hkept : refs s₁ ref = refs s ref := by
        rw [performAction_ok htracks hstep, setRef, if_neg hother.symm]
      rw [lastEffect, hstep, ih fun b hb => hne b (List.mem_cons_of_mem _ hb), Option.none_or,
        stepEffect, if_neg hother, hkept, Effect.between_self]

/-- The effect on a ref with one action for it is that of this action. -/
theorem lastEffect_of_mem (htracks : TracksRefs installation refs)
    (h : Performed installation .perform flags s actions s')
    (hdistinct : actions.Pairwise fun a b => refKey a ≠ refKey b) (haction : action ∈ actions) :
    lastEffect installation refs flags (refKey action) actions s =
      Effect.ofType action.type := by
  induction h with
  | nil s => cases haction
  | @cons s s₁ s₂ a l hstep hrest ih =>
      rw [List.pairwise_cons] at hdistinct
      rw [stepAction_perform] at hstep
      rw [lastEffect, hstep]
      rcases List.mem_cons.1 haction with rfl | hmem
      · rw [lastEffect_of_ne htracks hrest fun b hb => (hdistinct.1 b hb).symm, Option.none_or,
          stepEffect, if_pos rfl]
      · have hother := hdistinct.1 action hmem
        have hkept : refs s₁ (refKey action) = refs s (refKey action) := by
          rw [performAction_ok htracks hstep, setRef, if_neg hother.symm]
        rw [ih hdistinct.2 hmem, stepEffect, if_neg hother, hkept, Effect.between_self,
          Option.or_none]

end Eufi
