import EosUpdater.Installer.Apply

/-!
# What squashing preserves

Squashing keeps, for each ref, the action that the documentation lets prevail (`lastAction`), and
executing what it keeps has the effect of executing the whole list (`refsAfter_squash`): an install
or uninstall makes everything before it irrelevant, and an update behind another action does
nothing.
-/

namespace Eufi

open Euu Overwrite

/-- The action on `ref` that prevails: the last install or uninstall, or the last update if there
is none. -/
def lastAction (actions : List FlatpakRemoteRefAction) (ref : FlatpakRef) :
    Option FlatpakRemoteRefAction :=
  let onRef := actions.filter fun a => decide (refKey a = ref)
  (onRef.filter fun a => a.type = .install || a.type = .uninstall).getLast?.or
    (onRef.filter fun a => decide (a.type = .update)).getLast?

/-- An action on the ref at the end prevails, unless it is an update and there was an install or
uninstall. -/
private theorem lastAction_concat (l : List FlatpakRemoteRefAction) (a : FlatpakRemoteRefAction)
    (ref : FlatpakRef) :
    lastAction (l ++ [a]) ref =
      if refKey a = ref then
        supersede FlatpakRemoteRefAction.overridesUpdate (lastAction l ref) a
      else lastAction l ref := by
  by_cases hkey : refKey a = ref
  · rw [if_pos hkey]
    simp only [lastAction, List.filter_append, List.filter_cons, List.filter_nil, hkey,
      decide_true, if_true]
    generalize l.filter (fun a => decide (refKey a = ref)) = onRef
    -- an install or uninstall at the end is the last one
    cases htype : a.type with
    | install =>
        rw [supersede_of_strong (by simp [FlatpakRemoteRefAction.overridesUpdate, htype])]
        simp
    | uninstall =>
        rw [supersede_of_strong (by simp [FlatpakRemoteRefAction.overridesUpdate, htype])]
        simp
    | update =>
        -- an update gives way to whatever prevails already, unless that is an update
        cases hlast : (onRef.filter fun a => a.type = .install || a.type = .uninstall).getLast? with
        | some x =>
            have hx : x.overridesUpdate = true := (List.mem_filter.1 (List.mem_of_getLast? hlast)).2
            have ha : a.overridesUpdate = false := by
              rw [FlatpakRemoteRefAction.overridesUpdate, htype]
              rfl
            simp [supersede, hlast, hx, ha]
        | none =>
            cases hupdate : (onRef.filter fun a => decide (a.type = .update)).getLast? with
            | none => simp [supersede, hlast, hupdate]
            | some y =>
                have hy := (List.mem_filter.1 (List.mem_of_getLast? hupdate)).2
                rw [decide_eq_true_eq] at hy
                simp [supersede, FlatpakRemoteRefAction.overridesUpdate, htype, hlast, hupdate, hy]
  · simp [lastAction, List.filter_append, hkey]

/-- Among the actions on a ref the last one wins, except an update behind an install or
uninstall. -/
theorem winner_eq_lastAction (l : List FlatpakRemoteRefAction) (ref : FlatpakRef) :
    winner refKey FlatpakRemoteRefAction.overridesUpdate l ref = lastAction l ref := by
  induction l using List.reverseRecOn with
  | nil => rfl
  | append_singleton l a ih => rw [winner_concat, lastAction_concat, ih]

/-- The state of a ref after a list depends on the actions on it only. -/
theorem refsAfter_apply (refs : FlatpakRef → RefState) (l : List FlatpakRemoteRefAction)
    (ref : FlatpakRef) :
    refsAfter refs l ref =
      (l.filter fun a => decide (refKey a = ref)).foldl
        (fun state a => RefState.after a.type state) (refs ref) := by
  induction l generalizing refs with
  | nil => rfl
  | cons a l ih =>
      rw [refsAfter, List.foldl_cons, ← refsAfter, ih]
      by_cases hkey : refKey a = ref
      · subst hkey
        simp [setRef]
      · simp [setRef, hkey, Ne.symm hkey]

/-- The state of a ref after a list is that after the winner on it. -/
theorem refsAfter_eq_winner (refs : FlatpakRef → RefState) (l : List FlatpakRemoteRefAction)
    (ref : FlatpakRef) :
    refsAfter refs l ref =
      (winner refKey FlatpakRemoteRefAction.overridesUpdate l ref).elim (refs ref) fun a =>
        RefState.after a.type (refs ref) := by
  have hupdate : ∀ b : FlatpakRemoteRefAction, b.overridesUpdate = false → b.type = .update := by
    intro b hb
    rw [FlatpakRemoteRefAction.overridesUpdate] at hb
    cases htype : b.type <;> simp [htype] at hb ⊢
  rw [refsAfter_apply]
  -- a strong action forgets the state, and an update changes nothing before or after another
  refine foldl_eq_winner (fun a state => RefState.after a.type state) ?_ ?_ ?_ l ref _
  · intro a state state' ha
    exact RefState.after_eq_of_overridesUpdate ha state state'
  · intro a b state _ hb
    show RefState.after b.type _ = _
    rw [hupdate b hb, RefState.after_update_after]
  · intro a b state ha hb
    show RefState.after b.type (RefState.after a.type state) = RefState.after b.type state
    rw [hupdate a ha, hupdate b hb, RefState.after_update_after]

/-- A list has the effect of its squashed form. -/
theorem refsAfter_squash (refs : FlatpakRef → RefState) (l : List FlatpakRemoteRefAction) :
    refsAfter refs (squashRefActionsPtrArray l) = refsAfter refs l := by
  ext ref
  rw [refsAfter_eq_winner, refsAfter_eq_winner, winner_squash]

/-- **Squashing preserves meaning.** For each ref it keeps just the action that prevails, and what
it keeps has the effect of the whole list, from any state of the refs. -/
theorem squash_preserves (l : List FlatpakRemoteRefAction) :
    (∀ ref, (squashRefActionsPtrArray l).filter (fun a => decide (refKey a = ref)) =
      (lastAction l ref).toList) ∧
    ∀ refs, refsAfter refs (squashRefActionsPtrArray l) = refsAfter refs l := by
  refine ⟨fun ref => ?_, fun refs => refsAfter_squash refs l⟩
  rw [filter_eq_toList_winner FlatpakRemoteRefAction.overridesUpdate (pairwise_squash l),
    winner_squash, winner_eq_lastAction]

end Eufi
