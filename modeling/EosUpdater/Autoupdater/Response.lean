import EosUpdater.Autoupdater.Main
import EosUpdater.Updater.Skeleton

/-!
# What a run answers to a state

`on_state_changed` answers each state of the daemon in one of four ways: it waits while a worker is
in flight, makes the call that this state allows, fails, or is done (`Responds`).
-/

namespace Autoupdater

open Updater

/-- The kind of the worker that a call asks for. -/
def Call.kind : Call → WorkerKind
  | poll | pollVolume _ => .poll
  | fetchFull _ => .fetch
  | apply => .apply

/-- The method that a call invokes. -/
def Call.method : Call → Method
  | poll => .poll
  | pollVolume path => .pollVolume path
  | fetchFull force => .fetchFull [("force", .boolean force)]
  | apply => .apply

/-- The properties of the daemon, as they are announced to a run. -/
def Properties.ofShown (shown : Shown) : Properties where
  state := .state shown.state
  updateRefspec := shown.updateRefspec
  updateId := shown.updateId
  updateIsUserVisible := shown.updateIsUserVisible

namespace Session

variable (config : Config) (readings : Readings) (properties : Properties)

/-- In this state there is nothing more to do for a run: there was no update, the next step is not
among those that are configured, it is too early for it, or the update was applied. -/
def Done (t : Session) : EosUpdaterState → Prop
  | .ready => t.polledAlready = true ∨ config.lastAutomaticStep.value < 1
  | .updateAvailable => config.lastAutomaticStep.value < 2
  | .updateReady => config.lastAutomaticStep.value < 3 ∨
      (config.forceUpdate = false ∧ properties.updateIsUserVisible = true ∧
        ∃ results, t.pollResults = some results ∧
          usecs readings.applyTime < nextUpdate config results)
  | .updateApplied => True
  | _ => False

/-- What a run answers to a state of the daemon. -/
inductive Responds (s : Session) (state : EosUpdaterState) (t : Session) : Prop
  | waits (hstate : state ∈ busy) (hcalls : t.calls = s.calls) (hquit : t.quit = s.quit)
      (hfailure : t.shouldExitFailure = s.shouldExitFailure)
      (hpolled : t.polledAlready = s.polledAlready)
  | calls (call : Call) (hstate : state ∈ call.kind.startsIn) (herror : state ≠ .error)
      (hcalls : t.calls = call :: s.calls) (hquit : t.quit = s.quit)
      (hfailure : t.shouldExitFailure = s.shouldExitFailure)
      (hpolled : t.polledAlready = (s.polledAlready || decide (call.kind = .poll)))
      (hfirst : call.kind = .poll → s.polledAlready = false)
  | fails (hstate : state = .error) (hcalls : t.calls = s.calls) (hquit : t.quit = true)
      (hfailure : t.shouldExitFailure = true) (hpolled : t.polledAlready = s.polledAlready)
  | done (hdone : Done config readings properties t state) (hcalls : t.calls = s.calls)
      (hquit : t.quit = true) (hfailure : t.shouldExitFailure = s.shouldExitFailure)
      (hpolled : t.polledAlready = s.polledAlready)

variable {config readings properties} {s t u : Session} {state : EosUpdaterState}

/-- Poll results that were updated before do not matter to the answer. -/
theorem Responds.congr (h : Responds config readings properties s state t)
    (hcalls : s.calls = u.calls) (hquit : s.quit = u.quit)
    (hfailure : s.shouldExitFailure = u.shouldExitFailure)
    (hpolled : s.polledAlready = u.polledAlready) :
    Responds config readings properties u state t := by
  cases h with
  | waits h1 h2 h3 h4 h5 =>
      exact .waits h1 (h2.trans hcalls) (h3.trans hquit) (h4.trans hfailure) (h5.trans hpolled)
  | calls call h0 h1 h2 h3 h4 h5 h6 =>
      exact .calls call h0 h1 (hcalls ▸ h2) (h3.trans hquit) (h4.trans hfailure) (hpolled ▸ h5)
        (hpolled ▸ h6)
  | fails h1 h2 h3 h4 h5 => exact .fails h1 (h2.trans hcalls) h3 h4 (h5.trans hpolled)
  | done h1 h2 h3 h4 h5 =>
      exact .done h1 (h2.trans hcalls) h3 (h4.trans hfailure) (h5.trans hpolled)

/-- A step that is not taken ends the run, and one that is taken makes its call. -/
theorem responds_doUpdateStep (step : UpdateStep)
    (hstate : (step, state) ∈ [(UpdateStep.poll, EosUpdaterState.ready),
      (.fetch, .updateAvailable), (.apply, .updateReady)])
    (hresults : step = .apply → s.pollResults ≠ none)
    (ht : t = if (s.doUpdateStep config readings properties step).1
      then (s.doUpdateStep config readings properties step).2
      else { (s.doUpdateStep config readings properties step).2 with quit := true }) :
    Responds config readings properties s state t := by
  subst ht
  simp only [List.mem_cons, Prod.mk.injEq, List.not_mem_nil, or_false] at hstate
  unfold doUpdateStep
  rcases hstate with ⟨rfl, rfl⟩ | ⟨rfl, rfl⟩ | ⟨rfl, rfl⟩
  · -- a poll is made once, from the volume if there is one
    by_cases hle : UpdateStep.poll.value > config.lastAutomaticStep.value
    · rw [if_pos hle]
      exact .done (.inr hle) rfl rfl rfl rfl
    · rw [if_neg hle]
      dsimp only
      by_cases hpolled : s.polledAlready = true
      · rw [if_pos hpolled]
        exact .done (.inl hpolled) rfl rfl rfl rfl
      · rw [if_neg hpolled]
        rw [Bool.not_eq_true] at hpolled
        cases config.volumePath with
        | none =>
            exact .calls .poll (by decide) (by decide) rfl rfl rfl (by simp [call, Call.kind])
              fun _ => hpolled
        | some path =>
            exact .calls (.pollVolume path) (by simp [Call.kind, WorkerKind.startsIn]) (by decide)
              rfl rfl rfl (by simp [call, Call.kind]) fun _ => hpolled
  · -- a fetch depends on the last automatic step only
    by_cases hle : UpdateStep.fetch.value > config.lastAutomaticStep.value
    · rw [if_pos hle]
      exact .done hle rfl rfl rfl rfl
    · rw [if_neg hle]
      exact .calls (.fetchFull _) (by simp [Call.kind, WorkerKind.startsIn]) (by decide)
        rfl rfl rfl (by simp [call, Call.kind]) (by rintro ⟨⟩)
  · -- an apply may also be held back, until the update has been out for long enough
    by_cases hle : UpdateStep.apply.value > config.lastAutomaticStep.value
    · rw [if_pos hle]
      exact .done (.inl hle) rfl rfl rfl rfl
    · rw [if_neg hle]
      dsimp only
      have hcall : Responds config readings properties s .updateReady (s.call .apply) :=
        .calls .apply (by decide) (by decide) rfl rfl rfl (by simp [call, Call.kind]) (by rintro ⟨⟩)
      cases hpolicy : !config.forceUpdate && properties.updateIsUserVisible with
      | false => exact hcall
      | true =>
          obtain ⟨hforce, hvisible⟩ := Bool.and_eq_true_iff.1 hpolicy
          rw [Bool.not_eq_true'] at hforce
          obtain ⟨results, hsome⟩ := Option.ne_none_iff_exists'.1 (hresults rfl)
          simp only [if_true, hsome]
          by_cases hearly : usecs readings.applyTime < nextUpdate config results
          · rw [if_pos hearly]
            exact .done (.inr ⟨hforce, hvisible, results, hsome, hearly⟩) rfl rfl rfl rfl
          · rw [if_neg hearly]
            exact hcall

variable (config readings properties)

/-- Only the idle source itself takes note that it was dispatched. -/
theorem initialPoll_onStateChanged (s : Session) (state : StateValue) :
    (s.onStateChanged config readings properties state).initialPoll = s.initialPoll := by
  have hstep (t : Session) (step : UpdateStep) :
      (t.doUpdateStep config readings properties step).2.initialPoll = t.initialPoll := by
    unfold doUpdateStep
    repeat' split
    all_goals rfl
  have hensure (t : Session) :
      (t.ensurePollResults readings properties).initialPoll = t.initialPoll := by
    unfold ensurePollResults
    split <;> rfl
  have hleave : (s.leave readings properties).initialPoll = s.initialPoll := by
    unfold leave
    split <;> rfl
  have henter (t : Session) :
      (t.enter config readings properties state).2.initialPoll = t.initialPoll := by
    unfold enter
    split <;> simp [hstep, hensure]
  unfold onStateChanged
  split
  · rfl
  · dsimp only
    split
    · exact (henter _).trans hleave
    · exact (henter _).trans hleave

/-- **The answers.** What `on_state_changed` does about a state that is new to the run. -/
theorem responds_onStateChanged (hne : .state state ≠ s.previousState) (hnone : state ≠ .none) :
    Responds config readings properties s state
      (s.onStateChanged config readings properties (.state state)) := by
  set left : Session := { s.leave readings properties with previousState := .state state }
    with hleft
  -- what was recorded about the poll that has ended does not matter
  suffices h : Responds config readings properties left state
      (s.onStateChanged config readings properties (.state state)) by
    refine h.congr ?_ ?_ ?_ ?_ <;> (simp only [hleft, leave]; split <;> rfl)
  have hensure (h : Responds config readings properties (left.ensurePollResults readings properties)
      state (s.onStateChanged config readings properties (.state state))) :
      Responds config readings properties left state
        (s.onStateChanged config readings properties (.state state)) := by
    refine h.congr ?_ ?_ ?_ ?_ <;> (unfold ensurePollResults; split <;> rfl)
  rw [onStateChanged, if_neg hne, ← hleft] at *
  cases state with
  | none => exact absurd rfl hnone
  | polling | fetching | applyingUpdate => exact .waits (by decide) rfl rfl rfl rfl
  | error => exact .fails rfl rfl rfl rfl rfl
  | updateApplied => exact .done trivial rfl rfl rfl rfl
  | ready => exact responds_doUpdateStep .poll (by simp) (by rintro ⟨⟩) rfl
  | updateAvailable =>
      exact hensure (responds_doUpdateStep .fetch (by simp) (by rintro ⟨⟩) rfl)
  | updateReady =>
      exact hensure (responds_doUpdateStep .apply (by simp)
        (fun _ => ensurePollResults_ne_none readings properties left) rfl)

end Session

end Autoupdater
