import EosUpdater.Machine.Run
import EosUpdater.Machine.Saturated
import EosUpdater.Updater.Object
import Mathlib.Algebra.Ring.Nat

/-!
# The automatic updater

`eos-autoupdater/main.c`: how a run of the automatic updater drives the daemon. It acts on the
states that the daemon announces, with one call for each, and keeps the update that the last poll
has found and since when in a file of the state directory.

However the daemon changes its state, and whatever the clock says, a run polls at most once, goes
no further than the configured step, and does not apply an update that the user sees before its
delay has passed (`restrained`).
-/

namespace Autoupdater

open Machine Updater

/-! ### The configuration -/

/-- `UpdateStep`. -/
inductive UpdateStep
  | none
  | poll
  | fetch
  | apply
deriving DecidableEq, Repr

/-- The value of a step. -/
def UpdateStep.value : UpdateStep → ℕ
  | none => 0
  | poll => 1
  | fetch => 2
  | apply => 3

/-- `USEC_PER_DAY`. -/
def usecPerDay : UInt64 := 3600 * 24 * 1000000

/-- What a run reads from its configuration and its command line. The delay is within the bounds
that `read_config_file` sets. -/
structure Config where
  lastAutomaticStep : UpdateStep
  userVisibleDelayDays : UInt32
  days_le : userVisibleDelayDays.toNat ≤ min ((2 ^ 64 - 1) / usecPerDay.toNat) (2 ^ 32 - 1)
  /-- `--force-update`. -/
  forceUpdateOption : Bool
  /-- `--force-fetch`. -/
  forceFetch : Bool
  /-- `--from-volume`. -/
  volumePath : Option String

namespace Config

/-- `force_update`, which is also set when running from a volume. -/
def forceUpdate (config : Config) : Bool := config.forceUpdateOption || config.volumePath.isSome

/-- `user_visible_delay_usecs`. -/
def userVisibleDelayUsecs (config : Config) : UInt64 :=
  config.userVisibleDelayDays.toUInt64 * usecPerDay

/-- The delay is not wrapped. -/
theorem toNat_userVisibleDelayUsecs (config : Config) :
    config.userVisibleDelayUsecs.toNat =
      config.userVisibleDelayDays.toNat * usecPerDay.toNat := by
  have hle := config.days_le
  rw [userVisibleDelayUsecs, UInt64.toNat_mul, UInt32.toNat_toUInt64]
  refine Nat.mod_eq_of_lt ?_
  have hmul : config.userVisibleDelayDays.toNat * usecPerDay.toNat ≤ 2 ^ 64 - 1 :=
    (Nat.le_div_iff_mul_le (by decide)).1 (le_trans hle (min_le_left _ _))
  omega

end Config

/-! ### The daemon -/

/-- The value of the property `State`, which may be none of the states. -/
inductive StateValue
  | state (state : EosUpdaterState)
  | invalid (value : UInt32)
deriving DecidableEq, Repr

/-- The properties of the daemon that a run reads. -/
structure Properties where
  state : StateValue
  updateRefspec : Option String
  updateId : Option String
  updateIsUserVisible : Bool
deriving DecidableEq, Repr

/-- The calls of a run to the daemon. -/
inductive Call
  | poll
  | pollVolume (path : String)
  | fetchFull (force : Bool)
  | apply
deriving DecidableEq, Repr

/-- The step that a call takes. -/
def Call.step : Call → UpdateStep
  | poll => .poll
  | pollVolume _ => .poll
  | fetchFull _ => .fetch
  | apply => .apply

/-! ### The poll results -/

/-- `PollResults`. -/
structure PollResults where
  lastChangedUsecs : UInt64
  updateRefspec : String
  updateId : String
deriving DecidableEq, Repr

/-- `poll_results_new`. -/
def pollResultsNew (lastChangedUsecs : UInt64) (updateRefspec updateId : Option String) :
    PollResults :=
  ⟨lastChangedUsecs, updateRefspec.getD "", updateId.getD ""⟩

/-- The results are those of the update that the daemon offers. -/
def PollResults.OfUpdate (results : PollResults) (properties : Properties) : Prop :=
  results.updateRefspec = properties.updateRefspec.getD "" ∧
    results.updateId = properties.updateId.getD ""

/-- What a handler of the run gets from the system: the readings of the clock, and whether the file
with the poll results can be read and written. -/
structure Readings where
  /-- `g_get_real_time` in `update_poll_results`. -/
  resultsTime : Int64
  /-- `g_get_real_time` in `do_update_step`. -/
  applyTime : Int64
  canRead : Bool
  canWrite : Bool
deriving DecidableEq, Repr

/-- `(guint64) MAX (0, g_get_real_time ())`. -/
def usecs (realTime : Int64) : UInt64 := if realTime < 0 then 0 else realTime.toUInt64

/-- The static variables of a run, with the calls it has made, the most recent one first, and the
file with the poll results, if there is one that can be decoded. -/
structure Session where
  previousState : StateValue := .state .none
  polledAlready : Bool := false
  pollResults : Option PollResults := none
  shouldExitFailure : Bool := false
  /-- `g_main_loop_quit` was called. -/
  quit : Bool := false
  /-- `initial_poll_idle_func` is still to be called. -/
  initialPoll : Bool := true
  calls : List Call := []
  /-- An assertion has failed. -/
  aborted : Bool := false
  resultsFile : Option PollResults
deriving DecidableEq, Repr

section Handlers

variable (config : Config) (readings : Readings) (properties : Properties)

/-- `read_poll_results_file`. -/
def readPollResultsFile (resultsFile : Option PollResults) : Option PollResults :=
  if readings.canRead then resultsFile else none

/-- `write_poll_results_file`. -/
def writePollResultsFile (resultsFile : Option PollResults) (results : PollResults) :
    Option PollResults :=
  if readings.canWrite then some results else resultsFile

/-- `update_poll_results`: the results that are used, and the file afterwards. -/
def usedResults (resultsFile : Option PollResults) : PollResults × Option PollResults :=
  let newResults := pollResultsNew (usecs readings.resultsTime) properties.updateRefspec
    properties.updateId
  match readPollResultsFile readings resultsFile with
  | some oldResults =>
      if oldResults.updateRefspec ≠ newResults.updateRefspec ∨
          oldResults.updateId ≠ newResults.updateId then
        (newResults, writePollResultsFile readings resultsFile newResults)
      else (oldResults, resultsFile)
  | none => (newResults, writePollResultsFile readings resultsFile newResults)

namespace Session

/-- `update_poll_results`. -/
def updatePollResults (s : Session) : Session :=
  { s with
    pollResults := some (usedResults readings properties s.resultsFile).1
    resultsFile := (usedResults readings properties s.resultsFile).2 }

/-! ### Steps -/

/-- A call to the daemon. -/
def call (s : Session) (call : Call) : Session := { s with calls := call :: s.calls }

/-- The time from which on the update of the results may be applied, saturated. -/
def nextUpdate (config : Config) (results : PollResults) : UInt64 :=
  if results.lastChangedUsecs.toNat + config.userVisibleDelayUsecs.toNat < 2 ^ 64 then
    results.lastChangedUsecs + config.userVisibleDelayUsecs
  else 0xffffffffffffffff

/-- The next update is the delay after the last change, at most the largest number. -/
theorem toNat_nextUpdate (config : Config) (results : PollResults) :
    (nextUpdate config results).toNat =
      min (results.lastChangedUsecs.toNat +
        config.userVisibleDelayDays.toNat * usecPerDay.toNat) (2 ^ 64 - 1) := by
  rw [← config.toNat_userVisibleDelayUsecs]
  exact Saturated.toNat_checkedAdd _ _

/-- `do_update_step`: whether the run goes on, and what it has done. -/
def doUpdateStep (s : Session) (step : UpdateStep) : Bool × Session :=
  if step.value > config.lastAutomaticStep.value then (false, s)
  else
    match step with
    | .poll =>
        if s.polledAlready then (false, s)
        else
          let s := { s with pollResults := none, polledAlready := true }
          match config.volumePath with
          | some path => (true, s.call (.pollVolume path))
          | none => (true, s.call .poll)
    | .fetch => (true, s.call (.fetchFull (config.forceUpdate || config.forceFetch)))
    -- the delay is for updates that the user sees, and a forced update has none
    | .apply =>
        if !config.forceUpdate && properties.updateIsUserVisible then
          match s.pollResults with
          | none => (true, { s with aborted := true })
          | some results =>
              if usecs readings.applyTime < nextUpdate config results then (false, s)
              else (true, s.call .apply)
        else (true, s.call .apply)
    | .none => (true, { s with aborted := true })

/-- The poll results, updated if there are none. -/
def ensurePollResults (s : Session) : Session :=
  if s.pollResults = none then s.updatePollResults readings properties else s

/-- The cases of `on_state_changed`. -/
def enter (s : Session) : StateValue → Bool × Session
  | .state .none => (true, s)
  | .state .ready => s.doUpdateStep config readings properties .poll
  | .state .error => (false, { s with shouldExitFailure := true })
  | .state .polling => (true, s)
  | .state .updateAvailable =>
      (s.ensurePollResults readings properties).doUpdateStep config readings properties .fetch
  | .state .fetching => (true, s)
  | .state .updateReady =>
      (s.ensurePollResults readings properties).doUpdateStep config readings properties .apply
  | .state .applyingUpdate => (true, s)
  | .state .updateApplied => (false, s)
  | .invalid _ => (false, { s with shouldExitFailure := true })

/-- The beginning of `on_state_changed`: a poll has come to an end. -/
def leave (s : Session) : Session :=
  if s.previousState = .state .polling then s.updatePollResults readings properties else s

/-- `on_state_changed`. -/
def onStateChanged (s : Session) (state : StateValue) : Session :=
  if state = s.previousState then s
  else
    let entered := { s.leave readings properties with previousState := state }.enter config readings
      properties state
    if entered.1 then entered.2 else { entered.2 with quit := true }

/-- The state with which a run begins: an error is cleared by pretending to be ready. -/
def initialState (properties : Properties) : StateValue :=
  if properties.state = .state .error then .state .ready else properties.state

/-- `initial_poll_idle_func`. -/
def initialPollIdleFunc (s : Session) : Session :=
  { s with initialPoll := false }.onStateChanged config readings properties
    (initialState properties)

/-- `update_step_callback`. -/
def updateStepCallback (s : Session) (error : Option Euu.GError) : Session :=
  match error with
  | some _ => { s with shouldExitFailure := true, quit := true }
  | none => s

/-- `on_name_owner_changed`. -/
def onNameOwnerChanged (s : Session) (newOwner : Option String) : Session :=
  match newOwner with
  | none => { s with shouldExitFailure := true, quit := true }
  | some _ => s

/-! ### What a handler does -/

variable {config readings properties} {s t u : Session} {state : StateValue}

/-- The results are those of the update on offer, and in the file unless this cannot be written. -/
def RecordedNow (readings : Readings) (properties : Properties) (s : Session)
    (results : PollResults) : Prop :=
  results.OfUpdate properties ∧ (readings.canWrite = true → s.resultsFile = some results)

/-- Results that are updated are recorded as those that are used. -/
theorem recordedNow_updatePollResults (readings : Readings) (properties : Properties)
    (s : Session) :
    RecordedNow readings properties (s.updatePollResults readings properties)
      (usedResults readings properties s.resultsFile).1 := by
  simp only [RecordedNow, updatePollResults]
  unfold usedResults
  cases hread : readPollResultsFile readings s.resultsFile with
  | none => exact ⟨⟨rfl, rfl⟩, fun hwrite => if_pos hwrite⟩
  | some oldResults =>
      dsimp only
      split
      · exact ⟨⟨rfl, rfl⟩, fun hwrite => if_pos hwrite⟩
      · next hsame =>
          rw [not_or, not_not, not_not] at hsame
          refine ⟨hsame, fun _ => ?_⟩
          -- what was read is what the file contains
          unfold readPollResultsFile at hread
          split at hread
          · exact hread
          · cases hread

/-- A call goes no further than configured, and an update that the user sees is not applied before
the delay has passed since it was recorded. -/
def Permits (config : Config) (readings : Readings) (properties : Properties) (s : Session)
    (call : Call) : Prop :=
  call.step.value ≤ config.lastAutomaticStep.value ∧
    (call = .apply → properties.updateIsUserVisible = true → config.forceUpdate = false →
      ∃ results, s.pollResults = some results ∧
        nextUpdate config results ≤ usecs readings.applyTime)

/-- What a handler does to a session: it makes at most one call, polls only for the first time, and
has the same results, or those of the update on offer. -/
structure Handled (config : Config) (readings : Readings) (properties : Properties)
    (s t : Session) : Prop where
  aborted : t.aborted = s.aborted
  calls : (t.calls = s.calls ∧ t.polledAlready = s.polledAlready) ∨
    ∃ call, t.calls = call :: s.calls ∧ Permits config readings properties t call ∧
      (call.step = .poll → s.polledAlready = false) ∧
      t.polledAlready = (s.polledAlready || decide (call.step = .poll))
  results : ∀ results, t.pollResults = some results →
    RecordedNow readings properties t results ∨
      (s.pollResults = some results ∧ t.resultsFile = s.resultsFile)

/-- A session that does nothing is handled. -/
theorem Handled.refl (s : Session) : Handled config readings properties s s :=
  ⟨rfl, .inl ⟨rfl, rfl⟩, fun _ h => .inr ⟨h, rfl⟩⟩

/-- It does not matter how the session ends. -/
theorem Handled.congr (h : Handled config readings properties s t)
    (hcalls : u.calls = t.calls) (haborted : u.aborted = t.aborted)
    (hpolled : u.polledAlready = t.polledAlready) (hresults : u.pollResults = t.pollResults)
    (hfile : u.resultsFile = t.resultsFile) : Handled config readings properties s u := by
  obtain ⟨h1, h2, h3⟩ := h
  refine ⟨haborted.trans h1, ?_, ?_⟩
  · simp only [Permits] at h2 ⊢
    rw [hcalls, hpolled, hresults]
    exact h2
  · simp only [RecordedNow] at h3 ⊢
    rw [hresults, hfile]
    exact h3

/-- A handler may update the results before it does something. -/
theorem Handled.of_updatePollResults
    (h : Handled config readings properties (s.updatePollResults readings properties) t) :
    Handled config readings properties s t := by
  obtain ⟨hof, hfile⟩ := recordedNow_updatePollResults readings properties s
  refine ⟨h.aborted, h.calls, fun results hresults => .inl ?_⟩
  rcases h.results results hresults with hnow | ⟨hsame, hkept⟩
  · exact hnow
  · obtain rfl := Option.some_inj.1 hsame
    exact ⟨hof, fun hwrite => hkept.trans (hfile hwrite)⟩

/-- What is handled behind the consultation of the results is handled with it. -/
theorem Handled.of_ensurePollResults
    (h : Handled config readings properties (s.ensurePollResults readings properties) t) :
    Handled config readings properties s t := by
  unfold ensurePollResults at h
  split at h
  · exact h.of_updatePollResults
  · exact h

/-- After the consultation there are results. -/
theorem ensurePollResults_ne_none (readings : Readings) (properties : Properties) (s : Session) :
    (s.ensurePollResults readings properties).pollResults ≠ none := by
  unfold ensurePollResults
  split
  · exact Option.some_ne_none _
  · assumption

/-- A step makes at most one call. The assertion holds as there are results when it applies. -/
theorem handled_doUpdateStep {step : UpdateStep} (hstep : step ≠ .none)
    (hresults : step = .apply → s.pollResults ≠ none) :
    Handled config readings properties s
      (s.doUpdateStep config readings properties step).2 := by
  unfold doUpdateStep
  split
  · exact .refl s
  · next hle =>
      rw [not_lt] at hle
      cases step with
      | none => exact absurd rfl hstep
      | poll =>
          dsimp only
          split
          · exact .refl s
          · next hpolled =>
              rw [Bool.not_eq_true] at hpolled
              -- the results are those of an earlier poll, and are dropped
              have hcall (pollCall : Call) (hpoll : pollCall.step = .poll) :
                  Handled config readings properties s
                    ({ s with pollResults := none, polledAlready := true }.call pollCall) := by
                refine ⟨rfl, .inr ⟨pollCall, rfl, ⟨hpoll ▸ hle, ?_⟩, fun _ => hpolled, ?_⟩, ?_⟩
                · rintro rfl
                  cases hpoll
                · simp [call, hpoll]
                · rintro _ ⟨⟩
              cases config.volumePath with
              | none => exact hcall .poll rfl
              | some path => exact hcall (.pollVolume path) rfl
      | fetch =>
          refine ⟨rfl, .inr ⟨.fetchFull _, rfl, ⟨hle, ?_⟩, ?_, ?_⟩, fun _ h => .inr ⟨h, rfl⟩⟩
          · rintro ⟨⟩
          · rintro ⟨⟩
          · simp [call, Call.step]
      | apply =>
          have hcall (hdelay : properties.updateIsUserVisible = true → config.forceUpdate = false →
              ∃ results, s.pollResults = some results ∧
                nextUpdate config results ≤ usecs readings.applyTime) :
              Handled config readings properties s (s.call .apply) := by
            refine ⟨rfl, .inr ⟨.apply, rfl, ⟨hle, fun _ => hdelay⟩, ?_, ?_⟩,
              fun _ h => .inr ⟨h, rfl⟩⟩
            · rintro ⟨⟩
            · simp [call, Call.step]
          -- the call is made without a delay, or after it
          cases hpolicy : !config.forceUpdate && properties.updateIsUserVisible with
          | false =>
              refine hcall fun hvisible hforce => ?_
              rw [hvisible, hforce] at hpolicy
              cases hpolicy
          | true =>
              -- the assertion that there are results holds, and the delay has passed
              obtain ⟨results, hsome⟩ := Option.ne_none_iff_exists'.1 (hresults rfl)
              simp only [if_true, hsome]
              split
              · exact .refl s
              · next hnow => exact hcall fun _ _ => ⟨results, hsome, UInt64.not_lt.1 hnow⟩

variable (config readings properties)

/-- What the cases of `on_state_changed` do. -/
theorem handled_enter (s : Session) (state : StateValue) :
    Handled config readings properties s (s.enter config readings properties state).2 := by
  cases state with
  | invalid value => exact .congr (.refl s) rfl rfl rfl rfl rfl
  | state state =>
      cases state with
      | none | polling | fetching | applyingUpdate | updateApplied => exact .refl s
      | error => exact .congr (.refl s) rfl rfl rfl rfl rfl
      | ready => exact handled_doUpdateStep (by decide) (by rintro ⟨⟩)
      | updateAvailable =>
          exact .of_ensurePollResults (handled_doUpdateStep (by decide) (by rintro ⟨⟩))
      | updateReady =>
          exact .of_ensurePollResults
            (handled_doUpdateStep (by decide) fun _ =>
              ensurePollResults_ne_none readings properties s)

/-- What `on_state_changed` does after a poll may have come to an end. -/
theorem handled_onStateChanged_of_leave (hne : state ≠ s.previousState) :
    Handled config readings properties (s.leave readings properties)
      (s.onStateChanged config readings properties state) := by
  have hentered := handled_enter config readings properties
    { s.leave readings properties with previousState := state } state
  rw [onStateChanged, if_neg hne]
  dsimp only
  split
  · exact ⟨hentered.aborted, hentered.calls, hentered.results⟩
  · exact .congr ⟨hentered.aborted, hentered.calls, hentered.results⟩ rfl rfl rfl rfl rfl

/-- What the handler of the state does to a session. -/
theorem handled_onStateChanged (s : Session) (state : StateValue) :
    Handled config readings properties s (s.onStateChanged config readings properties state) := by
  by_cases hsame : state = s.previousState
  · rw [onStateChanged, if_pos hsame]
    exact .refl s
  · have h := handled_onStateChanged_of_leave config readings properties hsame
    unfold leave at h
    split at h
    · exact h.of_updatePollResults
    · exact h

/-- A step of the update leaves the state that was seen. -/
theorem previousState_doUpdateStep (s : Session) (step : UpdateStep) :
    (s.doUpdateStep config readings properties step).2.previousState = s.previousState := by
  unfold doUpdateStep
  split
  · rfl
  · split
    · split
      · rfl
      · cases config.volumePath <;> rfl
    · rfl
    · split
      · split
        · rfl
        · split <;> rfl
      · rfl
    · rfl

/-- The consultation of the results leaves the state that was seen. -/
theorem previousState_ensurePollResults (s : Session) :
    (s.ensurePollResults readings properties).previousState = s.previousState := by
  unfold ensurePollResults
  split <;> rfl

/-- The state is the one that was announced. -/
theorem previousState_onStateChanged (s : Session) (state : StateValue) :
    (s.onStateChanged config readings properties state).previousState = state := by
  have henter (t : Session) :
      (t.enter config readings properties state).2.previousState = t.previousState := by
    unfold enter
    split <;> simp [previousState_doUpdateStep, previousState_ensurePollResults]
  unfold onStateChanged
  split
  · next hsame => exact hsame.symm
  · dsimp only
    split <;> exact henter _

variable {config readings properties}

/-- When a poll comes to an end, the results are those of the update on offer. -/
theorem recordedNow_of_polling {results : PollResults}
    (hpolling : s.previousState = .state .polling)
    (hstate : state ≠ .state .polling)
    (hresults : (s.onStateChanged config readings properties state).pollResults = some results) :
    RecordedNow readings properties (s.onStateChanged config readings properties state)
      results := by
  have hhandled := handled_onStateChanged_of_leave config readings properties (hpolling ▸ hstate)
  rw [leave, if_pos hpolling] at hhandled
  obtain ⟨hof, hfile⟩ := recordedNow_updatePollResults readings properties s
  rcases hhandled.results results hresults with hnow | ⟨hsame, hkept⟩
  · exact hnow
  · obtain rfl := Option.some_inj.1 hsame
    exact ⟨hof, fun hwrite => hkept.trans (hfile hwrite)⟩

end Session

end Handlers

/-! ### Runs -/

/-- A run, and the properties of the daemon that its proxy has. -/
structure RunState where
  session : Session
  properties : Properties
deriving DecidableEq, Repr

/-- What the main loop of a run dispatches, also after it was told to quit. -/
inductive Event
  | initialPoll (readings : Readings)
  /-- The properties change, and the state is among those that are notified. -/
  | stateNotified (properties : Properties) (readings : Readings)
  /-- The properties change, without the state. -/
  | propertiesChanged (properties : Properties)
  | callFinished (error : Option Euu.GError)
  | nameOwnerChanged (newOwner : Option String)

/-- The readings of the handler that an event calls, unless it reads nothing. -/
def Event.readings : Event → Option Readings
  | .initialPoll readings => some readings
  | .stateNotified _ readings => some readings
  | .propertiesChanged _ | .callFinished _ | .nameOwnerChanged _ => none

/-- The daemon offers the same update. -/
def Properties.SameUpdate (before after : Properties) : Prop :=
  after.updateRefspec = before.updateRefspec ∧ after.updateId = before.updateId

/-- Two offers are compared by their ids and refspecs. -/
instance (before after : Properties) : Decidable (before.SameUpdate after) :=
  inferInstanceAs (Decidable (_ ∧ _))

/-- Results of an offer are those of the same offer later. -/
theorem PollResults.OfUpdate.of_sameUpdate {results : PollResults} {before after : Properties}
    (h : results.OfUpdate before) (hsame : before.SameUpdate after) : results.OfUpdate after :=
  ⟨hsame.1 ▸ h.1, hsame.2 ▸ h.2⟩

/-- A poll of the daemon comes to an end. -/
def Properties.PollEnds (before after : Properties) : Prop :=
  before.state = .state .polling ∧ after.state ≠ .state .polling

/-- The end of a poll is read off the two states. -/
instance (before after : Properties) : Decidable (before.PollEnds after) :=
  inferInstanceAs (Decidable (_ ∧ _))

namespace RunState

/-- A new run, whatever the daemon does and whatever earlier runs have recorded. -/
def Initial (s : RunState) : Prop := s.session = { resultsFile := s.session.resultsFile }

/-- One event. The update on offer changes only when a poll comes to an end, and every change of the
state is notified. -/
def step (config : Config) (s : RunState) : Event → Option RunState
  | .initialPoll readings =>
      if s.session.aborted = false ∧ s.session.initialPoll = true then
        some { s with session := s.session.initialPollIdleFunc config readings s.properties }
      else none
  | .stateNotified properties readings =>
      if s.session.aborted = false ∧
          (s.properties.SameUpdate properties ∨ s.properties.PollEnds properties) then
        some {
          session := s.session.onStateChanged config readings properties properties.state
          properties := properties }
      else none
  | .propertiesChanged properties =>
      if s.session.aborted = false ∧ s.properties.SameUpdate properties ∧
          properties.state = s.properties.state then
        some { s with properties := properties }
      else none
  | .callFinished error =>
      if s.session.aborted = false then
        some { s with session := s.session.updateStepCallback error }
      else none
  | .nameOwnerChanged newOwner =>
      if s.session.aborted = false then
        some { s with session := s.session.onNameOwnerChanged newOwner }
      else none

/-- The call is permitted in this transition: it goes no further than configured, and an update that
the user sees is not applied before the delay has passed since exactly this update was recorded. -/
def Permits (config : Config) (τ : Transition RunState Event) (call : Call) : Prop :=
  call.step.value ≤ config.lastAutomaticStep.value ∧
    (call = .apply → τ.after.properties.updateIsUserVisible = true → config.forceUpdate = false →
      ∃ results readings, τ.after.session.pollResults = some results ∧
        results.OfUpdate τ.after.properties ∧ τ.event.readings = some readings ∧
        min (results.lastChangedUsecs.toNat +
            config.userVisibleDelayDays.toNat * usecPerDay.toNat) (2 ^ 64 - 1) ≤
          (usecs readings.applyTime).toNat)

/-- A run does no more than it may: its assertions hold, it polls at most once, every call that it
makes is permitted, and its poll results are those of the update on offer, and of the file if this
could always be written. -/
structure Restrained (config : Config) (history : History RunState Event) (s : RunState) :
    Prop where
  aborted : s.session.aborted = false
  polls : (s.session.calls.filter (·.step = .poll)).length ≤ 1
  calls : ∀ τ ∈ history, τ.after.session.calls = τ.before.session.calls ∨
    ∃ call, τ.after.session.calls = call :: τ.before.session.calls ∧ Permits config τ call
  offered : ∀ results, s.session.pollResults = some results → results.OfUpdate s.properties
  recorded : (∀ τ ∈ history, ∀ readings, τ.event.readings = some readings →
      readings.canWrite = true) →
    ∀ results, s.session.pollResults = some results → s.session.resultsFile = some results

variable {config : Config} {history : History RunState Event} {s t : RunState} {event : Event}

/-- What an event does: it is handled, or it changes nothing that matters to the calls. -/
theorem step_cases (h : s.step config event = some t) :
    s.session.aborted = false ∧
      ((∃ readings, event.readings = some readings ∧
          Session.Handled config readings t.properties s.session t.session) ∨
        (event.readings = none ∧ t.session.aborted = s.session.aborted ∧
          t.session.calls = s.session.calls ∧
          t.session.polledAlready = s.session.polledAlready ∧
          t.session.pollResults = s.session.pollResults ∧
          t.session.resultsFile = s.session.resultsFile)) := by
  cases event with
  | initialPoll readings =>
      obtain ⟨⟨haborted, -⟩, ht⟩ := Option.ite_none_right_eq_some.1 h
      refine ⟨haborted, .inl ⟨readings, rfl, ?_⟩⟩
      obtain rfl := Option.some_inj.1 ht
      have hhandled := Session.handled_onStateChanged config readings s.properties
        { s.session with initialPoll := false }
      -- the flag of the initial poll does not matter to what the handler does
      exact ⟨(hhandled _).aborted, (hhandled _).calls, (hhandled _).results⟩
  | stateNotified properties readings =>
      obtain ⟨⟨haborted, -⟩, ht⟩ := Option.ite_none_right_eq_some.1 h
      obtain rfl := Option.some_inj.1 ht
      exact ⟨haborted, .inl ⟨readings, rfl, Session.handled_onStateChanged _ _ _ _ _⟩⟩
  | propertiesChanged properties =>
      obtain ⟨⟨haborted, -⟩, ht⟩ := Option.ite_none_right_eq_some.1 h
      obtain rfl := Option.some_inj.1 ht
      exact ⟨haborted, .inr ⟨rfl, rfl, rfl, rfl, rfl, rfl⟩⟩
  | callFinished error =>
      obtain ⟨haborted, ht⟩ := Option.ite_none_right_eq_some.1 h
      obtain rfl := Option.some_inj.1 ht
      refine ⟨haborted, .inr ?_⟩
      cases error <;> exact ⟨rfl, rfl, rfl, rfl, rfl, rfl⟩
  | nameOwnerChanged newOwner =>
      obtain ⟨haborted, ht⟩ := Option.ite_none_right_eq_some.1 h
      obtain rfl := Option.some_inj.1 ht
      refine ⟨haborted, .inr ?_⟩
      cases newOwner <;> exact ⟨rfl, rfl, rfl, rfl, rfl, rfl⟩

/-- A run that has results has seen the state if this is `Polling`. -/
def Observed (s : RunState) : Prop :=
  s.properties.state = .state .polling →
    s.session.previousState = .state .polling ∨ s.session.pollResults = none

/-- The run sees each state that it is told. -/
theorem observed_step (hobserved : s.Observed) (h : s.step config event = some t) :
    t.Observed := by
  intro hpolling
  cases event with
  | initialPoll readings =>
      obtain ⟨-, ht⟩ := Option.ite_none_right_eq_some.1 h
      obtain rfl := Option.some_inj.1 ht
      refine .inl ((Session.previousState_onStateChanged _ _ _ _ _).trans ?_)
      rw [Session.initialState, if_neg (by rw [hpolling]; decide)]
      exact hpolling
  | stateNotified properties readings =>
      obtain ⟨-, ht⟩ := Option.ite_none_right_eq_some.1 h
      obtain rfl := Option.some_inj.1 ht
      exact .inl ((Session.previousState_onStateChanged _ _ _ _ _).trans hpolling)
  | propertiesChanged properties =>
      obtain ⟨⟨-, -, hstate⟩, ht⟩ := Option.ite_none_right_eq_some.1 h
      obtain rfl := Option.some_inj.1 ht
      exact hobserved (hstate ▸ hpolling)
  | callFinished error =>
      obtain ⟨-, ht⟩ := Option.ite_none_right_eq_some.1 h
      obtain rfl := Option.some_inj.1 ht
      cases error <;> exact hobserved hpolling
  | nameOwnerChanged newOwner =>
      obtain ⟨-, ht⟩ := Option.ite_none_right_eq_some.1 h
      obtain rfl := Option.some_inj.1 ht
      cases newOwner <;> exact hobserved hpolling

/-- Where the update on offer changes, the results become those of the new one. -/
theorem sameUpdate_or_ofUpdate (hobserved : s.Observed) (h : s.step config event = some t)
    {results : PollResults} (hkept : s.session.pollResults = some results)
    (hresults : t.session.pollResults = some results) :
    s.properties.SameUpdate t.properties ∨ results.OfUpdate t.properties := by
  cases event with
  | stateNotified properties readings =>
      obtain ⟨⟨-, hchange⟩, ht⟩ := Option.ite_none_right_eq_some.1 h
      obtain rfl := Option.some_inj.1 ht
      rcases hchange with hsame | ⟨hpolling, hends⟩
      · exact .inl hsame
      · -- the run has seen the poll begin, so its end updates the results
        rcases hobserved hpolling with hprevious | hnone
        · exact .inr (Session.recordedNow_of_polling hprevious hends hresults).1
        · rw [hnone] at hkept
          cases hkept
  | propertiesChanged properties =>
      obtain ⟨⟨-, hsame, -⟩, ht⟩ := Option.ite_none_right_eq_some.1 h
      obtain rfl := Option.some_inj.1 ht
      exact .inl hsame
  | initialPoll | callFinished | nameOwnerChanged =>
      obtain ⟨-, ht⟩ := Option.ite_none_right_eq_some.1 h
      obtain rfl := Option.some_inj.1 ht
      exact .inl ⟨rfl, rfl⟩

/-- A run that has polled has made one such call, and one that has not has made none. -/
def PolledOnce (s : RunState) : Prop :=
  (s.session.calls.filter (·.step = .poll)).length = if s.session.polledAlready then 1 else 0

/-- The run does not poll twice. -/
theorem polledOnce_step (hpolled : s.PolledOnce) (h : s.step config event = some t) :
    t.PolledOnce := by
  unfold PolledOnce at hpolled ⊢
  obtain ⟨-, ⟨readings, -, hhandled⟩ | ⟨-, -, hcalls, hsame, -⟩⟩ := step_cases h
  · rcases hhandled.calls with ⟨hcalls, hsame⟩ | ⟨call, hcalls, -, hfirst, hpoll⟩
    · rw [hcalls, hsame]
      exact hpolled
    · rw [hcalls, hpoll]
      by_cases hstep : call.step = .poll
      · rw [List.filter_cons_of_pos (by simpa using hstep), List.length_cons, hpolled,
          hfirst hstep]
        simp [hstep]
      · rw [List.filter_cons_of_neg (by simpa using hstep), hpolled]
        simp [hstep]
  · rw [hcalls, hsame]
    exact hpolled

/-- A run polls at most once. -/
theorem polls_le {history : History RunState Event}
    (hrun : Run RunState.Initial (RunState.step config) history s) :
    (s.session.calls.filter (·.step = .poll)).length ≤ 1 := by
  suffices h : s.PolledOnce by
    rw [h]
    split <;> decide
  induction hrun with
  | @start s hinitial =>
      have hcalls : s.session.calls = [] := by rw [hinitial]
      have hpolled : s.session.polledAlready = false := by rw [hinitial]
      simp [PolledOnce, hcalls, hpolled]
  | next _ hstep ih => exact polledOnce_step ih hstep

/-- The results in memory are those of the offer. -/
theorem offered_step (hobserved : s.Observed)
    (hoffered : ∀ results, s.session.pollResults = some results → results.OfUpdate s.properties)
    (h : s.step config event = some t) (results : PollResults)
    (hresults : t.session.pollResults = some results) : results.OfUpdate t.properties := by
  have hkept (hkept : s.session.pollResults = some results) : results.OfUpdate t.properties := by
    rcases sameUpdate_or_ofUpdate hobserved h hkept hresults with hsame | hof
    · exact (hoffered results hkept).of_sameUpdate hsame
    · exact hof
  obtain ⟨-, ⟨readings, -, hhandled⟩ | ⟨-, -, -, -, hsame, -⟩⟩ := step_cases h
  · rcases hhandled.results results hresults with hnow | ⟨hsame, -⟩
    · exact hnow.1
    · exact hkept hsame
  · exact hkept (hsame ▸ hresults)

/-- A call is permitted, as the results are those of the update on offer. -/
theorem permits_step (hoffered : ∀ results, t.session.pollResults = some results →
      results.OfUpdate t.properties) (h : s.step config event = some t) :
    t.session.calls = s.session.calls ∨
      ∃ call, t.session.calls = call :: s.session.calls ∧ Permits config ⟨s, event, t⟩ call := by
  obtain ⟨-, ⟨readings, hreadings, hhandled⟩ | ⟨-, -, hcalls, -⟩⟩ := step_cases h
  · rcases hhandled.calls with ⟨hcalls, -⟩ | ⟨call, hcalls, ⟨hle, hdelay⟩, -⟩
    · exact .inl hcalls
    · refine .inr ⟨call, hcalls, hle, fun happly hvisible hforce => ?_⟩
      obtain ⟨results, hresults, hnow⟩ := hdelay happly hvisible hforce
      refine ⟨results, readings, hresults, hoffered results hresults, hreadings, ?_⟩
      rw [← Session.toNat_nextUpdate]
      exact UInt64.le_iff_toNat_le.1 hnow
  · exact .inl hcalls

/-- The results in memory are recorded, as long as the file can be written. -/
theorem recorded_step {results : PollResults}
    (hrecorded : ∀ results, s.session.pollResults = some results →
      s.session.resultsFile = some results)
    (hwrite : ∀ readings, event.readings = some readings → readings.canWrite = true)
    (h : s.step config event = some t) (hresults : t.session.pollResults = some results) :
    t.session.resultsFile = some results := by
  obtain ⟨-, ⟨readings, hreadings, hhandled⟩ | ⟨-, -, -, -, hsame, hfile⟩⟩ := step_cases h
  · rcases hhandled.results results hresults with hnow | ⟨hsame, hfile⟩
    · exact hnow.2 (hwrite readings hreadings)
    · exact hfile.trans (hrecorded results hsame)
  · exact hfile.trans (hrecorded results (hsame ▸ hresults))

end RunState

/-- **A run is restrained.** Whatever earlier runs have recorded, from every state of the daemon and
however it changes, a run polls at most once and makes no call beyond `LastAutomaticStep`. Unless
the update is forced, it applies an update that the user sees only after the delay has passed since
exactly this update was recorded. No assertion fails. -/
theorem restrained {config : Config} {history : History RunState Event} {s : RunState}
    (hrun : Run RunState.Initial (RunState.step config) history s) :
    RunState.Restrained config history s := by
  -- stronger: a run with results has seen the poll end
  suffices h : RunState.Restrained config history s ∧ s.Observed from h.1
  induction hrun with
  | @start s hinitial =>
      have hresults : s.session.pollResults = none := by rw [hinitial]
      have hcalls : s.session.calls = [] := by rw [hinitial]
      refine ⟨⟨by rw [hinitial], by simp [hcalls], by simp, ?_, ?_⟩, fun _ => .inr hresults⟩
      · simp [hresults]
      · simp [hresults]
  | @next history s t event hrun hstep ih =>
      obtain ⟨⟨-, -, hcalls, hoffered, hrecorded⟩, hobserved⟩ := ih
      have hoffered' := RunState.offered_step hobserved hoffered hstep
      refine ⟨⟨?_, RunState.polls_le (hrun.next hstep), ?_, hoffered', ?_⟩,
        RunState.observed_step hobserved hstep⟩
      · obtain ⟨haborted, ⟨_, -, hhandled⟩ | ⟨-, hsame, -⟩⟩ := RunState.step_cases hstep
        · exact hhandled.aborted.trans haborted
        · exact hsame.trans haborted
      · rw [List.forall_mem_cons]
        exact ⟨RunState.permits_step hoffered' hstep, hcalls⟩
      · intro hwrite results hresults
        rw [List.forall_mem_cons] at hwrite
        exact RunState.recorded_step (hrecorded hwrite.2) hwrite.1 hstep hresults

/-! ### A run that applies an update -/

/-- Apply updates automatically, those that the user sees after a day. -/
def dailyConfig : Config := ⟨.apply, 1, by decide, false, false, none⟩

/-- An update that the user sees has been fetched, and was recorded by an earlier run. -/
def fetchedState : RunState where
  session := { resultsFile := some ⟨1500000000000000, "eos:os/eos/amd64/eos3", "c1"⟩ }
  properties := ⟨.state .updateReady, some "eos:os/eos/amd64/eos3", some "c1", true⟩

/-- The clock a day later. -/
def nextDay : Readings := ⟨1500086400000000, 1500086400000000, true, true⟩

/-- The run has called `Apply`. -/
def appliedState : RunState where
  session :=
    { previousState := .state .updateReady
      pollResults := fetchedState.session.resultsFile
      initialPoll := false
      calls := [.apply]
      resultsFile := fetchedState.session.resultsFile }
  properties := fetchedState.properties

/-- On the next day, with the update fetched, the idle source applies it. -/
theorem restrained_nextDay :
    RunState.Restrained dailyConfig [⟨fetchedState, .initialPoll nextDay, appliedState⟩]
      appliedState :=
  restrained (.next (.start rfl) (by decide +kernel))

end Autoupdater
