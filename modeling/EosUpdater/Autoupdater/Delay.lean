import EosUpdater.Autoupdater.Main
import EosUpdater.Updater.Details

/-!
# The delay of an update that the user sees

Runs of the automatic updater, one after the other, with the daemon and its restarts. As long as
every poll that finds an update finds the same one, the file with the poll results should keep the
time at which this update was first seen, and the delay be counted from then.

It keeps it exactly if, whenever a run sees a poll come to an end after that, the daemon still
offers the update (`kept_iff_remembered`). A daemon that has been restarted offers nothing, so a
poll that then ends in an error makes the run record that there is no update, and the delay starts
again when the update is next found.
-/

namespace Autoupdater

open Euu Machine Updater

variable {ρ : Type}

/-! ### The machine -/

/-- An update. The checksum of a commit is not empty. -/
structure Update where
  refspec : String
  id : String
  id_ne : id ≠ ""

/-- The daemon offers the update. -/
def Properties.Offers (properties : Properties) (update : Update) : Prop :=
  properties.updateRefspec.getD "" = update.refspec ∧ properties.updateId.getD "" = update.id

/-- An offer is read off the properties. -/
instance (properties : Properties) (update : Update) : Decidable (properties.Offers update) :=
  inferInstanceAs (Decidable (_ ∧ _))

/-- The results are those of the update. -/
def PollResults.Of (results : PollResults) (update : Update) : Prop :=
  results.updateRefspec = update.refspec ∧ results.updateId = update.id

/-- The update of some results is read off them. -/
instance (results : PollResults) (update : Update) : Decidable (results.Of update) :=
  inferInstanceAs (Decidable (_ ∧ _))

/-- The properties of a daemon as a proxy has them, and their defaults while there is none. -/
def Properties.of : Option (Daemon ρ) → Properties
  | none => ⟨.state .none, none, none, false⟩
  | some daemon =>
      ⟨.state daemon.updater.state, daemon.updater.updateRefspec, daemon.updater.updateId,
        daemon.updater.updateIsUserVisible⟩

/-- A machine with its daemon, if it runs, and the configuration of the run of the automatic
updater, if there is one. The session is that of this run, or else what the last one has left. -/
structure System (ρ : Type) where
  daemon : Option (Daemon ρ)
  running : Option Config
  session : Session
  /-- When a run first saw the update. This is not part of the programs. -/
  firstFound : Option UInt64

/-- What happens on the machine. Whoever calls its methods, the daemon takes its own steps. -/
inductive SystemEvent (ρ : Type)
  | daemonStarts (bootedChecksum : Except GError String) (installed : Bool) (readings : Readings)
  | daemonSteps (event : Updater.Event ρ) (readings : Readings)
  | daemonExits (readings : Readings)
  | runStarts (config : Config)
  | initialPoll (readings : Readings)
  | runEnds

/-- The readings of the run if it handles the event. -/
def SystemEvent.readings : SystemEvent ρ → Option Readings
  | .daemonStarts _ _ readings | .daemonSteps _ readings | .daemonExits readings
  | .initialPoll readings => some readings
  | .runStarts _ | .runEnds => none

namespace System

variable (update : Update)

def properties (s : System ρ) : Properties := .of s.daemon

/-- A run that is told this state sees the update: at the end of a poll, or when it is told that an
update is available or ready. -/
def Sees (s : System ρ) (state : StateValue) : Prop :=
  state ≠ s.session.previousState ∧ s.properties.Offers update ∧
    (s.session.previousState = .state .polling ∨ state = .state .updateAvailable ∨
      state = .state .updateReady)

/-- Whether an update is seen is read off the state and the properties. -/
instance (s : System ρ) (state : StateValue) : Decidable (s.Sees update state) :=
  inferInstanceAs (Decidable (_ ∧ _ ∧ _))

/-- The run, if there is one, is told a state. -/
def tell (s : System ρ) (state : StateValue) (readings : Readings) : System ρ :=
  match s.running with
  | none => s
  | some config =>
      { s with
        session := s.session.onStateChanged config readings s.properties state
        firstFound :=
          if s.Sees update state then some (s.firstFound.getD (usecs readings.resultsTime))
          else s.firstFound }

/-- The daemon changes, and a change of its state is notified. -/
def changeDaemon (s : System ρ) (daemon : Option (Daemon ρ)) (readings : Readings) : System ρ :=
  if (Properties.of daemon).state = s.properties.state then { s with daemon := daemon }
  else { s with daemon := daemon }.tell update (Properties.of daemon).state readings

/-- One event. -/
def step (s : System ρ) : SystemEvent ρ → Option (System ρ)
  | .daemonStarts bootedChecksum installed readings =>
      match s.daemon with
      | none =>
          some (s.changeDaemon update (some (.onBusAcquired bootedChecksum installed)) readings)
      | some _ => none
  | .daemonSteps event readings => do
      let daemon ← s.daemon
      let daemon' ← daemon.step event
      return s.changeDaemon update (some daemon') readings
  | .daemonExits readings => do
      let _ ← s.daemon
      -- the proxy has its defaults again, and then learns that the name has no owner
      let t := s.changeDaemon update none readings
      return { t with session := t.session.onNameOwnerChanged none }
  | .runStarts config =>
      match s.running with
      | none =>
          some { s with
            running := some config
            -- only the file is left of the last run
            session := { resultsFile := s.session.resultsFile } }
      | some _ => none
  | .initialPoll readings =>
      if s.running.isSome = true ∧ s.session.initialPoll = true then
        some ({ s with session := { s.session with initialPoll := false } }.tell update
          (Session.initialState s.properties) readings)
      else none
  | .runEnds => if s.running.isSome = true then some { s with running := none } else none

/-- The machine is off. The update may have been recorded already. -/
def Initial (s : System ρ) : Prop :=
  s.daemon = none ∧ s.running = none ∧
    s.firstFound = (s.session.resultsFile.filter (·.Of update)).map (·.lastChangedUsecs)

/-- What a poll of the daemon has found in this transition. -/
def foundIn (τ : Transition (System ρ) (SystemEvent ρ)) : Option (EosUpdateInfo ρ) :=
  match τ.event, τ.before.daemon, τ.after.daemon with
  | .daemonSteps event _, some daemon, some daemon' => foundBy ⟨daemon, event, daemon'⟩
  | _, _, _ => none

/-- The file has the time at which the update was first seen. -/
def Kept (s : System ρ) : Prop :=
  ∀ t, s.firstFound = some t → s.session.resultsFile = some ⟨t, update.refspec, update.id⟩

/-- A run that has been told of a poll sees it come to an end. -/
def SeesPollEnd (τ : Transition (System ρ) (SystemEvent ρ)) : Prop :=
  τ.before.running.isSome = true ∧ τ.before.session.previousState = .state .polling ∧
    τ.after.properties.state ≠ .state .polling

/-- The daemon offers the update at the end of a poll that a run sees after the update was found. -/
def Remembered (τ : Transition (System ρ) (SystemEvent ρ)) : Prop :=
  τ.before.firstFound.isSome = true → SeesPollEnd τ → τ.after.properties.Offers update

end System

/-! ### When a run looks at the file -/

namespace Session

variable (config : Config) (readings : Readings) (properties : Properties) {s t : Session}
  {state : StateValue}

/-- A run that is told this state updates its results. -/
def Consults (s : Session) (state : StateValue) : Prop :=
  s.previousState = .state .polling ∨
    (state = .state .updateAvailable ∨ state = .state .updateReady) ∧ s.pollResults = none

/-- The file is the same, and the results are not others. -/
structure Keeps (s t : Session) : Prop where
  resultsFile : t.resultsFile = s.resultsFile
  pollResults : ∀ results, t.pollResults = some results → s.pollResults = some results

/-- A session keeps what it has. -/
theorem Keeps.refl (s : Session) : s.Keeps s := ⟨rfl, fun _ h => h⟩

/-- A step of the update only makes a call. -/
theorem keeps_doUpdateStep (s : Session) (step : UpdateStep) :
    s.Keeps (s.doUpdateStep config readings properties step).2 := by
  unfold doUpdateStep
  split
  · exact .refl s
  · split
    · split
      · exact .refl s
      · cases config.volumePath <;> exact ⟨rfl, by rintro _ ⟨⟩⟩
    · exact ⟨rfl, fun _ h => h⟩
    · split
      · split
        · exact ⟨rfl, fun _ h => h⟩
        · split <;> exact ⟨rfl, fun _ h => h⟩
      · exact ⟨rfl, fun _ h => h⟩
    · exact ⟨rfl, fun _ h => h⟩

/-- What a run has before it takes a step for the state that it is told. -/
def consulted (s : Session) (state : StateValue) : Session :=
  let s := { s.leave readings properties with previousState := state }
  if state = .state .updateAvailable ∨ state = .state .updateReady then
    s.ensurePollResults readings properties
  else s

/-- Behind the consultation of the results a handler keeps them. -/
theorem keeps_onStateChanged (hne : state ≠ s.previousState) :
    (s.consulted readings properties state).Keeps
      (s.onStateChanged config readings properties state) := by
  have henter (t : Session) : (if state = .state .updateAvailable ∨ state = .state .updateReady then
      t.ensurePollResults readings properties else t).Keeps
        (t.enter config readings properties state).2 := by
    -- the steps begin with the results, and the other cases leave the session alone
    cases state with
    | invalid value => exact ⟨rfl, fun _ h => h⟩
    | state state =>
        cases state with
        | ready | updateAvailable | updateReady =>
            exact keeps_doUpdateStep config readings properties _ _
        | error => exact ⟨rfl, fun _ h => h⟩
        | none | polling | fetching | applyingUpdate | updateApplied => exact .refl t
  rw [onStateChanged, if_neg hne]
  dsimp only
  split
  · exact henter _
  · exact ⟨(henter _).1, (henter _).2⟩

/-- A run that consults the file has the results that it uses, and the file is as these leave it. -/
theorem consulted_of_consults (h : s.Consults state) :
    (s.consulted readings properties state).pollResults =
        some (usedResults readings properties s.resultsFile).1 ∧
      (s.consulted readings properties state).resultsFile =
        (usedResults readings properties s.resultsFile).2 := by
  unfold consulted leave ensurePollResults
  rcases h with hpolling | ⟨hstate, hnone⟩
  · rw [if_pos hpolling]
    dsimp only [updatePollResults]
    split <;> simp
  · by_cases hpolling : s.previousState = .state .polling
    · rw [if_pos hpolling]
      dsimp only [updatePollResults]
      split <;> simp
    · simp [hpolling, hstate, hnone, updatePollResults]

/-- A state that does not consult the results leaves them and their file. -/
theorem consulted_of_not_consults (h : ¬ s.Consults state) :
    (s.consulted readings properties state).pollResults = s.pollResults ∧
      (s.consulted readings properties state).resultsFile = s.resultsFile := by
  rw [Consults, not_or, not_and] at h
  unfold consulted leave ensurePollResults
  rw [if_neg h.1]
  dsimp only
  split
  · next hstate => simp [h.2 hstate]
  · exact ⟨rfl, rfl⟩

/-- What a run leaves when it consults the file. -/
theorem onStateChanged_of_consults (hne : state ≠ s.previousState) (h : s.Consults state) :
    (s.onStateChanged config readings properties state).resultsFile =
        (usedResults readings properties s.resultsFile).2 ∧
      ∀ results, (s.onStateChanged config readings properties state).pollResults = some results →
        results = (usedResults readings properties s.resultsFile).1 := by
  have hkeeps := keeps_onStateChanged config readings properties hne
  obtain ⟨hresults, hfile⟩ := consulted_of_consults readings properties h
  refine ⟨hkeeps.resultsFile.trans hfile, fun results h => ?_⟩
  exact (Option.some_inj.1 (hresults.symm.trans (hkeeps.pollResults results h))).symm

/-- What a run leaves when it does not. -/
theorem onStateChanged_of_not_consults (hne : state ≠ s.previousState) (h : ¬ s.Consults state) :
    s.Keeps (s.onStateChanged config readings properties state) := by
  have hkeeps := keeps_onStateChanged config readings properties hne
  obtain ⟨hresults, hfile⟩ := consulted_of_not_consults readings properties h
  exact ⟨hkeeps.resultsFile.trans hfile, fun results h =>
    hresults.symm.trans (hkeeps.pollResults results h)⟩

/-- A run that applies updates automatically takes every step. -/
theorem not_beyond (hlast : config.lastAutomaticStep = .apply) (step : UpdateStep) :
    ¬ step.value > config.lastAutomaticStep.value := by
  rw [hlast]
  cases step <;> decide

/-- Leaving makes no call. -/
theorem calls_leave (s : Session) : (s.leave readings properties).calls = s.calls := by
  unfold leave
  split <;> rfl

/-- Leaving is not polling. -/
theorem polledAlready_leave (s : Session) :
    (s.leave readings properties).polledAlready = s.polledAlready := by
  unfold leave
  split <;> rfl

/-- Reading or writing the results makes no call. -/
theorem calls_ensurePollResults (s : Session) :
    (s.ensurePollResults readings properties).calls = s.calls := by
  unfold ensurePollResults
  split <;> rfl

/-- What a run has called when it is told a state, from what it calls as it enters the state. -/
theorem calls_onStateChanged (hne : state ≠ s.previousState) :
    (s.onStateChanged config readings properties state).calls =
      ({ s.leave readings properties with previousState := state }.enter config readings properties
        state).2.calls := by
  rw [onStateChanged, if_neg hne]
  dsimp only
  split <;> rfl

/-- In the state `Ready` a run that has not polled polls. -/
theorem calls_ready (hlast : config.lastAutomaticStep = .apply)
    (hne : .state .ready ≠ s.previousState) (hpolled : s.polledAlready = false) :
    ∃ call : Call, call.step = .poll ∧
      (s.onStateChanged config readings properties (.state .ready)).calls = call :: s.calls := by
  rw [calls_onStateChanged config readings properties hne, enter, doUpdateStep,
    if_neg (not_beyond config hlast .poll)]
  simp only [polledAlready_leave, hpolled, Bool.false_eq_true, if_false]
  cases config.volumePath with
  | none => exact ⟨.poll, rfl, congrArg (_ :: ·) (calls_leave readings properties s)⟩
  | some path =>
    exact ⟨.pollVolume path, rfl, congrArg (_ :: ·) (calls_leave readings properties s)⟩

/-- In the state `UpdateAvailable` a run that may apply fetches. -/
theorem calls_updateAvailable (hlast : config.lastAutomaticStep = .apply)
    (hne : .state .updateAvailable ≠ s.previousState) :
    ∃ call : Call, call.step = .fetch ∧
      (s.onStateChanged config readings properties (.state .updateAvailable)).calls =
        call :: s.calls := by
  rw [calls_onStateChanged config readings properties hne, enter, doUpdateStep,
    if_neg (not_beyond config hlast .fetch)]
  refine ⟨.fetchFull _, rfl, congrArg (_ :: ·) ?_⟩
  exact (calls_ensurePollResults readings properties _).trans (calls_leave readings properties s)

/-- An update that is ready is applied once its delay has passed since it was recorded. -/
theorem calls_updateReady (hlast : config.lastAutomaticStep = .apply)
    (hne : .state .updateReady ≠ s.previousState)
    (hdelay : ∀ results,
      (s.onStateChanged config readings properties (.state .updateReady)).pollResults =
        some results → nextUpdate config results ≤ usecs readings.applyTime) :
    (s.onStateChanged config readings properties (.state .updateReady)).calls =
      .apply :: s.calls := by
  let t := { s.leave readings properties with previousState := .state .updateReady }
  -- there are results by the time the step is taken
  obtain ⟨results, hresults⟩ := Option.ne_none_iff_exists'.1
    (ensurePollResults_ne_none readings properties t)
  have hentered : t.enter config readings properties (.state .updateReady) =
      if !config.forceUpdate && properties.updateIsUserVisible then
        if usecs readings.applyTime < nextUpdate config results then
          (false, t.ensurePollResults readings properties)
        else (true, (t.ensurePollResults readings properties).call .apply)
      else (true, (t.ensurePollResults readings properties).call .apply) := by
    rw [enter, doUpdateStep, if_neg (not_beyond config hlast .apply)]
    simp only [hresults]
  have hnow : nextUpdate config results ≤ usecs readings.applyTime := by
    refine hdelay results ?_
    rw [onStateChanged, if_neg hne]
    dsimp only
    rw [hentered]
    split
    · split <;> exact hresults
    · exact hresults
  rw [calls_onStateChanged config readings properties hne, hentered, if_neg (UInt64.not_lt.2 hnow),
    ite_self]
  exact congrArg (_ :: ·) ((calls_ensurePollResults readings properties t).trans
    (calls_leave readings properties s))

/-- Where the file can be read and written, results of the update on offer are kept, and others are
replaced. -/
theorem usedResults_eq (hread : readings.canRead = true) (hwrite : readings.canWrite = true)
    (resultsFile : Option PollResults) :
    ((usedResults readings properties resultsFile).2 =
      some (usedResults readings properties resultsFile).1) ∧
    ((∃ results, resultsFile = some results ∧ results.OfUpdate properties ∧
        (usedResults readings properties resultsFile).1 = results) ∨
      (∀ results, resultsFile = some results → ¬ results.OfUpdate properties) ∧
        (usedResults readings properties resultsFile).1 =
          pollResultsNew (usecs readings.resultsTime) properties.updateRefspec
            properties.updateId) := by
  unfold usedResults readPollResultsFile writePollResultsFile
  cases resultsFile with
  | none => simp [hread, hwrite]
  | some results =>
      simp only [hread, hwrite, if_true]
      split
      · next hdiffer =>
          refine ⟨rfl, .inr ⟨?_, rfl⟩⟩
          rintro _ ⟨⟩ ⟨hrefspec, hid⟩
          exact hdiffer.elim (absurd hrefspec) (absurd hid)
      · next hsame =>
          rw [not_or, not_not, not_not] at hsame
          exact ⟨rfl, .inl ⟨results, rfl, hsame, rfl⟩⟩

end Session

/-! ### What holds between the programs -/

/-- The poll has found this update. -/
def Finds (update : Update) (info : EosUpdateInfo ρ) : Prop :=
  info.newRefspec = update.refspec ∧ info.checksum = update.id

/-- Results that are those of the offer are those of an update exactly if it is on offer. -/
theorem PollResults.OfUpdate.of_iff {results : PollResults} {properties : Properties}
    {update : Update} (h : results.OfUpdate properties) :
    results.Of update ↔ properties.Offers update := by
  rw [PollResults.Of, Properties.Offers, h.1, h.2]

/-- With the same offer, an update that is on offer was so before. -/
theorem Properties.Offers.of_sameUpdate {before after : Properties} {update : Update}
    (h : after.Offers update) (hsame : before.SameUpdate after) : before.Offers update :=
  ⟨hsame.1 ▸ h.1, hsame.2 ▸ h.2⟩

/-- The daemon has come to where it is by steps in which polls found no other update. -/
def FindsOnly (update : Update) (daemon : Daemon ρ) : Prop :=
  ∃ past, Run Daemon.Started Daemon.step past daemon ∧
    ∀ τ ∈ past, ∀ info, foundBy τ = some info → Finds update info

namespace System

variable {update : Update} {s t : System ρ} {state : StateValue} {readings : Readings}
  {daemon daemon' : Daemon ρ}

/-- What a run knows: whether the daemon is polling, and the results that are in the file, which are
those of the update while this is on offer. -/
structure Running (update : Update) (s : System ρ) : Prop where
  aborted : s.session.aborted = false
  observed : s.properties.state = .state .polling →
    s.session.previousState = .state .polling ∨ s.session.pollResults = none
  told : s.session.previousState = .state .polling → s.properties.state = .state .polling
  recorded : ∀ results, s.session.pollResults = some results →
    s.session.resultsFile = some results
  offered : s.properties.Offers update → ∀ results, s.session.pollResults = some results →
    results.Of update

/-- What holds of the machine whether or not it keeps the time. -/
structure Consistent (update : Update) (s : System ρ) : Prop where
  daemon : ∀ daemon, s.daemon = some daemon → FindsOnly update daemon
  unseen : s.firstFound = none → ∀ results, s.session.resultsFile = some results →
    ¬ results.Of update
  run : s.running.isSome = true → s.Running update

/-- A daemon that has found an update offers it in the states that say so. -/
theorem offers_of_state (h : FindsOnly update daemon)
    (hstate : daemon.updater.state ∈ [EosUpdaterState.updateAvailable, .updateReady]) :
    (Properties.of (some daemon)).Offers update := by
  obtain ⟨past, hrun, hfinds⟩ := h
  have hoffering : daemon.updater.state ∈ offering := by
    revert hstate
    generalize daemon.updater.state = state
    revert state
    decide
  obtain ⟨info, hlatest, hoffer⟩ := (consistent_of_run hrun).offered hoffering
  obtain ⟨τ, hτ, hfound⟩ := List.exists_of_findSome?_eq_some hlatest
  obtain ⟨hrefspec, hid⟩ := hfinds τ hτ info hfound
  have hoffer' := And.intro (congrArg Offer.updateRefspec hoffer) (congrArg Offer.updateId hoffer)
  simp only [Daemon.offer, EosUpdateInfo.offer] at hoffer'
  simp [Properties.Offers, Properties.of, hoffer'.1, hoffer'.2, hrefspec, hid]

/-- In a state with an update, the one on offer is the one that the searches find. -/
theorem offers_of_properties (h : ∀ daemon, s.daemon = some daemon → FindsOnly update daemon)
    (hstate : s.properties.state = .state .updateAvailable ∨
      s.properties.state = .state .updateReady) : s.properties.Offers update := by
  unfold properties at hstate ⊢
  cases hdaemon : s.daemon with
  | none =>
      rw [hdaemon] at hstate
      simp [Properties.of] at hstate
  | some daemon =>
      refine offers_of_state (h daemon hdaemon) ?_
      rw [hdaemon] at hstate
      simpa [Properties.of] using hstate

/-- A step of the daemon changes the update on offer only to this one, when a poll comes to an
end. -/
theorem findsOnly_step {event : Updater.Event ρ} (h : FindsOnly update daemon)
    (hstep : daemon.step event = some daemon')
    (hfinds : ∀ info, foundBy ⟨daemon, event, daemon'⟩ = some info → Finds update info) :
    FindsOnly update daemon' ∧
      ((Properties.of (some daemon)).SameUpdate (.of (some daemon')) ∨
        (Properties.of (some daemon)).PollEnds (.of (some daemon'))) := by
  obtain ⟨past, hrun, hpast⟩ := h
  refine ⟨⟨_, hrun.next hstep, List.forall_mem_cons.2 ⟨hfinds, hpast⟩⟩, ?_⟩
  -- a step of the daemon that changes the offer ends a poll
  rcases update_of_step (consistent_of_run hrun).exclusive hstep with
    ⟨info, -, -, -, hpolling, hends⟩ | ⟨-, hid, hrefspec⟩
  · refine .inr ⟨congrArg StateValue.state hpolling, fun heq => hends ?_⟩
    exact StateValue.state.inj heq
  · exact .inl ⟨hrefspec, hid⟩

/-- A daemon that has just started offers nothing. -/
theorem not_offers_started (h : daemon.Started) :
    ¬ (Properties.of (some daemon)).Offers update := by
  rintro ⟨-, hid⟩
  refine update.id_ne (hid.symm.trans ?_)
  rcases h.blank.updateId with hnone | hempty
  · exact congrArg (·.getD "") hnone
  · exact congrArg (·.getD "") hempty

/-- Without a daemon nothing is on offer. -/
theorem not_offers_none : ¬ (Properties.of (none : Option (Daemon ρ))).Offers update := by
  rintro ⟨-, hid⟩
  exact update.id_ne hid.symm

/-! ### What a run does when it is told a state -/

/-- What is known when a run is told a state: it is the state of the daemon, or the run pretends
that an error is cleared; and unless the run consults the file, its results are those of the update
if this is on offer. -/
structure Tellable (update : Update) (s : System ρ) (state : StateValue) : Prop where
  daemon : ∀ daemon, s.daemon = some daemon → FindsOnly update daemon
  unseen : s.firstFound = none → ∀ results, s.session.resultsFile = some results →
    ¬ results.Of update
  aborted : s.session.aborted = false
  recorded : ∀ results, s.session.pollResults = some results →
    s.session.resultsFile = some results
  known : state = s.properties.state ∨ state = .state .ready ∧ s.properties.state = .state .error
  offered : s.properties.Offers update → ∀ results, s.session.pollResults = some results →
    state = s.session.previousState ∨ ¬ s.session.Consults state → results.Of update

/-- A run that is told of a state handles it. -/
theorem tell_running {config : Config} (h : s.running = some config) :
    s.tell update state readings =
      { s with
        session := s.session.onStateChanged config readings s.properties state
        firstFound :=
          if s.Sees update state then some (s.firstFound.getD (usecs readings.resultsTime))
          else s.firstFound } := by
  rw [tell, h]

/-- The update is on offer where a run is told that one is available or ready. -/
theorem Tellable.offers (h : Tellable update s state)
    (hstate : state = .state .updateAvailable ∨ state = .state .updateReady) :
    s.properties.Offers update := by
  refine offers_of_properties h.daemon ?_
  rcases h.known with rfl | ⟨rfl, -⟩
  · exact hstate
  · simp at hstate

/-- A run that consults the file while the update is on offer sees it. -/
theorem sees_of_consults (hne : state ≠ s.session.previousState)
    (hoffers : s.properties.Offers update) (h : s.session.Consults state) : s.Sees update state :=
  ⟨hne, hoffers, h.imp_right fun h => h.1⟩

/-- What a run knows once it is told a state, from what it then has for results. -/
theorem Tellable.running (config : Config) (h : Tellable update s state)
    (hrecorded : ∀ results,
      (s.session.onStateChanged config readings s.properties state).pollResults = some results →
      (s.session.onStateChanged config readings s.properties state).resultsFile = some results)
    (hoffered : s.properties.Offers update → ∀ results,
      (s.session.onStateChanged config readings s.properties state).pollResults = some results →
      results.Of update) (firstFound : Option UInt64) :
    Running update { s with
      session := s.session.onStateChanged config readings s.properties state
      firstFound := firstFound } where
  aborted :=
    (Session.handled_onStateChanged config readings s.properties s.session state).aborted.trans
      h.aborted
  observed hpolling := by
    refine .inl ((Session.previousState_onStateChanged _ _ _ _ _).trans ?_)
    rcases h.known with hsame | ⟨-, herror⟩
    · exact hsame.trans hpolling
    · exact absurd (herror.symm.trans hpolling) (by decide)
  told hprevious := by
    rw [Session.previousState_onStateChanged] at hprevious
    rcases h.known with hsame | ⟨hready, -⟩
    · exact hsame.symm.trans hprevious
    · exact absurd (hready.symm.trans hprevious) (by decide)
  recorded := hrecorded
  offered := hoffered

/-- What a run that is told of a state does keeps the results consistent. -/
theorem Tellable.consistent {config : Config} (h : Tellable update s state)
    (hrunning : s.running = some config) (hread : readings.canRead = true)
    (hwrite : readings.canWrite = true) :
    (s.tell update state readings).Consistent update := by
  rw [tell_running hrunning]
  by_cases hsame : state = s.session.previousState
  · -- the handler returns at once
    have hsession : s.session.onStateChanged config readings s.properties state = s.session :=
      if_pos hsame
    refine ⟨h.daemon, fun hnone => ?_, fun _ => h.running config ?_ ?_ _⟩
    · rw [hsession]
      exact h.unseen ((if_neg fun hsees => hsees.1 hsame).symm.trans hnone)
    · rw [hsession]
      exact h.recorded
    · rw [hsession]
      exact fun hoffers results hresults => h.offered hoffers results hresults (.inl hsame)
  -- only in the states of a pending update the handler looks at what has been recorded
  · by_cases hconsults : s.session.Consults state
    · obtain ⟨hfile, hresults⟩ :=
        Session.onStateChanged_of_consults config readings s.properties hsame hconsults
      obtain ⟨hof, -⟩ := Session.recordedNow_updatePollResults readings s.properties s.session
      obtain ⟨hwritten, -⟩ :=
        Session.usedResults_eq readings s.properties hread hwrite s.session.resultsFile
      have hfile' := hfile.trans hwritten
      refine ⟨h.daemon, fun hnone results hfile'' => ?_, fun _ => h.running config
        (fun results h' => ?_) (fun hoffers results h' => ?_) _⟩
      · -- a record of the update is only made where the run sees it
        obtain rfl := Option.some_inj.1 (hfile'.symm.trans hfile'')
        intro hresults
        have hsees := sees_of_consults hsame (hof.of_iff.1 hresults) hconsults
        rw [if_pos hsees] at hnone
        cases hnone
      · rw [hresults results h']
        exact hfile'
      · rw [hresults results h']
        exact hof.of_iff.2 hoffers
    · obtain ⟨hfile, hresults⟩ :=
        Session.onStateChanged_of_not_consults config readings s.properties hsame hconsults
      refine ⟨h.daemon, fun hnone results hfile' => ?_, fun _ => h.running config
        (fun results h' => ?_) (fun hoffers results h' => ?_) _⟩
      · dsimp only at hnone
        split at hnone
        · cases hnone
        · exact h.unseen hnone results (hfile.symm.trans hfile')
      · exact hfile.trans (h.recorded results (hresults results h'))
      · exact h.offered hoffers results (hresults results h') (.inr hconsults)

/-- **When a run keeps the time** at which it has first seen the update: unless it sees a poll come
to an end, once the update was found, while this is not on offer. -/
theorem Tellable.kept_iff {config : Config} (h : Tellable update s state)
    (hrunning : s.running = some config) (hread : readings.canRead = true)
    (hwrite : readings.canWrite = true) (hkept : s.Kept update) :
    (s.tell update state readings).Kept update ↔
      (s.firstFound.isSome = true → state ≠ s.session.previousState →
        s.session.previousState = .state .polling → s.properties.Offers update) := by
  rw [tell_running hrunning]
  by_cases hsame : state = s.session.previousState
  · have hsession : s.session.onStateChanged config readings s.properties state = s.session :=
      if_pos hsame
    rw [hsession, if_neg fun hsees => hsees.1 hsame]
    exact ⟨fun _ _ hne => absurd hsame hne, fun _ => hkept⟩
  · by_cases hconsults : s.session.Consults state
    · obtain ⟨hfile, -⟩ :=
        Session.onStateChanged_of_consults config readings s.properties hsame hconsults
      obtain ⟨hof, -⟩ := Session.recordedNow_updatePollResults readings s.properties s.session
      obtain ⟨hwritten, hused⟩ :=
        Session.usedResults_eq readings s.properties hread hwrite s.session.resultsFile
      have hfile' := hfile.trans hwritten
      by_cases hoffers : s.properties.Offers update
      · -- the update is on offer, and its results are used
        refine ⟨fun _ _ _ _ => hoffers, fun _ t ht => hfile'.trans ?_⟩
        rw [if_pos (sees_of_consults hsame hoffers hconsults)] at ht
        obtain rfl := Option.some_inj.1 ht
        cases hfirst : s.firstFound with
        | none =>
            rcases hused with ⟨results, hresults, hof', -⟩ | ⟨-, hnew⟩
            · exact absurd (hof'.of_iff.2 hoffers) (h.unseen hfirst results hresults)
            · rw [hnew, pollResultsNew, hoffers.1, hoffers.2]
              rfl
        | some t =>
            have hrecord := hkept t hfirst
            rcases hused with ⟨results, hresults, -, heq⟩ | ⟨hother, -⟩
            · rw [heq, ← hresults, hrecord]
              rfl
            · exact absurd ⟨hoffers.1.symm, hoffers.2.symm⟩ (hother _ hrecord)
      · -- another record replaces that of the update
        have hpolling : s.session.previousState = .state .polling :=
          hconsults.resolve_right fun hstate => hoffers (h.offers hstate.1)
        rw [if_neg fun hsees => hoffers hsees.2.1]
        constructor
        · intro hkept' hfound
          obtain ⟨t, ht⟩ := Option.isSome_iff_exists.1 hfound
          have heq := Option.some_inj.1 (hfile'.symm.trans (hkept' t ht))
          exact absurd (hof.of_iff.1 (heq ▸ ⟨rfl, rfl⟩)) hoffers
        · intro hnone t ht
          exact absurd (hnone (Option.isSome_of_eq_some ht) hsame hpolling) hoffers
    · obtain ⟨hfile, -⟩ :=
        Session.onStateChanged_of_not_consults config readings s.properties hsame hconsults
      refine ⟨fun _ _ _ hpolling => absurd (.inl hpolling) hconsults, fun _ t ht => hfile.trans ?_⟩
      dsimp only at ht
      split at ht
      · next hsees =>
          obtain rfl := Option.some_inj.1 ht
          cases hfirst : s.firstFound with
          | none =>
              -- the run has seen the update before, as it does not consult the file
              obtain ⟨-, hoffers, hstate⟩ := hsees
              rw [Session.Consults, not_or, not_and] at hconsults
              obtain ⟨results, hresults⟩ := Option.ne_none_iff_exists'.1
                (hconsults.2 (hstate.resolve_left hconsults.1))
              exact absurd (h.offered hoffers results hresults
                (.inr (by simpa [Session.Consults, not_or, not_and] using hconsults)))
                (h.unseen hfirst results (h.recorded results hresults))
          | some t => exact hkept t hfirst
      · exact hkept t ht

/-! ### What an event does -/

/-- The daemon changes, and offers the same update, or another one than this, unless a poll comes to
an end. -/
structure Changeable (update : Update) (s : System ρ) (daemon : Option (Daemon ρ)) : Prop where
  findsOnly : ∀ daemon', daemon = some daemon' → FindsOnly update daemon'
  change : s.properties.SameUpdate (.of daemon) ∨ ¬ (Properties.of daemon).Offers update ∨
    s.properties.PollEnds (.of daemon)

/-- The new properties can be told to a run. -/
theorem Changeable.tellable {daemon : Option (Daemon ρ)} (h : Changeable update s daemon)
    (hs : s.Consistent update) (hrunning : s.running.isSome = true) :
    Tellable update { s with daemon := daemon } (Properties.of daemon).state where
  daemon := h.findsOnly
  unseen := hs.unseen
  aborted := (hs.run hrunning).aborted
  recorded := (hs.run hrunning).recorded
  known := .inl rfl
  offered hoffers results hresults hquiet := by
    rcases h.change with hsame | hnot | ⟨hpolling, hends⟩
    · exact (hs.run hrunning).offered (hoffers.of_sameUpdate hsame) results hresults
    · exact absurd hoffers hnot
    · -- the run has seen the poll, and consults the file at its end
      rcases (hs.run hrunning).observed hpolling with hprevious | hnone
      · rcases hquiet with hquiet | hquiet
        · exact absurd (hquiet.trans hprevious) hends
        · exact absurd (.inl hprevious) hquiet
      · rw [hnone] at hresults
        cases hresults

/-- A change of the daemon keeps the results consistent. -/
theorem Changeable.consistent {daemon : Option (Daemon ρ)} (h : Changeable update s daemon)
    (hs : s.Consistent update) (hread : readings.canRead = true)
    (hwrite : readings.canWrite = true) :
    (s.changeDaemon update daemon readings).Consistent update := by
  unfold changeDaemon
  split
  · next hstate =>
      refine ⟨h.findsOnly, hs.unseen, fun hrunning => ?_⟩
      have hrun := hs.run hrunning
      refine ⟨hrun.aborted, fun hpolling => hrun.observed (hstate.symm.trans hpolling),
        fun hprevious => hstate.trans (hrun.told hprevious), hrun.recorded,
        fun hoffers results hresults => ?_⟩
      rcases h.change with hsame | hnot | ⟨hpolling, hends⟩
      · exact hrun.offered (hoffers.of_sameUpdate hsame) results hresults
      · exact absurd hoffers hnot
      · exact absurd (hstate.trans hpolling) hends
  · rcases Option.eq_none_or_eq_some s.running with hrunning | ⟨config, hrunning⟩
    · have htell : { s with daemon := daemon }.tell update (Properties.of daemon).state readings =
          { s with daemon := daemon } := by
        simp [tell, hrunning]
      rw [htell]
      exact ⟨h.findsOnly, hs.unseen, fun hsome => by simp [hrunning] at hsome⟩
    · exact (h.tellable hs (Option.isSome_of_eq_some hrunning)).consistent hrunning hread hwrite

/-- Telling the run does nothing to the daemon. -/
theorem tell_daemon (s : System ρ) : (s.tell update state readings).daemon = s.daemon := by
  unfold tell
  split <;> rfl

/-- A run that is told of a state goes on. -/
theorem tell_running_eq (s : System ρ) : (s.tell update state readings).running = s.running := by
  unfold tell
  split <;> rfl

/-- A change of the daemon leaves the run running. -/
theorem changeDaemon_running (s : System ρ) (daemon : Option (Daemon ρ)) :
    (s.changeDaemon update daemon readings).running = s.running := by
  unfold changeDaemon
  split
  · rfl
  · exact tell_running_eq _

/-- A change of the daemon is this change. -/
theorem changeDaemon_daemon (s : System ρ) (daemon : Option (Daemon ρ)) :
    (s.changeDaemon update daemon readings).daemon = daemon := by
  unfold changeDaemon
  split
  · rfl
  · exact tell_daemon _

/-- A change of the daemon keeps the time of the first finding exactly if a run that sees the end of
a poll by it finds the update on offer. -/
theorem Changeable.kept_iff {daemon : Option (Daemon ρ)} (h : Changeable update s daemon)
    (hs : s.Consistent update) (hread : readings.canRead = true)
    (hwrite : readings.canWrite = true) (hkept : s.Kept update) :
    (s.changeDaemon update daemon readings).Kept update ↔
      (s.firstFound.isSome = true → s.running.isSome = true →
        s.session.previousState = .state .polling →
        (Properties.of daemon).state ≠ .state .polling →
        (Properties.of daemon).Offers update) := by
  rcases Option.eq_none_or_eq_some s.running with hrunning | ⟨config, hrunning⟩
  · have htell : s.changeDaemon update daemon readings = { s with daemon := daemon } := by
      simp [changeDaemon, tell, hrunning]
    rw [htell]
    refine ⟨fun _ _ hsome => ?_, fun _ => hkept⟩
    rw [hrunning] at hsome
    cases hsome
  · have hsome : s.running.isSome = true := Option.isSome_of_eq_some hrunning
    unfold changeDaemon
    split
    · next hstate =>
        -- nothing is told, and the daemon still polls if it did
        refine ⟨fun _ _ _ hprevious hends => ?_, fun _ => hkept⟩
        exact absurd (hstate.trans ((hs.run hsome).told hprevious)) hends
    · refine ((h.tellable hs hsome).kept_iff hrunning hread hwrite hkept).trans ?_
      constructor
      · intro hpoll hfound _ hprevious hends
        exact hpoll hfound (hprevious ▸ hends) hprevious
      · intro hpoll hfound hne hprevious
        exact hpoll hfound hsome hprevious (hprevious ▸ hne)

/-- A daemon that starts offers nothing yet. -/
theorem changeable_started (s : System ρ) (bootedChecksum : Except GError String)
    (installed : Bool) :
    Changeable update s (some (.onBusAcquired bootedChecksum installed)) where
  findsOnly daemon heq := by
    obtain rfl := Option.some_inj.1 heq
    exact ⟨[], .start ⟨_, _, rfl⟩, by simp⟩
  change := .inr (.inl (not_offers_started ⟨_, _, rfl⟩))

/-- A daemon that goes offers nothing any more. -/
theorem changeable_none (s : System ρ) : Changeable update s none where
  findsOnly daemon heq := by cases heq
  change := .inr (.inl not_offers_none)

/-- An event of the daemon changes what is on offer only if it finds the update. -/
theorem changeable_step {event : Updater.Event ρ} (hs : s.Consistent update)
    (hdaemon : s.daemon = some daemon) (hstep : daemon.step event = some daemon')
    (hfinds : ∀ info, foundBy ⟨daemon, event, daemon'⟩ = some info → Finds update info) :
    Changeable update s (some daemon') := by
  obtain ⟨hfindsOnly, hchange⟩ := findsOnly_step (hs.daemon daemon hdaemon) hstep hfinds
  refine ⟨fun _ heq => Option.some_inj.1 heq ▸ hfindsOnly, ?_⟩
  rw [properties, hdaemon]
  exact hchange.imp_right .inr

/-- A run that has been told `Polling` is told the next state, so it sees the poll come to an
end. -/
theorem Changeable.remembered_iff {daemon : Option (Daemon ρ)} {event : SystemEvent ρ}
    (h : Changeable update s daemon) (hs : s.Consistent update) (hread : readings.canRead = true)
    (hwrite : readings.canWrite = true) (hkept : s.Kept update) (ht : t.daemon = daemon) :
    (s.changeDaemon update daemon readings).Kept update ↔
      Remembered update ⟨s, event, t⟩ := by
  subst ht
  rw [h.kept_iff hs hread hwrite hkept]
  exact ⟨fun hpoll hfound hends => hpoll hfound hends.1 hends.2.1 hends.2.2,
    fun hpoll hfound hrunning hprevious hends => hpoll hfound ⟨hrunning, hprevious, hends⟩⟩

/-- A change of the daemon keeps the results consistent, and the time of the first finding if it is
remembered. -/
theorem Changeable.changed {daemon : Option (Daemon ρ)} {event : SystemEvent ρ}
    (h : Changeable update s daemon) (hs : s.Consistent update) (hread : readings.canRead = true)
    (hwrite : readings.canWrite = true) :
    (s.changeDaemon update daemon readings).Consistent update ∧
      (s.Kept update → ((s.changeDaemon update daemon readings).Kept update ↔
        Remembered update ⟨s, event, s.changeDaemon update daemon readings⟩)) :=
  ⟨h.consistent hs hread hwrite,
    fun hkept => h.remembered_iff hs hread hwrite hkept (changeDaemon_daemon s _)⟩

/-- The first state that a run is told is not the end of a poll. -/
theorem Consistent.initialState_eq (hs : s.Consistent update) (hrunning : s.running.isSome = true)
    (hprevious : s.session.previousState = .state .polling) :
    Session.initialState s.properties = .state .polling := by
  have hpolling := (hs.run hrunning).told hprevious
  rw [Session.initialState, hpolling]
  rfl

/-- The idle source can tell the run the state of its proxy. -/
theorem Consistent.tellable (hs : s.Consistent update) (hrunning : s.running.isSome = true) :
    Tellable update { s with session := { s.session with initialPoll := false } }
      (Session.initialState s.properties) where
  daemon := hs.daemon
  unseen := hs.unseen
  aborted := (hs.run hrunning).aborted
  recorded := (hs.run hrunning).recorded
  known := by
    unfold Session.initialState
    split
    · next herror => exact .inr ⟨rfl, herror⟩
    · exact .inl rfl
  offered hoffers results hresults _ := (hs.run hrunning).offered hoffers results hresults

/-- **The step.** -/
theorem Consistent.step {event : SystemEvent ρ} (hs : s.Consistent update)
    (h : s.step update event = some t)
    (hfinds : ∀ info, foundIn ⟨s, event, t⟩ = some info → Finds update info)
    (hfile : ∀ readings, event.readings = some readings →
      readings.canRead = true ∧ readings.canWrite = true) :
    t.Consistent update ∧
      (s.Kept update → (t.Kept update ↔ Remembered update ⟨s, event, t⟩)) := by
  cases event with
  | daemonStarts bootedChecksum installed readings =>
      obtain ⟨hread, hwrite⟩ := hfile readings rfl
      simp only [System.step] at h
      split at h
      · obtain rfl := Option.some_inj.1 h
        exact (changeable_started s bootedChecksum installed).changed hs hread hwrite
      · cases h
  | daemonSteps event readings =>
      obtain ⟨hread, hwrite⟩ := hfile readings rfl
      simp only [System.step, Option.bind_eq_bind, Option.bind_eq_some_iff] at h
      obtain ⟨daemon, hdaemon, daemon', hstep, heq⟩ := h
      obtain rfl := Option.some_inj.1 heq
      -- an update that the daemon finds is the one that the history knows of
      have hchange : Changeable update s (some daemon') := by
        refine changeable_step hs hdaemon hstep fun info hfound => hfinds info ?_
        simp only [foundIn, hdaemon, changeDaemon_daemon]
        exact hfound
      exact hchange.changed hs hread hwrite
  | daemonExits readings =>
      obtain ⟨hread, hwrite⟩ := hfile readings rfl
      simp only [System.step, Option.bind_eq_bind, Option.bind_eq_some_iff] at h
      obtain ⟨-, -, heq⟩ := h
      obtain rfl := Option.some_inj.1 heq
      have hchange : Changeable update s none := changeable_none s
      have hconsistent := hchange.consistent hs hread hwrite
      refine ⟨⟨hconsistent.daemon, hconsistent.unseen, fun hrunning => ?_⟩, fun hkept =>
        hchange.remembered_iff hs hread hwrite hkept (changeDaemon_daemon s _)⟩
      have hrun := hconsistent.run hrunning
      exact ⟨hrun.aborted, hrun.observed, hrun.told, hrun.recorded, hrun.offered⟩
  | runStarts config =>
      simp only [System.step] at h
      split at h
      · next hnone =>
          obtain rfl := Option.some_inj.1 h
          refine ⟨⟨hs.daemon, hs.unseen, fun _ => ⟨rfl, fun _ => .inr rfl, ?_, ?_, ?_⟩⟩,
            fun hkept => ⟨fun _ _ hends => ?_, fun _ => hkept⟩⟩
          · rintro ⟨⟩
          · rintro _ ⟨⟩
          · rintro _ _ ⟨⟩
          -- without a run, nobody has seen the poll
          · rw [SeesPollEnd, hnone] at hends
            cases hends.1
      · cases h
  | initialPoll readings =>
      obtain ⟨hread, hwrite⟩ := hfile readings rfl
      obtain ⟨⟨hrunning, -⟩, heq⟩ := Option.ite_none_right_eq_some.1 h
      obtain rfl := Option.some_inj.1 heq
      obtain ⟨config, hconfig⟩ := Option.isSome_iff_exists.1 hrunning
      have htell := hs.tellable hrunning
      refine ⟨htell.consistent hconfig hread hwrite, fun hkept => ?_⟩
      refine (htell.kept_iff hconfig hread hwrite hkept).trans ?_
      -- a poll that the run knows of is still going on, and the state is one that it knows
      constructor
      · rintro - - ⟨-, hprevious, hends⟩
        refine absurd ?_ hends
        rw [properties, tell_daemon]
        exact (hs.run hrunning).told hprevious
      · intro _ _ hne hprevious
        exact absurd ((hs.initialState_eq hrunning hprevious).trans hprevious.symm) hne
  | runEnds =>
      obtain ⟨hrunning, heq⟩ := Option.ite_none_right_eq_some.1 h
      obtain rfl := Option.some_inj.1 heq
      refine ⟨⟨hs.daemon, hs.unseen, by rintro ⟨⟩⟩,
        fun hkept => ⟨fun _ _ hends => ?_, fun _ => hkept⟩⟩
      -- a poll that the run knows of is still going on
      exact absurd ((hs.run hrunning).told hends.2.1) hends.2.2

/-- Without results and without a run, all is consistent. -/
theorem Initial.consistent (h : s.Initial update) : s.Consistent update := by
  obtain ⟨hdaemon, hrunning, hfirst⟩ := h
  refine ⟨fun daemon hsome => ?_, fun hnone results hfile hof => ?_, fun hsome => ?_⟩
  · rw [hdaemon] at hsome
    cases hsome
  · rw [hfirst, hfile, Option.filter_some_pos (by simpa using hof)] at hnone
    cases hnone
  · rw [hrunning] at hsome
    cases hsome

/-- Nothing has been found yet. -/
theorem Initial.kept (h : s.Initial update) : s.Kept update := by
  intro t ht
  rw [h.2.2, Option.map_eq_some_iff] at ht
  obtain ⟨results, hresults, rfl⟩ := ht
  obtain ⟨hfile, hof⟩ := Option.filter_eq_some_iff.1 hresults
  obtain ⟨hrefspec, hid⟩ := of_decide_eq_true hof
  rw [hfile, ← hrefspec, ← hid]

/-! ### Runs of the machine -/

variable {history : History (System ρ) (SystemEvent ρ)}

/-- Every poll of the daemon that finds an update finds this one. -/
def FindsOneUpdate (update : Update) (history : History (System ρ) (SystemEvent ρ)) : Prop :=
  ∀ τ ∈ history, ∀ info, foundIn τ = some info → Finds update info

/-- The file with the poll results can be read and written. -/
def FileWorks (history : History (System ρ) (SystemEvent ρ)) : Prop :=
  ∀ τ ∈ history, ∀ readings, τ.event.readings = some readings →
    readings.canRead = true ∧ readings.canWrite = true

/-- **Any number of steps.** The results are consistent all along. -/
theorem consistent_of_run (hrun : Run (Initial update) (step update) history s)
    (hfinds : FindsOneUpdate update history) (hfile : FileWorks history) :
    s.Consistent update := by
  induction hrun with
  | start hinitial => exact hinitial.consistent
  | next _ hstep ih =>
      obtain ⟨hfound, hfinds⟩ := List.forall_mem_cons.1 hfinds
      obtain ⟨hworks, hfile⟩ := List.forall_mem_cons.1 hfile
      exact ((ih hfinds hfile).step hstep hfound hworks).1

/-- The run is told a state in this transition. -/
structure Tells (config : Config) (readings : Readings) (state : StateValue)
    (τ : Transition (System ρ) (SystemEvent ρ)) : Prop where
  running : τ.before.running = some config
  reads : τ.event.readings = some readings
  before : state ≠ τ.before.session.previousState
  after : τ.after.session.previousState = state

/-- A run that applies updates automatically polls when the daemon is ready, unless it has polled,
fetches an update that is available, and applies the update that is ready once its delay has passed
since it was first seen. -/
structure Advances (τ : Transition (System ρ) (SystemEvent ρ)) : Prop where
  polls : ∀ config readings, config.lastAutomaticStep = .apply →
    Tells config readings (.state .ready) τ → τ.before.session.polledAlready = false →
    ∃ call : Call, call.step = .poll ∧ τ.after.session.calls = call :: τ.before.session.calls
  fetches : ∀ config readings, config.lastAutomaticStep = .apply →
    Tells config readings (.state .updateAvailable) τ →
    ∃ call : Call, call.step = .fetch ∧ τ.after.session.calls = call :: τ.before.session.calls
  applies : ∀ config readings, config.lastAutomaticStep = .apply →
    Tells config readings (.state .updateReady) τ →
    ∃ t, τ.after.firstFound = some t ∧
      (min (t.toNat + config.userVisibleDelayDays.toNat * usecPerDay.toNat) (2 ^ 64 - 1) ≤
          (usecs readings.applyTime).toNat →
        τ.after.session.calls = .apply :: τ.before.session.calls)

/-- A run that is told of a state has seen this. -/
theorem previousState_tell {config : Config} (hrunning : s.running = some config) :
    (s.tell update state readings).session.previousState = state := by
  rw [tell_running hrunning]
  exact Session.previousState_onStateChanged _ _ _ _ _

/-- Where the session goes from `s` to `t` as the daemon changes, the run is told its state. -/
theorem changeDaemon_inversion {config : Config} {daemon : Option (Daemon ρ)}
    (hrunning : s.running = some config)
    (hafter : (s.changeDaemon update daemon readings).session.previousState = state)
    (hne : state ≠ s.session.previousState) :
    state = (Properties.of daemon).state ∧
      s.changeDaemon update daemon readings =
        { s with daemon := daemon }.tell update state readings := by
  unfold changeDaemon at hafter ⊢
  split at hafter
  · exact absurd hafter.symm hne
  · next hstate =>
      have hrunning' : { s with daemon := daemon }.running = some config := hrunning
      rw [previousState_tell hrunning'] at hafter
      rw [if_neg hstate, hafter]
      exact ⟨rfl, rfl⟩

/-- A run that is told a state in a step has called `on_state_changed`. -/
theorem Tells.inversion {config : Config} {event : SystemEvent ρ}
    (h : Tells config readings state ⟨s, event, t⟩) (hstep : s.step update event = some t) :
    t.running = some config ∧ (state = t.properties.state ∨ state = .state .ready) ∧
      ∃ u : System ρ, u.running = some config ∧ u.session.calls = s.session.calls ∧
        u.session.polledAlready = s.session.polledAlready ∧
        u.session.previousState = s.session.previousState ∧ u.properties = t.properties ∧
        t.session.calls = (u.tell update state readings).session.calls ∧
        t.session.pollResults = (u.tell update state readings).session.pollResults ∧
        t.firstFound = (u.tell update state readings).firstFound := by
  obtain ⟨hrunning, hreads, hbefore, hafter⟩ := h
  dsimp only at hrunning hreads hbefore hafter
  have hchange {daemon : Option (Daemon ρ)}
      (hafter : (s.changeDaemon update daemon readings).session.previousState = state) :
      (state = (s.changeDaemon update daemon readings).properties.state ∨ state = .state .ready) ∧
        ∃ u : System ρ, u.running = some config ∧ u.session = s.session ∧
          u.properties = (s.changeDaemon update daemon readings).properties ∧
          s.changeDaemon update daemon readings = u.tell update state readings := by
    obtain ⟨hstate, htell⟩ := changeDaemon_inversion hrunning hafter hbefore
    rw [properties, changeDaemon_daemon]
    exact ⟨.inl hstate, { s with daemon := daemon }, hrunning, rfl, rfl, htell⟩
  cases event with
  | daemonStarts bootedChecksum installed readings' =>
      obtain rfl := Option.some_inj.1 hreads
      simp only [step] at hstep
      split at hstep
      · obtain rfl := Option.some_inj.1 hstep
        obtain ⟨hstate, u, hu, hsession, hproperties, htell⟩ := hchange hafter
        exact ⟨(changeDaemon_running s _).trans hrunning, hstate, u, hu, by rw [hsession],
          by rw [hsession], by rw [hsession], hproperties, by rw [htell], by rw [htell],
          by rw [htell]⟩
      · cases hstep
  | daemonSteps event readings' =>
      obtain rfl := Option.some_inj.1 hreads
      simp only [step, Option.bind_eq_bind, Option.bind_eq_some_iff] at hstep
      obtain ⟨daemon, -, daemon', -, heq⟩ := hstep
      obtain rfl := Option.some_inj.1 heq
      obtain ⟨hstate, u, hu, hsession, hproperties, htell⟩ := hchange hafter
      exact ⟨(changeDaemon_running s _).trans hrunning, hstate, u, hu, by rw [hsession],
        by rw [hsession], by rw [hsession], hproperties, by rw [htell], by rw [htell],
        by rw [htell]⟩
  | daemonExits readings' =>
      obtain rfl := Option.some_inj.1 hreads
      simp only [step, Option.bind_eq_bind, Option.bind_eq_some_iff] at hstep
      obtain ⟨-, -, heq⟩ := hstep
      obtain rfl := Option.some_inj.1 heq
      obtain ⟨hstate, u, hu, hsession, hproperties, htell⟩ := hchange hafter
      -- to lose the name owner makes the run quit, and no more
      exact ⟨(changeDaemon_running s _).trans hrunning, hstate, u, hu, by rw [hsession],
        by rw [hsession], by rw [hsession], hproperties,
        congrArg (·.session.calls) htell, congrArg (·.session.pollResults) htell,
        congrArg (·.firstFound) htell⟩
  | initialPoll readings' =>
      obtain rfl := Option.some_inj.1 hreads
      obtain ⟨-, heq⟩ := Option.ite_none_right_eq_some.1 hstep
      obtain rfl := Option.some_inj.1 heq
      let u : System ρ := { s with session := { s.session with initialPoll := false } }
      have hu : u.running = some config := hrunning
      obtain rfl : Session.initialState s.properties = state :=
        (previousState_tell hu).symm.trans hafter
      have hproperties : (u.tell update (Session.initialState s.properties) readings').properties =
          s.properties := by
        rw [properties, tell_daemon]
        rfl
      refine ⟨(tell_running_eq u).trans hu, ?_, u, hu, rfl, rfl, rfl, hproperties.symm, rfl, rfl,
        rfl⟩
      rw [hproperties]
      unfold Session.initialState
      split
      · exact .inr rfl
      · exact .inl rfl
  | runStarts => cases hreads
  | runEnds => cases hreads

/-- A run advances where the file has the time at which the update was first seen. -/
theorem Consistent.advances {event : SystemEvent ρ} (ht : t.Consistent update)
    (hkept : t.Kept update) (hstep : s.step update event = some t) :
    Advances ⟨s, event, t⟩ where
  polls config readings hlast htells hpolled := by
    obtain ⟨-, -, u, hu, hcalls, hpolled', hprevious, -, hcalls', -⟩ := htells.inversion hstep
    obtain ⟨call, hcall, heq⟩ := Session.calls_ready config readings u.properties hlast
      (hprevious ▸ htells.before) (hpolled'.trans hpolled)
    rw [tell_running hu] at hcalls'
    exact ⟨call, hcall, hcalls'.trans (heq.trans (congrArg _ hcalls))⟩
  fetches config readings hlast htells := by
    obtain ⟨-, -, u, hu, hcalls, -, hprevious, -, hcalls', -⟩ := htells.inversion hstep
    obtain ⟨call, hcall, heq⟩ := Session.calls_updateAvailable config readings u.properties hlast
      (hprevious ▸ htells.before)
    rw [tell_running hu] at hcalls'
    exact ⟨call, hcall, hcalls'.trans (heq.trans (congrArg _ hcalls))⟩
  applies config readings hlast htells := by
    obtain ⟨hrunning, hstate, u, hu, hcalls, -, hprevious, hproperties, hcalls', hresults,
      hfirst⟩ := htells.inversion hstep
    have hoffers : u.properties.Offers update := by
      rw [hproperties]
      exact offers_of_properties ht.daemon (.inr (hstate.resolve_right (by rintro ⟨⟩)).symm)
    have hsees : u.Sees update (.state .updateReady) :=
      ⟨hprevious ▸ htells.before, hoffers, .inr (.inr rfl)⟩
    rw [tell_running hu] at hcalls' hresults hfirst
    rw [if_pos hsees] at hfirst
    refine ⟨_, hfirst, fun hnow => hcalls'.trans ?_⟩
    rw [← hcalls]
    refine Session.calls_updateReady config readings u.properties hlast hsees.1
      fun results hresults' => ?_
    -- the results of the run are those of the file
    have hrecord := (ht.run (Option.isSome_of_eq_some hrunning)).recorded results
      (hresults.trans hresults')
    obtain rfl := Option.some_inj.1 (hrecord.symm.trans (hkept _ hfirst))
    rw [UInt64.le_iff_toNat_le, Session.toNat_nextUpdate]
    exact hnow

end System

/-- **The delay is counted from the first sighting.** Where polls find one update only, and the file
with the poll results can be read and written, it keeps the time at which a run first saw the update
exactly if the daemon offers it whenever a run sees a poll come to an end after that. A run that
applies updates automatically then applies it once its delay has passed since that time. -/
theorem kept_iff_remembered {update : Update} {history : History (System ρ) (SystemEvent ρ)}
    {s : System ρ} (hrun : Run (System.Initial update) (System.step update) history s)
    (hfinds : System.FindsOneUpdate update history) (hfile : System.FileWorks history) :
    ((∀ τ ∈ history, τ.after.Kept update) ↔ ∀ τ ∈ history, System.Remembered update τ) ∧
      ((∀ τ ∈ history, System.Remembered update τ) → ∀ τ ∈ history, System.Advances τ) := by
  have hstep (τ) (hτ : τ ∈ history) : τ.before.step update τ.event = some τ.after ∧
      τ.after.Consistent update ∧
      (τ.before.Kept update → (τ.after.Kept update ↔ System.Remembered update τ)) := by
    obtain ⟨past, hpast, hbefore, hstep⟩ := hrun.of_mem hτ
    have hconsistent := System.consistent_of_run hbefore (fun τ' hτ' => hfinds τ' (hpast hτ'))
      fun τ' hτ' => hfile τ' (hpast hτ')
    exact ⟨hstep, hconsistent.step hstep (hfinds τ hτ) (hfile τ hτ)⟩
  have hiff : (∀ τ ∈ history, τ.after.Kept update) ↔
      ∀ τ ∈ history, System.Remembered update τ :=
    hrun.forall_after_iff (fun _ => System.Initial.kept) fun τ hτ => (hstep τ hτ).2.2
  refine ⟨hiff, fun hremembered τ hτ => ?_⟩
  exact (hstep τ hτ).2.1.advances (hiff.2 hremembered τ hτ) (hstep τ hτ).1

/-! ### A poll that fails after a restart -/

section Decidable

variable {update : Update}

/-- What was found is compared with the update. -/
instance (info : EosUpdateInfo ρ) : Decidable (Finds update info) :=
  inferInstanceAs (Decidable (_ ∧ _))

/-- A history is searched for other updates. -/
instance (history : History (System ρ) (SystemEvent ρ)) :
    Decidable (System.FindsOneUpdate update history) :=
  inferInstanceAs (Decidable (∀ τ ∈ history, ∀ info ∈ System.foundIn τ, Finds update info))

/-- A history is searched for failures of the file. -/
instance (history : History (System ρ) (SystemEvent ρ)) : Decidable (System.FileWorks history) :=
  inferInstanceAs (Decidable (∀ τ ∈ history, ∀ readings ∈ τ.event.readings,
    readings.canRead = true ∧ readings.canWrite = true))

/-- The end of a poll is read off the states and the run. -/
instance (τ : Transition (System ρ) (SystemEvent ρ)) : Decidable (System.SeesPollEnd τ) :=
  inferInstanceAs (Decidable (_ ∧ _ ∧ _))

/-- Both sides of the condition are read off the step. -/
instance (τ : Transition (System ρ) (SystemEvent ρ)) : Decidable (System.Remembered update τ) :=
  inferInstanceAs (Decidable (_ → _ → _))

end Decidable

/-- An update. -/
def nextOs : Update := ⟨"eos:os", "c1", by decide⟩

/-- What a poll finds of it. The user sees it. -/
def nextOsInfo : EosUpdateInfo Unit where
  checksum := "c1"
  commit := ⟨"", ""⟩
  newRefspec := "eos:os"
  oldRefspec := "eos:os"
  version := none
  urls := none
  offlineResultsOnly := false
  isUserVisible := true
  releaseNotesUri := none
  results := some [()]

/-- A machine that is off, and has never seen an update. -/
def offMachine : System Unit := ⟨none, none, { resultsFile := none }, none⟩

/-- The clock, with a file that can be read and written. -/
def readingsAt (time : Int64) : Readings := ⟨time, time, true, true⟩

/-- The machine is booted, and a run of the automatic updater polls. -/
def bootAndPoll (time : Int64) (result : Except GError (Option (EosUpdateInfo Unit))) :
    List (SystemEvent Unit) :=
  [.daemonStarts (.ok "c0") true (readingsAt time), .runStarts dailyConfig,
    .initialPoll (readingsAt time), .daemonSteps (.call .poll) (readingsAt time),
    .daemonSteps (.finished 0 (.metadata result ⟨.ok (), .ok []⟩)) (readingsAt time)]

/-- The run has quit, and the machine is shut down. -/
def shutDown (time : Int64) : List (SystemEvent Unit) :=
  [.runEnds, .daemonExits (readingsAt time)]

/-- The update is fetched. -/
def fetchUpdate (time : Int64) : List (SystemEvent Unit) :=
  [.daemonSteps (.call (.fetchFull [])) (readingsAt time),
    .daemonSteps (.finished 0 (.boolean (.ok ()))) (readingsAt time)]

/-- An update is found; after a restart, a poll fails; and after another one it is found again and
fetched, more than a day after it was first seen. -/
def forgottenUpdate : List (SystemEvent Unit) :=
  bootAndPoll 1500000000000000 (.ok (some nextOsInfo)) ++ shutDown 1500000001000000 ++
    bootAndPoll 1500080000000000 (.error ⟨.ioFailed, "Could not connect"⟩) ++
    shutDown 1500080001000000 ++ bootAndPoll 1500090000000000 (.ok (some nextOsInfo)) ++
    fetchUpdate 1500090001000000

/-- The failed poll makes the run forget when the update was seen. It is then recorded with a later
time, and not applied although its delay of a day has passed. -/
theorem forgottenUpdate_delayed :
    ∃ history, ∃ s : System Unit, Run (System.Initial nextOs) (System.step nextOs) history s ∧
      System.FindsOneUpdate nextOs history ∧ System.FileWorks history ∧
      s.firstFound = some 1500000000000000 ∧
      s.session.resultsFile = some ⟨1500090000000000, "eos:os", "c1"⟩ ∧
      s.properties.state = .state .updateReady ∧
      s.session.calls = [.fetchFull false, .poll] := by
  have hexec : (exec (System.step nextOs) [] offMachine forgottenUpdate).any (fun r =>
      decide (System.FindsOneUpdate nextOs r.1 ∧ System.FileWorks r.1 ∧
        r.2.firstFound = some 1500000000000000 ∧
        r.2.session.resultsFile = some ⟨1500090000000000, "eos:os", "c1"⟩ ∧
        r.2.properties.state = .state .updateReady ∧
        r.2.session.calls = [.fetchFull false, .poll])) = true := by
    decide +kernel
  obtain ⟨⟨history, s⟩, heq, hall⟩ := (Option.any_eq_true _ _).1 hexec
  exact ⟨history, s, .of_exec (.start ⟨rfl, rfl, rfl⟩) heq, of_decide_eq_true hall⟩

/-- An update is found; after a restart it is found again and fetched. -/
def rememberedUpdate : List (SystemEvent Unit) :=
  bootAndPoll 1500000000000000 (.ok (some nextOsInfo)) ++ shutDown 1500000001000000 ++
    bootAndPoll 1500090000000000 (.ok (some nextOsInfo)) ++ fetchUpdate 1500090001000000

/-- The second run keeps the time, and applies the update. -/
theorem rememberedUpdate_kept :
    ∃ history, ∃ s : System Unit,
      exec (System.step nextOs) [] offMachine rememberedUpdate = some (history, s) ∧
      (∀ τ ∈ history, τ.after.Kept nextOs) ∧ (∀ τ ∈ history, System.Advances τ) ∧
      s.session.calls = [.apply, .fetchFull false, .poll] := by
  have hexec : (exec (System.step nextOs) [] offMachine rememberedUpdate).any (fun r =>
      decide (System.FindsOneUpdate nextOs r.1 ∧ System.FileWorks r.1 ∧
        (∀ τ ∈ r.1, System.Remembered nextOs τ) ∧
        r.2.session.calls = [.apply, .fetchFull false, .poll])) = true := by
    decide +kernel
  obtain ⟨⟨history, s⟩, heq, hall⟩ := (Option.any_eq_true _ _).1 hexec
  obtain ⟨hfinds, hfile, hremembered, hcalls⟩ := of_decide_eq_true hall
  obtain ⟨hiff, hadvances⟩ :=
    kept_iff_remembered (.of_exec (.start ⟨rfl, rfl, rfl⟩) heq) hfinds hfile
  exact ⟨history, s, heq, hiff.2 hremembered, hadvances hremembered, hcalls⟩

end Autoupdater
