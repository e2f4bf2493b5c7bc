import EosUpdater.Autoupdater.Schedule

/-!
# The automatic updater over time

`main` of `eos-autoupdater`, from its command line to its exit status, and the runs of it that are
started one after the other, on a timer or by hand. The stamp file is all that the schedule keeps
from one of them to the next.

A run that has been started on schedule goes on exactly when the interval has passed since what the
last successful run has recorded, a random delay included; runs that fail, or that are started too
early or offline, change nothing about that (`goes_on_iff`). So however often it is started, over
any time the runs on schedule that succeed make no more polls than intervals have begun
(`polls_bounded`).

The messages of the program are left out, and so is the time limit of its calls.
-/

namespace Autoupdater

open Euu GLib Machine

/-! ### The program -/

/-- `NMState`. -/
inductive NMState
  | unknown
  | asleep
  | disconnected
  | disconnecting
  | connecting
  | connectedLocal
  | connectedSite
  | connectedGlobal
deriving DecidableEq, Repr

/-- `is_online`, with the state that a new client has, if there is one. -/
def isOnline (shouldListenOnSessionBus : Bool) (client : Option NMState) : Bool :=
  if shouldListenOnSessionBus then true
  else
    match client with
    | some .connectedLocal | some .connectedSite | some .connectedGlobal => true
    | some .unknown | some .asleep | some .disconnected | some .disconnecting
    | some .connecting | none => false

/-- The exit codes of `main`; `aborted` is an assertion that fails. -/
inductive ExitStatus
  | ok
  | failed
  | invalidArguments
  | badConfiguration
  | aborted
deriving DecidableEq, Repr

/-- The command line options. -/
structure Options where
  forceUpdate : Bool
  forceFetch : Bool
  volumePath : Option String
deriving DecidableEq, Repr

/-- A run of the main loop, until it is told to quit. -/
structure MainLoop (config : Config) where
  history : History RunState Event
  final : RunState
  run : Run RunState.Initial (RunState.step config) history final
  quit : final.session.quit = true

/-- One start of the program: what it is given, what its clock says, and what happens to it. -/
structure Start where
  options : Except GError Options
  disk : String → ConfigContents
  configFile : ConfigFile
  shouldListenOnSessionBus : Bool
  client : Option NMState
  startTime : Int64
  startFiles : StampFiles
  random : RandomSource
  /-- What `eos_updater_proxy_new_for_bus_sync` fails with. -/
  proxyError : Option GError
  mainLoop : (config : Config) → MainLoop config
  endTime : Int64
  endFiles : StampFiles

/-- What the program leaves behind: its exit status, whether it was time to update, the calls it has
made, and the stamp file. -/
structure Finished where
  status : ExitStatus
  isTime : Bool
  calls : List Call
  stamp : Option UInt64
deriving DecidableEq, Repr

namespace Start

variable (start : Start)

/-- `main`, from where it is time to update. -/
def update (values : ConfigFileValues) (config : Config) (stamp : Option UInt64) : Finished :=
  match start.proxyError with
  | some _ => ⟨.failed, true, [], stamp⟩
  | none =>
      let session := (start.mainLoop config).final.session
      if session.shouldExitFailure then ⟨.failed, true, session.calls, stamp⟩
      else
        ⟨.ok, true, session.calls, stampAfterRun start.endFiles start.random
          values.updateIntervalDays values.randomizedDelayDays start.endTime stamp⟩

/-- `main`, from where the configuration has been read and there is a source for updates. -/
def updateIfTime (values : ConfigFileValues) (config : Config) (stamp : Option UInt64) :
    Finished :=
  if config.forceUpdate then start.update values config stamp
  else
    let (isTime, stamp) := isTimeToUpdate start.startFiles start.random values.updateIntervalDays
      values.randomizedDelayDays start.startTime stamp
    if isTime then start.update values config stamp else ⟨.ok, false, [], stamp⟩

/-- `main`. -/
def main (stamp : Option UInt64) : Finished :=
  match start.options with
  | .error _ => ⟨.invalidArguments, false, [], stamp⟩
  | .ok options =>
      match readConfigFile start.disk start.configFile with
      | .error .aborted => ⟨.aborted, false, [], stamp⟩
      | .error (.error _) => ⟨.badConfiguration, false, [], stamp⟩
      | .ok values =>
          if options.volumePath = none ∧ !isOnline start.shouldListenOnSessionBus start.client then
            ⟨.ok, false, [], stamp⟩
          else
            start.updateIfTime values
              (values.config options.forceUpdate options.forceFetch options.volumePath) stamp

/-- The run has valid arguments and files, and a source for updates. -/
def Configured (values : ConfigFileValues) (config : Config) : Prop :=
  ∃ options, start.options = .ok options ∧
    readConfigFile start.disk start.configFile = .ok values ∧
    ¬ (options.volumePath = none ∧ !isOnline start.shouldListenOnSessionBus start.client) ∧
    config = values.config options.forceUpdate options.forceFetch options.volumePath

/-- The operations on the stamp file succeed. -/
structure Works : Prop where
  atStart : start.startFiles.Writable
  atEnd : start.endFiles.Writable

variable {start} {values : ConfigFileValues} {config : Config} {stamp : Option UInt64}

/-- A computer with options and a configuration that are valid gets to the interval. -/
theorem main_of_configured (h : start.Configured values config) (stamp : Option UInt64) :
    start.main stamp = start.updateIfTime values config stamp := by
  obtain ⟨options, hoptions, hvalues, hsource, rfl⟩ := h
  rw [main, hoptions]
  simp only [hvalues]
  rw [if_neg hsource]

/-- A run that is not configured ends without having done anything. -/
theorem main_cases (start : Start) (stamp : Option UInt64) :
    (∃ values config, start.Configured values config) ∨
      ∃ status, start.main stamp = ⟨status, false, [], stamp⟩ := by
  rw [main]
  cases hoptions : start.options with
  | error e => exact .inr ⟨_, rfl⟩
  | ok options =>
      cases hvalues : readConfigFile start.disk start.configFile with
      | error failure =>
          cases failure with
          | error e => exact .inr ⟨_, rfl⟩
          | aborted => exact .inr ⟨_, rfl⟩
      | ok values =>
          by_cases hsource : options.volumePath = none ∧
              !isOnline start.shouldListenOnSessionBus start.client
          · exact .inr ⟨.ok, by simp only [if_pos hsource]⟩
          · exact .inl ⟨values, _, options, hoptions, hvalues, hsource, rfl⟩

/-- The configuration is the one that is read. -/
theorem Configured.values_eq (h : start.Configured values config) :
    readConfigFile start.disk start.configFile = .ok values := by
  obtain ⟨-, -, hvalues, -⟩ := h
  exact hvalues

/-- What a run does for which it is time: it fails, or it writes the stamp. -/
theorem update_cases (start : Start) (values : ConfigFileValues) (config : Config)
    (stamp : Option UInt64) :
    (start.update values config stamp).isTime = true ∧
      ((start.update values config stamp).calls = [] ∨
        (start.update values config stamp).calls = (start.mainLoop config).final.session.calls) ∧
      ((start.update values config stamp).status = .failed ∧
          (start.update values config stamp).stamp = stamp ∨
        (start.update values config stamp).status = .ok ∧
          (start.update values config stamp).stamp = stampAfterRun start.endFiles start.random
            values.updateIntervalDays values.randomizedDelayDays start.endTime stamp) := by
  rw [update]
  cases start.proxyError with
  | some e => exact ⟨rfl, .inl rfl, .inl ⟨rfl, rfl⟩⟩
  | none =>
      by_cases hfailure : (start.mainLoop config).final.session.shouldExitFailure = true
      · simp [hfailure]
      · simp [hfailure]

/-- What a run does with a stamp file that works: it goes on, or it is too early, for which a first
run writes a stamp. -/
theorem updateIfTime_cases (hworks : start.Works) (values : ConfigFileValues) (config : Config)
    (stamp : Option UInt64) :
    ((config.forceUpdate = true ∨ (stamp = none ∧ values.randomizedDelayDays = 0) ∨
          ∃ last, stamp = some last ∧
            IsDue start.startFiles start.random values start.startTime last) ∧
        start.updateIfTime values config stamp = start.update values config stamp) ∨
      config.forceUpdate = false ∧
        ((stamp = none ∧ values.randomizedDelayDays ≠ 0 ∧
            start.updateIfTime values config stamp = ⟨.ok, false, [], some (stampMtime start.random
              (pretendedUpdateSecs values.updateIntervalDays start.startTime)
              values.randomizedDelayDays)⟩) ∨
          ∃ last, stamp = some last ∧
            ¬ IsDue start.startFiles start.random values start.startTime last ∧
            start.updateIfTime values config stamp = ⟨.ok, false, [], stamp⟩) := by
  -- the modification time can be read, so there is a stamp or there is none
  have hquery := hworks.atStart.queryError
  rw [updateIfTime]
  by_cases hforce : config.forceUpdate = true
  · exact .inl ⟨.inl hforce, if_pos hforce⟩
  rw [if_neg hforce]
  rw [Bool.not_eq_true] at hforce
  cases stamp with
  | some last =>
      by_cases hdue : IsDue start.startFiles start.random values start.startTime last
      · refine .inl ⟨.inr (.inr ⟨last, rfl, hdue⟩), ?_⟩
        simp only [IsDue, isTimeToUpdate, hquery] at hdue ⊢
        rw [if_pos hdue]
      · refine .inr ⟨hforce, .inr ⟨last, rfl, hdue, ?_⟩⟩
        simp only [IsDue, isTimeToUpdate, hquery] at hdue ⊢
        rw [if_neg hdue]
  | none =>
      by_cases hdelay : values.randomizedDelayDays > 0
      · refine .inr ⟨hforce, .inl ⟨rfl, fun hzero => ?_, ?_⟩⟩
        · rw [hzero] at hdelay
          exact absurd hdelay (by decide)
        · simp only [isTimeToUpdate, hquery]
          rw [if_pos hdelay, updateStampFile_of_writable hworks.atStart]
          rfl
      · have hzero : values.randomizedDelayDays = 0 :=
          UInt32.le_antisymm (UInt32.not_lt.1 hdelay) UInt32.zero_le
        refine .inl ⟨.inr (.inl ⟨rfl, hzero⟩), ?_⟩
        simp only [isTimeToUpdate, hquery]
        rw [if_neg hdelay]
        rfl

/-- A run for which it is not time makes no calls. -/
theorem calls_of_not_isTime (h : (start.main stamp).isTime = false) :
    (start.main stamp).calls = [] := by
  rcases main_cases start stamp with ⟨values, config, hconfigured⟩ | ⟨status, hmain⟩
  · rw [main_of_configured hconfigured, updateIfTime] at h ⊢
    have hupdate : ∀ stamp, (start.update values config stamp).isTime ≠ false := fun stamp => by
      rw [(update_cases start values config stamp).1]
      decide
    split at h
    · exact absurd h (hupdate stamp)
    dsimp only at h ⊢
    split at h
    · exact absurd h (hupdate _)
    next hforce htime =>
    rw [if_neg hforce, if_neg htime]
  · rw [hmain]

/-- A run polls at most once. -/
theorem polls_le (start : Start) (stamp : Option UInt64) :
    ((start.main stamp).calls.filter (·.step = .poll)).length ≤ 1 := by
  rcases main_cases start stamp with ⟨values, config, hconfigured⟩ | ⟨status, hmain⟩
  · have hupdate : ∀ stamp,
        ((start.update values config stamp).calls.filter (·.step = .poll)).length ≤ 1 := by
      intro stamp
      rcases (update_cases start values config stamp).2.1 with hcalls | hcalls
      · rw [hcalls]
        exact Nat.zero_le 1
      · rw [hcalls]
        exact RunState.polls_le (start.mainLoop config).run
    rw [main_of_configured hconfigured, updateIfTime]
    split
    · exact hupdate stamp
    · dsimp only
      split
      · exact hupdate _
      · exact Nat.zero_le 1
  · rw [hmain]
    exact Nat.zero_le 1

end Start

/-! ### One run after the other -/

/-- The stamp file of a computer, and the last reading of its clock. -/
structure Computer where
  stamp : Option UInt64
  clock : Int64
deriving DecidableEq, Repr

namespace Computer

/-- The program is started and runs to its end, on a clock that does not go back. -/
def step (s : Computer) (start : Start) : Option Computer :=
  if s.clock ≤ start.startTime ∧ start.startTime ≤ start.endTime then
    some ⟨(start.main s.stamp).stamp, start.endTime⟩
  else none

/-- A computer on which the program has not been started. -/
def Initial (s : Computer) : Prop := 0 ≤ s.clock ∧ s.stamp = none

/-- The time in the stamp, in seconds. -/
def mtime (s : Computer) : Option ℤ := s.stamp.map fun mtime => mtime.toNat

/-- How a run has ended. -/
def finished (τ : Transition Computer Start) : Finished := τ.event.main τ.before.stamp

/-- The time of the last update that a first run pretends. -/
def pretendedTime (values : ConfigFileValues) (realTime : Int64) : ℤ :=
  if daysToSecs values.updateIntervalDays.toNat ≤ seconds realTime then
    seconds realTime - daysToSecs values.updateIntervalDays.toNat
  else seconds realTime

/-- The delay that a run has drawn, in seconds. -/
def delaySecs (start : Start) (values : ConfigFileValues) : ℤ :=
  (actualDelayDays start.random values.randomizedDelayDays).toInt * 86400

/-- The time that a run records: the one of its end if it has succeeded, and the pretended one if it
was too early without a stamp; with a random delay. -/
def recorded (τ : Transition Computer Start) : Option ℤ :=
  match readConfigFile τ.event.disk τ.event.configFile with
  | .error _ => none
  | .ok values =>
      if (finished τ).isTime then
        if (finished τ).status = .ok then
          some (seconds τ.event.endTime + delaySecs τ.event values)
        else none
      else if τ.before.stamp = none ∧ (finished τ).stamp ≠ none then
        some (pretendedTime values τ.event.startTime + delaySecs τ.event values)
      else none

variable {τ : Transition Computer Start} {history past : History Computer Start} {s t : Computer}
variable {start : Start} {values : ConfigFileValues} {config : Config}

/-- Whole seconds do not go back where the time does not. -/
theorem seconds_le {realTime later : Int64} (h : realTime ≤ later) :
    seconds realTime ≤ seconds later :=
  Int.ediv_le_ediv (by decide) (Int64.le_iff_toInt_le.1 h)

/-- The time that is written into a stamp. -/
theorem mtime_of_stampMtime {realTime : Int64} {last : UInt64} (start : Start)
    (values : ConfigFileValues) (hlast : last.toNat ≤ (realTimeSecs realTime).toNat) :
    ((stampMtime start.random last values.randomizedDelayDays).toNat : ℤ) =
      last.toNat + delaySecs start values := by
  obtain ⟨days, hdays⟩ := exists_isDelay start.random values
  rw [toNat_stampMtime hlast hdays, delaySecs, hdays.2]
  push_cast
  rfl

/-- A delay is not negative, and at most the configured one. -/
theorem delaySecs_mem (start : Start) (values : ConfigFileValues) :
    0 ≤ delaySecs start values ∧
      delaySecs start values ≤ daysToSecs values.randomizedDelayDays.toNat := by
  obtain ⟨days, hle, hdays⟩ := exists_isDelay start.random values
  rw [delaySecs, hdays, daysToSecs]
  omega

/-- The time of the stamp that is written, in seconds. -/
theorem toNat_pretended (values : ConfigFileValues) {realTime : Int64} (hclock : 0 ≤ realTime) :
    ((pretendedUpdateSecs values.updateIntervalDays realTime).toNat : ℤ) =
      pretendedTime values realTime := by
  have hsecs : ((realTimeSecs realTime).toNat : ℤ) = seconds realTime :=
    realTimeSecs_of_nonneg hclock
  rw [toNat_pretendedUpdateSecs, pretendedTime, daysToSecs]
  split <;> split <;> omega

/-- **One run.** With a stamp file that works, what it records is the time in the stamp
afterwards. -/
theorem mtime_step (hclock : 0 ≤ s.clock) (hworks : start.Works) (h : s.step start = some t) :
    t.mtime = (recorded ⟨s, start, t⟩).or s.mtime := by
  rw [step] at h
  split at h
  case isFalse => cases h
  next hstart =>
  obtain rfl := Option.some.inj h
  have hstartClock : 0 ≤ start.startTime := Int64.le_trans hclock hstart.1
  have hendClock : 0 ≤ start.endTime := Int64.le_trans hstartClock hstart.2
  rcases Start.main_cases start s.stamp with ⟨values, config, hconfigured⟩ | ⟨status, hmain⟩
  · have hread := hconfigured.values_eq
    have hmain := Start.main_of_configured hconfigured s.stamp
    rcases Start.updateIfTime_cases hworks values config s.stamp with
      ⟨-, hupdate⟩ | ⟨-, ⟨hnone, -, hfirst⟩ | ⟨last, hsome, -, hearly⟩⟩
    · rw [hupdate] at hmain
      -- the run goes on, and writes the stamp at its end if it succeeds
      obtain ⟨htime, -, ⟨hstatus, hstamp⟩ | ⟨hstatus, hstamp⟩⟩ :=
        Start.update_cases start values config s.stamp
      · simp [mtime, recorded, finished, hread, hmain, htime, hstatus, hstamp]
      · rw [stampAfterRun, updateStampFile_of_writable hworks.atEnd] at hstamp
        have hwritten :=
          mtime_of_stampMtime start values (le_refl (realTimeSecs start.endTime).toNat)
        simp [mtime, recorded, finished, hread, hmain, htime, hstatus, hstamp, hwritten,
          realTimeSecs_of_nonneg hendClock, seconds]
    · rw [hfirst, hnone] at hmain
      have hwritten := mtime_of_stampMtime start values
        (pretendedUpdateSecs_le values.updateIntervalDays start.startTime)
      simp [mtime, recorded, finished, hread, hmain, hnone, hwritten,
        toNat_pretended values hstartClock]
    · rw [hearly, hsome] at hmain
      simp [mtime, recorded, finished, hread, hmain, hsome]
  · -- a run that fails before it looks at the stamp records nothing
    have hrecorded : recorded ⟨s, start, ⟨(start.main s.stamp).stamp, start.endTime⟩⟩ = none := by
      simp only [recorded, finished, hmain]
      split <;> simp
    rw [hrecorded, hmain]
    rfl

/-- A run does not begin before the one in front of it has ended, and ends at the time of the clock
behind it. -/
theorem clock_step (h : s.step start = some t) :
    s.clock ≤ start.startTime ∧ start.startTime ≤ t.clock ∧ t.clock = start.endTime := by
  rw [step] at h
  split at h
  case isFalse => cases h
  next hclock =>
  obtain rfl := Option.some.inj h
  exact ⟨hclock.1, hclock.2, rfl⟩

/-- The operations on the stamp file succeed in every run. -/
def StampWorks (history : History Computer Start) : Prop := ∀ τ ∈ history, τ.event.Works

/-- The stamp has what has been recorded last. -/
theorem mtime_of_run (hrun : Run Initial step history s) (hworks : StampWorks history) :
    0 ≤ s.clock ∧ s.mtime = latest recorded history := by
  induction hrun with
  | start h => exact ⟨h.1, congrArg (Option.map _) h.2⟩
  | @next history s t start hrun hstep ih =>
      obtain ⟨hwork, hworks⟩ := List.forall_mem_cons.1 hworks
      obtain ⟨hclock, hmtime⟩ := ih hworks
      obtain ⟨hstart, hend, -⟩ := clock_step hstep
      refine ⟨Int64.le_trans hclock (Int64.le_trans hstart hend), ?_⟩
      rw [mtime_step hclock hwork hstep, hmtime]
      cases hrecorded : recorded ⟨s, start, t⟩ with
      | none => rw [latest_cons_of_none hrecorded, Option.none_or]
      | some time => rw [latest_cons_of_some hrecorded, Option.some_or]

/-- A run on schedule is due, after what has been recorded last. -/
def DueAfter (values : ConfigFileValues) (realTime : Int64) : Option ℤ → Prop
  | none => values.randomizedDelayDays = 0
  | some time => time + daysToSecs values.updateIntervalDays.toNat ≤ seconds realTime

/-- A run on schedule finds that it is time exactly if it is due after the last stamp. -/
theorem isTime_iff (hclock : 0 ≤ start.startTime) (hworks : start.Works)
    (hconfigured : start.Configured values config) (hscheduled : config.forceUpdate = false)
    (s : Computer) :
    (start.main s.stamp).isTime = true ↔ DueAfter values start.startTime s.mtime := by
  rw [Start.main_of_configured hconfigured]
  have hquery := hworks.atStart.queryError
  have htime := (Start.update_cases start values config s.stamp).1
  rcases Start.updateIfTime_cases hworks values config s.stamp with
    ⟨hforce | ⟨hnone, hdelay⟩ | ⟨last, hsome, hdue⟩, hupdate⟩ |
      ⟨-, ⟨hnone, hdelay, hfirst⟩ | ⟨last, hsome, hdue, hearly⟩⟩
  · rw [hscheduled] at hforce
    cases hforce
  · rw [hupdate, htime]
    simp [mtime, hnone, DueAfter, hdelay]
  · rw [isDue_iff hquery hclock] at hdue
    rw [hupdate, htime]
    simp [mtime, hsome, DueAfter, hdue]
  · rw [hfirst]
    simp [mtime, hnone, DueAfter, hdelay]
  · rw [isDue_iff hquery hclock] at hdue
    rw [hearly]
    simp [mtime, hsome, DueAfter, hdue]

/-- **The schedule over time.** A run that is started on schedule goes on exactly when the interval
has passed since the time that was recorded last: the end of the last successful run, or what a
first run has pretended, with a random delay. Before anything is recorded, it goes on if no delay is
configured. -/
theorem goes_on_iff (recent : History Computer Start)
    (hrun : Run Initial step (recent ++ τ :: past) s) (hworks : StampWorks (recent ++ τ :: past))
    (hconfigured : τ.event.Configured values config) (hscheduled : config.forceUpdate = false) :
    (finished τ).isTime = true ↔
      DueAfter values τ.event.startTime (latest recorded past) := by
  obtain ⟨hpast, hstep⟩ := hrun.transition
  have hmem : ∀ τ' ∈ τ :: past, τ'.event.Works := fun τ' h =>
    hworks τ' (List.mem_append_right _ h)
  obtain ⟨hwork, hworksPast⟩ := List.forall_mem_cons.1 hmem
  obtain ⟨hclock, hmtime⟩ := mtime_of_run hpast hworksPast
  have hstart := Int64.le_trans hclock (clock_step hstep).1
  rw [finished, isTime_iff hstart hwork hconfigured hscheduled, hmtime]

/-! ### How often it polls -/

/-- The polls of a run on schedule that succeeds. -/
def scheduledPolls (τ : Transition Computer Start) : ℕ :=
  match τ.event.options with
  | .error _ => 0
  | .ok options =>
      if options.forceUpdate = false ∧ options.volumePath = none ∧ (finished τ).status = .ok then
        ((finished τ).calls.filter (·.step = .poll)).length
      else 0

/-- The interval that a run has read is at least this long. -/
def IntervalAtLeast (days : ℕ) (start : Start) : Prop :=
  ∀ values, readConfigFile start.disk start.configFile = .ok values →
    days ≤ values.updateIntervalDays.toNat

/-- A run that counts was due, and has recorded its end. -/
theorem of_scheduledPolls (hclock : 0 ≤ s.clock) (hwork : start.Works)
    (hstep : s.step start = some t) (hpolls : scheduledPolls ⟨s, start, t⟩ ≠ 0) :
    scheduledPolls ⟨s, start, t⟩ = 1 ∧
      ∃ values, readConfigFile start.disk start.configFile = .ok values ∧
        DueAfter values start.startTime s.mtime ∧
        t.mtime = some (seconds start.endTime + delaySecs start values) := by
  rw [scheduledPolls] at hpolls ⊢
  cases hoptions : start.options with
  | error e =>
      rw [hoptions] at hpolls
      exact absurd rfl hpolls
  | ok options =>
      rw [hoptions] at hpolls
      dsimp only at hpolls ⊢
      split at hpolls
      case isFalse => exact absurd rfl hpolls
      next hcounts =>
      rw [if_pos hcounts]
      refine ⟨Nat.le_antisymm (Start.polls_le start s.stamp) (Nat.one_le_iff_ne_zero.2 hpolls), ?_⟩
      rw [finished] at hpolls hcounts
      dsimp only at hpolls hcounts
      rcases Start.main_cases start s.stamp with ⟨values, config, hconfigured⟩ | ⟨status, hmain⟩
      · have hvalues := hconfigured.values_eq
        -- neither option that forces the update was given
        have hscheduled : config.forceUpdate = false := by
          obtain ⟨options', hoptions', -, -, rfl⟩ := hconfigured
          obtain rfl := Except.ok.inj (hoptions.symm.trans hoptions')
          simp [Config.forceUpdate, ConfigFileValues.config, hcounts.1, hcounts.2.1]
        have hstart : 0 ≤ start.startTime := Int64.le_trans hclock (clock_step hstep).1
        -- it has made a call, so it was time
        have htime : (start.main s.stamp).isTime = true := by
          by_contra hnot
          rw [Start.calls_of_not_isTime (Bool.eq_false_of_not_eq_true hnot)] at hpolls
          exact hpolls rfl
        refine ⟨values, hvalues, (isTime_iff hstart hwork hconfigured hscheduled s).1 htime, ?_⟩
        rw [mtime_step hclock hwork hstep]
        simp [recorded, finished, hvalues, htime, hcounts.2.2]
      · rw [hmain] at hpolls
        exact absurd rfl hpolls

/-- What is recorded where there is a stamp is not before the end of the run. -/
theorem le_of_recorded {time last : ℤ} (h : recorded ⟨s, start, t⟩ = some time)
    (hsome : s.mtime = some last) : seconds start.endTime ≤ time := by
  have hstamp : s.stamp ≠ none := fun hnone => by
    rw [mtime, hnone] at hsome
    cases hsome
  rw [recorded] at h
  split at h
  · cases h
  next values hvalues =>
  have hdelay := (delaySecs_mem start values).1
  split_ifs at h with htime hstatus hfirst
  · obtain rfl := Option.some.inj h
    exact Int.le_add_of_nonneg_right hdelay
  · exact absurd hfirst.1 hstamp

/-- **It does not poll too often.** However often the program is started, with whatever other
arguments in between, from any state of the computer on: one less than the polls of the runs on
schedule that have succeeded, times the interval, is no longer than the time that has passed. -/
theorem polls_bounded {days : ℕ} (hrun : Run (· = t) step history s) (hclock : 0 ≤ t.clock)
    (hworks : StampWorks history) (hinterval : ∀ τ ∈ history, IntervalAtLeast days τ.event) :
    ((history.map scheduledPolls).sum - 1 : ℤ) * daysToSecs days ≤
      seconds s.clock - seconds t.clock := by
  -- after a poll, the stamp is not older than the intervals before it
  suffices h : 0 ≤ s.clock ∧ seconds t.clock ≤ seconds s.clock ∧
      ((history.map scheduledPolls).sum - 1 : ℤ) * daysToSecs days ≤
        seconds s.clock - seconds t.clock ∧
      ((history.map scheduledPolls).sum ≠ 0 → ∃ time, s.mtime = some time ∧
        ((history.map scheduledPolls).sum - 1 : ℤ) * daysToSecs days ≤
          time - seconds t.clock) from h.2.2.1
  have hlong : 0 ≤ daysToSecs days := by
    rw [daysToSecs]
    omega
  induction hrun with
  | start h =>
      subst h
      refine ⟨hclock, le_rfl, ?_, fun h => absurd rfl h⟩
      simp only [List.map_nil, List.sum_nil, Nat.cast_zero]
      omega
  | @next history s s' start hrun hstep ih =>
      obtain ⟨hwork, hworks⟩ := List.forall_mem_cons.1 hworks
      obtain ⟨hlongest, hinterval⟩ := List.forall_mem_cons.1 hinterval
      dsimp only at hwork hlongest
      obtain ⟨hclock', hlater, hpassed, hstamp⟩ := ih hworks hinterval
      obtain ⟨hstart, hend, hafter⟩ := clock_step hstep
      have hstartSecs := seconds_le hstart
      have hendSecs := seconds_le hend
      rw [List.map_cons, List.sum_cons]
      refine ⟨Int64.le_trans hclock' (Int64.le_trans hstart hend), by omega, ?_⟩
      generalize (history.map scheduledPolls).sum = n at *
      by_cases hpolls : scheduledPolls ⟨s, start, s'⟩ = 0
      · rw [hpolls, Nat.zero_add]
        refine ⟨by omega, fun hne => ?_⟩
        obtain ⟨time, htime, hle⟩ := hstamp hne
        rw [mtime_step hclock' hwork hstep, htime]
        cases hrecorded : recorded ⟨s, start, s'⟩ with
        | none => exact ⟨time, rfl, hle⟩
        | some time' =>
            have hle' := le_of_recorded hrecorded htime
            rw [hafter] at hendSecs
            exact ⟨time', rfl, by omega⟩
      · obtain ⟨hone, values, hvalues, hdue, hmtime⟩ :=
          of_scheduledPolls hclock' hwork hstep hpolls
        have hdelay := (delaySecs_mem start values).1
        have hdays : daysToSecs days ≤ daysToSecs values.updateIntervalDays.toNat :=
          Int.mul_le_mul_of_nonneg_right (Int.ofNat_le.2 (hlongest values hvalues)) (by decide)
        have hsum : ((1 + n : ℕ) - 1 : ℤ) * daysToSecs days =
            (n - 1 : ℤ) * daysToSecs days + daysToSecs days := by
          push_cast
          rw [add_sub_cancel_left, sub_mul, one_mul, sub_add_cancel]
        -- the run was due an interval after the stamp before it
        have hsince : ((1 + n : ℕ) - 1 : ℤ) * daysToSecs days ≤
            seconds start.startTime - seconds t.clock := by
          by_cases hn : n = 0
          · subst hn
            simp only [Nat.add_zero, Nat.cast_one, sub_self, zero_mul]
            omega
          · obtain ⟨time, htime, hle⟩ := hstamp hn
            rw [htime, DueAfter] at hdue
            omega
        rw [hone]
        rw [hafter] at hendSecs ⊢
        exact ⟨by omega, fun _ => ⟨_, hmtime, by omega⟩⟩

/-! ### A computer that is up to date -/

/-- A main loop that is told by the daemon that there is no update. -/
def upToDate (config : Config) : MainLoop config :=
  let ready : Properties := ⟨.state .ready, none, none, false⟩
  let polling : Properties := ⟨.state .polling, none, none, false⟩
  let initial : RunState := ⟨{ resultsFile := none }, ready⟩
  let events := [.initialPoll nextDay, .stateNotified polling nextDay, .stateNotified ready nextDay]
  have hsome : (exec (RunState.step config) [] initial events).isSome ∧
      ∀ history final, exec (RunState.step config) [] initial events = some (history, final) →
        final.session.quit = true := by
    obtain ⟨last, days, hdays, forceUpdate, forceFetch, volumePath⟩ := config
    cases last <;> cases volumePath <;>
      exact ⟨rfl, fun _ _ h => (Prod.mk.inj (Option.some.inj h)).2 ▸ rfl⟩
  { history := ((exec (RunState.step config) [] initial events).get hsome.1).1
    final := ((exec (RunState.step config) [] initial events).get hsome.1).2
    run := .of_exec (.start (show RunState.Initial initial from rfl)) (Option.some_get hsome.1).symm
    quit := hsome.2 _ _ (Option.some_get hsome.1).symm }

/-- The program is started by its timer, with an interval of two weeks and up to three days of
delay. -/
def startAt (time : Int64) : Start where
  options := .ok ⟨false, false, none⟩
  disk := fun _ => .missing
  configFile := shippedConfig 14 3
  shouldListenOnSessionBus := true
  client := none
  startTime := time
  startFiles := reliableFiles
  random := smallest
  proxyError := none
  mainLoop := upToDate
  endTime := time
  endFiles := reliableFiles

/-- The stamp of the sample computer can be written. -/
theorem works_startAt (time : Int64) : (startAt time).Works :=
  ⟨reliableFiles_writable, reliableFiles_writable⟩

/-- The sample computer has the interval of the default configuration. -/
theorem configured_startAt : ∃ values, values.updateIntervalDays = 14 ∧
    ∀ time, (startAt time).Configured values (values.config false false none) := by
  have hread : acceptedDays (shippedConfig 14 3) = some (14, 3) := by decide +kernel
  obtain ⟨values, hvalues, hinterval, -⟩ := exists_of_acceptedDays hread
  exact ⟨values, hinterval, fun time => ⟨⟨false, false, none⟩, rfl, hvalues,
    fun hnone => Bool.noConfusion hnone.2, rfl⟩⟩

/-- Two polls two weeks apart. -/
theorem twoPolls_bounded : ∃ history s,
    exec step [] ⟨some 1500000000, 1700000000000000⟩
        [startAt 1700000000000000, startAt 1700000001000000, startAt 1701209600000000] =
          some (history, s) ∧
      (history.map scheduledPolls).sum = 2 ∧
      ((history.map scheduledPolls).sum - 1 : ℤ) * daysToSecs 14 ≤
        seconds s.clock - seconds 1700000000000000 := by
  obtain ⟨values, hinterval, hconfigured⟩ := configured_startAt
  have hread : ∀ time, IntervalAtLeast 14 (startAt time) := fun time values' hvalues' => by
    obtain ⟨options, -, hvalues, -⟩ := hconfigured time
    obtain rfl := Except.ok.inj (hvalues.symm.trans hvalues')
    exact hinterval ▸ le_rfl
  have hpolls : (exec step [] ⟨some 1500000000, 1700000000000000⟩
      [startAt 1700000000000000, startAt 1700000001000000, startAt 1701209600000000]).map
        (fun run => (run.1.map scheduledPolls).sum) = some 2 := by
    decide +kernel
  obtain ⟨⟨history, s⟩, hexec, hsum⟩ := Option.map_eq_some_iff.1 hpolls
  have hevents : ∀ τ ∈ history, ∃ time, τ.event = startAt time := fun τ hτ => by
    rcases event_mem_of_exec hexec τ hτ with hmem | hmem
    · cases hmem
    · simp only [List.mem_cons, List.not_mem_nil, or_false] at hmem
      rcases hmem with h | h | h <;> exact ⟨_, h⟩
  have hworks : StampWorks history := fun τ hτ => by
    obtain ⟨time, hstart⟩ := hevents τ hτ
    rw [hstart]
    exact works_startAt time
  have hlong : ∀ τ ∈ history, IntervalAtLeast 14 τ.event := fun τ hτ => by
    obtain ⟨time, hstart⟩ := hevents τ hτ
    rw [hstart]
    exact hread time
  have hbound := polls_bounded (Run.of_exec (.start rfl) hexec) (by decide) hworks hlong
  exact ⟨history, s, hexec, hsum, hbound⟩

/-- The first run is too early, and one at the end of its delay goes on. -/
theorem secondRun_goes_on : ∃ values past τ s,
    exec step [] ⟨none, 0⟩ [startAt 1700000000000000, startAt 1700000001000000] =
        some (τ :: past, s) ∧
      ((finished τ).isTime = true ↔ DueAfter values τ.event.startTime (latest recorded past)) := by
  obtain ⟨values, -, hconfigured⟩ := configured_startAt
  have hexec : exec step [] ⟨none, 0⟩ [startAt 1700000000000000, startAt 1700000001000000] =
      some (_, _) := rfl
  exact ⟨values, _, _, _, hexec, goes_on_iff [] (Run.of_exec (.start ⟨by decide, rfl⟩) hexec)
    (List.forall_mem_cons.2 ⟨works_startAt _, List.forall_mem_singleton.2 (works_startAt _)⟩)
    (hconfigured _) rfl⟩

end Computer

end Autoupdater
