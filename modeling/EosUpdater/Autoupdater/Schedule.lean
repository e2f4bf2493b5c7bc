import EosUpdater.Autoupdater.Main
import EosUpdater.Util.ConfigFile

/-!
# When the automatic updater runs

`eos-autoupdater/main.c`: the configuration, and the stamp file, whose modification time says when
the last update was. A run goes on if the configured number of days have passed since then. A random
delay is added to the time in the stamp, and on the first run the interval is subtracted from it, so
that only the delay counts.

No sum or product wraps. With a stamp the comparison is exact, and on a first run the delay is,
unless the interval is longer than the clock has counted: then nothing is subtracted, and the next
update is due an interval later (`schedule_exact`).
-/

namespace Autoupdater

open Euu GLib

/-! ### The configuration -/

/-- `SEC_PER_DAY`, an `unsigned long`. -/
def secPerDay : UInt64 := 3600 * 24

/-- `UpdateStep`, converted from the value of a step. -/
def UpdateStep.ofValue (value : UInt32) : UpdateStep :=
  if value = 0 then .none else if value = 1 then .poll else if value = 2 then .fetch else .apply

/-- The greatest delay, for which `g_random_int_range` can be called. -/
def maxRandomizedDelayDays : UInt32 := 0x7fffffff / secPerDay.toUInt32 - 1

/-- The greatest delay that does not overflow in microseconds. -/
def maxUserVisibleDelayDays : UInt32 :=
  (min (0xffffffffffffffff / usecPerDay) 0xffffffff).toUInt32

/-- What `read_config_file` accepts. -/
structure ConfigFileValues where
  lastAutomaticStep : UpdateStep
  updateIntervalDays : UInt32
  randomizedDelayDays : UInt32
  delay_le : randomizedDelayDays ≤ maxRandomizedDelayDays
  userVisibleDelayDays : UInt32
  days_le : userVisibleDelayDays ≤ maxUserVisibleDelayDays

/-- The interval of `read_config_file` is small enough to be converted to seconds. -/
def assertInterval (updateIntervalDays : UInt32) : Except Failure Unit :=
  if updateIntervalDays.toUInt64 ≤ 0xffffffffffffffff / secPerDay then .ok () else .error .aborted

/-- `read_config_file`, on the paths of the configuration files. An error is logged. -/
def readConfigFile (disk : String → ConfigContents) (config : ConfigFile) :
    Except Failure ConfigFileValues :=
  let group := "Automatic Updates"
  let (lastStep, config) := config.getUint disk group "LastAutomaticStep" 0 3
  lastStep.bind fun lastStep =>
  let (interval, config) := config.getUint disk group "IntervalDays" 0 0xffffffff
  interval.bind fun interval =>
  -- the interval takes any `guint`, and an assertion follows
  (assertInterval interval).bind fun () =>
  let (randomizedDelay, config) :=
    config.getUint disk group "RandomizedDelayDays" 0 maxRandomizedDelayDays
  randomizedDelay.bind fun randomizedDelay =>
  let (userVisibleDelay, _) :=
    config.getUint disk group "UserVisibleUpdateDelayDays" 0 maxUserVisibleDelayDays
  userVisibleDelay.bind fun userVisibleDelay =>
  .ok {
    lastAutomaticStep := .ofValue lastStep
    updateIntervalDays := interval
    randomizedDelayDays := randomizedDelay
    delay_le := randomizedDelay.2.2
    userVisibleDelayDays := userVisibleDelay
    days_le := userVisibleDelay.2.2 }

/-- The configuration of a run, with the options of the command line. -/
def ConfigFileValues.config (values : ConfigFileValues) (forceUpdateOption forceFetch : Bool)
    (volumePath : Option String) : Config where
  lastAutomaticStep := values.lastAutomaticStep
  userVisibleDelayDays := values.userVisibleDelayDays
  days_le := by
    have hle := UInt32.le_iff_toNat_le.1 values.days_le
    have hmax : maxUserVisibleDelayDays.toNat =
        min ((2 ^ 64 - 1) / usecPerDay.toNat) (2 ^ 32 - 1) := by
      decide +kernel
    rwa [hmax] at hle
  forceUpdateOption := forceUpdateOption
  forceFetch := forceFetch
  volumePath := volumePath

/-! ### The stamp file -/

/-- `g_random_int_range`, which returns anything within the range. -/
structure RandomSource where
  intRange : Int32 → Int32 → Int32
  mem_range : ∀ first last, first < last → first ≤ intRange first last ∧ intRange first last < last

/-- Which operations on the stamp file fail, and the time of the file system. -/
structure StampFiles where
  /-- What `g_file_query_info` fails with, apart from there being no stamp file. -/
  queryError : Option GError
  found : ∀ e, queryError = some e → e.code ≠ .ioNotFound
  canMkdir : Bool
  canReplace : Bool
  canQuery : Bool
  canSetAttributes : Bool
  fileTime : UInt64

/-- `(guint64) g_get_real_time () / G_USEC_PER_SEC`. -/
def realTimeSecs (realTime : Int64) : UInt64 := realTime.toUInt64 / 1000000

/-- The interval in seconds. -/
def intervalSecs (updateIntervalDays : UInt32) : UInt64 := updateIntervalDays.toUInt64 * secPerDay

section Stamp

variable (files : StampFiles) (random : RandomSource)

/-- `actual_delay_days` of `update_stamp_file`. -/
def actualDelayDays (randomizedDelayDays : UInt32) : Int32 :=
  random.intRange 0 (randomizedDelayDays.toInt32 + 1)

/-- The modification time that `update_stamp_file` sets. -/
def stampMtime (lastSuccessfulUpdateSecs : UInt64) (randomizedDelayDays : UInt32) : UInt64 :=
  -- the delay is part of the modification time, and looks like a later run to `is_time_to_update`
  if randomizedDelayDays > 0 then
    lastSuccessfulUpdateSecs +
      (actualDelayDays random randomizedDelayDays).toInt64.toUInt64 * secPerDay
  else lastSuccessfulUpdateSecs

/-- `update_stamp_file`: the stamp file afterwards, if there is one, and the time of the next update
that is logged. -/
def updateStampFile (lastSuccessfulUpdateSecs : UInt64)
    (updateIntervalDays randomizedDelayDays : UInt32) (stamp : Option UInt64) :
    Option UInt64 × Option UInt64 :=
  if !files.canMkdir then (stamp, none)
  else if !files.canReplace then (stamp, none)
  else if !files.canQuery then (some files.fileTime, none)
  else
    let mtime := stampMtime random lastSuccessfulUpdateSecs randomizedDelayDays
    if !files.canSetAttributes then (some files.fileTime, none)
    else (some mtime, some (mtime + intervalSecs updateIntervalDays))

/-- `is_time_to_update`, for the update that a first run pretends to have made: it was an interval
ago, unless that would be before 1970. -/
def pretendedUpdateSecs (updateIntervalDays : UInt32) (realTime : Int64) : UInt64 :=
  if realTimeSecs realTime ≥ intervalSecs updateIntervalDays then
    realTimeSecs realTime - intervalSecs updateIntervalDays
  else realTimeSecs realTime

/-- `is_time_to_update`, for the time of the next update. -/
def nextUpdateTimeSecs (lastUpdateTimeSecs : UInt64) (updateIntervalDays : UInt32) : UInt64 :=
  Saturated.checkedAdd lastUpdateTimeSecs (intervalSecs updateIntervalDays)

/-- `is_time_to_update`, with the stamp file afterwards. -/
def isTimeToUpdate (updateIntervalDays randomizedDelayDays : UInt32) (realTime : Int64)
    (stamp : Option UInt64) : Bool × Option UInt64 :=
  match files.queryError, stamp with
  | some _, _ => (true, stamp)
  | none, none =>
      -- the first run
      if randomizedDelayDays > 0 then
        (false, (updateStampFile files random (pretendedUpdateSecs updateIntervalDays realTime)
          updateIntervalDays randomizedDelayDays none).1)
      else (true, none)
  | none, some lastUpdateTimeSecs =>
      (nextUpdateTimeSecs lastUpdateTimeSecs updateIntervalDays ≤ realTimeSecs realTime, stamp)

/-- The end of `main`, after a run without errors. -/
def stampAfterRun (updateIntervalDays randomizedDelayDays : UInt32) (realTime : Int64)
    (stamp : Option UInt64) : Option UInt64 :=
  (updateStampFile files random (realTimeSecs realTime) updateIntervalDays randomizedDelayDays
    stamp).1

end Stamp

/-! ### Nothing wraps -/

/-- A delay is a number of days within the configured bound. -/
def IsDelay (random : RandomSource) (values : ConfigFileValues) (days : ℕ) : Prop :=
  days ≤ values.randomizedDelayDays.toNat ∧
    (actualDelayDays random values.randomizedDelayDays).toInt = days

/-- What is computed in `is_time_to_update` and `update_stamp_file`, at a reading of the clock, is
what it would be on numbers; only the sum that is checked is saturated. -/
structure NoWrap (random : RandomSource) (values : ConfigFileValues) (realTime : Int64) : Prop where
  interval : (intervalSecs values.updateIntervalDays).toNat =
    values.updateIntervalDays.toNat * 86400
  bound : (values.randomizedDelayDays.toInt32 + 1).toInt = values.randomizedDelayDays.toNat + 1
  delay : ∀ days, IsDelay random values days →
    ((actualDelayDays random values.randomizedDelayDays).toInt64.toUInt64 * secPerDay).toNat =
      days * 86400
  pretended : (pretendedUpdateSecs values.updateIntervalDays realTime).toNat =
    if values.updateIntervalDays.toNat * 86400 ≤ (realTimeSecs realTime).toNat then
      (realTimeSecs realTime).toNat - values.updateIntervalDays.toNat * 86400
    else (realTimeSecs realTime).toNat
  mtime : ∀ last, last.toNat ≤ (realTimeSecs realTime).toNat →
    ∀ days, IsDelay random values days →
      (stampMtime random last values.randomizedDelayDays).toNat = last.toNat + days * 86400
  logged : ∀ last, last.toNat ≤ (realTimeSecs realTime).toNat →
    (stampMtime random last values.randomizedDelayDays +
        intervalSecs values.updateIntervalDays).toNat =
      (stampMtime random last values.randomizedDelayDays).toNat +
        values.updateIntervalDays.toNat * 86400
  nextUpdate : ∀ mtime, (nextUpdateTimeSecs mtime values.updateIntervalDays).toNat =
    min (mtime.toNat + values.updateIntervalDays.toNat * 86400) (2 ^ 64 - 1)

section Arithmetic

variable {random : RandomSource} {values : ConfigFileValues} {realTime : Int64} {days : ℕ}

/-- The seconds of a day. -/
theorem toNat_secPerDay : secPerDay.toNat = 86400 := by decide

/-- Microseconds in whole seconds. -/
theorem toNat_realTimeSecs (realTime : Int64) :
    (realTimeSecs realTime).toNat = realTime.toUInt64.toNat / 1000000 := by
  rw [realTimeSecs, UInt64.toNat_div]
  rfl

/-- The clock in seconds, if it is after 1970. -/
theorem realTimeSecs_of_nonneg (h : 0 ≤ realTime) :
    ((realTimeSecs realTime).toNat : ℤ) = realTime.toInt / 1000000 := by
  rw [toNat_realTimeSecs, Int64.toNat_toUInt64_of_le h, Int.natCast_ediv,
    Int64.cast_toNatClampNeg _ h]
  rfl

/-- Whatever the clock says, there is much space above the seconds. -/
theorem realTimeSecs_le (realTime : Int64) :
    (realTimeSecs realTime).toNat ≤ (2 ^ 64 - 1) / 1000000 := by
  have hlt := realTime.toUInt64.toNat_lt
  rw [toNat_realTimeSecs]
  omega

/-- An interval of days in seconds does not wrap around. -/
theorem toNat_intervalSecs (updateIntervalDays : UInt32) :
    (intervalSecs updateIntervalDays).toNat = updateIntervalDays.toNat * 86400 := by
  have hlt := updateIntervalDays.toNat_lt
  -- 32 bits of days and 17 bits of seconds a day fit in a word
  rw [intervalSecs, UInt64.toNat_mul, UInt32.toNat_toUInt64, toNat_secPerDay]
  exact Nat.mod_eq_of_lt (by omega)

/-- The bound on the delay, in natural numbers. -/
theorem ConfigFileValues.delay_le' (values : ConfigFileValues) :
    values.randomizedDelayDays.toNat ≤ 24854 :=
  UInt32.le_iff_toNat_le.1 values.delay_le

/-- The bound for the random number is not wrapped. -/
theorem toInt_randomBound (values : ConfigFileValues) :
    (values.randomizedDelayDays.toInt32 + 1).toInt = values.randomizedDelayDays.toNat + 1 := by
  have hle := values.delay_le'
  have hsigned : values.randomizedDelayDays.toInt32.toInt = values.randomizedDelayDays.toNat := by
    refine BitVec.toInt_eq_toNat_of_lt ?_
    show 2 * values.randomizedDelayDays.toNat < 2 ^ 32
    omega
  have hone : (1 : Int32).toInt = 1 := by decide
  rw [Int32.toInt_add, hsigned, hone]
  exact Int.bmod_eq_of_le (by omega) (by omega)

/-- There is a delay. -/
theorem exists_isDelay (random : RandomSource) (values : ConfigFileValues) :
    ∃ days, IsDelay random values days := by
  have hbound := toInt_randomBound values
  -- the range for the random number is not empty
  have hlt : 0 < values.randomizedDelayDays.toInt32 + 1 := by
    rw [Int32.lt_iff_toInt_lt, hbound]
    show (0 : ℤ) < _
    omega
  obtain ⟨hlow, hhigh⟩ := random.mem_range _ _ hlt
  have hlow' : 0 ≤ (actualDelayDays random values.randomizedDelayDays).toInt :=
    Int32.le_iff_toInt_le.1 hlow
  have hhigh' : (actualDelayDays random values.randomizedDelayDays).toInt <
      values.randomizedDelayDays.toNat + 1 := hbound ▸ Int32.lt_iff_toInt_lt.1 hhigh
  refine ⟨(actualDelayDays random values.randomizedDelayDays).toInt.toNat, ?_, ?_⟩
  · omega
  · exact (Int.toNat_of_nonneg hlow').symm

/-- The delay in seconds. -/
theorem toNat_delaySecs (h : IsDelay random values days) :
    ((actualDelayDays random values.randomizedDelayDays).toInt64.toUInt64 * secPerDay).toNat =
      days * 86400 := by
  obtain ⟨hle, hdays⟩ := h
  have hbound := values.delay_le'
  have hnonneg : 0 ≤ (actualDelayDays random values.randomizedDelayDays).toInt64 := by
    rw [Int64.le_iff_toInt_le, Int32.toInt_toInt64, hdays]
    exact Int.natCast_nonneg days
  have hnat :
      (actualDelayDays random values.randomizedDelayDays).toInt64.toUInt64.toNat = days := by
    rw [Int64.toNat_toUInt64_of_le hnonneg, ← Int64.toNat_toInt, Int32.toInt_toInt64, hdays]
    rfl
  -- the delay is not negative, so the conversion to a word keeps it
  rw [UInt64.toNat_mul, hnat, toNat_secPerDay]
  exact Nat.mod_eq_of_lt (by omega)

/-- Without a configured delay the delay is nothing. -/
theorem IsDelay.eq_zero (h : IsDelay random values days)
    (hnone : ¬ values.randomizedDelayDays > 0) : days = 0 := by
  rw [gt_iff_lt, UInt32.lt_iff_toNat_lt] at hnone
  exact Nat.le_zero.1 (h.1.trans (not_lt.1 hnone))

/-- The time that is set for the stamp. -/
theorem toNat_stampMtime {last : UInt64} (hlast : last.toNat ≤ (realTimeSecs realTime).toNat)
    (h : IsDelay random values days) :
    (stampMtime random last values.randomizedDelayDays).toNat = last.toNat + days * 86400 := by
  have hclock := realTimeSecs_le realTime
  have hle := h.1
  have hbound := values.delay_le'
  -- the seconds take up no more than 45 bits, and the delay 31
  rw [stampMtime]
  split
  · rw [UInt64.toNat_add, toNat_delaySecs h]
    exact Nat.mod_eq_of_lt (by omega)
  · next hnone => rw [h.eq_zero hnone, Nat.zero_mul, Nat.add_zero]

/-- The subtraction is made only where it does not wrap. -/
theorem toNat_pretendedUpdateSecs (updateIntervalDays : UInt32) (realTime : Int64) :
    (pretendedUpdateSecs updateIntervalDays realTime).toNat =
      if updateIntervalDays.toNat * 86400 ≤ (realTimeSecs realTime).toNat then
        (realTimeSecs realTime).toNat - updateIntervalDays.toNat * 86400
      else (realTimeSecs realTime).toNat := by
  rw [pretendedUpdateSecs]
  simp only [ge_iff_le, UInt64.le_iff_toNat_le, toNat_intervalSecs]
  split
  · next hle =>
      rw [← toNat_intervalSecs, ← UInt64.le_iff_toNat_le] at hle
      rw [UInt64.toNat_sub_of_le _ _ hle, toNat_intervalSecs]
  · rfl

/-- **Nothing wraps**, whatever the configuration and the clock. -/
theorem noWrap (random : RandomSource) (values : ConfigFileValues) (realTime : Int64) :
    NoWrap random values realTime where
  interval := toNat_intervalSecs _
  bound := toInt_randomBound values
  delay := fun _ => toNat_delaySecs
  pretended := toNat_pretendedUpdateSecs _ _
  mtime := fun _ hlast _ => toNat_stampMtime hlast
  logged := fun last hlast => by
    obtain ⟨days, hdays⟩ := exists_isDelay random values
    have hclock := realTimeSecs_le realTime
    have hle := hdays.1
    have hbound := values.delay_le'
    have hlt := values.updateIntervalDays.toNat_lt
    rw [UInt64.toNat_add, toNat_intervalSecs, toNat_stampMtime hlast hdays]
    exact Nat.mod_eq_of_lt (by omega)
  nextUpdate := fun mtime => by
    rw [nextUpdateTimeSecs, Saturated.toNat_checkedAdd, toNat_intervalSecs, Saturated.add]

end Arithmetic

/-! ### When an update is due -/

/-- A reading of the clock in seconds. -/
def seconds (realTime : Int64) : ℤ := realTime.toInt / 1000000

/-- A number of days in seconds. -/
def daysToSecs (days : ℕ) : ℤ := days * 86400

/-- All operations on the stamp file succeed. -/
structure StampFiles.Writable (files : StampFiles) : Prop where
  queryError : files.queryError = none
  canMkdir : files.canMkdir = true
  canReplace : files.canReplace = true
  canQuery : files.canQuery = true
  canSetAttributes : files.canSetAttributes = true

section Due

variable {files : StampFiles} {random : RandomSource} {values : ConfigFileValues}
variable {realTime later : Int64} {mtime last : UInt64} {days : ℕ}
variable {updateIntervalDays randomizedDelayDays : UInt32} {stamp : Option UInt64}

/-- An update is due, by the stamp file alone. -/
def IsDue (files : StampFiles) (random : RandomSource) (values : ConfigFileValues)
    (realTime : Int64) (mtime : UInt64) : Prop :=
  (isTimeToUpdate files random values.updateIntervalDays values.randomizedDelayDays realTime
    (some mtime)).1 = true

/-- The saturated sum is compared as the sum would be. -/
theorem isDue_iff (hquery : files.queryError = none) (hclock : 0 ≤ realTime) :
    IsDue files random values realTime mtime ↔
      mtime.toNat + daysToSecs values.updateIntervalDays.toNat ≤ seconds realTime := by
  have hle := realTimeSecs_le realTime
  have hsecs := realTimeSecs_of_nonneg hclock
  have hnext := (noWrap random values realTime).nextUpdate mtime
  -- a sum that is saturated is beyond any reading of the clock, as the exact one is
  simp only [IsDue, isTimeToUpdate, hquery, decide_eq_true_eq, UInt64.le_iff_toNat_le, hnext,
    daysToSecs, seconds]
  omega

/-- What is written if everything succeeds. -/
theorem updateStampFile_of_writable (h : files.Writable) :
    (updateStampFile files random last updateIntervalDays randomizedDelayDays stamp).1 =
      some (stampMtime random last randomizedDelayDays) := by
  simp [updateStampFile, h.canMkdir, h.canReplace, h.canQuery, h.canSetAttributes]

/-- The update that a first run pretends to have made is not in the future. -/
theorem pretendedUpdateSecs_le (updateIntervalDays : UInt32) (realTime : Int64) :
    (pretendedUpdateSecs updateIntervalDays realTime).toNat ≤ (realTimeSecs realTime).toNat := by
  rw [toNat_pretendedUpdateSecs]
  split <;> omega

/-- A stamp is due its delay and the interval after the update that it was written for. -/
theorem isDue_stampMtime_iff (hlast : last.toNat ≤ (realTimeSecs realTime).toNat)
    (hdays : IsDelay random values days) (hquery : files.queryError = none) (hlater : 0 ≤ later) :
    IsDue files random values later (stampMtime random last values.randomizedDelayDays) ↔
      last.toNat + daysToSecs days + daysToSecs values.updateIntervalDays.toNat ≤
        seconds later := by
  rw [isDue_iff hquery hlater, toNat_stampMtime hlast hdays]
  simp only [daysToSecs]
  omega

/-- After a run the next update is due when the interval and a delay have passed. -/
theorem isDue_after_run (files' : StampFiles) (hfiles : files.Writable) (hclock : 0 ≤ realTime) :
    ∃ mtime days,
      stampAfterRun files random values.updateIntervalDays values.randomizedDelayDays realTime
        stamp = some mtime ∧
      days ≤ values.randomizedDelayDays.toNat ∧
      ∀ later, 0 ≤ later → files'.queryError = none →
        (IsDue files' random values later mtime ↔
          seconds realTime + daysToSecs days + daysToSecs values.updateIntervalDays.toNat ≤
            seconds later) := by
  obtain ⟨days, hdays⟩ := exists_isDelay random values
  refine ⟨_, days, updateStampFile_of_writable hfiles, hdays.1, fun later hlater hquery => ?_⟩
  rw [isDue_stampMtime_iff le_rfl hdays hquery hlater, realTimeSecs_of_nonneg hclock]
  rfl

/-- On a first run with a delay the next update is due when the delay has passed, and the interval
too if it is longer than the clock has counted. -/
theorem isDue_after_first_run (random : RandomSource) (files' : StampFiles)
    (hfiles : files.Writable) (hclock : 0 ≤ realTime) (hdelay : 0 < values.randomizedDelayDays) :
    ∃ mtime days,
      isTimeToUpdate files random values.updateIntervalDays values.randomizedDelayDays realTime
        none = (false, some mtime) ∧
      days ≤ values.randomizedDelayDays.toNat ∧
      ∀ later, 0 ≤ later → files'.queryError = none →
        (IsDue files' random values later mtime ↔
          seconds realTime + daysToSecs days +
              (if daysToSecs values.updateIntervalDays.toNat ≤ seconds realTime then 0
                else daysToSecs values.updateIntervalDays.toNat) ≤
            seconds later) := by
  obtain ⟨days, hdays⟩ := exists_isDelay random values
  refine ⟨stampMtime random (pretendedUpdateSecs values.updateIntervalDays realTime)
    values.randomizedDelayDays, days, ?_, hdays.1, fun later hlater hquery => ?_⟩
  · simp only [isTimeToUpdate, hfiles.queryError, gt_iff_lt, hdelay, if_true,
      updateStampFile_of_writable hfiles]
  · have hsecs := realTimeSecs_of_nonneg hclock
    rw [isDue_stampMtime_iff (pretendedUpdateSecs_le _ _) hdays hquery hlater,
      toNat_pretendedUpdateSecs]
    simp only [daysToSecs, seconds]
    -- the guard of the subtraction is the condition on the interval
    split_ifs <;> omega

end Due

/-- **The schedule is exact.** Nothing wraps; with a stamp file an update is due exactly when the
interval has passed since; and a first run with a delay makes the next one due when a delay within
the bound has passed, if the interval is no longer than the clock has counted, and otherwise when
the interval has passed, too. -/
theorem schedule_exact (values : ConfigFileValues) (random : RandomSource)
    (files files' : StampFiles) :
    (∀ realTime, NoWrap random values realTime) ∧
      (∀ realTime mtime, 0 ≤ realTime → files.queryError = none →
        (IsDue files random values realTime mtime ↔
          mtime.toNat + daysToSecs values.updateIntervalDays.toNat ≤ seconds realTime)) ∧
      ∀ realTime, 0 ≤ realTime → 0 < values.randomizedDelayDays → files.Writable →
        ∃ mtime days,
          isTimeToUpdate files random values.updateIntervalDays values.randomizedDelayDays realTime
            none = (false, some mtime) ∧
          days ≤ values.randomizedDelayDays.toNat ∧
          ∀ later, 0 ≤ later → files'.queryError = none →
            (IsDue files' random values later mtime ↔
              seconds realTime + daysToSecs days +
                  (if daysToSecs values.updateIntervalDays.toNat ≤ seconds realTime then 0
                    else daysToSecs values.updateIntervalDays.toNat) ≤
                seconds later) :=
  ⟨noWrap random values, fun _ _ hclock hquery => isDue_iff hquery hclock,
    fun _ hclock hdelay hfiles => isDue_after_first_run random files' hfiles hclock hdelay⟩

/-- The configuration file that comes with the program, with an interval and a delay. -/
def shippedConfig (updateIntervalDays randomizedDelayDays : Int64) : ConfigFile :=
  let group := "Automatic Updates"
  .new ["/etc/eos-updater/eos-autoupdater.conf"] "/com/endlessm/Updater/config/eos-autoupdater.conf"
    ((((KeyFile.empty.setInt64 group "LastAutomaticStep" 3).setInt64 group "IntervalDays"
      updateIntervalDays).setInt64 group "RandomizedDelayDays" randomizedDelayDays).setInt64 group
      "UserVisibleUpdateDelayDays" 14)

/-- Files on which everything succeeds. -/
def reliableFiles : StampFiles := ⟨none, nofun, true, true, true, true, 0⟩

/-- The files of the sample computer can be written. -/
theorem reliableFiles_writable : reliableFiles.Writable := ⟨rfl, rfl, rfl, rfl, rfl⟩

/-- A source of small numbers. -/
def smallest : RandomSource := ⟨fun first _ => first, fun first _ h => ⟨Int32.le_refl first, h⟩⟩

/-- The interval and the delay in a configuration file that is accepted. -/
def acceptedDays (config : ConfigFile) : Option (UInt32 × UInt32) :=
  match readConfigFile (fun _ => .missing) config with
  | .ok values => some (values.updateIntervalDays, values.randomizedDelayDays)
  | .error _ => none

/-- What the checks accept is what a configuration file gives. -/
theorem exists_of_acceptedDays {config : ConfigFile} {interval delay : UInt32}
    (h : acceptedDays config = some (interval, delay)) :
    ∃ values, readConfigFile (fun _ => .missing) config = .ok values ∧
      values.updateIntervalDays = interval ∧ values.randomizedDelayDays = delay := by
  rw [acceptedDays] at h
  split at h
  · next values hvalues =>
      obtain ⟨hinterval, hdelay⟩ := Prod.mk.inj (Option.some_inj.1 h)
      exact ⟨values, hvalues, hinterval, hdelay⟩
  · cases h

/-- With an interval of two weeks and up to three days of delay, an update is due within three days
after a first run in November 2023. -/
theorem twoWeeks_first_run :
    ∃ values, readConfigFile (fun _ => .missing) (shippedConfig 14 3) = .ok values ∧
      ∃ mtime days,
        isTimeToUpdate reliableFiles smallest values.updateIntervalDays values.randomizedDelayDays
          1700000000000000 none = (false, some mtime) ∧
        days ≤ 3 ∧
        ∀ later, 0 ≤ later → (IsDue reliableFiles smallest values later mtime ↔
          1700000000 + daysToSecs days ≤ seconds later) := by
  have hread : acceptedDays (shippedConfig 14 3) = some (14, 3) := by decide +kernel
  obtain ⟨values, hvalues, hinterval, hdelay⟩ := exists_of_acceptedDays hread
  obtain ⟨mtime, days, hfirst, hle, hdue⟩ :=
    (schedule_exact values smallest reliableFiles reliableFiles).2.2 1700000000000000 (by decide)
      (by rw [hdelay]; decide) reliableFiles_writable
  refine ⟨values, hvalues, mtime, days, hfirst, by rwa [hdelay] at hle,
    fun later hlater => ?_⟩
  have hsecs : seconds 1700000000000000 = 1700000000 := by decide
  rw [hdue later hlater rfl, hsecs, if_pos (by rw [hinterval]; decide), add_zero]

/-- With an interval of 30000 days, nothing is subtracted, and the update is not due a day after a
first run, although there is a delay of one day at most. -/
theorem longInterval_not_due :
    ∃ values, readConfigFile (fun _ => .missing) (shippedConfig 30000 1) = .ok values ∧
      ¬ ∀ (files : StampFiles) (random : RandomSource) (realTime : Int64), 0 ≤ realTime →
        0 < values.randomizedDelayDays → files.Writable →
        ∃ mtime days,
          isTimeToUpdate files random values.updateIntervalDays values.randomizedDelayDays realTime
            none = (false, some mtime) ∧
          days ≤ values.randomizedDelayDays.toNat ∧
          ∀ later, 0 ≤ later → (IsDue files random values later mtime ↔
            seconds realTime + daysToSecs days ≤ seconds later) := by
  have hread : acceptedDays (shippedConfig 30000 1) = some (30000, 1) := by decide +kernel
  obtain ⟨values, hvalues, hinterval, hdelay⟩ := exists_of_acceptedDays hread
  refine ⟨values, hvalues, fun hall => ?_⟩
  have hpos : 0 < values.randomizedDelayDays := by rw [hdelay]; decide
  obtain ⟨mtime, days, hfirst, hle, hdue⟩ :=
    hall reliableFiles smallest 1700000000000000 (by decide) hpos reliableFiles_writable
  obtain ⟨mtime', days', hfirst', -, hdue'⟩ := isDue_after_first_run smallest
    reliableFiles reliableFiles_writable (show 0 ≤ (1700000000000000 : Int64) by decide) hpos
  -- it is the same stamp, which is due at two different times
  obtain rfl := Option.some_inj.1 (congrArg Prod.snd (hfirst.symm.trans hfirst'))
  -- a day later
  have hiff := (hdue 1700086400000000 (by decide)).symm.trans
    (hdue' 1700086400000000 (by decide) rfl)
  have hsecs : seconds 1700000000000000 = 1700000000 := by decide
  have hlater : seconds 1700086400000000 = 1700086400 := by decide
  have hone : days ≤ 1 := by rwa [hdelay] at hle
  have hlong : UInt32.toNat 30000 = 30000 := by decide
  rw [hinterval, hsecs, hlater, if_neg (by decide), hlong] at hiff
  simp only [daysToSecs] at hiff
  omega

end Autoupdater
