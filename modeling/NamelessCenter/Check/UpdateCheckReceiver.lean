import NamelessCenter.Database.PreferenceHelper
import NamelessCenter.Check.UpdateCheckService

/-!
# The schedule of the update checks

The frequency of the checks is a preference in seconds, or negative for the modes without a
schedule. `RomUpdatePreferenceFragment` and `UpdateCheckReceiver` convert it to milliseconds in 32
bits and pass it to `scheduleUpdateService`, which compares it with the unconverted sentinel and
replaces the alarm that starts the next check. `alarms_match_iff` says which changes and
broadcasts leave an alarm that belongs to the frequency stored.
-/

namespace NamelessCenter.Check

open Database Text Machine

/-! ## Constants.java -/

/-- The preference for the channel of the updates. -/
def PREF_UPDATE_CHANNEL : String := "pref_update_channel"

/-- The preference for the interval of the checks, in seconds. -/
def UPDATE_CHECK_PREF : String := "pref_update_check_interval"

/-- The preference for the recovery that updates are installed with. -/
def PREF_RECOVERY_TYPE : String := "pref_recovery_type"

/-- The preference that allows downloads over metered networks. -/
def PREF_UPDATE_METERED : String := "pref_update_metered"

/-- The preference that allows them without a warning. -/
def PREF_UPDATE_METERED_SKIP_WARNING : String := "pref_update_metered_skip_warn"

/-- The preference that allows downloads while roaming. -/
def PREF_UPDATE_ROAMING : String := "pref_update_roaming"

/-- No check without the user. -/
def UPDATE_FREQ_NONE : Int32 := -1

/-- A check when the app starts. -/
def UPDATE_FREQ_AT_APP_START : Int32 := -2

/-- A check with the first connection behind a boot. -/
def UPDATE_FREQ_AT_BOOT : Int32 := -3

/-- A check every seven days. -/
def UPDATE_FREQ_WEEKLY : Int32 := 604800

/-! ## The device -/

/-- A repeating alarm for `ACTION_CHECK`. -/
structure Alarm where
  triggerAtMillis : Int64
  intervalMillis : Int64
  deriving DecidableEq, Repr

/-- The preferences and the pending alarm. There is one `PendingIntent` for all alarms, so that a
new one replaces the old. -/
structure Device where
  preferences : Preferences
  alarm : Option Alarm

/-- The broadcasts that `UpdateCheckReceiver` tells apart. -/
inductive Broadcast where
  /-- No intent, or one without an action. -/
  | empty
  | installUpdate
  | downloadUpdate
  /-- `CONNECTIVITY_ACTION` with its `EXTRA_NO_CONNECTIVITY`. -/
  | connectivity (noConnectivity : Bool)
  | bootCompleted
  | other
  deriving DecidableEq, Repr

/-- The preferences of `RomUpdatePreferenceFragment`. -/
inductive Preference where
  | mUpdateChannel
  | mUpdateCheck
  | mRecoveryType
  | mMetered
  | mMeteredSkipWarn
  | mRoaming
  deriving DecidableEq, Repr

/-- The new value of a preference: list preferences have texts, check boxes truth values. -/
inductive NewValue where
  | string (s : String)
  | boolean (b : Bool)
  deriving DecidableEq, Repr

/-- `Integer.valueOf(String.valueOf(o))`, if it does not throw. -/
def NewValue.toInt : NewValue → Option Int32
  | .string s => (parseInt s).map Int32.ofInt
  | .boolean _ => none

/-- `(Boolean) o`, if it does not throw. -/
def NewValue.toBoolean : NewValue → Option Bool
  | .string _ => none
  | .boolean b => some b

namespace Device

variable (d : Device)

/-- Store a preference. -/
def store (name : String) (v : Value) : Device :=
  { d with preferences := d.preferences.set name v }

/-- The frequency of the checks. -/
def frequency : Option Int32 := d.preferences.getInt UPDATE_CHECK_PREF UPDATE_FREQ_WEEKLY

/-- `Long.parseLong(PreferenceHelper.getString(LAST_UPDATE_CHECK_PREF, "0"))`. -/
def lastCheck : Option Int64 :=
  (parseLong (d.preferences.getString LAST_UPDATE_CHECK_PREF "0")).map Int64.ofInt

/-- Whether a check has completed since the boot. -/
def bootCheckCompleted : Bool := d.preferences.getBoolean BOOT_CHECK_COMPLETED false

/-- `Helper.scheduleUpdateService`; `none` is a `NumberFormatException`. -/
def scheduleUpdateService (updateFreq : Int32) : Option Device := do
  let lastCheck ← d.lastCheck
  -- clear the old alarm
  let cancelled := { d with alarm := none }
  pure (if UPDATE_FREQ_NONE ≠ updateFreq then
    { cancelled with alarm := some ⟨lastCheck + updateFreq.toInt64, updateFreq.toInt64⟩ }
  else cancelled)

/-- `RomUpdatePreferenceFragment.onPreferenceChange`, without the summaries. -/
def onPreferenceChange (o : NewValue) : Preference → Option Device
  | .mUpdateChannel => o.toInt.map fun value => d.store PREF_UPDATE_CHANNEL (.int value)
  | .mUpdateCheck => do
      let value ← o.toInt
      (d.store UPDATE_CHECK_PREF (.int value)).scheduleUpdateService (value * 1000)
  | .mRecoveryType => o.toInt.map fun value => d.store PREF_RECOVERY_TYPE (.int value)
  | .mMetered => o.toBoolean.map fun value => d.store PREF_UPDATE_METERED (.boolean value)
  | .mMeteredSkipWarn =>
      o.toBoolean.map fun value => d.store PREF_UPDATE_METERED_SKIP_WARNING (.boolean value)
  | .mRoaming => o.toBoolean.map fun value => d.store PREF_UPDATE_ROAMING (.boolean value)

/-- The part of `onReceive` behind the early returns, and whether it starts an update check. -/
def check (updateFrequency : Int32) : Option (Device × Bool) :=
  if updateFrequency = UPDATE_FREQ_AT_BOOT then pure (d, !d.bootCheckCompleted)
  else if 0 < updateFrequency then
    (d.scheduleUpdateService (updateFrequency * 1000)).map fun d => (d, false)
  else pure (d, false)

/-- `UpdateCheckReceiver.onReceive`, and whether it starts an update check. The final `tearDown` of
the database does not change the preferences. -/
def onReceive : Broadcast → Option (Device × Bool)
  | .empty | .installUpdate | .downloadUpdate => some (d, false)
  | .connectivity noConnectivity => do
      let updateFrequency ← d.frequency
      if updateFrequency = UPDATE_FREQ_NONE ∨ noConnectivity then pure (d, false)
      else d.check updateFrequency
  | .bootCompleted => do
      let updateFrequency ← d.frequency
      if updateFrequency = UPDATE_FREQ_NONE then pure (d, false)
      else (d.store BOOT_CHECK_COMPLETED (.boolean false)).check updateFrequency
  | .other => do
      let updateFrequency ← d.frequency
      if updateFrequency = UPDATE_FREQ_NONE then pure (d, false)
      else d.check updateFrequency

end Device

/-- What can change the alarm: the user, and broadcasts of the system. -/
inductive DeviceEvent where
  | preferenceChange (preference : Preference) (o : NewValue)
  | receive (broadcast : Broadcast)
  /-- The device restarts, which clears its alarms. -/
  | reboot
  deriving DecidableEq, Repr

/-- The effect of an event, unless it throws. -/
def Device.step (d : Device) : DeviceEvent → Option Device
  | .preferenceChange preference o => d.onPreferenceChange o preference
  | .receive broadcast => (d.onReceive broadcast).map Prod.fst
  | .reboot => some { d with alarm := none }

/-! ## Schedules -/

namespace Device

/-- A pending alarm belongs to a positive frequency: it repeats with its period in milliseconds,
counted from the last check. -/
def Matches (d : Device) : Prop :=
  ∀ alarm, d.alarm = some alarm → ∃ f lastCheck, d.frequency = some f ∧
    d.lastCheck = some lastCheck ∧ 0 < f.toInt ∧ alarm.intervalMillis.toInt = 1000 * f.toInt ∧
      alarm.triggerAtMillis.toInt = lastCheck.toInt + 1000 * f.toInt

/-- The frequency is positive, its milliseconds fit an `int`, and the next check a `long`. -/
def Fits (lastCheck : Int64) (f : Int32) : Prop :=
  0 < f.toInt ∧ 1000 * f.toInt < 2 ^ 31 ∧ lastCheck.toInt + 1000 * f.toInt < 2 ^ 63

instance (lastCheck : Int64) (f : Int32) : Decidable (Fits lastCheck f) :=
  inferInstanceAs (Decidable (_ ∧ _ ∧ _))

end Device

/-- The broadcast reaches the scheduling of the checks. -/
def Broadcast.schedules : Broadcast → Bool
  | .empty | .installUpdate | .downloadUpdate | .connectivity true => false
  | .connectivity false | .bootCompleted | .other => true

/-- A frequency that is chosen is positive and fits, and one that a broadcast schedules fits. -/
def Schedulable (d : Device) : DeviceEvent → Prop
  | .preferenceChange .mUpdateCheck o =>
      ∀ f ∈ o.toInt, ∀ lastCheck ∈ d.lastCheck, Device.Fits lastCheck f
  | .receive broadcast =>
      ∀ f ∈ d.frequency, 0 < f → broadcast.schedules → ∀ lastCheck ∈ d.lastCheck,
        Device.Fits lastCheck f
  | .preferenceChange .. | .reboot => True

instance (d : Device) : DecidablePred (Schedulable d)
  | .preferenceChange .mUpdateCheck _ =>
      inferInstanceAs (Decidable (∀ _ ∈ _, ∀ _ ∈ _, Device.Fits _ _))
  | .receive _ => inferInstanceAs (Decidable (∀ f ∈ _, 0 < f → _ = true → ∀ _ ∈ _, Device.Fits _ f))
  | .preferenceChange .mUpdateChannel _ | .preferenceChange .mRecoveryType _
  | .preferenceChange .mMetered _ | .preferenceChange .mMeteredSkipWarn _
  | .preferenceChange .mRoaming _ | .reboot => .isTrue trivial

/-! ## Milliseconds -/

section Milliseconds

variable {f : Int32}

/-- The product of two `int`s wraps around. -/
theorem to_int_mul_thousand (f : Int32) :
    (f * 1000).toInt = (1000 * f.toInt).bmod (2 ^ 32) := by
  have hthousand : (1000 : Int32).toInt = 1000 := rfl
  rw [Int32.toInt_mul, hthousand, Int.mul_comm]

/-- The product is a multiple of 1000 up to the overflow, which is even. -/
theorem mul_thousand_ne (f : Int32) : UPDATE_FREQ_NONE ≠ f * 1000 := by
  intro heq
  have hnone : (-1 : Int) = (f * 1000).toInt := congrArg Int32.toInt heq
  rw [to_int_mul_thousand, Int.bmod_def] at hnone
  split at hnone <;> omega

/-- It is the exact product exactly if that fits into 32 bits. -/
theorem to_int_mul_thousand_iff :
    (f * 1000).toInt = 1000 * f.toInt ↔ -2 ^ 31 ≤ 1000 * f.toInt ∧ 1000 * f.toInt < 2 ^ 31 := by
  rw [to_int_mul_thousand]
  constructor
  · intro heq
    have hlow := Int.le_bmod (x := 1000 * f.toInt) (m := 2 ^ 32) (by omega)
    have hhigh := Int.bmod_lt (x := 1000 * f.toInt) (m := 2 ^ 32) (by omega)
    rw [heq] at hlow hhigh
    omega
  · intro ⟨hlow, hhigh⟩
    exact Int.bmod_eq_of_le (by omega) (by omega)

/-- The next check is at the sum, unless that overflows a `long`. -/
theorem to_int_add_iff {lastCheck period : Int64} (hpos : 0 < period.toInt) :
    (lastCheck + period).toInt = lastCheck.toInt + period.toInt ↔
      lastCheck.toInt + period.toInt < 2 ^ 63 := by
  rw [Int64.toInt_add]
  constructor
  · intro heq
    have hhigh := Int.bmod_lt (x := lastCheck.toInt + period.toInt) (m := 2 ^ 64) (by omega)
    rw [heq] at hhigh
    omega
  · intro hhigh
    have hlow := lastCheck.le_toInt
    exact Int.bmod_eq_of_le (by omega) (by omega)

end Milliseconds

/-! ## Steps -/

section Steps

variable {d d' : Device} {f : Int32} {lastCheck : Int64} {name : String} {v : Value}

/-- A preference that is stored is read as it is encoded. -/
theorem preferences_store (d : Device) (name : String) (v : Value) :
    (d.store name v).preferences name = some v.encode := Function.update_self ..

/-- The others are left alone. -/
theorem preferences_store_of_ne {other : String} (h : other ≠ name) :
    (d.store name v).preferences other = d.preferences other := Function.update_of_ne h ..

/-- Storing another preference does not change the frequency. -/
theorem frequency_store_of_ne (h : UPDATE_CHECK_PREF ≠ name) :
    (d.store name v).frequency = d.frequency :=
  congrArg (decodeInt UPDATE_FREQ_WEEKLY) (preferences_store_of_ne h)

/-- Storing another preference does not change the time of the last check. -/
theorem last_check_store_of_ne (h : LAST_UPDATE_CHECK_PREF ≠ name) :
    (d.store name v).lastCheck = d.lastCheck :=
  congrArg (fun stored => (parseLong (decodeString "0" stored)).map Int64.ofInt)
    (preferences_store_of_ne h)

/-- Nor does storing the frequency. -/
theorem last_check_store_frequency : (d.store UPDATE_CHECK_PREF v).lastCheck = d.lastCheck :=
  last_check_store_of_ne (by decide)

/-- The frequency that was stored last is read. -/
theorem frequency_store : (d.store UPDATE_CHECK_PREF (.int f)).frequency = some f := by
  have hdecode : decode (some (Value.int f).encode) (.int UPDATE_FREQ_WEEKLY) = some (.int f) :=
    decode_encode trivial (by simp)
  obtain ⟨i, hi, heq⟩ := Option.map_eq_some_iff.1 hdecode
  rw [Device.frequency, Preferences.getInt, preferences_store, hi, Value.int.inj heq]

/-- The alarm that is set for a frequency. -/
def alarmFor (lastCheck : Int64) (f : Int32) : Alarm :=
  ⟨lastCheck + (f * 1000).toInt64, (f * 1000).toInt64⟩

/-- The comparison with the sentinel never holds. -/
theorem schedule_eq (hlast : d.lastCheck = some lastCheck) (f : Int32) :
    d.scheduleUpdateService (f * 1000) = some { d with alarm := some (alarmFor lastCheck f) } := by
  rw [Device.scheduleUpdateService, hlast]
  show some (ite _ _ _) = _
  rw [if_pos (mul_thousand_ne f)]
  rfl

/-- The alarm that is set for the frequency stored belongs to it exactly if nothing overflows. -/
theorem matches_alarm_for_iff (hfrequency : d.frequency = some f)
    (hlast : d.lastCheck = some lastCheck) :
    Device.Matches { d with alarm := some (alarmFor lastCheck f) } ↔ Device.Fits lastCheck f := by
  have hinterval : (f * 1000).toInt64.toInt = (f * 1000).toInt := Int32.toInt_toInt64 _
  constructor
  · intro hmatches
    obtain ⟨f', lastCheck', hf, ht, hpos, hperiod, htrigger⟩ := hmatches _ rfl
    cases hfrequency.symm.trans hf
    cases hlast.symm.trans ht
    replace hperiod : (f * 1000).toInt64.toInt = 1000 * f.toInt := hperiod
    obtain ⟨-, hint⟩ := to_int_mul_thousand_iff.1 (hinterval.symm.trans hperiod)
    rw [← hperiod] at htrigger
    have hlong := (to_int_add_iff (by omega)).1 htrigger
    exact ⟨hpos, hint, by omega⟩
  · intro ⟨hpos, hint, hlong⟩ alarm halarm
    cases halarm
    have hperiod := hinterval.trans (to_int_mul_thousand_iff.2 ⟨by omega, hint⟩)
    refine ⟨f, lastCheck, hfrequency, hlast, hpos, hperiod, ?_⟩
    rw [← hperiod]
    exact (to_int_add_iff (by omega)).2 (by omega)

/-- The alarm stays, and so does what it is compared with. -/
theorem matches_congr (halarm : d'.alarm = d.alarm) (hfrequency : d'.frequency = d.frequency)
    (hlast : d'.lastCheck = d.lastCheck) : d'.Matches ↔ d.Matches := by
  unfold Device.Matches
  rw [halarm, hfrequency, hlast]

/-- The preferences that the schedule depends on can be read. -/
structure Device.Readable (lastCheck : Int64) (d : Device) : Prop where
  frequency : ∃ f, d.frequency = some f
  lastCheck : d.lastCheck = some lastCheck

/-- Storing another preference keeps the two readable. -/
theorem Device.Readable.store (h : d.Readable lastCheck) (hcheck : UPDATE_CHECK_PREF ≠ name)
    (hlast : LAST_UPDATE_CHECK_PREF ≠ name) : (d.store name v).Readable lastCheck := by
  obtain ⟨f, hf⟩ := h.frequency
  exact ⟨⟨f, (frequency_store_of_ne hcheck).trans hf⟩,
    (last_check_store_of_ne hlast).trans h.lastCheck⟩

/-- Storing another preference does not change which alarm is expected. -/
theorem matches_store (hcheck : UPDATE_CHECK_PREF ≠ name) (hlast : LAST_UPDATE_CHECK_PREF ≠ name) :
    (d.store name v).Matches ↔ d.Matches :=
  matches_congr rfl (frequency_store_of_ne hcheck) (last_check_store_of_ne hlast)

/-- The part of `onReceive` behind the early returns sets the alarm for a positive frequency. -/
theorem check_spec (h : d.Readable lastCheck) (hf : d.frequency = some f) {starts : Bool}
    (hcheck : d.check f = some (d', starts)) :
    d'.preferences = d.preferences ∧
      d'.alarm = if 0 < f then some (alarmFor lastCheck f) else d.alarm := by
  unfold Device.check at hcheck
  split at hcheck
  · rename_i hboot
    subst hboot
    cases hcheck
    exact ⟨rfl, rfl⟩
  · split at hcheck
    · rename_i hpos
      rw [schedule_eq h.lastCheck] at hcheck
      cases hcheck
      exact ⟨rfl, (if_pos hpos).symm⟩
    · rename_i hpos
      cases hcheck
      exact ⟨rfl, (if_neg hpos).symm⟩

/-- The frequency `NONE` sets no alarm. -/
theorem not_pos_of_none (h : f = UPDATE_FREQ_NONE) : ¬ 0 < f := by
  rw [h]
  decide

/-- A broadcast that reaches the scheduling sets the alarm for a positive frequency. -/
theorem receive_spec (h : d.Readable lastCheck) (hf : d.frequency = some f) {b : Broadcast}
    {starts : Bool} (hreceive : d.onReceive b = some (d', starts)) :
    d'.frequency = some f ∧ d'.lastCheck = some lastCheck ∧
      d'.alarm = if b.schedules ∧ 0 < f then some (alarmFor lastCheck f) else d.alarm := by
  -- behind the early returns the preferences only change in the boot check
  have hchecked : ∀ {e : Device}, e.Readable lastCheck → e.frequency = some f →
      e.alarm = d.alarm → e.check f = some (d', starts) → d'.frequency = some f ∧
        d'.lastCheck = some lastCheck ∧
          d'.alarm = if 0 < f then some (alarmFor lastCheck f) else d.alarm := by
    intro e he hef halarm hcheck
    obtain ⟨hpreferences, hset⟩ := check_spec he hef hcheck
    refine ⟨?_, ?_, by rw [hset, halarm]⟩
    · rw [Device.frequency, hpreferences]
      exact hef
    · rw [Device.lastCheck, hpreferences]
      exact he.lastCheck
  cases b with
  | empty | installUpdate | downloadUpdate =>
      cases hreceive
      exact ⟨hf, h.lastCheck, rfl⟩
  | connectivity noConnectivity =>
      rw [Device.onReceive, hf] at hreceive
      replace hreceive : (if _ then _ else _) = _ := hreceive
      split at hreceive
      · rename_i hreturn
        cases hreceive
        refine ⟨hf, h.lastCheck, (if_neg fun hboth => ?_).symm⟩
        rcases hreturn with hnone | hno
        · exact not_pos_of_none hnone hboth.2
        · subst hno
          cases hboth.1
      · rename_i hgoes
        have hconnected : noConnectivity = false := by simpa using fun heq => hgoes (.inr heq)
        subst hconnected
        simpa [Broadcast.schedules] using hchecked h hf rfl hreceive
  | bootCompleted =>
      rw [Device.onReceive, hf] at hreceive
      replace hreceive : (if _ then _ else _) = _ := hreceive
      split at hreceive
      · rename_i hnone
        cases hreceive
        exact ⟨hf, h.lastCheck, (if_neg fun hboth => not_pos_of_none hnone hboth.2).symm⟩
      · have hother : UPDATE_CHECK_PREF ≠ BOOT_CHECK_COMPLETED := by decide
        have hstored := hchecked (h.store hother (by decide))
          ((frequency_store_of_ne hother).trans hf) rfl hreceive
        simpa [Broadcast.schedules] using hstored
  | other =>
      rw [Device.onReceive, hf] at hreceive
      replace hreceive : (if _ then _ else _) = _ := hreceive
      split at hreceive
      · rename_i hnone
        cases hreceive
        exact ⟨hf, h.lastCheck, (if_neg fun hboth => not_pos_of_none hnone hboth.2).symm⟩
      · simpa [Broadcast.schedules] using hchecked h hf rfl hreceive

/-- The other preferences have nothing to do with the schedule. -/
theorem preference_change_cases {preference : Preference} {o : NewValue}
    (hchange : d.onPreferenceChange o preference = some d') :
    (preference = .mUpdateCheck ∧ ∃ f, o.toInt = some f ∧
        (d.store UPDATE_CHECK_PREF (.int f)).scheduleUpdateService (f * 1000) = some d') ∨
      preference ≠ .mUpdateCheck ∧ ∃ name v, UPDATE_CHECK_PREF ≠ name ∧
        LAST_UPDATE_CHECK_PREF ≠ name ∧ BOOT_CHECK_COMPLETED ≠ name ∧ d' = d.store name v := by
  cases preference with
  | mUpdateCheck =>
      obtain ⟨f, hf, hschedule⟩ := Option.bind_eq_some_iff.1 hchange
      exact .inl ⟨rfl, f, hf, hschedule⟩
  | mUpdateChannel | mRecoveryType | mMetered | mMeteredSkipWarn | mRoaming =>
      obtain ⟨v, -, rfl⟩ := Option.map_eq_some_iff.1 hchange
      exact .inr ⟨by decide, _, _, by decide, by decide, by decide, rfl⟩

/-- The frequency and the time of the last check stay readable. -/
theorem step_readable {e : DeviceEvent} (h : d.Readable lastCheck) (hstep : d.step e = some d') :
    d'.Readable lastCheck := by
  obtain ⟨f, hf⟩ := h.frequency
  cases e with
  | preferenceChange preference o =>
      rcases preference_change_cases hstep with ⟨-, f', -, hschedule⟩ | ⟨-, name, v, hc, hl, -, rfl⟩
      · have hlast : (d.store UPDATE_CHECK_PREF (.int f')).lastCheck = some lastCheck :=
          last_check_store_frequency.trans h.lastCheck
        rw [schedule_eq hlast] at hschedule
        cases hschedule
        exact ⟨⟨f', frequency_store⟩, hlast⟩
      · exact h.store hc hl
  | receive b =>
      obtain ⟨⟨d'', starts⟩, hreceive, rfl⟩ := Option.map_eq_some_iff.1 hstep
      obtain ⟨hf', hlast, -⟩ := receive_spec h hf hreceive
      exact ⟨⟨f, hf'⟩, hlast⟩
  | reboot =>
      cases hstep
      exact ⟨⟨f, hf⟩, h.lastCheck⟩

/-- The alarm goes on to match the preferences exactly if the event can be scheduled. -/
theorem step_matches_iff {e : DeviceEvent} (h : d.Readable lastCheck) (hmatches : d.Matches)
    (hstep : d.step e = some d') : d'.Matches ↔ Schedulable d e := by
  obtain ⟨f, hf⟩ := h.frequency
  cases e with
  | preferenceChange preference o =>
      rcases preference_change_cases hstep with
        ⟨rfl, f', hvalue, hschedule⟩ | ⟨hne, name, v, hc, hl, -, rfl⟩
      · have hlast : (d.store UPDATE_CHECK_PREF (.int f')).lastCheck = some lastCheck :=
          last_check_store_frequency.trans h.lastCheck
        rw [schedule_eq hlast] at hschedule
        cases hschedule
        rw [matches_alarm_for_iff frequency_store hlast, Schedulable, hvalue, h.lastCheck]
        simp
      · have htrivial : Schedulable d (.preferenceChange preference o) := by
          cases preference with
          | mUpdateCheck => exact absurd rfl hne
          | mUpdateChannel | mRecoveryType | mMetered | mMeteredSkipWarn | mRoaming => trivial
        exact iff_of_true ((matches_store hc hl).2 hmatches) htrivial
  | receive b =>
      obtain ⟨⟨d'', starts⟩, hreceive, rfl⟩ := Option.map_eq_some_iff.1 hstep
      obtain ⟨hf', hlast, halarm⟩ := receive_spec h hf hreceive
      rw [Schedulable, hf, h.lastCheck]
      by_cases hsets : b.schedules ∧ 0 < f
      · rw [if_pos hsets] at halarm
        have hset : d'' = { d'' with alarm := some (alarmFor lastCheck f) } := by rw [← halarm]
        rw [hset, matches_alarm_for_iff hf' hlast]
        simp [hsets.1, hsets.2]
      · rw [if_neg hsets] at halarm
        refine iff_of_true
          ((matches_congr halarm (hf'.trans hf.symm) (hlast.trans h.lastCheck.symm)).2 hmatches) ?_
        intro f' hf'' hpos hreaches
        cases hf''
        exact absurd ⟨hreaches, hpos⟩ hsets
  | reboot =>
      cases hstep
      exact iff_of_true (fun alarm halarm => by cases halarm) trivial

end Steps

/-! ## Runs -/

/-- In every sequence of preference changes and broadcasts, every pending alarm belongs to the
positive frequency that is stored exactly if only positive frequencies are chosen, and every
frequency that is chosen or scheduled by a broadcast is below 2147484 seconds and its first check
a `long`. -/
theorem alarms_match_iff {start d : Device} {lastCheck : Int64} {es : List DeviceEvent}
    (hstart : start.Readable lastCheck) (hnone : start.alarm = none)
    (hrun : run Device.step start es = some d) :
    Throughout Device.step Device.Matches start es ↔ Along Device.step Schedulable start es := by
  refine throughout_iff_along step_readable step_matches_iff hstart (fun alarm halarm => ?_) hrun
  rw [hnone] at halarm
  cases halarm

/-- A device on which nothing has been stored. -/
def Device.new : Device := ⟨fun _ => none, none⟩

/-- On a new device, the defaults are read. -/
theorem readable_new : Device.new.Readable 0 := ⟨⟨604800, rfl⟩, rfl⟩

/-- A daily check, which the receiver schedules again. -/
theorem alarms_match_daily :
    Throughout Device.step Device.Matches .new
      [.preferenceChange .mUpdateCheck (.string "86400"), .reboot, .receive .bootCompleted] := by
  have hrun : run Device.step .new [.preferenceChange .mUpdateCheck (.string "86400"), .reboot,
    .receive .bootCompleted] = some _ := rfl
  have hfits : Device.Fits 0 86400 := ⟨by decide, by decide, by decide⟩
  refine (alarms_match_iff readable_new rfl hrun).2 ((along_cons rfl).2 ⟨?_, (along_cons rfl).2
    ⟨trivial, (along_cons rfl).2 ⟨?_, trivial⟩⟩⟩)
  · intro f hf lastCheck hlast
    cases hf
    cases hlast
    exact hfits
  · intro f hf hpos hschedules lastCheck hlast
    cases hf
    cases hlast
    exact hfits

/-- The manual mode leaves an alarm, with a negative period. -/
theorem manual_leaves_alarm :
    ∃ d, run Device.step .new [.preferenceChange .mUpdateCheck (.string "-1")] = some d ∧
      d.alarm = some ⟨-1000, -1000⟩ ∧
        ¬ Throughout Device.step Device.Matches .new
          [.preferenceChange .mUpdateCheck (.string "-1")] := by
  have hrun : run Device.step .new [.preferenceChange .mUpdateCheck (.string "-1")] = some _ := rfl
  refine ⟨_, hrun, rfl, fun h => ?_⟩
  obtain ⟨f, lastCheck, -, -, hpos, hperiod, -⟩ := h.2 _ rfl _ rfl
  have hnegative : (-1000 : Int) = 1000 * f.toInt := hperiod
  omega

end NamelessCenter.Check
