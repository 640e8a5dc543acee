import NamelessCenter.Check.UpdateCheckReceiver

/-!
# The check at boot

A device in the boot mode checks for updates once after each boot. `UpdateCheckService` stores in
`BOOT_CHECK_COMPLETED` that a background check has completed, and `UpdateCheckReceiver` resets it
when the boot is announced, behind an early return for the manual mode. The machine below has the
preference, the receiver and the service, of which every check is handled before the next begins,
and remembers whether a background check has completed since the last boot. `boot_check_iff` says
which runs leave the preference behind from an earlier boot.
-/

namespace NamelessCenter.Check

open Database Items Machine Text

/-- The update check as a whole: the stored preferences, the service, and whether it has checked
since the last boot. -/
structure System where
  device : Device
  service : State
  /-- A background check has completed since the last `BOOT_COMPLETED`. -/
  checked : Bool

/-- The app is installed on a device with these preferences. -/
def System.start (preferences : Preferences) : System := ⟨⟨preferences, none⟩, .init, false⟩

/-- What can happen to the device and to its update check. -/
inductive SystemEvent where
  /-- The device restarts. -/
  | reboot
  /-- A broadcast is received; `isOnline` is read if it starts a check. -/
  | receive (broadcast : Broadcast) (isOnline : Bool)
  | preferenceChange (preference : Preference) (o : NewValue)
  /-- The alarm starts a check. -/
  | alarm (isOnline : Bool)
  /-- `MainActivity` is created. -/
  | appStart (isOnline : Bool)
  /-- `RomUpdateFragment` asks for the updates. -/
  | refreshUpdates (isOnline : Bool)
  /-- The check under way completes. -/
  | complete (result : Option (List UpdateInfo)) (env : Environment)
  /-- The system restarts the service without an intent. -/
  | restart
  | destroy
  /-- The process ends. -/
  | killed
  deriving DecidableEq, Repr

/-- What an effect of the service does to the preferences. -/
def Effect.apply (p : Preferences) : Effect → Preferences
  | .setString name value => p.setString name value
  | .setBoolean name value => p.setBoolean name value
  | .sendBroadcast _ | .notify _ | .post _ => p

namespace System

variable (s : System)

/-- `startService` for a check, when none is under way. -/
def startCheck (action : Action) (isOnline : Bool) : Option System :=
  if s.service.requests = [] then
    (Check.step s.service (.startService (some action) isOnline)).map fun service =>
      { s with service }
  else none

/-- The preferences after what the service has done on its way to another state. -/
def preferences (service : State) : Preferences :=
  (service.effects.drop s.service.effects.length).foldl Effect.apply s.device.preferences

/-- The effect of an event, if it can happen. -/
def step : SystemEvent → Option System
  | .reboot =>
      (Check.step s.service .killed).map fun service =>
        { s with service, device := { s.device with alarm := none } }
  | .receive broadcast isOnline => do
      let (device, starts) ← s.device.onReceive broadcast
      let received := { s with device, checked := s.checked && broadcast != .bootCompleted }
      if starts then received.startCheck .CHECK isOnline else pure received
  | .preferenceChange preference o =>
      (s.device.onPreferenceChange o preference).map fun device => { s with device }
  | .alarm isOnline => if s.device.alarm = none then none else s.startCheck .CHECK isOnline
  | .appStart isOnline => do
      let updateFrequency ← s.device.frequency
      if updateFrequency = UPDATE_FREQ_AT_APP_START then s.startCheck .CHECK isOnline else pure s
  | .refreshUpdates isOnline => s.startCheck .CHECK_UI isOnline
  | .complete result env => do
      let request ← s.service.requests.head?
      let service ← Check.step s.service (.complete 0 result env)
      pure {
        device := { s.device with preferences := s.preferences service }
        service
        checked := s.checked || (request.action = .CHECK && result.isSome) }
  | .restart =>
      (Check.step s.service (.startService none true)).map fun service => { s with service }
  | .destroy => (Check.step s.service .onDestroy).map fun service => { s with service }
  | .killed => (Check.step s.service .killed).map fun service => { s with service }

/-- The preference is true only after a background check since the last boot. -/
def Current : Prop := s.device.bootCheckCompleted = true → s.checked = true

/-- When a boot is announced, the mode is not the manual one, or the preference is false anyway. -/
def Resets : SystemEvent → Prop
  | .receive .bootCompleted _ =>
      s.device.frequency = some UPDATE_FREQ_NONE → s.device.bootCheckCompleted = false
  | _ => True

instance : DecidablePred s.Resets
  | .receive .bootCompleted _ => inferInstanceAs (Decidable (_ = _ → _ = _))
  | .receive .empty _ | .receive .installUpdate _ | .receive .downloadUpdate _
  | .receive (.connectivity _) _ | .receive .other _ | .reboot | .preferenceChange .. | .alarm _
  | .appStart _ | .refreshUpdates _ | .complete .. | .restart | .destroy | .killed =>
      .isTrue trivial

/-- There is at most one request, and it is for the check its service was last asked for. -/
structure Single : Prop where
  length : s.service.requests.length ≤ 1
  action : ∀ r ∈ s.service.requests,
    r.action ≠ .CANCEL_CHECK ∧ s.service.mAction r.service = some r.action

end System

/-! ## The receiver -/

section Receiver

variable {d d' : Device} {name : String} {v : Value}

/-- The flag depends on its own preference only. -/
theorem boot_check_completed_congr
    (h : d'.preferences BOOT_CHECK_COMPLETED = d.preferences BOOT_CHECK_COMPLETED) :
    d'.bootCheckCompleted = d.bootCheckCompleted :=
  congrArg (decodeBoolean false) h

/-- The flag that was stored last is read. -/
theorem boot_check_completed_store (b : Bool) :
    (d.store BOOT_CHECK_COMPLETED (.boolean b)).bootCheckCompleted = b := by
  rw [Device.bootCheckCompleted, Preferences.getBoolean, preferences_store]
  cases b <;> rfl

/-- Setting the alarm leaves the preferences alone. -/
theorem schedule_preferences {updateFreq : Int32}
    (h : d.scheduleUpdateService updateFreq = some d') : d'.preferences = d.preferences := by
  obtain ⟨lastCheck, -, hset⟩ := Option.bind_eq_some_iff.1 h
  replace hset : some (if _ then _ else _) = _ := hset
  split at hset <;> cases hset <;> rfl

/-- So does the check of the alarm. -/
theorem check_preferences {f : Int32} {starts : Bool} (h : d.check f = some (d', starts)) :
    d'.preferences = d.preferences := by
  unfold Device.check at h
  split at h
  · cases h
    rfl
  · split at h
    · obtain ⟨e, hschedule, heq⟩ := Option.map_eq_some_iff.1 h
      cases heq
      exact schedule_preferences hschedule
    · cases h
      rfl

/-- The announcement of a boot resets the preference, except in the manual mode. -/
theorem receive_boot {starts : Bool} (h : d.onReceive .bootCompleted = some (d', starts)) :
    d'.bootCheckCompleted =
      if d.frequency = some UPDATE_FREQ_NONE then d.bootCheckCompleted else false := by
  obtain ⟨f, hf, hrest⟩ := Option.bind_eq_some_iff.1 h
  replace hrest : (if f = UPDATE_FREQ_NONE then _ else _) = _ := hrest
  rw [hf]
  split at hrest
  · rename_i hnone
    cases hrest
    rw [if_pos (congrArg some hnone)]
  · rename_i hnone
    rw [if_neg fun heq => hnone (Option.some.inj heq),
      boot_check_completed_congr (congrFun (check_preferences hrest) _)]
    exact boot_check_completed_store false

/-- The other broadcasts leave the preference alone. -/
theorem receive_other {b : Broadcast} (hb : b ≠ .bootCompleted) {starts : Bool}
    (h : d.onReceive b = some (d', starts)) : d'.bootCheckCompleted = d.bootCheckCompleted := by
  cases b with
  | bootCompleted => exact absurd rfl hb
  | empty | installUpdate | downloadUpdate =>
      cases h
      rfl
  | connectivity noConnectivity =>
      obtain ⟨f, -, hrest⟩ := Option.bind_eq_some_iff.1 h
      replace hrest : (if f = UPDATE_FREQ_NONE ∨ noConnectivity then _ else _) = _ := hrest
      split at hrest
      · cases hrest
        rfl
      · exact boot_check_completed_congr (congrFun (check_preferences hrest) _)
  | other =>
      obtain ⟨f, -, hrest⟩ := Option.bind_eq_some_iff.1 h
      replace hrest : (if f = UPDATE_FREQ_NONE then _ else _) = _ := hrest
      split at hrest
      · cases hrest
        rfl
      · exact boot_check_completed_congr (congrFun (check_preferences hrest) _)

/-- A change of a preference by the user does not reach the flag. -/
theorem preference_change_flag {preference : Preference} {o : NewValue}
    (h : d.onPreferenceChange o preference = some d') :
    d'.bootCheckCompleted = d.bootCheckCompleted := by
  rcases preference_change_cases h with ⟨-, f, -, hschedule⟩ | ⟨-, name, v, -, -, hboot, rfl⟩
  · refine boot_check_completed_congr ?_
    rw [schedule_preferences hschedule]
    exact preferences_store_of_ne (by decide)
  · exact boot_check_completed_congr (preferences_store_of_ne hboot)

end Receiver

/-! ## The service -/

section Service

variable {s s' : System} {env : Environment} {mAction : Option Action}

/-- Notifications store nothing. -/
theorem foldl_notify (p : Preferences) (ns : List Notification) :
    (ns.map .notify).foldl Effect.apply p = p := by
  induction ns with
  | nil => rfl
  | cons n ns ih => exact ih

/-- What a result does to the preferences. -/
theorem foldl_on_completed (p : Preferences) (result : List UpdateInfo) :
    (env.onCompleted mAction (some result)).foldl Effect.apply p =
      if mAction = some .CHECK_UI then p
      else (p.setString LAST_UPDATE_CHECK_PREF (toString env.getTime)).setBoolean
        BOOT_CHECK_COMPLETED true := by
  unfold Environment.onCompleted
  by_cases hui : mAction = some .CHECK_UI
  · simp [hui, Effect.apply]
  · simp only [if_neg hui, List.foldl_cons, List.foldl_append, foldl_notify]
    rfl

/-- Starting a check changes neither the device nor what counts as checked. -/
theorem start_check_cases {action : Action} {isOnline : Bool} (haction : action ≠ .CANCEL_CHECK)
    (h : s.startCheck action isOnline = some s') :
    s'.device = s.device ∧ s'.checked = s.checked ∧ s'.Single := by
  unfold System.startCheck at h
  split at h
  · rename_i hidle
    obtain ⟨service, hstep, rfl⟩ := Option.map_eq_some_iff.1 h
    refine ⟨rfl, rfl, ?_⟩
    have hcreated : s.service.onCreate.requests = [] := by
      unfold State.onCreate
      split <;> exact hidle
    have hcancel : ∀ t : State, t.cancel (some action) = t := fun t => by
      cases action with
      | CANCEL_CHECK => exact absurd rfl haction
      | CHECK | CHECK_UI => rfl
    rw [Check.step, hcancel, Option.some_inj] at hstep
    subst hstep
    unfold State.onStartCommand
    dsimp only
    split
    · -- offline: nothing is asked for
      refine ⟨?_, fun r hr => ?_⟩
      · show s.service.onCreate.requests.length ≤ 1
        rw [hcreated]
        exact Nat.zero_le 1
      · replace hr : r ∈ s.service.onCreate.requests := hr
        rw [hcreated] at hr
        cases hr
    · refine ⟨?_, fun r hr => ?_⟩
      · show (s.service.onCreate.requests ++ [_]).length ≤ 1
        rw [hcreated]
        exact Nat.le_refl 1
      · replace hr : r ∈ s.service.onCreate.requests ++ [_] := hr
        rw [hcreated, List.nil_append, List.mem_singleton] at hr
        subst hr
        exact ⟨haction, Function.update_self ..⟩
  · cases h

/-- The alarm, the start of the app and the user do nothing but start a check. -/
theorem asked_cases {e : SystemEvent} (isOnline : Bool)
    (he : e = .alarm isOnline ∨ e = .appStart isOnline ∨ e = .refreshUpdates isOnline)
    (hstep : s.step e = some s') :
    s' = s ∨ s'.device = s.device ∧ s'.checked = s.checked ∧ s'.Single := by
  rcases he with rfl | rfl | rfl
  · rw [System.step] at hstep
    split at hstep
    · cases hstep
    · exact .inr (start_check_cases Action.noConfusion hstep)
  · obtain ⟨f, -, hrest⟩ := Option.bind_eq_some_iff.1 hstep
    replace hrest : (if f = UPDATE_FREQ_AT_APP_START then _ else _) = _ := hrest
    split at hrest
    · exact .inr (start_check_cases Action.noConfusion hrest)
    · cases hrest
      exact .inl rfl
  · exact .inr (start_check_cases Action.noConfusion hstep)

/-- The completion of the check under way. -/
theorem complete_cases {result : Option (List UpdateInfo)} (hsingle : s.Single)
    (h : s.step (.complete result env) = some s') :
    ∃ r : Request, r.action ≠ .CANCEL_CHECK ∧ s'.service.requests = [] ∧
      s'.device.preferences =
        (env.onCompleted (some r.action) result).foldl Effect.apply s.device.preferences ∧
      s'.checked = (s.checked || (r.action = .CHECK && result.isSome)) := by
  obtain ⟨r, hhead, hrest⟩ := Option.bind_eq_some_iff.1 h
  obtain ⟨service, hstep, hset⟩ := Option.bind_eq_some_iff.1 hrest
  cases hset
  obtain ⟨others, hrequests⟩ := List.head?_eq_some_iff.1 hhead
  have hothers : others = [] := by
    have hlength := hsingle.length
    rw [hrequests, List.length_cons] at hlength
    exact List.eq_nil_of_length_eq_zero (by omega)
  rw [hothers] at hrequests
  obtain ⟨hkind, haction⟩ := hsingle.action r (by rw [hrequests]; exact List.mem_singleton_self r)
  obtain ⟨r', hr', rfl⟩ := Option.map_eq_some_iff.1 hstep
  rw [hrequests] at hr'
  cases hr'
  refine ⟨r, hkind, ?_, ?_, rfl⟩
  · show s.service.requests.eraseIdx 0 = []
    rw [hrequests]
    rfl
  · show ((s.service.effects ++ env.onCompleted (s.service.mAction r.service) result).drop
      s.service.effects.length).foldl Effect.apply s.device.preferences = _
    rw [List.drop_left, haction]

end Service

/-! ## Steps -/

section Steps

variable {s s' : System} {e : SystemEvent}

/-- The service goes on without a request. -/
theorem System.Single.of_nil {device : Device} {service : State} {checked : Bool}
    (h : service.requests = []) : System.Single ⟨device, service, checked⟩ :=
  ⟨by rw [h]; exact Nat.zero_le 1, fun r hr => by rw [h] at hr; cases hr⟩

/-- There is never more than one request at a time. -/
theorem step_single (h : s.Single) (hstep : s.step e = some s') : s'.Single := by
  cases e with
  | reboot | killed =>
      cases hstep
      exact .of_nil rfl
  | receive b isOnline =>
      obtain ⟨⟨device, starts⟩, -, hrest⟩ := Option.bind_eq_some_iff.1 hstep
      replace hrest : (if starts then _ else _) = _ := hrest
      split at hrest
      · exact (start_check_cases Action.noConfusion hrest).2.2
      · cases hrest
        exact ⟨h.length, h.action⟩
  | preferenceChange preference o =>
      obtain ⟨device, -, rfl⟩ := Option.map_eq_some_iff.1 hstep
      exact ⟨h.length, h.action⟩
  | alarm isOnline | appStart isOnline | refreshUpdates isOnline =>
      rcases asked_cases isOnline (by simp) hstep with rfl | ⟨-, -, hsingle⟩
      · exact h
      · exact hsingle
  | complete result env =>
      obtain ⟨r, -, hnone, -, -⟩ := complete_cases h hstep
      exact .of_nil hnone
  | restart =>
      cases hstep
      have hrequests : s.service.onCreate.requests = s.service.requests := by
        unfold State.onCreate
        split <;> rfl
      have hactions : s.service.onCreate.mAction = s.service.mAction := by
        unfold State.onCreate
        split <;> rfl
      refine ⟨?_, fun r hr => ?_⟩
      · show s.service.onCreate.requests.length ≤ 1
        rw [hrequests]
        exact h.length
      · replace hr : r ∈ s.service.onCreate.requests := hr
        rw [hrequests] at hr
        show r.action ≠ _ ∧ s.service.onCreate.mAction r.service = _
        rw [hactions]
        exact h.action r hr
  | destroy =>
      obtain ⟨service, hdestroy, rfl⟩ := Option.map_eq_some_iff.1 hstep
      rw [Check.step] at hdestroy
      split at hdestroy
      · cases hdestroy
        exact ⟨h.length, h.action⟩
      · cases hdestroy

/-- A step that changes neither the preference nor the memory of the checks. -/
theorem current_congr (hflag : s'.device.bootCheckCompleted = s.device.bootCheckCompleted)
    (hchecked : s'.checked = s.checked) : s'.Current ↔ s.Current := by
  unfold System.Current
  rw [hflag, hchecked]

/-- The announcement of a boot, with or without a check that it starts. -/
theorem receive_current_iff (hcurrent : s.Current) {b : Broadcast} {isOnline : Bool}
    (hstep : s.step (.receive b isOnline) = some s') :
    s'.Current ↔ s.Resets (.receive b isOnline) := by
  obtain ⟨⟨device, starts⟩, hreceive, hrest⟩ := Option.bind_eq_some_iff.1 hstep
  replace hrest : (if starts then _ else _) = _ := hrest
  have hset : s'.device = device ∧ s'.checked = (s.checked && b != .bootCompleted) := by
    split at hrest
    · obtain ⟨hdevice, hchecked, -⟩ := start_check_cases Action.noConfusion hrest
      exact ⟨hdevice, hchecked⟩
    · cases hrest
      exact ⟨rfl, rfl⟩
  obtain ⟨hdevice, hchecked⟩ := hset
  by_cases hboot : b = .bootCompleted
  · subst hboot
    have hunchecked : s'.checked = false := by simp [hchecked]
    show (s'.device.bootCheckCompleted = true → s'.checked = true) ↔
      (s.device.frequency = some UPDATE_FREQ_NONE → s.device.bootCheckCompleted = false)
    rw [hdevice, receive_boot hreceive, hunchecked]
    by_cases hnone : s.device.frequency = some UPDATE_FREQ_NONE <;> simp [hnone]
  · have hsame : s'.checked = s.checked := by simp [hchecked, hboot]
    have hresets : s.Resets (.receive b isOnline) := by
      cases b with
      | bootCompleted => exact absurd rfl hboot
      | empty | installUpdate | downloadUpdate | connectivity | other => trivial
    refine iff_of_true ((current_congr ?_ hsame).2 hcurrent) hresets
    rw [hdevice]
    exact receive_other hboot hreceive

/-- The completion of a check keeps the flag in step with it. -/
theorem complete_current (hsingle : s.Single) (hcurrent : s.Current)
    {result : Option (List UpdateInfo)} {env : Environment}
    (hstep : s.step (.complete result env) = some s') : s'.Current := by
  obtain ⟨r, hkind, -, hpreferences, hchecked⟩ := complete_cases hsingle hstep
  intro hflag
  have hkept : s'.device.preferences = s.device.preferences → s'.checked = true := fun hsame => by
    rw [boot_check_completed_congr (congrFun hsame _)] at hflag
    rw [hchecked, hcurrent hflag]
    rfl
  cases result with
  | none => exact hkept hpreferences
  | some result =>
      rw [foldl_on_completed] at hpreferences
      split at hpreferences
      · exact hkept hpreferences
      · rename_i hui
        have hcheck : r.action = .CHECK := by
          cases haction : r.action with
          | CHECK => rfl
          | CHECK_UI => exact absurd (congrArg some haction) hui
          | CANCEL_CHECK => exact absurd haction hkind
        rw [hchecked, hcheck]
        exact Bool.or_true _

/-- The flag stays in step exactly if the event resets it when it has to. -/
theorem step_current_iff (hsingle : s.Single) (hcurrent : s.Current)
    (hstep : s.step e = some s') : s'.Current ↔ s.Resets e := by
  cases e with
  | receive b isOnline => exact receive_current_iff hcurrent hstep
  | complete result env =>
      exact iff_of_true (complete_current hsingle hcurrent hstep) trivial
  | reboot | restart | killed =>
      cases hstep
      exact iff_of_true hcurrent trivial
  | preferenceChange preference o =>
      obtain ⟨device, hchange, rfl⟩ := Option.map_eq_some_iff.1 hstep
      have hsame : System.Current { s with device } ↔ s.Current :=
        current_congr (preference_change_flag hchange) rfl
      exact iff_of_true (hsame.2 hcurrent) trivial
  | alarm isOnline | appStart isOnline | refreshUpdates isOnline =>
      rcases asked_cases isOnline (by simp) hstep with rfl | ⟨hdevice, hchecked, -⟩
      · exact iff_of_true hcurrent trivial
      · exact iff_of_true ((current_congr (by rw [hdevice]) hchecked).2 hcurrent) trivial
  | destroy =>
      obtain ⟨service, -, rfl⟩ := Option.map_eq_some_iff.1 hstep
      exact iff_of_true hcurrent trivial

/-- As long as the preference is true only after a check, the connection that a device in the boot
mode gets after an unchecked boot starts one. -/
theorem current_starts_check (hcurrent : s.Current) (hunchecked : s.checked = false)
    (hmode : s.device.frequency = some UPDATE_FREQ_AT_BOOT) :
    s.device.onReceive (.connectivity false) = some (s.device, true) := by
  have hflag : s.device.bootCheckCompleted = false := by
    by_contra h
    rw [hcurrent (by simpa using h)] at hunchecked
    cases hunchecked
  rw [Device.onReceive, hmode]
  show some (s.device, !s.device.bootCheckCompleted) = _
  rw [hflag]
  rfl

end Steps

/-! ## Runs -/

/-- In every run of a device, `BOOT_CHECK_COMPLETED` is true only if a background check has
completed since the last boot exactly if no boot is announced in the manual mode while it is true.
-/
theorem boot_check_iff {preferences : Preferences} {s : System} {es : List SystemEvent}
    (hflag : (System.start preferences).device.bootCheckCompleted = false)
    (hrun : run System.step (.start preferences) es = some s) :
    Throughout System.step System.Current (.start preferences) es ↔
      Along System.step System.Resets (.start preferences) es := by
  refine throughout_iff_along step_single step_current_iff (.of_nil rfl) (fun h => ?_) hrun
  rw [hflag] at h
  cases h

/-- In the boot mode, the second boot resets the preference. -/
theorem boot_check_each_boot :
    Throughout System.step System.Current (.start fun _ => none)
      [.preferenceChange .mUpdateCheck (.string "-3"), .receive .bootCompleted false,
        .receive (.connectivity false) true, .complete (some []) oldBuild, .reboot,
        .receive .bootCompleted true] :=
  have hrun : run System.step (.start fun _ => none)
      [.preferenceChange .mUpdateCheck (.string "-3"), .receive .bootCompleted false,
        .receive (.connectivity false) true, .complete (some []) oldBuild, .reboot,
        .receive .bootCompleted true] = some _ := rfl
  (boot_check_iff rfl hrun).2 (by decide)

/-- A boot in the manual mode leaves the preference of the boot before, so that in the boot mode no
check is started. -/
theorem manual_boot_keeps_flag :
    ∃ s, run System.step (.start fun _ => none)
      [.receive .bootCompleted true, .alarm true, .complete (some []) oldBuild,
        .preferenceChange .mUpdateCheck (.string "-1"), .reboot, .receive .bootCompleted true,
        .preferenceChange .mUpdateCheck (.string "-3")] = some s ∧
      ¬ s.Current ∧ s.device.onReceive (.connectivity false) = some (s.device, false) := by
  refine ⟨_, rfl, fun h => ?_, rfl⟩
  cases h rfl

end NamelessCenter.Check
