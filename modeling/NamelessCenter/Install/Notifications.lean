import NamelessCenter.Install.Installer

/-!
# The action of the notifications

Every download that completes shows a notification whose action installs the update. The pending
intents of these actions are the same for the system, which keeps one of them: a download replaces
the file that the actions of the earlier notifications install, and a tap on one of them disables
the others. The machine below has the completed downloads and the taps, and records what a tap
does. The taps of a run all install the update of their notification exactly if each comes while
its download is the last one (`taps_right_iff`).
-/

namespace NamelessCenter.Install

open Items

/-- A notification of a completed download, and whether its action was used. -/
structure Shown where
  updateInfo : UpdateInfo
  notification : Notification
  tapped : Bool
  deriving DecidableEq, Repr

/-- A tap on the action of an update's notification, and what is recorded of it. -/
structure Tap where
  updateInfo : UpdateInfo
  actions : List Action
  deriving DecidableEq, Repr

/-- The tap calls `triggerUpdate` with the update's file. -/
def Tap.Right (t : Tap) : Prop := t.actions = [.triggered t.updateInfo.getZipName]

instance : DecidablePred Tap.Right := fun _ => inferInstanceAs (Decidable (_ = _))

/-- The installer with the notifications that it has shown and the taps on them. -/
structure Session where
  system : State
  /-- The notifications in the order in which they were shown. -/
  shown : List Shown
  taps : List Tap
  /-- How many notifications had been shown when an action was last tapped. -/
  lastTap : Nat

/-- A new process that has shown no notification. -/
def Session.init (files : String → Contents) : Session := ⟨.init files, [], [], 0⟩

/-- A download completes, or the user taps a notification. -/
inductive SessionEvent where
  /-- A download completes. -/
  | complete (updateInfo : UpdateInfo) (id : Int)
  /-- The action of a notification is tapped; `triggerUpdate` may throw. -/
  | tap (n : Nat) (throws : Bool)
  deriving DecidableEq, Repr

/-- The broadcasts that have been sent are delivered. -/
def State.deliver (s : State) (throws : Bool) : State :=
  s.broadcasts.foldl (fun t broadcast => t.onReceive throws broadcast) { s with broadcasts := [] }

namespace Session

variable (s : Session)

/-- A completed download shows its notification. -/
def complete (updateInfo : UpdateInfo) (id : Int) : Session :=
  { s with
    system := s.system.onCompleted updateInfo id
    shown := s.shown ++
      [⟨updateInfo, ⟨id, (s.system.getBroadcast ⟨updateInfo.getZipName, some id⟩).2⟩, false⟩] }

/-- A tap sends the intent of the notification. -/
def tap (n : Nat) (shown : Shown) (throws : Bool) : Session :=
  let system := (s.system.send shown.notification.installPi).deliver throws
  { system := system
    shown := s.shown.set n { shown with tapped := true }
    taps := s.taps ++ [⟨shown.updateInfo, system.log.drop s.system.log.length⟩]
    lastTap := s.shown.length }

/-- A notification can be tapped once, as long as it is shown. -/
def step : SessionEvent → Option Session
  | .complete updateInfo id => if s.system.rebooted then none else some (s.complete updateInfo id)
  | .tap n throws =>
      if s.system.rebooted then none
      else
        match s.shown[n]? with
        | none => none
        | some shown =>
            if shown.tapped ∨ shown.notification ∉ s.system.notifications then none
            else some (s.tap n shown throws)

/-- No action has been tapped since the notification was shown, and the download that completed
last has the same file. -/
def IsLatest : SessionEvent → Prop
  | .complete .. => True
  | .tap n _ => s.lastTap ≤ n ∧ ∀ shown ∈ s.shown[n]?, ∀ last ∈ s.shown.getLast?,
      last.updateInfo.getZipName = shown.updateInfo.getZipName

instance : DecidablePred s.IsLatest
  | .complete .. => .isTrue trivial
  | .tap .. => inferInstanceAs (Decidable (_ ∧ _))

/-- The pending intent of the system is that of the notifications since the last tap, and installs
the last of them. The pending intents of the others have been used up. -/
structure Inv (s : Session) : Prop where
  quiet : s.system.broadcasts = []
  lastTap_le : s.lastTap ≤ s.shown.length
  bound : ∀ (n : Nat), ∀ shown ∈ s.shown[n]?,
    shown.notification.installPi < s.system.nextPendingIntent
  current : ∀ pi, s.system.installPi = some pi → pi < s.system.nextPendingIntent
  used : ∀ n, n < s.lastTap → ∀ shown ∈ s.shown[n]?,
    s.system.pendingIntents shown.notification.installPi = none
  live : ∀ n, s.lastTap ≤ n → ∀ shown ∈ s.shown[n]?,
    s.system.installPi = some shown.notification.installPi
  intent : ∀ pi, s.system.installPi = some pi → ∃ last ∈ s.shown.getLast?, ∃ id,
    s.system.pendingIntents pi = some ⟨last.updateInfo.getZipName, id⟩

end Session

/-! ## Steps -/

namespace State

variable {s : State}

/-- A completed download takes the pending intent of the system, or a new one if there is none. -/
theorem on_completed_spec (info : UpdateInfo) (id : Int) :
    let t := s.onCompleted info id
    let pi := (s.getBroadcast ⟨info.getZipName, some id⟩).2
    t.installPi = some pi ∧ t.broadcasts = s.broadcasts ∧
      t.pendingIntents = Function.update s.pendingIntents pi (some ⟨info.getZipName, some id⟩) ∧
        (s.installPi = some pi ∧ t.nextPendingIntent = s.nextPendingIntent ∨
          s.installPi = none ∧ pi = s.nextPendingIntent ∧ t.nextPendingIntent = pi + 1) := by
  unfold onCompleted getBroadcast
  cases hpi : s.installPi with
  | none => exact ⟨rfl, rfl, rfl, .inr ⟨rfl, rfl, rfl⟩⟩
  | some pi => exact ⟨rfl, rfl, rfl, .inl ⟨rfl, rfl⟩⟩

/-- A pending intent that was used up does nothing. -/
theorem deliver_send_of_none {pi : Nat} (hpi : s.pendingIntents pi = none)
    (hquiet : s.broadcasts = []) (throws : Bool) : (s.send pi).deliver throws = s := by
  rw [send, hpi, deliver, hquiet]
  cases s
  cases hquiet
  rfl

/-- The pending intent of the system installs its file, and is used up. -/
theorem deliver_send_of_some {pi : Nat} {intent : InstallIntent}
    (hpi : s.pendingIntents pi = some intent) (hinstall : s.installPi = some pi)
    (hquiet : s.broadcasts = []) (throws : Bool) :
    let t := (s.send pi).deliver throws
    t.log = s.log ++ [.triggered intent.EXTRA_FILE] ∧ t.installPi = none ∧ t.broadcasts = [] ∧
      t.pendingIntents = Function.update s.pendingIntents pi none ∧
        t.nextPendingIntent = s.nextPendingIntent := by
  simp only [send, hpi, deliver, hquiet, hinstall, List.nil_append, List.foldl_cons, List.foldl_nil,
    onReceive, triggerUpdate, if_true]
  split <;> exact ⟨rfl, rfl, rfl, rfl, rfl⟩

end State

namespace Session

variable {s s' : Session}

/-- A notification that is shown behind a completed download was shown before, or it is the new
one. -/
theorem mem_shown_complete (s : Session) (info : UpdateInfo) (id : Int) (n : Nat) (shown : Shown)
    (hmem : shown ∈ (s.complete info id).shown[n]?) :
    shown ∈ s.shown[n]? ∨ n = s.shown.length ∧
      shown = ⟨info, ⟨id, (s.system.getBroadcast ⟨info.getZipName, some id⟩).2⟩, false⟩ := by
  rw [Session.complete, List.getElem?_append] at hmem
  split at hmem
  · exact .inl hmem
  · rename_i hge
    rw [List.getElem?_singleton] at hmem
    split at hmem
    · cases hmem
      exact .inr ⟨by omega, rfl⟩
    · cases hmem

/-- The pending intent of a new notification is one that has been given out. -/
theorem Inv.get_broadcast_lt (h : s.Inv) (info : UpdateInfo) (id : Int) :
    (s.system.getBroadcast ⟨info.getZipName, some id⟩).2 <
      (s.system.onCompleted info id).nextPendingIntent := by
  obtain ⟨-, -, -, ⟨hsome, heq⟩ | ⟨-, -, heq⟩⟩ := State.on_completed_spec (s := s.system) info id
  · rw [heq]
    exact h.current _ hsome
  · omega

/-- A notification shown before the last tap has another pending intent than a new one. -/
theorem Inv.used_ne (h : s.Inv) (info : UpdateInfo) (id : Int) (n : Nat) (shown : Shown)
    (hn : n < s.lastTap) (hbefore : shown ∈ s.shown[n]?) :
    shown.notification.installPi ≠ (s.system.getBroadcast ⟨info.getZipName, some id⟩).2 := by
  obtain ⟨-, -, -, hnext⟩ := State.on_completed_spec (s := s.system) info id
  intro heq
  rw [← heq] at hnext
  -- the pending intent in use has an intent, and a new one was not given out before
  rcases hnext with ⟨hsome, -⟩ | ⟨-, hfresh, -⟩
  · obtain ⟨last, -, _, hpending⟩ := h.intent _ hsome
    rw [h.used n hn shown hbefore] at hpending
    cases hpending
  · exact absurd (h.bound n shown hbefore) (by omega)

/-- A completed download keeps the invariant. -/
theorem Inv.complete (h : s.Inv) (info : UpdateInfo) (id : Int) : (s.complete info id).Inv := by
  obtain ⟨hinstall, hbroadcasts, hpending, hnext⟩ := State.on_completed_spec (s := s.system) info id
  have hold := mem_shown_complete s info id
  have hlt := h.get_broadcast_lt info id
  have hne := h.used_ne info id
  generalize hpi : (s.system.getBroadcast ⟨info.getZipName, some id⟩).2 = pi at *
  have hshown : (s.complete info id).shown = s.shown ++ [⟨info, ⟨id, pi⟩, false⟩] := by
    rw [Session.complete, hpi]
  constructor
  case quiet => exact hbroadcasts.trans h.quiet
  case lastTap_le =>
    rw [hshown, List.length_append]
    exact Nat.le_add_right_of_le h.lastTap_le
  case bound =>
    intro n shown hmem
    rcases hold n shown hmem with hbefore | ⟨-, rfl⟩
    · have hbound := h.bound n shown hbefore
      have hle : s.system.nextPendingIntent ≤ (s.system.onCompleted info id).nextPendingIntent := by
        rcases hnext with ⟨-, heq⟩ | ⟨-, hfresh, heq⟩ <;> omega
      exact Nat.lt_of_lt_of_le hbound hle
    · exact hlt
  case current =>
    intro pi' hpi'
    obtain rfl : pi = pi' := Option.some.inj (hinstall.symm.trans hpi')
    exact hlt
  case used =>
    intro n hn shown hmem
    have hbefore : shown ∈ s.shown[n]? := by
      rcases hold n shown hmem with hbefore | ⟨heq, -⟩
      · exact hbefore
      · have := h.lastTap_le
        exact absurd hn (by show ¬ n < s.lastTap; omega)
    show (s.system.onCompleted info id).pendingIntents _ = none
    rw [hpending, Function.update_of_ne (hne n shown hn hbefore), h.used n hn shown hbefore]
  case live =>
    intro n hn shown hmem
    rcases hold n shown hmem with hbefore | ⟨-, rfl⟩
    · have hlive := h.live n hn shown hbefore
      rcases hnext with ⟨hsome, -⟩ | ⟨hnone, -⟩
      · rw [hsome] at hlive
        exact hinstall.trans hlive
      · rw [hnone] at hlive
        cases hlive
    · exact hinstall
  case intent =>
    intro pi' hpi'
    obtain rfl : pi = pi' := Option.some.inj (hinstall.symm.trans hpi')
    refine ⟨⟨info, ⟨id, pi⟩, false⟩, ?_, some id, ?_⟩
    · rw [hshown]
      exact List.getLast?_concat
    · show (s.system.onCompleted info id).pendingIntents _ = _
      rw [hpending, Function.update_self]

/-- What a tap records, in a state where the pending intents are as the invariant says. -/
theorem Inv.actions (h : s.Inv) {n : Nat} {shown last : Shown} (hshown : s.shown[n]? = some shown)
    (hlast : s.shown.getLast? = some last) (throws : Bool) :
    ((s.system.send shown.notification.installPi).deliver throws).log.drop s.system.log.length =
      if s.lastTap ≤ n then [.triggered last.updateInfo.getZipName] else [] := by
  split
  · -- all notifications since the last tap share the pending intent, which names the last file
    rename_i hlive
    have hinstall := h.live n hlive shown hshown
    obtain ⟨last', hlast', id, hpending⟩ := h.intent _ hinstall
    obtain rfl : last' = last := Option.some.inj (hlast'.symm.trans hlast)
    obtain ⟨hlog, -⟩ := State.deliver_send_of_some hpending hinstall h.quiet throws
    rw [hlog, List.drop_left]
  · rename_i hused
    have hpending := h.used n (Nat.lt_of_not_le hused) shown hshown
    rw [State.deliver_send_of_none hpending h.quiet, List.drop_length]

/-- So does a tap on a notification that is still there. -/
theorem Inv.tap (h : s.Inv) {n : Nat} {shown : Shown} (hshown : s.shown[n]? = some shown)
    (hlive : s.lastTap ≤ n) (throws : Bool) : (s.tap n shown throws).Inv := by
  have hinstall := h.live n hlive shown hshown
  obtain ⟨last, hlast, id, hpending⟩ := h.intent _ hinstall
  obtain ⟨-, hnone, hbroadcasts, hpendings, hnext⟩ :=
    State.deliver_send_of_some hpending hinstall h.quiet throws
  -- a tap marks a notification and leaves its pending intent as it is
  have hold : ∀ (k : Nat) (sh : Shown), sh ∈ (s.tap n shown throws).shown[k]? →
      ∃ before ∈ s.shown[k]?, sh.notification = before.notification := by
    intro k sh hmem
    simp only [Session.tap, List.getElem?_set] at hmem
    split at hmem
    · rename_i hk
      split at hmem
      · cases hmem
        exact ⟨shown, hk ▸ hshown, rfl⟩
      · cases hmem
    · exact ⟨sh, hmem, rfl⟩
  constructor
  case quiet => exact hbroadcasts
  case lastTap_le => exact (List.length_set ..).ge
  case bound =>
    intro k sh hmem
    obtain ⟨before, hbefore, heq⟩ := hold k sh hmem
    show _ < ((s.system.send shown.notification.installPi).deliver throws).nextPendingIntent
    rw [hnext, heq]
    exact h.bound k before hbefore
  case current => exact fun pi hpi => by cases hnone.symm.trans hpi
  case used =>
    intro k hk sh hmem
    obtain ⟨before, hbefore, heq⟩ := hold k sh hmem
    show ((s.system.send shown.notification.installPi).deliver throws).pendingIntents _ = none
    rw [hpendings, heq]
    by_cases hsame : before.notification.installPi = shown.notification.installPi
    · rw [hsame, Function.update_self]
    · -- a notification with another pending intent was shown before the last tap
      rw [Function.update_of_ne hsame]
      refine h.used k (Nat.lt_of_not_le fun hle => hsame ?_) before hbefore
      exact Option.some.inj ((h.live k hle before hbefore).symm.trans hinstall)
  case live =>
    intro k hk sh hmem
    obtain ⟨before, hbefore, -⟩ := hold k sh hmem
    have hlt := (List.getElem?_eq_some_iff.1 hbefore).1
    exact absurd hk (Nat.not_le.2 hlt)
  case intent => exact fun pi hpi => by cases hnone.symm.trans hpi

/-- It holds of a new process. -/
theorem init_inv (files : String → Contents) : (init files).Inv := by
  constructor <;> simp [init, State.init]

/-- What an event can do. -/
theorem step_cases {e : SessionEvent} (hstep : s.step e = some s') :
    (∃ info id, e = .complete info id ∧ s' = s.complete info id) ∨
      ∃ n throws shown, e = .tap n throws ∧ s.shown[n]? = some shown ∧
        s' = s.tap n shown throws := by
  cases e with
  | complete info id =>
      rw [step] at hstep
      split at hstep
      · cases hstep
      · exact .inl ⟨info, id, rfl, (Option.some.inj hstep).symm⟩
  | tap n throws =>
      simp only [step] at hstep
      split at hstep
      · cases hstep
      · split at hstep
        · cases hstep
        · rename_i shown hshown
          split at hstep
          · cases hstep
          · exact .inr ⟨n, throws, shown, rfl, hshown, (Option.some.inj hstep).symm⟩

/-- The taps so far did what they should. -/
def TapsRight (s : Session) : Prop := ∀ t ∈ s.taps, t.Right

/-- It is kept as long as the latest notification is tapped. -/
theorem step_inv {e : SessionEvent} (h : s.Inv) (hlatest : s.IsLatest e)
    (hstep : s.step e = some s') : s'.Inv := by
  obtain ⟨info, id, rfl, rfl⟩ | ⟨n, throws, shown, rfl, hshown, rfl⟩ := step_cases hstep
  · exact h.complete info id
  · exact h.tap hshown hlatest.1 throws

/-- The taps go on to open their own update exactly if they are on the latest notification. -/
theorem step_taps_right_iff {e : SessionEvent} (h : s.Inv) (hstep : s.step e = some s') :
    s'.TapsRight ↔ s.TapsRight ∧ s.IsLatest e := by
  obtain ⟨info, id, rfl, rfl⟩ | ⟨n, throws, shown, rfl, hshown, rfl⟩ := step_cases hstep
  · exact (and_iff_left trivial).symm
  · obtain ⟨last, hlast⟩ : ∃ last, s.shown.getLast? = some last := by
      refine Option.isSome_iff_exists.1 (List.getLast?_isSome.2 fun hnil => ?_)
      rw [hnil] at hshown
      cases hshown
    have hactions := h.actions hshown hlast throws
    rw [TapsRight, tap, List.forall_mem_append, List.forall_mem_singleton, Tap.Right, hactions]
    refine and_congr_right fun _ => ?_
    simp only [IsLatest, hshown, hlast, Option.mem_def, Option.some.injEq, forall_eq']
    split <;> simp [*]

/-- If the taps were right behind a step, they were before it. -/
theorem taps_right_of_step {e : SessionEvent} (hstep : s.step e = some s') (h : s'.TapsRight) :
    s.TapsRight := by
  obtain ⟨info, id, rfl, rfl⟩ | ⟨n, throws, shown, rfl, hshown, rfl⟩ := step_cases hstep
  · exact h
  · exact fun t ht => h t (List.mem_append_left _ ht)

/-- In every run of completed downloads and taps, each tap calls `triggerUpdate` with the file of
its own notification exactly if, at each tap, no action has been tapped since the notification was
shown and the download that completed last has the same file. -/
theorem taps_right_iff {files : String → Contents} {es : List SessionEvent} {s : Session}
    (hrun : Machine.run step (init files) es = some s) :
    (∀ t ∈ s.taps, t.Right) ↔ Machine.Along step IsLatest (init files) es := by
  -- the pending intents are as they should be as long as the taps do what they should
  have hright := Machine.run_iff_along (I := TapsRight) (J := fun s => s.TapsRight → s.Inv)
    (P := IsLatest) ?_ ?_ (fun _ => init_inv files) hrun
  · rw [TapsRight] at hright
    rw [hright]
    exact and_iff_right fun t ht => by cases ht
  · intro s e s' h hstep hright'
    have hright := taps_right_of_step hstep hright'
    have hinv := h hright
    exact step_inv hinv ((step_taps_right_iff hinv hstep).1 hright').2 hstep
  · intro s e s' h hstep
    constructor
    · intro hright'
      exact (step_taps_right_iff (h (taps_right_of_step hstep hright')) hstep).1 hright'
    · intro hboth
      exact (step_taps_right_iff (h hboth.1) hstep).2 hboth

/-- One download is installed, and its recovery script cannot be written, and then another one. -/
theorem taps_right_alternating :
    ∃ s, Machine.run step (init fun _ => none) [.complete emptyUpdate 7, .tap 0 true,
      .complete { emptyUpdate with mName := "weekly" } 8, .tap 1 false] = some s ∧
        ∀ t ∈ s.taps, t.Right :=
  have hrun : Machine.run step (init fun _ => none) [.complete emptyUpdate 7, .tap 0 true,
      .complete { emptyUpdate with mName := "weekly" } 8, .tap 1 false] = some _ := rfl
  ⟨_, hrun, (taps_right_iff hrun).2 (by decide)⟩

/-- Two downloads have completed; the action of the first notification installs the second one. -/
theorem tap_installs_other_update :
    ∃ s, Machine.run step (init fun _ => none) [.complete emptyUpdate 7,
      .complete { emptyUpdate with mName := "weekly" } 8, .tap 0 false] = some s ∧
        ¬ ∀ t ∈ s.taps, t.Right :=
  ⟨_, rfl, by decide⟩

end Session

end NamelessCenter.Install
