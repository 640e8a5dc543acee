import Mathlib.Logic.Function.Basic
import NamelessCenter.Lib.Machine
import NamelessCenter.Lib.Trace
import NamelessCenter.Items.UpdateInfo
import NamelessCenter.Install.MD5

/-!
# Installing an update

Two ways lead to `UpdateHelper.triggerUpdate`: the dialog of a card's `InstallTask`, and the
action of the notification that a finished download shows. Both send the broadcast
`ACTION_INSTALL_UPDATE` to `UpdateCheckReceiver`, which installs the file it names. The machine
below has the files of the update folder, the downloads that write them, the cards, the tasks, the
notifications with their pending intents and the broadcasts that have been sent, and records
writes, checks and installations. An installation follows a check of the file that has not been
written since, as long as the broadcasts come from the dialogs and the downloads leave the checked
files alone (`trigger_update_checked`).
-/

namespace NamelessCenter.Install

open Items Bytes Trace

/-- The extras of an `ACTION_INSTALL_UPDATE` intent. -/
structure InstallIntent where
  EXTRA_FILE : String
  EXTRA_ID : Option Int
  deriving DecidableEq, Repr

/-- The broadcasts that `UpdateCheckReceiver` treats here; its other actions check for updates. -/
inductive Broadcast where
  | installUpdate (intent : InstallIntent)
  | downloadUpdate (info : UpdateInfo)
  deriving DecidableEq, Repr

/-- An `InstallTask` of a card, before its check and with the dialog it shows behind it. -/
inductive InstallTask where
  | checking (updateInfo : UpdateInfo)
  | dialog (updateInfo : UpdateInfo) (result : Bool)
  deriving DecidableEq, Repr

/-- The notification behind a completed download, with the update of its intent. -/
structure Notification where
  NOTIFICATION_ID : Int
  /-- The pending intent of the action. -/
  installPi : Nat
  deriving DecidableEq, Repr

/-- What is recorded of a run. -/
inductive Action where
  /-- A write to the file with this name. -/
  | wrote (file : String)
  /-- `MD5.checkMD5` of the update's file against the update's checksum has returned. -/
  | checked (updateInfo : UpdateInfo) (result : Bool)
  /-- `triggerUpdate(file)` is executed. -/
  | triggered (file : String)
  deriving DecidableEq, Repr

/-- What the download receiver and its dialogs work on, and what they have done. -/
structure State where
  /-- The update folder. -/
  files : String → Contents
  /-- The downloads that Ion writes. -/
  transfers : List UpdateInfo
  cards : List UpdateInfo
  tasks : List InstallTask
  /-- The pending intents of the system; one that was sent or cancelled is gone. -/
  pendingIntents : Nat → Option InstallIntent
  nextPendingIntent : Nat
  /-- The pending intent for request code 0 and the action of `installIntent`. -/
  installPi : Option Nat
  notifications : List Notification
  broadcasts : List Broadcast
  log : List Action
  rebooted : Bool

/-- A new process with the files of the update folder. -/
def State.init (files : String → Contents) : State where
  files := files
  transfers := []
  cards := []
  tasks := []
  pendingIntents := fun _ => none
  nextPendingIntent := 0
  installPi := none
  notifications := []
  broadcasts := []
  log := []
  rebooted := false

namespace State

variable (s : State)

/-- `PendingIntent.getBroadcast(context, 0, installIntent, FLAG_ONE_SHOT | FLAG_UPDATE_CURRENT)`.
Extras do not distinguish pending intents, so an existing one gets the new extras. -/
def getBroadcast (intent : InstallIntent) : State × Nat :=
  match s.installPi with
  | some pi => ({ s with pendingIntents := Function.update s.pendingIntents pi (some intent) }, pi)
  | none =>
      let pi := s.nextPendingIntent
      ({ s with
          pendingIntents := Function.update s.pendingIntents pi (some intent)
          nextPendingIntent := pi + 1
          installPi := some pi }, pi)

/-- A pending intent is sent, which uses it up. -/
def send (pi : Nat) : State :=
  match s.pendingIntents pi with
  | none => s
  | some intent =>
      { s with
        pendingIntents := Function.update s.pendingIntents pi none
        installPi := if s.installPi = some pi then none else s.installPi
        broadcasts := s.broadcasts ++ [.installUpdate intent] }

/-- `onCompleted` without an exception: the notification with the action to install. -/
def onCompleted (updateInfo : UpdateInfo) (id : Int) : State :=
  let (t, pi) := s.getBroadcast ⟨updateInfo.getZipName, some id⟩
  { t with notifications := t.notifications ++ [⟨id, pi⟩] }

/-- The right button of a card, which cancels a download that is shown as such. Downloads end by
themselves in this machine. -/
def onClick (updateInfo : UpdateInfo) (isDownloading : Bool) : State :=
  if isDownloading then s
  else if (s.files updateInfo.getZipName).isSome then
    { s with tasks := s.tasks ++ [.checking updateInfo] }
  else { s with transfers := s.transfers ++ [updateInfo] }

/-- `UpdateHelper.triggerUpdate(file)` reboots into the recovery, unless it throws. -/
def triggerUpdate (file : String) (throws : Bool) : State :=
  { s with log := s.log ++ [.triggered file], rebooted := !throws }

/-- `UpdateCheckReceiver.onReceive`. -/
def onReceive (throws : Bool) : Broadcast → State
  | .installUpdate intent =>
      let triggered := s.triggerUpdate intent.EXTRA_FILE throws
      if throws then
        { triggered with notifications :=
            triggered.notifications.filter fun n =>
              n.NOTIFICATION_ID ≠ intent.EXTRA_ID.getD (-1000) }
      else triggered
  | .downloadUpdate info => { s with transfers := s.transfers ++ [info] }

end State

/-- What the system and the user can do. -/
inductive Event where
  /-- The cards are rebuilt from the updates of the server. -/
  | refresh (updates : List UpdateInfo)
  /-- The right button of a card. -/
  | click (card : Nat) (isDownloading : Bool)
  /-- A download writes to its file, which then has these contents. -/
  | write (transfer : Nat) (content : Bytes)
  /-- A download completes. -/
  | complete (transfer : Nat) (id : Int)
  /-- A download fails or is cancelled. -/
  | abort (transfer : Nat)
  /-- The user deletes an update. -/
  | delete (card : Nat)
  /-- An `InstallTask` checks its file. -/
  | checkMD5 (task : Nat)
  /-- The buttons of the dialog. -/
  | positive (task : Nat)
  | negative (task : Nat)
  /-- The action of a notification. -/
  | tap (notification : Nat)
  /-- Somebody else sends a broadcast to the receiver. -/
  | foreign (broadcast : Broadcast)
  /-- A broadcast is delivered. -/
  | receive (broadcast : Nat) (throws : Bool)
  /-- The process ends; what the system holds remains. -/
  | killed
  deriving DecidableEq, Repr

/-- The effect of an event, if it can happen. -/
def State.effect (digest : Bytes → Nat) (s : State) : Event → Option State
  | .refresh updates => some { s with cards := updates }
  | .click i isDownloading => s.cards[i]?.map fun info => s.onClick info isDownloading
  | .write i content =>
      s.transfers[i]?.map fun info =>
        { s with
          files := Function.update s.files info.getZipName (some content)
          log := s.log ++ [.wrote info.getZipName] }
  | .complete i id =>
      s.transfers[i]?.map fun info =>
        ({ s with transfers := s.transfers.eraseIdx i }).onCompleted info id
  | .abort i => s.transfers[i]?.map fun _ => { s with transfers := s.transfers.eraseIdx i }
  | .delete i =>
      s.cards[i]?.map fun info =>
        { s with files := Function.update s.files info.getZipName none }
  | .checkMD5 k =>
      match s.tasks[k]? with
      | some (.checking info) =>
          let result := checkMD5 digest info.mMd5 (s.files info.getZipName)
          some { s with
            tasks := s.tasks.set k (.dialog info result)
            log := s.log ++ [.checked info result] }
      | _ => none
  | .positive k =>
      -- the dialog has this button only if the check succeeded
      match s.tasks[k]? with
      | some (.dialog info true) =>
          some { s with
            tasks := s.tasks.eraseIdx k
            broadcasts := s.broadcasts ++ [.installUpdate ⟨info.getZipName, none⟩] }
      | _ => none
  | .negative k =>
      match s.tasks[k]? with
      | some (.dialog _ _) => some { s with tasks := s.tasks.eraseIdx k }
      | _ => none
  | .tap n => s.notifications[n]?.map fun notification => s.send notification.installPi
  | .foreign broadcast => some { s with broadcasts := s.broadcasts ++ [broadcast] }
  | .receive k throws =>
      s.broadcasts[k]?.map fun broadcast =>
        ({ s with broadcasts := s.broadcasts.eraseIdx k }).onReceive throws broadcast
  | .killed => some { s with tasks := [], transfers := [] }

/-- Nothing happens once the device reboots. -/
def step (digest : Bytes → Nat) (s : State) (e : Event) : Option State :=
  if s.rebooted then none else s.effect digest e

/-! ## The check before the installation -/

/-- A successful check of the file with this name. -/
def Grants (file : String) : Action → Prop
  | .checked info result => info.getZipName = file ∧ result = true
  | _ => False

/-- The file has been checked successfully and not been written since. -/
def Verified (file : String) (log : List Action) : Prop :=
  Since (Grants file) (fun a => a = .wrote file) log

/-- Whenever `triggerUpdate(file)` is executed, the file is verified. -/
def ChecksFirst (log : List Action) : Prop :=
  Guarded (fun file a => a = Action.triggered file) Grants (fun file a => a = .wrote file) log

/-- The task shows the dialog that offers to install the file. -/
def InstallTask.Offers (file : String) : InstallTask → Prop
  | .dialog info true => info.getZipName = file
  | _ => False

instance (file : String) : DecidablePred (InstallTask.Offers file)
  | .dialog info true => inferInstanceAs (Decidable (info.getZipName = file))
  | .dialog _ false | .checking _ => .isFalse id

/-- The broadcast installs the file. -/
def Broadcast.Installs (file : String) : Broadcast → Prop
  | .installUpdate intent => intent.EXTRA_FILE = file
  | .downloadUpdate _ => False

instance (file : String) : DecidablePred (Broadcast.Installs file)
  | .installUpdate intent => inferInstanceAs (Decidable (intent.EXTRA_FILE = file))
  | .downloadUpdate _ => .isFalse id

/-- A dialog offers to install the file, or a broadcast to install it is on its way. -/
def State.Outstanding (s : State) (file : String) : Prop :=
  (∃ task ∈ s.tasks, task.Offers file) ∨ ∃ broadcast ∈ s.broadcasts, broadcast.Installs file

instance (s : State) (file : String) : Decidable (s.Outstanding file) :=
  inferInstanceAs (Decidable (_ ∨ _))

/-- The event does not send `ACTION_INSTALL_UPDATE` past the dialogs, and does not write to a file
that is about to be installed. -/
def ThroughDialogs (s : State) : Event → Prop
  | .tap n => ∀ notification ∈ s.notifications[n]?, s.pendingIntents notification.installPi = none
  | .foreign (.installUpdate _) => False
  | .write i _ => ∀ info ∈ s.transfers[i]?, ¬ s.Outstanding info.getZipName
  | _ => True

/-! ## Steps -/

namespace State

variable {s s' : State}

/-- The log keeps the property, and what may be installed next is verified. -/
structure Sound (s : State) : Prop where
  log : ChecksFirst s.log
  verified : ∀ file, s.Outstanding file → Verified file s.log

/-- A step that records nothing and offers nothing new. -/
theorem Sound.mono (h : s.Sound) (hlog : s'.log = s.log)
    (htasks : ∀ task ∈ s'.tasks, ∀ file, task.Offers file → task ∈ s.tasks)
    (hbroadcasts : ∀ broadcast ∈ s'.broadcasts, ∀ file, broadcast.Installs file →
      broadcast ∈ s.broadcasts) : s'.Sound := by
  refine ⟨hlog ▸ h.log, fun file hout => hlog ▸ h.verified file ?_⟩
  rcases hout with ⟨task, hmem, hoffers⟩ | ⟨broadcast, hmem, hinstalls⟩
  · exact .inl ⟨task, htasks task hmem file hoffers, hoffers⟩
  · exact .inr ⟨broadcast, hbroadcasts broadcast hmem file hinstalls, hinstalls⟩

/-- A completed download neither installs anything nor starts a check. -/
theorem on_completed_frame (info : UpdateInfo) (id : Int) :
    (s.onCompleted info id).log = s.log ∧ (s.onCompleted info id).tasks = s.tasks ∧
      (s.onCompleted info id).broadcasts = s.broadcasts := by
  unfold onCompleted getBroadcast
  cases s.installPi <;> exact ⟨rfl, rfl, rfl⟩

/-- A write leaves the checks of other files valid. -/
theorem Sound.write (h : s.Sound) {file : String} (hfree : ¬ s.Outstanding file)
    (hlog : s'.log = s.log ++ [.wrote file]) (htasks : s'.tasks = s.tasks)
    (hbroadcasts : s'.broadcasts = s.broadcasts) : s'.Sound := by
  constructor
  case log =>
    rw [hlog]
    exact guarded_snoc.2 ⟨h.log, fun f hact => by cases hact⟩
  case verified =>
    intro f hout
    have hbefore : s.Outstanding f := by
      unfold Outstanding at hout ⊢
      rwa [htasks, hbroadcasts] at hout
    rw [hlog]
    refine since_snoc.2 (.inr ⟨h.verified f hbefore, fun hwrote => ?_⟩)
    cases hwrote
    exact hfree hbefore

/-- A check verifies the file that its dialog offers. -/
theorem Sound.check (h : s.Sound) {k : Nat} {info : UpdateInfo} {result : Bool}
    (hlog : s'.log = s.log ++ [.checked info result])
    (htasks : s'.tasks = s.tasks.set k (.dialog info result))
    (hbroadcasts : s'.broadcasts = s.broadcasts) : s'.Sound := by
  constructor
  case log =>
    rw [hlog]
    exact guarded_snoc.2 ⟨h.log, fun f hact => by cases hact⟩
  case verified =>
    intro f hout
    have hkeeps : Verified f s.log → Verified f s'.log := fun hverified => by
      rw [hlog]
      exact since_snoc.2 (.inr ⟨hverified, fun hwrote => by cases hwrote⟩)
    rcases hout with ⟨task, hmem, hoffers⟩ | hbroadcast
    · rw [htasks] at hmem
      rcases List.mem_or_eq_of_mem_set hmem with hold | hnew
      · exact hkeeps (h.verified f (.inl ⟨task, hold, hoffers⟩))
      · -- the new dialog offers the file only if the check succeeded
        rw [hnew] at hoffers
        rw [hlog]
        cases result with
        | true => exact since_snoc.2 (.inl ⟨hoffers, rfl⟩)
        | false => exact hoffers.elim
    · rw [hbroadcasts] at hbroadcast
      exact hkeeps (h.verified f (.inr hbroadcast))

/-- The positive button hands the file of its dialog on to a broadcast. -/
theorem Sound.positive (h : s.Sound) {k : Nat} {info : UpdateInfo}
    (htask : s.tasks[k]? = some (.dialog info true)) (hlog : s'.log = s.log)
    (htasks : s'.tasks = s.tasks.eraseIdx k)
    (hbroadcasts : s'.broadcasts = s.broadcasts ++ [.installUpdate ⟨info.getZipName, none⟩]) :
    s'.Sound := by
  refine ⟨hlog ▸ h.log, fun f hout => hlog ▸ h.verified f ?_⟩
  rcases hout with ⟨task, hmem, hoffers⟩ | ⟨broadcast, hmem, hinstalls⟩
  · rw [htasks] at hmem
    exact .inl ⟨task, List.mem_of_mem_eraseIdx hmem, hoffers⟩
  · rw [hbroadcasts] at hmem
    rcases List.mem_append.1 hmem with hold | hnew
    · exact .inr ⟨broadcast, hold, hinstalls⟩
    · rw [List.mem_singleton.1 hnew] at hinstalls
      exact .inl ⟨_, List.mem_of_getElem? htask, hinstalls⟩

/-- A broadcast that is delivered installs a verified file. -/
theorem Sound.receive (h : s.Sound) {k : Nat} {broadcast : Broadcast} (throws : Bool)
    (hbroadcast : s.broadcasts[k]? = some broadcast) :
    (({ s with broadcasts := s.broadcasts.eraseIdx k }).onReceive throws broadcast).Sound := by
  have hsub : ∀ b ∈ s.broadcasts.eraseIdx k, b ∈ s.broadcasts := fun b hb =>
    List.mem_of_mem_eraseIdx hb
  cases broadcast with
  | downloadUpdate info =>
      exact h.mono rfl (fun task hmem _ _ => hmem) fun b hmem _ _ => hsub b hmem
  | installUpdate intent =>
      have hverified : Verified intent.EXTRA_FILE s.log :=
        h.verified _ (.inr ⟨_, List.mem_of_getElem? hbroadcast, rfl⟩)
      have htriggered : ∀ t : State, t.log = s.log ++ [.triggered intent.EXTRA_FILE] →
          t.tasks = s.tasks → t.broadcasts = s.broadcasts.eraseIdx k → t.Sound := by
        intro t hlog htasks hbroadcasts
        constructor
        case log =>
          rw [hlog]
          refine guarded_snoc.2 ⟨h.log, fun f hact => ?_⟩
          cases hact
          exact hverified
        case verified =>
          intro f hout
          rw [hlog]
          refine since_snoc.2 (.inr ⟨h.verified f ?_, fun hwrote => by cases hwrote⟩)
          rcases hout with ⟨task, hmem, hdialog⟩ | ⟨b, hmem, hinstall⟩
          · exact .inl ⟨task, htasks ▸ hmem, hdialog⟩
          · rw [hbroadcasts] at hmem
            exact .inr ⟨b, hsub b hmem, hinstall⟩
      simp only [onReceive]
      split <;> exact htriggered _ rfl rfl rfl

/-- An event that goes through the dialogs keeps the invariant. -/
theorem step_sound {digest : Bytes → Nat} {e : Event} (h : s.Sound) (hdialogs : ThroughDialogs s e)
    (hstep : step digest s e = some s') : s'.Sound := by
  unfold step at hstep
  split at hstep
  · cases hstep
  cases e with
  | refresh updates =>
      cases hstep
      exact h.mono rfl (fun _ hmem _ _ => hmem) fun _ hmem _ _ => hmem
  | click i isDownloading =>
      obtain ⟨info, -, rfl⟩ := Option.map_eq_some_iff.1 hstep
      unfold onClick
      split
      · exact h
      · split
        · refine h.mono rfl (fun task hmem file hoffers => ?_) fun _ hmem _ _ => hmem
          rcases List.mem_append.1 hmem with hold | hnew
          · exact hold
          · rw [List.mem_singleton.1 hnew] at hoffers
            exact hoffers.elim
        · exact h.mono rfl (fun _ hmem _ _ => hmem) fun _ hmem _ _ => hmem
  | write i content =>
      obtain ⟨info, htransfer, rfl⟩ := Option.map_eq_some_iff.1 hstep
      exact h.write (hdialogs info htransfer) rfl rfl rfl
  | complete i id =>
      obtain ⟨info, -, rfl⟩ := Option.map_eq_some_iff.1 hstep
      obtain ⟨hlog, htasks, hbroadcasts⟩ :=
        on_completed_frame (s := { s with transfers := s.transfers.eraseIdx i }) info id
      exact h.mono hlog (fun _ hmem _ _ => htasks ▸ hmem) fun _ hmem _ _ => hbroadcasts ▸ hmem
  | abort i | delete i =>
      obtain ⟨info, -, rfl⟩ := Option.map_eq_some_iff.1 hstep
      exact h.mono rfl (fun _ hmem _ _ => hmem) fun _ hmem _ _ => hmem
  | checkMD5 k =>
      simp only [effect] at hstep
      split at hstep
      · cases hstep
        exact h.check rfl rfl rfl
      · cases hstep
  | positive k =>
      simp only [effect] at hstep
      split at hstep
      · rename_i htask
        cases hstep
        exact h.positive htask rfl rfl rfl
      · cases hstep
  | negative k =>
      simp only [effect] at hstep
      split at hstep
      · cases hstep
        exact h.mono rfl (fun _ hmem _ _ => List.mem_of_mem_eraseIdx hmem) fun _ hmem _ _ => hmem
      · cases hstep
  | tap n =>
      obtain ⟨notification, hnotification, rfl⟩ := Option.map_eq_some_iff.1 hstep
      rw [send, hdialogs notification hnotification]
      exact h
  | foreign broadcast =>
      cases hstep
      refine h.mono rfl (fun _ hmem _ _ => hmem) fun b hmem file hinstalls => ?_
      rcases List.mem_append.1 hmem with hold | hnew
      · exact hold
      · rw [List.mem_singleton.1 hnew] at hinstalls
        cases broadcast with
        | installUpdate intent => exact hdialogs.elim
        | downloadUpdate info => exact hinstalls.elim
  | receive k throws =>
      obtain ⟨broadcast, hbroadcast, rfl⟩ := Option.map_eq_some_iff.1 hstep
      exact h.receive throws hbroadcast
  | killed =>
      cases hstep
      exact h.mono rfl (fun _ hmem _ _ => by cases hmem) fun _ hmem _ _ => hmem

/-- At first, nothing was installed. -/
theorem init_sound (files : String → Contents) : (init files).Sound where
  log := guarded_nil
  verified file hout := by
    rcases hout with ⟨task, hmem, -⟩ | ⟨broadcast, hmem, -⟩ <;> cases hmem

end State

/-! ## Runs -/

/-- In every run that installs through the dialogs and does not write to a file that is about to be
installed, `triggerUpdate(file)` follows a successful check of the file since its last write. -/
theorem trigger_update_checked (digest : Bytes → Nat) {files : String → Contents}
    {es : List Event} {s : State} (hrun : Machine.run (step digest) (.init files) es = some s)
    (hdialogs : Machine.Along (step digest) ThroughDialogs (.init files) es) :
    ChecksFirst s.log :=
  (Machine.run_along (I := State.Sound) (fun h hd hstep => State.step_sound h hd hstep)
    (State.init_sound files) hdialogs hrun).log

instance (s : State) : DecidablePred (ThroughDialogs s)
  | .tap _ | .write .. => inferInstanceAs (Decidable (∀ _ ∈ _, _))
  | .foreign (.installUpdate _) => .isFalse id
  | .foreign (.downloadUpdate _) | .refresh _ | .click .. | .complete .. | .abort _ | .delete _
  | .checkMD5 _ | .positive _ | .negative _ | .receive .. | .killed => .isTrue trivial

/-- The MD5 digest of the empty file. -/
def emptyDigest : Nat := 0xd41d8cd98f00b204e9800998ecf8427e

/-- An update whose file is empty. -/
def emptyUpdate : UpdateInfo where
  mName := "nightly"
  mMd5 := "d41d8cd98f00b204e9800998ecf8427e"
  mUrl := "http://download"
  mTimestamp := "1"

/-- The card's way: download, check, confirm. -/
theorem trigger_update_checked_card :
    ∃ s : State,
      s.log = [.wrote "nightly.zip", .checked emptyUpdate true, .triggered "nightly.zip"] ∧
        ChecksFirst s.log :=
  have hrun : Machine.run (step fun _ => emptyDigest) (.init fun _ => none)
      [.refresh [emptyUpdate], .click 0 false, .write 0 [], .complete 0 7, .click 0 false,
        .checkMD5 0, .positive 0, .receive 0 false] = some _ := rfl
  ⟨_, rfl, trigger_update_checked _ hrun (by decide)⟩

/-- A file that is written and installed has not been checked in between. -/
theorem not_checks_first_written (file : String) :
    ¬ ChecksFirst [.wrote file, .triggered file] := by
  intro hfirst
  have hsnoc : ChecksFirst ([.wrote file] ++ [.triggered file]) := hfirst
  have hverified : Verified file ([] ++ [.wrote file]) := (guarded_snoc.1 hsnoc).2 file rfl
  rcases since_snoc.1 hverified with hgrant | ⟨-, hrevoke⟩
  · exact hgrant
  · exact hrevoke rfl

/-- The notification's way: a download whose checksum is wrong is installed unchecked. -/
theorem notification_installs_unchecked :
    ∃ s, Machine.run (step fun _ => emptyDigest) (.init fun _ => none)
      [.refresh [{ emptyUpdate with mMd5 := "0" }], .click 0 false, .write 0 [], .complete 0 7,
        .tap 0, .receive 0 false] = some s ∧ ¬ ChecksFirst s.log :=
  ⟨_, rfl, not_checks_first_written "nightly.zip"⟩

end NamelessCenter.Install
