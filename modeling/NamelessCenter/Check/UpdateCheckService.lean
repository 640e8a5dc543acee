import Mathlib.Logic.Function.Basic
import NamelessCenter.Lib.Machine
import NamelessCenter.Items.UpdateInfo

/-!
# The update checks

`UpdateCheckService` asks the server for the list of updates, for the user interface or in the
background. Its requests run at the same time, and all those of one instance share a callback that
treats a result according to the last command the instance was given. The machine below has the
commands, the instances of the service and the completions of their requests in any order, and keeps
what was done for each completion. A run treats every completion as its own request asks for exactly
if no other kind of command came last (`checks_right_iff`).
-/

namespace NamelessCenter.Check

open Items Text

/-- The actions of the service. -/
inductive Action where
  | CHECK
  | CHECK_UI
  | CANCEL_CHECK
  deriving DecidableEq, Repr

/-- What a callback reads of the system. -/
structure Environment where
  getBuildDate : Int
  /-- The names of the files in the update folder. -/
  files : List String
  getTime : Int
  deriving DecidableEq, Repr

/-- The notification of new updates. -/
structure Notification where
  /-- The number in its title. -/
  number : Nat
  lines : List String
  /-- The number in its summary, if it has one. -/
  summary : Option Nat
  /-- The update that its action downloads, if it has one. -/
  download : Option UpdateInfo
  deriving DecidableEq, Repr

/-- What the callback does. -/
inductive Effect where
  /-- The broadcast to the Dashclock extension. -/
  | sendBroadcast (updates : List UpdateInfo)
  | setString (name value : String)
  | setBoolean (name : String) (value : Bool)
  | notify (notification : Notification)
  /-- The updates are posted to the bus. -/
  | post (updates : List UpdateInfo)
  deriving DecidableEq, Repr

/-- The preference for the time of the last check. -/
def LAST_UPDATE_CHECK_PREF : String := "pref_last_update_check"

/-- The preference for the flag that a check has completed since the boot. -/
def BOOT_CHECK_COMPLETED : String := "boot_check_completed"

/-- The maximal number of updates listed in the expanded notification. -/
def EXPANDED_NOTIF_UPDATE_COUNT : Nat := 4

/-- `Helper.parseDate`. -/
def parseDate (timeStampString : String) : Int := (parseInt timeStampString).getD 20140101

/-! ## The callback -/

namespace Environment

variable (env : Environment)

/-- `UpdateHelper.isUpdateDownloaded(filename)`: the file exists. -/
def isUpdateDownloaded (filename : String) : Bool := filename ∈ env.files

/-- The update is newer than the build. -/
def isNew (info : UpdateInfo) : Bool := env.getBuildDate < parseDate info.mTimestamp

/-- The updates of a result that are shown. -/
def updates (result : List UpdateInfo) : List UpdateInfo :=
  (result.filter fun info => env.isNew info || env.isUpdateDownloaded info.getZipName).map
    UpdateInfo.rebuilt

/-- The updates of a list that are newer than the build. -/
def realUpdateCount (updates : List UpdateInfo) : Nat := updates.countP env.isNew

/-- The lines that the loop over the updates adds. -/
def addLines (updates : List UpdateInfo) : List String :=
  updates.foldl (fun lines ui =>
    if lines.length < EXPANDED_NOTIF_UPDATE_COUNT ∧ env.isNew ui then lines ++ [ui.mName]
    else lines) []

/-- The update that a notification of a single new update offers: the first one shown. -/
def download (updates : List UpdateInfo) : Option UpdateInfo :=
  updates.head?.filter fun updateInfo => !env.isUpdateDownloaded updateInfo.getZipName

/-- The notification, if there are new updates. -/
def notification (updates : List UpdateInfo) : Option Notification :=
  let realUpdateCount := env.realUpdateCount updates
  let lines := env.addLines updates
  if realUpdateCount = 0 then none
  else some {
    number := realUpdateCount
    lines := lines
    summary :=
      if lines.length = realUpdateCount then none else some (realUpdateCount - lines.length)
    download := if realUpdateCount = 1 then env.download updates else none }

/-- `mCallBack.onCompleted`, where a failed request has no result. -/
def onCompleted (mAction : Option Action) : Option (List UpdateInfo) → List Effect
  | none => [.post []]
  | some result =>
      let updates := env.updates result
      .sendBroadcast updates ::
        -- the field, not the action that the request was issued for
        if mAction = some .CHECK_UI then [.post updates]
        else
          .setString LAST_UPDATE_CHECK_PREF (toString env.getTime) ::
            .setBoolean BOOT_CHECK_COMPLETED true ::
              ((env.notification updates).toList.map .notify ++ [.post updates])

end Environment

/-! ## The service -/

/-- A request that is under way. -/
structure Request where
  /-- The instance of the service that issued it. -/
  service : Nat
  /-- The action of the command that it was issued for. -/
  action : Action
  /-- Whether `CANCEL_CHECK` was sent since. -/
  cancelled : Bool
  deriving DecidableEq, Repr

/-- A request that was completed, and what was done then. -/
structure Completion where
  request : Request
  result : Option (List UpdateInfo)
  env : Environment
  effects : List Effect
  deriving DecidableEq, Repr

/-- The service with its instances, and what its requests have done. -/
structure State where
  /-- The field `mAction` of each instance of the service. -/
  mAction : Nat → Option Action
  /-- The last instance that was created. -/
  service : Nat
  running : Bool
  /-- `stopSelf()` was called. -/
  stopped : Bool
  requests : List Request
  effects : List Effect
  completions : List Completion

/-- No service runs. -/
def State.init : State where
  mAction := fun _ => none
  service := 0
  running := false
  stopped := false
  requests := []
  effects := []
  completions := []

/-- What can happen to the service and its requests. -/
inductive Event where
  /-- `startService` with this action; the system restarts the service without one. -/
  | startService (action : Option Action) (isOnline : Bool)
  /-- A stopped service is destroyed. -/
  | onDestroy
  /-- A request completes. -/
  | complete (request : Nat) (result : Option (List UpdateInfo)) (env : Environment)
  /-- The process ends, and with it its requests. -/
  | killed
  deriving DecidableEq, Repr

namespace State

variable (s : State)

/-- A service that does not run is created. -/
def onCreate : State :=
  if s.running then s else { s with service := s.service + 1, running := true, stopped := false }

/-- `stopSelf()` of an instance; it has no effect on a later one. -/
def stopSelf (service : Nat) : State :=
  { s with stopped := s.stopped || service = s.service }

/-- `onStartCommand`. -/
def onStartCommand (isOnline : Bool) : Option Action → State
  | none => s
  | some action =>
      let t : State := { s with mAction := Function.update s.mAction s.service (some action) }
      -- nothing is done to the requests that are under way
      if action = .CANCEL_CHECK ∨ !isOnline then
        State.stopSelf { t with effects := t.effects ++ [.post []] } s.service
      else { t with requests := t.requests ++ [⟨s.service, action, false⟩] }

/-- Whether a request was cancelled is not known to the code. -/
def cancel : Option Action → State
  | some .CANCEL_CHECK =>
      { s with requests := s.requests.map fun r => { r with cancelled := true } }
  | _ => s

/-- A request completes. -/
def complete (r : Request) (result : Option (List UpdateInfo)) (env : Environment) : State :=
  let effects := env.onCompleted (s.mAction r.service) result
  let t : State := { s with
    effects := s.effects ++ effects
    completions := s.completions ++ [⟨r, result, env, effects⟩] }
  t.stopSelf r.service

end State

/-- The effect of an event, if it can happen. -/
def step (s : State) : Event → Option State
  | .startService action isOnline =>
      some ((s.onCreate.onStartCommand isOnline action).cancel action)
  | .onDestroy => if s.running ∧ s.stopped then some { s with running := false } else none
  | .complete i result env =>
      s.requests[i]?.map fun r =>
        { s with requests := s.requests.eraseIdx i }.complete r result env
  | .killed => some { s with running := false, requests := [] }

/-! ## What a request asks for -/

/-- The effect stores a preference. -/
def Effect.isPreference : Effect → Bool
  | .setString .. | .setBoolean .. => true
  | .sendBroadcast _ | .notify _ | .post _ => false

/-- The effect shows a notification. -/
def Effect.isNotification : Effect → Bool
  | .notify _ => true
  | .setString .. | .setBoolean .. | .sendBroadcast _ | .post _ => false

namespace Completion

variable (c : Completion)

/-- The result contains updates that are newer than the build. -/
def HasNew (result : List UpdateInfo) : Prop := c.env.realUpdateCount (c.env.updates result) ≠ 0

/-- The completion shows a notification. -/
def Notifies : Prop := ∃ e ∈ c.effects, e.isNotification

/-- What the completion of a background check stores. -/
def Stores : Prop :=
  c.effects.filter Effect.isPreference =
    [.setString LAST_UPDATE_CHECK_PREF (toString c.env.getTime),
      .setBoolean BOOT_CHECK_COMPLETED true]

/-- The completion is treated according to its request. A cancelled check still counts as a check,
but nobody is told of it. -/
structure Right : Prop where
  check : c.request.action = .CHECK → ∀ result ∈ c.result,
    c.Stores ∧ (c.HasNew result → ¬ c.request.cancelled → c.Notifies)
  checkUi : c.request.action = .CHECK_UI → ¬ c.Notifies ∧ ∀ e ∈ c.effects, ¬ e.isPreference
  cancelled : c.request.cancelled →
    ¬ c.Notifies ∧ ∀ updates, .post updates ∈ c.effects → updates = []

end Completion

/-- If a request completes with a result, the last command to its service was of the kind of its
own, and a request that was cancelled has nothing to show. -/
def LastOfKind (s : State) : Event → Prop
  | .complete i (some result) env => ∀ r ∈ s.requests[i]?,
      (r.action = .CHECK → s.mAction r.service ≠ some .CHECK_UI) ∧
        (r.action = .CHECK_UI → s.mAction r.service = some .CHECK_UI) ∧
          (r.cancelled → env.updates result = [])
  | _ => True

/-! ## Steps -/

section Callback

variable {env : Environment} {mAction : Option Action} {result : List UpdateInfo}

/-- There is a notification exactly if an update is newer. -/
theorem notification_is_some_iff {updates : List UpdateInfo} :
    (env.notification updates).isSome ↔ env.realUpdateCount updates ≠ 0 := by
  unfold Environment.notification
  simp only
  split <;> simp [*]

/-- The preferences that a result changes. -/
theorem filter_is_preference_on_completed :
    (env.onCompleted mAction (some result)).filter Effect.isPreference =
      if mAction = some .CHECK_UI then []
      else [.setString LAST_UPDATE_CHECK_PREF (toString env.getTime),
        .setBoolean BOOT_CHECK_COMPLETED true] := by
  unfold Environment.onCompleted
  by_cases hui : mAction = some .CHECK_UI
  · simp [hui, Effect.isPreference]
  · cases env.notification (env.updates result) <;> simp [hui, Effect.isPreference, List.filter]

/-- When a result is notified. -/
theorem exists_is_notification_on_completed :
    (∃ e ∈ env.onCompleted mAction (some result), e.isNotification) ↔
      mAction ≠ some .CHECK_UI ∧ env.realUpdateCount (env.updates result) ≠ 0 := by
  rw [← notification_is_some_iff]
  unfold Environment.onCompleted
  by_cases hui : mAction = some .CHECK_UI
  · simp [hui, Effect.isNotification]
  · cases hnotification : env.notification (env.updates result) <;>
      simp [hui, Effect.isNotification, hnotification]

/-- The updates that a result posts. -/
theorem post_mem_on_completed {updates : List UpdateInfo} :
    .post updates ∈ env.onCompleted mAction (some result) ↔ updates = env.updates result := by
  unfold Environment.onCompleted
  by_cases hui : mAction = some .CHECK_UI <;> simp [hui]

end Callback

namespace Completion

variable {r : Request} {env : Environment} {mAction : Option Action}

/-- A failed request stores nothing and tells nobody of updates. -/
theorem right_of_none : Right ⟨r, none, env, env.onCompleted mAction none⟩ := by
  constructor <;>
    simp [Notifies, Environment.onCompleted, Effect.isNotification, Effect.isPreference]

/-- A result is treated according to the request if the last command was of the request's kind and a
cancelled request has nothing to show. -/
theorem right_iff {result : List UpdateInfo} :
    Right ⟨r, some result, env, env.onCompleted mAction (some result)⟩ ↔
      (r.action = .CHECK → mAction ≠ some .CHECK_UI) ∧
        (r.action = .CHECK_UI → mAction = some .CHECK_UI) ∧
          (r.cancelled → env.updates result = []) := by
  have hpreferences : (env.onCompleted mAction (some result)).filter Effect.isPreference = _ :=
    filter_is_preference_on_completed
  have hnotifies : Notifies ⟨r, some result, env, env.onCompleted mAction (some result)⟩ ↔ _ :=
    exists_is_notification_on_completed
  constructor
  · intro ⟨hcheck, hui, hcancelled⟩
    refine ⟨fun haction hlast => ?_, fun haction => ?_, fun h => ?_⟩
    · have hstores := (hcheck haction result rfl).1
      rw [Stores, hpreferences, if_pos hlast] at hstores
      cases hstores
    · -- otherwise the completion would store the preferences
      by_contra hlast
      rw [if_neg hlast] at hpreferences
      have hmem : Effect.setBoolean BOOT_CHECK_COMPLETED true ∈
          (env.onCompleted mAction (some result)).filter Effect.isPreference := by
        rw [hpreferences]
        simp
      exact (hui haction).2 _ (List.mem_filter.1 hmem).1 rfl
    · exact (hcancelled h).2 _ (post_mem_on_completed.2 rfl)
  · intro ⟨hcheck, hui, hcancelled⟩
    constructor
    case check =>
      intro haction result' hresult
      cases hresult
      refine ⟨?_, fun hnew _ => hnotifies.2 ⟨hcheck haction, hnew⟩⟩
      rw [Stores, hpreferences, if_neg (hcheck haction)]
    case checkUi =>
      intro haction
      rw [if_pos (hui haction)] at hpreferences
      exact ⟨fun h => (hnotifies.1 h).1 (hui haction), List.filter_eq_nil_iff.1 hpreferences⟩
    case cancelled =>
      intro h
      -- without updates there is nothing new to notify of
      refine ⟨fun hnotified => (hnotifies.1 hnotified).2 ?_, fun updates hpost => ?_⟩
      · rw [hcancelled h]
        rfl
      · rw [post_mem_on_completed.1 hpost, hcancelled h]

end Completion

/-- A command completes no request. -/
theorem completions_on_start_command (s : State) (isOnline : Bool) (action : Option Action) :
    ((s.onCreate.onStartCommand isOnline action).cancel action).completions = s.completions := by
  have hcancel : ∀ t : State, (t.cancel action).completions = t.completions := fun t => by
    unfold State.cancel
    split <;> rfl
  rw [hcancel]
  have hcreate : s.onCreate.completions = s.completions := by
    unfold State.onCreate
    split <;> rfl
  unfold State.onStartCommand
  cases action with
  | none => exact hcreate
  | some action =>
      simp only
      split <;> exact hcreate

/-- The completions stay right exactly if the request that completes was the last of its kind. -/
theorem step_right_iff {s s' : State} {e : Event} (hstep : step s e = some s') :
    (∀ c ∈ s'.completions, c.Right) ↔ (∀ c ∈ s.completions, c.Right) ∧ LastOfKind s e := by
  cases e with
  | startService action isOnline =>
      cases hstep
      rw [completions_on_start_command]
      exact (and_iff_left trivial).symm
  | onDestroy =>
      rw [step] at hstep
      split at hstep
      · cases hstep
        exact (and_iff_left trivial).symm
      · cases hstep
  | killed =>
      cases hstep
      exact (and_iff_left trivial).symm
  | complete i result env =>
      obtain ⟨r, hr, rfl⟩ := Option.map_eq_some_iff.1 hstep
      have hcompletions : (State.complete { s with requests := s.requests.eraseIdx i } r result
          env).completions =
            s.completions ++ [⟨r, result, env, env.onCompleted (s.mAction r.service) result⟩] := rfl
      rw [hcompletions, List.forall_mem_append, List.forall_mem_singleton]
      refine and_congr_right fun _ => ?_
      cases result with
      | none => exact iff_of_true Completion.right_of_none trivial
      | some result =>
          rw [Completion.right_iff, LastOfKind, hr]
          simp

/-- In every run, every completion is treated according to its request exactly if, whenever a
result arrives, the last command to the service of the request was of the kind of the request, and
a cancelled request has nothing to show. -/
theorem checks_right_iff {es : List Event} {s : State} (hrun : Machine.run step .init es = some s) :
    (∀ c ∈ s.completions, c.Right) ↔ Machine.Along step LastOfKind .init es := by
  rw [Machine.run_iff_along (J := fun _ => True) (fun _ _ => trivial) (fun _ => step_right_iff)
    trivial hrun]
  exact and_iff_right fun c hc => by cases hc

instance (s : State) : DecidablePred (LastOfKind s)
  | .complete _ (some _) _ => inferInstanceAs (Decidable (∀ _ ∈ _, _))
  | .startService .. | .onDestroy | .complete _ none _ | .killed => .isTrue trivial

/-- An update of the 28th of September 2014. -/
def nightly : UpdateInfo where
  mName := "nightly.zip"
  mMd5 := "0"
  mUrl := "http://download"
  mTimestamp := "20140928"

/-- A build that is older than `nightly`, which has not been downloaded. -/
def oldBuild : Environment where
  getBuildDate := 20140901
  files := []
  getTime := 1411900000000

/-- Two background checks, of which the first fails behind the second, and one of the user
interface in the next instance. -/
theorem checks_right_in_turn :
    ∃ s, Machine.run step .init [.startService (some .CHECK) true, .startService (some .CHECK) true,
      .complete 1 (some [nightly]) oldBuild, .complete 0 none oldBuild, .onDestroy,
      .startService (some .CHECK_UI) true, .complete 0 (some [nightly]) oldBuild] = some s ∧
        s.completions.length = 3 ∧ ∀ c ∈ s.completions, c.Right :=
  have hrun : Machine.run step .init [.startService (some .CHECK) true,
    .startService (some .CHECK) true, .complete 1 (some [nightly]) oldBuild,
    .complete 0 none oldBuild, .onDestroy, .startService (some .CHECK_UI) true,
    .complete 0 (some [nightly]) oldBuild] = some _ := rfl
  ⟨_, hrun, rfl, (checks_right_iff hrun).2 (by decide)⟩

/-- A background check that the user interface asks after is lost: nothing is stored. -/
theorem background_check_lost :
    ∃ s, Machine.run step .init [.startService (some .CHECK) true,
      .startService (some .CHECK_UI) true, .complete 0 (some [nightly]) oldBuild] = some s ∧
        ¬ ∀ c ∈ s.completions, c.Right := by
  refine ⟨_, rfl, fun h => ?_⟩
  have hstores := ((h _ (List.mem_singleton_self _)).check rfl _ rfl).1
  revert hstores
  unfold Completion.Stores
  decide

end NamelessCenter.Check
