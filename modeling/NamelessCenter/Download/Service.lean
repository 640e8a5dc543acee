import NamelessCenter.Lib.Machine
import NamelessCenter.Download.Executor

/-!
# DownloadService.java

The service as a machine. The main thread takes the tasks of its handler one after the other, the
intents sent with `startService` and the calls of the user interface; the pool threads take
runnables and go through their `run`. `Event` lists what can happen next and `step` what it does.

The service object is created again after it was destroyed, but as its handler tasks run in the
order in which they were posted, at most one object is registered at a time, which `isRegistered`
says. `cancelDownload` is one step of the main thread, except that pool threads may take runnables
between its reads of the length and of the elements of the work queue. Its first loop looks at
every runnable once, so that what the threads do later could as well happen before or behind it,
and the second loop could then only find matching runnables that the first has passed over. An
exception that nobody catches on the main thread ends the process.
-/

namespace NamelessCenter.Download

open Items

/-- A task posted to the handler of the main thread. -/
inductive Task where
  /-- `startup()` of a runnable. -/
  | startup (r : Ref)
  /-- `postProgress` of a runnable. -/
  | progress (r : Ref) (percentage : Int)
  /-- `postError` of a runnable. -/
  | error (r : Ref) (reason : Int)
  /-- `startup()` of the service. -/
  | serviceStartup
  /-- `tearDown()` of the service. -/
  | serviceTearDown
  /-- The bus event of a rejected runnable. -/
  | busError (reason : Int)
  /-- The dummy bus event of `cancelDownload`. -/
  | busProgress (id : String) (percentage : Int)
  /-- The bus event that `produceDownloadProgressEvent` posts. -/
  | refresh
  deriving DecidableEq, Repr

/-- The calls on the Otto bus. -/
inductive BusCall where
  | register (r : Ref)
  | unregister (r : Ref)
  | registerService
  | unregisterService
  | postProgress (id : String) (percentage : Int)
  | postError (reason : Int)
  | postRefresh
  deriving DecidableEq, Repr

/-- The service: the runnables, the main thread with its tasks, the intents on their way, and the
bus. -/
structure State extends Downloads where
  /-- The pending tasks of the main thread, oldest first. -/
  handler : List Task
  /-- The `ACTION_STOP` intents on their way to `onStartCommand`. -/
  stops : Nat
  isRegistered : Bool
  /-- The runnables registered on the bus. -/
  registered : List Ref
  /-- The number of subscribers to `DownloadProgressEvent`. -/
  listeners : Nat
  calls : List BusCall
  crashed : Bool

/-- The state of a new process. -/
def State.init : State where
  heap := fun _ => .new "" default .unborn
  next := 0
  mRunnables := []
  mWorkQueue := []
  mThreadPool := none
  handler := []
  stops := 0
  isRegistered := false
  registered := []
  listeners := 0
  calls := []
  crashed := false

namespace State

variable (s : State)

/-- `AppInstance.getHandler().post(..)`. -/
def post (t : Task) : State := { s with handler := s.handler ++ [t] }

/-- Change the tasks of the handler. -/
def withHandler (tasks : List Task) : State := { s with handler := tasks }

/-- A call on the bus is recorded. -/
def call (c : BusCall) : State := { s with calls := s.calls ++ [c] }

/-- An uncaught exception on the main thread. -/
def crash : State := { s with crashed := true }

/-- Change the runnables and the executor. -/
def withDownloads (d : Downloads) : State := { s with toDownloads := d }

/-! ## The bus -/

/-- `BusProvider.getBus().register(runnable)`. -/
def register (r : Ref) : State :=
  if r ∈ s.registered then (s.call (.register r)).crash
  else { s.call (.register r) with registered := s.registered ++ [r] }

/-- `BusProvider.getBus().unregister(runnable)`. -/
def unregister (r : Ref) : State :=
  if r ∈ s.registered then { s.call (.unregister r) with registered := s.registered.erase r }
  else (s.call (.unregister r)).crash

/-- The tasks that `produceDownloadProgressEvent` posts for as many subscribers. -/
def produce (subscribers : Nat) : State :=
  { s with handler := s.handler ++ List.replicate subscribers .refresh }

/-- `startup()` of the service; the bus asks a new producer once for every subscriber. -/
def serviceStartup : State :=
  if s.isRegistered then s
  else { (s.call .registerService).produce s.listeners with isRegistered := true }

/-- `RefreshDownloadRunnablesEvent` reaches the registered runnables. -/
def refresh : State :=
  { s.call .postRefresh with
    handler := s.handler ++ s.registered.map fun r => .progress r (s.heap r).actualPercentage }

/-! ## Methods of the service -/

/-- The end of `cancelDownload`, behind the synchronized block. -/
def afterCancel : State :=
  let posted := s.post (.busProgress "-1" 0)
  if posted.mRunnables.length = 0 then { posted with stops := posted.stops + 1 } else posted

/-- `cancelDownload(id)`, with the length of the work queue it has read. The exceptions it can throw
are not caught by its callers. -/
def cancelDownload (id : String) (size : Nat) : Option State :=
  (s.cancelAll id size).map fun d => (s.withDownloads d).afterCancel

/-- The part of `tearDown` behind `cancelDownload("")`. -/
def shutdown : State :=
  let stopped := s.withDownloads s.shutdownNow
  if stopped.isRegistered then { stopped.call .unregisterService with isRegistered := false }
  else stopped

/-- `tearDown()` of the service, with the length of the work queue it has read. -/
def tearDown (size : Nat) : Option State := (s.cancelDownload "" size).map shutdown

/-- The branch of `onStartCommand` for an intent of `start(updateInfo)`. The constructor of the
runnable posts its registration. -/
def enqueue (info : UpdateInfo) : State :=
  match (s.construct info).execute s.next with
  | some d => (s.withDownloads d).post (.startup s.next)
  | none =>
      ((s.withDownloads
        ((s.construct info).modify s.next fun o => { o with phase := .rejected })).post
          (.startup s.next)).post (.busError REASON_UNKNOWN)

/-- `if (!isRegistered)` the registration of the service is posted. -/
def postStartup : State := if s.isRegistered then s else s.post .serviceStartup

/-- The intents of `start` and `stop`. -/
inductive Intent where
  | start (info : UpdateInfo)
  | stop
  deriving DecidableEq, Repr

/-- `onStartCommand(intent)`; the system passes null when it restarts the service. -/
def onStartCommand : Option Intent → State → State
  | none, s => if s.mWorkQueue.length = 0 then s.post .serviceTearDown else s
  | some .stop, s => s.post .serviceTearDown
  | some (.start info), s =>
      if info.mTimestamp = "" then s.postStartup else s.postStartup.enqueue info

/-- Run a task of the handler; `size` is the length of the work queue that `tearDown` has read. -/
def runTask (size : Nat) : Task → State → State
  | .startup r, s => s.register r
  | .progress r percentage, s =>
      let posted := s.call (.postProgress (s.heap r).id percentage)
      if percentage = 101 then posted.unregister r else posted
  | .error r reason, s => (s.call (.postError reason)).unregister r
  | .serviceStartup, s => s.serviceStartup
  | .serviceTearDown, s => (s.tearDown size).getD s.crash
  | .busError reason, s => s.call (.postError reason)
  | .busProgress id percentage, s => s.call (.postProgress id percentage)
  | .refresh, s => s.refresh

/-! ## Methods of the runnables -/

/-- A step of the runnable that thread `w` executes, if it has reached phase `p`. -/
def onThread (w : Thread) (p : Phase) (next : Ref → State) : Option State :=
  match s.running w with
  | some r => if (s.heap r).phase = p then some (next r) else none
  | none => none

/-- Change a runnable. -/
def set (r : Ref) (f : DownloadRunnable → DownloadRunnable) : State :=
  s.withDownloads (s.modify r f)

/-- The end of `run`: the thread is idle. -/
def endRun (w : Thread) (r : Ref) : State :=
  s.withDownloads ((s.modify r fun o => { o with phase := .ended }).modifyPool fun pool =>
    { pool with running := Function.update pool.running w none })

/-- Thread `w` enters `run`. The pool clears the interrupt of its threads until it is shut down. -/
def begin (w : Thread) (r : Ref) : State :=
  s.withDownloads ((s.modify r fun o => { o with mThread := some w, phase := .begun }).modifyPool
    fun pool => { pool with interrupted := Function.update pool.interrupted w pool.shutdown })

/-- The checks of `enqueueDownload`. -/
def check (c : Conditions) (w : Thread) (r : Ref) : State :=
  let (reasons, passes) := enqueueDownload c
  let posted := s.withHandler (s.handler ++ reasons.map (Task.error r))
  if passes then posted.set r fun o => { o with phase := .checked } else posted.endRun w r

/-- The load at the end of `enqueueDownload`. -/
def load (r : Ref) : State :=
  s.set r fun o => { o with
    fileResponseFuture := some ⟨o.updateInfo.mUrl, o.updateInfo.getZipName, false⟩
    phase := .loaded }

/-- `postProgress(0)`, before `get()`. -/
def await (r : Ref) : State := (s.set r fun o => { o with phase := .waiting }).post (.progress r 0)

/-- `get()` has returned or thrown: `postProgress(101)` in the `finally` block. -/
def finish (w : Thread) (r : Ref) : State := (s.endRun w r).post (.progress r 101)

/-- `onProgress(downloaded, total)` of a runnable. -/
def onProgress (r : Ref) (downloaded total : Int) : State :=
  let actual := percentage downloaded total
  if (s.heap r).oldPercentage = actual then s.set r fun o => { o with actualPercentage := actual }
  else
    (s.set r fun o => { o with actualPercentage := actual, oldPercentage := actual }).post
      (.progress r actual)

end State

/-! ## What the main thread leaves alone -/

namespace State

variable (s : State)

/-- Posting a task leaves the runnables and the executor alone. -/
@[simp] theorem post_to_downloads (t : Task) : (s.post t).toDownloads = s.toDownloads := rfl

/-- So does a change of the tasks. -/
@[simp] theorem with_handler_to_downloads (tasks : List Task) :
    (s.withHandler tasks).toDownloads = s.toDownloads := rfl

/-- The tasks are those that were set. -/
@[simp] theorem with_handler_handler (tasks : List Task) : (s.withHandler tasks).handler = tasks :=
  rfl

/-- The stops on their way stay. -/
@[simp] theorem with_handler_stops (tasks : List Task) : (s.withHandler tasks).stops = s.stops :=
  rfl

/-- So do the registrations. -/
@[simp] theorem with_handler_registered (tasks : List Task) :
    (s.withHandler tasks).registered = s.registered := rfl

/-- A call on the bus leaves the runnables and the executor alone. -/
@[simp] theorem call_to_downloads (c : BusCall) : (s.call c).toDownloads = s.toDownloads := rfl

/-- So does the end of the process. -/
@[simp] theorem crash_to_downloads : s.crash.toDownloads = s.toDownloads := rfl

/-- So do the answers to new subscribers. -/
@[simp] theorem produce_to_downloads (n : Nat) : (s.produce n).toDownloads = s.toDownloads := rfl

/-- The runnables and the executor are those that were set. -/
@[simp] theorem with_downloads_to_downloads (d : Downloads) : (s.withDownloads d).toDownloads = d :=
  rfl

/-- A registration leaves them alone. -/
@[simp] theorem register_to_downloads (r : Ref) : (s.register r).toDownloads = s.toDownloads := by
  unfold register
  split <;> rfl

/-- So does its removal. -/
@[simp] theorem unregister_to_downloads (r : Ref) :
    (s.unregister r).toDownloads = s.toDownloads := by
  unfold unregister
  split <;> rfl

/-- So does the registration of the service. -/
@[simp] theorem service_startup_to_downloads : s.serviceStartup.toDownloads = s.toDownloads := by
  unfold serviceStartup
  split <;> rfl

/-- So does posting it. -/
@[simp] theorem post_startup_to_downloads : s.postStartup.toDownloads = s.toDownloads := by
  unfold postStartup
  split <;> rfl

/-- What a cancellation posts leaves them alone. -/
@[simp] theorem after_cancel_to_downloads : s.afterCancel.toDownloads = s.toDownloads := by
  unfold afterCancel
  dsimp only
  split <;> rfl

/-- It does not end the process. -/
@[simp] theorem after_cancel_crashed : s.afterCancel.crashed = s.crashed := by
  unfold afterCancel
  dsimp only
  split <;> rfl

/-- The rest of `tearDown` shuts the executor down. -/
@[simp] theorem shutdown_to_downloads : s.shutdown.toDownloads = s.shutdownNow := by
  unfold shutdown
  dsimp only
  split <;> rfl

/-- Only `tearDown` touches the runnables and the executor. -/
theorem run_task_to_downloads (size : Nat) {t : Task} (ht : t ≠ .serviceTearDown) :
    (runTask size t s).toDownloads = s.toDownloads := by
  cases t with
  | progress r percentage =>
      simp only [runTask]
      split <;> simp
  | serviceTearDown => exact absurd rfl ht
  | _ => simp [runTask, refresh]

variable {s}

/-- A step of a thread is one of the runnable that it runs. -/
theorem on_thread_eq_some {w : Thread} {p : Phase} {next : Ref → State} {s' : State} :
    s.onThread w p next = some s' ↔
      ∃ r, s.running w = some r ∧ (s.heap r).phase = p ∧ next r = s' := by
  unfold onThread
  cases s.running w with
  | none => simp
  | some r => simp

end State

/-! ## The machine -/

/-- What can happen to the service, its executor and its bus. -/
inductive Event where
  /-- An intent of `start(updateInfo)` reaches the service. -/
  | start (info : UpdateInfo)
  /-- Somebody calls `stop()`. -/
  | stop
  /-- An `ACTION_STOP` intent reaches the service. -/
  | deliverStop
  /-- The system restarts the service with a null intent. -/
  | restart
  | destroy
  /-- A card calls `cancelDownload(id)`, while threads take runnables. -/
  | cancel (id : String) (polls : List Thread)
  /-- The main thread runs its next task, while threads take runnables. -/
  | runTask (polls : List Thread)
  /-- A subscriber to `DownloadProgressEvent` registers. -/
  | listen
  | unlisten
  /-- Steps of a pool thread. -/
  | poll (w : Thread)
  | begin (w : Thread)
  | check (c : Conditions) (w : Thread)
  | load (w : Thread)
  | await (w : Thread)
  | finish (w : Thread)
  /-- Ion calls `onProgress` of a runnable that has started to load. -/
  | progress (r : Ref) (downloaded total : Int)
  deriving DecidableEq, Repr

/-- The effect of an event, if it can happen. -/
def State.effect (s : State) : Event → Option State
  | .start info => some (s.onStartCommand (some (.start info)))
  | .stop => some { s with stops := s.stops + 1 }
  | .deliverStop =>
      if s.stops = 0 then none
      else some ({ s with stops := s.stops - 1 }.onStartCommand (some .stop))
  | .restart => some (s.onStartCommand none)
  | .destroy => some (s.post .serviceTearDown)
  | .cancel id polls =>
      (s.pollAll polls).map fun d =>
        ((s.withDownloads d).cancelDownload id s.mWorkQueue.length).getD (s.withDownloads d).crash
  | .runTask polls =>
      match s.handler with
      | [] => none
      | task :: rest =>
          (s.pollAll polls).map fun d =>
            State.runTask s.mWorkQueue.length task ((s.withDownloads d).withHandler rest)
  | .listen =>
      let listening := { s with listeners := s.listeners + 1 }
      some (if s.isRegistered then listening.produce 1 else listening)
  | .unlisten => if s.listeners = 0 then none else some { s with listeners := s.listeners - 1 }
  | .poll w => (s.toDownloads.poll w).map s.withDownloads
  | .begin w => s.onThread w .taken (s.begin w)
  | .check c w => s.onThread w .begun (s.check c w)
  | .load w => s.onThread w .checked s.load
  | .await w => s.onThread w .loaded s.await
  | .finish w => s.onThread w .waiting (s.finish w)
  | .progress r downloaded total =>
      if (s.heap r).fileResponseFuture = none then none else some (s.onProgress r downloaded total)

/-- No event happens in a process that has ended. -/
def step (s : State) (e : Event) : Option State := if s.crashed then none else s.effect e

/-- What an event does, with the conditions under which it can happen. -/
inductive State.Does (s : State) : Event → State → Prop
  | start (info : UpdateInfo) : Does s (.start info) (s.onStartCommand (some (.start info)))
  | stop : Does s .stop { s with stops := s.stops + 1 }
  | deliverStop (hstops : s.stops ≠ 0) :
      Does s .deliverStop ({ s with stops := s.stops - 1 }.onStartCommand (some .stop))
  | restart : Does s .restart (s.onStartCommand none)
  | destroy : Does s .destroy (s.post .serviceTearDown)
  | cancel {id : String} {polls : List Thread} {d : Downloads} (hpolls : s.pollAll polls = some d) :
      Does s (.cancel id polls)
        (((s.withDownloads d).cancelDownload id s.mWorkQueue.length).getD (s.withDownloads d).crash)
  | runTask {polls : List Thread} {d : Downloads} {task : Task} {rest : List Task}
      (hhandler : s.handler = task :: rest) (hpolls : s.pollAll polls = some d) :
      Does s (.runTask polls)
        (State.runTask s.mWorkQueue.length task ((s.withDownloads d).withHandler rest))
  | listen (hregistered : s.isRegistered = false) :
      Does s .listen { s with listeners := s.listeners + 1 }
  | listenProduce (hregistered : s.isRegistered = true) :
      Does s .listen ({ s with listeners := s.listeners + 1 }.produce 1)
  | unlisten (hlisteners : s.listeners ≠ 0) :
      Does s .unlisten { s with listeners := s.listeners - 1 }
  | poll {w : Thread} {d : Downloads} (hpoll : s.toDownloads.poll w = some d) :
      Does s (.poll w) (s.withDownloads d)
  | begin {w : Thread} {r : Ref} (hrun : s.running w = some r)
      (hphase : (s.heap r).phase = .taken) : Does s (.begin w) (s.begin w r)
  | check {c : Conditions} {w : Thread} {r : Ref} (hrun : s.running w = some r)
      (hphase : (s.heap r).phase = .begun) : Does s (.check c w) (s.check c w r)
  | load {w : Thread} {r : Ref} (hrun : s.running w = some r)
      (hphase : (s.heap r).phase = .checked) : Does s (.load w) (s.load r)
  | await {w : Thread} {r : Ref} (hrun : s.running w = some r)
      (hphase : (s.heap r).phase = .loaded) : Does s (.await w) (s.await r)
  | finish {w : Thread} {r : Ref} (hrun : s.running w = some r)
      (hphase : (s.heap r).phase = .waiting) : Does s (.finish w) (s.finish w r)
  | progress {r : Ref} {downloaded total : Int} (hfuture : (s.heap r).fileResponseFuture ≠ none) :
      Does s (.progress r downloaded total) (s.onProgress r downloaded total)

/-- The effect of an event is one of the cases of `Does`. -/
theorem effect_eq_some {s s' : State} {e : Event} : s.effect e = some s' ↔ s.Does e s' := by
  constructor
  · intro heffect
    cases e with
    | start info =>
        cases heffect
        exact .start info
    | stop =>
        cases heffect
        exact .stop
    | deliverStop =>
        obtain ⟨hstops, heq⟩ := Option.ite_none_left_eq_some.1 heffect
        cases heq
        exact .deliverStop hstops
    | restart =>
        cases heffect
        exact .restart
    | destroy =>
        cases heffect
        exact .destroy
    | cancel id polls =>
        obtain ⟨d, hpolls, rfl⟩ := Option.map_eq_some_iff.1 heffect
        exact .cancel hpolls
    | runTask polls =>
        simp only [State.effect] at heffect
        split at heffect
        · cases heffect
        · rename_i task rest hhandler
          obtain ⟨d, hpolls, rfl⟩ := Option.map_eq_some_iff.1 heffect
          exact .runTask hhandler hpolls
    | listen =>
        cases heffect
        split
        · rename_i hregistered
          exact .listenProduce hregistered
        · rename_i hunregistered
          exact .listen (by simpa using hunregistered)
    | unlisten =>
        obtain ⟨hlisteners, heq⟩ := Option.ite_none_left_eq_some.1 heffect
        cases heq
        exact .unlisten hlisteners
    | poll w =>
        obtain ⟨d, hpoll, rfl⟩ := Option.map_eq_some_iff.1 heffect
        exact .poll hpoll
    | begin w =>
        obtain ⟨r, hrun, hphase, rfl⟩ := State.on_thread_eq_some.1 heffect
        exact .begin hrun hphase
    | check c w =>
        obtain ⟨r, hrun, hphase, rfl⟩ := State.on_thread_eq_some.1 heffect
        exact .check hrun hphase
    | load w =>
        obtain ⟨r, hrun, hphase, rfl⟩ := State.on_thread_eq_some.1 heffect
        exact .load hrun hphase
    | await w =>
        obtain ⟨r, hrun, hphase, rfl⟩ := State.on_thread_eq_some.1 heffect
        exact .await hrun hphase
    | finish w =>
        obtain ⟨r, hrun, hphase, rfl⟩ := State.on_thread_eq_some.1 heffect
        exact .finish hrun hphase
    | progress r downloaded total =>
        obtain ⟨hfuture, heq⟩ := Option.ite_none_left_eq_some.1 heffect
        cases heq
        exact .progress hfuture
  · intro hdoes
    cases hdoes with
    | start | stop | restart | destroy => rfl
    | deliverStop hstops => exact if_neg hstops
    | cancel hpolls | poll hpolls => exact Option.map_eq_some_iff.2 ⟨_, hpolls, rfl⟩
    | runTask hhandler hpolls =>
        simp only [State.effect, hhandler, hpolls, Option.map_some]
    | listen hregistered | listenProduce hregistered =>
        simp only [State.effect, hregistered]
        rfl
    | unlisten hlisteners => exact if_neg hlisteners
    | begin hrun hphase | check hrun hphase | load hrun hphase | await hrun hphase
    | finish hrun hphase => exact State.on_thread_eq_some.2 ⟨_, hrun, hphase, rfl⟩
    | progress hfuture => exact if_neg hfuture

/-- So is a step, which the process has to be alive for. -/
theorem step_eq_some {s s' : State} {e : Event} :
    step s e = some s' ↔ s.crashed = false ∧ s.Does e s' := by
  rw [step, Option.ite_none_left_eq_some, Bool.not_eq_true, effect_eq_some]

/-! ## Sample inputs -/

/-- A network without restrictions, and preferences that were never stored. -/
def unrestricted : Conditions where
  isOnline := true
  isMetered := false
  isRoaming := false
  PREF_UPDATE_METERED := none
  PREF_UPDATE_METERED_SKIP_WARNING := none
  PREF_UPDATE_ROAMING := none

/-- An update whose identifier is "1". -/
def nightly : UpdateInfo where
  mName := "nightly"
  mMd5 := ""
  mUrl := "http://download"
  mTimestamp := "1"

/-- The build of another day. -/
def tomorrow : UpdateInfo := { nightly with mName := "tomorrow", mTimestamp := "2" }

end NamelessCenter.Download
