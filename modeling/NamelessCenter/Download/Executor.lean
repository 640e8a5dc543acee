import NamelessCenter.Lib.IndexLoop
import NamelessCenter.Download.Runnable

/-!
# The runnables and the executor of DownloadService.java

`Downloads` holds the static fields `mRunnables`, `mWorkQueue` and `mThreadPool` of the service and
the objects they refer to. The executor is a `ThreadPoolExecutor` with four core threads and an
unbounded queue: it starts a thread for each of the first four runnables, queues the others, and
refuses every runnable after `shutdownNow`. It creates no thread beyond the fourth, and no thread of
a running pool dies.
-/

namespace NamelessCenter.Download

open Items

/-- The threads of a `ThreadPoolExecutor`, and whether it was shut down. -/
@[ext] structure ThreadPool where
  shutdown : Bool
  workerCount : Nat
  /-- The runnable a thread executes. -/
  running : Thread → Option Ref
  interrupted : Thread → Bool

/-- `new ThreadPoolExecutor(4, 4, 1, TimeUnit.SECONDS, mWorkQueue)`. -/
def ThreadPool.new : ThreadPool where
  shutdown := false
  workerCount := 0
  running := fun _ => none
  interrupted := fun _ => false

/-- A new thread begins with a runnable. -/
def ThreadPool.startThread (pool : ThreadPool) (r : Ref) : ThreadPool :=
  { pool with
    workerCount := pool.workerCount + 1
    running := Function.update pool.running pool.workerCount (some r) }

/-- The runnables with the lists and the executor that hold them. -/
@[ext] structure Downloads where
  heap : Ref → DownloadRunnable
  /-- The first reference that has not been allocated. -/
  next : Ref
  mRunnables : List Ref
  mWorkQueue : List Ref
  mThreadPool : Option ThreadPool

namespace Downloads

variable (d : Downloads)

/-- Change a runnable. -/
def modify (r : Ref) (f : DownloadRunnable → DownloadRunnable) : Downloads :=
  { d with heap := Function.update d.heap r (f (d.heap r)) }

/-- Change the pool, if there is one. -/
def modifyPool (f : ThreadPool → ThreadPool) : Downloads :=
  { d with mThreadPool := d.mThreadPool.map f }

/-- `getThreadPoolExecutor()`, which makes the executor at its first use. -/
def getThreadPoolExecutor : ThreadPool := d.mThreadPool.getD .new

/-- The runnable a thread executes. -/
def running (w : Thread) : Option Ref := d.mThreadPool.bind fun pool => pool.running w

/-- Whether a thread is interrupted. -/
def interrupted (w : Thread) : Bool := d.mThreadPool.any fun pool => pool.interrupted w

/-- `new DownloadRunnable(this, id, info)` and `mRunnables.add(runnable)`. -/
def construct (info : UpdateInfo) : Downloads :=
  { d with
    heap := Function.update d.heap d.next (.new info.mTimestamp info .queued)
    next := d.next + 1
    mRunnables := d.mRunnables ++ [d.next] }

/-! ## The executor -/

/-- `getThreadPoolExecutor().execute(runnable)`; `none` is a `RejectedExecutionException`. -/
def execute (r : Ref) : Option Downloads :=
  if d.getThreadPoolExecutor.shutdown then none
  else if d.getThreadPoolExecutor.workerCount < 4 then
    some ({ d with mThreadPool := some (d.getThreadPoolExecutor.startThread r) }.modify r
      fun o => { o with phase := .taken })
  else
    some { d with
      mThreadPool := some d.getThreadPoolExecutor
      mWorkQueue := d.mWorkQueue ++ [r] }

/-- An idle thread takes the head of the work queue. -/
def poll (w : Thread) : Option Downloads :=
  match d.mThreadPool, d.mWorkQueue with
  | some pool, r :: queue =>
      if pool.shutdown = false ∧ w < pool.workerCount ∧ pool.running w = none then
        let polled := { pool with running := Function.update pool.running w (some r) }
        some ({ d with mThreadPool := some polled, mWorkQueue := queue }.modify r
          fun o => { o with phase := .taken })
      else none
  | _, _ => none

/-- Several threads take runnables, one after the other. -/
def pollAll (ws : List Thread) : Option Downloads := ws.foldlM poll d

/-- `getThreadPoolExecutor().shutdownNow()`: the queue is drained and the threads interrupted. -/
def shutdownNow : Downloads :=
  let pool := d.getThreadPoolExecutor
  { d with
    heap := fun r =>
      if r ∈ d.mWorkQueue then { d.heap r with phase := .dropped } else d.heap r
    mWorkQueue := []
    mThreadPool := some { pool with
      shutdown := true
      interrupted := fun w => decide (w < pool.workerCount) || pool.interrupted w } }

/-! ## cancelDownload -/

/-- `TextUtils.isEmpty(id) || TextUtils.equals(runnable.getId(), id)`. -/
def Matches (id : String) (r : Ref) : Prop := id = "" ∨ (d.heap r).id = id

instance (id : String) : DecidablePred (d.Matches id) :=
  fun r => inferInstanceAs (Decidable (id = "" ∨ (d.heap r).id = id))

/-- `mThread.interrupt()`. -/
def interrupt (w : Thread) : Downloads :=
  d.modifyPool fun pool => { pool with interrupted := Function.update pool.interrupted w true }

/-- `runnable.mThread.interrupt()`, where a null pointer is caught. -/
def interruptThread (r : Ref) : Downloads :=
  match (d.heap r).mThread with
  | none => d
  | some w => d.interrupt w

/-- `runnable.fileResponseFuture.cancel(true)`; `none` is a `NullPointerException`. -/
def cancelFuture (r : Ref) : Option Downloads :=
  (d.heap r).fileResponseFuture.map fun future =>
    d.modify r fun o => { o with fileResponseFuture := some { future with cancelled := true } }

/-- What the first loop does to a runnable that matches, apart from removing it. -/
def cancelRunnable (r : Ref) : Option Downloads :=
  (d.cancelFuture r).map fun d => d.interruptThread r

/-- `mWorkQueue.toArray(runnableArray)` for an array of the given size: the elements behind those
of the queue are null, and a queue that does not fit leaves the array as it is. -/
def toArray (size : Nat) (queue : List Ref) : List (Option Ref) :=
  if queue.length ≤ size then queue.map some ++ List.replicate (size - queue.length) none
  else List.replicate size none

/-- One iteration of the second loop. The exceptions of the `try` block are ignored, that of
`runnableArray[i].mThread` on a null element is not. -/
def cancelQueued (id : String) (d : Downloads) : Option Ref → Option Downloads
  | none => none
  | some r =>
      if (d.heap r).mThread ≠ none ∧ d.Matches id r then
        match d.cancelFuture r with
        | none => some d
        | some cancelled =>
            let thread := cancelled.interruptThread r
            some { thread with mWorkQueue := thread.mWorkQueue.erase r }
      else some d

/-- The synchronized block of `cancelDownload`, with the length of the work queue that was read
before. `purge` removes cancelled futures from the queue, which holds none; it creates the pool. -/
def cancelAll (id : String) (size : Nat) : Option Downloads := do
  let array := toArray size d.mWorkQueue
  let (runnables, first) ←
    IndexLoop.loop (d.Matches id) (fun r d => d.cancelRunnable r) d.mRunnables.length 0
      d.mRunnables d
  let second ← array.foldlM (cancelQueued id) { first with mRunnables := runnables }
  pure { second with mThreadPool := some second.getThreadPoolExecutor }

/-! ## What the loops do -/

/-- A runnable that is modified is the only one to change. -/
@[simp] theorem modify_heap (r r' : Ref) (f : DownloadRunnable → DownloadRunnable) :
    (d.modify r f).heap r' = if r' = r then f (d.heap r) else d.heap r' := by
  simp [modify, Function.update_apply]

/-- A new runnable waits in the queue. -/
theorem construct_phase (info : UpdateInfo) : ((d.construct info).heap d.next).phase = .queued := by
  show (Function.update d.heap d.next _ d.next).phase = _
  rw [Function.update_self]
  rfl

/-- The runnables `rs` with their futures cancelled and their threads interrupted. -/
def cancelled (rs : List Ref) : Downloads :=
  { d with
    heap := fun r => if r ∈ rs then (d.heap r).cancelled else d.heap r
    mThreadPool := d.mThreadPool.map fun pool => { pool with
      interrupted := fun w =>
        decide (∃ r ∈ rs, (d.heap r).mThread = some w) || pool.interrupted w } }

/-- The state after a call of `cancelDownload` that returns. -/
def cancelledAll (id : String) : Downloads :=
  let after := d.cancelled (IndexLoop.removed (d.Matches id) false d.mRunnables)
  { after with
    mRunnables := IndexLoop.kept (d.Matches id) false d.mRunnables
    mThreadPool := some after.getThreadPoolExecutor }

variable {d}

/-- Only the runnable that enters the executor changes, by its phase. -/
theorem execute_heap {d' : Downloads} {r : Ref} (hexecute : d.execute r = some d') (r' : Ref) :
    d'.heap r' = d.heap r' ∨ r' = r ∧ d'.heap r' = { d.heap r' with phase := .taken } := by
  unfold execute at hexecute
  split at hexecute
  · cases hexecute
  · split at hexecute
    · cases hexecute
      rw [modify_heap]
      split
      · rename_i heq
        exact .inr ⟨heq, by rw [heq]⟩
      · exact .inl rfl
    · cases hexecute
      exact .inl rfl

/-- Only the head of the queue changes, by its phase. -/
theorem poll_heap {d' : Downloads} {w : Thread} (hpoll : d.poll w = some d') :
    (∀ r, d'.heap r = d.heap r ∨
      r ∈ d.mWorkQueue ∧ d'.heap r = { d.heap r with phase := .taken }) ∧
      d'.mWorkQueue ⊆ d.mWorkQueue := by
  unfold poll at hpoll
  split at hpoll
  · rename_i pool r queue hpool hqueue
    split at hpoll
    · cases hpoll
      refine ⟨fun r' => ?_, ?_⟩
      · rw [modify_heap]
        split
        · rename_i heq
          exact .inr ⟨by rw [hqueue, heq]; exact List.mem_cons_self, by rw [heq]⟩
        · exact .inl rfl
      · rw [hqueue]
        exact List.subset_cons_self _ _
    · cases hpoll
  · cases hpoll

/-- Cancelling the future throws exactly if there is none. -/
theorem cancel_future_eq (r : Ref) :
    d.cancelFuture r =
      if (d.heap r).fileResponseFuture = none then none
      else some (d.modify r DownloadRunnable.cancelled) := by
  unfold cancelFuture
  cases hfuture : (d.heap r).fileResponseFuture with
  | none => rfl
  | some future => simp [modify, DownloadRunnable.cancelled, hfuture]

/-- Interrupting the thread completes the cancellation. -/
theorem interrupt_thread_eq (r : Ref) :
    (d.modify r DownloadRunnable.cancelled).interruptThread r = d.cancelled [r] := by
  have hthread : ((d.modify r DownloadRunnable.cancelled).heap r).mThread = (d.heap r).mThread := by
    simp [DownloadRunnable.cancelled]
  have hheap : (d.modify r DownloadRunnable.cancelled).heap = (d.cancelled [r]).heap := by
    funext r'
    by_cases h : r' = r
    · simp [cancelled, h]
    · simp [cancelled, h]
  unfold interruptThread
  rw [hthread]
  cases hw : (d.heap r).mThread with
  | none =>
      refine Downloads.ext hheap rfl rfl rfl ?_
      show d.mThreadPool = _
      simp [cancelled, hw]
  | some w =>
      refine Downloads.ext hheap rfl rfl rfl ?_
      show d.mThreadPool.map _ = d.mThreadPool.map _
      congr 1
      funext pool
      refine ThreadPool.ext rfl rfl rfl (funext fun v => ?_)
      by_cases h : v = w
      · simp [h, hw]
      · simp [h, hw, Ne.symm h]

/-- Cancelling a runnable throws exactly if it has not loaded. -/
theorem cancel_runnable_eq (r : Ref) :
    d.cancelRunnable r =
      if (d.heap r).fileResponseFuture = none then none else some (d.cancelled [r]) := by
  rw [cancelRunnable, cancel_future_eq]
  split
  · rfl
  · rw [Option.map_some, interrupt_thread_eq]

/-- A cancellation keeps the threads of the runnables. -/
@[simp] theorem cancelled_heap_m_thread (rs : List Ref) (r : Ref) :
    ((d.cancelled rs).heap r).mThread = (d.heap r).mThread := by
  simp only [cancelled]
  split <;> rfl

/-- It neither makes a future nor removes one. -/
theorem cancelled_heap_future_eq_none (rs : List Ref) (r : Ref) :
    ((d.cancelled rs).heap r).fileResponseFuture = none ↔
      (d.heap r).fileResponseFuture = none := by
  simp only [cancelled]
  split
  · simp [DownloadRunnable.cancelled]
  · rfl

/-- Runnables can be cancelled one after the other. -/
theorem cancelled_cons (r : Ref) (rs : List Ref) :
    (d.cancelled [r]).cancelled rs = d.cancelled (r :: rs) := by
  refine Downloads.ext (funext fun r' => ?_) rfl rfl rfl ?_
  · simp only [cancelled, List.mem_cons]
    by_cases hr : r' = r
    · subst hr
      simp
    · simp [hr]
  · show (d.mThreadPool.map _).map _ = d.mThreadPool.map _
    rw [Option.map_map]
    congr 1
    funext pool
    refine ThreadPool.ext rfl rfl rfl (funext fun w => ?_)
    simp only [Function.comp_apply, cancelled_heap_m_thread]
    simp [Bool.or_assoc, Bool.or_left_comm]

/-- The first loop cancels the runnables it removes, unless one of them has no future. -/
theorem foldl_m_cancel_runnable (rs : List Ref) :
    rs.foldlM (fun d r => d.cancelRunnable r) d =
      if ∀ r ∈ rs, (d.heap r).fileResponseFuture ≠ none then some (d.cancelled rs) else none := by
  induction rs generalizing d with
  | nil =>
      have hnil : d.cancelled [] = d := by
        refine Downloads.ext (by simp [cancelled]) rfl rfl rfl ?_
        show d.mThreadPool.map _ = _
        simp
      simp [hnil]
  | cons r rs ih =>
      rw [List.foldlM_cons, cancel_runnable_eq]
      by_cases hfuture : (d.heap r).fileResponseFuture = none
      · simp [hfuture]
      · simp only [hfuture, if_false, Option.bind_eq_bind, Option.bind_some]
        rw [ih, cancelled_cons]
        simp [cancelled_heap_future_eq_none, hfuture]

/-- The second loop does nothing to runnables that no thread has begun, and fails on a null. -/
theorem foldl_m_cancel_queued (id : String) {size : Nat} {queue : List Ref}
    (hsize : queue.length ≤ size) (hthread : ∀ r ∈ queue, (d.heap r).mThread = none) :
    (toArray size queue).foldlM (cancelQueued id) d =
      if size = queue.length then some d else none := by
  rw [toArray, if_pos hsize, List.foldlM_append]
  have hqueue : (queue.map some).foldlM (cancelQueued id) d = some d := by
    clear hsize
    induction queue with
    | nil => rfl
    | cons r queue ih =>
        have hnone : cancelQueued id d (some r) = some d := by
          simp [cancelQueued, hthread r List.mem_cons_self]
        rw [List.map_cons, List.foldlM_cons, hnone]
        exact ih fun r hr => hthread r (List.mem_cons_of_mem _ hr)
  rw [hqueue]
  obtain ⟨nulls, rfl⟩ : ∃ nulls, size = queue.length + nulls := ⟨size - queue.length, by omega⟩
  cases nulls with
  | zero => simp
  | succ n =>
      rw [if_neg (by omega), show queue.length + (n + 1) - queue.length = n + 1 by omega,
        List.replicate_succ]
      rfl

/-- `cancelDownload` returns exactly if the runnables its first loop removes have futures and no
thread has taken a runnable since the length of the queue was read. -/
theorem cancel_all_eq (id : String) {size : Nat} (hnodup : d.mRunnables.Nodup)
    (hsize : d.mWorkQueue.length ≤ size)
    (hthread : ∀ r ∈ d.mWorkQueue, (d.heap r).mThread = none) :
    d.cancelAll id size =
      if (∀ r ∈ IndexLoop.removed (d.Matches id) false d.mRunnables,
          (d.heap r).fileResponseFuture ≠ none) ∧ size = d.mWorkQueue.length then
        some (d.cancelledAll id)
      else none := by
  rw [cancelAll, IndexLoop.loop_eq _ hnodup, foldl_m_cancel_runnable]
  by_cases hfutures : ∀ r ∈ IndexLoop.removed (d.Matches id) false d.mRunnables,
      (d.heap r).fileResponseFuture ≠ none
  · rw [if_pos hfutures]
    simp only [Option.map_some, Option.bind_eq_bind, Option.bind_some]
    rw [foldl_m_cancel_queued id hsize (by simpa using hthread)]
    by_cases heq : size = d.mWorkQueue.length
    · rw [if_pos heq, if_pos ⟨hfutures, heq⟩]
      rfl
    · rw [if_neg heq, if_neg fun h => heq h.2]
      rfl
  · rw [if_neg hfutures, if_neg fun h => hfutures h.1]
    rfl

end Downloads

end NamelessCenter.Download
