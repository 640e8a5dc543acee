import NamelessCenter.Download.Service

/-!
# The runnables in every reachable state

`Downloads.Sane` relates the lists of the service to the fields that the pool threads set: runnables
in the work queue have neither thread nor future, a runnable has no future before its load, and one
that is no longer in `mRunnables` had its future cancelled. Every step of the machine keeps it
(`step_sane`), so it holds in every reachable state (`reachable_sane`).
-/

namespace NamelessCenter.Download

open Items

/-- `run` has not been entered. -/
def Phase.beforeRun : Phase → Bool
  | .unborn | .queued | .taken => true
  | _ => false

/-- The load has not been reached, but may be. -/
def Phase.beforeLoad : Phase → Bool
  | .unborn | .queued | .taken | .begun | .checked => true
  | _ => false

/-- The fields that are not set in the phase of the runnable. -/
structure DownloadRunnable.Consistent (o : DownloadRunnable) : Prop where
  thread : o.phase.beforeRun → o.mThread = none
  future : o.phase.beforeLoad → o.fileResponseFuture = none

/-- What holds of the runnables and their lists in every reachable state. -/
structure Downloads.Sane (d : Downloads) : Prop where
  nodup : d.mRunnables.Nodup
  below : ∀ r ∈ d.mRunnables, r < d.next
  unborn : ∀ r, d.next ≤ r → (d.heap r).phase = .unborn
  queue_nodup : d.mWorkQueue.Nodup
  queued : ∀ r ∈ d.mWorkQueue, (d.heap r).phase = .queued
  consistent : ∀ r, (d.heap r).Consistent
  left : ∀ r < d.next, r ∉ d.mRunnables →
    ∃ future, (d.heap r).fileResponseFuture = some future ∧ future.cancelled = true

namespace Downloads

variable {d d' : Downloads}

/-- A runnable that was born has a reference that was given out. -/
theorem Sane.below_next (h : d.Sane) {r : Ref} (hphase : (d.heap r).phase ≠ .unborn) :
    r < d.next := by
  by_contra hle
  exact hphase (h.unborn r (Nat.le_of_not_lt hle))

/-- A runnable that may still load is listed. -/
theorem Sane.listed (h : d.Sane) {r : Ref} (hphase : (d.heap r).phase ≠ .unborn)
    (hfuture : (d.heap r).fileResponseFuture = none) : r ∈ d.mRunnables := by
  by_contra hmem
  obtain ⟨future, hsome, -⟩ := h.left r (h.below_next hphase) hmem
  rw [hfuture] at hsome
  cases hsome

/-- A runnable in the queue has no thread. -/
theorem Sane.queued_thread (h : d.Sane) {r : Ref} (hr : r ∈ d.mWorkQueue) :
    (d.heap r).mThread = none :=
  (h.consistent r).thread (by rw [h.queued r hr]; rfl)

/-- Nor has it a future. -/
theorem Sane.queued_future (h : d.Sane) {r : Ref} (hr : r ∈ d.mWorkQueue) :
    (d.heap r).fileResponseFuture = none :=
  (h.consistent r).future (by rw [h.queued r hr]; rfl)

/-- Steps that do not touch the runnables and the lists keep the invariant. -/
theorem Sane.congr (h : d.Sane) (hheap : d'.heap = d.heap) (hnext : d'.next = d.next)
    (hlist : d'.mRunnables = d.mRunnables) (hqueue : d'.mWorkQueue = d.mWorkQueue) : d'.Sane := by
  obtain ⟨heap, next, runnables, queue, pool⟩ := d'
  subst hheap hnext hlist hqueue
  exact ⟨h.nodup, h.below, h.unborn, h.queue_nodup, h.queued, h.consistent, h.left⟩

/-- A runnable outside the queue may change, if it keeps a future that is set. -/
theorem Sane.modify (h : d.Sane) {r : Ref} {f : DownloadRunnable → DownloadRunnable}
    (hborn : (d.heap r).phase ≠ .unborn) (hqueue : r ∉ d.mWorkQueue)
    (hconsistent : (f (d.heap r)).Consistent)
    (hfuture : ∀ future, (d.heap r).fileResponseFuture = some future →
      (f (d.heap r)).fileResponseFuture = some future) : (d.modify r f).Sane where
  nodup := h.nodup
  below := h.below
  unborn r' hr' := by
    have hne : r' ≠ r := fun heq => absurd (h.below_next hborn) (by
      rw [← heq]
      exact Nat.not_lt.2 hr')
    rw [modify_heap, if_neg hne]
    exact h.unborn r' hr'
  queue_nodup := h.queue_nodup
  queued r' hr' := by
    have hne : r' ≠ r := fun heq => hqueue (heq ▸ hr')
    rw [modify_heap, if_neg hne]
    exact h.queued r' hr'
  consistent r' := by
    rw [modify_heap]
    split
    · exact hconsistent
    · exact h.consistent r'
  left r' hr' hmem := by
    obtain ⟨future, hsome, hcancelled⟩ := h.left r' hr' hmem
    refine ⟨future, ?_, hcancelled⟩
    rw [modify_heap]
    split
    · rename_i heq
      exact hfuture future (heq ▸ hsome)
    · exact hsome

/-- The threads may be changed. -/
theorem Sane.modify_pool (h : d.Sane) (f : ThreadPool → ThreadPool) : (d.modifyPool f).Sane :=
  h.congr rfl rfl rfl rfl

/-- A new runnable is sane. -/
theorem Sane.construct (h : d.Sane) (info : UpdateInfo) : (d.construct info).Sane where
  nodup := List.nodup_append.2 ⟨h.nodup, by simp, fun a ha b hb => by
    rw [List.mem_singleton.1 hb]
    exact Nat.ne_of_lt (h.below a ha)⟩
  below r hr := by
    show r < d.next + 1
    rcases List.mem_append.1 hr with hold | hnew
    · exact Nat.lt_succ_of_lt (h.below r hold)
    · rw [List.mem_singleton.1 hnew]
      exact Nat.lt_succ_self _
  unborn r hr := by
    have hne : r ≠ d.next := by
      rintro rfl
      exact Nat.not_succ_le_self _ hr
    show (Function.update d.heap d.next _ r).phase = _
    rw [Function.update_of_ne hne]
    exact h.unborn r (Nat.le_of_succ_le hr)
  queue_nodup := h.queue_nodup
  queued r hr := by
    have hne : r ≠ d.next := by
      rintro rfl
      have := h.queued _ hr
      rw [h.unborn _ (Nat.le_refl _)] at this
      cases this
    show (Function.update d.heap d.next _ r).phase = _
    rw [Function.update_of_ne hne]
    exact h.queued r hr
  consistent r := by
    show (Function.update d.heap d.next _ r).Consistent
    by_cases heq : r = d.next
    · subst heq
      rw [Function.update_self]
      exact ⟨fun _ => rfl, fun _ => rfl⟩
    · rw [Function.update_of_ne heq]
      exact h.consistent r
  left r hr hmem := by
    obtain ⟨hold, hne⟩ : r ∉ d.mRunnables ∧ r ≠ d.next := by
      simpa [Downloads.construct] using hmem
    show ∃ future, (Function.update d.heap d.next _ r).fileResponseFuture = _ ∧ _
    rw [Function.update_of_ne hne]
    exact h.left r (Nat.lt_of_le_of_ne (Nat.le_of_lt_succ hr) hne) hold

/-- The head of the queue is taken. -/
theorem Sane.dequeue (h : d.Sane) {r : Ref} {queue : List Ref} (hqueue : d.mWorkQueue = r :: queue)
    (pool : Option ThreadPool) :
    ({ d with mThreadPool := pool, mWorkQueue := queue }.modify r
      fun o => { o with phase := .taken }).Sane := by
  have hr : (d.heap r).phase = .queued := h.queued r (hqueue ▸ List.mem_cons_self)
  have hnodup := hqueue ▸ h.queue_nodup
  have hrest : ({ d with mThreadPool := pool, mWorkQueue := queue } : Downloads).Sane :=
    ⟨h.nodup, h.below, h.unborn, (List.nodup_cons.1 hnodup).2,
      fun r' hr' => h.queued r' (hqueue ▸ List.mem_cons_of_mem _ hr'), h.consistent, h.left⟩
  refine hrest.modify (by simp [hr]) (List.nodup_cons.1 hnodup).1 ⟨fun _ => ?_, fun _ => ?_⟩
    (fun _ hsome => hsome)
  · exact (h.consistent r).thread (by rw [hr]; rfl)
  · exact (h.consistent r).future (by rw [hr]; rfl)

/-- A thread takes the head of the queue. -/
theorem Sane.poll (h : d.Sane) {w : Thread} (hpoll : d.poll w = some d') : d'.Sane := by
  unfold Downloads.poll at hpoll
  split at hpoll
  · rename_i pool r queue hpool hqueue
    split at hpoll
    · cases hpoll
      exact h.dequeue hqueue _
    · cases hpoll
  · cases hpoll

/-- Threads take runnables one after the other. -/
theorem Sane.poll_all (h : d.Sane) {ws : List Thread} (hpoll : d.pollAll ws = some d') :
    d'.Sane := by
  induction ws generalizing d with
  | nil =>
      cases hpoll
      exact h
  | cons w ws ih =>
      obtain ⟨e, he, hrest⟩ := Option.bind_eq_some_iff.1 hpoll
      exact ih (h.poll he) hrest

/-- A poll makes the queue shorter by one. -/
theorem poll_length {w : Thread} (hpoll : d.poll w = some d') :
    d'.mWorkQueue.length + 1 = d.mWorkQueue.length := by
  unfold poll at hpoll
  split at hpoll
  · rename_i pool r queue hpool hqueue
    split at hpoll
    · cases hpoll
      rw [hqueue]
      rfl
    · cases hpoll
  · cases hpoll

/-- Every thread that polls takes one runnable from the queue. -/
theorem poll_all_length {ws : List Thread} (hpoll : d.pollAll ws = some d') :
    d'.mWorkQueue.length + ws.length = d.mWorkQueue.length := by
  induction ws generalizing d with
  | nil =>
      cases hpoll
      rfl
  | cons w ws ih =>
      obtain ⟨e, he, hrest⟩ := Option.bind_eq_some_iff.1 hpoll
      have hfirst := poll_length he
      have hothers := ih hrest
      simp only [List.length_cons]
      omega

/-- Polls do not make it longer. -/
theorem poll_all_le {ws : List Thread} (hpoll : d.pollAll ws = some d') :
    d'.mWorkQueue.length ≤ d.mWorkQueue.length := by
  have := poll_all_length hpoll
  omega

/-- A runnable that was constructed and is not yet queued enters the executor. -/
theorem Sane.execute (h : d.Sane) {r : Ref} (hphase : (d.heap r).phase = .queued)
    (hqueue : r ∉ d.mWorkQueue) (hexecute : d.execute r = some d') : d'.Sane := by
  simp only [Downloads.execute] at hexecute
  split at hexecute
  · cases hexecute
  · split at hexecute
    · cases hexecute
      have hpool : ∀ pool, ({ d with mThreadPool := pool } : Downloads).Sane := fun _ =>
        h.congr rfl rfl rfl rfl
      refine (hpool _).modify (by simp [hphase]) hqueue ⟨fun _ => ?_, fun _ => ?_⟩
        (fun _ hsome => hsome)
      · exact (h.consistent r).thread (by rw [hphase]; rfl)
      · exact (h.consistent r).future (by rw [hphase]; rfl)
    · cases hexecute
      refine ⟨h.nodup, h.below, h.unborn, ?_, fun r' hr' => ?_, h.consistent, h.left⟩
      · exact List.nodup_append.2 ⟨h.queue_nodup, by simp, fun a ha b hb => by
          rw [List.mem_singleton.1 hb]
          rintro rfl
          exact hqueue ha⟩
      · rcases List.mem_append.1 hr' with hold | hnew
        · exact h.queued r' hold
        · rw [List.mem_singleton.1 hnew]
          exact hphase

/-- The queue is drained. -/
theorem Sane.shutdown_now (h : d.Sane) : d.shutdownNow.Sane where
  nodup := h.nodup
  below := h.below
  unborn r hr := by
    have hqueue : r ∉ d.mWorkQueue := fun hmem => by
      have := h.queued r hmem
      rw [h.unborn r hr] at this
      cases this
    show (if r ∈ d.mWorkQueue then _ else d.heap r).phase = _
    rw [if_neg hqueue]
    exact h.unborn r hr
  queue_nodup := List.nodup_nil
  queued r hr := by cases hr
  consistent r := by
    show (if r ∈ d.mWorkQueue then _ else d.heap r).Consistent
    split
    · exact ⟨(fun hphase => by cases hphase), (fun hphase => by cases hphase)⟩
    · exact h.consistent r
  left r hr hmem := by
    obtain ⟨future, hsome, hcancelled⟩ := h.left r hr hmem
    refine ⟨future, ?_, hcancelled⟩
    show (if r ∈ d.mWorkQueue then _ else d.heap r).fileResponseFuture = _
    split <;> exact hsome

/-- A cancelled runnable is as consistent as before. -/
theorem Consistent.cancelled {o : DownloadRunnable} (h : o.Consistent) : o.cancelled.Consistent :=
  ⟨h.thread, fun hphase => by simp [DownloadRunnable.cancelled, h.future hphase]⟩

/-- The runnables that the loop removes have loaded, and may be cancelled. -/
theorem Sane.cancelled_all (h : d.Sane) (id : String)
    (hfutures : ∀ r ∈ IndexLoop.removed (d.Matches id) false d.mRunnables,
      (d.heap r).fileResponseFuture ≠ none) : (d.cancelledAll id).Sane := by
  have hphase : ∀ r, ((d.cancelledAll id).heap r).phase = (d.heap r).phase := fun r => by
    show (if r ∈ _ then _ else d.heap r).phase = _
    split <;> rfl
  refine ⟨h.nodup.sublist (IndexLoop.kept_sublist _ _),
    fun r hr => h.below r ((IndexLoop.kept_sublist _ _).subset hr),
    fun r hr => (hphase r).trans (h.unborn r hr), h.queue_nodup,
    fun r hr => (hphase r).trans (h.queued r hr), fun r => ?_, fun r hr hmem => ?_⟩
  · show (if r ∈ _ then (d.heap r).cancelled else d.heap r).Consistent
    split
    · exact Consistent.cancelled (h.consistent r)
    · exact h.consistent r
  · show ∃ future, (if r ∈ _ then (d.heap r).cancelled else d.heap r).fileResponseFuture = _ ∧ _
    by_cases hremoved : r ∈ IndexLoop.removed (d.Matches id) false d.mRunnables
    · rw [if_pos hremoved]
      obtain ⟨future, hsome⟩ := Option.ne_none_iff_exists'.1 (hfutures r hremoved)
      exact ⟨{ future with cancelled := true }, by simp [DownloadRunnable.cancelled, hsome], rfl⟩
    · rw [if_neg hremoved]
      refine h.left r hr fun hlisted => ?_
      rcases IndexLoop.mem_kept_or_removed (p := d.Matches id) false hlisted with hk | hd
      · exact hmem hk
      · exact hremoved hd

end Downloads

/-! ## The steps -/

namespace State

variable {s s' : State}

/-- What `cancelDownload` does, if it does not throw. -/
theorem cancel_download_eq (h : s.Sane) (id : String) {size : Nat}
    (hsize : s.mWorkQueue.length ≤ size) :
    s.cancelDownload id size =
      if (∀ r ∈ IndexLoop.removed (s.Matches id) false s.mRunnables,
          (s.heap r).fileResponseFuture ≠ none) ∧ size = s.mWorkQueue.length then
        some (s.withDownloads (s.cancelledAll id)).afterCancel
      else none := by
  rw [cancelDownload, Downloads.cancel_all_eq id h.nodup hsize fun r hr => h.queued_thread hr]
  split <;> rfl

/-- `cancelDownload` returned: what it needed, and what it left. -/
theorem cancel_download_eq_some (h : s.Sane) {id : String} {size : Nat}
    (hsize : s.mWorkQueue.length ≤ size) :
    s.cancelDownload id size = some s' ↔
      (∀ r ∈ IndexLoop.removed (s.Matches id) false s.mRunnables,
        (s.heap r).fileResponseFuture ≠ none) ∧
      size = s.mWorkQueue.length ∧ s' = (s.withDownloads (s.cancelledAll id)).afterCancel := by
  rw [cancel_download_eq h id hsize]
  split
  · rename_i hcond
    rw [Option.some_inj]
    exact ⟨fun heq => ⟨hcond.1, hcond.2, heq.symm⟩, fun hall => hall.2.2.symm⟩
  · rename_i hcond
    simp only [reduceCtorEq, false_iff]
    exact fun hall => hcond ⟨hall.1, hall.2.1⟩

/-- A call of `cancelDownload` that returns keeps the state sane. -/
theorem cancel_download_sane (h : s.Sane) {id : String} {size : Nat}
    (hsize : s.mWorkQueue.length ≤ size) (hcancel : s.cancelDownload id size = some s') :
    s'.Sane := by
  obtain ⟨hfutures, -, rfl⟩ := (cancel_download_eq_some h hsize).1 hcancel
  rw [after_cancel_to_downloads]
  exact h.cancelled_all id hfutures

/-- So does a `tearDown`. -/
theorem tear_down_sane (h : s.Sane) {size : Nat} (hsize : s.mWorkQueue.length ≤ size)
    (htear : s.tearDown size = some s') : s'.Sane := by
  obtain ⟨t, hcancel, rfl⟩ := Option.map_eq_some_iff.1 htear
  rw [shutdown_to_downloads]
  exact (cancel_download_sane h hsize hcancel).shutdown_now

/-- So does every task of the handler. -/
theorem run_task_sane (h : s.Sane) {size : Nat} (hsize : s.mWorkQueue.length ≤ size) (t : Task) :
    (runTask size t s).Sane := by
  by_cases ht : t = .serviceTearDown
  · subst ht
    show ((s.tearDown size).getD s.crash).Sane
    cases htear : s.tearDown size with
    | none => exact h
    | some s' => exact tear_down_sane h hsize htear
  · rw [run_task_to_downloads s size ht]
    exact h

/-- So does a new runnable, accepted or not. -/
theorem enqueue_sane (h : s.Sane) (info : UpdateInfo) : (s.enqueue info).Sane := by
  have hconstruct := h.construct info
  have hqueue : s.next ∉ s.mWorkQueue := fun hmem => by
    have := h.queued _ hmem
    rw [h.unborn _ (Nat.le_refl _)] at this
    cases this
  have hphase := s.toDownloads.construct_phase info
  unfold enqueue
  split
  · rename_i d hexecute
    exact hconstruct.execute hphase hqueue hexecute
  · have hborn : ((s.construct info).heap s.next).phase ≠ .unborn := by
      rw [hphase]
      decide
    exact hconstruct.modify (r := s.next) (f := fun o => { o with phase := .rejected }) hborn hqueue
      ⟨(fun hlate => by cases hlate), (fun hlate => by cases hlate)⟩ fun _ hsome => hsome

/-- So does an intent. -/
theorem on_start_command_sane (h : s.Sane) (intent : Option Intent) :
    (onStartCommand intent s).Sane := by
  rcases intent with - | ⟨info⟩ | -
  · show (if s.mWorkQueue.length = 0 then s.post .serviceTearDown else s).Sane
    split <;> exact h
  · have hstarted : s.postStartup.Sane := by rwa [post_startup_to_downloads]
    show (if info.mTimestamp = "" then s.postStartup else s.postStartup.enqueue info).Sane
    split
    · exact hstarted
    · exact enqueue_sane hstarted info
  · exact h

/-- A runnable that a thread executes may change. -/
theorem set_sane (h : s.Sane) {r : Ref} {f : DownloadRunnable → DownloadRunnable}
    (hphase : (s.heap r).phase ≠ .unborn ∧ (s.heap r).phase ≠ .queued)
    (hconsistent : (f (s.heap r)).Consistent)
    (hfuture : ∀ future, (s.heap r).fileResponseFuture = some future →
      (f (s.heap r)).fileResponseFuture = some future) : (s.modify r f).Sane :=
  h.modify hphase.1 (fun hmem => hphase.2 (h.queued r hmem)) hconsistent hfuture

/-- So does the end of a run. -/
theorem end_run_sane (h : s.Sane) {w : Thread} {r : Ref}
    (hphase : (s.heap r).phase ≠ .unborn ∧ (s.heap r).phase ≠ .queued) : (s.endRun w r).Sane := by
  have hended : (s.modify r fun o => { o with phase := .ended }).Sane :=
    set_sane h hphase ⟨(fun hlate => by cases hlate), (fun hlate => by cases hlate)⟩
      fun _ hsome => hsome
  exact hended.modify_pool _

/-- So does its beginning. -/
theorem begin_sane (h : s.Sane) {w : Thread} {r : Ref} (hphase : (s.heap r).phase = .taken) :
    (s.begin w r).Sane := by
  have hbegun : (s.modify r fun o => { o with mThread := some w, phase := .begun }).Sane :=
    set_sane h (by simp [hphase])
      ⟨(fun hlate => by cases hlate), fun _ => (h.consistent r).future (by rw [hphase]; rfl)⟩
      fun _ hsome => hsome
  exact hbegun.modify_pool _

/-- So do the checks. -/
theorem check_sane (h : s.Sane) {c : Conditions} {w : Thread} {r : Ref}
    (hphase : (s.heap r).phase = .begun) : (s.check c w r).Sane := by
  have hposted : ∀ tasks, ({ s with handler := tasks } : State).Sane := fun _ => h
  simp only [check]
  split
  · show (s.modify r fun o => { o with phase := .checked }).Sane
    exact set_sane h (by simp [hphase])
      ⟨(fun hlate => by cases hlate), fun _ => (h.consistent r).future (by rw [hphase]; rfl)⟩
      fun _ hsome => hsome
  · exact end_run_sane (hposted _) (by simp [hphase])

/-- So does the load. -/
theorem load_sane (h : s.Sane) {r : Ref} (hphase : (s.heap r).phase = .checked) :
    (s.load r).Sane := by
  show (s.modify r fun o => { o with
    fileResponseFuture := some ⟨o.updateInfo.mUrl, o.updateInfo.getZipName, false⟩
    phase := .loaded }).Sane
  refine set_sane h (by simp [hphase])
    ⟨(fun hlate => by cases hlate), (fun hlate => by cases hlate)⟩ fun future hsome => ?_
  -- the future is set once
  have hnone := (h.consistent r).future (by rw [hphase]; rfl)
  rw [hnone] at hsome
  cases hsome

/-- So does the wait for the future. -/
theorem await_sane (h : s.Sane) {r : Ref} (hphase : (s.heap r).phase = .loaded) :
    (s.await r).Sane := by
  show (s.modify r fun o => { o with phase := .waiting }).Sane
  exact set_sane h (by simp [hphase])
    ⟨(fun hlate => by cases hlate), (fun hlate => by cases hlate)⟩ fun _ hsome => hsome

/-- So does a callback of a runnable that has loaded. -/
theorem on_progress_sane (h : s.Sane) {r : Ref} (hfuture : (s.heap r).fileResponseFuture ≠ none)
    (downloaded total : Int) : (s.onProgress r downloaded total).Sane := by
  have hphase : (s.heap r).phase ≠ .unborn ∧ (s.heap r).phase ≠ .queued := by
    constructor <;> exact fun heq => hfuture ((h.consistent r).future (by rw [heq]; rfl))
  have hset : ∀ actual old, (s.modify r fun o =>
      { o with actualPercentage := actual, oldPercentage := old }).Sane := fun _ _ =>
    set_sane h hphase ⟨(h.consistent r).thread, (h.consistent r).future⟩ fun _ hsome => hsome
  simp only [onProgress]
  split
  · exact hset _ (s.heap r).oldPercentage
  · exact hset _ _

/-- Every step keeps the invariant. -/
theorem step_sane {e : Event} (h : s.Sane) (hstep : step s e = some s') : s'.Sane := by
  obtain ⟨-, hdoes⟩ := step_eq_some.1 hstep
  cases hdoes with
  | start | restart => exact on_start_command_sane h _
  | stop | deliverStop | destroy | listen | listenProduce | unlisten => exact h
  | @cancel id polls d hpolls =>
      have hpolled : (s.withDownloads d).Sane := h.poll_all hpolls
      cases hcancel : (s.withDownloads d).cancelDownload id s.mWorkQueue.length with
      | none => exact hpolled
      | some t => exact cancel_download_sane hpolled (Downloads.poll_all_le hpolls) hcancel
  | runTask hhandler hpolls =>
      exact run_task_sane (h.poll_all hpolls) (Downloads.poll_all_le hpolls) _
  | poll hpoll => exact h.poll hpoll
  | begin hrun hphase => exact begin_sane h hphase
  | check hrun hphase => exact check_sane h hphase
  | load hrun hphase => exact load_sane h hphase
  | await hrun hphase => exact await_sane h hphase
  | finish hrun hphase => exact end_run_sane h (by simp [hphase])
  | progress hfuture => exact on_progress_sane h hfuture _ _

/-- A new process is sane. -/
theorem init_sane : init.Sane where
  nodup := List.nodup_nil
  below r hr := by cases hr
  unborn r _ := rfl
  queue_nodup := List.nodup_nil
  queued r hr := by cases hr
  consistent r := ⟨fun _ => rfl, fun _ => rfl⟩
  left r hr := absurd hr (Nat.not_lt_zero r)

/-- The states that the service can reach in the life of a process. -/
def Reachable (s : State) : Prop := Machine.Reachable step init s

/-- Every reachable state is sane. -/
theorem reachable_sane (h : Reachable s) : s.Sane :=
  h.invariant init_sane step_sane

end State

end NamelessCenter.Download
