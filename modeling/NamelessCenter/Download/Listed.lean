import NamelessCenter.Download.Changes

/-!
# The list of runnables

`onStartCommand` adds a runnable to `mRunnables` before it hands it to the executor, and only
`cancelDownload` removes it again. `Exact` says that the list holds the runnables that wait in the
work queue or are run by a thread; `listed_iff` shows that a run keeps it exactly if nothing ends a
download but its cancellation.
-/

namespace NamelessCenter.Download

open Items Machine IndexLoop

/-- A thread runs the runnable. -/
def Phase.onThread : Phase → Bool
  | .taken | .begun | .checked | .loaded | .waiting => true
  | .unborn | .queued | .ended | .rejected | .dropped => false

namespace Downloads

variable {d d' : Downloads}

/-- The threads of the pool run different runnables. -/
structure Placed (d : Downloads) : Prop where
  phase : ∀ w r, d.running w = some r → (d.heap r).phase.onThread
  unique : ∀ w w' r, d.running w = some r → d.running w' = some r → w = w'
  below : ∀ w r, d.running w = some r → w < d.getThreadPoolExecutor.workerCount

/-- The runnable waits in the work queue, or a thread runs it. -/
def Live (d : Downloads) (r : Ref) : Prop := r ∈ d.mWorkQueue ∨ ∃ w, d.running w = some r

/-- The future of the runnable has been cancelled. -/
def FutureCancelled (o : DownloadRunnable) : Prop :=
  ∃ future, o.fileResponseFuture = some future ∧ future.cancelled = true

/-- The runnable was cancelled, and its thread is on the way out of `run`. -/
def Unwinding (d : Downloads) (r : Ref) : Prop :=
  (∃ w, d.running w = some r) ∧ FutureCancelled (d.heap r)

/-- The list holds the runnables that are queued or run. -/
def Exact (d : Downloads) : Prop := ∀ r, ¬ d.Unwinding r → (r ∈ d.mRunnables ↔ d.Live r)

/-! ## The threads -/

/-- Making the executor starts no thread. -/
theorem get_thread_pool_executor_running (w : Thread) :
    d.getThreadPoolExecutor.running w = d.running w := by
  unfold getThreadPoolExecutor running
  cases d.mThreadPool <;> rfl

/-- A change of the pool that keeps its threads keeps what they run. -/
theorem running_modify_pool {f : ThreadPool → ThreadPool}
    (hf : ∀ pool, (f pool).running = pool.running) (w : Thread) :
    (d.modifyPool f).running w = d.running w := by
  unfold running modifyPool
  cases d.mThreadPool with
  | none => rfl
  | some pool => exact congrFun (hf pool) w

/-- A change of a runnable does not change which thread runs it. -/
@[simp] theorem running_modify (r : Ref) (f : DownloadRunnable → DownloadRunnable) (w : Thread) :
    (d.modify r f).running w = d.running w := rfl

/-- A cancellation takes no runnable from its thread. -/
@[simp] theorem running_cancelled_all (id : String) (w : Thread) :
    (d.cancelledAll id).running w = d.running w := by
  show (d.cancelled _).getThreadPoolExecutor.running w = _
  rw [get_thread_pool_executor_running]
  unfold running cancelled
  cases d.mThreadPool <;> rfl

/-- Neither does `shutdownNow`. -/
@[simp] theorem running_shutdown_now (w : Thread) : d.shutdownNow.running w = d.running w :=
  get_thread_pool_executor_running w

/-- A run that ends frees its thread. -/
theorem running_end_run (s : State) (w v : Thread) (r : Ref) :
    (s.endRun w r).running v = if v = w then none else s.running v := by
  show ((s.mThreadPool.map fun pool =>
    { pool with running := Function.update pool.running w none }).bind _) = _
  unfold running
  cases s.mThreadPool with
  | none => simp
  | some pool => simp [Function.update_apply]

/-- A new thread runs its first runnable. -/
theorem running_start_thread (r : Ref) (w : Thread) :
    (d.getThreadPoolExecutor.startThread r).running w =
      if w = d.getThreadPoolExecutor.workerCount then some r else d.running w := by
  show Function.update _ _ _ w = _
  rw [Function.update_apply, get_thread_pool_executor_running]

/-- A poll gives the head of the queue to an idle thread. -/
theorem poll_spec {w : Thread} (hpoll : d.poll w = some d') :
    ∃ r queue, d.mWorkQueue = r :: queue ∧ d'.mWorkQueue = queue ∧
      d'.mRunnables = d.mRunnables ∧
      d'.heap = (d.modify r fun o => { o with phase := .taken }).heap ∧
      w < d'.getThreadPoolExecutor.workerCount ∧
      d'.getThreadPoolExecutor.workerCount = d.getThreadPoolExecutor.workerCount ∧
      d.running w = none ∧ ∀ v, d'.running v = if v = w then some r else d.running v := by
  unfold poll at hpoll
  split at hpoll
  · rename_i pool r queue hpool hqueue
    split at hpoll
    · rename_i hidle
      cases hpoll
      have hrunning : ∀ v, d.running v = pool.running v := fun v => by simp [running, hpool]
      have hexecutor : d.getThreadPoolExecutor = pool := by simp [getThreadPoolExecutor, hpool]
      refine ⟨r, queue, hqueue, rfl, rfl, rfl, hidle.2.1, by rw [hexecutor]; rfl, ?_, fun v => ?_⟩
      · rw [hrunning]
        exact hidle.2.2
      · rw [hrunning]
        exact Function.update_apply ..
    · cases hpoll
  · cases hpoll

/-- The executor gives a new runnable to a new thread, or queues it. -/
theorem execute_spec {r : Ref} (hexecute : d.execute r = some d') :
    d'.mRunnables = d.mRunnables ∧
      ((d'.mWorkQueue = d.mWorkQueue ∧
          d'.heap = (d.modify r fun o => { o with phase := .taken }).heap ∧
          d'.getThreadPoolExecutor.workerCount = d.getThreadPoolExecutor.workerCount + 1 ∧
          ∀ v, d'.running v =
            if v = d.getThreadPoolExecutor.workerCount then some r else d.running v) ∨
        d'.mWorkQueue = d.mWorkQueue ++ [r] ∧ d'.heap = d.heap ∧
          d'.getThreadPoolExecutor.workerCount = d.getThreadPoolExecutor.workerCount ∧
          ∀ v, d'.running v = d.running v) := by
  unfold execute at hexecute
  split at hexecute
  · cases hexecute
  · split at hexecute
    · cases hexecute
      exact ⟨rfl, .inl ⟨rfl, rfl, rfl, running_start_thread r⟩⟩
    · cases hexecute
      exact ⟨rfl, .inr ⟨rfl, rfl, rfl, get_thread_pool_executor_running⟩⟩

namespace Placed

/-- A runnable that is not in a phase of its run is run by no thread. -/
theorem not_running (h : d.Placed) {r : Ref} (hoff : (d.heap r).phase.onThread = false)
    (w : Thread) : d.running w ≠ some r := by
  intro hw
  have hon := h.phase w r hw
  rw [hoff] at hon
  cases hon

/-- Threads may become idle, and runnables change their phases as long as their threads run them. -/
theorem mono (h : d.Placed) (hrun : ∀ w r, d'.running w = some r → d.running w = some r)
    (hphase : ∀ w r, d'.running w = some r → (d.heap r).phase.onThread → (d'.heap r).phase.onThread)
    (hcount : d.getThreadPoolExecutor.workerCount ≤ d'.getThreadPoolExecutor.workerCount) :
    d'.Placed where
  phase w r hw := hphase w r hw (h.phase w r (hrun w r hw))
  unique w w' r hw hw' := h.unique w w' r (hrun w r hw) (hrun w' r hw')
  below w r hw := Nat.lt_of_lt_of_le (h.below w r (hrun w r hw)) hcount

/-- A thread takes a runnable that none runs. -/
theorem take (h : d.Placed) {w : Thread} {r : Ref} (hfree : (d.heap r).phase.onThread = false)
    (hrun : ∀ v, d'.running v = if v = w then some r else d.running v)
    (hheap : d'.heap = (d.modify r fun o => { o with phase := .taken }).heap)
    (hcount : d.getThreadPoolExecutor.workerCount ≤ d'.getThreadPoolExecutor.workerCount)
    (hbelow : w < d'.getThreadPoolExecutor.workerCount) : d'.Placed := by
  have hother : ∀ v r', d'.running v = some r' → v = w ∧ r' = r ∨ v ≠ w ∧ r' ≠ r ∧
      d.running v = some r' := by
    intro v r' hv
    rw [hrun] at hv
    split at hv
    · rename_i heq
      exact .inl ⟨heq, (Option.some.inj hv).symm⟩
    · rename_i hne
      exact .inr ⟨hne, fun heq => h.not_running hfree v (heq ▸ hv), hv⟩
  refine ⟨fun v r' hv => ?_, fun v v' r' hv hv' => ?_, fun v r' hv => ?_⟩
  · rw [hheap, modify_heap]
    rcases hother v r' hv with ⟨-, rfl⟩ | ⟨-, hne, hv⟩
    · rw [if_pos rfl]
      rfl
    · rw [if_neg hne]
      exact h.phase v r' hv
  · rcases hother v r' hv with ⟨hw, hr⟩ | ⟨-, hne, hv⟩
    · rcases hother v' r' hv' with ⟨hw', -⟩ | ⟨-, hne, -⟩
      · rw [hw, hw']
      · exact absurd hr hne
    · rcases hother v' r' hv' with ⟨-, hr⟩ | ⟨-, -, hv'⟩
      · exact absurd hr hne
      · exact h.unique v v' r' hv hv'
  · rcases hother v r' hv with ⟨hw, -⟩ | ⟨-, -, hv⟩
    · rw [hw]
      exact hbelow
    · exact Nat.lt_of_lt_of_le (h.below v r' hv) hcount

/-- A poll keeps every runnable in its place. -/
theorem poll (h : d.Placed) (hsane : d.Sane) {w : Thread} (hpoll : d.poll w = some d') :
    d'.Placed := by
  obtain ⟨r, queue, hqueue, -, -, hheap, hbelow, hcount, -, hrun⟩ := poll_spec hpoll
  have hqueued : (d.heap r).phase = .queued :=
    hsane.queued r (by rw [hqueue]; exact List.mem_cons_self)
  exact h.take (by rw [hqueued]; rfl) hrun hheap (Nat.le_of_eq hcount.symm) hbelow

/-- So do several. -/
theorem poll_all (h : d.Placed) (hsane : d.Sane) {ws : List Thread}
    (hpolls : d.pollAll ws = some d') : d'.Placed := by
  induction ws generalizing d with
  | nil =>
      cases hpolls
      exact h
  | cons w ws ih =>
      obtain ⟨e, he, hrest⟩ := Option.bind_eq_some_iff.1 hpolls
      exact ih (h.poll hsane he) (hsane.poll he) hrest

/-- A runnable changes, but stays on its thread. -/
theorem modify (h : d.Placed) (r : Ref) (f : DownloadRunnable → DownloadRunnable)
    (hphase : (d.heap r).phase.onThread → (f (d.heap r)).phase.onThread) :
    (d.modify r f).Placed := by
  refine h.mono (fun w r' hw => hw) (fun w r' _ hon => ?_) (Nat.le_refl _)
  rw [modify_heap]
  split
  · rename_i heq
    exact hphase (heq ▸ hon)
  · exact hon

/-- So does a change of the pool that keeps its threads. -/
theorem modify_pool (h : d.Placed) {f : ThreadPool → ThreadPool}
    (hrun : ∀ pool, (f pool).running = pool.running)
    (hcount : ∀ pool, (f pool).workerCount = pool.workerCount) : (d.modifyPool f).Placed := by
  refine h.mono (fun w r hw => ?_) (fun w r _ hon => hon) ?_
  · rwa [running_modify_pool hrun] at hw
  · show _ ≤ ((d.mThreadPool.map f).getD .new).workerCount
    unfold getThreadPoolExecutor
    cases d.mThreadPool with
    | none => exact Nat.le_refl _
    | some pool => exact Nat.le_of_eq (hcount pool).symm

/-- So does a new runnable. -/
theorem construct (h : d.Placed) (hsane : d.Sane) (info : UpdateInfo) :
    (d.construct info).Placed := by
  refine h.mono (fun w r hw => hw) (fun w r hw hon => ?_) (Nat.le_refl _)
  have hne : r ≠ d.next := fun heq => by
    rw [hsane.unborn r (Nat.le_of_eq heq.symm)] at hon
    cases hon
  show (Function.update d.heap d.next _ r).phase.onThread = true
  rw [Function.update_of_ne hne]
  exact hon

/-- So does a cancellation. -/
theorem cancelled_all (h : d.Placed) (id : String) : (d.cancelledAll id).Placed := by
  refine h.mono (fun w r hw => ?_) (fun w r _ hon => ?_) ?_
  · rwa [running_cancelled_all] at hw
  · show (if r ∈ _ then (d.heap r).cancelled else d.heap r).phase.onThread = true
    split <;> exact hon
  · unfold Downloads.cancelledAll Downloads.cancelled getThreadPoolExecutor
    cases d.mThreadPool <;> exact Nat.le_refl _

/-- So does `shutdownNow`. -/
theorem shutdown_now (h : d.Placed) (hsane : d.Sane) : d.shutdownNow.Placed := by
  refine h.mono (fun w r hw => ?_) (fun w r hw hon => ?_) (Nat.le_refl _)
  · rwa [running_shutdown_now] at hw
  · show (if r ∈ d.mWorkQueue then { d.heap r with phase := .dropped }
      else d.heap r).phase.onThread = true
    split
    · rename_i hmem
      rw [hsane.queued r hmem] at hon
      cases hon
    · exact hon

/-- So does the end of a run. -/
theorem end_run {s : State} (h : s.Placed) {w : Thread} {r : Ref} (hrun : s.running w = some r) :
    (s.endRun w r).Placed := by
  have hother : ∀ v r', (s.endRun w r).running v = some r' → s.running v = some r' ∧ r' ≠ r := by
    intro v r' hv
    rw [running_end_run] at hv
    split at hv
    · cases hv
    · rename_i hne
      exact ⟨hv, fun heq => hne (h.unique v w r (heq ▸ hv) hrun)⟩
  refine h.mono (fun v r' hv => (hother v r' hv).1) (fun v r' hv hon => ?_) ?_
  · show ((s.modify r fun o => { o with phase := .ended }).heap r').phase.onThread = true
    rw [modify_heap, if_neg (hother v r' hv).2]
    exact hon
  · have hpool : (s.endRun w r).mThreadPool = s.mThreadPool.map fun pool =>
        { pool with running := Function.update pool.running w none } := rfl
    unfold getThreadPoolExecutor
    rw [hpool]
    cases s.mThreadPool <;> exact Nat.le_refl _

end Placed

/-! ## The list -/

/-- Without a future, nothing is cancelled. -/
theorem not_future_cancelled {o : DownloadRunnable} (h : o.fileResponseFuture = none) :
    ¬ FutureCancelled o := by
  intro ⟨future, hsome, _⟩
  rw [h] at hsome
  cases hsome

/-- Whether the list is exact depends on who is in it, who lives and who unwinds. -/
theorem exact_congr (hlist : d'.mRunnables = d.mRunnables) (hlive : ∀ r, d'.Live r ↔ d.Live r)
    (hunwinding : ∀ r, d'.Unwinding r ↔ d.Unwinding r) : d'.Exact ↔ d.Exact := by
  unfold Exact
  rw [hlist]
  exact forall_congr' fun r => by rw [hlive, hunwinding]

/-- A runnable changes, but its future is as cancelled as before. -/
theorem exact_modify (r : Ref) (f : DownloadRunnable → DownloadRunnable)
    (hfuture : FutureCancelled (f (d.heap r)) ↔ FutureCancelled (d.heap r)) :
    (d.modify r f).Exact ↔ d.Exact := by
  refine exact_congr rfl (fun _ => Iff.rfl) fun r' => and_congr_right fun _ => ?_
  rw [modify_heap]
  split
  · rename_i heq
    rw [heq]
    exact hfuture
  · rfl

/-- A change of the pool that keeps its threads does not matter. -/
theorem exact_modify_pool {f : ThreadPool → ThreadPool}
    (hrun : ∀ pool, (f pool).running = pool.running) : (d.modifyPool f).Exact ↔ d.Exact := by
  have hsame := running_modify_pool (d := d) hrun
  refine exact_congr rfl (fun r => ?_) fun r => ?_
  · exact or_congr_right (exists_congr fun w => by rw [hsame])
  · exact and_congr_left fun _ => exists_congr fun w => by rw [hsame]

/-- An idle thread takes a runnable. -/
theorem exists_running_iff {w : Thread} {r : Ref} (hidle : d.running w = none)
    (hrun : ∀ v, d'.running v = if v = w then some r else d.running v) (r' : Ref) :
    (∃ v, d'.running v = some r') ↔ (∃ v, d.running v = some r') ∨ r' = r := by
  constructor
  · intro ⟨v, hv⟩
    rw [hrun] at hv
    split at hv
    · exact .inr (Option.some.inj hv).symm
    · exact .inl ⟨v, hv⟩
  · intro h
    rcases h with ⟨v, hv⟩ | rfl
    · refine ⟨v, ?_⟩
      rw [hrun, if_neg fun heq => ?_]
      · exact hv
      · rw [heq, hidle] at hv
        cases hv
    · exact ⟨w, by rw [hrun, if_pos rfl]⟩

/-- Nor does a poll. -/
theorem exact_poll (hsane : d.Sane) {w : Thread} (hpoll : d.poll w = some d') :
    d'.Exact ↔ d.Exact := by
  obtain ⟨r, queue, hqueue, hqueue', hlist, hheap, -, -, hidle, hrun⟩ := poll_spec hpoll
  have hmem : r ∈ d.mWorkQueue := by rw [hqueue]; exact List.mem_cons_self
  have hnone := not_future_cancelled (hsane.queued_future hmem)
  refine exact_congr hlist (fun r' => ?_) fun r' => ?_
  · unfold Live
    rw [exists_running_iff hidle hrun, hqueue, hqueue', List.mem_cons, or_comm (a := r' = r),
      or_assoc, or_comm (a := r' = r)]
  · unfold Unwinding
    rw [exists_running_iff hidle hrun, hheap, modify_heap]
    split
    · rename_i heq
      subst heq
      exact iff_of_false (fun h => hnone h.2) fun h => hnone h.2
    · rename_i hne
      simp [hne]

/-- Nor do several. -/
theorem exact_poll_all (hsane : d.Sane) {ws : List Thread} (hpolls : d.pollAll ws = some d') :
    d'.Exact ↔ d.Exact := by
  induction ws generalizing d with
  | nil =>
      cases hpolls
      rfl
  | cons w ws ih =>
      obtain ⟨e, he, hrest⟩ := Option.bind_eq_some_iff.1 hpolls
      exact (ih (hsane.poll he) hrest).trans (exact_poll hsane he)

/-- A runnable of a reference that is not used yet is neither queued nor run. -/
theorem not_live_of_le (hsane : d.Sane) (hplaced : d.Placed) {r : Ref} (hr : d.next ≤ r) :
    ¬ d.Live r := by
  have hunborn := hsane.unborn r hr
  intro hlive
  rcases hlive with hmem | ⟨w, hw⟩
  · rw [hsane.queued r hmem] at hunborn
    cases hunborn
  · exact hplaced.not_running (by rw [hunborn]; rfl) w hw

/-- The runnable of a start that the executor accepts is listed, and it is queued or run by a new
thread. -/
theorem accepted_spec (hplaced : d.Placed) {info : UpdateInfo}
    (hexecute : (d.construct info).execute d.next = some d') :
    (∀ r, r ∈ d'.mRunnables ↔ r ∈ d.mRunnables ∨ r = d.next) ∧
      (∀ r, r ≠ d.next → d'.heap r = d.heap r) ∧
        ((d'.mWorkQueue = d.mWorkQueue ∧ ∃ w, d.running w = none ∧
            ∀ v, d'.running v = if v = w then some d.next else d.running v) ∨
          d'.mWorkQueue = d.mWorkQueue ++ [d.next] ∧ ∀ v, d'.running v = d.running v) := by
  obtain ⟨hlist, hcases⟩ := execute_spec hexecute
  have hold : ∀ r, r ≠ d.next → (d.construct info).heap r = d.heap r := fun r hne =>
    Function.update_of_ne hne ..
  refine ⟨fun r => ?_, fun r hne => ?_, ?_⟩
  · rw [hlist]
    exact List.mem_append.trans (or_congr_right List.mem_singleton)
  · rcases hcases with ⟨-, hheap, -⟩ | ⟨-, hheap, -⟩
    · rw [hheap, modify_heap, if_neg hne, hold r hne]
    · rw [hheap, hold r hne]
  · rcases hcases with ⟨hqueue, -, -, hrun⟩ | ⟨hqueue, -, -, hrun⟩
    · -- the new thread has not run anything before
      have hidle : d.running d.getThreadPoolExecutor.workerCount = none := by
        by_contra hsome
        obtain ⟨r, hr⟩ := Option.ne_none_iff_exists'.1 hsome
        exact Nat.lt_irrefl _ (hplaced.below _ r hr)
      exact .inl ⟨hqueue, _, hidle, hrun⟩
    · exact .inr ⟨hqueue, hrun⟩

/-- A start that the executor accepts keeps the list exact. -/
theorem exact_accepted (hplaced : d.Placed) (hexact : d.Exact) {info : UpdateInfo}
    (hexecute : (d.construct info).execute d.next = some d') : d'.Exact := by
  obtain ⟨hmem, hold, hcases⟩ := accepted_spec hplaced hexecute
  have hplaces : ∀ r, (d'.Live r ↔ d.Live r ∨ r = d.next) ∧
      (r ≠ d.next → ((∃ v, d'.running v = some r) ↔ ∃ v, d.running v = some r)) := by
    intro r
    unfold Live
    rcases hcases with ⟨hqueue, w, hidle, hrun⟩ | ⟨hqueue, hrun⟩
    · have hthreads := exists_running_iff hidle hrun r
      refine ⟨?_, fun hne => hthreads.trans (or_iff_left hne)⟩
      rw [hthreads, hqueue, or_assoc]
    · have hthreads : (∃ v, d'.running v = some r) ↔ ∃ v, d.running v = some r :=
        exists_congr fun v => by rw [hrun]
      refine ⟨?_, fun _ => hthreads⟩
      rw [hthreads, hqueue, List.mem_append, List.mem_singleton, or_right_comm]
  intro r hr
  rw [hmem, (hplaces r).1]
  by_cases heq : r = d.next
  · exact iff_of_true (.inr heq) (.inr heq)
  · have hbefore : ¬ d.Unwinding r := fun hunwinding =>
      hr ⟨((hplaces r).2 heq).2 hunwinding.1, by rw [hold r heq]; exact hunwinding.2⟩
    rw [hexact r hbefore]

/-- With an empty queue and idle threads, nothing lives. -/
theorem not_live_of_idle (hqueue : d.mWorkQueue = []) (hidle : ∀ w, d.running w = none) {r : Ref} :
    ¬ d.Live r := by
  intro hlive
  rcases hlive with hmem | ⟨w, hw⟩
  · rw [hqueue] at hmem
    cases hmem
  · rw [hidle] at hw
    cases hw

/-- A runnable in the list that is neither queued nor run. -/
theorem not_exact_of_stale {r : Ref} (hlisted : r ∈ d.mRunnables) (hlive : ¬ d.Live r) :
    ¬ d.Exact :=
  fun hexact => hlive ((hexact r fun hunwinding => hlive (.inr hunwinding.1)).1 hlisted)

/-- The runnable of a start that the executor rejects stays listed. -/
theorem not_exact_rejected (hsane : d.Sane) (hplaced : d.Placed) {info : UpdateInfo} :
    ¬ ((d.construct info).modify d.next fun o => { o with phase := .rejected }).Exact := by
  have hlisted : d.next ∈ (d.construct info).mRunnables :=
    List.mem_append_right _ (List.mem_singleton_self _)
  exact not_exact_of_stale hlisted (not_live_of_le hsane hplaced (Nat.le_refl _))

/-- A call of `cancelDownload` takes what it cancels out of the list. -/
theorem exact_cancelled_all (hsane : d.Sane) (hexact : d.Exact) {id : String}
    (hloaded : ¬ d.Unloaded id) : (d.cancelledAll id).Exact := by
  intro r hr
  have hlist : r ∈ (d.cancelledAll id).mRunnables ↔ r ∈ kept (d.Matches id) false d.mRunnables :=
    Iff.rfl
  have hthreads : (∃ w, (d.cancelledAll id).running w = some r) ↔ ∃ w, d.running w = some r :=
    exists_congr fun w => by rw [running_cancelled_all]
  have hlive : (d.cancelledAll id).Live r ↔ d.Live r := or_congr_right hthreads
  have hheap : (d.cancelledAll id).heap r =
      if r ∈ removed (d.Matches id) false d.mRunnables then (d.heap r).cancelled
      else d.heap r := rfl
  rw [hlist, hlive]
  by_cases hremoved : r ∈ removed (d.Matches id) false d.mRunnables
  · -- it has loaded, so that it was run, and now it is on the way out
    exfalso
    have hfuture := not_unloaded_iff.1 hloaded r hremoved
    obtain ⟨future, hsome⟩ := Option.ne_none_iff_exists'.1 hfuture
    have hcancelled : FutureCancelled ((d.cancelledAll id).heap r) := by
      rw [hheap, if_pos hremoved]
      exact ⟨{ future with cancelled := true }, by simp [DownloadRunnable.cancelled, hsome], rfl⟩
    by_cases hunwinding : d.Unwinding r
    · exact hr ⟨hthreads.2 hunwinding.1, hcancelled⟩
    · have hlisted := (removed_sublist _ _).subset hremoved
      rcases (hexact r hunwinding).1 hlisted with hqueued | hrun
      · exact hfuture (hsane.queued_future hqueued)
      · exact hr ⟨hthreads.2 hrun, hcancelled⟩
  · rw [if_neg hremoved] at hheap
    have hunwinding : ¬ d.Unwinding r := fun h => hr ⟨hthreads.2 h.1, by rw [hheap]; exact h.2⟩
    rw [← hexact r hunwinding]
    refine ⟨fun hkept => (kept_sublist _ _).subset hkept, fun hlisted => ?_⟩
    exact (mem_kept_or_removed (p := d.Matches id) false hlisted).resolve_right hremoved

/-- A `tearDown` leaves what it drops from the queue in the list. -/
theorem exact_torn_down_iff (hsane : d.Sane) (hplaced : d.Placed) (hexact : d.Exact)
    (hloaded : ¬ d.Unloaded "") : (d.cancelledAll "").shutdownNow.Exact ↔ d.mWorkQueue = [] := by
  have hrun : ∀ w, (d.cancelledAll "").shutdownNow.running w = d.running w := fun w => by
    rw [running_shutdown_now, running_cancelled_all]
  constructor
  · intro hafter
    by_contra hne
    obtain ⟨r, hr⟩ := List.exists_mem_of_ne_nil _ hne
    have hidle : ¬ ∃ w, (d.cancelledAll "").shutdownNow.running w = some r := by
      intro ⟨w, hw⟩
      rw [hrun] at hw
      exact hplaced.not_running (by rw [hsane.queued r hr]; rfl) w hw
    have hlisted : r ∈ d.mRunnables :=
      hsane.listed (by rw [hsane.queued r hr]; decide) (hsane.queued_future hr)
    have hkept : r ∈ kept (d.Matches "") false d.mRunnables :=
      (mem_kept_or_removed (p := d.Matches "") false hlisted).resolve_right fun hremoved =>
        not_unloaded_iff.1 hloaded r hremoved (hsane.queued_future hr)
    refine not_exact_of_stale hkept (fun hlive => ?_) hafter
    rcases hlive with hqueued | hthread
    · cases hqueued
    · exact hidle hthread
  · intro hnil
    have hheap : (d.cancelledAll "").shutdownNow.heap = (d.cancelledAll "").heap := by
      funext r
      refine if_neg ?_
      show r ∉ d.mWorkQueue
      rw [hnil]
      exact List.not_mem_nil
    have hthreads : ∀ r, (∃ w, (d.cancelledAll "").shutdownNow.running w = some r) ↔
        ∃ w, (d.cancelledAll "").running w = some r := fun r =>
      exists_congr fun w => by rw [running_shutdown_now]
    have hsame : (d.cancelledAll "").shutdownNow.Exact ↔ (d.cancelledAll "").Exact := by
      refine exact_congr rfl (fun r => ?_) fun r => ?_
      · unfold Live
        rw [hthreads]
        show r ∈ [] ∨ _ ↔ r ∈ d.mWorkQueue ∨ _
        rw [hnil]
      · unfold Unwinding
        rw [hthreads, hheap]
    exact hsame.2 (exact_cancelled_all hsane hexact hloaded)

/-- A run that ends leaves its runnable in the list, unless it was cancelled. -/
theorem exact_end_run_iff {s : State} (hsane : s.Sane) (hplaced : s.Placed) (hexact : s.Exact)
    {w : Thread} {r : Ref} (hrun : s.running w = some r) :
    (s.endRun w r).Exact ↔ r ∉ s.mRunnables := by
  have hidle : ¬ ∃ v, (s.endRun w r).running v = some r := by
    intro ⟨v, hv⟩
    rw [running_end_run] at hv
    split at hv
    · cases hv
    · rename_i hne
      exact hne (hplaced.unique v w r hv hrun)
  have hqueue : r ∉ s.mWorkQueue := fun hmem =>
    hplaced.not_running (by rw [hsane.queued r hmem]; rfl) w hrun
  have hlive : ¬ (s.endRun w r).Live r := fun h => h.elim hqueue hidle
  constructor
  · intro hafter hlisted
    exact not_exact_of_stale (d := (s.endRun w r).toDownloads) hlisted hlive hafter
  · intro hlisted r' hr'
    by_cases heq : r' = r
    · subst heq
      exact iff_of_false hlisted hlive
    · have hthreads : (∃ v, (s.endRun w r).running v = some r') ↔ ∃ v, s.running v = some r' := by
        refine exists_congr fun v => ?_
        rw [running_end_run]
        split
        · rename_i hv
          rw [hv, hrun, Option.some_inj]
          exact iff_of_false (by simp) fun h => heq h.symm
        · rfl
      have hheap : (s.endRun w r).heap r' = s.heap r' := by
        show (s.modify r fun o => { o with phase := .ended }).heap r' = _
        rw [modify_heap, if_neg heq]
      have hunwinding : ¬ s.Unwinding r' := fun h => hr' ⟨hthreads.2 h.1, by rw [hheap]; exact h.2⟩
      exact (hexact r' hunwinding).trans (or_congr_right hthreads.symm)

end Downloads

namespace State

variable {s s' : State}

/-- Every event keeps the runnables in their places. -/
theorem step_placed {e : Event} (hsane : s.Sane) (h : s.Placed) (hstep : step s e = some s') :
    s'.Placed := by
  have hchanges := changes_of_step hsane hstep
  generalize s'.toDownloads = d at hchanges
  cases hchanges with
  | idle | unnamed => exact h
  | @accepted info _ hid hexecute =>
      have hconstructed := h.construct hsane info
      have hqueued := s.toDownloads.construct_phase info
      obtain ⟨-, ⟨-, hheap, hcount, hrun⟩ | ⟨-, hheap, hcount, hrun⟩⟩ :=
        Downloads.execute_spec hexecute
      · refine hconstructed.take (by rw [hqueued]; rfl) hrun hheap ?_ ?_
        · rw [hcount]
          exact Nat.le_succ _
        · rw [hcount]
          exact Nat.lt_succ_self _
      · refine hconstructed.mono (fun w r hw => ?_) (fun w r _ hon => ?_) (Nat.le_of_eq hcount.symm)
        · rwa [hrun] at hw
        · rwa [hheap]
  | @rejected info hid hrefuses =>
      have hqueued := s.toDownloads.construct_phase info
      exact (h.construct hsane info).modify _ _ fun hon => by rw [hqueued] at hon; cases hon
  | thrown hpolls | task hpolls => exact h.poll_all hsane hpolls
  | cancelled => exact h.cancelled_all _
  | tornDown htask hloaded =>
      exact (h.cancelled_all "").shutdown_now
        (hsane.cancelled_all "" (Downloads.not_unloaded_iff.1 hloaded))
  | poll hpoll => exact h.poll hsane hpoll
  | begin hrun hphase =>
      exact (h.modify _ (fun o => { o with mThread := some _, phase := .begun })
        fun _ => rfl).modify_pool (fun _ => rfl) fun _ => rfl
  | passed hrun hphase hpasses =>
      exact h.modify _ (fun o => { o with phase := .checked }) fun _ => rfl
  | refused hrun | finish hrun => exact h.end_run hrun
  | load hrun hphase =>
      exact h.modify _ (fun o => { o with
        fileResponseFuture := some ⟨o.updateInfo.mUrl, o.updateInfo.getZipName, false⟩
        phase := .loaded }) fun _ => rfl
  | await hrun hphase => exact h.modify _ (fun o => { o with phase := .waiting }) fun _ => rfl
  | progress hfuture => exact h.modify _ _ fun hon => hon

/-- In a new process, there are none. -/
theorem init_placed : init.Placed where
  phase w r hw := by cases hw
  unique w w' r hw := by cases hw
  below w r hw := by cases hw

/-- An event that leaves nothing in the list: no start is rejected, no download is refused or comes
to its end before it is cancelled, and no `tearDown` drains the queue. -/
def Clears (s : State) : Event → Prop
  | .start info => info.mTimestamp = "" ∨ s.refuses = false
  | .check c _ => (enqueueDownload c).2 = true
  | .finish w => ∀ r ∈ s.running w, r ∉ s.mRunnables
  | .runTask polls => s.handler.head? = some .serviceTearDown → polls = [] →
      s.mWorkQueue = [] ∨ s.Unloaded ""
  | _ => True

/-- The list stays exact exactly if the event clears what it ends. -/
theorem step_exact_iff {e : Event} (hsane : s.Sane) (hplaced : s.Placed) (hexact : s.Exact)
    (hstep : step s e = some s') : s'.Exact ↔ s.Clears e := by
  have hchanges := changes_of_step hsane hstep
  generalize s'.toDownloads = d at hchanges
  cases hchanges with
  | idle hidle =>
      refine iff_of_true hexact ?_
      cases e with
      | stop | deliverStop | restart | destroy | listen | unlisten => trivial
      | _ => cases hidle
  | unnamed hid => exact iff_of_true hexact (.inl hid)
  | @accepted info _ hid hexecute =>
      refine iff_of_true (Downloads.exact_accepted hplaced hexact hexecute) (.inr ?_)
      rcases Downloads.execute_cases (s.construct info) s.next with ⟨-, hnone⟩ | ⟨hopen, -⟩
      · rw [hnone] at hexecute
        cases hexecute
      · exact hopen
  | rejected hid hrefuses =>
      refine iff_of_false (Downloads.not_exact_rejected hsane hplaced) fun h => ?_
      rcases h with hempty | hopen
      · exact hid hempty
      · rw [hrefuses] at hopen
        cases hopen
  | thrown hpolls => exact iff_of_true ((Downloads.exact_poll_all hsane hpolls).2 hexact) trivial
  | cancelled hloaded =>
      exact iff_of_true (Downloads.exact_cancelled_all hsane hexact hloaded) trivial
  | task hpolls hunloaded =>
      exact iff_of_true ((Downloads.exact_poll_all hsane hpolls).2 hexact) fun htask hnil =>
        .inr (hunloaded htask hnil)
  | tornDown htask hloaded =>
      rw [Downloads.exact_torn_down_iff hsane hplaced hexact hloaded]
      exact ⟨fun hnil _ _ => .inl hnil, fun h => (h htask rfl).resolve_right hloaded⟩
  | poll hpoll => exact iff_of_true ((Downloads.exact_poll hsane hpoll).2 hexact) trivial
  | @begin w r hrun hphase =>
      have hmodify := Downloads.exact_modify (d := s.toDownloads) r
        (fun o => { o with mThread := some w, phase := .begun }) Iff.rfl
      have hpool := Downloads.exact_modify_pool (d := s.modify r fun o =>
        { o with mThread := some w, phase := .begun }) (f := fun pool =>
          { pool with interrupted := Function.update pool.interrupted w pool.shutdown })
          fun _ => rfl
      exact iff_of_true (hpool.2 (hmodify.2 hexact)) trivial
  | @passed c w r hrun hphase hpasses =>
      have hmodify := Downloads.exact_modify (d := s.toDownloads) r
        (fun o => { o with phase := .checked }) Iff.rfl
      exact iff_of_true (hmodify.2 hexact) hpasses
  | @refused c w r hrun hphase hrefused =>
      -- a download that is refused has no future, and without one it is listed
      have hnone := (hsane.consistent r).future (by rw [hphase]; rfl)
      have hlisted : r ∈ s.mRunnables := hsane.listed (by rw [hphase]; decide) hnone
      rw [Downloads.exact_end_run_iff hsane hplaced hexact hrun]
      refine iff_of_false (not_not_intro hlisted) fun hpasses => ?_
      have hpasses : (enqueueDownload c).2 = true := hpasses
      rw [hrefused] at hpasses
      cases hpasses
  | @load w r hrun hphase =>
      have hnone := (hsane.consistent r).future (by rw [hphase]; rfl)
      have hmodify := Downloads.exact_modify (d := s.toDownloads) r
        (fun o => { o with
          fileResponseFuture := some ⟨o.updateInfo.mUrl, o.updateInfo.getZipName, false⟩
          phase := .loaded })
        (iff_of_false (fun ⟨future, hsome, hcancelled⟩ => by cases hsome; cases hcancelled)
          (Downloads.not_future_cancelled hnone))
      exact iff_of_true (hmodify.2 hexact) trivial
  | @await w r hrun hphase =>
      have hmodify := Downloads.exact_modify (d := s.toDownloads) r
        (fun o => { o with phase := .waiting }) Iff.rfl
      exact iff_of_true (hmodify.2 hexact) trivial
  | @finish w r hrun hphase =>
      rw [Downloads.exact_end_run_iff hsane hplaced hexact hrun, Clears, hrun]
      simp
  | @progress r downloaded total hfuture =>
      have hmodify := Downloads.exact_modify (d := s.toDownloads) r
        (fun o => { o with
          actualPercentage := percentage downloaded total
          oldPercentage := percentage downloaded total }) Iff.rfl
      exact iff_of_true (hmodify.2 hexact) trivial

/-- In every run, the list holds exactly the runnables that are queued or run, if and only if no
start is rejected, no download is refused or ends before it is cancelled, and no `tearDown` returns
while runnables are queued. -/
theorem listed_iff {es : List Event} (hrun : run step init es = some s) :
    Throughout step (fun s => s.Exact) init es ↔ Along step Clears init es := by
  have hexact : init.Exact := fun r _ =>
    iff_of_false List.not_mem_nil fun hlive =>
      hlive.elim List.not_mem_nil fun ⟨w, hw⟩ => by cases hw
  exact throughout_iff_along (J := fun s => s.Sane ∧ s.Placed)
    (fun hJ hstep => ⟨step_sane hJ.1 hstep, step_placed hJ.1 hJ.2 hstep⟩)
    (fun hJ => step_exact_iff hJ.1 hJ.2) ⟨init_sane, init_placed⟩ hexact hrun

instance (d : Downloads) (id : String) : Decidable (d.Unloaded id) :=
  inferInstanceAs (Decidable (∃ r ∈ _, _ = none))

instance (s : State) : DecidablePred (Clears s)
  | .start _ => inferInstanceAs (Decidable (_ ∨ _))
  | .check _ _ => inferInstanceAs (Decidable (_ = true))
  | .finish _ => inferInstanceAs (Decidable (∀ r ∈ _, _ ∉ _))
  | .runTask _ => inferInstanceAs (Decidable (_ = _ → _ = _ → _ ∨ _))
  | .stop | .deliverStop | .restart | .destroy | .cancel .. | .listen | .unlisten | .poll _
  | .begin _ | .load _ | .await _ | .progress .. => .isTrue trivial

/-- A download that is cancelled leaves the list. -/
theorem listed_cancelled :
    Throughout step (fun s => s.Exact) init
      [.start nightly, .begin 0, .check unrestricted 0, .load 0, .await 0, .cancel "1" [],
        .finish 0] :=
  have hrun : run step init [.start nightly, .begin 0, .check unrestricted 0, .load 0, .await 0,
    .cancel "1" [], .finish 0] = some _ := rfl
  (listed_iff hrun).2 (by decide)

/-- A download that completes stays in the list, with nothing queued and no thread at work. -/
theorem completed_stays_listed :
    ∃ s, Reachable s ∧ s.mRunnables = [0] ∧ s.mWorkQueue = [] ∧ (∀ w, s.running w = none) ∧
      ¬ s.Exact := by
  have hreach : Reachable _ :=
    ⟨[.start nightly, .begin 0, .check unrestricted 0, .load 0, .await 0, .finish 0], rfl⟩
  refine ⟨_, hreach, rfl, rfl, ?idle, Downloads.not_exact_of_stale (r := 0) (by decide)
    (Downloads.not_live_of_idle rfl ?idle)⟩
  case idle =>
    intro w
    show (State.endRun _ 0 0).running w = none
    rw [Downloads.running_end_run]
    split
    · rfl
    · rename_i hne
      exact Function.update_of_ne hne (some 0) fun _ => none

end State

end NamelessCenter.Download
