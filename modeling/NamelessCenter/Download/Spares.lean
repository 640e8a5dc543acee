import NamelessCenter.Download.Listed

/-!
# Downloads that go on

`Spares u d d'` says that the downloads of all updates but `u` are in `d'` what they were in `d`.
The steps of a runnable of `u` spare the others. A cancellation does exactly if what its loop takes
out of the list is of `u` (`spares_cancelled_all_iff`), and a `tearDown` of the service if there is
nothing else for it to end (`spares_torn_down_iff`).
-/

namespace NamelessCenter.Download

open Items Machine IndexLoop

/-- The downloads of the updates other than `u` go on as before. -/
structure Spares (u : UpdateInfo) (d d' : Downloads) : Prop where
  heap : ∀ r < d.next, (d.heap r).updateInfo ≠ u → d'.heap r = d.heap r
  listed : ∀ r < d.next, (d.heap r).updateInfo ≠ u → (r ∈ d'.mRunnables ↔ r ∈ d.mRunnables)
  queued : ∀ r < d.next, (d.heap r).updateInfo ≠ u → (r ∈ d'.mWorkQueue ↔ r ∈ d.mWorkQueue)
  running : ∀ w r, d.running w = some r → (d.heap r).updateInfo ≠ u → d'.running w = some r
  uninterrupted : ∀ w r, d.running w = some r → (d.heap r).updateInfo ≠ u →
    d'.interrupted w = d.interrupted w

section Spares

variable {u : UpdateInfo} {d d' : Downloads}

/-- A step that does nothing spares everything. -/
theorem Spares.refl (u : UpdateInfo) (d : Downloads) : Spares u d d :=
  ⟨fun _ _ _ => rfl, fun _ _ _ => Iff.rfl, fun _ _ _ => Iff.rfl, fun _ _ h _ => h,
    fun _ _ _ _ => rfl⟩

/-- Only a runnable of `u` changes, and only its thread, or an idle one. -/
theorem Spares.of_one {r : Ref} {w : Thread} (hr : (d.heap r).updateInfo = u)
    (hw : ∀ r', d.running w = some r' → (d.heap r').updateInfo = u)
    (hheap : ∀ r', r' ≠ r → d'.heap r' = d.heap r')
    (hlisted : ∀ r', r' ≠ r → (r' ∈ d'.mRunnables ↔ r' ∈ d.mRunnables))
    (hqueued : ∀ r', r' ≠ r → (r' ∈ d'.mWorkQueue ↔ r' ∈ d.mWorkQueue))
    (hrun : ∀ v, v ≠ w → d'.running v = d.running v)
    (hinterrupted : ∀ v, v ≠ w → d'.interrupted v = d.interrupted v) : Spares u d d' := by
  have hother : ∀ r', (d.heap r').updateInfo ≠ u → r' ≠ r := fun r' hne heq =>
    hne (by rw [heq]; exact hr)
  have hthread : ∀ v r', d.running v = some r' → (d.heap r').updateInfo ≠ u → v ≠ w := by
    intro v r' hv hne heq
    subst heq
    exact hne (hw r' hv)
  exact ⟨fun r' _ hne => hheap r' (hother r' hne),
    fun r' _ hne => hlisted r' (hother r' hne),
    fun r' _ hne => hqueued r' (hother r' hne),
    fun v r' hv hne => (hrun v (hthread v r' hv hne)).trans hv,
    fun v r' hv hne => hinterrupted v (hthread v r' hv hne)⟩

/-- A change of a runnable of `u`. -/
theorem spares_modify {r : Ref} (hr : (d.heap r).updateInfo = u)
    (f : DownloadRunnable → DownloadRunnable) : Spares u d (d.modify r f) where
  heap r' _ hne := Function.update_of_ne (fun heq => hne (by rw [heq]; exact hr)) ..
  listed _ _ _ := Iff.rfl
  queued _ _ _ := Iff.rfl
  running _ _ hw _ := hw
  uninterrupted _ _ _ _ := rfl

/-- Making the executor interrupts nothing. -/
theorem get_thread_pool_executor_interrupted (w : Thread) :
    d.getThreadPoolExecutor.interrupted w = d.interrupted w := by
  unfold Downloads.getThreadPoolExecutor Downloads.interrupted
  cases d.mThreadPool <;> rfl

/-- Nor does a new runnable. -/
theorem execute_interrupted {r : Ref} (hexecute : d.execute r = some d') (w : Thread) :
    d'.interrupted w = d.interrupted w := by
  unfold Downloads.execute at hexecute
  split at hexecute
  · cases hexecute
  · split at hexecute <;>
    · cases hexecute
      exact get_thread_pool_executor_interrupted w

/-- Nor does a poll. -/
theorem poll_interrupted {w : Thread} (hpoll : d.poll w = some d') (v : Thread) :
    d'.interrupted v = d.interrupted v := by
  unfold Downloads.poll at hpoll
  split at hpoll
  · rename_i pool r queue hpool hqueue
    split at hpoll
    · cases hpoll
      simp [Downloads.interrupted, Downloads.modify, hpool]
    · cases hpoll
  · cases hpoll

/-- A new runnable. -/
theorem spares_accepted (hplaced : d.Placed) {info : UpdateInfo}
    (hexecute : (d.construct info).execute d.next = some d') : Spares u d d' := by
  obtain ⟨hmem, hold, hcases⟩ := Downloads.accepted_spec hplaced hexecute
  refine ⟨fun r hborn _ => hold r (Nat.ne_of_lt hborn), fun r hborn _ => ?_, fun r hborn _ => ?_,
    fun w r hw _ => ?_, fun w _ _ _ => execute_interrupted hexecute w⟩
  · exact (hmem r).trans (or_iff_left (Nat.ne_of_lt hborn))
  · rcases hcases with ⟨hqueue, -⟩ | ⟨hqueue, -⟩
    · rw [hqueue]
    · rw [hqueue, List.mem_append, List.mem_singleton]
      exact or_iff_left (Nat.ne_of_lt hborn)
  · rcases hcases with ⟨-, w', hidle, hrun⟩ | ⟨-, hrun⟩
    · have hne : w ≠ w' := fun heq => by
        rw [heq, hidle] at hw
        cases hw
      rw [hrun, if_neg hne, hw]
    · rw [hrun, hw]

/-- A new runnable that is rejected. -/
theorem spares_rejected {info : UpdateInfo} :
    Spares u d ((d.construct info).modify d.next fun o => { o with phase := .rejected }) where
  heap r hborn _ := by
    have hne : r ≠ d.next := Nat.ne_of_lt hborn
    rw [Downloads.modify_heap, if_neg hne]
    exact Function.update_of_ne hne ..
  listed r hborn _ := List.mem_append.trans
    (or_iff_left fun hmem => Nat.ne_of_lt hborn (List.mem_singleton.1 hmem))
  queued _ _ _ := Iff.rfl
  running _ _ hw _ := hw
  uninterrupted _ _ _ _ := rfl

/-- A runnable of `u` is taken from the queue. -/
theorem spares_poll {w : Thread} {r : Ref} (hhead : d.mWorkQueue.head? = some r)
    (hr : (d.heap r).updateInfo = u) (hpoll : d.poll w = some d') : Spares u d d' := by
  obtain ⟨r', queue, hqueue, hqueue', hlist, hheap, -, -, hidle, hrun⟩ := Downloads.poll_spec hpoll
  obtain rfl : r' = r := by
    rw [hqueue] at hhead
    exact Option.some.inj hhead
  refine Spares.of_one (r := r') (w := w) hr (fun r hw => by rw [hidle] at hw; cases hw)
    (fun r hne => ?_) (fun r _ => by rw [hlist]) (fun r hne => ?_) (fun v hne => ?_)
    (fun v _ => poll_interrupted hpoll v)
  · rw [hheap, Downloads.modify_heap, if_neg hne]
  · rw [hqueue, hqueue', List.mem_cons, or_iff_right hne]
  · rw [hrun, if_neg hne]

/-- A step of a thread that runs a runnable of `u`. -/
theorem spares_begin {s : State} {w : Thread} {r : Ref} (hrun : s.running w = some r)
    (hr : (s.heap r).updateInfo = u) : Spares u s.toDownloads (s.begin w r).toDownloads := by
  refine Spares.of_one (r := r) (w := w) hr
    (fun r' hw => by rw [hrun] at hw; cases hw; exact hr) (fun r' hne => ?_) (fun _ _ => Iff.rfl)
    (fun _ _ => Iff.rfl) (fun v _ => ?_) (fun v hne => ?_)
  · exact Function.update_of_ne hne ..
  · show (s.mThreadPool.map _).bind _ = s.mThreadPool.bind _
    cases s.mThreadPool <;> rfl
  · show (s.mThreadPool.map _).any _ = s.mThreadPool.any _
    cases s.mThreadPool with
    | none => rfl
    | some pool => exact Function.update_of_ne hne ..

/-- The end of a run of `u`. -/
theorem spares_end_run {s : State} {w : Thread} {r : Ref} (hrun : s.running w = some r)
    (hr : (s.heap r).updateInfo = u) : Spares u s.toDownloads (s.endRun w r).toDownloads := by
  refine Spares.of_one (r := r) (w := w) hr
    (fun r' hw => by rw [hrun] at hw; cases hw; exact hr) (fun r' hne => ?_) (fun _ _ => Iff.rfl)
    (fun _ _ => Iff.rfl) (fun v hne => ?_) (fun v hne => ?_)
  · exact Function.update_of_ne hne ..
  · rw [Downloads.running_end_run, if_neg hne]
  · show (s.mThreadPool.map _).any _ = s.mThreadPool.any _
    cases s.mThreadPool <;> rfl

/-- What the first loop of `cancelDownload(id)` takes out of the list is of `u`, and no thread
that it interrupts has gone on to another update, unless it was interrupted before. -/
def Reaches (u : UpdateInfo) (id : String) (d : Downloads) : Prop :=
  ∀ r ∈ removed (d.Matches id) false d.mRunnables, (d.heap r).updateInfo = u ∧
    ∀ w ∈ (d.heap r).mThread, ∀ r' ∈ d.running w, (d.heap r').updateInfo ≠ u →
      d.interrupted w = true

/-- The runnables of the others stay in the list exactly if what the loop removes is of `u`. -/
theorem listed_kept_iff (hsane : d.Sane) {id : String} :
    (∀ r < d.next, (d.heap r).updateInfo ≠ u →
        (r ∈ kept (d.Matches id) false d.mRunnables ↔ r ∈ d.mRunnables)) ↔
      ∀ r ∈ removed (d.Matches id) false d.mRunnables, (d.heap r).updateInfo = u := by
  constructor
  · intro hlisted r hr
    have hmem : r ∈ d.mRunnables := (removed_sublist _ _).subset hr
    by_contra hne
    exact not_mem_kept_of_mem_removed hsane.nodup hr
      ((hlisted r (hsane.below r hmem) hne).2 hmem)
  · intro hremoved r _ hne
    refine ⟨fun hkept => (kept_sublist _ _).subset hkept, fun hmem => ?_⟩
    exact (mem_kept_or_removed (p := d.Matches id) false hmem).resolve_right fun hr =>
      hne (hremoved r hr)

/-- A cancellation spares the others exactly if it reaches only runnables of `u`. -/
theorem spares_cancelled_all_iff {s : State} (hsane : s.Sane) {id : String} :
    Spares u s.toDownloads (s.cancelledAll id) ↔ Reaches u id s.toDownloads := by
  constructor
  · intro hspares r hr
    refine ⟨(listed_kept_iff hsane).1 hspares.listed r hr, fun w hw r' hr' hne => ?_⟩
    have hsame := hspares.uninterrupted w r' hr' hne
    rw [State.cancelled_all_interrupted id hr'] at hsame
    rw [← hsame, decide_eq_true ⟨r, hr, hw⟩]
    rfl
  · intro hreaches
    refine ⟨fun r _ hne => ?_, (listed_kept_iff hsane).2 fun r hr => (hreaches r hr).1,
      fun _ _ _ => Iff.rfl, fun w r hw _ => ?_, fun w r hw hne => ?_⟩
    · exact if_neg fun hmem => hne (hreaches r hmem).1
    · rwa [Downloads.running_cancelled_all]
    · rw [State.cancelled_all_interrupted id hw]
      by_cases hinterrupted : ∃ r' ∈ removed (s.Matches id) false s.mRunnables,
          (s.heap r').mThread = some w
      · obtain ⟨r', hmem, hthread⟩ := hinterrupted
        rw [(hreaches r' hmem).2 w hthread r hw hne, Bool.or_true]
      · rw [decide_eq_false hinterrupted, Bool.false_or]

/-! ## tearDown -/

/-- `shutdownNow` interrupts every thread of the pool. -/
theorem shutdown_now_interrupted (w : Thread) :
    d.shutdownNow.interrupted w =
      (decide (w < d.getThreadPoolExecutor.workerCount) || d.interrupted w) := by
  show (decide (w < d.getThreadPoolExecutor.workerCount) ||
    d.getThreadPoolExecutor.interrupted w) = _
  unfold Downloads.getThreadPoolExecutor Downloads.interrupted
  cases d.mThreadPool <;> rfl

/-- A cancellation neither starts nor ends a thread. -/
theorem cancelled_all_worker_count (id : String) :
    (d.cancelledAll id).getThreadPoolExecutor.workerCount =
      d.getThreadPoolExecutor.workerCount := by
  unfold Downloads.cancelledAll Downloads.cancelled Downloads.getThreadPoolExecutor
  cases d.mThreadPool <;> rfl

/-- What a `tearDown` of the service ends is of `u`: what its `cancelDownload` takes out of the
list, what waits in the queue, and what the threads run, apart from those interrupted before. -/
def EndsOnly (u : UpdateInfo) (d : Downloads) : Prop :=
  (∀ r ∈ removed (d.Matches "") false d.mRunnables, (d.heap r).updateInfo = u) ∧
    (∀ r ∈ d.mWorkQueue, (d.heap r).updateInfo = u) ∧
    ∀ w < d.getThreadPoolExecutor.workerCount, ∀ r ∈ d.running w,
      (d.heap r).updateInfo ≠ u → d.interrupted w = true

/-- A `tearDown` spares the others exactly if it ends only runnables of `u`. -/
theorem spares_torn_down_iff (hsane : d.Sane) (hplaced : d.Placed) :
    Spares u d (d.cancelledAll "").shutdownNow ↔ EndsOnly u d := by
  have hinterrupted : ∀ w < d.getThreadPoolExecutor.workerCount,
      (d.cancelledAll "").shutdownNow.interrupted w = true := by
    intro w hw
    rw [shutdown_now_interrupted, cancelled_all_worker_count, decide_eq_true hw, Bool.true_or]
  constructor
  · intro hspares
    refine ⟨(listed_kept_iff hsane).1 hspares.listed, fun r hr => ?_, fun w hw r hrun hne => ?_⟩
    · by_contra hne
      have hborn : r < d.next := hsane.below_next (by rw [hsane.queued r hr]; decide)
      cases (hspares.queued r hborn hne).2 hr
    · rw [← hspares.uninterrupted w r hrun hne]
      exact hinterrupted w hw
  · rintro ⟨hremoved, hqueued, hrunning⟩
    refine ⟨fun r _ hne => ?_, (listed_kept_iff hsane).2 hremoved, fun r _ hne => ?_,
      fun w r hw _ => ?_, fun w r hw hne => ?_⟩
    · have hqueue : r ∉ (d.cancelledAll "").mWorkQueue := fun hmem => hne (hqueued r hmem)
      exact (if_neg hqueue).trans (if_neg fun hmem => hne (hremoved r hmem))
    · exact iff_of_false (List.not_mem_nil) fun hmem => hne (hqueued r hmem)
    · rwa [Downloads.running_shutdown_now, Downloads.running_cancelled_all]
    · have hbelow := hplaced.below w r hw
      rw [hinterrupted w hbelow, hrunning w hbelow r hw hne]

end Spares

end NamelessCenter.Download
