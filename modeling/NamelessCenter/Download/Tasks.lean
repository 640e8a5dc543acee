import NamelessCenter.Download.Invariant

/-!
# The tasks of the handler

What the main thread does when it runs a task: the registrations on the bus, the tasks that the task
posts, and the state a `tearDown` leaves. `run_task_frame` says this of the other tasks, and
`tear_down_eq` of `tearDown`.
-/

namespace NamelessCenter.Download

open Machine IndexLoop

/-- The registrations on the bus after a task, unless it throws. -/
def Task.onBus : Task → List Ref → Option (List Ref)
  | .startup r, registered => if r ∈ registered then none else some (registered ++ [r])
  | .progress r percentage, registered =>
      if percentage = 101 then
        if r ∈ registered then some (registered.erase r) else none
      else some registered
  | .error r _, registered => if r ∈ registered then some (registered.erase r) else none
  | _, registered => some registered

namespace State

variable {s s' : State}

/-! ## tearDown -/

/-- The state behind a `tearDown` that returns. -/
def tornDown (s : State) : State := (s.withDownloads (s.cancelledAll "")).afterCancel.shutdown

/-- A `tearDown` returns exactly if its loop removes only what has loaded. -/
theorem tear_down_eq (h : s.Sane) :
    s.tearDown s.mWorkQueue.length =
      if ∀ r ∈ removed (s.Matches "") false s.mRunnables, (s.heap r).fileResponseFuture ≠ none then
        some s.tornDown
      else none := by
  rw [tearDown, cancel_download_eq h "" (Nat.le_refl _)]
  by_cases hfutures : ∀ r ∈ removed (s.Matches "") false s.mRunnables,
      (s.heap r).fileResponseFuture ≠ none
  · rw [if_pos ⟨hfutures, rfl⟩, if_pos hfutures]
    rfl
  · rw [if_neg fun hand => hfutures hand.1, if_neg hfutures]
    rfl

/-- What its loop skips stays in the list. -/
theorem torn_down_m_runnables : s.tornDown.mRunnables = kept (s.Matches "") false s.mRunnables := by
  unfold tornDown
  rw [shutdown_to_downloads]
  show (s.withDownloads (s.cancelledAll "")).afterCancel.mRunnables = _
  rw [after_cancel_to_downloads]
  rfl

/-- A `tearDown` leaves half of the runnables. -/
theorem torn_down_length : s.tornDown.mRunnables.length = s.mRunnables.length / 2 := by
  rw [torn_down_m_runnables]
  exact length_kept_of_forall fun r _ => .inl rfl

/-- `shutdownNow` drops what `cancelDownload` left in the queue. -/
theorem torn_down_heap_eq (r : Ref) :
    s.tornDown.heap r =
      if r ∈ s.mWorkQueue then { (s.cancelledAll "").heap r with phase := .dropped }
      else (s.cancelledAll "").heap r := by
  unfold tornDown
  rw [shutdown_to_downloads]
  show (if r ∈ (s.withDownloads (s.cancelledAll "")).afterCancel.mWorkQueue then _ else _) = _
  rw [after_cancel_to_downloads]
  rfl

/-- A cancellation keeps the phases and the percentages. -/
theorem cancelled_all_heap_frame (id : String) (r : Ref) :
    ((s.cancelledAll id).heap r).phase = (s.heap r).phase ∧
      ((s.cancelledAll id).heap r).actualPercentage = (s.heap r).actualPercentage := by
  show (if r ∈ _ then (s.heap r).cancelled else s.heap r).phase = _ ∧
    (if r ∈ _ then (s.heap r).cancelled else s.heap r).actualPercentage = _
  split <;> exact ⟨rfl, rfl⟩

/-- A `tearDown` keeps the futures and the percentages. -/
theorem torn_down_heap (r : Ref) :
    ((s.tornDown.heap r).fileResponseFuture = none ↔ (s.heap r).fileResponseFuture = none) ∧
      (s.tornDown.heap r).actualPercentage = (s.heap r).actualPercentage := by
  have hfuture : ((s.cancelledAll "").heap r).fileResponseFuture = none ↔
      (s.heap r).fileResponseFuture = none := Downloads.cancelled_heap_future_eq_none _ r
  have hactual := (cancelled_all_heap_frame (s := s) "" r).2
  rw [torn_down_heap_eq]
  split <;> exact ⟨hfuture, hactual⟩

/-- The rest of `tearDown` keeps the tasks, the stops and the registrations. -/
theorem shutdown_frame (s : State) :
    s.shutdown.handler = s.handler ∧ s.shutdown.stops = s.stops ∧
      s.shutdown.registered = s.registered ∧ s.shutdown.crashed = s.crashed := by
  unfold shutdown
  dsimp only
  split <;> exact ⟨rfl, rfl, rfl, rfl⟩

/-- The part of the state that the main thread changes in a `tearDown`. -/
theorem torn_down_frame (s : State) :
    s.tornDown.handler = s.handler ++ [.busProgress "-1" 0] ∧
      s.tornDown.stops = s.stops + (if s.mRunnables.length / 2 = 0 then 1 else 0) ∧
      s.tornDown.registered = s.registered ∧ s.tornDown.crashed = s.crashed := by
  obtain ⟨hhandler, hstops, hregistered, hcrashed⟩ :=
    shutdown_frame (s.withDownloads (s.cancelledAll "")).afterCancel
  have hlength : (s.cancelledAll "").mRunnables.length = s.mRunnables.length / 2 :=
    length_kept_of_forall fun r _ => .inl rfl
  unfold tornDown
  rw [hhandler, hstops, hregistered, hcrashed]
  unfold afterCancel
  dsimp only
  have hpost :
      ((s.withDownloads (s.cancelledAll "")).post (.busProgress "-1" 0)).mRunnables.length =
        s.mRunnables.length / 2 := hlength
  rw [hpost]
  split <;> exact ⟨rfl, rfl, rfl, rfl⟩

/-- What a `tearDown` that returns leads to. -/
theorem tear_down_eq_some (h : s.Sane) {size : Nat} (hsize : s.mWorkQueue.length ≤ size)
    (htear : s.tearDown size = some s') : s' = s.tornDown := by
  obtain ⟨t, hcancel, rfl⟩ := Option.map_eq_some_iff.1 htear
  obtain ⟨-, -, rfl⟩ := (cancel_download_eq_some h hsize).1 hcancel
  rfl

/-- The only call on the bus is the unregistration of the service. -/
theorem torn_down_calls (s : State) :
    s.tornDown.calls = s.calls ∨ s.tornDown.calls = s.calls ++ [.unregisterService] := by
  have hcancel : (s.withDownloads (s.cancelledAll "")).afterCancel.calls = s.calls := by
    unfold afterCancel
    dsimp only
    split <;> rfl
  unfold tornDown shutdown
  dsimp only
  split
  · exact .inr (congrArg (· ++ [BusCall.unregisterService]) hcancel)
  · exact .inl hcancel

/-! ## The other tasks -/

/-- The tasks that a task other than `tearDown` posts. -/
def posts (s : State) : Task → List Task
  | .serviceStartup => if s.isRegistered then [] else List.replicate s.listeners .refresh
  | .refresh => s.registered.map fun r => .progress r (s.heap r).actualPercentage
  | _ => []

/-- What a removal from the bus changes, and when it throws. -/
theorem unregister_frame (s : State) (r : Ref) :
    (s.unregister r).handler = s.handler ∧ (s.unregister r).stops = s.stops ∧
      ((if r ∈ s.registered then some (s.registered.erase r) else none) = none →
        (s.unregister r).crashed = true) ∧
      ∀ registered, (if r ∈ s.registered then some (s.registered.erase r) else none) =
        some registered →
        (s.unregister r).registered = registered ∧ (s.unregister r).crashed = s.crashed := by
  unfold unregister
  by_cases hr : r ∈ s.registered
  · simp [hr, call]
  · simp [hr, call, crash]

/-- What a task other than `tearDown` does to the fields of the main thread. -/
theorem run_task_frame (s : State) (size : Nat) {t : Task} (ht : t ≠ .serviceTearDown) :
    (runTask size t s).handler = s.handler ++ s.posts t ∧ (runTask size t s).stops = s.stops ∧
      (t.onBus s.registered = none → (runTask size t s).crashed = true) ∧
      ∀ registered, t.onBus s.registered = some registered →
        (runTask size t s).registered = registered ∧ (runTask size t s).crashed = s.crashed := by
  cases t with
  | serviceTearDown => exact absurd rfl ht
  | startup r =>
      by_cases hr : r ∈ s.registered
      · simp [runTask, register, posts, Task.onBus, hr, crash, call]
      · simp [runTask, register, posts, Task.onBus, hr, call]
  | error r reason =>
      rw [show s.posts (.error r reason) = [] from rfl, List.append_nil]
      exact unregister_frame (s.call (.postError reason)) r
  | progress r percentage =>
      rw [show s.posts (.progress r percentage) = [] from rfl, List.append_nil]
      by_cases hdone : percentage = 101
      · simp only [runTask, Task.onBus, if_pos hdone]
        exact unregister_frame (s.call (.postProgress (s.heap r).id percentage)) r
      · simp only [runTask, Task.onBus, if_neg hdone]
        exact ⟨rfl, rfl, (fun hnone => by cases hnone), fun registered hsome =>
          ⟨Option.some.inj hsome, rfl⟩⟩
  | serviceStartup =>
      simp only [runTask, posts, serviceStartup]
      split <;> exact ⟨by simp [produce, call], rfl, (fun hnone => by cases hnone),
        fun registered hsome => ⟨Option.some.inj hsome, rfl⟩⟩
  | busError reason =>
      exact ⟨(List.append_nil _).symm, rfl, (fun hnone => by cases hnone),
        fun registered hsome => ⟨Option.some.inj hsome, rfl⟩⟩
  | busProgress id percentage =>
      exact ⟨(List.append_nil _).symm, rfl, (fun hnone => by cases hnone),
        fun registered hsome => ⟨Option.some.inj hsome, rfl⟩⟩
  | refresh =>
      exact ⟨rfl, rfl, (fun hnone => by cases hnone),
        fun registered hsome => ⟨Option.some.inj hsome, rfl⟩⟩

/-- The tasks that are posted are neither `tearDown`s nor registrations of the service. -/
theorem count_posts (s : State) (t : Task) :
    (s.posts t).count .serviceTearDown = 0 ∧ (s.posts t).count .serviceStartup = 0 ∧
      (t ≠ .serviceStartup → (s.posts t).count .refresh = 0) ∧
      (t ≠ .serviceStartup → t ≠ .refresh → s.posts t = []) := by
  cases t with
  | serviceStartup =>
      simp only [posts]
      split <;> simp [List.count_replicate]
  | refresh => simp [posts, List.count_eq_zero]
  | _ => simp [posts]

end State

end NamelessCenter.Download
