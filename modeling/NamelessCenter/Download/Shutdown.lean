import NamelessCenter.Download.Invariant

/-!
# The executor after a shutdown

`tearDown` shuts the executor down and leaves it in the static field, so that
`getThreadPoolExecutor` keeps returning it: the service accepts downloads exactly as long as no
`tearDown` has run in the process (`accepts_iff_not_torn_down`).
-/

namespace NamelessCenter.Download

open Machine

namespace Downloads

variable {d d' : Downloads}

/-- The executor has been shut down. -/
def refuses (d : Downloads) : Bool := d.getThreadPoolExecutor.shutdown

/-- A change of a runnable does not open or shut the executor. -/
@[simp] theorem modify_refuses (r : Ref) (f : DownloadRunnable → DownloadRunnable) :
    (d.modify r f).refuses = d.refuses := rfl

/-- Nor does a change of the pool that keeps its mark. -/
theorem modify_pool_refuses {f : ThreadPool → ThreadPool}
    (hf : ∀ pool, (f pool).shutdown = pool.shutdown) : (d.modifyPool f).refuses = d.refuses := by
  unfold refuses getThreadPoolExecutor modifyPool
  cases d.mThreadPool with
  | none => rfl
  | some pool => exact hf pool

/-- The executor takes a runnable exactly if it has not been shut down. -/
theorem execute_cases (d : Downloads) (r : Ref) :
    d.refuses = true ∧ d.execute r = none ∨
      d.refuses = false ∧ ∃ d', d.execute r = some d' ∧ d'.refuses = false ∧
        (r ∈ d'.mWorkQueue ∨ ∃ w, d'.running w = some r) ∧
        ((d.heap r).phase = .queued → (d'.heap r).phase ≠ .rejected) := by
  unfold execute
  cases hshutdown : d.getThreadPoolExecutor.shutdown with
  | true => exact .inl ⟨hshutdown, rfl⟩
  | false =>
      refine .inr ⟨hshutdown, ?_⟩
      simp only [Bool.false_eq_true, if_false]
      split
      · refine ⟨_, rfl, hshutdown, .inr ⟨d.getThreadPoolExecutor.workerCount, ?_⟩, fun _ => ?_⟩
        · simp [running, modify, ThreadPool.startThread]
        · simp
      · refine ⟨_, rfl, hshutdown, .inl (List.mem_append_right _ List.mem_cons_self), ?_⟩
        intro hphase
        show (d.heap r).phase ≠ .rejected
        rw [hphase]
        decide

/-- Nor does a poll. -/
theorem poll_refuses {w : Thread} (hpoll : d.poll w = some d') : d'.refuses = d.refuses := by
  unfold poll at hpoll
  split at hpoll
  · rename_i pool r queue hpool hqueue
    split at hpoll
    · cases hpoll
      simp [refuses, getThreadPoolExecutor, modify, hpool]
    · cases hpoll
  · cases hpoll

/-- Nor do several. -/
theorem poll_all_refuses {ws : List Thread} (hpoll : d.pollAll ws = some d') :
    d'.refuses = d.refuses := by
  induction ws generalizing d with
  | nil =>
      cases hpoll
      rfl
  | cons w ws ih =>
      obtain ⟨e, he, hrest⟩ := Option.bind_eq_some_iff.1 hpoll
      exact (ih hrest).trans (poll_refuses he)

/-- Nor does a cancellation. -/
theorem cancelled_all_refuses (id : String) : (d.cancelledAll id).refuses = d.refuses := by
  unfold refuses cancelledAll cancelled getThreadPoolExecutor
  cases d.mThreadPool <;> rfl

/-- Behind `shutdownNow`, the executor refuses. -/
theorem shutdown_now_refuses : d.shutdownNow.refuses = true := rfl

end Downloads

namespace State

variable {s s' : State}

/-- A start of a download leads to its runnable being queued or run. -/
def Accepts (s : State) : Prop :=
  ∀ info : Items.UpdateInfo, info.mTimestamp ≠ "" →
    ((onStartCommand (some (.start info)) s).heap s.next).phase ≠ .rejected ∧
    (s.next ∈ (onStartCommand (some (.start info)) s).mWorkQueue ∨
      ∃ w, (onStartCommand (some (.start info)) s).running w = some s.next)

/-- The step runs a posted `tearDown` of the service. -/
def TearsDown (s : State) (e : Event) : Prop :=
  ∃ polls rest, e = .runTask polls ∧ s.handler = .serviceTearDown :: rest

/-- What happens to the runnable of a start. -/
theorem enqueue_cases (s : State) (info : Items.UpdateInfo) :
    s.refuses = true ∧ (s.enqueue info).refuses = true ∧
        ((s.enqueue info).heap s.next).phase = .rejected ∨
      s.refuses = false ∧ (s.enqueue info).refuses = false ∧
        ((s.enqueue info).heap s.next).phase ≠ .rejected ∧
        (s.next ∈ (s.enqueue info).mWorkQueue ∨ ∃ w, (s.enqueue info).running w = some s.next) := by
  rcases Downloads.execute_cases (s.construct info) s.next with
    ⟨hshut, hnone⟩ | ⟨hopen, d, hsome, hrefuses, hplace, hphase⟩
  · refine .inl ⟨hshut, ?_⟩
    unfold enqueue
    rw [hnone]
    refine ⟨hshut, ?_⟩
    rw [post_to_downloads, post_to_downloads, with_downloads_to_downloads, Downloads.modify_heap,
      if_pos rfl]
  · refine .inr ⟨hopen, ?_⟩
    unfold enqueue
    rw [hsome]
    exact ⟨hrefuses, hphase (s.toDownloads.construct_phase info), hplace⟩

/-- The branch for an update that is named. -/
theorem on_start_command_start {info : Items.UpdateInfo} (hid : info.mTimestamp ≠ "") :
    onStartCommand (some (.start info)) s = s.postStartup.enqueue info := if_neg hid

/-- The executor accepts exactly if it was not shut down. -/
theorem accepts_iff : s.Accepts ↔ s.refuses = false := by
  have hnext : s.postStartup.next = s.next := by rw [post_startup_to_downloads]
  constructor
  · intro haccepts
    have hid : (⟨"", "", "", "1"⟩ : Items.UpdateInfo).mTimestamp ≠ "" := by decide
    have hphase := (haccepts _ hid).1
    rw [on_start_command_start hid, ← hnext] at hphase
    rcases enqueue_cases s.postStartup ⟨"", "", "", "1"⟩ with ⟨-, -, hrejected⟩ | ⟨hopen, -⟩
    · exact absurd hrejected hphase
    · rwa [post_startup_to_downloads] at hopen
  · intro hopen info hid
    rw [on_start_command_start hid, ← hnext]
    rcases enqueue_cases s.postStartup info with ⟨hshut, -⟩ | ⟨-, -, hplace⟩
    · rw [post_startup_to_downloads, hopen] at hshut
      cases hshut
    · exact hplace

/-! ## Steps -/

/-- An intent does not open or shut the executor. -/
theorem on_start_command_refuses (intent : Option Intent) :
    (onStartCommand intent s).refuses = s.refuses := by
  rcases intent with - | ⟨info⟩ | -
  · show (if s.mWorkQueue.length = 0 then s.post .serviceTearDown else s).refuses = _
    split <;> rfl
  · show (if info.mTimestamp = "" then s.postStartup else s.postStartup.enqueue info).refuses = _
    split
    · rw [post_startup_to_downloads]
    · rw [← post_startup_to_downloads s]
      rcases enqueue_cases s.postStartup info with ⟨hshut, hafter, -⟩ | ⟨hopen, hafter, -⟩
      · rw [hshut, hafter]
      · rw [hopen, hafter]
  · rfl

/-- Nor does `cancelDownload`. -/
theorem cancel_download_refuses {id : String} {size : Nat} (h : s.Sane)
    (hsize : s.mWorkQueue.length ≤ size) (hcancel : s.cancelDownload id size = some s') :
    s'.refuses = s.refuses := by
  obtain ⟨-, -, rfl⟩ := (cancel_download_eq_some h hsize).1 hcancel
  rw [after_cancel_to_downloads]
  exact Downloads.cancelled_all_refuses id

/-- Nor does the end of a run. -/
theorem end_run_refuses (w : Thread) (r : Ref) : (s.endRun w r).refuses = s.refuses :=
  Downloads.modify_pool_refuses fun _ => rfl

/-- Nor does its beginning. -/
theorem begin_refuses (w : Thread) (r : Ref) : (s.begin w r).refuses = s.refuses :=
  Downloads.modify_pool_refuses fun _ => rfl

/-- Nor do the checks. -/
theorem check_refuses (c : Conditions) (w : Thread) (r : Ref) :
    (s.check c w r).refuses = s.refuses := by
  simp only [check]
  split
  · rfl
  · exact end_run_refuses w r

/-- Nor does a callback. -/
theorem on_progress_refuses (r : Ref) (downloaded total : Int) :
    (s.onProgress r downloaded total).refuses = s.refuses := by
  simp only [onProgress]
  split <;> rfl

/-- Apart from the tasks of the handler, nothing touches the shutdown of the executor. -/
theorem does_refuses {e : Event} (h : s.Sane) (hdoes : s.Does e s')
    (htask : ∀ polls, e ≠ .runTask polls) : s'.refuses = s.refuses := by
  cases hdoes with
  | runTask => exact absurd rfl (htask _)
  | start | restart => exact on_start_command_refuses _
  | stop | deliverStop | destroy | listen | listenProduce | unlisten => rfl
  | @cancel id polls d hpolls =>
      have hpolled : (s.withDownloads d).Sane := h.poll_all hpolls
      have hsame := Downloads.poll_all_refuses hpolls
      cases hcancel : (s.withDownloads d).cancelDownload id s.mWorkQueue.length with
      | none => exact hsame
      | some t =>
          show t.refuses = _
          rw [cancel_download_refuses hpolled (Downloads.poll_all_le hpolls) hcancel]
          exact hsame
  | poll hpoll => exact Downloads.poll_refuses hpoll
  | begin => exact begin_refuses _ _
  | check => exact check_refuses _ _ _
  | load | await => rfl
  | finish => exact end_run_refuses _ _
  | progress => exact on_progress_refuses _ _ _

/-- A `tearDown` that returns has shut the executor down. -/
theorem tear_down_refuses {size : Nat} (htear : s.tearDown size = some s') :
    s'.refuses = true := by
  obtain ⟨t, -, rfl⟩ := Option.map_eq_some_iff.1 htear
  rw [shutdown_to_downloads]
  exact Downloads.shutdown_now_refuses

/-- Only a `tearDown` shuts the executor down, and nothing replaces it. -/
theorem step_refuses {e : Event} (h : s.Sane) (hstep : step s e = some s')
    (hcrashed : s'.crashed = false) : s'.refuses = true ↔ s.refuses = true ∨ TearsDown s e := by
  obtain ⟨-, hdoes⟩ := step_eq_some.1 hstep
  by_cases htask : ∃ polls, e = .runTask polls
  · obtain ⟨polls, rfl⟩ := htask
    cases hdoes with
    | @runTask _ d task rest hhandler hpolls =>
        by_cases htear : task = .serviceTearDown
        · subst htear
          refine ⟨fun _ => .inr ⟨polls, rest, rfl, hhandler⟩, fun _ => ?_⟩
          -- a `tearDown` that throws ends the process
          cases hreturn : tearDown ((s.withDownloads d).withHandler rest) s.mWorkQueue.length with
          | none =>
              rw [runTask, hreturn] at hcrashed
              cases hcrashed
          | some t =>
              rw [runTask, hreturn]
              exact tear_down_refuses hreturn
        · rw [run_task_to_downloads _ _ htear]
          show d.refuses = true ↔ _
          rw [Downloads.poll_all_refuses hpolls]
          refine ⟨.inl, fun hor => hor.resolve_right ?_⟩
          rintro ⟨_, _, -, hhandler'⟩
          rw [hhandler] at hhandler'
          exact htear (List.cons.inj hhandler').1
  · rw [does_refuses h hdoes fun polls heq => htask ⟨polls, heq⟩]
    refine ⟨.inl, fun hor => hor.resolve_right ?_⟩
    rintro ⟨polls, _, rfl, -⟩
    exact htask ⟨polls, rfl⟩

/-! ## Runs -/

/-- A process that has ended does nothing more. -/
theorem run_of_crashed {es : List Event} (hrun : run step s es = some s')
    (hcrashed : s.crashed = true) : s' = s := by
  cases es with
  | nil =>
      cases hrun
      rfl
  | cons e es =>
      obtain ⟨t, hstep, -⟩ := run_cons.1 hrun
      rw [step, if_pos hcrashed] at hstep
      cases hstep

/-- Behind a run, the executor refuses exactly if it did before or a `tearDown` was run. -/
theorem run_refuses {es : List Event} (h : s.Sane) (hrun : run step s es = some s')
    (hcrashed : s'.crashed = false) :
    s'.refuses = true ↔ s.refuses = true ∨ ¬ Along step (fun s e => ¬ TearsDown s e) s es := by
  induction es generalizing s with
  | nil =>
      cases hrun
      simp [Along]
  | cons e es ih =>
      obtain ⟨t, hstep, hrest⟩ := run_cons.1 hrun
      have halive : t.crashed = false := by
        by_contra hdead
        have heq := run_of_crashed hrest (by simpa using hdead)
        rw [heq] at hcrashed
        exact hdead hcrashed
      have hfirst := step_refuses h hstep halive
      have hothers := ih (step_sane h hstep) hrest
      rw [hothers, hfirst, along_cons hstep]
      tauto

/-- In a process that is alive, a start leads to its runnable being queued or run exactly if no
`tearDown` of the service has been run. -/
theorem accepts_iff_not_torn_down {es : List Event} (hrun : run step init es = some s)
    (halive : s.crashed = false) :
    s.Accepts ↔ Along step (fun s e => ¬ TearsDown s e) init es := by
  have hopen : init.refuses = false := rfl
  have hiff := run_refuses init_sane hrun halive
  rw [accepts_iff, ← Bool.not_eq_true, hiff, hopen]
  simp

/-- A download that was started and finished, with no `ACTION_STOP` before or behind it. -/
theorem accepts_after_download :
    ∃ s, s.crashed = false ∧ (State.Accepts s ↔ Along step (fun s e => ¬ TearsDown s e) init
      [.start nightly, .begin 0, .check unrestricted 0, .load 0, .await 0, .finish 0]) :=
  have hrun : run step init [.start nightly, .begin 0, .check unrestricted 0, .load 0, .await 0,
      .finish 0] = some _ := rfl
  ⟨_, rfl, accepts_iff_not_torn_down hrun rfl⟩

/-- One `ACTION_STOP` intent, and every later download is rejected. -/
theorem stop_rejects_next_start :
    ∃ s, Reachable s ∧ s.crashed = false ∧ ¬ State.Accepts s :=
  have hreach : Reachable _ := ⟨[.stop, .deliverStop, .runTask []], rfl⟩
  ⟨_, hreach, rfl, fun haccepts => by
    have hopen := accepts_iff.1 haccepts
    cases hopen⟩

end State

end NamelessCenter.Download
