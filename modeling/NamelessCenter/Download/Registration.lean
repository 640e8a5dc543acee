import NamelessCenter.Download.Tasks
import NamelessCenter.Download.Shutdown

/-!
# The registrations of a runnable

A runnable posts its registration on the bus when it is constructed, and its unregistration from the
refusals of `enqueueDownload`, from the warning about a metered network and with the progress event
101. `trace r s` is the sequence of these calls for `r`, those already made and those pending in the
handler; running a task moves a call from the second part to the first (`trace_run_task`), so that
the sequence is determined by what the runnable has posted. `Orderly` excludes the ways in which the
unregistration is posted twice or never, and `balanced_run` shows that the others balance.
-/

namespace NamelessCenter.Download

open Machine

/-- The calls that register and unregister `r`. -/
def BusCall.about (r : Ref) : BusCall → Bool
  | .register r' | .unregister r' => r' = r
  | _ => false

/-- The registration calls for `r` that a task makes. -/
def Task.busCalls (r : Ref) : Task → List BusCall
  | .startup r' => if r' = r then [.register r] else []
  | .progress r' percentage => if percentage = 101 ∧ r' = r then [.unregister r] else []
  | .error r' _ => if r' = r then [.unregister r] else []
  | _ => []

namespace State

variable {s s' : State} {r : Ref}

/-- The registration calls for `r` that have been made. -/
def callsOf (r : Ref) (s : State) : List BusCall := s.calls.filter (BusCall.about r)

/-- The registration calls for `r` that are pending. -/
def pendingCalls (r : Ref) (s : State) : List BusCall := s.handler.flatMap (Task.busCalls r)

/-- The registration calls of a runnable, those made and those posted. -/
def trace (r : Ref) (s : State) : List BusCall := s.callsOf r ++ s.pendingCalls r

/-! ## The trace of a runnable -/

/-- The runnables and the executor do not matter for it. -/
@[simp] theorem trace_with_downloads (d : Downloads) : trace r (s.withDownloads d) = trace r s :=
  rfl

/-- Nor does the end of the process. -/
@[simp] theorem trace_crash : trace r s.crash = trace r s := rfl

/-- A task that is posted adds its calls. -/
@[simp] theorem trace_post (t : Task) : trace r (s.post t) = trace r s ++ t.busCalls r := by
  simp [trace, callsOf, pendingCalls, post]

/-- So do several. -/
theorem trace_with_handler (tasks : List Task) :
    trace r (s.withHandler (s.handler ++ tasks)) =
      trace r s ++ tasks.flatMap (Task.busCalls r) := by
  simp [trace, callsOf, pendingCalls, withHandler]

/-- The registration of the service is none of a runnable. -/
@[simp] theorem trace_post_startup : trace r s.postStartup = trace r s := by
  unfold postStartup
  split
  · rfl
  · rw [trace_post]
    exact List.append_nil _

/-- Nor are the answers to new subscribers. -/
@[simp] theorem trace_produce (n : Nat) : trace r (s.produce n) = trace r s := by
  have hrefresh : (List.replicate n Task.refresh).flatMap (Task.busCalls r) = [] := by
    simp [List.flatMap_eq_nil_iff, Task.busCalls]
  simp [trace, callsOf, pendingCalls, produce, hrefresh]

/-- Nor is what a cancellation posts. -/
theorem trace_after_cancel : trace r s.afterCancel = trace r s := by
  have hpost : trace r (s.post (.busProgress "-1" 0)) = trace r s := by simp [Task.busCalls]
  unfold afterCancel
  dsimp only
  split <;> exact hpost

/-- A call on the bus counts for the runnable it is about. -/
theorem calls_of_call (c : BusCall) :
    (s.call c).callsOf r = s.callsOf r ++ if c.about r then [c] else [] := by
  unfold callsOf call
  rw [List.filter_append, List.filter_singleton]
  cases BusCall.about r c <;> rfl

/-- A registration counts for its runnable. -/
theorem calls_of_register (r' : Ref) :
    (s.register r').callsOf r = s.callsOf r ++ if r' = r then [.register r] else [] := by
  have hcall : (s.register r').callsOf r = (s.call (.register r')).callsOf r := by
    unfold register
    split <;> rfl
  rw [hcall, calls_of_call]
  by_cases hr : r' = r <;> simp [BusCall.about, hr]

/-- So does its removal. -/
theorem calls_of_unregister (r' : Ref) :
    (s.unregister r').callsOf r = s.callsOf r ++ if r' = r then [.unregister r] else [] := by
  have hcall : (s.unregister r').callsOf r = (s.call (.unregister r')).callsOf r := by
    unfold unregister
    split <;> rfl
  rw [hcall, calls_of_call]
  by_cases hr : r' = r <;> simp [BusCall.about, hr]

/-- A task makes its calls. -/
theorem calls_of_run_task (s : State) (size : Nat) {t : Task} (ht : t ≠ .serviceTearDown) :
    (runTask size t s).callsOf r = s.callsOf r ++ t.busCalls r := by
  cases t with
  | serviceTearDown => exact absurd rfl ht
  | startup r' => exact calls_of_register r'
  | error r' reason =>
      show ((s.call _).unregister r').callsOf r = _
      rw [calls_of_unregister, calls_of_call]
      simp [BusCall.about, Task.busCalls]
  | progress r' percentage =>
      simp only [runTask, Task.busCalls]
      by_cases hdone : percentage = 101
      · rw [if_pos hdone, calls_of_unregister, calls_of_call]
        simp [BusCall.about, hdone]
      · rw [if_neg hdone, calls_of_call]
        simp [BusCall.about, hdone]
  | serviceStartup =>
      simp only [runTask, serviceStartup]
      split
      · simp [Task.busCalls]
      · show ((s.call .registerService)).callsOf r = _
        rw [calls_of_call]
        rfl
  | busError | busProgress | refresh =>
      show (s.call _).callsOf r = _
      rw [calls_of_call]
      rfl

/-- A `tearDown` of the service makes no such call. -/
theorem calls_of_torn_down (s : State) : s.tornDown.callsOf r = s.callsOf r := by
  unfold callsOf
  rcases torn_down_calls s with hsame | hservice
  · rw [hsame]
  · rw [hservice, List.filter_append]
    simp [BusCall.about]

/-- The tasks that a task posts do not register, as long as the percentages stay below 101. -/
theorem bus_calls_posts (hactual : (s.heap r).actualPercentage ≠ 101) (t : Task) :
    (s.posts t).flatMap (Task.busCalls r) = [] := by
  rw [List.flatMap_eq_nil_iff]
  intro u hu
  cases t with
  | serviceStartup =>
      simp only [posts] at hu
      split at hu
      · cases hu
      · rw [(List.mem_replicate.1 hu).2]
        rfl
  | refresh =>
      obtain ⟨r', -, rfl⟩ := List.mem_map.1 hu
      refine if_neg ?_
      rintro ⟨hdone, rfl⟩
      exact hactual hdone
  | _ => cases hu

/-- Running the first task of the handler moves its calls from the pending ones to those made. -/
theorem trace_run_task (h : s.Sane) {size : Nat} (hsize : s.mWorkQueue.length ≤ size) {t : Task}
    {rest : List Task} (hhandler : s.handler = t :: rest)
    (hactual : (s.heap r).actualPercentage ≠ 101) :
    trace r (runTask size t (s.withHandler rest)) = trace r s := by
  have htrace : trace r s = s.callsOf r ++ (t.busCalls r ++ rest.flatMap (Task.busCalls r)) := by
    rw [trace, pendingCalls, hhandler, List.flatMap_cons]
  rw [htrace]
  by_cases ht : t = .serviceTearDown
  · subst ht
    rw [runTask]
    cases htear : (s.withHandler rest).tearDown size with
    | none => rfl
    | some s' =>
        have hpopped : (s.withHandler rest).Sane := h
        rw [Option.getD_some, tear_down_eq_some hpopped hsize htear, trace, calls_of_torn_down,
          pendingCalls, (torn_down_frame _).1, List.flatMap_append]
        simp [Task.busCalls, callsOf]
        rfl
  · have hposts : ((s.withHandler rest).posts t).flatMap (Task.busCalls r) = [] :=
      bus_calls_posts hactual t
    rw [trace, calls_of_run_task _ _ ht, pendingCalls, (run_task_frame _ _ ht).1,
      List.flatMap_append, hposts, with_handler_handler, List.append_nil, List.append_assoc]
    rfl

/-! ## Balanced calls -/

/-- The calls that a runnable has made or posted in a phase, unless it will never post the
unregistration. -/
def callsIn (r : Ref) : Phase → Option (List BusCall)
  | .unborn => some []
  | .queued | .taken | .begun | .checked | .loaded | .waiting => some [.register r]
  | .ended => some [.register r, .unregister r]
  | .rejected | .dropped => none

/-- The calls of the runnable are those that its phase asks for. -/
structure Balanced (r : Ref) (s : State) : Prop where
  calls : callsIn r (s.heap r).phase = some (trace r s)
  actual : (s.heap r).actualPercentage ≠ 101

/-- The event is none of those that unbalance the calls of `r`: a start that the executor rejects,
the warning about a metered network, a progress of 101 percent, and a `tearDown` that drains `r`
from the queue. -/
def Orderly (r : Ref) (s : State) : Event → Prop
  | .start _ => s.next = r → s.refuses = false
  | .check c w => s.running w = some r → REASON_METERED_WARN ∉ (enqueueDownload c).1
  | .progress r' downloaded total => r' = r → percentage downloaded total ≠ 101
  | .runTask _ => s.handler.head? = some .serviceTearDown → r ∉ s.mWorkQueue
  | _ => True

/-- Callbacks that do not report more than the total are orderly. -/
theorem orderly_progress_of_le {r' : Ref} {downloaded total : Int}
    (hle : 0 < total ∧ 0 ≤ downloaded ∧ downloaded ≤ total) :
    Orderly r s (.progress r' downloaded total) :=
  fun _ => (percentage_lt_of_le hle.1 hle.2.1 hle.2.2).ne

instance (r : Ref) (s : State) : DecidablePred (Orderly r s)
  | .start _ => inferInstanceAs (Decidable (_ → _))
  | .check _ _ => inferInstanceAs (Decidable (_ → _))
  | .progress _ downloaded total =>
      -- such a callback is settled without its floating-point percentage
      if hle : 0 < total ∧ 0 ≤ downloaded ∧ downloaded ≤ total then
        .isTrue (orderly_progress_of_le hle)
      else inferInstanceAs (Decidable (_ → _))
  | .runTask _ => inferInstanceAs (Decidable (_ → _))
  | .stop | .deliverStop | .restart | .destroy | .cancel .. | .listen | .unlisten | .poll _
  | .begin _ | .load _ | .await _ | .finish _ => .isTrue trivial

/-- A step that appends to the trace what the new phase asks for. -/
theorem Balanced.next (h : Balanced r s) {p : List BusCall}
    (htrace : trace r s' = trace r s ++ p)
    (hphase : ∀ calls, callsIn r (s.heap r).phase = some calls →
      callsIn r (s'.heap r).phase = some (calls ++ p))
    (hactual : (s'.heap r).actualPercentage ≠ 101) : Balanced r s' where
  calls := htrace ▸ hphase _ h.calls
  actual := hactual

/-- A step that leaves `r` and its trace alone. -/
theorem Balanced.same (h : Balanced r s) (htrace : trace r s' = trace r s)
    (hheap : s'.heap r = s.heap r) : Balanced r s' :=
  h.next (p := []) (by simpa using htrace) (by simp [hheap]) (by rw [hheap]; exact h.actual)

/-- A change of phase that posts nothing. -/
theorem Balanced.set_phase (h : Balanced r s) (htrace : trace r s' = trace r s)
    (hphase : callsIn r (s'.heap r).phase = callsIn r (s.heap r).phase)
    (hactual : (s'.heap r).actualPercentage = (s.heap r).actualPercentage) : Balanced r s' where
  calls := by rw [hphase, htrace]; exact h.calls
  actual := hactual ▸ h.actual

/-! ## Steps -/

/-- Polls keep the calls balanced, and only take from the queue. -/
theorem balanced_poll_all (hsane : s.Sane) (h : Balanced r s) {ws : List Thread} {d : Downloads}
    (hpolls : s.pollAll ws = some d) :
    Balanced r (s.withDownloads d) ∧ d.mWorkQueue ⊆ s.mWorkQueue := by
  have hgeneral : ∀ (ws : List Thread) (d₀ : Downloads), d₀.Sane →
      Balanced r (s.withDownloads d₀) → d₀.pollAll ws = some d →
      Balanced r (s.withDownloads d) ∧ d.mWorkQueue ⊆ d₀.mWorkQueue := by
    intro ws
    induction ws with
    | nil =>
        intro d₀ _ hbalanced hall
        cases hall
        exact ⟨hbalanced, List.Subset.refl _⟩
    | cons w ws ih =>
        intro d₀ hd₀ hbalanced hall
        obtain ⟨e, he, hrest⟩ := Option.bind_eq_some_iff.1 hall
        obtain ⟨hheap, hsubset⟩ := Downloads.poll_heap he
        have hnext : Balanced r (s.withDownloads e) := by
          rcases hheap r with hsame | ⟨hqueued, htaken⟩
          · exact hbalanced.same rfl hsame
          · refine hbalanced.set_phase rfl ?_ ?_
            · show callsIn r (e.heap r).phase = callsIn r (d₀.heap r).phase
              rw [htaken, hd₀.queued r hqueued]
              rfl
            · show (e.heap r).actualPercentage = _
              rw [htaken]
              rfl
        obtain ⟨hafter, hsubset'⟩ := ih e (hd₀.poll he) hnext hrest
        exact ⟨hafter, List.Subset.trans hsubset' hsubset⟩
  exact hgeneral ws s.toDownloads hsane h hpolls

/-- So does a new runnable, unless the one in question is rejected. -/
theorem balanced_enqueue (hsane : s.Sane) (h : Balanced r s) (info : Items.UpdateInfo)
    (haccepted : s.next = r → s.refuses = false) : Balanced r (s.enqueue info) := by
  have hother : s.next ≠ r → ((s.construct info).heap r) = s.heap r := fun hne =>
    Function.update_of_ne (Ne.symm hne) _ _
  unfold enqueue
  cases hexecute : (s.construct info).execute s.next with
  | some d =>
      have hheap := Downloads.execute_heap hexecute r
      by_cases hr : s.next = r
      · refine h.next (p := [.register r]) (by simp [Task.busCalls, hr]) (fun calls hcalls => ?_) ?_
        · -- the runnable is new, and queued or taken now
          have hunborn := hsane.unborn r (Nat.le_of_eq hr)
          rw [hunborn] at hcalls
          cases hcalls
          have hphase := s.toDownloads.construct_phase info
          rw [hr] at hphase
          show callsIn r (d.heap r).phase = _
          rcases hheap with hsame | ⟨-, htaken⟩
          · rw [hsame, hphase]
            rfl
          · rw [htaken]
            rfl
        · have hnew : ((s.construct info).heap r).actualPercentage = 0 := by
            show (Function.update s.heap s.next _ r).actualPercentage = _
            rw [hr, Function.update_self]
            rfl
          show (d.heap r).actualPercentage ≠ 101
          rcases hheap with hsame | ⟨-, htaken⟩
          · rw [hsame, hnew]
            omega
          · rw [htaken]
            show ((s.construct info).heap r).actualPercentage ≠ 101
            rw [hnew]
            omega
      · refine h.same (by simp [Task.busCalls, hr]) ?_
        show d.heap r = s.heap r
        rcases hheap with hsame | ⟨heq, -⟩
        · rw [hsame, hother hr]
        · exact absurd heq.symm hr
  | none =>
      by_cases hr : s.next = r
      · rcases enqueue_cases s info with ⟨hshut, -⟩ | ⟨-, -, hphase, -⟩
        · rw [haccepted hr] at hshut
          cases hshut
        · unfold enqueue at hphase
          rw [hexecute] at hphase
          simp at hphase
      · have hheap :
            ((s.construct info).modify s.next fun o => { o with phase := .rejected }).heap r =
              s.heap r := by
          rw [Downloads.modify_heap, if_neg (Ne.symm hr), hother hr]
        exact h.same (by simp [Task.busCalls, hr]) hheap

/-- So does a cancellation. -/
theorem balanced_cancelled_all (h : Balanced r s) (id : String) :
    Balanced r (s.withDownloads (s.cancelledAll id)).afterCancel := by
  obtain ⟨hphase, hactual⟩ := cancelled_all_heap_frame (s := s) id r
  refine h.set_phase (by rw [trace_after_cancel]; rfl) ?_ ?_
  · rw [after_cancel_to_downloads]
    exact congrArg (callsIn r) hphase
  · rw [after_cancel_to_downloads]
    exact hactual

/-- So does a task, unless it drains the runnable from the queue. -/
theorem balanced_run_task (hsane : s.Sane) (h : Balanced r s) {size : Nat}
    (hsize : s.mWorkQueue.length ≤ size) {t : Task} {rest : List Task}
    (hhandler : s.handler = t :: rest) (hundrained : t = .serviceTearDown → r ∉ s.mWorkQueue) :
    Balanced r (runTask size t (s.withHandler rest)) := by
  have htrace := trace_run_task hsane hsize hhandler h.actual
  by_cases ht : t = .serviceTearDown
  · subst ht
    rw [runTask] at htrace ⊢
    cases htear : (s.withHandler rest).tearDown size with
    | none =>
        rw [htear] at htrace
        exact h.same htrace rfl
    | some s' =>
        have hpopped : (s.withHandler rest).Sane := hsane
        rw [htear, Option.getD_some] at htrace
        rw [Option.getD_some]
        obtain rfl := tear_down_eq_some hpopped hsize htear
        have hqueue : r ∉ (s.withHandler rest).mWorkQueue := hundrained rfl
        obtain ⟨hphase, hactual⟩ := cancelled_all_heap_frame (s := s.withHandler rest) "" r
        refine h.set_phase htrace ?_ ?_
        · rw [torn_down_heap_eq, if_neg hqueue]
          exact congrArg (callsIn r) hphase
        · rw [torn_down_heap_eq, if_neg hqueue]
          exact hactual
  · refine h.same htrace ?_
    rw [run_task_to_downloads _ _ ht]
    rfl

/-- A runnable changes, but not to a phase with other calls. -/
theorem balanced_set (h : Balanced r s) (r' : Ref) (f : DownloadRunnable → DownloadRunnable)
    (htrace : trace r s' = trace r s) (hheap : s'.heap = (s.modify r' f).heap)
    (hphase : callsIn r (f (s.heap r')).phase = callsIn r (s.heap r').phase)
    (hactual : r' = r → (f (s.heap r')).actualPercentage ≠ 101) : Balanced r s' := by
  by_cases hr : r' = r
  · subst hr
    refine h.next (p := []) (by simpa using htrace) (fun calls hcalls => ?_) ?_
    · rw [hheap, Downloads.modify_heap, if_pos rfl, hphase, List.append_nil]
      exact hcalls
    · rw [hheap, Downloads.modify_heap, if_pos rfl]
      exact hactual rfl
  · refine h.same htrace ?_
    rw [hheap, Downloads.modify_heap, if_neg (Ne.symm hr)]

/-- The end of `run`, when the runnable has posted its unregistration. -/
theorem balanced_end (h : Balanced r s) {w : Thread} {r' : Ref} {p : List BusCall}
    (htrace : trace r s' = trace r s ++ p) (hheap : s'.heap = (s.endRun w r').heap)
    (hphase : callsIn r (s.heap r').phase = some [.register r])
    (hposted : p = if r' = r then [.unregister r] else []) : Balanced r s' := by
  have hended : ∀ r, (s.endRun w r').heap r =
      if r = r' then { s.heap r' with phase := .ended } else s.heap r := fun v =>
    Downloads.modify_heap s.toDownloads r' v fun o => { o with phase := .ended }
  by_cases hr : r' = r
  · subst hr
    rw [if_pos rfl] at hposted
    refine h.next htrace (fun calls hcalls => ?_) ?_
    · rw [hphase] at hcalls
      cases hcalls
      rw [hheap, hended, if_pos rfl, hposted]
      rfl
    · rw [hheap, hended, if_pos rfl]
      exact h.actual
  · rw [if_neg hr] at hposted
    subst hposted
    refine h.same (by simpa using htrace) ?_
    rw [hheap, hended, if_neg (Ne.symm hr)]

/-- So do the checks, unless they post the metered warning. -/
theorem balanced_check (h : Balanced r s) {c : Conditions} {w : Thread} {r' : Ref}
    (hphase : (s.heap r').phase = .begun)
    (hunwarned : r' = r → REASON_METERED_WARN ∉ (enqueueDownload c).1) :
    Balanced r (s.check c w r') := by
  have hother : r' ≠ r → ∀ reasons : List Int,
      (reasons.map (Task.error r')).flatMap (Task.busCalls r) = [] := by
    intro hne reasons
    simp [List.flatMap_eq_nil_iff, Task.busCalls, hne]
  have hposted := trace_with_handler (s := s) (r := r)
    ((enqueueDownload c).1.map (Task.error r'))
  simp only [check]
  split
  · rename_i hpasses
    refine balanced_set h r' (fun o => { o with phase := .checked }) (hposted.trans ?_) rfl
      (by rw [hphase]; rfl) fun hr => by rw [hr]; exact h.actual
    by_cases hr : r' = r
    · -- without the warning nothing has been posted
      rcases enqueue_download_of_not_warned (hunwarned hr) with heq | ⟨reason, heq⟩
      · simp [heq]
      · rw [heq] at hpasses
        cases hpasses
    · rw [hother hr, List.append_nil]
  · rename_i hrefused
    refine balanced_end h (w := w) hposted rfl (by rw [hphase]; rfl) ?_
    by_cases hr : r' = r
    · rcases enqueue_download_of_not_warned (hunwarned hr) with heq | ⟨reason, heq⟩
      · rw [heq] at hrefused
        exact absurd rfl hrefused
      · simp [heq, Task.busCalls, hr]
    · rw [if_neg hr, hother hr]

/-- So does a callback, unless it computes 101 percent. -/
theorem balanced_on_progress (h : Balanced r s) {r' : Ref} {downloaded total : Int}
    (hprogress : r' = r → percentage downloaded total ≠ 101) :
    Balanced r (s.onProgress r' downloaded total) := by
  have hposted : (Task.progress r' (percentage downloaded total)).busCalls r = [] := by
    refine if_neg ?_
    rintro ⟨hdone, heq⟩
    exact hprogress heq hdone
  simp only [onProgress]
  split
  · exact balanced_set h r' _ rfl rfl rfl hprogress
  · refine balanced_set h r' _ ?_ rfl rfl hprogress
    rw [trace_post, hposted, List.append_nil]
    rfl

/-- Every orderly step keeps the calls of `r` balanced. -/
theorem step_balanced {e : Event} (hsane : s.Sane) (h : Balanced r s) (horderly : Orderly r s e)
    (hstep : step s e = some s') : Balanced r s' := by
  obtain ⟨-, hdoes⟩ := step_eq_some.1 hstep
  cases hdoes with
  | start info =>
      show Balanced r (if info.mTimestamp = "" then s.postStartup else s.postStartup.enqueue info)
      have hstarted : Balanced r s.postStartup :=
        h.same trace_post_startup (by rw [post_startup_to_downloads])
      split
      · exact hstarted
      · refine balanced_enqueue (by rwa [post_startup_to_downloads]) hstarted info fun hr => ?_
        rw [post_startup_to_downloads] at hr ⊢
        exact horderly hr
  | stop | listen | unlisten => exact h.same rfl rfl
  | destroy => exact h.same (by simp [Task.busCalls]) rfl
  | deliverStop => exact h.same (by simp [onStartCommand, Task.busCalls]; rfl) rfl
  | restart =>
      show Balanced r (if s.mWorkQueue.length = 0 then s.post .serviceTearDown else s)
      split
      · exact h.same (by simp [Task.busCalls]) rfl
      · exact h
  | @cancel id polls d hpolls =>
      have hpolled : (s.withDownloads d).Sane := hsane.poll_all hpolls
      have hbalanced := (balanced_poll_all hsane h hpolls).1
      cases hcancel : (s.withDownloads d).cancelDownload id s.mWorkQueue.length with
      | none => exact hbalanced.same rfl rfl
      | some t =>
          obtain ⟨-, -, rfl⟩ :=
            (cancel_download_eq_some hpolled (Downloads.poll_all_le hpolls)).1 hcancel
          exact balanced_cancelled_all hbalanced id
  | runTask hhandler hpolls =>
      obtain ⟨hbalanced, hsubset⟩ := balanced_poll_all hsane h hpolls
      refine balanced_run_task (hsane.poll_all hpolls) hbalanced (Downloads.poll_all_le hpolls)
        hhandler fun htask hmem => ?_
      subst htask
      exact horderly (by rw [hhandler]; rfl) (hsubset hmem)
  | listenProduce => exact h.same (by rw [trace_produce]; rfl) rfl
  | @poll w d hpoll =>
      have hpolls : s.pollAll [w] = some d := by
        show (s.toDownloads.poll w >>= fun d => some d) = some d
        rw [hpoll]
        rfl
      exact (balanced_poll_all hsane h hpolls).1
  | @begin w r' hrun hphase =>
      exact balanced_set h r' (fun o => { o with mThread := some w, phase := .begun }) rfl rfl
        (by rw [hphase]; rfl) fun hr => by rw [hr]; exact h.actual
  | check hrun hphase => exact balanced_check h hphase fun hr => horderly (hr ▸ hrun)
  | @load w r' hrun hphase =>
      exact balanced_set h r' (fun o => { o with
          fileResponseFuture := some ⟨o.updateInfo.mUrl, o.updateInfo.getZipName, false⟩
          phase := .loaded }) rfl rfl
        (by rw [hphase]; rfl) fun hr => by rw [hr]; exact h.actual
  | @await w r' hrun hphase =>
      refine balanced_set h r' (fun o => { o with phase := .waiting }) ?_ rfl
        (by rw [hphase]; rfl) fun hr => by rw [hr]; exact h.actual
      rw [await, trace_post]
      exact List.append_nil _
  | @finish w r' hrun hphase =>
      refine balanced_end h (w := w) (trace_post _) rfl (by rw [hphase]; rfl) ?_
      simp [Task.busCalls]
  | progress => exact balanced_on_progress h horderly

/-! ## Runs -/

/-- In an orderly run, the calls are balanced in every state. -/
theorem balanced_run {es : List Event} (hrun : run step init es = some s)
    (horderly : Along step (Orderly r) init es) : Balanced r s := by
  have hinit : init.Sane ∧ Balanced r init := by
    refine ⟨init_sane, rfl, ?_⟩
    show (0 : Int) ≠ 101
    omega
  refine (run_along (I := fun s => s.Sane ∧ Balanced r s) ?_ hinit horderly hrun).2
  rintro s e s' ⟨hsane, hbalanced⟩ horder hstep
  exact ⟨step_sane hsane hstep, step_balanced hsane hbalanced horder hstep⟩

/-- The run of a runnable is over: it has ended, or it will not begin. -/
def Over (o : DownloadRunnable) : Prop :=
  o.phase = .ended ∨ o.phase = .rejected ∨ o.phase = .dropped

/-- The calls of a phase are a prefix of one registration and its removal. -/
theorem calls_in_le {p : Phase} {calls : List BusCall} (h : callsIn r p = some calls) :
    calls <+: [.register r, .unregister r] := by
  cases p with
  | unborn =>
      cases h
      exact List.nil_prefix
  | ended =>
      cases h
      exact List.prefix_refl _
  | rejected | dropped => cases h
  | _ =>
      cases h
      exact ⟨[.unregister r], rfl⟩

/-- In an orderly run, a runnable is registered before it is unregistered and unregistered at most
once, and exactly once when its run is over and the handler has processed what it posted. -/
theorem registration_balances {es : List Event} (hrun : run step init es = some s)
    (horderly : Along step (Orderly r) init es) :
    s.callsOf r <+: [.register r, .unregister r] ∧
      (Over (s.heap r) → s.pendingCalls r = [] → s.callsOf r = [.register r, .unregister r]) := by
  have hcalls := (balanced_run hrun horderly).calls
  constructor
  · exact (List.prefix_append _ _).trans (calls_in_le hcalls)
  · rintro hover hpending
    rw [trace, hpending, List.append_nil] at hcalls
    rcases hover with hphase | hphase | hphase
    · rw [hphase] at hcalls
      exact (Option.some.inj hcalls).symm
    · rw [hphase] at hcalls
      cases hcalls
    · rw [hphase] at hcalls
      cases hcalls

/-- A download over an unrestricted network registers and unregisters its runnable once. -/
theorem registration_balances_download :
    ∃ s, Reachable s ∧ s.callsOf 0 = [.register 0, .unregister 0] := by
  have hdownload : ∃ s ∈ run step init [.start nightly, .runTask [], .runTask [], .begin 0,
      .check unrestricted 0, .load 0, .progress 0 3 7, .await 0, .runTask [], .finish 0,
      .runTask [], .runTask []], (s.heap 0).phase = .ended ∧ s.pendingCalls 0 = [] := by
    decide +kernel
  obtain ⟨s, hrun, hended, hpending⟩ := hdownload
  exact ⟨s, ⟨_, hrun⟩,
    (registration_balances hrun (by decide +kernel)).2 (.inl hended) hpending⟩

/-- A network that the user pays for, and preferences that were never stored. -/
def metered : Conditions := { unrestricted with isMetered := true }

/-- With the preferences' defaults, a download over a metered network unregisters its runnable for
the warning and again when it is done. -/
theorem metered_download_unregisters_twice :
    ∃ s, Reachable s ∧ ¬ s.callsOf 0 <+: [.register 0, .unregister 0] := by
  have hreach : Reachable _ := ⟨[.start nightly, .runTask [], .runTask [], .begin 0,
    .check metered 0, .load 0, .await 0, .finish 0, .runTask [], .runTask [], .runTask []], rfl⟩
  exact ⟨_, hreach, by decide⟩

end State

end NamelessCenter.Download
