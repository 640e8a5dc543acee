import NamelessCenter.Download.Tasks
import NamelessCenter.Download.Cancel
import NamelessCenter.Download.Shutdown

/-!
# What a step does to the runnables

`Changes` lists, event by event, what a step of the service can do to the runnables and the
executor, with the guards under which it does so, and `changes_of_step` shows that the list is
complete. Facts about the runnables along a run are proved by cases on it.
-/

namespace NamelessCenter.Download

open Items IndexLoop

/-- The events that leave the runnables and the executor alone. -/
def Event.idle : Event → Bool
  | .stop | .deliverStop | .restart | .destroy | .listen | .unlisten => true
  | _ => false

namespace Downloads

/-- The first loop of `cancelDownload(id)` reaches a runnable without a future. -/
def Unloaded (d : Downloads) (id : String) : Prop :=
  ∃ r ∈ removed (d.Matches id) false d.mRunnables, (d.heap r).fileResponseFuture = none

/-- What the loop removes has loaded. -/
theorem not_unloaded_iff {d : Downloads} {id : String} :
    ¬ d.Unloaded id ↔ ∀ r ∈ removed (d.Matches id) false d.mRunnables,
      (d.heap r).fileResponseFuture ≠ none := by
  unfold Unloaded
  simp

end Downloads

namespace State

/-- What an event can do to the runnables and the executor. -/
inductive Changes (s : State) : Event → Downloads → Prop
  | idle {e : Event} (hidle : e.idle) : Changes s e s.toDownloads
  | unnamed {info : UpdateInfo} (hid : info.mTimestamp = "") : Changes s (.start info) s.toDownloads
  | accepted {info : UpdateInfo} {d : Downloads} (hid : info.mTimestamp ≠ "")
      (hexecute : (s.construct info).execute s.next = some d) : Changes s (.start info) d
  | rejected {info : UpdateInfo} (hid : info.mTimestamp ≠ "") (hrefuses : s.refuses = true) :
      Changes s (.start info)
        ((s.construct info).modify s.next fun o => { o with phase := .rejected })
  | thrown {id : String} {polls : List Thread} {d : Downloads} (hpolls : s.pollAll polls = some d)
      (hunloaded : polls = [] → s.Unloaded id) : Changes s (.cancel id polls) d
  | cancelled {id : String} (hloaded : ¬ s.Unloaded id) :
      Changes s (.cancel id []) (s.cancelledAll id)
  | task {polls : List Thread} {d : Downloads} (hpolls : s.pollAll polls = some d)
      (hunloaded : s.handler.head? = some .serviceTearDown → polls = [] → s.Unloaded "") :
      Changes s (.runTask polls) d
  | tornDown (htask : s.handler.head? = some .serviceTearDown) (hloaded : ¬ s.Unloaded "") :
      Changes s (.runTask []) (s.cancelledAll "").shutdownNow
  | poll {w : Thread} {d : Downloads} (hpoll : s.toDownloads.poll w = some d) :
      Changes s (.poll w) d
  | begin {w : Thread} {r : Ref} (hrun : s.running w = some r)
      (hphase : (s.heap r).phase = .taken) :
      Changes s (.begin w) (s.begin w r).toDownloads
  | passed {c : Conditions} {w : Thread} {r : Ref} (hrun : s.running w = some r)
      (hphase : (s.heap r).phase = .begun) (hpasses : (enqueueDownload c).2 = true) :
      Changes s (.check c w) (s.modify r fun o => { o with phase := .checked })
  | refused {c : Conditions} {w : Thread} {r : Ref} (hrun : s.running w = some r)
      (hphase : (s.heap r).phase = .begun) (hrefused : (enqueueDownload c).2 = false) :
      Changes s (.check c w) (s.endRun w r).toDownloads
  | load {w : Thread} {r : Ref} (hrun : s.running w = some r)
      (hphase : (s.heap r).phase = .checked) : Changes s (.load w) (s.load r).toDownloads
  | await {w : Thread} {r : Ref} (hrun : s.running w = some r)
      (hphase : (s.heap r).phase = .loaded) :
      Changes s (.await w) (s.modify r fun o => { o with phase := .waiting })
  | finish {w : Thread} {r : Ref} (hrun : s.running w = some r)
      (hphase : (s.heap r).phase = .waiting) : Changes s (.finish w) (s.endRun w r).toDownloads
  | progress {r : Ref} {downloaded total : Int} (hfuture : (s.heap r).fileResponseFuture ≠ none) :
      Changes s (.progress r downloaded total) (s.modify r fun o => { o with
        actualPercentage := percentage downloaded total
        oldPercentage := percentage downloaded total })

variable {s s' : State}

/-- A callback records its percentage. -/
theorem on_progress_to_downloads (s : State) (r : Ref) (downloaded total : Int) :
    (s.onProgress r downloaded total).toDownloads = s.modify r fun o => { o with
      actualPercentage := percentage downloaded total
      oldPercentage := percentage downloaded total } := by
  simp only [onProgress]
  split
  · rename_i hsame
    show (s.modify r fun o => _) = _
    unfold Downloads.modify
    rw [← hsame]
  · rfl

/-- What a start does to the runnables and the executor. -/
theorem changes_of_start {info : UpdateInfo} :
    s.Changes (.start info) (onStartCommand (some (.start info)) s).toDownloads := by
  show s.Changes _ (if info.mTimestamp = "" then s.postStartup else s.postStartup.enqueue
    info).toDownloads
  split
  · rename_i hid
    rw [post_startup_to_downloads]
    exact .unnamed hid
  · rename_i hid
    unfold enqueue
    rw [post_startup_to_downloads]
    rcases Downloads.execute_cases (s.construct info) s.next with ⟨hshut, hnone⟩ | ⟨-, d, hsome, -⟩
    · rw [hnone]
      exact .rejected hid hshut
    · rw [hsome]
      exact .accepted hid hsome

/-- A call of `cancelDownload` with the polls before its second read. -/
theorem cancel_cases (id : String) (h : s.Sane) {polls : List Thread} {d : Downloads}
    (hpolls : s.pollAll polls = some d) :
    ((s.withDownloads d).cancelDownload id s.mWorkQueue.length = none ∧
        (polls = [] → s.Unloaded id)) ∨
      polls = [] ∧ d = s.toDownloads ∧ ¬ s.Unloaded id ∧
        (s.withDownloads d).cancelDownload id s.mWorkQueue.length =
          some (s.withDownloads (s.cancelledAll id)).afterCancel := by
  cases hcancel : (s.withDownloads d).cancelDownload id s.mWorkQueue.length with
  | none =>
      refine .inl ⟨rfl, fun hnil => ?_⟩
      subst hnil
      cases hpolls
      by_contra hloaded
      have hreturns := (cancel_download_eq_some h (Nat.le_refl _)).2
        ⟨Downloads.not_unloaded_iff.1 hloaded, rfl, rfl⟩
      rw [show s.withDownloads s.toDownloads = s from rfl, hreturns] at hcancel
      cases hcancel
  | some t =>
      obtain ⟨rfl, rfl⟩ := polls_eq_nil h hpolls hcancel
      obtain ⟨hfutures, -, rfl⟩ := (cancel_download_eq_some h (Nat.le_refl _)).1 hcancel
      exact .inr ⟨rfl, rfl, Downloads.not_unloaded_iff.2 hfutures, rfl⟩

/-- What a task does to them. -/
theorem changes_of_task (h : s.Sane) {polls : List Thread} {d : Downloads} {t : Task}
    {rest : List Task} (hhandler : s.handler = t :: rest) (hpolls : s.pollAll polls = some d) :
    s.Changes (.runTask polls)
      (runTask s.mWorkQueue.length t ((s.withDownloads d).withHandler rest)).toDownloads := by
  have hhead : s.handler.head? = some t := by rw [hhandler]; rfl
  by_cases ht : t = .serviceTearDown
  · subst ht
    have hpopped : (s.withHandler rest).Sane := h
    show s.Changes _ ((((s.withHandler rest).withDownloads d).tearDown _).getD _).toDownloads
    rw [tearDown]
    rcases cancel_cases "" hpopped hpolls with ⟨hnone, hunloaded⟩ | ⟨rfl, rfl, hloaded, hsome⟩
    · rw [show s.mWorkQueue = (s.withHandler rest).mWorkQueue from rfl, hnone]
      exact .task hpolls fun _ => hunloaded
    · rw [show s.mWorkQueue = (s.withHandler rest).mWorkQueue from rfl, hsome, Option.map_some,
        Option.getD_some, shutdown_to_downloads, after_cancel_to_downloads]
      exact .tornDown hhead hloaded
  · rw [run_task_to_downloads _ _ ht]
    refine .task hpolls fun htear => ?_
    rw [hhead, Option.some_inj] at htear
    exact absurd htear ht

/-- What any event does to them. -/
theorem changes_of_step {e : Event} (h : s.Sane) (hstep : step s e = some s') :
    s.Changes e s'.toDownloads := by
  obtain ⟨-, hdoes⟩ := step_eq_some.1 hstep
  cases hdoes with
  | start => exact changes_of_start
  | stop | deliverStop | destroy | listen | listenProduce | unlisten => exact .idle rfl
  | restart =>
      show s.Changes _ (if s.mWorkQueue.length = 0 then s.post .serviceTearDown else s).toDownloads
      split <;> exact .idle rfl
  | cancel hpolls =>
      rcases cancel_cases _ h hpolls with ⟨hnone, hunloaded⟩ | ⟨rfl, rfl, hloaded, hsome⟩
      · rw [hnone]
        exact .thrown hpolls hunloaded
      · rw [hsome, Option.getD_some, after_cancel_to_downloads]
        exact .cancelled hloaded
  | runTask hhandler hpolls => exact changes_of_task h hhandler hpolls
  | poll hpoll => exact .poll hpoll
  | begin hrun hphase => exact .begin hrun hphase
  | check hrun hphase =>
      simp only [check]
      split
      · rename_i hpasses
        exact .passed hrun hphase hpasses
      · rename_i hrefused
        exact .refused hrun hphase (by simpa using hrefused)
  | load hrun hphase => exact .load hrun hphase
  | await hrun hphase => exact .await hrun hphase
  | finish hrun hphase => exact .finish hrun hphase
  | progress hfuture =>
      rw [on_progress_to_downloads]
      exact .progress hfuture

/-! ## One runnable -/

/-- What an event can do to the runnable `r`. -/
inductive Moves (r : Ref) : Event → DownloadRunnable → DownloadRunnable → Prop
  | same {e : Event} {o : DownloadRunnable} : Moves r e o o
  | construct {info : UpdateInfo} {o : DownloadRunnable} {phase : Phase}
      (hunborn : o.phase = .unborn)
      (hphase : phase = .queued ∨ phase = .taken ∨ phase = .rejected) :
      Moves r (.start info) o (.new info.mTimestamp info phase)
  | take {e : Event} {o : DownloadRunnable} (hphase : o.phase = .queued) :
      Moves r e o { o with phase := .taken }
  | drop {e : Event} {o : DownloadRunnable} (hphase : o.phase = .queued) :
      Moves r e o { o with phase := .dropped }
  | cancel {e : Event} {o : DownloadRunnable} : Moves r e o o.cancelled
  | begin {w : Thread} {o : DownloadRunnable} (hphase : o.phase = .taken) :
      Moves r (.begin w) o { o with mThread := some w, phase := .begun }
  | pass {c : Conditions} {w : Thread} {o : DownloadRunnable} (hphase : o.phase = .begun) :
      Moves r (.check c w) o { o with phase := .checked }
  | refuse {c : Conditions} {w : Thread} {o : DownloadRunnable} (hphase : o.phase = .begun) :
      Moves r (.check c w) o { o with phase := .ended }
  | load {w : Thread} {o : DownloadRunnable} (hphase : o.phase = .checked) :
      Moves r (.load w) o { o with
        fileResponseFuture := some ⟨o.updateInfo.mUrl, o.updateInfo.getZipName, false⟩
        phase := .loaded }
  | await {w : Thread} {o : DownloadRunnable} (hphase : o.phase = .loaded) :
      Moves r (.await w) o { o with phase := .waiting }
  | finish {w : Thread} {o : DownloadRunnable} (hphase : o.phase = .waiting) :
      Moves r (.finish w) o { o with phase := .ended }
  | progress {downloaded total : Int} {o : DownloadRunnable}
      (hfuture : o.fileResponseFuture ≠ none) :
      Moves r (.progress r downloaded total) o { o with
        actualPercentage := percentage downloaded total
        oldPercentage := percentage downloaded total }

/-- Polls take runnables out of the queue. -/
theorem poll_all_heap {d d' : Downloads} (h : d.Sane) {ws : List Thread}
    (hpolls : d.pollAll ws = some d') (r : Ref) :
    d'.heap r = d.heap r ∨
      (d.heap r).phase = .queued ∧ d'.heap r = { d.heap r with phase := .taken } := by
  induction ws generalizing d with
  | nil =>
      cases hpolls
      exact .inl rfl
  | cons w ws ih =>
      obtain ⟨e, he, hrest⟩ := Option.bind_eq_some_iff.1 hpolls
      rcases (Downloads.poll_heap he).1 r with hsame | ⟨hmem, htaken⟩
      · rw [← hsame]
        exact ih (h.poll he) hrest
      · -- it is taken once
        have hlast := (ih (h.poll he) hrest).resolve_right fun hqueued => by
          rw [htaken] at hqueued
          cases hqueued.1
        exact .inr ⟨h.queued r hmem, hlast.trans htaken⟩

/-- They move a runnable by at most one phase. -/
theorem moves_poll_all {d : Downloads} (h : s.Sane) {ws : List Thread}
    (hpolls : s.pollAll ws = some d) {e : Event} (r : Ref) : Moves r e (s.heap r) (d.heap r) := by
  rcases poll_all_heap h hpolls r with hsame | ⟨hphase, htaken⟩
  · rw [hsame]
    exact .same
  · rw [htaken]
    exact .take hphase

/-- A change of one runnable. -/
theorem moves_modify {e : Event} {r : Ref} {f : DownloadRunnable → DownloadRunnable}
    (h : Moves r e (s.heap r) (f (s.heap r))) (r' : Ref) :
    Moves r' e (s.heap r') ((s.modify r f).heap r') := by
  rw [Downloads.modify_heap]
  split
  · rename_i heq
    subst heq
    exact h
  · exact .same

/-- A start makes one new runnable. -/
theorem moves_construct (h : s.Sane) {info : UpdateInfo} {d : Downloads}
    (hold : ∀ r, r ≠ s.next → d.heap r = (s.construct info).heap r) {phase : Phase}
    (hphase : phase = .queued ∨ phase = .taken ∨ phase = .rejected)
    (hnew : d.heap s.next = { (s.construct info).heap s.next with phase }) (r : Ref) :
    Moves r (.start info) (s.heap r) (d.heap r) := by
  have hconstructed : (s.construct info).heap s.next = .new info.mTimestamp info .queued :=
    Function.update_self ..
  by_cases hr : r = s.next
  · subst hr
    rw [hnew, hconstructed]
    exact .construct (h.unborn _ (Nat.le_refl _)) hphase
  · have hsame : (s.construct info).heap r = s.heap r := Function.update_of_ne hr ..
    rw [hold r hr, hsame]
    exact .same

/-- A cancellation moves a runnable at most to being cancelled. -/
theorem moves_cancelled_all {e : Event} (id : String) (r : Ref) :
    Moves r e (s.heap r) ((s.cancelledAll id).heap r) := by
  show Moves r e _ (if r ∈ _ then (s.heap r).cancelled else s.heap r)
  split
  · exact .cancel
  · exact .same

/-- Every step moves every runnable. -/
theorem step_moves {e : Event} (h : s.Sane) (hstep : step s e = some s') (r : Ref) :
    Moves r e (s.heap r) (s'.heap r) := by
  have hchanges := changes_of_step h hstep
  generalize s'.toDownloads = d at hchanges
  cases hchanges with
  | idle | unnamed => exact .same
  | @accepted info _ hid hexecute =>
      have hheap := Downloads.execute_heap hexecute
      have hnext : d.heap s.next = { (s.construct info).heap s.next with phase := .queued } ∨
          d.heap s.next = { (s.construct info).heap s.next with phase := .taken } := by
        rcases hheap s.next with hsame | ⟨-, htaken⟩
        · refine .inl (hsame.trans ?_)
          rw [← s.toDownloads.construct_phase info]
        · exact .inr htaken
      have hold : ∀ r, r ≠ s.next → d.heap r = (s.construct info).heap r := fun r hr =>
        (hheap r).resolve_right fun hnew => hr hnew.1
      rcases hnext with hqueued | htaken
      · exact moves_construct h hold (.inl rfl) hqueued r
      · exact moves_construct h hold (.inr (.inl rfl)) htaken r
  | rejected hid hrefuses =>
      refine moves_construct h (fun r hr => ?_) (.inr (.inr rfl)) ?_ r
      · rw [Downloads.modify_heap, if_neg hr]
      · rw [Downloads.modify_heap, if_pos rfl]
  | thrown hpolls | task hpolls => exact moves_poll_all h hpolls r
  | cancelled hloaded => exact moves_cancelled_all _ r
  | tornDown htask hloaded =>
      show Moves r _ _ (if r ∈ s.mWorkQueue
        then { (s.cancelledAll "").heap r with phase := .dropped }
        else (s.cancelledAll "").heap r)
      split
      · rename_i hmem
        have hkept : (s.cancelledAll "").heap r = s.heap r := if_neg fun hremoved =>
          Downloads.not_unloaded_iff.1 hloaded r hremoved (h.queued_future hmem)
        rw [hkept]
        exact .drop (h.queued r hmem)
      · exact moves_cancelled_all "" r
  | @poll w _ hpoll =>
      have hpolls : s.pollAll [w] = some d := by
        show (s.toDownloads.poll w >>= fun d => some d) = some d
        rw [hpoll]
        rfl
      exact moves_poll_all h hpolls r
  | @begin w _ hrun hphase =>
      exact moves_modify (f := fun o => { o with mThread := some w, phase := .begun })
        (.begin hphase) r
  | passed hrun hphase hpasses => exact moves_modify (.pass hphase) r
  | refused hrun hphase hrefused =>
      exact moves_modify (f := fun o => { o with phase := .ended }) (.refuse hphase) r
  | load hrun hphase =>
      exact moves_modify (f := fun o => { o with
        fileResponseFuture := some ⟨o.updateInfo.mUrl, o.updateInfo.getZipName, false⟩
        phase := .loaded }) (.load hphase) r
  | await hrun hphase => exact moves_modify (.await hphase) r
  | finish hrun hphase =>
      exact moves_modify (f := fun o => { o with phase := .ended }) (.finish hphase) r
  | progress hfuture => exact moves_modify (.progress hfuture) r

end State

end NamelessCenter.Download
