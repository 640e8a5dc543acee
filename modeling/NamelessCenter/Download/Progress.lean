import NamelessCenter.Download.Screen

/-!
# The last progress of a runnable

A runnable posts its progress from the callback of Ion, from the refresh of the main thread and from
its own thread, which ends with 101. `trace r s` is the sequence of its percentages, those that were
delivered and those that are pending in the handler. `completion_is_last` says which callbacks and
refreshes leave 101 at its end.
-/

namespace NamelessCenter.Download

open Items Machine

/-- The percentages of `r` that a task delivers. -/
def Task.percentages (r : Ref) : Task → List Int
  | .progress r' percentage => if r' = r then [percentage] else []
  | _ => []

/-- The run of the runnable has come to its end behind a load. -/
def DownloadRunnable.Finished (o : DownloadRunnable) : Prop :=
  o.phase = .ended ∧ o.fileResponseFuture ≠ none

instance (o : DownloadRunnable) : Decidable o.Finished := inferInstanceAs (Decidable (_ ∧ _))

namespace State

variable {s s' : State} {r : Ref}

/-- The percentages of `r` that are pending. -/
def pendingPercentages (r : Ref) (s : State) : List Int := s.handler.flatMap (Task.percentages r)

/-- The tasks that are pending while the event happens. -/
def remaining (s : State) : Event → List Task
  | .runTask _ => s.handler.tail
  | _ => s.handler

/-- The percentages of `r` that an event posts. -/
def posted (r : Ref) (s : State) : Event → List Int
  | .await w => if s.running w = some r then [0] else []
  | .finish w => if s.running w = some r then [101] else []
  | .progress r' downloaded total =>
      if r' = r ∧ (s.heap r).oldPercentage ≠ percentage downloaded total then
        [percentage downloaded total]
      else []
  | .runTask _ =>
      if s.handler.head? = some .refresh then
        List.replicate (s.registered.count r) (s.heap r).actualPercentage
      else []
  | _ => []

/-! ## What is posted -/

/-- A task that is posted adds its percentages. -/
theorem pending_percentages_post (t : Task) :
    (s.post t).pendingPercentages r = s.pendingPercentages r ++ t.percentages r := by
  simp [pendingPercentages, post]

/-- A new runnable posts no percentage. -/
theorem pending_percentages_enqueue (info : UpdateInfo) :
    (s.enqueue info).pendingPercentages r = s.pendingPercentages r := by
  unfold enqueue
  split <;> simp only [pending_percentages_post, Task.percentages, List.append_nil] <;> rfl

/-- Nor does an intent. -/
theorem pending_percentages_on_start_command (intent : Option Intent) :
    (onStartCommand intent s).pendingPercentages r = s.pendingPercentages r := by
  have hpost : ∀ t : State,
      (t.post .serviceTearDown).pendingPercentages r = t.pendingPercentages r :=
    fun t => by rw [pending_percentages_post]; exact List.append_nil _
  rcases intent with - | ⟨info⟩ | -
  · show (if s.mWorkQueue.length = 0 then s.post .serviceTearDown else s).pendingPercentages r = _
    split
    · exact hpost s
    · rfl
  · have hstarted : s.postStartup.pendingPercentages r = s.pendingPercentages r := by
      unfold postStartup
      split
      · rfl
      · rw [pending_percentages_post]
        exact List.append_nil _
    show (if info.mTimestamp = "" then s.postStartup
      else s.postStartup.enqueue info).pendingPercentages r = _
    split
    · exact hstarted
    · rw [pending_percentages_enqueue, hstarted]
  · exact hpost s

/-- Nor does a cancellation. -/
theorem pending_percentages_after_cancel :
    s.afterCancel.pendingPercentages r = s.pendingPercentages r := by
  have hpost : (s.post (.busProgress "-1" 0)).pendingPercentages r = s.pendingPercentages r := by
    rw [pending_percentages_post]
    exact List.append_nil _
  unfold afterCancel
  dsimp only
  split <;> exact hpost

/-- Nor do the answers to new subscribers. -/
theorem percentages_replicate_refresh (n : Nat) :
    (List.replicate n Task.refresh).flatMap (Task.percentages r) = [] := by
  simp [List.flatMap_eq_nil_iff, Task.percentages]

/-- The percentages that a refresh posts for a runnable. -/
theorem percentages_refresh (registered : List Ref) (percentageOf : Ref → Int) :
    (registered.map fun r' => Task.progress r' (percentageOf r')).flatMap (Task.percentages r) =
      List.replicate (registered.count r) (percentageOf r) := by
  induction registered with
  | nil => rfl
  | cons r' registered ih =>
      rw [List.map_cons, List.flatMap_cons, ih, List.count_cons]
      by_cases hr : r' = r
      · simp [Task.percentages, hr, List.replicate_succ]
      · simp [Task.percentages, hr]

/-- What a task posts for a runnable. -/
theorem pending_percentages_run_task (h : s.Sane) {size : Nat} (hsize : s.mWorkQueue.length ≤ size)
    (t : Task) :
    (runTask size t s).pendingPercentages r = s.pendingPercentages r ++
      if t = .refresh then List.replicate (s.registered.count r) (s.heap r).actualPercentage
      else [] := by
  by_cases ht : t = .serviceTearDown
  · subst ht
    rw [if_neg (by decide), List.append_nil]
    show ((s.tearDown size).getD s.crash).pendingPercentages r = _
    cases htear : s.tearDown size with
    | none => rfl
    | some s' =>
        rw [Option.getD_some, tear_down_eq_some h hsize htear, pendingPercentages,
          (torn_down_frame s).1, List.flatMap_append]
        exact List.append_nil _
  · rw [pendingPercentages, (run_task_frame s size ht).1, List.flatMap_append]
    refine congrArg (s.pendingPercentages r ++ ·) ?_
    cases t with
    | refresh => exact percentages_refresh s.registered fun r => (s.heap r).actualPercentage
    | serviceStartup =>
        simp only [posts]
        split
        · rfl
        · exact percentages_replicate_refresh _
    | _ => rfl

/-- The percentages that are posted: those that stay, and those that the event adds. -/
theorem step_pending {e : Event} (h : s.Sane) (hstep : step s e = some s') :
    s'.pendingPercentages r = (s.remaining e).flatMap (Task.percentages r) ++ s.posted r e := by
  obtain ⟨-, hdoes⟩ := step_eq_some.1 hstep
  cases hdoes with
  | start | deliverStop | restart =>
      rw [pending_percentages_on_start_command]
      exact (List.append_nil _).symm
  | stop | listen | unlisten | poll | begin | load => exact (List.append_nil _).symm
  | destroy => exact pending_percentages_post _
  | cancel hpolls =>
      refine Eq.trans ?_ (List.append_nil _).symm
      rcases cancel_cases _ h hpolls with ⟨hnone, -⟩ | ⟨-, -, -, hsome⟩
      · rw [hnone]
        rfl
      · rw [hsome, Option.getD_some, pending_percentages_after_cancel]
        rfl
  | @runTask polls d task rest hhandler hpolls =>
      have hpolled : ((s.withDownloads d).withHandler rest).Sane := h.poll_all hpolls
      have hactual : (d.heap r).actualPercentage = (s.heap r).actualPercentage := by
        rcases poll_all_heap h hpolls r with hsame | ⟨-, htaken⟩
        · rw [hsame]
        · rw [htaken]
      rw [pending_percentages_run_task hpolled (Downloads.poll_all_le hpolls), remaining, posted,
        hhandler]
      show rest.flatMap _ ++ (if task = .refresh then
        List.replicate (s.registered.count r) (d.heap r).actualPercentage else []) = _
      rw [hactual]
      simp
  | listenProduce =>
      refine Eq.trans ?_ (List.append_nil _).symm
      show (s.handler ++ List.replicate 1 Task.refresh).flatMap _ = _
      rw [List.flatMap_append, percentages_replicate_refresh]
      exact List.append_nil _
  | @check c w r' =>
      have hnone :
          ((enqueueDownload c).1.map (Task.error r')).flatMap (Task.percentages r) = [] := by
        simp [List.flatMap_eq_nil_iff, Task.percentages]
      have hposted : (s.withHandler (s.handler ++ (enqueueDownload c).1.map
          (Task.error r'))).pendingPercentages r = s.pendingPercentages r := by
        show (s.handler ++ _).flatMap _ = _
        rw [List.flatMap_append, hnone]
        exact List.append_nil _
      refine Eq.trans ?_ (List.append_nil _).symm
      simp only [check]
      split <;> exact hposted
  | await hrun =>
      rw [State.await, pending_percentages_post, posted, hrun]
      simp [Task.percentages]
      rfl
  | finish hrun =>
      rw [State.finish, pending_percentages_post, posted, hrun]
      simp [Task.percentages]
      rfl
  | @progress r' downloaded total =>
      simp only [onProgress, posted]
      by_cases hr : r' = r
      · subst hr
        split
        · rename_i hsame
          simp [hsame]
          rfl
        · rename_i hchanged
          rw [pending_percentages_post]
          simp [hchanged, Task.percentages]
          rfl
      · split
        · simp [hr]
          rfl
        · rw [pending_percentages_post]
          simp [hr, Task.percentages]
          rfl

end State

/-! ## What an event does to a runnable -/

section Moves

variable {r : Ref} {e : Event} {o o' : DownloadRunnable}

/-- A runnable that waits for its download has a future. -/
def DownloadRunnable.Loaded (o : DownloadRunnable) : Prop :=
  o.phase = .loaded ∨ o.phase = .waiting → o.fileResponseFuture ≠ none

/-- A runnable that has finished stays finished. -/
theorem moves_finished (h : State.Moves r e o o') (hfinished : o.Finished) : o'.Finished := by
  obtain ⟨hended, hfuture⟩ := hfinished
  cases h with
  | same => exact ⟨hended, hfuture⟩
  | cancel => exact ⟨hended, by simpa [DownloadRunnable.cancelled] using hfuture⟩
  | progress => exact ⟨hended, hfuture⟩
  | construct hphase | take hphase | drop hphase | begin hphase | pass hphase | refuse hphase
  | load hphase | await hphase | finish hphase =>
      rw [hended] at hphase
      cases hphase

/-- One that has loaded stays loaded. -/
theorem moves_loaded (h : State.Moves r e o o') (hloaded : o.Loaded) : o'.Loaded := by
  cases h with
  | same => exact hloaded
  | construct hunborn hphase =>
      intro hlate
      rcases hphase with rfl | rfl | rfl <;> rcases hlate with hlate | hlate <;> cases hlate
  | cancel => exact fun hlate => by simpa [DownloadRunnable.cancelled] using hloaded hlate
  | progress => exact hloaded
  | load => exact fun _ => Option.some_ne_none _
  | await hphase => exact fun _ => hloaded (.inl hphase)
  | take | drop | begin | pass | refuse | finish =>
      exact fun hlate => by rcases hlate with hlate | hlate <;> cases hlate

/-- The percentages of a runnable stay below 101 if its callbacks do. -/
theorem moves_percentages (h : State.Moves r e o o') (hactual : o.actualPercentage ≠ 101)
    (hold : o.oldPercentage ≠ 101)
    (hprogress : ∀ downloaded total, e = .progress r downloaded total →
      percentage downloaded total ≠ 101) : o'.actualPercentage ≠ 101 ∧ o'.oldPercentage ≠ 101 := by
  cases h with
  | @progress downloaded total =>
      exact ⟨hprogress downloaded total rfl, hprogress downloaded total rfl⟩
  | construct => exact ⟨by show (0 : Int) ≠ 101; omega, by show (-1 : Int) ≠ 101; omega⟩
  | same | take | drop | cancel | begin | pass | refuse | load | await | finish =>
      exact ⟨hactual, hold⟩

end Moves

/-! ## The trace -/

namespace Screen

variable {s s' : Screen} {r : Ref}

/-- The percentages of `r` that were delivered. -/
def deliveredPercentages (r : Ref) (s : Screen) : List Int :=
  (s.delivered.filter fun d => d.runnable = some r).map Delivery.percentage

/-- The percentages of a runnable, delivered and posted. -/
def trace (r : Ref) (s : Screen) : List Int :=
  s.deliveredPercentages r ++ s.service.pendingPercentages r

/-- A task delivers the percentages that it was posted for. -/
theorem on_task_delivered (t : Task) :
    (s.onTask t).deliveredPercentages r = s.deliveredPercentages r ++ t.percentages r := by
  unfold deliveredPercentages
  cases t with
  | progress r' percentage =>
      show ((s.delivered ++ [_]).filter _).map _ = _
      by_cases hr : r' = r <;> simp [Task.percentages, hr]
  | busProgress id percentage =>
      show ((s.delivered ++ [_]).filter _).map _ = _
      simp [Task.percentages]
  | error | busError =>
      rw [onTask, (hear_service _).2]
      exact (List.append_nil _).symm
  | serviceStartup =>
      rw [onTask]
      split
      · exact (List.append_nil _).symm
      · rw [(hear_service _).2]
        exact (List.append_nil _).symm
  | startup | serviceTearDown | refresh => exact (List.append_nil _).symm

/-- What is delivered leaves the handler. -/
theorem bus_trace (e : Event) :
    (s.bus e).deliveredPercentages r ++ (s.service.remaining e).flatMap (Task.percentages r) =
      s.trace r := by
  cases e with
  | runTask polls =>
      simp only [bus, State.remaining, trace, State.pendingPercentages]
      cases s.service.handler with
      | nil => rfl
      | cons t rest =>
          rw [on_task_delivered, List.flatMap_cons, List.append_assoc]
          rfl
  | listen =>
      simp only [bus]
      split <;> rfl
  | _ => rfl

/-- The percentages of `r` that an event posts. -/
def posted (r : Ref) (s : Screen) : ScreenEvent → List Int
  | .service e => s.service.posted r e
  | _ => []

/-- An event appends to the trace what it posts. -/
theorem step_trace {e : ScreenEvent} (h : s.service.Sane) (hstep : s.step e = some s') :
    s'.trace r = s.trace r ++ s.posted r e := by
  cases e with
  | service e =>
      obtain ⟨service, hservice, rfl⟩ := Option.map_eq_some_iff.1 hstep
      show (s.bus e).deliveredPercentages r ++ service.pendingPercentages r = _
      rw [State.step_pending h hservice, ← List.append_assoc, bus_trace]
      rfl
  | addCards | onResume | onCreateView =>
      obtain ⟨-, heq⟩ := Option.ite_none_left_eq_some.1 hstep
      cases heq
      exact (List.append_nil _).symm

/-! ## The completion -/

/-- The event posts no percentage of `r` behind the last one: Ion reports nothing to a runnable that
has ended, and never 101 percent, and no refresh finds `r` registered when it has ended. -/
def Timely (r : Ref) (s : Screen) : ScreenEvent → Prop
  | .service (.progress r' downloaded total) =>
      r' = r → (s.service.heap r).oldPercentage ≠ percentage downloaded total →
        percentage downloaded total ≠ 101 ∧ ¬ (s.service.heap r).Finished
  | .service (.runTask _) => s.service.handler.head? = some .refresh → r ∈ s.service.registered →
      ¬ (s.service.heap r).Finished
  | _ => True

/-- 101 is the last percentage of the trace, and is there only at the end of the run. -/
structure Timed (r : Ref) (s : Screen) : Prop where
  last : 101 ∉ (s.trace r).dropLast
  finished : 101 ∈ s.trace r → (s.service.heap r).Finished
  loaded : (s.service.heap r).Loaded
  actual : (s.service.heap r).actualPercentage ≠ 101
  old : (s.service.heap r).oldPercentage ≠ 101

/-- A timely event posts percentages only of a runnable that has not ended, and 101 as it ends. -/
theorem posted_timely {e : Event} {t : State} (h : s.Timed r) (htimely : s.Timely r (.service e))
    (hstep : Download.step s.service e = some t) (hposts : s.service.posted r e ≠ []) :
    ¬ (s.service.heap r).Finished ∧
      (101 ∉ s.service.posted r e ∨ s.service.posted r e = [101] ∧ (t.heap r).Finished) := by
  obtain ⟨-, hdoes⟩ := step_eq_some.1 hstep
  cases hdoes with
  | await hrun hphase =>
      simp only [State.posted, hrun, Option.some_inj] at hposts ⊢
      split at hposts
      · rename_i hr
        subst hr
        refine ⟨fun hfinished => ?_, .inl (by simp)⟩
        cases hphase.symm.trans hfinished.1
      · exact absurd rfl hposts
  | @finish w r' hrun hphase =>
      simp only [State.posted, hrun, Option.some_inj] at hposts ⊢
      split at hposts
      · rename_i hr
        subst hr
        refine ⟨fun hfinished => ?_, .inr ⟨by simp, ?_⟩⟩
        · cases hphase.symm.trans hfinished.1
        · show ((s.service.modify r' fun o => { o with phase := .ended }).heap r').Finished
          rw [Downloads.modify_heap, if_pos rfl]
          exact ⟨rfl, h.loaded (.inr hphase)⟩
      · exact absurd rfl hposts
  | progress =>
      simp only [State.posted] at hposts ⊢
      split at hposts
      · rename_i hnew
        obtain ⟨hdone, hrunning⟩ := htimely hnew.1 hnew.2
        refine ⟨hrunning, .inl ?_⟩
        rw [if_pos hnew, List.mem_singleton]
        exact Ne.symm hdone
      · exact absurd rfl hposts
  | runTask =>
      simp only [State.posted] at hposts ⊢
      split at hposts
      · rename_i hrefresh
        have hregistered : r ∈ s.service.registered := by
          by_contra hnone
          exact hposts (by rw [List.count_eq_zero.2 hnone]; rfl)
        refine ⟨htimely hrefresh hregistered, .inl ?_⟩
        rw [if_pos hrefresh]
        exact fun hmem => h.actual (List.eq_of_mem_replicate hmem).symm
      · exact absurd rfl hposts
  | start | stop | deliverStop | restart | destroy | cancel | listen | listenProduce | unlisten
  | poll | begin | check | load => exact absurd rfl hposts

/-- The trace of a runnable goes on to grow in time. -/
theorem step_timed {e : ScreenEvent} (hsane : s.service.Sane) (h : s.Timed r)
    (htimely : s.Timely r e) (hstep : s.step e = some s') : s'.Timed r := by
  have htrace := step_trace (r := r) hsane hstep
  cases e with
  | service e =>
      obtain ⟨t, hservice, rfl⟩ := Option.map_eq_some_iff.1 hstep
      have hmoves := State.step_moves hsane hservice r
      have hprogress : ∀ downloaded total, e = .progress r downloaded total →
          percentage downloaded total ≠ 101 := fun downloaded total he => by
        subst he
        by_cases hsame : (s.service.heap r).oldPercentage = percentage downloaded total
        · exact hsame ▸ h.old
        · exact (htimely rfl hsame).1
      obtain ⟨hactual, hold⟩ := moves_percentages hmoves h.actual h.old hprogress
      refine ⟨?_, fun hmem => ?_, moves_loaded hmoves h.loaded, hactual, hold⟩
      all_goals rw [htrace, posted] at *
      · by_cases hposts : s.service.posted r e = []
        · rw [hposts, List.append_nil]
          exact h.last
        · obtain ⟨hbefore, hnone | ⟨hlast, -⟩⟩ := posted_timely h htimely hservice hposts
          · refine fun hmem => ?_
            rcases List.mem_append.1 (List.mem_of_mem_dropLast hmem) with hold | hnew
            · exact hbefore (h.finished hold)
            · exact hnone hnew
          · rw [hlast, List.dropLast_concat]
            exact fun hmem => hbefore (h.finished hmem)
      · by_cases hposts : s.service.posted r e = []
        · rw [hposts, List.append_nil] at hmem
          exact moves_finished hmoves (h.finished hmem)
        · obtain ⟨hbefore, hnone | ⟨-, hafter⟩⟩ := posted_timely h htimely hservice hposts
          · rcases List.mem_append.1 hmem with hold | hnew
            · exact absurd (h.finished hold) hbefore
            · exact absurd hnew hnone
          · exact hafter
  | addCards | onResume | onCreateView =>
      replace htrace : _ = _ ++ [] := htrace
      rw [List.append_nil] at htrace
      obtain ⟨-, heq⟩ := Option.ite_none_left_eq_some.1 hstep
      cases heq
      exact ⟨htrace ▸ h.last, htrace ▸ h.finished, h.loaded, h.actual, h.old⟩

/-- At first, the trace is empty. -/
theorem init_timed : (init : Screen).Timed r where
  last := List.not_mem_nil
  finished hmem := absurd hmem List.not_mem_nil
  loaded hlate := by rcases hlate with hlate | hlate <;> cases hlate
  actual := by
    show (0 : Int) ≠ 101
    omega
  old := by
    show (-1 : Int) ≠ 101
    omega

/-- In a run of timely steps, no percentage follows 101. -/
theorem run_timed {es : List ScreenEvent} (hrun : run step init es = some s)
    (htimely : Along step (Timely r) init es) : s.Timed r :=
  (run_along (I := fun s => s.service.Sane ∧ s.Timed r)
    (fun hI htimely hstep => ⟨step_sane hI.1 hstep, step_timed hI.1 hI.2 htimely hstep⟩)
    ⟨State.init_sane, init_timed⟩ htimely hrun).2

/-! ## The card -/

/-- The entry for an identifier is 101, if there is one, and its cards are not downloading. -/
structure Done (id : String) (f : RomUpdateFragment) : Prop where
  entry : ∀ percentage ∈ f.mDownloading id, percentage = 101
  cards : ∀ card ∈ f.cards, card.getId = id → card.isDownloading = false

/-- A new view shows no progress at all. -/
theorem done_on_create_view {id : String} : Done id .onCreateView where
  entry _ hvalue := by cases hvalue
  cards _ hcard := by cases hcard

/-- Drawing the cards again does not change that they are done. -/
theorem Done.notify_data_set_changed {id : String} {f : RomUpdateFragment} (h : Done id f) :
    Done id f.notifyDataSetChanged := by
  refine ⟨h.entry, fun card hcard hid => ?_⟩
  obtain ⟨card, hmem, rfl⟩ := List.mem_map.1 hcard
  have hid : card.getId = id := by
    rw [← hid, Card.getId, Card.getId, RomUpdateFragment.get_view_update_info]
  unfold RomUpdateFragment.getView
  cases hvalue : f.mDownloading card.getId with
  | none => exact h.cards card hmem hid
  | some value =>
      rw [hid] at hvalue
      show (value != 101) = false
      rw [h.entry value hvalue]
      rfl

/-- An event with another identifier, or with 101. -/
theorem Done.on_download_progress_event {id id' : String} {percentage : Int} {f : RomUpdateFragment}
    (h : Done id f) (hother : id' = id → percentage = 101 ∨ id' = "-1") :
    Done id (f.onDownloadProgressEvent id' percentage) := by
  refine Done.notify_data_set_changed ⟨fun value hvalue => ?_, h.cards⟩
  by_cases hdummy : id' = "-1"
  · exact h.entry value (by simpa [hdummy] using hvalue)
  · by_cases hid : id' = id
    · subst hid
      have hsame : percentage = value := by simpa [hdummy] using hvalue
      exact hsame ▸ (hother rfl).resolve_right hdummy
    · exact h.entry value (by simpa [hdummy, Function.update_of_ne (Ne.symm hid)] using hvalue)

/-- The event of 101 percent makes its card done. -/
theorem done_of_completion {id : String} {f : RomUpdateFragment} (hid : id ≠ "-1") :
    Done id (f.onDownloadProgressEvent id 101) := by
  have hentry : (f.onDownloadProgressEvent id 101).mDownloading id = some 101 := by
    show (if id = "-1" then f.mDownloading else _) id = _
    rw [if_neg hid, Function.update_self]
  refine ⟨fun percentage hvalue => ?_, fun card hcard hcardId => ?_⟩
  · rw [hentry] at hvalue
    exact (Option.some.inj hvalue).symm
  · obtain ⟨card, -, rfl⟩ := List.mem_map.1 hcard
    rw [Card.getId, RomUpdateFragment.get_view_update_info] at hcardId
    replace hcardId : card.getId = id := hcardId
    unfold RomUpdateFragment.getView
    rw [hcardId]
    split
    · rename_i hnone
      cases hentry.symm.trans hnone
    · rename_i value hvalue
      cases hentry.symm.trans hvalue
      rfl

/-- What an event delivers, and that a finished card stays so unless progress for it is delivered.
-/
theorem step_done (id : String) {e : ScreenEvent} (hstep : s.step e = some s') :
    ∃ new, s'.delivered = s.delivered ++ new ∧
      ((∀ d ∈ new, d.id = id → d.percentage = 101 ∨ id = "-1") →
        Done id s.fragment → Done id s'.fragment) := by
  have hdeliver : ∀ d : Delivery, ∃ new, (s.deliver d).delivered = s.delivered ++ new ∧
      ((∀ d ∈ new, d.id = id → d.percentage = 101 ∨ id = "-1") →
        Done id s.fragment → Done id (s.deliver d).fragment) := fun d => by
    refine ⟨[d], rfl, fun hother h => hear_fragment (P := Done id) h ?_⟩
    exact h.on_download_progress_event fun hid =>
      (hother d (List.mem_singleton_self d) hid).imp_right hid.trans
  cases e with
  | service e =>
      obtain ⟨t, -, rfl⟩ := Option.map_eq_some_iff.1 hstep
      show ∃ new, (s.bus e).delivered = _ ∧ (_ → _ → Done id (s.bus e).fragment)
      have hsame : ∃ new, s.delivered = s.delivered ++ new ∧
          ((∀ d ∈ new, d.id = id → d.percentage = 101 ∨ id = "-1") →
            Done id s.fragment → Done id s.fragment) :=
        ⟨[], (List.append_nil _).symm, fun _ h => h⟩
      have hhear : ∀ f : RomUpdateFragment → RomUpdateFragment,
          (Done id s.fragment → Done id (f s.fragment)) → ∃ new,
            (s.hear f).delivered = s.delivered ++ new ∧
              ((∀ d ∈ new, d.id = id → d.percentage = 101 ∨ id = "-1") →
                Done id s.fragment → Done id (s.hear f).fragment) :=
        fun f hf => ⟨[], by rw [(hear_service f).2]; exact (List.append_nil _).symm,
          fun _ h => hear_fragment (P := Done id) h (hf h)⟩
      have hdummy : Done id s.fragment → Done id (s.fragment.onDownloadProgressEvent "-1" 0) :=
        fun h => h.on_download_progress_event fun _ => .inr rfl
      cases e with
      | runTask polls =>
          simp only [bus]
          split
          · exact hsame
          · rename_i task _ _
            cases task with
            | progress | busProgress => exact hdeliver _
            | error | busError => exact hhear _ Done.notify_data_set_changed
            | serviceStartup =>
                rw [onTask]
                split
                · exact hsame
                · exact hhear _ hdummy
            | startup | serviceTearDown | refresh => exact hsame
      | listen =>
          simp only [bus]
          split
          · exact ⟨[], (List.append_nil _).symm, fun _ => hdummy⟩
          · exact hsame
      | start | stop | deliverStop | restart | destroy | cancel | unlisten | poll | begin | check
      | load | await | finish | progress => exact hsame
  | addCards updates =>
      obtain ⟨-, heq⟩ := Option.ite_none_left_eq_some.1 hstep
      cases heq
      refine ⟨[], (List.append_nil _).symm, fun _ h => Done.notify_data_set_changed ⟨h.entry, ?_⟩⟩
      intro card hcard _
      obtain ⟨info, -, rfl⟩ := List.mem_map.1 hcard
      rfl
  | onResume =>
      obtain ⟨-, heq⟩ := Option.ite_none_left_eq_some.1 hstep
      cases heq
      exact ⟨[], (List.append_nil _).symm, fun _ => Done.notify_data_set_changed⟩
  | onCreateView =>
      obtain ⟨-, heq⟩ := Option.ite_none_left_eq_some.1 hstep
      cases heq
      exact ⟨[], (List.append_nil _).symm, fun _ _ => done_on_create_view⟩

/-- The card stays done as long as no other percentage of it is delivered. -/
theorem run_done (id : String) {es : List ScreenEvent} (hrun : run step s es = some s') :
    ∃ after, s'.delivered = s.delivered ++ after ∧
      ((∀ d ∈ after, d.id = id → d.percentage = 101 ∨ id = "-1") →
        Done id s.fragment → Done id s'.fragment) := by
  induction es generalizing s with
  | nil =>
      cases hrun
      exact ⟨[], (List.append_nil _).symm, fun _ h => h⟩
  | cons e es ih =>
      obtain ⟨t, he, hrest⟩ := run_cons.1 hrun
      obtain ⟨new, hnew, hstep⟩ := step_done id he
      obtain ⟨after, hafter, hothers⟩ := ih hrest
      refine ⟨new ++ after, by rw [hafter, hnew, List.append_assoc], fun hother h => ?_⟩
      exact hothers (fun d hd => hother d (List.mem_append_right _ hd))
        (hstep (fun d hd => hother d (List.mem_append_left _ hd)) h)

/-- The card of a completed download is done when a subscribed fragment has been told so. -/
theorem done_deliver {es : List ScreenEvent} (hrun : run step init es = some s)
    (hlisteners : s.service.listeners ≠ 0) (runnable : Option Ref) (id : String) :
    Done id (s.deliver ⟨runnable, id, 101⟩).fragment := by
  show Done id (s.hear _).fragment
  rw [hear, if_neg hlisteners]
  by_cases hid : id = "-1"
  · -- the entry of the dummy is never made, so that its cards never change
    obtain ⟨after, -, hdummy⟩ := run_done "-1" hrun
    subst hid
    have hbefore : Done "-1" s.fragment := hdummy (fun _ _ _ => .inr rfl) done_on_create_view
    exact hbefore.on_download_progress_event fun _ => .inr rfl
  · exact done_of_completion hid

/-- If Ion reports nothing to `r` behind its end, and never 101 percent, and no refresh finds `r`
registered behind its end, nothing of `r` is delivered behind 101, and if the fragment was
subscribed, its card stays done until another runnable with the identifier delivers something. -/
theorem completion_is_last {es₁ es₂ : List ScreenEvent} {polls : List Thread} {rest : List Task}
    {s s₁ s₂ : Screen} (hrun : run step init es₁ = some s)
    (hcompletes : s.service.handler = .progress r 101 :: rest)
    (hstep : s.step (.service (.runTask polls)) = some s₁) (hrun₂ : run step s₁ es₂ = some s₂)
    (htimely : Along step (Timely r) init (es₁ ++ .service (.runTask polls) :: es₂)) :
    ∃ after, s₂.delivered = s.delivered ++ ⟨some r, (s.service.heap r).id, 101⟩ :: after ∧
      (∀ d ∈ after, d.runnable ≠ some r) ∧
      (s.service.listeners ≠ 0 → (∀ d ∈ after, d.id ≠ (s.service.heap r).id) →
        Done (s.service.heap r).id s₂.fragment) := by
  have hlast := (run_timed (run_append.2 ⟨s, hrun, run_cons.2 ⟨s₁, hstep, hrun₂⟩⟩) htimely).last
  obtain ⟨after, hafter, hcard⟩ := run_done (s.service.heap r).id hrun₂
  obtain ⟨t, -, rfl⟩ := Option.map_eq_some_iff.1 hstep
  have hbus : s.bus (.runTask polls) = s.deliver ⟨some r, (s.service.heap r).id, 101⟩ := by
    simp only [bus, hcompletes, onTask]
  have hdelivered : s₂.delivered =
      s.delivered ++ ⟨some r, (s.service.heap r).id, 101⟩ :: after := by
    rw [hafter, hbus]
    show (s.delivered ++ [_]) ++ after = _
    rw [List.append_assoc, List.singleton_append]
  refine ⟨after, hdelivered, fun d hd hr => ?_, fun hlisteners hothers => ?_⟩
  · have hsplit : s₂.trace r = s.deliveredPercentages r ++
        101 :: ((after.filter fun d => d.runnable = some r).map Delivery.percentage ++
          s₂.service.pendingPercentages r) := by
      unfold trace deliveredPercentages
      rw [hdelivered, List.filter_append, List.map_append, List.append_assoc]
      simp
    -- behind 101 there is nothing, neither delivered nor pending
    have hnil : (after.filter fun d => d.runnable = some r).map Delivery.percentage ++
        s₂.service.pendingPercentages r = [] := by
      by_contra hne
      rw [hsplit, List.dropLast_append_of_ne_nil (List.cons_ne_nil _ _),
        List.dropLast_cons_of_ne_nil hne] at hlast
      exact hlast (List.mem_append_right _ List.mem_cons_self)
    have hmem : d ∈ after.filter fun d => d.runnable = some r :=
      List.mem_filter.2 ⟨hd, by simpa using hr⟩
    rw [List.map_eq_nil_iff.1 (List.append_eq_nil_iff.1 hnil).1] at hmem
    cases hmem
  · refine hcard (fun d hd hsame => absurd hsame (hothers d hd)) ?_
    show Done _ (s.bus (.runTask polls)).fragment
    rw [hbus]
    exact done_deliver hrun hlisteners (some r) _

instance (r : Ref) (s : Screen) : DecidablePred (Timely r s)
  | .service (.progress ..) => inferInstanceAs (Decidable (_ → _ → _ ∧ ¬ _))
  | .service (.runTask _) => inferInstanceAs (Decidable (_ → _ → ¬ _))
  | .service (.start _) | .service .stop | .service .deliverStop | .service .restart
  | .service .destroy | .service (.cancel ..) | .service .listen | .service .unlisten
  | .service (.poll _) | .service (.begin _) | .service (.check ..) | .service (.load _)
  | .service (.await _) | .service (.finish _) | .addCards _ | .onResume | .onCreateView =>
      .isTrue trivial

/-- A download whose updates are shown again after it is done. -/
theorem completion_is_last_download :
    ∃ s s₂ : Screen, ∃ after, s₂.delivered = s.delivered ++ ⟨some 0, "1", 101⟩ :: after ∧
      (∀ d ∈ after, d.runnable ≠ some 0) ∧
      (s.service.listeners ≠ 0 → (∀ d ∈ after, d.id ≠ "1") → Done "1" s₂.fragment) :=
  have hrun : run step init [.addCards [nightly], .service .listen, .service (.start nightly),
    .service (.runTask []), .service (.runTask []), .service (.runTask []), .service (.begin 0),
    .service (.check unrestricted 0), .service (.load 0), .service (.await 0),
    .service (.finish 0), .service (.runTask []), .service (.runTask [])] = some _ := rfl
  have hstep : step _ (.service (.runTask [])) = some _ := rfl
  have hrun₂ : run step _ [.onCreateView, .addCards [nightly], .service .listen,
    .service (.runTask [])] = some _ := rfl
  ⟨_, _, completion_is_last (r := 0) hrun rfl hstep hrun₂ (by decide)⟩

/-- A refresh that runs between the end of a download and the delivery of 101 posts its last
progress behind it, and the card shows a download again. -/
theorem refresh_after_completion :
    ∃ s : Screen, run step init [.addCards [nightly], .service (.start nightly),
        .service (.runTask []), .service (.runTask []), .service (.begin 0),
        .service (.check unrestricted 0), .service (.load 0), .service (.await 0),
        .service (.runTask []), .service .listen, .service (.finish 0), .service (.runTask []),
        .service (.runTask []), .service (.runTask [])] = some s ∧
      s.delivered = [⟨some 0, "1", 0⟩, ⟨some 0, "1", 101⟩, ⟨some 0, "1", 0⟩] ∧
      s.fragment.cards = [⟨nightly, true, 0⟩] :=
  ⟨_, rfl, rfl, rfl⟩

end Screen

end NamelessCenter.Download
