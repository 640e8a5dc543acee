import NamelessCenter.Download.Display

/-!
# The cards and downloads of other updates

A step which goes back to the update `u` leaves the cards and the downloads of all others alone
exactly if it is separate (`frame_iff`); `others_untouched_iff` carries this over to runs.
-/

namespace NamelessCenter.Download

open Items Machine IndexLoop

namespace Display

variable {u : UpdateInfo} {s s' : Display}

/-! ## The cards -/

/-- Changes to cards are seen on those of the other updates. -/
theorem filter_map_cards_eq_iff {cards : List Card} {g : Card → Card}
    (hg : ∀ card, (g card).updateInfo = card.updateInfo) :
    ((cards.map g).filter fun card => card.updateInfo ≠ u) =
        (cards.filter fun card => card.updateInfo ≠ u) ↔
      ∀ card ∈ cards, card.updateInfo ≠ u → g card = card := by
  have hsame : ((fun card : Card => decide (card.updateInfo ≠ u)) ∘ g) =
      fun card : Card => decide (card.updateInfo ≠ u) := by
    funext card
    simp [hg]
  rw [List.filter_map, hsame]
  constructor
  · intro heq card hcard hne
    rw [← List.map_id (cards.filter _), List.map_map] at heq
    exact List.map_inj_left.1 heq card (List.mem_filter.2 ⟨hcard, by simpa using hne⟩)
  · intro hcards
    refine (List.map_congr_left fun card hcard => ?_).trans (List.map_id _)
    obtain ⟨hmem, hne⟩ := List.mem_filter.1 hcard
    exact hcards card hmem (by simpa using hne)

/-- While the files stay the same, the others look the same exactly if their cards are the same. -/
theorem others_eq_iff (hfiles : s'.files = s.files) :
    s'.others u = s.others u ↔
      s'.fragment.cards.filter (fun card => card.updateInfo ≠ u) =
        s.fragment.cards.filter fun card => card.updateInfo ≠ u := by
  have hsame : s'.isDownloaded = s.isDownloaded := by
    funext card
    rw [isDownloaded, isDownloaded, hfiles]
  have hinj : Function.Injective fun card => (card, s.isDownloaded card) :=
    fun _ _ heq => (Prod.mk.inj heq).1
  unfold others
  rw [hsame]
  exact (List.map_injective_iff.2 hinj).eq_iff

/-- A file marks only the cards of its name, and those anew if they had the other mark. -/
theorem others_files_iff (s : Display) (u : UpdateInfo) (filename : String) (present : Bool)
    (maker : String → Option UpdateInfo) :
    ({ s with files := Function.update s.files filename present, maker } : Display).others u =
        s.others u ↔
      ∀ card ∈ s.fragment.cards, card.updateInfo ≠ u →
        card.updateInfo.getZipName = filename → s.isDownloaded card = present := by
  have hmark : ∀ card : Card,
      (card, Function.update s.files filename present card.updateInfo.getZipName) =
          (card, s.isDownloaded card) ↔
        (card.updateInfo.getZipName = filename → s.isDownloaded card = present) := by
    intro card
    rw [Prod.mk.injEq, and_iff_right rfl, isDownloaded, Function.update_apply]
    split
    · rename_i heq
      exact ⟨fun hsame _ => hsame.symm, fun hsame => (hsame heq).symm⟩
    · rename_i hne
      exact iff_of_true rfl fun heq => absurd heq hne
  refine List.map_inj_left.trans ?_
  refine (forall₂_congr fun card _ => hmark card).trans ?_
  simp only [List.mem_filter, decide_eq_true_eq, and_imp]

/-- A card that shows a percentage is marked. -/
theorem display_ne_new (info : UpdateInfo) (percentage : Int) :
    (Card.new info).display percentage ≠ .new info := by
  intro heq
  have hdone : (percentage != 101) = false := congrArg Card.isDownloading heq
  have hprogress : max 0 (min 100 percentage) = 0 := congrArg Card.progress heq
  rw [bne_eq_false_iff_eq] at hdone
  subst hdone
  revert hprogress
  decide

/-- New cards show nothing of `u` exactly if the view was not told its progress under the timestamp
of another update, and its file is not that of another. -/
theorem clean_add_cards_iff (h : s.Sound) {updates : List UpdateInfo} {t : Screen}
    (hstep : s.toScreen.step (.addCards updates) = some t) :
    (s.after t (.addCards updates)).Clean u ↔ s.Separate u (.screen (.addCards updates)) := by
  obtain ⟨-, heq⟩ := Option.ite_none_left_eq_some.1 hstep
  cases heq
  have hnew : ∀ info, s.shown info.mTimestamp = some u →
      s.fragment.getView (.new info) ≠ .new info := by
    intro info hshown
    obtain ⟨value, hvalue⟩ := Option.ne_none_iff_exists'.1
      (h.told info.mTimestamp (by rw [hshown]; exact Option.some_ne_none _))
    have hvalue' : s.fragment.mDownloading (Card.new info).getId = some value := hvalue
    unfold RomUpdateFragment.getView
    rw [hvalue']
    exact display_ne_new info value
  have hid : ∀ info, (s.fragment.getView (.new info)).getId = info.mTimestamp := fun info => by
    rw [Card.getId, RomUpdateFragment.get_view_update_info]
    rfl
  show (∀ card ∈ (updates.map Card.new).map s.fragment.getView, _) ↔ ∀ info ∈ updates, _
  simp only [List.map_map, List.forall_mem_map, Function.comp_apply]
  refine forall₂_congr fun info _ => ?_
  show ((s.fragment.getView (.new info)).updateInfo ≠ u → _) ↔ _
  rw [hid, isDownloaded, RomUpdateFragment.get_view_update_info]
  refine imp_congr Iff.rfl (and_congr ?_ Iff.rfl)
  exact ⟨fun hclean hshown => hnew info hshown (hclean hshown),
    fun hne hshown => absurd hshown hne⟩

/-- A task of a runnable of `u` leaves the cards of the others alone exactly if they do not show
what it delivers. -/
theorem on_task_cards_iff (h : s.Sound) {t : Task} {r : Ref} (ht : t.runnable = some r)
    (hr : (s.service.heap r).updateInfo = u) :
    (s.toScreen.onTask t).fragment.cards.filter (fun card => card.updateInfo ≠ u) =
        s.fragment.cards.filter (fun card => card.updateInfo ≠ u) ↔ s.Unshown u t := by
  cases t with
  | startup r' => exact iff_of_true rfl trivial
  | error r' reason =>
      refine iff_of_true ?_ trivial
      rw [Screen.onTask, Screen.hear]
      split
      · rfl
      · show (RomUpdateFragment.notifyDataSetChanged s.fragment).cards.filter _ = _
        rw [RomUpdateFragment.notify_data_set_changed_of_current h.current]
  | progress r' percentage =>
      cases ht
      have hid : (s.service.heap r).id = u.mTimestamp := by rw [h.id r, hr]
      by_cases hlisteners : s.service.listeners = 0
      · refine iff_of_true ?_ fun hne => absurd hlisteners hne
        show (s.toScreen.hear _).fragment.cards.filter _ = _
        rw [Screen.hear, if_pos hlisteners]
      · have hcards : (s.toScreen.onTask (.progress r percentage)).fragment.cards =
            s.fragment.cards.map fun card =>
              if card.getId = u.mTimestamp ∧ u.mTimestamp ≠ "-1" then card.display percentage
              else card := by
          show (s.toScreen.hear _).fragment.cards = _
          rw [Screen.hear, if_neg hlisteners]
          show (s.fragment.onDownloadProgressEvent (s.service.heap r).id percentage).cards = _
          rw [RomUpdateFragment.on_download_progress_event_cards h.current, hid]
        rw [hcards, filter_map_cards_eq_iff fun card => by split <;> rfl]
        constructor
        · intro hall _ hdummy card hcard hne hsame
          have hdisplayed := hall card hcard hne
          rwa [if_pos ⟨hsame, hdummy⟩] at hdisplayed
        · intro hunshown card hcard hne
          split
          · rename_i hmatch
            exact hunshown hlisteners hmatch.2 card hcard hne hmatch.1
          · rfl
  | serviceStartup | serviceTearDown | busError | busProgress | refresh => cases ht

/-! ## The downloads -/

/-- The downloads of the others survive every event for `u` but a cancellation and a `tearDown`. -/
theorem spares_of_changes {e : Event} {d : Downloads} (h : s.Sound)
    (hfor : s.For u (.screen (.service e))) (hchanges : s.service.Changes e d)
    (hcancel : ∀ id polls, e ≠ .cancel id polls)
    (htear : ∀ polls, e = .runTask polls → s.service.handler.head? ≠ some .serviceTearDown) :
    Spares u (s.afterPolls (.screen (.service e))) d := by
  cases hchanges with
  | idle hidle =>
      cases e with
      | stop | deliverStop | restart | destroy | listen | unlisten => exact .refl u _
      | _ => cases hidle
  | unnamed => exact .refl u _
  | accepted hid hexecute => exact spares_accepted h.placed hexecute
  | rejected => exact spares_rejected
  | thrown | cancelled => exact absurd rfl (hcancel _ _)
  | task hpolls =>
      rw [afterPolls, hpolls]
      exact .refl u _
  | tornDown htask => exact absurd htask (htear _ rfl)
  | poll hpoll =>
      obtain ⟨r, hhead, hmine⟩ := hfor
      exact spares_poll hhead hmine hpoll
  | begin hrun =>
      obtain ⟨r, hr, hmine⟩ := hfor
      cases hrun.symm.trans hr
      exact spares_begin hrun hmine
  | refused hrun | finish hrun =>
      obtain ⟨r, hr, hmine⟩ := hfor
      cases hrun.symm.trans hr
      exact spares_end_run hrun hmine
  | passed hrun | await hrun =>
      obtain ⟨r, hr, hmine⟩ := hfor
      cases hrun.symm.trans hr
      exact spares_modify hmine _
  | load hrun =>
      obtain ⟨r, hr, hmine⟩ := hfor
      cases hrun.symm.trans hr
      exact spares_modify hmine fun o => { o with
        fileResponseFuture := some ⟨o.updateInfo.mUrl, o.updateInfo.getZipName, false⟩
        phase := .loaded }
  | progress => exact spares_modify hfor _

/-- Only a task or a cancellation can end the process. -/
theorem alive_of_step {s t : State} {e : Event} (hstep : Download.step s e = some t)
    (htask : ∀ polls, e ≠ .runTask polls) (hcancel : ∀ id polls, e ≠ .cancel id polls) :
    t.crashed = false := by
  obtain ⟨halive, hdoes⟩ := step_eq_some.1 hstep
  cases hdoes with
  | start info =>
      have hstarted : s.postStartup.crashed = false := by
        unfold State.postStartup
        split <;> exact halive
      show (if info.mTimestamp = "" then s.postStartup else s.postStartup.enqueue info).crashed =
        false
      split
      · exact hstarted
      · unfold State.enqueue
        split <;> exact hstarted
  | restart =>
      show (if _ then _ else s).crashed = false
      split <;> exact halive
  | cancel => exact absurd rfl (hcancel _ _)
  | runTask => exact absurd rfl (htask _)
  | check =>
      simp only [State.check]
      split <;> exact halive
  | progress =>
      simp only [State.onProgress]
      split <;> exact halive
  | stop | deliverStop | destroy | listen | listenProduce | unlisten | poll | begin | load | await
  | finish => exact halive

/-- A start is refused exactly if it names its update and the executor was shut down. -/
theorem start_rejected_iff {s t : State} (hsane : s.Sane) {info : UpdateInfo}
    (hstep : Download.step s (.start info) = some t) :
    (t.heap s.next).phase = .rejected ↔ info.mTimestamp ≠ "" ∧ s.refuses = true := by
  obtain ⟨-, hdoes⟩ := step_eq_some.1 hstep
  cases hdoes with
  | start =>
      by_cases hid : info.mTimestamp = ""
      · have hsame : (State.onStartCommand (some (.start info)) s).heap s.next = s.heap s.next := by
          show (if info.mTimestamp = "" then s.postStartup
            else s.postStartup.enqueue info).heap s.next = _
          rw [if_pos hid, State.post_startup_to_downloads]
        rw [hsame, hsane.unborn _ (Nat.le_refl _)]
        exact iff_of_false Phase.noConfusion fun hand => hand.1 hid
      · have hnext : s.postStartup.next = s.next := by rw [State.post_startup_to_downloads]
        have hrefuses : s.postStartup.refuses = s.refuses := by
          rw [State.post_startup_to_downloads]
        rw [State.on_start_command_start hid, ← hnext, ← hrefuses]
        rcases State.enqueue_cases s.postStartup info with
          ⟨hshut, -, hrejected⟩ | ⟨hopen, -, hplaced, -⟩
        · exact iff_of_true hrejected ⟨hid, hshut⟩
        · refine iff_of_false hplaced fun hand => ?_
          rw [hopen] at hand
          cases hand.2

/-! ## The frame of a step -/

/-- A cancellation spares the others exactly if its loop returns and reaches only `u`. -/
theorem frame_cancel_iff (h : s.Sound) {info : UpdateInfo} {polls : List Thread}
    (hstep : s.step (.cancel info polls) = some s') :
    Frame u s (.cancel info polls) s' ↔ s.Separate u (.cancel info polls) := by
  obtain ⟨t₁, hscreen, rfl⟩ := Option.map_eq_some_iff.1 hstep
  obtain ⟨t, hservice, rfl⟩ := Option.map_eq_some_iff.1 hscreen
  obtain ⟨halive, hdoes⟩ := step_eq_some.1 hservice
  cases hdoes with
  | @cancel _ _ d hpolls =>
      rcases State.cancel_cases info.mTimestamp h.sane hpolls with
        ⟨hnone, hunloaded⟩ | ⟨rfl, rfl, hloaded, hsome⟩
      · refine iff_of_false (fun hframe => ?_) fun hseparate =>
          hseparate.2.1 (hunloaded hseparate.1)
        have hcrashed := hframe.alive
        simp only [hnone, Option.getD_none] at hcrashed
        cases hcrashed
      · simp only [hsome, Option.getD_some]
        have hdownloads : (s.service.withDownloads
            (s.service.cancelledAll info.mTimestamp)).afterCancel.toDownloads =
              s.service.cancelledAll info.mTimestamp := State.after_cancel_to_downloads _
        constructor
        · intro hframe
          have hspares := hframe.downloads
          rw [hdownloads] at hspares
          exact ⟨rfl, hloaded, (spares_cancelled_all_iff h.sane).1 hspares⟩
        · intro hseparate
          refine ⟨(others_eq_iff rfl).2 rfl, ?_, (fun _ heq => by cases heq),
            (State.after_cancel_crashed _).trans halive⟩
          rw [hdownloads]
          exact (spares_cancelled_all_iff h.sane).2 hseparate.2.2

/-- A `tearDown` spares the others exactly if it returns and finds only downloads of `u` to end. -/
theorem tear_down_spares_iff (h : s.Sound) {polls : List Thread} {rest : List Task} {t : State}
    (hhandler : s.service.handler = .serviceTearDown :: rest)
    (hservice : Download.step s.service (.runTask polls) = some t) :
    (Spares u (s.afterPolls (.screen (.service (.runTask polls)))) t.toDownloads ∧
        t.crashed = false) ↔ s.SeparateTask u polls .serviceTearDown := by
  obtain ⟨halive, hdoes⟩ := step_eq_some.1 hservice
  cases hdoes with
  | @runTask _ d task rest' hhandler' hpolls =>
      rw [hhandler] at hhandler'
      cases hhandler'
      have hpopped : (s.service.withHandler rest).Sane := h.sane
      have hqueue : s.service.mWorkQueue = (s.service.withHandler rest).mWorkQueue := rfl
      have hrun : State.runTask s.service.mWorkQueue.length .serviceTearDown
          ((s.service.withDownloads d).withHandler rest) =
          (((((s.service.withHandler rest).withDownloads d).cancelDownload ""
            (s.service.withHandler rest).mWorkQueue.length).map State.shutdown).getD
              ((s.service.withHandler rest).withDownloads d).crash) := by
        rw [← hqueue]
        rfl
      rw [hrun]
      rcases State.cancel_cases "" hpopped hpolls with
        ⟨hnone, hunloaded⟩ | ⟨rfl, rfl, hloaded, hsome⟩
      · rw [hnone]
        exact iff_of_false (fun hand => by cases hand.2) fun hseparate =>
          hseparate.2.1 (hunloaded hseparate.1)
      · rw [hsome, Option.map_some, Option.getD_some, State.shutdown_to_downloads,
          State.after_cancel_to_downloads]
        have hcrashed := (State.shutdown_frame ((s.service.withHandler rest).withDownloads
          (s.service.cancelledAll "")).afterCancel).2.2.2
        rw [State.after_cancel_crashed] at hcrashed
        have hspares := spares_torn_down_iff (u := u) h.sane h.placed
        exact ⟨fun hand => ⟨rfl, hloaded, hspares.1 hand.1⟩,
          fun hseparate => ⟨hspares.2 hseparate.2.2, hcrashed.trans halive⟩⟩

/-- What a task other than `tearDown` has to respect. -/
theorem separate_task_iff {polls : List Thread} {t : Task} (ht : t ≠ .serviceTearDown) :
    s.SeparateTask u polls t ↔ t.onBus s.service.registered ≠ none ∧ s.Unshown u t := by
  cases t with
  | serviceTearDown => exact absurd rfl ht
  | _ => rfl

/-- A task other than `tearDown` ends the process exactly if its call on the bus throws. -/
theorem alive_of_task_iff {s t : State} {polls : List Thread} {task : Task} {rest : List Task}
    (htask : task ≠ .serviceTearDown) (hhandler : s.handler = task :: rest)
    (hstep : Download.step s (.runTask polls) = some t) :
    t.crashed = false ↔ task.onBus s.registered ≠ none := by
  obtain ⟨halive, hdoes⟩ := step_eq_some.1 hstep
  cases hdoes with
  | @runTask _ d _ _ hhandler' hpolls =>
      rw [hhandler] at hhandler'
      cases hhandler'
      obtain ⟨-, -, hthrows, hreturns⟩ := State.run_task_frame
        ((s.withDownloads d).withHandler rest) s.mWorkQueue.length htask
      replace hthrows : task.onBus s.registered = none → _ := hthrows
      replace hreturns : ∀ registered, task.onBus s.registered = some registered → _ := hreturns
      constructor
      · intro hlives hnone
        have hcrashed := hthrows hnone
        rw [hlives] at hcrashed
        cases hcrashed
      · intro hbus
        obtain ⟨registered, hregistered⟩ := Option.ne_none_iff_exists'.1 hbus
        exact (hreturns registered hregistered).2.trans halive

/-- A step of the service is judged by the cards on the screen, the downloads and the process. -/
theorem frame_service_iff {e : Event} {t : State} (hstart : ∀ info, e ≠ .start info) :
    Frame u s (.screen (.service e))
        (s.after { s.toScreen.bus e with service := t } (.service e)) ↔
      (s.toScreen.bus e).fragment.cards.filter (fun card => card.updateInfo ≠ u) =
          s.fragment.cards.filter (fun card => card.updateInfo ≠ u) ∧
        Spares u (s.afterPolls (.screen (.service e))) t.toDownloads ∧ t.crashed = false := by
  have hcards := others_eq_iff (u := u)
    (after_files s { s.toScreen.bus e with service := t } (.service e))
  have hservice : (s.after { s.toScreen.bus e with service := t } (.service e)).service = t := by
    rw [after_to_screen]
  rw [after_to_screen] at hcards
  rw [← hcards]
  constructor
  · intro hframe
    have hdownloads := hframe.downloads
    have halive := hframe.alive
    rw [hservice] at hdownloads halive
    exact ⟨hframe.cards, hdownloads, halive⟩
  · rintro ⟨hothers, hdownloads, halive⟩
    refine ⟨hothers, ?_, fun info heq => ?_, ?_⟩
    · rwa [hservice]
    · cases heq
      exact absurd rfl (hstart info)
    · rwa [hservice]

/-- A task for `u` leaves the others alone exactly if it is separate. -/
theorem frame_task_iff (h : s.Sound) {polls : List Thread}
    (hfor : s.For u (.screen (.service (.runTask polls))))
    (hstep : s.step (.screen (.service (.runTask polls))) = some s') :
    Frame u s (.screen (.service (.runTask polls))) s' ↔
      s.Separate u (.screen (.service (.runTask polls))) := by
  obtain ⟨-, t₁, hscreen, rfl⟩ := step_screen_iff.1 hstep
  obtain ⟨t, hservice, rfl⟩ := Option.map_eq_some_iff.1 hscreen
  obtain ⟨task, htask, hgoes⟩ := id hfor
  obtain ⟨rest, hhandler⟩ := List.head?_eq_some_iff.1 htask
  have hbus : s.toScreen.bus (.runTask polls) = s.toScreen.onTask task := by
    simp only [Screen.bus, hhandler]
  have hseparate : s.Separate u (.screen (.service (.runTask polls))) ↔
      s.SeparateTask u polls task := by
    simp only [Separate, hhandler, List.head?_cons, Option.mem_some_iff, forall_eq']
  rw [frame_service_iff (fun _ heq => by cases heq), hseparate, hbus]
  by_cases htear : task = .serviceTearDown
  · subst htear
    rw [tear_down_spares_iff h hhandler hservice]
    exact and_iff_right rfl
  · obtain ⟨r, hr, hmine⟩ := hgoes.resolve_right fun hand => htear hand.1
    have hspares := spares_of_changes h hfor (State.changes_of_step h.sane hservice)
      (fun _ _ heq => by cases heq)
      fun _ _ hhead => htear (Option.some.inj (htask.symm.trans hhead))
    rw [separate_task_iff htear, on_task_cards_iff h hr hmine,
      alive_of_task_iff htear hhandler hservice, and_iff_right hspares]
    exact and_comm

/-- A start is let alone exactly if the executor was not shut down by a cancellation of `u`, unless
it is one of `u` or does not name its update. -/
theorem frame_start_iff (h : s.Sound) {info : UpdateInfo}
    (hfor : s.For u (.screen (.service (.start info))))
    (hstep : s.step (.screen (.service (.start info))) = some s') :
    Frame u s (.screen (.service (.start info))) s' ↔
      s.Separate u (.screen (.service (.start info))) := by
  obtain ⟨-, t₁, hscreen, rfl⟩ := step_screen_iff.1 hstep
  obtain ⟨t, hservice, rfl⟩ := Option.map_eq_some_iff.1 hscreen
  have hspares := spares_of_changes h hfor (State.changes_of_step h.sane hservice)
    (fun _ _ heq => by cases heq) fun _ heq => by cases heq
  have halive := alive_of_step hservice (fun _ heq => by cases heq) fun _ _ heq => by cases heq
  have hrejected := start_rejected_iff h.sane hservice
  constructor
  · intro hframe
    by_cases hmine : info = u
    · exact .inl hmine
    · right
      by_contra hid
      have hshut : s.shutBy ≠ none := by
        rw [hfor.resolve_left hmine]
        exact Option.some_ne_none u
      refine hframe.accepted info rfl hmine (hrejected.2 ⟨hid, h.shut ?_ hshut⟩)
      exact (step_eq_some.1 hservice).1
  · intro hseparate
    refine ⟨(others_eq_iff rfl).2 rfl, hspares, fun info' heq hne => ?_, halive⟩
    cases heq
    exact fun hphase => (hrejected.1 hphase).1 (hseparate.resolve_left hne)

/-- A step that touches neither cards nor files, nor ends the process. -/
theorem frame_of_quiet {e : Event} (h : s.Sound) (hfor : s.For u (.screen (.service e)))
    (hbus : s.toScreen.bus e = s.toScreen) (htask : ∀ polls, e ≠ .runTask polls)
    (hstart : ∀ info, e ≠ .start info)
    (hstep : s.step (.screen (.service e)) = some s') : Frame u s (.screen (.service e)) s' := by
  obtain ⟨hcard, t₁, hscreen, rfl⟩ := step_screen_iff.1 hstep
  obtain ⟨t, hservice, rfl⟩ := Option.map_eq_some_iff.1 hscreen
  have hcancel : ∀ id polls, e ≠ .cancel id polls := by
    intro id polls heq
    subst heq
    cases hcard
  rw [frame_service_iff hstart, hbus]
  exact ⟨rfl, spares_of_changes h hfor (State.changes_of_step h.sane hservice) hcancel
    fun polls heq => absurd heq (htask polls), alive_of_step hservice htask hcancel⟩

/-- A step that leaves the service alone is judged by the cards. -/
theorem frame_iff_keeps_cards {e : DisplayEvent} (hservice : s'.service = s.service)
    (hpolls : s.afterPolls e = s.service.toDownloads)
    (hstart : ∀ info, e ≠ .screen (.service (.start info))) (halive : s.service.crashed = false) :
    Frame u s e s' ↔ s.KeepsCards u s' e := by
  refine ⟨Frame.cards, fun hcards => ⟨hcards, ?_, fun info heq => absurd heq (hstart info), ?_⟩⟩
  · rw [hpolls, hservice]
    exact .refl u _
  · rw [hservice]
    exact halive

/-- A step for `u` leaves the others alone exactly if it is separate. -/
theorem frame_iff {e : DisplayEvent} (h : s.Sound) (hfor : s.For u e)
    (hstep : s.step e = some s') : Frame u s e s' ↔ s.Separate u e := by
  cases e with
  | cancel info polls => exact frame_cancel_iff h hstep
  | create r =>
      obtain ⟨hguard, hcreated⟩ := Option.ite_none_left_eq_some.1 hstep
      rw [Bool.or_eq_true, not_or, Bool.not_eq_true] at hguard
      obtain rfl := (Option.some.inj hcreated).symm
      exact Iff.trans (frame_iff_keeps_cards rfl rfl (fun _ heq => by cases heq) hguard.1)
        (others_files_iff s u (s.service.heap r).file true _)
  | discard r =>
      obtain ⟨hguard, hremoved⟩ := Option.ite_none_left_eq_some.1 hstep
      rw [Bool.or_eq_true, not_or, Bool.not_eq_true] at hguard
      obtain rfl := (Option.some.inj hremoved).symm
      exact Iff.trans (frame_iff_keeps_cards rfl rfl (fun _ heq => by cases heq) hguard.1)
        (others_files_iff s u (s.service.heap r).file false s.maker)
  | delete filename => exact absurd hfor id
  | screen e =>
      cases e with
      | addCards updates =>
          obtain ⟨-, t, hscreen, rfl⟩ := step_screen_iff.1 hstep
          have hclean := clean_add_cards_iff (u := u) h hscreen
          obtain ⟨halive, hadded⟩ := Option.ite_none_left_eq_some.1 hscreen
          cases hadded
          exact Iff.trans (frame_iff_keeps_cards rfl rfl (fun _ heq => by cases heq)
            (Bool.eq_false_of_not_eq_true halive)) hclean
      | onResume =>
          obtain ⟨-, t, hscreen, rfl⟩ := step_screen_iff.1 hstep
          obtain ⟨halive, hresumed⟩ := Option.ite_none_left_eq_some.1 hscreen
          cases hresumed
          refine Iff.trans (frame_iff_keeps_cards rfl rfl (fun _ heq => by cases heq)
            (Bool.eq_false_of_not_eq_true halive)) (iff_of_true ?_ trivial)
          show ({ s with fragment := s.fragment.notifyDataSetChanged } : Display).others u = _
          rw [RomUpdateFragment.notify_data_set_changed_of_current h.current]
      | onCreateView =>
          obtain ⟨-, t, hscreen, rfl⟩ := step_screen_iff.1 hstep
          obtain ⟨halive, hcreated⟩ := Option.ite_none_left_eq_some.1 hscreen
          cases hcreated
          refine Iff.trans (frame_iff_keeps_cards rfl rfl (fun _ heq => by cases heq)
            (Bool.eq_false_of_not_eq_true halive)) (iff_of_true ?_ trivial)
          exact fun card hcard => by cases hcard
      | service e =>
          cases e with
          | runTask polls => exact frame_task_iff h hfor hstep
          | start info => exact frame_start_iff h hfor hstep
          | cancel id polls => cases hstep
          | stop | restart | destroy | listen | unlisten => exact absurd hfor id
          | deliverStop | poll | begin | check | load | await | finish | progress =>
              exact iff_of_true (frame_of_quiet h hfor rfl (fun _ heq => by cases heq)
                (fun _ heq => by cases heq) hstep) trivial

/-! ## Runs -/

/-- A step that goes back to `u` leaves the cards and the downloads of the other updates alone. -/
def Framed (u : UpdateInfo) (s : Display) (e : DisplayEvent) : Prop :=
  s.For u e → ∀ s', s.step e = some s' → Frame u s e s'

instance (u : UpdateInfo) (s : Display) : DecidablePred (For u s)
  | .screen (.service (.start _)) => inferInstanceAs (Decidable (_ = _ ∨ _ = _))
  | .screen (.service .deliverStop) | .screen (.service (.progress ..)) | .create _ | .discard _
  | .cancel .. => inferInstanceAs (Decidable (_ = _))
  | .screen (.service (.runTask _)) =>
      inferInstanceAs (Decidable (∃ t ∈ _, (∃ r ∈ Task.runnable t,
        (s.service.heap r).updateInfo = u) ∨ t = .serviceTearDown ∧ _ = _))
  | .screen (.service (.poll _)) | .screen (.service (.begin _)) | .screen (.service (.check ..))
  | .screen (.service (.load _)) | .screen (.service (.await _)) | .screen (.service (.finish _)) =>
      inferInstanceAs (Decidable (∃ r ∈ _, _ = _))
  | .screen (.addCards _) | .screen .onResume | .screen .onCreateView => .isTrue trivial
  | .screen (.service .stop) | .screen (.service .restart) | .screen (.service .destroy)
  | .screen (.service .listen) | .screen (.service .unlisten) | .screen (.service (.cancel ..))
  | .delete _ => .isFalse id

instance (u : UpdateInfo) (s : Display) : DecidablePred (Unshown u s)
  | .progress .. => inferInstanceAs (Decidable (_ ≠ _ → _ ≠ _ → ∀ card ∈ _, _ → _ → _ = _))
  | .startup _ | .error .. | .serviceStartup | .serviceTearDown | .busError _ | .busProgress ..
  | .refresh => .isTrue trivial

instance (u : UpdateInfo) (id : String) (d : Downloads) : Decidable (Reaches u id d) :=
  inferInstanceAs (Decidable (∀ r ∈ _, _ = _ ∧ ∀ w ∈ _, ∀ r' ∈ _, _ ≠ _ → _ = true))

instance (u : UpdateInfo) (d : Downloads) : Decidable (EndsOnly u d) :=
  inferInstanceAs (Decidable ((∀ r ∈ _, _ = _) ∧ (∀ r ∈ _, _ = _) ∧
    ∀ w < _, ∀ r ∈ _, _ ≠ _ → _ = true))

instance (u : UpdateInfo) (s : Display) (polls : List Thread) :
    DecidablePred (SeparateTask u s polls)
  | .serviceTearDown => inferInstanceAs (Decidable (_ = _ ∧ ¬ _ ∧ EndsOnly ..))
  | .progress .. | .startup _ | .error .. | .serviceStartup | .busError _ | .busProgress ..
  | .refresh => inferInstanceAs (Decidable (_ ≠ _ ∧ Unshown ..))

instance (u : UpdateInfo) (s : Display) : DecidablePred (Separate u s)
  | .screen (.service (.start _)) => inferInstanceAs (Decidable (_ = _ ∨ _ = _))
  | .screen (.service (.runTask _)) =>
      inferInstanceAs (Decidable (∀ t ∈ _, SeparateTask u s _ t))
  | .screen (.addCards _) =>
      inferInstanceAs (Decidable (∀ info ∈ _, _ ≠ _ → _ ≠ _ ∧ (_ = _ → _ ≠ _)))
  | .cancel .. => inferInstanceAs (Decidable (_ = _ ∧ ¬ _ ∧ Reaches ..))
  | .create _ | .discard _ => inferInstanceAs (Decidable (∀ card ∈ _, _ ≠ _ → _ = _ → _ = _))
  | .screen (.service (.progress ..)) | .screen (.service (.poll _))
  | .screen (.service (.begin _)) | .screen (.service (.check ..)) | .screen (.service (.load _))
  | .screen (.service (.await _)) | .screen (.service (.finish _)) | .screen (.service .stop)
  | .screen (.service .deliverStop) | .screen (.service .restart) | .screen (.service .destroy)
  | .screen (.service .listen) | .screen (.service .unlisten) | .screen (.service (.cancel ..))
  | .screen .onResume | .screen .onCreateView | .delete _ => .isTrue trivial

/-- A weekly build of the same day. -/
def weekly : UpdateInfo := { nightly with mName := "weekly" }

/-- The builds of two days are downloaded and shown again, and both downloads are cancelled; the
cancellation of the second ends the service. -/
def days : List DisplayEvent :=
  let loaded : List DisplayEvent := [
    .screen (.addCards [nightly, tomorrow]), .screen (.service .listen),
    .screen (.service (.start nightly)), .screen (.service (.start tomorrow)),
    .screen (.service (.begin 0)), .screen (.service (.check unrestricted 0)),
    .screen (.service (.load 0)), .create 0, .screen (.service (.await 0)),
    .screen (.service (.begin 1)), .screen (.service (.check unrestricted 1)),
    .screen (.service (.load 1)), .screen (.service (.await 1))]
  let cancelled : List DisplayEvent := [
    .screen (.addCards [tomorrow, nightly]), .cancel tomorrow [], .cancel nightly [],
    .screen (.service .deliverStop)]
  let task : DisplayEvent := .screen (.service (.runTask []))
  loaded ++ List.replicate 9 task ++ cancelled ++ List.replicate 3 task ++ [.discard 0]

end Display

end NamelessCenter.Download
