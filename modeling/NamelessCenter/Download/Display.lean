import NamelessCenter.Download.Screen
import NamelessCenter.Download.Spares
import NamelessCenter.Download.Targets

/-!
# The screen and what it goes back to

The timestamp of an update is the identifier of its card, of its download and of the events about
its progress. `Display` adds the update folder to the screen, and remembers which update the marks
on the cards, the files and the requests to stop the service go back to. `Frame u` says that a step
which goes back to the update `u` leaves the cards and the downloads of all others alone, and
`Separate u` when it does.
-/

namespace NamelessCenter.Download

open Items Machine IndexLoop

/-- The runnable whose task it is. -/
def Task.runnable : Task → Option Ref
  | .startup r | .progress r _ | .error r _ => some r
  | .serviceStartup | .serviceTearDown | .busError _ | .busProgress _ _ | .refresh => none

/-- The screen with the update folder, and with what its parts go back to. -/
structure Display extends Screen where
  /-- The files in the update folder. -/
  files : String → Bool
  /-- The update whose progress the view was told last under an identifier. -/
  shown : String → Option UpdateInfo
  /-- The update whose download has created a file. -/
  maker : String → Option UpdateInfo
  /-- The update whose cancellation has led to an `ACTION_STOP` intent, for each on its way. -/
  stoppers : List (Option UpdateInfo)
  /-- The same for each `tearDown` of the service that is posted. -/
  tearDowns : List (Option UpdateInfo)
  /-- The same for the `tearDown` that has shut the executor down. -/
  shutBy : Option UpdateInfo

/-- What can happen to the display. -/
inductive DisplayEvent where
  /-- Everything on the screen but a cancellation. -/
  | screen (e : ScreenEvent)
  /-- The card of an update calls `cancelDownload`, while threads take runnables. -/
  | cancel (info : UpdateInfo) (polls : List Thread)
  /-- Ion creates the file of a runnable. -/
  | create (r : Ref)
  /-- The download of a runnable fails or is cancelled, and Ion removes the file. -/
  | discard (r : Ref)
  /-- The user deletes an update. -/
  | delete (filename : String)
  deriving DecidableEq, Repr

namespace Display

/-- A new process, with the files of earlier ones. -/
def init (files : String → Bool) : Display where
  toScreen := .init
  files := files
  shown := fun _ => none
  maker := fun _ => none
  stoppers := []
  tearDowns := []
  shutBy := none

variable (s : Display)

/-- The mark of a card as done: `isDownloaded()` of its update. -/
def isDownloaded (card : Card) : Bool := s.files card.updateInfo.getZipName

/-- What the next `tearDown` goes back to. -/
def cause : Option UpdateInfo := s.tearDowns.head?.join

/-- What the view has been told behind the progress of a runnable. -/
def told (r : Ref) : String → Option UpdateInfo :=
  if s.service.listeners = 0 ∨ (s.service.heap r).id = "-1" then s.shown
  else Function.update s.shown (s.service.heap r).id (some (s.service.heap r).updateInfo)

/-- The display behind an event that has changed the screen to `t`. -/
def after (t : Screen) : ScreenEvent → Display
  | .onCreateView => { s with toScreen := t, shown := fun _ => none }
  | .service .stop => { s with toScreen := t, stoppers := s.stoppers ++ [none] }
  | .service .deliverStop =>
      { s with
        toScreen := t
        stoppers := s.stoppers.tail
        tearDowns := s.tearDowns ++ [s.stoppers.head?.join] }
  | .service .destroy => { s with toScreen := t, tearDowns := s.tearDowns ++ [none] }
  | .service .restart =>
      { s with
        toScreen := t
        tearDowns :=
          if s.service.mWorkQueue.length = 0 then s.tearDowns ++ [none] else s.tearDowns }
  | .service (.runTask _) =>
      match s.service.handler with
      | .progress r _ :: _ => { s with toScreen := t, shown := s.told r }
      | .serviceTearDown :: _ =>
          -- its `cancelDownload` may request the next stop
          { s with
            toScreen := t
            stoppers :=
              s.stoppers ++ List.replicate (t.service.stops - s.service.stops) s.cause
            tearDowns := s.tearDowns.tail
            shutBy := if s.service.refuses then s.shutBy else s.cause }
      | _ => { s with toScreen := t }
  | _ => { s with toScreen := t }

/-- A cancellation comes from a card. -/
def ofCard : ScreenEvent → Bool
  | .service (.cancel ..) => true
  | _ => false

/-- The effect of an event, if it can happen. -/
def step : DisplayEvent → Option Display
  | .screen e => if ofCard e then none else (s.toScreen.step e).map fun t => s.after t e
  | .cancel info polls =>
      (s.toScreen.step (.service (.cancel info.mTimestamp polls))).map fun t =>
        { s with
          toScreen := t
          stoppers :=
            s.stoppers ++ List.replicate (t.service.stops - s.service.stops) (some info) }
  | .create r =>
      if s.service.crashed || (s.service.heap r).fileResponseFuture.isNone then none
      else
        some { s with
          files := Function.update s.files (s.service.heap r).file true
          maker := Function.update s.maker (s.service.heap r).file
            (some (s.service.heap r).updateInfo) }
  | .discard r =>
      if s.service.crashed || (s.service.heap r).fileResponseFuture.isNone then none
      else some { s with files := Function.update s.files (s.service.heap r).file false }
  | .delete filename =>
      if s.service.crashed then none
      else some { s with files := Function.update s.files filename false }

/-! ## Steps that go back to an update -/

/-- The service behind the runnables that threads take during the event. -/
def afterPolls : DisplayEvent → Downloads
  | .screen (.service (.runTask polls)) | .cancel _ polls =>
      (s.service.pollAll polls).getD s.service.toDownloads
  | _ => s.service.toDownloads

/-- The event starts, advances, reports, completes or cancels a download of `u`, or stops the
service or refuses a start because one of `u` was cancelled, or it shows cards again. -/
def For (u : UpdateInfo) (s : Display) : DisplayEvent → Prop
  | .screen (.service (.start info)) => info = u ∨ s.shutBy = some u
  | .screen (.service .deliverStop) => s.stoppers.head?.join = some u
  | .screen (.service (.runTask _)) => ∃ t ∈ s.service.handler.head?,
      (∃ r ∈ t.runnable, (s.service.heap r).updateInfo = u) ∨
        t = .serviceTearDown ∧ s.cause = some u
  | .screen (.service (.poll _)) =>
      ∃ r ∈ s.service.mWorkQueue.head?, (s.service.heap r).updateInfo = u
  | .screen (.service (.begin w)) | .screen (.service (.check _ w)) | .screen (.service (.load w))
  | .screen (.service (.await w)) | .screen (.service (.finish w)) =>
      ∃ r ∈ s.service.running w, (s.service.heap r).updateInfo = u
  | .screen (.service (.progress r _ _)) | .create r | .discard r =>
      (s.service.heap r).updateInfo = u
  | .screen (.addCards _) | .screen .onCreateView | .screen .onResume => True
  | .cancel info _ => info = u
  | _ => False

/-- The cards of the other updates with their marks. -/
def others (u : UpdateInfo) (s : Display) : List (Card × Bool) :=
  (s.fragment.cards.filter fun card => card.updateInfo ≠ u).map fun card =>
    (card, s.isDownloaded card)

/-- No card of another update shows progress of `u`, or is marked as done by a file of `u`. -/
def Clean (u : UpdateInfo) (s : Display) : Prop :=
  ∀ card ∈ s.fragment.cards, card.updateInfo ≠ u →
    (s.shown card.getId = some u → card = .new card.updateInfo) ∧
      (s.isDownloaded card = true → s.maker card.updateInfo.getZipName ≠ some u)

/-- The cards of the other updates are as before, or made anew without a mark by `u`. -/
def KeepsCards (u : UpdateInfo) (s s' : Display) : DisplayEvent → Prop
  | .screen (.addCards _) | .screen .onCreateView => s'.Clean u
  | _ => s'.others u = s.others u

/-- The cards and the downloads of the other updates are left alone, their starts are not refused,
and the process goes on. -/
structure Frame (u : UpdateInfo) (s : Display) (e : DisplayEvent) (s' : Display) : Prop where
  cards : s.KeepsCards u s' e
  downloads : Spares u (s.afterPolls e) s'.service.toDownloads
  accepted : ∀ info, e = .screen (.service (.start info)) → info ≠ u →
    (s'.service.heap s.service.next).phase ≠ .rejected
  alive : s'.service.crashed = false

/-- The progress of `u` that a task delivers is shown by no card of another update with the same
timestamp, unless it is shown there already. -/
def Unshown (u : UpdateInfo) (s : Display) : Task → Prop
  | .progress _ percentage => s.service.listeners ≠ 0 → u.mTimestamp ≠ "-1" →
      ∀ card ∈ s.fragment.cards, card.updateInfo ≠ u → card.getId = u.mTimestamp →
        card.display percentage = card
  | _ => True

/-- A task for `u` does not throw, its progress is not shown on other cards, and a `tearDown` finds
only downloads of `u` to end. -/
def SeparateTask (u : UpdateInfo) (s : Display) (polls : List Thread) : Task → Prop
  | .serviceTearDown =>
      polls = [] ∧ ¬ s.service.Unloaded "" ∧ EndsOnly u s.service.toDownloads
  | t => t.onBus s.service.registered ≠ none ∧ s.Unshown u t

/-- A progress is not shown on other cards, now or when they are made anew, and a file does not mark
them; a cancellation reaches only loaded downloads of `u` on threads of their own, the stop that it
may lead to ends no others and they are not started behind it; and the registrations on the bus are
as its calls expect. -/
def Separate (u : UpdateInfo) (s : Display) : DisplayEvent → Prop
  | .screen (.service (.start info)) => info = u ∨ info.mTimestamp = ""
  | .screen (.service (.runTask polls)) =>
      ∀ t ∈ s.service.handler.head?, s.SeparateTask u polls t
  | .screen (.addCards updates) => ∀ info ∈ updates, info ≠ u →
      s.shown info.mTimestamp ≠ some u ∧
        (s.files info.getZipName = true → s.maker info.getZipName ≠ some u)
  | .cancel info polls =>
      polls = [] ∧ ¬ s.service.Unloaded info.mTimestamp ∧
        Reaches u info.mTimestamp s.service.toDownloads
  | .create r => ∀ card ∈ s.fragment.cards, card.updateInfo ≠ u →
      card.updateInfo.getZipName = (s.service.heap r).file → s.isDownloaded card = true
  | .discard r => ∀ card ∈ s.fragment.cards, card.updateInfo ≠ u →
      card.updateInfo.getZipName = (s.service.heap r).file → s.isDownloaded card = false
  | _ => True

variable {u : UpdateInfo} {s s' : Display}

/-- The screen is the one that the event has led to. -/
@[simp] theorem after_to_screen (s : Display) (t : Screen) (e : ScreenEvent) :
    (s.after t e).toScreen = t := by
  unfold after
  split <;> try rfl
  split <;> rfl

/-- No event of the screen touches the files. -/
@[simp] theorem after_files (s : Display) (t : Screen) (e : ScreenEvent) :
    (s.after t e).files = s.files := by
  unfold after
  split <;> try rfl
  split <;> rfl

end Display

/-! ## What holds in every reachable state -/

namespace Screen

variable {s s' : Screen}

/-- What holds of the screen in every reachable state. -/
structure Sound (s : Screen) : Prop where
  sane : s.service.Sane
  placed : s.service.Placed
  current : s.fragment.Current
  id : ∀ r, (s.service.heap r).id = (s.service.heap r).updateInfo.mTimestamp

/-- A new screen is sound. -/
theorem init_sound : init.Sound where
  sane := State.init_sane
  placed := State.init_placed
  current _ hcard := by cases hcard
  id _ := rfl

/-- It stays so. -/
theorem step_sound {e : ScreenEvent} (h : s.Sound) (hstep : s.step e = some s') : s'.Sound := by
  have hsane := step_sane h.sane hstep
  have hcurrent := step_current h.current hstep
  cases e with
  | service e =>
      obtain ⟨t, hservice, rfl⟩ := Option.map_eq_some_iff.1 hstep
      refine ⟨hsane, State.step_placed h.sane h.placed hservice, hcurrent, fun r => ?_⟩
      have hid := h.id r
      have hmoves := State.step_moves h.sane hservice r
      generalize (s.service.heap r) = o at hid hmoves
      show (t.heap r).id = _
      generalize t.heap r = o' at hmoves
      cases hmoves with
      | construct => rfl
      | same | take | drop | cancel | begin | pass | refuse | load | await | finish | progress =>
          exact hid
  | addCards | onResume | onCreateView =>
      obtain ⟨-, heq⟩ := Option.ite_none_left_eq_some.1 hstep
      cases heq
      exact ⟨hsane, h.placed, hcurrent, h.id⟩

/-- A percentage that was delivered to the view stays, until the view is created again. -/
theorem step_m_downloading {e : ScreenEvent} {id : String} (he : e ≠ .onCreateView)
    (h : s.fragment.mDownloading id ≠ none) (hstep : s.step e = some s') :
    s'.fragment.mDownloading id ≠ none := by
  have hevent : ∀ id' percentage,
      (s.fragment.onDownloadProgressEvent id' percentage).mDownloading id ≠ none := by
    intro id' percentage
    show (if id' = "-1" then s.fragment.mDownloading
      else Function.update s.fragment.mDownloading id' (some percentage)) id ≠ none
    split
    · exact h
    · rw [Function.update_apply]
      split
      · exact Option.some_ne_none _
      · exact h
  have hhear : ∀ f : RomUpdateFragment → RomUpdateFragment,
      (f s.fragment).mDownloading id ≠ none → (s.hear f).fragment.mDownloading id ≠ none :=
    fun _ hf => hear_fragment (P := fun f => f.mDownloading id ≠ none) h hf
  cases e with
  | service e =>
      obtain ⟨t, -, rfl⟩ := Option.map_eq_some_iff.1 hstep
      show (s.bus e).fragment.mDownloading id ≠ none
      cases e with
      | runTask polls =>
          simp only [bus]
          split
          · exact h
          · rename_i task _ _
            cases task with
            | progress | busProgress => exact hhear _ (hevent _ _)
            | error | busError => exact hhear _ h
            | serviceStartup =>
                rw [onTask]
                split
                · exact h
                · exact hhear _ (hevent _ _)
            | startup | serviceTearDown | refresh => exact h
      | listen =>
          simp only [bus]
          split
          · exact hevent _ _
          · exact h
      | start | stop | deliverStop | restart | destroy | cancel | unlisten | poll | begin | check
      | load | await | finish | progress => exact h
  | addCards | onResume =>
      obtain ⟨-, heq⟩ := Option.ite_none_left_eq_some.1 hstep
      cases heq
      exact h
  | onCreateView => exact absurd rfl he

/-- The percentage of a runnable that the view is told is kept under its identifier. -/
theorem m_downloading_of_progress {r : Ref} {percentage : Int} {rest : List Task}
    {polls : List Thread} (hhandler : s.service.handler = .progress r percentage :: rest)
    (hlisteners : s.service.listeners ≠ 0) (hid : (s.service.heap r).id ≠ "-1")
    (hstep : s.step (.service (.runTask polls)) = some s') :
    s'.fragment.mDownloading (s.service.heap r).id ≠ none := by
  obtain ⟨t, -, rfl⟩ := Option.map_eq_some_iff.1 hstep
  have hbus : s.bus (.runTask polls) = s.onTask (.progress r percentage) := by
    simp only [bus, hhandler]
  show (s.bus (.runTask polls)).fragment.mDownloading _ ≠ none
  rw [hbus]
  show (s.hear _).fragment.mDownloading _ ≠ none
  rw [hear, if_neg hlisteners]
  show (if (s.service.heap r).id = "-1" then s.fragment.mDownloading
    else Function.update s.fragment.mDownloading (s.service.heap r).id (some percentage)) _ ≠ none
  rw [if_neg hid, Function.update_self]
  exact Option.some_ne_none _

/-- An executor that was shut down stays so. -/
theorem step_refuses {e : ScreenEvent} (h : s.service.Sane) (hstep : s.step e = some s')
    (halive : s'.service.crashed = false) (hrefuses : s.service.refuses = true) :
    s'.service.refuses = true := by
  cases e with
  | service e =>
      obtain ⟨t, hservice, rfl⟩ := Option.map_eq_some_iff.1 hstep
      exact (State.step_refuses h hservice halive).2 (.inl hrefuses)
  | addCards | onResume | onCreateView =>
      obtain ⟨-, heq⟩ := Option.ite_none_left_eq_some.1 hstep
      cases heq
      exact hrefuses

end Screen

namespace Display

variable {u : UpdateInfo} {s s' : Display}

/-- A step of the screen that is no cancellation. -/
theorem step_screen_iff {e : ScreenEvent} :
    s.step (.screen e) = some s' ↔
      ofCard e = false ∧ ∃ t, s.toScreen.step e = some t ∧ s.after t e = s' := by
  rw [step, Option.ite_none_left_eq_some, Bool.not_eq_true, Option.map_eq_some_iff]

/-- What holds in every reachable state. -/
structure Sound (s : Display) : Prop extends s.toScreen.Sound where
  told : ∀ id, s.shown id ≠ none → s.fragment.mDownloading id ≠ none
  shut : s.service.crashed = false → s.shutBy ≠ none → s.service.refuses = true

/-- A new process is sound, whatever files it finds. -/
theorem init_sound (files : String → Bool) : (init files).Sound where
  toSound := Screen.init_sound
  told _ h := absurd rfl h
  shut _ h := absurd rfl h

/-- A view that was told the progress of an update keeps it. -/
theorem after_told {e : ScreenEvent} {t : Screen} (h : s.Sound)
    (hstep : s.toScreen.step e = some t) (id : String) (hshown : (s.after t e).shown id ≠ none) :
    t.fragment.mDownloading id ≠ none := by
  by_cases hcreate : e = .onCreateView
  · subst hcreate
    exact absurd rfl hshown
  by_cases hsame : (s.after t e).shown id = s.shown id
  · rw [hsame] at hshown
    exact Screen.step_m_downloading hcreate (h.told id hshown) hstep
  · -- only the progress of a runnable changes what the view was told
    unfold after at hsame
    split at hsame <;> try exact absurd rfl hsame
    · exact absurd rfl hcreate
    · split at hsame <;> try exact absurd rfl hsame
      rename_i r percentage rest hhandler
      simp only [Display.told] at hsame
      split at hsame
      · exact absurd rfl hsame
      · rename_i hheard
        rw [not_or] at hheard
        have hid : id = (s.service.heap r).id := by
          by_contra hne
          exact hsame (Function.update_of_ne hne ..)
        rw [hid]
        exact Screen.m_downloading_of_progress hhandler hheard.1 hheard.2 hstep

/-- The executor that a `tearDown` was remembered for is shut down. -/
theorem after_shut {e : ScreenEvent} {t : Screen} (h : s.Sound)
    (hstep : s.toScreen.step e = some t) (halive : t.service.crashed = false)
    (hshut : (s.after t e).shutBy ≠ none) : t.service.refuses = true := by
  have hbefore : s.service.crashed = false := by
    cases e with
    | service e =>
        obtain ⟨t', hservice, -⟩ := Option.map_eq_some_iff.1 hstep
        exact (step_eq_some.1 hservice).1
    | addCards | onResume | onCreateView =>
        obtain ⟨hcrashed, -⟩ := Option.ite_none_left_eq_some.1 hstep
        exact Bool.eq_false_of_not_eq_true hcrashed
  by_cases hrefuses : s.service.refuses = true
  · exact Screen.step_refuses h.sane hstep halive hrefuses
  by_cases hsame : (s.after t e).shutBy = s.shutBy
  · rw [hsame] at hshut
    exact absurd (h.shut hbefore hshut) hrefuses
  · unfold after at hsame
    split at hsame <;> try exact absurd rfl hsame
    split at hsame <;> try exact absurd rfl hsame
    rename_i polls _ _ hhandler
    obtain ⟨t', hservice, rfl⟩ := Option.map_eq_some_iff.1 hstep
    exact (State.step_refuses h.sane hservice halive).2 (.inr ⟨polls, _, rfl, hhandler⟩)

/-- Every event keeps the display sound. -/
theorem step_sound {e : DisplayEvent} (h : s.Sound) (hstep : s.step e = some s') : s'.Sound := by
  cases e with
  | screen e =>
      obtain ⟨-, t, ht, rfl⟩ := step_screen_iff.1 hstep
      refine ⟨?_, fun id => ?_, fun halive => ?_⟩
      · rw [after_to_screen]
        exact Screen.step_sound h.toSound ht
      · rw [after_to_screen]
        exact after_told h ht id
      · rw [after_to_screen] at halive ⊢
        exact after_shut h ht halive
  | cancel info polls =>
      obtain ⟨t, ht, rfl⟩ := Option.map_eq_some_iff.1 hstep
      have halive : s.service.crashed = false := by
        obtain ⟨t', hservice, -⟩ := Option.map_eq_some_iff.1 ht
        exact (step_eq_some.1 hservice).1
      exact ⟨Screen.step_sound h.toSound ht,
        fun id hshown => Screen.step_m_downloading ScreenEvent.noConfusion (h.told id hshown) ht,
        fun halive' hshut => Screen.step_refuses h.sane ht halive' (h.shut halive hshut)⟩
  | create r | discard r | delete filename =>
      obtain ⟨-, hstep⟩ := Option.ite_none_left_eq_some.1 hstep
      cases hstep
      exact ⟨h.toSound, h.told, h.shut⟩

end Display

end NamelessCenter.Download
