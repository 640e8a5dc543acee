import NamelessCenter.Download.Changes

/-!
# RomUpdateFragment.java and its cards

The fragment keeps the last percentage that was delivered for each identifier in `mDownloading`, and
`getView` writes it to the cards with that identifier. The machine below adds the fragment to the
service: what a task of the handler posts on the bus reaches the fragment while it is subscribed.
All cards are taken to be in view, so that `notifyDataSetChanged` calls `getView` for each.
-/

namespace NamelessCenter.Download

open Items

/-! ## RomUpdateCard.java -/

/-- The card of an update, with the marks of its progress. -/
structure Card where
  updateInfo : UpdateInfo
  /-- `mIsDownloading` of the update. -/
  isDownloading : Bool
  /-- The progress bar, from 0 to 100. -/
  progress : Int
  deriving DecidableEq, Repr

/-- `new RomUpdateCard(activity, info)`. -/
def Card.new (info : UpdateInfo) : Card := ⟨info, false, 0⟩

/-- The identifier that `init` gives to the card. -/
def Card.getId (card : Card) : String := card.updateInfo.mTimestamp

/-- What `getView` does to a card with an entry for its identifier. -/
def Card.display (card : Card) (percentage : Int) : Card :=
  { card with
    isDownloading := percentage != 101
    progress := max 0 (min 100 percentage) }

/-! ## RomUpdateFragment.java -/

/-- The fragment with its map of percentages and its cards. -/
structure RomUpdateFragment where
  mDownloading : String → Option Int
  cards : List Card

namespace RomUpdateFragment

variable (f : RomUpdateFragment)

/-- The view after `onCreateView`. -/
def onCreateView : RomUpdateFragment := ⟨fun _ => none, []⟩

/-- `getView` of a card. -/
def getView (card : Card) : Card :=
  match f.mDownloading card.getId with
  | none => card
  | some value => card.display value

/-- Every card in view is drawn again. -/
def notifyDataSetChanged : RomUpdateFragment := { f with cards := f.cards.map f.getView }

/-- `onDownloadProgressEvent`. -/
def onDownloadProgressEvent (id : String) (percentage : Int) : RomUpdateFragment :=
  -- a dummy is not added to the map
  let stored := if id = "-1" then f.mDownloading
    else Function.update f.mDownloading id (some percentage)
  { f with mDownloading := stored }.notifyDataSetChanged

/-- The cards of a check's updates replace those before. -/
def addCards (updates : List UpdateInfo) : RomUpdateFragment :=
  { f with cards := updates.map Card.new }.notifyDataSetChanged

end RomUpdateFragment

/-! ## The machine -/

/-- A `DownloadProgressEvent` that was posted on the bus, by a runnable or as the dummy of the
service. -/
structure Delivery where
  runnable : Option Ref
  id : String
  percentage : Int
  deriving DecidableEq, Repr

/-- The service with the fragment, and the events that were posted on the bus. -/
structure Screen where
  service : State
  fragment : RomUpdateFragment
  delivered : List Delivery

/-- A new process, with a view that shows no updates. -/
def Screen.init : Screen := ⟨.init, .onCreateView, []⟩

/-- What can happen to the service and to the fragment. -/
inductive ScreenEvent where
  | service (e : Event)
  /-- The updates of a check are shown. -/
  | addCards (updates : List UpdateInfo)
  | onResume
  /-- The view of the fragment is created again. -/
  | onCreateView
  deriving DecidableEq, Repr

namespace Screen

variable (s : Screen)

/-- An event on the bus reaches the fragment, if it is subscribed. -/
def hear (f : RomUpdateFragment → RomUpdateFragment) : Screen :=
  if s.service.listeners = 0 then s else { s with fragment := f s.fragment }

/-- A `DownloadProgressEvent` is posted on the bus. -/
def deliver (d : Delivery) : Screen :=
  { s.hear fun f => f.onDownloadProgressEvent d.id d.percentage with
    delivered := s.delivered ++ [d] }

/-- What a task posts on the bus. -/
def onTask : Task → Screen
  | .progress r percentage => s.deliver ⟨some r, (s.service.heap r).id, percentage⟩
  | .busProgress id percentage => s.deliver ⟨none, id, percentage⟩
  -- behind the dialog, `onDownloadErrorEvent` updates the cards
  | .error _ _ | .busError _ => s.hear fun f => f.notifyDataSetChanged
  -- a new producer is asked for its dummy
  | .serviceStartup =>
      if s.service.isRegistered then s else s.hear fun f => f.onDownloadProgressEvent "-1" 0
  | .startup _ | .serviceTearDown | .refresh => s

/-- What an event of the service posts on the bus. -/
def bus : Event → Screen
  | .runTask _ =>
      match s.service.handler with
      | [] => s
      | task :: _ => s.onTask task
  | .listen =>
      -- so is the producer that a new subscriber finds
      if s.service.isRegistered then
        { s with fragment := s.fragment.onDownloadProgressEvent "-1" 0 }
      else s
  | _ => s

/-- The effect of an event, if it can happen. -/
def step : ScreenEvent → Option Screen
  | .service e => (Download.step s.service e).map fun service => { s.bus e with service }
  | .addCards updates =>
      if s.service.crashed then none else some { s with fragment := s.fragment.addCards updates }
  | .onResume =>
      if s.service.crashed then none
      else some { s with fragment := s.fragment.notifyDataSetChanged }
  | .onCreateView =>
      if s.service.crashed then none else some { s with fragment := .onCreateView }

end Screen

/-! ## Cards -/

/-- A card keeps its update. -/
@[simp] theorem Card.display_update_info (card : Card) (percentage : Int) :
    (card.display percentage).updateInfo = card.updateInfo := rfl

/-- A card shows the percentage that was set last. -/
@[simp] theorem Card.display_display (card : Card) (p q : Int) :
    (card.display p).display q = card.display q := rfl

namespace RomUpdateFragment

variable {f : RomUpdateFragment}

/-- Drawing a card keeps its update. -/
@[simp] theorem get_view_update_info (card : Card) :
    (f.getView card).updateInfo = card.updateInfo := by
  unfold getView
  split <;> rfl

/-- Every card shows the entry for its identifier. -/
def Current (f : RomUpdateFragment) : Prop := ∀ card ∈ f.cards, f.getView card = card

/-- Drawing it twice changes nothing more. -/
theorem get_view_get_view (card : Card) : f.getView (f.getView card) = f.getView card := by
  unfold getView
  cases hvalue : f.mDownloading card.getId with
  | none => simp [hvalue]
  | some value =>
      have hid : (card.display value).getId = card.getId := rfl
      simp [hid, hvalue]

/-- Behind a notification, every card is up to date. -/
theorem current_notify_data_set_changed (f : RomUpdateFragment) :
    f.notifyDataSetChanged.Current := by
  intro card hcard
  obtain ⟨card, -, rfl⟩ := List.mem_map.1 hcard
  exact get_view_get_view card

/-- Cards that are up to date do not change. -/
theorem notify_data_set_changed_of_current (h : f.Current) : f.notifyDataSetChanged = f := by
  have hcards : f.cards.map f.getView = f.cards := (List.map_congr_left h).trans (List.map_id _)
  rw [notifyDataSetChanged, hcards]

/-- A percentage reaches the cards with its identifier, and no others. -/
theorem on_download_progress_event_cards (h : f.Current) (id : String) (percentage : Int) :
    (f.onDownloadProgressEvent id percentage).cards =
      f.cards.map fun card =>
        if card.getId = id ∧ id ≠ "-1" then card.display percentage else card := by
  refine List.map_congr_left fun card hcard => ?_
  have hcurrent := h card hcard
  unfold getView at hcurrent ⊢
  by_cases hdummy : id = "-1"
  · simpa [hdummy] using hcurrent
  · by_cases hid : card.getId = id
    · simp [hdummy, hid]
    · simpa [hdummy, hid] using hcurrent

end RomUpdateFragment

/-! ## Steps -/

namespace Screen

variable {s s' : Screen}

/-- An event on the bus does not reach the service. -/
theorem hear_service (f : RomUpdateFragment → RomUpdateFragment) :
    (s.hear f).service = s.service ∧ (s.hear f).delivered = s.delivered := by
  unfold hear
  split <;> exact ⟨rfl, rfl⟩

/-- What holds of the fragment before and behind an event holds whether it is subscribed or not. -/
theorem hear_fragment {P : RomUpdateFragment → Prop} {f : RomUpdateFragment → RomUpdateFragment}
    (h : P s.fragment) (hf : P (f s.fragment)) : P (s.hear f).fragment := by
  unfold hear
  split
  · exact h
  · exact hf

/-- The service stays sane. -/
theorem step_sane {e : ScreenEvent} (h : s.service.Sane) (hstep : s.step e = some s') :
    s'.service.Sane := by
  cases e with
  | service e =>
      obtain ⟨t, hservice, rfl⟩ := Option.map_eq_some_iff.1 hstep
      exact State.step_sane h hservice
  | addCards | onResume | onCreateView =>
      obtain ⟨-, heq⟩ := Option.ite_none_left_eq_some.1 hstep
      cases heq
      exact h

/-- Behind an event, the cards are up to date. -/
theorem hear_current {f : RomUpdateFragment → RomUpdateFragment} (h : s.fragment.Current)
    (hf : (f s.fragment).Current) : (s.hear f).fragment.Current :=
  hear_fragment (P := RomUpdateFragment.Current) h hf

/-- So they are behind every event of the service. -/
theorem bus_current (h : s.fragment.Current) (e : Event) : (s.bus e).fragment.Current := by
  have hevent : ∀ id percentage, (s.fragment.onDownloadProgressEvent id percentage).Current :=
    fun _ _ => RomUpdateFragment.current_notify_data_set_changed _
  cases e with
  | runTask polls =>
      simp only [bus]
      split
      · exact h
      · rename_i task _ _
        cases task with
        | progress | busProgress => exact hear_current h (hevent _ _)
        | error | busError =>
            exact hear_current h (RomUpdateFragment.current_notify_data_set_changed _)
        | serviceStartup =>
            rw [onTask]
            split
            · exact h
            · exact hear_current h (hevent _ _)
        | startup | serviceTearDown | refresh => exact h
  | listen =>
      simp only [bus]
      split
      · exact hevent _ _
      · exact h
  | start | stop | deliverStop | restart | destroy | cancel | unlisten | poll | begin | check | load
  | await | finish | progress => exact h

/-- Every card shows the entry for its identifier, in every state. -/
theorem step_current {e : ScreenEvent} (h : s.fragment.Current) (hstep : s.step e = some s') :
    s'.fragment.Current := by
  cases e with
  | service e =>
      obtain ⟨t, -, rfl⟩ := Option.map_eq_some_iff.1 hstep
      exact bus_current h e
  | addCards | onResume =>
      obtain ⟨-, heq⟩ := Option.ite_none_left_eq_some.1 hstep
      cases heq
      exact RomUpdateFragment.current_notify_data_set_changed _
  | onCreateView =>
      obtain ⟨-, heq⟩ := Option.ite_none_left_eq_some.1 hstep
      cases heq
      exact fun card hcard => by cases hcard

end Screen

end NamelessCenter.Download
