import NamelessCenter.Download.Changes

/-!
# The files of the runnables

A runnable keeps the update it was constructed with, and once it is neither queued nor run by a
thread it never is again (`step_follows`). New runnables come from the starts that the executor
accepts (`start_cases`).
-/

namespace NamelessCenter.Download

open Items

/-- The runnable waits in the work queue, or a thread runs it. -/
def Phase.live : Phase → Bool
  | .queued | .taken | .begun | .checked | .loaded | .waiting => true
  | .unborn | .ended | .rejected | .dropped => false

/-- The file that the runnable downloads to. -/
def DownloadRunnable.file (o : DownloadRunnable) : String := o.updateInfo.getZipName

/-- What may become of a runnable. -/
structure DownloadRunnable.Follows (o o' : DownloadRunnable) : Prop where
  updateInfo : o'.updateInfo = o.updateInfo
  live : o'.phase.live → o.phase.live

/-- A runnable follows itself. -/
theorem DownloadRunnable.Follows.refl (o : DownloadRunnable) : o.Follows o := ⟨rfl, fun h => h⟩

/-- The runnables of `d'` are those of `d` with the same updates, and none is back. -/
def Downloads.Follows (d d' : Downloads) : Prop := ∀ r, (d.heap r).Follows (d'.heap r)

/-- Runnables that stay as they are follow themselves. -/
theorem Downloads.Follows.refl (d : Downloads) : d.Follows d := fun r => .refl (d.heap r)

namespace State

variable {s s' : State}

/-- Apart from a start, no event gives a runnable another file. -/
theorem Moves.follows {r : Ref} {e : Event} {o o' : DownloadRunnable} (h : Moves r e o o')
    (hstart : ∀ info, e ≠ .start info) : o.Follows o' := by
  -- a runnable that an event moves on is live before it
  cases h with
  | same => exact .refl o
  | @construct info => exact absurd rfl (hstart info)
  | drop hphase | refuse hphase | finish hphase => exact ⟨rfl, fun hlive => by cases hlive⟩
  | take hphase | begin hphase | pass hphase | load hphase | await hphase =>
      refine ⟨rfl, fun _ => ?_⟩
      rw [hphase]
      rfl
  | cancel | progress => exact ⟨rfl, fun hlive => hlive⟩

/-- Every step but a start leaves the runnables with their updates, and brings none back. -/
theorem step_follows {e : Event} (h : s.Sane) (hstep : step s e = some s')
    (hstart : ∀ info, e ≠ .start info) : s.Follows s'.toDownloads :=
  fun r => (step_moves h hstep r).follows hstart

/-- A new runnable is the only one that is touched, and it is live exactly if the executor accepts
it. -/
theorem enqueue_heap (s : State) (info : UpdateInfo) :
    (∀ r, r ≠ s.next → (s.enqueue info).heap r = s.heap r) ∧
      ((s.enqueue info).heap s.next).updateInfo = info ∧
        (((s.enqueue info).heap s.next).phase.live ↔ s.refuses = false) := by
  have hnew : (s.construct info).heap s.next = .new info.mTimestamp info .queued :=
    Function.update_self ..
  have hold : ∀ r, r ≠ s.next → (s.construct info).heap r = s.heap r := fun r hr =>
    Function.update_of_ne hr ..
  unfold enqueue
  -- a pool that was shut down rejects the runnable, otherwise it is queued or a thread takes it
  rcases Downloads.execute_cases (s.construct info) s.next with
    ⟨hshut, hnone⟩ | ⟨hopen, d, hsome, -⟩
  · have hrefuses : s.refuses = true := hshut
    rw [hnone, hrefuses]
    show (∀ r, r ≠ s.next → ((s.construct info).modify s.next fun o =>
        { o with phase := .rejected }).heap r = s.heap r) ∧
      (((s.construct info).modify s.next fun o => { o with phase := .rejected }).heap
        s.next).updateInfo = info ∧ _
    refine ⟨fun r hr => ?_, ?_, ?_⟩
    · rw [Downloads.modify_heap, if_neg hr, hold r hr]
    · rw [Downloads.modify_heap, if_pos rfl, hnew]
      rfl
    · simp [Phase.live]
  · have hheap := Downloads.execute_heap hsome
    rw [hsome]
    show (∀ r, r ≠ s.next → d.heap r = s.heap r) ∧ (d.heap s.next).updateInfo = info ∧
      ((d.heap s.next).phase.live ↔ _)
    refine ⟨fun r hr => ?_, ?_, iff_of_true ?_ hopen⟩
    · rcases hheap r with hsame | ⟨heq, -⟩
      · rw [hsame, hold r hr]
      · exact absurd heq hr
    all_goals
      rcases hheap s.next with hsame | ⟨-, htaken⟩
      · rw [hsame, hnew]
        rfl
      · rw [htaken, hnew]
        rfl

/-- A start without an identifier does nothing to the runnables. Otherwise the new runnable is live
exactly if the executor accepts it. -/
theorem start_cases {info : UpdateInfo} (hstep : step s (.start info) = some s') :
    info.mTimestamp = "" ∧ s'.heap = s.heap ∨
      info.mTimestamp ≠ "" ∧ (∀ r, r ≠ s.next → s'.heap r = s.heap r) ∧
        (s'.heap s.next).updateInfo = info ∧ ((s'.heap s.next).phase.live ↔ s.refuses = false) := by
  obtain ⟨-, hdoes⟩ := step_eq_some.1 hstep
  cases hdoes
  by_cases hid : info.mTimestamp = ""
  · refine .inl ⟨hid, ?_⟩
    show (if info.mTimestamp = "" then s.postStartup else s.postStartup.enqueue info).heap = _
    rw [if_pos hid, post_startup_to_downloads]
  · have hheap := enqueue_heap s.postStartup info
    rw [post_startup_to_downloads] at hheap
    rw [on_start_command_start hid]
    exact .inr ⟨hid, hheap⟩

end State

end NamelessCenter.Download
