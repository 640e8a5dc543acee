import NamelessCenter.Download.Invariant

/-!
# cancelDownload

What a call of `cancelDownload` does in a reachable state, whatever the phases of the runnables.
It returns exactly if its first loop reaches only runnables that have loaded
(`cancel_download_returns_iff`), and a call that returns cancels the matching runnables, and no
others, exactly if no two of them are neighbours in `mRunnables` and none of their threads has gone
on to another runnable (`cancel_download_correct_iff`).
-/

namespace NamelessCenter.Download.State

open Machine IndexLoop

variable {s s' : State}

/-- A call during which a thread takes a runnable finds a null behind the elements of the queue. -/
theorem polls_eq_nil (h : s.Sane) {id : String} {polls : List Thread} {d : Downloads}
    (hpolls : s.pollAll polls = some d)
    (hcancel : (s.withDownloads d).cancelDownload id s.mWorkQueue.length = some s') :
    polls = [] ∧ d = s.toDownloads := by
  have hpolled : (s.withDownloads d).Sane := h.poll_all hpolls
  have hlength := Downloads.poll_all_length hpolls
  obtain ⟨-, hsize, -⟩ :=
    (cancel_download_eq_some hpolled (Downloads.poll_all_le hpolls)).1 hcancel
  have hnil : polls = [] := by
    rw [← List.length_eq_zero_iff]
    have hsize' : s.mWorkQueue.length = d.mWorkQueue.length := hsize
    omega
  subst hnil
  cases hpolls
  exact ⟨rfl, rfl⟩

/-! ## Null pointers -/

/-- `cancelDownload(id)` returns exactly if no thread takes a runnable between its reads of the work
queue, and every matching runnable that stands in `mRunnables` behind an even number of matching
neighbours has a `fileResponseFuture`. -/
theorem cancel_download_returns_iff (h : Reachable s) (id : String) {polls : List Thread}
    {d : Downloads} (hpolls : s.pollAll polls = some d) :
    (∃ s', (s.withDownloads d).cancelDownload id s.mWorkQueue.length = some s') ↔
      polls = [] ∧
      ∀ front r back, s.mRunnables = front ++ r :: back → s.Matches id r →
        Even (front.rtakeWhile fun r => s.Matches id r).length →
        (s.heap r).fileResponseFuture ≠ none := by
  have hsane := reachable_sane h
  constructor
  · rintro ⟨s', hcancel⟩
    obtain ⟨rfl, rfl⟩ := polls_eq_nil hsane hpolls hcancel
    obtain ⟨hfutures, -, -⟩ := (cancel_download_eq_some hsane (Nat.le_refl _)).1 hcancel
    refine ⟨rfl, fun front r back hlist hmatch heven => hfutures r ?_⟩
    exact mem_removed_iff.2 ⟨front, back, hlist, hmatch, heven⟩
  · rintro ⟨rfl, hfutures⟩
    cases hpolls
    refine ⟨_, (cancel_download_eq_some hsane (Nat.le_refl _)).2 ⟨fun r hr => ?_, rfl, rfl⟩⟩
    obtain ⟨front, back, hlist, hmatch, heven⟩ := mem_removed_iff.1 hr
    exact hfutures front r back hlist hmatch heven

/-- An update is started twice, another one in between, and all three load. -/
def interleaved : List Event :=
  [.start nightly, .start tomorrow, .start nightly, .begin 0, .check unrestricted 0, .load 0,
    .begin 1, .check unrestricted 1, .load 1, .begin 2, .check unrestricted 2, .load 2]

/-- Two runnables that have loaded are cancelled without an exception. -/
theorem cancel_download_returns_loaded :
    ∃ s, run step .init interleaved = some s ∧ s.mRunnables = [0, 1, 2] ∧
      ∃ s', s.cancelDownload "1" s.mWorkQueue.length = some s' := by
  have hloaded : ∃ s ∈ run step .init interleaved, s.mRunnables = [0, 1, 2] ∧
      ∀ r ∈ s.mRunnables, (s.heap r).fileResponseFuture ≠ none := by decide +kernel
  obtain ⟨s, hrun, hlist, hfutures⟩ := hloaded
  refine ⟨s, hrun, hlist, (cancel_download_returns_iff ⟨_, hrun⟩ "1" rfl).2 ⟨rfl, ?_⟩⟩
  intro front r back hsplit _ _
  refine hfutures r ?_
  rw [hsplit]
  exact List.mem_append_right front (List.mem_cons_self ..)

/-- The cancel button on a download whose thread has not reached the load ends the process. -/
theorem cancel_download_throws :
    ∃ s, Reachable s ∧ s.cancelDownload "1" s.mWorkQueue.length = none :=
  ⟨_, ⟨[.start nightly], rfl⟩, rfl⟩

/-! ## What is cancelled -/

/-- What a call of `cancelDownload(id)` from `s` to `s'` should do: the matching runnables leave the
lists and their futures are cancelled; the others keep their places and fields, and a thread that
runs one of them is not interrupted. -/
structure Cancels (id : String) (s s' : State) : Prop where
  runnables : ∀ r ∈ s'.mRunnables, ¬ s.Matches id r
  queue : ∀ r ∈ s'.mWorkQueue, ¬ s.Matches id r
  futures : ∀ r < s.next, s.Matches id r → ∀ future, (s.heap r).fileResponseFuture = some future →
    ∃ future', (s'.heap r).fileResponseFuture = some future' ∧ future'.cancelled = true
  others : s'.mRunnables.filter (fun r => ¬ s.Matches id r) =
    s.mRunnables.filter fun r => ¬ s.Matches id r
  others_queued : s'.mWorkQueue.filter (fun r => ¬ s.Matches id r) =
    s.mWorkQueue.filter fun r => ¬ s.Matches id r
  untouched : ∀ r, ¬ s.Matches id r → s'.heap r = s.heap r
  uninterrupted : ∀ w r, s.running w = some r → ¬ s.Matches id r →
    s'.interrupted w = s.interrupted w

/-- The thread of a matching runnable that runs one that does not match was interrupted before. -/
def ThreadsApart (id : String) (s : State) : Prop :=
  ∀ r ∈ s.mRunnables, s.Matches id r → ∀ w r', (s.heap r).mThread = some w →
    s.running w = some r' → ¬ s.Matches id r' → s.interrupted w = true

/-- The removed runnables are cancelled, the others stay as they are. -/
theorem cancelled_all_heap (id : String) (r : Ref) :
    (s.cancelledAll id).heap r =
      if r ∈ removed (s.Matches id) false s.mRunnables then (s.heap r).cancelled else s.heap r :=
  rfl

/-- The threads of the removed runnables are interrupted. -/
theorem cancelled_all_interrupted (id : String) {w : Thread} {r : Ref}
    (hrun : s.running w = some r) :
    (s.cancelledAll id).interrupted w =
      (decide (∃ r' ∈ removed (s.Matches id) false s.mRunnables, (s.heap r').mThread = some w) ||
        s.interrupted w) := by
  unfold Downloads.running at hrun
  obtain ⟨pool, hpool, -⟩ := Option.bind_eq_some_iff.1 hrun
  simp [Downloads.interrupted, Downloads.cancelledAll, Downloads.cancelled, hpool,
    Downloads.getThreadPoolExecutor]

/-- If no matching runnables are neighbours, all of them are removed. -/
theorem removed_of_apart {id : String} (hapart : Apart (s.Matches id) s.mRunnables) {r : Ref}
    (hr : r ∈ s.mRunnables) (hmatch : s.Matches id r) :
    r ∈ removed (s.Matches id) false s.mRunnables := by
  rcases mem_kept_or_removed (p := s.Matches id) false hr with hkept | hremoved
  · exact absurd hmatch ((kept_clean_iff _).2 hapart r hkept)
  · exact hremoved

/-- A call of `cancelDownload(id)` that returns cancels the matching runnables and no others exactly
if no two matching runnables are neighbours in `mRunnables` and no thread of a matching runnable has
gone on to one that does not match. -/
theorem cancel_download_correct_iff (h : Reachable s) {id : String} (polls : List Thread)
    {d : Downloads} (hpolls : s.pollAll polls = some d)
    (hcancel : (s.withDownloads d).cancelDownload id s.mWorkQueue.length = some s') :
    Cancels id s s' ↔ Apart (s.Matches id) s.mRunnables ∧ ThreadsApart id s := by
  have hsane := reachable_sane h
  obtain ⟨rfl, rfl⟩ := polls_eq_nil hsane hpolls hcancel
  obtain ⟨hfutures, -, rfl⟩ := (cancel_download_eq_some hsane (Nat.le_refl _)).1 hcancel
  constructor
  · intro hcancels
    have hapart : Apart (s.Matches id) s.mRunnables := by
      refine (kept_clean_iff _).1 fun r hr => hcancels.runnables r ?_
      rw [after_cancel_to_downloads]
      exact hr
    refine ⟨hapart, fun r hr hmatch w r' hthread hrun hother => ?_⟩
    have hsame := hcancels.uninterrupted w r' hrun hother
    rw [← hsame, after_cancel_to_downloads]
    show (s.cancelledAll id).interrupted w = true
    rw [cancelled_all_interrupted id hrun, Bool.or_eq_true, decide_eq_true_iff]
    exact .inl ⟨r, removed_of_apart hapart hr hmatch, hthread⟩
  · rintro ⟨hapart, hthreads⟩
    have hqueue : ∀ r ∈ s.mWorkQueue, ¬ s.Matches id r := by
      -- a queued runnable is listed, and the loop would have found it without a future
      intro r hr hmatch
      have hfuture := hsane.queued_future hr
      have hlisted := hsane.listed (by rw [hsane.queued r hr]; decide) hfuture
      exact hfutures r (removed_of_apart hapart hlisted hmatch) hfuture
    have hdownloads : ((s.withDownloads (s.cancelledAll id)).afterCancel).toDownloads =
        s.cancelledAll id := after_cancel_to_downloads _
    constructor
    case runnables =>
      rw [hdownloads]
      exact (kept_clean_iff _).2 hapart
    case queue =>
      rw [hdownloads]
      exact hqueue
    case futures =>
      intro r hr hmatch future hsome
      rw [hdownloads, cancelled_all_heap]
      by_cases hlisted : r ∈ s.mRunnables
      · rw [if_pos (removed_of_apart hapart hlisted hmatch)]
        exact ⟨{ future with cancelled := true }, by simp [DownloadRunnable.cancelled, hsome], rfl⟩
      · rw [if_neg fun hmem => hlisted ((removed_sublist _ _).subset hmem)]
        exact hsane.left r hr hlisted
    case others =>
      rw [hdownloads]
      exact filter_kept _ _
    case others_queued =>
      rw [hdownloads]
      rfl
    case untouched =>
      intro r hother
      rw [hdownloads, cancelled_all_heap, if_neg fun hmem => hother (prop_of_mem_removed hmem)]
    case uninterrupted =>
      intro w r hrun hother
      rw [hdownloads, cancelled_all_interrupted id hrun]
      by_cases hstale : ∃ r' ∈ removed (s.Matches id) false s.mRunnables,
          (s.heap r').mThread = some w
      · obtain ⟨r', hremoved, hthread⟩ := hstale
        have hbefore := hthreads r' ((removed_sublist _ _).subset hremoved)
          (prop_of_mem_removed hremoved) w r hthread hrun hother
        rw [hbefore, Bool.or_true]
      · rw [decide_eq_false hstale, Bool.false_or]

/-- Both downloads of an update are cancelled, and the one of another update goes on. -/
theorem cancel_download_correct_interleaved :
    ∃ s s', run step .init interleaved = some s ∧
      s.cancelDownload "1" s.mWorkQueue.length = some s' ∧ s'.mRunnables = [1] ∧
      Cancels "1" s s' := by
  -- every thread still runs the runnable that it was started for
  have hloaded : ∃ s ∈ run step .init interleaved, Apart (s.Matches "1") s.mRunnables ∧
      (∀ r ∈ s.mRunnables, ∀ w ∈ (s.heap r).mThread, ∀ r' ∈ s.running w, r' = r) ∧
      ∃ s' ∈ s.cancelDownload "1" s.mWorkQueue.length, s'.mRunnables = [1] := by decide +kernel
  obtain ⟨s, hrun, hapart, hthreads, s', hcancel, hleft⟩ := hloaded
  refine ⟨s, s', hrun, hcancel, hleft,
    (cancel_download_correct_iff ⟨_, hrun⟩ [] rfl hcancel).2 ⟨hapart, ?_⟩⟩
  intro r hr hmatch w r' hthread hruns hother
  have hsame : r' = r := hthreads r hr w hthread r' hruns
  rw [hsame] at hother
  exact absurd hmatch hother

/-- Of two downloads with the same identifier, the second stays in `mRunnables`. -/
theorem cancel_download_misses :
    ∃ s s', Reachable s ∧ s.cancelDownload "1" s.mWorkQueue.length = some s' ∧
      ¬ Cancels "1" s s' :=
  ⟨_, _, ⟨[.start nightly, .start nightly, .begin 0, .check unrestricted 0, .load 0, .begin 1,
      .check unrestricted 1, .load 1], rfl⟩, rfl,
    fun hcancels => hcancels.runnables 1 (by decide) (by decide)⟩

end NamelessCenter.Download.State
