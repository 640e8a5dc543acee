import NamelessCenter.Download.Targets

/-!
# The transfers and their files

Ion runs the transfers of the downloads, which write to the files of the update folder directly.
The machine below adds them, and the files, to the service: a transfer starts with a load, creates
its file while it runs, and completes, fails or is cancelled. Two downloads write to one file as
soon as two starts of it are accepted (`files_exclusive_iff`), and a file counts as downloaded as
soon as it exists, whatever became of its download. So that only what is completely downloaded
counts, no transfer may get as far as creating its file (`downloaded_completed_iff`).
-/

namespace NamelessCenter.Download

open Items Machine

/-- A transfer of Ion, to a file and for a runnable. -/
structure Transfer where
  runnable : Ref
  file : String
  created : Bool
  deriving DecidableEq, Repr

/-- The service with the transfers of its runnables, and the files. -/
structure System where
  service : State
  /-- The transfers that are running. -/
  transfers : List Transfer
  /-- The files in the update folder. -/
  files : String → Bool
  /-- The runnable that last began to load a file. -/
  latest : String → Option Ref
  /-- Whether the last download of a file ran to completion. -/
  completed : String → Bool
  /-- The updates of the cards. -/
  cards : List UpdateInfo

/-- A new process, with the files that earlier ones have left and the files whose last download has
run to completion in one of them. A download that ended with its process may have left a part. -/
def System.init (files completed : String → Bool) : System where
  service := .init
  transfers := []
  files := files
  latest := fun _ => none
  completed := completed
  cards := []

/-- What can happen to the service, the transfers and the files. -/
inductive SystemEvent where
  | service (e : Event)
  /-- Ion creates the file of a transfer. -/
  | create (i : Nat)
  | complete (i : Nat)
  /-- A transfer fails or is cancelled, and its file is kept or removed. -/
  | abort (i : Nat) (keeps : Bool)
  /-- The user deletes an update. -/
  | delete (filename : String)
  /-- The cards are rebuilt from the updates of a check. -/
  | refresh (updates : List UpdateInfo)
  deriving DecidableEq, Repr

namespace System

variable (s : System)

/-- `UpdateHelper.isUpdateDownloaded(filename)`. -/
def isUpdateDownloaded (filename : String) : Bool := s.files filename

/-- `UpdateHelper.deleteUpdate(filename)`. -/
def deleteUpdate (filename : String) : System :=
  { s with files := Function.update s.files filename false }

/-- The runnable has loaded, which leads to the state `t` of the service. -/
def beginTransfer (t : State) (r : Ref) : System :=
  let file := (s.service.heap r).file
  { s with
    service := t
    transfers := s.transfers ++ [⟨r, file, false⟩]
    latest := Function.update s.latest file (some r)
    completed := Function.update s.completed file false }

/-- `get()` of the runnable of a thread waits for its transfer. -/
def blocked (w : Thread) : Bool :=
  match s.service.running w with
  | none => false
  | some r =>
      s.transfers.any (fun transfer => transfer.runnable = r) && !s.service.interrupted w &&
        !(s.service.heap r).fileResponseFuture.any ResponseFuture.cancelled

/-- A transfer creates its file. -/
def create (i : Nat) (transfer : Transfer) : System :=
  { s with
    transfers := s.transfers.set i { transfer with created := true }
    files := Function.update s.files transfer.file true }

/-- A transfer has written its whole file. -/
def complete (i : Nat) (transfer : Transfer) : System :=
  { s with
    transfers := s.transfers.eraseIdx i
    completed :=
      -- an earlier download of the file that ends now is not its last one
      if s.latest transfer.file = some transfer.runnable then
        Function.update s.completed transfer.file true
      else s.completed }

/-- A transfer fails or is cancelled, and its partial file is kept or not. -/
def abort (i : Nat) (transfer : Transfer) (keeps : Bool) : System :=
  { s with
    transfers := s.transfers.eraseIdx i
    files := if keeps then s.files else Function.update s.files transfer.file false }

/-- The effect of an event, if it can happen. -/
def effect : SystemEvent → Option System
  | .service e =>
      (Download.step s.service e).bind fun t =>
        match e with
        | .load w => (s.service.running w).map (s.beginTransfer t)
        -- `get()` returns when the transfer has ended, or throws when it was cancelled
        | .finish w => if s.blocked w then none else some { s with service := t }
        | _ => some { s with service := t }
  | .create i =>
      match s.transfers[i]? with
      | none => none
      | some transfer => if transfer.created then none else some (s.create i transfer)
  | .complete i => s.transfers[i]?.map (s.complete i)
  | .abort i keeps => s.transfers[i]?.map fun transfer => s.abort i transfer keeps
  | .delete filename => some (s.deleteUpdate filename)
  | .refresh updates => some { s with cards := updates }

/-- Nothing happens in a process that has ended. -/
def step (e : SystemEvent) : Option System := if s.service.crashed then none else s.effect e

/-! ## Steps -/

variable {s} {s' : System}

/-- What an event can do. -/
theorem step_cases {e : SystemEvent} (hstep : s.step e = some s') :
    (∃ ev t, e = .service ev ∧ (∀ w, ev ≠ .load w) ∧ Download.step s.service ev = some t ∧
        s' = { s with service := t }) ∨
      (∃ w t r, e = .service (.load w) ∧ Download.step s.service (.load w) = some t ∧
        s.service.running w = some r ∧ s' = s.beginTransfer t r) ∨
      (∃ i transfer, e = .create i ∧ s.transfers[i]? = some transfer ∧ s' = s.create i transfer) ∨
      (∃ i transfer, e = .complete i ∧ s.transfers[i]? = some transfer ∧
        s' = s.complete i transfer) ∨
      (∃ i keeps transfer, e = .abort i keeps ∧ s.transfers[i]? = some transfer ∧
        s' = s.abort i transfer keeps) ∨
      (∃ filename, e = .delete filename ∧ s' = s.deleteUpdate filename) ∨
      ∃ updates, e = .refresh updates ∧ s' = { s with cards := updates } := by
  unfold step at hstep
  split at hstep
  · cases hstep
  cases e with
  | service ev =>
      obtain ⟨t, ht, hrest⟩ := Option.bind_eq_some_iff.1 hstep
      split at hrest
      · rename_i w
        obtain ⟨r, hr, rfl⟩ := Option.map_eq_some_iff.1 hrest
        exact .inr (.inl ⟨w, t, r, rfl, ht, hr, rfl⟩)
      · split at hrest
        · cases hrest
        · cases hrest
          exact .inl ⟨_, t, rfl, (fun w heq => by cases heq), ht, rfl⟩
      · rename_i hload _
        cases hrest
        exact .inl ⟨_, t, rfl, hload, ht, rfl⟩
  | create i =>
      simp only [effect] at hstep
      split at hstep
      · cases hstep
      · rename_i transfer htransfer
        split at hstep
        · cases hstep
        · cases hstep
          exact .inr (.inr (.inl ⟨i, transfer, rfl, htransfer, rfl⟩))
  | complete i =>
      obtain ⟨transfer, htransfer, rfl⟩ := Option.map_eq_some_iff.1 hstep
      exact .inr (.inr (.inr (.inl ⟨i, transfer, rfl, htransfer, rfl⟩)))
  | abort i keeps =>
      obtain ⟨transfer, htransfer, rfl⟩ := Option.map_eq_some_iff.1 hstep
      exact .inr (.inr (.inr (.inr (.inl ⟨i, keeps, transfer, rfl, htransfer, rfl⟩))))
  | delete filename =>
      cases hstep
      exact .inr (.inr (.inr (.inr (.inr (.inl ⟨filename, rfl, rfl⟩)))))
  | refresh updates =>
      cases hstep
      exact .inr (.inr (.inr (.inr (.inr (.inr ⟨updates, rfl, rfl⟩)))))

/-- The service stays sane. -/
theorem step_sane {e : SystemEvent} (h : s.service.Sane) (hstep : s.step e = some s') :
    s'.service.Sane := by
  rcases step_cases hstep with ⟨ev, t, -, -, ht, rfl⟩ | ⟨w, t, r, -, ht, -, rfl⟩ |
    ⟨i, transfer, -, -, rfl⟩ | ⟨i, transfer, -, -, rfl⟩ | ⟨i, keeps, transfer, -, -, rfl⟩ |
    ⟨filename, -, rfl⟩ | ⟨updates, -, rfl⟩
  · exact State.step_sane h ht
  · exact State.step_sane h ht
  all_goals exact h

/-! ## One download of a file at a time -/

/-- No two runnables that are queued or run, and no two transfers, have the same file. -/
structure Exclusive (s : System) : Prop where
  runnables : ∀ r r', (s.service.heap r).phase.live → (s.service.heap r').phase.live →
    (s.service.heap r).file = (s.service.heap r').file → r = r'
  transfers : (s.transfers.map Transfer.file).Nodup

/-- A start that the executor accepts finds no runnable for its file, and a load no transfer to
it. -/
def StartsApart (s : System) : SystemEvent → Prop
  | .service (.start info) => info.mTimestamp = "" ∨ s.service.refuses = true ∨
      ∀ r < s.service.next, (s.service.heap r).phase.live →
        (s.service.heap r).file ≠ info.getZipName
  | .service (.load w) => ∀ r ∈ s.service.running w,
      (s.service.heap r).file ∉ s.transfers.map Transfer.file
  | _ => True

/-- What is exclusive stays so if no runnable changes its file. -/
theorem Exclusive.follows (h : s.Exclusive) (hfollows : s.service.Follows s'.service.toDownloads)
    (htransfers : (s'.transfers.map Transfer.file).Nodup) : s'.Exclusive := by
  refine ⟨fun r r' hr hr' hfile => ?_, htransfers⟩
  refine h.runnables r r' ((hfollows r).live hr) ((hfollows r').live hr') ?_
  rw [DownloadRunnable.file, DownloadRunnable.file, (hfollows r).updateInfo,
    (hfollows r').updateInfo] at hfile
  exact hfile

/-- A start keeps the runnables apart exactly if the new one is refused, or its file is free. -/
theorem start_exclusive_iff (hsane : s.service.Sane) (h : s.Exclusive) {info : UpdateInfo}
    {t : State} (ht : Download.step s.service (.start info) = some t) :
    ({ s with service := t } : System).Exclusive ↔ s.StartsApart (.service (.start info)) := by
  rcases State.start_cases ht with ⟨hid, hheap⟩ | ⟨hid, hold, hinfo, hlive⟩
  · refine iff_of_true ?_ (.inl hid)
    exact h.follows (fun r => by rw [hheap]; exact .refl _) h.transfers
  · have hfile : (t.heap s.service.next).file = info.getZipName := by
      rw [DownloadRunnable.file, hinfo]
    constructor
    · intro hexclusive
      by_cases hrefuses : s.service.refuses = true
      · exact .inr (.inl hrefuses)
      · refine .inr (.inr fun r hr hrlive heq => ?_)
        have hne : r ≠ s.service.next := Nat.ne_of_lt hr
        have hnew : (t.heap s.service.next).phase.live := hlive.2 (by simpa using hrefuses)
        refine hne (hexclusive.runnables r _ (by rw [hold r hne]; exact hrlive) hnew ?_)
        rw [hold r hne, heq, hfile]
    · intro hcondition
      have hapart : (t.heap s.service.next).phase.live → ∀ r, r ≠ s.service.next →
          (t.heap r).phase.live → (t.heap r).file ≠ info.getZipName := by
        intro hnew r hne hr
        rw [hold r hne] at hr ⊢
        rcases hcondition with hempty | hrefuses | hfree
        · exact absurd hempty hid
        · rw [hlive.1 hnew] at hrefuses
          cases hrefuses
        · refine hfree r (hsane.below_next fun hunborn => ?_) hr
          rw [hunborn] at hr
          cases hr
      refine ⟨fun r r' hr hr' heq => ?_, h.transfers⟩
      -- one of the two is the new runnable, or both were there before
      by_cases hnew : r = s.service.next
      · by_cases hnew' : r' = s.service.next
        · rw [hnew, hnew']
        · rw [hnew] at hr heq
          rw [hfile] at heq
          exact absurd heq.symm (hapart hr r' hnew' hr')
      · by_cases hnew' : r' = s.service.next
        · rw [hnew'] at hr' heq
          rw [hfile] at heq
          exact absurd heq (hapart hr' r hnew hr)
        · rw [hold r hnew, hold r' hnew'] at heq
          rw [hold r hnew] at hr
          rw [hold r' hnew'] at hr'
          exact h.runnables r r' hr hr' heq

/-- The transfers stay exclusive exactly if what starts stands apart. -/
theorem step_exclusive_iff {e : SystemEvent} (hsane : s.service.Sane) (h : s.Exclusive)
    (hstep : s.step e = some s') : s'.Exclusive ↔ s.StartsApart e := by
  rcases step_cases hstep with ⟨ev, t, rfl, hload, ht, rfl⟩ | ⟨w, t, r, rfl, ht, hr, rfl⟩ |
    ⟨i, transfer, rfl, htransfer, rfl⟩ | ⟨i, transfer, rfl, -, rfl⟩ |
    ⟨i, keeps, transfer, rfl, -, rfl⟩ | ⟨filename, rfl, rfl⟩ | ⟨updates, rfl, rfl⟩
  · by_cases hstart : ∃ info, ev = .start info
    · obtain ⟨info, rfl⟩ := hstart
      exact start_exclusive_iff hsane h ht
    · have hfollows := State.step_follows hsane ht fun info heq => hstart ⟨info, heq⟩
      refine iff_of_true (h.follows hfollows h.transfers) ?_
      cases ev with
      | start info => exact (hstart ⟨info, rfl⟩).elim
      | load w => exact (hload w rfl).elim
      | _ => trivial
  · have hfollows : s.service.Follows t.toDownloads :=
      State.step_follows hsane ht fun info heq => by cases heq
    have hmap : (s.beginTransfer t r).transfers.map Transfer.file =
        s.transfers.map Transfer.file ++ [(s.service.heap r).file] := List.map_append
    have hnodup : ((s.beginTransfer t r).transfers.map Transfer.file).Nodup ↔
        (s.service.heap r).file ∉ s.transfers.map Transfer.file := by
      rw [hmap, List.nodup_append_comm, List.singleton_append, List.nodup_cons]
      exact and_iff_left h.transfers
    simp only [StartsApart, hr, Option.mem_def, Option.some.injEq, forall_eq']
    exact ⟨fun hexclusive => hnodup.1 hexclusive.transfers,
      fun hfree => h.follows hfollows (hnodup.2 hfree)⟩
  · -- a transfer keeps its file when it creates it
    have hmap :
        (s.create i transfer).transfers.map Transfer.file = s.transfers.map Transfer.file := by
      obtain ⟨hi, htransfer⟩ := List.getElem?_eq_some_iff.1 htransfer
      show (s.transfers.set i { transfer with created := true }).map Transfer.file = _
      have hi' : i < (s.transfers.map Transfer.file).length := by rwa [List.length_map]
      have hfile : transfer.file = (s.transfers.map Transfer.file)[i] := by
        rw [List.getElem_map, htransfer]
      rw [List.map_set]
      show (s.transfers.map Transfer.file).set i transfer.file = _
      rw [hfile, List.set_getElem_self]
    exact iff_of_true (h.follows (.refl _) (hmap ▸ h.transfers)) trivial
  · have hsublist := (List.eraseIdx_sublist s.transfers i).map Transfer.file
    exact iff_of_true (h.follows (.refl _) (h.transfers.sublist hsublist)) trivial
  · have hsublist := (List.eraseIdx_sublist s.transfers i).map Transfer.file
    exact iff_of_true (h.follows (.refl _) (h.transfers.sublist hsublist)) trivial
  · exact iff_of_true (h.follows (.refl _) h.transfers) trivial
  · exact iff_of_true (h.follows (.refl _) h.transfers) trivial

/-- A new process has no transfers. -/
theorem init_exclusive (files completed : String → Bool) : (init files completed).Exclusive where
  runnables r r' hr := by cases hr
  transfers := List.nodup_nil

/-- In every run, at any time at most one runnable for each file is queued or run and at most one
transfer writes to it, exactly if each start that the executor accepts finds no runnable for its
file that is queued or run, and each load no transfer to it. -/
theorem files_exclusive_iff {files completed : String → Bool} {es : List SystemEvent} {s : System}
    (hrun : run step (init files completed) es = some s) :
    Throughout step Exclusive (init files completed) es ↔
      Along step StartsApart (init files completed) es :=
  throughout_iff_along (J := fun s => s.service.Sane) (fun h hstep => step_sane h hstep)
    (fun hsane h hstep => step_exclusive_iff hsane h hstep) State.init_sane
    (init_exclusive files completed) hrun

instance (s : System) : DecidablePred s.StartsApart
  | .service (.start _) => inferInstanceAs (Decidable (_ ∨ _ ∨ _))
  | .service (.load _) => inferInstanceAs (Decidable (∀ _ ∈ _, _))
  | .service .stop | .service .deliverStop | .service .restart | .service .destroy
  | .service (.cancel ..) | .service (.runTask _) | .service .listen | .service .unlisten
  | .service (.poll _) | .service (.begin _) | .service (.check ..) | .service (.await _)
  | .service (.finish _) | .service (.progress ..) | .create _ | .complete _ | .abort ..
  | .delete _ | .refresh _ => .isTrue trivial

/-- A download that completes before the next one of its file starts. -/
theorem files_exclusive_twice :
    ∃ s, run step (init (fun _ => false) fun _ => false) [
      .service (.start nightly), .service (.begin 0), .service (.check unrestricted 0),
      .service (.load 0), .service (.await 0), .create 0,
      .complete 0, .service (.finish 0), .service (.start nightly)] = some s ∧
        Throughout step Exclusive (init (fun _ => false) fun _ => false) [.service (.start nightly),
          .service (.begin 0), .service (.check unrestricted 0), .service (.load 0),
          .service (.await 0), .create 0, .complete 0, .service (.finish 0),
          .service (.start nightly)] :=
  have hrun : run step (init (fun _ => false) fun _ => false) [
      .service (.start nightly), .service (.begin 0), .service (.check unrestricted 0),
      .service (.load 0), .service (.await 0), .create 0,
      .complete 0, .service (.finish 0), .service (.start nightly)] = some _ := rfl
  ⟨_, hrun, (files_exclusive_iff hrun).2 (by decide)⟩

/-- The button is tapped twice, and two runnables download the same file. -/
theorem two_starts_share_file :
    ∃ s, run step (init (fun _ => false) fun _ => false)
      [.service (.start nightly), .service (.start nightly)] = some s ∧ ¬ s.Exclusive := by
  refine ⟨_, rfl, fun h => ?_⟩
  have heq : (0 : Ref) = 1 := h.runnables 0 1 rfl rfl rfl
  cases heq

/-! ## Downloaded files -/

/-- A file that counts as downloaded is the result of a download that ran to completion, and no
transfer is writing to it. -/
def Intact (s : System) : Prop :=
  ∀ filename, s.isUpdateDownloaded filename = true → s.completed filename = true ∧
    ∀ transfer ∈ s.transfers, transfer.created = true → transfer.file ≠ filename

/-- A load finds no file in its place, and no transfer creates its file. -/
def NeverWrites (s : System) : SystemEvent → Prop
  | .service (.load w) =>
      ∀ r ∈ s.service.running w, s.isUpdateDownloaded (s.service.heap r).file = false
  | .create _ => False
  | _ => True

instance (s : System) : DecidablePred s.NeverWrites
  | .service (.load _) => inferInstanceAs (Decidable (∀ _ ∈ _, _))
  | .create _ => .isFalse not_false
  | .service .stop | .service .deliverStop | .service .restart | .service .destroy
  | .service (.cancel ..) | .service (.runTask _) | .service .listen | .service .unlisten
  | .service (.poll _) | .service (.begin _) | .service (.check ..) | .service (.await _)
  | .service (.finish _) | .service (.progress ..)
  | .service (.start _) | .complete _ | .abort .. | .delete _ | .refresh _ => .isTrue trivial

/-- Without more files and transfers, and with what was completed before, the files stay intact. -/
theorem Intact.shrink (h : s.Intact)
    (hfiles : ∀ f, s'.isUpdateDownloaded f = true → s.isUpdateDownloaded f = true)
    (hcompleted : ∀ f, s.completed f = true → s'.completed f = true)
    (htransfers : s'.transfers ⊆ s.transfers) : s'.Intact := fun f hexists =>
  ⟨hcompleted f (h f (hfiles f hexists)).1,
    fun transfer hmem => (h f (hfiles f hexists)).2 transfer (htransfers hmem)⟩

/-- Removing a file keeps the others as they are. -/
theorem exists_of_remove {files : String → Bool} {filename f : String}
    (h : Function.update files filename false f = true) : files f = true := by
  by_cases hf : f = filename
  · rw [hf, Function.update_self] at h
    cases h
  · rwa [Function.update_of_ne hf] at h

/-- A load leaves the files intact exactly if it finds none in its place. -/
theorem begin_transfer_intact_iff (h : s.Intact) (t : State) (r : Ref) :
    (s.beginTransfer t r).Intact ↔ s.isUpdateDownloaded (s.service.heap r).file = false := by
  constructor
  · intro hintact
    by_contra hexists
    have htrue : s.isUpdateDownloaded (s.service.heap r).file = true := by simpa using hexists
    have hcompleted : Function.update s.completed (s.service.heap r).file false
        (s.service.heap r).file = true := (hintact _ htrue).1
    rw [Function.update_self] at hcompleted
    cases hcompleted
  · intro hfree f hexists
    have hne : f ≠ (s.service.heap r).file := by
      rintro rfl
      cases hfree.symm.trans hexists
    obtain ⟨hcompleted, hwriting⟩ := h f hexists
    refine ⟨?_, fun transfer hmem hcreated => ?_⟩
    · show Function.update s.completed (s.service.heap r).file false f = true
      rw [Function.update_of_ne hne]
      exact hcompleted
    · -- the new transfer has not created its file
      rcases List.mem_append.1 hmem with hold | hnew
      · exact hwriting transfer hold hcreated
      · rw [List.mem_singleton] at hnew
        subst hnew
        cases hcreated

/-- A file that a transfer creates counts as downloaded while the transfer runs. -/
theorem create_not_intact {i : Nat} {transfer : Transfer}
    (htransfer : s.transfers[i]? = some transfer) : ¬ (s.create i transfer).Intact := by
  intro hintact
  have hexists : (s.create i transfer).isUpdateDownloaded transfer.file = true :=
    Function.update_self ..
  obtain ⟨hi, -⟩ := List.getElem?_eq_some_iff.1 htransfer
  have hmem : { transfer with created := true } ∈ (s.create i transfer).transfers :=
    List.mem_set hi _
  exact (hintact _ hexists).2 _ hmem rfl rfl

/-- A transfer that completes makes no file. -/
theorem Intact.complete (h : s.Intact) (i : Nat) (transfer : Transfer) :
    (s.complete i transfer).Intact := by
  refine h.shrink (fun f hexists => hexists) (fun f hbefore => ?_) List.eraseIdx_subset
  unfold System.complete
  dsimp only
  split
  · by_cases hf : f = transfer.file
    · rw [hf, Function.update_self]
    · rw [Function.update_of_ne hf]
      exact hbefore
  · exact hbefore

/-- A step leaves the files intact exactly if it writes none. -/
theorem step_intact_iff {e : SystemEvent} (h : s.Intact) (hstep : s.step e = some s') :
    s'.Intact ↔ s.NeverWrites e := by
  rcases step_cases hstep with ⟨ev, t, rfl, hload, -, rfl⟩ | ⟨w, t, r, rfl, -, hr, rfl⟩ |
    ⟨i, transfer, rfl, htransfer, rfl⟩ | ⟨i, transfer, rfl, -, rfl⟩ |
    ⟨i, keeps, transfer, rfl, -, rfl⟩ | ⟨filename, rfl, rfl⟩ | ⟨updates, rfl, rfl⟩
  · refine iff_of_true h ?_
    cases ev with
    | load w => exact (hload w rfl).elim
    | _ => trivial
  · simp only [NeverWrites, hr, Option.mem_def, Option.some.injEq, forall_eq']
    exact begin_transfer_intact_iff h t r
  · exact iff_of_false (create_not_intact htransfer) not_false
  · exact iff_of_true (h.complete i transfer) trivial
  · refine iff_of_true (h.shrink (fun f hexists => ?_) (fun _ => id) List.eraseIdx_subset) trivial
    cases keeps with
    | true => exact hexists
    | false => exact exists_of_remove hexists
  · exact iff_of_true (h.shrink (fun f => exists_of_remove) (fun _ => id) (List.Subset.refl _))
      trivial
  · exact iff_of_true h trivial

/-- The files are intact when a process starts exactly if all of them were downloaded completely. -/
theorem init_intact_iff {files completed : String → Bool} :
    (init files completed).Intact ↔ ∀ f, files f = true → completed f = true :=
  ⟨fun h f hexists => (h f hexists).1, fun h f hexists => ⟨h f hexists, nofun⟩⟩

/-- In every run, at any time each file that counts as downloaded is the result of a download that
ran to completion and no transfer is writing to it, exactly if all files that the process finds were
downloaded completely, each load finds no file in its place, and no transfer creates its file. -/
theorem downloaded_completed_iff {files completed : String → Bool} {es : List SystemEvent}
    {s : System} (hrun : run step (init files completed) es = some s) :
    Throughout step Intact (init files completed) es ↔
      (∀ f, files f = true → completed f = true) ∧
        Along step NeverWrites (init files completed) es := by
  rw [← init_intact_iff]
  have hlater : (init files completed).Intact →
      (Throughout step Intact (init files completed) es ↔
        Along step NeverWrites (init files completed) es) := fun h =>
    throughout_iff_along (J := fun _ => True) (fun _ _ => trivial)
      (fun _ h hstep => step_intact_iff h hstep) trivial h hrun
  exact ⟨fun h => ⟨h.start, (hlater h.start).1 h⟩, fun h => (hlater h.1).2 h.2⟩

/-- A process that finds the file of a weekly build, with a transfer for another file, which fails
before it creates its file, and a refresh of the cards. -/
theorem downloaded_completed_failed :
    ∃ s, run step (init (· == "weekly.zip") (· == "weekly.zip")) [.service (.start nightly),
        .service (.begin 0), .service (.check unrestricted 0), .service (.load 0),
        .service (.await 0), .abort 0 true, .refresh [nightly]] = some s ∧
      s.isUpdateDownloaded "weekly.zip" = true ∧
      Throughout step Intact (init (· == "weekly.zip") (· == "weekly.zip"))
        [.service (.start nightly), .service (.begin 0), .service (.check unrestricted 0),
          .service (.load 0), .service (.await 0), .abort 0 true, .refresh [nightly]] :=
  have hrun : run step (init (· == "weekly.zip") (· == "weekly.zip")) [.service (.start nightly),
      .service (.begin 0), .service (.check unrestricted 0), .service (.load 0),
      .service (.await 0), .abort 0 true, .refresh [nightly]] = some _ := rfl
  ⟨_, hrun, rfl, (downloaded_completed_iff hrun).2 ⟨fun _ h => h, by decide⟩⟩

/-- A file that is still being written counts as downloaded. -/
theorem written_file_downloaded :
    ∃ s, run step (init (fun _ => false) fun _ => false) [.service (.start nightly),
        .service (.begin 0), .service (.check unrestricted 0), .service (.load 0), .create 0,
        .refresh [nightly]] = some s ∧
      s.isUpdateDownloaded "nightly.zip" = true ∧ ¬ s.Intact :=
  ⟨_, rfl, rfl, fun h => by cases (h "nightly.zip" rfl).1⟩

end System

end NamelessCenter.Download
