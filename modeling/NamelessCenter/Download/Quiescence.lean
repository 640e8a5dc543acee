import NamelessCenter.Download.Tasks

/-!
# The stop protocol

An `ACTION_STOP` intent posts a `tearDown`, whose `cancelDownload("")` sends the next intent when it
finds `mRunnables` empty. The first loop of `cancelDownload` removes every other runnable, so each
`tearDown` halves the list: the protocol comes to rest if the `tearDown`s that are pending do not
empty it, or if the process ends on the way, and runs forever otherwise
(`stop_protocol_terminates_iff`).
-/

namespace NamelessCenter.Download

open Machine IndexLoop

/-! ## Pending bus calls -/

/-- The number of tasks that run before one of them throws. -/
def throwsAfter : List Task → List Ref → Nat
  | [], _ => 0
  | t :: tasks, registered =>
      match t.onBus registered with
      | none => 0
      | some after => throwsAfter tasks after + 1

/-- One of the tasks throws. -/
def BusThrows (tasks : List Task) (registered : List Ref) : Prop :=
  tasks.foldlM (fun registered t => t.onBus registered) registered = none

instance (tasks : List Task) (registered : List Ref) : Decidable (BusThrows tasks registered) :=
  inferInstanceAs (Decidable (_ = none))

/-- A list of tasks throws at its first task, or behind it. -/
theorem bus_throws_cons {t : Task} {tasks : List Task} {registered : List Ref} :
    BusThrows (t :: tasks) registered ↔
      t.onBus registered = none ∨
        ∃ after, t.onBus registered = some after ∧ BusThrows tasks after := by
  unfold BusThrows
  rw [List.foldlM_cons]
  cases t.onBus registered <;> simp

/-- Tasks that are posted later do not prevent the exception. -/
theorem BusThrows.append {tasks : List Task} {registered : List Ref}
    (h : BusThrows tasks registered) (more : List Task) : BusThrows (tasks ++ more) registered := by
  unfold BusThrows at h ⊢
  rw [List.foldlM_append, h]
  rfl

/-- More tasks do not change where the list throws. -/
theorem throws_after_append {tasks : List Task} {registered : List Ref}
    (h : BusThrows tasks registered) (more : List Task) :
    throwsAfter (tasks ++ more) registered = throwsAfter tasks registered := by
  induction tasks generalizing registered with
  | nil => cases h
  | cons t tasks ih =>
      simp only [List.cons_append, throwsAfter]
      rcases bus_throws_cons.1 h with hnone | ⟨after, hsome, hrest⟩
      · rw [hnone]
      · rw [hsome]
        simp only
        rw [ih hrest]

/-- Tasks without effect on the registrations do not make one throw. -/
theorem not_bus_throws_append {tasks more : List Task} {registered : List Ref}
    (h : ¬ BusThrows tasks registered)
    (hmore : ∀ t ∈ more, ∀ registered, t.onBus registered = some registered) :
    ¬ BusThrows (tasks ++ more) registered := by
  unfold BusThrows at h ⊢
  obtain ⟨after, hafter⟩ := Option.ne_none_iff_exists'.1 h
  rw [List.foldlM_append, hafter]
  show more.foldlM _ after ≠ none
  clear hafter h
  induction more generalizing after with
  | nil => simp
  | cons t more ih =>
      rw [List.foldlM_cons, hmore t List.mem_cons_self]
      exact ih (fun u hu => hmore u (List.mem_cons_of_mem _ hu)) after

namespace State

variable {s s' : State}

/-! ## Internal steps -/

/-- A step without an external event: an `ACTION_STOP` intent is delivered, or the main thread runs
its next task. -/
def Internal (s s' : State) : Prop :=
  step s .deliverStop = some s' ∨ step s (.runTask []) = some s'

/-- The `tearDown`s that are posted, or will be once the intents on their way are delivered. -/
def pending (s : State) : Nat := s.stops + s.handler.count .serviceTearDown

/-- The stop protocol comes to rest: no `tearDown` is pending, the pending ones do not empty
`mRunnables`, or an exception ends the process. -/
def Quiesces (s : State) : Prop :=
  s.crashed = true ∨ s.pending = 0 ∨ 2 ^ s.pending ≤ s.mRunnables.length ∨
    (∃ r ∈ s.mRunnables, (s.heap r).fileResponseFuture = none) ∨ BusThrows s.handler s.registered

/-- The internal steps, apart from what a task does. -/
theorem internal_cases (hstep : Internal s s') : s.crashed = false ∧
    (0 < s.stops ∧
        s' = { s with stops := s.stops - 1, handler := s.handler ++ [.serviceTearDown] } ∨
      ∃ t rest, s.handler = t :: rest ∧
        s' = runTask s.mWorkQueue.length t (s.withHandler rest)) := by
  rcases hstep with hstep | hstep
  all_goals obtain ⟨halive, hdoes⟩ := step_eq_some.1 hstep
  · cases hdoes with
    | deliverStop hstops => exact ⟨halive, .inl ⟨Nat.pos_of_ne_zero hstops, rfl⟩⟩
  · cases hdoes with
    | runTask hhandler hpolls =>
        cases hpolls
        exact ⟨halive, .inr ⟨_, _, hhandler, rfl⟩⟩

/-- The delivery of a stop is an internal step. -/
theorem internal_deliver (halive : s.crashed = false) (hstops : 0 < s.stops) :
    Internal s { s with stops := s.stops - 1, handler := s.handler ++ [.serviceTearDown] } := by
  left
  exact step_eq_some.2 ⟨halive, .deliverStop (Nat.ne_of_gt hstops)⟩

/-- So is the next task of the handler. -/
theorem internal_run (halive : s.crashed = false) {t : Task} {rest : List Task}
    (hhandler : s.handler = t :: rest) :
    Internal s (runTask s.mWorkQueue.length t (s.withHandler rest)) := by
  right
  exact step_eq_some.2 ⟨halive, .runTask hhandler rfl⟩

/-- A `tearDown` as a step: it throws, or it leaves `tornDown`. -/
theorem run_tear_down (h : s.Sane) (rest : List Task) :
    runTask s.mWorkQueue.length .serviceTearDown (s.withHandler rest) =
      if ∀ r ∈ removed (s.Matches "") false s.mRunnables, (s.heap r).fileResponseFuture ≠ none then
        (s.withHandler rest).tornDown
      else (s.withHandler rest).crash := by
  have hpopped : (s.withHandler rest).Sane := h
  show ((s.withHandler rest).tearDown s.mWorkQueue.length).getD _ = _
  rw [show s.mWorkQueue = (s.withHandler rest).mWorkQueue from rfl, tear_down_eq hpopped]
  show (if ∀ r ∈ removed (s.Matches "") false s.mRunnables,
        (s.heap r).fileResponseFuture ≠ none then
      some (s.withHandler rest).tornDown
    else none).getD _ = _
  split <;> rfl

/-! ## Coming to rest -/

/-- What the internal steps use up: the pending `tearDown`s, the intents, and the tasks by the
number of rounds of tasks they can cause. -/
def work (s : State) : Nat × Nat × Nat × Nat × Nat :=
  (s.pending, s.stops, s.handler.count .serviceStartup, s.handler.count .refresh, s.handler.length)

/-- The lexicographic order of `work`. -/
def WorkLt : Nat × Nat × Nat × Nat × Nat → Nat × Nat × Nat × Nat × Nat → Prop :=
  Prod.Lex (· < ·) (Prod.Lex (· < ·) (Prod.Lex (· < ·) (Prod.Lex (· < ·) (· < ·))))

/-- The order on the work that is left is well-founded. -/
theorem work_lt_wf : WellFounded WorkLt :=
  Nat.lt_wfRel.wf.prod_lex (Nat.lt_wfRel.wf.prod_lex (Nat.lt_wfRel.wf.prod_lex
    (Nat.lt_wfRel.wf.prod_lex Nat.lt_wfRel.wf)))

/-- The order compares the five numbers one after the other. -/
theorem work_lt_iff (a b c d e a' b' c' d' e' : Nat) :
    WorkLt (a, b, c, d, e) (a', b', c', d', e') ↔
      a < a' ∨ a = a' ∧ (b < b' ∨ b = b' ∧ (c < c' ∨ c = c' ∧ (d < d' ∨ d = d' ∧ e < e'))) := by
  simp only [WorkLt, Prod.lex_def]

/-- The `tearDown`s that are pending leave a runnable, or one of them throws. -/
def Settled (s : State) : Prop :=
  s.pending = 0 ∨ 2 ^ s.pending ≤ s.mRunnables.length ∨
    ∃ r ∈ s.mRunnables, (s.heap r).fileResponseFuture = none

/-- The first task counts if it is a `tearDown`. -/
theorem pending_cons {t : Task} {rest : List Task} (hhandler : s.handler = t :: rest) :
    s.pending = s.stops + rest.count .serviceTearDown + if t = .serviceTearDown then 1 else 0 := by
  unfold pending
  rw [hhandler, List.count_cons]
  simp only [beq_iff_eq]
  omega

/-- Half of a list that the pending `tearDown`s do not empty outlasts the others. -/
theorem settled_torn_down {rest : List Task} (hhandler : s.handler = .serviceTearDown :: rest)
    (hsettled : s.Settled)
    (hfutures : ∀ r ∈ removed (s.Matches "") false s.mRunnables,
      (s.heap r).fileResponseFuture ≠ none) :
    (s.withHandler rest).tornDown.Settled ∧
      (s.withHandler rest).tornDown.pending < s.pending := by
  have hpending := pending_cons hhandler
  rw [if_pos rfl] at hpending
  obtain ⟨hhandler', hstops', -, -⟩ := torn_down_frame (s.withHandler rest)
  have hlength : (s.withHandler rest).tornDown.mRunnables.length = s.mRunnables.length / 2 :=
    torn_down_length
  have hrunnables : (s.withHandler rest).tornDown.mRunnables =
      kept (s.Matches "") false s.mRunnables := torn_down_m_runnables
  have hpending' : (s.withHandler rest).tornDown.pending =
      s.stops + (if s.mRunnables.length / 2 = 0 then 1 else 0) + rest.count .serviceTearDown := by
    unfold pending
    rw [hhandler', hstops', List.count_append]
    simp
  -- with a runnable left, no further intent is sent
  have hleft : 0 < s.mRunnables.length / 2 →
      (s.withHandler rest).tornDown.pending + 1 = s.pending := by
    intro hpos
    rw [hpending', hpending, if_neg (Nat.ne_of_gt hpos)]
    omega
  rcases hsettled with hzero | hlong | ⟨r, hr, hnone⟩
  · omega
  · have hpow : 2 ^ s.pending = 2 * 2 ^ (s.pending - 1) := by
      rw [← Nat.pow_succ']
      congr 1
      omega
    have hone : 0 < 2 ^ (s.pending - 1) := Nat.two_pow_pos _
    have hlt := hleft (by omega)
    refine ⟨.inr (.inl ?_), by omega⟩
    rw [hlength, show (s.withHandler rest).tornDown.pending = s.pending - 1 by omega]
    omega
  · have hkept : r ∈ kept (s.Matches "") false s.mRunnables := by
      rcases mem_kept_or_removed (p := s.Matches "") false hr with hkept | hremoved
      · exact hkept
      · exact absurd hnone (hfutures r hremoved)
    have hpos : 0 < s.mRunnables.length / 2 := by
      rw [← hlength, hrunnables]
      exact List.length_pos_of_mem hkept
    refine ⟨.inr (.inr ⟨r, hrunnables ▸ hkept, ?_⟩), by have := hleft hpos; omega⟩
    exact (torn_down_heap r).1.2 hnone

/-- An internal step leads to rest, or to the end of the process. -/
theorem internal_settled (h : s.Sane) (hsettled : s.Settled) (hstep : Internal s s') :
    (s'.crashed = true ∨ s'.Settled) ∧ WorkLt s'.work s.work := by
  obtain ⟨halive, ⟨hstops, rfl⟩ | ⟨t, rest, hhandler, rfl⟩⟩ := internal_cases hstep
  · have hpending : pending { s with
        stops := s.stops - 1, handler := s.handler ++ [.serviceTearDown] } = s.pending := by
      simp only [pending, List.count_append, List.count_singleton_self]
      omega
    refine ⟨.inr ?_, ?_⟩
    · unfold Settled at hsettled ⊢
      rw [hpending]
      exact hsettled
    · rw [work, work, hpending, work_lt_iff]
      exact .inr ⟨rfl, .inl (Nat.sub_lt hstops Nat.one_pos)⟩
  · have hpending := pending_cons hhandler
    by_cases ht : t = .serviceTearDown
    · subst ht
      rw [if_pos rfl] at hpending
      rw [run_tear_down h]
      split
      · rename_i hfutures
        obtain ⟨hafter, hlt⟩ := settled_torn_down hhandler hsettled hfutures
        refine ⟨.inr hafter, ?_⟩
        rw [work, work, work_lt_iff]
        exact .inl hlt
      · refine ⟨.inl rfl, ?_⟩
        rw [work, work, work_lt_iff]
        refine .inl ?_
        show s.stops + rest.count .serviceTearDown < _
        omega
    · rw [if_neg ht] at hpending
      obtain ⟨hhandler', hstops', -, -⟩ :=
        run_task_frame (s.withHandler rest) s.mWorkQueue.length ht
      have hdownloads := run_task_to_downloads (s.withHandler rest) s.mWorkQueue.length ht
      rw [with_handler_handler] at hhandler'
      rw [with_handler_stops] at hstops'
      obtain ⟨hnotear, hnostartup, hnorefresh, hnothing⟩ :=
        count_posts (s.withHandler rest) t
      have hpending' : (runTask s.mWorkQueue.length t (s.withHandler rest)).pending =
          s.pending := by
        rw [pending, hhandler', hstops', List.count_append, hnotear]
        exact hpending.symm
      refine ⟨.inr ?_, ?_⟩
      · unfold Settled at hsettled ⊢
        rw [hpending', hdownloads]
        exact hsettled
      · rw [work, work, hpending', hstops', hhandler', work_lt_iff]
        refine .inr ⟨rfl, .inr ⟨rfl, ?_⟩⟩
        simp only [hhandler, List.count_append, List.count_cons, List.length_append,
          List.length_cons, hnostartup, beq_iff_eq]
        by_cases hstartup : t = .serviceStartup
        · exact .inl (by simp [hstartup])
        · refine .inr ⟨by simp [hstartup], ?_⟩
          by_cases hrefresh : t = .refresh
          · refine .inl ?_
            rw [hnorefresh hstartup, if_pos hrefresh]
            exact Nat.lt_succ_self _
          · refine .inr ⟨?_, ?_⟩
            · rw [hnorefresh hstartup, if_neg hrefresh]
            · rw [hnothing hstartup hrefresh]
              exact Nat.lt_succ_self _

/-- Internal steps keep the state sane. -/
theorem internal_sane (h : s.Sane) (hstep : Internal s s') : s'.Sane := by
  rcases hstep with hstep | hstep <;> exact step_sane h hstep

/-- A settled protocol comes to rest. -/
theorem terminates_of_settled (h : s.Sane) (hsettled : s.crashed = true ∨ s.Settled) :
    Terminates Internal s := by
  refine terminates_of_measure (I := fun s => s.Sane ∧ (s.crashed = true ∨ s.Settled)) WorkLt
    work_lt_wf work ?_ ⟨h, hsettled⟩
  rintro s s' ⟨hsane, hor⟩ hstep
  have halive := (internal_cases hstep).1
  have hsettled := hor.resolve_left (by simp [halive])
  obtain ⟨hafter, hlt⟩ := internal_settled hsane hsettled hstep
  exact ⟨⟨internal_sane hsane hstep, hafter⟩, hlt⟩

/-! ## Exceptions on the bus -/

/-- The tasks in front of the one that throws, and none in a process that has ended. -/
def busWork (s : State) : Nat × Nat :=
  (if s.crashed then 0 else throwsAfter s.handler s.registered + 1, s.stops)

/-- Every internal step comes closer to the task that throws. -/
theorem internal_bus_throws (h : s.Sane) (hthrows : BusThrows s.handler s.registered)
    (hstep : Internal s s') :
    (s'.crashed = true ∨ BusThrows s'.handler s'.registered) ∧
      Prod.Lex (· < ·) (· < ·) s'.busWork s.busWork := by
  obtain ⟨halive, hcases⟩ := internal_cases hstep
  -- the process ends, or a task less stands in front
  have hended : s'.crashed = true → Prod.Lex (· < ·) (· < ·) s'.busWork s.busWork := by
    intro hcrashed
    refine Prod.lex_def.2 (.inl ?_)
    simp [busWork, hcrashed, halive]
  have hcloser : s'.crashed = false →
      throwsAfter s'.handler s'.registered < throwsAfter s.handler s.registered →
      Prod.Lex (· < ·) (· < ·) s'.busWork s.busWork := by
    intro hcrashed hlt
    refine Prod.lex_def.2 (.inl ?_)
    simpa [busWork, hcrashed, halive] using hlt
  rcases hcases with ⟨hstops, rfl⟩ | ⟨t, rest, hhandler, rfl⟩
  · refine ⟨.inr (hthrows.append _), Prod.lex_def.2 (.inr ⟨?_, Nat.sub_lt hstops Nat.one_pos⟩)⟩
    simp only [busWork, halive, Bool.false_eq_true, if_false]
    rw [throws_after_append hthrows]
  · rw [hhandler] at hthrows
    by_cases ht : t = .serviceTearDown
    · subst ht
      obtain hnone | ⟨after, hsome, hrest⟩ := bus_throws_cons.1 hthrows
      · cases hnone
      · cases hsome
        rw [run_tear_down h] at hended hcloser ⊢
        split at hended
        · obtain ⟨hhandler', -, hregistered', hcrashed'⟩ := torn_down_frame (s.withHandler rest)
          rw [if_pos ‹_›] at hcloser ⊢
          rw [hhandler', hregistered'] at hcloser ⊢
          refine ⟨.inr (hrest.append _), hcloser (hcrashed'.trans halive) ?_⟩
          rw [with_handler_handler, with_handler_registered, throws_after_append hrest, hhandler]
          exact Nat.lt_succ_self _
        · rw [if_neg ‹_›]
          exact ⟨.inl rfl, hended rfl⟩
    · obtain ⟨hhandler', -, hcrash, hafter⟩ :=
        run_task_frame (s.withHandler rest) s.mWorkQueue.length ht
      obtain hnone | ⟨after, hsome, hrest⟩ := bus_throws_cons.1 hthrows
      · exact ⟨.inl (hcrash hnone), hended (hcrash hnone)⟩
      · obtain ⟨hregistered', hcrashed'⟩ := hafter after hsome
        rw [with_handler_handler] at hhandler'
        rw [hhandler', hregistered'] at hcloser ⊢
        refine ⟨.inr (hrest.append _), hcloser (hcrashed'.trans halive) ?_⟩
        rw [throws_after_append hrest, hhandler, throwsAfter, hsome]
        exact Nat.lt_succ_self _

/-- If a task makes the bus throw, the process ends. -/
theorem terminates_of_bus_throws (h : s.Sane) (hthrows : BusThrows s.handler s.registered) :
    Terminates Internal s := by
  refine terminates_of_measure
    (I := fun s => s.Sane ∧ (s.crashed = true ∨ BusThrows s.handler s.registered))
    (Prod.Lex (· < ·) (· < ·)) (Nat.lt_wfRel.wf.prod_lex Nat.lt_wfRel.wf) busWork ?_
    ⟨h, .inr hthrows⟩
  rintro s s' ⟨hsane, hor⟩ hstep
  have halive := (internal_cases hstep).1
  have hthrows := hor.resolve_left (by simp [halive])
  obtain ⟨hafter, hlt⟩ := internal_bus_throws hsane hthrows hstep
  exact ⟨⟨internal_sane hsane hstep, hafter⟩, hlt⟩

/-! ## Going on forever -/

/-- The pending `tearDown`s empty `mRunnables`, and nothing throws on the way. -/
structure Restless (s : State) : Prop where
  alive : s.crashed = false
  pending : 0 < s.pending
  short : s.mRunnables.length < 2 ^ s.pending
  loaded : ∀ r ∈ s.mRunnables, (s.heap r).fileResponseFuture ≠ none
  bus : ¬ BusThrows s.handler s.registered
  percentages : ∀ r, (s.heap r).actualPercentage ≠ 101

/-- What the tasks post for a refresh does not touch the registrations. -/
theorem posts_on_bus (hpercentages : ∀ r, (s.heap r).actualPercentage ≠ 101) (t : Task) :
    ∀ u ∈ s.posts t, ∀ registered, u.onBus registered = some registered := by
  intro u hu registered
  cases t with
  | serviceStartup =>
      simp only [posts] at hu
      split at hu
      · cases hu
      · rw [(List.mem_replicate.1 hu).2]
        rfl
  | refresh =>
      obtain ⟨r, -, rfl⟩ := List.mem_map.1 hu
      exact if_neg (hpercentages r)
  | _ => cases hu

/-- Delivering a stop keeps the state restless, unless there is none. -/
theorem restless_deliver (h : s.Restless) :
    Restless { s with stops := s.stops - 1, handler := s.handler ++ [.serviceTearDown] } ∨
      s.stops = 0 := by
  by_cases hstops : s.stops = 0
  · exact .inr hstops
  have hpending : pending { s with
      stops := s.stops - 1, handler := s.handler ++ [.serviceTearDown] } = s.pending := by
    simp only [State.pending, List.count_append, List.count_singleton_self]
    omega
  refine .inl ⟨h.alive, hpending ▸ h.pending, ?_, h.loaded, ?_, h.percentages⟩
  · rw [hpending]
    exact h.short
  · refine not_bus_throws_append h.bus fun t ht registered => ?_
    rw [List.mem_singleton.1 ht]
    rfl

/-- A `tearDown` that empties the list sends the next intent. -/
theorem restless_torn_down (h : s.Restless) {rest : List Task}
    (hhandler : s.handler = .serviceTearDown :: rest) :
    (s.withHandler rest).tornDown.Restless := by
  have hpending := pending_cons hhandler
  rw [if_pos rfl] at hpending
  obtain ⟨hhandler', hstops', hregistered', hcrashed'⟩ := torn_down_frame (s.withHandler rest)
  have hlength : (s.withHandler rest).tornDown.mRunnables.length = s.mRunnables.length / 2 :=
    torn_down_length
  have hpending' : (s.withHandler rest).tornDown.pending =
      s.stops + (if s.mRunnables.length / 2 = 0 then 1 else 0) + rest.count .serviceTearDown := by
    unfold State.pending
    rw [hhandler', hstops', List.count_append]
    simp
  have hpow : 2 ^ s.pending = 2 * 2 ^ (s.pending - 1) := by
    rw [← Nat.pow_succ']
    congr 1
    have := h.pending
    omega
  have hshort := h.short
  constructor
  case alive => exact hcrashed'.trans h.alive
  case pending =>
    rw [hpending']
    by_cases hzero : s.mRunnables.length / 2 = 0
    · rw [if_pos hzero]
      omega
    · -- more than one `tearDown` was pending, as one does not empty the list
      rw [if_neg hzero]
      by_contra hnone
      have hone : s.pending = 1 := by omega
      rw [hone] at hshort
      omega
  case short =>
    rw [hlength]
    by_cases hzero : s.mRunnables.length / 2 = 0
    · rw [hzero]
      exact Nat.two_pow_pos _
    · rw [hpending', if_neg hzero,
        show s.stops + 0 + rest.count .serviceTearDown = s.pending - 1 by omega]
      omega
  case loaded =>
    intro r hr hnone
    rw [torn_down_m_runnables] at hr
    have hfuture := (torn_down_heap (s := s.withHandler rest) r).1.1 hnone
    exact h.loaded r ((kept_sublist _ _).subset hr) hfuture
  case bus =>
    rw [hhandler', hregistered']
    refine not_bus_throws_append (fun hthrows => h.bus ?_) fun t ht registered => ?_
    · rw [hhandler]
      exact bus_throws_cons.2 (.inr ⟨_, rfl, hthrows⟩)
    · rw [List.mem_singleton.1 ht]
      rfl
  case percentages =>
    intro r
    rw [(torn_down_heap (s := s.withHandler rest) r).2]
    exact h.percentages r

/-- So does a task that is no `tearDown`. -/
theorem restless_run (h : s.Restless) {t : Task} {rest : List Task} (ht : t ≠ .serviceTearDown)
    (hhandler : s.handler = t :: rest) (size : Nat) :
    (runTask size t (s.withHandler rest)).Restless := by
  have hpending := pending_cons hhandler
  rw [if_neg ht] at hpending
  obtain ⟨hhandler', hstops', -, hafter⟩ := run_task_frame (s.withHandler rest) size ht
  rw [with_handler_handler] at hhandler'
  rw [with_handler_stops] at hstops'
  have hdownloads := run_task_to_downloads (s.withHandler rest) size ht
  have hpending' : (runTask size t (s.withHandler rest)).pending = s.pending := by
    rw [State.pending, hhandler', hstops', List.count_append,
      (count_posts (s.withHandler rest) t).1]
    exact hpending.symm
  -- the task does not throw, so that it changes the registrations as `onBus` says
  have hbus := h.bus
  rw [hhandler, bus_throws_cons, not_or] at hbus
  obtain ⟨after, hsome⟩ := Option.ne_none_iff_exists'.1 hbus.1
  obtain ⟨hregistered', hcrashed'⟩ := hafter after hsome
  refine ⟨hcrashed'.trans h.alive, hpending' ▸ h.pending, ?_, ?_, ?_, ?_⟩
  · rw [hdownloads, hpending']
    exact h.short
  · rw [hdownloads]
    exact h.loaded
  · rw [hhandler', hregistered']
    exact not_bus_throws_append (fun hthrows => hbus.2 ⟨after, hsome, hthrows⟩)
      (posts_on_bus h.percentages t)
  · rw [hdownloads]
    exact h.percentages

/-- From a restless state there is an internal step to a restless state. -/
theorem restless_step (hsane : s.Sane) (h : s.Restless) :
    ∃ s', Internal s s' ∧ s'.Sane ∧ s'.Restless := by
  have hstep : ∃ s', Internal s s' ∧ s'.Restless := by
    cases hhandler : s.handler with
    | nil =>
        have hstops : s.stops ≠ 0 := by
          have hpos := h.pending
          rw [State.pending, hhandler, List.count_nil] at hpos
          omega
        exact ⟨_, internal_deliver h.alive (Nat.pos_of_ne_zero hstops),
          (restless_deliver h).resolve_right hstops⟩
    | cons t rest =>
        refine ⟨_, internal_run h.alive hhandler, ?_⟩
        by_cases ht : t = .serviceTearDown
        · subst ht
          rw [run_tear_down hsane, if_pos fun r hr =>
            h.loaded r ((removed_sublist _ _).subset hr)]
          exact restless_torn_down h hhandler
        · exact restless_run h ht hhandler _
  obtain ⟨s', hinternal, hrestless⟩ := hstep
  exact ⟨s', hinternal, internal_sane hsane hinternal, hrestless⟩

/-- From a restless state, there is an infinite run. -/
theorem not_terminates_of_restless (hsane : s.Sane) (h : s.Restless) :
    ¬ Terminates Internal s :=
  not_terminates_of_progress (I := fun s => s.Sane ∧ s.Restless)
    (fun hand => restless_step hand.1 hand.2) ⟨hsane, h⟩

/-- The internal steps come to rest if `Quiesces` holds of the state, and only then unless a
runnable has recorded 101 percent. -/
theorem stop_protocol_terminates_iff (h : Reachable s) :
    (s.Quiesces → Terminates Internal s) ∧
      ((∀ r, (s.heap r).actualPercentage ≠ 101) → Terminates Internal s → s.Quiesces) := by
  have hsane := reachable_sane h
  constructor
  · rintro (hcrashed | hpending | hlong | hnone | hthrows)
    · exact terminates_of_settled hsane (.inl hcrashed)
    · exact terminates_of_settled hsane (.inr (.inl hpending))
    · exact terminates_of_settled hsane (.inr (.inr (.inl hlong)))
    · exact terminates_of_settled hsane (.inr (.inr (.inr hnone)))
    · exact terminates_of_bus_throws hsane hthrows
  · intro hpercentages hterminates
    by_contra hquiesces
    simp only [Quiesces, not_or] at hquiesces
    obtain ⟨halive, hpending, hlong, hnone, hthrows⟩ := hquiesces
    refine not_terminates_of_restless hsane ⟨by simpa using halive, Nat.pos_of_ne_zero hpending,
      Nat.lt_of_not_le hlong, fun r hr hfuture => hnone ⟨r, hr, hfuture⟩, hthrows, hpercentages⟩
      hterminates

/-- With two downloads under way, a single intent comes to rest. -/
theorem stop_protocol_terminates_two :
    ∃ s, Reachable s ∧ s.stops = 1 ∧ Terminates Internal s :=
  have hreach : Reachable _ := ⟨[.start nightly, .start nightly, .stop], rfl⟩
  ⟨_, hreach, rfl, (stop_protocol_terminates_iff hreach).1 (.inr (.inr (.inl (by decide))))⟩

/-- Without a download, one `ACTION_STOP` intent keeps the service stopping forever. -/
theorem stop_protocol_runs_forever : ∃ s, Reachable s ∧ ¬ Terminates Internal s := by
  have hreach : Reachable _ := ⟨[.stop], rfl⟩
  refine ⟨_, hreach, not_terminates_of_restless (reachable_sane hreach)
    ⟨rfl, by decide, by decide, by decide, by decide, fun r => ?_⟩⟩
  show (0 : Int) ≠ 101
  decide

end State

end NamelessCenter.Download
