import Mathlib.Data.List.Basic
import Mathlib.Logic.Function.Iterate

/-!
# Runs of event-driven machines

A machine is a partial step function: `step s e = some s'` says that event `e` can happen in
state `s` and leads to `s'`. `run` plays a list of events, `Along P` says that every event of a
run satisfies `P` in the state it happens in, and the two induction rules carry an invariant, or
an invariant that needs such a restriction on the events, from one step to whole runs.
-/

namespace Machine

variable {σ ε : Type*} (step : σ → ε → Option σ)

/-- Play a list of events; an event that cannot happen ends the run. -/
def run : σ → List ε → Option σ
  | s, [] => some s
  | s, e :: es => step s e >>= fun s' => run s' es

/-- The states some run from `start` leads to. -/
def Reachable (start s : σ) : Prop := ∃ es, run step start es = some s

/-- Every event of the run satisfies `P` in the state in which it happens. -/
def Along (P : σ → ε → Prop) : σ → List ε → Prop
  | _, [] => True
  | s, e :: es => P s e ∧ ∀ s', step s e = some s' → Along P s' es

/-- `P` holds in every state of the run. -/
def Throughout (P : σ → Prop) : σ → List ε → Prop
  | s, [] => P s
  | s, e :: es => P s ∧ ∀ s', step s e = some s' → Throughout P s' es

variable {step}

/-- No event changes nothing. -/
@[simp] theorem run_nil (s : σ) : run step s [] = some s := rfl

/-- A run starts with its first event. -/
theorem run_cons {s s' : σ} {e : ε} {es : List ε} :
    run step s (e :: es) = some s' ↔ ∃ t, step s e = some t ∧ run step t es = some s' := by
  simp only [run, bind, Option.bind_eq_some_iff]

/-- What is said along a run is said of its first step and along the rest. -/
theorem along_cons {P : σ → ε → Prop} {s t : σ} {e : ε} {es : List ε} (h : step s e = some t) :
    Along step P s (e :: es) ↔ P s e ∧ Along step P t es := by
  show (_ ∧ ∀ s', step s e = some s' → _) ↔ _
  simp [h]

/-- A run ends with an event that cannot happen. -/
theorem along_of_none {P : σ → ε → Prop} {s : σ} {e : ε} {es : List ε} (h : step s e = none) :
    Along step P s (e :: es) ↔ P s e := by
  show (_ ∧ ∀ s', step s e = some s' → _) ↔ _
  simp [h]

instance decidableAlong {P : σ → ε → Prop} [∀ s e, Decidable (P s e)] :
    ∀ (s : σ) (es : List ε), Decidable (Along step P s es)
  | _, [] => .isTrue trivial
  | s, e :: es =>
      match h : step s e with
      | none => decidable_of_iff _ (along_of_none h).symm
      | some t =>
          have := decidableAlong (P := P) t es
          decidable_of_iff _ (along_cons h).symm

/-- A run can be cut in two. -/
theorem run_append {s s' : σ} {es fs : List ε} :
    run step s (es ++ fs) = some s' ↔ ∃ t, run step s es = some t ∧ run step t fs = some s' := by
  induction es generalizing s with
  | nil => simp
  | cons e es ih =>
      rw [List.cons_append, run_cons]
      constructor
      · rintro ⟨t, hstep, hrest⟩
        obtain ⟨u, hes, hfs⟩ := ih.1 hrest
        exact ⟨u, run_cons.2 ⟨t, hstep, hes⟩, hfs⟩
      · rintro ⟨u, hes, hfs⟩
        obtain ⟨t, hstep, hes⟩ := run_cons.1 hes
        exact ⟨t, hstep, ih.2 ⟨u, hes, hfs⟩⟩

/-- What holds throughout a run holds at its start. -/
theorem Throughout.start {P : σ → Prop} {s : σ} {es : List ε} (h : Throughout step P s es) :
    P s := by
  cases es with
  | nil => exact h
  | cons e es => exact h.1

/-- What every permitted step preserves, every run of permitted steps preserves. -/
theorem run_along {I : σ → Prop} {P : σ → ε → Prop}
    (hstep : ∀ {s e s'}, I s → P s e → step s e = some s' → I s') :
    ∀ {es : List ε} {s s' : σ}, I s → Along step P s es → run step s es = some s' → I s'
  | [], s, s', hs, _, hrun => by
      cases hrun
      exact hs
  | e :: es, s, s', hs, halong, hrun => by
      obtain ⟨t, he, hrest⟩ := run_cons.1 hrun
      exact run_along hstep (hstep hs halong.1 he) (halong.2 t he) hrest

/-- If, under an invariant `J`, the steps that satisfy `P` are exactly those that keep `I`, a run
keeps `I` exactly if all its steps satisfy `P`. -/
theorem run_iff_along {I J : σ → Prop} {P : σ → ε → Prop}
    (hJ : ∀ {s e s'}, J s → step s e = some s' → J s')
    (hstep : ∀ {s e s'}, J s → step s e = some s' → (I s' ↔ I s ∧ P s e)) {es : List ε} {s s' : σ}
    (hs : J s) (hrun : run step s es = some s') : I s' ↔ I s ∧ Along step P s es := by
  induction es generalizing s with
  | nil =>
      cases hrun
      exact (and_iff_left trivial).symm
  | cons e es ih =>
      obtain ⟨t, he, hrest⟩ := run_cons.1 hrun
      rw [ih (hJ hs he) hrest, hstep hs he, along_cons he, and_assoc]

/-- If, under an invariant `J`, the steps that satisfy `P` are exactly those that keep `I`, all
states of a run satisfy `I` exactly if all its steps satisfy `P`. -/
theorem throughout_iff_along {I J : σ → Prop} {P : σ → ε → Prop}
    (hJ : ∀ {s e s'}, J s → step s e = some s' → J s')
    (hstep : ∀ {s e s'}, J s → I s → step s e = some s' → (I s' ↔ P s e)) {es : List ε} {s s' : σ}
    (hs : J s) (hI : I s) (hrun : run step s es = some s') :
    Throughout step I s es ↔ Along step P s es := by
  induction es generalizing s with
  | nil => exact iff_of_true hI trivial
  | cons e es ih =>
      obtain ⟨t, he, hrest⟩ := run_cons.1 hrun
      have hall : Throughout step I s (e :: es) ↔ Throughout step I t es := by
        show (I s ∧ ∀ s', step s e = some s' → _) ↔ _
        simp [he, hI]
      rw [hall, along_cons he, ← hstep hs hI he]
      exact ⟨fun h => ⟨h.start, (ih (hJ hs he) h.start hrest).1 h⟩,
        fun h => (ih (hJ hs he) h.1 hrest).2 h.2⟩

/-- If, under an invariant `J`, the steps that satisfy `P` are those that satisfy `Q`, so are the
runs. -/
theorem along_congr {J : σ → Prop} {P Q : σ → ε → Prop}
    (hJ : ∀ {s e s'}, J s → step s e = some s' → J s')
    (hstep : ∀ {s e s'}, J s → step s e = some s' → (P s e ↔ Q s e)) {es : List ε} {s s' : σ}
    (hs : J s) (hrun : run step s es = some s') : Along step P s es ↔ Along step Q s es := by
  induction es generalizing s with
  | nil => rfl
  | cons e es ih =>
      obtain ⟨t, he, hrest⟩ := run_cons.1 hrun
      rw [along_cons he, along_cons he, hstep hs he, ih (hJ hs he) hrest]

/-- What every step preserves, every run preserves. -/
theorem run_preserves {I : σ → Prop} (hstep : ∀ {s e s'}, I s → step s e = some s' → I s')
    {es : List ε} {s s' : σ} (hs : I s) (hrun : run step s es = some s') : I s' := by
  have htrivial : Along step (fun _ _ => True) s es := by
    clear hrun hs
    induction es generalizing s with
    | nil => trivial
    | cons e es ih => exact ⟨trivial, fun _ _ => ih⟩
  exact run_along (P := fun _ _ => True) (fun h _ => hstep h) hs htrivial hrun

/-- An invariant of the start state that every step preserves holds in every reachable state. -/
theorem Reachable.invariant {start s : σ} {I : σ → Prop} (h : Reachable step start s)
    (hstart : I start) (hstep : ∀ {s e s'}, I s → step s e = some s' → I s') : I s := by
  obtain ⟨es, hrun⟩ := h
  exact run_preserves hstep hstart hrun

/-- A step leads from a reachable state to a reachable one. -/
theorem Reachable.next {start s s' : σ} {e : ε} (h : Reachable step start s)
    (hstep : step s e = some s') : Reachable step start s' := by
  obtain ⟨es, hrun⟩ := h
  exact ⟨es ++ [e], run_append.2 ⟨s, hrun, run_cons.2 ⟨s', hstep, rfl⟩⟩⟩

/-! ## Infinite runs -/

/-- The relation `next` admits no infinite run from `start`. -/
def Terminates (next : σ → σ → Prop) (start : σ) : Prop :=
  ¬ ∃ f : Nat → σ, f 0 = start ∧ ∀ n, next (f n) (f (n + 1))

/-- A measure that every step from a state satisfying the invariant decreases bounds every run. -/
theorem terminates_of_measure {next : σ → σ → Prop} {I : σ → Prop} {β : Type*} (lt : β → β → Prop)
    (hwf : WellFounded lt) (measure : σ → β)
    (hstep : ∀ {s s'}, I s → next s s' → I s' ∧ lt (measure s') (measure s))
    {start : σ} (hstart : I start) : Terminates next start := by
  rintro ⟨f, hzero, hnext⟩
  have hI : ∀ n, I (f n) := by
    intro n
    induction n with
    | zero => exact hzero ▸ hstart
    | succ n ih => exact (hstep ih (hnext n)).1
  have hacc : ∀ b, ∀ n, measure (f n) = b → False := by
    intro b
    induction b using hwf.induction with
    | _ b ih =>
        intro n hn
        exact ih _ (hn ▸ (hstep (hI n) (hnext n)).2) (n + 1) rfl
  exact hacc _ 0 rfl

/-- A property that some step always re-establishes yields an infinite run. -/
theorem not_terminates_of_progress {next : σ → σ → Prop} {I : σ → Prop}
    (hstep : ∀ {s}, I s → ∃ s', next s s' ∧ I s') {start : σ} (hstart : I start) :
    ¬ Terminates next start := by
  have hchoose : ∀ s : {s // I s}, ∃ s' : {s // I s}, next s.1 s'.1 := by
    rintro ⟨s, hs⟩
    obtain ⟨s', hnext, hs'⟩ := hstep hs
    exact ⟨⟨s', hs'⟩, hnext⟩
  choose follow hfollow using hchoose
  refine not_not_intro ⟨fun n => (follow^[n] ⟨start, hstart⟩).1, rfl, fun n => ?_⟩
  show next (follow^[n] ⟨start, hstart⟩).1 (follow^[n + 1] ⟨start, hstart⟩).1
  rw [Function.iterate_succ_apply']
  exact hfollow _

end Machine
