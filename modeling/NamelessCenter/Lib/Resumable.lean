import Mathlib.Logic.Basic

/-!
# Computations that get their input in pieces

A computation over a state that holds its input may find it used up and leave with the exception
`wait`. It is resumed by another computation if giving it more input from the start and letting the
other one go on with the input afterwards lead to the same end. A `Steady` computation does not look
at the input.
-/

namespace Resumable

variable {ε σ ι α β : Type}

/-- How a state is given more input, the states in which it is used up, and the exception. -/
structure Feeding (ε σ ι : Type) where
  feed : σ → ι → σ
  UsedUp : σ → Prop
  wait : ε

/-- More input for the state in which a computation ended. -/
def Feeding.feedResult (F : Feeding ε σ ι) (more : ι) :
    EStateM.Result ε σ α → EStateM.Result ε σ α
  | .ok a s => .ok a (F.feed s more)
  | .error e s => .error e (F.feed s more)

variable (F : Feeding ε σ ι)

/-- In the states that satisfy `P` the computation `m` is resumed by `resume`. -/
def Resumes (P : σ → Prop) (m resume : EStateM ε σ α) : Prop :=
  ∀ s, P s → ∀ more,
    (∃ s', m s = .error F.wait s' ∧ F.UsedUp s' ∧
      m (F.feed s more) = resume (F.feed s' more)) ∨
    (∀ s', m s ≠ .error F.wait s') ∧ m (F.feed s more) = F.feedResult more (m s)

/-- In the states that satisfy `P` the computation neither waits nor looks at the input. -/
def Steady (P : σ → Prop) (m : EStateM ε σ α) : Prop :=
  ∀ s, P s → (∀ s', m s ≠ .error F.wait s') ∧
    ∀ more, m (F.feed s more) = F.feedResult more (m s)

variable {F} {P Q : σ → Prop}

/-- A step that succeeds goes on. -/
theorem bind_ok {m : EStateM ε σ α} {k : α → EStateM ε σ β} {s s' : σ} {a : α}
    (h : m s = .ok a s') : (m >>= k) s = k a s' := by
  show EStateM.bind m k s = _
  rw [EStateM.bind, h]

/-- A step that fails ends the computation. -/
theorem bind_error {m : EStateM ε σ α} {k : α → EStateM ε σ β} {s s' : σ} {e : ε}
    (h : m s = .error e s') : (m >>= k) s = .error e s' := by
  show EStateM.bind m k s = _
  rw [EStateM.bind, h]

/-- Only what the first step does matters. -/
theorem bind_congr {m m' : EStateM ε σ α} {k : α → EStateM ε σ β} {s s' : σ} (h : m s = m' s') :
    (m >>= k) s = (m' >>= k) s' := by
  show EStateM.bind m k s = EStateM.bind m' k s'
  rw [EStateM.bind, EStateM.bind, h]

/-- A computation that has ended has not waited. -/
theorem ok_ne_error {a : α} {s s' : σ} {e : ε} :
    (EStateM.Result.ok a s : EStateM.Result ε σ α) ≠ .error e s' := nofun

/-- Reading the state goes on with it. -/
theorem get_bind (f : σ → EStateM ε σ α) (s : σ) : (get >>= f) s = f s s := rfl

/-! ## Steady computations -/

/-- A weaker condition on the state is enough. -/
theorem Steady.mono {m : EStateM ε σ α} (h : Steady F Q m) (hPQ : ∀ s, P s → Q s) :
    Steady F P m := fun s hs => h s (hPQ s hs)

/-- A result does not depend on the input. -/
theorem Steady.pure (a : α) : Steady F P (pure a : EStateM ε σ α) :=
  fun _ _ => ⟨nofun, fun _ => rfl⟩

/-- Nor does an error other than the wait. -/
theorem Steady.throw {e : ε} (he : e ≠ F.wait) : Steady F P (throw e : EStateM ε σ α) := by
  refine fun s _ => ⟨fun s' h => ?_, fun _ => rfl⟩
  cases h
  exact he rfl

/-- Nor does a change of the state that commutes with feeding it. -/
theorem Steady.modify {g : σ → σ} (hg : ∀ s more, g (F.feed s more) = F.feed (g s) more) :
    Steady F P (modify g : EStateM ε σ PUnit) := by
  refine fun s _ => ⟨nofun, fun more => ?_⟩
  show EStateM.Result.ok PUnit.unit (g (F.feed s more)) = .ok PUnit.unit (F.feed (g s) more)
  rw [hg]

/-- Steady steps in a row are steady. -/
theorem Steady.bind {m : EStateM ε σ α} {k : α → EStateM ε σ β} (hm : Steady F P m)
    (hk : ∀ a, Steady F Q (k a)) (hPQ : ∀ s a s', P s → m s = .ok a s' → Q s') :
    Steady F P (m >>= k) := by
  intro s hs
  obtain ⟨hwait, hfeed⟩ := hm s hs
  cases hresult : m s with
  | ok a s' =>
      obtain ⟨hwait', hfeed'⟩ := hk a s' (hPQ s a s' hs hresult)
      refine ⟨fun t => ?_, fun more => ?_⟩
      · rw [bind_ok hresult]
        exact hwait' t
      · have hmore := hfeed more
        rw [hresult] at hmore
        rw [bind_ok hresult, bind_ok hmore]
        exact hfeed' more
  | error e s' =>
      refine ⟨fun t ht => ?_, fun more => ?_⟩
      · rw [bind_error hresult] at ht
        cases ht
        exact hwait s' hresult
      · have hmore := hfeed more
        rw [hresult] at hmore
        rw [bind_error hresult, bind_error hmore]
        rfl

/-- Looking at the state, but not at its input. -/
theorem Steady.get {f : σ → EStateM ε σ α} (hf : ∀ s more, f (F.feed s more) = f s)
    (h : ∀ s, P s → Steady F P (f s)) : Steady F P (get >>= f) := by
  intro s hs
  obtain ⟨hwait, hfeed⟩ := h s hs s hs
  refine ⟨hwait, fun more => ?_⟩
  show f (F.feed s more) (F.feed s more) = _
  rw [hf, hfeed]
  rfl

/-! ## Resumable computations -/

/-- A weaker condition on the state is enough. -/
theorem Resumes.mono {m resume : EStateM ε σ α} (h : Resumes F Q m resume)
    (hPQ : ∀ s, P s → Q s) : Resumes F P m resume := fun s hs => h s (hPQ s hs)

/-- A steady computation never waits. -/
theorem Steady.resumes {m : EStateM ε σ α} (h : Steady F P m) (resume : EStateM ε σ α) :
    Resumes F P m resume := fun s hs more =>
  .inr ⟨(h s hs).1, (h s hs).2 more⟩

/-- One computation after the other. If the first one waits, what resumes it and the second one
afterwards have to be what resumes both. -/
theorem Resumes.bind {m rm : EStateM ε σ α} {k : α → EStateM ε σ β} {resume : EStateM ε σ β}
    (hm : Resumes F P m rm) (hk : ∀ a, Resumes F Q (k a) resume)
    (hPQ : ∀ s a s', P s → m s = .ok a s' → Q s')
    (hresume : ∀ s s', P s → m s = .error F.wait s' →
      ∀ more, (rm >>= k) (F.feed s' more) = resume (F.feed s' more)) :
    Resumes F P (m >>= k) resume := by
  intro s hs more
  rcases hm s hs more with ⟨t, hwait, hused, hmore⟩ | ⟨hwait, hmore⟩
  · refine .inl ⟨t, bind_error hwait, hused, ?_⟩
    rw [← hresume s t hs hwait more]
    exact bind_congr hmore
  · cases hresult : m s with
    | ok a s' =>
        rw [hresult] at hmore
        have hshort : (m >>= k) s = k a s' := bind_ok hresult
        have hlong : (m >>= k) (F.feed s more) = k a (F.feed s' more) := bind_ok hmore
        rw [hshort, hlong]
        exact hk a s' (hPQ s a s' hs hresult) more
    | error e s' =>
        rw [hresult] at hmore
        refine .inr ⟨fun t ht => ?_, ?_⟩
        · rw [bind_error hresult] at ht
          cases ht
          exact hwait s' hresult
        · rw [bind_error hresult, bind_error hmore]
          rfl

/-- A steady computation in front. -/
theorem Steady.bind_resumes {m : EStateM ε σ α} {k : α → EStateM ε σ β} {resume : EStateM ε σ β}
    (hm : Steady F P m) (hk : ∀ a, Resumes F Q (k a) resume)
    (hPQ : ∀ s a s', P s → m s = .ok a s' → Q s') : Resumes F P (m >>= k) resume :=
  (hm.resumes m).bind hk hPQ fun s s' hs hwait => absurd hwait ((hm s hs).1 s')

/-- A steady step in front of a computation that can be resumed. -/
theorem Steady.then_resumes {m : EStateM ε σ PUnit} {k resume : EStateM ε σ β} (hm : Steady F P m)
    (hk : Resumes F Q k resume) (hPQ : ∀ s s', P s → m s = .ok PUnit.unit s' → Q s') :
    Resumes F P (m >>= fun _ => k) resume := hm.bind_resumes (fun _ => hk) fun s _ s' => hPQ s s'

/-- Each of the states by itself. -/
theorem Resumes.each {m resume : EStateM ε σ α} (h : ∀ s, P s → Resumes F (· = s) m resume) :
    Resumes F P m resume := fun s hs => h s hs s rfl

/-- Computations that agree are resumed alike. -/
theorem Resumes.congr {m m' resume : EStateM ε σ α} (h : Resumes F P m' resume)
    (hsame : ∀ s, P s → m s = m' s) (hfeed : ∀ s, P s → ∀ more, m (F.feed s more) =
      m' (F.feed s more)) : Resumes F P m resume := by
  intro s hs more
  rw [hsame s hs, hfeed s hs more]
  exact h s hs more

/-- Looking at the state, but not at its input. -/
theorem Resumes.get {f : σ → EStateM ε σ α} {resume : EStateM ε σ α}
    (hf : ∀ s more, f (F.feed s more) = f s) (h : ∀ s, P s → Resumes F P (f s) resume) :
    Resumes F P (get >>= f) resume := by
  intro s hs more
  have hone := h s hs s hs more
  have hlong : (MonadState.get >>= f : EStateM ε σ α) (F.feed s more) = f s (F.feed s more) := by
    show f (F.feed s more) (F.feed s more) = _
    rw [hf]
  rw [hlong]
  exact hone

end Resumable
