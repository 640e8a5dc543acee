import NamelessCenter.Database.PreferenceHelper

/-!
# Preferences and tearDown

An access to a preference is two calls, `getInstance()` and a method of the instance. The
components of the app make them in any order, and `tearDown` comes in between:
`MainActivity.onDestroy` and `UpdateCheckReceiver.onReceive` call it while others hold the
instance. The methods of the instance do nothing when `sDb` is null, and `accesses_right_iff` says
which orders of calls this spoils.
-/

namespace NamelessCenter.Database

open Machine

/-- An access through the setter or the getter of the type of its value. -/
inductive Access where
  | set (name : String) (value : Value)
  | get (name : String) (defaultValue : Value)
  deriving DecidableEq, Repr

/-- An access that has returned, with what the table held for its name before and after it, and
with what a getter has returned. -/
structure Completed where
  access : Access
  before : Option String
  after : Option String
  answer : Option Value
  deriving DecidableEq, Repr

/-- The store, with the calls that are under way and those that have ended. -/
structure Accesses where
  store : Store
  /-- The accesses that have fetched the instance. -/
  waiting : List Access
  completed : List Completed

/-- A store that was never used, and no calls. -/
def Accesses.init : Accesses := ⟨.fresh, [], []⟩

/-- What can happen between the calls and `tearDown`. -/
inductive AccessEvent where
  /-- An access fetches the instance. -/
  | getInstance (access : Access)
  /-- An access that has fetched the instance calls its method. -/
  | call (i : Nat)
  | tearDown
  deriving DecidableEq, Repr

namespace Access

/-- The call on the instance, with the store after it and what a getter makes of the result. -/
def call (store : Store) : Access → Option (Option Value × Store)
  | .set name value =>
      (store.insertOrUpdate name value.encode NamelessTable.TABLE).map fun r => (none, r.2)
  | .get name d =>
      (store.getValueByName name NamelessTable.TABLE).map fun value => (decode value d, store)

/-- The preference that the call is about. -/
def name : Access → String
  | .set name _ | .get name _ => name

/-- Whether the access is to leave the table as it is and to return the default value anyway. -/
def Idle (store : Store) : Access → Prop
  | .set name value => store.read name = some value.encode
  | .get name d => decode (store.read name) d = some d

instance (store : Store) : DecidablePred (Idle store)
  | .set name value => inferInstanceAs (Decidable (store.read name = some value.encode))
  | .get name d => inferInstanceAs (Decidable (decode (store.read name) d = some d))

end Access

/-- The setter has stored its value, the getter has returned the value stored. -/
def Completed.Right (c : Completed) : Prop :=
  match c.access with
  | .set _ value => c.after = some value.encode
  | .get _ d => c.answer = decode c.before d

namespace Accesses

/-- The effect of an event, if it can happen. -/
def step (s : Accesses) : AccessEvent → Option Accesses
  | .getInstance access =>
      s.store.getInstance.map fun store => { s with store, waiting := s.waiting ++ [access] }
  | .call i => do
      let access ← s.waiting[i]?
      let (answer, store) ← access.call s.store
      pure {
        store
        waiting := s.waiting.eraseIdx i
        completed := s.completed ++
          [⟨access, s.store.read access.name, store.read access.name, answer⟩] }
  | .tearDown => some { s with store := s.store.tearDown }

/-- A call finds the database open, or it would change and find nothing anyway. -/
def Undisturbed (s : Accesses) : AccessEvent → Prop
  | .call i => ∀ access ∈ s.waiting[i]?, s.store.sDb = true ∨ access.Idle s.store
  | .getInstance _ | .tearDown => True

instance (s : Accesses) : DecidablePred s.Undisturbed
  | .call _ => inferInstanceAs (Decidable (∀ _ ∈ _, _))
  | .getInstance _ | .tearDown => .isTrue trivial

end Accesses

/-! ## Calls -/

section Calls

variable {store store' : Store} {access : Access} {answer : Option Value}

/-- A call leaves the store in order, and is right unless the database was closed. -/
theorem call_spec (h : store.Sane) (hcall : access.call store = some (answer, store')) :
    store'.Sane ∧ (Completed.Right
        ⟨access, store.read access.name, store'.read access.name, answer⟩ ↔
      store.sDb = true ∨ access.Idle store) := by
  cases access with
  | set name value =>
      obtain ⟨⟨stored, after⟩, hinsert, heq⟩ := Option.map_eq_some_iff.1 hcall
      cases heq
      show after.Sane ∧ (after.read name = some value.encode ↔
        store.sDb = true ∨ store.read name = some value.encode)
      cases hopen : store.sDb with
      | true =>
          obtain ⟨t, ht, hsane, -, hread⟩ :=
            Store.insert_or_update name value.encode h hopen
          rw [ht] at hinsert
          cases hinsert
          exact ⟨hsane, iff_of_true (by rw [hread, Function.update_self]) (.inl rfl)⟩
      | false =>
          -- `insertOrUpdate` returns false
          rw [Store.insertOrUpdate, if_pos hopen] at hinsert
          cases hinsert
          exact ⟨h, by simp⟩
  | get name d =>
      obtain ⟨value, hvalue, heq⟩ := Option.map_eq_some_iff.1 hcall
      cases heq
      refine ⟨h, ?_⟩
      show decode value d = decode (store.read name) d ↔
        store.sDb = true ∨ decode (store.read name) d = some d
      cases hopen : store.sDb with
      | true =>
          rw [Store.get_value_by_name h hopen] at hvalue
          cases hvalue
          exact iff_of_true rfl (.inl rfl)
      | false =>
          rw [Store.getValueByName, if_pos hopen] at hvalue
          cases hvalue
          rw [decode_of_none, eq_comm]
          simp

end Calls

/-! ## Runs -/

namespace Accesses

variable {s s' : Accesses} {e : AccessEvent}

/-- The store stays sane, whatever comes in between. -/
theorem step_sane (h : s.store.Sane) (hstep : s.step e = some s') : s'.store.Sane := by
  cases e with
  | getInstance access =>
      obtain ⟨store, hinstance, rfl⟩ := Option.map_eq_some_iff.1 hstep
      obtain ⟨t, ht, hsane, -, -⟩ := Store.get_instance h
      rw [ht] at hinstance
      cases hinstance
      exact hsane
  | call i =>
      obtain ⟨access, -, hrest⟩ := Option.bind_eq_some_iff.1 hstep
      obtain ⟨⟨answer, store⟩, hcall, heq⟩ := Option.bind_eq_some_iff.1 hrest
      cases heq
      exact (call_spec h hcall).1
  | tearDown =>
      cases hstep
      exact (Store.tear_down h).1

/-- The calls go on to be right exactly if no `tearDown` comes into the one that ends. -/
theorem step_right_iff (h : s.store.Sane) (hstep : s.step e = some s') :
    (∀ c ∈ s'.completed, c.Right) ↔ (∀ c ∈ s.completed, c.Right) ∧ s.Undisturbed e := by
  cases e with
  | getInstance access =>
      obtain ⟨store, -, rfl⟩ := Option.map_eq_some_iff.1 hstep
      exact (and_iff_left trivial).symm
  | tearDown =>
      cases hstep
      exact (and_iff_left trivial).symm
  | call i =>
      obtain ⟨access, haccess, hrest⟩ := Option.bind_eq_some_iff.1 hstep
      obtain ⟨⟨answer, store⟩, hcall, heq⟩ := Option.bind_eq_some_iff.1 hrest
      cases heq
      show (∀ c ∈ s.completed ++ [_], c.Right) ↔ _ ∧ ∀ access ∈ s.waiting[i]?, _
      rw [List.forall_mem_append, List.forall_mem_singleton, (call_spec h hcall).2, haccess]
      simp

/-- In every order of accesses and `tearDown`s, no setter is dropped and every getter returns what
is stored exactly if no method of the instance is called between a `tearDown` and the next
`getInstance`, unless it sets the value that is stored or gets a default value that the getter
returns for the stored text. -/
theorem accesses_right_iff {es : List AccessEvent} (hrun : run step init es = some s) :
    (∀ c ∈ s.completed, c.Right) ↔ Along step Undisturbed init es := by
  rw [run_iff_along (J := fun s => s.store.Sane) step_sane step_right_iff Store.sane_fresh hrun]
  exact and_iff_right fun c hc => by cases hc

/-- A setter whose database was torn down, and opened again by another access before its call. -/
theorem accesses_right_reopened :
    ∃ s, run step init [.getInstance (.set "a" (.int 1)), .tearDown,
      .getInstance (.get "a" (.int 0)), .call 0, .call 0] = some s ∧ ∀ c ∈ s.completed, c.Right :=
  have hrun : run step init [.getInstance (.set "a" (.int 1)), .tearDown,
    .getInstance (.get "a" (.int 0)), .call 0, .call 0] = some _ := rfl
  ⟨_, hrun, (accesses_right_iff hrun).2 (by decide)⟩

/-- A download thread asks whether downloads over a metered network are allowed, which the user has
forbidden, and a `tearDown` comes between its two calls: it is told the default value. -/
theorem get_returns_default :
    ∃ s, run step init [.getInstance (.set "pref_update_metered" (.boolean false)), .call 0,
      .getInstance (.get "pref_update_metered" (.boolean true)), .tearDown, .call 0] = some s ∧
      ¬ ∀ c ∈ s.completed, c.Right := by
  refine ⟨_, rfl, fun h => ?_⟩
  have hright := h _ (List.mem_append_right _ (List.mem_singleton_self _))
  revert hright
  unfold Completed.Right
  decide

end Accesses

end NamelessCenter.Database
