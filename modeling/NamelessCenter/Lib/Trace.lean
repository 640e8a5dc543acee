import Mathlib.Data.List.Basic

/-!
# Guarded actions in traces

A trace is a list of events, oldest first. `Since grant revoke` says of a trace that a granting
event has happened and no revoking one behind it; a trace is `Guarded` when every action in it
happens since its grant. Both are determined by the last event and the trace before it
(`since_snoc`, `guarded_snoc`), which is how a machine that appends to its trace keeps them.
-/

namespace Trace

variable {α β : Type*}

/-- A granting event has happened, and no revoking one since. -/
def Since (grant revoke : α → Prop) (tr : List α) : Prop :=
  ∃ pre a post, tr = pre ++ a :: post ∧ grant a ∧ ∀ b ∈ post, ¬ revoke b

/-- Every action of the trace happens since its grant. -/
def Guarded (act grant revoke : β → α → Prop) (tr : List α) : Prop :=
  ∀ pre a post, tr = pre ++ a :: post → ∀ f, act f a → Since (grant f) (revoke f) pre

/-- A grant holds behind an event that grants it, or that does not revoke it. -/
theorem since_snoc {grant revoke : α → Prop} {tr : List α} {a : α} :
    Since grant revoke (tr ++ [a]) ↔ grant a ∨ Since grant revoke tr ∧ ¬ revoke a := by
  constructor
  · rintro ⟨pre, b, post, heq, hgrant, hpost⟩
    rcases List.eq_nil_or_concat post with rfl | ⟨post, c, rfl⟩
    · obtain ⟨-, hlast⟩ := List.append_inj' heq rfl
      obtain ⟨rfl, -⟩ := List.cons.inj hlast
      exact .inl hgrant
    · have heq' : tr ++ [a] = (pre ++ b :: post) ++ [c] := by
        rw [heq]
        simp
      obtain ⟨rfl, hlast⟩ := List.append_inj' heq' rfl
      obtain ⟨rfl, -⟩ := List.cons.inj hlast
      exact .inr ⟨⟨pre, b, post, rfl, hgrant, fun x hx => hpost x (by simp [hx])⟩,
        hpost a (by simp)⟩
  · rintro (hgrant | ⟨⟨pre, b, post, rfl, hgrant, hpost⟩, hrevoke⟩)
    · exact ⟨tr, a, [], rfl, hgrant, by simp⟩
    · refine ⟨pre, b, post ++ [a], by simp, hgrant, fun x hx => ?_⟩
      rcases List.mem_append.1 hx with hold | hnew
      · exact hpost x hold
      · rw [List.mem_singleton.1 hnew]
        exact hrevoke

/-- Nothing has happened without a grant. -/
theorem guarded_nil {act grant revoke : β → α → Prop} : Guarded act grant revoke [] := by
  intro pre a post heq
  cases pre <;> cases heq

/-- The last act needs a grant. -/
theorem guarded_snoc {act grant revoke : β → α → Prop} {tr : List α} {a : α} :
    Guarded act grant revoke (tr ++ [a]) ↔
      Guarded act grant revoke tr ∧ ∀ f, act f a → Since (grant f) (revoke f) tr := by
  constructor
  · intro h
    exact ⟨fun pre b post heq => h pre b (post ++ [a]) (by simp [heq]), h tr a [] rfl⟩
  · rintro ⟨h, hlast⟩ pre b post heq
    rcases List.eq_nil_or_concat post with rfl | ⟨post, c, rfl⟩
    · obtain ⟨rfl, hsame⟩ := List.append_inj' heq rfl
      obtain ⟨rfl, -⟩ := List.cons.inj hsame
      exact hlast
    · have heq' : tr ++ [a] = (pre ++ b :: post) ++ [c] := by
        rw [heq]
        simp
      obtain ⟨rfl, -⟩ := List.append_inj' heq' rfl
      exact h pre b post rfl

end Trace
