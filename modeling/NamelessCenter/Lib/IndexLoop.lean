import Mathlib.Data.List.Basic
import Mathlib.Data.List.Chain
import Mathlib.Data.List.DropRight
import Mathlib.Algebra.Group.Nat.Even

/-!
# Loops that remove from the list they index

A loop `for (i = 0; i < n; i++)` over a list that removes the element at `i` when it satisfies `p`
passes over the element that moves into its place. `kept` and `removed` are the elements such a
loop leaves and takes; the flag says that the next element is passed over. Exactly the lists
without two neighbours satisfying `p` lose all elements that satisfy it (`kept_clean_iff`), and of
a list in which all elements satisfy `p` half is left (`length_kept_of_forall`).
-/

namespace IndexLoop

variable {α : Type*} (p : α → Prop) [DecidablePred p]

/-- The elements that the loop leaves in the list. -/
def kept : Bool → List α → List α
  | _, [] => []
  | true, x :: xs => x :: kept false xs
  | false, x :: xs => if p x then kept true xs else x :: kept false xs

/-- The elements that the loop removes. -/
def removed : Bool → List α → List α
  | _, [] => []
  | true, _ :: xs => removed false xs
  | false, x :: xs => if p x then x :: removed true xs else removed false xs

/-- The loop itself, with `n` rounds left from index `i` on. What is done to an element that
satisfies `p` may fail; an index behind the end of the shrunken list is passed over. -/
def loop [DecidableEq α] {σ : Type*} (act : α → σ → Option σ) :
    Nat → Nat → List α → σ → Option (List α × σ)
  | 0, _, xs, s => some (xs, s)
  | n + 1, i, xs, s =>
      match xs[i]? with
      | none => loop act n (i + 1) xs s
      | some x =>
          if p x then (act x s).bind fun s' => loop act n (i + 1) (xs.erase x) s'
          else loop act n (i + 1) xs s

/-- No two neighbours satisfy `p`. -/
def Apart (xs : List α) : Prop := xs.IsChain fun x y => ¬ (p x ∧ p y)

instance (xs : List α) : Decidable (Apart p xs) :=
  inferInstanceAs (Decidable (xs.IsChain _))

variable {p}

/-- Behind the end of the list nothing happens. -/
theorem loop_of_length_le [DecidableEq α] {σ : Type*} (act : α → σ → Option σ) {n i : Nat}
    {xs : List α} (s : σ) (h : xs.length ≤ i) : loop p act n i xs s = some (xs, s) := by
  induction n generalizing i with
  | zero => rfl
  | succ n ih =>
      rw [loop, List.getElem?_eq_none h]
      exact ih (by omega)

/-- The loop acts on the elements of `removed` in their order and leaves those of `kept`. -/
theorem loop_eq [DecidableEq α] {σ : Type*} (act : α → σ → Option σ) {xs : List α}
    (hnodup : xs.Nodup) (s : σ) :
    loop p act xs.length 0 xs s =
      ((removed p false xs).foldlM (fun s x => act x s) s).map fun s' => (kept p false xs, s') := by
  -- `front` has been passed; with the flag set, the index has passed the head of `back` as well
  have hgeneral : ∀ (back front : List α) (skip : Bool) (n : Nat) (s : σ),
      (front ++ back).Nodup → back.length ≤ n + skip.toNat →
      loop p act n (front.length + skip.toNat) (front ++ back) s =
        ((removed p skip back).foldlM (fun s x => act x s) s).map
          fun s' => (front ++ kept p skip back, s') := by
    intro back
    induction back with
    | nil =>
        intro front skip n s _ _
        rw [loop_of_length_le act s (by simp)]
        cases skip <;> simp [removed, kept]
    | cons x back ih =>
        intro front skip n s hnodup hlen
        have hassoc : front ++ x :: back = front ++ [x] ++ back := by simp
        cases skip with
        | true =>
            have hrest := ih (front ++ [x]) false n s (hassoc ▸ hnodup) (by simpa using hlen)
            simpa [removed, kept] using hrest
        | false =>
            obtain ⟨m, rfl⟩ : ∃ m, n = m + 1 := ⟨n - 1, by simp at hlen; omega⟩
            have hget : (front ++ x :: back)[front.length + false.toNat]? = some x := by simp
            rw [loop, hget]
            simp only [removed, kept]
            split
            · have hfront : x ∉ front := fun hmem =>
                (List.nodup_append.1 hnodup).2.2 x hmem x List.mem_cons_self rfl
              have herase : (front ++ x :: back).erase x = front ++ back := by
                rw [List.erase_append_right _ hfront, List.erase_cons_head]
              have hnodup' : (front ++ back).Nodup :=
                hnodup.sublist ((List.Sublist.refl front).append (List.sublist_cons_self x back))
              rw [herase, List.foldlM_cons]
              cases act x s with
              | none => rfl
              | some t => exact ih front true m t hnodup' (by simp at hlen ⊢; omega)
            · have hrest := ih (front ++ [x]) false m s (hassoc ▸ hnodup) (by simp at hlen ⊢; omega)
              simpa using hrest
  simpa using hgeneral xs [] false xs.length s (by simpa using hnodup) (by simp)

/-- What is kept keeps its order. -/
theorem kept_sublist (skip : Bool) (xs : List α) : (kept p skip xs).Sublist xs := by
  induction xs generalizing skip with
  | nil => cases skip <;> exact List.Sublist.refl _
  | cons x xs ih =>
      cases skip with
      | true => exact (ih false).cons_cons x
      | false =>
          unfold kept
          split
          · exact (ih true).cons x
          · exact (ih false).cons_cons x

/-- So does what is removed. -/
theorem removed_sublist (skip : Bool) (xs : List α) : (removed p skip xs).Sublist xs := by
  induction xs generalizing skip with
  | nil => cases skip <;> exact List.Sublist.refl _
  | cons x xs ih =>
      cases skip with
      | true => exact (ih false).cons x
      | false =>
          unfold removed
          split
          · exact (ih true).cons_cons x
          · exact (ih false).cons x

/-- Only what matches is removed. -/
theorem prop_of_mem_removed {skip : Bool} {xs : List α} {x : α} (h : x ∈ removed p skip xs) :
    p x := by
  induction xs generalizing skip with
  | nil => cases skip <;> cases h
  | cons y xs ih =>
      cases skip with
      | true => exact ih h
      | false =>
          unfold removed at h
          split at h
          · rename_i hy
            rcases List.mem_cons.1 h with rfl | hmem
            · exact hy
            · exact ih hmem
          · exact ih h

/-- `x` satisfies `p` behind an even number of neighbours that do. -/
def Reaches (xs : List α) (x : α) : Prop :=
  ∃ front back, xs = front ++ x :: back ∧ p x ∧ Even (front.rtakeWhile fun y => p y).length

/-- The loop removes the elements it reaches: within a block of neighbours that satisfy `p` these
are the first, the third, and so on. -/
theorem mem_removed_iff {xs : List α} {x : α} : x ∈ removed p false xs ↔ Reaches (p := p) xs x := by
  -- the flag is set behind an odd number of neighbours
  have hgeneral : ∀ (back front : List α) (skip : Bool),
      (skip = true ↔ ¬ Even (front.rtakeWhile fun y => p y).length) →
      (x ∈ removed p skip back ↔ ∃ mid rest, back = mid ++ x :: rest ∧ p x ∧
        Even ((front ++ mid).rtakeWhile fun y => p y).length) := by
    intro back
    induction back with
    | nil =>
        intro front skip _
        cases skip <;> simp [removed]
    | cons y back ih =>
        intro front skip hskip
        have hsplit : (∃ mid rest, y :: back = mid ++ x :: rest ∧ p x ∧
              Even ((front ++ mid).rtakeWhile fun y => p y).length) ↔
            (x = y ∧ p y ∧ Even (front.rtakeWhile fun y => p y).length) ∨
            ∃ mid rest, back = mid ++ x :: rest ∧ p x ∧
              Even ((front ++ [y] ++ mid).rtakeWhile fun y => p y).length := by
          constructor
          · rintro ⟨mid, rest, heq, hx, heven⟩
            cases mid with
            | nil =>
                obtain ⟨rfl, -⟩ := List.cons.inj heq
                exact .inl ⟨rfl, hx, by simpa using heven⟩
            | cons z mid =>
                obtain ⟨rfl, htail⟩ := List.cons.inj heq
                exact .inr ⟨mid, rest, htail, hx, by simpa using heven⟩
          · rintro (⟨rfl, hx, heven⟩ | ⟨mid, rest, rfl, hx, heven⟩)
            · exact ⟨[], back, rfl, hx, by simpa using heven⟩
            · exact ⟨y :: mid, rest, rfl, hx, by simpa using heven⟩
        rw [hsplit]
        by_cases hy : p y
        · have hrun : ((front ++ [y]).rtakeWhile fun y => p y).length =
              (front.rtakeWhile fun y => p y).length + 1 := by
            rw [List.rtakeWhile_concat_pos _ _ _ (by simpa using hy)]
            simp
          cases skip with
          | true =>
              rw [← ih (front ++ [y]) false (by
                rw [hrun, Nat.even_add_one]
                simpa using hskip)]
              simp [removed, hskip.1 rfl]
          | false =>
              have heven : Even (front.rtakeWhile fun y => p y).length := by
                by_contra hodd
                exact absurd (hskip.2 hodd) (by simp)
              rw [← ih (front ++ [y]) true (by
                rw [hrun, Nat.even_add_one]
                simp [heven])]
              simp [removed, hy, heven]
        · have hrun : (front ++ [y]).rtakeWhile (fun y => p y) = [] :=
            List.rtakeWhile_concat_neg _ _ _ (by simpa using hy)
          rw [← ih (front ++ [y]) false (by simp [hrun])]
          cases skip <;> simp [removed, hy]
  have hall := hgeneral xs [] false (by simp)
  simpa [Reaches] using hall

/-- What is removed is not kept. -/
theorem not_mem_kept_of_mem_removed {skip : Bool} {xs : List α} (hnodup : xs.Nodup) {x : α}
    (h : x ∈ removed p skip xs) : x ∉ kept p skip xs := by
  induction xs generalizing skip with
  | nil => cases h
  | cons y xs ih =>
      obtain ⟨hy, hrest⟩ := List.nodup_cons.1 hnodup
      have hne : ∀ {skip}, x ∈ removed p skip xs → x ≠ y := fun hmem heq =>
        hy (heq ▸ (removed_sublist _ _).subset hmem)
      cases skip with
      | true => exact List.not_mem_cons_of_ne_of_not_mem (hne h) (ih hrest h)
      | false =>
          unfold kept
          unfold removed at h
          split at h
          · rename_i hp
            rw [if_pos hp]
            rcases List.mem_cons.1 h with rfl | hmem
            · exact fun hkept => hy ((kept_sublist _ _).subset hkept)
            · exact ih hrest hmem
          · rename_i hp
            rw [if_neg hp]
            exact List.not_mem_cons_of_ne_of_not_mem (hne h) (ih hrest h)

/-- Every element is kept or removed. -/
theorem mem_kept_or_removed (skip : Bool) {xs : List α} {x : α} (h : x ∈ xs) :
    x ∈ kept p skip xs ∨ x ∈ removed p skip xs := by
  induction xs generalizing skip with
  | nil => cases h
  | cons y xs ih =>
      cases skip with
      | true =>
          rcases List.mem_cons.1 h with rfl | hmem
          · exact .inl List.mem_cons_self
          · rcases ih false hmem with hkept | hremoved
            · exact .inl (List.mem_cons_of_mem _ hkept)
            · exact .inr hremoved
      | false =>
          unfold kept removed
          split
          · rcases List.mem_cons.1 h with rfl | hmem
            · exact .inr List.mem_cons_self
            · rcases ih true hmem with hkept | hremoved
              · exact .inl hkept
              · exact .inr (List.mem_cons_of_mem _ hremoved)
          · rcases List.mem_cons.1 h with rfl | hmem
            · exact .inl List.mem_cons_self
            · rcases ih false hmem with hkept | hremoved
              · exact .inl (List.mem_cons_of_mem _ hkept)
              · exact .inr hremoved

/-- The elements that do not satisfy `p` stay, in their order. -/
theorem filter_kept (skip : Bool) (xs : List α) :
    (kept p skip xs).filter (fun x => ¬ p x) = xs.filter fun x => ¬ p x := by
  induction xs generalizing skip with
  | nil => cases skip <;> rfl
  | cons x xs ih =>
      cases skip with
      | true => rw [kept, List.filter_cons, List.filter_cons, ih]
      | false =>
          unfold kept
          split
          · rename_i hx
            rw [ih, List.filter_cons_of_neg (by simpa using hx)]
          · rw [List.filter_cons, List.filter_cons, ih]

/-- The loop removes every element that satisfies `p` exactly if no two of them are neighbours. -/
theorem kept_clean_iff (xs : List α) : (∀ x ∈ kept p false xs, ¬ p x) ↔ Apart p xs := by
  have hboth : ∀ xs : List α, ((∀ x ∈ kept p false xs, ¬ p x) ↔ Apart p xs) ∧
      ((∀ x ∈ kept p true xs, ¬ p x) ↔ (∀ x ∈ xs.head?, ¬ p x) ∧ Apart p xs) := by
    intro xs
    induction xs with
    | nil => exact ⟨by simp [kept, Apart], by simp [kept, Apart]⟩
    | cons x xs ih =>
        obtain ⟨hfalse, htrue⟩ := ih
        have hchain : Apart p (x :: xs) ↔ (∀ y ∈ xs.head?, ¬ (p x ∧ p y)) ∧ Apart p xs :=
          List.isChain_cons
        constructor
        · unfold kept
          rw [hchain]
          split
          · rename_i hx
            rw [htrue]
            simp [hx]
          · rename_i hx
            rw [List.forall_mem_cons, hfalse]
            simp [hx]
        · unfold kept
          rw [List.forall_mem_cons, hfalse, hchain]
          constructor
          · rintro ⟨hx, hrest⟩
            exact ⟨by simpa using hx, fun y _ hboth => hx hboth.1, hrest⟩
          · rintro ⟨hx, -, hrest⟩
            exact ⟨by simpa using hx, hrest⟩
  exact (hboth xs).1

/-- Of a list whose elements all satisfy `p`, the loop leaves every other element. -/
theorem length_kept_of_forall {xs : List α} (h : ∀ x ∈ xs, p x) :
    (kept p false xs).length = xs.length / 2 := by
  have hboth : ∀ xs : List α, (∀ x ∈ xs, p x) → (kept p false xs).length = xs.length / 2 ∧
      (kept p true xs).length = (xs.length + 1) / 2 := by
    intro xs
    induction xs with
    | nil => exact fun _ => ⟨by simp [kept], by simp [kept]⟩
    | cons x xs ih =>
        intro hall
        obtain ⟨hfalse, htrue⟩ := ih fun y hy => hall y (List.mem_cons_of_mem _ hy)
        constructor
        · rw [kept, if_pos (hall x List.mem_cons_self), htrue, List.length_cons]
        · rw [kept, List.length_cons, List.length_cons, hfalse]
          omega
  exact (hboth xs h).1

end IndexLoop
