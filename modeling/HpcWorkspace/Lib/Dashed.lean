import Mathlib.Data.List.Basic

/-!
# Words joined by a separator

Two words joined by a separator, `a ++ sep :: b`, determine each other only when the separator
does not occur in one of them on the side where the word is split. `splitLast` splits at the last
separator, so it recovers a joined pair whose second word is free of it; a pair whose first word
is free of it is recovered by splitting at the first one. When separators are allowed in both
words, the ambiguous pairs are exactly those where one first word extends the other by the
separator and a piece of the second. A property of first words then chooses among the pairs: the
longest first word that has it.
-/

namespace Dashed

universe u

variable {α : Type u}

/-- Joined pairs with equal words agree exactly when they are the same or when one first word
extends the other by a separator. -/
theorem append_sep_eq {sep : α} {a a' b b' : List α} (h : a ++ sep :: b = a' ++ sep :: b') :
    (a = a' ∧ b = b') ∨ (∃ m, a' = a ++ sep :: m ∧ b = m ++ sep :: b') ∨
      ∃ m, a = a' ++ sep :: m ∧ b' = m ++ sep :: b := by
  rcases List.append_eq_append_iff.mp h with ⟨m, ha, hb⟩ | ⟨m, ha, hb⟩
  · cases m with
    | nil =>
      rw [List.nil_append, List.cons.injEq] at hb
      exact Or.inl ⟨by rw [ha, List.append_nil], hb.2⟩
    | cons x m =>
      rw [List.cons_append, List.cons.injEq] at hb
      obtain ⟨rfl, hb⟩ := hb
      exact Or.inr (Or.inl ⟨m, ha, hb⟩)
  · cases m with
    | nil =>
      rw [List.nil_append, List.cons.injEq] at hb
      exact Or.inl ⟨by rw [ha, List.append_nil], hb.2.symm⟩
    | cons x m =>
      rw [List.cons_append, List.cons.injEq] at hb
      obtain ⟨rfl, hb⟩ := hb
      exact Or.inr (Or.inr ⟨m, ha, hb⟩)

/-- Second words without a separator make joining injective. -/
theorem append_sep_inj {sep : α} {a a' b b' : List α} (h : a ++ sep :: b = a' ++ sep :: b')
    (hb : sep ∉ b) (hb' : sep ∉ b') : a = a' ∧ b = b' := by
  rcases append_sep_eq h with heq | ⟨m, -, rfl⟩ | ⟨m, -, rfl⟩
  · exact heq
  · exact absurd (List.mem_append_right m (List.mem_cons_self ..)) hb
  · exact absurd (List.mem_append_right m (List.mem_cons_self ..)) hb'

/-! ## First words -/

/-- A word is a first word of another one: it ends right before a separator. -/
def Before (sep : α) (l a : List α) : Prop := ∃ b, l = a ++ sep :: b

/-- The longest first word with a property; `none` if no first word has it. -/
inductive Longest (P : List α → Prop) (sep : α) (l : List α) : Option (List α) → Prop where
  /-- all others with the property are at most as long -/
  | found {a : List α} (ha : Before sep l a) (hP : P a)
      (hmax : ∀ a', Before sep l a' → P a' → a'.length ≤ a.length) : Longest P sep l (some a)
  /-- there is none -/
  | none (hnone : ∀ a, Before sep l a → ¬P a) : Longest P sep l none

section Before

variable {P : List α → Prop} {sep : α} {l a a' : List α} {d : ℕ}

/-- A first word is what stands before the position of a separator. -/
theorem Before.getElem? (h : Before sep l a) : l[a.length]? = some sep ∧ l.take a.length = a := by
  obtain ⟨b, rfl⟩ := h
  refine ⟨?_, List.take_left' rfl⟩
  rw [List.getElem?_append_right (Nat.le_refl _), Nat.sub_self]
  rfl

theorem before_take (h : l[d]? = some sep) : Before sep l (l.take d) := by
  obtain ⟨hlt, rfl⟩ := List.getElem?_eq_some_iff.mp h
  refine ⟨l.drop (d + 1), ?_⟩
  rw [← List.drop_eq_getElem_cons hlt, List.take_append_drop]

theorem length_take_of_getElem? (h : l[d]? = some sep) : (l.take d).length = d := by
  obtain ⟨hlt, -⟩ := List.getElem?_eq_some_iff.mp h
  rw [List.length_take, Nat.min_eq_left (Nat.le_of_lt hlt)]

/-- The second word stands behind the separator. -/
theorem Before.append_drop (h : Before sep l a) : a ++ sep :: l.drop (a.length + 1) = l := by
  obtain ⟨b, rfl⟩ := h
  rw [List.drop_append, List.drop_of_length_le (Nat.le_succ _), Nat.add_sub_cancel_left]
  rfl

/-- A first word is shorter than the whole. -/
theorem Before.length_lt (h : Before sep l a) : a.length + 1 ≤ l.length := by
  obtain ⟨b, rfl⟩ := h
  rw [List.length_append, List.length_cons]
  omega

/-- First words of one word are told apart by their lengths. -/
theorem Before.eq_of_length (h : Before sep l a) (h' : Before sep l a')
    (hlen : a.length = a'.length) : a = a' := by
  rw [← h.getElem?.2, ← h'.getElem?.2, hlen]

/-- There is only one longest first word. -/
theorem Longest.unique {r r' : Option (List α)} (h : Longest P sep l r)
    (h' : Longest P sep l r') : r = r' := by
  cases h with
  | found ha hP hmax =>
    cases h' with
    | found ha' hP' hmax' =>
      exact congrArg some (ha.eq_of_length ha' (Nat.le_antisymm (hmax' _ ha hP) (hmax _ ha' hP')))
    | none hnone => exact absurd hP (hnone _ ha)
  | none hnone =>
    cases h' with
    | found ha' hP' => exact absurd hP' (hnone _ ha')
    | none => rfl

/-- There is only one first word without a separator in it. -/
theorem Before.eq_of_notMem (h : Before sep l a) (h' : Before sep l a') (hno : sep ∉ a)
    (hno' : sep ∉ a') : a = a' := by
  obtain ⟨b, rfl⟩ := h
  obtain ⟨b', heq⟩ := h'
  rcases append_sep_eq heq with ⟨heq, -⟩ | ⟨m, rfl, -⟩ | ⟨m, rfl, -⟩
  · exact heq
  · exact absurd (List.mem_append_right a (List.mem_cons_self ..)) hno'
  · exact absurd (List.mem_append_right a' (List.mem_cons_self ..)) hno

end Before

/-! ## The last separator -/

variable [DecidableEq α]

/-- The words before and after the last separator. -/
def splitLast (sep : α) : List α → Option (List α × List α)
  | [] => none
  | x :: xs =>
    match splitLast sep xs with
    | some (a, b) => some (x :: a, b)
    | none => if x = sep then some ([], xs) else none

/-- Splitting a word that starts with `x`: in its tail if there is a separator left, else at
`x`. -/
theorem splitLast_cons (sep x : α) (xs : List α) :
    splitLast sep (x :: xs) = match splitLast sep xs with
      | some (a, b) => some (x :: a, b)
      | none => if x = sep then some ([], xs) else none := rfl

theorem splitLast_eq_none {sep : α} {l : List α} : splitLast sep l = none ↔ sep ∉ l := by
  induction l with
  | nil => exact ⟨fun _ => List.not_mem_nil, fun _ => rfl⟩
  | cons x xs ih =>
    rw [splitLast_cons, List.mem_cons, not_or, ← ih]
    cases splitLast sep xs with
    | some p => simp only [reduceCtorEq, and_false]
    | none =>
      by_cases hx : x = sep
      · simp only [hx, if_true, not_true, false_and, reduceCtorEq]
      · simp only [hx, if_false, Ne.symm hx, not_false_iff, and_self]

/-- `splitLast` recovers a joined pair whose second word has no separator. -/
theorem splitLast_append {sep : α} {a b : List α} (hb : sep ∉ b) :
    splitLast sep (a ++ sep :: b) = some (a, b) := by
  induction a with
  | nil => rw [List.nil_append, splitLast, splitLast_eq_none.mpr hb, if_pos rfl]
  | cons x a ih => rw [List.cons_append, splitLast, ih]

/-- A word has no separator, or a last one. -/
theorem notMem_or_eq_append (sep : α) (l : List α) :
    sep ∉ l ∨ ∃ a b, l = a ++ sep :: b ∧ sep ∉ b := by
  induction l with
  | nil => exact Or.inl List.not_mem_nil
  | cons x xs ih =>
    rcases ih with hmem | ⟨a, b, rfl, hb⟩
    · by_cases hx : sep = x
      · exact Or.inr ⟨[], xs, by rw [hx, List.nil_append], hmem⟩
      · exact Or.inl fun h => (List.mem_cons.mp h).elim hx hmem
    · exact Or.inr ⟨x :: a, b, rfl, hb⟩

end Dashed
