import Mathlib.Algebra.GroupWithZero.Nat
import Mathlib.Data.List.Count
import Mathlib.Data.List.Nodup

/-!
# Searches in a list of places

A search visits the places of a list without repetitions and collects what it finds there. What
it finds is settled by the places at which there is something: when there is only one, the result
is what that place gives; when one place gains something, so does a count over all of them.
-/

namespace Searches

universe u v

variable {α : Type u} {β : Type v}

/-- When only one of the places gives something, the search finds that. -/
theorem flatMap_eq_of_only {f : α → List β} {l : List α} {a : α} (hl : l.Nodup) (ha : a ∈ l)
    (hothers : ∀ x ∈ l, x ≠ a → f x = []) : l.flatMap f = f a := by
  have hnone : ∀ l' : List α, (∀ x ∈ l', x ∈ l ∧ x ≠ a) → l'.flatMap f = [] :=
    fun l' hl' => List.flatMap_eq_nil_iff.mpr fun x hx => hothers x (hl' x hx).1 (hl' x hx).2
  obtain ⟨l₁, l₂, rfl⟩ := List.append_of_mem ha
  rw [List.nodup_middle, List.nodup_cons, List.mem_append, not_or] at hl
  have h₁ := hnone l₁ fun x hx =>
    ⟨List.mem_append_left _ hx, fun heq => hl.1.1 (heq ▸ hx)⟩
  have h₂ := hnone l₂ fun x hx =>
    ⟨List.mem_append_right _ (List.mem_cons_of_mem _ hx), fun heq => hl.1.2 (heq ▸ hx)⟩
  rw [List.flatMap_append, List.flatMap_cons, h₁, h₂, List.nil_append, List.append_nil]

/-- The same for a search that finds at most one thing at a place. -/
theorem filterMap_eq_of_only {f : α → Option β} {l : List α} {a : α} {b : β} (hl : l.Nodup)
    (ha : a ∈ l) (hb : f a = some b) (hothers : ∀ x ∈ l, x ≠ a → f x = none) :
    l.filterMap f = [b] := by
  have honly := flatMap_eq_of_only (f := fun x => (f x).toList) hl ha fun x hx hne => by
    rw [hothers x hx hne]
    rfl
  rw [List.filterMap_eq_flatMap_toList, honly, hb]
  rfl

/-- An element of a list without repetitions is found once. -/
theorem filter_eq_singleton {p : α → Bool} {l : List α} {a : α} (hl : l.Nodup) (ha : a ∈ l)
    (hp : ∀ x, p x = true ↔ x = a) : l.filter p = [a] := by
  obtain ⟨l₁, l₂, rfl⟩ := List.append_of_mem ha
  rw [List.nodup_middle, List.nodup_cons, List.mem_append, not_or] at hl
  have hnone : ∀ l' : List α, a ∉ l' → l'.filter p = [] := fun l' hl' =>
    List.filter_eq_nil_iff.mpr fun x hx hpx => hl' ((hp x).mp hpx ▸ hx)
  rw [List.filter_append, List.filter_cons, if_pos ((hp a).mpr rfl), hnone l₁ hl.1.1,
    hnone l₂ hl.1.2, List.nil_append]

variable [DecidableEq α]

/-- A sum over the places in which one term grows. -/
theorem sum_map_add_ite {f g : α → ℕ} {a : α} {n : ℕ} {l : List α} (hl : l.Nodup)
    (h : ∀ x, g x = f x + if x = a then n else 0) :
    (l.map g).sum = (l.map f).sum + if a ∈ l then n else 0 := by
  induction l with
  | nil => rfl
  | cons x xs ih =>
    obtain ⟨hx, hxs⟩ := List.nodup_cons.mp hl
    rw [List.map_cons, List.sum_cons, List.map_cons, List.sum_cons, ih hxs, h x]
    by_cases heq : x = a
    · subst heq
      rw [if_neg hx, if_pos rfl, if_pos (List.mem_cons_self ..)]
      omega
    · have hiff : a ∈ x :: xs ↔ a ∈ xs := by
        rw [List.mem_cons, or_iff_right (Ne.symm heq)]
      simp only [heq, if_false, hiff]
      omega

/-- Putting an element in front, and taking it out behind, counts it once. -/
theorem countP_cons_erase {p : α → Bool} {a : α} {l : List α} :
    (a :: l.erase a).countP p = l.countP p + if a ∉ l ∧ p a = true then 1 else 0 := by
  rw [List.countP_cons, List.countP_erase]
  by_cases hmem : a ∈ l
  · by_cases hp : p a = true
    · have hpos : 0 < l.countP p := List.countP_pos_iff.mpr ⟨a, hmem, hp⟩
      simp only [hmem, hp, not_true, and_true, if_true, if_false]
      omega
    · simp [hmem, hp]
  · simp [hmem]

end Searches
