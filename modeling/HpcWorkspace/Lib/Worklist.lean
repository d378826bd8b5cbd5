import Mathlib.Algebra.BigOperators.Group.Finset.Basic

/-!
# Worklists

A worklist is a multiset of items. A step takes an item, adds the result it yields to an
accumulator, and puts the items in that the one taken leaves. When each item has a weight, which is
what it yields and what the items it leaves weigh, the accumulator and the weight of the worklist
have the same sum all the time; so whatever the order in which the items are taken, an empty
worklist means that the accumulator has grown by what the items weighed.

The second part is about items that several parties hold between them.
-/

namespace Worklist

universe u v w

section Steps

variable {α : Type u} {M : Type v} [AddCommMonoid M]

/-- One item is taken; `Expands` tells what an item yields and what it leaves. -/
inductive Step (Expands : α → M → Multiset α → Prop) :
    Multiset α → M → Multiset α → M → Prop where
  /-- any item may be the one -/
  | take {a : α} {r acc : M} {left rest : Multiset α} (h : Expands a r left) :
      Step Expands (a ::ₘ rest) acc (left + rest) (acc + r)

/-- The weight of all items. -/
def weigh (weight : α → M) (items : Multiset α) : M := (items.map weight).sum

variable {weight : α → M}

@[simp] theorem weigh_zero : weigh weight 0 = 0 := rfl

@[simp] theorem weigh_cons (a : α) (items : Multiset α) :
    weigh weight (a ::ₘ items) = weight a + weigh weight items := by
  rw [weigh, Multiset.map_cons, Multiset.sum_cons, weigh]

@[simp] theorem weigh_singleton (a : α) : weigh weight {a} = weight a := by
  rw [weigh, Multiset.map_singleton, Multiset.sum_singleton]

@[simp] theorem weigh_add (items items' : Multiset α) :
    weigh weight (items + items') = weigh weight items + weigh weight items' := by
  rw [weigh, Multiset.map_add, Multiset.sum_add, weigh, weigh]

/-- **Conservation.** A step keeps the sum of the accumulator and the weight of the items. -/
theorem Step.conserves {Expands : α → M → Multiset α → Prop} {items items' : Multiset α}
    {acc acc' : M} (h : Step Expands items acc items' acc')
    (hweight : ∀ a r left, Expands a r left → weight a = r + weigh weight left) :
    acc' + weigh weight items' = acc + weigh weight items := by
  cases h with
  | take hexpands =>
    rw [weigh_add, weigh_cons, hweight _ _ _ hexpands, add_assoc, add_assoc]

/-- A step needs an item. -/
theorem Step.ne_zero {Expands : α → M → Multiset α → Prop} {items items' : Multiset α}
    {acc acc' : M} (h : Step Expands items acc items' acc') : items ≠ 0 := by
  cases h with
  | take hexpands => exact Multiset.cons_ne_zero

end Steps

section Parties

variable {ι : Type u} {β : Type v} {M : Type w} [Fintype ι] [DecidableEq ι] [AddCommMonoid M]

/-- What the parties hold is what one of them holds and what the others do; the latter stays when
that one changes. -/
theorem exists_others (f : ι → β) (g : β → M) (i : ι) :
    ∃ others, ∑ j, g (f j) = g (f i) + others ∧
      ∀ b, ∑ j, g (Function.update f i b j) = g b + others := by
  refine ⟨∑ j ∈ Finset.univ.erase i, g (f j),
    (Finset.add_sum_erase _ (fun j => g (f j)) (Finset.mem_univ i)).symm, ?_⟩
  intro b
  rw [← Finset.add_sum_erase _ (fun j => g (Function.update f i b j)) (Finset.mem_univ i),
    Function.update_self]
  congr 1
  refine Finset.sum_congr rfl fun j hj => ?_
  rw [Function.update_of_ne (Finset.ne_of_mem_erase hj)]

end Parties

end Worklist
