import Mathlib.Data.List.Sort

/-!
# Sorting by comparisons

A sort makes one comparison after the other. When they are all the same, and a strict order up to
equivalence, it promises an order in which no element comes after one that it is less than; else it
promises nothing. It need not be stable, so two sorts may put equal elements in different orders.
Where the comparison is one of keys, they agree on the keys.
-/

universe u v

/-- A comparison by which elements can be sorted. -/
structure StrictWeak {α : Type u} (less : α → α → Bool) : Prop where
  /-- of two elements not each is less than the other -/
  asymm : ∀ x y, less x y = true → less y x = false
  /-- what is not less than another is not less than what this is not less than -/
  trans : ∀ x y z, less x y = false → less y z = false → less x z = false

/-- What is known of a sort, which is given its comparisons in the order in which it makes them. -/
structure Sorting (α : Type u) where
  /-- the elements in their order -/
  sort : (ℕ → α → α → Bool) → List α → List α
  /-- they are the same -/
  perm : ∀ {less : α → α → Bool}, StrictWeak less → ∀ l, (sort (fun _ => less) l).Perm l
  /-- and none is less than one before it -/
  sorted : ∀ {less : α → α → Bool}, StrictWeak less → ∀ l,
    (sort (fun _ => less) l).Pairwise fun x y => less y x = false

namespace Sorting

variable {α : Type u} {κ : Type v} [LinearOrder κ]

theorem strictWeak_key (key : α → κ) : StrictWeak fun x y => decide (key x < key y) where
  asymm x y h := decide_eq_false (lt_asymm (of_decide_eq_true h))
  trans x y z hxy hyz := by
    rw [decide_eq_false_iff_not, not_lt] at hxy hyz ⊢
    exact hyz.trans hxy

/-- A stable sort. -/
def stable (α : Type u) : Sorting α where
  sort less l := l.mergeSort fun x y => !less 0 y x
  perm _ l := List.mergeSort_perm l _
  sorted {less} h l := by
    have hsorted := @List.pairwise_mergeSort α (fun x y => !less y x)
      (fun x y z hxy hyz => ?_) (fun x y => ?_) l
    · exact hsorted.imp fun {x y} hxy => Bool.not_eq_true' _ ▸ hxy
    · rw [Bool.not_eq_true'] at hxy hyz ⊢
      exact h.trans z y x hyz hxy
    · cases hxy : less y x with
      | false => rfl
      | true => simp [h.asymm y x hxy]

/-- The keys go up. -/
theorem pairwise_key (s : Sorting α) (key : α → κ) (l : List α) :
    ((s.sort (fun _ x y => decide (key x < key y)) l).map key).Pairwise (· ≤ ·) := by
  rw [List.pairwise_map]
  refine (s.sorted (strictWeak_key key) l).imp fun {x y} hxy => ?_
  rw [decide_eq_false_iff_not, not_lt] at hxy
  exact hxy

/-- **Two sorts agree on the keys**, also when they are given the elements in other orders. -/
theorem map_key_eq (s s' : Sorting α) (key : α → κ) {l l' : List α} (h : l.Perm l') :
    (s.sort (fun _ x y => decide (key x < key y)) l).map key =
      (s'.sort (fun _ x y => decide (key x < key y)) l').map key := by
  have hweak := strictWeak_key key
  have hperm := (s.perm hweak l).trans (h.trans (s'.perm hweak l').symm)
  exact (hperm.map key).eq_of_pairwise (fun _ _ _ _ hab hba => le_antisymm hab hba)
    (s.pairwise_key key l) (s'.pairwise_key key l')

end Sorting
