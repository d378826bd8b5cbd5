import Mathlib.Order.Lattice
import Mathlib.Data.List.Nodup

/-!
# Sorted maps

A map as the list of its entries in the order of their keys, each key once. Two maps with the same
entries are equal. After values were inserted for keys that are all different, the map has just these
entries besides the ones it had for other keys.
-/

universe u v

/-- The entries, in the order of their keys. -/
structure SortedMap (α : Type u) (β : Type v) [LinearOrder α] where
  /-- keys with their values -/
  entries : List (α × β)
  /-- each key is there once, in order -/
  sorted : (entries.map Prod.fst).Pairwise (· < ·)

namespace SortedMap

variable {α : Type u} {β : Type v} [LinearOrder α]

/-- The empty map. -/
def empty : SortedMap α β := ⟨[], .nil⟩

/-- The list with a value inserted or replaced. -/
def insertEntry (k : α) (v : β) : List (α × β) → List (α × β)
  | [] => [(k, v)]
  | p :: rest =>
    if k < p.1 then (k, v) :: p :: rest
    else if p.1 < k then p :: insertEntry k v rest
    else (k, v) :: rest

theorem mem_insertEntry {k : α} {v : β} {l : List (α × β)}
    (hl : (l.map Prod.fst).Pairwise (· < ·)) {p : α × β} :
    p ∈ insertEntry k v l ↔ p = (k, v) ∨ p ∈ l ∧ p.1 ≠ k := by
  induction l with
  | nil => simp [insertEntry]
  | cons q rest ih =>
    rw [List.map_cons, List.pairwise_cons] at hl
    have hafter : ∀ r ∈ rest, q.1 < r.1 := fun r hr => hl.1 r.1 (List.mem_map_of_mem hr)
    rw [insertEntry]
    split
    · rename_i hlt
      have hne : ∀ r ∈ q :: rest, r.1 ≠ k := by
        rintro r hr rfl
        rcases List.mem_cons.1 hr with rfl | hr
        · exact lt_irrefl _ hlt
        · exact lt_asymm hlt (hafter r hr)
      rw [List.mem_cons]
      exact or_congr Iff.rfl ⟨fun h => ⟨h, hne p h⟩, And.left⟩
    split
    · rename_i hlt
      rw [List.mem_cons, ih hl.2, List.mem_cons]
      constructor
      · rintro (rfl | rfl | h)
        · exact Or.inr ⟨Or.inl rfl, ne_of_lt hlt⟩
        · exact Or.inl rfl
        · exact Or.inr ⟨Or.inr h.1, h.2⟩
      · rintro (rfl | ⟨rfl | h, hne⟩)
        · exact Or.inr (Or.inl rfl)
        · exact Or.inl rfl
        · exact Or.inr (Or.inr ⟨h, hne⟩)
    · rename_i hnlt hngt
      have heq : q.1 = k := le_antisymm (not_lt.1 hnlt) (not_lt.1 hngt)
      rw [List.mem_cons, List.mem_cons]
      constructor
      · rintro (rfl | h)
        · exact Or.inl rfl
        · exact Or.inr ⟨Or.inr h, ne_of_gt (heq ▸ hafter p h)⟩
      · rintro (rfl | ⟨rfl | h, hne⟩)
        · exact Or.inl rfl
        · exact absurd heq hne
        · exact Or.inr h

theorem pairwise_insertEntry {k : α} {v : β} {l : List (α × β)}
    (hl : (l.map Prod.fst).Pairwise (· < ·)) :
    ((insertEntry k v l).map Prod.fst).Pairwise (· < ·) := by
  induction l with
  | nil => exact List.pairwise_singleton _ _
  | cons q rest ih =>
    have hrest := hl
    rw [List.map_cons, List.pairwise_cons] at hrest
    rw [insertEntry]
    split
    · rename_i hlt
      rw [List.map_cons, List.pairwise_cons]
      refine ⟨fun x hx => ?_, hl⟩
      rcases List.mem_cons.1 hx with rfl | hx
      · exact hlt
      · exact lt_trans hlt (hrest.1 x hx)
    split
    · rename_i hlt
      rw [List.map_cons, List.pairwise_cons]
      refine ⟨fun x hx => ?_, ih hrest.2⟩
      obtain ⟨p, hp, rfl⟩ := List.mem_map.1 hx
      rcases (mem_insertEntry hrest.2).1 hp with rfl | hp
      · exact hlt
      · exact hrest.1 _ (List.mem_map_of_mem hp.1)
    · rename_i hnlt hngt
      have heq : q.1 = k := le_antisymm (not_lt.1 hnlt) (not_lt.1 hngt)
      rw [List.map_cons, List.pairwise_cons, ← heq]
      exact hrest

/-- The map with a value inserted or replaced. -/
def insert (m : SortedMap α β) (k : α) (v : β) : SortedMap α β :=
  ⟨insertEntry k v m.entries, pairwise_insertEntry m.sorted⟩

theorem mem_insert {m : SortedMap α β} {k : α} {v : β} {p : α × β} :
    p ∈ (m.insert k v).entries ↔ p = (k, v) ∨ p ∈ m.entries ∧ p.1 ≠ k :=
  mem_insertEntry m.sorted

/-- Maps with the same entries are equal. -/
theorem ext_mem {m m' : SortedMap α β} (h : ∀ p, p ∈ m.entries ↔ p ∈ m'.entries) : m = m' := by
  have hlists : ∀ {l l' : List (α × β)}, (l.map Prod.fst).Pairwise (· < ·) →
      (l'.map Prod.fst).Pairwise (· < ·) → (∀ p, p ∈ l ↔ p ∈ l') → l = l' := by
    intro l
    induction l with
    | nil =>
      intro l' _ _ h
      exact (List.eq_nil_iff_forall_not_mem.2 fun p hp => List.not_mem_nil ((h p).2 hp)).symm
    | cons q rest ih =>
      intro l' hl hl' h
      cases l' with
      | nil => exact absurd ((h q).1 List.mem_cons_self) List.not_mem_nil
      | cons q' rest' =>
        rw [List.map_cons, List.pairwise_cons] at hl hl'
        have hafter : ∀ r ∈ rest, q.1 < r.1 := fun r hr => hl.1 r.1 (List.mem_map_of_mem hr)
        have hafter' : ∀ r ∈ rest', q'.1 < r.1 := fun r hr => hl'.1 r.1 (List.mem_map_of_mem hr)
        have hhead : q = q' := by
          rcases List.mem_cons.1 ((h q).1 List.mem_cons_self) with heq | hq
          · exact heq
          rcases List.mem_cons.1 ((h q').2 List.mem_cons_self) with heq | hq'
          · exact heq.symm
          · exact absurd (hafter' q hq) (lt_asymm (hafter q' hq'))
        subst hhead
        have hrest : ∀ p, p ∈ rest ↔ p ∈ rest' := by
          intro p
          constructor
          · intro hp
            rcases List.mem_cons.1 ((h p).1 (List.mem_cons_of_mem _ hp)) with rfl | hp'
            · exact absurd (hafter p hp) (lt_irrefl _)
            · exact hp'
          · intro hp
            rcases List.mem_cons.1 ((h p).2 (List.mem_cons_of_mem _ hp)) with rfl | hp'
            · exact absurd (hafter' p hp) (lt_irrefl _)
            · exact hp'
        rw [ih hl.2 hl'.2 hrest]
  obtain ⟨l, hl⟩ := m
  obtain ⟨l', hl'⟩ := m'
  have heq : l = l' := hlists hl hl' h
  subst heq
  rfl

/-- Values inserted one after the other. -/
def insertAll (m : SortedMap α β) (l : List (α × β)) : SortedMap α β :=
  l.foldl (fun m p => m.insert p.1 p.2) m

theorem insertAll_append (m : SortedMap α β) (l l' : List (α × β)) :
    m.insertAll (l ++ l') = (m.insertAll l).insertAll l' :=
  List.foldl_append

/-- Values inserted for keys that are all different are all there. -/
theorem mem_insertAll {m : SortedMap α β} {l : List (α × β)} (hl : (l.map Prod.fst).Nodup)
    {p : α × β} :
    p ∈ (m.insertAll l).entries ↔ p ∈ l ∨ p ∈ m.entries ∧ p.1 ∉ l.map Prod.fst := by
  induction l generalizing m with
  | nil => simp [insertAll]
  | cons q rest ih =>
    rw [List.map_cons, List.nodup_cons] at hl
    have hfold : m.insertAll (q :: rest) = (m.insert q.1 q.2).insertAll rest := rfl
    rw [hfold, ih hl.2, mem_insert, List.mem_cons, List.map_cons, List.mem_cons, not_or]
    constructor
    · rintro (h | ⟨rfl | h, hno⟩)
      · exact Or.inl (Or.inr h)
      · exact Or.inl (Or.inl rfl)
      · exact Or.inr ⟨h.1, h.2, hno⟩
    · rintro ((rfl | h) | ⟨h, hne, hno⟩)
      · exact Or.inr ⟨Or.inl rfl, hl.1⟩
      · exact Or.inl h
      · exact Or.inr ⟨Or.inr ⟨h, hne⟩, hno⟩

end SortedMap
