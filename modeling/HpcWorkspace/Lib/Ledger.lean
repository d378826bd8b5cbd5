import Mathlib.Data.List.Nodup
import Mathlib.Data.Multiset.AddSub
import Mathlib.Data.Multiset.MapFold
import Mathlib.Data.Set.Insert

/-!
# Exactly-once accounting for items moved through cells

Numbered items (`0, 1, 2, …` in the order they were put in) lie in cells `slots : ι → Option ℕ`
(`none` is a cell whose item was moved out) and leave through a log `returned`, one record for
every value handed out; a record `none` is a value taken from an emptied cell. A set `live` of
positions, mapped to cells by `cell`, says where an item still lies.

`Accounted` is the exactly-once discipline: every item put in so far lies at exactly one live
position or was handed out, never both and never twice, and no record is `none`. Putting a new
item into a cell that no live position uses, and taking the item of a live position, keep it.
-/

namespace Ledger

variable {P ι : Type*}

/-- The exactly-once discipline over the live positions. -/
structure Accounted (cell : P → ι) (live : Set P) (slots : ι → Option ℕ) (count : ℕ)
    (returned : List (Option ℕ)) : Prop where
  /-- a live position has its item in its cell -/
  filled : ∀ p ∈ live, ∃ k < count, slots (cell p) = some k
  /-- two live positions never share an item, hence never a cell -/
  distinct : ∀ p ∈ live, ∀ q ∈ live, slots (cell p) = slots (cell q) → p = q
  /-- every record of the log is an item that was put in -/
  genuine : ∀ r ∈ returned, ∃ k < count, r = some k
  /-- nothing is handed out twice -/
  nodup : returned.Nodup
  /-- an item that still lies in a cell was not handed out -/
  kept : ∀ p ∈ live, slots (cell p) ∉ returned
  /-- no item is lost -/
  complete : ∀ k < count, some k ∈ returned ∨ ∃ p ∈ live, slots (cell p) = some k

variable {cell : P → ι} {live live' : Set P} {slots : ι → Option ℕ} {count : ℕ}
  {returned : List (Option ℕ)}

/-- An empty ledger is accounted. -/
theorem Accounted.empty (slots : ι → Option ℕ) : Accounted cell (∅ : Set P) slots 0 [] where
  filled _ hp := absurd hp (Set.notMem_empty _)
  distinct _ hp := absurd hp (Set.notMem_empty _)
  genuine _ hr := absurd hr List.not_mem_nil
  nodup := List.nodup_nil
  kept _ hp := absurd hp (Set.notMem_empty _)
  complete k hk := absurd hk (Nat.not_lt_zero k)

/-- Live positions use different cells. -/
theorem Accounted.cell_ne (h : Accounted cell live slots count returned) {p q : P}
    (hp : p ∈ live) (hq : q ∈ live) (hne : p ≠ q) : cell p ≠ cell q := fun hc =>
  hne (h.distinct p hp q hq (congrArg slots hc))

variable [DecidableEq ι]

/-- **Put.** A new item goes into a cell that no live position uses. -/
theorem Accounted.put (h : Accounted cell live slots count returned) {b : P}
    (hfree : ∀ p ∈ live, cell p ≠ cell b) :
    Accounted cell (insert b live) (Function.update slots (cell b) (some count)) (count + 1)
      returned := by
  have hself : Function.update slots (cell b) (some count) (cell b) = some count :=
    Function.update_self ..
  have hold : ∀ p ∈ live,
      Function.update slots (cell b) (some count) (cell p) = slots (cell p) := fun p hp =>
    Function.update_of_ne (hfree p hp) ..
  have hnew : ∀ p ∈ live, slots (cell p) ≠ some count := by
    intro p hp heq
    obtain ⟨k, hk, hs⟩ := h.filled p hp
    rw [hs] at heq
    exact absurd (Option.some.inj heq) (Nat.ne_of_lt hk)
  refine ⟨?_, ?_, ?_, h.nodup, ?_, ?_⟩
  · rintro p (rfl | hp)
    · exact ⟨count, Nat.lt_succ_self _, hself⟩
    · obtain ⟨k, hk, hs⟩ := h.filled p hp
      exact ⟨k, Nat.lt_succ_of_lt hk, by rw [hold p hp, hs]⟩
  · rintro p (rfl | hp) q (rfl | hq) heq
    · rfl
    · rw [hself, hold q hq] at heq
      exact absurd heq.symm (hnew q hq)
    · rw [hself, hold p hp] at heq
      exact absurd heq (hnew p hp)
    · rw [hold p hp, hold q hq] at heq
      exact h.distinct p hp q hq heq
  · intro r hr
    obtain ⟨k, hk, rfl⟩ := h.genuine r hr
    exact ⟨k, Nat.lt_succ_of_lt hk, rfl⟩
  · rintro p (rfl | hp)
    · rw [hself]
      intro hmem
      obtain ⟨k, hk, heq⟩ := h.genuine _ hmem
      exact absurd (Option.some.inj heq).symm (Nat.ne_of_lt hk)
    · rw [hold p hp]
      exact h.kept p hp
  · intro k hk
    rcases Nat.lt_succ_iff_lt_or_eq.mp hk with hk | rfl
    · rcases h.complete k hk with hr | ⟨p, hp, hs⟩
      · exact Or.inl hr
      · exact Or.inr ⟨p, Or.inr hp, by rw [hold p hp, hs]⟩
    · exact Or.inr ⟨b, Or.inl rfl, hself⟩

/-- **Take.** Moving the item of a live position out empties its cell, logs the item and ends
the position. -/
theorem Accounted.take (h : Accounted cell live slots count returned) {b : P} (hb : b ∈ live) :
    Accounted cell (live \ {b}) (Function.update slots (cell b) none) count
      (returned ++ [slots (cell b)]) := by
  have hne : ∀ p ∈ live \ {b}, cell p ≠ cell b := fun p hp =>
    h.cell_ne hp.1 hb fun heq => hp.2 (Set.mem_singleton_iff.mpr heq)
  have hold : ∀ p ∈ live \ {b},
      Function.update slots (cell b) none (cell p) = slots (cell p) := fun p hp =>
    Function.update_of_ne (hne p hp) ..
  refine ⟨?_, ?_, ?_, ?_, ?_, ?_⟩
  · intro p hp
    rw [hold p hp]
    exact h.filled p hp.1
  · intro p hp q hq heq
    rw [hold p hp, hold q hq] at heq
    exact h.distinct p hp.1 q hq.1 heq
  · intro r hr
    rcases List.mem_append.mp hr with hr | hr
    · exact h.genuine r hr
    · rw [List.mem_singleton.mp hr]
      exact h.filled b hb
  · rw [List.nodup_append]
    refine ⟨h.nodup, List.nodup_singleton _, ?_⟩
    intro r hr q hq heq
    rw [List.mem_singleton.mp hq] at heq
    rw [heq] at hr
    exact h.kept b hb hr
  · intro p hp hmem
    rw [hold p hp] at hmem
    rcases List.mem_append.mp hmem with hmem | hmem
    · exact h.kept p hp.1 hmem
    · have heq := h.distinct p hp.1 b hb (List.mem_singleton.mp hmem)
      exact hp.2 (Set.mem_singleton_iff.mpr heq)
  · intro k hk
    rcases h.complete k hk with hr | ⟨p, hp, hs⟩
    · exact Or.inl (List.mem_append_left _ hr)
    · by_cases hpb : p = b
      · subst hpb
        rw [hs]
        exact Or.inl (List.mem_append_right _ (List.mem_singleton_self _))
      · refine Or.inr ⟨p, ⟨hp, hpb⟩, ?_⟩
        rw [hold p ⟨hp, hpb⟩, hs]

/-! ## What is outstanding -/

section Outstanding

variable {α : Type*} {values : List α}

/-- The values of the items that were put in and not handed out, when item number `k` has the
`k`-th of the values. -/
def outstanding (values : List α) (returned : List (Option ℕ)) : List α :=
  (values.zipIdx.filter fun e => some e.2 ∉ returned).map Prod.fst

/-- While nothing was handed out, all of them are. -/
theorem outstanding_nil (values : List α) : outstanding values [] = values := by
  have hall : (values.zipIdx.filter fun e => some e.2 ∉ ([] : List (Option ℕ))) =
      values.zipIdx := List.filter_eq_self.mpr fun e _ => decide_eq_true List.not_mem_nil
  rw [outstanding, hall, List.zipIdx_map_fst]

omit [DecidableEq ι] in
/-- A new item is outstanding. -/
theorem Accounted.outstanding_put (h : Accounted cell live slots values.length returned)
    (value : α) :
    outstanding (values ++ [value]) returned = outstanding values returned ++ [value] := by
  have hnew : some values.length ∉ returned := by
    intro hmem
    obtain ⟨k, hk, heq⟩ := h.genuine _ hmem
    exact absurd (Option.some.inj heq).symm (Nat.ne_of_lt hk)
  rw [outstanding, List.zipIdx_append, List.filter_append, List.map_append, outstanding]
  simp [hnew]

/-- Handing out an item takes its value off. -/
theorem outstanding_take {k : ℕ} {value : α} (hk : values[k]? = some value)
    (hnot : some k ∉ returned) :
    (outstanding values returned : Multiset α) =
      value ::ₘ (outstanding values (returned ++ [some k]) : Multiset α) := by
  have hmem : (value, k) ∈ values.zipIdx := List.mem_zipIdx_iff_getElem?.mpr hk
  obtain ⟨l₁, l₂, hsplit⟩ := List.append_of_mem hmem
  -- the other entries have other numbers
  have hnumbers : (values.zipIdx.map Prod.snd).Nodup := by
    rw [List.zipIdx_map_snd]
    exact List.nodup_range'
  rw [hsplit, List.map_append, List.map_cons, List.nodup_middle, List.nodup_cons,
    List.mem_append, not_or] at hnumbers
  have hstays : ∀ l : List (α × ℕ), k ∉ l.map Prod.snd →
      (l.filter fun e => some e.2 ∉ returned ++ [some k]) =
        l.filter fun e => some e.2 ∉ returned := by
    intro l hl
    refine List.filter_congr fun e he => ?_
    have hne : e.2 ≠ k := fun heq => hl (heq ▸ List.mem_map_of_mem he)
    simp [hne]
  have hbefore : outstanding values returned =
      (l₁.filter fun e => some e.2 ∉ returned).map Prod.fst ++
        value :: (l₂.filter fun e => some e.2 ∉ returned).map Prod.fst := by
    simp [outstanding, hsplit, hnot]
  have hafter : outstanding values (returned ++ [some k]) =
      (l₁.filter fun e => some e.2 ∉ returned).map Prod.fst ++
        (l₂.filter fun e => some e.2 ∉ returned).map Prod.fst := by
    rw [outstanding, hsplit, List.filter_append, List.filter_cons, hstays l₁ hnumbers.1.1,
      hstays l₂ hnumbers.1.2]
    simp
  rw [hbefore, hafter, Multiset.cons_coe]
  exact Multiset.coe_eq_coe.mpr List.perm_middle

omit [DecidableEq ι] in
/-- Moving the item of a live position out hands its value out. -/
theorem Accounted.outstanding_take (h : Accounted cell live slots values.length returned) {b : P}
    (hb : b ∈ live) : ∃ k value, slots (cell b) = some k ∧ values[k]? = some value ∧
      (outstanding values returned : Multiset α) =
        value ::ₘ (outstanding values (returned ++ [slots (cell b)]) : Multiset α) := by
  obtain ⟨k, hk, hslot⟩ := h.filled b hb
  have hkept := h.kept b hb
  rw [hslot] at hkept ⊢
  exact ⟨k, _, rfl, List.getElem?_eq_getElem hk,
    Ledger.outstanding_take (List.getElem?_eq_getElem hk) hkept⟩

end Outstanding

end Ledger
