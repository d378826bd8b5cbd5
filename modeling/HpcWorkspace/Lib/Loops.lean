import Mathlib.Data.List.Basic

/-!
# Loops whose rounds may throw

A loop takes up the items of a list one after the other. A round changes the state and may throw,
which ends the loop: what was thrown is the result, with the items that were not taken up. The rules
below carry an invariant through a loop, say when a loop comes to its end, and compare a loop with
one that leaves some of the items out.
-/

namespace Loops

universe u v w

variable {α : Type u} {σ : Type v} {ε : Type w}

/-- The state after a loop. When a round throws: what it threw, and the items after it. -/
def forEach (round : α → σ → σ × Option ε) : List α → σ → σ × Option (ε × List α)
  | [], s => (s, none)
  | a :: as, s =>
    match round a s with
    | (s', none) => forEach round as s'
    | (s', some x) => (s', some (x, as))

variable {round : α → σ → σ × Option ε} {s s' : σ} {a : α} {as : List α}

theorem forEach_cons_of_quiet (h : (round a s).2 = none) :
    forEach round (a :: as) s = forEach round as (round a s).1 := by
  rw [forEach]
  split
  · rename_i s' heq
    rw [heq]
  · rename_i s' x heq
    rw [heq] at h
    cases h

theorem forEach_cons_of_throw {x : ε} (h : (round a s).2 = some x) :
    forEach round (a :: as) s = ((round a s).1, some (x, as)) := by
  rw [forEach]
  split
  · rename_i s' heq
    rw [heq] at h
    cases h
  · rename_i s' y heq
    rw [heq] at h
    obtain rfl := Option.some.inj h
    rw [heq]

/-- **Invariant rule.** What every round keeps holds when the loop has ended, in either way. -/
theorem forEach_invariant {Inv : σ → Prop} (hround : ∀ a s, Inv s → Inv (round a s).1)
    (hs : Inv s) : Inv (forEach round as s).1 := by
  induction as generalizing s with
  | nil => exact hs
  | cons a as ih =>
    cases hx : (round a s).2 with
    | none =>
      rw [forEach_cons_of_quiet hx]
      exact ih (hround a s hs)
    | some x =>
      rw [forEach_cons_of_throw hx]
      exact hround a s hs

/-- **Rule for the end.** A loop none of whose rounds throws takes up all items. -/
theorem forEach_quiet {Inv : σ → Prop} (hround : ∀ a s, Inv s → Inv (round a s).1)
    (hquiet : ∀ a ∈ as, ∀ s, Inv s → (round a s).2 = none) (hs : Inv s) :
    (forEach round as s).2 = none := by
  induction as generalizing s with
  | nil => rfl
  | cons a as ih =>
    rw [forEach_cons_of_quiet (hquiet a (List.mem_cons_self ..) s hs)]
    exact ih (fun b hb => hquiet b (List.mem_cons_of_mem _ hb)) (hround a s hs)

/-- **Rule for a throw.** A round that throws after quiet ones leaves the items after it. -/
theorem forEach_throw {Inv : σ → Prop} {bs : List α}
    (hpre : ∀ a ∈ as, ∀ s, Inv s → (round a s).2 = none ∧ Inv (round a s).1) {b : α}
    (hthrow : ∀ s, Inv s → ∃ x, (round b s).2 = some x) (hs : Inv s) :
    ∃ x, (forEach round (as ++ b :: bs) s).2 = some (x, bs) := by
  induction as generalizing s with
  | nil =>
    obtain ⟨x, hx⟩ := hthrow s hs
    rw [List.nil_append, forEach_cons_of_throw hx]
    exact ⟨x, rfl⟩
  | cons a as ih =>
    obtain ⟨hquiet, hinv⟩ := hpre a (List.mem_cons_self ..) s hs
    rw [List.cons_append, forEach_cons_of_quiet hquiet]
    exact ih (fun c hc => hpre c (List.mem_cons_of_mem _ hc)) hinv

/-- **Inversion** for a loop that throws: the round of the item before the rest did. -/
theorem exists_of_forEach_eq_some {Inv : σ → Prop} {x : ε} {rest : List α}
    (hround : ∀ a s, Inv s → Inv (round a s).1) (h : (forEach round as s).2 = some (x, rest))
    (hs : Inv s) : ∃ pre a s', as = pre ++ a :: rest ∧ Inv s' ∧ (round a s').2 = some x := by
  induction as generalizing s with
  | nil => cases h
  | cons a as ih =>
    cases hx : (round a s).2 with
    | none =>
      rw [forEach_cons_of_quiet hx] at h
      obtain ⟨pre, b, s', rfl, hs', hb⟩ := ih h (hround a s hs)
      exact ⟨a :: pre, b, s', rfl, hs', hb⟩
    | some y =>
      rw [forEach_cons_of_throw hx] at h
      obtain ⟨rfl, rfl⟩ := Option.some.inj h
      exact ⟨[], a, s, rfl, hs, hx⟩

/-- **Rule for items that are left out.** The states of two loops, one over all items and one
without those of a kind, stay related, when the rounds of that kind keep the relation on their side
and the other rounds keep it on both and do not throw; and a round that throws has no other items
after it. -/
theorem forEach_filter {R : σ → σ → Prop} {skip : α → Bool}
    (hskip : ∀ a s s', skip a = true → R s s' → R (round a s).1 s')
    (hkeep : ∀ a s s', skip a = false → R s s' →
      (round a s).2 = none ∧ (round a s').2 = none ∧ R (round a s).1 (round a s').1)
    (hend : ∀ x rest, (forEach round as s).2 = some (x, rest) → ∀ a ∈ rest, skip a = true)
    (hs : R s s') :
    R (forEach round as s).1 (forEach round (as.filter fun a => !skip a) s').1 ∧
      (forEach round (as.filter fun a => !skip a) s').2 = none := by
  induction as generalizing s s' with
  | nil => exact ⟨hs, rfl⟩
  | cons a as ih =>
    cases ha : skip a with
    | true =>
      rw [List.filter_cons_of_neg (by simp [ha])]
      cases hx : (round a s).2 with
      | none =>
        rw [forEach_cons_of_quiet hx] at hend ⊢
        exact ih hend (hskip a s s' ha hs)
      | some x =>
        rw [forEach_cons_of_throw hx] at hend ⊢
        have hnone : as.filter (fun a => !skip a) = [] := by
          apply List.filter_eq_nil_iff.mpr
          intro b hb
          simp [hend x as rfl b hb]
        rw [hnone]
        exact ⟨hskip a s s' ha hs, rfl⟩
    | false =>
      obtain ⟨hquiet, hquiet', hR⟩ := hkeep a s s' ha hs
      rw [List.filter_cons_of_pos (by simp [ha]), forEach_cons_of_quiet hquiet']
      rw [forEach_cons_of_quiet hquiet] at hend ⊢
      exact ih hend hR

end Loops
