import Mathlib.Logic.Relation

/-!
# What every run comes to

A property is inevitable from a state when every run from there, whatever choices it makes, goes on
until it reaches a state with the property: it does not get stuck before, and does not go on forever.
Programs are followed piece by piece with the rule for sequences; an invariant of the steps holds at the
end as well.
-/

universe u

variable {σ : Type u}

/-- From a state, every run reaches a state with a property. -/
inductive Inevitable (step : σ → σ → Prop) (Q : σ → Prop) : σ → Prop where
  /-- it is reached -/
  | now {s : σ} (h : Q s) : Inevitable step Q s
  /-- there is a step, and every step leads to a state from where it is inevitable -/
  | later {s : σ} (hstep : ∃ s', step s s') (h : ∀ s', step s s' → Inevitable step Q s') :
      Inevitable step Q s

namespace Inevitable

variable {step : σ → σ → Prop} {Q R : σ → Prop} {s : σ}

/-- **Sequences.** -/
theorem bind (h : Inevitable step Q s) (hQ : ∀ s, Q s → Inevitable step R s) :
    Inevitable step R s := by
  induction h with
  | now h => exact hQ _ h
  | later hstep _ ih => exact .later hstep ih

theorem mono (h : Inevitable step Q s) (hQ : ∀ s, Q s → R s) : Inevitable step R s :=
  h.bind fun s hs => .now (hQ s hs)

/-- **Invariants.** What every step keeps holds at the end. -/
theorem and_invariant (Inv : σ → Prop) (h : Inevitable step Q s)
    (hstep : ∀ s s', Inv s → step s s' → Inv s') (hs : Inv s) :
    Inevitable step (fun s => Inv s ∧ Q s) s := by
  induction h with
  | now h => exact .now ⟨hs, h⟩
  | later hex _ ih => exact .later hex fun s' hs' => ih s' hs' (hstep _ _ hs hs')

end Inevitable
