import Mathlib.Data.List.Basic

/-!
# Operations that settle

An operation settles a condition when it only adds to the state, the condition holds after it and
stays, whatever is added later, and where it holds already the operation does nothing. Such operations
can be put in a sequence, and a sequence of them does nothing the second time. An operation may rely on
what the ones before it have settled.
-/

universe u v

variable {σ : Type u} {α : Type v}

/-- An operation on a state that settles a condition; `le` says that a state adds to another one, and
`pre` what the operation relies on. -/
structure Settles (le : σ → σ → Prop) (pre : σ → Prop) (op : σ → σ) (done : σ → Prop) : Prop where
  /-- it only adds to the state -/
  adds : ∀ s, le s (op s)
  /-- the condition holds afterwards -/
  settled : ∀ s, pre s → done (op s)
  /-- and stays -/
  stable : ∀ s s', le s s' → done s → done s'
  /-- where it holds there is nothing to do -/
  stays : ∀ s, done s → op s = s

namespace Settles

variable {le : σ → σ → Prop} {pre : σ → Prop} {op op' : σ → σ} {done done' : σ → Prop}

/-- The second time nothing is done. -/
theorem idempotent (h : Settles le pre op done) {s : σ} (hpre : pre s) : op (op s) = op s :=
  h.stays _ (h.settled s hpre)

/-- **Sequences**: the second operation may rely on the first one. -/
theorem comp (htrans : ∀ s s' s'', le s s' → le s' s'' → le s s'') (h : Settles le pre op done)
    (h' : Settles le done op' done') :
    Settles le pre (fun s => op' (op s)) fun s => done s ∧ done' s where
  adds s := htrans _ _ _ (h.adds s) (h'.adds _)
  settled s hpre :=
    ⟨h.stable _ _ (h'.adds _) (h.settled s hpre), h'.settled _ (h.settled s hpre)⟩
  stable s s' hle hdone := ⟨h.stable s s' hle hdone.1, h'.stable s s' hle hdone.2⟩
  stays s hdone := by rw [h.stays s hdone.1, h'.stays s hdone.2]

/-- What an operation relies on may be more. -/
theorem of_imp {pre' : σ → Prop} (h : Settles le pre op done) (himp : ∀ s, pre' s → pre s) :
    Settles le pre' op done where
  adds := h.adds
  settled s hpre := h.settled s (himp s hpre)
  stable := h.stable
  stays := h.stays

/-- **Loops.** -/
theorem foldl (hrefl : ∀ s, le s s) (htrans : ∀ s s' s'', le s s' → le s' s'' → le s s'')
    {op : σ → α → σ} {done : α → σ → Prop}
    (h : ∀ a, Settles le (fun _ => True) (op · a) (done a)) (l : List α) :
    Settles le (fun _ => True) (l.foldl op) fun s => ∀ a ∈ l, done a s := by
  induction l with
  | nil =>
    exact ⟨hrefl, fun _ _ a ha => absurd ha List.not_mem_nil,
      fun _ _ _ _ a ha => absurd ha List.not_mem_nil, fun _ _ => rfl⟩
  | cons a l ih =>
    have hboth := (h a).comp htrans (ih.of_imp fun _ _ => trivial)
    refine ⟨hboth.adds, fun s hs => ?_, fun s s' hle hdone => ?_, fun s hdone => ?_⟩
    · exact List.forall_mem_cons.mpr (hboth.settled s hs)
    · exact List.forall_mem_cons.mpr (hboth.stable s s' hle (List.forall_mem_cons.mp hdone))
    · exact hboth.stays s (List.forall_mem_cons.mp hdone)

end Settles
