import Mathlib.Algebra.BigOperators.Fin
import HpcWorkspace.Lib.Runs
import HpcWorkspace.Lib.Worklist

/-!
# A pool of threads

Items are given to the threads of a pool. A thread takes up an item and makes a call for it, which goes
on step by step while the other threads do the same; in the end it hands in what the call returns. The
steps of calls are interleaved in any way.

When the steps of a call, all or those of some kind, keep an invariant of its own, then whatever the
order of all steps each item is handed in once, with a right result. A pool of one thread that takes
the items in their order hands them in in this order.
-/

universe u v w x

/-- How calls go: how one is entered, its steps, and what it returns when it is over. -/
structure Calls (ι : Type u) (σ : Type v) (ρ : Type w) (ε : Type x) where
  /-- a call begins -/
  enter : ι → ε → Option σ
  /-- it goes on -/
  step : ι → σ → ε → Option σ
  /-- it is over -/
  result : ι → σ → Option ρ

/-- Items that no thread has taken up, the calls of the threads, and results in their order. -/
structure Pool (ι : Type u) (σ : Type v) (ρ : Type w) (p : ℕ) where
  /-- items without a thread -/
  todo : List ι
  /-- the calls -/
  threads : Fin p → Option (ι × σ)
  /-- what was handed in -/
  done : List (ι × ρ)

/-- What happens next. -/
inductive PoolEvent (ι : Type u) (ε : Type x) (p : ℕ) where
  /-- a thread takes up an item -/
  | take (k : Fin p) (i : ι) (e : ε)
  /-- a call goes on -/
  | call (k : Fin p) (e : ε)
  /-- a thread hands in a result -/
  | hand (k : Fin p)

namespace Pool

variable {ι : Type u} {σ : Type v} {ρ : Type w} {ε : Type x} {p : ℕ}

/-- All items are given out. -/
def start (items : List ι) : Pool ι σ ρ p := ⟨items, fun _ => none, []⟩

/-- Is everything handed in? -/
def finished (s : Pool ι σ ρ p) : Prop := s.todo = [] ∧ ∀ k, s.threads k = none

/-- The item of a thread. -/
def item : Option (ι × σ) → Multiset ι
  | none => 0
  | some (i, _) => {i}

/-- The items, wherever they are. -/
def items (s : Pool ι σ ρ p) : Multiset ι :=
  (s.todo : Multiset ι) + ∑ k, item (s.threads k) + (s.done.map Prod.fst : Multiset ι)

theorem items_start (l : List ι) : (start l : Pool ι σ ρ p).items = (l : Multiset ι) := by
  simp [items, start, item]

/-- All calls and results are good. -/
structure AllGood (Good : ι → σ → Prop) (Right : ι → ρ → Prop) (s : Pool ι σ ρ p) : Prop where
  /-- the calls -/
  calls : ∀ k i st, s.threads k = some (i, st) → Good i st
  /-- the results -/
  done : ∀ y ∈ s.done, Right y.1 y.2

variable {Good : ι → σ → Prop} {Right : ι → ρ → Prop}

/-- A thread gets another call. -/
theorem AllGood.update {s : Pool ι σ ρ p} (h : s.AllGood Good Right) {k k' : Fin p} {i i' : ι} {st st' : σ}
    (hgood : Good i st)
    (hk : Function.update s.threads k (some (i, st)) k' = some (i', st')) : Good i' st' := by
  by_cases heq : k' = k
  · rw [heq, Function.update_self] at hk
    obtain ⟨rfl, rfl⟩ := Prod.mk.inj (Option.some.inj hk)
    exact hgood
  · rw [Function.update_of_ne heq] at hk
    exact h.calls k' i' st' hk

section Steps

variable [DecidableEq ι]

/-- A step; `inOrder` when the next item has to be taken. -/
def step (calls : Calls ι σ ρ ε) (inOrder : Bool) (s : Pool ι σ ρ p) :
    PoolEvent ι ε p → Option (Pool ι σ ρ p)
  | .take k i e =>
    match s.threads k with
    | some _ => none
    | none =>
      if i ∈ s.todo ∧ (inOrder = true → s.todo.head? = some i) then
        (calls.enter i e).map fun st =>
          { s with todo := s.todo.erase i, threads := Function.update s.threads k (some (i, st)) }
      else none
  | .call k e =>
    match s.threads k with
    | none => none
    | some (i, st) =>
      (calls.step i st e).map fun st =>
        { s with threads := Function.update s.threads k (some (i, st)) }
  | .hand k =>
    match s.threads k with
    | none => none
    | some (i, st) =>
      (calls.result i st).map fun r =>
        { s with threads := Function.update s.threads k none, done := s.done ++ [(i, r)] }

/-- The ways a step can go. -/
inductive Step (calls : Calls ι σ ρ ε) (inOrder : Bool) (s : Pool ι σ ρ p) :
    PoolEvent ι ε p → Pool ι σ ρ p → Prop where
  /-- an item is taken up -/
  | take {k : Fin p} {i : ι} {e : ε} {st : σ} (idle : s.threads k = none) (mem : i ∈ s.todo)
      (head : inOrder = true → s.todo.head? = some i) (enter : calls.enter i e = some st) :
      Step calls inOrder s (.take k i e)
        { s with todo := s.todo.erase i, threads := Function.update s.threads k (some (i, st)) }
  /-- a call goes on -/
  | call {k : Fin p} {i : ι} {e : ε} {st st' : σ} (busy : s.threads k = some (i, st))
      (goes : calls.step i st e = some st') :
      Step calls inOrder s (.call k e)
        { s with threads := Function.update s.threads k (some (i, st')) }
  /-- a result is handed in -/
  | hand {k : Fin p} {i : ι} {st : σ} {r : ρ} (busy : s.threads k = some (i, st))
      (result : calls.result i st = some r) :
      Step calls inOrder s (.hand k)
        { s with threads := Function.update s.threads k none, done := s.done ++ [(i, r)] }

variable {calls : Calls ι σ ρ ε} {inOrder : Bool} {s s' : Pool ι σ ρ p} {ev : PoolEvent ι ε p}
  {l : List ι} {evs : List (PoolEvent ι ε p)}

/-- **Inversion** for a step. -/
theorem step_spec (h : s.step calls inOrder ev = some s') : Step calls inOrder s ev s' := by
  cases ev with
  | take k i e =>
    dsimp only [step] at h
    split at h
    · cases h
    · rename_i hidle
      split at h
      · rename_i hgo
        obtain ⟨st, hst, rfl⟩ := Option.map_eq_some_iff.mp h
        exact .take hidle hgo.1 hgo.2 hst
      · cases h
  | call k e =>
    dsimp only [step] at h
    split at h
    · cases h
    · rename_i i st hbusy
      obtain ⟨st', hst, rfl⟩ := Option.map_eq_some_iff.mp h
      exact .call hbusy hst
  | hand k =>
    dsimp only [step] at h
    split at h
    · cases h
    · rename_i i st hbusy
      obtain ⟨r, hr, rfl⟩ := Option.map_eq_some_iff.mp h
      exact .hand hbusy hr

/-! ## Each item is handed in once -/

/-- No item is lost, and none is added. -/
theorem Step.items_eq (h : Step calls inOrder s ev s') : s'.items = s.items := by
  cases h with
  | take idle mem head enter =>
    rename_i k i e st
    obtain ⟨others, hsum, hsum'⟩ := Worklist.exists_others s.threads item k
    have htodo : (s.todo : Multiset ι) = {i} + (s.todo.erase i : Multiset ι) := by
      rw [Multiset.singleton_add, Multiset.cons_coe]
      exact Multiset.coe_eq_coe.mpr (List.perm_cons_erase mem)
    rw [items, items, hsum', hsum, idle, htodo, item, item, zero_add]
    dsimp only
    ac_rfl
  | call busy goes =>
    rename_i k i e st st'
    obtain ⟨others, hsum, hsum'⟩ := Worklist.exists_others s.threads item k
    rw [items, items, hsum', hsum, busy, item, item]
  | hand busy result =>
    rename_i k i st r
    obtain ⟨others, hsum, hsum'⟩ := Worklist.exists_others s.threads item k
    rw [items, items, hsum', hsum, busy, item, item, List.map_append, ← Multiset.coe_add, zero_add]
    dsimp only [List.map]
    rw [Multiset.coe_singleton]
    ac_rfl

/-- An invariant of the calls in which all steps are of a kind, which gives right results. -/
structure Correct (calls : Calls ι σ ρ ε) (Ok : ι → σ → ε → Prop) (Good : ι → σ → Prop)
    (Right : ι → ρ → Prop) : Prop where
  /-- it holds at the start -/
  enter : ∀ {i e st}, calls.enter i e = some st → Good i st
  /-- each such step keeps it -/
  step : ∀ {i e st st'}, Good i st → Ok i st e → calls.step i st e = some st' → Good i st'
  /-- what is returned is right -/
  result : ∀ {i st r}, Good i st → calls.result i st = some r → Right i r

/-- The calls take steps of this kind. -/
def StepOk (Ok : ι → σ → ε → Prop) (s : Pool ι σ ρ p) : PoolEvent ι ε p → Prop
  | .call k e =>
    match s.threads k with
    | some (i, st) => Ok i st e
    | none => True
  | _ => True

instance (Ok : ι → σ → ε → Prop) [∀ i st e, Decidable (Ok i st e)] (s : Pool ι σ ρ p)
    (ev : PoolEvent ι ε p) : Decidable (s.StepOk Ok ev) :=
  match ev with
  | .call k e =>
    match h : s.threads k with
    | some (i, st) => decidable_of_iff (Ok i st e) (by rw [StepOk, h])
    | none => isTrue (by rw [StepOk, h]; trivial)
  | .take .. => isTrue trivial
  | .hand _ => isTrue trivial

theorem Step.allGood {Ok : ι → σ → ε → Prop} (hcorrect : Correct calls Ok Good Right)
    (h : Step calls inOrder s ev s') (hok : s.StepOk Ok ev) (hs : s.AllGood Good Right) :
    s'.AllGood Good Right := by
  cases h with
  | take idle mem head enter =>
    exact ⟨fun k' i' st' hk => hs.update (hcorrect.enter enter) hk, hs.done⟩
  | call busy goes =>
    rw [StepOk, busy] at hok
    exact ⟨fun k' i' st' hk => hs.update (hcorrect.step (hs.calls _ _ _ busy) hok goes) hk, hs.done⟩
  | hand busy result =>
    rename_i k i st r
    refine ⟨fun k' i' st' hk => ?_, fun y hy => ?_⟩
    · dsimp only at hk
      by_cases heq : k' = k
      · rw [heq, Function.update_self] at hk
        cases hk
      · rw [Function.update_of_ne heq] at hk
        exact hs.calls k' i' st' hk
    · rcases List.mem_append.mp hy with hy | hy
      · exact hs.done y hy
      · rw [List.mem_singleton.mp hy]
        exact hcorrect.result (hs.calls _ _ _ busy) result

theorem allGood_of_run {Ok : ι → σ → ε → Prop} (hcorrect : Correct calls Ok Good Right)
    (hmeets : Runs.Meets (step calls inOrder) (StepOk Ok) (start l) evs)
    (hrun : Runs.exec (step calls inOrder) (start l) evs = some s) : s.AllGood Good Right :=
  hmeets.invariant (fun _ _ _ h hok hstep => (step_spec hstep).allGood hcorrect hok h)
    ⟨fun _ _ _ h => (by cases h), fun _ h => absurd h List.not_mem_nil⟩ hrun

/-- **Each item is handed in once**, with a right result. -/
theorem done_of_run {Ok : ι → σ → ε → Prop} (hcorrect : Correct calls Ok Good Right)
    (hmeets : Runs.Meets (step calls inOrder) (StepOk Ok) (start l) evs)
    (hrun : Runs.exec (step calls inOrder) (start l) evs = some s) (hdone : s.finished) :
    (s.done.map Prod.fst).Perm l ∧ ∀ y ∈ s.done, Right y.1 y.2 := by
  refine ⟨?_, (allGood_of_run hcorrect hmeets hrun).done⟩
  have hstep : ∀ (t : Pool ι σ ρ p) (ev : PoolEvent ι ε p) (t' : Pool ι σ ρ p),
      t.items = (l : Multiset ι) → t.step calls inOrder ev = some t' → t'.items = (l : Multiset ι) :=
    fun _ _ _ h hstep => (step_spec hstep).items_eq.trans h
  have hitems : s.items = (l : Multiset ι) := Runs.exec_invariant hstep (items_start l) hrun
  rw [Pool.items, hdone.1] at hitems
  simp only [hdone.2, item, Finset.sum_const_zero, Multiset.coe_nil, zero_add] at hitems
  exact Multiset.coe_eq_coe.mp hitems

/-- A pool of one thread has the items in their order. -/
def InTurn (l : List ι) (s : Pool ι σ ρ 1) : Prop :=
  s.done.map Prod.fst ++ ((s.threads 0).map Prod.fst).toList ++ s.todo = l

theorem Step.inTurn {s s' : Pool ι σ ρ 1} {ev : PoolEvent ι ε 1}
    (h : Step calls true s ev s') (hs : InTurn l s) : InTurn l s' := by
  rw [InTurn] at hs ⊢
  rw [← hs]
  cases h with
  | take idle mem head enter =>
    rename_i k i e st
    obtain rfl := Subsingleton.elim k 0
    obtain ⟨todo, htodo⟩ : ∃ todo, s.todo = i :: todo := List.head?_eq_some_iff.mp (head rfl)
    rw [idle, htodo]
    dsimp only
    rw [Function.update_self, List.erase_cons_head, List.append_assoc, List.append_assoc]
    rfl
  | call busy goes =>
    rename_i k i e st st'
    obtain rfl := Subsingleton.elim k 0
    dsimp only
    rw [busy, Function.update_self]
    rfl
  | hand busy result =>
    rename_i k i st r
    obtain rfl := Subsingleton.elim k 0
    dsimp only
    rw [busy, Function.update_self, List.map_append, List.append_assoc, List.append_assoc]
    exact (List.append_assoc (s.done.map Prod.fst) [i] s.todo).symm

/-- **One thread hands in the items in their order.** -/
theorem done_inOrder {s : Pool ι σ ρ 1} {evs : List (PoolEvent ι ε 1)}
    (hrun : Runs.exec (step calls true) (start l) evs = some s) (hdone : s.finished) :
    s.done.map Prod.fst = l := by
  have hstart : InTurn l (start l : Pool ι σ ρ 1) := List.nil_append l
  have hinv : InTurn l s :=
    Runs.exec_invariant (fun _ _ _ h hstep => (step_spec hstep).inTurn h) hstart hrun
  rw [InTurn, hdone.1, hdone.2 0, List.append_nil] at hinv
  exact (List.append_nil _).symm.trans hinv

end Steps

end Pool
