import Mathlib.Data.List.Perm.Basic
import Mathlib.Data.List.Perm.Lattice

/-!
# Gathering answers

Items are given to workers. A worker takes up an item and works out an answer, and hands it in later;
between the two others may do the same, so answers come in in any order. Nothing is said about what
an answer is worked out from: `Answers` states what holds of all answers so far, at the times when
they were worked out.

Each item is all the time in one of three places, so in the end each has been answered once.
-/

universe u v

/-- Items without a worker, answers not yet handed in, and those that are, in their order. -/
structure Gather (ι : Type u) (β : Type v) where
  /-- items that no worker has taken up -/
  todo : List ι
  /-- answers that workers still have -/
  busy : List (ι × β)
  /-- answers handed in -/
  done : List (ι × β)

namespace Gather

variable {ι : Type u} {β : Type v}

/-- All items are given out. -/
def start (items : List ι) : Gather ι β := ⟨items, [], []⟩

/-- Is everything handed in? -/
def finished (g : Gather ι β) : Bool := g.todo.isEmpty && g.busy.isEmpty

/-- A worker takes up an item and works out an answer. -/
def take [DecidableEq ι] (g : Gather ι β) (i : ι) (b : β) : Option (Gather ι β) :=
  if i ∈ g.todo then some { g with todo := g.todo.erase i, busy := g.busy ++ [(i, b)] } else none

/-- An answer, by its number, is handed in. -/
def hand (g : Gather ι β) (k : ℕ) : Option (Gather ι β) :=
  g.busy[k]?.map fun x => { g with busy := g.busy.eraseIdx k, done := g.done ++ [x] }

/-- The items, wherever they are. -/
def items (g : Gather ι β) : List ι := g.todo ++ (g.busy ++ g.done).map Prod.fst

/-- All answers have a property. -/
def Answers (P : ι → β → Prop) (g : Gather ι β) : Prop := ∀ x ∈ g.busy ++ g.done, P x.1 x.2

/-- What is still to do: two things for an item, one for an answer. -/
def left (g : Gather ι β) : ℕ := 2 * g.todo.length + g.busy.length

variable {g g' : Gather ι β} {i : ι} {b : β} {k : ℕ} {P Q : ι → β → Prop}

@[simp] theorem items_start (items : List ι) : (start items : Gather ι β).items = items :=
  List.append_nil items

theorem answers_start (P : ι → β → Prop) (items : List ι) : (start items).Answers P :=
  fun _ hx => absurd hx List.not_mem_nil

theorem Answers.mono (h : g.Answers P) (hPQ : ∀ i b, P i b → Q i b) : g.Answers Q :=
  fun x hx => hPQ x.1 x.2 (h x hx)

/-- **Inversion** for handing in. -/
theorem hand_eq_some (h : g.hand k = some g') :
    ∃ x, g.busy[k]? = some x ∧ g'.todo = g.todo ∧ g'.busy = g.busy.eraseIdx k ∧
      g'.done = g.done ++ [x] := by
  obtain ⟨x, hx, rfl⟩ := Option.map_eq_some_iff.mp h
  exact ⟨x, hx, rfl, rfl, rfl⟩

/-- An answer moves from the workers to those handed in. -/
theorem perm_of_hand (h : g.hand k = some g') : (g'.busy ++ g'.done).Perm (g.busy ++ g.done) := by
  obtain ⟨x, hx, -, hbusy, hdone⟩ := hand_eq_some h
  obtain ⟨hk, hget⟩ := List.getElem?_eq_some_iff.mp hx
  have hone : (x :: g.busy.eraseIdx k).Perm g.busy := hget ▸ List.getElem_cons_eraseIdx_perm hk
  rw [hbusy, hdone, ← List.append_assoc]
  refine List.perm_append_comm.trans ?_
  rw [List.singleton_append, ← List.cons_append]
  exact hone.append_right g.done

section Take

variable [DecidableEq ι]

/-- **Inversion** for taking up an item. -/
theorem take_eq_some (h : g.take i b = some g') :
    i ∈ g.todo ∧ g'.todo = g.todo.erase i ∧ g'.busy = g.busy ++ [(i, b)] ∧ g'.done = g.done := by
  rw [take] at h
  split at h
  · rename_i hmem
    obtain rfl := Option.some.inj h
    exact ⟨hmem, rfl, rfl, rfl⟩
  · cases h

/-- No item is lost when one is taken up. -/
theorem items_take (h : g.take i b = some g') : g'.items.Perm g.items := by
  obtain ⟨hmem, htodo, hbusy, hdone⟩ := take_eq_some h
  rw [items, items, htodo, hbusy, hdone, List.append_assoc, List.map_append, List.map_append,
    List.map_append]
  have hone : (g.todo.erase i ++ [i]).Perm g.todo :=
    List.perm_append_comm.trans (List.perm_cons_erase hmem).symm
  have hmove : (g.busy.map Prod.fst ++ ([i] ++ g.done.map Prod.fst)).Perm
      ([i] ++ (g.busy.map Prod.fst ++ g.done.map Prod.fst)) := by
    rw [← List.append_assoc, ← List.append_assoc]
    exact List.perm_append_comm.append_right _
  refine (hmove.append_left _).trans ?_
  rw [← List.append_assoc]
  exact hone.append_right _

theorem Answers.take (h : g.Answers P) (htake : g.take i b = some g') (hb : P i b) :
    g'.Answers P := by
  obtain ⟨-, -, hbusy, hdone⟩ := take_eq_some htake
  intro x hx
  rw [hbusy, hdone, List.append_assoc, List.mem_append, List.mem_append] at hx
  rcases hx with hx | hx | hx
  · exact h x (List.mem_append_left _ hx)
  · rw [List.mem_singleton.mp hx]
    exact hb
  · exact h x (List.mem_append_right _ hx)

theorem left_take (h : g.take i b = some g') : g'.left + 1 = g.left := by
  obtain ⟨hmem, htodo, hbusy, -⟩ := take_eq_some h
  have hpos : 0 < g.todo.length := List.length_pos_of_mem hmem
  rw [left, left, htodo, hbusy, List.length_erase_of_mem hmem, List.length_append,
    List.length_singleton]
  omega

end Take

/-- No item is lost when an answer is handed in. -/
theorem items_hand (h : g.hand k = some g') : g'.items.Perm g.items := by
  obtain ⟨x, -, htodo, -⟩ := hand_eq_some h
  rw [items, items, htodo]
  exact ((perm_of_hand h).map Prod.fst).append_left _

theorem Answers.hand (h : g.Answers P) (hhand : g.hand k = some g') : g'.Answers P :=
  fun x hx => h x ((perm_of_hand hhand).mem_iff.mp hx)

theorem left_hand (h : g.hand k = some g') : g'.left + 1 = g.left := by
  obtain ⟨x, hx, htodo, hbusy, -⟩ := hand_eq_some h
  obtain ⟨hk, -⟩ := List.getElem?_eq_some_iff.mp hx
  rw [left, left, htodo, hbusy, List.length_eraseIdx_of_lt hk]
  omega

/-- What is handed in was an answer. -/
theorem Answers.of_mem_done (h : g.Answers P) {x : ι × β} (hx : x ∈ g.done) : P x.1 x.2 :=
  h x (List.mem_append_right _ hx)

theorem finished_iff : g.finished = true ↔ g.todo = [] ∧ g.busy = [] := by
  rw [finished, Bool.and_eq_true, List.isEmpty_iff, List.isEmpty_iff]

/-- **Each item is answered once.** -/
theorem done_of_finished (h : g.finished = true) : (g.done.map Prod.fst) = g.items := by
  obtain ⟨htodo, hbusy⟩ := finished_iff.mp h
  rw [items, htodo, hbusy]
  rfl

/-- As long as something is left, a worker can go on. -/
theorem progress [DecidableEq ι] (h : g.finished = false) :
    (∃ i, ∀ b, ∃ g', g.take i b = some g') ∨ ∃ g', g.hand 0 = some g' := by
  cases htodo : g.todo with
  | cons i todo =>
    refine Or.inl ⟨i, fun b => ?_⟩
    rw [take, if_pos (htodo ▸ List.mem_cons_self ..)]
    exact ⟨_, rfl⟩
  | nil =>
    cases hbusy : g.busy with
    | nil =>
      rw [finished, htodo, hbusy] at h
      cases h
    | cons x busy =>
      refine Or.inr ?_
      rw [hand, hbusy]
      exact ⟨_, rfl⟩

end Gather
