import Mathlib.Data.List.AList

/-!
# Directory trees with identities

A tree is a finite map from locations to nodes. Each node carries its identity (an inode number
that no other location has and that is never used again) beside its attributes, so "this very
directory" keeps its meaning while it is renamed: `move` takes the identity along, `create` makes
a new one, `remove` ends one.
-/

universe u v

/-- A directory: its identity and its attributes. -/
structure DirNode (β : Type v) where
  /-- the identity -/
  inode : ℕ
  /-- what else is known of it -/
  attr : β
  deriving DecidableEq

/-- Locations with the nodes at them; each identity has one location. -/
structure DirTree (κ : Type u) (β : Type v) [DecidableEq κ] where
  /-- the nodes by location -/
  nodes : AList (fun _ : κ => DirNode β)
  /-- the next unused identity -/
  next : ℕ
  /-- identities in use are below `next` -/
  fresh : ∀ k n, nodes.lookup k = some n → n.inode < next
  /-- an identity has one location -/
  unique : ∀ k k' n n', nodes.lookup k = some n → nodes.lookup k' = some n' →
    n.inode = n'.inode → k = k'

namespace DirTree

variable {κ : Type u} {β : Type v} [DecidableEq κ]

/-- The node at a location. -/
def find (t : DirTree κ β) (k : κ) : Option (DirNode β) := t.nodes.lookup k

/-- The locations in use. -/
def locs (t : DirTree κ β) : List κ := t.nodes.keys

/-- The location of an identity. -/
def locate (t : DirTree κ β) (i : ℕ) : Option κ :=
  t.locs.find? fun k => (t.find k).any fun n => n.inode == i

/-- The empty tree. -/
def empty : DirTree κ β where
  nodes := ∅
  next := 0
  fresh k n h := by simp only [AList.lookup_empty, reduceCtorEq] at h
  unique k k' n n' h := by simp only [AList.lookup_empty, reduceCtorEq] at h

/-- A new node at a location; one that is there already goes away. -/
def create (t : DirTree κ β) (k : κ) (b : β) : DirTree κ β where
  nodes := t.nodes.insert k ⟨t.next, b⟩
  next := t.next + 1
  fresh k' n h := by
    by_cases hk : k' = k
    · subst hk
      rw [AList.lookup_insert] at h
      obtain rfl := Option.some.inj h
      exact Nat.lt_succ_self _
    · rw [AList.lookup_insert_ne hk] at h
      exact Nat.lt_succ_of_lt (t.fresh k' n h)
  unique k₁ k₂ n₁ n₂ h₁ h₂ heq := by
    by_cases hk₁ : k₁ = k <;> by_cases hk₂ : k₂ = k
    · rw [hk₁, hk₂]
    · subst hk₁
      rw [AList.lookup_insert] at h₁
      rw [AList.lookup_insert_ne hk₂] at h₂
      obtain rfl := Option.some.inj h₁
      exact absurd heq.symm (Nat.ne_of_lt (t.fresh k₂ n₂ h₂))
    · subst hk₂
      rw [AList.lookup_insert] at h₂
      rw [AList.lookup_insert_ne hk₁] at h₁
      obtain rfl := Option.some.inj h₂
      exact absurd heq (Nat.ne_of_lt (t.fresh k₁ n₁ h₁))
    · rw [AList.lookup_insert_ne hk₁] at h₁
      rw [AList.lookup_insert_ne hk₂] at h₂
      exact t.unique k₁ k₂ n₁ n₂ h₁ h₂ heq

/-- The tree without the node at a location. -/
def remove (t : DirTree κ β) (k : κ) : DirTree κ β where
  nodes := t.nodes.erase k
  next := t.next
  fresh k' n h := by
    by_cases hk : k' = k
    · rw [hk, AList.lookup_erase] at h
      cases h
    · rw [AList.lookup_erase_ne hk] at h
      exact t.fresh k' n h
  unique k₁ k₂ n₁ n₂ h₁ h₂ := by
    have hk₁ : k₁ ≠ k := fun hk => by rw [hk, AList.lookup_erase] at h₁; cases h₁
    have hk₂ : k₂ ≠ k := fun hk => by rw [hk, AList.lookup_erase] at h₂; cases h₂
    rw [AList.lookup_erase_ne hk₁] at h₁
    rw [AList.lookup_erase_ne hk₂] at h₂
    exact t.unique k₁ k₂ n₁ n₂ h₁ h₂

/-- New attributes for the node at a location. -/
def modify (t : DirTree κ β) (k : κ) (f : β → β) : DirTree κ β :=
  match h : t.nodes.lookup k with
  | none => t
  | some n =>
    { nodes := t.nodes.insert k ⟨n.inode, f n.attr⟩
      next := t.next
      fresh := fun k' n' h' => by
        by_cases hk : k' = k
        · subst hk
          rw [AList.lookup_insert] at h'
          obtain rfl := Option.some.inj h'
          exact t.fresh k' n h
        · rw [AList.lookup_insert_ne hk] at h'
          exact t.fresh k' n' h'
      unique := fun k₁ k₂ n₁ n₂ h₁ h₂ heq => by
        have hold : ∀ k' n', (t.nodes.insert k ⟨n.inode, f n.attr⟩).lookup k' = some n' →
            ∃ n₀, t.nodes.lookup k' = some n₀ ∧ n₀.inode = n'.inode := by
          intro k' n' h'
          by_cases hk : k' = k
          · subst hk
            rw [AList.lookup_insert] at h'
            obtain rfl := Option.some.inj h'
            exact ⟨n, h, rfl⟩
          · rw [AList.lookup_insert_ne hk] at h'
            exact ⟨n', h', rfl⟩
        obtain ⟨m₁, hm₁, he₁⟩ := hold k₁ n₁ h₁
        obtain ⟨m₂, hm₂, he₂⟩ := hold k₂ n₂ h₂
        exact t.unique k₁ k₂ m₁ m₂ hm₁ hm₂ (he₁.trans (heq.trans he₂.symm)) }

/-- The node at `k` moves to `k'`; one that is there already goes away. -/
def move (t : DirTree κ β) (k k' : κ) : DirTree κ β :=
  match h : t.nodes.lookup k with
  | none => t
  | some n =>
    { nodes := (t.nodes.erase k).insert k' n
      next := t.next
      fresh := fun k₁ n₁ h₁ => by
        by_cases hk : k₁ = k'
        · subst hk
          rw [AList.lookup_insert] at h₁
          obtain rfl := Option.some.inj h₁
          exact t.fresh k _ h
        · rw [AList.lookup_insert_ne hk] at h₁
          exact (t.remove k).fresh k₁ n₁ h₁
      unique := fun k₁ k₂ n₁ n₂ h₁ h₂ heq => by
        have hleft : ∀ k₁ n₁, (t.nodes.erase k).lookup k₁ = some n₁ → n₁.inode ≠ n.inode := by
          intro k₁ n₁ h₁ heq
          by_cases hk : k₁ = k
          · rw [hk, AList.lookup_erase] at h₁
            cases h₁
          · rw [AList.lookup_erase_ne hk] at h₁
            exact hk (t.unique k₁ k n₁ n h₁ h heq)
        by_cases hk₁ : k₁ = k' <;> by_cases hk₂ : k₂ = k'
        · rw [hk₁, hk₂]
        · subst hk₁
          rw [AList.lookup_insert] at h₁
          rw [AList.lookup_insert_ne hk₂] at h₂
          obtain rfl := Option.some.inj h₁
          exact absurd heq.symm (hleft k₂ n₂ h₂)
        · subst hk₂
          rw [AList.lookup_insert] at h₂
          rw [AList.lookup_insert_ne hk₁] at h₁
          obtain rfl := Option.some.inj h₂
          exact absurd heq (hleft k₁ n₁ h₁)
        · rw [AList.lookup_insert_ne hk₁] at h₁
          rw [AList.lookup_insert_ne hk₂] at h₂
          exact (t.remove k).unique k₁ k₂ n₁ n₂ h₁ h₂ heq }

/-! ## What is found after an operation -/

variable {t : DirTree κ β} {k k' k₀ : κ} {n : DirNode β}

theorem mem_locs : k ∈ t.locs ↔ ∃ n, t.find k = some n := by
  rw [find, ← Option.isSome_iff_exists, AList.lookup_isSome]
  exact Iff.rfl

@[simp] theorem find_create_self (t : DirTree κ β) (k : κ) (b : β) :
    (t.create k b).find k = some ⟨t.next, b⟩ := AList.lookup_insert _

theorem find_create_ne (b : β) (h : k' ≠ k) : (t.create k b).find k' = t.find k' :=
  AList.lookup_insert_ne h

@[simp] theorem find_remove_self (t : DirTree κ β) (k : κ) : (t.remove k).find k = none :=
  AList.lookup_erase _ _

theorem find_remove_ne (h : k' ≠ k) : (t.remove k).find k' = t.find k' :=
  AList.lookup_erase_ne h

theorem find_move_none (h : t.find k = none) : t.move k k' = t := by
  unfold move
  split
  · rfl
  · rename_i heq
    rw [find, heq] at h
    cases h

theorem find_move_to (h : t.find k = some n) : (t.move k k').find k' = some n := by
  unfold move
  split
  · rename_i heq
    rw [find, heq] at h
    cases h
  · rename_i n' heq
    rw [find, heq] at h
    obtain rfl := Option.some.inj h
    exact AList.lookup_insert _

theorem find_move_from (hne : k ≠ k') : (t.move k k').find k = none := by
  unfold move
  split
  · assumption
  · exact (AList.lookup_insert_ne hne).trans (AList.lookup_erase _ _)

theorem find_move_ne (hk : k₀ ≠ k) (hk' : k₀ ≠ k') : (t.move k k').find k₀ = t.find k₀ := by
  unfold move
  split
  · rfl
  · exact (AList.lookup_insert_ne hk').trans (AList.lookup_erase_ne hk)

theorem find_modify_ne (f : β → β) (h : k' ≠ k) : (t.modify k f).find k' = t.find k' := by
  unfold modify
  split
  · rfl
  · exact AList.lookup_insert_ne h

theorem find_modify_self (f : β → β) :
    (t.modify k f).find k = (t.find k).map fun n => ⟨n.inode, f n.attr⟩ := by
  have hmap : ∀ o, t.nodes.lookup k = o →
      (t.find k).map (fun n => (⟨n.inode, f n.attr⟩ : DirNode β)) =
        o.map fun n => ⟨n.inode, f n.attr⟩ := fun o ho => congrArg _ ho
  unfold modify
  split
  · rename_i h
    exact h.trans (hmap _ h).symm
  · rename_i n h
    exact (AList.lookup_insert _).trans (hmap _ h).symm

/-- An identity is found at one location only. -/
theorem find_inj {n' : DirNode β} (h : t.find k = some n) (h' : t.find k' = some n')
    (heq : n.inode = n'.inode) : k = k' := t.unique k k' n n' h h' heq

/-- The location of an identity is where it is found. -/
theorem locate_eq_some (h : t.find k = some n) : t.locate n.inode = some k := by
  cases hloc : t.locate n.inode with
  | none =>
    have hno := List.find?_eq_none.mp hloc k (mem_locs.mpr ⟨n, h⟩)
    rw [h] at hno
    exact absurd (beq_self_eq_true n.inode) hno
  | some k' =>
    have hat := List.find?_some hloc
    obtain ⟨n', hn', hinode⟩ := (Option.any_eq_true _ _).mp hat
    exact congrArg some (find_inj hn' h (beq_iff_eq.mp hinode))

/-! ## Identities that are gone -/

/-- An identity that has been used and that no location has any more. -/
structure Gone (t : DirTree κ β) (i : ℕ) : Prop where
  /-- it is not one of the unused ones -/
  used : i < t.next
  /-- no location has it -/
  absent : ∀ k n, t.find k = some n → n.inode ≠ i

/-- A node whose location is emptied is gone. -/
theorem gone_remove (h : t.find k = some n) : (t.remove k).Gone n.inode := by
  refine ⟨t.fresh k n h, fun k' n' h' heq => ?_⟩
  by_cases hk : k' = k
  · rw [hk, find_remove_self] at h'
    cases h'
  · rw [find_remove_ne hk] at h'
    exact hk (find_inj h' h heq)

variable {i : ℕ}

theorem Gone.create (h : t.Gone i) (k : κ) (b : β) : (t.create k b).Gone i := by
  refine ⟨Nat.lt_succ_of_lt h.used, fun k' n' h' => ?_⟩
  by_cases hk : k' = k
  · rw [hk, find_create_self] at h'
    rw [← Option.some.inj h']
    exact Nat.ne_of_gt h.used
  · rw [find_create_ne b hk] at h'
    exact h.absent k' n' h'

theorem Gone.remove (h : t.Gone i) (k : κ) : (t.remove k).Gone i := by
  refine ⟨h.used, fun k' n' h' => ?_⟩
  by_cases hk : k' = k
  · rw [hk, find_remove_self] at h'
    cases h'
  · rw [find_remove_ne hk] at h'
    exact h.absent k' n' h'

theorem next_modify (t : DirTree κ β) (k : κ) (f : β → β) : (t.modify k f).next = t.next := by
  unfold modify
  split <;> rfl

theorem next_move (t : DirTree κ β) (k k' : κ) : (t.move k k').next = t.next := by
  unfold move
  split <;> rfl

theorem Gone.modify (h : t.Gone i) (k : κ) (f : β → β) : (t.modify k f).Gone i := by
  refine ⟨(next_modify t k f).symm ▸ h.used, fun k' n' h' => ?_⟩
  by_cases hk : k' = k
  · rw [hk, find_modify_self] at h'
    obtain ⟨n, hn, rfl⟩ := Option.map_eq_some_iff.mp h'
    exact h.absent k n hn
  · rw [find_modify_ne f hk] at h'
    exact h.absent k' n' h'

theorem Gone.move (h : t.Gone i) (k k' : κ) : (t.move k k').Gone i := by
  refine ⟨(next_move t k k').symm ▸ h.used, fun k₀ n₀ h₀ => ?_⟩
  cases hk : t.find k with
  | none =>
    rw [find_move_none hk] at h₀
    exact h.absent k₀ n₀ h₀
  | some n =>
    by_cases hto : k₀ = k'
    · rw [hto, find_move_to hk] at h₀
      rw [← Option.some.inj h₀]
      exact h.absent k n hk
    · by_cases hfrom : k₀ = k
      · rw [hfrom, find_move_from (fun heq => hto (hfrom.trans heq))] at h₀
        cases h₀
      · rw [find_move_ne hfrom hto] at h₀
        exact h.absent k₀ n₀ h₀

end DirTree
