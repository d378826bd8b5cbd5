import HpcWorkspace.InitialDistribution

/-!
# What a work-stealing queue still has to hand out

While the invariant of the queue holds, what was pushed into it and not handed out is a multiset of
values: the store of a `push` adds one, a `pop` that returns a value and each take of a thief takes
one off, and no other step of any party changes it. Seen like this the operations of the queue are
those of a bag, and each of them takes effect in one of its steps.
-/

namespace HpcWorkspace

universe u v

variable {α : Type u} {θ : Type v}

/-- The item of a `push` that was called and has not stored it. -/
def OwnerPc.toPush : OwnerPc α → Option α
  | .pushLoadBottom item | .pushLoadTop item _ | .pushStore item _ => some item
  | _ => none

/-- Is the owner in `pop`? -/
def OwnerPc.InPop : OwnerPc α → Prop
  | .popLoadBottom | .popStoreBottom _ | .popLoadTop _ | .popCas _ | .popRestore _ | .popKeep _
  | .popTake _ => True
  | _ => False

/-- A thief in `steal(out, max)` that has moved out `count` items so far. -/
def ThiefPc.Stealing (max : BitVec 64) (count : ℕ) : ThiefPc → Prop
  | .idle => False
  | .loadTop max? | .loadBottom max? _ => max? = some max ∧ count = 0
  | .cas _ n => n ≤ max.toInt ∧ count = 0
  | .take _ n k => n ≤ max.toInt ∧ k = count

namespace QueueState

/-- The values that were pushed and not handed out. -/
def outstanding (q : QueueState α θ) : List α := Ledger.outstanding q.pushed q.returned

/-- The value in the slot of a position. -/
def valueAt (c : Capacity) (q : QueueState α θ) (b : ℤ) : Option α :=
  (q.slots (slotIndex c b)).bind fun item => q.pushed[item]?

variable {c : Capacity} {q q' : QueueState α θ}

/-- **What is moved out** is the value of an item that was outstanding. -/
theorem QueueInv.outstanding_moveOut (h : QueueInv c q) {b : ℤ} (hb : b ∈ q.active) :
    ∃ value, q.valueAt c b = some value ∧
      (q.outstanding : Multiset α) = value ::ₘ ((q.moveOut c b).outstanding : Multiset α) := by
  obtain ⟨k, value, hslot, hvalue, houtstanding⟩ := h.ledger.outstanding_take hb
  refine ⟨value, ?_, houtstanding⟩
  rw [valueAt, hslot]
  exact hvalue

/-! ## Steps of the owner -/

/-- **Steps of `push`.** Before it has stored its item, a step leaves what is outstanding as it is
or adds the item. -/
theorem QueueInv.push_step (h : QueueInv c q) {item : α} (hpush : q.owner.toPush = some item)
    (hs : q.ownerStep c = some q') : q'.thieves = q.thieves ∧
      ((q'.owner.toPush = some item ∧ q'.outstanding = q.outstanding) ∨
        (∃ b, q'.owner = .pushPublish b) ∧
          (q'.outstanding : Multiset α) = item ::ₘ (q.outstanding : Multiset α)) := by
  cases ownerStep_cases h.ownerOk hs with
  | pushLoadBottom ho | pushFull ho | pushRoom ho =>
    rw [ho] at hpush
    exact ⟨rfl, Or.inl ⟨hpush, rfl⟩⟩
  | pushStore ho =>
    rw [ho] at hpush
    obtain rfl := Option.some.inj hpush
    refine ⟨rfl, Or.inr ⟨⟨_, rfl⟩, ?_⟩⟩
    rw [outstanding, h.ledger.outstanding_put, ← Multiset.coe_add, Multiset.coe_singleton, add_comm,
      Multiset.singleton_add, outstanding]
  | pushPublish ho | popLoadBottom ho | popStoreBottom ho | popEmpty ho | popLast ho | popMore ho
  | popWon ho | popLost ho | popRestore ho | popKeep ho | popTake ho =>
    rw [ho] at hpush
    cases hpush

/-- The last step of `push`. -/
theorem publish_step {b : ℤ} (ho : q.owner = .pushPublish b) (hs : q.ownerStep c = some q') :
    q'.thieves = q.thieves ∧ q'.owner = .idle ∧ q'.outstanding = q.outstanding := by
  rw [ownerStep, ho] at hs
  obtain rfl := Option.some.inj hs
  exact ⟨rfl, rfl, rfl⟩

/-- **Steps of `pop`.** It goes on, returns nothing, or returns a value that was outstanding. -/
theorem QueueInv.pop_step (h : QueueInv c q) (hpop : q.owner.InPop)
    (hs : q.ownerStep c = some q') : q'.thieves = q.thieves ∧
      ((q'.owner.InPop ∧ (∀ b, q.owner ≠ .popRestore b) ∧ (∀ b, q.owner ≠ .popTake b) ∧
          q'.outstanding = q.outstanding) ∨
        (∃ b, q.owner = .popRestore b ∧ q'.owner = .idle ∧ q'.outstanding = q.outstanding) ∨
        ∃ b value, q.owner = .popTake b ∧ q'.owner = .idle ∧ q.valueAt c b = some value ∧
          (q.outstanding : Multiset α) = value ::ₘ (q'.outstanding : Multiset α)) := by
  cases ownerStep_cases h.ownerOk hs with
  | popLoadBottom ho | popStoreBottom ho | popEmpty ho | popLast ho | popMore ho | popWon ho
  | popLost ho | popKeep ho =>
    refine ⟨rfl, Or.inl ⟨trivial, ?_, ?_, rfl⟩⟩
    · rw [ho]
      exact fun _ heq => by cases heq
    · rw [ho]
      exact fun _ heq => by cases heq
  | popRestore ho => exact ⟨rfl, Or.inr (Or.inl ⟨_, ho, rfl, rfl⟩)⟩
  | popTake ho =>
    have hactive : _ ∈ q.active := Or.inr (Or.inl (by rw [ho]; exact rfl))
    obtain ⟨value, hvalue, houtstanding⟩ := h.outstanding_moveOut hactive
    exact ⟨rfl, Or.inr (Or.inr ⟨_, value, ho, rfl, hvalue, houtstanding⟩)⟩
  | pushLoadBottom ho | pushFull ho | pushRoom ho | pushStore ho | pushPublish ho =>
    rw [ho] at hpop
    exact hpop.elim

/-! ## Steps of a thief -/

theorem claimCount_le (max : BitVec 64) (t b : ℤ) : claimCount (some max) t b ≤ max.toInt := by
  dsimp only [claimCount]
  split <;> omega

variable [DecidableEq θ]

/-- **Steps of `steal(out, max)`.** It goes on, returns nothing, or moves out a value that was
outstanding, and then goes on or returns; it never moves out more than `max`. -/
theorem QueueInv.steal_step (h : QueueInv c q) {i : θ} {max : BitVec 64} {count : ℕ}
    (hstealing : (q.thieves i).Stealing max count) (hs : q.thiefStep c i = some q') :
    q'.owner = q.owner ∧ (∀ j, j ≠ i → q'.thieves j = q.thieves j) ∧
      (((∀ t n k, q.thieves i ≠ .take t n k) ∧ count = 0 ∧ q'.outstanding = q.outstanding ∧
          (q'.thieves i = .idle ∨ (q'.thieves i).Stealing max count)) ∨
        ∃ t n k value, q.thieves i = .take t n k ∧ q.valueAt c (t + k) = some value ∧
          (q.outstanding : Multiset α) = value ::ₘ (q'.outstanding : Multiset α) ∧
          ((count + 1 : ℕ) : ℤ) ≤ max.toInt ∧
          (q'.thieves i = .idle ∨ (q'.thieves i).Stealing max (count + 1))) := by
  cases thiefStep_cases hs with
  | loadTop hi =>
    rw [hi] at hstealing ⊢
    refine ⟨rfl, fun j hj => setThief_ne q _ hj,
      Or.inl ⟨by rintro t n k ⟨⟩, hstealing.2, rfl, ?_⟩⟩
    rw [setThief_self]
    exact Or.inr hstealing
  | claim hi hlt =>
    rw [hi] at hstealing ⊢
    obtain ⟨rfl, hcount⟩ := hstealing
    refine ⟨rfl, fun j hj => setThief_ne q _ hj, Or.inl ⟨by rintro t n k ⟨⟩, hcount, rfl, ?_⟩⟩
    rw [setThief_self]
    exact Or.inr ⟨claimCount_le max _ _, hcount⟩
  | @failed pc hi hpc =>
    rw [hi] at hstealing ⊢
    have hcount : count = 0 := by
      rcases hpc with ⟨max?, t, rfl⟩ | ⟨t, n, rfl⟩
      · exact hstealing.2
      · exact hstealing.2
    have hno : ∀ t n k, pc ≠ .take t n k := by
      rintro t n k rfl
      rcases hpc with ⟨max?, t', heq⟩ | ⟨t', n', heq⟩ <;> cases heq
    refine ⟨rfl, fun j hj => setThief_ne q _ hj, Or.inl ⟨hno, hcount, rfl, Or.inl ?_⟩⟩
    rw [setThief_self]
  | @won n hi =>
    rw [hi] at hstealing ⊢
    obtain ⟨hn, hcount⟩ := hstealing
    refine ⟨rfl, fun j hj => setThief_ne _ _ hj, Or.inl ⟨by rintro t n k ⟨⟩, hcount, rfl, ?_⟩⟩
    rw [setThief_self]
    split
    · exact Or.inr ⟨hn, by rw [hcount]; rfl⟩
    · exact Or.inl rfl
  | @take t n k hi =>
    have hok := h.thiefOk i
    rw [hi] at hok hstealing
    obtain ⟨hn, rfl⟩ := hstealing
    have hmine : t + count ∈ (q.thieves i).held := by
      rw [hi]
      exact Set.mem_Ico.mpr ⟨le_refl _, by have := hok.2.1; omega⟩
    have hactive : t + (count : ℤ) ∈ q.active := Or.inr (Or.inr ⟨i, hmine⟩)
    obtain ⟨value, hvalue, houtstanding⟩ := h.outstanding_moveOut hactive
    refine ⟨rfl, fun j hj => setThief_ne _ _ hj,
      Or.inr ⟨t, n, count, value, hi, hvalue, houtstanding, ?_, ?_⟩⟩
    · have hlt := hok.2.1
      push_cast
      omega
    · rw [setThief_self]
      split
      · exact Or.inr ⟨hn, by push_cast; rfl⟩
      · exact Or.inl rfl

/-! ## A queue that was filled -/

omit [DecidableEq θ] in
theorem outstanding_filled (l : List α) : (filled l : QueueState α θ).outstanding = l :=
  Ledger.outstanding_nil l

omit [DecidableEq θ] in
/-- A queue that was filled within its capacity is one without any operation. -/
theorem queueInv_filled {l : List α} (hl : l.length ≤ c.val) :
    QueueInv c (filled l : QueueState α θ) := by
  have hactive : ∀ p, p ∈ (filled l : QueueState α θ).active ↔ 0 ≤ p ∧ p < l.length := by
    intro p
    refine ⟨?_, Or.inl⟩
    rintro (hin | hp | ⟨i, hp⟩)
    · exact hin
    · exact absurd hp (Set.notMem_empty p)
    · exact absurd hp (Set.notMem_empty p)
  have hslot : ∀ p, p ∈ (filled l : QueueState α θ).active →
      (filled l : QueueState α θ).slots (slotIndex c p) = some p.toNat := by
    intro p hp
    obtain ⟨hle, hlt⟩ := (hactive p).mp hp
    have hindex : slotIndex c p = p.toNat := by
      rw [← Int.toNat_of_nonneg hle, slotIndex_natCast (by omega), Int.toNat_natCast]
    rw [hindex]
    exact if_pos (by omega)
  refine ⟨⟨?_, ?_, ?_, List.nodup_nil, ?_, ?_⟩, ?_, trivial, fun _ => trivial, ?_, ?_⟩
  · intro p hp
    obtain ⟨hle, hlt⟩ := (hactive p).mp hp
    exact ⟨p.toNat, show p.toNat < l.length by omega, hslot p hp⟩
  · intro p hp p' hp' heq
    rw [hslot p hp, hslot p' hp'] at heq
    have hle := ((hactive p).mp hp).1
    have hle' := ((hactive p').mp hp').1
    have := Option.some.inj heq
    omega
  · exact fun _ hr => absurd hr List.not_mem_nil
  · exact fun _ _ => List.not_mem_nil
  · intro k hk
    have hp : (k : ℤ) ∈ (filled l : QueueState α θ).active :=
      (hactive k).mpr ⟨Int.natCast_nonneg k, Int.ofNat_lt.mpr hk⟩
    exact Or.inr ⟨k, hp, hslot k hp⟩
  · exact Int.natCast_nonneg _
  · exact fun _ _ p hp => absurd hp (Set.notMem_empty p)
  · exact fun _ p hp => absurd hp (Set.notMem_empty p)

end QueueState

end HpcWorkspace
