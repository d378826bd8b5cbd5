import Mathlib.Algebra.Order.Ring.Int
import Mathlib.Data.Fintype.Basic
import Mathlib.Data.Int.ConditionallyCompleteOrder
import Mathlib.Data.Int.Range
import Mathlib.Tactic.NormNum
import HpcWorkspace.Lib.Ledger
import HpcWorkspace.WorkQueue

/-!
# The work-stealing queue hands out each item exactly once

The positions that still hold an item are those between `top_` and the *logical* bottom (the
owner lowers `bottom_` before it has decided whether it may take the last position), the one the
owner is about to move, and those that thieves have claimed and not yet moved. `QueueInv` says
that the ledger of the items is accounted over these positions.

Two steps break it, and only they do: a CAS of `steal(out, max)` that claims positions which the
owner has popped without a CAS since the thief read `bottom_`, and a store of `push` into a slot
that a thief has claimed and not yet emptied. `StepSafe` excludes the two.
-/

namespace HpcWorkspace

universe u v

variable {α : Type u} {θ : Type v}

/-! ## Slots -/

theorem Capacity.val_pos (c : Capacity) : 0 < c.val := Nat.two_pow_pos _

theorem Capacity.val_lt (c : Capacity) : c.val < 2 ^ 64 :=
  Nat.pow_lt_pow_right (by decide) c.log_lt

theorem slotIndex_eq_emod (c : Capacity) (b : ℤ) :
    slotIndex c b = (b % (c.val : ℤ)).toNat := by
  have hdvd : ((2 ^ c.log : ℕ) : ℤ) ∣ 2 ^ 64 := by
    exact_mod_cast pow_dvd_pow 2 c.log_lt.le
  have hpos : (0 : ℤ) ≤ b % 2 ^ 64 := Int.emod_nonneg _ (by norm_num)
  have hcast : (((b % 2 ^ 64).toNat % 2 ^ c.log : ℕ) : ℤ) = b % ((2 ^ c.log : ℕ) : ℤ) := by
    rw [Int.natCast_emod, Int.toNat_of_nonneg hpos, Int.emod_emod_of_dvd b hdvd]
  rw [slotIndex, sizeT, Capacity.val, Nat.and_two_pow_sub_one_eq_mod, ← hcast,
    Int.toNat_natCast]

/-- Positions less than one capacity apart use different slots. -/
theorem slotIndex_ne (c : Capacity) {p q : ℤ} (hlt : p < q) (hd : q - p < c.val) :
    slotIndex c p ≠ slotIndex c q := by
  intro heq
  rw [slotIndex_eq_emod, slotIndex_eq_emod] at heq
  have hc : (0 : ℤ) < c.val := by exact_mod_cast c.val_pos
  have hp := Int.emod_nonneg p hc.ne'
  have hq := Int.emod_nonneg q hc.ne'
  have hmod : (q - p) % (c.val : ℤ) = 0 := by
    rw [Int.sub_emod, show q % (c.val : ℤ) = p % (c.val : ℤ) by omega, sub_self, Int.zero_emod]
  rw [Int.emod_eq_of_lt (by omega) hd] at hmod
  omega

/-- A distance inside the ring survives the conversion to `size_t`. -/
theorem sizeT_of_le {c : Capacity} {z : ℤ} (h0 : 0 ≤ z) (hle : z ≤ c.val) :
    (sizeT z : ℤ) = z := by
  have hlt : (c.val : ℤ) < 2 ^ 64 := by exact_mod_cast c.val_lt
  rw [sizeT, Int.emod_eq_of_lt h0 (by omega), Int.toNat_of_nonneg h0]

theorem Capacity.limit_le (c : Capacity) : c.limit ≤ c.val := Nat.sub_le _ _

/-! ## The positions that hold an item -/

/-- The position whose item is in the owner's hands. -/
def OwnerPc.held : OwnerPc α → Set ℤ
  | .pushPublish b | .popKeep b | .popTake b => {b}
  | _ => ∅

/-- The positions a thief has claimed and not yet moved out. -/
def ThiefPc.held : ThiefPc → Set ℤ
  | .take t n k => Set.Ico (t + k) (t + n)
  | _ => ∅

/-- What the owner knows about the counters at each point. -/
def OwnerPc.Ok (c : Capacity) (bottom top : ℤ) : OwnerPc α → Prop
  | .idle | .pushLoadBottom _ | .popLoadBottom => True
  | .pushLoadTop _ b | .pushPublish b | .popLoadTop b => b = bottom
  | .pushStore _ b => b = bottom ∧ b - top < c.val
  | .popStoreBottom b => b = bottom - 1
  | .popCas b => b = bottom ∧ b ≤ top
  | .popRestore b | .popKeep b => b = bottom ∧ top = b + 1
  | .popTake b => (b = bottom ∧ top ≤ b) ∨ (b + 1 = bottom ∧ top = b + 1)

/-- What a thief knows about `top_` and the logical bottom at each point. -/
def ThiefPc.Ok (top reach : ℤ) : ThiefPc → Prop
  | .idle | .loadTop _ => True
  | .loadBottom _ t => t ≤ top
  | .cas t _ => t ≤ top ∧ (top = t → t < reach)
  | .take t n k => 0 ≤ k ∧ k < n ∧ t + n ≤ top

/-- What a thief has claimed lies below `top_`. -/
theorem ThiefPc.Ok.held_lt {top reach : ℤ} {pc : ThiefPc} (h : pc.Ok top reach) {p : ℤ}
    (hp : p ∈ pc.held) : p < top := by
  cases pc with
  | take t n k =>
    obtain ⟨-, -, hle⟩ := h
    have := (Set.mem_Ico.mp hp).2
    omega
  | idle | loadTop | loadBottom | cas => exact absurd hp (Set.notMem_empty p)

/-- A thief's knowledge survives when `top_` stays and the queue keeps what it has, or loses
only its last position while another one remains. -/
theorem ThiefPc.Ok.mono {top reach reach' : ℤ} {pc : ThiefPc} (h : pc.Ok top reach)
    (hr : reach ≤ reach' ∨ top < reach') : pc.Ok top reach' := by
  cases pc with
  | cas t n => exact ⟨h.1, fun heq => by have := h.2 heq; omega⟩
  | idle | loadTop | loadBottom | take => exact h

/-- A thief's knowledge survives when another party moves `top_` up. -/
theorem ThiefPc.Ok.raise {top top' reach reach' : ℤ} {pc : ThiefPc} (h : pc.Ok top reach)
    (ht : top < top') : pc.Ok top' reach' := by
  cases pc with
  | cas t n => exact ⟨by have := h.1; omega, fun heq => by have := h.1; omega⟩
  | take t n k => exact ⟨h.1, h.2.1, by have := h.2.2; omega⟩
  | loadBottom m t => exact le_trans h ht.le
  | idle | loadTop => trivial

namespace QueueState

/-- Where the queue ends logically: while `pop` has lowered `bottom_` but not decided, the
position it may give back still belongs to the queue. -/
def logicalBottom (s : QueueState α θ) : ℤ :=
  match s.owner with
  | .popLoadTop _ | .popCas _ | .popRestore _ | .popKeep _ => s.bottom + 1
  | _ => s.bottom

/-- The positions that hold an item: those in the queue, the one in the owner's hands and those
in the hands of a thief. -/
def active (s : QueueState α θ) : Set ℤ :=
  {p | (s.top ≤ p ∧ p < s.logicalBottom) ∨ p ∈ s.owner.held ∨ ∃ i, p ∈ (s.thieves i).held}

/-- The steps under which the queue is correct: a CAS claims only positions that are still in
the queue, and `push` does not store into a slot that a thief has yet to empty. -/
def StepSafe (c : Capacity) (s : QueueState α θ) : QueueAct α θ → Prop
  | .thief i =>
    match s.thieves i with
    | .cas t n => s.top = t → 0 ≤ n ∧ t + n ≤ s.logicalBottom
    | _ => True
  | .owner =>
    match s.owner with
    | .pushStore _ b => ∀ i, ∀ p ∈ (s.thieves i).held, slotIndex c p ≠ slotIndex c b
    | _ => True
  | _ => True

instance (pc : ThiefPc) (P : ℤ → Prop) [DecidablePred P] : Decidable (∀ p ∈ pc.held, P p) :=
  match pc with
  | .take t n k =>
    have hheld : (∀ p, t + k ≤ p → p < t + n → P p) ↔ ∀ p ∈ (ThiefPc.take t n k).held, P p :=
      ⟨fun h p hp => h p hp.1 hp.2, fun h p hle hlt => h p ⟨hle, hlt⟩⟩
    @decidable_of_iff _ _ hheld (Int.decidableLELT P _ _)
  | .idle | .loadTop _ | .loadBottom _ _ | .cas _ _ => isTrue fun _ hp => hp.elim

instance [Fintype θ] (c : Capacity) (s : QueueState α θ) (a : QueueAct α θ) :
    Decidable (s.StepSafe c a) :=
  match a with
  | .thief i =>
    match h : s.thieves i with
    | .cas t n => decidable_of_iff (s.top = t → 0 ≤ n ∧ t + n ≤ s.logicalBottom)
      (by rw [StepSafe, h])
    | .idle | .loadTop _ | .loadBottom _ _ | .take _ _ _ => isTrue (by rw [StepSafe, h]; trivial)
  | .owner =>
    match h : s.owner with
    | .pushStore _ b =>
      decidable_of_iff (∀ i, ∀ p ∈ (s.thieves i).held, slotIndex c p ≠ slotIndex c b)
        (by rw [StepSafe, h])
    | .idle | .pushLoadBottom _ | .pushLoadTop _ _ | .pushPublish _ | .popLoadBottom
    | .popStoreBottom _ | .popLoadTop _ | .popCas _ | .popRestore _ | .popKeep _ | .popTake _ =>
      isTrue (by rw [StepSafe, h]; trivial)
  | .push _ | .pop | .steal _ | .stealBatch _ _ => isTrue trivial

/-! ## The invariant -/

/-- The invariant of the queue. -/
structure QueueInv (c : Capacity) (s : QueueState α θ) : Prop where
  /-- every item lies at one active position or was handed out -/
  ledger : Ledger.Accounted (slotIndex c) s.active s.slots s.pushed.length s.returned
  /-- the queue does not end before it starts -/
  top_le : s.top ≤ s.logicalBottom
  /-- the owner's local knowledge -/
  ownerOk : s.owner.Ok c s.bottom s.top
  /-- the thieves' local knowledge -/
  thiefOk : ∀ i, (s.thieves i).Ok s.top s.logicalBottom
  /-- no two thieves claim one position -/
  claims : ∀ i j p, p ∈ (s.thieves i).held → p ∈ (s.thieves j).held → i = j
  /-- no thief claims what the owner holds -/
  apart : ∀ i, ∀ p ∈ (s.thieves i).held, p ∉ s.owner.held

theorem queueInv_init (c : Capacity) : QueueInv c (init : QueueState α θ) where
  ledger := by
    have hempty : (init : QueueState α θ).active = ∅ := by
      refine Set.eq_empty_of_forall_notMem ?_
      rintro p (⟨hle, hlt⟩ | hp | ⟨i, hp⟩)
      · exact absurd hlt (not_lt.mpr hle)
      · exact hp
      · exact hp
    rw [hempty]
    exact Ledger.Accounted.empty _
  top_le := le_refl _
  ownerOk := trivial
  thiefOk _ := trivial
  claims _ _ p hp := absurd hp (Set.notMem_empty p)
  apart _ p hp := absurd hp (Set.notMem_empty p)

variable {c : Capacity} {s : QueueState α θ}

/-- The active positions never span more than the ring. -/
theorem QueueInv.span_le (h : QueueInv c s) : s.logicalBottom - s.top ≤ c.val := by
  by_contra hlt
  have hc : 0 < c.val := c.val_pos
  have hp : s.top ∈ s.active := Or.inl ⟨le_refl _, by omega⟩
  have hq : s.top + c.val ∈ s.active := Or.inl ⟨by omega, by omega⟩
  have hslot : slotIndex c s.top = slotIndex c (s.top + c.val) := by
    rw [slotIndex_eq_emod, slotIndex_eq_emod, Int.add_emod_right]
  have := h.ledger.distinct _ hp _ hq (congrArg s.slots hslot)
  omega

/-! ## Exactly once -/

/-- Nobody is in an operation. -/
def Quiescent (s : QueueState α θ) : Prop :=
  s.owner = .idle ∧ ∀ i, s.thieves i = .idle

/-- What the queue promises: every pushed item either still lies in its slot, at one active
position, or was handed out once. -/
structure ExactlyOnce (c : Capacity) (s : QueueState α θ) : Prop where
  /-- every value handed out is a pushed item, never a moved-from one -/
  genuine : ∀ r ∈ s.returned, ∃ k < s.pushed.length, r = some k
  /-- no item is handed out twice -/
  once : s.returned.Nodup
  /-- an item was handed out, or it lies untouched in the slot of an active position -/
  conserved : ∀ k < s.pushed.length,
    some k ∉ s.returned ↔ ∃ p ∈ s.active, s.slots (slotIndex c p) = some k
  /-- no two active positions share a slot -/
  separate : ∀ p ∈ s.active, ∀ q ∈ s.active, slotIndex c p = slotIndex c q → p = q
  /-- between operations `top_` does not exceed `bottom_`, and what was not handed out lies
  between the two -/
  between : s.Quiescent → s.top ≤ s.bottom ∧ ∀ k < s.pushed.length,
    some k ∉ s.returned ↔ ∃ p, s.top ≤ p ∧ p < s.bottom ∧ s.slots (slotIndex c p) = some k

theorem Quiescent.logicalBottom_eq (hq : s.Quiescent) : s.logicalBottom = s.bottom := by
  rw [logicalBottom, hq.1]

theorem Quiescent.mem_active (hq : s.Quiescent) {p : ℤ} :
    p ∈ s.active ↔ s.top ≤ p ∧ p < s.bottom := by
  rw [← hq.logicalBottom_eq]
  refine ⟨?_, Or.inl⟩
  rintro (hin | hp | ⟨i, hp⟩)
  · exact hin
  · rw [hq.1] at hp
    exact absurd hp (Set.notMem_empty p)
  · rw [hq.2 i] at hp
    exact absurd hp (Set.notMem_empty p)

/-- The invariant gives the promise. -/
theorem QueueInv.exactlyOnce (h : QueueInv c s) : ExactlyOnce c s := by
  have hconserved : ∀ k < s.pushed.length,
      some k ∉ s.returned ↔ ∃ p ∈ s.active, s.slots (slotIndex c p) = some k := by
    intro k hk
    constructor
    · exact (h.ledger.complete k hk).resolve_left
    · rintro ⟨p, hp, hslot⟩
      rw [← hslot]
      exact h.ledger.kept p hp
  refine ⟨h.ledger.genuine, h.ledger.nodup, hconserved, ?_, fun hq => ⟨?_, fun k hk => ?_⟩⟩
  · exact fun p hp q hq heq => h.ledger.distinct p hp q hq (congrArg s.slots heq)
  · exact hq.logicalBottom_eq ▸ h.top_le
  · rw [hconserved k hk]
    exact exists_congr fun p => by rw [hq.mem_active, and_assoc]

/-! ## What the steps do -/

/-- The steps of an owner that knows the counters. -/
inductive OwnerStep (c : Capacity) (s : QueueState α θ) : QueueState α θ → Prop where
  | pushLoadBottom {item : α} (ho : s.owner = .pushLoadBottom item) :
    OwnerStep c s { s with owner := .pushLoadTop item s.bottom }
  /-- the queue is nearly full: `push` starts again -/
  | pushFull {item : α} (ho : s.owner = .pushLoadTop item s.bottom)
      (hfull : c.limit ≤ sizeT (s.bottom - s.top)) :
    OwnerStep c s { s with owner := .pushLoadBottom item }
  | pushRoom {item : α} (ho : s.owner = .pushLoadTop item s.bottom)
      (hroom : sizeT (s.bottom - s.top) < c.limit) :
    OwnerStep c s { s with owner := .pushStore item s.bottom }
  | pushStore {item : α} (ho : s.owner = .pushStore item s.bottom) :
    OwnerStep c s { s with
      slots := Function.update s.slots (slotIndex c s.bottom) (some s.pushed.length)
      pushed := s.pushed ++ [item]
      owner := .pushPublish s.bottom }
  | pushPublish (ho : s.owner = .pushPublish s.bottom) :
    OwnerStep c s { s with bottom := s.bottom + 1, owner := .idle }
  | popLoadBottom (ho : s.owner = .popLoadBottom) :
    OwnerStep c s { s with owner := .popStoreBottom (s.bottom - 1) }
  | popStoreBottom (ho : s.owner = .popStoreBottom (s.bottom - 1)) :
    OwnerStep c s { s with bottom := s.bottom - 1, owner := .popLoadTop (s.bottom - 1) }
  /-- nothing is left -/
  | popEmpty (ho : s.owner = .popLoadTop s.bottom) (htop : s.bottom < s.top) :
    OwnerStep c s { s with owner := .popRestore s.bottom }
  /-- the last item: decided by the CAS -/
  | popLast (ho : s.owner = .popLoadTop s.bottom) (htop : s.top = s.bottom) :
    OwnerStep c s { s with owner := .popCas s.bottom }
  /-- more than one item: the last one is the owner's without a CAS -/
  | popMore (ho : s.owner = .popLoadTop s.bottom) (htop : s.top < s.bottom) :
    OwnerStep c s { s with owner := .popTake s.bottom }
  | popWon (ho : s.owner = .popCas s.bottom) (htop : s.top = s.bottom) :
    OwnerStep c s { s with top := s.bottom + 1, owner := .popKeep s.bottom }
  | popLost (ho : s.owner = .popCas s.bottom) (htop : s.bottom < s.top) :
    OwnerStep c s { s with owner := .popRestore s.bottom }
  | popRestore (ho : s.owner = .popRestore s.bottom) (htop : s.top = s.bottom + 1) :
    OwnerStep c s { s with bottom := s.bottom + 1, owner := .idle }
  | popKeep (ho : s.owner = .popKeep s.bottom) (htop : s.top = s.bottom + 1) :
    OwnerStep c s { s with bottom := s.bottom + 1, owner := .popTake s.bottom }
  | popTake {b : ℤ} (ho : s.owner = .popTake b) :
    OwnerStep c s { s.moveOut c b with owner := .idle }

/-- **Inversion** for the owner's step. -/
theorem ownerStep_cases (hok : s.owner.Ok c s.bottom s.top) {s' : QueueState α θ}
    (hs : s.ownerStep c = some s') : OwnerStep c s s' := by
  rw [ownerStep] at hs
  cases ho : s.owner with
  | idle =>
    rw [ho] at hs
    cases hs
  | pushLoadBottom item =>
    rw [ho] at hs
    cases hs
    exact .pushLoadBottom ho
  | pushLoadTop item b =>
    rw [ho] at hs hok
    obtain rfl : b = s.bottom := hok
    dsimp only at hs
    split at hs
    · rename_i hfull
      cases hs
      exact .pushFull ho hfull
    · rename_i hroom
      cases hs
      exact .pushRoom ho (Nat.lt_of_not_le hroom)
  | pushStore item b =>
    rw [ho] at hs hok
    obtain ⟨rfl, -⟩ := hok
    cases hs
    exact .pushStore ho
  | pushPublish b =>
    rw [ho] at hs hok
    obtain rfl : b = s.bottom := hok
    cases hs
    exact .pushPublish ho
  | popLoadBottom =>
    rw [ho] at hs
    cases hs
    exact .popLoadBottom ho
  | popStoreBottom b =>
    rw [ho] at hs hok
    obtain rfl : b = s.bottom - 1 := hok
    cases hs
    exact .popStoreBottom ho
  | popLoadTop b =>
    rw [ho] at hs hok
    obtain rfl : b = s.bottom := hok
    dsimp only at hs
    split at hs
    · rename_i htop
      cases hs
      exact .popEmpty ho htop
    · split at hs
      · rename_i htop
        cases hs
        exact .popLast ho htop
      · cases hs
        exact .popMore ho (by omega)
  | popCas b =>
    rw [ho] at hs hok
    obtain ⟨rfl, hle⟩ := hok
    dsimp only at hs
    split at hs
    · rename_i htop
      cases hs
      exact .popWon ho htop
    · cases hs
      exact .popLost ho (by omega)
  | popRestore b =>
    rw [ho] at hs hok
    obtain ⟨rfl, htop⟩ := hok
    cases hs
    exact .popRestore ho htop
  | popKeep b =>
    rw [ho] at hs hok
    obtain ⟨rfl, htop⟩ := hok
    cases hs
    exact .popKeep ho htop
  | popTake b =>
    rw [ho] at hs
    cases hs
    exact .popTake ho

/-- The steps of a thief. -/
inductive ThiefStep [DecidableEq θ] (c : Capacity) (s : QueueState α θ) (i : θ) :
    QueueState α θ → Prop where
  | loadTop {max? : Option (BitVec 64)} (hi : s.thieves i = .loadTop max?) :
    ThiefStep c s i (s.setThief i (.loadBottom max? s.top))
  | claim {max? : Option (BitVec 64)} {t : ℤ} (hi : s.thieves i = .loadBottom max? t)
      (hlt : t < s.bottom) :
    ThiefStep c s i (s.setThief i (.cas t (claimCount max? t s.bottom)))
  /-- it saw nothing to steal, or another one was first -/
  | failed {pc : ThiefPc} (hi : s.thieves i = pc)
      (hpc : (∃ max? t, pc = .loadBottom max? t) ∨ ∃ t n, pc = .cas t n) :
    ThiefStep c s i (s.setThief i .idle)
  /-- the CAS succeeds: the claimed positions leave the queue for the thief's hands -/
  | won {n : ℤ} (hi : s.thieves i = .cas s.top n) :
    ThiefStep c s i
      ({ s with top := s.top + n }.setThief i (if 0 < n then .take s.top n 0 else .idle))
  | take {t n k : ℤ} (hi : s.thieves i = .take t n k) :
    ThiefStep c s i
      ((s.moveOut c (t + k)).setThief i (if k + 1 < n then .take t n (k + 1) else .idle))

/-- **Inversion** for a thief's step. -/
theorem thiefStep_cases [DecidableEq θ] {i : θ} {s' : QueueState α θ}
    (hs : s.thiefStep c i = some s') : ThiefStep c s i s' := by
  rw [thiefStep] at hs
  cases hi : s.thieves i with
  | idle =>
    rw [hi] at hs
    cases hs
  | loadTop max? =>
    rw [hi] at hs
    cases hs
    exact .loadTop hi
  | loadBottom max? t =>
    rw [hi] at hs
    dsimp only at hs
    split at hs
    · rename_i hlt
      cases hs
      exact .claim hi hlt
    · cases hs
      exact .failed hi (Or.inl ⟨max?, t, rfl⟩)
  | cas t n =>
    rw [hi] at hs
    dsimp only at hs
    split at hs
    · rename_i htop
      cases hs
      subst htop
      exact .won hi
    · cases hs
      exact .failed hi (Or.inr ⟨t, n, rfl⟩)
  | take t n k =>
    rw [hi] at hs
    cases hs
    exact .take hi

/-! ## Steps of the owner -/

/-- The owner's step keeps the invariant when it moves no item: it sets the counters and its
program point, keeps the set of active positions and what the thieves rely on. -/
theorem QueueInv.ownerQuiet (h : QueueInv c s) (r' : ℤ) {b' t' r : ℤ} {pc : OwnerPc α}
    {s' : QueueState α θ} (hs' : s' = { s with bottom := b', top := t', owner := pc })
    (hr : s.logicalBottom = r) (hr' : s'.logicalBottom = r') (hle : t' ≤ r')
    (hfront : ∀ p, (t' ≤ p ∧ p < r') ∨ p ∈ pc.held ↔ (s.top ≤ p ∧ p < r) ∨ p ∈ s.owner.held)
    (hok : pc.Ok c b' t') (hthief : ∀ i, (s.thieves i).Ok t' r')
    (hapart : ∀ i, ∀ p ∈ (s.thieves i).held, p ∉ pc.held) : QueueInv c s' := by
  have hactive : s'.active = s.active := by
    ext p
    have := hfront p
    simp only [active, Set.mem_ofPred_eq, hr, hr', ← or_assoc]
    rw [hs', hfront p]
  subst hs'
  refine ⟨?_, hr' ▸ hle, hok, fun i => hr' ▸ hthief i, h.claims, hapart⟩
  rw [hactive]
  exact h.ledger

/-- It also keeps it when it neither takes a position off the queue nor gives one back. -/
theorem QueueInv.ownerMoves (h : QueueInv c s) {b' : ℤ} {pc : OwnerPc α}
    (hreach : logicalBottom { s with bottom := b', owner := pc } = s.logicalBottom)
    (hheld : pc.held = s.owner.held) (hok : pc.Ok c b' s.top) :
    QueueInv c { s with bottom := b', owner := pc } := by
  refine h.ownerQuiet s.logicalBottom rfl rfl hreach h.top_le (fun p => ?_) hok h.thiefOk ?_
  · rw [hheld]
  · rw [hheld]
    exact h.apart

/-- `push` stores its item: the new item lies at the position `bottom_`. -/
theorem QueueInv.pushStore (h : QueueInv c s) {item : α} {b : ℤ}
    (ho : s.owner = .pushStore item b)
    (hsafe : ∀ i, ∀ p ∈ (s.thieves i).held, slotIndex c p ≠ slotIndex c b) :
    QueueInv c { s with
      slots := Function.update s.slots (slotIndex c b) (some s.pushed.length)
      pushed := s.pushed ++ [item]
      owner := .pushPublish b } := by
  have hreach : s.logicalBottom = s.bottom := by rw [logicalBottom, ho]
  have hok := h.ownerOk
  rw [ho] at hok
  obtain ⟨rfl, hroom⟩ := hok
  have hfree : ∀ p ∈ s.active, slotIndex c p ≠ slotIndex c s.bottom := by
    rintro p (⟨hle, hlt⟩ | hp | ⟨i, hp⟩)
    · rw [hreach] at hlt
      exact slotIndex_ne c hlt (by omega)
    · rw [ho] at hp
      exact absurd hp (Set.notMem_empty p)
    · exact hsafe i p hp
  refine ⟨?_, ?_, rfl, ?_, h.claims, ?_⟩
  · rw [List.length_append, List.length_singleton]
    convert h.ledger.put hfree using 1
    ext p
    simp only [active, logicalBottom, ho, OwnerPc.held, Set.mem_ofPred_eq, Set.mem_insert_iff,
      Set.mem_singleton_iff, Set.mem_empty_iff_false, false_or]
    exact or_left_comm
  · exact hreach ▸ h.top_le
  · exact fun i => hreach ▸ h.thiefOk i
  · intro i p hp hmem
    rw [Set.mem_singleton_iff.mp hmem] at hp
    have hlt := (h.thiefOk i).held_lt hp
    have hle := h.top_le
    omega

/-- `pop` moves out the item it holds. -/
theorem QueueInv.popTake (h : QueueInv c s) {b : ℤ} (ho : s.owner = .popTake b) :
    QueueInv c { s.moveOut c b with owner := .idle } := by
  have hreach : s.logicalBottom = s.bottom := by rw [logicalBottom, ho]
  have hok := h.ownerOk
  rw [ho] at hok
  have hb : b ∈ s.active := Or.inr (Or.inl (by rw [ho]; exact rfl))
  have hnot : ∀ i, b ∉ (s.thieves i).held := fun i hmem =>
    h.apart i b hmem (by rw [ho]; exact rfl)
  refine ⟨?_, ?_, trivial, ?_, h.claims, fun _ _ _ => Set.notMem_empty _⟩
  · have hactive : active { s.moveOut c b with owner := .idle } = s.active \ {b} := by
      ext p
      simp only [active, moveOut, logicalBottom, ho, OwnerPc.held, Set.mem_ofPred_eq,
        Set.mem_sdiff, Set.mem_singleton_iff, Set.mem_empty_iff_false, false_or]
      constructor
      · rintro (⟨hle, hlt⟩ | ⟨i, hp⟩)
        · refine ⟨Or.inl ⟨hle, hlt⟩, fun heq => ?_⟩
          rcases hok with ⟨hb, -⟩ | ⟨-, ht⟩ <;> omega
        · exact ⟨Or.inr (Or.inr ⟨i, hp⟩), fun heq => hnot i (heq ▸ hp)⟩
      · rintro ⟨hin | rfl | hp, hne⟩
        · exact Or.inl hin
        · exact absurd rfl hne
        · exact Or.inr hp
    rw [hactive]
    exact h.ledger.take hb
  · have hle := h.top_le
    rwa [hreach] at hle
  · intro i
    have hi := h.thiefOk i
    rwa [hreach] at hi

/-- **Owner steps** keep the invariant when `push` does not store into a claimed slot. -/
theorem ownerStep_inv (h : QueueInv c s) (hsafe : StepSafe c s .owner) {s' : QueueState α θ}
    (hs : s.ownerStep c = some s') : QueueInv c s' := by
  have hle := h.top_le
  have hthief := h.thiefOk
  -- no thief claims a position that is still in the queue
  have hunclaimed : ∀ i p, s.top ≤ p → p ∉ (s.thieves i).held := fun i p hp hmem =>
    absurd ((hthief i).held_lt hmem) (not_lt.mpr hp)
  cases ownerStep_cases h.ownerOk hs with
  | pushLoadBottom ho =>
    exact h.ownerMoves (by rw [logicalBottom, logicalBottom, ho]) (by rw [ho]; rfl) rfl
  | pushFull ho =>
    exact h.ownerMoves (by rw [logicalBottom, logicalBottom, ho]) (by rw [ho]; rfl) trivial
  | pushRoom ho hroom =>
    -- not full: the store goes to a slot of its own
    have hr : s.logicalBottom = s.bottom := by rw [logicalBottom, ho]
    have hspan := h.span_le
    rw [hr] at hle hspan
    have hlimit : (c.limit : ℤ) ≤ c.val := by exact_mod_cast c.limit_le
    have hsize := sizeT_of_le (c := c) (sub_nonneg.mpr hle) hspan
    exact h.ownerMoves (by rw [logicalBottom, logicalBottom, ho]) (by rw [ho]; rfl)
      ⟨rfl, by omega⟩
  | pushStore ho =>
    simp only [StepSafe, ho] at hsafe
    exact h.pushStore ho hsafe
  | pushPublish ho =>
    have hr : s.logicalBottom = s.bottom := by rw [logicalBottom, ho]
    rw [hr] at hle hthief
    refine h.ownerQuiet (s.bottom + 1) rfl hr rfl (by omega) (fun p => ?_) trivial
      (fun i => (hthief i).mono (Or.inl (by omega))) (fun _ _ _ => Set.notMem_empty _)
    rw [ho]
    simp only [OwnerPc.held, Set.mem_singleton_iff, Set.mem_empty_iff_false, or_false]
    omega
  | popLoadBottom ho =>
    exact h.ownerMoves (by rw [logicalBottom, logicalBottom, ho]) (by rw [ho]; rfl) rfl
  | popStoreBottom ho =>
    have hr : s.logicalBottom = s.bottom := by rw [logicalBottom, ho]
    refine h.ownerMoves ?_ (by rw [ho]; rfl) rfl
    rw [hr]
    exact sub_add_cancel s.bottom 1
  | popEmpty ho htop =>
    have hr : s.logicalBottom = s.bottom + 1 := by rw [logicalBottom, ho]
    exact h.ownerMoves (by rw [logicalBottom, hr]) (by rw [ho]; rfl) ⟨rfl, by omega⟩
  | popLast ho htop =>
    have hr : s.logicalBottom = s.bottom + 1 := by rw [logicalBottom, ho]
    exact h.ownerMoves (by rw [logicalBottom, hr]) (by rw [ho]; rfl) ⟨rfl, by omega⟩
  | popMore ho htop =>
    have hr : s.logicalBottom = s.bottom + 1 := by rw [logicalBottom, ho]
    rw [hr] at hthief
    refine h.ownerQuiet s.bottom rfl hr rfl htop.le (fun p => ?_) (Or.inl ⟨rfl, htop.le⟩)
      (fun i => (hthief i).mono (Or.inr htop)) (fun i p hp hmem => ?_)
    · rw [ho]
      simp only [OwnerPc.held, Set.mem_singleton_iff, Set.mem_empty_iff_false, or_false]
      omega
    · rw [Set.mem_singleton_iff.mp hmem] at hp
      exact hunclaimed i s.bottom htop.le hp
  | popWon ho htop =>
    have hr : s.logicalBottom = s.bottom + 1 := by rw [logicalBottom, ho]
    rw [hr] at hthief
    refine h.ownerQuiet (s.bottom + 1) rfl hr rfl le_rfl (fun p => ?_) ⟨rfl, rfl⟩
      (fun i => (hthief i).raise (by omega)) (fun i p hp hmem => ?_)
    · rw [ho]
      simp only [OwnerPc.held, Set.mem_singleton_iff, Set.mem_empty_iff_false, or_false]
      omega
    · rw [Set.mem_singleton_iff.mp hmem] at hp
      exact hunclaimed i s.bottom htop.le hp
  | popLost ho htop =>
    have hr : s.logicalBottom = s.bottom + 1 := by rw [logicalBottom, ho]
    rw [hr] at hle
    exact h.ownerMoves (by rw [logicalBottom, hr]) (by rw [ho]; rfl) ⟨rfl, by omega⟩
  | popRestore ho =>
    have hr : s.logicalBottom = s.bottom + 1 := by rw [logicalBottom, ho]
    exact h.ownerMoves (by rw [logicalBottom, hr]) (by rw [ho]; rfl) trivial
  | popKeep ho htop =>
    have hr : s.logicalBottom = s.bottom + 1 := by rw [logicalBottom, ho]
    exact h.ownerMoves (by rw [logicalBottom, hr]) (by rw [ho]; rfl) (Or.inr ⟨rfl, htop⟩)
  | popTake ho => exact h.popTake ho

/-! ## Steps of a thief -/

/-- What the owner holds is no longer in the queue. -/
theorem QueueInv.owner_held (h : QueueInv c s) {p : ℤ} (hp : p ∈ s.owner.held) :
    ¬(s.top ≤ p ∧ p < s.logicalBottom) := by
  have hok := h.ownerOk
  rintro ⟨hle, hlt⟩
  cases ho : s.owner <;> rw [ho] at hp hok <;> simp only [logicalBottom, ho] at hlt <;>
    simp only [OwnerPc.held, Set.mem_singleton_iff, Set.mem_empty_iff_false] at hp <;>
    simp only [OwnerPc.Ok] at hok <;> omega

/-- What other thieves claim, when this one claims nothing of its own. -/
theorem exists_other_held {i : θ} {p : ℤ} (hp : p ∉ (s.thieves i).held) :
    (∃ j, j ≠ i ∧ p ∈ (s.thieves j).held) ↔ ∃ j, p ∈ (s.thieves j).held := by
  refine ⟨fun ⟨j, _, hj⟩ => ⟨j, hj⟩, fun ⟨j, hj⟩ => ⟨j, fun hji => hp ?_, hj⟩⟩
  rwa [← hji]

variable [DecidableEq θ]

/-- A position is active after a thief moved iff it lies in the queue or in the owner's hands,
is claimed by this thief, or is claimed by another one. -/
theorem mem_active_setThief {i : θ} {pc : ThiefPc} {p : ℤ} :
    p ∈ (s.setThief i pc).active ↔ (s.top ≤ p ∧ p < s.logicalBottom) ∨ p ∈ s.owner.held ∨
      p ∈ pc.held ∨ ∃ j, j ≠ i ∧ p ∈ (s.thieves j).held := by
  have hthief : (∃ j, p ∈ ((s.setThief i pc).thieves j).held) ↔
      p ∈ pc.held ∨ ∃ j, j ≠ i ∧ p ∈ (s.thieves j).held := by
    constructor
    · rintro ⟨j, hj⟩
      by_cases hji : j = i
      · rw [hji, setThief_self] at hj
        exact Or.inl hj
      · rw [setThief_ne s pc hji] at hj
        exact Or.inr ⟨j, hji, hj⟩
    · rintro (hp | ⟨j, hji, hj⟩)
      · exact ⟨i, by rwa [setThief_self]⟩
      · exact ⟨j, by rwa [setThief_ne s pc hji]⟩
  exact or_congr Iff.rfl (or_congr Iff.rfl hthief)

/-- Claims stay disjoint when a thief moves to a point whose claims no other thief has. -/
theorem claims_setThief {i : θ} {pc : ThiefPc}
    (hclaims : ∀ j k p, p ∈ (s.thieves j).held → p ∈ (s.thieves k).held → j = k)
    (hdisj : ∀ j, j ≠ i → ∀ p ∈ (s.thieves j).held, p ∉ pc.held) {j k : θ} {p : ℤ}
    (hj : p ∈ ((s.setThief i pc).thieves j).held)
    (hk : p ∈ ((s.setThief i pc).thieves k).held) : j = k := by
  by_cases hji : j = i <;> by_cases hki : k = i
  · rw [hji, hki]
  · rw [hji, setThief_self] at hj
    rw [setThief_ne s pc hki] at hk
    exact absurd hj (hdisj k hki p hk)
  · rw [hki, setThief_self] at hk
    rw [setThief_ne s pc hji] at hj
    exact absurd hk (hdisj j hji p hj)
  · rw [setThief_ne s pc hji] at hj
    rw [setThief_ne s pc hki] at hk
    exact hclaims j k p hj hk

/-- A thief's step keeps the invariant when it moves no item: what it claims it takes off the
front of the queue. -/
theorem QueueInv.thiefQuiet (h : QueueInv c s) {i : θ} {t' : ℤ} {pc : ThiefPc}
    (hempty : ∀ p, p ∉ (s.thieves i).held) (hle : t' ≤ s.logicalBottom)
    (hfront : ∀ p, (t' ≤ p ∧ p < s.logicalBottom) ∨ p ∈ pc.held ↔
      s.top ≤ p ∧ p < s.logicalBottom)
    (hok : pc.Ok t' s.logicalBottom) (hraise : t' = s.top ∨ s.top < t')
    (howner : s.owner.Ok c s.bottom t') : QueueInv c ({ s with top := t' }.setThief i pc) := by
  have hother : ∀ j, (s.thieves j).Ok t' s.logicalBottom := by
    intro j
    rcases hraise with rfl | hlt
    · exact h.thiefOk j
    · exact (h.thiefOk j).raise hlt
  have hnew : ∀ p ∈ pc.held, s.top ≤ p ∧ p < s.logicalBottom := fun p hp =>
    (hfront p).mp (Or.inr hp)
  refine ⟨?_, hle, howner, forall_setThief hok hother, ?_, ?_⟩
  · have hactive : ({ s with top := t' }.setThief i pc).active = s.active := by
      ext p
      rw [mem_active_setThief, exists_other_held (hempty p)]
      constructor
      · rintro (hin | hp | hp | hp)
        · exact Or.inl ((hfront p).mp (Or.inl hin))
        · exact Or.inr (Or.inl hp)
        · exact Or.inl (hnew p hp)
        · exact Or.inr (Or.inr hp)
      · rintro (hin | hp | hp)
        · rcases (hfront p).mpr hin with hin | hp
          · exact Or.inl hin
          · exact Or.inr (Or.inr (Or.inl hp))
        · exact Or.inr (Or.inl hp)
        · exact Or.inr (Or.inr (Or.inr hp))
    rw [hactive]
    exact h.ledger
  · refine fun j k p => claims_setThief h.claims fun j _ p hj hp => ?_
    have := (h.thiefOk j).held_lt hj
    have := (hnew p hp).1
    omega
  · refine forall_setThief (R := fun pc => ∀ p ∈ pc.held, p ∉ s.owner.held) ?_ h.apart
    exact fun p hp hmem => h.owner_held hmem (hnew p hp)

/-- A thief moves out the next item it has claimed. -/
theorem QueueInv.thiefTake (h : QueueInv c s) {i : θ} {t n k : ℤ} {pc : ThiefPc}
    (hi : s.thieves i = .take t n k) (hok : pc.Ok s.top s.logicalBottom)
    (hheld : ∀ p, p ∈ pc.held ↔ p ∈ (s.thieves i).held ∧ p ≠ t + k) :
    QueueInv c ((s.moveOut c (t + k)).setThief i pc) := by
  have hik := h.thiefOk i
  rw [hi] at hik
  obtain ⟨-, hkn, -⟩ := hik
  have hmine : t + k ∈ (s.thieves i).held := by
    rw [hi]
    exact Set.mem_Ico.mpr ⟨le_rfl, by omega⟩
  have hb : t + k ∈ s.active := Or.inr (Or.inr ⟨i, hmine⟩)
  refine ⟨?_, h.top_le, h.ownerOk, forall_setThief hok h.thiefOk, ?_, ?_⟩
  · have hactive : ((s.moveOut c (t + k)).setThief i pc).active = s.active \ {t + k} := by
      ext p
      rw [mem_active_setThief]
      constructor
      · rintro (hin | hp | hp | ⟨j, hji, hp⟩)
        · refine ⟨Or.inl hin, fun heq => ?_⟩
          have hlt := (h.thiefOk i).held_lt hmine
          rw [← Set.mem_singleton_iff.mp heq] at hlt
          exact absurd hin.1 (not_le.mpr hlt)
        · refine ⟨Or.inr (Or.inl hp), fun heq => h.apart i _ hmine ?_⟩
          rwa [← Set.mem_singleton_iff.mp heq]
        · obtain ⟨hp, hne⟩ := (hheld p).mp hp
          exact ⟨Or.inr (Or.inr ⟨i, hp⟩), hne⟩
        · refine ⟨Or.inr (Or.inr ⟨j, hp⟩), fun heq => hji (h.claims j i p hp ?_)⟩
          rwa [Set.mem_singleton_iff.mp heq]
      · rintro ⟨hin | hp | ⟨j, hp⟩, hne⟩
        · exact Or.inl hin
        · exact Or.inr (Or.inl hp)
        · by_cases hji : j = i
          · exact Or.inr (Or.inr (Or.inl ((hheld p).mpr ⟨hji ▸ hp, hne⟩)))
          · exact Or.inr (Or.inr (Or.inr ⟨j, hji, hp⟩))
    rw [hactive]
    exact h.ledger.take hb
  · refine fun j k p => claims_setThief h.claims fun j hji p hj hp => hji ?_
    exact h.claims j i p hj ((hheld p).mp hp).1
  · refine forall_setThief (R := fun pc => ∀ p ∈ pc.held, p ∉ s.owner.held) ?_ h.apart
    exact fun p hp => h.apart i p ((hheld p).mp hp).1

/-- **Thief steps** keep the invariant when a CAS claims only positions in the queue. -/
theorem thiefStep_inv (h : QueueInv c s) {i : θ} (hsafe : StepSafe c s (.thief i))
    {s' : QueueState α θ} (hs : s.thiefStep c i = some s') : QueueInv c s' := by
  have hik := h.thiefOk i
  have hle := h.top_le
  -- a thief that has claimed nothing goes on without a claim
  have hnothing : ∀ {pc pc' : ThiefPc}, s.thieves i = pc → pc.held = ∅ → pc'.held = ∅ →
      pc'.Ok s.top s.logicalBottom → QueueInv c (s.setThief i pc') := by
    intro pc pc' hi hpc hpc' hok
    refine h.thiefQuiet (fun p => ?_) hle (fun p => ?_) hok (Or.inl rfl) h.ownerOk
    · rw [hi, hpc]
      exact Set.notMem_empty p
    · rw [hpc', Set.mem_empty_iff_false, or_false]
  cases thiefStep_cases hs with
  | loadTop hi => exact hnothing hi rfl rfl (le_refl s.top)
  | claim hi hlt =>
    rw [hi] at hik
    have hreach : s.bottom ≤ s.logicalBottom := by
      unfold logicalBottom
      split <;> omega
    exact hnothing hi rfl rfl ⟨hik, fun _ => by omega⟩
  | failed hi hpc =>
    refine hnothing hi ?_ rfl trivial
    rcases hpc with ⟨max?, t, rfl⟩ | ⟨t, n, rfl⟩
    · rfl
    · rfl
  | @won n hi =>
    rw [StepSafe, hi] at hsafe
    obtain ⟨hn, hreach⟩ := hsafe rfl
    have howner : s.owner.Ok c s.bottom (s.top + n) := by
      have hok := h.ownerOk
      cases ho : s.owner <;> rw [ho] at hok <;> simp only [logicalBottom, ho] at hreach hle <;>
        simp only [OwnerPc.Ok] at hok ⊢ <;> omega
    by_cases hpos : 0 < n
    · rw [if_pos hpos]
      refine h.thiefQuiet ?_ hreach (fun p => ?_) ⟨le_rfl, hpos, le_rfl⟩ (Or.inr (by omega)) howner
      · rw [hi]
        exact Set.notMem_empty
      · rw [ThiefPc.held, Set.mem_Ico]
        omega
    · obtain rfl : n = 0 := by omega
      rw [if_neg hpos, add_zero]
      exact hnothing hi rfl rfl trivial
  | take hi =>
    rw [hi] at hik
    obtain ⟨hk, hkn, hend⟩ := hik
    refine h.thiefTake hi ?_ (fun p => ?_)
    · split
      · exact ⟨by omega, by assumption, hend⟩
      · trivial
    · rw [hi]
      split
      · simp only [ThiefPc.held, Set.mem_Ico]
        omega
      · simp only [ThiefPc.held, Set.mem_Ico, Set.mem_empty_iff_false, false_iff]
        omega

/-- **Step lemma.** A safe step keeps the invariant. -/
theorem step_inv {a : QueueAct α θ} {s' : QueueState α θ} (h : QueueInv c s)
    (hsafe : StepSafe c s a) (hs : step c s a = some s') : QueueInv c s' := by
  have hquiet : ∀ {i : θ} {pc : ThiefPc}, s.thieves i = .idle → pc.held = ∅ →
      pc.Ok s.top s.logicalBottom → QueueInv c (s.setThief i pc) := by
    intro i pc hi hpc hok
    refine h.thiefQuiet ?_ h.top_le (fun p => ?_) hok (Or.inl rfl) h.ownerOk
    · rw [hi]
      exact Set.notMem_empty
    · rw [hpc, Set.mem_empty_iff_false, or_false]
  have hcall : ∀ {pc : OwnerPc α}, s.owner = .idle → pc.held = ∅ → pc.Ok c s.bottom s.top →
      logicalBottom { s with owner := pc } = s.bottom → QueueInv c { s with owner := pc } := by
    intro pc ho hpc hok hreach
    refine h.ownerMoves ?_ ?_ hok
    · rw [hreach, logicalBottom, ho]
    · rw [hpc, ho]
      rfl
  cases a with
  | push item =>
    simp only [step] at hs
    split at hs
    · obtain rfl := Option.some.inj hs
      exact hcall (by assumption) rfl trivial rfl
    · cases hs
  | pop =>
    simp only [step] at hs
    split at hs
    · obtain rfl := Option.some.inj hs
      exact hcall (by assumption) rfl trivial rfl
    · cases hs
  | owner => exact ownerStep_inv h hsafe hs
  | steal i =>
    simp only [step] at hs
    split at hs
    · obtain rfl := Option.some.inj hs
      exact hquiet (by assumption) rfl trivial
    · cases hs
  | stealBatch i max =>
    simp only [step] at hs
    split at hs
    · obtain rfl := Option.some.inj hs
      exact hquiet (by assumption) rfl trivial
    · cases hs
  | thief i => exact thiefStep_inv h hsafe hs

/-! ## Runs -/

/-- **Safe runs hand out each item exactly once**, for any number of thieves and any calls. -/
theorem safe_run_exactlyOnce {as : List (QueueAct α θ)}
    (hsafe : Runs.Meets (step c) (StepSafe c) init as) (hr : Runs.exec (step c) init as = some s) :
    ExactlyOnce c s :=
  (hsafe.invariant (fun _ _ _ hi hok hs => step_inv hi hok hs) (queueInv_init c) hr).exactlyOnce

/-- A `push` and the four steps it takes while the queue is not full. -/
def pushRun (item : α) : List (QueueAct α θ) := [.push item, .owner, .owner, .owner, .owner]

/-- A `pop` and the four steps it takes while more than one item is left. -/
def popRun : List (QueueAct α θ) := [.pop, .owner, .owner, .owner, .owner]

/-- A batch steal reads the counters while four items lie in the queue; the owner pops one of them,
and the thief's CAS claims two of the other three; between its moves the owner pushes another
one. -/
def batchRun : List (QueueAct ℕ Unit) :=
  pushRun 10 ++ pushRun 11 ++ pushRun 12 ++ pushRun 13 ++
    [.stealBatch () 16, .thief (), .thief ()] ++ popRun ++ [.thief (), .thief ()] ++ pushRun 14 ++
    [.thief ()]

/-- Each is handed out once. -/
theorem safe_run_exactlyOnce_batch : ∃ s : QueueState ℕ Unit,
    Runs.exec (step ⟨3, by decide⟩) init batchRun = some s ∧ s.pushed = [10, 11, 12, 13, 14] ∧
      s.returned = [some 3, some 0, some 1] ∧ ExactlyOnce ⟨3, by decide⟩ s := by
  have hsafe : Runs.Meets (step ⟨3, by decide⟩) (StepSafe ⟨3, by decide⟩) init batchRun := by
    decide
  have hr : Runs.exec (step ⟨3, by decide⟩) init batchRun = some _ := rfl
  exact ⟨_, hr, rfl, rfl, safe_run_exactlyOnce hsafe hr⟩

/-- A batch steal reads the counters while four items lie in the queue, the owner pops three of
them without a CAS, and the thief's CAS still claims two: a moved-from value is handed out. -/
def overlapRun : List (QueueAct ℕ Unit) :=
  pushRun 10 ++ pushRun 11 ++ pushRun 12 ++ pushRun 13 ++
    [.stealBatch () 16, .thief (), .thief ()] ++ popRun ++ popRun ++ popRun ++
    [.thief (), .thief (), .thief ()]

/-- A thief has claimed the first item and not moved it yet when the owner fills the ring up: the
item is overwritten in its slot and lost. -/
def overwriteRun : List (QueueAct ℕ Unit) :=
  pushRun 10 ++ pushRun 11 ++ [.steal (), .thief (), .thief (), .thief ()] ++ pushRun 12 ++
    [.thief ()]

theorem not_exactlyOnce :
    (∃ s, Runs.exec (step ⟨3, by decide⟩) init overlapRun = some s ∧
      s.returned = [some 3, some 2, some 1, some 0, none] ∧ ¬ExactlyOnce ⟨3, by decide⟩ s) ∧
    ∃ s, Runs.exec (step ⟨1, by decide⟩) init overwriteRun = some s ∧
      s.returned = [some 2] ∧ ¬ExactlyOnce ⟨1, by decide⟩ s := by
  constructor
  · refine ⟨_, rfl, rfl, fun h => ?_⟩
    obtain ⟨k, -, hk⟩ := h.genuine none (by decide)
    cases hk
  · refine ⟨_, rfl, rfl, fun h => ?_⟩
    obtain ⟨p, hle, hlt, hslot⟩ := ((h.between ⟨rfl, fun _ => rfl⟩).2 0 (by decide)).mp (by decide)
    have hp : p = 1 ∨ p = 2 := by
      change 1 ≤ p at hle
      change p < 3 at hlt
      omega
    rcases hp with rfl | rfl <;> revert hslot <;> decide

end QueueState

end HpcWorkspace
