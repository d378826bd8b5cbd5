import Mathlib.Algebra.Order.BigOperators.Group.Finset
import HpcWorkspace.Lib.Worklist
import HpcWorkspace.WorkQueueSafe

/-!
# How many items a work-stealing queue has

Only the counters decide whether `push` waits. Here the queue is what they say it is: the items
between `top_` and the logical bottom, those that the owner is about to move in or out, and those
that thieves have claimed and not moved yet. No step but a call of `push`, the end of a `pop` and
the take of a thief changes their number, and while no CAS claims a position that is not in the
queue, the queue never has more than the limit, and a `push` that waits has a full one.
-/

namespace HpcWorkspace

universe u v

variable {α : Type u} {θ : Type v}

/-! ## Counting -/

/-- The items in the hands of the owner: the one that `push` moves in, or `pop` out. -/
def OwnerPc.inHand : OwnerPc α → ℤ
  | .pushLoadBottom _ | .pushLoadTop _ _ | .pushStore _ _ | .pushPublish _ => 1
  | .popKeep _ | .popTake _ => 1
  | _ => 0

/-- The items that a thief has claimed and not moved yet. -/
def ThiefPc.claimed : ThiefPc → ℤ
  | .take _ n k => n - k
  | _ => 0

/-- A thief that takes has something to take. -/
def ThiefPc.Taking : ThiefPc → Prop
  | .take _ n k => k < n
  | _ => True

/-- While it has not published its item, `push` knows that there is room for it. -/
def OwnerPc.Room (c : Capacity) (top : ℤ) : OwnerPc α → Prop
  | .pushStore _ b | .pushPublish b => b - top < c.limit
  | _ => True

theorem ThiefPc.Taking.claimed_nonneg {pc : ThiefPc} (h : pc.Taking) : 0 ≤ pc.claimed := by
  cases pc with
  | take t n k => exact Int.sub_nonneg_of_le (le_of_lt h)
  | idle | loadTop | loadBottom | cas => exact le_refl _

theorem Capacity.limit_pos (c : Capacity) : 0 < c.limit := by
  have := c.val_pos
  rw [limit]
  omega

namespace QueueState

/-- The items of a queue. -/
def items [Fintype θ] (q : QueueState α θ) : ℤ :=
  q.logicalBottom - q.top + q.owner.inHand + ∑ i, (q.thieves i).claimed

/-- Would the loop of `push` go round once more? -/
def WaitsForSpace (c : Capacity) (q : QueueState α θ) : Prop :=
  match q.owner with
  | .pushLoadBottom _ => sizeT (q.bottom - q.top) ≥ c.limit
  | .pushLoadTop _ b => sizeT (b - q.top) ≥ c.limit
  | _ => False

/-- A CAS claims only positions that are still in the queue. -/
def ClaimSafe (q : QueueState α θ) : QueueAct α θ → Prop
  | .thief i =>
    match q.thieves i with
    | .cas t n => q.top = t → 0 ≤ n ∧ t + n ≤ q.logicalBottom
    | _ => True
  | _ => True

/-- The items that a step hands out. -/
def handsOut (q : QueueState α θ) : QueueAct α θ → ℤ
  | .push _ => -1
  | .owner =>
    match q.owner with
    | .popTake _ => 1
    | _ => 0
  | .thief i =>
    match q.thieves i with
    | .take _ _ _ => 1
    | _ => 0
  | _ => 0

/-! ## The invariant -/

/-- The invariant of the counters. -/
structure CountInv (c : Capacity) (q : QueueState α θ) : Prop where
  /-- the queue does not end before it starts -/
  top_le : q.top ≤ q.logicalBottom
  /-- it has no more than the limit -/
  span_le : q.logicalBottom - q.top ≤ c.limit
  /-- the owner's local knowledge -/
  ownerOk : q.owner.Ok c q.bottom q.top
  /-- what it knows about the limit -/
  room : q.owner.Room c q.top
  /-- the thieves' local knowledge -/
  taking : ∀ i, (q.thieves i).Taking

section

variable {c : Capacity} {q q' : QueueState α θ}

/-- The conversion to `size_t` changes nothing. -/
theorem CountInv.sizeT_eq (h : CountInv c q) (hb : q.logicalBottom = q.bottom) :
    (sizeT (q.bottom - q.top) : ℤ) = q.bottom - q.top := by
  have hle := h.top_le
  have hspan := h.span_le
  have hlimit : (c.limit : ℤ) ≤ c.val := by exact_mod_cast c.limit_le
  rw [hb] at hle hspan
  exact sizeT_of_le (c := c) (by omega) (by omega)

/-- **A `push` that waits has a full queue.** -/
theorem CountInv.of_waits (h : CountInv c q) (hwaits : q.WaitsForSpace c) :
    q.owner.inHand = 1 ∧ q.logicalBottom = q.bottom ∧ c.limit ≤ q.bottom - q.top := by
  have hok := h.ownerOk
  rw [WaitsForSpace] at hwaits
  split at hwaits
  · rename_i item ho
    have hb : q.logicalBottom = q.bottom := by rw [logicalBottom, ho]
    have hsize := h.sizeT_eq hb
    exact ⟨by rw [ho]; rfl, hb, by omega⟩
  · rename_i item b ho
    have hb : q.logicalBottom = q.bottom := by rw [logicalBottom, ho]
    have hsize := h.sizeT_eq hb
    rw [ho] at hok
    obtain rfl : b = q.bottom := hok
    exact ⟨by rw [ho]; rfl, hb, by omega⟩
  · exact hwaits.elim

/-- So the queue is not empty then. -/
theorem CountInv.lt_of_waits (h : CountInv c q) (hwaits : q.WaitsForSpace c) :
    q.top < q.bottom := by
  obtain ⟨-, -, hfull⟩ := h.of_waits hwaits
  have := c.limit_pos
  omega

/-- The items of such a queue. -/
theorem CountInv.le_items_of_waits [Fintype θ] (h : CountInv c q) (hwaits : q.WaitsForSpace c) :
    c.limit + 1 ≤ q.items := by
  obtain ⟨hhand, hb, hfull⟩ := h.of_waits hwaits
  have hclaimed : 0 ≤ ∑ i, (q.thieves i).claimed :=
    Finset.sum_nonneg fun i _ => (h.taking i).claimed_nonneg
  rw [items, hhand, hb]
  omega

/-- **The comparison in `push`.** Its operands are signed and it is not: the loop also goes round
when `top_` has passed `bottom_`. -/
theorem waitsForSpace_iff {item : α} (ho : q.owner = .pushLoadBottom item)
    (hrange : q.bottom - q.top < 2 ^ 63 ∧ q.top - q.bottom ≤ 2 ^ 63) :
    q.WaitsForSpace c ↔ c.limit ≤ q.bottom - q.top ∨ q.bottom < q.top := by
  have hlimit : c.limit ≤ 2 ^ 63 := by
    have hval : c.val ≤ 2 ^ 63 := Nat.pow_le_pow_right (by decide) (Nat.le_of_lt_succ c.log_lt)
    exact c.limit_le.trans hval
  have hsize : q.WaitsForSpace c ↔ c.limit ≤ sizeT (q.bottom - q.top) := by
    rw [WaitsForSpace, ho]
  rw [hsize, sizeT]
  rcases lt_or_ge q.bottom q.top with hlt | hge
  · have hmod : (q.bottom - q.top) % 2 ^ 64 = q.bottom - q.top + 2 ^ 64 := by omega
    rw [hmod]
    omega
  · rw [Int.emod_eq_of_lt (by omega) (by omega)]
    omega

/-! ## Steps -/

/-- A step that leaves the counters where they are keeps the invariant. -/
theorem CountInv.of_same (h : CountInv c q) (htop : q'.top = q.top)
    (hreach : q'.logicalBottom = q.logicalBottom) (hthieves : q'.thieves = q.thieves)
    (hok : q'.owner.Ok c q'.bottom q'.top) (hroom : q'.owner.Room c q'.top) : CountInv c q' where
  top_le := by
    rw [htop, hreach]
    exact h.top_le
  span_le := by
    rw [htop, hreach]
    exact h.span_le
  ownerOk := hok
  room := hroom
  taking := by
    rw [hthieves]
    exact h.taking

/-- **Owner steps** keep the invariant. -/
theorem CountInv.ownerStep (h : CountInv c q) (hs : q.ownerStep c = some q') : CountInv c q' := by
  have hle := h.top_le
  have hspan := h.span_le
  have hroom := h.room
  cases ownerStep_cases h.ownerOk hs with
  | pushLoadBottom ho =>
    exact h.of_same rfl (by rw [logicalBottom, logicalBottom, ho]) rfl rfl trivial
  | pushFull ho =>
    exact h.of_same rfl (by rw [logicalBottom, logicalBottom, ho]) rfl trivial trivial
  | pushRoom ho hsize =>
    have hb : q.logicalBottom = q.bottom := by rw [logicalBottom, ho]
    have hcast := h.sizeT_eq hb
    have hlimit : (c.limit : ℤ) ≤ c.val := by exact_mod_cast c.limit_le
    have hlt : q.bottom - q.top < c.limit := by omega
    exact h.of_same rfl (by rw [logicalBottom, hb]) rfl ⟨rfl, lt_of_lt_of_le hlt hlimit⟩ hlt
  | pushStore ho =>
    rw [ho] at hroom
    exact h.of_same rfl (by rw [logicalBottom, logicalBottom, ho]) rfl rfl hroom
  | pushPublish ho =>
    simp only [logicalBottom, ho] at hle hspan
    rw [ho] at hroom
    simp only [OwnerPc.Room] at hroom
    exact ⟨by simp only [logicalBottom]; omega, by simp only [logicalBottom]; omega, trivial,
      trivial, h.taking⟩
  | popLoadBottom ho =>
    exact h.of_same rfl (by rw [logicalBottom, logicalBottom, ho]) rfl rfl trivial
  | popStoreBottom ho =>
    have hb : q.logicalBottom = q.bottom := by rw [logicalBottom, ho]
    refine h.of_same rfl ?_ rfl rfl trivial
    rw [hb]
    exact sub_add_cancel q.bottom 1
  | popEmpty ho htop =>
    have hb : q.logicalBottom = q.bottom + 1 := by rw [logicalBottom, ho]
    exact h.of_same rfl (by rw [logicalBottom, hb]) rfl ⟨rfl, by dsimp only; omega⟩ trivial
  | popLast ho htop =>
    have hb : q.logicalBottom = q.bottom + 1 := by rw [logicalBottom, ho]
    exact h.of_same rfl (by rw [logicalBottom, hb]) rfl ⟨rfl, by dsimp only; omega⟩ trivial
  | popMore ho htop =>
    simp only [logicalBottom, ho] at hle hspan
    exact ⟨by simp only [logicalBottom]; omega, by simp only [logicalBottom]; omega,
      Or.inl ⟨rfl, htop.le⟩, trivial, h.taking⟩
  | popWon ho htop =>
    simp only [logicalBottom, ho] at hle hspan
    exact ⟨by simp only [logicalBottom]; omega, by simp only [logicalBottom]; omega,
      ⟨rfl, rfl⟩, trivial, h.taking⟩
  | popLost ho htop =>
    have hb : q.logicalBottom = q.bottom + 1 := by rw [logicalBottom, ho]
    exact h.of_same rfl (by rw [logicalBottom, hb]) rfl ⟨rfl, by dsimp only; omega⟩ trivial
  | popRestore ho =>
    have hb : q.logicalBottom = q.bottom + 1 := by rw [logicalBottom, ho]
    exact h.of_same rfl (by rw [logicalBottom, hb]) rfl trivial trivial
  | popKeep ho htop =>
    have hb : q.logicalBottom = q.bottom + 1 := by rw [logicalBottom, ho]
    exact h.of_same rfl (by rw [logicalBottom, hb]) rfl (Or.inr ⟨rfl, htop⟩) trivial
  | popTake ho =>
    exact h.of_same rfl (by rw [logicalBottom, logicalBottom, ho]; rfl) rfl trivial trivial

/-- **Thief steps** keep the invariant when a CAS claims only positions in the queue. -/
theorem CountInv.thiefStep [DecidableEq θ] (h : CountInv c q) {i : θ}
    (hsafe : q.ClaimSafe (.thief i)) (hs : q.thiefStep c i = some q') : CountInv c q' := by
  -- a thief's program point alone matters to itself only
  have hset : ∀ {pc : ThiefPc}, pc.Taking → CountInv c (q.setThief i pc) := fun hpc =>
    ⟨h.top_le, h.span_le, h.ownerOk, h.room, forall_setThief hpc h.taking⟩
  cases thiefStep_cases hs with
  | loadTop => exact hset trivial
  | claim => exact hset trivial
  | failed => exact hset trivial
  | @won n hi =>
    rw [ClaimSafe, hi] at hsafe
    obtain ⟨hn, hreach⟩ := hsafe rfl
    have hle := h.top_le
    have hspan := h.span_le
    have hok := h.ownerOk
    have hroom := h.room
    refine ⟨hreach, ?_, ?_, ?_, ?_⟩
    · change q.logicalBottom - (q.top + n) ≤ c.limit
      omega
    · change q.owner.Ok c q.bottom (q.top + n)
      cases ho : q.owner <;> rw [ho] at hok <;> simp only [logicalBottom, ho] at hreach hle <;>
        simp only [OwnerPc.Ok] at hok ⊢ <;> omega
    · change q.owner.Room c (q.top + n)
      cases ho : q.owner <;> rw [ho] at hroom <;> simp only [OwnerPc.Room] at hroom ⊢ <;> omega
    · refine forall_setThief (R := ThiefPc.Taking) ?_ h.taking
      split
      · assumption
      · trivial
  | take =>
    refine ⟨h.top_le, h.span_le, h.ownerOk, h.room,
      forall_setThief (R := ThiefPc.Taking) ?_ h.taking⟩
    split
    · assumption
    · trivial

/-- **Step lemma.** A step that claims only positions in the queue keeps the invariant. -/
theorem CountInv.step [DecidableEq θ] (h : CountInv c q) {a : QueueAct α θ}
    (hsafe : q.ClaimSafe a) (hs : q.step c a = some q') : CountInv c q' := by
  cases a with
  | push item =>
    simp only [QueueState.step] at hs
    split at hs
    · rename_i ho
      obtain rfl := Option.some.inj hs
      exact h.of_same rfl (by rw [logicalBottom, logicalBottom, ho]) rfl trivial trivial
    · cases hs
  | pop =>
    simp only [QueueState.step] at hs
    split at hs
    · rename_i ho
      obtain rfl := Option.some.inj hs
      exact h.of_same rfl (by rw [logicalBottom, logicalBottom, ho]) rfl trivial trivial
    · cases hs
  | owner => exact h.ownerStep hs
  | steal i =>
    simp only [QueueState.step] at hs
    split at hs
    · obtain rfl := Option.some.inj hs
      exact ⟨h.top_le, h.span_le, h.ownerOk, h.room,
        forall_setThief (R := ThiefPc.Taking) trivial h.taking⟩
    · cases hs
  | stealBatch i max =>
    simp only [QueueState.step] at hs
    split at hs
    · obtain rfl := Option.some.inj hs
      exact ⟨h.top_le, h.span_le, h.ownerOk, h.room,
        forall_setThief (R := ThiefPc.Taking) trivial h.taking⟩
    · cases hs
  | thief i => exact h.thiefStep hsafe hs

/-! ## What a step does to the items -/

variable [Fintype θ]

/-- Only the end of a `pop` hands an item to the owner. -/
theorem CountInv.items_ownerStep (h : CountInv c q) (hs : q.ownerStep c = some q') :
    q'.items + q.handsOut .owner = q.items := by
  cases ownerStep_cases h.ownerOk hs with
  | pushLoadBottom ho => simp [items, handsOut, logicalBottom, ho, OwnerPc.inHand]
  | pushFull ho => simp [items, handsOut, logicalBottom, ho, OwnerPc.inHand]
  | pushRoom ho => simp [items, handsOut, logicalBottom, ho, OwnerPc.inHand]
  | pushStore ho => simp [items, handsOut, logicalBottom, ho, OwnerPc.inHand]
  | pushPublish ho =>
    -- the item goes from the owner's hand into the queue
    simp only [items, handsOut, logicalBottom, ho, OwnerPc.inHand]
    omega
  | popLoadBottom ho => simp [items, handsOut, logicalBottom, ho, OwnerPc.inHand]
  | popStoreBottom ho => simp [items, handsOut, logicalBottom, ho, OwnerPc.inHand]
  | popEmpty ho => simp [items, handsOut, logicalBottom, ho, OwnerPc.inHand]
  | popLast ho => simp [items, handsOut, logicalBottom, ho, OwnerPc.inHand]
  | popMore ho =>
    -- the last position leaves the queue for the owner's hand
    simp only [items, handsOut, logicalBottom, ho, OwnerPc.inHand]
    omega
  | popWon ho htop =>
    simp only [items, handsOut, logicalBottom, ho, OwnerPc.inHand]
    omega
  | popLost ho => simp [items, handsOut, logicalBottom, ho, OwnerPc.inHand]
  | popRestore ho => simp [items, handsOut, logicalBottom, ho, OwnerPc.inHand]
  | popKeep ho => simp [items, handsOut, logicalBottom, ho, OwnerPc.inHand]
  | popTake ho =>
    simp only [items, handsOut, logicalBottom, moveOut, ho, OwnerPc.inHand]
    omega

/-- Only a take hands an item to a thief. -/
theorem CountInv.items_thiefStep [DecidableEq θ] (h : CountInv c q) {i : θ}
    (hsafe : q.ClaimSafe (.thief i))
    (hs : q.thiefStep c i = some q') : q'.items + q.handsOut (.thief i) = q.items := by
  obtain ⟨others, hsum, hupdate⟩ := Worklist.exists_others q.thieves ThiefPc.claimed i
  have hset : ∀ pc, (q.setThief i pc).items =
      q.logicalBottom - q.top + q.owner.inHand + (pc.claimed + others) := fun pc =>
    congrArg (q.logicalBottom - q.top + q.owner.inHand + ·) (hupdate pc)
  have hold : q.items =
      q.logicalBottom - q.top + q.owner.inHand + ((q.thieves i).claimed + others) := by
    rw [items, hsum]
  rw [hold, handsOut]
  cases thiefStep_cases hs with
  | loadTop hi =>
    rw [hset, hi]
    simp [ThiefPc.claimed]
  | claim hi =>
    rw [hset, hi]
    simp [ThiefPc.claimed]
  | failed hi hpc =>
    rw [hset, hi]
    rcases hpc with ⟨max?, t, rfl⟩ | ⟨t, n, rfl⟩
    · simp [ThiefPc.claimed]
    · simp [ThiefPc.claimed]
  | @won n hi =>
    -- the claimed positions leave the queue for the thief's hands
    rw [ClaimSafe, hi] at hsafe
    obtain ⟨hn, -⟩ := hsafe rfl
    have hclaimed : (if 0 < n then ThiefPc.take q.top n 0 else .idle).claimed = n := by
      split
      · simp [ThiefPc.claimed]
      · simp only [ThiefPc.claimed]
        omega
    have hitems := hupdate (if 0 < n then ThiefPc.take q.top n 0 else .idle)
    rw [hclaimed] at hitems
    rw [hi]
    change q.logicalBottom - (q.top + n) + q.owner.inHand + ∑ j, (Function.update q.thieves i
      (if 0 < n then ThiefPc.take q.top n 0 else .idle) j).claimed + 0 = _
    rw [hitems]
    simp only [ThiefPc.claimed]
    omega
  | @take t n k hi =>
    have htaking := h.taking i
    rw [hi] at htaking
    have hnext : (if k + 1 < n then ThiefPc.take t n (k + 1) else .idle).claimed = n - k - 1 := by
      split
      · simp only [ThiefPc.claimed]
        omega
      · simp only [ThiefPc.Taking, ThiefPc.claimed] at htaking ⊢
        omega
    have hmoved : ∀ pc, ((q.moveOut c (t + k)).setThief i pc).items = (q.setThief i pc).items :=
      fun _ => rfl
    rw [hmoved, hset, hnext, hi]
    simp only [ThiefPc.claimed]
    omega

/-- **Step lemma.** The items of a queue change by those that a step hands out. -/
theorem CountInv.items_step [DecidableEq θ] (h : CountInv c q) {a : QueueAct α θ}
    (hsafe : q.ClaimSafe a) (hs : q.step c a = some q') : q'.items + q.handsOut a = q.items := by
  have hcall : ∀ {i : θ} {pc : ThiefPc}, q.thieves i = .idle → pc.claimed = 0 →
      (q.setThief i pc).items + 0 = q.items := by
    intro i pc hi hpc
    obtain ⟨others, hsum, hupdate⟩ := Worklist.exists_others q.thieves ThiefPc.claimed i
    have hnew := hupdate pc
    rw [hpc] at hnew
    rw [hi] at hsum
    change q.logicalBottom - q.top + q.owner.inHand +
      ∑ j, (Function.update q.thieves i pc j).claimed + 0 = q.items
    rw [items, hnew, hsum]
    simp [ThiefPc.claimed]
  cases a with
  | push item =>
    simp only [QueueState.step] at hs
    split at hs
    · rename_i ho
      obtain rfl := Option.some.inj hs
      simp only [items, handsOut, logicalBottom, ho, OwnerPc.inHand]
      omega
    · cases hs
  | pop =>
    simp only [QueueState.step] at hs
    split at hs
    · rename_i ho
      obtain rfl := Option.some.inj hs
      simp [items, handsOut, logicalBottom, ho, OwnerPc.inHand]
    · cases hs
  | owner => exact h.items_ownerStep hs
  | steal i =>
    simp only [QueueState.step] at hs
    split at hs
    · rename_i hi
      obtain rfl := Option.some.inj hs
      exact hcall hi rfl
    · cases hs
  | stealBatch i max =>
    simp only [QueueState.step] at hs
    split at hs
    · rename_i hi
      obtain rfl := Option.some.inj hs
      exact hcall hi rfl
    · cases hs
  | thief i => exact h.items_thiefStep hsafe hs

end

end QueueState

end HpcWorkspace
