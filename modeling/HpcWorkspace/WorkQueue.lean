import Mathlib.Algebra.Group.Int.Defs
import Mathlib.Algebra.Group.Nat.Defs
import Mathlib.Data.Int.Basic
import Mathlib.Logic.Function.Basic
import HpcWorkspace.Lib.Runs

/-!
# The work-stealing queue of `ws_stat`

`PathWorkStealingQueue<T>`: a ring of `capacity` slots and two counters, `bottom_` (moved by
the owner) and `top_` (moved by compare-and-swap). The owner calls `push` and `pop`, any number
of thieves call `steal()` and `steal(out, max)`. Each atomic load, store and CAS and each move
into or out of a slot is one step; between two steps of one party any other party may step.

Items are numbered in the order in which `push` moves them into a slot (`pushed` is the log of
their values), and a slot holds the number of its item, `none` after the item was moved out.
`returned` logs what `pop` and `steal` hand out: `none` there is a moved-from value.

The counters are 64-bit integers in the source; they are unbounded here, as `2 ^ 63` pushes do
not happen. Conversions to `size_t` keep their wrap-around.
-/

namespace HpcWorkspace

universe u v

/-- A queue capacity: a power of two that fits `size_t`, as the constructor asserts. -/
structure Capacity where
  /-- the exponent -/
  log : ℕ
  /-- it fits `size_t` -/
  log_lt : log < 64

namespace Capacity

/-- `capacity_` -/
def val (c : Capacity) : ℕ := 2 ^ c.log

/-- `size_t limit = capacity_ - (capacity_ / 10)` -/
def limit (c : Capacity) : ℕ := c.val - c.val / 10

/-- `DEFAULT_CAPACITY` -/
def default : Capacity := ⟨10, by decide⟩

end Capacity

/-- `static_cast<size_t>` of a 64-bit integer. -/
def sizeT (z : ℤ) : ℕ := (z % 2 ^ 64).toNat

/-- The slot of a position: `static_cast<size_t>(b & (capacity_ - 1))`. -/
def slotIndex (c : Capacity) (b : ℤ) : ℕ := sizeT b &&& (c.val - 1)

/-- Where the owner is in `push` or `pop`: each constructor names the step it takes next. -/
inductive OwnerPc (α : Type u) : Type u where
  /-- not in an operation -/
  | idle
  /-- `push`: load `bottom_` -/
  | pushLoadBottom (item : α)
  /-- `push`: load `top_` and compare with the limit -/
  | pushLoadTop (item : α) (b : ℤ)
  /-- `push`: move the item into its slot -/
  | pushStore (item : α) (b : ℤ)
  /-- `push`: store `b + 1` to `bottom_` -/
  | pushPublish (b : ℤ)
  /-- `pop`: load `bottom_` -/
  | popLoadBottom
  /-- `pop`: store the decremented `b` to `bottom_` -/
  | popStoreBottom (b : ℤ)
  /-- `pop`: load `top_` and branch on it -/
  | popLoadTop (b : ℤ)
  /-- `pop`, last item: the CAS on `top_` -/
  | popCas (b : ℤ)
  /-- `pop`, nothing to take: store `b + 1` to `bottom_` and return `nullopt` -/
  | popRestore (b : ℤ)
  /-- `pop`, CAS won: store `b + 1` to `bottom_` -/
  | popKeep (b : ℤ)
  /-- `pop`: move the item out of its slot and return it -/
  | popTake (b : ℤ)
  deriving DecidableEq

/-- Where a thief is. `max?` is `none` in `steal()` and the `size_t` argument in
`steal(out, max)`. -/
inductive ThiefPc : Type where
  /-- not in an operation -/
  | idle
  /-- load `top_` -/
  | loadTop (max? : Option (BitVec 64))
  /-- load `bottom_` and decide how many items to claim -/
  | loadBottom (max? : Option (BitVec 64)) (t : ℤ)
  /-- the CAS of `top_` from `t` to `t + n` -/
  | cas (t n : ℤ)
  /-- move item number `i` of the `n` claimed ones out of its slot -/
  | take (t n i : ℤ)
  deriving DecidableEq

/-- The queue with the local state of its owner and its thieves. -/
structure QueueState (α : Type u) (θ : Type v) where
  /-- `bottom_` -/
  bottom : ℤ
  /-- `top_` -/
  top : ℤ
  /-- `array_[·].item` -/
  slots : ℕ → Option ℕ
  /-- the owner's program point -/
  owner : OwnerPc α
  /-- the thieves' program points -/
  thieves : θ → ThiefPc
  /-- the values pushed so far, in order -/
  pushed : List α
  /-- the values handed out so far -/
  returned : List (Option ℕ)

/-- A step of some party: a call (of an idle party), or the next step of the call it is in. -/
inductive QueueAct (α : Type u) (θ : Type v) where
  /-- the owner calls `push(item)` -/
  | push (item : α)
  /-- the owner calls `pop()` -/
  | pop
  /-- the owner's next step -/
  | owner
  /-- a thief calls `steal()` -/
  | steal (i : θ)
  /-- a thief calls `steal(out, max)` -/
  | stealBatch (i : θ) (max : BitVec 64)
  /-- a thief's next step -/
  | thief (i : θ)
  deriving DecidableEq

namespace QueueState

variable {α : Type u} {θ : Type v}

/-- A new queue: both counters zero, nobody in an operation. -/
def init : QueueState α θ where
  bottom := 0
  top := 0
  slots _ := none
  owner := .idle
  thieves _ := .idle
  pushed := []
  returned := []

/-- How many items a steal tries to claim when it saw `t < b`: one in `steal()`, half of the
available ones in `steal(out, max)`, but at most `max` (compared and assigned as `int64_t`). -/
def claimCount (max? : Option (BitVec 64)) (t b : ℤ) : ℤ :=
  match max? with
  | none => 1
  | some max =>
    let n := Max.max 1 ((b - t) / 2)
    if n > max.toInt then max.toInt else n

/-- Move the item at position `b` out of its slot and hand it out. -/
def moveOut (c : Capacity) (s : QueueState α θ) (b : ℤ) : QueueState α θ :=
  { s with
    slots := Function.update s.slots (slotIndex c b) none
    returned := s.returned ++ [s.slots (slotIndex c b)] }

/-- The owner's next step. -/
def ownerStep (c : Capacity) (s : QueueState α θ) : Option (QueueState α θ) :=
  match s.owner with
  | .idle => none
  | .pushLoadBottom item => some { s with owner := .pushLoadTop item s.bottom }
  | .pushLoadTop item b =>
    if sizeT (b - s.top) ≥ c.limit then some { s with owner := .pushLoadBottom item }
    else some { s with owner := .pushStore item b }
  | .pushStore item b =>
    some { s with
      slots := Function.update s.slots (slotIndex c b) (some s.pushed.length)
      pushed := s.pushed ++ [item]
      owner := .pushPublish b }
  | .pushPublish b => some { s with bottom := b + 1, owner := .idle }
  | .popLoadBottom => some { s with owner := .popStoreBottom (s.bottom - 1) }
  | .popStoreBottom b => some { s with bottom := b, owner := .popLoadTop b }
  | .popLoadTop b =>
    if s.top > b then some { s with owner := .popRestore b }
    else if s.top = b then some { s with owner := .popCas b }
    else some { s with owner := .popTake b }
  | .popCas b =>
    if s.top = b then some { s with top := b + 1, owner := .popKeep b }
    else some { s with owner := .popRestore b }
  | .popRestore b => some { s with bottom := b + 1, owner := .idle }
  | .popKeep b => some { s with bottom := b + 1, owner := .popTake b }
  | .popTake b => some { s.moveOut c b with owner := .idle }

variable [DecidableEq θ]

/-- Set the program point of a thief. -/
def setThief (s : QueueState α θ) (i : θ) (pc : ThiefPc) : QueueState α θ :=
  { s with thieves := Function.update s.thieves i pc }

@[simp] theorem setThief_self (s : QueueState α θ) (i : θ) (pc : ThiefPc) :
    (s.setThief i pc).thieves i = pc := Function.update_self ..

theorem setThief_ne (s : QueueState α θ) {i j : θ} (pc : ThiefPc) (h : j ≠ i) :
    (s.setThief i pc).thieves j = s.thieves j := Function.update_of_ne h ..

/-- A property of every thief's program point survives a thief's move to a point that has it. -/
theorem forall_setThief {s : QueueState α θ} {i : θ} {pc : ThiefPc} {R : ThiefPc → Prop}
    (hpc : R pc) (h : ∀ j, R (s.thieves j)) (j : θ) : R ((s.setThief i pc).thieves j) := by
  by_cases hji : j = i
  · rw [hji, setThief_self]
    exact hpc
  · rw [setThief_ne s pc hji]
    exact h j

/-- A thief's next step. -/
def thiefStep (c : Capacity) (s : QueueState α θ) (i : θ) : Option (QueueState α θ) :=
  match s.thieves i with
  | .idle => none
  | .loadTop max? => some (s.setThief i (.loadBottom max? s.top))
  | .loadBottom max? t =>
    if t < s.bottom then some (s.setThief i (.cas t (claimCount max? t s.bottom)))
    else some (s.setThief i .idle)
  | .cas t n =>
    if s.top = t then
      some ({ s with top := t + n }.setThief i (if 0 < n then .take t n 0 else .idle))
    else some (s.setThief i .idle)
  | .take t n k =>
    some ((s.moveOut c (t + k)).setThief i (if k + 1 < n then .take t n (k + 1) else .idle))

/-- One step of the system; calls are made by idle parties only. -/
def step (c : Capacity) (s : QueueState α θ) : QueueAct α θ → Option (QueueState α θ)
  | .push item =>
    match s.owner with
    | .idle => some { s with owner := .pushLoadBottom item }
    | _ => none
  | .pop =>
    match s.owner with
    | .idle => some { s with owner := .popLoadBottom }
    | _ => none
  | .owner => s.ownerStep c
  | .steal i =>
    match s.thieves i with
    | .idle => some (s.setThief i (.loadTop none))
    | _ => none
  | .stealBatch i max =>
    match s.thieves i with
    | .idle => some (s.setThief i (.loadTop (some max)))
    | _ => none
  | .thief i => s.thiefStep c i

end QueueState

end HpcWorkspace
