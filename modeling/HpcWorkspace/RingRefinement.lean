import HpcWorkspace.OutstandingItems
import HpcWorkspace.StuckWorkers

/-!
# The workers over their queues refine the workers over multisets

The traversal is exact when a queue is a multiset whose operations are one step each. The queues
are rings, and a worker takes many steps for one operation, with the steps of others between them.
While each step on a queue is safe, a push takes effect when its item is stored, a pop when it
returns, and a steal when the thief returns, with all that it has moved out: so each run of the
workers over the rings is one over multisets, and counts what a sequential traversal counts.
-/

namespace HpcWorkspace

/-! ## Two levels -/

/-- Is a worker in `steal`? -/
def RingPc.Steals : RingPc → Prop
  | .stealing _ _ => True
  | _ => False

/-- What a worker has moved out of a queue in the `steal` that it is in. -/
def RingPc.stolenFrom {n : ℕ} (id queue : Fin n) : RingPc → Multiset QueuedPath
  | .stealing i stolen_batch => if RingState.victim id i = queue then stolen_batch else 0
  | _ => 0

theorem RingPc.stolenFrom_of_not_steals {n : ℕ} {pc : RingPc} (h : ¬pc.Steals)
    (id queue : Fin n) : pc.stolenFrom id queue = 0 := by
  cases pc with
  | stealing i stolen_batch => exact absurd trivial h
  | pop | popping | steal | pushBatch | pushingBatch | check | list | read | push | pushing
  | left => rfl

/-- A worker over the rings, whose queue has an owner at `o`, and the worker over multisets that it
stands for: no path in its hands is empty, and a push is over once the item is stored. -/
inductive Abstracts (o : OwnerPc QueuedPath) : RingPc → WorkerPc → Prop where
  | pop (ho : o = .idle) : Abstracts o .pop .pop
  | popping (ho : o.InPop) : Abstracts o .popping .pop
  | steal {i : ℕ} (ho : o = .idle) : Abstracts o (.steal i) (.steal i)
  | stealing {i : ℕ} {stolen_batch : List QueuedPath} (ho : o = .idle) :
    Abstracts o (.stealing i stolen_batch) (.steal i)
  | pushBatch {work : QueuedPath} {stolen_batch : List QueuedPath} {path : StatPath}
      {batch : List StatPath} (ho : o = .idle) (hwork : work = some path)
      (hbatch : stolen_batch = batch.map some) :
    Abstracts o (.pushBatch work stolen_batch) (.pushBatch path batch)
  /-- the item is not stored -/
  | pushingBatch {work : QueuedPath} {stolen_batch : List QueuedPath} {path p : StatPath}
      {batch : List StatPath} (ho : o.toPush = some (some p)) (hwork : work = some path)
      (hbatch : stolen_batch = batch.map some) :
    Abstracts o (.pushingBatch work stolen_batch) (.pushBatch path (p :: batch))
  /-- it is -/
  | pushedBatch {work : QueuedPath} {stolen_batch : List QueuedPath} {path : StatPath}
      {batch : List StatPath} {b : ℤ} (ho : o = .pushPublish b) (hwork : work = some path)
      (hbatch : stolen_batch = batch.map some) :
    Abstracts o (.pushingBatch work stolen_batch) (.pushBatch path batch)
  | check (ho : o = .idle) : Abstracts o .check .check
  | list {work : QueuedPath} {path : StatPath} (ho : o = .idle) (hwork : work = some path) :
    Abstracts o (.list work) (.list path)
  | read {work : QueuedPath} {path : StatPath} {entries : List Str} (ho : o = .idle)
      (hwork : work = some path) : Abstracts o (.read work entries) (.read path entries)
  | push {work : QueuedPath} {path p : StatPath} {entries : List Str} (ho : o = .idle)
      (hwork : work = some path) : Abstracts o (.push work p entries) (.push path p entries)
  /-- the item is not stored -/
  | pushing {work : QueuedPath} {path p : StatPath} {entries : List Str}
      (ho : o.toPush = some (some p)) (hwork : work = some path) :
    Abstracts o (.pushing work entries) (.push path p entries)
  /-- it is -/
  | pushed {work : QueuedPath} {path : StatPath} {entries : List Str} {b : ℤ}
      (ho : o = .pushPublish b) (hwork : work = some path) :
    Abstracts o (.pushing work entries) (.read path entries)
  | left (ho : o = .idle) : Abstracts o .left .left

namespace RingState

variable {n : ℕ}

/-- The steps that keep the queues correct, and listings without an error. -/
def Safe (t : Tree) (r : RingState n) (label : Fin n × StatEvent) : Prop :=
  match r.workers label.1, label.2 with
  | .stealing i _, _ => (r.worker_queues (victim label.1 i)).StepSafe .default (.thief label.1)
  | .pushingBatch _ _, _ => (r.worker_queues label.1).StepSafe .default .owner
  | .pushing _ _, _ => (r.worker_queues label.1).StepSafe .default .owner
  | .list work, .listed names => names.Perm (Node.names (t.findQueued work))
  | _, _ => True

instance (t : Tree) (r : RingState n) (label : Fin n × StatEvent) : Decidable (Safe t r label) :=
  match hpc : r.workers label.1, hev : label.2 with
  | .stealing i _, _ => decidable_of_iff
    ((r.worker_queues (victim label.1 i)).StepSafe .default (.thief label.1)) (by rw [Safe, hpc])
  | .pushingBatch _ _, _ | .pushing _ _, _ => decidable_of_iff
    ((r.worker_queues label.1).StepSafe .default .owner) (by rw [Safe, hpc])
  | .list work, .listed names =>
    decidable_of_iff (names.Perm (Node.names (t.findQueued work))) (by rw [Safe, hpc, hev])
  | .list _, .popped _ | .list _, .stolen _ | .list _, .go =>
    isTrue (by rw [Safe, hpc, hev]; trivial)
  | .pop, _ | .popping, _ | .steal _, _ | .pushBatch _ _, _ | .check, _ | .read _ _, _
  | .push _ _ _, _ | .left, _ => isTrue (by rw [Safe, hpc]; trivial)

/-- The workers over the rings stand for the workers over multisets: a multiset has what is
outstanding in the queue, and what thieves that have not returned have moved out of it. -/
structure Refines (r : RingState n) (s : StatState n) : Prop where
  /-- the queues -/
  queues : ∀ q, (s.queues q).map some =
    (r.worker_queues q).outstanding + ∑ id, (r.workers id).stolenFrom id q
  /-- the workers -/
  workers : ∀ id, Abstracts (r.worker_queues id).owner (r.workers id) (s.workers id)
  /-- the results -/
  results : r.local_results = s.local_results
  /-- the counter -/
  counter : r.work_counter = s.work_counter
  /-- the queues are correct -/
  invariant : ∀ q, QueueState.QueueInv .default (r.worker_queues q)
  /-- a batch is as long as the thief has come -/
  thieves : ∀ id i stolen_batch, r.workers id = .stealing i stolen_batch → i < n ∧
    ((r.worker_queues (victim id i)).thieves id).Stealing 16 stolen_batch.length

/-- The state after a step that changes a queue, a worker, its results and the counter. -/
def change (r : RingState n) (q id : Fin n) (queue : QueueState QueuedPath (Fin n)) (pc : RingPc)
    (result : StatResult) (work_counter : ℤ) : RingState n where
  worker_queues := Function.update r.worker_queues q queue
  workers := Function.update r.workers id pc
  local_results := Function.update r.local_results id result
  work_counter := work_counter

theorem goto_eq_change (r : RingState n) (id : Fin n) (pc : RingPc) :
    r.goto id pc =
      r.change id id (r.worker_queues id) pc (r.local_results id) r.work_counter := by
  unfold goto change
  rw [Function.update_eq_self, Function.update_eq_self]

theorem counted_goto_eq_change (r : RingState n) (id : Fin n) (pc : RingPc) (work_counter : ℤ) :
    { r with work_counter := work_counter }.goto id pc =
      r.change id id (r.worker_queues id) pc (r.local_results id) work_counter := by
  unfold goto change
  rw [Function.update_eq_self, Function.update_eq_self]

theorem countLocal_goto_eq_change (r : RingState n) (id : Fin n) (entry : Option Node)
    (pc : RingPc) (work_counter : ℤ) :
    { r.countLocal id entry with work_counter := work_counter }.goto id pc =
      r.change id id (r.worker_queues id) pc (r.local_results id + ownResult entry)
        work_counter := by
  unfold countLocal goto change
  rw [Function.update_eq_self, count_eq]

end RingState

theorem StatState.counted_goto_eq_change {n : ℕ} (s : StatState n) (id : Fin n) (pc : WorkerPc)
    (work_counter : ℤ) : { s with work_counter := work_counter }.goto id pc =
      s.change id id (s.queues id) pc (s.local_results id) work_counter := by
  unfold goto change
  rw [Function.update_eq_self, Function.update_eq_self]

theorem StatState.change_self {n : ℕ} (s : StatState n) (q id : Fin n) :
    s.change q id (s.queues q) (s.workers id) (s.local_results id) s.work_counter = s := by
  unfold change
  rw [Function.update_eq_self, Function.update_eq_self, Function.update_eq_self]

namespace RingState

namespace Refines

variable {n : ℕ} {t : Tree} {r r' : RingState n} {s : StatState n} {id q : Fin n}

/-! ## Frames -/

/-- A step on a queue that a worker takes. -/
theorem of_act (h : Refines r s) {a : QueueAct QueuedPath (Fin n)}
    {pc : QueueState QueuedPath (Fin n) → RingPc} (hs : r.act id q a pc = some r') :
    ∃ queue, (r.worker_queues q).step .default a = some queue ∧
      r' = r.change q id queue (pc queue) (s.local_results id) s.work_counter := by
  obtain ⟨queue, hqueue, rfl⟩ := Option.map_eq_some_iff.mp hs
  refine ⟨queue, hqueue, ?_⟩
  rw [← h.results, ← h.counter, goto, change, Function.update_eq_self]

/-- **Frame.** What a step on one queue and one worker has to show: the other workers and the other
queues are as they were. -/
theorem change (h : Refines r s) {queue : QueueState QueuedPath (Fin n)} {pc : RingPc}
    {bag : Multiset StatPath} {wpc : WorkerPc} (result : StatResult) (work_counter : ℤ)
    (hbag : ∀ stolen, (s.queues q).map some =
        (r.worker_queues q).outstanding + ((r.workers id).stolenFrom id q + stolen) →
      bag.map some = queue.outstanding + (pc.stolenFrom id q + stolen))
    (hrest : ∀ q', q' ≠ q → pc.stolenFrom id q' = (r.workers id).stolenFrom id q')
    (howner : ∀ id', id' ≠ id → id' = q → queue.owner = (r.worker_queues q).owner)
    (hworker : Abstracts (Function.update r.worker_queues q queue id).owner pc wpc)
    (hinv : QueueState.QueueInv .default queue)
    (hthieves : ∀ j, j ≠ id → queue.thieves j = (r.worker_queues q).thieves j)
    (hsteals : ∀ i stolen_batch, pc = .stealing i stolen_batch → victim id i = q ∧ i < n ∧
      (queue.thieves id).Stealing 16 stolen_batch.length) :
    Refines (r.change q id queue pc result work_counter)
      (s.change q id bag wpc result work_counter) := by
  refine ⟨?_, ?_, ?_, rfl, ?_, ?_⟩
  · intro q'
    have hsum : ∃ others,
        ∑ j, (r.workers j).stolenFrom j q' = (r.workers id).stolenFrom id q' + others ∧
        ∑ j, (Function.update r.workers id pc j).stolenFrom j q' =
          pc.stolenFrom id q' + others := by
      refine ⟨∑ j ∈ Finset.univ.erase id, (r.workers j).stolenFrom j q',
        (Finset.add_sum_erase _ _ (Finset.mem_univ id)).symm, ?_⟩
      rw [← Finset.add_sum_erase _ _ (Finset.mem_univ id), Function.update_self]
      congr 1
      refine Finset.sum_congr rfl fun j hj => ?_
      rw [Function.update_of_ne (Finset.ne_of_mem_erase hj)]
    obtain ⟨others, hbefore, hafter⟩ := hsum
    have hqueue := h.queues q'
    rw [hbefore] at hqueue
    dsimp only [RingState.change, StatState.change]
    rw [hafter]
    by_cases hq : q' = q
    · subst hq
      rw [Function.update_self, Function.update_self]
      exact hbag others hqueue
    · rw [Function.update_of_ne hq, Function.update_of_ne hq, hrest q' hq]
      exact hqueue
  · intro id'
    dsimp only [RingState.change, StatState.change]
    by_cases hid : id' = id
    · subst hid
      rw [Function.update_self, Function.update_self]
      exact hworker
    · rw [Function.update_of_ne hid, Function.update_of_ne hid]
      by_cases hq : id' = q
      · rw [hq, Function.update_self, howner id' hid hq, ← hq]
        exact h.workers id'
      · rw [Function.update_of_ne hq]
        exact h.workers id'
  · dsimp only [RingState.change, StatState.change]
    rw [h.results]
  · intro q'
    dsimp only [RingState.change]
    by_cases hq : q' = q
    · rw [hq, Function.update_self]
      exact hinv
    · rw [Function.update_of_ne hq]
      exact h.invariant q'
  · intro id' i stolen_batch hpc
    dsimp only [RingState.change] at hpc ⊢
    by_cases hid : id' = id
    · rw [hid, Function.update_self] at hpc
      obtain ⟨hvictim, hi, hstealing⟩ := hsteals i stolen_batch hpc
      rw [hid, hvictim, Function.update_self]
      exact ⟨hi, hstealing⟩
    · rw [Function.update_of_ne hid] at hpc
      obtain ⟨hi, hstealing⟩ := h.thieves id' i stolen_batch hpc
      refine ⟨hi, ?_⟩
      by_cases hq : victim id' i = q
      · rw [hq, Function.update_self, hthieves id' hid, ← hq]
        exact hstealing
      · rw [Function.update_of_ne hq]
        exact hstealing

/-- A step of a worker on its own queue. -/
theorem own (h : Refines r s) {queue : QueueState QueuedPath (Fin n)} {pc : RingPc}
    {bag : Multiset StatPath} {wpc : WorkerPc} (result : StatResult) (work_counter : ℤ)
    (hbefore : ¬(r.workers id).Steals) (hafter : ¬pc.Steals)
    (hbag : ∀ stolen, (s.queues id).map some = (r.worker_queues id).outstanding + stolen →
      bag.map some = queue.outstanding + stolen)
    (hworker : Abstracts queue.owner pc wpc) (hinv : QueueState.QueueInv .default queue)
    (hthieves : queue.thieves = (r.worker_queues id).thieves) :
    Refines (r.change id id queue pc result work_counter)
      (s.change id id bag wpc result work_counter) := by
  refine h.change result work_counter ?_ ?_ (fun _ hne heq => absurd heq hne) ?_ hinv ?_ ?_
  · intro stolen hstolen
    rw [RingPc.stolenFrom_of_not_steals hbefore, zero_add] at hstolen
    rw [RingPc.stolenFrom_of_not_steals hafter, zero_add]
    exact hbag stolen hstolen
  · intro q' _
    rw [RingPc.stolenFrom_of_not_steals hbefore, RingPc.stolenFrom_of_not_steals hafter]
  · rw [Function.update_self]
    exact hworker
  · intro j _
    rw [hthieves]
  · rintro i stolen_batch rfl
    exact absurd trivial hafter

/-- One that the other level does not see. -/
theorem stays (h : Refines r s) {queue : QueueState QueuedPath (Fin n)} {pc : RingPc}
    (hbefore : ¬(r.workers id).Steals) (hafter : ¬pc.Steals)
    (hsame : queue.outstanding = (r.worker_queues id).outstanding)
    (hworker : Abstracts queue.owner pc (s.workers id))
    (hinv : QueueState.QueueInv .default queue)
    (hthieves : queue.thieves = (r.worker_queues id).thieves) :
    Refines (r.change id id queue pc (s.local_results id) s.work_counter) s := by
  have hbag : ∀ stolen, (s.queues id).map some = (r.worker_queues id).outstanding + stolen →
      (s.queues id).map some = queue.outstanding + stolen := by
    intro stolen hstolen
    rw [hsame]
    exact hstolen
  have hown := h.own (s.local_results id) s.work_counter hbefore hafter hbag hworker hinv hthieves
  rwa [StatState.change_self] at hown

/-- A step of a worker without its queue. -/
theorem goes (h : Refines r s) {pc : RingPc} {wpc : WorkerPc} (result : StatResult)
    (work_counter : ℤ) (hbefore : ¬(r.workers id).Steals) (hafter : ¬pc.Steals)
    (hworker : Abstracts (r.worker_queues id).owner pc wpc) :
    Refines (r.change id id (r.worker_queues id) pc result work_counter)
      (s.change id id (s.queues id) wpc result work_counter) :=
  h.own result work_counter hbefore hafter (fun _ hstolen => hstolen) hworker (h.invariant id) rfl

/-- A step of a worker on the queue that it steals from. -/
theorem robs (h : Refines r s) {i : ℕ} {queue : QueueState QueuedPath (Fin n)} {pc : RingPc}
    {bag : Multiset StatPath} {wpc : WorkerPc}
    (hbefore : ∀ q, q ≠ victim id i → (r.workers id).stolenFrom id q = 0)
    (hafter : ∀ q, q ≠ victim id i → pc.stolenFrom id q = 0)
    (hbag : ∀ stolen, (s.queues (victim id i)).map some =
        (r.worker_queues (victim id i)).outstanding +
          ((r.workers id).stolenFrom id (victim id i) + stolen) →
      bag.map some = queue.outstanding + (pc.stolenFrom id (victim id i) + stolen))
    (howner : queue.owner = (r.worker_queues (victim id i)).owner)
    (hworker : Abstracts (r.worker_queues id).owner pc wpc)
    (hinv : QueueState.QueueInv .default queue)
    (hthieves : ∀ j, j ≠ id → queue.thieves j = (r.worker_queues (victim id i)).thieves j)
    (hsteals : ∀ i' stolen_batch, pc = .stealing i' stolen_batch → i' = i ∧ i < n ∧
      (queue.thieves id).Stealing 16 stolen_batch.length) :
    Refines (r.change (victim id i) id queue pc (s.local_results id) s.work_counter)
      (s.change (victim id i) id bag wpc (s.local_results id) s.work_counter) := by
  refine h.change _ _ hbag ?_ (fun _ _ _ => howner) ?_ hinv hthieves ?_
  · intro q hq
    rw [hbefore q hq, hafter q hq]
  · by_cases hq : id = victim id i
    · rw [← hq] at howner ⊢
      rw [Function.update_self, howner]
      exact hworker
    · rw [Function.update_of_ne hq]
      exact hworker
  · intro i' stolen_batch hpc
    obtain ⟨rfl, hi, hstealing⟩ := hsteals i' stolen_batch hpc
    exact ⟨rfl, hi, hstealing⟩

/-- One that the other level does not see. -/
theorem robs_stays (h : Refines r s) {i : ℕ} {queue : QueueState QueuedPath (Fin n)} {pc : RingPc}
    (hbefore : ∀ q, q ≠ victim id i → (r.workers id).stolenFrom id q = 0)
    (hafter : ∀ q, q ≠ victim id i → pc.stolenFrom id q = 0)
    (hsame : (r.worker_queues (victim id i)).outstanding +
        (r.workers id).stolenFrom id (victim id i) =
      (queue.outstanding : Multiset QueuedPath) + pc.stolenFrom id (victim id i))
    (howner : queue.owner = (r.worker_queues (victim id i)).owner)
    (hworker : Abstracts (r.worker_queues id).owner pc (s.workers id))
    (hinv : QueueState.QueueInv .default queue)
    (hthieves : ∀ j, j ≠ id → queue.thieves j = (r.worker_queues (victim id i)).thieves j)
    (hsteals : ∀ i' stolen_batch, pc = .stealing i' stolen_batch → i' = i ∧ i < n ∧
      (queue.thieves id).Stealing 16 stolen_batch.length) :
    Refines (r.change (victim id i) id queue pc (s.local_results id) s.work_counter) s := by
  have hbag : ∀ stolen, (s.queues (victim id i)).map some =
        (r.worker_queues (victim id i)).outstanding +
          ((r.workers id).stolenFrom id (victim id i) + stolen) →
      (s.queues (victim id i)).map some =
        queue.outstanding + (pc.stolenFrom id (victim id i) + stolen) := by
    intro stolen hstolen
    rw [hstolen, ← add_assoc, hsame, add_assoc]
  have hrobs := h.robs hbefore hafter hbag howner hworker hinv hthieves hsteals
  rwa [StatState.change_self] at hrobs

/-! ## Calls -/

/-- A call of `push`. -/
theorem push_call (h : Refines r s) {item : QueuedPath} {pc : RingPc}
    (hs : r.act id id (.push item) (fun _ => pc) = some r') (hbefore : ¬(r.workers id).Steals)
    (hafter : ¬pc.Steals)
    (hworker : ∀ o : OwnerPc QueuedPath, o.toPush = some item → Abstracts o pc (s.workers id)) :
    Refines r' s := by
  obtain ⟨queue, hqueue, rfl⟩ := h.of_act hs
  have hinv := QueueState.step_inv (h.invariant id) (by trivial) hqueue
  simp only [QueueState.step] at hqueue
  split at hqueue
  · obtain rfl := Option.some.inj hqueue
    exact h.stays hbefore hafter rfl (hworker _ rfl) hinv rfl
  · cases hqueue

/-- A call of `pop`. -/
theorem pop_call (h : Refines r s) (hs : r.act id id .pop (fun _ => .popping) = some r')
    (hbefore : ¬(r.workers id).Steals) (hworker : s.workers id = .pop) : Refines r' s := by
  obtain ⟨queue, hqueue, rfl⟩ := h.of_act hs
  have hinv := QueueState.step_inv (h.invariant id) (by trivial) hqueue
  simp only [QueueState.step] at hqueue
  split at hqueue
  · obtain rfl := Option.some.inj hqueue
    refine h.stays hbefore not_false rfl ?_ hinv rfl
    rw [hworker]
    exact .popping trivial
  · cases hqueue

/-- A call of `steal`. -/
theorem steal_call (h : Refines r s) {i : ℕ} (hi : i < n)
    (hs : r.act id (victim id i) (.stealBatch id 16) (fun _ => .stealing i []) = some r')
    (hbefore : ¬(r.workers id).Steals) (hidle : (r.worker_queues id).owner = .idle)
    (hworker : s.workers id = .steal i) : Refines r' s := by
  obtain ⟨queue, hqueue, rfl⟩ := h.of_act hs
  have hinv := QueueState.step_inv (h.invariant (victim id i)) (by trivial) hqueue
  simp only [QueueState.step] at hqueue
  split at hqueue
  · obtain rfl := Option.some.inj hqueue
    have hnothing : ∀ q', (RingPc.stealing i []).stolenFrom id q' = 0 := fun q' => ite_self _
    have hnone := RingPc.stolenFrom_of_not_steals hbefore id
    refine h.robs_stays (fun q' _ => hnone q') (fun q' _ => hnothing q') ?_ rfl ?_ hinv
      (fun j hj => QueueState.setThief_ne _ _ hj) ?_
    · rw [hnone, hnothing]
      rfl
    · rw [hworker]
      exact .stealing hidle
    · intro i' stolen_batch heq
      obtain ⟨rfl, rfl⟩ := RingPc.stealing.inj heq
      refine ⟨rfl, hi, ?_⟩
      rw [QueueState.setThief_self]
      exact ⟨rfl, rfl⟩
  · cases hqueue

/-! ## Steps in an operation -/

/-- In `push`, before the item is stored: the step that stores it is the push. -/
theorem pushing_step (h : Refines r s) {pushing done : RingPc} {p : StatPath} {wpc : WorkerPc}
    (hsafe : (r.worker_queues id).StepSafe .default .owner)
    (hs : r.act id id .owner (fun _ => afterPush (r.worker_queues id) pushing done) = some r')
    (hbefore : ¬(r.workers id).Steals) (hafter : ¬pushing.Steals)
    (hpush : (r.worker_queues id).owner.toPush = some (some p))
    (hstays : ∀ o : OwnerPc QueuedPath, o.toPush = some (some p) →
      Abstracts o pushing (s.workers id))
    (hstored : ∀ b, Abstracts (.pushPublish b) pushing wpc)
    (hgo : s.step t (id, .go) =
      some ((s.setQueue id (p ::ₘ s.queues id)).goto id wpc)) :
    ∃ s', Runs.Leads (StatState.step t) s s' ∧ Refines r' s' := by
  obtain ⟨queue, hqueue, rfl⟩ := h.of_act hs
  have hinv := QueueState.step_inv (h.invariant id) hsafe hqueue
  have hpc : afterPush (r.worker_queues id) pushing done = pushing := by
    rw [afterPush]
    split
    · rename_i b ho
      rw [ho] at hpush
      cases hpush
    · rfl
  rw [hpc]
  obtain ⟨hthieves, ⟨howner, hsame⟩ | ⟨⟨b, howner⟩, hmore⟩⟩ :=
    (h.invariant id).push_step hpush hqueue
  · exact ⟨s, Runs.Leads.refl s, h.stays hbefore hafter hsame (hstays _ howner) hinv hthieves⟩
  · refine ⟨_, Runs.Leads.of_step hgo, ?_⟩
    rw [StatState.setQueue_goto_eq_change]
    refine h.own _ _ hbefore hafter ?_ (howner ▸ hstored b) hinv hthieves
    intro stolen hstolen
    rw [Multiset.map_cons, hstolen, hmore, Multiset.cons_add]

/-- In `push`, after it. -/
theorem pushed_step (h : Refines r s) {pushing done : RingPc} {b : ℤ}
    (hs : r.act id id .owner (fun _ => afterPush (r.worker_queues id) pushing done) = some r')
    (hbefore : ¬(r.workers id).Steals) (hafter : ¬done.Steals)
    (hpublish : (r.worker_queues id).owner = .pushPublish b)
    (hdone : Abstracts .idle done (s.workers id)) : Refines r' s := by
  obtain ⟨queue, hqueue, rfl⟩ := h.of_act hs
  have hsafe : (r.worker_queues id).StepSafe .default .owner := by
    rw [QueueState.StepSafe, hpublish]
    trivial
  have hinv := QueueState.step_inv (h.invariant id) hsafe hqueue
  have hpc : afterPush (r.worker_queues id) pushing done = done := by
    rw [afterPush, hpublish]
  rw [hpc]
  obtain ⟨hthieves, howner, hsame⟩ := QueueState.publish_step hpublish hqueue
  exact h.stays hbefore hafter hsame (howner ▸ hdone) hinv hthieves

/-- In `pop`: the step in which it returns is the pop. -/
theorem popping_step (h : Refines r s)
    (hs : r.act id id .owner (fun _ => afterPop (r.worker_queues id)) = some r')
    (hbefore : ¬(r.workers id).Steals) (hpop : (r.worker_queues id).owner.InPop)
    (hworker : s.workers id = .pop) :
    ∃ s', Runs.Leads (StatState.step t) s s' ∧ Refines r' s' := by
  obtain ⟨queue, hqueue, rfl⟩ := h.of_act hs
  have hsafe : (r.worker_queues id).StepSafe .default .owner := by
    rw [QueueState.StepSafe]
    split
    · rename_i item b ho
      rw [ho] at hpop
      exact hpop.elim
    · trivial
  have hinv := QueueState.step_inv (h.invariant id) hsafe hqueue
  obtain ⟨hthieves, ⟨howner, hrestore, htake, hsame⟩ | ⟨b, ho, howner, hsame⟩ |
    ⟨b, value, ho, howner, hvalue, hless⟩⟩ := (h.invariant id).pop_step hpop hqueue
  · -- it goes on
    have hpc : afterPop (r.worker_queues id) = .popping := by
      rw [afterPop]
      split
      · rename_i b ho
        exact absurd ho (hrestore b)
      · rename_i b ho
        exact absurd ho (htake b)
      · rfl
    rw [hpc]
    refine ⟨s, Runs.Leads.refl s, h.stays hbefore not_false hsame ?_ hinv hthieves⟩
    rw [hworker]
    exact .popping howner
  · -- it returns nothing
    have hpc : afterPop (r.worker_queues id) = .steal 1 := by rw [afterPop, ho]
    have hstep : s.step t (id, .popped none) = some (s.goto id (.steal 1)) := by
      simp only [StatState.step, hworker]
    rw [hpc]
    refine ⟨_, Runs.Leads.of_step hstep, ?_⟩
    rw [StatState.goto_eq_change s id]
    refine h.own _ _ hbefore not_false ?_ (.steal howner) hinv hthieves
    intro stolen hstolen
    rw [hsame]
    exact hstolen
  · -- it returns a path
    have hmem : value ∈ (s.queues id).map some := by
      rw [h.queues id, hless]
      exact Multiset.mem_add.mpr (Or.inl (Multiset.mem_cons_self _ _))
    obtain ⟨work, hwork, rfl⟩ := Multiset.mem_map.mp hmem
    have hpc : afterPop (r.worker_queues id) = .list (some work) := by
      rw [afterPop, ho]
      exact congrArg (fun v : Option QueuedPath => RingPc.list v.join) hvalue
    have hstep : s.step t (id, .popped (some work)) =
        some ((s.setQueue id ((s.queues id).erase work)).goto id (.list work)) := by
      simp only [StatState.step, hworker, if_pos hwork]
    rw [hpc]
    refine ⟨_, Runs.Leads.of_step hstep, ?_⟩
    rw [StatState.setQueue_goto_eq_change]
    refine h.own _ _ hbefore not_false ?_ (.list howner rfl) hinv hthieves
    intro stolen hstolen
    rw [hless, ← Multiset.cons_erase hwork, Multiset.map_cons, Multiset.cons_add] at hstolen
    exact (Multiset.cons_inj_right _).mp hstolen

/-- What a thief has moved out after one more step in `steal`. -/
theorem batch_step (h : Refines r s) {i : ℕ} {stolen_batch : List QueuedPath}
    {queue : QueueState QueuedPath (Fin n)}
    (hstealing : ((r.worker_queues (victim id i)).thieves id).Stealing 16 stolen_batch.length)
    (hs : (r.worker_queues (victim id i)).thiefStep .default id = some queue) :
    queue.owner = (r.worker_queues (victim id i)).owner ∧
      (∀ j, j ≠ id → queue.thieves j = (r.worker_queues (victim id i)).thieves j) ∧
      (batchAfter (r.worker_queues (victim id i)) id stolen_batch).length ≤ 16 ∧
      ((r.worker_queues (victim id i)).outstanding + stolen_batch : Multiset QueuedPath) =
        queue.outstanding + batchAfter (r.worker_queues (victim id i)) id stolen_batch ∧
      (queue.thieves id = .idle ∨ (queue.thieves id).Stealing 16
        (batchAfter (r.worker_queues (victim id i)) id stolen_batch).length) := by
  obtain ⟨howner, hthieves, ⟨hno, hcount, hsame, hnext⟩ |
    ⟨t, k, m, value, htake, hvalue, hless, hmax, hnext⟩⟩ :=
      (h.invariant (victim id i)).steal_step hstealing hs
  · have hbatch : batchAfter (r.worker_queues (victim id i)) id stolen_batch = stolen_batch := by
      rw [batchAfter]
      split
      · rename_i t k m htake
        exact absurd htake (hno t k m)
      · rfl
    rw [hbatch, hsame]
    exact ⟨howner, hthieves, hcount ▸ Nat.zero_le 16, rfl, hnext⟩
  · have hbatch : batchAfter (r.worker_queues (victim id i)) id stolen_batch =
        stolen_batch ++ [value] := by
      rw [batchAfter, htake]
      exact congrArg (fun v : Option QueuedPath => stolen_batch ++ [v.join]) hvalue
    rw [hbatch, List.length_append, List.length_singleton]
    refine ⟨howner, hthieves, Int.ofNat_le.mp hmax, ?_, hnext⟩
    rw [hless, ← Multiset.coe_add, Multiset.coe_singleton, ← Multiset.singleton_add]
    ac_rfl

/-- A batch that was outstanding has no empty path. -/
theorem exists_map_of_le {batch : List QueuedPath} {bag : Multiset StatPath}
    (hle : (batch : Multiset QueuedPath) ≤ bag.map some) :
    ∃ paths : List StatPath, batch = paths.map some ∧ (paths : Multiset StatPath) ≤ bag := by
  have hmem : batch ∈ Set.range (List.map (some : StatPath → QueuedPath)) := by
    rw [Set.range_list_map]
    intro path hpath
    have hpath := Multiset.mem_of_le hle (Multiset.mem_coe.mpr hpath)
    obtain ⟨work, -, heq⟩ := Multiset.mem_map.mp hpath
    exact ⟨work, heq⟩
  obtain ⟨paths, rfl⟩ := hmem
  refine ⟨paths, rfl, ?_⟩
  rw [← Multiset.map_coe] at hle
  exact (Multiset.map_le_map_iff (Option.some_injective _)).mp hle

/-- While a thief has not returned, the multiset has what it has moved out. -/
theorem le_queues (h : Refines r s) (id q : Fin n) :
    ((r.worker_queues q).outstanding + (r.workers id).stolenFrom id q : Multiset QueuedPath) ≤
      (s.queues q).map some := by
  rw [h.queues q]
  exact add_le_add (le_refl _)
    (Finset.single_le_sum (f := fun id => (r.workers id).stolenFrom id q)
      (fun _ _ => Multiset.zero_le _) (Finset.mem_univ id))

/-- In `steal`: the step in which the thief returns is the steal of all that it has moved out. -/
theorem stealing_step (h : Refines r s) {i : ℕ} {stolen_batch : List QueuedPath}
    (hsafe : (r.worker_queues (victim id i)).StepSafe .default (.thief id))
    (hpc : r.workers id = .stealing i stolen_batch)
    (hs : r.act id (victim id i) (.thief id) (fun queue => afterSteal queue id i
      (batchAfter (r.worker_queues (victim id i)) id stolen_batch)) = some r')
    (hidle : (r.worker_queues id).owner = .idle) (hworker : s.workers id = .steal i) :
    ∃ s', Runs.Leads (StatState.step t) s s' ∧ Refines r' s' := by
  obtain ⟨queue, hqueue, rfl⟩ := h.of_act hs
  have hinv := QueueState.step_inv (h.invariant (victim id i)) hsafe hqueue
  obtain ⟨hi, hstealing⟩ := h.thieves id i stolen_batch hpc
  obtain ⟨howner, hthieves, hmax, hsame, hnext⟩ := h.batch_step hstealing hqueue
  generalize batchAfter (r.worker_queues (victim id i)) id stolen_batch = batch
    at hmax hsame hnext ⊢
  have hfrom : (r.workers id).stolenFrom id (victim id i) = stolen_batch := by
    rw [hpc]
    exact if_pos rfl
  have hbefore : ∀ q, q ≠ victim id i → (r.workers id).stolenFrom id q = 0 := by
    intro q hq
    rw [hpc]
    exact if_neg (Ne.symm hq)
  rcases hnext with hreturned | hnext
  · -- it has returned
    have hle := h.le_queues id (victim id i)
    rw [hfrom, hsame] at hle
    obtain ⟨paths, rfl, hpaths⟩ := exists_map_of_le ((Multiset.le_add_left _ _).trans hle)
    rw [List.length_map] at hmax
    have hafter : afterSteal queue id i (paths.map some) =
        paths.getLast?.elim (.steal (i + 1)) fun work =>
          .pushBatch (some work) (paths.dropLast.map some) := by
      rw [afterSteal, hreturned, List.getLast?_map, List.map_dropLast]
      cases paths.getLast? <;> rfl
    rw [hafter]
    cases hlast : paths.getLast? with
    | none =>
      obtain rfl := List.getLast?_eq_none_iff.mp hlast
      have hstep : s.step t (id, .stolen []) = some (s.goto id (.steal (i + 1))) := by
        simp only [StatState.step, hworker, if_pos (⟨hi, hmax, hpaths⟩ : i < n ∧ _ ∧ _)]
        rfl
      refine ⟨_, Runs.Leads.of_step hstep, ?_⟩
      rw [StatState.goto_eq_change s (victim id i)]
      refine h.robs hbefore (fun _ _ => rfl) ?_ howner (.steal hidle) hinv hthieves ?_
      · intro stolen hstolen
        rw [hstolen, hfrom, ← add_assoc, hsame]
        simp [RingPc.stolenFrom]
      · intro i' stolen_batch heq
        cases heq
    | some work =>
      have hstep : s.step t (id, .stolen paths) =
          some ((s.setQueue (victim id i) (s.queues (victim id i) - paths)).goto id
            (.pushBatch work paths.dropLast)) := by
        simp only [StatState.step, hworker, if_pos (⟨hi, hmax, hpaths⟩ : i < n ∧ _ ∧ _), hlast]
      refine ⟨_, Runs.Leads.of_step hstep, ?_⟩
      rw [StatState.setQueue_goto_eq_change]
      refine h.robs hbefore (fun _ _ => rfl) ?_ howner (.pushBatch hidle rfl rfl) hinv hthieves ?_
      · intro stolen hstolen
        rw [← add_tsub_cancel_of_le hpaths, Multiset.map_add, hfrom, ← add_assoc, hsame,
          Multiset.map_coe, add_comm (queue.outstanding : Multiset QueuedPath),
          add_assoc] at hstolen
        rw [add_left_cancel hstolen]
        exact congrArg _ (zero_add _).symm
      · intro i' stolen_batch heq
        cases heq
  · -- it goes on
    have hafter : afterSteal queue id i batch = .stealing i batch := by
      rw [afterSteal]
      split
      · rename_i hreturned
        rw [hreturned] at hnext
        exact hnext.elim
      · rfl
    rw [hafter]
    refine ⟨s, Runs.Leads.refl s, h.robs_stays hbefore (fun q hq => if_neg (Ne.symm hq)) ?_ howner
      ?_ hinv hthieves ?_⟩
    · rw [hfrom, hsame, RingPc.stolenFrom, if_pos rfl]
    · rw [hworker]
      exact .stealing hidle
    · intro i' stolen_batch heq
      obtain ⟨rfl, rfl⟩ := RingPc.stealing.inj heq
      exact ⟨rfl, hi, hnext⟩

/-! ## Steps -/

/-- **Step lemma.** A safe step of a worker over the rings is a step over multisets, or none. -/
theorem step (h : Refines r s) {label : Fin n × StatEvent} (hok : Safe t r label)
    (hs : r.step t label = some r') : ∃ s', Runs.Leads (StatState.step t) s s' ∧ Refines r' s' := by
  obtain ⟨id, event⟩ := label
  have hw := h.workers id
  rw [Safe] at hok
  dsimp only [RingState.step] at hs hok
  generalize hwpc : s.workers id = wpc at hw
  split at hs
  · -- `pop` is called
    rename_i hpc
    rw [hpc] at hw
    cases hw
    have hbefore : ¬(r.workers id).Steals := by rw [hpc]; exact not_false
    exact ⟨s, Runs.Leads.refl s, h.pop_call hs hbefore hwpc⟩
  · -- in `pop`
    rename_i hpc
    rw [hpc] at hw
    cases hw with
    | popping ho =>
      have hbefore : ¬(r.workers id).Steals := by rw [hpc]; exact not_false
      exact h.popping_step hs hbefore ho hwpc
  · -- `steal` is called
    rename_i i hpc
    rw [hpc] at hw
    cases hw with
    | steal ho =>
      have hbefore : ¬(r.workers id).Steals := by rw [hpc]; exact not_false
      split at hs
      · rename_i hi
        exact ⟨s, Runs.Leads.refl s, h.steal_call hi hs hbefore ho hwpc⟩
      · rename_i hi
        obtain rfl := Option.some.inj hs
        have hstep : s.step t (id, .go) = some (s.goto id .check) := by
          simp only [StatState.step, hwpc, if_neg hi]
        refine ⟨_, Runs.Leads.of_step hstep, ?_⟩
        rw [goto_eq_change, StatState.goto_eq_change s id, h.results, h.counter]
        exact h.goes _ _ hbefore not_false (.check ho)
  · -- in `steal`
    rename_i i stolen_batch hpc
    rw [hpc] at hw hok
    cases hw with
    | stealing ho => exact h.stealing_step hok hpc hs ho hwpc
  · -- the batch is done
    rename_i work hpc
    rw [hpc] at hw
    cases hw with
    | @pushBatch _ _ path batch ho hwork hbatch =>
      have hbefore : ¬(r.workers id).Steals := by rw [hpc]; exact not_false
      obtain rfl := List.map_eq_nil_iff.mp hbatch.symm
      obtain rfl := Option.some.inj hs
      have hstep : s.step t (id, .go) = some (s.goto id (.list path)) := by
        simp only [StatState.step, hwpc]
      refine ⟨_, Runs.Leads.of_step hstep, ?_⟩
      rw [goto_eq_change, StatState.goto_eq_change s id, h.results, h.counter]
      exact h.goes _ _ hbefore not_false (.list ho hwork)
  · -- `push` is called for one of the batch
    rename_i work p stolen_batch hpc
    rw [hpc] at hw
    cases hw with
    | @pushBatch _ _ path batch ho hwork hbatch =>
      have hbefore : ¬(r.workers id).Steals := by rw [hpc]; exact not_false
      obtain ⟨p', batch', rfl, rfl, rfl⟩ := List.map_eq_cons_iff.mp hbatch.symm
      refine ⟨s, Runs.Leads.refl s, h.push_call hs hbefore not_false fun o ho => ?_⟩
      rw [hwpc]
      exact .pushingBatch ho hwork rfl
  · -- in that `push`
    rename_i work stolen_batch hpc
    rw [hpc] at hw hok
    have hbefore : ¬(r.workers id).Steals := by rw [hpc]; exact not_false
    cases hw with
    | @pushingBatch _ _ path p batch ho hwork hbatch =>
      have hgo : s.step t (id, .go) =
          some ((s.setQueue id (p ::ₘ s.queues id)).goto id (.pushBatch path batch)) := by
        simp only [StatState.step, hwpc]
      refine h.pushing_step hok hs hbefore not_false ho ?_ ?_ hgo
      · intro o ho
        rw [hwpc]
        exact .pushingBatch ho hwork hbatch
      · exact fun b => .pushedBatch rfl hwork hbatch
    | pushedBatch ho hwork hbatch =>
      refine ⟨s, Runs.Leads.refl s, h.pushed_step hs hbefore not_false ho ?_⟩
      rw [hwpc]
      exact .pushBatch rfl hwork hbatch
  · -- the counter is loaded
    rename_i hpc
    rw [hpc] at hw
    cases hw with
    | check ho =>
      have hbefore : ¬(r.workers id).Steals := by rw [hpc]; exact not_false
      split at hs
      · rename_i hzero
        obtain rfl := Option.some.inj hs
        have hstep : s.step t (id, .go) = some (s.goto id .left) := by
          simp only [StatState.step, hwpc, if_pos (h.counter ▸ hzero)]
        refine ⟨_, Runs.Leads.of_step hstep, ?_⟩
        rw [goto_eq_change, StatState.goto_eq_change s id, h.results, h.counter]
        exact h.goes _ _ hbefore not_false (.left ho)
      · rename_i hzero
        obtain rfl := Option.some.inj hs
        have hstep : s.step t (id, .go) = some (s.goto id .pop) := by
          simp only [StatState.step, hwpc, if_neg (h.counter ▸ hzero)]
        refine ⟨_, Runs.Leads.of_step hstep, ?_⟩
        rw [goto_eq_change, StatState.goto_eq_change s id, h.results, h.counter]
        exact h.goes _ _ hbefore not_false (.pop ho)
  · -- the directory is listed
    rename_i work names hpc
    rw [hpc] at hw hok
    cases hw with
    | @list _ path ho hwork =>
      have hbefore : ¬(r.workers id).Steals := by rw [hpc]; exact not_false
      subst hwork
      split at hs
      · obtain rfl := Option.some.inj hs
        have hstep : s.step t (id, .listed names) = some (s.goto id (.read path names)) := by
          simp only [StatState.step, hwpc]
          exact if_pos hok
        refine ⟨_, Runs.Leads.of_step hstep, ?_⟩
        rw [goto_eq_change, StatState.goto_eq_change s id, h.results, h.counter]
        exact h.goes _ _ hbefore not_false (.read ho rfl)
      · cases hs
  · -- it is done
    rename_i work hpc
    rw [hpc] at hw
    cases hw with
    | @read _ path _ ho hwork =>
      have hbefore : ¬(r.workers id).Steals := by rw [hpc]; exact not_false
      obtain rfl := Option.some.inj hs
      have hstep : s.step t (id, .go) =
          some ({ s with work_counter := s.work_counter - 1 }.goto id .pop) := by
        simp only [StatState.step, hwpc]
      refine ⟨_, Runs.Leads.of_step hstep, ?_⟩
      rw [counted_goto_eq_change, StatState.counted_goto_eq_change, h.results, h.counter]
      exact h.goes _ _ hbefore not_false (.pop ho)
  · -- an entry
    rename_i work name entries hpc
    rw [hpc] at hw
    cases hw with
    | @read _ path _ ho hwork =>
      have hbefore : ¬(r.workers id).Steals := by rw [hpc]; exact not_false
      subst hwork
      dsimp only [Option.getD_some] at hs
      split at hs
      · rename_i hdir
        obtain rfl := Option.some.inj hs
        have hstep : s.step t (id, .go) =
            some ({ s.countLocal id (t.find (path ++ [name])) with
              work_counter := s.work_counter + 1 }.goto id
                (.push path (path ++ [name]) entries)) := by
          simp only [StatState.step, hwpc, if_pos hdir]
        refine ⟨_, Runs.Leads.of_step hstep, ?_⟩
        rw [countLocal_goto_eq_change, StatState.countLocal_goto_eq_change, h.results, h.counter]
        exact h.goes _ _ hbefore not_false (.push ho rfl)
      · rename_i hdir
        obtain rfl := Option.some.inj hs
        have hstep : s.step t (id, .go) =
            some ((s.countLocal id (t.find (path ++ [name]))).goto id (.read path entries)) := by
          simp only [StatState.step, hwpc, if_neg hdir]
        refine ⟨_, Runs.Leads.of_step hstep, ?_⟩
        have hring : (r.countLocal id (t.find (path ++ [name]))).goto id
            (.read (some path) entries) = _ := countLocal_goto_eq_change r id _ _ r.work_counter
        have hstat : (s.countLocal id (t.find (path ++ [name]))).goto id (.read path entries) = _ :=
          StatState.countLocal_goto_eq_change s id _ _ s.work_counter
        rw [hring, hstat, h.results, h.counter]
        exact h.goes _ _ hbefore not_false (.read ho rfl)
  · -- `push` is called for a subdirectory
    rename_i work p entries hpc
    rw [hpc] at hw
    cases hw with
    | @push _ path _ _ ho hwork =>
      have hbefore : ¬(r.workers id).Steals := by rw [hpc]; exact not_false
      refine ⟨s, Runs.Leads.refl s, h.push_call hs hbefore not_false fun o ho => ?_⟩
      rw [hwpc]
      exact .pushing ho hwork
  · -- in that `push`
    rename_i work entries hpc
    rw [hpc] at hw hok
    have hbefore : ¬(r.workers id).Steals := by rw [hpc]; exact not_false
    cases hw with
    | @pushing _ path p _ ho hwork =>
      have hgo : s.step t (id, .go) =
          some ((s.setQueue id (p ::ₘ s.queues id)).goto id (.read path entries)) := by
        simp only [StatState.step, hwpc]
      refine h.pushing_step hok hs hbefore not_false ho ?_ ?_ hgo
      · intro o ho
        rw [hwpc]
        exact .pushing ho hwork
      · exact fun b => .pushed rfl hwork
    | pushed ho hwork =>
      refine ⟨s, Runs.Leads.refl s, h.pushed_step hs hbefore not_false ho ?_⟩
      rw [hwpc]
      exact .read rfl hwork
  · cases hs

end Refines

/-! ## Runs -/

theorem opened_filled {n : ℕ} (l : List StatPath) :
    (QueueState.filled l : QueueState StatPath Empty).opened =
      (QueueState.filled (l.map some) : QueueState QueuedPath (Fin n)) := by
  simp [QueueState.opened, QueueState.filled]

/-- The workers start over the rings as they start over multisets. -/
theorem refines_start {n : WorkerCount} {subdirs : List StatPath} {deal : List Unit}
    {d : DistributeState n}
    (hdeal : Runs.exec DistributeState.step (.start n subdirs) deal = some d) (hdone : d.Done) :
    Refines (.startWorkers d subdirs.length) (HpcWorkspace.startWorkers n subdirs) := by
  obtain ⟨hqueues, hfits⟩ := (DistributeState.distributeInv_run hdeal).of_done hdone
  have hring : ∀ q, (RingState.startWorkers d subdirs.length).worker_queues q =
      .filled ((dealt n subdirs q).map some) := by
    intro q
    rw [startWorkers, hqueues]
    exact opened_filled _
  refine ⟨?_, ?_, rfl, rfl, ?_, ?_⟩
  · intro q
    rw [hring, QueueState.outstanding_filled, HpcWorkspace.startWorkers, distribute_eq_dealt,
      Multiset.map_coe]
    simp [startWorkers, RingPc.stolenFrom]
  · intro id
    rw [hring]
    exact .pop rfl
  · intro q
    rw [hring]
    refine QueueState.queueInv_filled ?_
    rw [List.length_map]
    exact (hfits q).trans Capacity.default.limit_le
  · intro id i stolen_batch hpc
    cases hpc

/-- Nothing is left to do: what was pushed into any queue was handed out, and no worker has a
directory in its hands. -/
structure NothingLeft {n : ℕ} (r : RingState n) : Prop where
  /-- the queues have handed out all -/
  queues : ∀ q, (r.worker_queues q).outstanding = []
  /-- the workers hold nothing -/
  workers : ∀ id, (r.workers id).inHand = 0

theorem Refines.nothingLeft {n : ℕ} {r : RingState n} {s : StatState n} (h : Refines r s)
    (hs : s.items = 0) : r.NothingLeft := by
  obtain ⟨hqueues, hworkers⟩ := add_eq_zero.mp hs
  have hempty : ∀ q, ((r.worker_queues q).outstanding : Multiset QueuedPath) = 0 ∧
      ∑ id, (r.workers id).stolenFrom id q = 0 := by
    intro q
    have hq := Multiset.map_eq_zero.mp (Finset.sum_eq_zero_iff.mp hqueues q (Finset.mem_univ q))
    have hsum := h.queues q
    rw [hq, Multiset.map_zero] at hsum
    exact add_eq_zero.mp hsum.symm
  refine ⟨fun q => Multiset.coe_eq_zero _ |>.mp (hempty q).1, fun id => ?_⟩
  have hid := WorkerPc.held_eq_nil (Finset.sum_eq_zero_iff.mp hworkers id (Finset.mem_univ id))
  have hw := h.workers id
  generalize s.workers id = wpc at hid hw
  cases hpc : r.workers id with
  | stealing i stolen_batch =>
    -- it has moved out nothing
    have hstolen := Finset.sum_eq_zero_iff.mp (hempty (victim id i)).2 id (Finset.mem_univ id)
    rw [hpc, RingPc.stolenFrom, if_pos rfl] at hstolen
    rw [Multiset.coe_eq_zero _ |>.mp hstolen]
    rfl
  | pop | popping | steal | check | left => rfl
  | pushBatch | pushingBatch | list | read | push | pushing =>
    rw [hpc] at hw
    cases hw <;> cases hid

/-- A worker that has left stands for one that has. -/
theorem Refines.items_eq_zero {n : ℕ} {t : Tree} {total : StatResult} {r : RingState n}
    {s : StatState n} (h : Refines r s) (hinv : s.StatInv t total) {id : Fin n}
    (hid : r.workers id = .left) : s.items = 0 := by
  have hw := h.workers id
  rw [hid] at hw
  generalize hwpc : s.workers id = wpc at hw
  cases hw
  exact hinv.items_eq_zero hwpc

/-- When all have left they have counted everything. -/
theorem Refines.results_eq {n : WorkerCount} {t : Tree} {total : StatResult}
    {r : RingState n.val} {s : StatState n.val} (h : Refines r s) (hinv : s.StatInv t total)
    (hall : ∀ id, r.workers id = .left) : ∑ id, r.local_results id = total := by
  have hcounted := hinv.counted
  rw [h.items_eq_zero hinv (hall ⟨0, n.pos⟩), Worklist.weigh_zero, add_zero] at hcounted
  rw [h.results, ← hcounted]
  rfl

/-- **The traversal over the real queues is exact** in every run whose steps are safe: it is a run
over multisets, a worker leaves only when nothing is left, and when all have left they have counted
what a sequential traversal counts. -/
theorem ring_stat_exact {t : Tree} {n : WorkerCount} {names : List Str}
    (hnames : names.Perm (Node.names (some t.root))) {deal : List Unit} {d : DistributeState n}
    (hdeal : Runs.exec DistributeState.step
      (.start n (collect_level t [] names (0, [])).2) deal = some d)
    (hdone : d.Done) {run : List (Fin n.val × StatEvent)} {r : RingState n.val}
    (hmeets : Runs.Meets (RingState.step t) (Safe t)
      (.startWorkers d (collect_level t [] names (0, [])).2.length) run)
    (hrun : Runs.exec (RingState.step t)
      (.startWorkers d (collect_level t [] names (0, [])).2.length) run = some r) :
    (∃ s, Runs.Leads (StatState.step t)
        (HpcWorkspace.startWorkers n (collect_level t [] names (0, [])).2) s ∧ r.Refines s) ∧
      (∀ id, r.workers id = .left → r.NothingLeft) ∧
        ((∀ id, r.workers id = .left) →
          (collect_level t [] names (0, [])).1 + ∑ id, r.local_results id = sequentialStat t) := by
  obtain ⟨s, hleads, hrefines⟩ := hmeets.simulates
    (fun _ _ _ _ h hok hs => h.step hok hs) (refines_start hdeal hdone) hrun
  obtain ⟨run', hrun'⟩ := hleads
  have hinv := (statInv_startWorkers t n _).run hrun'
  refine ⟨⟨s, ⟨run', hrun'⟩, hrefines⟩,
    fun id hid => hrefines.nothingLeft (hrefines.items_eq_zero hinv hid), fun hall => ?_⟩
  rw [hrefines.results_eq hinv hall, ← collect_level_root t hnames]

/-- A worker of two finds nothing in the queues, and leaves. -/
def findNothing (id : Fin 2) : List (Fin 2 × StatEvent) := List.replicate 10 (id, .go)

/-- The second steals the directory of the first and is done with it, and then both leave. -/
def stealOne : List (Fin 2 × StatEvent) :=
  List.replicate 11 (⟨1, Nat.one_lt_two⟩, .go) ++
    [(⟨1, Nat.one_lt_two⟩, .listed []), (⟨1, Nat.one_lt_two⟩, .go)] ++
      findNothing ⟨1, Nat.one_lt_two⟩ ++ findNothing ⟨0, Nat.two_pos⟩

theorem ring_stat_exact_stealOne : ∃ r : RingState 2, (∀ id, r.workers id = .left) ∧
    r.NothingLeft ∧
      (⟨0, 0, 1, 0, 0⟩ : StatResult) + ∑ id, r.local_results id = sequentialStat oneDirectory := by
  have hdeal : Runs.exec DistributeState.step (.start ⟨2, by decide⟩
      (collect_level oneDirectory [] [['d']] (0, [])).2) (List.replicate 6 ()) = some _ := rfl
  refine ⟨_, ?_, (@ring_stat_exact oneDirectory ⟨2, by decide⟩ _ (List.Perm.refl _) _ _ hdeal
    ⟨1, rfl⟩ stealOne _ ?_ rfl).2.imp (fun h => h 0 rfl) fun h => h ?_⟩
  · decide
  · iterate 8 refine .cons trivial rfl ?_
    -- the CAS
    refine .cons (fun _ => ⟨by decide, by decide⟩) rfl ?_
    iterate 2 refine .cons trivial rfl ?_
    -- the listing
    refine .cons (List.Perm.refl _) rfl ?_
    iterate 21 refine .cons trivial rfl ?_
    exact trivial
  · decide

end RingState

end HpcWorkspace
