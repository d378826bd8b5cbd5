import Mathlib.Tactic.Ring
import HpcWorkspace.InitialDistribution
import HpcWorkspace.QueueCounts

/-!
# Workers that wait for each other

The workers of `ws_stat` over the real queues: each step of a worker is one step of the queue
operation it is in, or one of its own. A worker inside `push` waits while its queue is nearly full,
and only other workers make room there. When all of them wait, nobody does.

A waiting worker accounts for the limit of its ring, the directory it pushes and the one it works
on. So not all of them wait while less than that many directories for each worker are not done;
and no worker waits for space in an empty queue while no batch steal claims what the owner of the
queue has popped already.
-/

namespace HpcWorkspace

/-! ## The workers -/

/-- A path in a queue; `none` is one that was moved from, and is empty. -/
abbrev QueuedPath := Option StatPath

/-- Where a worker is, with its local variables: the step it takes next. -/
inductive RingPc where
  /-- call `pop` on the own queue -/
  | pop
  /-- in `pop` -/
  | popping
  /-- call `steal` on the `i`-th queue after the own one, or end the loop over the queues -/
  | steal (i : ℕ)
  /-- in that `steal` -/
  | stealing (i : ℕ) (stolen_batch : List QueuedPath)
  /-- call `push` for the next one of the rest of the stolen batch -/
  | pushBatch (work : QueuedPath) (stolen_batch : List QueuedPath)
  /-- in that `push` -/
  | pushingBatch (work : QueuedPath) (stolen_batch : List QueuedPath)
  /-- nothing was found: load the counter -/
  | check
  /-- list the directory -/
  | list (work : QueuedPath)
  /-- look at the next entry of the directory, or let the guard decrement the counter -/
  | read (work : QueuedPath) (entries : List Str)
  /-- call `push` for a subdirectory, for which the counter is incremented -/
  | push (work : QueuedPath) (p : StatPath) (entries : List Str)
  /-- in that `push` -/
  | pushing (work : QueuedPath) (entries : List Str)
  /-- it has left `worker_thread` -/
  | left
  deriving DecidableEq

/-- The state of `n` workers and their queues. -/
structure RingState (n : ℕ) where
  /-- `worker_queues` -/
  worker_queues : Fin n → QueueState QueuedPath (Fin n)
  /-- the workers -/
  workers : Fin n → RingPc
  /-- `local_results` -/
  local_results : Fin n → StatResult
  /-- `work_counter` -/
  work_counter : ℤ

/-- The path in the slot of a position. -/
def QueueState.pathAt {θ : Type} (q : QueueState QueuedPath θ) (b : ℤ) : QueuedPath :=
  ((q.slots (slotIndex .default b)).bind fun item => q.pushed[item]?).join

/-- What is at a path that was taken out of a queue. -/
def Tree.findQueued (t : Tree) (path : QueuedPath) : Option Node := path.bind t.find

namespace RingState

variable {n : ℕ}

/-- A worker goes on. -/
def goto (s : RingState n) (id : Fin n) (pc : RingPc) : RingState n :=
  { s with workers := Function.update s.workers id pc }

/-- A worker takes a step on a queue and goes on. -/
def act (s : RingState n) (id queue : Fin n) (a : QueueAct QueuedPath (Fin n))
    (pc : QueueState QueuedPath (Fin n) → RingPc) : Option (RingState n) :=
  ((s.worker_queues queue).step .default a).map fun q =>
    { s with worker_queues := Function.update s.worker_queues queue q }.goto id (pc q)

/-- A worker counts an entry. -/
def countLocal (s : RingState n) (id : Fin n) (entry : Option Node) : RingState n :=
  { s with
    local_results := Function.update s.local_results id ((s.local_results id).count entry) }

/-- `worker_queues[(worker_id + i) % worker_queues.size()]` -/
abbrev victim (id : Fin n) (i : ℕ) : Fin n := StatState.victim id i

/-- Where a worker goes from `pop`. -/
def afterPop (q : QueueState QueuedPath (Fin n)) : RingPc :=
  match q.owner with
  | .popRestore _ => .steal 1
  | .popTake b => .list (q.pathAt b)
  | _ => .popping

/-- Where it goes from a `push`. -/
def afterPush (q : QueueState QueuedPath (Fin n)) (pushing done : RingPc) : RingPc :=
  match q.owner with
  | .pushPublish _ => done
  | _ => pushing

/-- The stolen batch after a step of `steal`. -/
def batchAfter (q : QueueState QueuedPath (Fin n)) (id : Fin n) (stolen_batch : List QueuedPath) :
    List QueuedPath :=
  match q.thieves id with
  | .take t _ k => stolen_batch ++ [q.pathAt (t + k)]
  | _ => stolen_batch

/-- Where a worker goes from `steal`: when it has returned and something was stolen, the last one
is the work. -/
def afterSteal (q : QueueState QueuedPath (Fin n)) (id : Fin n) (i : ℕ)
    (stolen_batch : List QueuedPath) : RingPc :=
  match q.thieves id with
  | .idle =>
    match stolen_batch.getLast? with
    | none => .steal (i + 1)
    | some work => .pushBatch work stolen_batch.dropLast
  | _ => .stealing i stolen_batch

/-- A step of `worker_thread`. -/
def step (t : Tree) (s : RingState n) (label : Fin n × StatEvent) : Option (RingState n) :=
  let id := label.1
  match s.workers id, label.2 with
  | .pop, .go => s.act id id .pop fun _ => .popping
  | .popping, .go => s.act id id .owner fun _ => afterPop (s.worker_queues id)
  | .steal i, .go =>
    if i < n then s.act id (victim id i) (.stealBatch id 16) fun _ => .stealing i []
    else some (s.goto id .check)
  | .stealing i stolen_batch, .go =>
    s.act id (victim id i) (.thief id) fun q =>
      afterSteal q id i (batchAfter (s.worker_queues (victim id i)) id stolen_batch)
  | .pushBatch work [], .go => some (s.goto id (.list work))
  | .pushBatch work (p :: stolen_batch), .go =>
    s.act id id (.push p) fun _ => .pushingBatch work stolen_batch
  | .pushingBatch work stolen_batch, .go =>
    s.act id id .owner fun _ => afterPush (s.worker_queues id) (.pushingBatch work stolen_batch)
      (.pushBatch work stolen_batch)
  | .check, .go => if s.work_counter = 0 then some (s.goto id .left) else some (s.goto id .pop)
  | .list work, .listed names =>
    -- `exists` and `is_directory`: what is no directory has no names; an error ends the listing
    if names.Subperm (Node.names (t.findQueued work)) then some (s.goto id (.read work names))
    else none
  | .read _ [], .go => some ({ s with work_counter := s.work_counter - 1 }.goto id .pop)
  | .read work (name :: entries), .go =>
    let path := (work.getD []) ++ [name]
    let entry := t.find path
    if Node.isDirectory entry then
      some ({ s.countLocal id entry with work_counter := s.work_counter + 1 }.goto id
        (.push work path entries))
    else some ((s.countLocal id entry).goto id (.read work entries))
  | .push work p entries, .go => s.act id id (.push (some p)) fun _ => .pushing work entries
  | .pushing work entries, .go =>
    s.act id id .owner fun _ =>
      afterPush (s.worker_queues id) (.pushing work entries) (.read work entries)
  | _, _ => none

end RingState

/-! ## The start -/

/-- The queue of a worker when the workers are started: they are its thieves. -/
def QueueState.opened {n : ℕ} (q : QueueState StatPath Empty) : QueueState QueuedPath (Fin n) where
  bottom := q.bottom
  top := q.top
  slots := q.slots
  owner := .idle
  thieves _ := .idle
  pushed := q.pushed.map some
  returned := q.returned

/-- The state in which the workers are started, after the distribution of `count` directories. -/
def RingState.startWorkers {n : WorkerCount} (s : DistributeState n) (count : ℕ) :
    RingState n.val where
  worker_queues id := (s.queues id).opened
  workers _ := .pop
  local_results _ := 0
  work_counter := count

/-- A state in which the workers of `stat_workspace` are started: the top level was read, there are
subdirectories, and their pushes have completed. -/
inductive Started (t : Tree) (n : WorkerCount) : RingState n.val → Prop where
  /-- the listing and the steps of the distribution as they happen -/
  | start {names : List Str} {run : List Unit} {s : DistributeState n}
      (hdir : Node.isDirectory (some t.root) = true)
      (hnames : names.Subperm (Node.names (some t.root)))
      (hsubdirs : (collect_level t [] names (0, [])).2 ≠ [])
      (hrun : Runs.exec DistributeState.step
        (.start n (collect_level t [] names (0, [])).2) run = some s) (hdone : s.Done) :
      Started t n (.startWorkers s (collect_level t [] names (0, [])).2.length)

/-! ## Waiting -/

namespace RingState

variable {n : ℕ}

/-- Is a worker inside `push`, waiting for space? -/
def Waits (s : RingState n) (id : Fin n) : Prop :=
  match s.workers id with
  | .pushingBatch _ _ | .pushing _ _ => (s.worker_queues id).WaitsForSpace .default
  | _ => False

/-- Directories are left, and every worker waits for space. -/
def Stuck (s : RingState n) : Prop := s.work_counter ≠ 0 ∧ ∀ id, s.Waits id

/-- No worker is stuck: not all of them wait while directories are left, and none waits for space
in an empty queue. -/
structure NoneStuck (s : RingState n) : Prop where
  /-- they do not wait for each other -/
  others : ¬s.Stuck
  /-- who waits has a queue with something in it -/
  own : ∀ id, ¬(s.Waits id ∧ (s.worker_queues id).bottom ≤ (s.worker_queues id).top)

/-- The steps that keep the workers going: a batch steal claims only what is still in the queue,
and the directories that are not done stay fewer than what workers that wait account for. -/
def KeepsSpace (t : Tree) (s : RingState n) (label : Fin n × StatEvent) : Prop :=
  match s.workers label.1 with
  | .stealing i _ => (s.worker_queues (victim label.1 i)).ClaimSafe (.thief label.1)
  | .read work (name :: _) => Node.isDirectory (t.find (work.getD [] ++ [name])) = true →
    s.work_counter + 1 < n * (Capacity.default.limit + 2)
  | _ => True

end RingState

/-- The directories in the hands of a worker. -/
def RingPc.inHand : RingPc → ℤ
  | .stealing _ stolen_batch => stolen_batch.length
  | .pushBatch _ stolen_batch | .pushingBatch _ stolen_batch => stolen_batch.length + 1
  | .list _ | .read _ _ | .pushing _ _ => 1
  | .push _ _ _ => 2
  | .pop | .popping | .steal _ | .check | .left => 0

namespace RingState

variable {n : ℕ} {t : Tree} {s s' : RingState n}

/-- The invariant: the directories in the queues and in the hands of the workers are counted, and
there are too few of them for all workers to wait. -/
structure RingInv (s : RingState n) : Prop where
  /-- the counters of each queue -/
  counts : ∀ id, (s.worker_queues id).CountInv .default
  /-- what is queued or in a hand is counted -/
  counted : ∑ id, (s.worker_queues id).items + ∑ id, (s.workers id).inHand ≤ s.work_counter
  /-- the bound -/
  bounded : s.work_counter < n * (Capacity.default.limit + 2)

theorem RingPc.inHand_of_waits {id : Fin n} (h : s.Waits id) : 1 ≤ (s.workers id).inHand := by
  rw [Waits] at h
  split at h
  · rename_i hpc
    rw [hpc, RingPc.inHand]
    omega
  · rename_i hpc
    rw [hpc, RingPc.inHand]
  · exact h.elim

theorem Waits.queue {id : Fin n} (h : s.Waits id) :
    (s.worker_queues id).WaitsForSpace .default := by
  rw [Waits] at h
  split at h
  · exact h
  · exact h
  · exact h.elim

/-- **The invariant leaves nobody stuck.** -/
theorem RingInv.noneStuck (h : RingInv s) : s.NoneStuck := by
  refine ⟨?_, ?_⟩
  · rintro ⟨-, hall⟩
    -- every worker accounts for the limit and two
    have hqueues : ∑ _id : Fin n, ((Capacity.default.limit : ℤ) + 1) ≤
        ∑ id, (s.worker_queues id).items :=
      Finset.sum_le_sum fun id _ => (h.counts id).le_items_of_waits (hall id).queue
    have hhands : ∑ _id : Fin n, (1 : ℤ) ≤ ∑ id, (s.workers id).inHand :=
      Finset.sum_le_sum fun id _ => RingPc.inHand_of_waits (hall id)
    have hcounted := h.counted
    have hbounded := h.bounded
    rw [Finset.sum_const, Finset.card_univ, Fintype.card_fin, nsmul_eq_mul] at hqueues hhands
    have hsplit : (n : ℤ) * (Capacity.default.limit + 2) =
        n * (Capacity.default.limit + 1) + n * 1 := by ring
    omega
  · rintro id ⟨hwaits, hempty⟩
    have hlt := (h.counts id).lt_of_waits hwaits.queue
    omega

/-! ## Steps -/

/-- A worker's own step keeps the invariant when the counter changes by no less than what is in its
hands. -/
theorem RingInv.goto (h : RingInv s) {id : Fin n} {pc : RingPc}
    (hqueues : s'.worker_queues = s.worker_queues)
    (hworkers : s'.workers = Function.update s.workers id pc)
    (hhand : s.work_counter + pc.inHand ≤ s'.work_counter + (s.workers id).inHand)
    (hbound : s'.work_counter < n * (Capacity.default.limit + 2)) : RingInv s' := by
  obtain ⟨others, hsum, hupdate⟩ := Worklist.exists_others s.workers RingPc.inHand id
  have hcounted := h.counted
  refine ⟨?_, ?_, hbound⟩
  · rw [hqueues]
    exact h.counts
  · rw [hqueues, hworkers, hupdate]
    omega

/-- A step on a queue keeps it when the worker gets no more in its hands than the queue hands
out. -/
theorem RingInv.act (h : RingInv s) {id queue : Fin n} {a : QueueAct QueuedPath (Fin n)}
    {pc : QueueState QueuedPath (Fin n) → RingPc}
    (hsafe : (s.worker_queues queue).ClaimSafe a) (hs : s.act id queue a pc = some s')
    (hhand : ∀ q, (s.worker_queues queue).step .default a = some q →
      (pc q).inHand ≤ (s.workers id).inHand + (s.worker_queues queue).handsOut a) :
    RingInv s' := by
  obtain ⟨q, hq, rfl⟩ := Option.map_eq_some_iff.mp hs
  obtain ⟨others, hsum, hupdate⟩ := Worklist.exists_others s.workers RingPc.inHand id
  obtain ⟨queues, hqsum, hqupdate⟩ :=
    Worklist.exists_others s.worker_queues QueueState.items queue
  have hitems := (h.counts queue).items_step hsafe hq
  have hmore := hhand q hq
  have hcounted := h.counted
  refine ⟨?_, ?_, h.bounded⟩
  · intro id'
    dsimp only [RingState.goto]
    by_cases hid : id' = queue
    · rw [hid, Function.update_self]
      exact (h.counts queue).step hsafe hq
    · rw [Function.update_of_ne hid]
      exact h.counts id'
  · dsimp only [RingState.goto]
    rw [hupdate, hqupdate]
    omega

/-- A queue hands out no less than nothing to its worker that takes a step in it. -/
theorem handsOut_owner_nonneg (q : QueueState QueuedPath (Fin n)) : 0 ≤ q.handsOut .owner := by
  rw [QueueState.handsOut]
  split <;> decide

/-- What `pop` returns comes out of the queue. -/
theorem inHand_afterPop (q : QueueState QueuedPath (Fin n)) :
    (afterPop q).inHand ≤ q.handsOut .owner := by
  rw [afterPop, QueueState.handsOut]
  cases q.owner <;> simp [RingPc.inHand]

/-- So does what `steal` collects. -/
theorem inHand_afterSteal (q q' : QueueState QueuedPath (Fin n)) (id : Fin n) (i : ℕ)
    (stolen_batch : List QueuedPath) :
    (afterSteal q' id i (batchAfter q id stolen_batch)).inHand =
      stolen_batch.length + q.handsOut (.thief id) := by
  have hbatch : ((batchAfter q id stolen_batch).length : ℤ) =
      stolen_batch.length + q.handsOut (.thief id) := by
    rw [batchAfter, QueueState.handsOut]
    cases q.thieves id <;> simp
  rw [← hbatch, afterSteal]
  split
  · split
    · rename_i hnone
      rw [List.getLast?_eq_none_iff.mp hnone]
      rfl
    · rename_i work hsome
      have hne : batchAfter q id stolen_batch ≠ [] := by
        intro hnil
        rw [hnil] at hsome
        cases hsome
      have hpos := List.length_pos_iff.mpr hne
      rw [RingPc.inHand, List.length_dropLast]
      omega
  · rfl

/-- **Step lemma.** -/
theorem RingInv.step (h : RingInv s) {label : Fin n × StatEvent} (hok : KeepsSpace t s label)
    (hs : step t s label = some s') : RingInv s' := by
  obtain ⟨id, event⟩ := label
  have hbounded := h.bounded
  rw [KeepsSpace] at hok
  dsimp only [RingState.step] at hs hok
  split at hs
  · -- `pop` is called
    rename_i hpc
    refine h.act (by trivial) hs fun q _ => ?_
    rw [hpc]
    exact le_refl _
  · -- in `pop`
    rename_i hpc
    refine h.act (by trivial) hs fun q _ => ?_
    rw [hpc, RingPc.inHand, zero_add]
    exact inHand_afterPop _
  · -- `steal` is called
    rename_i i hpc
    split at hs
    · refine h.act (by trivial) hs fun q _ => ?_
      rw [hpc]
      exact le_refl _
    · obtain rfl := Option.some.inj hs
      refine h.goto rfl rfl ?_ hbounded
      rw [hpc]
      simp only [RingPc.inHand, RingState.goto]
      omega
  · -- in `steal`
    rename_i i stolen_batch hpc
    rw [hpc] at hok
    refine h.act hok hs fun q _ => ?_
    rw [hpc, inHand_afterSteal, RingPc.inHand]
  · -- the batch is done
    rename_i work hpc
    obtain rfl := Option.some.inj hs
    refine h.goto rfl rfl ?_ hbounded
    rw [hpc]
    simp [RingPc.inHand, RingState.goto]
  · -- `push` is called for one of the batch
    rename_i work p stolen_batch hpc
    refine h.act (by trivial) hs fun q _ => ?_
    rw [hpc]
    simp [RingPc.inHand, QueueState.handsOut]
  · -- in that `push`
    rename_i work stolen_batch hpc
    refine h.act (by trivial) hs fun q _ => ?_
    have hout := handsOut_owner_nonneg (s.worker_queues id)
    rw [hpc, afterPush]
    split
    · simp only [RingPc.inHand]
      omega
    · simp only [RingPc.inHand]
      omega
  · -- the counter is loaded
    rename_i hpc
    split at hs
    · obtain rfl := Option.some.inj hs
      refine h.goto rfl rfl ?_ hbounded
      rw [hpc]
      exact le_refl _
    · obtain rfl := Option.some.inj hs
      refine h.goto rfl rfl ?_ hbounded
      rw [hpc]
      exact le_refl _
  · -- the directory is listed
    rename_i work names hpc
    split at hs
    · obtain rfl := Option.some.inj hs
      refine h.goto rfl rfl ?_ hbounded
      rw [hpc]
      exact le_refl _
    · cases hs
  · -- it is done
    rename_i work hpc
    obtain rfl := Option.some.inj hs
    have hless : s.work_counter - 1 < n * (Capacity.default.limit + 2) := by omega
    refine h.goto rfl rfl ?_ hless
    rw [hpc]
    simp only [RingPc.inHand, RingState.goto]
    omega
  · -- an entry
    rename_i work name entries hpc
    rw [hpc] at hok
    split at hs
    · rename_i hdir
      obtain rfl := Option.some.inj hs
      refine h.goto rfl rfl ?_ (hok hdir)
      rw [hpc]
      simp only [RingPc.inHand, RingState.goto]
      omega
    · obtain rfl := Option.some.inj hs
      refine h.goto rfl rfl ?_ hbounded
      rw [hpc]
      exact le_refl _
  · -- `push` is called for a subdirectory
    rename_i work p entries hpc
    refine h.act (by trivial) hs fun q _ => ?_
    rw [hpc]
    simp [RingPc.inHand, QueueState.handsOut]
  · -- in that `push`
    rename_i work entries hpc
    refine h.act (by trivial) hs fun q _ => ?_
    have hout := handsOut_owner_nonneg (s.worker_queues id)
    rw [hpc, afterPush]
    split
    · simp only [RingPc.inHand]
      omega
    · simp only [RingPc.inHand]
      omega
  · cases hs

/-- The workers are started with what was dealt. -/
theorem ringInv_start {n : WorkerCount} {s : RingState n.val} (h : Started t n s) : RingInv s := by
  cases h with
  | @start names run s₀ hdir hnames hsubdirs hrun hdone =>
    generalize hdirs : (collect_level t [] names (0, [])).2 = subdirs at hrun hdone
    obtain ⟨hqueues, hfits⟩ := (DistributeState.distributeInv_run hrun).of_done hdone
    have hitems : ∀ id, (((s₀.queues id).opened : QueueState QueuedPath (Fin n.val)).items) =
        (dealt n subdirs id).length := by
      intro id
      rw [hqueues]
      simp [QueueState.items, QueueState.opened, QueueState.logicalBottom,
        DistributeState.dealtQueues, QueueState.filled, OwnerPc.inHand, ThiefPc.claimed]
    have hcard := congrArg Multiset.card (sum_dealt n subdirs)
    rw [Multiset.card_sum] at hcard
    simp only [Multiset.coe_card] at hcard
    refine ⟨?_, ?_, ?_⟩
    · intro id
      have hfit := hfits id
      refine ⟨?_, ?_, trivial, trivial, fun _ => trivial⟩
      · dsimp only [startWorkers, QueueState.opened, QueueState.logicalBottom]
        rw [hqueues]
        exact Int.natCast_nonneg _
      · dsimp only [startWorkers, QueueState.opened, QueueState.logicalBottom]
        rw [hqueues]
        dsimp only [DistributeState.dealtQueues, QueueState.filled]
        omega
    · dsimp only [startWorkers]
      rw [Finset.sum_congr rfl fun id _ => hitems id, ← Nat.cast_sum, hcard]
      simp [RingPc.inHand]
    · dsimp only [startWorkers]
      have hle := hfits.length_le
      have hpos := n.pos
      have hcast : ((n.val * (Capacity.default.limit + 2) : ℕ) : ℤ) =
          n.val * (Capacity.default.limit + 2) := by push_cast; ring
      have hlt : subdirs.length < n.val * (Capacity.default.limit + 2) := by
        rw [Nat.mul_add]
        rw [Nat.mul_comm] at hle
        omega
      omega

/-- **Workers that keep space are never stuck**: in every state that they reach. -/
theorem noneStuck_run {n : WorkerCount} {s₀ s : RingState n.val}
    {run : List (Fin n.val × StatEvent)} (hstart : Started t n s₀)
    (hmeets : Runs.Meets (RingState.step t) (KeepsSpace t) s₀ run)
    (hrun : Runs.exec (RingState.step t) s₀ run = some s) : s.NoneStuck :=
  (hmeets.invariant (fun _ _ _ h hok hs => h.step hok hs) (ringInv_start hstart) hrun).noneStuck

/-! ## A run -/

instance (q : QueueState QueuedPath (Fin n)) (id : Fin n) : Decidable (q.ClaimSafe (.thief id)) :=
  match h : q.thieves id with
  | .cas t k => decidable_of_iff (q.top = t → 0 ≤ k ∧ t + k ≤ q.logicalBottom)
    (by rw [QueueState.ClaimSafe, h])
  | .idle | .loadTop _ | .loadBottom _ _ | .take _ _ _ =>
    isTrue (by rw [QueueState.ClaimSafe, h]; trivial)

instance (t : Tree) (s : RingState n) (label : Fin n × StatEvent) :
    Decidable (KeepsSpace t s label) :=
  match h : s.workers label.1 with
  | .stealing i _ => decidable_of_iff
    ((s.worker_queues (victim label.1 i)).ClaimSafe (.thief label.1)) (by rw [KeepsSpace, h])
  | .read work (name :: _) => decidable_of_iff
    (Node.isDirectory (t.find (work.getD [] ++ [name])) = true →
      s.work_counter + 1 < n * (Capacity.default.limit + 2)) (by rw [KeepsSpace, h])
  | .pop | .popping | .steal _ | .pushBatch _ _ | .pushingBatch _ _ | .check | .list _
  | .read _ [] | .push _ _ _ | .pushing _ _ | .left => isTrue (by rw [KeepsSpace, h]; trivial)

/-- Empty directories. -/
def emptyDirectories (names : List Str) : List (Str × Node) :=
  names.map fun name => (name, .directory [])

theorem unique_emptyDirectories {names : List Str} {name : Str} {node : Node}
    (h : (name, node) ∈ emptyDirectories names) : node.Unique := by
  obtain ⟨_, -, heq⟩ := List.mem_map.mp h
  obtain ⟨-, rfl⟩ := Prod.mk.inj heq
  exact .directory List.nodup_nil fun _ _ hin => absurd hin List.not_mem_nil

/-- A workspace with one empty directory. -/
def oneDirectory : Tree where
  root := .directory (emptyDirectories [['d']])
  unique := .directory (by decide) fun _ _ h => unique_emptyDirectories h

/-- A workspace with three directories, the last one of which has three in it. -/
def nestedDirectories : Tree where
  root := .directory (emptyDirectories [['d'], ['e']] ++
    [(['f'], .directory (emptyDirectories [['x'], ['y'], ['z']]))])
  unique := by
    refine .directory (by decide) fun name node h => ?_
    obtain h | h := List.mem_append.mp h
    · exact unique_emptyDirectories h
    · obtain ⟨-, rfl⟩ := Prod.mk.inj (List.mem_singleton.mp h)
      exact .directory (by decide) fun _ _ hin => unique_emptyDirectories hin

/-- Steps of one worker that list nothing. -/
def goes (id : Fin 2) (k : ℕ) : List (Fin 2 × StatEvent) := List.replicate k (id, .go)

/-- A worker lists an empty directory and is done with it. -/
def listsNothing (id : Fin 2) : List (Fin 2 × StatEvent) := [(id, .listed []), (id, .go)]

/-- The first worker pops the last directory and pushes the three in it. The second one is done with
its own and steals; between its read of `bottom` and its CAS, which claims two of the four
directories, the first one pops another. The second one pushes what it stole and does not work on.
Then they do what is left, and leave. -/
def shareNested (first second : Fin 2) : List (Fin 2 × StatEvent) :=
  goes first 5 ++ [(first, .listed [['x'], ['y'], ['z']])] ++ goes first 18 ++
  goes second 7 ++ listsNothing second ++ goes second 8 ++ goes first 6 ++ goes second 9 ++
  listsNothing first ++ listsNothing second ++ goes first 7 ++ goes second 7 ++
  listsNothing first ++ listsNothing second ++ goes first 10 ++ goes second 10

/-- Its directories are dealt to two workers. -/
def dealNested : DistributeState ⟨2, Nat.two_pos⟩ :=
  (Runs.exec DistributeState.step (.start _ (collect_level nestedDirectories []
    [['d'], ['e'], ['f']] (0, [])).2) (List.replicate 18 ())).getD (.start _ [])

theorem noneStuck_run_shareNested : ∃ s : RingState 2,
    Started nestedDirectories ⟨2, Nat.two_pos⟩ (.startWorkers dealNested 3) ∧
    Runs.exec (RingState.step nestedDirectories) (.startWorkers dealNested 3) (shareNested 0 1) =
      some s ∧ s.work_counter = 0 ∧ s.NoneStuck := by
  have hdistribute : Runs.exec DistributeState.step (.start ⟨2, Nat.two_pos⟩
      (collect_level nestedDirectories [] [['d'], ['e'], ['f']] (0, [])).2)
      (List.replicate 18 ()) = some dealNested := rfl
  have hstart : Started nestedDirectories ⟨2, Nat.two_pos⟩ (.startWorkers dealNested 3) :=
    .start rfl (List.Subperm.refl _) (by decide) hdistribute ⟨3, rfl⟩
  have hmeets : Runs.Meets (RingState.step nestedDirectories) (KeepsSpace nestedDirectories)
      (.startWorkers dealNested 3) (shareNested 0 1) := of_decide_eq_true (by decide +kernel)
  have hruns : (Runs.exec (RingState.step nestedDirectories) (.startWorkers dealNested 3)
      (shareNested 0 1)).any (fun s => s.work_counter = 0) = true := by decide +kernel
  obtain ⟨s, hrun, hcounter⟩ := (Option.any_eq_true _ _).mp hruns
  exact ⟨s, hstart, hrun, of_decide_eq_true hcounter, noneStuck_run hstart hmeets hrun⟩

end RingState

end HpcWorkspace
