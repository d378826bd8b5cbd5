import Mathlib.Data.Nat.SuccPred
import HpcWorkspace.ParallelStatExact
import HpcWorkspace.WorkQueueSafe

/-!
# The initial distribution of `ws_stat`

`stat_workspace` spreads the subdirectories of the top level over the queues of its workers before
it starts the first of them. `push` waits while its queue is nearly full, until a thief has taken
something out: here there is no thief, so the loop ends only when no queue gets more than the limit
of its ring.
-/

namespace HpcWorkspace

universe u v

/-! ## The loop -/

theorem WorkerCount.mod_lt (n : WorkerCount) (i : ℕ) : i % n.val < n.val := Nat.mod_lt i n.pos

/-- `worker_queues[i % worker_count]` -/
def turn (n : WorkerCount) (i : ℕ) : Fin n.val := ⟨i % n.val, n.mod_lt i⟩

/-- Where the loop over the subdirectories is. -/
inductive DistributePc where
  /-- at the head of the loop, with the subdirectories from the `i`-th on -/
  | loop (i : ℕ) (subdirs : List StatPath)
  /-- in the `push` of the `i`-th one -/
  | pushing (i : ℕ) (subdirs : List StatPath)

/-- The state of `stat_workspace` before it starts the workers: no queue has a thief. -/
structure DistributeState (n : WorkerCount) where
  /-- `worker_queues` -/
  queues : Fin n.val → QueueState StatPath Empty
  /-- the program point -/
  pc : DistributePc

namespace DistributeState

variable {n : WorkerCount}

/-- The loop starts with new queues. -/
def start (n : WorkerCount) (subdirs : List StatPath) : DistributeState n :=
  ⟨fun _ => .init, .loop 0 subdirs⟩

/-- An action on a queue. -/
def act (s : DistributeState n) (id : Fin n.val) (a : QueueAct StatPath Empty)
    (pc : DistributePc) : Option (DistributeState n) :=
  ((s.queues id).step .default a).map fun q => ⟨Function.update s.queues id q, pc⟩

/-- The next step of the loop, or of the `push` it is in. -/
def step (s : DistributeState n) (_ : Unit) : Option (DistributeState n) :=
  match s.pc with
  | .loop _ [] => none
  | .loop i (p :: subdirs) => s.act (turn n i) (.push p) (.pushing i subdirs)
  | .pushing i subdirs =>
    match (s.queues (turn n i)).owner with
    | .idle => some { s with pc := .loop (i + 1) subdirs }
    | _ => s.act (turn n i) .owner (.pushing i subdirs)

/-- All pushes have completed. -/
def Done (s : DistributeState n) : Prop := ∃ i, s.pc = .loop i []

end DistributeState

/-- What lies in a queue between its two counters. -/
def QueueState.contents {α : Type u} {θ : Type v} (c : Capacity) (q : QueueState α θ) :
    List (Option α) :=
  (List.range (q.bottom - q.top).toNat).map fun (k : ℕ) =>
    (q.slots (slotIndex c (q.top + k))).bind fun item => q.pushed[item]?

/-- The distribution finishes: the loop ends after finitely many steps, and then the queues hold
each subdirectory as often as it was found, and one that was found once is in exactly one queue. -/
def DistributionFinishes (n : WorkerCount) (subdirs : List StatPath) : Prop :=
  ∃ (run : List Unit) (s : DistributeState n),
    Runs.exec DistributeState.step (.start n subdirs) run = some s ∧ s.Done ∧
      ∑ id, ((s.queues id).contents .default : Multiset (Option StatPath)) =
        (subdirs.map some : List (Option StatPath)) ∧
      (subdirs.Nodup → ∀ p ∈ subdirs, ∃! id, some p ∈ (s.queues id).contents .default)

/-! ## A queue without thieves -/

namespace QueueState

variable {α : Type u} {θ : Type v}

/-- A queue into which the items of a list were pushed, and nobody took one out. -/
def filled (l : List α) : QueueState α θ where
  bottom := l.length
  top := 0
  slots k := if k < l.length then some k else none
  owner := .idle
  thieves _ := .idle
  pushed := l
  returned := []

theorem filled_nil : (filled [] : QueueState α θ) = init := by
  simp [filled, init]

/-- A position inside the ring uses the slot of its number. -/
theorem slotIndex_natCast {c : Capacity} {k : ℕ} (h : k < c.val) : slotIndex c k = k := by
  rw [slotIndex_eq_emod, Int.emod_eq_of_lt (by omega) (by omega), Int.toNat_natCast]

/-- The distance that `push` compares with the limit. -/
theorem sizeT_natCast {c : Capacity} {k : ℕ} (h : k ≤ c.val) : sizeT ((k : ℤ) - 0) = k := by
  have hcast := sizeT_of_le (c := c) (z := (k : ℤ) - 0) (by omega) (by omega)
  omega

/-- The queue holds the items of the list. -/
theorem contents_filled {c : Capacity} {l : List α} (h : l.length ≤ c.val) :
    (filled l : QueueState α θ).contents c = l.map some := by
  have hlength : ((filled l : QueueState α θ).bottom - (filled l : QueueState α θ).top).toNat =
      l.length := by
    simp [filled]
  rw [contents, hlength]
  apply List.ext_getElem
  · simp
  · intro k hk _
    rw [List.length_map, List.length_range] at hk
    have hslot : slotIndex c ((filled l : QueueState α θ).top + k) = k := by
      simp only [filled, zero_add]
      exact slotIndex_natCast (by omega)
    rw [List.getElem_map, List.getElem_range, List.getElem_map, hslot]
    simp [filled, hk]

/-- Storing the next item and publishing it. -/
theorem filled_append {c : Capacity} {l : List α} (item : α) (h : l.length < c.val) :
    ({ (filled l : QueueState α θ) with
        slots := Function.update (filled l : QueueState α θ).slots (slotIndex c l.length)
          (some l.length)
        pushed := l ++ [item]
        bottom := l.length + 1 } : QueueState α θ) = filled (l ++ [item]) := by
  have hslots : Function.update (filled l : QueueState α θ).slots (slotIndex c l.length)
      (some l.length) = (filled (l ++ [item]) : QueueState α θ).slots := by
    rw [slotIndex_natCast h]
    funext k
    by_cases hk : k = l.length
    · simp [filled, hk]
    · have hiff : k < l.length ↔ k ≤ l.length := by omega
      simp [filled, Function.update_of_ne hk, hiff]
  rw [hslots]
  simp [filled]

/-- A queue in the `push` of an item, after the items of a list. -/
inductive PushStage (c : Capacity) (l : List α) (item : α) : QueueState α θ → Prop where
  /-- `bottom_` is loaded next -/
  | loadBottom : PushStage c l item { filled l with owner := .pushLoadBottom item }
  /-- `top_` is loaded next and compared with the limit -/
  | loadTop : PushStage c l item { filled l with owner := .pushLoadTop item l.length }
  /-- there was space: the item is stored next -/
  | store (h : l.length < c.limit) :
    PushStage c l item { filled l with owner := .pushStore item l.length }
  /-- it is published next -/
  | publish (h : l.length < c.limit) : PushStage c l item
      { (filled (l ++ [item]) : QueueState α θ) with
        bottom := l.length, owner := .pushPublish l.length }
  /-- `push` has returned -/
  | pushed (h : l.length < c.limit) : PushStage c l item (filled (l ++ [item]))

variable {c : Capacity} {l : List α} {item : α} {q q' : QueueState α θ}

/-- `push` returns only from a queue with space, and leaves the item behind the others. -/
theorem PushStage.of_idle (h : PushStage c l item q) (ho : q.owner = .idle) :
    l.length < c.limit ∧ q = filled (l ++ [item]) := by
  cases h with
  | loadBottom => cases ho
  | loadTop => cases ho
  | store hroom => cases ho
  | publish hroom => cases ho
  | pushed hroom => exact ⟨hroom, rfl⟩

/-- **Step lemma.** The steps of `push` go through its stages. -/
theorem PushStage.ownerStep (h : PushStage c l item q) (hlength : l.length ≤ c.val)
    (hs : q.ownerStep c = some q') : PushStage c l item q' := by
  have hlimit := c.limit_le
  cases h with
  | loadBottom =>
    obtain rfl := Option.some.inj hs
    exact .loadTop
  | loadTop =>
    dsimp only [QueueState.ownerStep] at hs
    split at hs
    · obtain rfl := Option.some.inj hs
      exact .loadBottom
    · rename_i hsize
      obtain rfl := Option.some.inj hs
      refine .store ?_
      rw [← sizeT_natCast hlength]
      exact not_le.mp hsize
  | store hroom =>
    obtain rfl := Option.some.inj hs
    have hnext := filled_append (θ := θ) item (hroom.trans_le hlimit)
    have hpublish : PushStage c l item { (filled (l ++ [item]) : QueueState α θ) with
        bottom := l.length, owner := .pushPublish l.length } := .publish hroom
    rw [← hnext] at hpublish
    exact hpublish
  | publish hroom =>
    obtain rfl := Option.some.inj hs
    have hpushed : PushStage c l item (filled (l ++ [item]) : QueueState α θ) := .pushed hroom
    have hbottom : ((l.length : ℤ) + 1) = ((l ++ [item]).length : ℤ) := by simp
    rw [hbottom]
    exact hpushed
  | pushed hroom => cases hs

end QueueState

/-! ## Dealing in turn -/

/-- The subdirectories that a queue has got when those of a list were pushed. -/
def dealt (n : WorkerCount) (l : List StatPath) (id : Fin n.val) : List StatPath :=
  (l.zipIdx.filter fun e => turn n e.2 = id).map Prod.fst

section Dealt

variable {n : WorkerCount} {l : List StatPath} {p : StatPath} {id : Fin n.val}

/-- The next one goes to the queue whose turn it is. -/
theorem dealt_append : dealt n (l ++ [p]) id =
    if turn n l.length = id then dealt n l id ++ [p] else dealt n l id := by
  rw [dealt, List.zipIdx_append, List.filter_append, List.map_append]
  split
  · rename_i hid
    simp [dealt, hid]
  · rename_i hid
    simp [dealt, hid]

/-- The queues after a push. -/
theorem update_dealt {c : Type v} (f : List StatPath → c) :
    Function.update (fun id => f (dealt n l id)) (turn n l.length)
      (f (dealt n l (turn n l.length) ++ [p])) = fun id => f (dealt n (l ++ [p]) id) := by
  funext id
  rw [dealt_append]
  by_cases hid : turn n l.length = id
  · rw [if_pos hid, hid, Function.update_self]
  · rw [if_neg hid, Function.update_of_ne (Ne.symm hid)]

/-- A queue has got one in a full round, and one more when its turn was in the last one. -/
theorem length_dealt : (dealt n l id).length =
    l.length / n.val + if id.val < l.length % n.val then 1 else 0 := by
  induction l using List.reverseRecOn with
  | nil => simp [dealt]
  | append_singleton l p ih =>
    have hmod := Nat.mod_lt l.length n.pos
    have hdiv := Nat.mod_add_div l.length n.val
    have hid := id.isLt
    have hturn : turn n l.length = id ↔ l.length % n.val = id.val := Fin.ext_iff
    have hlength : (dealt n (l ++ [p]) id).length =
        (dealt n l id).length + if l.length % n.val = id.val then 1 else 0 := by
      rw [dealt_append]
      by_cases htarget : turn n l.length = id
      · rw [if_pos htarget, if_pos (hturn.mp htarget), List.length_append, List.length_singleton]
      · rw [if_neg htarget, if_neg fun h => htarget (hturn.mpr h), Nat.add_zero]
    rw [hlength, ih, List.length_append, List.length_singleton]
    by_cases hlast : l.length % n.val + 1 = n.val
    · -- the round is full with it
      obtain ⟨hdiv', hmod'⟩ := (Nat.div_mod_unique n.pos).mpr
        (⟨by rw [Nat.mul_succ]; omega, n.pos⟩ :
          0 + n.val * (l.length / n.val + 1) = l.length + 1 ∧ 0 < n.val)
      rw [hdiv', hmod']
      split <;> split <;> simp <;> omega
    · obtain ⟨hdiv', hmod'⟩ := (Nat.div_mod_unique n.pos).mpr
        (⟨by omega, by omega⟩ : l.length % n.val + 1 + n.val * (l.length / n.val) =
          l.length + 1 ∧ l.length % n.val + 1 < n.val)
      rw [hdiv', hmod']
      split <;> split <;> split <;> omega

/-- What a queue has got has its place in the list. -/
theorem mem_dealt : p ∈ dealt n l id ↔ ∃ i, l[i]? = some p ∧ turn n i = id := by
  rw [dealt, List.mem_map]
  constructor
  · rintro ⟨⟨q, i⟩, he, rfl⟩
    obtain ⟨he, hid⟩ := List.mem_filter.mp he
    exact ⟨i, List.mem_zipIdx_iff_getElem?.mp he, of_decide_eq_true hid⟩
  · rintro ⟨i, hp, hid⟩
    exact ⟨(p, i), List.mem_filter.mpr
      ⟨List.mem_zipIdx_iff_getElem?.mpr hp, decide_eq_true hid⟩, rfl⟩

end Dealt

/-- What the queues have got is what `distribute` deals. -/
theorem distribute_append (n : WorkerCount) (l l' : List StatPath) (i : ℕ)
    (queues : Fin n.val → Multiset StatPath) : distribute n (l ++ l') i queues =
      distribute n l' (i + l.length) (distribute n l i queues) := by
  induction l generalizing i queues with
  | nil => rfl
  | cons p l ih =>
    rw [List.cons_append, distribute, distribute, ih, List.length_cons, Nat.add_right_comm]
    rfl

theorem distribute_eq_dealt (n : WorkerCount) (l : List StatPath) :
    distribute n l 0 (fun _ => 0) = fun id => (dealt n l id : Multiset StatPath) := by
  induction l using List.reverseRecOn with
  | nil => rfl
  | append_singleton l p ih =>
    rw [distribute_append, ih, Nat.zero_add, distribute, distribute,
      ← update_dealt fun l => (l : Multiset StatPath)]
    apply congrArg
    rw [← Multiset.coe_add, add_comm]
    rfl

/-- The queues have got all of it. -/
theorem sum_dealt (n : WorkerCount) (l : List StatPath) :
    ∑ id, (dealt n l id : Multiset StatPath) = l := by
  induction l using List.reverseRecOn with
  | nil => simp [dealt]
  | append_singleton l p ih =>
    have hnext : ∀ id, (dealt n (l ++ [p]) id : Multiset StatPath) =
        dealt n l id + if turn n l.length = id then {p} else 0 := by
      intro id
      rw [dealt_append]
      split
      · exact (Multiset.coe_add _ _).symm
      · exact (add_zero _).symm
    rw [Finset.sum_congr rfl fun id _ => hnext id, Finset.sum_add_distrib, ih,
      Finset.sum_ite_eq, if_pos (Finset.mem_univ _), ← Multiset.coe_add]
    rfl

/-! ## Runs of the loop -/

namespace DistributeState

variable {n : WorkerCount} {subdirs : List StatPath}

/-- The queues when a list was dealt. -/
def dealtQueues (n : WorkerCount) (l : List StatPath) (id : Fin n.val) :
    QueueState StatPath Empty :=
  .filled (dealt n l id)

/-- No queue has got more than the limit of its ring. -/
def Fits (n : WorkerCount) (l : List StatPath) : Prop :=
  ∀ id, (dealt n l id).length ≤ Capacity.default.limit

/-- The invariant: what the loop has passed was dealt and has found room, and the queue whose turn
it is may be in a `push`. -/
inductive DistributeInv (subdirs : List StatPath) : DistributeState n → Prop where
  /-- at the head of the loop -/
  | loop {l rest : List StatPath} (hsplit : subdirs = l ++ rest) (hfits : Fits n l) :
    DistributeInv subdirs ⟨dealtQueues n l, .loop l.length rest⟩
  /-- in a `push` -/
  | pushing {l rest : List StatPath} {p : StatPath} {q : QueueState StatPath Empty}
    (hsplit : subdirs = l ++ p :: rest) (hfits : Fits n l)
    (hq : QueueState.PushStage .default (dealt n l (turn n l.length)) p q) :
    DistributeInv subdirs
      ⟨Function.update (dealtQueues n l) (turn n l.length) q, .pushing l.length rest⟩

theorem distributeInv_start : DistributeInv subdirs (start n subdirs) := by
  have hqueues : (fun _ => .init : Fin n.val → QueueState StatPath Empty) = dealtQueues n [] := by
    funext id
    exact QueueState.filled_nil.symm
  rw [start, hqueues]
  exact .loop rfl fun _ => Nat.zero_le _

theorem Fits.append {l : List StatPath} {p : StatPath} (h : Fits n l)
    (hroom : (dealt n l (turn n l.length)).length < Capacity.default.limit) :
    Fits n (l ++ [p]) := by
  intro id
  rw [dealt_append]
  split
  · rename_i hid
    rw [List.length_append, List.length_singleton, ← hid]
    exact hroom
  · exact h id

/-- **Step lemma.** A step goes through the stages of a `push`, or from one to the next. -/
theorem DistributeInv.step {s s' : DistributeState n} (h : DistributeInv subdirs s)
    (hs : s.step () = some s') : DistributeInv subdirs s' := by
  cases h with
  | @loop l rest hsplit hfits =>
    cases rest with
    | nil => cases hs
    | cons p rest =>
      obtain rfl := Option.some.inj hs
      exact .pushing hsplit hfits .loadBottom
  | @pushing l rest p q hsplit hfits hq =>
    dsimp only [DistributeState.step] at hs
    rw [Function.update_self] at hs
    split at hs
    · -- `push` has returned
      rename_i hidle
      obtain ⟨hroom, rfl⟩ := hq.of_idle hidle
      obtain rfl := Option.some.inj hs
      have hqueues : Function.update (dealtQueues n l) (turn n l.length)
          (.filled (dealt n l (turn n l.length) ++ [p])) = dealtQueues n (l ++ [p]) :=
        update_dealt QueueState.filled
      have hlength : l.length + 1 = (l ++ [p]).length := by simp
      rw [hqueues, hlength]
      exact .loop (by rw [hsplit]; simp) (hfits.append hroom)
    · obtain ⟨q', hq', rfl⟩ := Option.map_eq_some_iff.mp hs
      dsimp only at hq' ⊢
      rw [Function.update_self] at hq'
      rw [Function.update_idem]
      have hlength := (hfits (turn n l.length)).trans Capacity.default.limit_le
      exact .pushing hsplit hfits (hq.ownerStep hlength hq')

/-- **Run lemma.** -/
theorem distributeInv_run {run : List Unit} {s : DistributeState n}
    (hr : Runs.exec step (start n subdirs) run = some s) : DistributeInv subdirs s :=
  Runs.exec_invariant (fun _ _ _ h hs => h.step hs) distributeInv_start hr

/-- When all pushes have completed, all was dealt and has found room. -/
theorem DistributeInv.of_done {s : DistributeState n} (h : DistributeInv subdirs s)
    (hdone : s.Done) : s.queues = dealtQueues n subdirs ∧ Fits n subdirs := by
  obtain ⟨i, hpc⟩ := hdone
  cases h with
  | loop hsplit hfits =>
    obtain ⟨-, rfl⟩ := DistributePc.loop.inj hpc
    rw [List.append_nil] at hsplit
    exact ⟨by rw [hsplit], hsplit ▸ hfits⟩
  | pushing hsplit hfits hq => cases hpc

/-- What fits is no more than the limit for each worker. -/
theorem Fits.length_le (h : Fits n subdirs) :
    subdirs.length ≤ Capacity.default.limit * n.val := by
  have hcard := congrArg Multiset.card (sum_dealt n subdirs)
  rw [Multiset.card_sum] at hcard
  calc subdirs.length = ∑ id, (dealt n subdirs id).length := hcard.symm
    _ ≤ ∑ _id : Fin n.val, Capacity.default.limit := Finset.sum_le_sum fun id _ => h id
    _ = Capacity.default.limit * n.val := by
      rw [Finset.sum_const, Finset.card_univ, Fintype.card_fin, smul_eq_mul, Nat.mul_comm]

/-- A step inside a `push`. -/
theorem step_pushing {queues : Fin n.val → QueueState StatPath Empty} {i : ℕ}
    {rest : List StatPath} {q q' : QueueState StatPath Empty}
    (hq : q.ownerStep .default = some q') :
    step ⟨Function.update queues (turn n i) q, .pushing i rest⟩ () =
      some ⟨Function.update queues (turn n i) q', .pushing i rest⟩ := by
  dsimp only [step]
  rw [Function.update_self]
  split
  · rename_i hidle
    rw [QueueState.ownerStep, hidle] at hq
    cases hq
  · dsimp only [act]
    rw [Function.update_self, QueueState.step, hq, Option.map_some, Function.update_idem]

/-- `push` returns to the loop. -/
theorem step_return {queues : Fin n.val → QueueState StatPath Empty} {i : ℕ}
    {l rest : List StatPath} :
    step ⟨Function.update queues (turn n i) (.filled l), .pushing i rest⟩ () =
      some ⟨Function.update queues (turn n i) (.filled l), .loop (i + 1) rest⟩ := by
  dsimp only [step]
  rw [Function.update_self]
  rfl

/-- A `push` into a queue with space takes six steps, with the call and the return. -/
theorem exec_push {l rest : List StatPath} {p : StatPath}
    (hroom : (dealt n l (turn n l.length)).length < Capacity.default.limit) :
    Runs.exec step (⟨dealtQueues n l, .loop l.length (p :: rest)⟩ : DistributeState n)
        (List.replicate 6 ()) =
      some ⟨dealtQueues n (l ++ [p]), .loop (l ++ [p]).length rest⟩ := by
  have hsize : ¬sizeT (((dealt n l (turn n l.length)).length : ℤ) - 0) ≥
      Capacity.default.limit := by
    rw [QueueState.sizeT_natCast (hroom.le.trans Capacity.default.limit_le)]
    exact not_le.mpr hroom
  refine Runs.exec_cons_eq_some.mpr ⟨_, rfl, ?_⟩
  refine Runs.exec_cons_eq_some.mpr ⟨_, step_pushing rfl, ?_⟩
  refine Runs.exec_cons_eq_some.mpr ⟨_, step_pushing (if_neg hsize), ?_⟩
  refine Runs.exec_cons_eq_some.mpr ⟨_, step_pushing rfl, ?_⟩
  refine Runs.exec_cons_eq_some.mpr ⟨_, step_pushing rfl, ?_⟩
  -- the queue is the one with the item behind the others
  have hnext := QueueState.filled_append (θ := Empty) p
    (hroom.trans_le Capacity.default.limit_le)
  refine (congrArg (fun q => Runs.exec step (⟨Function.update (dealtQueues n l) (turn n l.length) q,
    .pushing l.length rest⟩ : DistributeState n) [()]) hnext).trans ?_
  refine Runs.exec_cons_eq_some.mpr ⟨_, step_return, ?_⟩
  rw [Runs.exec_nil, List.length_append, List.length_singleton]
  have hqueues := update_dealt (n := n) (l := l) (p := p) (QueueState.filled (θ := Empty))
  exact congrArg (fun queues => some (⟨queues, .loop (l.length + 1) rest⟩ : DistributeState n))
    hqueues

/-- While there is space for all of it, the loop goes on to its end. -/
theorem exec_loop {l rest : List StatPath}
    (hlength : (l ++ rest).length ≤ Capacity.default.limit * n.val) :
    ∃ run, Runs.exec step (⟨dealtQueues n l, .loop l.length rest⟩ : DistributeState n) run =
      some ⟨dealtQueues n (l ++ rest), .loop (l ++ rest).length []⟩ := by
  induction rest generalizing l with
  | nil => exact ⟨[], by rw [List.append_nil]; rfl⟩
  | cons p rest ih =>
    have hroom : (dealt n l (turn n l.length)).length < Capacity.default.limit := by
      have hturn : ¬(turn n l.length).val < l.length % n.val := lt_irrefl _
      rw [length_dealt, if_neg hturn, Nat.add_zero, Nat.div_lt_iff_lt_mul n.pos]
      rw [List.length_append, List.length_cons] at hlength
      omega
    have hassoc : l ++ p :: rest = (l ++ [p]) ++ rest := by simp
    rw [hassoc] at hlength ⊢
    obtain ⟨run, hrun⟩ := ih hlength
    refine ⟨List.replicate 6 () ++ run, ?_⟩
    rw [Runs.exec_append, exec_push hroom]
    exact hrun

end DistributeState

/-! ## The result -/

open DistributeState

variable {n : WorkerCount} {subdirs : List StatPath}

/-- When all was dealt, the queues hold all of it. -/
theorem sum_contents_dealt (h : Fits n subdirs) :
    ∑ id, ((dealtQueues n subdirs id).contents .default : Multiset (Option StatPath)) =
      (subdirs.map some : List (Option StatPath)) := by
  have hcontents : ∀ id, ((dealtQueues n subdirs id).contents .default :
      Multiset (Option StatPath)) = Multiset.mapAddMonoidHom some ↑(dealt n subdirs id) := by
    intro id
    rw [dealtQueues, QueueState.contents_filled ((h id).trans Capacity.default.limit_le)]
    rfl
  rw [Finset.sum_congr rfl fun id _ => hcontents id, ← map_sum, sum_dealt]
  rfl

/-- A subdirectory that was found once is in the queue whose turn it was. -/
theorem existsUnique_contents_dealt (h : Fits n subdirs) (hnodup : subdirs.Nodup) {p : StatPath}
    (hp : p ∈ subdirs) : ∃! id, some p ∈ (dealtQueues n subdirs id).contents .default := by
  have hcontents : ∀ id, some p ∈ (dealtQueues n subdirs id).contents .default ↔
      p ∈ dealt n subdirs id := by
    intro id
    rw [dealtQueues, QueueState.contents_filled ((h id).trans Capacity.default.limit_le)]
    simp
  simp only [hcontents, mem_dealt]
  obtain ⟨i, hi⟩ := List.mem_iff_getElem?.mp hp
  refine ⟨turn n i, ⟨i, hi, rfl⟩, ?_⟩
  rintro id ⟨j, hj, rfl⟩
  have hij : i = j :=
    (List.getElem?_inj (List.getElem?_eq_some_iff.mp hi).1 hnodup).mp (hi.trans hj.symm)
  rw [hij]

/-- The workers are started with what the loop has put into the queues. -/
theorem contents_of_done {run : List Unit} {s : DistributeState n}
    (hr : Runs.exec step (start n subdirs) run = some s) (hdone : s.Done) (id : Fin n.val) :
    ((s.queues id).contents .default : Multiset (Option StatPath)) =
      ((startWorkers n subdirs).queues id).map some := by
  obtain ⟨hqueues, hfits⟩ := (distributeInv_run hr).of_done hdone
  rw [hqueues, dealtQueues,
    QueueState.contents_filled ((hfits id).trans Capacity.default.limit_le), startWorkers,
    distribute_eq_dealt]
  rfl

/-- **The initial distribution finishes exactly when no queue gets more than the limit of its
ring**, 922 subdirectories for each worker. -/
theorem distributionFinishes_iff (n : WorkerCount) (subdirs : List StatPath) :
    DistributionFinishes n subdirs ↔ subdirs.length ≤ 922 * n.val := by
  constructor
  · rintro ⟨run, s, hrun, hdone, -⟩
    exact ((distributeInv_run hrun).of_done hdone).2.length_le
  · intro hlength
    obtain ⟨run, hrun⟩ := @exec_loop n [] subdirs hlength
    have hstart : (⟨dealtQueues n [], .loop 0 subdirs⟩ : DistributeState n) = start n subdirs := by
      rw [start]
      congr 1
    rw [List.nil_append, List.length_nil, hstart] at hrun
    obtain ⟨-, hfits⟩ := (distributeInv_run hrun).of_done ⟨subdirs.length, rfl⟩
    exact ⟨run, _, hrun, ⟨subdirs.length, rfl⟩, sum_contents_dealt hfits,
      fun hnodup p hp => existsUnique_contents_dealt hfits hnodup hp⟩

/-- Subdirectories with the names `0`, `1`, …. -/
def numbered (count : ℕ) : List StatPath := (List.range count).map fun (k : ℕ) => [fmtLong k]

theorem nodup_numbered (count : ℕ) : (numbered count).Nodup := by
  refine List.Nodup.map ?_ List.nodup_range
  intro k k' h
  have hname : fmtLong k = fmtLong k' := List.head_eq_of_cons_eq h
  have hk := fmtLong_inj (Int.natCast_nonneg k) (Int.natCast_nonneg k') hname
  exact Int.ofNat.inj hk

/-- With 4 workers, the loop waits forever in the push of the 3689th subdirectory. -/
theorem not_distributionFinishes :
    (numbered 3689).Nodup ∧ ¬DistributionFinishes ⟨4, by decide⟩ (numbered 3689) := by
  refine ⟨nodup_numbered 3689, ?_⟩
  rintro ⟨run, s, hrun, hdone, -⟩
  have hlength := ((distributeInv_run hrun).of_done hdone).2.length_le
  rw [numbered, List.length_map, List.length_range] at hlength
  exact absurd hlength (by decide)

end HpcWorkspace
