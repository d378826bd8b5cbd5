import Mathlib.Algebra.Order.BigOperators.Group.Finset
import Mathlib.Algebra.Order.Group.Multiset
import HpcWorkspace.ParallelStat

/-!
# The parallel traversal counts what the sequential one does

The directories that are queued, held in a stolen batch or being read are the items of a worklist:
a step of a worker leaves the items as they are or takes one of them. The counter is the number of
items, so it is 0 only when none is left; and what the workers have counted, together with what the
items are worth, is what a sequential traversal counts.
-/

namespace HpcWorkspace

/-! ## Sums of a traversal -/

/-- What an entry itself adds to a result. -/
def ownResult (entry : Option Node) : StatResult := (0 : StatResult).count entry

/-- What a traversal counts below a file. -/
def belowResult : Option Node → StatResult
  | some node => node.traverseBelow 0
  | none => 0

/-- What an entry adds, with all below it. -/
def totalResult (entry : Option Node) : StatResult := ownResult entry + belowResult entry

theorem count_eq (r : StatResult) (entry : Option Node) : r.count entry = r + ownResult entry := by
  rcases entry with - | node
  · exact (add_zero r).symm
  · cases node with
    | symlink =>
      exact StatResult.ext (add_zero _).symm (congrArg (r.softlinks + ·) (zero_add 1).symm)
        (add_zero _).symm (add_zero _).symm (add_zero _).symm
    | directory entries =>
      exact StatResult.ext (add_zero _).symm (add_zero _).symm
        (congrArg (r.directories + ·) (zero_add 1).symm) (add_zero _).symm (add_zero _).symm
    | regular bytes blocks =>
      exact StatResult.ext (congrArg (r.files + ·) (zero_add 1).symm) (add_zero _).symm
        (add_zero _).symm (congrArg (r.bytes + ·) (zero_add bytes).symm)
        (congrArg (r.blocks + ·) (zero_add blocks).symm)
    | other => exact (add_zero r).symm

mutual

/-- A traversal adds to the result it starts with. -/
theorem traverse_eq : ∀ (entries : List (Str × Node)) (r : StatResult),
    traverse entries r = r + traverse entries 0
  | [], r => (add_zero r).symm
  | e :: entries, r => by
    rw [traverse, traverse, traverse_eq entries, traverse_eq entries (traverseEntry e 0),
      traverseEntry_eq e r, add_assoc]

theorem traverseEntry_eq : ∀ (e : Str × Node) (r : StatResult),
    traverseEntry e r = r + traverseEntry e 0
  | (_, node), r => by
    rw [traverseEntry, traverseEntry, traverseBelow_eq node, traverseBelow_eq node (StatResult.count 0 _),
      count_eq, add_assoc, ← ownResult]

theorem traverseBelow_eq : ∀ (node : Node) (r : StatResult),
    node.traverseBelow r = r + node.traverseBelow 0
  | .directory entries, r => traverse_eq entries r
  | .symlink, r => (add_zero r).symm
  | .regular _ _, r => (add_zero r).symm
  | .other, r => (add_zero r).symm

end

/-- **Sum of a directory.** A traversal counts each entry with all below it. -/
theorem traverse_eq_sum (entries : List (Str × Node)) :
    traverse entries 0 = (entries.map fun e => totalResult (some e.2)).sum := by
  induction entries with
  | nil => rfl
  | cons e entries ih =>
    obtain ⟨name, node⟩ := e
    rw [List.map_cons, List.sum_cons, ← ih, traverse, traverse_eq entries, traverseEntry,
      traverseBelow_eq]
    rfl

/-! ## Paths -/

/-- With unique names a listed entry is the one that is found. -/
theorem lookup_of_mem {entries : List (Str × Node)} (hnodup : (entries.map Prod.fst).Nodup)
    {name : Str} {node : Node} (h : (name, node) ∈ entries) :
    entries.lookup name = some node := by
  induction entries with
  | nil => cases h
  | cons e entries ih =>
    obtain ⟨name', node'⟩ := e
    rw [List.map_cons, List.nodup_cons] at hnodup
    rcases List.mem_cons.mp h with heq | hmem
    · obtain ⟨rfl, rfl⟩ := Prod.mk.inj heq
      exact List.lookup_cons_self
    · have hne : name ≠ name' := by
        rintro rfl
        exact hnodup.1 (List.mem_map.mpr ⟨_, hmem, rfl⟩)
      rw [List.lookup_cons, beq_false_of_ne hne]
      exact ih hnodup.2 hmem

theorem mem_of_lookup {entries : List (Str × Node)} {name : Str} {node : Node}
    (h : entries.lookup name = some node) : (name, node) ∈ entries := by
  induction entries with
  | nil => cases h
  | cons e entries ih =>
    obtain ⟨name', node'⟩ := e
    rw [List.lookup_cons] at h
    split at h
    · rename_i heq
      obtain rfl := eq_of_beq heq
      obtain rfl := Option.some.inj h
      exact List.mem_cons_self
    · exact List.mem_cons_of_mem _ (ih h)

namespace Node

/-- Files below a file with unique names have unique names. -/
theorem Unique.find {node node' : Node} (h : node.Unique) {path : StatPath}
    (hfind : node.find path = some node') : node'.Unique := by
  induction path generalizing node with
  | nil =>
    rw [Node.find] at hfind
    exact Option.some.inj hfind ▸ h
  | cons name path ih =>
    cases h with
    | directory hnodup hbelow =>
      rw [Node.find] at hfind
      split at hfind
      · rename_i node₁ hlookup
        exact ih (hbelow _ _ (mem_of_lookup hlookup)) hfind
      · cases hfind
    | symlink => cases hfind
    | regular => cases hfind
    | other => cases hfind

/-- An entry of a directory is found below its path. -/
theorem find_append {node : Node} {path : StatPath} {entries : List (Str × Node)}
    (h : node.find path = some (.directory entries)) (name : Str) :
    node.find (path ++ [name]) = entries.lookup name := by
  induction path generalizing node with
  | nil =>
    rw [Node.find] at h
    obtain rfl := Option.some.inj h
    rw [List.nil_append, Node.find]
    split
    · rename_i node' hlookup
      rw [Node.find, hlookup]
    · rename_i hlookup
      exact hlookup.symm
  | cons name' path ih =>
    cases node with
    | directory entries' =>
      rw [Node.find] at h
      rw [List.cons_append, Node.find]
      split at h
      · exact ih h
      · cases h
    | symlink => cases h
    | regular bytes blocks => cases h
    | other => cases h

end Node

/-- **Sum of a listing.** What a traversal counts below a path is the sum over the names that are
listed there, in any order. -/
theorem belowResult_eq_sum (t : Tree) (path : StatPath) {names : List Str}
    (h : names.Perm (Node.names (t.find path))) :
    belowResult (t.find path) =
      (names.map fun name => totalResult (t.find (path ++ [name]))).sum := by
  rw [(h.map _).sum_eq]
  cases hfind : t.find path with
  | none => rfl
  | some node =>
    cases node with
    | directory entries =>
      have hunique := t.unique.find hfind
      cases hunique with
      | directory hnodup hbelow =>
        refine (traverse_eq_sum entries).trans ?_
        rw [Node.names, List.map_map]
        congr 1
        refine List.map_congr_left fun e he => ?_
        have hlookup : t.find (path ++ [e.1]) = some e.2 :=
          (Node.find_append hfind e.1).trans (lookup_of_mem hnodup he)
        rw [Function.comp_apply, hlookup]
    | symlink => rfl
    | regular bytes blocks => rfl
    | other => rfl

/-! ## The items -/

/-- A directory that is not done yet. -/
inductive StatItem where
  /-- one that is not listed -/
  | whole (path : StatPath)
  /-- one of which these names are not looked at -/
  | rest (path : StatPath) (names : List Str)

/-- The subdirectory that an entry is, if it is one. -/
def subdirectory (entry : Option Node) (path : StatPath) : Multiset StatItem :=
  if Node.isDirectory entry then {.whole path} else 0

/-- What an item yields and what it leaves, when a worker takes a step with it. -/
inductive Expands (t : Tree) : StatItem → StatResult → Multiset StatItem → Prop where
  /-- it is listed -/
  | list {path : StatPath} {names : List Str} (h : names.Perm (Node.names (t.find path))) :
      Expands t (.whole path) 0 {.rest path names}
  /-- an entry is looked at -/
  | entry {path : StatPath} {name : Str} {names : List Str} :
      Expands t (.rest path (name :: names)) (ownResult (t.find (path ++ [name])))
        (.rest path names ::ₘ subdirectory (t.find (path ++ [name])) (path ++ [name]))
  /-- it is done -/
  | done {path : StatPath} : Expands t (.rest path []) 0 0

/-- What an item is worth. -/
def StatItem.worth (t : Tree) : StatItem → StatResult
  | .whole path => belowResult (t.find path)
  | .rest path names => (names.map fun name => totalResult (t.find (path ++ [name]))).sum

theorem belowResult_of_not_isDirectory {entry : Option Node}
    (h : Node.isDirectory entry = false) : belowResult entry = 0 := by
  rcases entry with - | node
  · rfl
  · cases node with
    | directory entries => cases h
    | symlink => rfl
    | regular bytes blocks => rfl
    | other => rfl

theorem weigh_subdirectory (t : Tree) (path : StatPath) :
    Worklist.weigh (StatItem.worth t) (subdirectory (t.find path) path) =
      belowResult (t.find path) := by
  unfold subdirectory
  split
  · exact Worklist.weigh_singleton _
  · rename_i h
    exact (belowResult_of_not_isDirectory (Bool.not_eq_true _ ▸ h)).symm

/-- An item is worth what it yields and what it leaves. -/
theorem worth_of_expands {t : Tree} {a : StatItem} {r : StatResult} {left : Multiset StatItem}
    (h : Expands t a r left) : a.worth t = r + Worklist.weigh (StatItem.worth t) left := by
  cases h with
  | list hnames =>
    rw [Worklist.weigh_singleton, zero_add]
    exact belowResult_eq_sum t _ hnames
  | entry =>
    rw [Worklist.weigh_cons, weigh_subdirectory, StatItem.worth, StatItem.worth, List.map_cons,
      List.sum_cons, totalResult]
    ac_rfl
  | done => exact (add_zero 0).symm

/-- The items a worker holds: a stolen batch, and the directory it processes. -/
def WorkerPc.items : WorkerPc → Multiset StatItem
  | .pushBatch work stolen_batch => .whole work ::ₘ (stolen_batch : Multiset StatPath).map .whole
  | .list work => {.whole work}
  | .read work entries => {.rest work entries}
  | .push work p entries => {.rest work entries, .whole p}
  | _ => 0

namespace StatState

variable {n : ℕ}

/-- All directories that are not done yet. -/
def items (s : StatState n) : Multiset StatItem :=
  ∑ id, (s.queues id).map StatItem.whole + ∑ id, (s.workers id).items

/-- What the workers have counted so far. -/
def results (s : StatState n) : StatResult := ∑ id, s.local_results id

/-! ## What a step does -/

/-- What a step of a worker does with one queue, the worker, its results and the counter: what
they are before it, and after it. -/
inductive WorkerStep (t : Tree) (work_counter : ℤ) (result : StatResult) :
    Multiset StatPath → WorkerPc → Multiset StatPath → WorkerPc → StatResult → ℤ → Prop where
  /-- the worker holds nothing, and goes on without it -/
  | search {queue : Multiset StatPath} {pc pc' : WorkerPc} (hpc : pc.items = 0)
      (hpc' : pc'.items = 0) (hstays : pc' ≠ .left) :
      WorkerStep t work_counter result queue pc queue pc' result work_counter
  /-- it leaves -/
  | leave {queue : Multiset StatPath} (h : work_counter = 0) :
      WorkerStep t work_counter result queue .check queue .left result work_counter
  /-- it takes a directory from a queue -/
  | pop {queue : Multiset StatPath} {work : StatPath} (h : work ∈ queue) :
      WorkerStep t work_counter result queue .pop (queue.erase work) (.list work) result work_counter
  /-- it takes some -/
  | steal {queue : Multiset StatPath} {i : ℕ} {batch : List StatPath} {work : StatPath}
      (hbatch : ((batch ++ [work] : List StatPath) : Multiset StatPath) ≤ queue) :
      WorkerStep t work_counter result queue (.steal i) (queue - (batch ++ [work] : List StatPath))
        (.pushBatch work batch) result work_counter
  /-- it pushes one of them -/
  | pushBatch {queue : Multiset StatPath} {work p : StatPath} {stolen_batch : List StatPath} :
      WorkerStep t work_counter result queue (.pushBatch work (p :: stolen_batch)) (p ::ₘ queue)
        (.pushBatch work stolen_batch) result work_counter
  /-- it has pushed all of them -/
  | pushed {queue : Multiset StatPath} {work : StatPath} :
      WorkerStep t work_counter result queue (.pushBatch work []) queue (.list work) result
        work_counter
  /-- it lists the directory -/
  | list {queue : Multiset StatPath} {work : StatPath} {names : List Str}
      (h : names.Perm (Node.names (t.find work))) :
      WorkerStep t work_counter result queue (.list work) queue (.read work names) result
        work_counter
  /-- it counts an entry that is no directory -/
  | count {queue : Multiset StatPath} {work : StatPath} {name : Str} {entries : List Str}
      (h : Node.isDirectory (t.find (work ++ [name])) = false) :
      WorkerStep t work_counter result queue (.read work (name :: entries)) queue
        (.read work entries) (result + ownResult (t.find (work ++ [name]))) work_counter
  /-- it counts a directory -/
  | countDirectory {queue : Multiset StatPath} {work : StatPath} {name : Str} {entries : List Str}
      (h : Node.isDirectory (t.find (work ++ [name])) = true) :
      WorkerStep t work_counter result queue (.read work (name :: entries)) queue
        (.push work (work ++ [name]) entries) (result + ownResult (t.find (work ++ [name])))
        (work_counter + 1)
  /-- it pushes that directory -/
  | push {queue : Multiset StatPath} {work p : StatPath} {entries : List Str} :
      WorkerStep t work_counter result queue (.push work p entries) (p ::ₘ queue)
        (.read work entries) result work_counter
  /-- it is done with a directory -/
  | done {queue : Multiset StatPath} {work : StatPath} :
      WorkerStep t work_counter result queue (.read work []) queue .pop result (work_counter - 1)

/-- The state after a step that changes a queue, a worker, its results and the counter. -/
def change (s : StatState n) (q id : Fin n) (queue : Multiset StatPath) (pc : WorkerPc)
    (result : StatResult) (work_counter : ℤ) : StatState n where
  queues := Function.update s.queues q queue
  workers := Function.update s.workers id pc
  local_results := Function.update s.local_results id result
  work_counter := work_counter

theorem goto_eq_change (s : StatState n) (q id : Fin n) (pc : WorkerPc) :
    s.goto id pc = s.change q id (s.queues q) pc (s.local_results id) s.work_counter := by
  unfold goto change
  rw [Function.update_eq_self, Function.update_eq_self]

theorem setQueue_goto_eq_change (s : StatState n) (q id : Fin n) (queue : Multiset StatPath)
    (pc : WorkerPc) :
    (s.setQueue q queue).goto id pc =
      s.change q id queue pc (s.local_results id) s.work_counter := by
  unfold setQueue goto change
  rw [Function.update_eq_self]

theorem countLocal_goto_eq_change (s : StatState n) (id : Fin n) (entry : Option Node)
    (pc : WorkerPc) (work_counter : ℤ) :
    { s.countLocal id entry with work_counter := work_counter }.goto id pc =
      s.change id id (s.queues id) pc (s.local_results id + ownResult entry) work_counter := by
  unfold countLocal goto change
  rw [Function.update_eq_self, count_eq]

theorem eq_dropLast_append {batch : List StatPath} {work : StatPath}
    (h : batch.getLast? = some work) : batch = batch.dropLast ++ [work] :=
  (List.dropLast_append_getLast? work h).symm

/-- **Inversion** for the steps of the workers. -/
theorem workerStep_of_step {t : Tree} {s s' : StatState n} {id : Fin n} {event : StatEvent}
    (h : s.step t (id, event) = some s') :
    ∃ q queue pc result work_counter,
      s' = s.change q id queue pc result work_counter ∧
        WorkerStep t s.work_counter (s.local_results id) (s.queues q) (s.workers id) queue pc
          result work_counter := by
  unfold step at h
  dsimp only at h
  split at h
  · rename_i hpc
    refine ⟨id, _, _, _, _, (Option.some.inj h).symm.trans (goto_eq_change s id id _), ?_⟩
    rw [hpc]
    exact .search rfl rfl nofun
  · rename_i work hpc
    split at h
    · rename_i hmem
      refine ⟨id, _, _, _, _, (Option.some.inj h).symm.trans (setQueue_goto_eq_change ..), ?_⟩
      rw [hpc]
      exact .pop hmem
    · cases h
  · rename_i i batch hpc
    split at h
    · rename_i hbatch
      split at h
      · refine ⟨id, _, _, _, _, (Option.some.inj h).symm.trans (goto_eq_change s id id _), ?_⟩
        rw [hpc]
        exact .search rfl rfl nofun
      · rename_i work hlast
        refine ⟨_, _, _, _, _, (Option.some.inj h).symm.trans (setQueue_goto_eq_change ..), ?_⟩
        have hsplit := eq_dropLast_append hlast
        have hle := hbatch.2.2
        rw [hpc]
        generalize batch.dropLast = rest at hsplit ⊢
        subst hsplit
        exact .steal hle
    · cases h
  · rename_i i hpc
    split at h
    · cases h
    · refine ⟨id, _, _, _, _, (Option.some.inj h).symm.trans (goto_eq_change s id id _), ?_⟩
      rw [hpc]
      exact .search rfl rfl nofun
  · rename_i work hpc
    refine ⟨id, _, _, _, _, (Option.some.inj h).symm.trans (goto_eq_change s id id _), ?_⟩
    rw [hpc]
    exact .pushed
  · rename_i work p stolen_batch hpc
    refine ⟨id, _, _, _, _, (Option.some.inj h).symm.trans (setQueue_goto_eq_change ..), ?_⟩
    rw [hpc]
    exact .pushBatch
  · rename_i hpc
    split at h
    · rename_i hzero
      refine ⟨id, _, _, _, _, (Option.some.inj h).symm.trans (goto_eq_change s id id _), ?_⟩
      rw [hpc]
      exact .leave hzero
    · refine ⟨id, _, _, _, _, (Option.some.inj h).symm.trans (goto_eq_change s id id _), ?_⟩
      rw [hpc]
      exact .search rfl rfl nofun
  · rename_i work names hpc
    split at h
    · rename_i hnames
      refine ⟨id, _, _, _, _, (Option.some.inj h).symm.trans (goto_eq_change s id id _), ?_⟩
      rw [hpc]
      exact .list hnames
    · cases h
  · rename_i work hpc
    refine ⟨id, _, _, _, _, (Option.some.inj h).symm.trans
      (goto_eq_change { s with work_counter := s.work_counter - 1 } id id _), ?_⟩
    rw [hpc]
    exact .done
  · rename_i work name entries hpc
    split at h
    · rename_i hdir
      refine ⟨id, _, _, _, _, (Option.some.inj h).symm.trans (countLocal_goto_eq_change ..), ?_⟩
      rw [hpc]
      exact .countDirectory hdir
    · rename_i hdir
      refine ⟨id, _, _, _, _, (Option.some.inj h).symm.trans
        (countLocal_goto_eq_change s id _ _ s.work_counter), ?_⟩
      rw [hpc]
      exact .count (Bool.not_eq_true _ ▸ hdir)
  · rename_i work p entries hpc
    refine ⟨id, _, _, _, _, (Option.some.inj h).symm.trans (setQueue_goto_eq_change ..), ?_⟩
    rw [hpc]
    exact .push
  · cases h

section Effect

variable {t : Tree} {c c' : ℤ} {r r' : StatResult} {queue queue' : Multiset StatPath}
  {pc pc' : WorkerPc}

/-- A worker that leaves has seen the counter at 0. -/
theorem WorkerStep.eq_zero_of_left (h : WorkerStep t c r queue pc queue' .left r' c') :
    c = 0 ∧ c' = 0 := by
  cases h with
  | search hpc hpc' hstays => exact absurd rfl hstays
  | leave h => exact ⟨h, h⟩

theorem map_cons_add (work : StatPath) (queue : Multiset StatPath) (items : Multiset StatItem) :
    (work ::ₘ queue).map StatItem.whole + items =
      queue.map StatItem.whole + (.whole work ::ₘ items) := by
  rw [Multiset.map_cons, Multiset.cons_add, Multiset.add_cons]

theorem add_singleton (items : Multiset StatItem) (a : StatItem) : items + {a} = a ::ₘ items := by
  rw [add_comm, Multiset.singleton_add]

/-- **Effect of a step** on the items of a queue and a worker: they stay, or one of them expands.
The counter goes with their number. -/
theorem WorkerStep.effect (h : WorkerStep t c r queue pc queue' pc' r' c') :
    (queue'.map StatItem.whole + pc'.items = queue.map StatItem.whole + pc.items ∧ r' = r ∧
        c' = c) ∨
      ∃ a e left rest, Expands t a e left ∧ queue.map StatItem.whole + pc.items = a ::ₘ rest ∧
        queue'.map StatItem.whole + pc'.items = left + rest ∧ r' = r + e ∧
          c' + 1 = c + Multiset.card left := by
  cases h with
  | search hpc hpc' hstays => exact Or.inl ⟨by rw [hpc, hpc'], rfl, rfl⟩
  | leave h => exact Or.inl ⟨rfl, rfl, rfl⟩
  | pop hmem =>
    refine Or.inl ⟨?_, rfl, rfl⟩
    rw [← Multiset.cons_erase hmem, map_cons_add, Multiset.erase_cons_head]
    rfl
  | @steal i batch work hbatch =>
    refine Or.inl ⟨?_, rfl, rfl⟩
    have hall : queue = queue - (batch ++ [work] : List StatPath) +
        (batch ++ [work] : List StatPath) := (tsub_add_cancel_of_le hbatch).symm
    have hitems : (WorkerPc.pushBatch work batch).items =
        ((batch ++ [work] : List StatPath) : Multiset StatPath).map StatItem.whole := by
      rw [WorkerPc.items, ← Multiset.map_cons, Multiset.cons_coe]
      exact congrArg _ (Multiset.coe_eq_coe.mpr (List.perm_append_singleton work batch).symm)
    calc (queue - (batch ++ [work] : List StatPath)).map StatItem.whole +
          (WorkerPc.pushBatch work batch).items
        = (queue - (batch ++ [work] : List StatPath) +
            (batch ++ [work] : List StatPath)).map StatItem.whole := by rw [hitems, Multiset.map_add]
      _ = queue.map StatItem.whole + 0 := by rw [← hall, add_zero]
  | @pushBatch work p stolen_batch =>
    refine Or.inl ⟨?_, rfl, rfl⟩
    rw [map_cons_add, WorkerPc.items, WorkerPc.items, ← Multiset.cons_coe, Multiset.map_cons,
      Multiset.cons_swap]
  | pushed => exact Or.inl ⟨rfl, rfl, rfl⟩
  | @push work p entries =>
    refine Or.inl ⟨?_, rfl, rfl⟩
    rw [map_cons_add]
    exact congrArg _ (Multiset.cons_swap (StatItem.whole p) (.rest work entries) 0)
  | list hnames =>
    refine Or.inr ⟨_, _, _, queue.map .whole, .list hnames, add_singleton .., add_comm _ _,
      (add_zero _).symm, ?_⟩
    rw [Multiset.card_singleton, Nat.cast_one]
  | @count work name entries hdir =>
    have hno : subdirectory (t.find (work ++ [name])) (work ++ [name]) = 0 := by
      rw [subdirectory, hdir]
      rfl
    refine Or.inr ⟨_, _, _, queue.map .whole, @Expands.entry t work name entries, add_singleton ..,
      ?_, rfl, ?_⟩
    · rw [hno]
      exact add_comm _ _
    · rw [hno, Multiset.card_cons, Multiset.card_zero, Nat.cast_one]
  | @countDirectory work name entries hdir =>
    have hsub : subdirectory (t.find (work ++ [name])) (work ++ [name]) =
        {.whole (work ++ [name])} := by
      rw [subdirectory, hdir]
      rfl
    refine Or.inr ⟨_, _, _, queue.map .whole, @Expands.entry t work name entries, add_singleton ..,
      ?_, rfl, ?_⟩
    · rw [hsub]
      exact add_comm _ _
    · rw [hsub, Multiset.card_cons, Multiset.card_singleton]
      omega
  | done =>
    refine Or.inr ⟨_, _, _, queue.map .whole, .done, add_singleton .., add_comm _ _,
      (add_zero _).symm, ?_⟩
    rw [Multiset.card_zero]
    omega

end Effect

/-! ## The invariant -/

/-- **Simulation.** A step of a worker leaves the items and the results, or is a step of the
worklist; the counter goes with the number of items. -/
theorem simulates {t : Tree} {s s' : StatState n} {label : Fin n × StatEvent}
    (h : s.step t label = some s') :
    (s'.items = s.items ∧ s'.results = s.results ∧ s'.work_counter = s.work_counter) ∨
      (Worklist.Step (Expands t) s.items s.results s'.items s'.results ∧
        s'.work_counter - Multiset.card s'.items = s.work_counter - Multiset.card s.items) := by
  obtain ⟨id, event⟩ := label
  obtain ⟨q, queue, pc, result, work_counter, rfl, hstep⟩ := workerStep_of_step h
  obtain ⟨queues, hqueues, hqueues'⟩ :=
    Worklist.exists_others s.queues (fun queue => queue.map StatItem.whole) q
  obtain ⟨workers, hworkers, hworkers'⟩ := Worklist.exists_others s.workers WorkerPc.items id
  obtain ⟨results, hresults, hresults'⟩ := Worklist.exists_others s.local_results (fun r => r) id
  have hitems : s.items =
      (s.queues q).map StatItem.whole + (s.workers id).items + (queues + workers) := by
    rw [items, hqueues, hworkers, add_add_add_comm]
  have hitems' : (s.change q id queue pc result work_counter).items =
      queue.map StatItem.whole + pc.items + (queues + workers) := by
    rw [items, change, hqueues', hworkers', add_add_add_comm]
  have hres : s.results = s.local_results id + results := hresults
  have hres' : (s.change q id queue pc result work_counter).results = result + results :=
    hresults' result
  rcases hstep.effect with ⟨hsame, rfl, rfl⟩ | ⟨a, e, left, rest, hexpands, hbefore, hafter, rfl, hc⟩
  · exact Or.inl ⟨by rw [hitems', hitems, hsame], hres'.trans hres.symm, rfl⟩
  · right
    rw [hitems', hitems, hres', hres, hbefore, hafter, add_right_comm (s.local_results id),
      Multiset.cons_add, add_assoc left]
    refine ⟨.take hexpands, ?_⟩
    dsimp only [change]
    rw [Multiset.card_cons, Multiset.card_add left]
    omega

/-- What holds of the workers all the time: the counter is the number of directories that are not
done; what is counted and what these are worth is the same as ever; and a worker leaves when none
of them is left. -/
structure StatInv (t : Tree) (total : StatResult) (s : StatState n) : Prop where
  /-- the counter -/
  counter : s.work_counter = Multiset.card s.items
  /-- the results -/
  counted : s.results + Worklist.weigh (StatItem.worth t) s.items = total
  /-- the workers that have left -/
  left : ∀ id, s.workers id = .left → s.work_counter = 0

theorem StatInv.step {t : Tree} {total : StatResult} {s s' : StatState n}
    {label : Fin n × StatEvent} (h : StatInv t total s) (hstep : s.step t label = some s') :
    StatInv t total s' := by
  have hsim := simulates hstep
  refine ⟨?_, ?_, ?_⟩
  · rcases hsim with ⟨hitems, -, hc⟩ | ⟨-, hc⟩
    · rw [hc, hitems, h.counter]
    · have hcounter := h.counter
      omega
  · rcases hsim with ⟨hitems, hresults, -⟩ | ⟨htake, -⟩
    · rw [hitems, hresults, h.counted]
    · rw [htake.conserves fun a r left => worth_of_expands, h.counted]
  · intro j hj
    obtain ⟨id, event⟩ := label
    obtain ⟨q, queue, pc, result, work_counter, rfl, hworker⟩ := workerStep_of_step hstep
    by_cases hid : j = id
    · subst hid
      dsimp only [change] at hj
      rw [Function.update_self] at hj
      subst hj
      exact hworker.eq_zero_of_left.2
    · dsimp only [change] at hj
      rw [Function.update_of_ne hid] at hj
      have hzero := h.left j hj
      rcases hsim with ⟨-, -, hc⟩ | ⟨htake, -⟩
      · exact hc.trans hzero
      · -- there is no item to be taken
        have hcard : Multiset.card s.items = 0 := by
          have hcounter := h.counter
          omega
        exact absurd (Multiset.card_eq_zero.mp hcard) htake.ne_zero

/-- **The invariant holds in every run.** -/
theorem StatInv.run {t : Tree} {total : StatResult} {s s' : StatState n}
    {run : List (Fin n × StatEvent)} (h : StatInv t total s)
    (hrun : Runs.exec (StatState.step t) s run = some s') : StatInv t total s' :=
  Runs.exec_invariant (fun _ _ _ hinv hstep => hinv.step hstep) h hrun

end StatState

/-! ## The whole traversal -/

/-- The top level and what is below the subdirectories is what the names are worth. -/
theorem collect_level_worth (t : Tree) (path : StatPath) (names : List Str) (result : StatResult)
    (subdirs : List StatPath) :
    (collect_level t path names (result, subdirs)).1 + Worklist.weigh (StatItem.worth t)
        (((collect_level t path names (result, subdirs)).2 : Multiset StatPath).map .whole) =
      result + Worklist.weigh (StatItem.worth t) ((subdirs : Multiset StatPath).map .whole) +
        (names.map fun name => totalResult (t.find (path ++ [name]))).sum := by
  induction names generalizing result subdirs with
  | nil => exact (add_zero _).symm
  | cons name names ih =>
    have hsubdirs : Worklist.weigh (StatItem.worth t)
        (((if Node.isDirectory (t.find (path ++ [name])) then subdirs ++ [path ++ [name]]
          else subdirs : List StatPath) : Multiset StatPath).map .whole) =
        Worklist.weigh (StatItem.worth t) ((subdirs : Multiset StatPath).map .whole) +
          belowResult (t.find (path ++ [name])) := by
      split
      · rw [← Multiset.coe_add, Multiset.map_add, Worklist.weigh_add]
        exact congrArg _ (Worklist.weigh_singleton (StatItem.whole (path ++ [name])))
      · rename_i hno
        rw [belowResult_of_not_isDirectory (Bool.not_eq_true _ ▸ hno), add_zero]
    rw [collect_level, ih, hsubdirs, count_eq, List.map_cons, List.sum_cons, totalResult]
    ac_rfl

/-- All subdirectories are pushed. -/
theorem sum_distribute (n : WorkerCount) (subdirs : List StatPath) (i : ℕ)
    (queues : Fin n.val → Multiset StatPath) :
    ∑ id, (distribute n subdirs i queues id).map StatItem.whole =
      (subdirs : Multiset StatPath).map StatItem.whole +
        ∑ id, (queues id).map StatItem.whole := by
  induction subdirs generalizing i queues with
  | nil => exact (zero_add _).symm
  | cons p subdirs ih =>
    obtain ⟨others, hsum, hsum'⟩ := Worklist.exists_others queues
      (fun queue => queue.map StatItem.whole) ⟨i % n.val, Nat.mod_lt i n.pos⟩
    rw [distribute, ih, hsum', hsum, ← Multiset.cons_coe, Multiset.map_cons, Multiset.map_cons,
      Multiset.cons_add, Multiset.cons_add, Multiset.add_cons]

theorem items_startWorkers (n : WorkerCount) (subdirs : List StatPath) :
    (startWorkers n subdirs).items = (subdirs : Multiset StatPath).map StatItem.whole := by
  rw [StatState.items, startWorkers, sum_distribute]
  simp [WorkerPc.items]

/-- The workers start with the directories of the top level. -/
theorem statInv_startWorkers (t : Tree) (n : WorkerCount) (subdirs : List StatPath) :
    StatState.StatInv t
      (Worklist.weigh (StatItem.worth t) ((subdirs : Multiset StatPath).map .whole))
      (startWorkers n subdirs) where
  counter := by
    rw [items_startWorkers, Multiset.card_map, Multiset.coe_card]
    rfl
  counted := by
    rw [items_startWorkers]
    simp [StatState.results, startWorkers]
  left id h := by cases h

/-- The directories in the hands of a worker: those of a stolen batch, the one it processes, and one
it is about to push. -/
def WorkerPc.held : WorkerPc → List StatPath
  | .pushBatch work stolen_batch => work :: stolen_batch
  | .list work => [work]
  | .read work _ => [work]
  | .push work p _ => [work, p]
  | _ => []

/-- No directory is queued or in the hands of a worker. -/
structure StatState.NothingLeft {n : ℕ} (s : StatState n) : Prop where
  /-- the queues are empty -/
  queues : ∀ id, s.queues id = 0
  /-- the workers hold nothing -/
  workers : ∀ id, (s.workers id).held = []

theorem WorkerPc.held_eq_nil {pc : WorkerPc} (h : pc.items = 0) : pc.held = [] := by
  cases pc with
  | pushBatch work stolen_batch =>
    rw [WorkerPc.items] at h
    exact absurd h Multiset.cons_ne_zero
  | list work => exact absurd h (Multiset.singleton_ne_zero _)
  | read work entries => exact absurd h (Multiset.singleton_ne_zero _)
  | push work p entries =>
    rw [WorkerPc.items, Multiset.insert_eq_cons] at h
    exact absurd h Multiset.cons_ne_zero
  | pop => rfl
  | steal i => rfl
  | check => rfl
  | left => rfl

theorem StatState.nothingLeft_of_items {n : ℕ} {s : StatState n} (h : s.items = 0) :
    s.NothingLeft := by
  obtain ⟨hqueues, hworkers⟩ := add_eq_zero.mp h
  constructor
  · intro id
    have hid := Finset.sum_eq_zero_iff.mp hqueues id (Finset.mem_univ id)
    exact Multiset.map_eq_zero.mp hid
  · intro id
    exact WorkerPc.held_eq_nil (Finset.sum_eq_zero_iff.mp hworkers id (Finset.mem_univ id))

/-- A worker that has left has left no directory behind. -/
theorem StatState.StatInv.items_eq_zero {t : Tree} {total : StatResult} {n : ℕ} {s : StatState n}
    (h : StatState.StatInv t total s) {id : Fin n} (hleft : s.workers id = .left) :
    s.items = 0 := by
  have hzero := h.left id hleft
  have hcounter := h.counter
  exact Multiset.card_eq_zero.mp (by omega)

/-- The top level and what is below its subdirectories is the whole tree. -/
theorem collect_level_root (t : Tree) {names : List Str}
    (hnames : names.Perm (Node.names (some t.root))) :
    (collect_level t [] names (0, [])).1 + Worklist.weigh (StatItem.worth t)
        (((collect_level t [] names (0, [])).2 : Multiset StatPath).map .whole) =
      sequentialStat t := by
  have hroot : t.find [] = some t.root := rfl
  have hsum := belowResult_eq_sum t [] (hroot ▸ hnames)
  rw [hroot] at hsum
  rw [collect_level_worth, ← hsum]
  exact (congrArg (· + _) (zero_add 0)).trans (zero_add _)

theorem sequentialStat_of_not_isDirectory {t : Tree}
    (h : Node.isDirectory (some t.root) = false) : sequentialStat t = 0 :=
  belowResult_of_not_isDirectory h

/-- **Parallel traversal.** Whatever the number of workers and the order of their steps, a worker
leaves only when no directory is queued or in the hands of any, and `stat_workspace` returns what
the sequential traversal counts. -/
theorem parallel_stat_exact (t : Tree) (n : WorkerCount) :
    (∀ names : List Str, names.Perm (Node.names (some t.root)) →
      ∀ (run : List (Fin n.val × StatEvent)) (s : StatState n.val),
        Runs.exec (StatState.step t)
          (startWorkers n (collect_level t [] names (0, [])).2) run = some s →
            ∀ id, s.workers id = .left → s.NothingLeft) ∧
      ∀ r, StatWorkspace t n r → r = sequentialStat t := by
  constructor
  · intro names _ run s hrun id hleft
    have hinv := (statInv_startWorkers t n _).run hrun
    exact StatState.nothingLeft_of_items (hinv.items_eq_zero hleft)
  · intro r hr
    cases hr with
    | missing hno => exact (sequentialStat_of_not_isDirectory hno).symm
    | flat hdir hnames hflat =>
      have hroot := collect_level_root t hnames
      rw [hflat] at hroot
      exact (add_zero _).symm.trans hroot
    | @joined names run s hdir hnames hrun hleft =>
      have hinv := (statInv_startWorkers t n _).run hrun
      have hcounted := hinv.counted
      rw [hinv.items_eq_zero (hleft ⟨0, n.pos⟩), Worklist.weigh_zero, add_zero] at hcounted
      rw [← collect_level_root t hnames, ← hcounted]
      rfl

/-- A file, and a directory with a link and a directory. -/
def smallTree : Tree where
  root := .directory [(['a'], .regular 3 8),
    (['d'], .directory [(['l'], .symlink), (['e'], .directory [])])]
  unique := by
    refine .directory (by decide) fun name node h => ?_
    rcases List.mem_cons.mp h with heq | h
    · obtain ⟨-, rfl⟩ := Prod.mk.inj heq
      exact .regular
    · obtain ⟨-, rfl⟩ := Prod.mk.inj (List.mem_singleton.mp h)
      refine .directory (by decide) fun name node h => ?_
      rcases List.mem_cons.mp h with heq | h
      · obtain ⟨-, rfl⟩ := Prod.mk.inj heq
        exact .symlink
      · obtain ⟨-, rfl⟩ := Prod.mk.inj (List.mem_singleton.mp h)
        exact .directory List.nodup_nil nofun

/-- The steps of a worker that finds nothing, and leaves. -/
def leaving (id : Fin 2) : List (Fin 2 × StatEvent) :=
  [(id, .popped none), (id, .stolen []), (id, .go), (id, .go)]

/-- The second of two workers steals the directory from the first. -/
def smallRun : List (Fin 2 × StatEvent) :=
  [(1, .popped none), (1, .stolen [[['d']]]), (1, .go), (1, .listed [['l'], ['e']]), (1, .go),
    (1, .go), (1, .go), (1, .go), (1, .popped (some [['d'], ['e']])), (1, .listed []), (1, .go)] ++
      leaving 0 ++ leaving 1

/-- Two workers count a small tree. -/
theorem parallel_stat_exact_smallTree : ∃ r, StatWorkspace smallTree ⟨2, Nat.zero_lt_two⟩ r ∧
    r = ⟨1, 1, 2, 3, 8⟩ := by
  have hrun : ∃ s, Runs.exec (StatState.step smallTree)
      (startWorkers ⟨2, Nat.zero_lt_two⟩ (collect_level smallTree [] [['a'], ['d']] (0, [])).2)
        smallRun = some s ∧ ∀ id, s.workers id = .left := ⟨_, rfl, by decide⟩
  obtain ⟨s, hrun, hleft⟩ := hrun
  have hjoined : StatWorkspace smallTree ⟨2, Nat.zero_lt_two⟩ _ :=
    .joined rfl (List.Perm.refl _) hrun hleft
  exact ⟨_, hjoined, ((parallel_stat_exact smallTree ⟨2, Nat.zero_lt_two⟩).2 _ hjoined).trans rfl⟩

end HpcWorkspace
