import HpcWorkspace.StuckWorkers

/-!
# Directories that stop all workers

A worker that lists a directory with more subdirectories than the limit of its ring has filled its
queue before the listing ends. When each of the workers starts with such a directory, each of them
can come to that point before another one steals, and then they wait for each other.
-/

namespace HpcWorkspace

namespace RingState

open Runs

variable {n : ℕ} {t : Tree} {s : RingState n} {id : Fin n} {q q' : QueueState QueuedPath (Fin n)}

/-! ## Steps of a single worker -/

/-- A worker and its queue are at other points. -/
def put (s : RingState n) (id : Fin n) (q : QueueState QueuedPath (Fin n)) (pc : RingPc) :
    RingState n :=
  { s with
    worker_queues := Function.update s.worker_queues id q
    workers := Function.update s.workers id pc }

theorem put_self (s : RingState n) (id : Fin n) :
    s.put id (s.worker_queues id) (s.workers id) = s := by
  simp [put]

@[simp] theorem put_queue (pc : RingPc) : (s.put id q pc).worker_queues id = q :=
  Function.update_self ..

@[simp] theorem put_worker (pc : RingPc) : (s.put id q pc).workers id = pc :=
  Function.update_self ..

/-- A step of the queue. -/
theorem act_put {a : QueueAct QueuedPath (Fin n)} {pc : RingPc}
    {next : QueueState QueuedPath (Fin n) → RingPc} (hq : q.step .default a = some q') :
    (s.put id q pc).act id id a next = some (s.put id q' (next q')) := by
  rw [act, put_queue, hq]
  simp [put, goto]

theorem step_pop (ho : q.owner = .idle) : step t (s.put id q .pop) (id, .go) =
    some (s.put id { q with owner := .popLoadBottom } .popping) := by
  simp only [step, put_worker]
  exact act_put (by rw [QueueState.step, ho])

theorem step_popping (hq : q.ownerStep .default = some q') :
    step t (s.put id q .popping) (id, .go) = some (s.put id q' (afterPop q)) := by
  simp only [step, put_worker, put_queue]
  exact act_put hq

theorem step_push {work : QueuedPath} {p : StatPath} {entries : List Str} (ho : q.owner = .idle) :
    step t (s.put id q (.push work p entries)) (id, .go) =
      some (s.put id { q with owner := .pushLoadBottom (some p) } (.pushing work entries)) := by
  simp only [step, put_worker]
  exact act_put (by rw [QueueState.step, ho])

theorem step_pushing {work : QueuedPath} {entries : List Str}
    (hq : q.ownerStep .default = some q') :
    step t (s.put id q (.pushing work entries)) (id, .go) =
      some (s.put id q' (afterPush q (.pushing work entries) (.read work entries))) := by
  simp only [step, put_worker, put_queue]
  exact act_put hq

/-- The last directory of a queue is popped. -/
theorem leads_popped (ho : q.owner = .idle) (hone : q.bottom = q.top + 1) :
    ∃ q', Leads (step t) (s.put id q .pop) (s.put id q' (.list (q.pathAt q.top))) ∧
      q'.owner = .idle ∧ q'.bottom = q'.top := by
  have hb : q.bottom - 1 = q.top := by omega
  have hload : QueueState.ownerStep .default
      { q with bottom := q.bottom - 1, owner := .popLoadTop (q.bottom - 1) } =
      some { q with bottom := q.bottom - 1, owner := .popCas (q.bottom - 1) } := by
    simp [QueueState.ownerStep, hb]
  have hcas : QueueState.ownerStep .default
      { q with bottom := q.bottom - 1, owner := .popCas (q.bottom - 1) } =
      some { q with
        bottom := q.bottom - 1, top := q.bottom - 1 + 1, owner := .popKeep (q.bottom - 1) } := by
    simp [QueueState.ownerStep, hb]
  rw [← hb]
  refine ⟨_, .head (step_pop ho) <| .head (step_popping rfl) <| .head (step_popping rfl) <|
    .head (step_popping hload) <| .head (step_popping hcas) <| .head (step_popping rfl) <|
    .head (step_popping rfl) <| .refl _, rfl, rfl⟩

/-! ## A queue that is filled -/

/-- A subdirectory is counted. -/
def found (t : Tree) (s : RingState n) (id : Fin n) (path : StatPath) : RingState n :=
  { s.countLocal id (t.find path) with work_counter := s.work_counter + 1 }

/-- Only results and the counter have changed, and that has not fallen. -/
structure Grown (s s' : RingState n) : Prop where
  /-- the queues are the same -/
  queues : s'.worker_queues = s.worker_queues
  /-- the workers too -/
  workers : s'.workers = s.workers
  /-- the counter -/
  counter : s.work_counter ≤ s'.work_counter

theorem Grown.trans {s s' s'' : RingState n} (h : Grown s s') (h' : Grown s' s'') : Grown s s'' :=
  ⟨h'.queues.trans h.queues, h'.workers.trans h.workers, h.counter.trans h'.counter⟩

theorem grown_found {path : StatPath} : Grown s (s.found t id path) :=
  ⟨rfl, rfl, Int.le_add_one (le_refl _)⟩

section

variable {path : StatPath} {name : Str} {entries : List Str}

theorem step_read (hdir : Node.isDirectory (t.find (path ++ [name])) = true) :
    step t (s.put id q (.read (some path) (name :: entries))) (id, .go) =
      some ((s.found t id (path ++ [name])).put id q
        (.push (some path) (path ++ [name]) entries)) := by
  simp only [step, put_worker, Option.getD_some, hdir, if_true]
  simp [put, goto, countLocal, found]

/-- A subdirectory is pushed while there is room. -/
theorem leads_pushed (entries : List Str) (ho : q.owner = .idle)
    (hdir : Node.isDirectory (t.find (path ++ [name])) = true)
    (hroom : ¬sizeT (q.bottom - q.top) ≥ Capacity.default.limit) :
    ∃ s' q', Leads (step t) (s.put id q (.read (some path) (name :: entries)))
        (s'.put id q' (.read (some path) entries)) ∧
      Grown s s' ∧ q'.owner = .idle ∧ q'.top = q.top ∧ q'.bottom = q.bottom + 1 := by
  have hload : QueueState.ownerStep .default
      { q with owner := .pushLoadTop (some (path ++ [name])) q.bottom } =
      some { q with owner := .pushStore (some (path ++ [name])) q.bottom } := by
    rw [QueueState.ownerStep]
    exact if_neg hroom
  refine ⟨_, _, .head (step_read hdir) <| .head (step_push ho) <| .head (step_pushing rfl) <|
    .head (step_pushing hload) <| .head (step_pushing rfl) <| .head (step_pushing rfl) <|
    .refl _, grown_found, rfl, rfl, rfl⟩

/-- As many as there is room for. -/
theorem leads_filled (names entries : List Str) (ho : q.owner = .idle) (hle : q.top ≤ q.bottom)
    (hdirs : ∀ name ∈ names, Node.isDirectory (t.find (path ++ [name])) = true)
    (hroom : q.bottom - q.top + names.length ≤ Capacity.default.limit) :
    ∃ s' q', Leads (step t) (s.put id q (.read (some path) (names ++ entries)))
        (s'.put id q' (.read (some path) entries)) ∧
      Grown s s' ∧ q'.owner = .idle ∧ q'.top = q.top ∧ q'.bottom = q.bottom + names.length := by
  induction names generalizing s q with
  | nil => exact ⟨s, q, .refl _, ⟨rfl, rfl, le_refl _⟩, ho, rfl, by simp⟩
  | cons name names ih =>
    rw [List.length_cons, Nat.cast_add, Nat.cast_one] at hroom
    have hlimit : (Capacity.default.limit : ℤ) ≤ Capacity.default.val := by decide
    have hsize := sizeT_of_le (c := .default) (z := q.bottom - q.top) (by omega) (by omega)
    obtain ⟨s₁, q₁, hleads₁, hgrown₁, ho₁, htop₁, hbottom₁⟩ :=
      leads_pushed (s := s) (names ++ entries) ho (hdirs name List.mem_cons_self) (by omega)
    obtain ⟨s₂, q₂, hleads₂, hgrown₂, ho₂, htop₂, hbottom₂⟩ :=
      ih (s := s₁) ho₁ (by omega) (fun name h => hdirs name (List.mem_cons_of_mem _ h)) (by omega)
    refine ⟨s₂, q₂, hleads₁.trans hleads₂, hgrown₁.trans hgrown₂, ho₂, htop₂.trans htop₁, ?_⟩
    rw [hbottom₂, hbottom₁, List.length_cons]
    push_cast
    ring

end

/-! ## Workers with wide directories -/

/-- A directory with more subdirectories than the limit of a ring, and nothing else. -/
structure Wide (t : Tree) (path : StatPath) : Prop where
  /-- there are too many -/
  more : Capacity.default.limit < (Node.names (t.find path)).length
  /-- entries are directories -/
  dirs : ∀ name ∈ Node.names (t.find path), Node.isDirectory (t.find (path ++ [name])) = true

/-- A worker that starts with one directory, a wide one. -/
structure StartsWide (t : Tree) (s : RingState n) (id : Fin n) : Prop where
  /-- it starts -/
  worker : s.workers id = .pop
  /-- nobody is in an operation on its queue as owner -/
  owner : (s.worker_queues id).owner = .idle
  /-- there is one path in it -/
  one : (s.worker_queues id).bottom = (s.worker_queues id).top + 1
  /-- that of a wide directory -/
  wide : ∃ path, (s.worker_queues id).pathAt (s.worker_queues id).top = some path ∧ Wide t path

/-- A worker waits or not, whatever the others do. -/
theorem waits_congr {s' : RingState n} (hworker : s'.workers id = s.workers id)
    (hqueue : s'.worker_queues id = s.worker_queues id) : s'.Waits id ↔ s.Waits id := by
  rw [Waits, Waits, hworker, hqueue]

/-- **Such a worker comes to wait**, when no other one takes a step. -/
theorem leads_waits (h : StartsWide t s id) : ∃ s', Leads (step t) s s' ∧ s'.Waits id ∧
    (∀ j, j ≠ id → s'.workers j = s.workers j ∧ s'.worker_queues j = s.worker_queues j) ∧
    s.work_counter ≤ s'.work_counter := by
  obtain ⟨hworker, howner, hone, path, hpath, hwide⟩ := h
  obtain ⟨q₁, hleads₁, ho₁, hempty⟩ := leads_popped (t := t) (s := s) howner hone
  rw [hpath, ← hworker, put_self] at hleads₁
  -- the listing has names for a full queue, and one more
  obtain ⟨names, name, entries, hnames, hlength⟩ : ∃ names name entries,
      Node.names (t.find path) = names ++ name :: entries ∧
        names.length = Capacity.default.limit := by
    refine ⟨(Node.names (t.find path)).take Capacity.default.limit,
      (Node.names (t.find path)).get ⟨Capacity.default.limit, hwide.more⟩,
      (Node.names (t.find path)).drop (Capacity.default.limit + 1), ?_, ?_⟩
    · rw [List.get_eq_getElem, List.cons_getElem_drop_succ, List.take_append_drop]
    · rw [List.length_take]
      exact Nat.min_eq_left hwide.more.le
  have hdirs := hwide.dirs
  rw [hnames] at hdirs
  have hlist : step t (s.put id q₁ (.list (some path))) (id, .listed (names ++ name :: entries)) =
      some (s.put id q₁ (.read (some path) (names ++ name :: entries))) := by
    have hsubperm : (names ++ name :: entries).Subperm (Node.names (t.findQueued (some path))) := by
      change (names ++ name :: entries).Subperm (Node.names (t.find path))
      rw [hnames]
    simp only [step, put_worker, if_pos hsubperm]
    simp [put, goto]
  obtain ⟨s₂, q₂, hleads₂, hgrown, ho₂, htop₂, hbottom₂⟩ :=
    leads_filled (s := s) names (name :: entries) ho₁ (by omega)
      (fun name h => hdirs name (List.mem_append_left _ h)) (by omega)
  have hdir := hdirs name (List.mem_append_right _ List.mem_cons_self)
  refine ⟨_, hleads₁.trans <| .head hlist <| hleads₂.trans <| .head (step_read hdir) <|
    .head (step_push ho₂) <| .refl _, ?_, ?_, ?_⟩
  · have hfull : q₂.bottom - q₂.top = Capacity.default.limit := by omega
    rw [Waits, put_worker, put_queue]
    change sizeT (q₂.bottom - q₂.top) ≥ Capacity.default.limit
    rw [hfull]
    decide
  · intro j hj
    dsimp only [put, found, countLocal]
    rw [Function.update_of_ne hj, Function.update_of_ne hj, hgrown.queues, hgrown.workers]
    exact ⟨rfl, rfl⟩
  · exact hgrown.counter.trans (Int.le_add_one (le_refl _))

/-- One worker after the other. -/
theorem leads_all_wait (h : ∀ id, StartsWide t s id) {k : ℕ} (hk : k ≤ n) :
    ∃ s', Leads (step t) s s' ∧ (∀ id : Fin n, id.val < k → s'.Waits id) ∧
      (∀ id : Fin n, k ≤ id.val →
        s'.workers id = s.workers id ∧ s'.worker_queues id = s.worker_queues id) ∧
      s.work_counter ≤ s'.work_counter := by
  induction k with
  | zero =>
    exact ⟨s, .refl _, fun _ h => absurd h (Nat.not_lt_zero _), fun _ _ => ⟨rfl, rfl⟩, le_refl _⟩
  | succ k ih =>
    obtain ⟨s₁, hleads₁, hwait, hstart, hcounter₁⟩ := ih (Nat.le_of_succ_le hk)
    let id : Fin n := ⟨k, hk⟩
    obtain ⟨hworker, hqueue⟩ := hstart id (le_refl k)
    have hwide : StartsWide t s₁ id := by
      obtain ⟨h₁, h₂, h₃, h₄⟩ := h id
      rw [← hqueue] at h₂ h₃ h₄
      exact ⟨hworker.trans h₁, h₂, h₃, h₄⟩
    obtain ⟨s₂, hleads₂, hwait₂, hothers, hcounter₂⟩ := leads_waits hwide
    refine ⟨s₂, hleads₁.trans hleads₂, ?_, ?_, hcounter₁.trans hcounter₂⟩
    · intro j hj
      by_cases hid : j = id
      · rw [hid]
        exact hwait₂
      · obtain ⟨hw, hq⟩ := hothers j hid
        have hlt : j.val < k := by
          have hne : j.val ≠ k := fun heq => hid (Fin.ext heq)
          omega
        exact (waits_congr hw hq).mpr (hwait j hlt)
    · intro j hj
      have hid : j ≠ id := by
        rintro rfl
        exact absurd hj (Nat.not_succ_le_self k)
      obtain ⟨hw, hq⟩ := hothers j hid
      obtain ⟨hw', hq'⟩ := hstart j (Nat.le_of_succ_le hj)
      exact ⟨hw.trans hw', hq.trans hq'⟩

/-- A worker whose queue was dealt one directory, a wide one. -/
theorem startsWide_of_dealt {n : WorkerCount} {s₀ : DistributeState n} {subdirs : List StatPath}
    {count : ℕ} (hqueues : s₀.queues = DistributeState.dealtQueues n subdirs)
    (hlength : subdirs.length = n.val) (hwide : ∀ path ∈ subdirs, Wide t path) (id : Fin n.val) :
    StartsWide t (startWorkers s₀ count) id := by
  have hone : (dealt n subdirs id).length = 1 := by
    rw [length_dealt, hlength, Nat.div_self n.pos, Nat.mod_self, if_neg (Nat.not_lt_zero _)]
  obtain ⟨path, hpath⟩ := List.length_eq_one_iff.mp hone
  have hqueue : (startWorkers s₀ count).worker_queues id =
      (QueueState.filled [path] : QueueState StatPath Empty).opened := by
    dsimp only [startWorkers]
    rw [hqueues, DistributeState.dealtQueues, hpath]
  obtain ⟨i, hi, -⟩ := mem_dealt.mp (hpath ▸ List.mem_singleton_self path)
  have hmem := List.mem_of_getElem? hi
  refine ⟨rfl, ?_, ?_, path, ?_, hwide path hmem⟩
  · rw [hqueue]
    rfl
  · rw [hqueue]
    rfl
  · have hslot : slotIndex .default 0 = 0 := by decide
    rw [hqueue]
    simp [QueueState.pathAt, QueueState.opened, QueueState.filled, hslot]

/-- The workers are started with what was dealt, when there is room for it. -/
theorem started_of_fits {n : WorkerCount} {names : List Str}
    (hdir : Node.isDirectory (some t.root) = true)
    (hnames : names.Subperm (Node.names (some t.root)))
    (hsubdirs : (collect_level t [] names (0, [])).2 ≠ [])
    (hroom : (collect_level t [] names (0, [])).2.length ≤ Capacity.default.limit * n.val) :
    Started t n (startWorkers ⟨DistributeState.dealtQueues n (collect_level t [] names (0, [])).2,
      .loop (collect_level t [] names (0, [])).2.length []⟩
      (collect_level t [] names (0, [])).2.length) := by
  rw [← List.nil_append (collect_level t [] names (0, [])).2] at hroom
  obtain ⟨run, hrun⟩ := DistributeState.exec_loop (n := n) hroom
  have hempty : DistributeState.dealtQueues n [] = fun _ => .init := by
    funext id
    exact QueueState.filled_nil
  rw [hempty, List.nil_append] at hrun
  exact .start hdir hnames hsubdirs hrun ⟨_, rfl⟩

/-- **When each worker starts with a wide directory, all of them can end up waiting.** -/
theorem stuck_of_wide {n : WorkerCount} {names : List Str}
    (hdir : Node.isDirectory (some t.root) = true)
    (hnames : names.Subperm (Node.names (some t.root)))
    (hlength : (collect_level t [] names (0, [])).2.length = n.val)
    (hwide : ∀ path ∈ (collect_level t [] names (0, [])).2, Wide t path) :
    ∃ s₀ run s, Started t n s₀ ∧ exec (step t) s₀ run = some s ∧ s.Stuck := by
  have hpos := n.pos
  have hsubdirs : (collect_level t [] names (0, [])).2 ≠ [] := by
    intro hnil
    rw [hnil] at hlength
    exact absurd hlength (ne_of_lt hpos)
  have hroom : (collect_level t [] names (0, [])).2.length ≤ Capacity.default.limit * n.val := by
    rw [hlength]
    exact Nat.le_mul_of_pos_left n.val Capacity.default.limit_pos
  have hstarts : ∀ id, StartsWide t (startWorkers
      ⟨DistributeState.dealtQueues n (collect_level t [] names (0, [])).2,
        .loop (collect_level t [] names (0, [])).2.length []⟩
      (collect_level t [] names (0, [])).2.length) id := startsWide_of_dealt rfl hlength hwide
  obtain ⟨s, ⟨run, hrun⟩, hwait, -, hcounter⟩ := leads_all_wait hstarts (le_refl n.val)
  refine ⟨_, run, s, started_of_fits hdir hnames hsubdirs hroom, hrun, ?_,
    fun id => hwait id id.isLt⟩
  change ((collect_level t [] names (0, [])).2.length : ℤ) ≤ s.work_counter at hcounter
  omega

end RingState

/-! ## A workspace of wide directories -/

/-- Entries with the names `0`, `1`, …, each of which is the same. -/
def numberedEntries (count : ℕ) (node : Node) : List (Str × Node) :=
  (List.range count).map fun (k : ℕ) => (fmtLong k, node)

theorem nodup_numberedEntries (count : ℕ) (node : Node) :
    ((numberedEntries count node).map Prod.fst).Nodup := by
  rw [numberedEntries, List.map_map]
  refine List.Nodup.map ?_ List.nodup_range
  intro k k' h
  have hk := fmtLong_inj (Int.natCast_nonneg k) (Int.natCast_nonneg k') h
  exact Int.ofNat.inj hk

theorem of_mem_numberedEntries {count : ℕ} {node node' : Node} {name : Str}
    (h : (name, node') ∈ numberedEntries count node) : node' = node := by
  obtain ⟨k, -, heq⟩ := List.mem_map.mp h
  exact (Prod.mk.inj heq).2.symm

/-- Directories with subdirectories that are empty. -/
def wideTree (count width : ℕ) : Tree where
  root := .directory (numberedEntries count (.directory (numberedEntries width (.directory []))))
  unique := by
    refine .directory (nodup_numberedEntries ..) fun name node h => ?_
    obtain rfl := of_mem_numberedEntries h
    refine .directory (nodup_numberedEntries ..) fun name node h => ?_
    obtain rfl := of_mem_numberedEntries h
    exact .directory List.nodup_nil fun _ _ h => absurd h List.not_mem_nil

/-- All names that a level finds are directories. -/
theorem collect_level_dirs {t : Tree} {path : StatPath} {names : List Str} {result : StatResult}
    {subdirs : List StatPath}
    (h : ∀ name ∈ names, Node.isDirectory (t.find (path ++ [name])) = true) :
    (collect_level t path names (result, subdirs)).2 =
      subdirs ++ names.map fun name => path ++ [name] := by
  induction names generalizing result subdirs with
  | nil => exact (List.append_nil _).symm
  | cons name names ih =>
    rw [collect_level, ih fun name h' => h name (List.mem_cons_of_mem _ h'),
      if_pos (h name List.mem_cons_self), List.map_cons, List.append_assoc]
    rfl

section

variable {count width : ℕ} {name sub : Str}

/-- A directory of the top level. -/
theorem wideTree_find (h : name ∈ Node.names (some (wideTree count width).root)) :
    (wideTree count width).find [name] =
      some (.directory (numberedEntries width (.directory []))) := by
  obtain ⟨⟨name, node⟩, hmem, rfl⟩ := List.mem_map.mp h
  have hroot : (wideTree count width).root.find [] =
      some (.directory (numberedEntries count
        (.directory (numberedEntries width (.directory []))))) := rfl
  have hfind := Node.find_append hroot name
  rw [lookup_of_mem (nodup_numberedEntries ..) hmem, of_mem_numberedEntries hmem] at hfind
  exact hfind

/-- It is a wide one. -/
theorem wide_wideTree (hwidth : Capacity.default.limit < width)
    (h : name ∈ Node.names (some (wideTree count width).root)) :
    RingState.Wide (wideTree count width) [name] := by
  have hfind := wideTree_find h
  refine ⟨?_, ?_⟩
  · rw [hfind]
    simp only [Node.names, numberedEntries, List.length_map, List.length_range]
    exact hwidth
  · intro sub hsub
    rw [hfind] at hsub
    obtain ⟨⟨sub, node⟩, hmem, rfl⟩ := List.mem_map.mp hsub
    have hbelow : (wideTree count width).find ([name] ++ [sub]) =
        (numberedEntries width (.directory [])).lookup sub := Node.find_append hfind sub
    rw [hbelow, lookup_of_mem (nodup_numberedEntries ..) hmem, of_mem_numberedEntries hmem]
    rfl

end

/-- **As many wide directories as there are workers** are enough to stop them. -/
theorem stuck_wideTree (n : WorkerCount) {width : ℕ} (hwidth : Capacity.default.limit < width) :
    ∃ s₀ run s, Started (wideTree n.val width) n s₀ ∧
      Runs.exec (RingState.step (wideTree n.val width)) s₀ run = some s ∧ s.Stuck := by
  have hdirs : ∀ name ∈ Node.names (some (wideTree n.val width).root),
      Node.isDirectory ((wideTree n.val width).find ([] ++ [name])) = true := by
    intro name h
    rw [List.nil_append, wideTree_find h]
    rfl
  refine RingState.stuck_of_wide rfl (List.Subperm.refl _) ?_ ?_
  · rw [collect_level_dirs hdirs, List.nil_append, List.length_map]
    simp only [wideTree, Node.names, numberedEntries, List.length_map, List.length_range]
  · rw [collect_level_dirs hdirs, List.nil_append]
    intro path hpath
    obtain ⟨name, hname, rfl⟩ := List.mem_map.mp hpath
    exact wide_wideTree hwidth hname

/-! ## A claim that comes too late -/

/-- Seven directories, of which the third has a subdirectory. -/
def sevenDirectories : Tree where
  root := .directory [(['0'], .directory []), (['1'], .directory []),
    (['2'], .directory [(['x'], .directory [])]), (['3'], .directory []), (['4'], .directory []),
    (['5'], .directory []), (['6'], .directory [])]
  unique := by
    have hempty : (Node.directory []).Unique :=
      .directory List.nodup_nil fun _ _ h => absurd h List.not_mem_nil
    refine .directory (by decide) fun name node h => ?_
    simp only [List.mem_cons, Prod.mk.injEq, List.not_mem_nil, or_false] at h
    have hnode : node = .directory [] ∨ node = .directory [(['x'], .directory [])] := by
      rcases h with h | h | h | h | h | h | h
      all_goals simp [h]
    rcases hnode with rfl | rfl
    · exact hempty
    · refine .directory (by decide) fun name node h => ?_
      obtain ⟨-, rfl⟩ := Prod.mk.inj (List.mem_singleton.mp h)
      exact hempty

/-- Their names. -/
def sevenNames : List Str := [['0'], ['1'], ['2'], ['3'], ['4'], ['5'], ['6']]

/-- A worker pops a directory and finds nothing in it. -/
def visit (id : Fin 2) (steps : ℕ) : List (Fin 2 × StatEvent) :=
  List.replicate steps (id, StatEvent.go) ++ [(id, StatEvent.listed []), (id, StatEvent.go)]

/-- The worker `second` is done with its three directories and is about to claim two of the four in
the queue of `first`. That one pops three of them without a CAS, and the claim takes `top_`
past `bottom_`. Then the first worker pushes a subdirectory. -/
def lateClaim (first second : Fin 2) : List (Fin 2 × StatEvent) :=
  visit second 5 ++ visit second 5 ++ visit second 7 ++ List.replicate 8 (second, StatEvent.go) ++
    visit first 5 ++ visit first 5 ++ List.replicate 5 (first, StatEvent.go) ++
    [(second, StatEvent.go), (first, StatEvent.listed [['x']]), (first, StatEvent.go),
      (first, StatEvent.go)]

/-- The state in which they start. -/
def lateStart : RingState 2 :=
  .startWorkers ⟨DistributeState.dealtQueues ⟨2, by decide⟩
    (collect_level sevenDirectories [] sevenNames (0, [])).2,
    .loop (collect_level sevenDirectories [] sevenNames (0, [])).2.length []⟩
    (collect_level sevenDirectories [] sevenNames (0, [])).2.length

theorem started_lateStart : Started sevenDirectories ⟨2, by decide⟩ lateStart :=
  RingState.started_of_fits rfl (List.Subperm.refl _) (by decide) (by decide)

/-- The first worker waits for space in an empty queue. -/
theorem waits_lateClaim : ∃ s,
    Runs.exec (RingState.step sevenDirectories) lateStart (lateClaim 0 1) = some s ∧ s.Waits 0 ∧
      (s.worker_queues 0).bottom ≤ (s.worker_queues 0).top := by
  have hpoints : (Runs.exec (RingState.step sevenDirectories) lateStart (lateClaim 0 1)).map
      (fun s => (s.workers 0, (s.worker_queues 0).owner)) =
      some (.pushing (some [['2']]) [], .pushLoadBottom (some [['2'], ['x']])) := by
    decide +kernel
  have hcounters : (Runs.exec (RingState.step sevenDirectories) lateStart (lateClaim 0 1)).map
      (fun s => ((s.worker_queues 0).bottom, (s.worker_queues 0).top)) = some (1, 2) := by
    decide +kernel
  obtain ⟨s, hrun, hpoint⟩ := Option.map_eq_some_iff.mp hpoints
  obtain ⟨hworker, howner⟩ := Prod.mk.inj hpoint
  rw [hrun, Option.map_some, Option.some.injEq] at hcounters
  obtain ⟨hbottom, htop⟩ := Prod.mk.inj hcounters
  refine ⟨s, hrun, ?_, by omega⟩
  rw [RingState.Waits, hworker]
  dsimp only
  rw [QueueState.WaitsForSpace, howner]
  dsimp only
  rw [hbottom, htop]
  decide

/-- Two directories with 923 subdirectories each stop two workers for good, and a claim that comes
too late stops one. -/
theorem not_noneStuck :
    (∃ s₀ run s, Started (wideTree 2 923) ⟨2, by decide⟩ s₀ ∧
      Runs.exec (RingState.step (wideTree 2 923)) s₀ run = some s ∧ ¬s.NoneStuck) ∧
    ∃ s₀ run s, Started sevenDirectories ⟨2, by decide⟩ s₀ ∧
      Runs.exec (RingState.step sevenDirectories) s₀ run = some s ∧ ¬s.NoneStuck := by
  obtain ⟨s₀, run, s, hstart, hrun, hstuck⟩ := stuck_wideTree ⟨2, by decide⟩ (by decide : _ < 923)
  obtain ⟨s', hrun', hwaits, hempty⟩ := waits_lateClaim
  exact ⟨⟨s₀, run, s, hstart, hrun, fun h => h.others hstuck⟩,
    ⟨lateStart, lateClaim 0 1, s', started_lateStart, hrun', fun h => h.own 0 ⟨hwaits, hempty⟩⟩⟩

end HpcWorkspace
