import Mathlib.Algebra.BigOperators.Fin
import Mathlib.Data.UInt
import HpcWorkspace.Lib.Runs
import HpcWorkspace.Lib.Worklist
import HpcWorkspace.Names

/-!
# The parallel traversal of `ws_stat`

`stat_workspace` reads the top level of a workspace itself and spreads the subdirectories it finds
over the queues of its workers. A worker takes a directory from its own queue or steals some from
another one, counts what is in it, and pushes the subdirectories. A shared counter tells how many
directories are not done yet; a worker that finds nothing leaves when it is 0.

Each access to a queue or to the counter, and each entry that is looked at, is one step. A queue is
a multiset here: `pop` and `steal` hand out paths that were pushed and not yet handed out, or
nothing, and a push completes.
-/

namespace HpcWorkspace

/-! ## Trees -/

/-- A file in a workspace, which does not change. -/
inductive Node where
  /-- a symbolic link, which is not followed -/
  | symlink
  /-- a directory, with the entries that a listing delivers -/
  | directory (entries : List (Str × Node))
  /-- a regular file, with what `getfilesize` gives -/
  | regular (bytes blocks : UInt64)
  /-- anything else -/
  | other

/-- A path below a workspace. -/
abbrev StatPath := List Str

namespace Node

/-- The file at a path. -/
def find : Node → StatPath → Option Node
  | node, [] => some node
  | .directory entries, name :: path =>
    match entries.lookup name with
    | some node => node.find path
    | none => none
  | _, _ :: _ => none

/-- The names in a directory. -/
def names : Option Node → List Str
  | some (.directory entries) => entries.map Prod.fst
  | _ => []

/-- Is it a directory? -/
def isDirectory : Option Node → Bool
  | some (.directory _) => true
  | _ => false

/-- No directory has two entries of one name. -/
inductive Unique : Node → Prop where
  /-- a symbolic link -/
  | symlink : Unique .symlink
  /-- a directory -/
  | directory {entries : List (Str × Node)} (hnodup : (entries.map Prod.fst).Nodup)
      (h : ∀ name node, (name, node) ∈ entries → Unique node) : Unique (.directory entries)
  /-- a regular file -/
  | regular {bytes blocks : UInt64} : Unique (.regular bytes blocks)
  /-- anything else -/
  | other : Unique .other

end Node

/-- A workspace: what is at its path, as a file system has it. -/
structure Tree where
  /-- the file at the path of the workspace -/
  root : Node
  /-- names are unique -/
  unique : root.Unique

/-- What is at a path of a workspace. -/
def Tree.find (t : Tree) (path : StatPath) : Option Node := t.root.find path

/-! ## Results -/

/-- `StatResult` -/
@[ext] structure StatResult where
  /-- regular files -/
  files : UInt64
  /-- symbolic links -/
  softlinks : UInt64
  /-- directories -/
  directories : UInt64
  /-- sizes of the files -/
  bytes : UInt64
  /-- blocks of the files -/
  blocks : UInt64
  deriving DecidableEq

namespace StatResult

/-- `operator+=` -/
instance : Add StatResult where
  add a b :=
    ⟨a.files + b.files, a.softlinks + b.softlinks, a.directories + b.directories,
      a.bytes + b.bytes, a.blocks + b.blocks⟩

/-- `StatResult{}` -/
instance : Zero StatResult where
  zero := ⟨0, 0, 0, 0, 0⟩

instance : AddCommMonoid StatResult where
  add_assoc a b c := StatResult.ext (add_assoc a.files _ _) (add_assoc a.softlinks _ _)
    (add_assoc a.directories _ _) (add_assoc a.bytes _ _) (add_assoc a.blocks _ _)
  zero_add a := StatResult.ext (zero_add a.files) (zero_add a.softlinks) (zero_add a.directories)
    (zero_add a.bytes) (zero_add a.blocks)
  add_zero a := StatResult.ext (add_zero a.files) (add_zero a.softlinks) (add_zero a.directories)
    (add_zero a.bytes) (add_zero a.blocks)
  add_comm a b := StatResult.ext (add_comm a.files _) (add_comm a.softlinks _)
    (add_comm a.directories _) (add_comm a.bytes _) (add_comm a.blocks _)
  nsmul := nsmulRec

/-- An entry of a directory is counted. -/
def count (r : StatResult) : Option Node → StatResult
  | some .symlink => { r with softlinks := r.softlinks + 1 }
  | some (.directory _) => { r with directories := r.directories + 1 }
  | some (.regular bytes blocks) =>
    { r with files := r.files + 1, bytes := r.bytes + bytes, blocks := r.blocks + blocks }
  | _ => r

end StatResult

mutual

/-- The plain sequential traversal: entry after entry. -/
def traverse : List (Str × Node) → StatResult → StatResult
  | [], r => r
  | e :: entries, r => traverse entries (traverseEntry e r)

/-- An entry, and then all below it. -/
def traverseEntry : Str × Node → StatResult → StatResult
  | (_, node), r => node.traverseBelow (r.count (some node))

/-- All below a file. -/
def Node.traverseBelow : Node → StatResult → StatResult
  | .directory entries, r => traverse entries r
  | _, r => r

end

/-- A sequential `ws_stat`. -/
def sequentialStat (t : Tree) : StatResult := t.root.traverseBelow 0

/-! ## Workers -/

/-- The number of workers. -/
structure WorkerCount where
  /-- `worker_count` -/
  val : ℕ
  /-- there is one -/
  pos : 0 < val

/-- The number of threads that is asked for: the option `-t`, or `WS_THREADS` (`some none` when it
is no number), or the hardware. -/
def requestedThreads (option : ℕ) (env : Option (Option ℕ)) (hardware : ℕ) : ℕ :=
  if option ≠ 0 then option
  else
    match env with
    | some (some n) => if n = 0 then 1 else n
    | _ => if hardware = 0 then 1 else hardware

/-- `thread_count` as `main` settles it: no less than 4. -/
def threadCount (option : ℕ) (env : Option (Option ℕ)) (hardware : ℕ) : ℕ :=
  let thread_count := requestedThreads option env hardware
  if thread_count < 4 then 4 else thread_count

/-- `worker_count` of `stat_workspace`. -/
def workerCount (override_workers option : ℕ) (env : Option (Option ℕ)) (hardware : ℕ) :
    WorkerCount where
  val := if override_workers > 0 then override_workers else threadCount option env hardware
  pos := by
    unfold threadCount
    split
    · assumption
    · dsimp only
      split <;> omega

/-- Where a worker is, with its local variables: the step it takes next. -/
inductive WorkerPc where
  /-- pop from the own queue -/
  | pop
  /-- steal from the `i`-th queue after the own one, or end the loop over the queues -/
  | steal (i : ℕ)
  /-- push the rest of the stolen batch to the own queue -/
  | pushBatch (work : StatPath) (stolen_batch : List StatPath)
  /-- nothing was found: load the counter -/
  | check
  /-- list the directory -/
  | list (work : StatPath)
  /-- look at the next entry of the directory, or let the guard decrement the counter -/
  | read (work : StatPath) (entries : List Str)
  /-- push a subdirectory, for which the counter is incremented -/
  | push (work p : StatPath) (entries : List Str)
  /-- it has left `worker_thread` -/
  | left
  deriving DecidableEq

/-- What a worker meets in a step: the results of its calls. -/
inductive StatEvent where
  /-- `pop` returns -/
  | popped (path : Option StatPath)
  /-- `steal` returns -/
  | stolen (batch : List StatPath)
  /-- the names in a directory, in the order of the listing -/
  | listed (names : List Str)
  /-- nothing -/
  | go

/-- The state of `n` workers. -/
structure StatState (n : ℕ) where
  /-- `worker_queues` -/
  queues : Fin n → Multiset StatPath
  /-- the workers -/
  workers : Fin n → WorkerPc
  /-- `local_results` -/
  local_results : Fin n → StatResult
  /-- `work_counter` -/
  work_counter : ℤ

namespace StatState

variable {n : ℕ}

/-- A worker goes on. -/
def goto (s : StatState n) (id : Fin n) (pc : WorkerPc) : StatState n :=
  { s with workers := Function.update s.workers id pc }

/-- A queue changes. -/
def setQueue (s : StatState n) (id : Fin n) (queue : Multiset StatPath) : StatState n :=
  { s with queues := Function.update s.queues id queue }

/-- A worker counts an entry. -/
def countLocal (s : StatState n) (id : Fin n) (entry : Option Node) : StatState n :=
  { s with
    local_results := Function.update s.local_results id ((s.local_results id).count entry) }

/-- `worker_queues[(worker_id + i) % worker_queues.size()]` -/
def victim (id : Fin n) (i : ℕ) : Fin n := ⟨(id.val + i) % n, Nat.mod_lt _ id.pos⟩

/-- A step of `worker_thread`. -/
def step (t : Tree) (s : StatState n) (label : Fin n × StatEvent) : Option (StatState n) :=
  let id := label.1
  match s.workers id, label.2 with
  | .pop, .popped none => some (s.goto id (.steal 1))
  | .pop, .popped (some work) =>
    if work ∈ s.queues id then
      some ((s.setQueue id ((s.queues id).erase work)).goto id (.list work))
    else none
  | .steal i, .stolen batch =>
    if i < n ∧ batch.length ≤ 16 ∧ (batch : Multiset StatPath) ≤ s.queues (victim id i) then
      match batch.getLast? with
      | none => some (s.goto id (.steal (i + 1)))
      | some work =>
        some ((s.setQueue (victim id i) (s.queues (victim id i) - batch)).goto id
          (.pushBatch work batch.dropLast))
    else none
  | .steal i, .go => if i < n then none else some (s.goto id .check)
  | .pushBatch work [], .go => some (s.goto id (.list work))
  | .pushBatch work (p :: stolen_batch), .go =>
    some ((s.setQueue id (p ::ₘ s.queues id)).goto id (.pushBatch work stolen_batch))
  | .check, .go => if s.work_counter = 0 then some (s.goto id .left) else some (s.goto id .pop)
  | .list work, .listed names =>
    -- `exists` and `is_directory`: what is no directory has no names
    if names.Perm (Node.names (t.find work)) then some (s.goto id (.read work names)) else none
  | .read _ [], .go => some ({ s with work_counter := s.work_counter - 1 }.goto id .pop)
  | .read work (name :: entries), .go =>
    let entry := t.find (work ++ [name])
    if Node.isDirectory entry then
      some ({ s.countLocal id entry with work_counter := s.work_counter + 1 }.goto id
        (.push work (work ++ [name]) entries))
    else some ((s.countLocal id entry).goto id (.read work entries))
  | .push work p entries, .go =>
    some ((s.setQueue id (p ::ₘ s.queues id)).goto id (.read work entries))
  | _, _ => none

end StatState

/-! ## The workspace -/

/-- `collect_level` on the names in a directory. -/
def collect_level (t : Tree) (path : StatPath) :
    List Str → StatResult × List StatPath → StatResult × List StatPath
  | [], r => r
  | name :: names, (result, subdirs) =>
    let entry := t.find (path ++ [name])
    collect_level t path names
      (result.count entry,
        if Node.isDirectory entry then subdirs ++ [path ++ [name]] else subdirs)

/-- The subdirectories from the `i`-th on are pushed to the queues, round-robin. -/
def distribute (n : WorkerCount) :
    List StatPath → ℕ → (Fin n.val → Multiset StatPath) → Fin n.val → Multiset StatPath
  | [], _, queues => queues
  | p :: subdirs, i, queues =>
    let id : Fin n.val := ⟨i % n.val, Nat.mod_lt i n.pos⟩
    distribute n subdirs (i + 1) (Function.update queues id (p ::ₘ queues id))

/-- The state in which the workers are started. -/
def startWorkers (n : WorkerCount) (subdirs : List StatPath) : StatState n.val where
  queues := distribute n subdirs 0 fun _ => 0
  workers _ := .pop
  local_results _ := 0
  work_counter := subdirs.length

/-- What `stat_workspace` returns, with the listing of the top level and the steps of the workers
as they happen. -/
inductive StatWorkspace (t : Tree) (n : WorkerCount) : StatResult → Prop where
  /-- it is no directory -/
  | missing (h : Node.isDirectory (some t.root) = false) : StatWorkspace t n 0
  /-- there are no subdirectories -/
  | flat {names : List Str} (hdir : Node.isDirectory (some t.root) = true)
      (hnames : names.Perm (Node.names (some t.root)))
      (hflat : (collect_level t [] names (0, [])).2 = []) :
      StatWorkspace t n (collect_level t [] names (0, [])).1
  /-- all workers have left -/
  | joined {names : List Str} {run : List (Fin n.val × StatEvent)} {s : StatState n.val}
      (hdir : Node.isDirectory (some t.root) = true)
      (hnames : names.Perm (Node.names (some t.root)))
      (hrun : Runs.exec (StatState.step t)
        (startWorkers n (collect_level t [] names (0, [])).2) run = some s)
      (hleft : ∀ id, s.workers id = .left) :
      StatWorkspace t n ((collect_level t [] names (0, [])).1 + ∑ id, s.local_results id)

end HpcWorkspace
