import Mathlib.Data.Nat.Sqrt
import HpcWorkspace.Lib.Pool
import HpcWorkspace.RingRefinement
import HpcWorkspace.WsList

/-!
# `ws_stat`

`ws_stat` collects entries as `ws_list` does, but in one thread, and prints what `stat_workspace` counts
for each of them. Without a sort the threads of a pool do this, so the workers of one workspace work
beside those of others; sorted, or with one entry, it is done in turn. Either way, while the steps on
the queues are safe, each entry is printed once, with what a sequential traversal of its directory
counts.
-/

namespace HpcWorkspace

/-! ## The entries -/

/-- The loop over the filesystems; `none` is an exception of `matchPattern`, which ends the process. -/
def statEntries (q : Query) (dir : DirOrder) (w : World) : List Str → Option (List (DbLoc × DBEntry))
  | [] => some []
  | fs :: fslist =>
    if !w.openDB fs then statEntries q dir w fslist
    else
      match q.matchlist w fs with
      | none => none
      | some ids =>
        (statEntries q dir w fslist).map fun entrylist =>
          ((dir.order ids).filterMap fun id =>
            (w.readEntry fs q.area id).map fun e => (⟨fs, q.area, id⟩, e)) ++ entrylist

/-- The entries of a call; `ws_stat` has no `-e`. -/
def wsStatEntries (config : Config) (c : Caller) (a : ListArgs) (udb : UserDb) (broken : Str → Bool)
    (dir : DirOrder) (w : World) : Option (List (DbLoc × DBEntry)) :=
  statEntries (listQuery config c { a with expired := false } udb broken) dir w
    (listFslist config c a.filesystem)

/-- The order in which they are printed: `-r` also counts without a sort. -/
def statShown (a : ListArgs) (clock : ℕ → ℤ × ℤ) (std : Sorting (DbLoc × DBEntry))
    (entrylist : List (DbLoc × DBEntry)) : List (DbLoc × DBEntry) :=
  let entrylist := if a.sort then std.sort (fun k => a.less (clock k)) entrylist else entrylist
  if a.reverted then entrylist.reverse else entrylist

theorem perm_statShown {a : ListArgs} {clock : ℕ → ℤ × ℤ} (hclock : a.SameSecond clock)
    (std : Sorting (DbLoc × DBEntry)) (l : List (DbLoc × DBEntry)) :
    (statShown a clock std l).Perm l := by
  have hsort : (if a.sort then std.sort (fun k => a.less (clock k)) l else l).Perm l := by
    split
    · exact ListArgs.perm_sort hclock std l
    · exact .refl l
  rw [statShown]
  split
  · exact (List.reverse_perm _).trans hsort
  · exact hsort

theorem statShown_of_sort {a : ListArgs} (hsort : a.sort = true) (clock : ℕ → ℤ × ℤ)
    (std : Sorting (DbLoc × DBEntry)) (l : List (DbLoc × DBEntry)) :
    statShown a clock std l = a.shown clock std l := by
  rw [statShown, ListArgs.shown, if_pos hsort, if_pos hsort]

/-- The loop collects what the sequence of all filesystems and entries has. -/
theorem perm_statEntries {q : Query} {dir : DirOrder} {w : World} {fslist : List Str}
    {entrylist : List (DbLoc × DBEntry)} (h : statEntries q dir w fslist = some entrylist) :
    entrylist.Perm (listSequential q w fslist) := by
  induction fslist generalizing entrylist with
  | nil =>
    obtain rfl := Option.some.inj h
    exact .refl _
  | cons fs fslist ih =>
    rw [listSequential, List.flatMap_cons]
    rw [statEntries] at h
    split at h
    · rename_i hclosed
      rw [if_pos hclosed]
      exact ih h
    · rename_i hopen
      rw [if_neg hopen]
      split at h
      · cases h
      · rename_i ids hids
        obtain ⟨rest, hrest, rfl⟩ := Option.map_eq_some_iff.mp h
        rw [hids]
        exact ((dir.perm ids).filterMap _).append (ih hrest)

/-! ## The threads -/

/-- `n` of `main`: the threads of the pool, and the workers that each of them starts. -/
def poolThreads (thread_count : ℕ) : ℕ :=
  let n := Nat.sqrt thread_count
  let n := if n < 2 then 2 else n
  if n > thread_count then thread_count else n

/-- There is at least one thread, and the workers of all threads are no more than were asked for. -/
theorem poolThreads_spec {thread_count : ℕ} (h : 4 ≤ thread_count) :
    0 < poolThreads thread_count ∧
      poolThreads thread_count * poolThreads thread_count ≤ thread_count := by
  have htwo : 2 ≤ Nat.sqrt thread_count := Nat.le_sqrt.mpr h
  have hle : Nat.sqrt thread_count ≤ thread_count := Nat.sqrt_le_self thread_count
  have heq : poolThreads thread_count = Nat.sqrt thread_count := by
    have hleast : (if Nat.sqrt thread_count < 2 then 2 else Nat.sqrt thread_count) =
        Nat.sqrt thread_count := if_neg (by omega)
    rw [poolThreads, hleast, if_neg (by omega)]
  rw [heq]
  exact ⟨by omega, Nat.sqrt_le thread_count⟩

theorem four_le_threadCount (option : ℕ) (env : Option (Option ℕ)) (hardware : ℕ) :
    4 ≤ threadCount option env hardware := by
  rw [threadCount]
  split <;> omega

theorem workerCount_of_pos {n : ℕ} (h : 0 < n) (option : ℕ) (env : Option (Option ℕ))
    (hardware : ℕ) : (workerCount n option env hardware).val = n := if_pos h

/-! ## A call of `stat_workspace` -/

/-- A call of `stat_workspace` with `n` workers. -/
inductive StatCall (n : WorkerCount) where
  /-- there is nothing to be done by workers -/
  | flat (result : StatResult)
  /-- the subdirectories of the top level are put into the queues -/
  | dealing (result : StatResult) (count : ℕ) (d : DistributeState n)
  /-- the workers are at work, beside the result of the top level -/
  | workers (result : StatResult) (r : RingState n.val)

/-- What such a call meets. -/
inductive StatCallEvent (n : ℕ) where
  /-- the names in the directory of the workspace -/
  | top (names : List Str)
  /-- the next step of the distribution, or the start of the workers -/
  | deal
  /-- a step of a worker -/
  | worker (label : Fin n × StatEvent)

/-- Calls of `stat_workspace` for entries, whose directories are listed without an error. -/
def statCalls (tree : WsPath → Tree) (n : WorkerCount) :
    Calls (DbLoc × DBEntry) (StatCall n) StatResult (StatCallEvent n.val) where
  enter x
    | .top names =>
      let t := tree x.2.workspace
      if Node.isDirectory (some t.root) then
        if names.Perm (Node.names (some t.root)) then
          let r := collect_level t [] names (0, [])
          if r.2 = [] then some (.flat r.1)
          else some (.dealing r.1 r.2.length (.start n r.2))
        else none
      else some (.flat 0)
    | _ => none
  step x
    | .dealing result count d, .deal =>
      match d.pc with
      | .loop _ [] => some (.workers result (.startWorkers d count))
      | _ => (d.step ()).map (.dealing result count)
    | .workers result r, .worker label =>
      (r.step (tree x.2.workspace) label).map (.workers result)
    | _, _ => none
  result _
    | .flat result => some result
    | .workers result r =>
      if ∀ id, r.workers id = .left then some (result + ∑ id, r.local_results id) else none
    | .dealing .. => none

/-- The steps of the workers that are safe. -/
def StatCall.Safe (tree : WsPath → Tree) {n : WorkerCount} (x : DbLoc × DBEntry) :
    StatCall n → StatCallEvent n.val → Prop
  | .workers _ r, .worker label => r.Safe (tree x.2.workspace) label
  | _, _ => True

instance (tree : WsPath → Tree) {n : WorkerCount} (x : DbLoc × DBEntry) (st : StatCall n)
    (e : StatCallEvent n.val) : Decidable (st.Safe tree x e) :=
  match st, e with
  | .workers _ r, .worker label => inferInstanceAs (Decidable (r.Safe (tree x.2.workspace) label))
  | .flat _, _ | .dealing .., _ | .workers .., .top _ | .workers .., .deal => isTrue trivial

/-- What holds of a call: it counts what a sequential traversal counts. -/
def StatCall.Counts (t : Tree) {n : WorkerCount} : StatCall n → Prop
  | .flat result => result = sequentialStat t
  | .dealing result count d => ∃ subdirs deal total, count = subdirs.length ∧
    Runs.exec DistributeState.step (.start n subdirs) deal = some d ∧
    (startWorkers n subdirs).StatInv t total ∧ result + total = sequentialStat t
  | .workers result r => ∃ s total, r.Refines s ∧ s.StatInv t total ∧
    result + total = sequentialStat t

variable {tree : WsPath → Tree} {n : WorkerCount} {x : DbLoc × DBEntry}

theorem counts_enter {e : StatCallEvent n.val} {st : StatCall n}
    (h : (statCalls tree n).enter x e = some st) : st.Counts (tree x.2.workspace) := by
  cases e with
  | worker label => cases h
  | deal => cases h
  | top names =>
    dsimp only [statCalls] at h
    split at h
    · split at h
      · rename_i hnames
        have hroot := collect_level_root (tree x.2.workspace) hnames
        split at h
        · rename_i hflat
          obtain rfl := Option.some.inj h
          rw [hflat] at hroot
          exact (add_zero _).symm.trans hroot
        · obtain rfl := Option.some.inj h
          exact ⟨_, [], _, rfl, rfl, statInv_startWorkers _ n _, hroot⟩
      · cases h
    · rename_i hno
      obtain rfl := Option.some.inj h
      exact (sequentialStat_of_not_isDirectory (Bool.not_eq_true _ ▸ hno)).symm

theorem counts_step {e : StatCallEvent n.val} {st st' : StatCall n}
    (hst : st.Counts (tree x.2.workspace)) (hsafe : st.Safe tree x e)
    (h : (statCalls tree n).step x st e = some st') : st'.Counts (tree x.2.workspace) := by
  cases st with
  | flat result => cases h
  | dealing result count d =>
    cases e with
    | top names => cases h
    | worker label => cases h
    | deal =>
      obtain ⟨subdirs, deal, total, rfl, hdeal, hinv, htotal⟩ := hst
      dsimp only [statCalls] at h
      split at h
      · rename_i i hpc
        obtain rfl := Option.some.inj h
        exact ⟨_, total, RingState.refines_start hdeal ⟨i, hpc⟩, hinv, htotal⟩
      · obtain ⟨d', hd', rfl⟩ := Option.map_eq_some_iff.mp h
        refine ⟨subdirs, deal ++ [()], total, rfl, ?_, hinv, htotal⟩
        rw [Runs.exec_append, hdeal, Option.bind_some, Runs.exec_cons, hd']
        rfl
  | workers result r =>
    cases e with
    | top names => cases h
    | deal => cases h
    | worker label =>
      obtain ⟨r', hr', rfl⟩ := Option.map_eq_some_iff.mp h
      obtain ⟨s, total, hrefines, hinv, htotal⟩ := hst
      obtain ⟨s', ⟨run, hrun⟩, hrefines'⟩ := hrefines.step hsafe hr'
      exact ⟨s', total, hrefines', hinv.run hrun, htotal⟩

theorem counts_result {st : StatCall n} {r : StatResult} (hst : st.Counts (tree x.2.workspace))
    (h : (statCalls tree n).result x st = some r) : r = sequentialStat (tree x.2.workspace) := by
  cases st with
  | flat result =>
    obtain rfl := Option.some.inj h
    exact hst
  | dealing result count d => cases h
  | workers result r =>
    dsimp only [statCalls] at h
    split at h
    · rename_i hleft
      obtain rfl := Option.some.inj h
      obtain ⟨s, total, hrefines, hinv, htotal⟩ := hst
      rw [hrefines.results_eq hinv hleft, htotal]
    · cases h

/-- **A call in which the steps of the workers are safe counts what a sequential traversal counts**,
beside any others. -/
theorem statCalls_correct (tree : WsPath → Tree) (n : WorkerCount) :
    Pool.Correct (statCalls tree n) (StatCall.Safe tree)
      (fun x st => st.Counts (tree x.2.workspace)) fun x r => r = sequentialStat (tree x.2.workspace) :=
  ⟨counts_enter, counts_step, counts_result⟩

/-! ## The call of `ws_stat` -/

/-- The entries are given to a pool. -/
def parallel (a : ListArgs) (entrylist : List (DbLoc × DBEntry)) : Prop :=
  a.sort = false ∧ 1 < entrylist.length

/-- What is printed for the entries, with the steps of all threads and workers as they happen, when
the steps of the workers are safe. -/
inductive SafelyPrinted (tree : WsPath → Tree) (option : ℕ) (env : Option (Option ℕ)) (hardware : ℕ)
    (a : ListArgs) (entrylist : List (DbLoc × DBEntry)) :
    List ((DbLoc × DBEntry) × StatResult) → Prop where
  /-- by the threads of the pool, under a mutex -/
  | pool (hparallel : parallel a entrylist) {p : ℕ}
      (hthreads : poolThreads (threadCount option env hardware) = p)
      {s : Pool (DbLoc × DBEntry) _ StatResult p} {evs : List (PoolEvent (DbLoc × DBEntry) _ p)}
      (hsafe : Runs.Meets (Pool.step (statCalls tree (workerCount p option env hardware)) false)
        (Pool.StepOk (StatCall.Safe tree)) (.start entrylist) evs)
      (hrun : Runs.exec (Pool.step (statCalls tree (workerCount p option env hardware)) false)
        (.start entrylist) evs = some s) (hdone : s.finished) :
      SafelyPrinted tree option env hardware a entrylist s.done
  /-- in turn -/
  | serial (hserial : ¬parallel a entrylist) {s : Pool (DbLoc × DBEntry) _ StatResult 1}
      {evs : List (PoolEvent (DbLoc × DBEntry) _ 1)}
      (hsafe : Runs.Meets (Pool.step (statCalls tree
          (workerCount (threadCount option env hardware) option env hardware)) true)
        (Pool.StepOk (StatCall.Safe tree)) (.start entrylist) evs)
      (hrun : Runs.exec (Pool.step (statCalls tree
          (workerCount (threadCount option env hardware) option env hardware)) true)
        (.start entrylist) evs = some s) (hdone : s.finished) :
      SafelyPrinted tree option env hardware a entrylist s.done

/-- An entry with what a sequential traversal counts. -/
def counted (tree : WsPath → Tree) (x : DbLoc × DBEntry) : (DbLoc × DBEntry) × StatResult :=
  (x, sequentialStat (tree x.2.workspace))

theorem eq_map_counted {done : List ((DbLoc × DBEntry) × StatResult)}
    (h : ∀ y ∈ done, y.2 = sequentialStat (tree y.1.2.workspace)) :
    done = (done.map Prod.fst).map (counted tree) := by
  rw [List.map_map]
  refine (List.map_id done).symm.trans (List.map_congr_left fun y hy => ?_)
  exact Prod.ext rfl (h y hy)

/-- **What `ws_stat` prints.** Whatever the order of the steps of all threads and their workers, over
directories that do not change, while the steps of the workers on their queues are safe: each entry of
the selection is printed once, with what a sequential traversal of its directory counts; sorted, in the
order of the sort. The workers of all threads are no more than were asked for. -/
theorem wsStat_exact (config : Config) (c : Caller) (a : ListArgs) (udb : UserDb)
    (broken : Str → Bool) (dir : DirOrder) (w : World) (entrylist : List (DbLoc × DBEntry))
    (hentries : wsStatEntries config c a udb broken dir w = some entrylist) (tree : WsPath → Tree)
    (option : ℕ) (env : Option (Option ℕ)) (hardware : ℕ) (clock : ℕ → ℤ × ℤ)
    (hclock : a.SameSecond clock) (std : Sorting (DbLoc × DBEntry)) :
    (∀ printed,
        SafelyPrinted tree option env hardware a (statShown a clock std entrylist) printed →
      printed.Perm ((sequentialListing config c { a with expired := false } udb broken w).map
          (counted tree)) ∧
        (a.sort = true →
          printed = (a.shown clock std entrylist).map (counted tree) ∧
            (printed.map Prod.fst).Pairwise fun x y =>
              if a.reverted then a.sortKey y ≤ a.sortKey x else a.sortKey x ≤ a.sortKey y)) ∧
      poolThreads (threadCount option env hardware) *
          (workerCount (poolThreads (threadCount option env hardware)) option env hardware).val ≤
        threadCount option env hardware := by
  obtain ⟨hpos, hmul⟩ := poolThreads_spec (four_le_threadCount option env hardware)
  refine ⟨fun printed hprinted => ?_, ?_⟩
  · have hselection : (statShown a clock std entrylist).Perm
        (sequentialListing config c { a with expired := false } udb broken w) :=
      (perm_statShown hclock std entrylist).trans (perm_statEntries hentries)
    cases hprinted with
    | pool hparallel hthreads hsafe hrun hdone =>
      obtain ⟨hperm, hright⟩ := Pool.done_of_run (statCalls_correct tree _) hsafe hrun hdone
      refine ⟨?_, fun hsort => absurd (hsort.symm.trans hparallel.1) Bool.false_ne_true.symm⟩
      rw [eq_map_counted hright]
      exact (hperm.trans hselection).map _
    | serial hserial hsafe hrun hdone =>
      obtain ⟨hperm, hright⟩ := Pool.done_of_run (statCalls_correct tree _) hsafe hrun hdone
      have horder := Pool.done_inOrder hrun hdone
      constructor
      · rw [eq_map_counted hright]
        exact (hperm.trans hselection).map _
      · intro hsort
        rw [statShown_of_sort hsort] at horder
        refine ⟨?_, ?_⟩
        · rw [eq_map_counted hright, horder]
        · rw [horder]
          exact ListArgs.pairwise_shown hclock std hsort entrylist
  · rw [workerCount_of_pos hpos]
    exact hmul

/-- In no order. -/
def unsorted : ListArgs := { byName with name := false, reverted := false }

/-- The entries of `bob`. -/
def bobEntries : List (DbLoc × DBEntry) :=
  sequentialListing plainConfig bob unsorted noUsers (fun _ => true) bobWorld

/-- A thread of the pool takes up an entry, and two workers share its directories. -/
def statNested (k : Fin 2) (x : DbLoc × DBEntry) :
    List (PoolEvent (DbLoc × DBEntry) (StatCallEvent 2) 2) :=
  [.take k x (.top [['d'], ['e'], ['f']])] ++ List.replicate 19 (.call k .deal) ++
    (RingState.shareNested ⟨0, Nat.two_pos⟩ ⟨1, Nat.one_lt_two⟩).map
      (fun label => .call k (.worker label)) ++ [.hand k]

/-- Two threads do this in turn, one step each. -/
def statBoth : List (DbLoc × DBEntry) → List (PoolEvent (DbLoc × DBEntry) (StatCallEvent 2) 2)
  | [x, y] => (List.zipWith (fun e e' => [e, e']) (statNested ⟨0, Nat.two_pos⟩ x)
    (statNested ⟨1, Nat.one_lt_two⟩ y)).flatten
  | _ => []

/-- What `ws_stat` prints for them. -/
theorem wsStat_exact_bob : ∃ printed,
    wsStatEntries plainConfig bob unsorted noUsers (fun _ => true) .plain bobWorld =
        some bobEntries ∧
      SafelyPrinted (fun _ => RingState.nestedDirectories) 0 none 4 unsorted
        (statShown unsorted (fun _ => (5, 5)) (.stable _) bobEntries) printed ∧
      printed.map Prod.snd = [⟨0, 0, 6, 0, 0⟩, ⟨0, 0, 6, 0, 0⟩] ∧
        printed.Perm (bobEntries.map (counted fun _ => RingState.nestedDirectories)) := by
  have hentries : wsStatEntries plainConfig bob unsorted noUsers (fun _ => true) .plain bobWorld =
      some bobEntries := rfl
  have hthreads : poolThreads (threadCount 0 none 4) = 2 := by
    have hsqrt : Nat.sqrt 4 = 2 := Nat.sqrt_eq 2
    have hcount : threadCount 0 none 4 = 4 := rfl
    rw [hcount, poolThreads, hsqrt]
    rfl
  have hsafe : Runs.Meets (Pool.step (statCalls (fun _ => RingState.nestedDirectories)
      ⟨2, Nat.two_pos⟩) false)
        (Pool.StepOk (StatCall.Safe fun _ => RingState.nestedDirectories))
        (.start bobEntries) (statBoth bobEntries) := by
    decide +kernel
  have hends : (Runs.exec (Pool.step (statCalls (fun _ => RingState.nestedDirectories)
      ⟨2, Nat.two_pos⟩) false) (.start bobEntries) (statBoth bobEntries)).map
        (fun s : Pool (DbLoc × DBEntry) (StatCall _) StatResult 2 =>
          (s.todo.isEmpty, (s.threads ⟨0, Nat.two_pos⟩).isNone,
            (s.threads ⟨1, Nat.one_lt_two⟩).isNone, s.done.map Prod.snd)) =
      some (true, true, true, [⟨0, 0, 6, 0, 0⟩, ⟨0, 0, 6, 0, 0⟩]) := by
    decide +kernel
  obtain ⟨s, hrun, hend⟩ := Option.map_eq_some_iff.mp hends
  obtain ⟨htodo, hrest⟩ := Prod.mk.inj hend
  obtain ⟨hfirst, hrest⟩ := Prod.mk.inj hrest
  obtain ⟨hsecond, hsnd⟩ := Prod.mk.inj hrest
  have hdone : s.finished := ⟨List.isEmpty_iff.mp htodo, Fin.forall_fin_two.mpr
    ⟨Option.isNone_iff_eq_none.mp hfirst, Option.isNone_iff_eq_none.mp hsecond⟩⟩
  have hprinted : SafelyPrinted (fun _ => RingState.nestedDirectories) 0 none 4 unsorted
      (statShown unsorted (fun _ => (5, 5)) (.stable _) bobEntries) s.done :=
    .pool ⟨rfl, by decide⟩ hthreads hsafe hrun hdone
  exact ⟨s.done, hentries, hprinted, hsnd, ((wsStat_exact plainConfig bob unsorted noUsers
    (fun _ => true) .plain bobWorld bobEntries hentries (fun _ => RingState.nestedDirectories) 0
      none 4 (fun _ => (5, 5)) (fun h => by cases h) (.stable _)).1 _ hprinted).1⟩

end HpcWorkspace
