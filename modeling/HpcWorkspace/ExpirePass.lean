import HpcWorkspace.Deadlines
import HpcWorkspace.ExpireLoops

/-!
# A whole pass of `expire_workspaces`

When no system call fails, a pass does all that it should: each live entry that is over its time is
in the deleted area afterwards, under a new name and with its directory, each deleted entry that is
over its keep time is gone with its directory, and nothing else is lost. The rounds are those of the
loops; what one round does is not undone by the later ones, since the names it uses carry its id.
-/

namespace HpcWorkspace

variable {config : Config} {fs id : Str} {ids live : List Str} {env : DbLoc → RoundEnv}
  {w w' w₁ : World} {e : DBEntry} {ts : ℤ}

/-! ## Live entries -/

/-- A live entry is over its time. -/
structure Due (fs : Str) (env : DbLoc → RoundEnv) (w : World) (id : Str) (e : DBEntry) : Prop where
  /-- it can be read -/
  read : w.readEntry fs .live id = some e
  /-- it has a time -/
  time : 0 < e.expiration
  /-- which is over -/
  late : e.expiration < (env ⟨fs, .live, id⟩).now

/-- One of the names that `expire` tries is free. -/
def NameFree (w : World) (fs id : Str) (e : DBEntry) (ts : ℤ) : Prop :=
  ∃ j : ℕ, j < 1000 ∧ w.nameTaken fs e (deletedName id (ts + j)) = false

/-- What a pass over the live entries relies on. -/
structure PassReady (fs : Str) (env : DbLoc → RoundEnv) (live : List Str) (w : World) : Prop where
  /-- no system call fails -/
  ok : ∀ id ∈ live, (env ⟨fs, .live, id⟩).entry = .ok ∧ (env ⟨fs, .live, id⟩).dir = .ok
  /-- the clock is after 1970 -/
  clock : ∀ id ∈ live, 0 ≤ (env ⟨fs, .live, id⟩).timestamp
  /-- the directory of an entry has its name -/
  named : ∀ id ∈ live, ∀ e, w.readEntry fs .live id = some e → e.workspace.name = id
  /-- there is a name for each entry that is over its time -/
  free : ∀ id ∈ live, ∀ e, Due fs env w id e → NameFree w fs id e (env ⟨fs, .live, id⟩).timestamp

/-- An entry has gone to the deleted area, with its directory. -/
structure RetiredTo (fs : Str) (env : DbLoc → RoundEnv) (w w₁ : World) (id : Str) (e : DBEntry)
    (ts : ℤ) : Prop where
  /-- the name has the time, or a later one -/
  since : (env ⟨fs, .live, id⟩).timestamp ≤ ts
  /-- the name was free -/
  free : w.nameTaken fs e (deletedName id ts) = false
  /-- the live entry is gone -/
  gone : w₁.db.lookup ⟨fs, .live, id⟩ = none
  /-- the deleted one is there -/
  entry : w₁.db.lookup ⟨fs, .deleted, deletedName id ts⟩ =
    some (.entry { e with expired := (env ⟨fs, .live, id⟩).expired }.persisted)
  /-- and so is its directory -/
  dir : ∀ n, w.dirs.find e.workspace.loc = some n →
    w₁.dirs.find ⟨e.workspace.space, .deleted, deletedName id ts⟩ = some n

/-- The effect of a pass over live entries. -/
structure LivePass (fs : Str) (env : DbLoc → RoundEnv) (live : List Str) (w w₁ : World) : Prop where
  /-- what is over its time has gone to the deleted area -/
  expired : ∀ id ∈ live, ∀ e, Due fs env w id e → ∃ ts, RetiredTo fs env w w₁ id e ts
  /-- other live entries stay -/
  live_kept : ∀ k, k.area = .live → (k.fs = fs → k.id ∈ live → ∀ e, ¬Due fs env w k.id e) →
    w₁.db.lookup k = w.db.lookup k
  /-- deleted entries stay -/
  deleted_kept : ∀ k f, k.area = .deleted → w.db.lookup k = some f → w₁.db.lookup k = some f
  /-- other directories stay -/
  dirs_kept : ∀ d n, w.dirs.find d = some n →
    (∀ id ∈ live, ∀ e, Due fs env w id e → d ≠ e.workspace.loc) → w₁.dirs.find d = some n

theorem freeTimestamp_isSome {tries : ℕ} (h : ∃ j : ℕ, j < tries ∧
    w.nameTaken fs e (deletedName id (ts + j)) = false) :
    ∃ ts', w.freeTimestamp fs id e ts tries = some ts' := by
  induction tries generalizing ts with
  | zero =>
    obtain ⟨j, hj, -⟩ := h
    exact absurd hj (Nat.not_lt_zero j)
  | succ tries ih =>
    rw [World.freeTimestamp]
    split
    · rename_i htaken
      obtain ⟨j, hj, hfree⟩ := h
      cases j with
      | zero =>
        rw [Int.natCast_zero, add_zero, htaken] at hfree
        cases hfree
      | succ j =>
        refine ih ⟨j, by omega, ?_⟩
        rw [show ts + 1 + (j : ℤ) = ts + ((j + 1 : ℕ) : ℤ) by omega]
        exact hfree
    · exact ⟨ts, rfl⟩

/-- A round of an entry that is over its time. -/
theorem expireRound_due (hdue : Due fs env w id e) (hok : (env ⟨fs, .live, id⟩).entry = .ok)
    (hclock : 0 ≤ (env ⟨fs, .live, id⟩).timestamp)
    (hfree : NameFree w fs id e (env ⟨fs, .live, id⟩).timestamp) :
    ∃ ts, (env ⟨fs, .live, id⟩).timestamp ≤ ts ∧ w.nameTaken fs e (deletedName id ts) = false ∧
      (expireRound fs env id w).1 =
        (((w.writeEntry ⟨fs, .live, id⟩ { e with expired := (env ⟨fs, .live, id⟩).expired }).renameEntry
          ⟨fs, .live, id⟩ ⟨fs, .deleted, deletedName id ts⟩).moveDir (env ⟨fs, .live, id⟩).dir
            e.workspace.loc (expiredDir e ts) (env ⟨fs, .live, id⟩).moved).1 := by
  obtain ⟨ts, hts⟩ := freeTimestamp_isSome hfree
  obtain ⟨hle, hnot⟩ := Expirer.freeTimestamp_eq_some hts
  refine ⟨ts, hle, hnot, ?_⟩
  simp only [expireRound_eq, hdue.read, hdue.time, hdue.late, and_self, if_true, expireOver,
    World.expire, Int.not_lt.mpr hclock, if_false, hts, hok]

/-- What a round leaves alone. -/
structure RoundFrame (fs id : Str) (e : DBEntry) (ts : ℤ) (w w' : World) : Prop where
  /-- other entry files -/
  db : ∀ k, k ≠ ⟨fs, .live, id⟩ → k ≠ ⟨fs, .deleted, deletedName id ts⟩ →
    w'.db.lookup k = w.db.lookup k
  /-- other directories -/
  dirs : ∀ d, d ≠ e.workspace.loc → d ≠ expiredDir e ts → w'.dirs.find d = w.dirs.find d

/-- **Step lemma** for an entry that is over its time. -/
theorem expireRound_expires (hdue : Due fs env w id e)
    (hok : (env ⟨fs, .live, id⟩).entry = .ok ∧ (env ⟨fs, .live, id⟩).dir = .ok)
    (hclock : 0 ≤ (env ⟨fs, .live, id⟩).timestamp) (hname : e.workspace.name = id)
    (hfree : NameFree w fs id e (env ⟨fs, .live, id⟩).timestamp) :
    ∃ ts, RetiredTo fs env w (expireRound fs env id w).1 id e ts ∧
      RoundFrame fs id e ts w (expireRound fs env id w).1 := by
  obtain ⟨ts, hle, hnot, heq⟩ := expireRound_due hdue hok.1 hclock hfree
  have hne : (⟨fs, .live, id⟩ : DbLoc) ≠ ⟨fs, .deleted, deletedName id ts⟩ := by simp
  have hdest : expiredDir e ts = ⟨e.workspace.space, .deleted, deletedName id ts⟩ := by
    rw [expiredDir, hname]
  have hempty : w.dirs.find (expiredDir e ts) = none := by
    rw [hdest]
    have hdirs := (Bool.or_eq_false_iff.mp hnot).2
    exact Option.isNone_iff_eq_none.mp (Option.isSome_eq_false_iff.mp hdirs)
  refine ⟨ts, ⟨hle, hnot, ?_, ?_, fun n hn => ?_⟩, ⟨fun k hk hk' => ?_, fun d hd hd' => ?_⟩⟩
  · rw [heq, moveDir_db]
    exact World.lookup_renameEntry_from hne
  · rw [heq, moveDir_db]
    exact World.lookup_renameEntry_to (World.lookup_writeEntry _ _ _)
  · rw [heq, hok.2, ← hdest]
    refine find_moveDir_ok ?_ ?_
    · rw [World.renameEntry_dirs, World.writeEntry_dirs]
      exact hn
    · rw [World.mayReplace, World.renameEntry_dirs, World.writeEntry_dirs, hempty]
  · rw [heq, moveDir_db, World.lookup_renameEntry_ne hk hk']
    exact World.lookup_writeEntry_ne _ hk
  · rw [heq, find_moveDir_ne hd hd', World.renameEntry_dirs, World.writeEntry_dirs]

/-- A round of another entry leaves all as it is. -/
theorem expireRound_keeps (hdue : ∀ e, ¬Due fs env w id e) : (expireRound fs env id w).1 = w := by
  rw [expireRound_eq]
  cases hread : w.readEntry fs .live id with
  | none => rfl
  | some e =>
    dsimp only
    rw [if_neg]
    rintro ⟨htime, hover⟩
    exact hdue e ⟨hread, htime, hover⟩

/-! ## One entry does not disturb another -/

section Frame

variable {id' : Str} {e' : DBEntry} {t : ℤ}

/-- A name of another entry is as free as before. -/
theorem RoundFrame.nameTaken (h : RoundFrame fs id e ts w w') (hts : 0 ≤ ts) (ht : 0 ≤ t)
    (hname : e.workspace.name = id) (hne : id' ≠ id) :
    w'.nameTaken fs e' (deletedName id' t) = w.nameTaken fs e' (deletedName id' t) := by
  have hnames : deletedName id' t ≠ deletedName id ts := fun heq =>
    hne (deletedName_inj ht hts heq).1
  have hdb := h.db ⟨fs, .deleted, deletedName id' t⟩ (by simp) fun heq =>
    hnames (congrArg DbLoc.id heq)
  have hdirs := h.dirs ⟨e'.workspace.space, .deleted, deletedName id' t⟩ (by simp [WsPath.loc])
    fun heq => hnames (by
      have hloc := congrArg DirLoc.name heq
      rwa [expiredDir, hname] at hloc)
  rw [World.nameTaken, World.nameTaken, hdb, hdirs]

theorem RoundFrame.lookup_live (h : RoundFrame fs id e ts w w') (hne : id' ≠ id) :
    w'.db.lookup ⟨fs, .live, id'⟩ = w.db.lookup ⟨fs, .live, id'⟩ :=
  h.db _ (by simpa using hne) (by simp)

theorem RoundFrame.readEntry (h : RoundFrame fs id e ts w w') (hne : id' ≠ id) :
    w'.readEntry fs .live id' = w.readEntry fs .live id' := by
  rw [World.readEntry, World.readEntry, h.lookup_live hne]

theorem RoundFrame.due_iff (h : RoundFrame fs id e ts w w') (hne : id' ≠ id) :
    Due fs env w' id' e' ↔ Due fs env w id' e' := by
  constructor
  · intro hdue
    exact ⟨(h.readEntry hne).symm.trans hdue.read, hdue.time, hdue.late⟩
  · intro hdue
    exact ⟨(h.readEntry hne).trans hdue.read, hdue.time, hdue.late⟩

theorem PassReady.tail (h : PassReady fs env (id :: ids) w) : PassReady fs env ids w where
  ok id' hid' := h.ok id' (List.mem_cons_of_mem _ hid')
  clock id' hid' := h.clock id' (List.mem_cons_of_mem _ hid')
  named id' hid' := h.named id' (List.mem_cons_of_mem _ hid')
  free id' hid' := h.free id' (List.mem_cons_of_mem _ hid')

/-- What is ready stays so. -/
theorem PassReady.next (hready : PassReady fs env (id :: ids) w)
    (h : RoundFrame fs id e ts w w') (hts : 0 ≤ ts) (hname : e.workspace.name = id)
    (hnew : id ∉ ids) : PassReady fs env ids w' := by
  have hne : ∀ id' ∈ ids, id' ≠ id := fun id' hid' heq => hnew (heq ▸ hid')
  refine ⟨fun id' hid' => hready.ok id' (List.mem_cons_of_mem _ hid'),
    fun id' hid' => hready.clock id' (List.mem_cons_of_mem _ hid'), fun id' hid' e' he' => ?_,
    fun id' hid' e' hdue => ?_⟩
  · rw [h.readEntry (hne id' hid')] at he'
    exact hready.named id' (List.mem_cons_of_mem _ hid') e' he'
  · obtain ⟨j, hj, hfree⟩ := hready.free id' (List.mem_cons_of_mem _ hid') e'
      ((h.due_iff (hne id' hid')).mp hdue)
    have hclock := hready.clock id' (List.mem_cons_of_mem _ hid')
    refine ⟨j, hj, ?_⟩
    rw [h.nameTaken hts (by omega) hname (hne id' hid')]
    exact hfree

end Frame

/-- **Run lemma** for the first loop. -/
theorem livePass_of_loop (hready : PassReady fs env live w) (hnodup : live.Nodup) :
    LivePass fs env live w (Loops.forEach (expireRound fs env) live w).1 := by
  induction live generalizing w with
  | nil =>
    exact ⟨fun id hid => absurd hid List.not_mem_nil, fun _ _ _ => rfl, fun _ _ _ h => h,
      fun _ _ h _ => h⟩
  | cons id ids ih =>
    obtain ⟨hnew, hnodup⟩ := List.nodup_cons.mp hnodup
    have hne : ∀ id' ∈ ids, id' ≠ id := fun id' hid' heq => hnew (heq ▸ hid')
    have hmem : id ∈ id :: ids := List.mem_cons_self ..
    rw [Loops.forEach_cons_of_quiet (by rw [expireRound_eq])]
    by_cases hdue : ∃ e, Due fs env w id e
    · obtain ⟨e, hdue⟩ := hdue
      have hname := hready.named id hmem e hdue.read
      obtain ⟨ts, hexpired, hframe⟩ := expireRound_expires hdue (hready.ok id hmem)
        (hready.clock id hmem) hname (hready.free id hmem e hdue)
      have hts : 0 ≤ ts := Int.le_trans (hready.clock id hmem) hexpired.since
      have hrest := ih (hready.next hframe hts hname hnew) hnodup
      generalize (expireRound fs env id w).1 = w' at hexpired hframe hrest
      generalize (Loops.forEach (expireRound fs env) ids w').1 = w₁ at hrest ⊢
      -- the directories of the other entries are other ones
      have hother : ∀ id' ∈ ids, ∀ e', Due fs env w id' e' → e'.workspace.loc ≠ e.workspace.loc := by
        intro id' hid' e' hdue' heq
        refine hne id' hid' ?_
        rw [← hready.named id' (List.mem_cons_of_mem _ hid') e' hdue'.read, ← hname]
        exact congrArg DirLoc.name heq
      refine ⟨fun id' hid' e' hdue' => ?_, fun k hk hkeep => ?_, fun k f hk hlook => ?_,
        fun d n hn hkeep => ?_⟩
      · rcases List.mem_cons.mp hid' with rfl | hid'
        · -- the first entry stays where it has gone
          obtain rfl := Option.some.inj (hdue.read.symm.trans hdue'.read)
          refine ⟨ts, hexpired.since, hexpired.free, ?_, ?_, fun n hn => ?_⟩
          · rw [hrest.live_kept _ rfl fun _ hmem => absurd hmem hnew]
            exact hexpired.gone
          · exact hrest.deleted_kept _ _ rfl hexpired.entry
          · refine hrest.dirs_kept _ n (hexpired.dir n hn) fun id'' _ e'' _ heq => ?_
            exact absurd (congrArg DirLoc.area heq) (by simp [WsPath.loc])
        · -- a later one goes as if it were alone
          obtain ⟨ts', h'⟩ := hrest.expired id' hid' e' ((hframe.due_iff (hne id' hid')).mpr hdue')
          have hts' : 0 ≤ ts' := Int.le_trans (hready.clock id' (List.mem_cons_of_mem _ hid')) h'.since
          refine ⟨ts', h'.since, ?_, h'.gone, h'.entry, fun n hn => h'.dir n ?_⟩
          · rw [← hframe.nameTaken hts hts' hname (hne id' hid')]
            exact h'.free
          · rw [hframe.dirs _ (hother id' hid' e' hdue') (by simp [expiredDir, WsPath.loc])]
            exact hn
      · have hkeep' : k.fs = fs → k.id ∈ ids → ∀ e', ¬Due fs env w' k.id e' := by
          intro hfs hid' e' hdue'
          exact hkeep hfs (List.mem_cons_of_mem _ hid') e' ((hframe.due_iff (hne _ hid')).mp hdue')
        rw [hrest.live_kept k hk hkeep']
        refine hframe.db k (fun heq => ?_) fun heq => ?_
        · subst heq
          exact hkeep rfl hmem e hdue
        · rw [heq] at hk
          cases hk
      · refine hrest.deleted_kept k f hk ?_
        rw [hframe.db k (fun heq => ?_) fun heq => ?_]
        · exact hlook
        · rw [heq] at hk
          cases hk
        · -- the name was free
          have hdb := (Bool.or_eq_false_iff.mp hexpired.free).1
          rw [← heq, hlook] at hdb
          cases hdb
      · refine hrest.dirs_kept d n ?_ fun id' hid' e' hdue' =>
          hkeep id' (List.mem_cons_of_mem _ hid') e' ((hframe.due_iff (hne id' hid')).mp hdue')
        rw [hframe.dirs d (hkeep id hmem e hdue) fun heq => ?_]
        · exact hn
        · have hdirs := (Bool.or_eq_false_iff.mp hexpired.free).2
          rw [expiredDir, hname] at heq
          rw [← heq, hn] at hdirs
          cases hdirs
    · -- nothing to do for the first entry
      rw [not_exists] at hdue
      rw [expireRound_keeps hdue]
      have hrest := ih hready.tail hnodup
      refine ⟨fun id' hid' e' hdue' => ?_, fun k hk hkeep => ?_, hrest.deleted_kept,
        fun d n hn hkeep => hrest.dirs_kept d n hn fun id' hid' =>
          hkeep id' (List.mem_cons_of_mem _ hid')⟩
      · rcases List.mem_cons.mp hid' with rfl | hid'
        · exact absurd hdue' (hdue e')
        · exact hrest.expired id' hid' e' hdue'
      · exact hrest.live_kept k hk fun hfs hid' => hkeep hfs (List.mem_cons_of_mem _ hid')

/-! ## Deleted entries -/

/-- The effect of a pass over deleted entries. -/
structure DeletedPass (config : Config) (fs : Str) (env : DbLoc → RoundEnv) (deleted : List Str)
    (w w₁ : World) : Prop where
  /-- what is over its time is gone, with its directory -/
  removed : ∀ id ∈ deleted, ∀ e, OverTime config fs (env ⟨fs, .deleted, id⟩) id w e →
    w₁.db.lookup ⟨fs, .deleted, id⟩ = none ∧
      w₁.dirs.find ⟨e.workspace.space, .deleted, id⟩ = none
  /-- other entries stay -/
  kept : ∀ k, (k.fs = fs → k.area = .deleted → k.id ∈ deleted →
    ∀ e, ¬OverTime config fs (env ⟨fs, .deleted, k.id⟩) k.id w e) →
    w₁.db.lookup k = w.db.lookup k
  /-- other directories stay -/
  dirs_kept : ∀ d, (∀ id ∈ deleted, ∀ e, OverTime config fs (env ⟨fs, .deleted, id⟩) id w e →
    d ≠ ⟨e.workspace.space, .deleted, id⟩) → w₁.dirs.find d = w.dirs.find d
  /-- no directory comes -/
  no_new : ∀ d, w.dirs.find d = none → w₁.dirs.find d = none

/-- **Run lemma** for the second loop. -/
theorem deletedPass_of_loop {deleted : List Str}
    (hok : ∀ id ∈ deleted, (env ⟨fs, .deleted, id⟩).entry = .ok ∧
      (env ⟨fs, .deleted, id⟩).dir = .ok) (hnodup : deleted.Nodup) :
    DeletedPass config fs env deleted w (Loops.forEach (deleteRound config fs env) deleted w).1 ∧
      (Loops.forEach (deleteRound config fs env) deleted w).2 = none := by
  induction deleted generalizing w with
  | nil =>
    exact ⟨⟨fun id hid => absurd hid List.not_mem_nil, fun _ _ => rfl, fun _ _ => rfl,
      fun _ h => h⟩, rfl⟩
  | cons id ids ih =>
    obtain ⟨hnew, hnodup⟩ := List.nodup_cons.mp hnodup
    have hmem : id ∈ id :: ids := List.mem_cons_self ..
    have hlater := fun w => ih (w := w) (fun id' hid' => hok id' (List.mem_cons_of_mem _ hid')) hnodup
    rcases deleteRound_cases config fs env id w with ⟨heq, hdue⟩ | ⟨e, hdue, hcase⟩
    · -- nothing to do for the first entry
      rw [Loops.forEach_cons_of_quiet (by rw [heq]), heq]
      obtain ⟨hrest, hquiet⟩ := hlater w
      refine ⟨⟨fun id' hid' e' hdue' => ?_, fun k hkeep => ?_, fun d hkeep => ?_, hrest.no_new⟩,
        hquiet⟩
      · rcases List.mem_cons.mp hid' with rfl | hid'
        · exact absurd hdue' (hdue e')
        · exact hrest.removed id' hid' e' hdue'
      · exact hrest.kept k fun hfs harea hid' =>
          hkeep hfs harea (List.mem_cons_of_mem _ hid')
      · exact hrest.dirs_kept d fun id' hid' => hkeep id' (List.mem_cons_of_mem _ hid')
    · rcases hcase with ⟨-, heq⟩ | ⟨hno, -⟩
      · rw [(hok id hmem).2] at heq
        rw [Loops.forEach_cons_of_quiet (by rw [heq]), heq]
        dsimp only
        -- the other entries are what they were
        have hlook : ∀ k, k ≠ ⟨fs, .deleted, id⟩ →
            ((w.removeEntry ⟨fs, .deleted, id⟩).rmtree .ok
              ⟨e.workspace.space, .deleted, id⟩).db.lookup k = w.db.lookup k := by
          intro k hk
          rw [rmtree_db]
          exact World.lookup_removeEntry_ne hk
        have hgone : ((w.removeEntry ⟨fs, .deleted, id⟩).rmtree .ok
            ⟨e.workspace.space, .deleted, id⟩).db.lookup ⟨fs, .deleted, id⟩ = none := by
          rw [rmtree_db]
          exact World.lookup_removeEntry ..
        have hover : ∀ id', id' ≠ id → ∀ e',
            OverTime config fs (env ⟨fs, .deleted, id'⟩) id' ((w.removeEntry ⟨fs, .deleted, id⟩).rmtree
              .ok ⟨e.workspace.space, .deleted, id⟩) e' ↔
            OverTime config fs (env ⟨fs, .deleted, id'⟩) id' w e' := by
          intro id' hne e'
          rw [OverTime, OverTime, World.readEntry, World.readEntry, hlook _ (by simpa using hne)]
        have hdir : ∀ d, d ≠ ⟨e.workspace.space, .deleted, id⟩ →
            ((w.removeEntry ⟨fs, .deleted, id⟩).rmtree .ok
              ⟨e.workspace.space, .deleted, id⟩).dirs.find d = w.dirs.find d := by
          intro d hd
          rw [find_rmtree_ne hd, World.removeEntry_dirs]
        have hnone : ((w.removeEntry ⟨fs, .deleted, id⟩).rmtree .ok
            ⟨e.workspace.space, .deleted, id⟩).dirs.find ⟨e.workspace.space, .deleted, id⟩ = none :=
          DirTree.find_remove_self ..
        generalize (w.removeEntry ⟨fs, .deleted, id⟩).rmtree .ok ⟨e.workspace.space, .deleted, id⟩ =
          w' at hlook hgone hover hdir hnone
        obtain ⟨hrest, hquiet⟩ := hlater w'
        have hne : ∀ id' ∈ ids, id' ≠ id := fun id' hid' heq => hnew (heq ▸ hid')
        refine ⟨⟨fun id' hid' e' hdue' => ?_, fun k hkeep => ?_, fun d hkeep => ?_, fun d hd => ?_⟩,
          hquiet⟩
        · rcases List.mem_cons.mp hid' with rfl | hid'
          · obtain rfl := Option.some.inj (hdue.1.symm.trans hdue'.1)
            rw [hrest.kept _ fun _ _ hmem => absurd hmem hnew]
            exact ⟨hgone, hrest.no_new _ hnone⟩
          · exact hrest.removed id' hid' e' ((hover id' (hne id' hid') e').mpr hdue')
        · rw [hrest.kept k fun hfs harea hid' e' hdue' =>
            hkeep hfs harea (List.mem_cons_of_mem _ hid') e' ((hover _ (hne _ hid') e').mp hdue')]
          refine hlook k fun heq => ?_
          subst heq
          exact hkeep rfl rfl hmem e hdue
        · rw [hrest.dirs_kept d fun id' hid' e' hdue' =>
            hkeep id' (List.mem_cons_of_mem _ hid') e' ((hover id' (hne id' hid') e').mp hdue')]
          exact hdir d (hkeep id hmem e hdue)
        · refine hrest.no_new d ?_
          by_cases heq : d = ⟨e.workspace.space, .deleted, id⟩
          · rw [heq]
            exact hnone
          · rw [hdir d heq]
            exact hd
      · exact absurd (hok id hmem).1 hno

end HpcWorkspace
