import HpcWorkspace.EditDb

/-!
# The exits of `renameAsExpired`

An entry in memory knows its id and the file it came from. `renameAsExpired` renames the file first
and the directory second, and renames the file back when the directory can not follow; the two
fields follow each rename. So whatever the system calls do, the entry in memory names its file, and
only a failed way back leaves the file and the directory under different names.
-/

namespace HpcWorkspace

/-- `DBEntryV1`, with what it knows of its file. -/
structure EntryObject where
  /-- the filesystem -/
  filesystem : Str
  /-- `id` -/
  id : Str
  /-- `dbfilepath` -/
  dbfilepath : DbLoc
  /-- the other fields -/
  entry : DBEntry

/-- How the system calls end: the three existence checks and the three renames. -/
structure RenameCalls where
  /-- `nameTaken(db_to)` can be determined -/
  dbCheck : Bool
  /-- `nameTaken(ws_to)` -/
  wsCheck : Bool
  /-- `nameTaken(ws_from)` -/
  fromCheck : Bool
  /-- the entry file is renamed -/
  db : Bool
  /-- the directory is renamed -/
  dir : Bool
  /-- the entry file is renamed back -/
  rollback : Bool

/-- The ways out of `renameAsExpired`; all but the first are exceptions. -/
inductive RenameExit where
  /-- it returns -/
  | returned
  /-- the name carries a release time -/
  | released
  /-- the id has no timestamp suffix -/
  | noTimestamp
  /-- the new id has none, or another base -/
  | invalidId
  /-- the existence of something can not be checked -/
  | notChecked
  /-- the entry file exists already -/
  | dbExists
  /-- the directory exists already -/
  | wsExists
  /-- the entry file was not renamed -/
  | dbFailed
  /-- the directory was not renamed, the entry file was renamed back -/
  | rolledBack
  /-- it was not renamed back -/
  | rollbackFailed
  deriving DecidableEq

/-- The state and the entry after a call. -/
structure RenameEnd where
  /-- files and directories -/
  world : World
  /-- the entry in memory -/
  object : EntryObject
  /-- the way out -/
  exit : RenameExit

namespace World

/-- `nameTaken` of an entry file; `none` is its exception. -/
def fileTaken (w : World) (call : Bool) (k : DbLoc) : Option Bool :=
  if call then some (w.db.lookup k).isSome else none

/-- `nameTaken` of a directory. -/
def dirTaken (w : World) (call : Bool) (d : DirLoc) : Option Bool :=
  if call then some (w.dirs.find d).isSome else none

/-- `renameDBFile`; `none` is its exception. -/
def renameDBFile (w : World) (call : Bool) (k k' : DbLoc) : Option World :=
  if call ∧ (w.db.lookup k).isSome then some (w.renameEntry k k') else none

/-- `renameWorkspaceDir`; `none` is its error code. -/
def renameWorkspaceDir (w : World) (call : Bool) (d d' : DirLoc) : Option World :=
  if call then w.renameDir d d' else none

end World

namespace EntryObject

/-- The part of `renameAsExpired` that renames. -/
def moveTo (w : World) (calls : RenameCalls) (obj : EntryObject) (new_id : Str)
    (ws_present : Bool) : RenameEnd :=
  let db_from := obj.dbfilepath
  let db_to : DbLoc := ⟨obj.filesystem, .deleted, new_id⟩
  let ws_from := World.deletedDir obj.entry obj.id
  let ws_to := World.deletedDir obj.entry new_id
  -- DB entry first
  match w.renameDBFile calls.db db_from db_to with
  | none => ⟨w, obj, .dbFailed⟩
  | some moved =>
    let obj' := { obj with dbfilepath := db_to, id := new_id }
    if !ws_present then ⟨moved, obj', .returned⟩
    else
      -- workspace second
      match moved.renameWorkspaceDir calls.dir ws_from ws_to with
      | some w' => ⟨w', obj', .returned⟩
      | none =>
        match moved.renameDBFile calls.rollback db_to db_from with
        | none => ⟨moved, obj', .rollbackFailed⟩
        | some back => ⟨back, { obj' with dbfilepath := db_from, id := obj.id }, .rolledBack⟩

/-- `DBEntryV1::renameAsExpired` -/
def renameAsExpired (w : World) (calls : RenameCalls) (obj : EntryObject) (new_id : Str) :
    RenameEnd :=
  if obj.entry.released > 1000000000 then ⟨w, obj, .released⟩
  else
    match splitExpiredId obj.id with
    | none => ⟨w, obj, .noTimestamp⟩
    | some (base, _) =>
      match splitExpiredId new_id with
      | none => ⟨w, obj, .invalidId⟩
      | some (new_base, new_ts) =>
        if new_base ≠ base ∨ new_ts ≤ 0 then ⟨w, obj, .invalidId⟩
        else if new_id = obj.id then ⟨w, obj, .returned⟩
        else
          match w.fileTaken calls.dbCheck ⟨obj.filesystem, .deleted, new_id⟩ with
          | none => ⟨w, obj, .notChecked⟩
          | some true => ⟨w, obj, .dbExists⟩
          | some false =>
            match w.dirTaken calls.wsCheck (World.deletedDir obj.entry new_id) with
            | none => ⟨w, obj, .notChecked⟩
            | some true => ⟨w, obj, .wsExists⟩
            | some false =>
              match w.dirTaken calls.fromCheck (World.deletedDir obj.entry obj.id) with
              | none => ⟨w, obj, .notChecked⟩
              | some ws_present => moveTo w calls obj new_id ws_present

end EntryObject

/-! ## What is promised -/

/-- Entry, file and directory go together. -/
structure RenamedOrNot (w : World) (calls : RenameCalls) (obj : EntryObject) (new_id : Str)
    (out : RenameEnd) : Prop where
  /-- it returns: the entry and its directory carry the new id, and no longer the old one -/
  returned : out.exit = .returned →
    out.object =
        { obj with id := new_id, dbfilepath := ⟨obj.filesystem, .deleted, new_id⟩ } ∧
      (∀ n, w.dirs.find (World.deletedDir obj.entry obj.id) = some n →
        out.world.dirs.find (World.deletedDir obj.entry new_id) = some n) ∧
      (new_id ≠ obj.id → out.world.db.lookup obj.dbfilepath = none ∧
        out.world.dirs.find (World.deletedDir obj.entry obj.id) = none)
  /-- an exception: all is as before, except when the way back fails -/
  raised : out.exit ≠ .returned → out.exit ≠ .rollbackFailed →
    (∀ k, out.world.db.lookup k = w.db.lookup k) ∧ out.world.dirs = w.dirs ∧ out.object = obj
  /-- the way back fails only when it is tried: the directory can not be renamed, and neither can
  the file -/
  rollbackFailed : out.exit = .rollbackFailed → calls.dir = false ∧ calls.rollback = false
  /-- no other entry file is touched -/
  entries : ∀ k f, k ≠ obj.dbfilepath → w.db.lookup k = some f → out.world.db.lookup k = some f
  /-- no other directory is touched -/
  dirs : ∀ d n, d ≠ World.deletedDir obj.entry obj.id → w.dirs.find d = some n →
    out.world.dirs.find d = some n
  /-- `dbfilepath` names the file of the entry -/
  located : ∀ f, w.db.lookup obj.dbfilepath = some f →
    out.world.db.lookup out.object.dbfilepath = some f

/-! ## The renames -/

namespace World

variable {w w' : World} {call : Bool} {k k' : DbLoc} {d d' : DirLoc}

theorem renameDBFile_eq_some (h : w.renameDBFile call k k' = some w') :
    (∃ f, w.db.lookup k = some f) ∧ w' = w.renameEntry k k' := by
  rw [renameDBFile] at h
  split at h
  · rename_i hcond
    exact ⟨Option.isSome_iff_exists.mp hcond.2, (Option.some.inj h).symm⟩
  · cases h

theorem renameWorkspaceDir_eq_some (h : w.renameWorkspaceDir call d d' = some w') :
    (∃ n, w.dirs.find d = some n) ∧ w' = { w with dirs := w.dirs.move d d' } := by
  rw [renameWorkspaceDir] at h
  split at h
  · exact renameDir_eq_some h
  · cases h

/-- A file that is there is not renamed only when the call fails. -/
theorem renameDBFile_eq_none {f : DbFile} (h : w.renameDBFile call k k' = none)
    (hfile : w.db.lookup k = some f) : call = false := by
  rw [renameDBFile] at h
  split at h
  · cases h
  · rename_i hcond
    exact Bool.eq_false_iff.mpr fun hcall => hcond ⟨hcall, by rw [hfile, Option.isSome_some]⟩

/-- A directory that is there is not renamed to a free name only when the call fails. -/
theorem renameWorkspaceDir_eq_none (h : w.renameWorkspaceDir call d d' = none)
    (hfrom : (w.dirs.find d).isSome) (hto : w.dirs.find d' = none) : call = false := by
  rw [renameWorkspaceDir] at h
  split at h
  · rw [renameDir, mayReplace, hto, if_pos ⟨hfrom, rfl⟩] at h
    cases h
  · rename_i hcall
    exact Bool.eq_false_iff.mpr hcall

theorem fileTaken_eq_some {b : Bool} (h : w.fileTaken call k = some b) :
    (w.db.lookup k).isSome = b := by
  rw [fileTaken] at h
  split at h
  · exact Option.some.inj h
  · cases h

theorem dirTaken_eq_some {b : Bool} (h : w.dirTaken call d = some b) :
    (w.dirs.find d).isSome = b := by
  rw [dirTaken] at h
  split at h
  · exact Option.some.inj h
  · cases h

/-- There and back again. -/
theorem lookup_renameEntry_back {f : DbFile} (hlook : w.db.lookup k = some f)
    (hfree : w.db.lookup k' = none) (hne : k ≠ k') (k₀ : DbLoc) :
    ((w.renameEntry k k').renameEntry k' k).db.lookup k₀ = w.db.lookup k₀ := by
  have hto : (w.renameEntry k k').db.lookup k' = some f := lookup_renameEntry_to hlook
  by_cases hk : k₀ = k
  · rw [hk, lookup_renameEntry_to hto, hlook]
  · by_cases hk' : k₀ = k'
    · rw [hk', lookup_renameEntry_from hne.symm, hfree]
    · rw [lookup_renameEntry_ne hk' hk, lookup_renameEntry_ne hk hk']

end World

/-- The ways a call can go. -/
inductive RenameSpec (w : World) (calls : RenameCalls) (obj : EntryObject) (new_id : Str) :
    RenameEnd → Prop where
  /-- an exception before anything is renamed -/
  | refused {exit : RenameExit} (hexit : exit ≠ .returned) (hfailed : exit ≠ .rollbackFailed)
      (htaken : exit = .dbExists ∨ exit = .wsExists → new_id ≠ obj.id ∧
        w.nameTaken obj.filesystem obj.entry new_id = true) :
      RenameSpec w calls obj new_id ⟨w, obj, exit⟩
  /-- the entry has that id -/
  | same (hid : new_id = obj.id) : RenameSpec w calls obj new_id ⟨w, obj, .returned⟩
  /-- the entry file is renamed, and the directory is renamed, not there, or in its place -/
  | moved {f : DbFile} {dirs : DirTree DirLoc Dir} {exit : RenameExit} (hid : new_id ≠ obj.id)
      (hfile : w.db.lookup obj.dbfilepath = some f)
      (hdb : w.db.lookup ⟨obj.filesystem, .deleted, new_id⟩ = none)
      (hws : w.dirs.find (World.deletedDir obj.entry new_id) = none)
      (hdirs : exit = .returned ∧ w.dirs.find (World.deletedDir obj.entry obj.id) = none ∧
          dirs = w.dirs ∨
        exit = .returned ∧
          dirs = w.dirs.move (World.deletedDir obj.entry obj.id)
            (World.deletedDir obj.entry new_id) ∨
        exit = .rollbackFailed ∧ dirs = w.dirs ∧ calls.dir = false ∧ calls.rollback = false) :
      RenameSpec w calls obj new_id
        ⟨{ w.renameEntry obj.dbfilepath ⟨obj.filesystem, .deleted, new_id⟩ with dirs := dirs },
          { obj with dbfilepath := ⟨obj.filesystem, .deleted, new_id⟩, id := new_id }, exit⟩
  /-- the entry file is renamed, and renamed back -/
  | rolledBack {f : DbFile} (hfile : w.db.lookup obj.dbfilepath = some f)
      (hdb : w.db.lookup ⟨obj.filesystem, .deleted, new_id⟩ = none) :
      RenameSpec w calls obj new_id
        ⟨(w.renameEntry obj.dbfilepath ⟨obj.filesystem, .deleted, new_id⟩).renameEntry
          ⟨obj.filesystem, .deleted, new_id⟩ obj.dbfilepath, obj, .rolledBack⟩

namespace EntryObject

variable {w : World} {calls : RenameCalls} {obj : EntryObject} {new_id : Str}

theorem moveTo_spec (hid : new_id ≠ obj.id)
    (hdb : w.db.lookup ⟨obj.filesystem, .deleted, new_id⟩ = none)
    (hws : w.dirs.find (World.deletedDir obj.entry new_id) = none) {ws_present : Bool}
    (hpresent : (w.dirs.find (World.deletedDir obj.entry obj.id)).isSome = ws_present) :
    RenameSpec w calls obj new_id (moveTo w calls obj new_id ws_present) := by
  have hdirs : (w.renameEntry obj.dbfilepath ⟨obj.filesystem, .deleted, new_id⟩).dirs = w.dirs :=
    World.renameEntry_dirs ..
  dsimp only [moveTo]
  split
  · exact .refused (by decide) (by decide) fun h => absurd h (by decide)
  · rename_i moved hmoved
    obtain ⟨⟨f, hf⟩, rfl⟩ := World.renameDBFile_eq_some hmoved
    have hthere : (w.renameEntry obj.dbfilepath ⟨obj.filesystem, .deleted, new_id⟩).db.lookup
        ⟨obj.filesystem, .deleted, new_id⟩ = some f := World.lookup_renameEntry_to hf
    split
    · rename_i habsent
      rw [Bool.not_eq_true', ← hpresent, Option.isSome_eq_false_iff,
        Option.isNone_iff_eq_none] at habsent
      exact .moved hid hf hdb hws (Or.inl ⟨rfl, habsent, hdirs⟩)
    · rename_i hpresent'
      rw [Bool.not_eq_true', Bool.not_eq_false, ← hpresent] at hpresent'
      split
      · rename_i w' hw'
        obtain ⟨-, rfl⟩ := World.renameWorkspaceDir_eq_some hw'
        exact .moved hid hf hdb hws (Or.inr (Or.inl ⟨rfl, by rw [hdirs]⟩))
      · rename_i hnot
        -- the directory is there and its new name is free
        have hdir := World.renameWorkspaceDir_eq_none hnot (hdirs ▸ hpresent') (hdirs ▸ hws)
        split
        · rename_i hback
          have hrollback := World.renameDBFile_eq_none hback hthere
          exact .moved hid hf hdb hws (Or.inr (Or.inr ⟨rfl, hdirs, hdir, hrollback⟩))
        · rename_i back hback
          obtain ⟨-, rfl⟩ := World.renameDBFile_eq_some hback
          exact .rolledBack hf hdb

/-- **Inversion** for `renameAsExpired`. -/
theorem renameAsExpired_spec (w : World) (calls : RenameCalls) (obj : EntryObject) (new_id : Str) :
    RenameSpec w calls obj new_id (renameAsExpired w calls obj new_id) := by
  have hrefused : ∀ {exit : RenameExit}, exit ≠ .returned ∧ exit ≠ .rollbackFailed ∧
      exit ≠ .dbExists ∧ exit ≠ .wsExists → RenameSpec w calls obj new_id ⟨w, obj, exit⟩ :=
    fun hexit => .refused hexit.1 hexit.2.1 fun h => h.elim (absurd · hexit.2.2.1)
      (absurd · hexit.2.2.2)
  rw [renameAsExpired]
  split
  · exact hrefused (by decide)
  split
  · exact hrefused (by decide)
  split
  · exact hrefused (by decide)
  split
  · exact hrefused (by decide)
  split
  · rename_i hid
    exact .same hid
  rename_i hid
  split
  · exact hrefused (by decide)
  · rename_i hdb
    refine .refused (by decide) (by decide) fun _ => ⟨hid, ?_⟩
    rw [World.nameTaken, World.fileTaken_eq_some hdb, Bool.true_or]
  rename_i hdb
  split
  · exact hrefused (by decide)
  · rename_i hws
    refine .refused (by decide) (by decide) fun _ => ⟨hid, ?_⟩
    have hdir := World.dirTaken_eq_some hws
    rw [World.deletedDir] at hdir
    rw [World.nameTaken, hdir, Bool.or_true]
  rename_i hws
  split
  · exact hrefused (by decide)
  rename_i hpresent
  have hdbfree := World.fileTaken_eq_some hdb
  have hwsfree := World.dirTaken_eq_some hws
  rw [Option.isSome_eq_false_iff, Option.isNone_iff_eq_none] at hdbfree hwsfree
  exact moveTo_spec hid hdbfree hwsfree (World.dirTaken_eq_some hpresent)

end EntryObject

/-! ## The result -/

variable {w : World} {obj : EntryObject} {new_id : Str}

/-- The old id and the new one are two names. -/
theorem RenameSpec.ne_of_free {f : DbFile} (hfile : w.db.lookup obj.dbfilepath = some f)
    (hdb : w.db.lookup ⟨obj.filesystem, .deleted, new_id⟩ = none) :
    obj.dbfilepath ≠ ⟨obj.filesystem, .deleted, new_id⟩ := by
  intro heq
  rw [← heq, hfile] at hdb
  cases hdb

/-- **Renames.** Whatever the system calls do, `renameAsExpired` renames both, or none of them, or
the way back fails; it overwrites nothing, and `dbfilepath` names the file of the entry. -/
theorem renamedOrNot (w : World) (calls : RenameCalls) (obj : EntryObject) (new_id : Str)
    (hobj : obj.dbfilepath = ⟨obj.filesystem, .deleted, obj.id⟩) :
    RenamedOrNot w calls obj new_id (EntryObject.renameAsExpired w calls obj new_id) := by
  have hspec := EntryObject.renameAsExpired_spec w calls obj new_id
  generalize EntryObject.renameAsExpired w calls obj new_id = out at hspec
  cases hspec with
  | refused hexit hfailed =>
    exact ⟨fun h => absurd h hexit, fun _ _ => ⟨fun _ => rfl, rfl, rfl⟩,
      fun h => absurd h hfailed, fun _ _ _ h => h, fun _ _ _ h => h, fun _ h => h⟩
  | same hid =>
    subst hid
    refine ⟨fun _ => ⟨?_, fun n hn => hn, fun h => absurd rfl h⟩, fun h => absurd rfl h,
      fun h => (by cases h), fun _ _ _ h => h, fun _ _ _ h => h, fun _ h => h⟩
    rw [← hobj]
  | moved hid hfile hdb hws hdirs =>
    rename_i f dirs exit
    have hne := RenameSpec.ne_of_free hfile hdb
    have hdirne : World.deletedDir obj.entry obj.id ≠ World.deletedDir obj.entry new_id := by
      intro heq
      exact hid (DirLoc.mk.inj heq).2.2.symm
    refine ⟨fun hexit => ⟨rfl, ?_, fun _ => ⟨World.lookup_renameEntry_from hne, ?_⟩⟩, ?_, ?_, ?_, ?_,
      ?_⟩
    · intro n hn
      rcases hdirs with ⟨-, habsent, -⟩ | ⟨-, rfl⟩ | ⟨hfailed, -⟩
      · rw [habsent] at hn
        cases hn
      · exact DirTree.find_move_to hn
      · cases hexit.symm.trans hfailed
    · rcases hdirs with ⟨-, habsent, rfl⟩ | ⟨-, rfl⟩ | ⟨hfailed, -⟩
      · exact habsent
      · exact DirTree.find_move_from hdirne
      · cases hexit.symm.trans hfailed
    · intro hexit hfailed
      rcases hdirs with ⟨h, -, -⟩ | ⟨h, -⟩ | ⟨h, -⟩
      · exact absurd h hexit
      · exact absurd h hexit
      · exact absurd h hfailed
    · intro hfailed
      rcases hdirs with ⟨h, -, -⟩ | ⟨h, -⟩ | ⟨-, -, hcalls⟩
      · cases h.symm.trans hfailed
      · cases h.symm.trans hfailed
      · exact hcalls
    · intro k g hk hg
      have hto : k ≠ ⟨obj.filesystem, .deleted, new_id⟩ := by
        rintro rfl
        rw [hdb] at hg
        cases hg
      exact (World.lookup_renameEntry_ne hk hto).trans hg
    · intro d n hd hn
      have hto : d ≠ World.deletedDir obj.entry new_id := by
        rintro rfl
        rw [hws] at hn
        cases hn
      rcases hdirs with ⟨-, -, rfl⟩ | ⟨-, rfl⟩ | ⟨-, rfl, -⟩
      · exact hn
      · exact (DirTree.find_move_ne hd hto).trans hn
      · exact hn
    · intro g hg
      exact World.lookup_renameEntry_to hg
  | rolledBack hfile hdb =>
    have hback := World.lookup_renameEntry_back hfile hdb (RenameSpec.ne_of_free hfile hdb)
    have hdirs : ((w.renameEntry obj.dbfilepath ⟨obj.filesystem, .deleted, new_id⟩).renameEntry
        ⟨obj.filesystem, .deleted, new_id⟩ obj.dbfilepath).dirs = w.dirs := by simp
    refine ⟨?_, fun _ _ => ⟨hback, hdirs, rfl⟩, fun h => (by cases h), fun k f _ hf => (hback k).trans hf,
      fun d n _ hn => ?_, fun f hf => (hback _).trans hf⟩
    · intro h
      cases h
    · exact hdirs ▸ hn

/-- The entry of a workspace that expired at the time 5. -/
def expiredObject : EntryObject :=
  ⟨['w'], ['b', '-', 'x', '-', '5'], ⟨['w'], .deleted, ['b', '-', 'x', '-', '5']⟩,
    ⟨['b'], ⟨['s'], ['b', '-', 'x']⟩, 0, 0, 0, 0, false, [], [], [], 0, 5, []⟩⟩

/-- Its file and its directory. -/
def expiredState : World :=
  (World.init.writeEntry expiredObject.dbfilepath expiredObject.entry).mkdir
    (World.deletedDir expiredObject.entry expiredObject.id) 5

/-- The directory can not be renamed, and the file can not be renamed back. -/
theorem renamedOrNot_rollbackFailed :
    (EntryObject.renameAsExpired expiredState ⟨true, true, true, true, false, false⟩ expiredObject
        ['b', '-', 'x', '-', '9']).exit = .rollbackFailed ∧
      RenamedOrNot expiredState ⟨true, true, true, true, false, false⟩ expiredObject
        ['b', '-', 'x', '-', '9']
        (EntryObject.renameAsExpired expiredState ⟨true, true, true, true, false, false⟩
          expiredObject ['b', '-', 'x', '-', '9']) :=
  ⟨by decide, renamedOrNot expiredState ⟨true, true, true, true, false, false⟩ expiredObject
    ['b', '-', 'x', '-', '9'] rfl⟩

/-! ## The step of an edit -/

/-- The outcome of a call as an edit sees it. -/
def RenameCalls.outcome (calls : RenameCalls) (search : Bool) : RenameOutcome :=
  ⟨search, calls.dbCheck && calls.wsCheck && calls.fromCheck, calls.db, calls.dir, calls.rollback⟩

namespace EntryObject

/-- The renames of an entry that is there, to a name that is free. -/
theorem moveTo_eq (calls : RenameCalls) {fs id : Str} {e : DBEntry} {f : DbFile}
    (hlook : w.db.lookup ⟨fs, .deleted, id⟩ = some f)
    (hfree : w.dirs.find (World.deletedDir e new_id) = none) :
    let k : DbLoc := ⟨fs, .deleted, id⟩
    let moved := w.renameEntry k ⟨fs, .deleted, new_id⟩
    let out := moveTo w calls ⟨fs, id, k, e⟩ new_id (w.dirs.find (World.deletedDir e id)).isSome
    (out.world, out.object.id, decide (out.exit = .returned)) =
      if !calls.db then (w, id, false)
      else
        match w.dirs.find (World.deletedDir e id) with
        | none => (moved, new_id, true)
        | some _ =>
          if calls.dir then
            ({ moved with
              dirs := moved.dirs.move (World.deletedDir e id) (World.deletedDir e new_id) },
                new_id, true)
          else if calls.rollback then (moved.renameEntry ⟨fs, .deleted, new_id⟩ k, id, false)
          else (moved, new_id, false) := by
  obtain ⟨-, -, -, db, dir, rollback⟩ := calls
  have hmoved : (w.renameEntry ⟨fs, .deleted, id⟩ ⟨fs, .deleted, new_id⟩).db.lookup
      ⟨fs, .deleted, new_id⟩ = some f := World.lookup_renameEntry_to hlook
  cases db with
  | false => simp [moveTo, World.renameDBFile]
  | true =>
    cases hfrom : w.dirs.find (World.deletedDir e id) with
    | none => simp [moveTo, World.renameDBFile, hlook]
    | some n =>
      cases dir with
      | true =>
        simp [moveTo, World.renameDBFile, hlook, World.renameWorkspaceDir, World.renameDir,
          World.mayReplace, hfrom, hfree]
      | false =>
        cases rollback <;>
          simp [moveTo, World.renameDBFile, hlook, hmoved, World.renameWorkspaceDir]

/-- The edit of an entry takes this step. -/
theorem renameAsExpired_eq (calls : RenameCalls) (search : Bool) {fs id : Str} {e : DBEntry}
    {f : DbFile} (hlook : w.db.lookup ⟨fs, .deleted, id⟩ = some f) :
    let out := renameAsExpired w calls ⟨fs, id, ⟨fs, .deleted, id⟩, e⟩ new_id
    w.renameAsExpired (calls.outcome search) ⟨fs, .deleted, id⟩ e new_id =
      (out.world, out.object.id, decide (out.exit = .returned)) := by
  rw [World.renameAsExpired, renameAsExpired]
  by_cases hreleased : e.released > 1000000000
  · simp [hreleased]
  cases hid : splitExpiredId id with
  | none => simp [hreleased]
  | some p =>
    cases hnew : splitExpiredId new_id with
    | none => simp [hreleased]
    | some q =>
      by_cases hbase : q.1 ≠ p.1 ∨ q.2 ≤ 0
      · simp [hreleased, hbase]
      by_cases hsame : new_id = id
      · simp [hreleased, hbase, hsame]
      simp only [hreleased, hbase, hsame, if_false]
      cases htaken : w.nameTaken fs e new_id with
      | true =>
        -- one of the checks stops both
        rw [World.nameTaken, Bool.or_eq_true] at htaken
        rw [RenameCalls.outcome, Bool.or_true, if_pos rfl]
        cases hfile : w.fileTaken calls.dbCheck ⟨fs, .deleted, new_id⟩ with
        | none => rfl
        | some taken =>
          cases taken with
          | true => rfl
          | false =>
            have hws := htaken.resolve_left (by rw [World.fileTaken_eq_some hfile]; simp)
            cases hdir : w.dirTaken calls.wsCheck (World.deletedDir e new_id) with
            | none => rfl
            | some taken =>
              have := World.dirTaken_eq_some hdir
              rw [World.deletedDir, hws] at this
              subst this
              rfl
      | false =>
        rw [World.nameTaken, Bool.or_eq_false_iff] at htaken
        have hdir : w.dirs.find (World.deletedDir e new_id) = none :=
          Option.isNone_iff_eq_none.mp (Option.isSome_eq_false_iff.mp htaken.2)
        have hmove := moveTo_eq calls hlook hdir
        rw [World.fileTaken, htaken.1, World.dirTaken, hdir, World.dirTaken]
        obtain ⟨dbCheck, wsCheck, fromCheck, db, dir, rollback⟩ := calls
        cases dbCheck with
        | false => rfl
        | true =>
          cases wsCheck with
          | false => rfl
          | true =>
            cases fromCheck with
            | false => rfl
            | true => exact hmove.symm

end EntryObject

end HpcWorkspace
