import HpcWorkspace.Deadlines
import HpcWorkspace.Restore

/-!
# `--delete-data`

`ws_release` and `ws_restore` can delete the data of a workspace and its entry with it. Both call
`rmtree_below`, which goes through the tree below the directory and passes over what it can not
open or remove, and then remove the directory itself, which works only when it is empty.

`ws_restore` looks whether the directory is gone before it removes the entry. `ws_release` does
not, so it forgets the workspace exactly when something in the tree could not be removed.
-/

namespace HpcWorkspace

/-! ## Trees -/

/-- What is in a directory, in the order of `readdir`. -/
inductive Contents where
  /-- nothing more -/
  | nil
  /-- something that is not a directory, and the rest -/
  | file (name : Str) (rest : Contents)
  /-- a directory with its contents, and the rest -/
  | dir (name : Str) (contents rest : Contents)
  deriving DecidableEq

/-- The system calls that fail, by the path below the directory that is deleted. -/
structure Faults where
  /-- `unlinkat` of a file -/
  unlink : List Str → Bool
  /-- `unlinkat` of a directory, even when it is empty -/
  rmdir : List Str → Bool
  /-- `openat` of a directory -/
  openat : List Str → Bool
  /-- the removal of the entry file -/
  entry : Bool

namespace Contents

/-- The number of files. -/
def files : Contents → ℕ
  | nil => 0
  | file _ rest => rest.files + 1
  | dir _ contents rest => contents.files + rest.files

/-- `rmtree_fd` on a directory that is open: what it leaves, and the number of files deleted. -/
def rmtreeFd (faults : Faults) : Contents → List Str → Contents × ℕ
  | nil, _ => (nil, 0)
  | file name rest, path =>
    let (left, deleted) := rest.rmtreeFd faults path
    if faults.unlink (path ++ [name]) then (file name left, deleted) else (left, deleted + 1)
  | dir name contents rest, path =>
    let (left, deleted) := rest.rmtreeFd faults path
    if faults.openat (path ++ [name]) then (dir name contents left, deleted)
    else
      let (below, deletedBelow) := contents.rmtreeFd faults (path ++ [name])
      -- a directory that is not empty is not removed
      if below ≠ nil ∨ faults.rmdir (path ++ [name]) then
        (dir name below left, deletedBelow + deleted)
      else (left, deletedBelow + deleted)

/-- `rmtree_below` on a directory with these contents. -/
def rmtreeBelow (faults : Faults) (contents : Contents) : Contents × ℕ :=
  if faults.openat [] then (contents, 0) else contents.rmtreeFd faults []

/-- `remove` of a directory with these contents: what is left of it. -/
def remove (faults : Faults) (contents : Contents) : Option Contents :=
  if contents ≠ nil ∨ faults.rmdir [] then some contents else none

/-- `rmtree_below`, and then `remove`. -/
def deleteData (faults : Faults) (contents : Contents) : Option Contents :=
  (contents.rmtreeBelow faults).1.remove faults

/-- No call fails for what is below a path. -/
def FaultFree (faults : Faults) : Contents → List Str → Prop
  | nil, _ => True
  | file name rest, path => faults.unlink (path ++ [name]) = false ∧ rest.FaultFree faults path
  | dir name contents rest, path =>
    (faults.openat (path ++ [name]) = false ∧ faults.rmdir (path ++ [name]) = false ∧
      contents.FaultFree faults (path ++ [name])) ∧ rest.FaultFree faults path

/-- No call fails that is needed to delete a directory: an empty one need not be opened. -/
def Deletable (faults : Faults) (contents : Contents) : Prop :=
  (contents = nil ∨ faults.openat [] = false ∧ contents.FaultFree faults []) ∧
    faults.rmdir [] = false

variable {faults : Faults}

/-- **`rmtree_fd` leaves nothing** exactly when no call fails. -/
theorem rmtreeFd_eq_nil (contents : Contents) (path : List Str) :
    (contents.rmtreeFd faults path).1 = nil ↔ contents.FaultFree faults path := by
  induction contents generalizing path with
  | nil => simp [rmtreeFd, FaultFree]
  | file name rest ih =>
    simp only [rmtreeFd, FaultFree]
    split
    · rename_i hfails
      simp [hfails]
    · rename_i hfails
      rw [ih path]
      simp [hfails]
  | dir name contents rest ihBelow ihRest =>
    simp only [rmtreeFd, FaultFree]
    split
    · rename_i hfails
      simp [hfails]
    · rename_i hopen
      split
      · rename_i hleft
        simp only [reduceCtorEq, false_iff]
        rintro ⟨⟨-, hrmdir, hbelow⟩, -⟩
        rcases hleft with hleft | hfails
        · exact hleft ((ihBelow _).mpr hbelow)
        · rw [hrmdir] at hfails
          cases hfails
      · rename_i hleft
        simp only [not_or, not_not, Bool.not_eq_true] at hleft hopen
        rw [ihRest path]
        simp [hopen, hleft.2, (ihBelow _).mp hleft.1]

/-- **The count of `rmtree_fd`** is that of the files that are gone. -/
theorem rmtreeFd_files (contents : Contents) (path : List Str) :
    (contents.rmtreeFd faults path).2 + (contents.rmtreeFd faults path).1.files =
      contents.files := by
  induction contents generalizing path with
  | nil => rfl
  | file name rest ih =>
    have hrest := ih path
    simp only [rmtreeFd]
    split <;> simp only [files] <;> omega
  | dir name contents rest ihBelow ihRest =>
    have hbelow := ihBelow (path ++ [name])
    have hrest := ihRest path
    simp only [rmtreeFd]
    split
    · simp only [files]
      omega
    · split
      · simp only [files]
        omega
      · rename_i hleft
        simp only [not_or, not_not] at hleft
        rw [hleft.1] at hbelow
        simp only [files] at hbelow ⊢
        omega

/-- **A directory is gone** exactly when no call fails that is needed to delete it. -/
theorem deleteData_eq_none (contents : Contents) :
    contents.deleteData faults = none ↔ contents.Deletable faults := by
  have hremove : contents.deleteData faults = none ↔
      (contents.rmtreeBelow faults).1 = nil ∧ faults.rmdir [] = false := by
    rw [deleteData, remove]
    split
    · rename_i hleft
      simp only [reduceCtorEq, false_iff]
      rintro ⟨hnil, hrmdir⟩
      rcases hleft with hleft | hfails
      · exact hleft hnil
      · rw [hrmdir] at hfails
        cases hfails
    · rename_i hleft
      simpa using hleft
  rw [hremove, Deletable, rmtreeBelow]
  split
  · rename_i hfails
    simp [hfails]
  · rename_i hopen
    rw [rmtreeFd_eq_nil]
    constructor
    · rintro ⟨hfree, hrmdir⟩
      exact ⟨Or.inr ⟨by simpa using hopen, hfree⟩, hrmdir⟩
    · rintro ⟨rfl | ⟨-, hfree⟩, hrmdir⟩
      · exact ⟨trivial, hrmdir⟩
      · exact ⟨hfree, hrmdir⟩

end Contents

/-! ## The tools -/

/-- How a call with `--delete-data` ended. -/
inductive DeleteDataResult where
  /-- an error before anything was changed -/
  | refused
  /-- something is left of the directory, and the entry is kept -/
  | incomplete
  /-- the entry file could not be removed -/
  | entryKept
  /-- the entry was removed -/
  | removed
  deriving DecidableEq

/-- `rmtree_below` and `remove` on the directory at `k`, if it is there. -/
def World.deleteData (w : World) (faults : Faults) (contents : Contents) (k : DirLoc) : World :=
  match contents.deleteData faults with
  | none => w.removeDir k
  | some left => { w with dirs := w.dirs.modify k fun d => { d with isEmpty := left == .nil } }

/-- `release` with `--delete-data`; `contents` tells what is in each directory. -/
def releaseDeleteData (config : Config) (c : Caller) (a : ReleaseArgs) (user_option : Str)
    (env : ReleaseEnv) (faults : Faults) (contents : DirLoc → Contents) (w : World) :
    World × DeleteDataResult :=
  match releaseFind config c a user_option w with
  | none => (w, .refused)
  | some (fs, e) =>
    let id := releaseId c a user_option
    let timestamp := releaseTimestamp w fs id env.timestamp
    let w := DBEntry.release w fs id e env.released timestamp
    -- what is left is not looked at, an error of `remove` is only logged
    let w := w.deleteData faults (contents e.workspace.loc) e.workspace.loc
    if faults.entry then (w, .entryKept)
    else (w.removeEntry ⟨fs, .deleted, deletedName id timestamp⟩, .removed)

/-- A call of `ws_release` with `--delete-data`. -/
def wsReleaseDeleteData (config : Config) (c : Caller) (a : ReleaseArgs) (env : ReleaseEnv)
    (faults : Faults) (contents : DirLoc → Contents) (w : World) : World × DeleteDataResult :=
  match releaseCommandline c a with
  | none => (w, .refused)
  | some user_option => releaseDeleteData config c a user_option env faults contents w

/-- `restore` with `--delete-data`. -/
def restoreDeleteData (config : Config) (c : Caller) (a : RestoreArgs) (username : Str)
    (faults : Faults) (contents : DirLoc → Contents) (w : World) : World × DeleteDataResult :=
  match restoreFslist config c username a.filesystem with
  | none => (w, .refused)
  | some fslist =>
    match restoreSource config w fslist a.name username with
    | none => (w, .refused)
    | some (fs, e) =>
      let wssourcename : DirLoc := ⟨e.workspace.space, .deleted, a.name⟩
      let w := w.deleteData faults (contents wssourcename) wssourcename
      -- `data_gone`
      if (w.dirs.find wssourcename).isSome then (w, .incomplete)
      else if faults.entry then (w, .entryKept)
      else (w.removeEntry ⟨fs, .deleted, a.name⟩, .removed)

/-- A call of `ws_restore` with `--delete-data`. -/
def wsRestoreDeleteData (config : Config) (c : Caller) (a : RestoreArgs) (env : RestoreEnv)
    (faults : Faults) (contents : DirLoc → Contents) (w : World) : World × DeleteDataResult :=
  if !restoreCommandline a then (w, .refused)
  else
    let username := a.username.getD []
    let username := if username = [] then c.username else username
    if username ≠ c.username ∧ c.username ≠ "root".toList then (w, .refused)
    else if !checkName a.name c.username || !env.human then (w, .refused)
    else restoreDeleteData config c a username faults contents w

/-! ## What the outcome of a deletion stands for -/

/-- The outcome of a deletion that these faults meet. -/
def Contents.outcome (faults : Faults) (contents : Contents) : Outcome :=
  match contents.deleteData faults with
  | none => .ok
  | some _ => .partly

/-- Unless the directory is emptied but stays, a deletion is that of the tools' models. -/
theorem World.deleteData_eq_rmtree (w : World) {faults : Faults} {contents : Contents} (k : DirLoc)
    (h : contents.deleteData faults ≠ some .nil) :
    w.deleteData faults contents k = w.rmtree (contents.outcome faults) k := by
  unfold World.deleteData Contents.outcome
  cases hleft : contents.deleteData faults with
  | none => rfl
  | some left =>
    have hne : (left == Contents.nil) = false := beq_eq_false_iff_ne.mpr fun hnil => by
      rw [hleft, hnil] at h
      exact h rfl
    simp only [hne]
    rfl

section Refinement

variable {config : Config} {c : Caller} {faults : Faults} {contents : DirLoc → Contents} {w : World}

/-- `ws_release` here is `ws_release` there, with the outcome that the faults give. -/
theorem releaseDeleteData_refines {a : ReleaseArgs} {user_option fs : Str} {e : DBEntry}
    (env : ReleaseEnv) (hdelete : a.deletedata = true) (hentry : faults.entry = false)
    (hfound : releaseFind config c a user_option w = some (fs, e))
    (h : (contents e.workspace.loc).deleteData faults ≠ some .nil) :
    (releaseDeleteData config c a user_option env faults contents w).1 =
      (release config c a user_option
        { env with outcome := (contents e.workspace.loc).outcome faults } w).1 := by
  simp only [releaseDeleteData, release, hfound, hdelete, hentry]
  rw [World.deleteData_eq_rmtree _ _ h]
  rfl

/-- The same for `ws_restore`. -/
theorem restoreDeleteData_refines {a : RestoreArgs} {username fs : Str} {fslist : List Str}
    {e : DBEntry} (env : RestoreEnv) (hdelete : a.deletedata = true) (hentry : faults.entry = false)
    (hfslist : restoreFslist config c username a.filesystem = some fslist)
    (hfound : restoreSource config w fslist a.name username = some (fs, e))
    (h : (contents ⟨e.workspace.space, .deleted, a.name⟩).deleteData faults ≠ some .nil) :
    (restoreDeleteData config c a username faults contents w).1 =
      (restore config c a username { env with
        outcome := (contents ⟨e.workspace.space, .deleted, a.name⟩).outcome faults } w).1 := by
  simp only [restoreDeleteData, restore, hfslist, hfound, hdelete, hentry]
  rw [World.deleteData_eq_rmtree _ _ h]
  generalize w.rmtree ((contents ⟨e.workspace.space, .deleted, a.name⟩).outcome faults)
    ⟨e.workspace.space, .deleted, a.name⟩ = w'
  cases hleft : w'.dirs.find ⟨e.workspace.space, .deleted, a.name⟩ <;> rfl

end Refinement

/-! ## No entry goes before its directory -/

/-- A live entry that is neither live nor released any more has no directory. -/
def ReleaseRemembers (timestamp : ℤ) (w w' : World) : Prop :=
  ∀ fs id e, w.db.lookup ⟨fs, .live, id⟩ = some (.entry e) →
    w'.db.lookup ⟨fs, .live, id⟩ = none →
      w'.db.lookup ⟨fs, .deleted, deletedName id (releaseTimestamp w fs id timestamp)⟩ = none →
        w'.dirs.find e.workspace.loc = none

/-- A deleted entry that is not there any more has no directory. -/
def RestoreRemembers (w w' : World) : Prop :=
  ∀ fs name e, w.db.lookup ⟨fs, .deleted, name⟩ = some (.entry e) →
    w'.db.lookup ⟨fs, .deleted, name⟩ = none →
      w'.dirs.find ⟨e.workspace.space, .deleted, name⟩ = none

/-- If a call of `ws_release` gets to delete something, then nothing keeps the directory from being
deleted, or the entry from being kept. -/
def ReleaseDeletes (config : Config) (c : Caller) (a : ReleaseArgs) (faults : Faults)
    (contents : DirLoc → Contents) (w : World) : Prop :=
  ∀ user_option fs e, releaseCommandline c a = some user_option →
    releaseFind config c a user_option w = some (fs, e) →
      faults.entry = true ∨ w.dirs.find e.workspace.loc = none ∨
        (contents e.workspace.loc).Deletable faults

section Remembers

variable {config : Config} {c : Caller} {faults : Faults} {contents : DirLoc → Contents} {w : World}

@[simp] theorem World.deleteData_db (w : World) (tree : Contents) (k : DirLoc) :
    (w.deleteData faults tree k).db = w.db := by
  unfold World.deleteData
  split <;> rfl

/-- After a deletion the directory is gone, if it was there and no call failed. -/
theorem World.find_deleteData (w : World) (tree : Contents) (k : DirLoc) :
    (w.deleteData faults tree k).dirs.find k = none ↔
      w.dirs.find k = none ∨ tree.Deletable faults := by
  rw [← Contents.deleteData_eq_none]
  unfold World.deleteData
  split
  · rename_i hnone
    exact ⟨fun _ => Or.inr hnone, fun _ => DirTree.find_remove_self ..⟩
  · rename_i left hleft
    rw [DirTree.find_modify_self, Option.map_eq_none_iff, hleft]
    simp

/-- What `ws_release` found is the live entry. -/
theorem lookup_of_releaseFind {a : ReleaseArgs} {user_option fs : Str} {e : DBEntry}
    (hfound : releaseFind config c a user_option w = some (fs, e)) :
    w.db.lookup ⟨fs, .live, releaseId c a user_option⟩ = some (.entry e) :=
  lookup_of_findEntries (releaseFind_eq_some hfound).2.1

/-- Of the live entries, a release takes only the one that is released. -/
theorem lookup_release_live {fs id fs' id' : Str} {e : DBEntry} {released timestamp : ℤ}
    (h : (⟨fs', .live, id'⟩ : DbLoc) ≠ ⟨fs, .live, id⟩) :
    (DBEntry.release w fs id e released timestamp).db.lookup ⟨fs', .live, id'⟩ =
      w.db.lookup ⟨fs', .live, id'⟩ :=
  DBEntry.lookup_release_ne h (by simp)

theorem restoreRemembers_refl (w : World) : RestoreRemembers w w := fun fs name e hlook hnone => by
  rw [hlook] at hnone
  cases hnone

/-- The data is gone before `restore` removes the entry. -/
theorem restoreDeleteData_remembers (a : RestoreArgs) (username : Str) :
    RestoreRemembers w (restoreDeleteData config c a username faults contents w).1 := by
  unfold restoreDeleteData
  split
  · exact restoreRemembers_refl w
  rename_i fslist hfslist
  split
  · exact restoreRemembers_refl w
  rename_i fs e hsource
  have hread := (World.readEntry_eq_some.mp (restoreSource_eq_some hsource).2.2.1).2
  have hkept : ∀ w' : World, w'.db = w.db → RestoreRemembers w w' := by
    intro w' hdb fs name e hlook hnone
    rw [hdb, hlook] at hnone
    cases hnone
  dsimp only
  split
  · exact hkept _ (World.deleteData_db ..)
  · rename_i hgone
    split
    · exact hkept _ (World.deleteData_db ..)
    · intro fs' name' e' hlook hnone
      by_cases hk : (⟨fs', .deleted, name'⟩ : DbLoc) = ⟨fs, .deleted, a.name⟩
      · obtain ⟨rfl, -, rfl⟩ := DbLoc.mk.inj hk
        rw [hread] at hlook
        obtain rfl := DbFile.entry.inj (Option.some.inj hlook)
        rw [World.removeEntry_dirs]
        simpa using hgone
      · rw [World.lookup_removeEntry_ne hk, World.deleteData_db, hlook] at hnone
        cases hnone

/-- **`ws_restore --delete-data`** removes no entry before the directory is gone. -/
theorem wsRestoreDeleteData_remembers (a : RestoreArgs) (env : RestoreEnv) :
    RestoreRemembers w (wsRestoreDeleteData config c a env faults contents w).1 := by
  unfold wsRestoreDeleteData
  split
  · exact restoreRemembers_refl w
  · dsimp only
    generalize (if a.username.getD [] = [] then c.username else a.username.getD []) = username
    split
    · exact restoreRemembers_refl w
    · split
      · exact restoreRemembers_refl w
      · exact restoreDeleteData_remembers a username

/-- **`ws_release --delete-data`** removes no entry before the directory is gone exactly when no
call fails that is needed to delete it. -/
theorem wsReleaseDeleteData_remembers_iff (a : ReleaseArgs) (env : ReleaseEnv) :
    ReleaseRemembers env.timestamp w (wsReleaseDeleteData config c a env faults contents w).1 ↔
      ReleaseDeletes config c a faults contents w := by
  have hsame : ReleaseRemembers env.timestamp w w := fun fs id e hlook hnone => by
    rw [hlook] at hnone
    cases hnone
  unfold wsReleaseDeleteData ReleaseDeletes
  split
  · rename_i hcmd
    refine ⟨fun _ user_option fs e hcmd' => ?_, fun _ => hsame⟩
    rw [hcmd] at hcmd'
    cases hcmd'
  rename_i user_option hcmd
  unfold releaseDeleteData
  split
  · rename_i hfind
    refine ⟨fun _ user_option' fs e hcmd' hfind' => ?_, fun _ => hsame⟩
    obtain rfl := Option.some.inj (hcmd.symm.trans hcmd')
    rw [hfind] at hfind'
    cases hfind'
  rename_i fs e hfind
  have hlook := lookup_of_releaseFind hfind
  have hne : ∀ name, (⟨fs, .live, releaseId c a user_option⟩ : DbLoc) ≠ ⟨fs, .deleted, name⟩ :=
    fun name => by simp
  have hone : (∀ user_option' fs' e', releaseCommandline c a = some user_option' →
      releaseFind config c a user_option' w = some (fs', e') →
        faults.entry = true ∨ w.dirs.find e'.workspace.loc = none ∨
          (contents e'.workspace.loc).Deletable faults) ↔
      (faults.entry = true ∨ w.dirs.find e.workspace.loc = none ∨
        (contents e.workspace.loc).Deletable faults) := by
    constructor
    · exact fun h => h user_option fs e hcmd hfind
    · intro h user_option' fs' e' hcmd' hfind'
      obtain rfl := Option.some.inj (hcmd.symm.trans hcmd')
      obtain ⟨rfl, rfl⟩ := Prod.mk.inj (Option.some.inj (hfind.symm.trans hfind'))
      exact h
  rw [hone]
  dsimp only
  split
  · -- the entry stays in the deleted area
    rename_i hentry
    refine ⟨fun _ => Or.inl hentry, fun _ fs' id' e' hlook' hlive hdeleted => ?_⟩
    exfalso
    rw [World.deleteData_db] at hlive hdeleted
    by_cases hk : (⟨fs', .live, id'⟩ : DbLoc) = ⟨fs, .live, releaseId c a user_option⟩
    · obtain ⟨rfl, -, rfl⟩ := DbLoc.mk.inj hk
      rw [DBEntry.release, World.lookup_renameEntry_to (World.lookup_writeEntry ..)] at hdeleted
      cases hdeleted
    · rw [lookup_release_live hk, hlook'] at hlive
      cases hlive
  · rename_i hentry
    rw [← World.find_deleteData]
    constructor
    · intro h
      refine Or.inr ?_
      have hgone := h fs _ e hlook ?_ ?_
      · rwa [World.removeEntry_dirs, World.find_deleteData, DBEntry.release_dirs,
          ← World.find_deleteData] at hgone
      · rw [World.lookup_removeEntry_ne (hne _), World.deleteData_db, DBEntry.release]
        exact World.lookup_renameEntry_from (hne _)
      · exact World.lookup_removeEntry ..
    · rintro (hcontra | hgone) fs' id' e' hlook' hlive hdeleted
      · exact absurd hcontra hentry
      by_cases hk : (⟨fs', .live, id'⟩ : DbLoc) = ⟨fs, .live, releaseId c a user_option⟩
      · obtain ⟨rfl, -, rfl⟩ := DbLoc.mk.inj hk
        rw [hlook] at hlook'
        obtain rfl := DbFile.entry.inj (Option.some.inj hlook')
        rwa [World.removeEntry_dirs, World.find_deleteData, DBEntry.release_dirs,
          ← World.find_deleteData]
      · rw [World.lookup_removeEntry_ne (by simp), World.deleteData_db, lookup_release_live hk,
          hlook'] at hlive
        cases hlive

end Remembers

/-- **`--delete-data`**: `ws_restore` never forgets data that is left, `ws_release` does not exactly
when no call fails that is needed to delete the directory. -/
theorem deleteData_remembers_iff (config : Config) (c : Caller) (a : ReleaseArgs)
    (a' : RestoreArgs) (env : ReleaseEnv) (env' : RestoreEnv) (faults : Faults)
    (contents : DirLoc → Contents) (w : World) :
    RestoreRemembers w (wsRestoreDeleteData config c a' env' faults contents w).1 ∧
      (ReleaseRemembers env.timestamp w (wsReleaseDeleteData config c a env faults contents w).1 ↔
        ReleaseDeletes config c a faults contents w) :=
  ⟨wsRestoreDeleteData_remembers a' env', wsReleaseDeleteData_remembers_iff a env⟩

/-! ## A file that can not be removed -/

/-- A workspace of `bob`, with a directory of another user in it. -/
def workspaceWithForeignDir : World where
  db := (∅ : AList fun _ : DbLoc => DbFile).insert ⟨['w'], .live, "bob-x".toList⟩
    (.entry ⟨"bob".toList, ⟨['s'], "bob-x".toList⟩, 100, 9000, 0, 3, false, [], [], [], 0, 0, []⟩)
  dirs := DirTree.empty.create ⟨['s'], .live, "bob-x".toList⟩ ⟨100, false, 1000⟩
  magic := some

/-- The directory holds a file. -/
def foreignContents (_ : DirLoc) : Contents := .dir ['d'] (.file ['f'] .nil) .nil

/-- `bob` may not remove what is in the directory. -/
def foreignFaults : Faults where
  unlink path := path == [['d'], ['f']]
  rmdir _ := false
  openat _ := false
  entry := false

/-- `ws_release --delete-data` removes the entry, and the directory stays. -/
theorem not_deleteData_remembers :
    (¬∀ (config : Config) (c : Caller) (a : ReleaseArgs) (a' : RestoreArgs) (env : ReleaseEnv)
      (env' : RestoreEnv) (faults : Faults) (contents : DirLoc → Contents) (w : World),
        RestoreRemembers w (wsRestoreDeleteData config c a' env' faults contents w).1 ∧
          ReleaseRemembers env.timestamp w
            (wsReleaseDeleteData config c a env faults contents w).1) ∧
      (wsReleaseDeleteData (.single ['w'] (.ofSpaces ['s'] [])) bob ⟨['x'], none, none, true⟩
        ⟨1000, 1000, .ok⟩ foreignFaults foreignContents workspaceWithForeignDir).2 = .removed := by
  refine ⟨fun h => ?_, by decide⟩
  obtain ⟨-, hrelease⟩ := h (.single ['w'] (.ofSpaces ['s'] [])) bob ⟨['x'], none, none, true⟩
    ⟨[], none, none, none, true⟩ ⟨1000, 1000, .ok⟩ ⟨1000, true, .ok⟩ foreignFaults foreignContents
      workspaceWithForeignDir
  have hgone := hrelease ['w'] "bob-x".toList _ rfl (by decide) (by decide)
  exact absurd hgone (by decide)

end HpcWorkspace
