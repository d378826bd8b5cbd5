import Mathlib.Data.List.AList
import HpcWorkspace.Config
import HpcWorkspace.Glob
import HpcWorkspace.Lib.DirTree

/-!
# Entries, databases and directories

The state the tools share: the database of each filesystem, with a live and a deleted area, and
the directories of each space, again with a live and a deleted area. A workspace is a pair of an
entry and a directory; the tools move both between the areas one after the other.

A path below a space is kept as the space and the name in it; `<space>/<deleted>/<name>` is the
name in the deleted area of the space. A database belongs to one filesystem, as its magic file
names it.
-/

namespace HpcWorkspace

/-! ## Entries -/

/-- The path of a workspace directory: `<space>/<name>`. -/
structure WsPath where
  /-- `parent_path()` -/
  space : Str
  /-- `filename()` -/
  name : Str
  deriving DecidableEq

/-- An entry that names no path has the empty one. -/
def WsPath.isEmpty (p : WsPath) : Bool := p.space == [] && p.name == []

/-- `DBEntryV1` -/
structure DBEntry where
  /-- the owner; empty in legacy entries -/
  username : Str
  /-- the directory -/
  workspace : WsPath
  /-- epoch time of creation -/
  creation : ℤ
  /-- epoch time of expiration -/
  expiration : ℤ
  /-- epoch time of the reminder -/
  reminder : ℤ
  /-- extensions left -/
  extensions : ℤ
  /-- is the workspace a group workspace? -/
  groupflag : Bool
  /-- the group -/
  group : Str
  /-- address for mails -/
  mailaddress : Str
  /-- free text -/
  comment : Str
  /-- epoch time of release by the user, 0 if not released -/
  released : ℤ
  /-- epoch time of expiry by the expirer, 0 if not expired -/
  expired : ℤ
  /-- accounting code -/
  acctcode : Str
  deriving DecidableEq

namespace DBEntry

/-- What `readFromFile` gives back of what `writeEntry` wrote: `released` and `expired` are only
written when they are positive, the group only for group workspaces. -/
def persisted (e : DBEntry) : DBEntry :=
  let group := if e.groupflag && !e.group.isEmpty then e.group else []
  { e with
    released := if e.released > 0 then e.released else 0
    expired := if e.expired > 0 then e.expired else 0
    group := group
    groupflag := !group.isEmpty }

@[simp] theorem persisted_expiration (e : DBEntry) : e.persisted.expiration = e.expiration := rfl

/-- `setGroup` -/
def setGroup (e : DBEntry) (g : Str) : DBEntry := { e with group := g, groupflag := !g.isEmpty }

/-- The extensions that are left after `useExtension`; if root does this, we do not use one. -/
def extensionsLeft (e : DBEntry) (isRoot : Bool) (expiration : ℤ) : ℤ :=
  if !isRoot ∧ expiration ≠ -1 ∧ expiration > e.expiration then e.extensions - 1 else e.extensions

/-- `useExtension` up to the write; `none` is the exception "no more extensions!". -/
def useExtension (e : DBEntry) (isRoot : Bool) (expiration : ℤ) (mailaddress : Str) (reminder : ℤ)
    (comment : Str) : Option DBEntry :=
  if e.extensionsLeft isRoot expiration < 0 ∧ !isRoot then none
  else
    some { e with
      mailaddress := if mailaddress ≠ [] then mailaddress else e.mailaddress
      reminder := if reminder ≠ 0 then reminder else e.reminder
      comment := if comment ≠ [] then comment else e.comment
      extensions := e.extensionsLeft isRoot expiration
      expiration := if expiration ≠ -1 then expiration else e.expiration }

end DBEntry

/-- The decision of `expire_workspaces` on an entry `id` of the deleted area; `none` for a name
without a time, which is skipped. -/
def shouldDelete (fsconfig : FilesystemConfig) (id : Str) (e : DBEntry) (now : ℤ) : Option Bool :=
  match fileTime id with
  | none => none
  | some releasetime =>
    let expiration := max e.expiration e.expired
    if e.released > 1000000000 then
      -- released by user
      some (now ≥ e.released + fsconfig.releasekeeptime * 24 * 3600)
    else
      -- a `released` before 2001 is ignored: date in future
      let releasetime := if e.released ≠ 0 then 3000000000 else releasetime
      let expiration := if e.expired = 0 then max expiration releasetime else expiration
      some (now > expiration + fsconfig.keeptime * 24 * 3600)

/-! ## The shared state -/

/-- The two areas of a database and of a space. -/
inductive Area where
  /-- workspaces in use -/
  | live
  /-- expired and released ones, below the path `deleted` -/
  | deleted
  deriving DecidableEq

/-- Where an entry file lies. -/
structure DbLoc where
  /-- the filesystem the database belongs to -/
  fs : Str
  /-- the area -/
  area : Area
  /-- the file name -/
  id : Str
  deriving DecidableEq

/-- Where a directory lies. -/
structure DirLoc where
  /-- the space -/
  space : Str
  /-- the area -/
  area : Area
  /-- the directory name -/
  name : Str
  deriving DecidableEq

/-- The live directory of a path. -/
def WsPath.loc (p : WsPath) : DirLoc := ⟨p.space, .live, p.name⟩

/-- An entry file. -/
inductive DbFile where
  /-- it holds this entry -/
  | entry (e : DBEntry)
  /-- it can not be read or parsed -/
  | unreadable
  deriving DecidableEq

/-- What is known of a directory. -/
structure Dir where
  /-- modification time -/
  mtime : ℤ
  /-- is nothing in it? -/
  isEmpty : Bool
  /-- owner -/
  uid : ℕ
  deriving DecidableEq

/-- `create_directories`: what is there already stays. -/
def makeDir (dirs : DirTree DirLoc Dir) (k : DirLoc) (now : ℤ) : DirTree DirLoc Dir :=
  match dirs.find k with
  | some _ => dirs
  | none => dirs.create k ⟨now, true, 0⟩

/-- `fchown` -/
def chownDir (dirs : DirTree DirLoc Dir) (k : DirLoc) (uid : ℕ) : DirTree DirLoc Dir :=
  dirs.modify k fun d => { d with uid := uid }

theorem find_makeDir_ne {dirs : DirTree DirLoc Dir} {k k' : DirLoc} {now : ℤ} (h : k' ≠ k) :
    (makeDir dirs k now).find k' = dirs.find k' := by
  unfold makeDir
  split
  · rfl
  · exact DirTree.find_create_ne _ h

/-- After `mkdir` the directory is there. -/
theorem find_makeDir_self (dirs : DirTree DirLoc Dir) (k : DirLoc) (now : ℤ) :
    ∃ n, (makeDir dirs k now).find k = some n ∧ (dirs.find k = none ∨ dirs.find k = some n) := by
  unfold makeDir
  split
  · rename_i n hn
    exact ⟨n, hn, Or.inr hn⟩
  · rename_i hn
    exact ⟨_, DirTree.find_create_self .., Or.inl hn⟩

theorem find_chownDir_ne {dirs : DirTree DirLoc Dir} {k k' : DirLoc} {uid : ℕ} (h : k' ≠ k) :
    (chownDir dirs k uid).find k' = dirs.find k' := DirTree.find_modify_ne _ h

theorem find_chownDir_self (dirs : DirTree DirLoc Dir) (k : DirLoc) (uid : ℕ) :
    (chownDir dirs k uid).find k = (dirs.find k).map fun n => ⟨n.inode, { n.attr with uid := uid }⟩ :=
  DirTree.find_modify_self _

/-- Databases and directories. -/
structure World where
  /-- the entry files -/
  db : AList (fun _ : DbLoc => DbFile)
  /-- the directories -/
  dirs : DirTree DirLoc Dir
  /-- first line of the magic file of the database of a filesystem, if it is there -/
  magic : Str → Option Str

namespace World

/-- Empty databases and spaces, with the magic files of `ws_prepare`. -/
def init : World where
  db := ∅
  dirs := .empty
  magic fs := some fs

/-! ## Databases -/

/-- `Config::openDB`: the magic file must name the filesystem. -/
def openDB (w : World) (fs : Str) : Bool := w.magic fs == some fs

/-- `readEntry`; `none` is the exception for an invalid id, a missing or a broken file. -/
def readEntry (w : World) (fs : Str) (area : Area) (id : Str) : Option DBEntry :=
  if checkID id then
    match w.db.lookup ⟨fs, area, id⟩ with
    | some (.entry e) => some e
    | _ => none
  else none

theorem readEntry_eq_some {w : World} {fs id : Str} {area : Area} {e : DBEntry} :
    w.readEntry fs area id = some e ↔
      checkID id = true ∧ w.db.lookup ⟨fs, area, id⟩ = some (.entry e) := by
  unfold readEntry
  split
  · rename_i hid
    split
    · rename_i e' hlook
      rw [hlook]
      simp only [hid, true_and, Option.some.injEq, DbFile.entry.injEq]
    · rename_i hno
      exact ⟨nofun, fun h => absurd h.2 (hno e)⟩
  · rename_i hid
    exact ⟨nofun, fun h => absurd h.1 hid⟩

/-- `utils::dirEntries` on a directory of the database. -/
def dirEntries (w : World) (fs : Str) (area : Area) (pattern : Str) : List Str :=
  (w.db.keys.filter fun k => k.fs == fs && k.area == area && globMatch pattern k.id).map DbLoc.id

/-- `matchPattern` without `groupworkspaces`. -/
def matchPattern (w : World) (fs : Str) (area : Area) (pattern user : Str) : List Str :=
  w.dirEntries fs area (wsid user pattern)

/-- `writeEntry` of a whole entry. -/
def writeEntry (w : World) (k : DbLoc) (e : DBEntry) : World :=
  { w with db := w.db.insert k (.entry e.persisted) }

/-- Remove an entry file, if it is there. -/
def removeEntry (w : World) (k : DbLoc) : World := { w with db := w.db.erase k }

/-- `rename` of an entry file; one that is at the target goes away. -/
def renameEntry (w : World) (k k' : DbLoc) : World :=
  match w.db.lookup k with
  | none => w
  | some f => { w with db := (w.db.erase k).insert k' f }

/-! ## Directories -/

/-- `create_directories` -/
def mkdir (w : World) (k : DirLoc) (now : ℤ) : World := { w with dirs := makeDir w.dirs k now }

/-- `fchown` -/
def chown (w : World) (k : DirLoc) (uid : ℕ) : World := { w with dirs := chownDir w.dirs k uid }

/-- A user works in a directory. -/
def touch (w : World) (k : DirLoc) (mtime : ℤ) (isEmpty : Bool) : World :=
  { w with dirs := w.dirs.modify k fun d => { d with mtime := mtime, isEmpty := isEmpty } }

/-- May a directory be renamed to a name? Only an empty directory may be there. -/
def mayReplace (w : World) (k : DirLoc) : Bool :=
  match w.dirs.find k with
  | some n => n.attr.isEmpty
  | none => true

/-- `rename` of a directory; `none` is the exception for a missing source or a target that is in
use. -/
def renameDir (w : World) (k k' : DirLoc) : Option World :=
  if (w.dirs.find k).isSome ∧ w.mayReplace k' then some { w with dirs := w.dirs.move k k' }
  else none

/-- A directory and all below it goes away. -/
def removeDir (w : World) (k : DirLoc) : World := { w with dirs := w.dirs.remove k }

/-! ## Frame lemmas -/

variable {w : World} {k k' : DbLoc} {d d' : DirLoc}

@[simp] theorem writeEntry_dirs (w : World) (k : DbLoc) (e : DBEntry) :
    (w.writeEntry k e).dirs = w.dirs := rfl

@[simp] theorem lookup_writeEntry (w : World) (k : DbLoc) (e : DBEntry) :
    (w.writeEntry k e).db.lookup k = some (.entry e.persisted) := AList.lookup_insert _

theorem lookup_writeEntry_ne (e : DBEntry) (h : k' ≠ k) :
    (w.writeEntry k e).db.lookup k' = w.db.lookup k' := AList.lookup_insert_ne h

@[simp] theorem removeEntry_dirs (w : World) (k : DbLoc) : (w.removeEntry k).dirs = w.dirs := rfl

@[simp] theorem lookup_removeEntry (w : World) (k : DbLoc) :
    (w.removeEntry k).db.lookup k = none := AList.lookup_erase _ _

theorem lookup_removeEntry_ne (h : k' ≠ k) : (w.removeEntry k).db.lookup k' = w.db.lookup k' :=
  AList.lookup_erase_ne h

@[simp] theorem renameEntry_dirs (w : World) (k k' : DbLoc) : (w.renameEntry k k').dirs = w.dirs := by
  unfold renameEntry
  split <;> rfl

theorem lookup_renameEntry_to {f : DbFile} (h : w.db.lookup k = some f) :
    (w.renameEntry k k').db.lookup k' = some f := by
  unfold renameEntry
  rw [h]
  exact AList.lookup_insert _

theorem lookup_renameEntry_from (hne : k ≠ k') : (w.renameEntry k k').db.lookup k = none := by
  unfold renameEntry
  split
  · assumption
  · exact (AList.lookup_insert_ne hne).trans (AList.lookup_erase _ _)

theorem lookup_renameEntry_ne {k₀ : DbLoc} (h : k₀ ≠ k) (h' : k₀ ≠ k') :
    (w.renameEntry k k').db.lookup k₀ = w.db.lookup k₀ := by
  unfold renameEntry
  split
  · rfl
  · exact (AList.lookup_insert_ne h').trans (AList.lookup_erase_ne h)

@[simp] theorem mkdir_db (w : World) (d : DirLoc) (now : ℤ) : (w.mkdir d now).db = w.db := rfl

@[simp] theorem mkdir_dirs (w : World) (d : DirLoc) (now : ℤ) :
    (w.mkdir d now).dirs = makeDir w.dirs d now := rfl

@[simp] theorem chown_db (w : World) (d : DirLoc) (uid : ℕ) : (w.chown d uid).db = w.db := rfl

@[simp] theorem chown_dirs (w : World) (d : DirLoc) (uid : ℕ) :
    (w.chown d uid).dirs = chownDir w.dirs d uid := rfl

@[simp] theorem touch_db (w : World) (d : DirLoc) (mtime : ℤ) (isEmpty : Bool) :
    (w.touch d mtime isEmpty).db = w.db := rfl

theorem find_touch_ne {mtime : ℤ} {isEmpty : Bool} (h : d' ≠ d) :
    (w.touch d mtime isEmpty).dirs.find d' = w.dirs.find d' := DirTree.find_modify_ne _ h

@[simp] theorem removeDir_db (w : World) (d : DirLoc) : (w.removeDir d).db = w.db := rfl

theorem find_removeDir_ne (h : d' ≠ d) : (w.removeDir d).dirs.find d' = w.dirs.find d' :=
  DirTree.find_remove_ne h

/-- A rename that succeeds moves the directory. -/
theorem renameDir_eq_some {w' : World} (h : w.renameDir d d' = some w') :
    (∃ n, w.dirs.find d = some n) ∧ w' = { w with dirs := w.dirs.move d d' } := by
  unfold renameDir at h
  split at h
  · rename_i hcond
    exact ⟨Option.isSome_iff_exists.mp hcond.1, (Option.some.inj h).symm⟩
  · cases h

end World

end HpcWorkspace
