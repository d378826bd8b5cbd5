import HpcWorkspace.Lib.DirGraph
import HpcWorkspace.Names

/-!
# `rmtree` among other processes

`rmtree` and its recursion `rmtree_fd`, one system call after the other: each call is answered by
the file system as it is then, and between any two of them another process may change what is inside
of the tree. A directory is compared before it is gone into: what was opened must be what was looked
at, so a symbolic link that has come into its place leads nowhere.
-/

namespace HpcWorkspace

/-- The directories by inode number, and the names in them. -/
abbrev FileSystem := DirGraph ℕ Str

/-! ## System calls -/

/-- `struct stat` -/
structure Stat where
  /-- `S_ISDIR` -/
  isDir : Bool
  /-- `st_ino` -/
  inode : ℕ
  /-- the other fields -/
  rest : ℕ
  deriving DecidableEq

/-- What a file descriptor refers to. -/
structure Handle where
  /-- is it a directory? -/
  isDir : Bool
  /-- its inode number -/
  inode : ℕ
  deriving DecidableEq

/-- `d_type` -/
inductive DType where
  /-- `DT_DIR` -/
  | dir
  /-- `DT_UNKNOWN` -/
  | unknown
  /-- the others -/
  | other
  deriving DecidableEq

/-- The system calls of `rmtree`. -/
inductive Syscall where
  /-- `fstatat(dir, name, &st, AT_SYMLINK_NOFOLLOW)` -/
  | fstatat (dir : Handle) (name : Str)
  /-- `openat(dir, name, O_RDONLY | O_CLOEXEC)` -/
  | openat (dir : Handle) (name : Str)
  /-- `fstatat(fd, "", &st, AT_EMPTY_PATH)` -/
  | fstat (fd : Handle)
  /-- `time`, `fdopendir`, and `readdir` until its end -/
  | readdir (fd : Handle)
  /-- `unlinkat(dir, name, flag)`, the flag is `AT_REMOVEDIR` or 0 -/
  | unlinkat (dir : Handle) (name : Str) (removedir : Bool)
  /-- `close` and `closedir` -/
  | close (fd : Handle)
  deriving DecidableEq

/-- The answers. -/
inductive Answer where
  /-- -1; for `readdir` also that the deadline has passed -/
  | error
  /-- the call succeeds -/
  | ok
  /-- what `fstatat` fills in -/
  | stat (st : Stat)
  /-- a descriptor -/
  | fd (fd : Handle)
  /-- the names of a directory -/
  | entries (entries : List (Str × DType))
  deriving DecidableEq

/-- `.` and `..` -/
def isDots (name : Str) : Bool := name == ['.'] || name == ['.', '.']

/-- What `fstatat` tells about a name, but for the fields that do not matter. -/
def statOf (inode rest : ℕ) : DirEntry ℕ → Stat
  | .dir i => ⟨true, i, rest⟩
  | .symlink => ⟨false, inode, rest⟩
  | .other => ⟨false, inode, rest⟩

/-- What may be opened by a name. -/
inductive Opens (fs : FileSystem) : DirEntry ℕ → Handle → Prop where
  /-- a directory -/
  | dir {i : ℕ} : Opens fs (.dir i) ⟨true, i⟩
  /-- something else -/
  | other {i : ℕ} : Opens fs .other ⟨false, i⟩
  /-- a link leads to anything that exists -/
  | symlink {fd : Handle} (hlive : fd.isDir = true → fs.live fd.inode) : Opens fs .symlink fd

/-- How the file system answers a call, and what it is after it. -/
inductive Answers (fs : FileSystem) : Syscall → Answer → FileSystem → Prop where
  /-- a call may fail -/
  | error {c : Syscall} : Answers fs c .error fs
  /-- a link is not followed -/
  | fstatat {dir : Handle} {name : Str} {x : DirEntry ℕ} {inode rest : ℕ}
      (hname : isDots name = false) (hentry : fs.entry dir.inode name = some x) :
      Answers fs (.fstatat dir name) (.stat (statOf inode rest x)) fs
  /-- `..` is any directory, also one outside -/
  | fstatatDots {dir : Handle} {name : Str} {st : Stat} (hname : isDots name = true) :
      Answers fs (.fstatat dir name) (.stat st) fs
  /-- a link is followed -/
  | openat {dir fd : Handle} {name : Str} {x : DirEntry ℕ} (hname : isDots name = false)
      (hentry : fs.entry dir.inode name = some x) (hopen : Opens fs x fd) :
      Answers fs (.openat dir name) (.fd fd) fs
  /-- `..` is any directory -/
  | openatDots {dir fd : Handle} {name : Str} (hname : isDots name = true) :
      Answers fs (.openat dir name) (.fd fd) fs
  /-- a descriptor stays with what was opened -/
  | fstat {fd : Handle} {rest : ℕ} : Answers fs (.fstat fd) (.stat ⟨fd.isDir, fd.inode, rest⟩) fs
  /-- names may come and go meanwhile; none of them has a slash -/
  | readdir {fd : Handle} {entries : List (Str × DType)} (hdir : fd.isDir = true)
      (hnames : ∀ ent ∈ entries, '/' ∉ ent.1) :
      Answers fs (.readdir fd) (.entries entries) fs
  /-- what is removed is no directory -/
  | unlink {dir : Handle} {name : Str} {x : DirEntry ℕ} (hname : isDots name = false)
      (hentry : fs.entry dir.inode name = some x) (hx : ∀ i, x ≠ .dir i) :
      Answers fs (.unlinkat dir name false) .ok (fs.set dir.inode name none)
  /-- or an empty one -/
  | rmdir {dir : Handle} {name : Str} {i : ℕ} (hname : isDots name = false)
      (hentry : fs.entry dir.inode name = some (.dir i)) (hempty : fs.Empty i) :
      Answers fs (.unlinkat dir name true) .ok ((fs.set dir.inode name none).drop i)
  /-- a descriptor is closed -/
  | close {fd : Handle} : Answers fs (.close fd) .ok fs

/-! ## The program -/

/-- The point a call of `rmtree_fd` is at, with its local variables; `entries` are those the loop
has still to look at. -/
inductive FdPoint where
  /-- the deadline is checked and the names are collected -/
  | collect
  /-- the type of a name is not known -/
  | resolve (name : Str) (entries : List (Str × DType))
  /-- `orig_stat` -/
  | stat (name : Str) (entries : List (Str × DType))
  /-- `dirfd` -/
  | openDir (name : Str) (orig_stat : Stat) (entries : List (Str × DType))
  /-- `new_stat`, to be compared with `orig_stat` -/
  | compare (name : Str) (orig_stat : Stat) (dirfd : Handle) (entries : List (Str × DType))
  /-- it was another one -/
  | close (dirfd : Handle) (entries : List (Str × DType))
  /-- the directory was gone through -/
  | removeDir (name : Str) (entries : List (Str × DType))
  /-- the name is that of no directory -/
  | unlink (name : Str) (entries : List (Str × DType))
  /-- `topfd` is closed -/
  | closeTop
  deriving DecidableEq

/-- A call of `rmtree_fd`. -/
structure FdCall where
  /-- `topfd` -/
  topfd : Handle
  /-- the point it is at -/
  point : FdPoint
  deriving DecidableEq

/-- The loop goes on to the next name. -/
def nextEntry : List (Str × DType) → FdPoint
  | [] => .closeTop
  | (name, .dir) :: entries => if isDots name then nextEntry entries else .stat name entries
  | (name, .unknown) :: entries => .resolve name entries
  | (name, .other) :: entries => .unlink name entries

namespace FdCall

/-- The next system call. -/
def syscall (f : FdCall) : Syscall :=
  match f.point with
  | .collect => .readdir f.topfd
  | .resolve name _ => .fstatat f.topfd name
  | .stat name _ => .fstatat f.topfd name
  | .openDir name _ _ => .openat f.topfd name
  | .compare _ _ dirfd _ => .fstat dirfd
  | .close dirfd _ => .close dirfd
  | .removeDir name _ => .unlinkat f.topfd name true
  | .unlink name _ => .unlinkat f.topfd name false
  | .closeTop => .close f.topfd

/-- The calls in progress after its answer, the innermost one first, and what is added to
`deleted`. -/
def resume (f : FdCall) (answer : Answer) : List FdCall × ℕ :=
  let goOn (point : FdPoint) : List FdCall × ℕ := ([⟨f.topfd, point⟩], 0)
  match f.point, answer with
  | .collect, .entries entries => goOn (nextEntry entries)
  | .collect, _ => goOn .closeTop
  | .resolve name entries, .stat st =>
    if st.isDir then
      if isDots name then goOn (nextEntry entries) else goOn (.stat name entries)
    else goOn (.unlink name entries)
  | .resolve name entries, _ => goOn (.unlink name entries)
  | .stat name entries, .stat orig_stat =>
    if orig_stat.isDir then goOn (.openDir name orig_stat entries) else goOn (nextEntry entries)
  | .stat _ entries, _ => goOn (nextEntry entries)
  | .openDir name orig_stat entries, .fd dirfd => goOn (.compare name orig_stat dirfd entries)
  | .openDir _ _ entries, _ => goOn (nextEntry entries)
  | .compare name orig_stat dirfd entries, .stat new_stat =>
    if new_stat = orig_stat then
      -- the recursion, after which the directory is removed
      ([⟨dirfd, .collect⟩, ⟨f.topfd, .removeDir name entries⟩], 0)
    else goOn (.close dirfd entries)
  | .compare _ _ dirfd entries, _ => goOn (.close dirfd entries)
  | .close _ entries, _ => goOn (nextEntry entries)
  | .removeDir _ entries, _ => goOn (nextEntry entries)
  | .unlink _ entries, .ok => ([⟨f.topfd, nextEntry entries⟩], 1)
  | .unlink _ entries, _ => goOn (nextEntry entries)
  | .closeTop, _ => ([], 0)

end FdCall

/-- The point `rmtree` is at. -/
inductive RmtreePoint where
  /-- `orig_stat` -/
  | stat
  /-- `dirfd` -/
  | openDir (orig_stat : Stat)
  /-- `new_stat` -/
  | compare (orig_stat : Stat) (dirfd : Handle)
  /-- it was another one -/
  | close (dirfd : Handle)
  /-- the calls of `rmtree_fd`, the innermost one first -/
  | calls (f : FdCall) (outer : List FdCall)
  /-- the directory itself -/
  | removeDir
  /-- it has returned -/
  | done
  deriving DecidableEq

namespace RmtreePoint

/-- The next system call; `path` is the directory in which the path is looked up, and its last
component. -/
def syscall (path : ℕ × Str) : RmtreePoint → Option Syscall
  | .stat => some (.fstatat ⟨true, path.1⟩ path.2)
  | .openDir _ => some (.openat ⟨true, path.1⟩ path.2)
  | .compare _ dirfd => some (.fstat dirfd)
  | .close dirfd => some (.close dirfd)
  | .calls f _ => some f.syscall
  | .removeDir => some (.unlinkat ⟨true, path.1⟩ path.2 true)
  | .done => none

/-- The calls that are in progress; after the outermost one the directory itself is removed. -/
def ofCalls : List FdCall → RmtreePoint
  | [] => .removeDir
  | f :: outer => .calls f outer

/-- The point after its answer, and what is added to `deleted`. -/
def resume : RmtreePoint → Answer → RmtreePoint × ℕ
  | .stat, .stat orig_stat => (if orig_stat.isDir then .openDir orig_stat else .done, 0)
  | .stat, _ => (.done, 0)
  | .openDir orig_stat, .fd dirfd => (.compare orig_stat dirfd, 0)
  | .openDir _, _ => (.done, 0)
  | .compare orig_stat dirfd, .stat new_stat =>
    (if new_stat = orig_stat then .calls ⟨dirfd, .collect⟩ [] else .close dirfd, 0)
  | .compare _ dirfd, _ => (.close dirfd, 0)
  | .close _, _ => (.done, 0)
  | .calls f outer, answer =>
    (.ofCalls ((f.resume answer).1 ++ outer), (f.resume answer).2)
  | .removeDir, _ => (.done, 0)
  | .done, _ => (.done, 0)

end RmtreePoint

/-! ## Runs -/

/-- The file system and the call of `rmtree`, with what it has removed. -/
structure Rmtree where
  /-- the file system -/
  fs : FileSystem
  /-- the point of the program -/
  point : RmtreePoint
  /-- its result -/
  deleted : ℕ
  /-- the names it has removed, with the directories they were in -/
  removed : List (ℕ × Str)

/-- The name that a call removes. -/
def removes : Syscall → Answer → List (ℕ × Str)
  | .unlinkat dir name _, .ok => [(dir.inode, name)]
  | _, _ => []

namespace Rmtree

/-- A step: a system call of `rmtree`, or a change that another process makes inside of the
tree. -/
inductive Step (path : ℕ × Str) (root : ℕ) (s : Rmtree) : Rmtree → Prop where
  /-- a system call -/
  | call {c : Syscall} {answer : Answer} {fs : FileSystem} (hcall : s.point.syscall path = some c)
      (hanswer : Answers s.fs c answer fs) :
      Step path root s ⟨fs, (s.point.resume answer).1, s.deleted + (s.point.resume answer).2,
        removes c answer ++ s.removed⟩
  /-- a change by another process -/
  | tamper {fs : FileSystem}
      (hwrites : s.fs.Writes (fun d => s.fs.live d ∧ s.fs.Inside root d) fs) :
      Step path root s { s with fs := fs }

/-- A run. -/
def Run (path : ℕ × Str) (root : ℕ) : Rmtree → Rmtree → Prop :=
  Relation.ReflTransGen (Step path root)

/-- A directory was part of the tree at some moment of a run. -/
def WasPart (path : ℕ × Str) (root : ℕ) (s₀ s : Rmtree) (d : ℕ) : Prop :=
  ∃ s₁, Run path root s₀ s₁ ∧ Run path root s₁ s ∧ s₁.fs.live d ∧ s₁.fs.Inside root d

/-- The call of `rmtree` begins: the path ends with the name of a directory, and that is not above
itself. -/
structure Begins (path : ℕ × Str) (root : ℕ) (s : Rmtree) : Prop where
  /-- the file system is well-formed -/
  wellFormed : s.fs.WellFormed
  /-- the path names the directory -/
  entry : s.fs.entry path.1 path.2 = some (.dir root)
  /-- by its name -/
  named : isDots path.2 = false
  /-- the name is not in the tree -/
  outside : ¬s.fs.Inside root path.1
  /-- nothing is done -/
  point : s.point = .stat
  /-- nothing is removed -/
  removed : s.removed = []

end Rmtree

end HpcWorkspace
