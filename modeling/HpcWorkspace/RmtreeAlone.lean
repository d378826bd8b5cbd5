import HpcWorkspace.Lib.Pruning
import HpcWorkspace.RmtreeSafe

/-!
# `rmtree` without other processes

Nobody else changes the file system, and every system call does what it is for; only a directory that
is not empty cannot be removed. What `readdir` finds is what is there, in any order. With a deadline,
this may have passed whenever a directory is about to be gone through. Whatever it is that is removed
before, what is left is a part of the tree that is closed under parents, nothing else is touched, and
no symbolic link is followed.
-/

namespace HpcWorkspace

open DirGraph (Inside Prunes FiniteTree lostFiles)

/-! ## System calls -/

/-- Names are neither `.` nor `..`, and have no slash. -/
def ProperNames (fs : FileSystem) : Prop :=
  ∀ d n x, fs.entry d n = some x → isDots n = false ∧ '/' ∉ n

/-- `d_type`, where the file system provides it. -/
def typeOf : DirEntry ℕ → DType
  | .dir _ => .dir
  | .symlink => .other
  | .other => .other

/-- Names that are in a directory, each once, with their types if these are known. -/
structure DirNames (fs : FileSystem) (d : ℕ) (entries : List (Str × DType)) : Prop where
  /-- each once -/
  nodup : (entries.map Prod.fst).Nodup
  /-- `.` and `..` are directories -/
  dots : ∀ n t, (n, t) ∈ entries → isDots n = true → t ≠ .other
  /-- the others are there -/
  entry : ∀ n t, (n, t) ∈ entries → isDots n = false →
    ∃ x, fs.entry d n = some x ∧ (t = .unknown ∨ t = typeOf x)

/-- All names that are in a directory are among these. -/
def ListsAll (fs : FileSystem) (d : ℕ) (entries : List (Str × DType)) : Prop :=
  ∀ n x, fs.entry d n = some x → n ∈ entries.map Prod.fst

/-- The answers of a file system that nobody else changes; `rest` are the other fields of
`struct stat`. -/
inductive AnswersAlone (rest : ℕ → ℕ) (deadline : Bool) (fs : FileSystem) :
    Syscall → Answer → FileSystem → Prop where
  /-- a name that is there -/
  | fstatat {dir : Handle} {name : Str} {x : DirEntry ℕ} {inode r : ℕ}
      (hname : isDots name = false) (hentry : fs.entry dir.inode name = some x)
      (hrest : ∀ i, x = .dir i → r = rest i) :
      AnswersAlone rest deadline fs (.fstatat dir name) (.stat (statOf inode r x)) fs
  /-- a name that is not -/
  | missing {dir : Handle} {name : Str} (hname : isDots name = false)
      (hentry : fs.entry dir.inode name = none) :
      AnswersAlone rest deadline fs (.fstatat dir name) .error fs
  /-- a directory -/
  | fstatatDots {dir : Handle} {name : Str} {st : Stat} (hname : isDots name = true)
      (hdir : st.isDir = true) : AnswersAlone rest deadline fs (.fstatat dir name) (.stat st) fs
  /-- a link is followed -/
  | openat {dir fd : Handle} {name : Str} {x : DirEntry ℕ} (hname : isDots name = false)
      (hentry : fs.entry dir.inode name = some x) (hopen : Opens fs x fd) :
      AnswersAlone rest deadline fs (.openat dir name) (.fd fd) fs
  /-- what was opened -/
  | fstat {fd : Handle} :
      AnswersAlone rest deadline fs (.fstat fd) (.stat ⟨fd.isDir, fd.inode, rest fd.inode⟩) fs
  /-- the deadline has passed -/
  | deadline {fd : Handle} (hdeadline : deadline = true) :
      AnswersAlone rest deadline fs (.readdir fd) .error fs
  /-- all that is there -/
  | readdir {fd : Handle} {entries : List (Str × DType)} (hdir : fd.isDir = true)
      (hlisted : DirNames fs fd.inode entries) (hall : ListsAll fs fd.inode entries) :
      AnswersAlone rest deadline fs (.readdir fd) (.entries entries) fs
  /-- what is removed is no directory -/
  | unlink {dir : Handle} {name : Str} {x : DirEntry ℕ} (hname : isDots name = false)
      (hentry : fs.entry dir.inode name = some x) (hx : ∀ i, x ≠ .dir i) :
      AnswersAlone rest deadline fs (.unlinkat dir name false) .ok (fs.set dir.inode name none)
  /-- or an empty one -/
  | rmdir {dir : Handle} {name : Str} {i : ℕ} (hname : isDots name = false)
      (hentry : fs.entry dir.inode name = some (.dir i)) (hempty : fs.Empty i) :
      AnswersAlone rest deadline fs (.unlinkat dir name true) .ok
        ((fs.set dir.inode name none).drop i)
  /-- `ENOTEMPTY` -/
  | notEmpty {dir : Handle} {name : Str} {i : ℕ} (hname : isDots name = false)
      (hentry : fs.entry dir.inode name = some (.dir i)) (hempty : ¬fs.Empty i) :
      AnswersAlone rest deadline fs (.unlinkat dir name true) .error fs
  /-- a descriptor is closed -/
  | close {fd : Handle} : AnswersAlone rest deadline fs (.close fd) .ok fs

/-- The calls that leave the attributes of everything as they are. -/
def Syscall.looks : Syscall → Bool
  | .fstatat .. => true
  | .openat .. => true
  | _ => false

namespace Rmtree

/-- A step of `rmtree`, with the other fields of `struct stat`: no other process takes part. -/
inductive StepAlone (path : ℕ × Str) (deadline : Bool) :
    Rmtree × (ℕ → ℕ) → Rmtree × (ℕ → ℕ) → Prop where
  /-- a system call -/
  | call {s : Rmtree} {rest rest' : ℕ → ℕ} {c : Syscall} {answer : Answer} {fs : FileSystem}
      (hcall : s.point.syscall path = some c) (hanswer : AnswersAlone rest deadline s.fs c answer fs)
      (hrest : c.looks = true → rest' = rest) :
      StepAlone path deadline (s, rest) (⟨fs, (s.point.resume answer).1,
        s.deleted + (s.point.resume answer).2, removes c answer ++ s.removed⟩, rest')

end Rmtree

section Answers

variable {rest : ℕ → ℕ} {deadline : Bool} {fs fs' : FileSystem} {c : Syscall} {answer : Answer}

/-- These are answers. -/
theorem AnswersAlone.answers (h : AnswersAlone rest deadline fs c answer fs')
    (hproper : ProperNames fs) : Answers fs c answer fs' := by
  cases h with
  | fstatat hname hentry => exact .fstatat hname hentry
  | missing => exact .error
  | fstatatDots hname => exact .fstatatDots hname
  | openat hname hentry hopen => exact .openat hname hentry hopen
  | fstat => exact .fstat
  | deadline => exact .error
  | readdir hdir hlisted =>
    refine .readdir hdir fun ent hent => ?_
    obtain ⟨n, t⟩ := ent
    cases hdots : isDots n with
    | true =>
      rw [isDots, Bool.or_eq_true, beq_iff_eq, beq_iff_eq] at hdots
      rcases hdots with rfl | rfl
      · exact (by decide : '/' ∉ ['.'])
      · exact (by decide : '/' ∉ ['.', '.'])
    | false =>
      obtain ⟨x, hx, -⟩ := hlisted.entry n t hent hdots
      exact (hproper _ n x hx).2
  | unlink hname hentry hx => exact .unlink hname hentry hx
  | rmdir hname hentry hempty => exact .rmdir hname hentry hempty
  | notEmpty => exact .error
  | close => exact .close

/-- What is added to `deleted`. -/
def deletes : Syscall → Answer → ℕ
  | .unlinkat _ _ false, .ok => 1
  | _, _ => 0

theorem FdCall.resume_deletes (f : FdCall) (answer : Answer) :
    (f.resume answer).2 = deletes f.syscall answer := by
  obtain ⟨topfd, point⟩ := f
  cases point with
  | resolve name entries =>
    cases answer with
    | stat st =>
      dsimp only [FdCall.resume]
      split
      · split <;> rfl
      · rfl
    | _ => rfl
  | stat name entries =>
    cases answer with
    | stat st =>
      dsimp only [FdCall.resume]
      split <;> rfl
    | _ => rfl
  | compare name orig_stat dirfd entries =>
    cases answer with
    | stat st =>
      dsimp only [FdCall.resume]
      split <;> rfl
    | _ => rfl
  | _ => cases answer <;> rfl

theorem RmtreePoint.resume_deletes {p : RmtreePoint} {path : ℕ × Str}
    (h : p.syscall path = some c) : (p.resume answer).2 = deletes c answer := by
  cases p with
  | calls f outer =>
    obtain rfl := Option.some.inj h
    exact f.resume_deletes answer
  | done => cases h
  | _ =>
    obtain rfl := Option.some.inj h
    cases answer <;> rfl

/-- What is removed is in a directory that is known, or it is the tree itself. -/
theorem RmtreePoint.Known.of_unlinkat {K : ℕ → Prop} {p : RmtreePoint} {path : ℕ × Str}
    {dir : Handle} {name : Str} {removedir : Bool} (h : p.Known K)
    (hcall : p.syscall path = some (.unlinkat dir name removedir)) :
    K dir.inode ∨ (dir.inode, name) = path := by
  cases p with
  | calls f outer =>
    obtain rfl := FdCall.of_unlinkat (Option.some.inj hcall)
    exact Or.inl (h f (List.mem_cons_self ..)).1
  | removeDir =>
    obtain ⟨rfl, rfl, -⟩ := Syscall.unlinkat.inj (Option.some.inj hcall)
    exact Or.inr rfl
  | _ => cases hcall

end Answers

/-! ## What is removed -/

namespace Rmtree

variable {path : ℕ × Str} {root : ℕ} {s₀ s s' : Rmtree} {rest rest' : ℕ → ℕ} {deadline : Bool}

/-- A call of `rmtree` is about to begin; the path names a finite tree, or nothing. -/
structure Ready (path : ℕ × Str) (root : ℕ) (s : Rmtree) : Prop where
  /-- a directory, if there is something -/
  target : ∀ x, s.fs.entry path.1 path.2 = some x → x = .dir root
  /-- by its name -/
  named : isDots path.2 = false
  /-- the name is not in the tree -/
  outside : ¬s.fs.Inside root path.1
  /-- no name is `.` or `..` -/
  proper : ProperNames s.fs
  /-- the tree is finite -/
  finite : s.fs.FiniteTree root
  /-- nothing is done -/
  point : s.point = .stat
  /-- nothing is counted -/
  deleted : s.deleted = 0
  /-- nothing is removed -/
  removed : s.removed = []

/-- What is removed is a part of the tree, and the program knows nothing but the tree. -/
structure Pruned (path : ℕ × Str) (root : ℕ) (s₀ s : Rmtree) : Prop where
  /-- names of the tree are gone, those of things that are no directories are counted -/
  prunes : Prunes (s₀.fs.OfTree root path) s₀.fs s.deleted s.fs
  /-- these are the names -/
  removed : ∀ d n, (d, n) ∈ s.removed → s₀.fs.OfTree root path d n
  /-- the directories are in the tree -/
  known : s.point.Known (s₀.fs.Inside root)

theorem Ready.pruned (h : Ready path root s) : Pruned path root s s := by
  refine ⟨h.deleted ▸ .refl, fun d n hmem => ?_, ?_⟩
  · rw [h.removed] at hmem
    cases hmem
  · rw [h.point]
    trivial

/-- **Steps.** -/
theorem Pruned.step (h : Pruned path root s₀ s) (hready : Ready path root s₀)
    (hstep : StepAlone path deadline (s, rest) (s', rest')) : Pruned path root s₀ s' := by
  cases hstep with
  | call hcall hanswer hrest =>
    rename_i c answer fs
    have hproper : ProperNames s.fs := fun d n x hx => hready.proper d n x (h.prunes.part hx)
    have hafter := h.known.resume path
      (fun d n i hd hi => hd.entry (h.prunes.part hi))
      (fun i hi => by
        obtain rfl := DirEntry.dir.inj (hready.target _ (h.prunes.part hi))
        exact .refl) hready.named hcall (hanswer.answers hproper)
    have hpart : ∀ {dir : Handle} {name : Str} {removedir : Bool}, c = .unlinkat dir name removedir →
        s₀.fs.OfTree root path dir.inode name := by
      rintro dir name removedir rfl
      exact h.known.of_unlinkat hcall
    rw [RmtreePoint.resume_deletes hcall]
    refine ⟨?_, fun d n hmem => ?_, hafter⟩
    · cases hanswer with
      | unlink hname hentry hx => exact h.prunes.unlink (hpart rfl) hentry hx
      | rmdir hname hentry hempty => exact h.prunes.rmdir (hpart rfl) hentry hempty
      | _ => exact h.prunes
    · rcases List.mem_append.mp hmem with hnew | hold
      · clear hmem
        cases hanswer with
        | unlink =>
          obtain ⟨rfl, rfl⟩ := Prod.mk.inj (List.mem_singleton.mp hnew)
          exact hpart rfl
        | rmdir =>
          obtain ⟨rfl, rfl⟩ := Prod.mk.inj (List.mem_singleton.mp hnew)
          exact hpart rfl
        | _ => cases hnew
      · exact h.removed d n hold

/-- **Runs.** -/
theorem Pruned.run (hready : Ready path root s₀)
    {t : Rmtree × (ℕ → ℕ)} (hrun : Relation.ReflTransGen (StepAlone path deadline) (s₀, rest) t) :
    Pruned path root s₀ t.1 := by
  induction hrun with
  | refl => exact hready.pruned
  | tail _ hstep ih => exact ih.step hready hstep

end Rmtree

/-! ## What is opened -/

/-- Nothing is opened at a plain point. -/
theorem FdPoint.Plain.not_openat {topfd : Handle} {point : FdPoint} (h : point.Plain)
    (dir : Handle) (name : Str) : FdCall.syscall ⟨topfd, point⟩ ≠ .openat dir name := by
  intro hcall
  cases point with
  | openDir => exact h
  | _ => cases hcall

namespace Rmtree

variable {path : ℕ × Str} {root : ℕ} {s₀ s s' : Rmtree} {rest rest' : ℕ → ℕ} {deadline : Bool}

/-- The next call does not open a symbolic link. -/
def NoLink (path : ℕ × Str) (s : Rmtree) : Prop :=
  ∀ dir name, s.point.syscall path = some (.openat dir name) →
    ∃ i, s.fs.entry dir.inode name = some (.dir i)

/-- The outer calls wait to remove the directories that the inner ones go through. -/
def Waits : RmtreePoint → Prop
  | .calls _ outer => ∀ f ∈ outer, ∃ name entries, f.point = .removeDir name entries
  | _ => True

/-- What `fstatat` says is a directory is one. -/
theorem entry_of_stat {fs fs' : FileSystem} {dir : Handle} {name : Str} {st : Stat}
    (hanswer : AnswersAlone rest deadline fs (.fstatat dir name) (.stat st) fs')
    (hname : isDots name = false) (hdir : st.isDir = true) :
    ∃ i, fs'.entry dir.inode name = some (.dir i) := by
  cases hanswer with
  | fstatat hdots hentry hrest =>
    rename_i x inode r
    cases x with
    | dir i => exact ⟨i, hentry⟩
    | symlink => cases hdir
    | other => cases hdir
  | fstatatDots hdots => cases hname.symm.trans hdots

/-- **Steps.** -/
theorem noLink_step {K : ℕ → Prop} (hknown : s.point.Known K) (hwaits : Waits s.point)
    (hnamed : isDots path.2 = false) (hstep : StepAlone path deadline (s, rest) (s', rest')) :
    NoLink path s' ∧ Waits s'.point := by
  cases hstep with
  | call hcall hanswer hrest =>
    rename_i c answer fs
    obtain ⟨fs₁, point, deleted, removed⟩ := s
    cases point with
    | stat =>
      obtain rfl := Option.some.inj hcall
      cases answer with
      | stat orig_stat =>
        dsimp only [RmtreePoint.resume]
        split
        · rename_i hdir
          refine ⟨fun dir name hopen => ?_, trivial⟩
          obtain ⟨rfl, rfl⟩ := Syscall.openat.inj (Option.some.inj hopen)
          exact entry_of_stat hanswer hnamed hdir
        · exact ⟨fun _ _ hopen => (by cases hopen), trivial⟩
      | _ => exact ⟨fun _ _ hopen => (by cases hopen), trivial⟩
    | openDir orig_stat =>
      cases answer <;> exact ⟨fun _ _ hopen => (by cases hopen), trivial⟩
    | compare orig_stat dirfd =>
      cases answer with
      | stat new_stat =>
        dsimp only [RmtreePoint.resume]
        split
        · exact ⟨fun _ _ hopen => (by cases hopen), fun f hf => (by cases hf)⟩
        · exact ⟨fun _ _ hopen => (by cases hopen), trivial⟩
      | _ => exact ⟨fun _ _ hopen => (by cases hopen), trivial⟩
    | close dirfd => exact ⟨fun _ _ hopen => (by cases hopen), trivial⟩
    | removeDir => exact ⟨fun _ _ hopen => (by cases hopen), trivial⟩
    | done => cases hcall
    | calls f outer =>
      obtain rfl := Option.some.inj hcall
      have hself : f.Known K := hknown f (List.mem_cons_self ..)
      have hcases := f.resume_cases answer
      obtain ⟨topfd, point⟩ := f
      dsimp only [RmtreePoint.resume]
      rcases hcases with ⟨point', heq, hplain⟩ | ⟨name, st, entries, rfl, rfl, hdir, heq⟩ |
        ⟨name, st, dirfd, entries, rfl, rfl, heq⟩ | ⟨name, st, dirfd, entries, rfl, rfl, heq⟩ | heq
      · rw [heq]
        exact ⟨fun dir name hopen => absurd (Option.some.inj hopen) (hplain.not_openat dir name), hwaits⟩
      · rw [heq]
        refine ⟨fun dir name' hopen => ?_, hwaits⟩
        obtain ⟨rfl, rfl⟩ := Syscall.openat.inj (Option.some.inj hopen)
        exact entry_of_stat hanswer hself.2 hdir
      · rw [heq]
        exact ⟨fun _ _ hopen => (by cases hopen), hwaits⟩
      · rw [heq]
        refine ⟨fun _ _ hopen => (by cases hopen), fun f' hf' => ?_⟩
        rcases List.mem_cons.mp hf' with rfl | hf'
        · exact ⟨name, entries, rfl⟩
        · exact hwaits f' hf'
      · rw [heq]
        cases outer with
        | nil => exact ⟨fun _ _ hopen => (by cases hopen), trivial⟩
        | cons f' outer' =>
          obtain ⟨name, entries, hpoint⟩ := hwaits f' (List.mem_cons_self ..)
          obtain ⟨topfd', point'⟩ := f'
          subst hpoint
          exact ⟨fun _ _ hopen => (by cases hopen),
            fun f'' hf'' => hwaits f'' (List.mem_cons_of_mem _ hf'')⟩

/-- **No link is followed.** -/
theorem noLink_run (hready : Ready path root s₀)
    {t : Rmtree × (ℕ → ℕ)} (hrun : Relation.ReflTransGen (StepAlone path deadline) (s₀, rest) t) :
    NoLink path t.1 ∧ Waits t.1.point := by
  induction hrun with
  | refl =>
    refine ⟨fun dir name hopen => ?_, ?_⟩
    · rw [hready.point] at hopen
      cases hopen
    · rw [hready.point]
      trivial
  | tail hrun hstep ih => exact noLink_step (Pruned.run hready hrun).known ih.2 hready.named hstep

end Rmtree

end HpcWorkspace
