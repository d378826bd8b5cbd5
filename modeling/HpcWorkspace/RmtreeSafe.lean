import HpcWorkspace.Rmtree

/-!
# `rmtree` stays in its tree

What is outside of the tree stays outside, as nobody else writes there. So the inode number of a
directory that `rmtree` looked at is not the number of one outside, and what it opened has the same
number when it compares equal. All that is removed is removed from directories like that, but for
the name of the tree itself.
-/

namespace HpcWorkspace

open DirGraph (Inside Writes)

/-- A directory that exists when the call begins, and is not part of the tree. -/
def Outside (root : ℕ) (fs : FileSystem) (d : ℕ) : Prop := fs.live d ∧ ¬fs.Inside root d

namespace Rmtree

/-- Nothing is removed outside of the tree. -/
structure TamperProof (path : ℕ × Str) (root : ℕ) (s₀ s : Rmtree) : Prop where
  /-- a name that is removed was in a directory of the tree -/
  within : ∀ d n, (d, n) ∈ s.removed → WasPart path root s₀ s d
  /-- directories outside of the tree keep their names -/
  outside : ∀ d n x, Outside root s₀.fs d → s₀.fs.entry d n = some x → s.fs.entry d n = some x

/-- Nothing is removed outside of the tree, but for the name of the tree: by the last call, when the
tree is empty. -/
structure TamperProofBelow (path : ℕ × Str) (root : ℕ) (s₀ s : Rmtree) : Prop where
  /-- another name that is removed was in a directory of the tree -/
  within : ∀ d n, (d, n) ∈ s.removed → (d, n) ≠ path → WasPart path root s₀ s d
  /-- directories outside of the tree keep all other names, and get no new ones -/
  outside : ∀ d n, Outside root s₀.fs d → (d, n) ≠ path → s.fs.entry d n = s₀.fs.entry d n
  /-- the name of the tree stays and is not removed; or it is removed after all others and once,
  `rmtree` is at its end, and the tree is empty -/
  name : s.fs.entry path.1 path.2 = some (.dir root) ∧ path ∉ s.removed ∨
    (∃ before, s.removed = path :: before ∧ path ∉ before) ∧ s.point = .done ∧ s.fs.Empty root

end Rmtree

/-! ## The file system -/

/-- The file system while the tree is there. -/
structure TreeKept (path : ℕ × Str) (root : ℕ) (fs₀ fs : FileSystem) : Prop where
  /-- it is well-formed -/
  wellFormed : fs.WellFormed
  /-- what is outside exists -/
  live : ∀ d, Outside root fs₀ d → fs.live d
  /-- nothing in the tree leads there -/
  child : ∀ d n i, ¬Outside root fs₀ d → fs.entry d n = some (.dir i) → ¬Outside root fs₀ i
  /-- all other directories are in the tree -/
  inside : ∀ d, fs.live d → ¬Outside root fs₀ d → fs.Inside root d
  /-- the names outside are as before -/
  frame : ∀ d n, Outside root fs₀ d → fs.entry d n = fs₀.entry d n
  /-- the tree has its name -/
  entry : fs.entry path.1 path.2 = some (.dir root)

namespace TreeKept

variable {path : ℕ × Str} {root : ℕ} {fs₀ fs fs' : FileSystem} {d : ℕ}

/-- The tree is not outside. -/
theorem not_outside (h : TreeKept path root fs₀ fs) (hin : fs.Inside root d) :
    ¬Outside root fs₀ d :=
  hin.induct (P := fun d => ¬Outside root fs₀ d) (fun hout => hout.2 Relation.ReflTransGen.refl)
    fun d i hd hc => by
      obtain ⟨n, hn⟩ := hc
      exact h.child d n i hd hn

/-- **Changes in the tree.** They keep it apart from what is outside. -/
theorem writes {P : ℕ → Prop} (h : TreeKept path root fs₀ fs) (hpath : Outside root fs₀ path.1)
    (hP : ∀ d, P d → ¬Outside root fs₀ d) (hw : fs.Writes P fs') : TreeKept path root fs₀ fs' := by
  have hlive : ∀ d, Outside root fs₀ d → fs'.live d := by
    intro d hd
    by_contra hgone
    obtain ⟨a, n, ha, hentry⟩ := hw.of_not_live (h.live d hd) hgone
    exact h.child a n d (hP a ha) hentry hd
  have hkept : ∀ d, fs.live d → ¬Outside root fs₀ d → fs'.live d → fs'.Inside root d :=
    fun d hd hout hd' => hw.inside h.wellFormed (fun a ha hlive => h.inside a hlive (hP a ha))
      (h.inside d hd hout) hd'
  refine ⟨hw.wellFormed h.wellFormed, hlive, fun d n i hd hentry => ?_, fun d hd hout => ?_,
    fun d n hd => ?_, ?_⟩
  · rcases hw.of_entry hentry with hold | ⟨-, ⟨a, m, ha, hold⟩ | hnew⟩
    · exact h.child d n i hd hold
    · exact h.child a m i (hP a ha) hold
    · exact fun hout => hnew (h.live i hout)
  · rcases hw.of_live hd with hold | ⟨a, n, ha, hlive, hentry⟩
    · exact hkept d hold hout hd
    · have hlive' : fs'.live a := (hw.wellFormed h.wellFormed).holds hentry
      exact (hkept a hlive (hP a ha) hlive').entry hentry
  · exact (hw.entry_eq (fun hPd => hP d hPd hd) n).trans (h.frame d n hd)
  · exact (hw.entry_eq (fun hPd => hP _ hPd hpath) _).trans h.entry

end TreeKept

/-! ## What a call goes on with -/

/-- A point that needs no other descriptor than `topfd`. -/
def FdPoint.Plain : FdPoint → Prop
  | .stat name _ => isDots name = false
  | .openDir .. => False
  | .compare .. => False
  | _ => True

theorem plain_nextEntry (entries : List (Str × DType)) : (nextEntry entries).Plain := by
  induction entries with
  | nil => trivial
  | cons ent entries ih =>
    obtain ⟨name, type⟩ := ent
    cases type with
    | dir =>
      rw [nextEntry]
      split
      · exact ih
      · rename_i hdots
        exact Bool.eq_false_iff.mpr hdots
    | unknown => trivial
    | other => trivial

/-- A call goes on at a plain point; it opens what it saw to be a directory, compares what it opened,
and goes through it when it is the same; or it is at its end. -/
theorem FdCall.resume_cases (f : FdCall) (answer : Answer) :
    (∃ point, (f.resume answer).1 = [⟨f.topfd, point⟩] ∧ point.Plain) ∨
    (∃ name st entries, f.point = .stat name entries ∧ answer = .stat st ∧ st.isDir = true ∧
      (f.resume answer).1 = [⟨f.topfd, .openDir name st entries⟩]) ∨
    (∃ name st dirfd entries, f.point = .openDir name st entries ∧ answer = .fd dirfd ∧
      (f.resume answer).1 = [⟨f.topfd, .compare name st dirfd entries⟩]) ∨
    (∃ name st dirfd entries, f.point = .compare name st dirfd entries ∧ answer = .stat st ∧
      (f.resume answer).1 = [⟨dirfd, .collect⟩, ⟨f.topfd, .removeDir name entries⟩]) ∨
    (f.resume answer).1 = [] := by
  obtain ⟨topfd, point⟩ := f
  have hnext : ∀ entries, ∃ point, [(⟨topfd, nextEntry entries⟩ : FdCall)] = [⟨topfd, point⟩] ∧
      point.Plain := fun entries => ⟨_, rfl, plain_nextEntry entries⟩
  cases point with
  | collect =>
    cases answer with
    | entries entries => exact Or.inl (hnext entries)
    | _ => exact Or.inl ⟨.closeTop, rfl, trivial⟩
  | resolve name entries =>
    cases answer with
    | stat st =>
      dsimp only [FdCall.resume]
      split
      · split
        · exact Or.inl (hnext entries)
        · rename_i hdots
          exact Or.inl ⟨.stat name entries, rfl, Bool.eq_false_iff.mpr hdots⟩
      · exact Or.inl ⟨.unlink name entries, rfl, trivial⟩
    | _ => exact Or.inl ⟨.unlink name entries, rfl, trivial⟩
  | stat name entries =>
    cases answer with
    | stat st =>
      dsimp only [FdCall.resume]
      split
      · rename_i hdir
        exact Or.inr (Or.inl ⟨name, st, entries, rfl, rfl, hdir, rfl⟩)
      · exact Or.inl (hnext entries)
    | _ => exact Or.inl (hnext entries)
  | openDir name st entries =>
    cases answer with
    | fd dirfd => exact Or.inr (Or.inr (Or.inl ⟨name, st, dirfd, entries, rfl, rfl, rfl⟩))
    | _ => exact Or.inl (hnext entries)
  | compare name st dirfd entries =>
    cases answer with
    | stat new_stat =>
      dsimp only [FdCall.resume]
      split
      · rename_i heq
        exact Or.inr (Or.inr (Or.inr (Or.inl
          ⟨name, st, dirfd, entries, rfl, congrArg Answer.stat heq, rfl⟩)))
      · exact Or.inl ⟨.close dirfd entries, rfl, trivial⟩
    | _ => exact Or.inl ⟨.close dirfd entries, rfl, trivial⟩
  | close dirfd entries => exact Or.inl (hnext entries)
  | removeDir name entries => exact Or.inl (hnext entries)
  | unlink name entries => cases answer <;> exact Or.inl (hnext entries)
  | closeTop => exact Or.inr (Or.inr (Or.inr (Or.inr rfl)))

/-! ## The descriptors -/

section Known

variable {K K' : ℕ → Prop}

/-- A call of `rmtree_fd` works with directories of a kind. -/
def FdCall.Known (K : ℕ → Prop) (f : FdCall) : Prop :=
  K f.topfd.inode ∧
    match f.point with
    | .stat name _ => isDots name = false
    | .openDir _ orig_stat _ => K orig_stat.inode
    | .compare _ orig_stat _ _ => K orig_stat.inode
    | _ => True

/-- The same for the whole program. -/
def RmtreePoint.Known (K : ℕ → Prop) : RmtreePoint → Prop
  | .openDir orig_stat => K orig_stat.inode
  | .compare orig_stat _ => K orig_stat.inode
  | .calls f outer => ∀ f' ∈ f :: outer, f'.Known K
  | _ => True

theorem FdCall.Known.mono {f : FdCall} (h : f.Known K) (hK : ∀ d, K d → K' d) : f.Known K' := by
  obtain ⟨topfd, point⟩ := f
  obtain ⟨htop, hpoint⟩ := h
  refine ⟨hK _ htop, ?_⟩
  cases point with
  | stat name entries => exact hpoint
  | openDir name orig_stat entries => exact hK _ hpoint
  | compare name orig_stat dirfd entries => exact hK _ hpoint
  | _ => trivial

theorem RmtreePoint.Known.mono {p : RmtreePoint} (h : p.Known K) (hK : ∀ d, K d → K' d) :
    p.Known K' := by
  cases p with
  | openDir orig_stat => exact hK _ h
  | compare orig_stat dirfd => exact hK _ h
  | calls f outer => exact fun f' hf' => (h f' hf').mono hK
  | _ => trivial

/-- Plain points know `topfd` only. -/
theorem FdPoint.Plain.known {topfd : Handle} {point : FdPoint} (h : point.Plain)
    (htop : K topfd.inode) : FdCall.Known K ⟨topfd, point⟩ := by
  refine ⟨htop, ?_⟩
  cases point with
  | stat name entries => exact h
  | openDir => exact h.elim
  | compare => exact h.elim
  | _ => trivial

/-- What an answer leads to: the kind contains what is in its directories. -/
theorem FdCall.Known.resume {f : FdCall} {fs fs' : FileSystem} {answer : Answer} (h : f.Known K)
    (hK : ∀ d n i, K d → fs.entry d n = some (.dir i) → K i)
    (hanswer : Answers fs f.syscall answer fs') : ∀ f' ∈ (f.resume answer).1, f'.Known K := by
  have hcases := f.resume_cases answer
  obtain ⟨topfd, point⟩ := f
  obtain ⟨htop, hpoint⟩ := h
  intro f' hf'
  rcases hcases with ⟨point', heq, hplain⟩ | ⟨name, st, entries, rfl, rfl, hdir, heq⟩ |
    ⟨name, st, dirfd, entries, rfl, rfl, heq⟩ | ⟨name, st, dirfd, entries, rfl, rfl, heq⟩ | heq
  · rw [heq, List.mem_singleton] at hf'
    exact hf' ▸ hplain.known htop
  · rw [heq, List.mem_singleton] at hf'
    subst hf'
    refine ⟨htop, ?_⟩
    -- the name is that of a directory in `topfd`
    cases hanswer with
    | fstatat hname hentry =>
      rename_i x inode rest
      cases x with
      | dir i => exact hK _ _ _ htop hentry
      | symlink => cases hdir
      | other => cases hdir
    | fstatatDots hname => cases (hpoint : isDots name = false).symm.trans hname
  · rw [heq, List.mem_singleton] at hf'
    exact hf' ▸ ⟨htop, hpoint⟩
  · rw [heq, List.mem_cons, List.mem_singleton] at hf'
    rcases hf' with rfl | rfl
    · -- what was opened has the number of what was looked at
      cases hanswer with
      | fstat => exact ⟨hpoint, trivial⟩
    · exact ⟨htop, trivial⟩
  · rw [heq] at hf'
    cases hf'

/-- The same for the whole program: the kind contains the tree too. -/
theorem RmtreePoint.Known.resume {p : RmtreePoint} (path : ℕ × Str) {fs fs' : FileSystem}
    {c : Syscall} {answer : Answer} (h : p.Known K)
    (hK : ∀ d n i, K d → fs.entry d n = some (.dir i) → K i)
    (hpath : ∀ i, fs.entry path.1 path.2 = some (.dir i) → K i) (hnamed : isDots path.2 = false)
    (hcall : p.syscall path = some c) (hanswer : Answers fs c answer fs') :
    (p.resume answer).1.Known K := by
  cases p with
  | stat =>
    obtain rfl := Option.some.inj hcall
    cases hanswer with
    | error => trivial
    | fstatat hname hentry =>
      rename_i x inode rest
      cases x with
      | dir i => exact hpath i hentry
      | symlink => trivial
      | other => trivial
    | fstatatDots hname => cases hnamed.symm.trans hname
  | openDir orig_stat =>
    cases answer with
    | fd dirfd => exact h
    | _ => trivial
  | compare orig_stat dirfd =>
    obtain rfl := Option.some.inj hcall
    cases answer with
    | stat new_stat =>
      dsimp only [RmtreePoint.resume]
      split
      · rename_i heq
        subst heq
        cases hanswer with
        | fstat =>
          intro f hf
          rw [List.mem_singleton.mp hf]
          exact ⟨h, trivial⟩
      · trivial
    | _ => trivial
  | calls f outer =>
    obtain rfl := Option.some.inj hcall
    have hall : ∀ f' ∈ (f.resume answer).1 ++ outer, f'.Known K := by
      intro f' hf'
      rcases List.mem_append.mp hf' with hf' | hf'
      · exact (h f (List.mem_cons_self ..)).resume hK hanswer f' hf'
      · exact h f' (List.mem_cons_of_mem _ hf')
    dsimp only [RmtreePoint.resume]
    cases hcalls : (f.resume answer).1 ++ outer with
    | nil => trivial
    | cons f' outer' => exact fun f'' hf'' => hall f'' (hcalls ▸ hf'')
  | close dirfd => trivial
  | removeDir => trivial
  | done => cases hcall

end Known

/-! ## The calls -/

/-- A call leaves the file system as it is, or removes a name from a directory. -/
theorem Answers.cases_fs {fs fs' : FileSystem} {c : Syscall} {answer : Answer}
    (h : Answers fs c answer fs') :
    (fs' = fs ∧ removes c answer = []) ∨ ∃ dir name removedir, c = .unlinkat dir name removedir ∧
      answer = .ok ∧ fs.Writes (· = dir.inode) fs' := by
  cases h with
  | unlink hname hentry hx => exact Or.inr ⟨_, _, _, rfl, rfl, .unlink rfl hentry hx⟩
  | rmdir hname hentry hempty => exact Or.inr ⟨_, _, _, rfl, rfl, .rmdir rfl hentry hempty⟩
  | error =>
    refine Or.inl ⟨rfl, ?_⟩
    cases c <;> rfl
  | _ => exact Or.inl ⟨rfl, rfl⟩

/-- Only `unlinkat` removes something. -/
theorem Answers.of_not_unlinkat {fs fs' : FileSystem} {c : Syscall} {answer : Answer}
    (h : Answers fs c answer fs') (hc : ∀ dir name removedir, c ≠ .unlinkat dir name removedir) :
    fs' = fs ∧ removes c answer = [] := by
  rcases h.cases_fs with hsame | ⟨dir, name, removedir, hcall, -⟩
  · exact hsame
  · exact absurd hcall (hc dir name removedir)

/-- `rmtree_fd` removes names of `topfd`. -/
theorem FdCall.of_unlinkat {f : FdCall} {dir : Handle} {name : Str} {removedir : Bool}
    (h : f.syscall = .unlinkat dir name removedir) : dir = f.topfd := by
  obtain ⟨topfd, point⟩ := f
  cases point with
  | removeDir => exact (Syscall.unlinkat.inj h).1.symm
  | unlink => exact (Syscall.unlinkat.inj h).1.symm
  | _ => cases h

/-! ## Runs -/

namespace Rmtree

variable {path : ℕ × Str} {root : ℕ} {s₀ s s' : Rmtree} {d : ℕ}

/-- A directory that `rmtree` may know. -/
def Knows (path : ℕ × Str) (root : ℕ) (s₀ s : Rmtree) (d : ℕ) : Prop :=
  ¬Outside root s₀.fs d ∧ WasPart path root s₀ s d

/-- The state while the tree is there. -/
structure Working (path : ℕ × Str) (root : ℕ) (s₀ s : Rmtree) : Prop where
  /-- it is reached by a run -/
  run : Run path root s₀ s
  /-- the tree is kept apart -/
  kept : TreeKept path root s₀.fs s.fs
  /-- what is known was part of it -/
  known : s.point.Known (Knows path root s₀ s)
  /-- what was removed, too -/
  removed : ∀ d n, (d, n) ∈ s.removed → WasPart path root s₀ s d

/-- The state after the tree was removed. -/
structure Finished (path : ℕ × Str) (root : ℕ) (s₀ s : Rmtree) : Prop where
  /-- the program is at its end -/
  point : s.point = .done
  /-- nothing is left of the tree -/
  empty : s.fs.Empty root
  /-- nor the directory itself -/
  gone : ¬s.fs.live root
  /-- the other names outside are as before -/
  frame : ∀ d n, Outside root s₀.fs d → (d, n) ≠ path → s.fs.entry d n = s₀.fs.entry d n
  /-- its name was removed last, and what was removed before was part of the tree -/
  removed : ∃ before, s.removed = path :: before ∧
    ∀ d n, (d, n) ∈ before → WasPart path root s₀ s d

theorem WasPart.mono (h : WasPart path root s₀ s d) (hstep : Step path root s s') :
    WasPart path root s₀ s' d := by
  obtain ⟨s₁, hbefore, hafter, hpart⟩ := h
  exact ⟨s₁, hbefore, hafter.tail hstep, hpart⟩

theorem Knows.mono (h : Knows path root s₀ s d) (hstep : Step path root s s') :
    Knows path root s₀ s' d := ⟨h.1, h.2.mono hstep⟩

/-- A directory in the tree is known, once it is seen. -/
theorem Working.knows (h : Working path root s₀ s) (hlive : s.fs.live d)
    (hout : ¬Outside root s₀.fs d) : Knows path root s₀ s d :=
  ⟨hout, s, h.run, .refl, hlive, h.kept.inside d hlive hout⟩

/-- So is what is in a directory that is known. -/
theorem Working.knows_child (h : Working path root s₀ s) {n : Str} {i : ℕ}
    (hd : Knows path root s₀ s d) (hentry : s.fs.entry d n = some (.dir i)) :
    Knows path root s₀ s i :=
  h.knows (h.kept.wellFormed.child hentry) (h.kept.child d n i hd.1 hentry)

/-- Where the tree has its name is outside. -/
theorem Begins.outside_path (h : Begins path root s₀) : Outside root s₀.fs path.1 :=
  ⟨h.wellFormed.holds h.entry, h.outside⟩

theorem Begins.working (h : Begins path root s₀) : Working path root s₀ s₀ := by
  refine ⟨.refl, ⟨h.wellFormed, fun d hd => hd.1, fun d n i hd hentry hout => ?_,
    fun d hlive hd => ?_, fun d n _ => rfl, h.entry⟩, ?_, fun d n hmem => ?_⟩
  · refine hd ⟨h.wellFormed.holds hentry, fun hin => hout.2 (hin.entry hentry)⟩
  · by_contra hin
    exact hd ⟨hlive, hin⟩
  · rw [h.point]
    trivial
  · rw [h.removed] at hmem
    cases hmem

/-- Other processes do not take the tree away. -/
theorem Working.tamper (h : Working path root s₀ s) (hpath : Outside root s₀.fs path.1)
    {fs : FileSystem} (hwrites : s.fs.Writes (fun d => s.fs.live d ∧ s.fs.Inside root d) fs) :
    Working path root s₀ { s with fs := fs } := by
  have hstep : Step path root s { s with fs := fs } := .tamper hwrites
  exact ⟨h.run.tail hstep, h.kept.writes hpath (fun d hd => h.kept.not_outside hd.2) hwrites,
    h.known.mono fun d hd => hd.mono hstep, fun d n hmem => (h.removed d n hmem).mono hstep⟩

/-- Nor is there anything to change after it was removed. -/
theorem Finished.not_step (h : Finished path root s₀ s) : ¬Step path root s s' := by
  intro hstep
  cases hstep with
  | call hcall =>
    rw [h.point] at hcall
    cases hcall
  | tamper hwrites =>
    obtain ⟨d, hlive, hin⟩ := hwrites.exists_mem
    obtain rfl := h.empty.eq_of_inside hin
    exact h.gone hlive

/-- A step that changes nothing but the point. -/
theorem Working.goOn (h : Working path root s₀ s) (hstep : Step path root s s')
    (hfs : s'.fs = s.fs) (hremoved : s'.removed = s.removed)
    (hknown : s'.point.Known (Knows path root s₀ s)) : Working path root s₀ s' :=
  ⟨h.run.tail hstep, hfs ▸ h.kept, hknown.mono fun _ hd => hd.mono hstep, fun d n hmem =>
    (h.removed d n (hremoved ▸ hmem)).mono hstep⟩

/-- The calls of `rmtree_fd`. -/
theorem Working.calls (h : Working path root s₀ s) (hpath : Outside root s₀.fs path.1)
    {f : FdCall} {outer : List FdCall} (hpoint : s.point = .calls f outer) {answer : Answer}
    {fs : FileSystem} (hanswer : Answers s.fs f.syscall answer fs)
    (hstep : Step path root s s') (hfs : s'.fs = fs)
    (hremoved : s'.removed = removes f.syscall answer ++ s.removed)
    (hafter : s'.point.Known (Knows path root s₀ s)) : Working path root s₀ s' := by
  have hknown := h.known
  rw [hpoint] at hknown
  have htop : f.Known (Knows path root s₀ s) := hknown f (List.mem_cons_self ..)
  rcases hanswer.cases_fs with ⟨heq, hnone⟩ | ⟨dir, name, removedir, hcall, hok, hwrites⟩
  · exact h.goOn hstep (hfs.trans heq) (by rw [hremoved, hnone, List.nil_append]) hafter
  · obtain rfl := FdCall.of_unlinkat hcall
    refine ⟨h.run.tail hstep, hfs ▸ h.kept.writes hpath ?_ hwrites,
      hafter.mono fun d hd => hd.mono hstep, fun d n hmem => ?_⟩
    · rintro _ rfl
      exact htop.1.1
    · rw [hremoved, hcall, hok] at hmem
      rcases List.mem_cons.mp hmem with heq | hmem
      · rw [(Prod.mk.inj heq).1]
        exact htop.1.2.mono hstep
      · exact (h.removed d n hmem).mono hstep

/-- The last call removes the tree. -/
theorem Working.finished (h : Working path root s₀ s) (hbegins : Begins path root s₀)
    {deleted : ℕ} {point : RmtreePoint} {removed : List (ℕ × Str)}
    (hstep : Step path root s ⟨(s.fs.set path.1 path.2 none).drop root, point, deleted, removed⟩)
    (hpoint : point = .done) (hremoved : removed = path :: s.removed) (hempty : s.fs.Empty root) :
    Finished path root s₀
      ⟨(s.fs.set path.1 path.2 none).drop root, point, deleted, removed⟩ := by
  have hother : ∀ {d n}, (d, n) ≠ path →
      (s.fs.set path.1 path.2 none).entry d n = s.fs.entry d n := by
    intro d n hne
    refine DirGraph.set_entry_ne _ ?_
    rintro ⟨rfl, rfl⟩
    exact hne rfl
  refine ⟨hpoint, fun n => ?_, fun hlive => hlive.1 rfl, fun d n hd hne => ?_,
    s.removed, hremoved, fun d n hmem => (h.removed d n hmem).mono hstep⟩
  · refine (hother ?_).trans (hempty n)
    rintro rfl
    exact hbegins.outside .refl
  · exact (hother hne).trans (h.kept.frame d n hd)

/-- **Steps.** The tree is kept apart until it is removed. -/
theorem Working.step (h : Working path root s₀ s) (hbegins : Begins path root s₀)
    (hstep : Step path root s s') : Working path root s₀ s' ∨ Finished path root s₀ s' := by
  obtain ⟨fs₁, point, deleted, removed⟩ := s
  have hpath := hbegins.outside_path
  have hlook : fs₁.entry path.1 path.2 = some (.dir root) := h.kept.entry
  have hnext := hstep
  cases hstep with
  | tamper hwrites => exact Or.inl (h.tamper hpath hwrites)
  | call hcall hanswer =>
    rename_i c answer fs
    have hafter := h.known.resume path (fun d n i hd hentry => h.knows_child hd hentry)
      (fun i hi => h.knows (h.kept.wellFormed.child hi)
        (DirEntry.dir.inj (Option.some.inj (hlook.symm.trans hi)) ▸ h.kept.not_outside .refl))
      hbegins.named hcall hanswer
    have hlooks : (∀ dir name removedir, c ≠ .unlinkat dir name removedir) →
        Working path root s₀ ⟨fs, (point.resume answer).1, deleted + (point.resume answer).2,
          removes c answer ++ removed⟩ := by
      intro hc
      obtain ⟨rfl, hnone⟩ := hanswer.of_not_unlinkat hc
      exact h.goOn hnext rfl (by rw [hnone, List.nil_append]) hafter
    cases point with
    | calls f outer =>
      obtain rfl := Option.some.inj hcall
      exact Or.inl (h.calls hpath rfl hanswer hnext rfl rfl hafter)
    | removeDir =>
      obtain rfl := Option.some.inj hcall
      cases hanswer with
      | error => exact Or.inl (h.goOn hnext rfl rfl trivial)
      | rmdir hname hentry hempty =>
        obtain rfl := DirEntry.dir.inj (Option.some.inj (hlook.symm.trans hentry))
        exact Or.inr (h.finished hbegins hnext rfl rfl hempty)
    | done => cases hcall
    | _ =>
      obtain rfl := Option.some.inj hcall
      exact Or.inl (hlooks fun _ _ _ heq => by cases heq)

/-- **Runs.** -/
theorem Begins.run (h : Begins path root s₀) (hrun : Run path root s₀ s) :
    Working path root s₀ s ∨ Finished path root s₀ s := by
  induction hrun with
  | refl => exact Or.inl h.working
  | tail _ hstep ih =>
    rcases ih with hworking | hfinished
    · exact hworking.step h hstep
    · exact absurd hstep hfinished.not_step

/-- What was part of the tree is not outside. -/
theorem Begins.not_outside (h : Begins path root s₀) (hpart : WasPart path root s₀ s d) :
    ¬Outside root s₀.fs d := by
  obtain ⟨s₁, hbefore, -, hlive, hin⟩ := hpart
  rcases h.run hbefore with hworking | hfinished
  · exact hworking.kept.not_outside hin
  · obtain rfl := hfinished.empty.eq_of_inside hin
    exact absurd hlive hfinished.gone

/-- So the name of the tree is not among the names of such directories. -/
theorem Begins.path_not_mem (h : Begins path root s₀) {removed : List (ℕ × Str)}
    (hparts : ∀ d n, (d, n) ∈ removed → WasPart path root s₀ s d) : path ∉ removed :=
  fun hmem => h.not_outside (hparts path.1 path.2 hmem) h.outside_path

/-- **Tampering.** Whatever another process does inside of the tree between the system calls of
`rmtree`, the names that are removed are those of directories that were part of the tree, but for
the name of the tree, which goes last, and only when the tree is empty; and what is outside is as
before. -/
theorem tamperProofBelow (h : Begins path root s₀) (hrun : Run path root s₀ s) :
    TamperProofBelow path root s₀ s := by
  rcases h.run hrun with hworking | hfinished
  · exact ⟨fun d n hmem _ => hworking.removed d n hmem, fun d n hd _ => hworking.kept.frame d n hd,
      Or.inl ⟨hworking.kept.entry, h.path_not_mem hworking.removed⟩⟩
  · obtain ⟨before, hremoved, hparts⟩ := hfinished.removed
    refine ⟨fun d n hmem hne => ?_, hfinished.frame,
      Or.inr ⟨⟨before, hremoved, h.path_not_mem hparts⟩, hfinished.point, hfinished.empty⟩⟩
    rw [hremoved] at hmem
    exact hparts d n (List.mem_of_ne_of_mem hne hmem)

/-- The directory `x` with a file, a symbolic link and an empty directory. -/
def smallTree : FileSystem where
  entry d n :=
    if d = 0 ∧ n = ['x'] then some (.dir 1)
    else if d = 1 ∧ n = ['f'] then some .other
    else if d = 1 ∧ n = ['l'] then some .symlink
    else if d = 1 ∧ n = ['d'] then some (.dir 2)
    else none
  live d := d = 0 ∨ d = 1 ∨ d = 2

/-- `rmtree` is called with it. -/
def removingSmall : Rmtree := ⟨smallTree, .stat, 0, []⟩

theorem smallTree_entry {d : ℕ} {n : Str} {x : DirEntry ℕ} (h : smallTree.entry d n = some x) :
    (d = 0 ∧ n = ['x'] ∧ x = .dir 1) ∨ (d = 1 ∧ n = ['f'] ∧ x = .other) ∨
      (d = 1 ∧ n = ['l'] ∧ x = .symlink) ∨ (d = 1 ∧ n = ['d'] ∧ x = .dir 2) := by
  dsimp only [smallTree] at h
  split_ifs at h with hx hf hl hd
  · exact Or.inl ⟨hx.1, hx.2, (Option.some.inj h).symm⟩
  · exact Or.inr (Or.inl ⟨hf.1, hf.2, (Option.some.inj h).symm⟩)
  · exact Or.inr (Or.inr (Or.inl ⟨hl.1, hl.2, (Option.some.inj h).symm⟩))
  · exact Or.inr (Or.inr (Or.inr ⟨hd.1, hd.2, (Option.some.inj h).symm⟩))

theorem smallTree_dir {d i : ℕ} {n : Str} (h : smallTree.entry d n = some (.dir i)) :
    (d = 0 ∧ n = ['x'] ∧ i = 1) ∨ (d = 1 ∧ n = ['d'] ∧ i = 2) := by
  rcases smallTree_entry h with ⟨hd, hn, heq⟩ | ⟨-, -, heq⟩ | ⟨-, -, heq⟩ | ⟨hd, hn, heq⟩
  · exact Or.inl ⟨hd, hn, DirEntry.dir.inj heq⟩
  · cases heq
  · cases heq
  · exact Or.inr ⟨hd, hn, DirEntry.dir.inj heq⟩

theorem begins_removingSmall : Begins (0, ['x']) 1 removingSmall := by
  refine ⟨⟨fun h => ?_, fun h => ?_, fun h h' => ?_⟩, rfl, rfl, fun h => ?_, rfl, rfl⟩
  · rcases smallTree_entry h with ⟨hd, -⟩ | ⟨hd, -⟩ | ⟨hd, -⟩ | ⟨hd, -⟩
    · exact Or.inl hd
    · exact Or.inr (Or.inl hd)
    · exact Or.inr (Or.inl hd)
    · exact Or.inr (Or.inl hd)
  · rcases smallTree_dir h with ⟨-, -, hi⟩ | ⟨-, -, hi⟩
    · exact Or.inr (Or.inl hi)
    · exact Or.inr (Or.inr hi)
  · rcases smallTree_dir h with ⟨rfl, rfl, rfl⟩ | ⟨rfl, rfl, rfl⟩ <;>
      rcases smallTree_dir h' with ⟨rfl, rfl, heq⟩ | ⟨rfl, rfl, heq⟩
    · exact ⟨rfl, rfl⟩
    · cases heq
    · cases heq
    · exact ⟨rfl, rfl⟩
  · have hpart : (0 : ℕ) = 1 ∨ (0 : ℕ) = 2 := by
      refine h.induct (P := fun d => d = 1 ∨ d = 2) (Or.inl rfl) fun d i _ hc => ?_
      obtain ⟨n, hn⟩ := hc
      exact (smallTree_dir hn).imp (fun hi => hi.2.2) fun hi => hi.2.2
    rcases hpart with heq | heq <;> cases heq

/-- A system call, with its answer. -/
theorem Step.answered {c : Syscall} {fs : FileSystem} (answer : Answer)
    (hcall : s.point.syscall path = some c) (hanswer : Answers s.fs c answer fs)
    (hs' : s' = ⟨fs, (s.point.resume answer).1, s.deleted + (s.point.resume answer).2,
      removes c answer ++ s.removed⟩) : Step path root s s' := by
  rw [hs']
  exact .call hcall hanswer

/-- The file and the link are removed. -/
def withoutFiles : FileSystem := (smallTree.set 1 ['f'] none).set 1 ['l'] none

/-- Another process puts a link in the place of the directory. -/
def withLink : FileSystem := ((withoutFiles.set 1 ['d'] none).drop 2).set 1 ['d'] (some .symlink)

theorem withLink_live {a : ℕ} (ha : a < 2) : withLink.live a := by
  refine ⟨Nat.ne_of_lt ha, ?_⟩
  change a = 0 ∨ a = 1 ∨ a = 2
  omega

/-- It removes the link. -/
def withoutLink : FileSystem := withLink.set 1 ['d'] none

theorem withoutLink_empty : withoutLink.Empty 1 := by
  intro n
  by_cases hd : n = ['d']
  · simp [withoutLink, DirGraph.set, hd]
  · by_cases hl : n = ['l']
    · simp [withoutLink, withLink, withoutFiles, DirGraph.set, DirGraph.drop, hl]
    · by_cases hf : n = ['f']
      · simp [withoutLink, withLink, withoutFiles, DirGraph.set, DirGraph.drop, hf]
      · simp [withoutLink, withLink, withoutFiles, smallTree, DirGraph.set, DirGraph.drop, hd, hl,
          hf]

/-- `rmtree_fd` is in the tree, from which it has removed both. -/
def removingIn (fs : FileSystem) (point : FdPoint) : Rmtree :=
  ⟨fs, .calls ⟨⟨true, 1⟩, point⟩ [], 2, [(1, ['l']), (1, ['f'])]⟩

/-- The tree is removed. -/
def removedSmall : Rmtree :=
  ⟨(withoutLink.set 0 ['x'] none).drop 1, .done, 2, [(0, ['x']), (1, ['l']), (1, ['f'])]⟩

/-- The tree is looked at, opened, compared and gone through; the file and the link are removed. -/
theorem run_withoutFiles : Run (0, ['x']) 1 removingSmall
    (removingIn withoutFiles (.stat ['d'] [])) := by
  have hentry : smallTree.entry 0 ['x'] = some (.dir 1) := rfl
  have hfile : smallTree.entry 1 ['f'] = some .other := rfl
  have hlink : (smallTree.set 1 ['f'] none).entry 1 ['l'] = some .symlink := rfl
  have hstat : Step (0, ['x']) 1 removingSmall ⟨smallTree, .openDir ⟨true, 1, 0⟩, 0, []⟩ :=
    .answered (.stat (statOf 0 0 (.dir 1))) rfl (.fstatat rfl hentry) rfl
  have hopen : Step (0, ['x']) 1 ⟨smallTree, .openDir ⟨true, 1, 0⟩, 0, []⟩
      ⟨smallTree, .compare ⟨true, 1, 0⟩ ⟨true, 1⟩, 0, []⟩ :=
    .answered (.fd ⟨true, 1⟩) rfl (.openat rfl hentry .dir) rfl
  have hcompare : Step (0, ['x']) 1 ⟨smallTree, .compare ⟨true, 1, 0⟩ ⟨true, 1⟩, 0, []⟩
      ⟨smallTree, .calls ⟨⟨true, 1⟩, .collect⟩ [], 0, []⟩ :=
    .answered (.stat ⟨true, 1, 0⟩) rfl .fstat rfl
  have hcollect : Step (0, ['x']) 1 ⟨smallTree, .calls ⟨⟨true, 1⟩, .collect⟩ [], 0, []⟩
      ⟨smallTree, .calls ⟨⟨true, 1⟩, .unlink ['f'] [(['l'], .other), (['d'], .dir)]⟩ [], 0, []⟩ :=
    .answered (.entries [(['f'], .other), (['l'], .other), (['d'], .dir)]) rfl
      (.readdir rfl (by simp)) rfl
  have hunlink : Step (0, ['x']) 1
      ⟨smallTree, .calls ⟨⟨true, 1⟩, .unlink ['f'] [(['l'], .other), (['d'], .dir)]⟩ [], 0, []⟩
      ⟨smallTree.set 1 ['f'] none, .calls ⟨⟨true, 1⟩, .unlink ['l'] [(['d'], .dir)]⟩ [], 1,
        [(1, ['f'])]⟩ :=
    .answered .ok rfl (.unlink rfl hfile fun _ h => by cases h) rfl
  have hunlinkLink : Step (0, ['x']) 1
      ⟨smallTree.set 1 ['f'] none, .calls ⟨⟨true, 1⟩, .unlink ['l'] [(['d'], .dir)]⟩ [], 1,
        [(1, ['f'])]⟩
      (removingIn withoutFiles (.stat ['d'] [])) :=
    .answered .ok rfl (.unlink rfl hlink fun _ h => by cases h) rfl
  exact (((((Relation.ReflTransGen.single hstat).tail hopen).tail hcompare).tail hcollect).tail
    hunlink).tail hunlinkLink

/-- The directory is looked at; another process puts a link in its place, that leads out of the
tree; it is opened, compared, and not gone through. -/
theorem run_withLink : Run (0, ['x']) 1 (removingIn withoutFiles (.stat ['d'] []))
    (removingIn withLink .closeTop) := by
  have hentry : withoutFiles.entry 1 ['d'] = some (.dir 2) := rfl
  have hempty : withoutFiles.Empty 2 := fun n => by
    simp [withoutFiles, smallTree, DirGraph.set]
  have hstat : Step (0, ['x']) 1
      (removingIn withoutFiles (.stat ['d'] []))
      (removingIn withoutFiles (.openDir ['d'] ⟨true, 2, 0⟩ [])) :=
    .answered (.stat (statOf 0 0 (.dir 2))) rfl (.fstatat rfl hentry) rfl
  have hrmdir : Step (0, ['x']) 1
      (removingIn withoutFiles (.openDir ['d'] ⟨true, 2, 0⟩ []))
      (removingIn ((withoutFiles.set 1 ['d'] none).drop 2) (.openDir ['d'] ⟨true, 2, 0⟩ [])) :=
    .tamper (.rmdir ⟨Or.inr (Or.inl rfl), .refl⟩ hentry hempty)
  have hlink : Step (0, ['x']) 1
      (removingIn ((withoutFiles.set 1 ['d'] none).drop 2) (.openDir ['d'] ⟨true, 2, 0⟩ []))
      (removingIn withLink (.openDir ['d'] ⟨true, 2, 0⟩ [])) :=
    .tamper (.create ⟨withLink_live Nat.one_lt_two, .refl⟩ (withLink_live Nat.one_lt_two) rfl
      fun _ h => by cases h)
  have hopen : Step (0, ['x']) 1
      (removingIn withLink (.openDir ['d'] ⟨true, 2, 0⟩ []))
      (removingIn withLink (.compare ['d'] ⟨true, 2, 0⟩ ⟨true, 0⟩ [])) :=
    .answered (.fd ⟨true, 0⟩) rfl
      (.openat rfl rfl (.symlink fun _ => withLink_live Nat.two_pos)) rfl
  have hcompare : Step (0, ['x']) 1
      (removingIn withLink (.compare ['d'] ⟨true, 2, 0⟩ ⟨true, 0⟩ []))
      (removingIn withLink (.close ⟨true, 0⟩ [])) :=
    .answered (.stat ⟨true, 0, 0⟩) rfl .fstat rfl
  have hclose : Step (0, ['x']) 1 (removingIn withLink (.close ⟨true, 0⟩ [])) (removingIn withLink .closeTop) :=
    .answered .ok rfl .close rfl
  exact (((((Relation.ReflTransGen.single hstat).tail hrmdir).tail hlink).tail hopen).tail
    hcompare).tail hclose

/-- The other process removes the link, and the empty tree is removed. -/
theorem run_withoutLink : Run (0, ['x']) 1 (removingIn withLink .closeTop) removedSmall := by
  have hlink : withLink.entry 1 ['d'] = some .symlink := rfl
  have hentry : withoutLink.entry 0 ['x'] = some (.dir 1) := rfl
  have hunlink : Step (0, ['x']) 1 (removingIn withLink .closeTop)
      (removingIn withoutLink .closeTop) :=
    .tamper (.unlink ⟨withLink_live Nat.one_lt_two, .refl⟩ hlink fun _ h => by cases h)
  have hclose : Step (0, ['x']) 1 (removingIn withoutLink .closeTop)
      ⟨withoutLink, .removeDir, 2, [(1, ['l']), (1, ['f'])]⟩ := .answered .ok rfl .close rfl
  have hremove : Step (0, ['x']) 1 ⟨withoutLink, .removeDir, 2, [(1, ['l']), (1, ['f'])]⟩
      removedSmall := .answered .ok rfl (.rmdir rfl hentry withoutLink_empty) rfl
  exact ((Relation.ReflTransGen.single hunlink).tail hclose).tail hremove

/-- All of it. -/
theorem run_removingSmall : Run (0, ['x']) 1 removingSmall removedSmall :=
  (run_withoutFiles.trans run_withLink).trans run_withoutLink

/-- Nothing outside is touched by way of the link. -/
theorem tamperProofBelow_removingSmall : TamperProofBelow (0, ['x']) 1 removingSmall
    removedSmall :=
  tamperProofBelow begins_removingSmall run_removingSmall

/-- The name of the tree is removed from a directory outside. -/
theorem not_tamperProof : Begins (0, ['x']) 1 removingSmall ∧
    Run (0, ['x']) 1 removingSmall removedSmall ∧
    ¬TamperProof (0, ['x']) 1 removingSmall removedSmall := by
  refine ⟨begins_removingSmall, run_removingSmall, fun h => ?_⟩
  have hkept := h.outside 0 ['x'] (.dir 1) begins_removingSmall.outside_path rfl
  cases hkept.symm.trans (DirGraph.set_entry_self withoutLink 0 ['x'] none)

end Rmtree

end HpcWorkspace
