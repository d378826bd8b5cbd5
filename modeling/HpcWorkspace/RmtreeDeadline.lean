import HpcWorkspace.Lib.Inevitable
import HpcWorkspace.RmtreeAlone

/-!
# `rmtree` with a deadline

`rmtree` is followed piece by piece, from one point of the program to another: a name, the names of a
directory, the directory itself. Without a deadline nothing is left of a finite tree. With one, it may
stop at any directory and goes back from there, as none of those above is empty. What it leaves is a
tree again, and the next call begins with that.
-/

namespace HpcWorkspace

open DirGraph (Inside Part Prunes FiniteTree lostFiles)

namespace Rmtree

/-- From a file system, every run goes from one point to another, and comes with a file system of a
kind. -/
def Leads (path : ℕ × Str) (deadline : Bool) (rest : ℕ → ℕ) (fs : FileSystem)
    (p p' : RmtreePoint) (Q : FileSystem → Prop) : Prop :=
  ∀ s, s.fs = fs → s.point = p →
    Inevitable (StepAlone path deadline) (fun t => t.1.point = p' ∧ Q t.1.fs) (s, rest)

namespace Leads

variable {path : ℕ × Str} {deadline : Bool} {rest : ℕ → ℕ} {fs : FileSystem}
  {p p' p'' : RmtreePoint} {Q R : FileSystem → Prop} {c : Syscall}

theorem refl (hQ : Q fs) : Leads path deadline rest fs p p Q :=
  fun _ hfs hp => .now ⟨hp, hfs ▸ hQ⟩

theorem bind (h : Leads path deadline rest fs p p' Q)
    (hQ : ∀ fs' rest', Q fs' → Leads path deadline rest' fs' p' p'' R) :
    Leads path deadline rest fs p p'' R := by
  intro s hfs hp
  refine (h s hfs hp).bind fun t ht => ?_
  obtain ⟨s', rest'⟩ := t
  exact hQ s'.fs rest' ht.2 s' rfl ht.1

/-- **One call.** There is an answer, and every answer leads on. -/
theorem call (hcall : p.syscall path = some c)
    (hanswer : ∃ answer fs', AnswersAlone rest deadline fs c answer fs')
    (h : ∀ answer fs' rest', AnswersAlone rest deadline fs c answer fs' →
      (c.looks = true → rest' = rest) →
      Leads path deadline rest' fs' (p.resume answer).1 p' Q) :
    Leads path deadline rest fs p p' Q := by
  intro s hfs hp
  subst hfs hp
  refine .later ?_ fun t hstep => ?_
  · obtain ⟨answer, fs', hanswer⟩ := hanswer
    exact ⟨_, .call hcall hanswer fun _ => rfl⟩
  · cases hstep with
    | call hcall' hanswer' hrest =>
      obtain rfl := Option.some.inj (hcall.symm.trans hcall')
      exact h _ _ _ hanswer' hrest _ rfl rfl

/-- **Into a directory.** It is looked at, opened and compared, and it is the same one. -/
theorem goInto {dir : Handle} {name : Str} {i : ℕ} (p₁ : Stat → RmtreePoint)
    (p₂ : Stat → Handle → RmtreePoint) (p₃ : Handle → RmtreePoint)
    (hname : isDots name = false) (hentry : fs.entry dir.inode name = some (.dir i))
    (hstat : p.syscall path = some (.fstatat dir name))
    (hseen : ∀ st, st.isDir = true → (p.resume (.stat st)).1 = p₁ st)
    (hopen : ∀ st, (p₁ st).syscall path = some (.openat dir name))
    (hopened : ∀ st fd, ((p₁ st).resume (.fd fd)).1 = p₂ st fd)
    (hfstat : ∀ st fd, (p₂ st fd).syscall path = some (.fstat fd))
    (hsame : ∀ st fd, ((p₂ st fd).resume (.stat st)).1 = p₃ fd)
    (h : ∀ rest', Leads path deadline rest' fs (p₃ ⟨true, i⟩) p' Q) :
    Leads path deadline rest fs p p' Q := by
  have hcompare : Leads path deadline rest fs (p₂ ⟨true, i, rest i⟩ ⟨true, i⟩) p' Q := by
    refine .call (hfstat _ _) ⟨_, _, .fstat⟩ fun answer fs' rest' hanswer _ => ?_
    cases hanswer with
    | fstat =>
      rw [hsame]
      exact h rest'
  have hopenat : Leads path deadline rest fs (p₁ ⟨true, i, rest i⟩) p' Q := by
    refine .call (hopen _) ⟨_, _, .openat hname hentry .dir⟩ fun answer fs' rest' hanswer hrest => ?_
    obtain rfl := hrest rfl
    cases hanswer with
    | openat hname' hentry' hopens =>
      obtain rfl := Option.some.inj (hentry.symm.trans hentry')
      cases hopens with
      | dir =>
        rw [hopened]
        exact hcompare
  have hlook : AnswersAlone rest deadline fs (.fstatat dir name)
      (.stat (statOf i (rest i) (.dir i))) fs :=
    .fstatat hname hentry fun j hj => congrArg rest (DirEntry.dir.inj hj)
  refine .call hstat ⟨_, _, hlook⟩ fun answer fs' rest' hanswer hrest => ?_
  obtain rfl := hrest rfl
  cases hanswer with
  | fstatat hname' hentry' hr =>
    obtain rfl := Option.some.inj (hentry.symm.trans hentry')
    obtain rfl := hr i rfl
    rw [statOf, hseen _ rfl]
    exact hopenat
  | missing hname' hnone => cases hentry.symm.trans hnone
  | fstatatDots hdots => cases hname.symm.trans hdots

end Leads

/-! ## One name -/

/-- What is removed for one name of a directory. -/
structure Dealt (deadline : Bool) (d : ℕ) (name : Str) (fs fs' : FileSystem) : Prop where
  /-- names in the directory and below -/
  prunes : ∃ k, Prunes (fun e _ => fs.Inside d e) fs k fs'
  /-- but not the other ones in the directory itself -/
  others : ∀ m, m ≠ name → fs'.entry d m = fs.entry d m
  /-- without a deadline this one -/
  gone : deadline = false → fs'.entry d name = none

/-- What is removed when a directory is gone through. -/
structure Cleared (deadline : Bool) (d : ℕ) (fs fs' : FileSystem) : Prop where
  /-- names in it and below -/
  prunes : ∃ k, Prunes (fun e _ => fs.Inside d e) fs k fs'
  /-- without a deadline all of them -/
  empty : deadline = false → fs'.Empty d

/-- `rmtree_fd` goes through a directory, and through it as well when it is in part removed. -/
def Clears (path : ℕ × Str) (deadline : Bool) (g : FileSystem) (d : ℕ) : Prop :=
  ∀ fs rest outer, fs.Part g → Leads path deadline rest fs (.calls ⟨⟨true, d⟩, .collect⟩ outer)
    (.ofCalls outer) (Cleared deadline d fs)

section Names

variable {path : ℕ × Str} {deadline : Bool} {rest : ℕ → ℕ} {g fs fs' fs'' : FileSystem} {d i : ℕ}
  {name : Str} {entries : List (Str × DType)} {outer : List FdCall}

/-- Nothing is removed. -/
theorem Dealt.refl (h : deadline = false → fs.entry d name = none) : Dealt deadline d name fs fs :=
  ⟨⟨0, .refl⟩, fun _ _ => rfl, h⟩

/-- `unlinkat` of a name that is not that of a directory. -/
theorem leads_unlink {x : DirEntry ℕ} (hname : isDots name = false)
    (hentry : fs.entry d name = some x) (hx : ∀ i, x ≠ .dir i) :
    Leads path deadline rest fs (.calls ⟨⟨true, d⟩, .unlink name entries⟩ outer)
      (.calls ⟨⟨true, d⟩, nextEntry entries⟩ outer) (Dealt deadline d name fs) := by
  refine .call rfl ⟨_, _, .unlink hname hentry hx⟩ fun answer fs' rest' hanswer _ => ?_
  cases hanswer with
  | unlink hname' hentry' hx' =>
    refine .refl ⟨⟨_, .unlink .refl .refl hentry hx⟩, fun m hm => ?_, fun _ => ?_⟩
    · exact DirGraph.set_entry_ne _ fun heq => hm heq.2
    · exact DirGraph.set_entry_self ..

theorem exists_rmdir {dir : Handle} (hname : isDots name = false)
    (hentry : fs.entry dir.inode name = some (.dir i)) :
    ∃ answer fs', AnswersAlone rest deadline fs (.unlinkat dir name true) answer fs' := by
  by_cases hempty : fs.Empty i
  · exact ⟨_, _, .rmdir hname hentry hempty⟩
  · exact ⟨_, _, .notEmpty hname hentry hempty⟩

/-- A directory in the directory is gone through, and removed when nothing is left in it. -/
theorem leads_directory (hclears : Clears path deadline g i) (hfs : fs.Part g)
    (hfinite : fs.FiniteTree d) (hname : isDots name = false)
    (hentry : fs.entry d name = some (.dir i)) :
    Leads path deadline rest fs (.calls ⟨⟨true, d⟩, .stat name entries⟩ outer)
      (.calls ⟨⟨true, d⟩, nextEntry entries⟩ outer) (Dealt deadline d name fs) := by
  have hchild : fs.Inside d i := Relation.ReflTransGen.refl.tail ⟨name, hentry⟩
  have hgo : Leads path deadline rest fs (.calls ⟨⟨true, d⟩, .stat name entries⟩ outer)
      (.calls ⟨⟨true, d⟩, .removeDir name entries⟩ outer) (Cleared deadline i fs) := by
    refine .goInto (fun st => .calls ⟨⟨true, d⟩, .openDir name st entries⟩ outer)
      (fun st fd => .calls ⟨⟨true, d⟩, .compare name st fd entries⟩ outer)
      (fun fd => .calls ⟨fd, .collect⟩ (⟨⟨true, d⟩, .removeDir name entries⟩ :: outer)) hname hentry rfl
      (fun st hst => ?_) (fun _ => rfl) (fun _ _ => rfl) (fun _ _ => rfl) (fun st fd => ?_)
      fun rest' => hclears fs rest' _ hfs
    · dsimp only [RmtreePoint.resume, FdCall.resume]
      rw [if_pos hst]
      rfl
    · dsimp only [RmtreePoint.resume, FdCall.resume]
      rw [if_pos rfl]
      rfl
  refine hgo.bind fun fs' rest' hcleared => ?_
  obtain ⟨k, hprunes⟩ := hcleared.prunes
  have hkept : ∀ m, fs'.entry d m = fs.entry d m :=
    fun m => hprunes.entry_eq (hfinite.not_inside ⟨name, hentry⟩)
  have hentry' : fs'.entry d name = some (.dir i) := (hkept name).trans hentry
  have hprunes' : Prunes (fun e _ => fs.Inside d e) fs k fs' :=
    hprunes.mono fun e _ hin => hchild.trans hin
  refine .call rfl (exists_rmdir hname hentry') fun answer fs'' rest'' hanswer _ => ?_
  cases hanswer with
  | rmdir hname' hlook hempty =>
    refine .refl ⟨⟨_, .rmdir hprunes' .refl hlook hempty⟩, fun m hm => ?_, fun _ => ?_⟩
    · exact (DirGraph.set_entry_ne _ fun heq => hm heq.2).trans (hkept m)
    · exact DirGraph.set_entry_self ..
  | notEmpty hname' hlook hempty =>
    obtain rfl := DirEntry.dir.inj (Option.some.inj (hentry'.symm.trans hlook))
    exact .refl ⟨⟨_, hprunes'⟩, fun m _ => hkept m, fun hno => absurd (hcleared.empty hno) hempty⟩

/-- `.` and `..` are left out. -/
theorem leads_dots {t : DType} (hnone : fs.entry d name = none) (hdots : isDots name = true)
    (ht : t ≠ .other) :
    Leads path deadline rest fs (.calls ⟨⟨true, d⟩, nextEntry ((name, t) :: entries)⟩ outer)
      (.calls ⟨⟨true, d⟩, nextEntry entries⟩ outer) (Dealt deadline d name fs) := by
  have hdealt : Dealt deadline d name fs fs := .refl fun _ => hnone
  cases t with
  | dir =>
    rw [nextEntry, if_pos hdots]
    exact .refl hdealt
  | unknown =>
    rw [nextEntry]
    refine .call rfl ⟨.stat ⟨true, 0, 0⟩, fs, .fstatatDots hdots rfl⟩
      fun answer fs' rest' hanswer _ => ?_
    cases hanswer with
    | fstatat hname => cases hname.symm.trans hdots
    | missing hname => cases hname.symm.trans hdots
    | fstatatDots hname hdir =>
      dsimp only [RmtreePoint.resume, FdCall.resume]
      rw [if_pos hdir, if_pos hdots]
      exact .refl hdealt
  | other => exact absurd rfl ht

theorem exists_fstatat {dir : Handle} {x : DirEntry ℕ} (hname : isDots name = false)
    (hentry : fs.entry dir.inode name = some x) :
    ∃ answer fs', AnswersAlone rest deadline fs (.fstatat dir name) answer fs' := by
  cases x with
  | dir i =>
    exact ⟨.stat (statOf 0 (rest i) (.dir i)), fs,
      .fstatat hname hentry fun j hj => congrArg rest (DirEntry.dir.inj hj)⟩
  | symlink =>
    exact ⟨.stat (statOf 0 0 .symlink), fs, .fstatat hname hentry fun _ h => (by cases h)⟩
  | other => exact ⟨.stat (statOf 0 0 .other), fs, .fstatat hname hentry fun _ h => (by cases h)⟩

/-- **One name.** `.` and `..` are left out, directories are gone through, and the others removed; the
type is looked up when it is not known. -/
theorem leads_entry {t : DType}
    (hclears : ∀ i, g.entry d name = some (.dir i) → Clears path deadline g i) (hfs : fs.Part g)
    (hproper : ProperNames g) (hfinite : fs.FiniteTree d)
    (hnames : DirNames fs d ((name, t) :: entries)) :
    Leads path deadline rest fs (.calls ⟨⟨true, d⟩, nextEntry ((name, t) :: entries)⟩ outer)
      (.calls ⟨⟨true, d⟩, nextEntry entries⟩ outer) (Dealt deadline d name fs) := by
  have hmem : (name, t) ∈ (name, t) :: entries := List.mem_cons_self ..
  cases hdots : isDots name with
  | true =>
    refine leads_dots (Option.eq_none_iff_forall_ne_some.2 fun x hx => ?_) hdots
      (hnames.dots name t hmem hdots)
    rw [(hproper d name x (hfs hx)).1] at hdots
    cases hdots
  | false =>
    have hno : ¬isDots name = true := by
      rw [hdots]
      exact Bool.false_ne_true
    obtain ⟨x, hx, htype⟩ := hnames.entry name t hmem hdots
    have hdir : ∀ {i}, x = .dir i → ∀ rest', Leads path deadline rest' fs
        (.calls ⟨⟨true, d⟩, .stat name entries⟩ outer) (.calls ⟨⟨true, d⟩, nextEntry entries⟩ outer)
        (Dealt deadline d name fs) := by
      rintro i rfl rest'
      exact leads_directory (hclears i (hfs hx)) hfs hfinite hdots hx
    have hfile : (∀ i, x ≠ .dir i) → ∀ rest', Leads path deadline rest' fs
        (.calls ⟨⟨true, d⟩, .unlink name entries⟩ outer)
        (.calls ⟨⟨true, d⟩, nextEntry entries⟩ outer) (Dealt deadline d name fs) :=
      fun hfile rest' => leads_unlink hdots hx hfile
    rcases htype with rfl | rfl
    · rw [nextEntry]
      refine .call rfl (exists_fstatat hdots hx) fun answer fs' rest' hanswer _ => ?_
      cases hanswer with
      | fstatat hname hx' hr =>
        obtain rfl := Option.some.inj (hx.symm.trans hx')
        cases x with
        | dir i =>
          dsimp only [RmtreePoint.resume, FdCall.resume, statOf]
          rw [if_pos rfl, if_neg hno]
          exact hdir rfl rest'
        | symlink => exact hfile (fun _ h => (by cases h)) rest'
        | other => exact hfile (fun _ h => (by cases h)) rest'
      | missing hname hnone => cases hx.symm.trans hnone
      | fstatatDots hname => cases hdots.symm.trans hname
    · cases x with
      | dir i =>
        rw [typeOf, nextEntry, if_neg hno]
        exact hdir rfl rest
      | symlink => exact hfile (fun _ h => (by cases h)) rest
      | other => exact hfile (fun _ h => (by cases h)) rest

/-! ## The names of a directory -/

/-- The names that are left to look at are there as before. -/
theorem Dealt.dirNames {t : DType} (h : Dealt deadline d name fs fs')
    (hnames : DirNames fs d ((name, t) :: entries)) : DirNames fs' d entries := by
  obtain ⟨hnew, hnodup⟩ := List.nodup_cons.1 hnames.nodup
  refine ⟨hnodup, fun n u hmem => hnames.dots n u (List.mem_cons_of_mem _ hmem),
    fun n u hmem hdots => ?_⟩
  obtain ⟨x, hx, htype⟩ := hnames.entry n u (List.mem_cons_of_mem _ hmem) hdots
  have hne : n ≠ name := by
    rintro rfl
    exact hnew (List.mem_map.2 ⟨(n, u), hmem, rfl⟩)
  exact ⟨x, (h.others n hne).trans hx, htype⟩

theorem Dealt.listsAll {t : DType} (h : Dealt deadline d name fs fs') (hno : deadline = false)
    (hall : ListsAll fs d ((name, t) :: entries)) : ListsAll fs' d entries := by
  intro n x hx
  obtain ⟨k, hprunes⟩ := h.prunes
  rcases List.mem_cons.1 (hall n x (hprunes.part hx)) with rfl | hmem
  · rw [h.gone hno] at hx
    cases hx
  · exact hmem

/-- One name after the other. -/
theorem Dealt.cleared (h : Dealt deadline d name fs fs') (h' : Cleared deadline d fs' fs'') :
    Cleared deadline d fs fs'' := by
  obtain ⟨k, hprunes⟩ := h.prunes
  obtain ⟨l, hprunes'⟩ := h'.prunes
  exact ⟨⟨k + l, hprunes.trans (hprunes'.mono fun e _ hin => hprunes.part.inside hin)⟩, h'.empty⟩

/-- **The loop.** -/
theorem leads_entries (hclears : ∀ n i, g.entry d n = some (.dir i) → Clears path deadline g i)
    (hproper : ProperNames g) (hfinite : g.FiniteTree d) (hfs : fs.Part g)
    (hnames : DirNames fs d entries) (hall : deadline = false → ListsAll fs d entries) :
    Leads path deadline rest fs (.calls ⟨⟨true, d⟩, nextEntry entries⟩ outer) (.ofCalls outer)
      (Cleared deadline d fs) := by
  induction entries generalizing fs rest with
  | nil =>
    have hempty : deadline = false → fs.Empty d := by
      intro hno n
      refine Option.eq_none_iff_forall_ne_some.2 fun x hx => ?_
      cases hall hno n x hx
    refine .call rfl ⟨_, _, .close⟩ fun answer fs' rest' hanswer _ => ?_
    cases hanswer with
    | close => exact .refl ⟨⟨0, .refl⟩, hempty⟩
  | cons ent entries ih =>
    obtain ⟨name, t⟩ := ent
    refine (leads_entry (hclears name) hfs hproper (hfinite.of_part hfs) hnames).bind
      fun fs' rest' hdealt => ?_
    obtain ⟨k, hprunes⟩ := hdealt.prunes
    refine (ih (fun _ _ _ hx => hfs (hprunes.part hx)) (hdealt.dirNames hnames)
      fun hno => hdealt.listsAll hno (hall hno)).bind fun fs'' rest'' hcleared => ?_
    exact .refl (hdealt.cleared hcleared)

/-- A directory with finitely many names can be read. -/
theorem exists_dirNames {names : List Str}
    (hnames : ∀ n x, fs.entry d n = some x → n ∈ names) :
    ∃ entries, DirNames fs d entries ∧ ListsAll fs d entries := by
  have hmem : ∀ n, n ∈ names.dedup.filter (fun n => (fs.entry d n).isSome) ↔
      ∃ x, fs.entry d n = some x := by
    intro n
    rw [List.mem_filter, List.mem_dedup, Option.isSome_iff_exists]
    refine and_iff_right_of_imp fun h => ?_
    obtain ⟨x, hx⟩ := h
    exact hnames n x hx
  have hfst : ((names.dedup.filter (fun n => (fs.entry d n).isSome)).map
      fun n => (n, DType.unknown)).map Prod.fst =
        names.dedup.filter (fun n => (fs.entry d n).isSome) := by
    rw [List.map_map]
    exact List.map_id _
  have hentry : ∀ n t, (n, t) ∈ (names.dedup.filter (fun n => (fs.entry d n).isSome)).map
      (fun n => (n, DType.unknown)) → t = .unknown ∧ ∃ x, fs.entry d n = some x := by
    intro n t h
    obtain ⟨m, hm, heq⟩ := List.mem_map.1 h
    obtain ⟨rfl, rfl⟩ := Prod.mk.inj heq
    exact ⟨rfl, (hmem m).1 hm⟩
  refine ⟨(names.dedup.filter (fun n => (fs.entry d n).isSome)).map fun n => (n, .unknown),
    ⟨?_, fun n t h hdots => ?_, fun n t h _ => ?_⟩, fun n x hx => ?_⟩
  · rw [hfst]
    exact (List.nodup_dedup names).filter _
  · rw [(hentry n t h).1]
    exact fun heq => (by cases heq)
  · obtain ⟨rfl, x, hx⟩ := hentry n t h
    exact ⟨x, hx, Or.inl rfl⟩
  · rw [hfst]
    exact (hmem n).2 ⟨x, hx⟩

/-- **The recursion.** A finite tree is gone through. -/
theorem clears_of_finiteTree (hproper : ProperNames g) (hfinite : g.FiniteTree d) :
    Clears path deadline g d := by
  induction hfinite with
  | intro names hnames hchild ih =>
    rename_i d
    intro fs rest outer hfs
    obtain ⟨entries, hentries, hall⟩ := exists_dirNames (d := d) fun n x hx => hnames n x (hfs hx)
    refine .call rfl ⟨_, _, .readdir rfl hentries hall⟩ fun answer fs' rest' hanswer _ => ?_
    cases hanswer with
    | deadline hdeadline =>
      refine .call (c := .close ⟨true, d⟩) rfl ⟨_, _, .close⟩ fun answer fs' rest' hanswer _ => ?_
      cases hanswer with
      | close =>
        refine .refl ⟨⟨0, .refl⟩, fun hno => ?_⟩
        rw [hdeadline] at hno
        cases hno
    | readdir hdir hnames' hall' =>
      exact leads_entries ih hproper (.intro names hnames hchild) hfs hnames' fun _ => hall'

end Names

/-! ## The tree -/

section Tree

variable {path : ℕ × Str} {root : ℕ} {s₀ s : Rmtree} {rest : ℕ → ℕ} {deadline : Bool}

/-- **The program.** It comes to its end; without a deadline the name of the tree is gone. -/
theorem Ready.leads (h : Ready path root s) : Leads path deadline rest s.fs .stat .done
    fun fs' => deadline = false → fs'.entry path.1 path.2 = none := by
  cases hentry : s.fs.entry path.1 path.2 with
  | none =>
    refine .call rfl ⟨_, _, .missing h.named hentry⟩ fun answer fs' rest' hanswer _ => ?_
    cases hanswer with
    | fstatat hname hsome => cases hentry.symm.trans hsome
    | missing => exact .refl fun _ => hentry
    | fstatatDots hdots => cases h.named.symm.trans hdots
  | some x =>
    obtain rfl := h.target x hentry
    have hgo : Leads path deadline rest s.fs .stat .removeDir (Cleared deadline root s.fs) := by
      refine .goInto .openDir .compare (fun fd => .calls ⟨fd, .collect⟩ []) h.named hentry rfl
        (fun st hst => if_pos hst) (fun _ => rfl) (fun _ _ => rfl) (fun _ _ => rfl)
        (fun st fd => if_pos rfl) fun rest' => ?_
      exact clears_of_finiteTree h.proper h.finite s.fs rest' [] fun _ _ _ hx => hx
    refine hgo.bind fun fs' rest' hcleared => ?_
    obtain ⟨k, hprunes⟩ := hcleared.prunes
    have hentry' : fs'.entry path.1 path.2 = some (.dir root) :=
      (hprunes.entry_eq h.outside).trans hentry
    refine .call rfl (exists_rmdir h.named hentry') fun answer fs'' rest'' hanswer _ => ?_
    cases hanswer with
    | rmdir => exact .refl fun _ => DirGraph.set_entry_self ..
    | notEmpty hname hlook hempty =>
      obtain rfl := DirEntry.dir.inj (Option.some.inj (hentry'.symm.trans hlook))
      exact .refl fun hno => absurd (hcleared.empty hno) hempty

/-- What is inevitable: the program is at its end, a part of the tree is removed, and without a
deadline all of it. -/
theorem Ready.inevitable (h : Ready path root s) :
    Inevitable (StepAlone path deadline) (fun t => Pruned path root s t.1 ∧ t.1.point = .done ∧
      (deadline = false → t.1.fs.entry path.1 path.2 = none)) (s, rest) :=
  (h.leads s rfl h.point).and_invariant (fun t => Pruned path root s t.1)
    (fun _ _ hpruned hstep => hpruned.step h hstep) h.pruned

/-- `rmtree` is called again. -/
def again (s : Rmtree) : Rmtree := ⟨s.fs, .stat, 0, []⟩

/-- It begins with what is left of the tree. -/
theorem Pruned.ready_again (h : Pruned path root s₀ s) (hready : Ready path root s₀) :
    Ready path root s.again :=
  ⟨fun x hx => hready.target x (h.prunes.part hx), hready.named,
    fun hin => hready.outside (h.prunes.part.inside hin),
    fun d n x hx => hready.proper d n x (h.prunes.part hx), hready.finite.of_part h.prunes.part,
    rfl, rfl, rfl⟩

/-- **Two calls.** Together they remove a part of the tree. -/
theorem Pruned.trans {s' : Rmtree} (h : Pruned path root s₀ s) (h' : Pruned path root s.again s') :
    Prunes (s₀.fs.OfTree root path) s₀.fs (s.deleted + s'.deleted) s'.fs := by
  refine h.prunes.trans (h'.prunes.mono fun d n hof => ?_)
  rcases hof with hin | heq
  · exact Or.inl (h.prunes.part.inside hin)
  · exact Or.inr heq

theorem Begins.ready (h : Begins path root s) (hproper : ProperNames s.fs)
    (hfinite : s.fs.FiniteTree root) (hdeleted : s.deleted = 0) : Ready path root s :=
  ⟨fun _ hx => (Option.some.inj (h.entry.symm.trans hx)).symm, h.named, h.outside, hproper, hfinite,
    h.point, hdeleted, h.removed⟩

/-! ## A clean part -/

/-- Only names of the tree are removed. -/
structure WithinTree (path : ℕ × Str) (root : ℕ) (s₀ s : Rmtree) : Prop where
  /-- the names that were removed -/
  removed : ∀ d n, (d, n) ∈ s.removed → s₀.fs.OfTree root path d n
  /-- all others are as before -/
  entry : ∀ d n, ¬s₀.fs.OfTree root path d n → s.fs.entry d n = s₀.fs.entry d n

/-- A clean part of the tree is removed. -/
structure CleanPart (path : ℕ × Str) (root : ℕ) (s₀ s : Rmtree) : Prop where
  /-- names of the tree -/
  within : WithinTree path root s₀ s
  /-- nothing comes and nothing changes -/
  part : s.fs.Part s₀.fs
  /-- what is left is in directories that exist -/
  wellFormed : s.fs.WellFormed
  /-- and these have their names -/
  parent : ∀ d n x, s.fs.entry d n = some x →
    ∀ e m, s₀.fs.entry e m = some (.dir d) → s.fs.entry e m = some (.dir d)
  /-- the things that are no directories are counted -/
  finite : (lostFiles s₀.fs s.fs).Finite
  /-- by `deleted` -/
  deleted : s.deleted = (lostFiles s₀.fs s.fs).ncard

theorem Pruned.withinTree (h : Pruned path root s₀ s) : WithinTree path root s₀ s :=
  ⟨h.removed, fun _ _ hno => h.prunes.entry_eq hno⟩

theorem Pruned.cleanPart (h : Pruned path root s₀ s) (hwf : s₀.fs.WellFormed) :
    CleanPart path root s₀ s :=
  ⟨h.withinTree, h.prunes.part, h.prunes.wellFormed hwf,
    fun _ _ _ hx _ _ hdir => h.prunes.parent hx hdir, h.prunes.lostFiles_ncard.1,
    h.prunes.lostFiles_ncard.2.symm⟩

/-- The whole tree is gone, and nothing else. -/
def TreeGone (path : ℕ × Str) (root : ℕ) (s₀ s : Rmtree) : Prop :=
  s.point = .done ∧ s.fs = s₀.fs.without root path

/-- **The deadline.** At no time a name is removed that is not in the tree, nor a symbolic link
followed. Wherever the deadline cuts in, `rmtree` comes to its end and has removed a clean part of the
tree; and the next call without a deadline comes to what one call without a deadline comes to: the
whole tree is gone. -/
theorem rmtree_deadline (h : Begins path root s₀) (hproper : ProperNames s₀.fs)
    (hfinite : s₀.fs.FiniteTree root) (hdeleted : s₀.deleted = 0) (rest : ℕ → ℕ) :
    (∀ deadline t, Relation.ReflTransGen (StepAlone path deadline) (s₀, rest) t →
      WithinTree path root s₀ t.1 ∧ NoLink path t.1) ∧
    Inevitable (StepAlone path true) (fun t => t.1.point = .done ∧ CleanPart path root s₀ t.1 ∧
      ∀ rest', Inevitable (StepAlone path false) (fun u => TreeGone path root s₀ u.1)
        (t.1.again, rest')) (s₀, rest) ∧
    Inevitable (StepAlone path false) (fun u => TreeGone path root s₀ u.1) (s₀, rest) := by
  have hready := h.ready hproper hfinite hdeleted
  refine ⟨fun deadline t hrun => ⟨(Pruned.run hready hrun).withinTree, (noLink_run hready hrun).1⟩,
    hready.inevitable.mono fun t ht => ?_, hready.inevitable.mono fun u hu => ?_⟩
  · obtain ⟨hpruned, hdone, -⟩ := ht
    refine ⟨hdone, hpruned.cleanPart h.wellFormed, fun rest' => ?_⟩
    refine (hpruned.ready_again hready).inevitable.mono fun u hu => ?_
    obtain ⟨hpruned', hdone', hgone⟩ := hu
    exact ⟨hdone', (hpruned.trans hpruned').eq_without h.entry (hgone rfl)⟩
  · obtain ⟨hpruned, hdone, hgone⟩ := hu
    exact ⟨hdone, hpruned.prunes.eq_without h.entry (hgone rfl)⟩

end Tree

theorem properNames_smallTree : ProperNames smallTree := by
  intro d n x hx
  rcases smallTree_entry hx with ⟨-, rfl, -⟩ | ⟨-, rfl, -⟩ | ⟨-, rfl, -⟩ | ⟨-, rfl, -⟩ <;> decide

theorem finiteTree_smallTree : smallTree.FiniteTree 1 := by
  have hempty : smallTree.FiniteTree 2 := by
    refine .intro [] (fun n x hx => ?_) fun n i hi => ?_
    · rcases smallTree_entry hx with ⟨hd, -⟩ | ⟨hd, -⟩ | ⟨hd, -⟩ | ⟨hd, -⟩ <;> cases hd
    · rcases smallTree_dir hi with ⟨hd, -⟩ | ⟨hd, -⟩ <;> cases hd
  refine .intro [['f'], ['l'], ['d']] (fun n x hx => ?_) fun n i hi => ?_
  · rcases smallTree_entry hx with ⟨hd, -⟩ | ⟨-, rfl, -⟩ | ⟨-, rfl, -⟩ | ⟨-, rfl, -⟩
    · cases hd
    · decide
    · decide
    · decide
  · rcases smallTree_dir hi with ⟨hd, -⟩ | ⟨-, -, rfl⟩
    · cases hd
    · exact hempty

/-- Wherever the deadline cuts in, the next call finishes it. -/
theorem rmtree_deadline_small :
    Inevitable (StepAlone (0, ['x']) true) (fun t => t.1.point = .done ∧
      CleanPart (0, ['x']) 1 removingSmall t.1 ∧
      ∀ rest', Inevitable (StepAlone (0, ['x']) false)
        (fun u => TreeGone (0, ['x']) 1 removingSmall u.1) (t.1.again, rest'))
      (removingSmall, fun _ => 0) :=
  (rmtree_deadline begins_removingSmall properNames_smallTree finiteTree_smallTree rfl _).2.1

end Rmtree

end HpcWorkspace
