import Mathlib.Data.Set.Card
import HpcWorkspace.Lib.DirGraph

/-!
# Pruning a tree of directories

Names are taken away one by one: those of things that are no directories, and those of empty
directories, which then no longer exist. What is left is a part of what was there, in which the
directories above everything that is left are left too. When the name of a directory is gone, so is all
that was inside of it.
-/

universe u v

namespace DirGraph

variable {ι : Type u} {ν : Type v} [DecidableEq ι] [DecidableEq ν]

/-- All names are those of another one, and stand for the same. -/
def Part (g' g : DirGraph ι ν) : Prop :=
  ∀ ⦃d n x⦄, g'.entry d n = some x → g.entry d n = some x

omit [DecidableEq ι] [DecidableEq ν] in
theorem Part.inside {g g' : DirGraph ι ν} {d e : ι} (h : g'.Part g) (hin : g'.Inside d e) :
    g.Inside d e := by
  refine Relation.ReflTransGen.mono (fun d i hc => ?_) _ _ hin
  obtain ⟨n, hn⟩ := hc
  exact ⟨n, h hn⟩

/-- Some of the names of a kind are taken away, `k` of them of things that are no directories. -/
inductive Prunes (P : ι → ν → Prop) (g : DirGraph ι ν) : ℕ → DirGraph ι ν → Prop where
  /-- none -/
  | refl : Prunes P g 0 g
  /-- one more, not of a directory -/
  | unlink {k : ℕ} {g' : DirGraph ι ν} {d : ι} {n : ν} {x : DirEntry ι} (h : Prunes P g k g')
      (hP : P d n) (hentry : g'.entry d n = some x) (hx : ∀ i, x ≠ .dir i) :
      Prunes P g (k + 1) (g'.set d n none)
  /-- one more, of an empty directory -/
  | rmdir {k : ℕ} {g' : DirGraph ι ν} {d i : ι} {n : ν} (h : Prunes P g k g') (hP : P d n)
      (hentry : g'.entry d n = some (.dir i)) (hempty : g'.Empty i) :
      Prunes P g k ((g'.set d n none).drop i)

/-- The names of things that are no directories that are gone. -/
def lostFiles (g g' : DirGraph ι ν) : Set (ι × ν) :=
  {p | ∃ x, g.entry p.1 p.2 = some x ∧ (∀ i, x ≠ .dir i) ∧ g'.entry p.1 p.2 = none}

namespace Prunes

variable {P Q : ι → ν → Prop} {g g' g'' : DirGraph ι ν} {k l : ℕ} {d e i root : ι} {m n : ν}
  {x : DirEntry ι}

theorem mono (h : Prunes P g k g') (hPQ : ∀ d n, P d n → Q d n) : Prunes Q g k g' := by
  induction h with
  | refl => exact .refl
  | unlink _ hP hentry hx ih => exact .unlink ih (hPQ _ _ hP) hentry hx
  | rmdir _ hP hentry hempty ih => exact .rmdir ih (hPQ _ _ hP) hentry hempty

theorem trans (h : Prunes P g k g') (h' : Prunes P g' l g'') : Prunes P g (k + l) g'' := by
  induction h' with
  | refl => exact h
  | unlink _ hP hentry hx ih => exact .unlink ih hP hentry hx
  | rmdir _ hP hentry hempty ih => exact .rmdir ih hP hentry hempty

/-- Nothing comes and nothing changes. -/
theorem part (h : Prunes P g k g') : g'.Part g := by
  intro d n x hentry
  induction h with
  | refl => exact hentry
  | unlink _ _ _ _ ih =>
    rcases set_entry_eq_some hentry with ⟨-, -, heq⟩ | hold
    · cases heq
    · exact ih hold
  | rmdir _ _ _ _ ih =>
    rcases set_entry_eq_some hentry with ⟨-, -, heq⟩ | hold
    · cases heq
    · exact ih hold

/-- Names of other kinds stay. -/
theorem entry_eq (h : Prunes P g k g') (hno : ¬P d n) : g'.entry d n = g.entry d n := by
  have hne : ∀ {a : ι} {b : ν}, P a b → ¬(d = a ∧ n = b) := by
    rintro a b hP ⟨rfl, rfl⟩
    exact hno hP
  induction h with
  | refl => rfl
  | unlink _ hP _ _ ih => exact (set_entry_ne _ (hne hP)).trans ih
  | rmdir _ hP _ _ ih => exact (set_entry_ne _ (hne hP)).trans ih

theorem wellFormed (h : Prunes P g k g') (hg : g.WellFormed) : g'.WellFormed := by
  induction h with
  | refl => exact hg
  | unlink _ _ hentry hx ih => exact (Writes.unlink (P := fun _ => True) trivial hentry hx).wellFormed ih
  | rmdir _ _ hentry hempty ih =>
    exact (Writes.rmdir (P := fun _ => True) trivial hentry hempty).wellFormed ih

/-- **Closed under parents.** Where something is left, the name of the directory is left. -/
theorem parent (h : Prunes P g k g') (hentry : g'.entry d n = some x)
    (hdir : g.entry e m = some (.dir d)) : g'.entry e m = some (.dir d) := by
  induction h generalizing n x with
  | refl => exact hdir
  | unlink _ _ hgone hx ih =>
    rcases set_entry_eq_some hentry with ⟨-, -, heq⟩ | hold
    · cases heq
    have hkept := ih hold
    refine (set_entry_ne _ ?_).trans hkept
    rintro ⟨rfl, rfl⟩
    exact hx d (Option.some.inj (hgone.symm.trans hkept))
  | rmdir _ _ hgone hempty ih =>
    rcases set_entry_eq_some hentry with ⟨-, -, heq⟩ | hold
    · cases heq
    have hkept := ih hold
    refine (set_entry_ne _ ?_).trans hkept
    rintro ⟨rfl, rfl⟩
    obtain rfl := DirEntry.dir.inj (Option.some.inj (hgone.symm.trans hkept))
    rw [hempty] at hold
    cases hold

/-- What is left was inside before, and is inside still. -/
theorem inside (h : Prunes P g k g') (hin : g.Inside root d) (hentry : g'.entry d n = some x) :
    g'.Inside root d := by
  induction hin generalizing n x with
  | refl => exact .refl
  | tail _ hc ih =>
    obtain ⟨m, hm⟩ := hc
    have hkept := h.parent hentry hm
    exact (ih hkept).entry hkept

/-- A directory exists as long as its name is there. -/
theorem live_iff (h : Prunes P g k g') :
    g'.live d ↔ g.live d ∧ ∀ e m, g.entry e m = some (.dir d) → g'.entry e m = some (.dir d) := by
  induction h with
  | refl => exact ⟨fun hlive => ⟨hlive, fun _ _ hdir => hdir⟩, And.left⟩
  | unlink hprunes _ hgone hx ih =>
    rw [set_live, ih]
    refine and_congr_right fun _ => forall₂_congr fun e m => imp_congr_right fun hdir => ?_
    refine ⟨fun hkept => (set_entry_ne _ ?_).trans hkept, fun hkept => ?_⟩
    · rintro ⟨rfl, rfl⟩
      exact hx d (Option.some.inj (hgone.symm.trans hkept))
    · rcases set_entry_eq_some hkept with ⟨-, -, heq⟩ | hold
      · cases heq
      · exact hold
  | rmdir hprunes _ hgone hempty ih =>
    rename_i k g₁ a i b hP
    have hdrop : ((g₁.set a b none).drop i).live d ↔ d ≠ i ∧ g₁.live d := Iff.rfl
    rw [hdrop, ih, drop_entry]
    constructor
    · rintro ⟨hne, hlive, hall⟩
      refine ⟨hlive, fun e m hdir => (set_entry_ne _ ?_).trans (hall e m hdir)⟩
      rintro ⟨rfl, rfl⟩
      exact hne (DirEntry.dir.inj (Option.some.inj ((hall e m hdir).symm.trans hgone)))
    · rintro ⟨hlive, hall⟩
      refine ⟨?_, hlive, fun e m hdir => ?_⟩
      · rintro rfl
        have hkept := hall a b (hprunes.part hgone)
        rw [set_entry_self] at hkept
        cases hkept
      · rcases set_entry_eq_some (hall e m hdir) with ⟨-, -, heq⟩ | hold
        · cases heq
        · exact hold

/-- **The count** is the number of these names. -/
theorem lostFiles_ncard (h : Prunes P g k g') :
    (lostFiles g g').Finite ∧ (lostFiles g g').ncard = k := by
  induction h with
  | refl =>
    have hnone : lostFiles g g = ∅ := by
      refine Set.eq_empty_iff_forall_notMem.2 fun p hp => ?_
      obtain ⟨x, hentry, -, hgone⟩ := hp
      rw [hgone] at hentry
      cases hentry
    rw [hnone]
    exact ⟨Set.finite_empty, Set.ncard_empty _⟩
  | unlink hprunes _ hentry hx ih =>
    rename_i k g₁ a b x _
    have hinsert : lostFiles g (g₁.set a b none) = insert (a, b) (lostFiles g g₁) := by
      refine Set.ext fun p => ?_
      rw [Set.mem_insert_iff]
      by_cases hp : p = (a, b)
      · subst hp
        exact iff_of_true ⟨x, hprunes.part hentry, hx, set_entry_self ..⟩ (Or.inl rfl)
      · have hne : ¬(p.1 = a ∧ p.2 = b) := fun heq => hp (Prod.ext heq.1 heq.2)
        rw [or_iff_right hp, lostFiles, lostFiles, Set.mem_ofPred_eq, Set.mem_ofPred_eq,
          set_entry_ne _ hne]
    have hnew : (a, b) ∉ lostFiles g g₁ := by
      rintro ⟨y, -, -, hgone⟩
      rw [hentry] at hgone
      cases hgone
    rw [hinsert]
    exact ⟨ih.1.insert _, (Set.ncard_insert_of_notMem hnew ih.1).trans (congrArg (· + 1) ih.2)⟩
  | rmdir hprunes _ hentry hempty ih =>
    rename_i k g₁ a i b _
    have hsame : lostFiles g ((g₁.set a b none).drop i) = lostFiles g g₁ := by
      refine Set.ext fun p => ?_
      by_cases hp : p = (a, b)
      · subst hp
        refine iff_of_false ?_ ?_
        · rintro ⟨x, hx, hfile, -⟩
          rw [hprunes.part hentry] at hx
          exact hfile i (Option.some.inj hx).symm
        · rintro ⟨x, hx, hfile, -⟩
          rw [hprunes.part hentry] at hx
          exact hfile i (Option.some.inj hx).symm
      · have hne : ¬(p.1 = a ∧ p.2 = b) := fun heq => hp (Prod.ext heq.1 heq.2)
        rw [lostFiles, lostFiles, Set.mem_ofPred_eq, Set.mem_ofPred_eq, drop_entry,
          set_entry_ne _ hne]
    rw [hsame]
    exact ih

end Prunes

/-! ## Finite trees -/

/-- A directory holds finitely many names, and so does each one below it, and there is an end to how
far it is down. -/
inductive FiniteTree (g : DirGraph ι ν) : ι → Prop where
  /-- the directories in it are such -/
  | intro {d : ι} (names : List ν) (hnames : ∀ n x, g.entry d n = some x → n ∈ names)
      (hchild : ∀ n i, g.entry d n = some (.dir i) → FiniteTree g i) : FiniteTree g d

namespace FiniteTree

variable {g g' : DirGraph ι ν} {d i : ι}

omit [DecidableEq ι] [DecidableEq ν] in
/-- With fewer names it is finite too. -/
theorem of_part (h : g.FiniteTree d) (hpart : g'.Part g) : g'.FiniteTree d := by
  induction h with
  | intro names hnames _ ih =>
    exact .intro names (fun n x hx => hnames n x (hpart hx)) fun n i hi => ih n i (hpart hi)

omit [DecidableEq ι] [DecidableEq ν] in
/-- No directory is in itself. -/
theorem not_inside (h : g.FiniteTree d) (hc : g.Child d i) : ¬g.Inside i d := by
  induction h generalizing i with
  | intro names _ _ ih =>
    intro hin
    obtain ⟨n, hn⟩ := hc
    rcases hin.cases_head with rfl | ⟨j, hj, hin'⟩
    · exact ih n _ hn ⟨n, hn⟩ .refl
    · exact ih n i hn hj (hin'.tail ⟨n, hn⟩)

end FiniteTree

/-! ## Without a tree -/

open Classical in
/-- Everything inside of a directory is gone, with a name. -/
noncomputable def without (g : DirGraph ι ν) (root : ι) (path : ι × ν) : DirGraph ι ν where
  entry d n := if g.Inside root d ∨ (d, n) = path then none else g.entry d n
  live d := g.live d ∧ ¬g.Inside root d

/-- The names of a tree: those inside, and its own. -/
def OfTree (g : DirGraph ι ν) (root : ι) (path : ι × ν) (d : ι) (n : ν) : Prop :=
  g.Inside root d ∨ (d, n) = path

namespace Prunes

variable {P : ι → ν → Prop} {g g' : DirGraph ι ν} {k : ℕ} {root : ι} {path : ι × ν}

/-- **The whole tree.** When the name of a tree is pruned away with names of the tree, nothing is left
of it, and everything else is. -/
theorem eq_without (h : Prunes (g.OfTree root path) g k g')
    (hpath : g.entry path.1 path.2 = some (.dir root)) (hgone : g'.entry path.1 path.2 = none) :
    g' = g.without root path := by
  have hempty : ∀ {d n x}, g.Inside root d → g'.entry d n ≠ some x := by
    intro d n x hin hentry
    induction hin generalizing n x with
    | refl =>
      rw [h.parent hentry hpath] at hgone
      cases hgone
    | tail _ hc ih =>
      obtain ⟨m, hm⟩ := hc
      exact ih (h.parent hentry hm)
  have hentry : g'.entry = (g.without root path).entry := by
    funext d n
    by_cases hin : g.Inside root d ∨ (d, n) = path
    · have hnone : (g.without root path).entry d n = none := if_pos hin
      rw [hnone]
      rcases hin with hin | heq
      · exact Option.eq_none_iff_forall_ne_some.2 fun x => hempty hin
      · rw [← heq] at hgone
        exact hgone
    · have hsame : (g.without root path).entry d n = g.entry d n := if_neg hin
      rw [hsame, h.entry_eq hin]
  have hlive : g'.live = (g.without root path).live := by
    funext d
    refine propext (h.live_iff.trans (and_congr_right fun hlive => ?_))
    constructor
    · intro hall hin
      rcases hin.cases_tail with heq | ⟨e, hin, m, hm⟩
      · subst heq
        have hkept := hall path.1 path.2 hpath
        rw [hgone] at hkept
        cases hkept
      · exact hempty hin (hall e m hm)
    · intro hout e m hdir
      refine (h.entry_eq ?_).trans hdir
      rintro (hin | rfl)
      · exact hout (hin.entry hdir)
      · obtain rfl := DirEntry.dir.inj (Option.some.inj (hpath.symm.trans hdir))
        exact hout .refl
  obtain ⟨entry, live⟩ := g'
  exact congr (congrArg DirGraph.mk hentry) hlive

end Prunes

end DirGraph
