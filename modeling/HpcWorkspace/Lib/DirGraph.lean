import Mathlib.Logic.Relation

/-!
# Directories and the names in them

A file system as a graph: directories hold names, and a name stands for a directory or for
something else. Directories are removed when they are empty, and are not moved into themselves. So
what is inside of a directory stays inside, however its inside is rearranged, until it is removed
itself; and nothing from outside comes in.
-/

universe u v

/-- What a name stands for. -/
inductive DirEntry (ι : Type u) where
  /-- a directory -/
  | dir (i : ι)
  /-- a symbolic link -/
  | symlink
  /-- something else -/
  | other
  deriving DecidableEq

/-- Directories and the names in them. -/
structure DirGraph (ι : Type u) (ν : Type v) where
  /-- the names of a directory -/
  entry : ι → ν → Option (DirEntry ι)
  /-- the directories that exist -/
  live : ι → Prop

namespace DirGraph

variable {ι : Type u} {ν : Type v}

/-- One directory is in the other. -/
def Child (g : DirGraph ι ν) (d i : ι) : Prop := ∃ n, g.entry d n = some (.dir i)

/-- A directory is another one or somewhere below it. -/
def Inside (g : DirGraph ι ν) : ι → ι → Prop := Relation.ReflTransGen g.Child

/-- Nothing is in a directory. -/
def Empty (g : DirGraph ι ν) (d : ι) : Prop := ∀ n, g.entry d n = none

/-- Names are in directories that exist, stand for such, and each of these has one name. -/
structure WellFormed (g : DirGraph ι ν) : Prop where
  /-- a directory with a name in it exists -/
  holds : ∀ {d n x}, g.entry d n = some x → g.live d
  /-- a directory with a name exists -/
  child : ∀ {d n i}, g.entry d n = some (.dir i) → g.live i
  /-- a directory has one name -/
  single : ∀ {d n d' n' i}, g.entry d n = some (.dir i) → g.entry d' n' = some (.dir i) →
    d = d' ∧ n = n'

variable {g g' : DirGraph ι ν} {root d e i : ι} {n : ν}

theorem Inside.entry (h : g.Inside root d) (hentry : g.entry d n = some (.dir i)) :
    g.Inside root i := h.tail ⟨n, hentry⟩

/-- Only the directory itself is inside of an empty one. -/
theorem Empty.eq_of_inside (h : g.Empty d) (hin : g.Inside d e) : e = d := by
  rcases hin.cases_head with heq | ⟨c, ⟨n, hn⟩, -⟩
  · exact heq.symm
  · rw [h n] at hn
    cases hn

theorem Empty.not_child (h : g.Empty d) : ¬g.Child d i := by
  rintro ⟨n, hn⟩
  rw [h n] at hn
  cases hn

/-- What holds of the children of what it holds of, holds inside. -/
theorem Inside.induct {P : ι → Prop} (hroot : P root) (hchild : ∀ d i, P d → g.Child d i → P i)
    (h : g.Inside root d) : P d := by
  induction h with
  | refl => exact hroot
  | tail _ hc ih => exact hchild _ _ ih hc

/-- **What is kept.** Directories stay inside when the one above each of them is kept, and the step
from there is, or they are inside by another way. -/
theorem Inside.keep {P : ι → Prop} (hkeep : ∀ d i, g.Child d i → P i →
    P d ∧ (g'.Child d i ∨ g'.Inside root i)) (h : g.Inside root d) (hd : P d) :
    g'.Inside root d := by
  induction h with
  | refl => exact .refl
  | tail _ hc ih =>
    obtain ⟨hP, hstep | hin⟩ := hkeep _ _ hc hd
    · exact (ih hP).tail hstep
    · exact hin

variable [DecidableEq ι] [DecidableEq ν]

/-! ## Changes -/

/-- A name stands for something, or for nothing. -/
def set (g : DirGraph ι ν) (d : ι) (n : ν) (x : Option (DirEntry ι)) : DirGraph ι ν :=
  { g with entry := fun d' n' => if d' = d ∧ n' = n then x else g.entry d' n' }

/-- A directory exists. -/
def add (g : DirGraph ι ν) (i : ι) : DirGraph ι ν := { g with live := fun j => j = i ∨ g.live j }

/-- A directory no longer exists. -/
def drop (g : DirGraph ι ν) (i : ι) : DirGraph ι ν := { g with live := fun j => j ≠ i ∧ g.live j }

omit [DecidableEq ι] [DecidableEq ν] in
@[simp] theorem drop_entry (g : DirGraph ι ν) (i : ι) : (g.drop i).entry = g.entry := rfl

@[simp] theorem set_live (g : DirGraph ι ν) (d : ι) (n : ν) (x : Option (DirEntry ι)) :
    (g.set d n x).live = g.live := rfl

theorem set_entry_self (g : DirGraph ι ν) (d : ι) (n : ν) (x : Option (DirEntry ι)) :
    (g.set d n x).entry d n = x := if_pos ⟨rfl, rfl⟩

theorem set_entry_ne {d' : ι} {n' : ν} (x : Option (DirEntry ι)) (h : ¬(d' = d ∧ n' = n)) :
    (g.set d n x).entry d' n' = g.entry d' n' := if_neg h

theorem set_entry_eq_some {d' : ι} {n' : ν} {x : Option (DirEntry ι)} {y : DirEntry ι}
    (h : (g.set d n x).entry d' n' = some y) :
    (d' = d ∧ n' = n ∧ x = some y) ∨ g.entry d' n' = some y := by
  by_cases hself : d' = d ∧ n' = n
  · obtain ⟨rfl, rfl⟩ := hself
    rw [set_entry_self] at h
    exact Or.inl ⟨rfl, rfl, h⟩
  · rw [set_entry_ne x hself] at h
    exact Or.inr h

/-- The ways to change names in directories of a kind: names are made, removed and renamed. A
directory is removed or replaced only when it is empty, and is not moved into itself. -/
inductive Writes (P : ι → Prop) (g : DirGraph ι ν) : DirGraph ι ν → Prop where
  /-- `creat`, `symlink`, `link` -/
  | create {d : ι} {n : ν} {x : DirEntry ι} (hd : P d) (hlive : g.live d)
      (hfree : g.entry d n = none) (hx : ∀ i, x ≠ .dir i) : Writes P g (g.set d n (some x))
  /-- `mkdir` -/
  | mkdir {d i : ι} {n : ν} (hd : P d) (hlive : g.live d) (hfree : g.entry d n = none)
      (hnew : ¬g.live i) : Writes P g ((g.set d n (some (.dir i))).add i)
  /-- `unlink` -/
  | unlink {d : ι} {n : ν} {x : DirEntry ι} (hd : P d) (hentry : g.entry d n = some x)
      (hx : ∀ i, x ≠ .dir i) : Writes P g (g.set d n none)
  /-- `rmdir` -/
  | rmdir {d i : ι} {n : ν} (hd : P d) (hentry : g.entry d n = some (.dir i))
      (hempty : g.Empty i) : Writes P g ((g.set d n none).drop i)
  /-- `rename` of something that is no directory -/
  | rename {a b : ι} {n m : ν} {x : DirEntry ι} (ha : P a) (hb : P b) (hlive : g.live b)
      (hentry : g.entry a n = some x) (hx : ∀ i, x ≠ .dir i)
      (htarget : ∀ i, g.entry b m ≠ some (.dir i)) :
      Writes P g ((g.set a n none).set b m (some x))
  /-- `rename` of a directory -/
  | renameDir {a b i : ι} {n m : ν} (ha : P a) (hb : P b) (hlive : g.live b)
      (hentry : g.entry a n = some (.dir i)) (hout : ¬g.Inside i b)
      (htarget : g.entry b m = none) : Writes P g ((g.set a n none).set b m (some (.dir i)))
  /-- `rename` of a directory to the name of an empty one -/
  | replaceDir {a b i j : ι} {n m : ν} (ha : P a) (hb : P b)
      (hentry : g.entry a n = some (.dir i)) (hout : ¬g.Inside i b)
      (htarget : g.entry b m = some (.dir j)) (hempty : g.Empty j) (hne : j ≠ i) :
      Writes P g (((g.set a n none).set b m (some (.dir i))).drop j)

namespace Writes

variable {P : ι → Prop}

/-- Something is written. -/
theorem exists_mem (h : Writes P g g') : ∃ d, P d := by
  cases h with
  | create hd => exact ⟨_, hd⟩
  | mkdir hd => exact ⟨_, hd⟩
  | unlink hd => exact ⟨_, hd⟩
  | rmdir hd => exact ⟨_, hd⟩
  | rename ha => exact ⟨_, ha⟩
  | renameDir ha => exact ⟨_, ha⟩
  | replaceDir ha => exact ⟨_, ha⟩

/-- Other directories keep their names. -/
theorem entry_eq (h : Writes P g g') (hd : ¬P d) (n : ν) : g'.entry d n = g.entry d n := by
  have hne : ∀ {a : ι}, P a → ∀ m : ν, ¬(d = a ∧ n = m) := fun ha m heq => hd (heq.1 ▸ ha)
  cases h with
  | create hd' => exact set_entry_ne _ (hne hd' _)
  | mkdir hd' => exact set_entry_ne _ (hne hd' _)
  | unlink hd' => exact set_entry_ne _ (hne hd' _)
  | rmdir hd' => exact set_entry_ne _ (hne hd' _)
  | rename ha hb => exact (set_entry_ne _ (hne hb _)).trans (set_entry_ne _ (hne ha _))
  | renameDir ha hb => exact (set_entry_ne _ (hne hb _)).trans (set_entry_ne _ (hne ha _))
  | replaceDir ha hb => exact (set_entry_ne _ (hne hb _)).trans (set_entry_ne _ (hne ha _))

/-- A directory that has a name had it before, or was in one of the directories, or is new. -/
theorem of_entry (h : Writes P g g') (hentry : g'.entry d n = some (.dir i)) :
    g.entry d n = some (.dir i) ∨
      P d ∧ ((∃ a m, P a ∧ g.entry a m = some (.dir i)) ∨ ¬g.live i) := by
  cases h with
  | create hd _ _ hx =>
    rcases set_entry_eq_some hentry with ⟨-, -, heq⟩ | hold
    · exact absurd (Option.some.inj heq) (hx i)
    · exact Or.inl hold
  | mkdir hd _ _ hnew =>
    rcases set_entry_eq_some hentry with ⟨rfl, -, heq⟩ | hold
    · cases heq
      exact Or.inr ⟨hd, Or.inr hnew⟩
    · exact Or.inl hold
  | unlink hd =>
    rcases set_entry_eq_some hentry with ⟨-, -, heq⟩ | hold
    · cases heq
    · exact Or.inl hold
  | rmdir hd =>
    rcases set_entry_eq_some hentry with ⟨-, -, heq⟩ | hold
    · cases heq
    · exact Or.inl hold
  | rename ha hb _ _ hx =>
    rcases set_entry_eq_some hentry with ⟨-, -, heq⟩ | hmid
    · exact absurd (Option.some.inj heq) (hx i)
    · rcases set_entry_eq_some hmid with ⟨-, -, heq⟩ | hold
      · cases heq
      · exact Or.inl hold
  | renameDir ha hb _ hmoved =>
    rcases set_entry_eq_some hentry with ⟨rfl, -, heq⟩ | hmid
    · cases heq
      exact Or.inr ⟨hb, Or.inl ⟨_, _, ha, hmoved⟩⟩
    · rcases set_entry_eq_some hmid with ⟨-, -, heq⟩ | hold
      · cases heq
      · exact Or.inl hold
  | replaceDir ha hb hmoved =>
    rcases set_entry_eq_some hentry with ⟨rfl, -, heq⟩ | hmid
    · cases heq
      exact Or.inr ⟨hb, Or.inl ⟨_, _, ha, hmoved⟩⟩
    · rcases set_entry_eq_some hmid with ⟨-, -, heq⟩ | hold
      · cases heq
      · exact Or.inl hold

/-- A directory that is gone was in one of the directories. -/
theorem of_not_live (h : Writes P g g') (hlive : g.live i) (hgone : ¬g'.live i) :
    ∃ d n, P d ∧ g.entry d n = some (.dir i) := by
  have hdropped : ∀ {j : ι}, ¬(i ≠ j ∧ g.live i) → i = j := fun hno =>
    Classical.byContradiction fun hne => hno ⟨hne, hlive⟩
  cases h with
  | create => exact absurd hlive hgone
  | mkdir => exact absurd (Or.inr hlive) hgone
  | unlink => exact absurd hlive hgone
  | rmdir hd hentry =>
    obtain rfl := hdropped hgone
    exact ⟨_, _, hd, hentry⟩
  | rename => exact absurd hlive hgone
  | renameDir => exact absurd hlive hgone
  | replaceDir ha hb _ _ htarget =>
    obtain rfl := hdropped hgone
    exact ⟨_, _, hb, htarget⟩

/-- A directory that exists did so before, or was made in one of the directories. -/
theorem of_live (h : Writes P g g') (hlive : g'.live i) :
    g.live i ∨ ∃ d n, P d ∧ g.live d ∧ g'.entry d n = some (.dir i) := by
  cases h with
  | create => exact Or.inl hlive
  | mkdir hd hold =>
    rcases hlive with rfl | hlive
    · exact Or.inr ⟨_, _, hd, hold, set_entry_self ..⟩
    · exact Or.inl hlive
  | unlink => exact Or.inl hlive
  | rmdir => exact Or.inl hlive.2
  | rename => exact Or.inl hlive
  | renameDir => exact Or.inl hlive
  | replaceDir => exact Or.inl hlive.2

end Writes

/-! ## Well-formed file systems -/

theorem set_entry_eq_dir {d' : ι} {n' : ν} {x : Option (DirEntry ι)}
    (h : (g.set d n x).entry d' n' = some (.dir i)) :
    (d' = d ∧ n' = n ∧ x = some (.dir i)) ∨
      (¬(d' = d ∧ n' = n) ∧ g.entry d' n' = some (.dir i)) := by
  by_cases hself : d' = d ∧ n' = n
  · obtain ⟨rfl, rfl⟩ := hself
    rw [set_entry_self] at h
    exact Or.inl ⟨rfl, rfl, h⟩
  · rw [set_entry_ne x hself] at h
    exact Or.inr ⟨hself, h⟩

namespace WellFormed

variable {x : DirEntry ι}

/-- A name for something that is no directory. -/
theorem set (hg : g.WellFormed) (hlive : g.live d) (hx : ∀ i, x ≠ .dir i) :
    (g.set d n (some x)).WellFormed := by
  have hold : ∀ {d' n' j}, (g.set d n (some x)).entry d' n' = some (.dir j) →
      g.entry d' n' = some (.dir j) := by
    intro d' n' j h
    rcases set_entry_eq_dir h with ⟨-, -, heq⟩ | ⟨-, hold⟩
    · exact absurd (Option.some.inj heq) (hx j)
    · exact hold
  refine ⟨fun h => ?_, fun h => hg.child (hold h), fun h h' => hg.single (hold h) (hold h')⟩
  rcases set_entry_eq_some h with ⟨rfl, -, -⟩ | hold
  · exact hlive
  · exact hg.holds hold

/-- A name less. -/
theorem clear (hg : g.WellFormed) : (g.set d n none).WellFormed := by
  have hold : ∀ {d' n' y}, (g.set d n none).entry d' n' = some y → g.entry d' n' = some y := by
    intro d' n' y h
    rcases set_entry_eq_some h with ⟨-, -, heq⟩ | hold
    · cases heq
    · exact hold
  exact ⟨fun h => hg.holds (hold h), fun h => hg.child (hold h),
    fun h h' => hg.single (hold h) (hold h')⟩

/-- A name for a directory that has none. -/
theorem setDir (hg : g.WellFormed) (hlive : g.live d)
    (hnone : ∀ d' n', ¬(d' = d ∧ n' = n) → g.entry d' n' ≠ some (.dir i)) :
    ((g.set d n (some (.dir i))).add i).WellFormed := by
  refine ⟨fun h => ?_, fun h => ?_, fun h h' => ?_⟩
  · rcases set_entry_eq_some h with ⟨rfl, -, -⟩ | hold
    · exact Or.inr hlive
    · exact Or.inr (hg.holds hold)
  · rcases set_entry_eq_dir h with ⟨-, -, heq⟩ | ⟨-, hold⟩
    · cases heq
      exact Or.inl rfl
    · exact Or.inr (hg.child hold)
  · rcases set_entry_eq_dir h with ⟨rfl, rfl, heq⟩ | ⟨hne, hold⟩ <;>
      rcases set_entry_eq_dir h' with ⟨rfl, rfl, heq'⟩ | ⟨hne', hold'⟩
    · exact ⟨rfl, rfl⟩
    · cases heq
      exact absurd hold' (hnone _ _ hne')
    · cases heq'
      exact absurd hold (hnone _ _ hne)
    · exact hg.single hold hold'

omit [DecidableEq ι] [DecidableEq ν] in
/-- A directory that is empty and has no name goes away. -/
theorem drop (hg : g.WellFormed) (hempty : g.Empty i) (hnone : ∀ d n, g.entry d n ≠ some (.dir i)) :
    (g.drop i).WellFormed := by
  refine ⟨fun h => ⟨?_, hg.holds h⟩, fun h => ⟨?_, hg.child h⟩, hg.single⟩
  · rintro rfl
    rw [drop_entry, hempty] at h
    cases h
  · rintro rfl
    exact hnone _ _ h

omit [DecidableEq ι] [DecidableEq ν] in
/-- Adding a directory that exists changes nothing. -/
theorem of_add (hg : (g.add i).WellFormed) (hlive : g.live i) : g.WellFormed := by
  have hold : ∀ {j}, (g.add i).live j → g.live j := by
    rintro j (rfl | h)
    · exact hlive
    · exact h
  exact ⟨fun h => hold (hg.holds h), fun h => hold (hg.child h), hg.single⟩

end WellFormed

namespace Writes

variable {P : ι → Prop}

/-- Changes keep a file system well-formed. -/
theorem wellFormed (h : Writes P g g') (hg : g.WellFormed) : g'.WellFormed := by
  have hunnamed : ∀ {a n j}, g.entry a n = some (.dir j) →
      ∀ d' n', (g.set a n none).entry d' n' ≠ some (.dir j) := by
    intro a n j hentry d' n' h
    rcases set_entry_eq_dir h with ⟨-, -, heq⟩ | ⟨hne, hold⟩
    · cases heq
    · exact hne (hg.single hold hentry)
  have hempty' : ∀ {a n j}, g.Empty j → (g.set a n none).Empty j := by
    intro a n j hempty n'
    cases hx : (g.set a n none).entry j n' with
    | none => rfl
    | some x =>
      rcases set_entry_eq_some hx with ⟨-, -, heq⟩ | hold
      · cases heq
      · rw [hempty] at hold
        cases hold
  cases h with
  | create _ hlive _ hx => exact hg.set hlive hx
  | mkdir _ hlive _ hnew => exact hg.setDir hlive fun d' n' _ h => hnew (hg.child h)
  | unlink => exact hg.clear
  | rmdir _ hentry hempty => exact hg.clear.drop (hempty' hempty) (hunnamed hentry)
  | rename _ _ hlive _ hx => exact hg.clear.set hlive hx
  | renameDir _ _ hlive hentry =>
    exact (hg.clear.setDir hlive fun d' n' _ => hunnamed hentry d' n').of_add (hg.child hentry)
  | replaceDir ha hb hentry hout htarget hempty hne =>
    rename_i a b i j n m
    have hmoved : ((g.set a n none).set b m (some (.dir i))).WellFormed :=
      (hg.clear.setDir (hg.holds htarget) fun d' n' _ => hunnamed hentry d' n').of_add
        (hg.child hentry)
    refine hmoved.drop (fun n' => ?_) fun d' n' h => ?_
    · have hb : ¬(j = b ∧ n' = m) := by
        rintro ⟨rfl, rfl⟩
        rw [hempty] at htarget
        cases htarget
      rw [set_entry_ne _ hb]
      exact hempty' hempty n'
    · rcases set_entry_eq_dir h with ⟨-, -, heq⟩ | ⟨hne', hmid⟩
      · exact hne (DirEntry.dir.inj (Option.some.inj heq)).symm
      · rcases set_entry_eq_dir hmid with ⟨-, -, heq⟩ | ⟨-, hold⟩
        · cases heq
        · exact hne' (hg.single hold htarget)

end Writes

/-! ## What stays inside -/

variable {a b : ι} {m : ν} {x : Option (DirEntry ι)}

/-- A step stays when the name that changes stood for another directory, or for none. -/
theorem Child.set (hc : g.Child d i) (hother : g.entry a n ≠ some (.dir i)) :
    (g.set a n x).Child d i := by
  obtain ⟨n', hn'⟩ := hc
  refine ⟨n', (set_entry_ne _ ?_).trans hn'⟩
  rintro ⟨rfl, rfl⟩
  exact hother hn'

/-- A step stays when neither of the two names stood for its directory. -/
theorem Child.set_set (hc : g.Child d e) (hother : g.entry a n ≠ some (.dir e))
    (hother' : g.entry b m ≠ some (.dir e)) : ((g.set a n none).set b m x).Child d e := by
  refine (hc.set hother).set fun heq => ?_
  rcases set_entry_eq_dir heq with ⟨-, -, heq⟩ | ⟨-, hold⟩
  · cases heq
  · exact hother' hold

theorem Inside.set (hd : g.Inside root d) (hother : ∀ i, g.entry a n ≠ some (.dir i)) :
    (g.set a n x).Inside root d :=
  hd.keep (P := fun _ => True) (fun _ i hc _ => ⟨trivial, Or.inl (hc.set (hother i))⟩) trivial

/-- Without an empty directory all others are inside as before. -/
theorem Inside.clear (hd : g.Inside root d)
    (hentry : ∀ i, g.entry a n = some (.dir i) → g.Empty i)
    (hkept : g.entry a n ≠ some (.dir d)) : (g.set a n none).Inside root d := by
  refine hd.keep (P := fun e => g.entry a n ≠ some (.dir e)) (fun d e hc he => ?_) hkept
  exact ⟨fun heq => (hentry d heq).not_child hc, Or.inl (hc.set he)⟩

/-- A directory that moves takes along what is in it, to a place that is not in it. -/
theorem Inside.move (hd : g.Inside root d) (hentry : g.entry a n = some (.dir i))
    (hb : g.Inside root b) (hout : ¬g.Inside i b)
    (htarget : ∀ j, g.entry b m = some (.dir j) → g.Empty j)
    (hkept : g.entry b m ≠ some (.dir d)) :
    ((g.set a n none).set b m (some (.dir i))).Inside root d := by
  have hother : ∀ {e}, e ≠ i → g.entry a n ≠ some (.dir e) := by
    intro e he heq
    exact he (DirEntry.dir.inj (Option.some.inj (hentry.symm.trans heq))).symm
  have habove : ∀ {d e}, g.Child d e → g.entry b m ≠ some (.dir d) := fun hc heq =>
    (htarget _ heq).not_child hc
  -- the new place is reached without the directory that is moved there
  have hplace : ((g.set a n none).set b m (some (.dir i))).Inside root b := by
    refine hb.keep (P := fun e => ¬g.Inside i e ∧ g.entry b m ≠ some (.dir e))
      (fun d e hc he => ⟨⟨fun hin => he.1 (hin.tail hc), habove hc⟩, Or.inl ?_⟩) ⟨hout, ?_⟩
    · exact hc.set_set (hother fun heq => he.1 (heq ▸ .refl)) he.2
    · intro heq
      rw [htarget b heq m] at heq
      cases heq
  refine hd.keep (P := fun e => g.entry b m ≠ some (.dir e))
    (fun d e hc he => ⟨habove hc, ?_⟩) hkept
  by_cases hi : e = i
  · exact Or.inr (hi ▸ hplace.entry (set_entry_self ..))
  · exact Or.inl (hc.set_set (hother hi) he)

namespace Writes

variable {P : ι → Prop}

/-- **Nothing gets lost.** Changes inside of a directory leave inside what they do not remove. -/
theorem inside (h : Writes P g g') (hg : g.WellFormed)
    (hP : ∀ d, P d → g.live d → g.Inside root d) (hd : g.Inside root d) (hlive : g'.live d) :
    g'.Inside root d := by
  have hfree : ∀ {a n}, g.entry a n = none → ∀ i, g.entry a n ≠ some (.dir i) := by
    intro a n hnone i heq
    rw [hnone] at heq
    cases heq
  have hfile : ∀ {a n x}, g.entry a n = some x → (∀ i, x ≠ .dir i) →
      ∀ i, g.entry a n ≠ some (.dir i) := by
    intro a n x hentry hx i heq
    rw [hentry] at heq
    exact hx i (Option.some.inj heq)
  have hsame : ∀ {a n i j}, g.entry a n = some (.dir i) → g.entry a n = some (.dir j) → i = j :=
    fun hi hj => DirEntry.dir.inj (Option.some.inj (hi.symm.trans hj))
  cases h with
  | create hd' hlive' hnone hx => exact hd.set (hfree hnone)
  | mkdir hd' hlive' hnone hnew => exact hd.set (hfree hnone)
  | unlink hd' hentry hx => exact hd.set (hfile hentry hx)
  | rmdir hd' hentry hempty =>
    exact hd.clear (fun i hi => hsame hentry hi ▸ hempty) fun heq => hlive.1 (hsame heq hentry)
  | rename ha hb hlive' hentry hx htarget =>
    exact hd.keep (P := fun _ => True) (fun _ i hc _ =>
      ⟨trivial, Or.inl (hc.set_set (hfile hentry hx i) (htarget i))⟩) trivial
  | renameDir ha hb hlive' hentry hout hnone =>
    exact hd.move hentry (hP _ hb hlive') hout (fun j hj => absurd hj (hfree hnone j))
      (hfree hnone d)
  | replaceDir ha hb hentry hout htarget hempty hne =>
    exact hd.move hentry (hP _ hb (hg.holds htarget)) hout (fun j hj => hsame htarget hj ▸ hempty)
      fun heq => hlive.1 (hsame heq htarget)

end Writes

end DirGraph
