import Mathlib.Data.List.DropRight
import HpcWorkspace.Lib.Dashed

/-!
# Paths

A path is a word in which a separator stands between names. Where it leads is settled by its names
and by whether it starts at the root; separators that are repeated or stand at the end add nothing.
Names are not looked up, so `.` and `..` in a path stay what they are; that a path is a child of
another one says that it has one name more.

Paths are joined in two ways: as words, with a separator in between, and as paths, where a path that
starts at the root replaces the one before it. The two agree on all others.
-/

namespace Paths

universe u

variable {α : Type u} [DecidableEq α] (sep : α)

/-- Does a path start at the root? -/
def isAbsolute (p : List α) : Bool := p.head? == some sep

/-- The names in a path. -/
def names (p : List α) : List (List α) := (p.splitOn sep).filter fun name => name ≠ []

/-- `p / q`: a path from the root replaces the one before it. -/
def join (p q : List α) : List α :=
  if isAbsolute sep q then q
  else if p = [] ∨ p.getLast? = some sep then p ++ q
  else p ++ sep :: q

/-- The path without its last name and the separators before it. -/
def parent (p : List α) : List α :=
  match Dashed.splitLast sep p with
  | none => []
  | some (dir, _) =>
    let dir := dir.rdropWhile (· == sep)
    if dir = [] then [sep] else dir

/-- The last name of a path, empty when a separator is at its end. -/
def filename (p : List α) : List α :=
  match Dashed.splitLast sep p with
  | none => p
  | some (_, name) => name

/-- Two paths that lead to the same place. -/
structure Same (p q : List α) : Prop where
  /-- both start at the root, or none -/
  isAbsolute : isAbsolute sep p = isAbsolute sep q
  /-- they have the same names -/
  names : names sep p = names sep q

/-- A path leads to what is called `name` in a directory. -/
structure Child (dir name p : List α) : Prop where
  /-- both start at the root, or none -/
  isAbsolute : isAbsolute sep p = isAbsolute sep dir
  /-- it has one name more -/
  names : names sep p = names sep dir ++ [name]

variable {sep : α} {p p' q dir dir' name : List α}

/-! ## Names -/

@[simp] theorem names_nil : names sep [] = [] := by
  simp [names]

/-- Words joined by a separator have the names of both. -/
@[simp] theorem names_append (p q : List α) :
    names sep (p ++ sep :: q) = names sep p ++ names sep q := by
  rw [names, List.splitOn_append_cons_self, List.filter_append, names, names]

/-- A separator at the end adds nothing. -/
@[simp] theorem names_concat (p : List α) : names sep (p ++ [sep]) = names sep p := by
  rw [names_append, names_nil, List.append_nil]

theorem names_name (hslash : sep ∉ name) (hne : name ≠ []) : names sep name = [name] := by
  rw [names, List.splitOn_eq_singleton hslash]
  simp [hne]

/-- Nor do several of them. -/
theorem names_rdropWhile (p : List α) : names sep (p.rdropWhile (· == sep)) = names sep p := by
  induction p using List.reverseRecOn with
  | nil => rfl
  | append_singleton p x ih =>
    rw [List.rdropWhile_concat]
    split
    · rename_i hx
      rw [beq_iff_eq] at hx
      rw [ih, hx, names_concat]
    · rfl

/-! ## The root -/

theorem isAbsolute_append (p q : List α) :
    isAbsolute sep (p ++ sep :: q) = isAbsolute sep (p ++ [sep]) := by
  cases p <;> rfl

theorem isAbsolute_append_of_ne (hp : p ≠ []) (q : List α) :
    isAbsolute sep (p ++ q) = isAbsolute sep p := by
  obtain ⟨x, xs, rfl⟩ := List.exists_cons_of_ne_nil hp
  rfl

theorem isAbsolute_rdropWhile (h : p.rdropWhile (· == sep) ≠ []) :
    isAbsolute sep (p.rdropWhile (· == sep)) = isAbsolute sep p := by
  obtain ⟨seps, happ⟩ := List.rdropWhile_prefix (fun x => x == sep) (l := p)
  conv_rhs => rw [← happ]
  exact (isAbsolute_append_of_ne h seps).symm

/-! ## Joining -/

/-- Joined as paths or as words, the names are those of both. -/
theorem names_join (hq : isAbsolute sep q = false) (p : List α) :
    names sep (join sep p q) = names sep p ++ names sep q := by
  rw [join, if_neg (by simp [hq])]
  split
  · rename_i hend
    rcases hend with rfl | hlast
    · rw [List.nil_append, names_nil, List.nil_append]
    · obtain ⟨front, rfl⟩ := List.getLast?_eq_some_iff.mp hlast
      rw [List.append_assoc, List.singleton_append, names_append, names_concat]
  · exact names_append p q

theorem isAbsolute_join (hq : isAbsolute sep q = false) (p : List α) :
    isAbsolute sep (join sep p q) = isAbsolute sep p := by
  rw [join, if_neg (by simp [hq])]
  by_cases hp : p = []
  · subst hp
    rw [if_pos (Or.inl rfl), List.nil_append, hq]
    rfl
  · split <;> exact isAbsolute_append_of_ne hp _

/-- The two ways to join agree. -/
theorem same_join (hp : p ≠ []) (hq : isAbsolute sep q = false) :
    Same sep (join sep p q) (p ++ sep :: q) where
  isAbsolute := by rw [isAbsolute_join hq, isAbsolute_append_of_ne hp]
  names := by rw [names_join hq, names_append]

/-! ## Paths to the same place -/

namespace Same

theorem refl (p : List α) : Same sep p p := ⟨rfl, rfl⟩

theorem symm (h : Same sep p q) : Same sep q p := ⟨h.isAbsolute.symm, h.names.symm⟩

theorem join (h : Same sep p p') (q : List α) : Same sep (join sep p q) (Paths.join sep p' q) := by
  cases hq : Paths.isAbsolute sep q with
  | true =>
    rw [Paths.join, Paths.join, if_pos hq, if_pos hq]
    exact .refl q
  | false =>
    exact ⟨by rw [isAbsolute_join hq, isAbsolute_join hq, h.isAbsolute],
      by rw [names_join hq, names_join hq, h.names]⟩

theorem append (h : Same sep p p') (hp : p ≠ []) (hp' : p' ≠ []) (q : List α) :
    Same sep (p ++ sep :: q) (p' ++ sep :: q) :=
  ⟨by rw [isAbsolute_append_of_ne hp, isAbsolute_append_of_ne hp', h.isAbsolute],
    by rw [names_append, names_append, h.names]⟩

end Same

/-! ## Parents and last names -/

/-- The parent is where a path leads without its last name. -/
theorem same_parent (hname : sep ∉ name) (dir : List α) :
    Same sep (parent sep (dir ++ sep :: name)) (dir ++ [sep]) := by
  rw [parent, Dashed.splitLast_append hname]
  dsimp only
  split
  · rename_i hdir
    constructor
    · cases dir with
      | nil => rfl
      | cons x xs =>
        have hall := List.rdropWhile_eq_nil_iff.mp hdir x (List.mem_cons_self ..)
        rw [beq_iff_eq] at hall
        rw [hall]
        rfl
    · rw [names_concat, ← names_rdropWhile dir, hdir]
      exact names_concat []
  · rename_i hdir
    have hne : dir ≠ [] := by
      rintro rfl
      exact hdir rfl
    exact ⟨by rw [isAbsolute_rdropWhile hdir, isAbsolute_append_of_ne hne],
      by rw [names_rdropWhile, names_concat]⟩

theorem parent_ne_nil (hname : sep ∉ name) (dir : List α) :
    parent sep (dir ++ sep :: name) ≠ [] := by
  rw [parent, Dashed.splitLast_append hname]
  dsimp only
  split
  · exact List.cons_ne_nil _ _
  · assumption

theorem filename_append (hname : sep ∉ name) (dir : List α) :
    filename sep (dir ++ sep :: name) = name := by
  rw [filename, Dashed.splitLast_append hname]

/-! ## Children -/

namespace Child

variable (hslash : sep ∉ name) (hne : name ≠ [])

include hslash hne

/-- A name after a separator. -/
theorem append (dir : List α) : Child sep (dir ++ [sep]) name (dir ++ sep :: name) :=
  ⟨isAbsolute_append dir name, by rw [names_append, names_concat, names_name hslash hne]⟩

/-- The same below a directory that is named. -/
theorem append_of_ne (hdir : dir ≠ []) : Child sep dir name (dir ++ sep :: name) :=
  ⟨isAbsolute_append_of_ne hdir _, by rw [names_append, names_name hslash hne]⟩

/-- A name joined as a path. -/
theorem join (dir : List α) : Child sep dir name (join sep dir name) := by
  have hrel : Paths.isAbsolute sep name = false := by
    obtain ⟨x, xs, rfl⟩ := List.exists_cons_of_ne_nil hne
    have hx : x ≠ sep := fun heq => hslash (heq ▸ List.mem_cons_self ..)
    simp [Paths.isAbsolute, hx]
  exact ⟨isAbsolute_join hrel dir, by rw [names_join hrel, names_name hslash hne]⟩

omit hslash hne

theorem of_same (h : Child sep dir name p) (hsame : Same sep dir dir') : Child sep dir' name p :=
  ⟨h.isAbsolute.trans hsame.isAbsolute, by rw [h.names, hsame.names]⟩

end Child

end Paths
