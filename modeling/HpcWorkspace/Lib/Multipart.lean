import Mathlib.Data.List.Basic

/-!
# Texts of several parts

Lines that are delimiters split a text into parts: what stands before the first delimiter and after
the closing one belongs to no part. A part, and a whole message, is a header, a blank line and a body.
-/

namespace Multipart

universe u

variable {L : Type u}

/-! ## Header and body -/

/-- The lines before the first blank one. -/
def header (blank : L → Bool) (lines : List L) : List L := lines.takeWhile fun l => !blank l

/-- The lines after it. -/
def body (blank : L → Bool) (lines : List L) : List L := (lines.dropWhile fun l => !blank l).tail

variable {blank : L → Bool}

/-- A header without blank lines is read back. -/
theorem header_append {head rest : List L} {b : L} (hhead : ∀ l ∈ head, blank l = false)
    (hb : blank b = true) : header blank (head ++ b :: rest) = head := by
  have hall : ∀ l ∈ head, (!blank l) = true := fun l hl => by rw [hhead l hl, Bool.not_false]
  rw [header, List.takeWhile_append_of_pos hall, List.takeWhile_cons_of_neg (by simp [hb]),
    List.append_nil]

/-- And so is the body after it. -/
theorem body_append {head rest : List L} {b : L} (hhead : ∀ l ∈ head, blank l = false)
    (hb : blank b = true) : body blank (head ++ b :: rest) = rest := by
  have hall : ∀ l ∈ head, (!blank l) = true := fun l hl => by rw [hhead l hl, Bool.not_false]
  rw [body, List.dropWhile_append_of_pos hall, List.dropWhile_cons_of_neg (by simp [hb]),
    List.tail_cons]

/-! ## Parts -/

/-- What a line is for the reader. -/
inductive Kind where
  /-- a line of a part -/
  | text
  /-- a part begins -/
  | delimiter
  /-- the last part ends -/
  | closing
  deriving DecidableEq

/-- The lines of some parts. -/
def write (delimiter closing : L) (parts : List (List L)) : List L :=
  parts.flatMap (delimiter :: ·) ++ [closing]

/-- What holds of the delimiters and of the lines of the parts holds of all lines. -/
theorem forall_mem_write {P : L → Prop} {delimiter closing : L} {parts : List (List L)}
    (hdelimiter : P delimiter) (hclosing : P closing) (hparts : ∀ part ∈ parts, ∀ l ∈ part, P l) :
    ∀ l ∈ write delimiter closing parts, P l := by
  intro l hl
  rcases List.mem_append.mp hl with hl | hl
  · obtain ⟨part, hpart, hl⟩ := List.mem_flatMap.mp hl
    rcases List.mem_cons.mp hl with rfl | hl
    · exact hdelimiter
    · exact hparts part hpart l hl
  · rw [List.mem_singleton.mp hl]
    exact hclosing

/-- The lines before the first delimiter, and the parts after it; `none` when the last part does not
end. -/
def split (kind : L → Kind) : List L → Option (List L × List (List L))
  | [] => none
  | l :: lines =>
    match kind l with
    | .closing => some ([], [])
    | .delimiter => (split kind lines).map fun r => ([], r.1 :: r.2)
    | .text => (split kind lines).map fun r => (l :: r.1, r.2)

/-- The parts. -/
def read (kind : L → Kind) (lines : List L) : Option (List (List L)) :=
  (split kind lines).map Prod.snd

variable {kind : L → Kind}

/-- Lines of a part come before what was read. -/
theorem split_append {part lines : List L} (hpart : ∀ l ∈ part, kind l = .text) :
    split kind (part ++ lines) = (split kind lines).map fun r => (part ++ r.1, r.2) := by
  induction part with
  | nil => simp
  | cons l part ih =>
    rw [List.cons_append, split, hpart l (List.mem_cons_self ..),
      ih fun l' hl' => hpart l' (List.mem_cons_of_mem _ hl')]
    dsimp only
    rw [Option.map_map]
    rfl

theorem split_write {delimiter closing : L} (hdelimiter : kind delimiter = .delimiter)
    (hclosing : kind closing = .closing) {parts : List (List L)}
    (hparts : ∀ part ∈ parts, ∀ l ∈ part, kind l = .text) (epilogue : List L) :
    split kind (write delimiter closing parts ++ epilogue) = some ([], parts) := by
  induction parts with
  | nil =>
    change split kind (closing :: epilogue) = _
    rw [split, hclosing]
  | cons part parts ih =>
    have hrest := ih fun part' hpart' => hparts part' (List.mem_cons_of_mem _ hpart')
    have hwrite : write delimiter closing (part :: parts) ++ epilogue =
        delimiter :: (part ++ (write delimiter closing parts ++ epilogue)) := by
      simp only [write, List.flatMap_cons, List.cons_append, List.append_assoc]
    rw [hwrite, split, hdelimiter, split_append (hparts part (List.mem_cons_self ..)), hrest]
    simp only [Option.map_some, List.append_nil]

/-- **Round trip**: parts without delimiters are read back, whatever stands around them. -/
theorem read_write {delimiter closing : L} (hdelimiter : kind delimiter = .delimiter)
    (hclosing : kind closing = .closing) {preamble : List L} {parts : List (List L)}
    (hpreamble : ∀ l ∈ preamble, kind l = .text)
    (hparts : ∀ part ∈ parts, ∀ l ∈ part, kind l = .text) (epilogue : List L) :
    read kind (preamble ++ (write delimiter closing parts ++ epilogue)) = some parts := by
  rw [read, split_append hpreamble, split_write hdelimiter hclosing hparts]
  rfl

end Multipart
