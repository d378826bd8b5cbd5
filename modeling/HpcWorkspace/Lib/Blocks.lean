import Mathlib.Data.List.Basic

/-!
# Nested blocks

A text of nested blocks is a sequence of items; an item is a leaf, or a block with a name and a text
of its own. Written down, a block stands between an opening and a closing mark with its name. The
reader goes backwards from the end: a closing mark puts what was read after it on a stack, and the
opening mark takes it from there.
-/

namespace Blocks

universe u v

variable {α : Type u} {β : Type v}

/-- A text of nested blocks. -/
inductive Text (α : Type u) (β : Type v) where
  /-- nothing -/
  | nil
  /-- a leaf, and what comes after it -/
  | leaf (b : β) (rest : Text α β)
  /-- a block with a name, and what comes after it -/
  | block (a : α) (inner rest : Text α β)
  deriving DecidableEq

/-- A mark of a text that is written down. -/
inductive Mark (α : Type u) (β : Type v) where
  /-- the beginning of a block -/
  | opening (a : α)
  /-- its end -/
  | closing (a : α)
  /-- a leaf -/
  | leaf (b : β)
  deriving DecidableEq

namespace Text

/-- The marks of a text. -/
def write : Text α β → List (Mark α β)
  | nil => []
  | leaf b rest => .leaf b :: rest.write
  | block a inner rest => .opening a :: (inner.write ++ .closing a :: rest.write)

/-- One text after the other. -/
def append : Text α β → Text α β → Text α β
  | nil, t => t
  | leaf b rest, t => leaf b (rest.append t)
  | block a inner rest, t => block a inner (rest.append t)

@[simp] theorem append_nil (t : Text α β) : t.append nil = t := by
  induction t with
  | nil => rfl
  | leaf b rest ih => rw [append, ih]
  | block a inner rest _ ih => rw [append, ih]

/-- The leaves of a text that stand in no block. -/
def leaves : Text α β → List β
  | nil => []
  | leaf b rest => b :: rest.leaves
  | block _ _ rest => rest.leaves

/-- The blocks of a name, the inner ones too. -/
def blocks [DecidableEq α] (name : α) : Text α β → List (Text α β)
  | nil => []
  | leaf _ rest => rest.blocks name
  | block a inner rest =>
    (if a = name then [inner] else []) ++ (inner.blocks name ++ rest.blocks name)

end Text

/-! ## Reading -/

/-- What the reader has: the text after the mark, and for each block that it is in, from inside to
outside, the name of the block and the text after it. -/
structure Reader (α : Type u) (β : Type v) where
  /-- what was read in the innermost block -/
  text : Text α β
  /-- the blocks around it -/
  stack : List (α × Text α β)

variable [DecidableEq α]

/-- The mark before what was read. -/
def Reader.mark (r : Reader α β) : Mark α β → Option (Reader α β)
  | .leaf b => some { r with text := .leaf b r.text }
  | .closing a => some ⟨.nil, (a, r.text) :: r.stack⟩
  | .opening a =>
    match r.stack with
    | [] => none
    | (a', rest) :: stack => if a = a' then some ⟨.block a r.text rest, stack⟩ else none

/-- Backwards through the marks. -/
def Reader.marks (r : Reader α β) : List (Mark α β) → Option (Reader α β)
  | [] => some r
  | m :: ms => (r.marks ms).bind fun r => r.mark m

/-- The text that some marks are; `none` when opening and closing marks do not fit. -/
def read (ms : List (Mark α β)) : Option (Text α β) :=
  match Reader.marks ⟨.nil, []⟩ ms with
  | some ⟨t, []⟩ => some t
  | _ => none

theorem Reader.marks_append (r : Reader α β) (ms ms' : List (Mark α β)) :
    r.marks (ms ++ ms') = (r.marks ms').bind fun r => r.marks ms := by
  induction ms with
  | nil =>
    rw [List.nil_append]
    cases r.marks ms' <;> rfl
  | cons m ms ih =>
    rw [List.cons_append, marks, ih]
    cases r.marks ms' <;> rfl

/-- A text is put before what was read. -/
theorem Reader.marks_write (t : Text α β) (r : Reader α β) :
    r.marks t.write = some { r with text := t.append r.text } := by
  induction t generalizing r with
  | nil => rfl
  | leaf b rest ih =>
    rw [Text.write, marks, ih]
    rfl
  | block a inner rest ihinner ihrest =>
    rw [Text.write, marks, marks_append, marks, ihrest]
    change (((⟨.nil, (a, rest.append r.text) :: r.stack⟩ : Reader α β).marks inner.write).bind
      fun r => r.mark (.opening a)) = _
    rw [ihinner, Text.append_nil]
    exact if_pos rfl

/-- **Round trip.** -/
theorem read_write (t : Text α β) : read t.write = some t := by
  rw [read, Reader.marks_write, Text.append_nil]

end Blocks
