import Mathlib.Data.Int.Notation
import Mathlib.Data.List.Basic

/-!
# Maps of scalars as YAML

What a program that keeps its records as maps of scalars needs of a YAML library: a text for such a
map and the map of a text, and conversions between scalars and values. `Lawful` says that the
library reads what it has written. `flat` is a library for one line per key that does.
-/

/-- A value in a map. -/
inductive YamlNode where
  /-- nothing -/
  | null
  /-- a scalar with its text -/
  | scalar (text : List Char)
  /-- a list or a map -/
  | collection
  deriving DecidableEq

/-- A YAML library. -/
structure Yaml where
  /-- the text of a map -/
  emit : List (List Char × List Char) → List Char
  /-- the map of a text; `none` is an error -/
  load : List Char → Option (List (List Char × YamlNode))
  /-- the scalar of a `long` -/
  printLong : Int64 → List Char
  /-- the scalar of an `int` -/
  printInt : Int32 → List Char
  /-- a value as a string -/
  readString : YamlNode → Option (List Char)
  /-- a value as a `long` -/
  readLong : YamlNode → Option Int64
  /-- a value as an `int` -/
  readInt : YamlNode → Option Int32

namespace Yaml

/-- A word of small letters. -/
def IsWord (k : List Char) : Prop := k ≠ [] ∧ ∀ c ∈ k, c.isLower = true

instance (k : List Char) : Decidable (IsWord k) :=
  decidable_of_iff (k ≠ [] ∧ k.all Char.isLower = true) (and_congr_right' List.all_eq_true)

/-- The fields that have a value: the others are left out. -/
def present (fields : List (List Char × Option (List Char))) : List (List Char × List Char) :=
  fields.filterMap fun p => p.2.map (p.1, ·)

/-- A library reads what it has written. -/
structure Lawful (y : Yaml) : Prop where
  /-- maps with words as keys -/
  load_emit : ∀ m : List (List Char × List Char), (m.map Prod.fst).Nodup →
    (∀ k ∈ m.map Prod.fst, IsWord k) →
      y.load (y.emit m) = some (m.map fun p => (p.1, .scalar p.2))
  /-- strings -/
  readString_scalar : ∀ s, y.readString (.scalar s) = some s
  /-- numbers -/
  readLong_print : ∀ z, y.readLong (.scalar (y.printLong z)) = some z
  /-- numbers -/
  readInt_print : ∀ z, y.readInt (.scalar (y.printInt z)) = some z

/-! ## Fields -/

section Fields

variable {fields : List (List Char × Option (List Char))}

theorem fst_present_sublist (fields : List (List Char × Option (List Char))) :
    ((present fields).map Prod.fst).Sublist (fields.map Prod.fst) := by
  induction fields with
  | nil => exact List.Sublist.slnil
  | cons p fields ih =>
    obtain ⟨k, v⟩ := p
    cases v with
    | none => exact ih.cons k
    | some v => exact ih.cons_cons k

/-- What is found among the fields that are present. -/
theorem lookup_present (hnodup : (fields.map Prod.fst).Nodup) (k : List Char) :
    (present fields).lookup k = (fields.lookup k).join := by
  induction fields with
  | nil => rfl
  | cons p fields ih =>
    obtain ⟨k', v⟩ := p
    obtain ⟨hnot, htail⟩ := List.nodup_cons.mp hnodup
    by_cases hk : k = k'
    · subst hk
      cases v with
      | none =>
        have hnone : fields.lookup k = none := by
          rw [List.lookup_eq_none_iff]
          intro p hp
          by_contra heq
          simp only [bne_iff_ne, ne_eq, not_not] at heq
          exact hnot (List.mem_map.mpr ⟨p, hp, heq.symm⟩)
        have hrest := ih htail
        rw [hnone] at hrest
        rw [List.lookup_cons, beq_self_eq_true]
        exact hrest
      | some v => simp [present]
    · have hne : (k == k') = false := beq_false_of_ne hk
      have hrest := ih htail
      rw [List.lookup_cons, hne]
      cases v with
      | none => exact hrest
      | some v =>
        have hcons : present ((k', some v) :: fields) = (k', v) :: present fields := rfl
        rw [hcons, List.lookup_cons, hne]
        exact hrest

theorem lookup_map_scalar (m : List (List Char × List Char)) (k : List Char) :
    (m.map fun p => (p.1, YamlNode.scalar p.2)).lookup k = (m.lookup k).map .scalar := by
  induction m with
  | nil => rfl
  | cons p m ih =>
    rw [List.map_cons, List.lookup_cons, List.lookup_cons]
    cases k == p.1 with
    | true => rfl
    | false => exact ih

/-- **Fields are read back**: those with a value as scalars, the others not at all. -/
theorem Lawful.load_present {y : Yaml} (h : y.Lawful) (hnodup : (fields.map Prod.fst).Nodup)
    (hwords : ∀ k ∈ fields.map Prod.fst, IsWord k) :
    ∃ m, y.load (y.emit (present fields)) = some m ∧
      ∀ k, m.lookup k = (fields.lookup k).join.map .scalar := by
  have hsub := fst_present_sublist fields
  refine ⟨_, h.load_emit _ (hsub.nodup hnodup) fun k hk => hwords k (hsub.subset hk), fun k => ?_⟩
  rw [lookup_map_scalar, lookup_present hnodup]

end Fields

/-! ## One line per key -/

namespace Flat

/-- A character that needs no quotes. -/
def isPlain (c : Char) : Bool := c.isAlphanum || c == '/' || c == '_' || c == '.' || c == '-'

/-- The characters of a quoted scalar. -/
def escape : List Char → List Char
  | [] => []
  | c :: s =>
    if c = '"' ∨ c = '\\' then '\\' :: c :: escape s
    else if c = '\n' then '\\' :: 'n' :: escape s
    else c :: escape s

/-- A scalar, with quotes where it needs them. -/
def emitScalar (s : List Char) : List Char :=
  if s ≠ [] ∧ s.all isPlain then s else '"' :: escape s ++ ['"']

/-- The line of a key. -/
def emitLine (p : List Char × List Char) : List Char := p.1 ++ ':' :: ' ' :: emitScalar p.2

/-- The rest of a quoted scalar. -/
def unescape : List Char → Option (List Char)
  | [] => none
  | '\\' :: c :: s => (unescape s).map ((if c = 'n' then '\n' else c) :: ·)
  | c :: s => if c = '"' then (if s = [] then some [] else none) else (unescape s).map (c :: ·)

/-- What stands after a key. -/
def parseScalar : List Char → Option YamlNode
  | [] => some .null
  | c :: s => if c = '"' then (unescape s).map .scalar else some (.scalar (c :: s))

/-- A line. -/
def parseLine (line : List Char) : Option (List Char × YamlNode) :=
  match line.dropWhile (· != ':') with
  | ':' :: ' ' :: s => (parseScalar s).map (line.takeWhile (· != ':'), ·)
  | [':'] => some (line.takeWhile (· != ':'), .null)
  | _ => none

/-- A text of lines. -/
def load (text : List Char) : Option (List (List Char × YamlNode)) :=
  ((text.splitOn '\n').filter (· ≠ [])).mapM parseLine

/-- A number in decimal. -/
def printNumber (z : ℤ) : List Char :=
  if 0 ≤ z then Nat.toDigits 10 z.toNat else '-' :: Nat.toDigits 10 (-z).toNat

/-- A decimal number. -/
def parseNumber (s : List Char) : ℤ :=
  if s.head? = some '-' then -(Nat.ofDigitChars 10 s.tail 0 : ℤ) else Nat.ofDigitChars 10 s 0

theorem parseNumber_printNumber (z : ℤ) : parseNumber (printNumber z) = z := by
  unfold printNumber
  split
  · rename_i hz
    have hhead : (Nat.toDigits 10 z.toNat).head? ≠ some '-' := by
      intro hhead
      have hdigit := Nat.isDigit_of_mem_toDigits (by decide) (by decide)
        (List.mem_of_head? hhead)
      exact absurd hdigit (by decide)
    rw [parseNumber, if_neg hhead, Nat.ofDigitChars_ten_toDigits]
    omega
  · rename_i hz
    rw [parseNumber, List.head?_cons, if_pos rfl, List.tail_cons, Nat.ofDigitChars_ten_toDigits]
    omega

/-- A quoted scalar is read back. -/
theorem unescape_escape (s : List Char) : unescape (escape s ++ ['"']) = some s := by
  induction s with
  | nil => rfl
  | cons c s ih =>
    rw [escape]
    split
    · rename_i hc
      rcases hc with rfl | rfl <;> simp [unescape, ih]
    · rename_i hc
      rw [not_or] at hc
      split
      · rename_i hc'
        subst hc'
        simp [unescape, ih]
      · have hmatch : unescape (c :: (escape s ++ ['"'])) =
            if c = '"' then (if escape s ++ ['"'] = [] then some [] else none)
            else (unescape (escape s ++ ['"'])).map (c :: ·) := by
          cases hrest : escape s ++ ['"'] with
          | nil => simp at hrest
          | cons d rest =>
            rw [unescape]
            intro c' s' hcontra
            exact absurd hcontra hc.2
        rw [List.cons_append, hmatch, if_neg hc.1, ih]
        rfl

theorem parseScalar_emitScalar (s : List Char) : parseScalar (emitScalar s) = some (.scalar s) := by
  unfold emitScalar
  split
  · rename_i hplain
    obtain ⟨hne, hall⟩ := hplain
    cases s with
    | nil => exact absurd rfl hne
    | cons c s =>
      have hc := (List.all_eq_true.mp hall) c (List.mem_cons_self ..)
      have hquote : c ≠ '"' := fun heq => by
        rw [heq] at hc
        exact absurd hc (by decide)
      rw [parseScalar, if_neg hquote]
  · rw [List.cons_append, parseScalar, if_pos rfl, unescape_escape]
    rfl

theorem newline_notMem_escape (s : List Char) : '\n' ∉ escape s := by
  induction s with
  | nil => exact List.not_mem_nil
  | cons c s ih =>
    rw [escape]
    split
    · rename_i hc
      rcases hc with rfl | rfl <;> simp [ih]
    · split
      · simp [ih]
      · rename_i hc
        simp [ih, Ne.symm hc]

theorem newline_notMem_emitScalar (s : List Char) : '\n' ∉ emitScalar s := by
  unfold emitScalar
  split
  · rename_i hplain
    intro hmem
    exact absurd (List.all_eq_true.mp hplain.2 '\n' hmem) (by decide)
  · simp [newline_notMem_escape]

theorem ne_of_isWord {k : List Char} (hk : IsWord k) {c d : Char} (hc : c ∈ k)
    (hd : d.isLower = false) : c ≠ d := fun heq => by
  rw [heq] at hc
  rw [hk.2 d hc] at hd
  cases hd

/-- A line is read back. -/
theorem parseLine_emitLine {p : List Char × List Char} (hk : IsWord p.1) :
    parseLine (emitLine p) = some (p.1, .scalar p.2) := by
  have hcolon : ∀ c ∈ p.1, (c != ':') = true := fun c hc =>
    bne_iff_ne.mpr (ne_of_isWord hk hc (by decide))
  have hdrop : (emitLine p).dropWhile (· != ':') = ':' :: ' ' :: emitScalar p.2 := by
    rw [emitLine, List.dropWhile_append_of_pos hcolon]
    rfl
  have htake : (emitLine p).takeWhile (· != ':') = p.1 := by
    rw [emitLine, List.takeWhile_append_of_pos hcolon]
    simp
  rw [parseLine, hdrop, htake]
  simp only [parseScalar_emitScalar, Option.map_some]

/-- A text is read back. -/
theorem load_lines {m : List (List Char × List Char)} (hm : ∀ k ∈ m.map Prod.fst, IsWord k) :
    load (m.flatMap fun p => emitLine p ++ ['\n']) =
      some (m.map fun p => (p.1, .scalar p.2)) := by
  induction m with
  | nil => rfl
  | cons p m ih =>
    obtain ⟨hk, hm⟩ := List.forall_mem_cons.mp hm
    have hline : ∀ c ∈ emitLine p, (c == '\n') = false := by
      intro c hc
      by_contra heq
      rw [Bool.not_eq_false, beq_iff_eq] at heq
      rw [heq, emitLine, List.mem_append, List.mem_cons, List.mem_cons] at hc
      rcases hc with hc | hc | hc | hc
      · exact ne_of_isWord hk hc (by decide) rfl
      · exact absurd hc (by decide)
      · exact absurd hc (by decide)
      · exact newline_notMem_emitScalar _ hc
    have hne : emitLine p ≠ [] := by simp [emitLine]
    have hsplit : ((p :: m).flatMap fun p => emitLine p ++ ['\n']).splitOn '\n' =
        emitLine p :: (m.flatMap fun p => emitLine p ++ ['\n']).splitOn '\n' := by
      rw [List.flatMap_cons, List.append_assoc, List.singleton_append]
      exact List.splitOnP_append_cons_of_forall_mem hline '\n' (beq_self_eq_true _) _
    rw [load, hsplit, List.filter_cons_of_pos (by simpa using hne), List.mapM_cons,
      parseLine_emitLine hk]
    have hrest := ih hm
    rw [load] at hrest
    rw [hrest]
    rfl

end Flat

/-- One line per key, with the numbers in decimal. -/
def flat : Yaml where
  emit m := m.flatMap fun p => Flat.emitLine p ++ ['\n']
  load := Flat.load
  printLong z := Flat.printNumber z.toInt
  printInt z := Flat.printNumber z.toInt
  readString
    | .scalar s => some s
    | _ => none
  readLong
    | .scalar s => some (Int64.ofInt (Flat.parseNumber s))
    | _ => none
  readInt
    | .scalar s => some (Int32.ofInt (Flat.parseNumber s))
    | _ => none

/-- **It reads what it has written.** -/
theorem flat_lawful : flat.Lawful where
  load_emit m _ hm := Flat.load_lines hm
  readString_scalar s := rfl
  readLong_print z := by
    have hz : Int64.ofInt (Flat.parseNumber (Flat.printNumber z.toInt)) = z := by
      rw [Flat.parseNumber_printNumber, Int64.ofInt_toInt]
    exact congrArg some hz
  readInt_print z := by
    have hz : Int32.ofInt (Flat.parseNumber (Flat.printNumber z.toInt)) = z := by
      rw [Flat.parseNumber_printNumber, Int32.ofInt_toInt]
    exact congrArg some hz

end Yaml
