import Mathlib.Algebra.Group.Int.Defs
import Mathlib.Algebra.Group.Nat.Defs
import Mathlib.Data.List.Basic
import Mathlib.Data.Int.Basic
import HpcWorkspace.Lib.Dashed

/-!
# Names: workspaces, ids, timestamps

Strings are lists of characters. A workspace id is `<user>-<name>`, with dashes allowed on both
sides; the name of an entry in the deleted area is `<id>-<timestamp>`, where the timestamp is a
run of digits, so the last dash splits it.
-/

namespace HpcWorkspace

/-- `std::string` -/
abbrev Str := List Char

instance : LawfulBEq Str := inferInstance

/-- `CRLF`: the end of a line in a mail. -/
def CRLF : Str := ['\r', '\n']

/-! ## Workspace names and ids -/

/-- `isAsciiAlnum` of `isValidWorkspaceName` -/
def isAsciiAlnum (c : Char) : Bool :=
  (c ≥ 'a' && c ≤ 'z') || (c ≥ 'A' && c ≤ 'Z') || (c ≥ '0' && c ≤ '9')

/-- The characters of a workspace name after the first one. -/
def isNameChar (c : Char) : Bool := isAsciiAlnum c || c == '.' || c == '_' || c == '-'

/-- `utils::isValidWorkspaceName` -/
def isValidWorkspaceName : Str → Bool
  | [] => false
  | c :: cs => isAsciiAlnum c && cs.all isNameChar

/-- `fmt::format("{}-{}", username, name)` -/
def wsid (username name : Str) : Str := username ++ '-' :: name

/-- `checkID`: an id is one path component. -/
def checkID (id : Str) : Bool :=
  !(id == [] || id == ['.'] || id == ['.', '.'] || id.contains '/')

/-- A valid name consists of name characters. -/
theorem isNameChar_of_mem {n : Str} (h : isValidWorkspaceName n) {c : Char} (hc : c ∈ n) :
    isNameChar c := by
  cases n with
  | nil => cases h
  | cons d ds =>
    rw [isValidWorkspaceName, Bool.and_eq_true, List.all_eq_true] at h
    rcases List.mem_cons.mp hc with rfl | hc
    · rw [isNameChar, h.1, Bool.true_or, Bool.true_or, Bool.true_or]
    · exact h.2 c hc

/-- An id made of a user name without a slash and a valid name is a path component. -/
theorem checkID_wsid {u n : Str} (hu : '/' ∉ u) (hn : isValidWorkspaceName n) :
    checkID (wsid u n) := by
  have hslash : '/' ∉ n := fun hmem => by
    have := isNameChar_of_mem hn hmem
    exact absurd this (by decide)
  have hdash : '-' ∈ wsid u n := List.mem_append_right u (List.mem_cons_self ..)
  have hne : ∀ w : Str, '-' ∉ w → wsid u n ≠ w := fun w hw heq => hw (heq ▸ hdash)
  have hno : (wsid u n).contains '/' = false := by
    rw [List.contains_eq_mem, decide_eq_false_iff_not, wsid, List.mem_append, List.mem_cons]
    rintro (hmem | heq | hmem)
    · exact hu hmem
    · exact absurd heq (by decide)
    · exact hslash hmem
  rw [checkID, hno, beq_false_of_ne (hne [] (by decide)), beq_false_of_ne (hne ['.'] (by decide)),
    beq_false_of_ne (hne ['.', '.'] (by decide))]
  rfl

/-! ## Numbers -/

/-- `fmt::format("{}", z)` of a `long` -/
def fmtLong (z : ℤ) : Str :=
  if 0 ≤ z then Nat.toDigits 10 z.toNat else '-' :: Nat.toDigits 10 (-z).toNat

/-- `std::stoll` of a word of digits; `none` is `out_of_range`. -/
def stollDigits (w : Str) : Option ℤ :=
  let v := Nat.ofDigitChars 10 w 0
  if v < 2 ^ 63 then some v else none

/-- `isspace` in the C locale -/
def isSpace (c : Char) : Bool := c == ' ' || ('\t' ≤ c && c ≤ '\r')

/-- `std::stol`: white space, a sign, digits; what follows them is ignored. `none` is
`invalid_argument` or `out_of_range`. -/
def stol (s : Str) : Option ℤ :=
  let digits (r : Str) : Option ℕ :=
    match r.takeWhile Char.isDigit with
    | [] => none
    | w => some (Nat.ofDigitChars 10 w 0)
  match s.dropWhile isSpace with
  | '-' :: r => (digits r).bind fun v => if v ≤ 2 ^ 63 then some (-v : ℤ) else none
  | '+' :: r => (digits r).bind fun v => if v < 2 ^ 63 then some (v : ℤ) else none
  | r => (digits r).bind fun v => if v < 2 ^ 63 then some (v : ℤ) else none

theorem ofDigitChars_of_digits {r : Str} {d : ℕ}
    (h : (match r.takeWhile Char.isDigit with
      | [] => none
      | w => some (Nat.ofDigitChars 10 w 0)) = some d) :
    Nat.ofDigitChars 10 (r.takeWhile Char.isDigit) 0 = d := by
  split at h
  · cases h
  · exact Option.some.inj h

theorem fmtLong_of_nonneg {z : ℤ} (hz : 0 ≤ z) : fmtLong z = Nat.toDigits 10 z.toNat := if_pos hz

theorem isDigit_of_mem_fmtLong {z : ℤ} (hz : 0 ≤ z) {c : Char} (hc : c ∈ fmtLong z) :
    c.isDigit := by
  rw [fmtLong_of_nonneg hz] at hc
  exact Nat.isDigit_of_mem_toDigits (by decide) (by decide) hc

theorem fmtLong_ne_nil (z : ℤ) : fmtLong z ≠ [] := by
  rw [fmtLong]
  split
  · exact Nat.toDigits_ne_nil
  · exact List.cons_ne_nil _ _

theorem dash_notMem_fmtLong {z : ℤ} (hz : 0 ≤ z) : '-' ∉ fmtLong z := fun hmem =>
  absurd (isDigit_of_mem_fmtLong hz hmem) (by decide)

/-- Reading the digits back gives the number. -/
theorem stollDigits_fmtLong {z : ℤ} (hz : 0 ≤ z) (hlt : z < 2 ^ 63) :
    stollDigits (fmtLong z) = some z := by
  have hv : Nat.ofDigitChars 10 (fmtLong z) 0 = z.toNat := by
    rw [fmtLong_of_nonneg hz, Nat.ofDigitChars_ten_toDigits]
  rw [stollDigits, hv, if_pos (by omega), Int.toNat_of_nonneg hz]

theorem fmtLong_inj {y z : ℤ} (hy : 0 ≤ y) (hz : 0 ≤ z) (h : fmtLong y = fmtLong z) : y = z := by
  rw [fmtLong_of_nonneg hy, fmtLong_of_nonneg hz] at h
  have hof := congrArg (fun w => Nat.ofDigitChars 10 w 0) h
  simp only [Nat.ofDigitChars_ten_toDigits] at hof
  omega

/-! ## Timestamps in names -/

/-- The name in the deleted area: `fmt::format("{}-{}", id, timestamp)`. -/
def deletedName (id : Str) (ts : ℤ) : Str := id ++ '-' :: fmtLong ts

/-- `trailing_timestamp`: the plausible timestamp at the end of a name. -/
def trailingTimestamp (name : Str) : Option ℤ :=
  match Dashed.splitLast '-' name with
  | none => none
  | some (base, suffix) =>
    if base == [] || suffix == [] then none
    else if suffix.all Char.isDigit then
      (stollDigits suffix).bind fun val => if val ≤ 0 ∨ val > 4102444800 then none else some val
    else none

/-- The time in an entry's name as `expire_workspaces` reads it: `std::stol` of the last
dash-separated field; `none` when there is no such field or no number in it. -/
def fileTime (id : Str) : Option ℤ :=
  match Dashed.splitLast '-' id with
  | none => stol id
  | some (_, []) => none
  | some (_, w) => stol w

/-- Names in the deleted area determine the id and the time. -/
theorem deletedName_inj {id id' : Str} {ts ts' : ℤ} (hts : 0 ≤ ts) (hts' : 0 ≤ ts')
    (h : deletedName id ts = deletedName id' ts') : id = id' ∧ ts = ts' := by
  obtain ⟨hid, hnum⟩ :=
    Dashed.append_sep_inj h (dash_notMem_fmtLong hts) (dash_notMem_fmtLong hts')
  exact ⟨hid, fmtLong_inj hts hts' hnum⟩

/-- A plausible move time is read back from the name it was put into. -/
theorem trailingTimestamp_deletedName {id : Str} {ts : ℤ} (hid : id ≠ []) (hpos : 0 < ts)
    (hle : ts ≤ 4102444800) : trailingTimestamp (deletedName id ts) = some ts := by
  have hnn : 0 ≤ ts := Int.le_of_lt hpos
  have hsplit : Dashed.splitLast '-' (deletedName id ts) = some (id, fmtLong ts) :=
    Dashed.splitLast_append (dash_notMem_fmtLong hnn)
  have hdigits : (fmtLong ts).all Char.isDigit :=
    List.all_eq_true.mpr fun c hc => isDigit_of_mem_fmtLong hnn hc
  have hshape : ¬((id == [] || fmtLong ts == []) = true) := by
    rw [Bool.or_eq_true, beq_iff_eq, beq_iff_eq]
    exact fun h => h.elim hid (fmtLong_ne_nil ts)
  have hnum : stollDigits (fmtLong ts) = some ts := stollDigits_fmtLong hnn (by omega)
  have hplausible : ¬(ts ≤ 0 ∨ ts > 4102444800) := by omega
  rw [trailingTimestamp, hsplit]
  simp only [hshape, hdigits, if_true, if_false, hnum, Option.bind_some, hplausible,
    Bool.false_eq_true]

end HpcWorkspace
