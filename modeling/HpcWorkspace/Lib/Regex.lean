import Mathlib.Computability.RegularExpressions

/-!
# Regular expressions

The ways programs write regular expressions (one character of a list, a fixed word, one or more, at
most so many), and which characters the words consist of that an expression matches: no others than
those that stand in it.
-/

namespace Regex

universe u

variable {α : Type u}

/-! ## Expressions -/

/-- One character of a list. -/
def oneOf : List α → RegularExpression α
  | [] => 0
  | c :: cs => .char c + oneOf cs

/-- The expressions of a list, one after the other. -/
def sequence : List (RegularExpression α) → RegularExpression α
  | [] => 1
  | r :: rs => r * sequence rs

/-- Once or more. -/
def many (r : RegularExpression α) : RegularExpression α := r * r.star

/-- Once or not at all. -/
def optional (r : RegularExpression α) : RegularExpression α := 1 + r

/-- At most `n` times. -/
def upTo (r : RegularExpression α) : ℕ → RegularExpression α
  | 0 => 1
  | n + 1 => optional (r * upTo r n)

/-! ## Characters -/

/-- The characters that stand in an expression have a property. -/
def Over (p : α → Prop) : RegularExpression α → Prop
  | .zero => True
  | .epsilon => True
  | .char c => p c
  | .plus r s => Over p r ∧ Over p s
  | .comp r s => Over p r ∧ Over p s
  | .star r => Over p r

variable {p : α → Prop} {r s : RegularExpression α}

@[simp] theorem over_zero : Over p (0 : RegularExpression α) := trivial

@[simp] theorem over_one : Over p (1 : RegularExpression α) := trivial

@[simp] theorem over_char {c : α} : Over p (.char c) ↔ p c := Iff.rfl

@[simp] theorem over_add : Over p (r + s) ↔ Over p r ∧ Over p s := Iff.rfl

@[simp] theorem over_mul : Over p (r * s) ↔ Over p r ∧ Over p s := Iff.rfl

@[simp] theorem over_star : Over p r.star ↔ Over p r := Iff.rfl

@[simp] theorem over_many : Over p (many r) ↔ Over p r := and_self_iff

@[simp] theorem over_optional : Over p (optional r) ↔ Over p r := by
  simp [optional]

@[simp] theorem over_oneOf {cs : List α} : Over p (oneOf cs) ↔ ∀ c ∈ cs, p c := by
  induction cs with
  | nil => simp [oneOf]
  | cons c cs ih => simp [oneOf, ih]

@[simp] theorem over_sequence {rs : List (RegularExpression α)} :
    Over p (sequence rs) ↔ ∀ r ∈ rs, Over p r := by
  induction rs with
  | nil => simp [sequence]
  | cons r rs ih => simp [sequence, ih]

theorem Over.pow (h : Over p r) (n : ℕ) : Over p (r ^ n) := by
  induction n with
  | zero => exact over_one
  | succ n ih => exact over_mul.2 ⟨ih, h⟩

theorem Over.upTo (h : Over p r) (n : ℕ) : Over p (upTo r n) := by
  induction n with
  | zero => exact over_one
  | succ n ih => exact over_optional.2 (over_mul.2 ⟨h, ih⟩)

/-- **What is matched** consists of the characters that stand in the expression. -/
theorem Over.of_mem_matches (h : Over p r) {w : List α} (hw : w ∈ r.matches') :
    ∀ c ∈ w, p c := by
  induction r generalizing w with
  | zero => exact absurd hw (Language.notMem_zero w)
  | epsilon =>
    obtain rfl := (Language.mem_one w).1 hw
    exact fun c hc => by cases hc
  | char a =>
    obtain rfl := Set.mem_singleton_iff.1 hw
    exact fun c hc => List.mem_singleton.1 hc ▸ h
  | plus r s ihr ihs =>
    rcases (Language.mem_add _ _ w).1 hw with hr | hs
    · exact ihr h.1 hr
    · exact ihs h.2 hs
  | comp r s ihr ihs =>
    obtain ⟨x, hx, y, hy, rfl⟩ := Language.mem_mul.1 hw
    intro c hc
    rcases List.mem_append.1 hc with hc | hc
    · exact ihr h.1 hx c hc
    · exact ihs h.2 hy c hc
  | star r ih =>
    obtain ⟨parts, rfl, hparts⟩ := Language.mem_kstar.1 hw
    intro c hc
    obtain ⟨part, hmem, hc⟩ := List.mem_flatten.1 hc
    exact ih h (hparts part hmem) c hc

end Regex
