import HpcWorkspace.Names

/-!
# File name patterns

`utils::glob_match`: the pattern and the rest of the name are walked together; a `*` remembers
where to go on from after a mismatch (`back`). A C string's end shows as the empty list.
-/

namespace HpcWorkspace

/-- The spans of a character class from its member `a` on, for the name's character `c`; the
result is whether a span matched and the pattern after `]`, `none` for a malformed class. -/
def globClass (c : Char) : Char → Str → Bool → Option (Bool × Str)
  | a, '-' :: b :: rest, found =>
    if b = ']' then globClass c '-' (b :: rest) (found || a == c)
    else
      match rest with
      | [] => none
      | x :: rest =>
        if x = ']' then some (found || (a ≤ c && c ≤ b), rest)
        else globClass c x rest (found || (a ≤ c && c ≤ b))
  | _, ['-'], _ => none
  | a, x :: rest, found =>
    if x = ']' then some (found || a == c, rest) else globClass c x rest (found || a == c)
  | _, [], _ => none

/-- The loop of `glob_match`, for at most `fuel` rounds. -/
def globLoop : ℕ → Str → Str → Option (Str × Str) → Bool
  | 0, _, _, _ => false
  | fuel + 1, pat, str, back =>
    let backtrack : Bool :=
      match str, back with
      | [], _ => false
      | _, none => false
      | _, some (backPat, backStr) => globLoop fuel backPat backStr.tail (some (backPat, backStr.tail))
    let literal (d : Option Char) (pat : Str) : Bool :=
      if str.head? = d then d.isNone || globLoop fuel pat str.tail back else backtrack
    match pat with
    | '?' :: pat => !str.isEmpty && globLoop fuel pat str.tail back
    | '*' :: pat => pat.isEmpty || globLoop fuel pat str (some (pat, str))
    | '[' :: pat =>
      let inverted := pat.head? == some '!'
      match str, if inverted then pat.tail else pat with
      | [], _ => false
      | _, [] => literal (some '[') pat
      | c :: _, a :: rest =>
        match globClass c a rest false with
        | none => literal (some '[') pat
        | some (found, rest) =>
          if found == inverted then backtrack else globLoop fuel rest str.tail back
    | '\\' :: pat => literal pat.head? pat.tail
    | pat => literal pat.head? pat.tail

/-- `utils::glob_match`. Between two mismatches the pattern is walked at most once, and each
mismatch moves the remembered place one character on, so the rounds never run out. -/
def globMatch (pat str : Str) : Bool :=
  globLoop ((pat.length + 1) * (str.length + 2)) pat str none

/-- A character that stands for itself in a pattern. -/
def isLiteral (c : Char) : Bool := c != '?' && c != '*' && c != '[' && c != '\\'

theorem isLiteral_of_isNameChar {c : Char} (h : isNameChar c) : isLiteral c := by
  have hne : ∀ d, isNameChar d = false → c ≠ d := fun d hd heq => by
    rw [heq, hd] at h
    cases h
  rw [isLiteral, bne_iff_ne.mpr (hne '?' (by decide)), bne_iff_ne.mpr (hne '*' (by decide)),
    bne_iff_ne.mpr (hne '[' (by decide)), bne_iff_ne.mpr (hne '\\' (by decide))]
  rfl

theorem ne_of_isLiteral {c : Char} (h : isLiteral c) :
    c ≠ '?' ∧ c ≠ '*' ∧ c ≠ '[' ∧ c ≠ '\\' := by
  rw [isLiteral, Bool.and_eq_true, Bool.and_eq_true, Bool.and_eq_true, bne_iff_ne, bne_iff_ne,
    bne_iff_ne, bne_iff_ne] at h
  exact ⟨h.1.1.1, h.1.1.2, h.1.2, h.2⟩

/-- One round at a literal character of the pattern. -/
theorem globLoop_cons {d : Char} (hd : isLiteral d) (fuel : ℕ) (pat str : Str)
    (back : Option (Str × Str)) :
    globLoop (fuel + 1) (d :: pat) str back =
      if str.head? = some d then globLoop fuel pat str.tail back
      else match str, back with
        | [], _ => false
        | _, none => false
        | _, some (backPat, backStr) =>
          globLoop fuel backPat backStr.tail (some (backPat, backStr.tail)) := by
  obtain ⟨h₁, h₂, h₃, h₄⟩ := ne_of_isLiteral hd
  cases str <;> cases back <;> simp [globLoop, h₁, h₂, h₃, h₄]

/-- A pattern of literal characters matches one name only. -/
theorem globLoop_literal {pat : Str} (hpat : ∀ c ∈ pat, isLiteral c) {fuel : ℕ}
    (hfuel : pat.length < fuel) (str : Str) : globLoop fuel pat str none = decide (pat = str) := by
  induction pat generalizing fuel str with
  | nil =>
    obtain ⟨fuel, rfl⟩ : ∃ f, fuel = f + 1 := ⟨fuel - 1, by omega⟩
    cases str <;> simp [globLoop]
  | cons d pat ih =>
    obtain ⟨fuel, rfl⟩ : ∃ f, fuel = f + 1 := ⟨fuel - 1, by omega⟩
    rw [globLoop_cons (hpat d (List.mem_cons_self ..)),
      ih (fun c hc => hpat c (List.mem_cons_of_mem _ hc)) (Nat.lt_of_succ_lt_succ hfuel)]
    cases str with
    | nil => simp
    | cons c str =>
      by_cases hc : c = d
      · simp [hc]
      · simp [hc, Ne.symm hc]

theorem globMatch_literal {pat : Str} (hpat : ∀ c ∈ pat, isLiteral c) (str : Str) :
    globMatch pat str = decide (pat = str) :=
  globLoop_literal hpat (by simp only [Nat.mul_add]; omega) str

/-- After the first star of `*-*` the loop looks for a dash. -/
theorem globLoop_dash (str : Str) {fuel : ℕ} (hfuel : str.length + 2 ≤ fuel) :
    globLoop fuel ['-', '*'] str (some (['-', '*'], str)) = decide ('-' ∈ str) := by
  induction str generalizing fuel with
  | nil =>
    obtain ⟨fuel, rfl⟩ : ∃ f, fuel = f + 1 := ⟨fuel - 1, by omega⟩
    rw [globLoop_cons (by decide)]
    simp
  | cons c str ih =>
    rw [List.length_cons] at hfuel
    obtain ⟨fuel, rfl⟩ : ∃ f, fuel = f + 2 := ⟨fuel - 2, by omega⟩
    rw [globLoop_cons (by decide)]
    by_cases hc : c = '-'
    · simp [globLoop, hc]
    · have hrest := ih (show str.length + 2 ≤ fuel + 1 by omega)
      simp [hc, Ne.symm hc, hrest]

/-- `*-*` matches the names with a dash. -/
theorem globMatch_dash (str : Str) : globMatch ['*', '-', '*'] str = decide ('-' ∈ str) := by
  have hfuel : globMatch ['*', '-', '*'] str =
      globLoop (4 * (str.length + 2)) ['*', '-', '*'] str none := rfl
  obtain ⟨fuel, hf⟩ : ∃ f, 4 * (str.length + 2) = f + 1 := ⟨4 * (str.length + 2) - 1, by omega⟩
  rw [hfuel, hf, globLoop, List.isEmpty_cons, Bool.false_or]
  exact globLoop_dash str (by omega)

end HpcWorkspace
