import HpcWorkspace.Lib.Regex
import HpcWorkspace.Names

/-!
# Mail addresses

`isValidEmail` matches an address against two regular expressions and then looks at its length and at
the places of its dots. The quoted form of a local part admits control characters, but none that ends a
line or a string.
-/

namespace HpcWorkspace

/-! ## Characters -/

/-- The characters a regular expression can name: the other bytes are negative as a `char`. -/
def asciiChars : List Char := (List.range 128).map Char.ofNat

/-- A bracket expression under `std::regex_constants::icase`: one of the two cases is in it. -/
def bracket (test : Char → Bool) : RegularExpression Char :=
  Regex.oneOf (asciiChars.filter fun c => test c.toLower || test c.toUpper)

/-- A literal text. -/
def literal (text : Str) : RegularExpression Char :=
  Regex.sequence (text.map fun c => bracket (· == c))

/-- `[lo-hi]` -/
def inRange (lo hi : ℕ) (c : Char) : Bool := lo ≤ c.toNat && c.toNat ≤ hi

/-- `[0-9]` -/
def isDigitChar (c : Char) : Bool := inRange 0x30 0x39 c

/-- `[a-z0-9]` -/
def isLetterDigit (c : Char) : Bool := inRange 0x61 0x7a c || isDigitChar c

/-- The characters of a local part without quotes. -/
def isLocalChar (c : Char) : Bool :=
  isLetterDigit c || "!#$%&'*+/=?^_`\x7b|\x7d~-".toList.contains c

/-- What stands for itself between quotes. -/
def isQuotedChar (c : Char) : Bool :=
  inRange 0x01 0x08 c || inRange 0x0b 0x0b c || inRange 0x0c 0x0c c || inRange 0x0e 0x1f c ||
    inRange 0x21 0x21 c || inRange 0x23 0x5b c || inRange 0x5d 0x7f c

/-- What a backslash can stand before. -/
def isEscapedChar (c : Char) : Bool :=
  inRange 0x01 0x09 c || inRange 0x0b 0x0b c || inRange 0x0c 0x0c c || inRange 0x0e 0x7f c

/-! ## `isValidEmail` -/

/-- The local part: words between dots, or a quoted text. -/
def localPart : RegularExpression Char :=
  let word := Regex.many (bracket isLocalChar)
  word * (literal ['.'] * word).star +
    literal ['"'] *
      (bracket isQuotedChar + literal ['\\'] * bracket isEscapedChar).star * literal ['"']

/-- The name of a host or a domain. -/
def domainLabel : RegularExpression Char :=
  bracket isLetterDigit *
    Regex.optional (Regex.upTo (bracket fun c => isLetterDigit c || c == '-') 61 *
      bracket isLetterDigit)

/-- A number of an IP address. -/
def ipNumber : RegularExpression Char :=
  literal "25".toList * bracket (inRange 0x30 0x35) +
    literal ['2'] * bracket (inRange 0x30 0x34) * bracket isDigitChar +
    Regex.optional (bracket (inRange 0x30 0x31)) * bracket isDigitChar *
      Regex.optional (bracket isDigitChar)

/-- `email_regex` -/
def email_regex : RegularExpression Char :=
  localPart * literal ['@'] *
    (Regex.many (domainLabel * literal ['.']) * domainLabel +
      literal ['['] * (ipNumber * literal ['.']) ^ 3 * ipNumber * literal [']'])

/-- `localemail_regex` -/
def localemail_regex : RegularExpression Char := localPart * literal "@localhost".toList

/-- `email.find(text) != npos` -/
def containsText (text email : Str) : Bool := decide (text <:+: email)

/-- `isValidEmail` -/
def isValidEmail (email : Str) : Bool :=
  (email_regex.rmatch email || localemail_regex.rmatch email) &&
    -- the longest address
    decide (email.length ≤ 254) &&
    !(containsText "..".toList email || email.head? == some '@' || email.getLast? == some '@' ||
      containsText ".@".toList email || containsText "@.".toList email)

/-! ## What it accepts -/

/-- A character that ends neither a line nor a string. -/
def isInLine (c : Char) : Bool := c != '\r' && c != '\n' && c != '\x00'

/-- A text that stays on one line. -/
def InLine (text : Str) : Prop := ∀ c ∈ text, isInLine c = true

theorem InLine.append {s t : Str} (hs : InLine s) (ht : InLine t) : InLine (s ++ t) := by
  intro c hc
  rcases List.mem_append.1 hc with hc | hc
  · exact hs c hc
  · exact ht c hc

/-- An expression that names no character that ends a line or a string. -/
abbrev OverInLine (r : RegularExpression Char) : Prop := Regex.Over (fun c => isInLine c = true) r

/-- The characters in question have one case only. -/
theorem over_bracket {test : Char → Bool} (hcr : test '\r' = false) (hlf : test '\n' = false)
    (hnul : test '\x00' = false) : OverInLine (bracket test) := by
  refine Regex.over_oneOf.2 fun c hc => ?_
  have htest := (List.mem_filter.1 hc).2
  rw [isInLine, Bool.and_eq_true, Bool.and_eq_true, bne_iff_ne, bne_iff_ne, bne_iff_ne]
  refine ⟨⟨?_, ?_⟩, ?_⟩
  · rintro rfl
    have hcase : (test '\r' || test '\r') = true := htest
    rw [hcr] at hcase
    cases hcase
  · rintro rfl
    have hcase : (test '\n' || test '\n') = true := htest
    rw [hlf] at hcase
    cases hcase
  · rintro rfl
    have hcase : (test '\x00' || test '\x00') = true := htest
    rw [hnul] at hcase
    cases hcase

theorem over_literal {text : Str} (h : text.all isInLine = true) : OverInLine (literal text) := by
  refine Regex.over_sequence.2 fun r hr => ?_
  obtain ⟨c, hc, rfl⟩ := List.mem_map.1 hr
  have hline := List.all_eq_true.1 h c hc
  rw [isInLine, Bool.and_eq_true, Bool.and_eq_true, bne_iff_ne, bne_iff_ne, bne_iff_ne] at hline
  exact over_bracket (beq_false_of_ne hline.1.1.symm) (beq_false_of_ne hline.1.2.symm)
    (beq_false_of_ne hline.2.symm)

theorem over_localPart : OverInLine localPart := by
  have hword : OverInLine (Regex.many (bracket isLocalChar)) :=
    Regex.over_many.2 (over_bracket rfl rfl rfl)
  have hdot : OverInLine (literal ['.']) := over_literal rfl
  have hquote : OverInLine (literal ['"']) := over_literal rfl
  have hbackslash : OverInLine (literal ['\\']) := over_literal rfl
  have hquoted : OverInLine (bracket isQuotedChar) := over_bracket rfl rfl rfl
  have hescaped : OverInLine (bracket isEscapedChar) := over_bracket rfl rfl rfl
  exact ⟨⟨hword, hdot, hword⟩, ⟨hquote, hquoted, hbackslash, hescaped⟩, hquote⟩

theorem over_domainLabel : OverInLine domainLabel := by
  have hends : OverInLine (bracket isLetterDigit) := over_bracket rfl rfl rfl
  have hinner : OverInLine (bracket fun c => isLetterDigit c || c == '-') :=
    over_bracket rfl rfl rfl
  exact ⟨hends, trivial, hinner.upTo 61, hends⟩

theorem over_ipNumber : OverInLine ipNumber := by
  have hdigits : ∀ lo hi, 13 < lo → OverInLine (bracket (inRange lo hi)) := by
    intro lo hi hlo
    refine over_bracket ?_ ?_ ?_ <;>
      · rw [inRange, Bool.and_eq_false_iff, decide_eq_false_iff_not, Nat.not_le]
        exact Or.inl (by simp; omega)
  have hdigit : OverInLine (bracket isDigitChar) := hdigits _ _ (by omega)
  refine ⟨⟨⟨over_literal rfl, hdigits _ _ (by omega)⟩, ?_⟩, ?_⟩
  · exact ⟨⟨over_literal rfl, hdigits _ _ (by omega)⟩, hdigit⟩
  · exact ⟨⟨⟨trivial, hdigits _ _ (by omega)⟩, hdigit⟩, trivial, hdigit⟩

theorem over_email_regex : OverInLine email_regex := by
  have hdot : OverInLine (literal ['.']) := over_literal rfl
  have hname : OverInLine (Regex.many (domainLabel * literal ['.']) * domainLabel) :=
    ⟨Regex.over_many.2 ⟨over_domainLabel, hdot⟩, over_domainLabel⟩
  have hnumbers : OverInLine ((ipNumber * literal ['.']) ^ 3) :=
    Regex.Over.pow (Regex.over_mul.2 ⟨over_ipNumber, hdot⟩) 3
  refine ⟨⟨over_localPart, over_literal rfl⟩, hname, ?_⟩
  exact ⟨⟨⟨over_literal rfl, hnumbers⟩, over_ipNumber⟩, over_literal rfl⟩

theorem over_localemail_regex : OverInLine localemail_regex :=
  ⟨over_localPart, over_literal rfl⟩

/-- **An accepted address** stays on a line and is not too long. -/
theorem isValidEmail_inLine {email : Str} (h : isValidEmail email = true) :
    InLine email ∧ email.length ≤ 254 := by
  rw [isValidEmail, Bool.and_eq_true, Bool.and_eq_true, Bool.or_eq_true, decide_eq_true_eq] at h
  refine ⟨?_, h.1.2⟩
  rcases h.1.1 with hmatch | hmatch
  · exact over_email_regex.of_mem_matches ((RegularExpression.rmatch_iff_matches' _ _).1 hmatch)
  · exact over_localemail_regex.of_mem_matches
      ((RegularExpression.rmatch_iff_matches' _ _).1 hmatch)

/-- Other control characters pass between quotes. -/
example : localPart.rmatch "\"\\\t\"".toList = true := by decide +kernel

end HpcWorkspace
