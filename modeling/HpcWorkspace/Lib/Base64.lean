import Mathlib.Data.List.GetD
import Mathlib.Algebra.Group.Nat.Defs
import Mathlib.Data.Nat.Notation

/-!
# Base64

Bytes as text, after RFC 4648: three bytes are four digits of six bits each, and the last one or two
bytes are filled up with zero bits and padded with `=`. A decoder takes four characters at a time;
padding stands at the end only, and the bits it stands for are zero.
-/

namespace Base64

/-! ## Digits -/

/-- The alphabet. -/
def alphabet : List Char :=
  "ABCDEFGHIJKLMNOPQRSTUVWXYZabcdefghijklmnopqrstuvwxyz0123456789+/".toList

/-- The digit of a value of six bits. -/
def digit (v : ℕ) : Char := alphabet.getD v '='

/-- The value of a digit. -/
def value (c : Char) : Option ℕ := alphabet.findIdx? (· == c)

theorem value_digit {v : ℕ} (h : v < 64) : value (digit v) = some v := by
  revert v
  decide

theorem digit_ne_pad {v : ℕ} (h : v < 64) : digit v ≠ '=' := by
  intro heq
  have hvalue := value_digit h
  rw [heq] at hvalue
  cases hvalue

theorem digit_mem {v : ℕ} (h : v < 64) : digit v ∈ alphabet := by
  have hlt : v < alphabet.length := h
  rw [digit, List.getD_eq_getElem _ _ hlt]
  exact List.getElem_mem hlt

/-! ## Texts -/

/-- The text of some bytes. -/
def encode : List UInt8 → List Char
  | [] => []
  | [a] => [digit (a.toNat / 4), digit (a.toNat % 4 * 16), '=', '=']
  | [a, b] =>
    [digit (a.toNat / 4), digit (a.toNat % 4 * 16 + b.toNat / 16), digit (b.toNat % 16 * 4), '=']
  | a :: b :: c :: rest =>
    digit (a.toNat / 4) :: digit (a.toNat % 4 * 16 + b.toNat / 16) ::
      digit (b.toNat % 16 * 4 + c.toNat / 64) :: digit (c.toNat % 64) :: encode rest

/-- A byte, from the bits of two digits. -/
def byte (v : ℕ) : UInt8 := UInt8.ofNat v

/-- The bytes of a text; `none` for one that is not base64. -/
def decode : List Char → Option (List UInt8)
  | [] => some []
  | w :: x :: y :: z :: rest =>
    if y = '=' ∧ z = '=' ∧ rest = [] then
      match value w, value x with
      | some w, some x => if x % 16 = 0 then some [byte (w * 4 + x / 16)] else none
      | _, _ => none
    else if z = '=' ∧ rest = [] then
      match value w, value x, value y with
      | some w, some x, some y =>
        if y % 4 = 0 then some [byte (w * 4 + x / 16), byte (x % 16 * 16 + y / 4)] else none
      | _, _, _ => none
    else
      match value w, value x, value y, value z, decode rest with
      | some w, some x, some y, some z, some bytes =>
        some (byte (w * 4 + x / 16) :: byte (x % 16 * 16 + y / 4) :: byte (y % 4 * 64 + z) :: bytes)
      | _, _, _, _, _ => none
  | _ => none

theorem byte_eq (a : UInt8) {v : ℕ} (h : v = a.toNat) : byte v = a := by
  rw [byte, h, UInt8.ofNat_toNat]

/-- **Round trip.** -/
theorem decode_encode (bytes : List UInt8) : decode (encode bytes) = some bytes := by
  induction bytes using encode.induct with
  | case1 => rfl
  | case2 a =>
    have ha := a.toNat_lt
    rw [encode, decode, if_pos ⟨rfl, rfl, rfl⟩, value_digit (by omega), value_digit (by omega)]
    dsimp only
    rw [if_pos (by omega), byte_eq a (by omega)]
  | case3 a b =>
    have ha := a.toNat_lt
    have hb := b.toNat_lt
    rw [encode, decode, if_neg fun h => digit_ne_pad (by omega) h.1, if_pos ⟨rfl, rfl⟩,
      value_digit (by omega), value_digit (by omega), value_digit (by omega)]
    dsimp only
    rw [if_pos (by omega), byte_eq a (by omega), byte_eq b (by omega)]
  | case4 a b c rest ih =>
    have ha := a.toNat_lt
    have hb := b.toNat_lt
    have hc := c.toNat_lt
    rw [encode, decode, if_neg fun h => digit_ne_pad (by omega) h.1,
      if_neg fun h => digit_ne_pad (by omega) h.1, value_digit (by omega), value_digit (by omega),
      value_digit (by omega), value_digit (by omega), ih]
    dsimp only
    rw [byte_eq a (by omega), byte_eq b (by omega), byte_eq c (by omega)]

/-- A text consists of groups of four characters. -/
theorem length_encode (bytes : List UInt8) :
    (encode bytes).length = (bytes.length + 2) / 3 * 4 := by
  induction bytes using encode.induct with
  | case1 => rfl
  | case2 a => simp [encode]
  | case3 a b => simp [encode]
  | case4 a b c rest ih =>
    simp only [encode, List.length_cons, ih]
    omega

/-- It consists of digits and padding. -/
theorem mem_encode {bytes : List UInt8} {c : Char} (h : c ∈ encode bytes) :
    c ∈ alphabet ∨ c = '=' := by
  induction bytes using encode.induct with
  | case1 => cases h
  | case2 a =>
    have ha := a.toNat_lt
    simp only [encode, List.mem_cons, List.not_mem_nil, or_false] at h
    rcases h with rfl | rfl | rfl | rfl
    · exact Or.inl (digit_mem (by omega))
    · exact Or.inl (digit_mem (by omega))
    · exact Or.inr rfl
    · exact Or.inr rfl
  | case3 a b =>
    have ha := a.toNat_lt
    have hb := b.toNat_lt
    simp only [encode, List.mem_cons, List.not_mem_nil, or_false] at h
    rcases h with rfl | rfl | rfl | rfl
    · exact Or.inl (digit_mem (by omega))
    · exact Or.inl (digit_mem (by omega))
    · exact Or.inl (digit_mem (by omega))
    · exact Or.inr rfl
  | case4 a b c' rest ih =>
    have ha := a.toNat_lt
    have hb := b.toNat_lt
    have hc := c'.toNat_lt
    simp only [encode, List.mem_cons] at h
    rcases h with rfl | rfl | rfl | rfl | h
    · exact Or.inl (digit_mem (by omega))
    · exact Or.inl (digit_mem (by omega))
    · exact Or.inl (digit_mem (by omega))
    · exact Or.inl (digit_mem (by omega))
    · exact ih h

end Base64
