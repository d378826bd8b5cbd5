import HpcWorkspace.Lib.Base64
import HpcWorkspace.Names

/-!
# The invitation of `ws_send_ical`

`base64Encode` shifts bytes into an `unsigned int` and takes digits out as soon as there are six
bits for one; what is shifted out at the upper end was taken out before. `generateMail` writes the
text in lines of 76 characters.
-/

namespace HpcWorkspace

/-! ## `base64Encode` -/

/-- `chars` -/
def base64Chars : Str :=
  "ABCDEFGHIJKLMNOPQRSTUVWXYZabcdefghijklmnopqrstuvwxyz0123456789+/".toList

/-- `chars[n & 0x3F]` -/
def base64Char (n : BitVec 32) : Char := base64Chars.getD (n &&& 0x3F).toNat '='

/-- The local variables of `base64Encode`. -/
structure Base64State where
  /-- the text so far -/
  result : Str
  /-- `unsigned int val` -/
  val : BitVec 32
  /-- `int valb`, six less than the number of bits to be taken out -/
  valb : ℤ

namespace Base64State

/-- `while (valb >= 0)` -/
def drain (s : Base64State) : Base64State :=
  if 0 ≤ s.valb then
    drain { s with
      result := s.result ++ [base64Char (s.val >>> s.valb.toNat)]
      valb := s.valb - 6 }
  else s
termination_by (s.valb + 6).toNat
decreasing_by omega

/-- A round of the loop over the bytes. -/
def put (s : Base64State) (c : UInt8) : Base64State :=
  { s with val := s.val <<< 8 + c.toBitVec.setWidth 32, valb := s.valb + 8 }.drain

end Base64State

/-- `while (result.size() % 4)` -/
def base64Pad (result : Str) : Str :=
  if result.length % 4 ≠ 0 then base64Pad (result ++ ['=']) else result
termination_by (4 - result.length % 4) % 4
decreasing_by
  rw [List.length_append, List.length_singleton]
  omega

/-- What is left after the loop. -/
def base64Finish (s : Base64State) : Str :=
  base64Pad <|
    if s.valb > -6 then s.result ++ [base64Char ((s.val <<< 8) >>> (s.valb + 8).toNat)]
    else s.result

/-- `base64Encode` -/
def base64Encode (input : List UInt8) : Str :=
  base64Finish (input.foldl Base64State.put ⟨[], 0, -6⟩)

/-! ## The lines of the mail -/

/-- The loop of `generateMail` over the text, from its character `i` on. -/
def base64Lines (encodedICS : Str) (i : ℕ) : Str :=
  if i < encodedICS.length then
    (encodedICS.drop i).take 76 ++ CRLF ++ base64Lines encodedICS (i + 76)
  else []
termination_by encodedICS.length - i

/-- A character that is no line end; a decoder takes no others. -/
def notLineEnd (c : Char) : Bool := c != '\r' && c != '\n'

/-! ## Digits -/

theorem base64Char_eq (n : BitVec 32) : base64Char n = Base64.digit (n.toNat % 64) := by
  have hand : (n &&& 0x3F).toNat = n.toNat % 64 := by
    rw [BitVec.toNat_and]
    exact Nat.and_two_pow_sub_one_eq_mod n.toNat 6
  rw [base64Char, hand]
  rfl

namespace Base64State

variable {s : Base64State}

theorem drain_of_neg (h : s.valb < 0) : s.drain = s := by
  rw [drain, if_neg (by omega)]

theorem drain_of_nonneg (h : 0 ≤ s.valb) :
    s.drain = { s with
      result := s.result ++ [Base64.digit (s.val.toNat / 2 ^ s.valb.toNat % 64)]
      valb := s.valb - 6 }.drain := by
  rw [drain, if_pos h, base64Char_eq, BitVec.toNat_ushiftRight, Nat.shiftRight_eq_div_pow]

/-- Shifting a byte in; the upper byte is lost. -/
theorem toNat_shiftIn (val : BitVec 32) (c : UInt8) :
    (val <<< 8 + c.toBitVec.setWidth 32).toNat = val.toNat % 2 ^ 24 * 256 + c.toNat := by
  have hc := c.toNat_lt
  have hbyte : (c.toBitVec.setWidth 32).toNat = c.toNat := by
    rw [BitVec.toNat_setWidth, UInt8.toNat_toBitVec, Nat.mod_eq_of_lt (by omega)]
  rw [BitVec.toNat_add, BitVec.toNat_shiftLeft, hbyte, Nat.shiftLeft_eq]
  omega

/-- The first byte of three gives a digit. -/
theorem put_first (h : s.valb = -6) (a : UInt8) :
    ∃ val : BitVec 32, val.toNat % 256 = a.toNat ∧
      s.put a = ⟨s.result ++ [Base64.digit (a.toNat / 4)], val, -4⟩ := by
  have ha := a.toNat_lt
  have hval := toNat_shiftIn s.val a
  refine ⟨s.val <<< 8 + a.toBitVec.setWidth 32, by omega, ?_⟩
  have hdigit : (s.val.toNat % 2 ^ 24 * 256 + a.toNat) / 2 ^ 2 % 64 = a.toNat / 4 := by omega
  rw [put, h, drain_of_nonneg (by simp), drain_of_neg (by simp)]
  dsimp only
  rw [hval]
  exact congrArg (fun v => Base64State.mk (s.result ++ [Base64.digit v]) _ _) hdigit

/-- The second byte of three gives a digit. -/
theorem put_second (h : s.valb = -4) {a : UInt8} (hval : s.val.toNat % 256 = a.toNat) (b : UInt8) :
    ∃ val : BitVec 32, val.toNat % 256 = b.toNat ∧
      s.put b =
        ⟨s.result ++ [Base64.digit (a.toNat % 4 * 16 + b.toNat / 16)], val, -2⟩ := by
  have hb := b.toNat_lt
  have hnew := toNat_shiftIn s.val b
  refine ⟨s.val <<< 8 + b.toBitVec.setWidth 32, by omega, ?_⟩
  have hdigit : (s.val.toNat % 2 ^ 24 * 256 + b.toNat) / 2 ^ 4 % 64 =
      a.toNat % 4 * 16 + b.toNat / 16 := by
    omega
  rw [put, h, drain_of_nonneg (by simp), drain_of_neg (by simp)]
  dsimp only
  rw [hnew]
  exact congrArg (fun v => Base64State.mk (s.result ++ [Base64.digit v]) _ _) hdigit

/-- The third byte gives two. -/
theorem put_third (h : s.valb = -2) {b : UInt8} (hval : s.val.toNat % 256 = b.toNat) (c : UInt8) :
    ∃ val : BitVec 32,
      s.put c =
        ⟨s.result ++ [Base64.digit (b.toNat % 16 * 4 + c.toNat / 64)] ++
          [Base64.digit (c.toNat % 64)], val, -6⟩ := by
  have hc := c.toNat_lt
  have hnew := toNat_shiftIn s.val c
  refine ⟨s.val <<< 8 + c.toBitVec.setWidth 32, ?_⟩
  have hhigh : (s.val.toNat % 2 ^ 24 * 256 + c.toNat) / 2 ^ 6 % 64 =
      b.toNat % 16 * 4 + c.toNat / 64 := by
    omega
  have hlow : (s.val.toNat % 2 ^ 24 * 256 + c.toNat) / 2 ^ 0 % 64 = c.toNat % 64 := by
    omega
  rw [put, h, drain_of_nonneg (by simp), drain_of_nonneg (by simp), drain_of_neg (by simp)]
  dsimp only
  rw [hnew]
  exact congrArg₂
    (fun v w => Base64State.mk (s.result ++ [Base64.digit v] ++ [Base64.digit w]) _ _) hhigh hlow

end Base64State

/-! ## The text as a whole -/

theorem base64Pad_of_mod {result : Str} (h : result.length % 4 = 0) : base64Pad result = result := by
  rw [base64Pad, if_neg (not_not.2 h)]

theorem base64Pad_append {result : Str} (h : result.length % 4 = 0) (x y : Char) :
    base64Pad (result ++ [x] ++ [y]) = result ++ [x, y, '=', '='] := by
  have htwo : (result ++ [x] ++ [y]).length % 4 = 2 := by
    simp only [List.length_append, List.length_singleton]
    omega
  have hthree : (result ++ [x] ++ [y] ++ ['=']).length % 4 = 3 := by
    rw [List.length_append, List.length_singleton]
    omega
  rw [base64Pad, if_pos (by omega), base64Pad, if_pos (by omega), base64Pad_of_mod]
  · simp
  · rw [List.length_append, List.length_singleton]
    omega

theorem base64Pad_append_three {result : Str} (h : result.length % 4 = 0) (x y z : Char) :
    base64Pad (result ++ [x] ++ [y] ++ [z]) = result ++ [x, y, z, '='] := by
  have hthree : (result ++ [x] ++ [y] ++ [z]).length % 4 = 3 := by
    simp only [List.length_append, List.length_singleton]
    omega
  rw [base64Pad, if_pos (by omega), base64Pad_of_mod]
  · simp
  · rw [List.length_append, List.length_singleton]
    omega

/-- What is left of one byte, two bits. -/
theorem base64Finish_one {result : Str} (hmod : result.length % 4 = 0) {a : UInt8}
    {val : BitVec 32} (hval : val.toNat % 256 = a.toNat) (x : Char) :
    base64Finish ⟨result ++ [x], val, -4⟩ =
      result ++ [x, Base64.digit (a.toNat % 4 * 16), '=', '='] := by
  have hdigit : (val.toNat * 256) % 2 ^ 32 / 2 ^ 4 % 64 = a.toNat % 4 * 16 := by omega
  have hchar : base64Char ((val <<< 8) >>> 4) = Base64.digit (a.toNat % 4 * 16) := by
    rw [base64Char_eq, BitVec.toNat_ushiftRight, BitVec.toNat_shiftLeft, Nat.shiftLeft_eq,
      Nat.shiftRight_eq_div_pow, hdigit]
  rw [base64Finish, if_pos (by simp)]
  exact (congrArg (fun c => base64Pad (result ++ [x] ++ [c])) hchar).trans
    (base64Pad_append hmod _ _)

/-- What is left of two bytes, four bits. -/
theorem base64Finish_two {result : Str} (hmod : result.length % 4 = 0) {b : UInt8}
    {val : BitVec 32} (hval : val.toNat % 256 = b.toNat) (x y : Char) :
    base64Finish ⟨result ++ [x] ++ [y], val, -2⟩ =
      result ++ [x, y, Base64.digit (b.toNat % 16 * 4), '='] := by
  have hdigit : (val.toNat * 256) % 2 ^ 32 / 2 ^ 6 % 64 = b.toNat % 16 * 4 := by omega
  have hchar : base64Char ((val <<< 8) >>> 6) = Base64.digit (b.toNat % 16 * 4) := by
    rw [base64Char_eq, BitVec.toNat_ushiftRight, BitVec.toNat_shiftLeft, Nat.shiftLeft_eq,
      Nat.shiftRight_eq_div_pow, hdigit]
  rw [base64Finish, if_pos (by simp)]
  exact (congrArg (fun c => base64Pad (result ++ [x] ++ [y] ++ [c])) hchar).trans
    (base64Pad_append_three hmod _ _ _)

/-- The loop and what follows it, begun between two groups of three bytes; the bits above the last
byte do not matter. -/
theorem base64Finish_foldl (input : List UInt8) {s : Base64State} (hvalb : s.valb = -6)
    (hmod : s.result.length % 4 = 0) :
    base64Finish (input.foldl Base64State.put s) = s.result ++ Base64.encode input := by
  induction input using Base64.encode.induct generalizing s with
  | case1 =>
    rw [List.foldl_nil, base64Finish, if_neg (by omega), base64Pad_of_mod hmod, Base64.encode,
      List.append_nil]
  | case2 a =>
    obtain ⟨val, hval, hput⟩ := s.put_first hvalb a
    rw [List.foldl_cons, List.foldl_nil, hput, base64Finish_one hmod hval, Base64.encode]
  | case3 a b =>
    obtain ⟨val, hval, hput⟩ := s.put_first hvalb a
    obtain ⟨val', hval', hput'⟩ :=
      Base64State.put_second (s := ⟨s.result ++ [Base64.digit (a.toNat / 4)], val, -4⟩) rfl hval b
    rw [List.foldl_cons, List.foldl_cons, List.foldl_nil, hput, hput',
      base64Finish_two hmod hval', Base64.encode]
  | case4 a b c rest ih =>
    obtain ⟨val, hval, hput⟩ := s.put_first hvalb a
    obtain ⟨val', hval', hput'⟩ :=
      Base64State.put_second (s := ⟨s.result ++ [Base64.digit (a.toNat / 4)], val, -4⟩) rfl hval b
    obtain ⟨val'', hput''⟩ := Base64State.put_third (s := ⟨_, val', -2⟩) rfl hval' c
    rw [List.foldl_cons, List.foldl_cons, List.foldl_cons, hput, hput', hput'', ih rfl, Base64.encode]
    · simp
    · simp only [List.length_append, List.length_singleton]
      omega

theorem base64Encode_eq (input : List UInt8) : base64Encode input = Base64.encode input :=
  base64Finish_foldl input rfl rfl

/-! ## Lines -/

theorem filter_notLineEnd_encode (input : List UInt8) :
    (Base64.encode input).filter notLineEnd = Base64.encode input := by
  have hall : Base64.alphabet.all notLineEnd = true := rfl
  have halphabet : ∀ c ∈ Base64.alphabet, notLineEnd c = true := List.all_eq_true.1 hall
  refine List.filter_eq_self.2 fun c hc => ?_
  rcases Base64.mem_encode hc with hmem | rfl
  · exact halphabet c hmem
  · rfl

/-- The lines without their ends are the text. -/
theorem filter_base64Lines (encodedICS : Str) (i : ℕ) :
    (base64Lines encodedICS i).filter notLineEnd = (encodedICS.drop i).filter notLineEnd := by
  induction i using base64Lines.induct encodedICS with
  | case1 i h ih =>
    have hends : CRLF.filter notLineEnd = [] := by decide
    have hsplit : encodedICS.drop i =
        (encodedICS.drop i).take 76 ++ encodedICS.drop (i + 76) := by
      rw [← List.drop_drop, List.take_append_drop]
    rw [base64Lines, if_pos h, List.filter_append, List.filter_append, hends, List.append_nil, ih,
      ← List.filter_append, ← hsplit]
  | case2 i h =>
    rw [base64Lines, if_neg h, List.drop_eq_nil_of_le (by omega)]

/-- **The encoder of `ws_send_ical` is base64**, also after the text was put into lines. -/
theorem base64Encode_correct (input : List UInt8) :
    base64Encode input = Base64.encode input ∧ (base64Encode input).length % 4 = 0 ∧
      Base64.decode (base64Encode input) = some input ∧
      Base64.decode ((base64Lines (base64Encode input) 0).filter notLineEnd) = some input := by
  have hlines : (base64Lines (base64Encode input) 0).filter notLineEnd = Base64.encode input := by
    rw [filter_base64Lines, List.drop_zero, base64Encode_eq, filter_notLineEnd_encode]
  refine ⟨base64Encode_eq input, ?_, ?_, ?_⟩
  · rw [base64Encode_eq, Base64.length_encode]
    omega
  · rw [base64Encode_eq, Base64.decode_encode]
  · rw [hlines, Base64.decode_encode]

end HpcWorkspace
