import HpcWorkspace.EditDb
import HpcWorkspace.GroupShortcut

/-!
# The parsers of timestamps

A name in the deleted area ends with a dash and a timestamp, and four places of the code read it.
Three of them want digits alone behind the last dash and something before it. The expirer, when it
decides about a deletion, splits the name and gives the last field to `std::stol`, which skips
blanks and a sign and ignores what follows the digits.
-/

namespace HpcWorkspace

/-! ## The last field -/

/-- `std::stol(utils::splitString(id, '-').at(std::count(id.begin(), id.end(), '-')))` of
`expire_workspaces` -/
def releaseTimeFromName (id : Str) : Option ℤ := (splitString id '-')[id.count '-']?.bind stol

/-- The text behind the last dash. -/
def lastField (id : Str) : Str :=
  match Dashed.splitLast '-' id with
  | none => id
  | some (_, field) => field

theorem lastField_of_notMem {id : Str} (h : '-' ∉ id) : lastField id = id := by
  rw [lastField, Dashed.splitLast_eq_none.2 h]

theorem lastField_append {base field : Str} (h : '-' ∉ field) :
    lastField (base ++ '-' :: field) = field := by
  rw [lastField, Dashed.splitLast_append h]

theorem length_splitOn (id : Str) : (id.splitOn '-').length = id.count '-' + 1 := by
  induction id with
  | nil => rfl
  | cons c id ih =>
    rw [List.splitOn, List.splitOnP_cons_eq_if_modifyHead]
    split
    · rename_i hc
      rw [eq_of_beq hc, List.count_cons_self, List.length_cons]
      exact congrArg Nat.succ ih
    · rename_i hc
      rw [List.length_modifyHead, List.count_cons_of_ne fun h => hc (beq_iff_eq.2 h)]
      exact ih

theorem splitOn_of_notMem {id : Str} (h : '-' ∉ id) : id.splitOn '-' = [id] :=
  List.splitOnP_eq_singleton fun _ hc => beq_eq_false_iff_ne.2 fun heq => h (heq ▸ hc)

theorem splitOn_append {base field : Str} (h : '-' ∉ field) :
    (base ++ '-' :: field).splitOn '-' = base.splitOn '-' ++ [field] := by
  have hlast : field.splitOnP (· == '-') = [field] := splitOn_of_notMem h
  rw [List.splitOn_eq_splitOnP, List.splitOnP_append_cons (p := (· == '-')) _ _ (beq_self_eq_true '-'), hlast]
  rfl

/-- The words of a text with `fields` before the last one; an empty last one is no word. -/
theorem splitString_of_splitOn {id field : Str} {fields : List Str}
    (h : id.splitOn '-' = fields ++ [field]) :
    (splitString id '-')[fields.length]? = if field = [] then none else some field := by
  rw [splitString, h]
  by_cases hfield : field = []
  · rw [if_pos (by simp [hfield]), if_pos hfield, List.dropLast_concat]
    exact List.getElem?_eq_none (Nat.le_refl _)
  · rw [if_neg (by simp [hfield]), if_neg hfield]
    exact List.getElem?_concat_length

/-- The expirer reads the last field. -/
theorem releaseTimeFromName_eq (id : Str) : releaseTimeFromName id = stol (lastField id) := by
  have hread : ∀ (id field : Str) (fields : List Str), id.splitOn '-' = fields ++ [field] →
      releaseTimeFromName id = stol field := by
    intro id field fields h
    have hcount : id.count '-' = fields.length := by
      have hlength := length_splitOn id
      rw [h, List.length_append, List.length_singleton] at hlength
      omega
    rw [releaseTimeFromName, hcount, splitString_of_splitOn h]
    by_cases hfield : field = []
    · rw [if_pos hfield, hfield]
      rfl
    · rw [if_neg hfield]
      rfl
  rcases Dashed.notMem_or_eq_append '-' id with hmem | ⟨base, field, rfl, hfield⟩
  · rw [lastField_of_notMem hmem]
    exact hread _ _ [] (splitOn_of_notMem hmem)
  · rw [lastField_append hfield]
    exact hread _ _ _ (splitOn_append hfield)

/-- What `fileTime` says of the expirer is what the expirer computes. -/
theorem fileTime_eq_releaseTimeFromName (id : Str) : fileTime id = releaseTimeFromName id := by
  rw [releaseTimeFromName_eq]
  rcases Dashed.notMem_or_eq_append '-' id with hmem | ⟨base, field, rfl, hfield⟩
  · rw [fileTime, lastField, Dashed.splitLast_eq_none.2 hmem]
  · rw [fileTime, lastField, Dashed.splitLast_append hfield]
    cases field with
    | nil => rfl
    | cons => rfl

/-! ## What `std::stol` takes -/

/-- A number at the beginning of a text, behind blanks and a plus sign, that a `long` can hold. -/
structure NumberPrefix (field : Str) where
  /-- white space -/
  blanks : Str
  /-- a plus sign, or none -/
  sign : Str
  /-- the digits -/
  digits : Str
  /-- what follows -/
  rest : Str
  /-- the parts make the text -/
  split : field = blanks ++ (sign ++ (digits ++ rest))
  /-- there is nothing but white space before the sign -/
  blank : ∀ c ∈ blanks, isSpace c = true
  /-- there is at most one sign -/
  plus : sign = [] ∨ sign = ['+']
  /-- there are digits -/
  digits_ne : digits ≠ []
  /-- and nothing else among them -/
  digit : ∀ c ∈ digits, c.isDigit = true
  /-- all of them are taken -/
  ends : ∀ c ∈ rest.head?, c.isDigit = false
  /-- the number is in range -/
  fits : Nat.ofDigitChars 10 digits 0 < 2 ^ 63

/-- A text begins with a number. -/
def BeginsWithNumber (field : Str) : Prop := Nonempty (NumberPrefix field)

/-- A text behind its blanks and a plus sign. -/
def afterSign (field : Str) : Str :=
  let r := field.dropWhile isSpace
  if r.head? = some '+' then r.tail else r

/-- `std::stol` of a text without a minus sign. -/
theorem stol_eq {field : Str} (hdash : '-' ∉ field) : stol field =
    if (afterSign field).takeWhile Char.isDigit = [] then none
    else stollDigits ((afterSign field).takeWhile Char.isDigit) := by
  have hread : ∀ r : Str, afterSign field = r → ∀ o : Option ℤ,
      (r.takeWhile Char.isDigit = [] → o = none) →
      (r.takeWhile Char.isDigit ≠ [] → o = stollDigits (r.takeWhile Char.isDigit)) →
      o = if (afterSign field).takeWhile Char.isDigit = [] then none
        else stollDigits ((afterSign field).takeWhile Char.isDigit) := by
    rintro r rfl o hnone hsome
    split
    · exact hnone ‹_›
    · exact hsome ‹_›
  rw [stol]
  dsimp only
  split
  · rename_i r heq
    have hmem : '-' ∈ field.dropWhile isSpace := heq ▸ List.mem_cons_self
    exact absurd ((List.dropWhile_suffix _).mem hmem) hdash
  · rename_i r heq
    refine hread r (by rw [afterSign, heq]; rfl) _ (fun h => by rw [h]; rfl) fun h => ?_
    cases htake : r.takeWhile Char.isDigit with
    | nil => exact absurd htake h
    | cons c w => rfl
  · rename_i hminus hplus
    have hafter : afterSign field = field.dropWhile isSpace := by
      refine if_neg fun h => ?_
      obtain ⟨r, hr⟩ := List.head?_eq_some_iff.1 h
      exact hplus r hr
    refine hread _ hafter _ (fun h => by rw [h]; rfl) fun h => ?_
    cases htake : (field.dropWhile isSpace).takeWhile Char.isDigit with
    | nil => exact absurd htake h
    | cons c w => rfl

/-- A text is its blanks, a plus sign and the rest. -/
theorem exists_afterSign (field : Str) :
    ∃ blanks sign : Str, field = blanks ++ (sign ++ afterSign field) ∧
      (∀ c ∈ blanks, isSpace c = true) ∧ (sign = [] ∨ sign = ['+']) := by
  have hsplit : field = field.takeWhile isSpace ++ field.dropWhile isSpace :=
    List.takeWhile_append_dropWhile.symm
  have hblank : ∀ c ∈ field.takeWhile isSpace, isSpace c = true := fun c hc =>
    List.mem_takeWhile_imp hc
  by_cases hplus : (field.dropWhile isSpace).head? = some '+'
  · obtain ⟨r, hr⟩ := List.head?_eq_some_iff.1 hplus
    have hcons : field.dropWhile isSpace = '+' :: (field.dropWhile isSpace).tail := by
      rw [hr]
      rfl
    refine ⟨_, ['+'], ?_, hblank, Or.inr rfl⟩
    rw [afterSign, if_pos hplus]
    exact hsplit.trans (congrArg (field.takeWhile isSpace ++ ·) hcons)
  · refine ⟨_, [], ?_, hblank, Or.inl rfl⟩
    rw [afterSign, if_neg hplus]
    exact hsplit

/-- The parts of a number are those that are read. -/
theorem NumberPrefix.takeWhile_afterSign {field : Str} (n : NumberPrefix field) :
    (afterSign field).takeWhile Char.isDigit = n.digits := by
  obtain ⟨blanks, sign, digits, rest, rfl, hblank, hplus, hne, hdigit, hends, -⟩ := n
  obtain ⟨d, ds, rfl⟩ := List.exists_cons_of_ne_nil hne
  obtain ⟨hspace, -, hd⟩ := isDigit_ne (hdigit d List.mem_cons_self)
  have hdrop : (blanks ++ (sign ++ (d :: ds ++ rest))).dropWhile isSpace =
      sign ++ (d :: ds ++ rest) := by
    rw [List.dropWhile_append_of_pos hblank]
    rcases hplus with rfl | rfl
    · exact List.dropWhile_cons_of_neg (by rw [hspace]; exact Bool.false_ne_true)
    · exact List.dropWhile_cons_of_neg (by decide)
  have hafter : afterSign (blanks ++ (sign ++ (d :: ds ++ rest))) = d :: ds ++ rest := by
    rw [afterSign, hdrop]
    rcases hplus with rfl | rfl
    · exact if_neg fun h => hd (Option.some.inj h)
    · exact if_pos rfl
  have hrest : rest.takeWhile Char.isDigit = [] := by
    cases rest with
    | nil => rfl
    | cons c rest =>
      exact List.takeWhile_cons_of_neg (by rw [hends c rfl]; exact Bool.false_ne_true)
  rw [hafter, List.takeWhile_append_of_pos hdigit, hrest, List.append_nil]

/-- `std::stol` takes a text without a minus sign when it begins with a number. -/
theorem stol_eq_none_iff {field : Str} (hdash : '-' ∉ field) :
    stol field = none ↔ ¬BeginsWithNumber field := by
  rw [stol_eq hdash]
  constructor
  · rintro hnone ⟨n⟩
    rw [n.takeWhile_afterSign, if_neg n.digits_ne, stollDigits, if_pos n.fits] at hnone
    cases hnone
  · intro hno
    split
    · rfl
    rename_i hne
    obtain ⟨blanks, sign, hsplit, hblank, hplus⟩ := exists_afterSign field
    refine if_neg fun hfits => hno ⟨?_⟩
    have hparts : afterSign field = (afterSign field).takeWhile Char.isDigit ++
        (afterSign field).dropWhile Char.isDigit := List.takeWhile_append_dropWhile.symm
    refine ⟨blanks, sign, _, (afterSign field).dropWhile Char.isDigit, ?_, hblank, hplus, hne,
      fun c hc => List.mem_takeWhile_imp hc, fun c hc => ?_, hfits⟩
    · rw [← hparts]
      exact hsplit
    · have hhead := List.head?_dropWhile_not Char.isDigit (afterSign field)
      rw [Option.mem_def.1 hc] at hhead
      exact hhead

/-! ## Agreement -/

/-- The shape that three of the parsers ask for. -/
def HasTimestamp (id : Str) : Prop :=
  ∃ base field, id = base ++ '-' :: field ∧ base ≠ [] ∧ field ≠ [] ∧ ∀ c ∈ field, c.isDigit = true

/-- The parsers agree on a name. -/
structure ParsersAgree (id : Str) : Prop where
  /-- `splitExpiredId` and `timestampFromId` -/
  splitExpiredId : (splitExpiredId id).map Prod.snd = timestampFromId id
  /-- `trailing_timestamp`, where the time is plausible -/
  trailingTimestamp : ∀ ts, 1 ≤ ts → ts ≤ 4102444800 →
    (trailingTimestamp id = some ts ↔ timestampFromId id = some ts)
  /-- the expirer's time of the name -/
  releaseTimeFromName : releaseTimeFromName id = timestampFromId id

theorem trailingTimestamp_eq (id : Str) : trailingTimestamp id =
    (timestampFromId id).bind fun val => if val ≤ 0 ∨ val > 4102444800 then none else some val := by
  rw [trailingTimestamp, timestampFromId]
  cases Dashed.splitLast '-' id with
  | none => rfl
  | some p =>
    dsimp only
    split
    · rfl
    split
    · rfl
    · rfl

theorem HasTimestamp.of_timestampFromId {id : Str} {ts : ℤ} (h : timestampFromId id = some ts) :
    HasTimestamp id := by
  rw [timestampFromId] at h
  rcases Dashed.notMem_or_eq_append '-' id with hmem | ⟨base, field, rfl, hfield⟩
  · rw [Dashed.splitLast_eq_none.2 hmem] at h
    cases h
  · rw [Dashed.splitLast_append hfield] at h
    dsimp only at h
    split at h
    · cases h
    rename_i hshape
    rw [Bool.or_eq_true, beq_iff_eq, beq_iff_eq, not_or] at hshape
    split at h
    · rename_i hdigits
      exact ⟨base, field, rfl, hshape.1, hshape.2, List.all_eq_true.1 hdigits⟩
    · cases h

/-- On such a name there is no difference. -/
theorem HasTimestamp.stol_lastField {id : Str} (h : HasTimestamp id) :
    stol (lastField id) = timestampFromId id := by
  obtain ⟨base, field, rfl, hbase, hne, hdigits⟩ := h
  have hall : field.all Char.isDigit = true := List.all_eq_true.2 hdigits
  have hfield : '-' ∉ field := fun hmem => absurd (hdigits _ hmem) (by decide)
  have hshape : ¬((base == [] || field == []) = true) := by
    rw [Bool.or_eq_true, beq_iff_eq, beq_iff_eq]
    exact fun h => h.elim hbase hne
  rw [lastField_append hfield, stol_digits hne hall, timestampFromId,
    Dashed.splitLast_append hfield]
  dsimp only
  rw [if_neg hshape, if_pos hall]

theorem dash_notMem_lastField (id : Str) : '-' ∉ lastField id := by
  rcases Dashed.notMem_or_eq_append '-' id with hmem | ⟨base, field, rfl, hfield⟩
  · rw [lastField_of_notMem hmem]
    exact hmem
  · rw [lastField_append hfield]
    exact hfield

theorem parsersAgree_iff (id : Str) :
    ParsersAgree id ↔ HasTimestamp id ∨ ¬BeginsWithNumber (lastField id) := by
  have hnone := stol_eq_none_iff (dash_notMem_lastField id)
  have htrailing : ∀ ts, 1 ≤ ts → ts ≤ 4102444800 →
      (trailingTimestamp id = some ts ↔ timestampFromId id = some ts) := by
    intro ts hpos hle
    rw [trailingTimestamp_eq, Option.bind_eq_some_iff]
    constructor
    · rintro ⟨val, hval, hsome⟩
      split at hsome
      · cases hsome
      · rw [hval, hsome]
    · exact fun h => ⟨ts, h, if_neg (by omega)⟩
  constructor
  · intro agree
    have hname := agree.releaseTimeFromName
    rw [releaseTimeFromName_eq] at hname
    cases hts : timestampFromId id with
    | none => exact Or.inr (hnone.1 (hname.trans hts))
    | some ts => exact Or.inl (.of_timestampFromId hts)
  · intro h
    refine ⟨(timestampFromId_eq id).symm, htrailing, ?_⟩
    rw [releaseTimeFromName_eq]
    cases hts : timestampFromId id with
    | none =>
      rcases h with h | h
      · rw [h.stol_lastField, hts]
      · exact hnone.2 h
    | some ts => rw [(HasTimestamp.of_timestampFromId hts).stol_lastField, hts]

/-- The parsers give back what a name was made of. -/
structure ReadBack (base : Str) (ts : ℤ) : Prop where
  /-- `splitExpiredId` -/
  splitExpiredId : splitExpiredId (deletedName base ts) = some (base, ts)
  /-- `timestampFromId` -/
  timestampFromId : timestampFromId (deletedName base ts) = some ts
  /-- the expirer's time of the name -/
  releaseTimeFromName : releaseTimeFromName (deletedName base ts) = some ts
  /-- `trailing_timestamp`, where the time is plausible -/
  trailingTimestamp : 1 ≤ ts → ts ≤ 4102444800 →
    trailingTimestamp (deletedName base ts) = some ts

theorem readBack {base : Str} {ts : ℤ} (hbase : base ≠ []) (hts : 0 ≤ ts) (hlt : ts < 2 ^ 63) :
    ReadBack base ts := by
  have hsplit := splitExpiredId_deletedName hbase hts hlt
  refine ⟨hsplit, ?_, ?_, fun hpos hle => trailingTimestamp_deletedName hbase hpos hle⟩
  · rw [timestampFromId_eq, hsplit]
    rfl
  · rw [← fileTime_eq_releaseTimeFromName, fileTime_deletedName hts hlt]

/-- **The parsers of timestamps** agree on a name exactly when it has the shape three of them ask for
or `std::stol` finds no number in its last field; and they read back every name that is made. -/
theorem timestampParsers_agree (id : Str) :
    (ParsersAgree id ↔ HasTimestamp id ∨ ¬BeginsWithNumber (lastField id)) ∧
      ∀ ts : ℤ, id ≠ [] → 0 ≤ ts → ts < 2 ^ 63 → ReadBack id ts :=
  ⟨parsersAgree_iff id, fun _ hid hts hlt => readBack hid hts hlt⟩

theorem timestampParsers_agree_bob :
    ParsersAgree "bob-x-12".toList ∧ ReadBack "bob-x".toList 12 :=
  ⟨(timestampParsers_agree "bob-x-12".toList).1.2
      (Or.inl ⟨"bob-x".toList, "12".toList, by decide, by decide, by decide,
        List.all_eq_true.1 (by decide)⟩),
    (timestampParsers_agree "bob-x".toList).2 12 (by decide) (by decide) (by omega)⟩

/-- The expirer takes 12 for the time of `x-12ab`, the others take nothing. -/
theorem releaseTimeFromName_letters :
    releaseTimeFromName "x-12ab".toList = some 12 ∧ timestampFromId "x-12ab".toList = none ∧
      ¬ParsersAgree "x-12ab".toList := by
  have hname : releaseTimeFromName "x-12ab".toList = some 12 := by decide
  have hts : timestampFromId "x-12ab".toList = none := by decide
  refine ⟨hname, hts, fun agree => ?_⟩
  have heq := agree.releaseTimeFromName
  rw [hname, hts] at heq
  cases heq

end HpcWorkspace
