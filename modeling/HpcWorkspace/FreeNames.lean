import Mathlib.Data.Nat.Find
import HpcWorkspace.RenameSteps

/-!
# Free names in the deleted area

`expire` and `expiredIdFor` look for a free name in the same way: they count up a time, at most 1000
times, until the name with it is admissible. The times are sums of a `time_t`, so a count that
begins just below its end goes on with negative times. Up to there the first admissible time is
found.
-/

namespace HpcWorkspace

/-! ## Counting up -/

/-- A sum of a `time_t`. -/
def int64 (z : ℤ) : ℤ := z.bmod (2 ^ 64)

/-- The loop of both: the first of so many times from `base` on that is admissible. -/
def countUp (base : ℤ) (tries : ℕ) (ok : ℤ → Bool) : Option ℤ :=
  ((List.range tries).find? fun i : ℕ => ok (int64 (base + i))).map fun i : ℕ => int64 (base + i)

/-- The first admissible time from `base` on, of so many ones. -/
structure FirstTime (base : ℤ) (tries : ℕ) (ok : ℤ → Bool) (t : ℤ) : Prop where
  /-- it is not before the first one -/
  le : base ≤ t
  /-- nor after the last one -/
  lt : t < base + tries
  /-- it is admissible -/
  admissible : ok t = true
  /-- none before it is -/
  first : ∀ t', base ≤ t' → t' < t → ok t' = false

/-- A search finds the first admissible time, if there is one. -/
def FindsFirst (base : ℤ) (tries : ℕ) (ok : ℤ → Bool) (found : Option ℤ) : Prop :=
  (∀ t, FirstTime base tries ok t → found = some t) ∧
    ((∀ t, ¬FirstTime base tries ok t) → found = none)

/-- Times from 2^63 on do not matter: there are none among the candidates, or an earlier one is
admissible, or neither they nor what they wrap to are. -/
def EndsInTime (base : ℤ) (tries : ℕ) (ok : ℤ → Bool) : Prop :=
  ∀ t, base ≤ t → 2 ^ 63 ≤ t → t < base + tries →
    (∃ t', base ≤ t' ∧ t' < 2 ^ 63 ∧ ok t' = true) ∨ (ok t = false ∧ ok (int64 t) = false)

section Counting

variable {base t : ℤ} {tries : ℕ} {ok : ℤ → Bool}

theorem int64_eq_self (hnonneg : 0 ≤ t) (hlt : t < 2 ^ 63) : int64 t = t :=
  Int.bmod_eq_of_le (by omega) (by omega)

theorem int64_lt (t : ℤ) : int64 t < 2 ^ 63 := by
  have hlt : t.bmod (2 ^ 64) < ((2 ^ 64 : ℕ) + 1) / 2 := Int.bmod_lt (by decide)
  rw [int64]
  omega

theorem countUp_eq_some (h : countUp base tries ok = some t) :
    ∃ i : ℕ, i < tries ∧ t = int64 (base + i) ∧ ok t = true ∧
      ∀ j : ℕ, j < i → ok (int64 (base + j)) = false := by
  obtain ⟨i, hfind, rfl⟩ := Option.map_eq_some_iff.mp h
  obtain ⟨hok, hi, hfirst⟩ := List.find?_range_eq_some.mp hfind
  exact ⟨i, List.mem_range.mp hi, rfl, hok, fun j hj => by simpa using hfirst j hj⟩

theorem countUp_eq_none (h : countUp base tries ok = none) {i : ℕ} (hi : i < tries) :
    ok (int64 (base + i)) = false := by
  have hnone := List.find?_range_eq_none.mp (Option.map_eq_none_iff.mp h) i hi
  simpa using hnone

/-- A time is a candidate by its distance from the first one. -/
theorem exists_candidate (hle : base ≤ t) (hlt : t < base + tries) :
    ∃ i : ℕ, i < tries ∧ base + i = t :=
  ⟨(t - base).toNat, by omega, by omega⟩

/-- Where one is admissible, one is the first. -/
theorem exists_firstTime (hle : base ≤ t) (hlt : t < base + tries) (hok : ok t = true) :
    ∃ t', FirstTime base tries ok t' := by
  obtain ⟨i, hi, rfl⟩ := exists_candidate hle hlt
  have hex : ∃ j : ℕ, ok (base + j) = true := ⟨i, hok⟩
  have hmin : Nat.find hex ≤ i := Nat.find_min' hex hok
  refine ⟨base + Nat.find hex, by omega, by omega, Nat.find_spec hex, fun t' hle' hlt' => ?_⟩
  obtain ⟨j, hj, rfl⟩ := exists_candidate hle' hlt'
  exact Bool.eq_false_iff.mpr (Nat.find_min hex hj)

theorem FirstTime.unique {t' : ℤ} (h : FirstTime base tries ok t) (h' : FirstTime base tries ok t') :
    t = t' := by
  by_contra hne
  rcases Int.lt_or_gt_of_ne hne with hlt | hlt
  · have hno := h'.first t h.le hlt
    rw [h.admissible] at hno
    cases hno
  · have hno := h.first t' h'.le hlt
    rw [h'.admissible] at hno
    cases hno

/-- A candidate below 2^63 that is admissible is not passed by. -/
theorem countUp_ne_none (hbase : 0 ≤ base) (hle : base ≤ t) (hlt : t < base + tries)
    (hsmall : t < 2 ^ 63) (hok : ok t = true) : countUp base tries ok ≠ none := by
  intro hnone
  obtain ⟨i, hi, rfl⟩ := exists_candidate hle hlt
  have hno := countUp_eq_none hnone hi
  rw [int64_eq_self (by omega) hsmall, hok] at hno
  cases hno

/-- What is found below 2^63 is the first one. -/
theorem firstTime_of_countUp {i : ℕ} (hbase : 0 ≤ base) (hi : i < tries)
    (hsmall : base + i < 2 ^ 63) (hok : ok (base + i) = true)
    (hfirst : ∀ j : ℕ, j < i → ok (int64 (base + j)) = false) :
    FirstTime base tries ok (base + i) := by
  refine ⟨by omega, by omega, hok, fun t' hle' hlt' => ?_⟩
  obtain ⟨j, hj, rfl⟩ := exists_candidate hle' hlt'
  rw [← hfirst j hj, int64_eq_self (by omega) (by omega)]

/-- **Counting up.** The loop finds the first admissible time exactly when it ends in time. -/
theorem findsFirst_countUp_iff (hbase : 0 ≤ base)  :
    FindsFirst base tries ok (countUp base tries ok) ↔ EndsInTime base tries ok := by
  constructor
  · intro hfinds t hle hlarge hlt
    by_cases hearly : ∃ t', base ≤ t' ∧ t' < 2 ^ 63 ∧ ok t' = true
    · exact Or.inl hearly
    refine Or.inr ?_
    cases hcount : countUp base tries ok with
    | none =>
      rw [hcount] at hfinds
      obtain ⟨i, hi, rfl⟩ := exists_candidate hle hlt
      refine ⟨Bool.eq_false_iff.mpr fun hok => ?_, countUp_eq_none hcount hi⟩
      obtain ⟨t', ht'⟩ := exists_firstTime hle hlt hok
      cases hfinds.1 t' ht'
    | some r =>
      -- what is found is the first one, hence below 2^63
      rw [hcount] at hfinds
      obtain ⟨i, hi, hr, hok, -⟩ := countUp_eq_some hcount
      refine absurd ⟨r, ?_⟩ hearly
      by_cases hex : ∃ t', FirstTime base tries ok t'
      · obtain ⟨t', ht'⟩ := hex
        obtain rfl := Option.some.inj (hfinds.1 t' ht')
        exact ⟨ht'.le, hr ▸ int64_lt _, hok⟩
      · cases hfinds.2 fun t' ht' => hex ⟨t', ht'⟩
  · intro hends
    cases hcount : countUp base tries ok with
    | none =>
      refine ⟨fun t ht => ?_, fun _ => rfl⟩
      by_cases hsmall : t < 2 ^ 63
      · exact absurd hcount (countUp_ne_none hbase ht.le ht.lt hsmall ht.admissible)
      · rcases hends t ht.le (by omega) ht.lt with ⟨t', hle', hlt', hok'⟩ | ⟨hno, -⟩
        · have hlt := ht.lt
          exact absurd hcount (countUp_ne_none hbase hle' (by omega) hlt' hok')
        · cases ht.admissible.symm.trans hno
    | some r =>
      obtain ⟨i, hi, hr, hok, hfirst⟩ := countUp_eq_some hcount
      have hsmall : base + i < 2 ^ 63 := by
        by_contra hlarge
        rcases hends (base + i) (by omega) (by omega) (by omega) with ⟨t', hle', hlt', hok'⟩ | ⟨-, hno⟩
        · have hbefore : t' < base + (i : ℤ) := by omega
          obtain ⟨j, hj, rfl⟩ := exists_candidate hle' hbefore
          have hpassed := hfirst j hj
          rw [int64_eq_self (by omega) hlt', hok'] at hpassed
          cases hpassed
        · rw [← hr, hok] at hno
          cases hno
      rw [int64_eq_self (by omega) hsmall] at hr
      subst hr
      have hthis := firstTime_of_countUp hbase hi hsmall hok hfirst
      exact ⟨fun t ht => congrArg some (hthis.unique ht), fun hnone => absurd hthis (hnone _)⟩

/-- One round of the loop. -/
theorem countUp_succ (base : ℤ) (tries : ℕ) (ok : ℤ → Bool) :
    countUp base (tries + 1) ok =
      if ok (int64 base) then some (int64 base) else countUp (base + 1) tries ok := by
  have hshift : ∀ i : ℕ, base + (i + 1 : ℕ) = base + 1 + i := by
    intro i
    omega
  have hzero : base + (0 : ℕ) = base := by simp
  rw [countUp, List.range_succ_eq_map, List.find?_cons, List.find?_map, countUp]
  simp only [hzero, Function.comp_def, Nat.succ_eq_add_one, hshift]
  cases ok (int64 base) with
  | true => simp
  | false => simp only [Option.map_map, Function.comp_def, hshift, Bool.false_eq_true, if_false]

end Counting

/-! ## The two searches -/

/-- A timestamp that `expire` accepts: a word of digits whose value fits. -/
structure IsTimestamp (timestamp : Str) : Prop where
  /-- it is not empty -/
  nonempty : timestamp ≠ []
  /-- all are digits -/
  digits : timestamp.all Char.isDigit = true
  /-- it is in range -/
  inRange : Nat.ofDigitChars 10 timestamp 0 < 2 ^ 63

/-- The beginning of `expire`: `base_ts`, or `none` for its exceptions. -/
def baseTimestamp (timestamp : Str) : Option ℤ :=
  if timestamp == [] || !timestamp.all Char.isDigit then none else stol timestamp

/-- Where the expirer moves the directory of an entry that was expired with a timestamp. -/
def expiredTarget (e : DBEntry) (timestamp : Str) : DirLoc :=
  ⟨e.workspace.space, .deleted, e.workspace.name ++ '-' :: timestamp⟩

/-- The state, the entry and the result of `expire`; it throws if there is none. -/
structure ExpireEnd where
  /-- files and directories -/
  world : World
  /-- the entry in memory -/
  object : EntryObject
  /-- `used_ts` -/
  used_ts : Option Str

namespace EntryObject

/-- Is a name free in both deleted areas? -/
def isFree (w : World) (obj : EntryObject) (name : Str) : Bool :=
  !w.nameTaken obj.filesystem obj.entry name

/-- May `expiredIdFor` give that name? -/
def isAdmissible (w : World) (obj : EntryObject) (reserved : List Str) (candidate : Str) : Bool :=
  candidate == obj.id || !reserved.contains candidate && obj.isFree w candidate

/-- `DBEntryV1::expire` -/
def expire (w : World) (obj : EntryObject) (timestamp : Str) (now : ℤ) (outcome : Outcome) :
    ExpireEnd :=
  match baseTimestamp timestamp with
  | none => ⟨w, obj, none⟩
  | some base_ts =>
    match countUp base_ts 1000 fun ts => obj.isFree w (deletedName obj.id ts) with
    | none => ⟨w, obj, none⟩
    | some used_ts =>
      let dbtarget : DbLoc := ⟨obj.filesystem, .deleted, deletedName obj.id used_ts⟩
      let obj := { obj with entry := { obj.entry with expired := now } }
      let w := w.writeEntry obj.dbfilepath obj.entry
      if outcome = .ok then
        ⟨w.renameEntry obj.dbfilepath dbtarget, { obj with dbfilepath := dbtarget },
          some (fmtLong used_ts)⟩
      else ⟨w, obj, none⟩

/-- `DBEntryV1::expiredIdFor`; `none` is its exception. -/
def expiredIdFor (w : World) (obj : EntryObject) (boundary : ℤ) (reserved : List Str) :
    Option Str :=
  match splitExpiredId obj.id with
  | none => none
  | some (base, _) =>
    if boundary ≤ 0 then none
    else
      (countUp boundary 1000 fun ts => obj.isAdmissible w reserved (deletedName base ts)).map
        (deletedName base)

/-- The names of a list of entries and boundaries: each that is given is reserved for the next. -/
def expiredIds (w : World) : List Str → List (EntryObject × ℤ) → List Str
  | _, [] => []
  | reserved, (obj, boundary) :: todo =>
    match obj.expiredIdFor w boundary reserved with
    | none => expiredIds w reserved todo
    | some new_id => new_id :: expiredIds w (new_id :: reserved) todo

end EntryObject

/-! ## What is promised -/

/-- An entry was expired with the time `ts`. -/
structure ExpiredAs (w : World) (obj : EntryObject) (now ts : ℤ) (out : ExpireEnd) : Prop where
  /-- the time is returned -/
  used : out.used_ts = some (fmtLong ts)
  /-- the entry is at the name of the time -/
  entry : out.world.db.lookup ⟨obj.filesystem, .deleted, deletedName obj.id ts⟩ =
    some (.entry { obj.entry with expired := now }.persisted)
  /-- and no longer among the live ones -/
  live : out.world.db.lookup obj.dbfilepath = none
  /-- `dbfilepath` names its file -/
  located : out.object.dbfilepath = ⟨obj.filesystem, .deleted, deletedName obj.id ts⟩
  /-- no other entry file is touched -/
  entries : ∀ k f, k ≠ obj.dbfilepath → w.db.lookup k = some f → out.world.db.lookup k = some f
  /-- nor a directory -/
  dirs : out.world.dirs = w.dirs
  /-- and the directory can follow, if it has the name of the entry -/
  target : obj.entry.workspace.name = obj.id → ∀ timestamp, out.used_ts = some timestamp →
    out.world.dirs.find (expiredTarget obj.entry timestamp) = none

/-- The entry is expired with the first time whose name is free, and with none if the timestamp is
not one, or no name is free. -/
structure ExpiresFirstFree (w : World) (obj : EntryObject) (timestamp : Str) (now : ℤ)
    (out : ExpireEnd) : Prop where
  /-- the first free name is taken -/
  found : IsTimestamp timestamp → ∀ ts,
    FirstTime (Nat.ofDigitChars 10 timestamp 0) 1000
      (fun ts => obj.isFree w (deletedName obj.id ts)) ts → ExpiredAs w obj now ts out
  /-- or nothing is done -/
  thrown : (IsTimestamp timestamp → ∀ ts,
    ¬FirstTime (Nat.ofDigitChars 10 timestamp 0) 1000
      (fun ts => obj.isFree w (deletedName obj.id ts)) ts) → out = ⟨w, obj, none⟩

/-- The name with the first admissible time is given, which a rename does not find taken, and which
no other entry is given. -/
structure NamesFirst (w : World) (obj : EntryObject) (boundary : ℤ) (reserved : List Str)
    (out : Option Str) : Prop where
  /-- the first admissible name -/
  found : ∀ base ts t, splitExpiredId obj.id = some (base, ts) → 0 < boundary →
    FirstTime boundary 1000 (fun ts => obj.isAdmissible w reserved (deletedName base ts)) t →
      out = some (deletedName base t)
  /-- or none -/
  thrown : (∀ base ts t, splitExpiredId obj.id = some (base, ts) → 0 < boundary →
    ¬FirstTime boundary 1000 (fun ts => obj.isAdmissible w reserved (deletedName base ts)) t) →
      out = none
  /-- a rename does not collide -/
  free : ∀ calls new_id, out = some new_id →
    (EntryObject.renameAsExpired w calls obj new_id).exit ≠ .dbExists ∧
      (EntryObject.renameAsExpired w calls obj new_id).exit ≠ .wsExists
  /-- the names of entries of one filesystem are distinct -/
  distinct : ∀ todo : List (EntryObject × ℤ), ((obj, boundary) :: todo).Pairwise
      (fun p q => p.1.id ≠ q.1.id) →
    (∀ p ∈ (obj, boundary) :: todo, p.1.filesystem = obj.filesystem ∧
      (w.db.lookup ⟨obj.filesystem, .deleted, p.1.id⟩).isSome) →
        (EntryObject.expiredIds w reserved ((obj, boundary) :: todo)).Nodup

/-! ## Expiring -/

section Expiring

variable {w : World} {obj : EntryObject} {timestamp : Str} {now : ℤ}

theorem baseTimestamp_of_isTimestamp (h : IsTimestamp timestamp) :
    baseTimestamp timestamp = some (Nat.ofDigitChars 10 timestamp 0 : ℤ) := by
  have hshape : (timestamp == [] || !timestamp.all Char.isDigit) = false := by
    rw [h.digits, beq_false_of_ne h.nonempty]
    rfl
  rw [baseTimestamp, hshape, if_neg Bool.false_ne_true, stol_digits h.nonempty h.digits,
    stollDigits, if_pos h.inRange]

theorem baseTimestamp_of_not (h : ¬IsTimestamp timestamp) : baseTimestamp timestamp = none := by
  rw [baseTimestamp]
  split
  · rfl
  · rename_i hshape
    simp only [Bool.or_eq_true, beq_iff_eq, Bool.not_eq_true', not_or, Bool.not_eq_false] at hshape
    rw [stol_digits hshape.1 hshape.2, stollDigits]
    split
    · rename_i hlt
      exact absurd ⟨hshape.1, hshape.2, hlt⟩ h
    · rfl

/-- A time that is not negative is read back from its digits. -/
theorem fmtLong_inj_of_nonneg {y z : ℤ} (hz : 0 ≤ z) (h : fmtLong y = fmtLong z) : y = z := by
  by_cases hy : 0 ≤ y
  · exact fmtLong_inj hy hz h
  · have hdash : '-' ∈ fmtLong y := by
      rw [fmtLong, if_neg hy]
      exact List.mem_cons_self ..
    exact absurd (h ▸ hdash) (dash_notMem_fmtLong hz)

/-- What a found time leads to. -/
theorem expiredAs_of_free {ts : ℤ} (hobj : obj.dbfilepath = ⟨obj.filesystem, .live, obj.id⟩)
    (hfree : obj.isFree w (deletedName obj.id ts) = true) :
    ExpiredAs w obj now ts
      ⟨(w.writeEntry obj.dbfilepath { obj.entry with expired := now }).renameEntry obj.dbfilepath
          ⟨obj.filesystem, .deleted, deletedName obj.id ts⟩,
        { obj with
          entry := { obj.entry with expired := now }
          dbfilepath := ⟨obj.filesystem, .deleted, deletedName obj.id ts⟩ },
        some (fmtLong ts)⟩ := by
  rw [EntryObject.isFree, Bool.not_eq_true', World.nameTaken, Bool.or_eq_false_iff,
    Option.isSome_eq_false_iff, Option.isSome_eq_false_iff, Option.isNone_iff_eq_none,
    Option.isNone_iff_eq_none] at hfree
  have hne : obj.dbfilepath ≠ ⟨obj.filesystem, .deleted, deletedName obj.id ts⟩ := by
    rw [hobj]
    simp
  refine ⟨rfl, ?_, World.lookup_renameEntry_from hne, rfl, fun k f hk hf => ?_, ?_, ?_⟩
  · exact World.lookup_renameEntry_to (World.lookup_writeEntry ..)
  · have hto : k ≠ ⟨obj.filesystem, .deleted, deletedName obj.id ts⟩ := by
      rintro rfl
      rw [hfree.1] at hf
      cases hf
    exact (World.lookup_renameEntry_ne hk hto).trans ((World.lookup_writeEntry_ne _ hk).trans hf)
  · simp
  · intro hname timestamp hused
    obtain rfl := Option.some.inj hused
    rw [World.renameEntry_dirs, World.writeEntry_dirs, expiredTarget, hname]
    exact hfree.2

/-- `expire` when no system call fails, by what its loop finds. -/
theorem expire_ok (hts : IsTimestamp timestamp) :
    obj.expire w timestamp now .ok =
      match countUp (Nat.ofDigitChars 10 timestamp 0 : ℤ) 1000
        fun ts => obj.isFree w (deletedName obj.id ts) with
      | none => ⟨w, obj, none⟩
      | some ts =>
        ⟨(w.writeEntry obj.dbfilepath { obj.entry with expired := now }).renameEntry obj.dbfilepath
            ⟨obj.filesystem, .deleted, deletedName obj.id ts⟩,
          { obj with
            entry := { obj.entry with expired := now }
            dbfilepath := ⟨obj.filesystem, .deleted, deletedName obj.id ts⟩ },
          some (fmtLong ts)⟩ := by
  rw [EntryObject.expire, baseTimestamp_of_isTimestamp hts]
  dsimp only
  generalize countUp (Nat.ofDigitChars 10 timestamp 0 : ℤ) 1000
    (fun ts => obj.isFree w (deletedName obj.id ts)) = found
  cases found with
  | none => rfl
  | some ts => rfl

/-- **Expiring.** When no system call fails, `expire` takes the first free name, or throws when
there is none or no timestamp, exactly when its loop ends in time. -/
theorem expiresFirstFree_iff (w : World) (obj : EntryObject) (timestamp : Str) (now : ℤ)
    (hobj : obj.dbfilepath = ⟨obj.filesystem, .live, obj.id⟩) :
    ExpiresFirstFree w obj timestamp now (obj.expire w timestamp now .ok) ↔
      (IsTimestamp timestamp → EndsInTime (Nat.ofDigitChars 10 timestamp 0) 1000
        fun ts => obj.isFree w (deletedName obj.id ts)) := by
  by_cases hts : IsTimestamp timestamp
  · rw [expire_ok hts, ← findsFirst_countUp_iff (Int.natCast_nonneg _)]
    generalize hcount : countUp (Nat.ofDigitChars 10 timestamp 0 : ℤ) 1000
      (fun ts => obj.isFree w (deletedName obj.id ts)) = found
    constructor
    · intro h _
      refine ⟨fun t ht => ?_, fun hnone => ?_⟩
      · have hused := (h.found hts t ht).used
        cases found with
        | none => cases hused
        | some ts =>
          have hnonneg : 0 ≤ t := Int.le_trans (Int.natCast_nonneg _) ht.le
          rw [fmtLong_inj_of_nonneg hnonneg (Option.some.inj hused)]
      · have hthrown := h.thrown fun _ => hnone
        cases found with
        | none => rfl
        | some ts => cases congrArg ExpireEnd.used_ts hthrown
    · intro h
      obtain ⟨hfound, hthrown⟩ := h hts
      refine ⟨fun _ t ht => ?_, fun hnone => ?_⟩
      · rw [hfound t ht]
        exact expiredAs_of_free hobj ht.admissible
      · rw [hthrown (hnone hts)]
  · refine iff_of_true ⟨fun h => absurd h hts, fun _ => ?_⟩ fun h => absurd h hts
    rw [EntryObject.expire, baseTimestamp_of_not hts]

/-- A live entry of the workspace `x` of `b`. -/
def liveObject : EntryObject :=
  ⟨['w'], ['b', '-', 'x'], ⟨['w'], .live, ['b', '-', 'x']⟩,
    ⟨['b'], ⟨['s'], ['b', '-', 'x']⟩, 0, 0, 0, 0, false, [], [], [], 0, 0, []⟩⟩

/-- There is a deleted entry with the time 7, and a deleted directory with the time 8. -/
def usedNames : World :=
  ((World.init.writeEntry liveObject.dbfilepath liveObject.entry).writeEntry
    ⟨['w'], .deleted, deletedName liveObject.id 7⟩ liveObject.entry).mkdir
      (World.deletedDir liveObject.entry (deletedName liveObject.id 8)) 8

/-- It expires at the time 7 and gets the first free name after both. -/
theorem expiresFirstFree_iff_used :
    ExpiresFirstFree usedNames liveObject ['7'] 7 (liveObject.expire usedNames ['7'] 7 .ok) ∧
      (liveObject.expire usedNames ['7'] 7 .ok).used_ts = some ['9'] := by
  have hfirst : FirstTime 7 1000
      (fun ts => liveObject.isFree usedNames (deletedName liveObject.id ts)) 9 := by
    refine ⟨by decide, by decide, by decide, fun t hle hlt => ?_⟩
    obtain rfl | rfl : t = 7 ∨ t = 8 := by omega
    · decide
    · decide
  have hexpires := (expiresFirstFree_iff usedNames liveObject ['7'] 7 rfl).mpr
    fun _ t _ hlarge hlt => Or.inl ⟨9, by decide, by decide, hfirst.admissible⟩
  exact ⟨hexpires, (hexpires.found ⟨by decide, by decide, by decide⟩ 9 hfirst).used⟩

/-- The last time there is. -/
def lastTime : ℤ := 2 ^ 63 - 1

/-- A workspace of that name was deleted at the last time. -/
def deletedAtLast : World :=
  World.init.writeEntry ⟨['w'], .deleted, deletedName ['b', '-', 'x'] lastTime⟩ liveObject.entry

/-- It expires again at that time: the count goes on with the first time there is. -/
theorem not_expiresFirstFree : ¬ExpiresFirstFree deletedAtLast liveObject (fmtLong lastTime) lastTime
    (liveObject.expire deletedAtLast (fmtLong lastTime) lastTime .ok) := by
  intro h
  have hvalue : (Nat.ofDigitChars 10 (fmtLong lastTime) 0 : ℤ) = lastTime := by decide
  have hfirst : FirstTime (Nat.ofDigitChars 10 (fmtLong lastTime) 0) 1000
      (fun ts => liveObject.isFree deletedAtLast (deletedName liveObject.id ts)) (2 ^ 63) := by
    rw [hvalue]
    refine ⟨by decide, by decide, by decide, fun t hle hlt => ?_⟩
    have ht : t = lastTime := by
      rw [lastTime] at hle ⊢
      omega
    rw [ht]
    decide
  have hts : IsTimestamp (fmtLong lastTime) := ⟨by decide, by decide, by decide⟩
  have hused := (h.found hts _ hfirst).used
  have hcount : countUp lastTime 1000
      (fun ts => liveObject.isFree deletedAtLast (deletedName liveObject.id ts)) =
      some (-2 ^ 63) := by
    rw [countUp_succ, countUp_succ]
    decide
  rw [expire_ok hts, hvalue, hcount] at hused
  exact absurd hused (by decide)

end Expiring

/-! ## Names for expired entries -/

section Naming

variable {w : World} {obj : EntryObject} {boundary : ℤ} {reserved : List Str} {new_id : Str}

/-- A name that is given is admissible. -/
theorem expiredIdFor_admissible (h : obj.expiredIdFor w boundary reserved = some new_id) :
    obj.isAdmissible w reserved new_id = true := by
  rw [EntryObject.expiredIdFor] at h
  split at h
  · cases h
  · split at h
    · cases h
    · obtain ⟨ts, hcount, rfl⟩ := Option.map_eq_some_iff.mp h
      obtain ⟨-, -, -, hok, -⟩ := countUp_eq_some hcount
      exact hok

/-- It is the name of the entry, or neither reserved nor taken. -/
theorem isAdmissible_iff : obj.isAdmissible w reserved new_id = true ↔
    new_id = obj.id ∨ new_id ∉ reserved ∧ w.nameTaken obj.filesystem obj.entry new_id = false := by
  simp [EntryObject.isAdmissible, EntryObject.isFree]

/-- A rename to it finds nothing there. -/
theorem renameAsExpired_of_admissible (calls : RenameCalls)
    (h : obj.isAdmissible w reserved new_id = true) :
    (EntryObject.renameAsExpired w calls obj new_id).exit ≠ .dbExists ∧
      (EntryObject.renameAsExpired w calls obj new_id).exit ≠ .wsExists := by
  have hspec := EntryObject.renameAsExpired_spec w calls obj new_id
  generalize EntryObject.renameAsExpired w calls obj new_id = out at hspec
  have hdone : ∀ {exit : RenameExit}, exit = .returned ∨ exit = .rolledBack ∨
      exit = .rollbackFailed → exit ≠ .dbExists ∧ exit ≠ .wsExists := by
    rintro exit (rfl | rfl | rfl) <;> decide
  cases hspec with
  | refused hexit hfailed htaken =>
    have hno : ¬(new_id ≠ obj.id ∧ w.nameTaken obj.filesystem obj.entry new_id = true) := by
      rintro ⟨hne, htrue⟩
      have hfree := ((isAdmissible_iff.mp h).resolve_left hne).2
      rw [htrue] at hfree
      cases hfree
    exact ⟨fun heq => hno (htaken (Or.inl heq)), fun heq => hno (htaken (Or.inr heq))⟩
  | same hid => exact hdone (Or.inl rfl)
  | moved hid hfile hdb hws hdirs =>
    rcases hdirs with ⟨hexit, -⟩ | ⟨hexit, -⟩ | ⟨hexit, -⟩
    · exact hdone (Or.inl hexit)
    · exact hdone (Or.inl hexit)
    · exact hdone (Or.inr (Or.inr hexit))
  | rolledBack hfile hdb => exact hdone (Or.inr (Or.inl rfl))

/-- Names that are given one after the other: each is new, or the id of its entry. -/
theorem expiredIds_nodup {fs : Str} {todo : List (EntryObject × ℤ)}
    (hids : todo.Pairwise fun p q => p.1.id ≠ q.1.id)
    (hthere : ∀ p ∈ todo, p.1.filesystem = fs ∧ (w.db.lookup ⟨fs, .deleted, p.1.id⟩).isSome) :
    (EntryObject.expiredIds w reserved todo).Nodup ∧
      ∀ name ∈ EntryObject.expiredIds w reserved todo, name ∈ reserved →
        ∃ p ∈ todo, name = p.1.id := by
  induction todo generalizing reserved with
  | nil => exact ⟨List.nodup_nil, fun name hname => absurd hname List.not_mem_nil⟩
  | cons p todo ih =>
    obtain ⟨obj, boundary⟩ := p
    obtain ⟨hne, hids⟩ := List.pairwise_cons.mp hids
    have hrest := fun p hp => hthere p (List.mem_cons_of_mem _ hp)
    rw [EntryObject.expiredIds]
    cases hname : obj.expiredIdFor w boundary reserved with
    | none =>
      obtain ⟨hnodup, hold⟩ := @ih reserved hids hrest
      refine ⟨hnodup, fun name hmem hres => ?_⟩
      obtain ⟨p, hp, heq⟩ := hold name hmem hres
      exact ⟨p, List.mem_cons_of_mem _ hp, heq⟩
    | some new_id =>
      obtain ⟨hnodup, hold⟩ := @ih (new_id :: reserved) hids hrest
      have hadmissible := isAdmissible_iff.mp (expiredIdFor_admissible hname)
      refine ⟨List.nodup_cons.mpr ⟨fun hmem => ?_, hnodup⟩, fun name hmem hres => ?_⟩
      · -- the name of a later entry is neither this entry's nor free
        obtain ⟨p, hp, heq⟩ := hold new_id hmem (List.mem_cons_self ..)
        rcases hadmissible with hown | ⟨-, hfree⟩
        · exact hne p hp (hown.symm.trans heq)
        · rw [World.nameTaken, Bool.or_eq_false_iff, heq,
            (hthere (obj, boundary) (List.mem_cons_self ..)).1, (hrest p hp).2] at hfree
          cases hfree.1
      · rcases List.mem_cons.mp hmem with rfl | hmem
        · exact ⟨_, List.mem_cons_self .., hadmissible.resolve_right fun h => h.1 hres⟩
        · obtain ⟨p, hp, heq⟩ := hold name hmem (List.mem_cons_of_mem _ hres)
          exact ⟨p, List.mem_cons_of_mem _ hp, heq⟩

/-- `expiredIdFor` by what its loop finds. -/
theorem expiredIdFor_of_split {base : Str} {ts : ℤ} (hid : splitExpiredId obj.id = some (base, ts))
    (hpos : 0 < boundary) :
    obj.expiredIdFor w boundary reserved =
      (countUp boundary 1000 fun ts => obj.isAdmissible w reserved (deletedName base ts)).map
        (deletedName base) := by
  rw [EntryObject.expiredIdFor, hid]
  dsimp only
  rw [if_neg (by omega)]

/-- **Names.** `expiredIdFor` gives the first admissible name, or none when there is none, exactly
when its loop ends in time. -/
theorem namesFirst_iff (w : World) (obj : EntryObject) (boundary : ℤ) (reserved : List Str) :
    NamesFirst w obj boundary reserved (obj.expiredIdFor w boundary reserved) ↔
      ∀ base ts, splitExpiredId obj.id = some (base, ts) → 0 < boundary →
        EndsInTime boundary 1000 fun ts => obj.isAdmissible w reserved (deletedName base ts) := by
  constructor
  · intro h base ts hid hpos
    rw [← findsFirst_countUp_iff (by omega)]
    have hfound := h.found base ts
    have hthrown := h.thrown
    rw [expiredIdFor_of_split hid hpos] at hfound hthrown
    refine ⟨fun t ht => ?_, fun hnone => ?_⟩
    · obtain ⟨t', hcount, hname⟩ := Option.map_eq_some_iff.mp (hfound t hid hpos ht)
      have hdigits := (List.cons.inj (List.append_cancel_left hname)).2
      rw [hcount, fmtLong_inj_of_nonneg (Int.le_trans (Int.le_of_lt hpos) ht.le) hdigits]
    · refine Option.map_eq_none_iff.mp (hthrown fun base' ts' t hid' _ ht => ?_)
      obtain ⟨rfl, -⟩ := Prod.mk.inj (Option.some.inj (hid'.symm.trans hid))
      exact hnone t ht
  · intro h
    refine ⟨fun base ts t hid hpos ht => ?_, fun hnone => ?_,
      fun calls new_id hname => renameAsExpired_of_admissible calls (expiredIdFor_admissible hname),
      fun todo hids hthere => (expiredIds_nodup hids hthere).1⟩
    · rw [expiredIdFor_of_split hid hpos,
        ((findsFirst_countUp_iff (by omega)).mpr (h base ts hid hpos)).1 t ht]
      rfl
    · cases hid : splitExpiredId obj.id with
      | none => rw [EntryObject.expiredIdFor, hid]
      | some p =>
        obtain ⟨base, ts⟩ := p
        by_cases hpos : 0 < boundary
        · rw [expiredIdFor_of_split hid hpos,
            ((findsFirst_countUp_iff (by omega)).mpr (h base ts hid hpos)).2 fun t =>
              hnone base ts t hid hpos]
          rfl
        · rw [EntryObject.expiredIdFor, hid]
          exact if_pos (by omega)

/-- The boundary of an entry is the last time, and a workspace of that name was deleted then: the
count goes on with the first time there is. -/
theorem not_namesFirst : ¬NamesFirst deletedAtLast expiredObject lastTime []
    (expiredObject.expiredIdFor deletedAtLast lastTime []) := by
  intro h
  have hid : splitExpiredId expiredObject.id = some (['b', '-', 'x'], 5) := by decide
  have hfirst : FirstTime lastTime 1000
      (fun ts => expiredObject.isAdmissible deletedAtLast [] (deletedName ['b', '-', 'x'] ts))
      (2 ^ 63) := by
    refine ⟨by decide, by decide, by decide, fun t hle hlt => ?_⟩
    have ht : t = lastTime := by
      rw [lastTime] at hle ⊢
      omega
    rw [ht]
    decide
  have hcount : countUp lastTime 1000
      (fun ts => expiredObject.isAdmissible deletedAtLast [] (deletedName ['b', '-', 'x'] ts)) =
      some (-2 ^ 63) := by
    rw [countUp_succ, countUp_succ]
    decide
  have hname := h.found _ _ _ hid (by decide) hfirst
  rw [expiredIdFor_of_split hid (by decide), hcount] at hname
  exact absurd hname (by decide)

end Naming

/-! ## In the world of plausible times -/

section Plausible

variable {w : World}

/-- Below 2^63 the loop is one over exact times. -/
theorem freeTimestamp_eq_countUp {fs id : Str} {e : DBEntry} {base : ℤ} {tries : ℕ}
    (hbase : 0 ≤ base) (hlast : base + tries ≤ 2 ^ 63) :
    w.freeTimestamp fs id e base tries =
      countUp base tries fun ts => !w.nameTaken fs e (deletedName id ts) := by
  induction tries generalizing base with
  | zero => rfl
  | succ tries ih =>
    rw [World.freeTimestamp, countUp_succ, int64_eq_self hbase (by omega),
      ih (by omega) (by omega)]
    cases w.nameTaken fs e (deletedName id base) <;> rfl

theorem expiredName_eq_countUp {k : DbLoc} {e : DBEntry} {reserved : List Str} {base : Str} {ts : ℤ}
    {tries : ℕ} (hts : 0 ≤ ts) (hlast : ts + tries ≤ 2 ^ 63) :
    w.expiredName true k e reserved base ts tries =
      (countUp ts tries fun ts => EntryObject.isAdmissible w ⟨k.fs, k.id, k, e⟩ reserved
        (deletedName base ts)).map (deletedName base) := by
  induction tries generalizing ts with
  | zero => rfl
  | succ tries ih =>
    rw [World.expiredName, countUp_succ, int64_eq_self hts (by omega), ih (by omega) (by omega)]
    by_cases hown : deletedName base ts = k.id
    · simp [hown, EntryObject.isAdmissible]
    · by_cases hreserved : deletedName base ts ∈ reserved
      · simp [hown, hreserved, EntryObject.isAdmissible]
      · cases htaken : w.nameTaken k.fs e (deletedName base ts) <;>
          simp [hown, hreserved, htaken, EntryObject.isAdmissible, EntryObject.isFree]

/-- The time that the expirer passes on is read back. -/
theorem baseTimestamp_fmtLong {t : ℤ} (hnonneg : 0 ≤ t) (hlt : t < 2 ^ 63) :
    baseTimestamp (fmtLong t) = some t := by
  have hdigits : (fmtLong t).all Char.isDigit = true :=
    List.all_eq_true.mpr fun c hc => isDigit_of_mem_fmtLong hnonneg hc
  rw [baseTimestamp, beq_false_of_ne (fmtLong_ne_nil t), hdigits,
    stol_digits (fmtLong_ne_nil t) hdigits, stollDigits_fmtLong hnonneg hlt]
  rfl

theorem baseTimestamp_of_neg {t : ℤ} (hneg : t < 0) : baseTimestamp (fmtLong t) = none := by
  refine baseTimestamp_of_not fun h => ?_
  have hdash : '-' ∈ fmtLong t := by
    rw [fmtLong, if_neg (by omega)]
    exact List.mem_cons_self ..
  exact absurd (List.all_eq_true.mp h.digits _ hdash) (by decide)

/-- The step of the expirer. -/
theorem expire_eq_expire {fs id : Str} {e : DBEntry} {timestamp now : ℤ} {outcome : Outcome}
    (hlast : timestamp + 1000 ≤ 2 ^ 63) :
    let out := EntryObject.expire w ⟨fs, id, ⟨fs, .live, id⟩, e⟩ (fmtLong timestamp) now outcome
    (w.expire fs id e timestamp now outcome).1.map fmtLong = out.used_ts ∧
      (w.expire fs id e timestamp now outcome).2 = out.world := by
  by_cases hneg : timestamp < 0
  · simp [World.expire, EntryObject.expire, hneg, baseTimestamp_of_neg hneg]
  · rw [World.expire, if_neg hneg, EntryObject.expire,
      baseTimestamp_fmtLong (by omega) (by omega),
      freeTimestamp_eq_countUp (by omega) (by omega)]
    dsimp only [EntryObject.isFree]
    generalize countUp timestamp 1000
      (fun ts => !w.nameTaken fs e (deletedName id ts)) = found
    cases found with
    | none => exact ⟨rfl, rfl⟩
    | some ts => cases outcome <;> exact ⟨rfl, rfl⟩

/-- The name an edit asks for. -/
theorem expiredIdFor_eq_expiredIdFor {k : DbLoc} {e : DBEntry} {boundary : ℤ} {reserved : List Str}
    (hlast : boundary + 1000 ≤ 2 ^ 63) :
    w.expiredIdFor true k e boundary reserved =
      EntryObject.expiredIdFor w ⟨k.fs, k.id, k, e⟩ boundary reserved := by
  rw [World.expiredIdFor, EntryObject.expiredIdFor]
  cases splitExpiredId k.id with
  | none => rfl
  | some p =>
    dsimp only
    split
    · rfl
    · exact expiredName_eq_countUp (by omega) (by omega)

end Plausible

end HpcWorkspace
