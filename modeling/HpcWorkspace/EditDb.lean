import Mathlib.Data.List.TakeWhile
import HpcWorkspace.Expirer

/-!
# `ws_editdb`

A call changes the expiration or the expired time of the selected entries. For an entry in the
deleted area it also computes the time until which the entry is kept, as the expirer does, and when
that time has changed it renames the entry and the directory, so that the time in their name
follows. A dry-run only prints what a real run would do.
-/

namespace HpcWorkspace

/-- `DAYS` -/
def DAYS : ℤ := 3600 * 24

/-! ## Times in names -/

/-- `splitExpiredId`: the base and the timestamp of the name of a deleted entry. -/
def splitExpiredId (id : Str) : Option (Str × ℤ) :=
  match Dashed.splitLast '-' id with
  | none => none
  | some (base, suffix) =>
    if base == [] || suffix == [] then none
    else if suffix.all Char.isDigit then (stollDigits suffix).map fun ts => (base, ts)
    else none

/-- `utils::timestampFromId` -/
def timestampFromId (id : Str) : Option ℤ :=
  match Dashed.splitLast '-' id with
  | none => none
  | some (base, suffix) =>
    if base == [] || suffix == [] then none
    else if suffix.all Char.isDigit then stollDigits suffix
    else none

/-- The two have the same shape rules. -/
theorem timestampFromId_eq (id : Str) : timestampFromId id = (splitExpiredId id).map Prod.snd := by
  rw [timestampFromId, splitExpiredId]
  cases Dashed.splitLast '-' id with
  | none => rfl
  | some p =>
    dsimp only
    split
    · rfl
    · split
      · rw [Option.map_map]
        exact (Option.map_id' ..).symm
      · rfl

theorem exists_base {id : Str} {ts : ℤ} (h : timestampFromId id = some ts) :
    ∃ base, splitExpiredId id = some (base, ts) := by
  rw [timestampFromId_eq, Option.map_eq_some_iff] at h
  obtain ⟨⟨base, ts'⟩, hsplit, rfl⟩ := h
  exact ⟨base, hsplit⟩

/-- A digit is neither white space nor a sign. -/
theorem isDigit_ne {c : Char} (h : c.isDigit = true) : isSpace c = false ∧ c ≠ '-' ∧ c ≠ '+' := by
  have hlow : (48 : ℕ) ≤ c.toNat := by
    have hle : '0'.val ≤ c.val := of_decide_eq_true (Bool.and_eq_true_iff.mp h).1
    exact UInt32.le_iff_toNat_le.mp hle
  refine ⟨?_, ?_, ?_⟩
  · rw [isSpace, Bool.or_eq_false_iff, beq_eq_false_iff_ne, Bool.and_eq_false_iff]
    refine ⟨?_, Or.inr ?_⟩
    · rintro rfl
      exact absurd hlow (by decide)
    · rw [decide_eq_false_iff_not]
      intro hle
      have hnat : c.toNat ≤ '\r'.toNat := UInt32.le_iff_toNat_le.mp hle
      exact absurd (Nat.le_trans hlow hnat) (by decide : ¬48 ≤ 13)
  · rintro rfl
    exact absurd hlow (by decide)
  · rintro rfl
    exact absurd hlow (by decide)

/-- `std::stol` reads a word of digits as `std::stoll` does. -/
theorem stol_digits {w : Str} (hne : w ≠ []) (hdigits : w.all Char.isDigit = true) :
    stol w = stollDigits w := by
  have hall : ∀ c ∈ w, c.isDigit = true := List.all_eq_true.mp hdigits
  cases w with
  | nil => exact absurd rfl hne
  | cons c w =>
    obtain ⟨hspace, hminus, hplus⟩ := isDigit_ne (hall c (List.mem_cons_self ..))
    have htake : (c :: w).takeWhile Char.isDigit = c :: w := List.takeWhile_eq_self_iff.mpr hall
    rw [stol, List.dropWhile_cons_of_neg (by rw [hspace]; exact Bool.false_ne_true)]
    split
    · rename_i heq
      exact absurd (List.head_eq_of_cons_eq heq) hminus
    · rename_i heq
      exact absurd (List.head_eq_of_cons_eq heq) hplus
    · simp only [htake, Option.bind_some, stollDigits]

/-- The expirer reads the time that the name carries. -/
theorem fileTime_of_splitExpiredId {id base : Str} {ts : ℤ}
    (h : splitExpiredId id = some (base, ts)) : fileTime id = some ts ∧ 0 ≤ ts ∧ base ≠ [] := by
  rw [splitExpiredId] at h
  cases hsplit : Dashed.splitLast '-' id with
  | none => simp only [hsplit, reduceCtorEq] at h
  | some p =>
    obtain ⟨base', suffix⟩ := p
    simp only [hsplit] at h
    split at h
    · cases h
    · rename_i hshape
      simp only [Bool.or_eq_true, beq_iff_eq, not_or] at hshape
      split at h
      · rename_i hdigits
        obtain ⟨ts', hts', heq⟩ := Option.map_eq_some_iff.mp h
        obtain ⟨rfl, rfl⟩ := Prod.mk.inj heq
        refine ⟨?_, ?_, hshape.1⟩
        · rw [fileTime, hsplit, ← hts', ← stol_digits hshape.2 hdigits]
          cases suffix with
          | nil => exact absurd rfl hshape.2
          | cons c w => rfl
        · rw [stollDigits] at hts'
          split at hts'
          · rw [← Option.some.inj hts']
            exact Int.natCast_nonneg _
          · cases hts'
      · cases h

/-- The name of a time carries it. -/
theorem splitExpiredId_deletedName {base : Str} {ts : ℤ} (hbase : base ≠ []) (hts : 0 ≤ ts)
    (hlt : ts < 2 ^ 63) : splitExpiredId (deletedName base ts) = some (base, ts) := by
  have hsplit : Dashed.splitLast '-' (deletedName base ts) = some (base, fmtLong ts) :=
    Dashed.splitLast_append (dash_notMem_fmtLong hts)
  have hdigits : (fmtLong ts).all Char.isDigit = true :=
    List.all_eq_true.mpr fun c hc => isDigit_of_mem_fmtLong hts hc
  have hshape : (base == [] || fmtLong ts == []) = false := by
    rw [Bool.or_eq_false_iff, beq_eq_false_iff_ne, beq_eq_false_iff_ne]
    exact ⟨hbase, fmtLong_ne_nil ts⟩
  rw [splitExpiredId, hsplit]
  dsimp only
  rw [hshape, if_neg Bool.false_ne_true, if_pos hdigits, stollDigits_fmtLong hts hlt]
  rfl

/-- The same for the expirer, whatever the base is. -/
theorem fileTime_deletedName {base : Str} {ts : ℤ} (hts : 0 ≤ ts) (hlt : ts < 2 ^ 63) :
    fileTime (deletedName base ts) = some ts := by
  have hsplit : Dashed.splitLast '-' (deletedName base ts) = some (base, fmtLong ts) :=
    Dashed.splitLast_append (dash_notMem_fmtLong hts)
  have hdigits : (fmtLong ts).all Char.isDigit = true :=
    List.all_eq_true.mpr fun c hc => isDigit_of_mem_fmtLong hts hc
  rw [fileTime, hsplit]
  split
  · rename_i heq
    cases heq
  · rename_i heq
    exact absurd (Prod.mk.inj (Option.some.inj heq)).2 (fmtLong_ne_nil ts)
  · rename_i heq
    obtain ⟨-, rfl⟩ := Prod.mk.inj (Option.some.inj heq)
    rw [stol_digits (fmtLong_ne_nil ts) hdigits, stollDigits_fmtLong hts hlt]

/-! ## Renaming a deleted entry -/

/-- How the system calls of a rename end. -/
structure RenameOutcome where
  /-- the existence checks of the search for a name succeed -/
  search : Bool
  /-- the existence checks before the rename succeed -/
  checks : Bool
  /-- the entry file is renamed -/
  db : Bool
  /-- the directory is renamed -/
  dir : Bool
  /-- the entry file is renamed back -/
  rollback : Bool

/-- No system call fails. -/
def RenameOutcome.ok : RenameOutcome := ⟨true, true, true, true, true⟩

namespace World

/-- The loop of `expiredIdFor`: the first name from the time `ts` on, of `tries` ones, that the
entry has already or that is free. `none` is the exception when there is none, or when a check of
existence fails. -/
def expiredName (w : World) (search : Bool) (k : DbLoc) (e : DBEntry) (reserved : List Str)
    (base : Str) : ℤ → ℕ → Option Str
  | _, 0 => none
  | ts, tries + 1 =>
    let candidate := deletedName base ts
    if candidate = k.id then some k.id
    else if candidate ∈ reserved then w.expiredName search k e reserved base (ts + 1) tries
    else if !search then none
    else if w.nameTaken k.fs e candidate then
      w.expiredName search k e reserved base (ts + 1) tries
    else some candidate

/-- `DBEntryV1::expiredIdFor`; `none` is its exception. -/
def expiredIdFor (w : World) (search : Bool) (k : DbLoc) (e : DBEntry) (boundary : ℤ)
    (reserved : List Str) : Option Str :=
  match splitExpiredId k.id with
  | none => none
  | some (base, _) =>
    if boundary ≤ 0 then none else w.expiredName search k e reserved base boundary 1000

/-- The directory of a deleted entry. -/
def deletedDir (e : DBEntry) (id : Str) : DirLoc := ⟨e.workspace.space, .deleted, id⟩

/-- `DBEntryV1::renameAsExpired`: the state after it, the id the entry has then, and whether it
returned normally. -/
def renameAsExpired (w : World) (o : RenameOutcome) (k : DbLoc) (e : DBEntry) (new_id : Str) :
    World × Str × Bool :=
  if e.released > 1000000000 then (w, k.id, false)
  else
    match splitExpiredId k.id, splitExpiredId new_id with
    | some (base, _), some (new_base, new_ts) =>
      if new_base ≠ base ∨ new_ts ≤ 0 then (w, k.id, false)
      else if new_id = k.id then (w, k.id, true)
      else if !o.checks || w.nameTaken k.fs e new_id then (w, k.id, false)
      else if !o.db then (w, k.id, false)
      else
        -- DB entry first
        let moved := w.renameEntry k ⟨k.fs, .deleted, new_id⟩
        match w.dirs.find (deletedDir e k.id) with
        | none => (moved, new_id, true)
        | some _ =>
          -- workspace second
          if o.dir then
            ({ moved with dirs := moved.dirs.move (deletedDir e k.id) (deletedDir e new_id) },
              new_id, true)
          else if o.rollback then (moved.renameEntry ⟨k.fs, .deleted, new_id⟩ k, k.id, false)
          else (moved, new_id, false)
    | _, _ => (w, k.id, false)

end World

/-! ## The edit of an entry -/

/-- The options of a call; dates are times already. -/
structure EditArgs where
  /-- `-e`: entries of the deleted area -/
  expired : Bool
  /-- `--add-time`, in days -/
  addtime : ℤ
  /-- `--add-time-expired`, in days -/
  addtimeexpired : ℤ
  /-- `--ensure-until` -/
  ensureuntil : Option ℤ
  /-- `--expire-by` -/
  expireby : Option ℤ
  /-- `main` refuses more than one of the four -/
  only_one : (if addtime ≠ 0 then 1 else 0) + (if addtimeexpired ≠ 0 then 1 else 0) +
    (if expireby.isSome then 1 else 0) + (if ensureuntil.isSome then 1 else 0) ≤ 1

namespace EditArgs

/-- `name_time` -/
def name_time (a : EditArgs) (id : Str) : Option ℤ :=
  if a.expired then timestampFromId id else none

/-- `boundary_of`: the retention boundary of an expired entry. -/
def boundary_of (name_time : Option ℤ) (exp exd : ℤ) : ℤ :=
  if exd ≠ 0 then max exp exd else max exp (name_time.getD 0)

/-- `new_expiration` -/
def new_expiration (a : EditArgs) (e : DBEntry) : Option ℤ :=
  if a.addtime ≠ 0 then some (e.expiration + a.addtime * DAYS)
  else
    match a.ensureuntil, a.expireby with
    | some date, _ => if e.expiration < date then some date else none
    | none, some date => if e.expiration > date then some date else none
    | none, none => none

/-- `new_expired` -/
def new_expired (a : EditArgs) (id : Str) (e : DBEntry) : Option ℤ :=
  if a.addtimeexpired ≠ 0 then
    let base := if a.expired && e.expired == 0 then
      boundary_of (a.name_time id) e.expiration e.expired else e.expired
    some (base + a.addtimeexpired * DAYS)
  else none

/-- The entry with the new times, as it is in memory. -/
def edited (a : EditArgs) (id : Str) (e : DBEntry) : DBEntry :=
  { e with
    expiration := (a.new_expiration e).getD e.expiration
    expired := (a.new_expired id e).getD e.expired }

/-- The boundary before the edit. -/
def old_boundary (a : EditArgs) (id : Str) (e : DBEntry) : ℤ :=
  boundary_of (a.name_time id) e.expiration e.expired

/-- The boundary after the edit. -/
def new_boundary (a : EditArgs) (id : Str) (e : DBEntry) : ℤ :=
  boundary_of (a.name_time id) (a.edited id e).expiration (a.edited id e).expired

/-- Does the edit change the entry? -/
def edits (a : EditArgs) (id : Str) (e : DBEntry) : Bool :=
  (a.new_expiration e).isSome || (a.new_expired id e).isSome

/-- The writes of a real run. -/
def write (a : EditArgs) (k : DbLoc) (e : DBEntry) (w : World) : World :=
  let w := match a.new_expiration e with
    | some new_exp_value => w.writeEntry k { e with expiration := new_exp_value }
    | none => w
  match a.new_expired k.id e with
  | some _ => w.writeEntry k (a.edited k.id e)
  | none => w

end EditArgs

/-- What a call prints about an entry, and does with its name. -/
structure EditReport where
  /-- the date after `restorable until` -/
  restorable_until : Option ℤ
  /-- `rename db entry: old -> new` -/
  rename : Option (Str × Str)
  /-- the id that the entry has after it -/
  id : Str
  /-- was the entry renamed? -/
  renamed : Bool

/-- The body of the loop over the entries. -/
def editEntry (fsconfig : FilesystemConfig) (a : EditArgs) (dryrun : Bool) (o : RenameOutcome)
    (reserved : List Str) (k : DbLoc) (e : DBEntry) (w : World) : World × List Str × EditReport :=
  let written := if dryrun then w else a.write k e w
  if a.expired && a.edits k.id e then
    -- released entries, and names without a time, are not renamed
    if e.released > 1000000000 then (written, reserved, ⟨none, none, k.id, false⟩)
    else if a.name_time k.id = none then (written, reserved, ⟨none, none, k.id, false⟩)
    else
      let new_boundary := a.new_boundary k.id e
      let keeptime := fsconfig.keeptime * DAYS
      -- the edit has no effect on the deletion
      if new_boundary = a.old_boundary k.id e then
        (written, reserved, ⟨some (new_boundary + keeptime), none, k.id, false⟩)
      else
        match written.expiredIdFor o.search k e new_boundary reserved with
        | none => (written, reserved, ⟨some (new_boundary + keeptime), none, k.id, false⟩)
        | some new_id =>
          if new_id = k.id then
            (written, reserved, ⟨some (new_boundary + keeptime), none, k.id, false⟩)
          else
            let reserved := new_id :: reserved
            let printed := some (k.id, new_id)
            if dryrun then
              (written, reserved, ⟨some (new_boundary + keeptime), printed, k.id, false⟩)
            else
              let (w, id, renamed) := written.renameAsExpired o k e new_id
              (w, reserved, ⟨some (new_boundary + keeptime), printed, id, renamed⟩)
  else (written, reserved, ⟨none, none, k.id, false⟩)

/-! ## What an edit does -/

namespace World

variable {w : World} {search : Bool} {k : DbLoc} {e : DBEntry} {reserved : List Str}
  {base new_id : Str} {ts : ℤ} {tries : ℕ}

/-- A name that was found carries one of the times, and the entry has it already or it is free. -/
theorem expiredName_eq_some (h : w.expiredName search k e reserved base ts tries = some new_id) :
    ∃ i : ℕ, i < tries ∧ new_id = deletedName base (ts + i) ∧
      (new_id = k.id ∨ new_id ∉ reserved ∧ w.nameTaken k.fs e new_id = false) := by
  induction tries generalizing ts with
  | zero => cases h
  | succ tries ih =>
    have hlater : w.expiredName search k e reserved base (ts + 1) tries = some new_id →
        ∃ i : ℕ, i < tries + 1 ∧ new_id = deletedName base (ts + i) ∧
          (new_id = k.id ∨ new_id ∉ reserved ∧ w.nameTaken k.fs e new_id = false) := by
      intro hnext
      obtain ⟨i, hi, hname, hfree⟩ := ih hnext
      refine ⟨i + 1, by omega, ?_, hfree⟩
      rw [hname]
      congr 1
      omega
    have hfirst : ts + ((0 : ℕ) : ℤ) = ts := by simp
    rw [expiredName] at h
    split at h
    · rename_i hown
      obtain rfl := Option.some.inj h
      exact ⟨0, by omega, by rw [hfirst, hown], Or.inl rfl⟩
    · split at h
      · exact hlater h
      · rename_i hreserved
        split at h
        · cases h
        · split at h
          · exact hlater h
          · rename_i htaken
            obtain rfl := Option.some.inj h
            exact ⟨0, by omega, by rw [hfirst],
              Or.inr ⟨hreserved, Bool.not_eq_true _ ▸ htaken⟩⟩

/-- The search comes to its end at a free name. -/
theorem expiredName_ne_none {i : ℕ} (hi : i < tries)
    (hreserved : deletedName base (ts + i) ∉ reserved)
    (hfree : w.nameTaken k.fs e (deletedName base (ts + i)) = false) :
    w.expiredName true k e reserved base ts tries ≠ none := by
  induction tries generalizing ts i with
  | zero => exact absurd hi (Nat.not_lt_zero i)
  | succ tries ih =>
    have hlater : i ≠ 0 → w.expiredName true k e reserved base (ts + 1) tries ≠ none := by
      intro hpos
      obtain ⟨j, rfl⟩ := Nat.exists_eq_succ_of_ne_zero hpos
      have htime : ts + (j.succ : ℤ) = ts + 1 + j := by omega
      rw [htime] at hreserved hfree
      exact ih (by omega) hreserved hfree
    have hzero : i = 0 → ts + (i : ℤ) = ts := by
      rintro rfl
      simp
    rw [expiredName]
    split
    · exact Option.some_ne_none _
    · split
      · rename_i hmem
        exact hlater fun h0 => hreserved (by rwa [hzero h0])
      · simp only [Bool.not_true, Bool.false_eq_true, if_false]
        split
        · rename_i htaken
          refine hlater fun h0 => ?_
          rw [hzero h0] at hfree
          rw [hfree] at htaken
          cases htaken
        · exact Option.some_ne_none _

/-- A search whose existence checks fail finds at most the name of the entry. -/
theorem expiredName_of_no_search
    (h : w.expiredName false k e reserved base ts tries = some new_id) : new_id = k.id := by
  induction tries generalizing ts with
  | zero => cases h
  | succ tries ih =>
    rw [expiredName] at h
    split at h
    · exact (Option.some.inj h).symm
    · split at h
      · exact ih h
      · cases h

/-- The id that `expiredIdFor` gives carries one of 1000 times from the boundary on. -/
theorem expiredIdFor_eq_some {boundary : ℤ} (hid : splitExpiredId k.id = some (base, ts))
    (h : w.expiredIdFor search k e boundary reserved = some new_id) :
    0 < boundary ∧ ∃ i : ℕ, i < 1000 ∧ new_id = deletedName base (boundary + i) ∧
      (new_id = k.id ∨
        search = true ∧ new_id ∉ reserved ∧ w.nameTaken k.fs e new_id = false) := by
  rw [expiredIdFor, hid] at h
  dsimp only at h
  split at h
  · cases h
  · rename_i hpos
    refine ⟨by omega, ?_⟩
    obtain ⟨i, hi, hnew, hfree⟩ := expiredName_eq_some h
    refine ⟨i, hi, hnew, ?_⟩
    cases search with
    | true => exact hfree.imp_right fun hfree => ⟨rfl, hfree⟩
    | false => exact Or.inl (expiredName_of_no_search h)

/-- What a call of `renameAsExpired` can leave behind. -/
inductive RenameCases (w : World) (k : DbLoc) (new_id : Str) : World × Str × Bool → Prop where
  /-- nothing is renamed -/
  | kept (renamed : Bool) : RenameCases w k new_id (w, k.id, renamed)
  /-- the entry file is renamed, the directory too or not -/
  | moved {w' : World} (renamed : Bool)
      (hdb : w'.db = (w.renameEntry k ⟨k.fs, .deleted, new_id⟩).db) :
      RenameCases w k new_id (w', new_id, renamed)
  /-- the entry file is renamed, and renamed back -/
  | movedBack (renamed : Bool) :
      RenameCases w k new_id
        ((w.renameEntry k ⟨k.fs, .deleted, new_id⟩).renameEntry ⟨k.fs, .deleted, new_id⟩ k,
          k.id, renamed)

/-- **Inversion** for `renameAsExpired`. -/
theorem renameAsExpired_cases (w : World) (o : RenameOutcome) (k : DbLoc) (e : DBEntry)
    (new_id : Str) : RenameCases w k new_id (w.renameAsExpired o k e new_id) := by
  rw [renameAsExpired]
  split
  · exact .kept false
  split
  · split
    · exact .kept false
    split
    · exact .kept true
    split
    · exact .kept false
    split
    · exact .kept false
    dsimp only
    split
    · exact .moved true rfl
    split
    · exact .moved true rfl
    split
    · exact .movedBack false
    · exact .moved false rfl
  · exact .kept false

/-- The entry is where its id says. -/
theorem lookup_renameAsExpired {w' : World} {o : RenameOutcome} {id : Str} {renamed : Bool}
    {f : DbFile} (h : w.renameAsExpired o k e new_id = (w', id, renamed))
    (hlook : w.db.lookup k = some f) (hk : k.area = .deleted) :
    w'.db.lookup ⟨k.fs, .deleted, id⟩ = some f ∧ (id = k.id ∨ id = new_id) := by
  have hself : (⟨k.fs, .deleted, k.id⟩ : DbLoc) = k := by rw [← hk]
  have hmoved : (w.renameEntry k ⟨k.fs, .deleted, new_id⟩).db.lookup ⟨k.fs, .deleted, new_id⟩ =
      some f := lookup_renameEntry_to hlook
  have hcases := renameAsExpired_cases w o k e new_id
  rw [h] at hcases
  cases hcases with
  | kept =>
    rw [hself]
    exact ⟨hlook, Or.inl rfl⟩
  | moved _ hdb =>
    rw [hdb]
    exact ⟨hmoved, Or.inr rfl⟩
  | movedBack =>
    rw [hself]
    exact ⟨lookup_renameEntry_to hmoved, Or.inl rfl⟩

/-- What is there after a rename was there before, or is at the target. -/
theorem of_lookup_renameEntry {k k' k₀ : DbLoc} {f : DbFile}
    (h : (w.renameEntry k k').db.lookup k₀ = some f) : w.db.lookup k₀ = some f ∨ k₀ = k' := by
  by_cases hto : k₀ = k'
  · exact Or.inr hto
  · refine Or.inl ?_
    by_cases hfrom : k₀ = k
    · subst hfrom
      rw [lookup_renameEntry_from hto] at h
      cases h
    · rwa [lookup_renameEntry_ne hfrom hto] at h

/-- The entry is nowhere else, and other files are as before. -/
theorem of_lookup_renameAsExpired {w' : World} {o : RenameOutcome} {id : Str} {renamed : Bool}
    {k' : DbLoc} {f : DbFile} (h : w.renameAsExpired o k e new_id = (w', id, renamed))
    (hk : k.area = .deleted) (hk' : k' ≠ ⟨k.fs, .deleted, id⟩)
    (hlook : w'.db.lookup k' = some f) : k' ≠ k ∧ w.db.lookup k' = some f := by
  have hself : (⟨k.fs, .deleted, k.id⟩ : DbLoc) = k := by rw [← hk]
  have hcases := renameAsExpired_cases w o k e new_id
  rw [h] at hcases
  cases hcases with
  | kept => exact ⟨hself ▸ hk', hlook⟩
  | moved _ hdb =>
    rw [hdb] at hlook
    refine ⟨?_, (of_lookup_renameEntry hlook).resolve_right hk'⟩
    rintro rfl
    rw [lookup_renameEntry_from hk'] at hlook
    cases hlook
  | movedBack =>
    -- renamed back: nothing is left at the new name
    rw [hself] at hk'
    have hback := (of_lookup_renameEntry hlook).resolve_right hk'
    refine ⟨hk', (of_lookup_renameEntry hback).resolve_right ?_⟩
    rintro rfl
    rw [lookup_renameEntry_from hk'] at hlook
    cases hlook

/-- The rename to a free name with the same base: only its system calls can fail. -/
theorem renameAsExpired_of_free {o : RenameOutcome} {old_ts : ℤ}
    (hreleased : e.released ≤ 1000000000) (hid : splitExpiredId k.id = some (base, old_ts))
    (hnew : splitExpiredId new_id = some (base, ts)) (hts : 0 < ts) (hne : new_id ≠ k.id)
    (hfree : w.nameTaken k.fs e new_id = false) :
    w.renameAsExpired o k e new_id =
      if !o.checks || !o.db then (w, k.id, false)
      else
        let moved := w.renameEntry k ⟨k.fs, .deleted, new_id⟩
        match w.dirs.find (deletedDir e k.id) with
        | none => (moved, new_id, true)
        | some _ =>
          if o.dir then
            ({ moved with dirs := moved.dirs.move (deletedDir e k.id) (deletedDir e new_id) },
              new_id, true)
          else if o.rollback then (moved.renameEntry ⟨k.fs, .deleted, new_id⟩ k, k.id, false)
          else (moved, new_id, false) := by
  have hbase : ¬(base ≠ base ∨ ts ≤ 0) := by
    rintro (h | h)
    · exact h rfl
    · omega
  rw [renameAsExpired, if_neg (by omega), hid, hnew]
  dsimp only
  rw [if_neg hbase, if_neg hne, hfree, Bool.or_false]
  cases o.checks with
  | false => rfl
  | true =>
    cases o.db with
    | false => rfl
    | true => rfl

end World

namespace EditArgs

variable {a : EditArgs} {k : DbLoc} {e : DBEntry} {w : World}

/-- After the writes the entry file holds the entry with the new times. -/
theorem lookup_write (h : a.edits k.id e = true) :
    (a.write k e w).db.lookup k = some (.entry (a.edited k.id e).persisted) := by
  rw [edits, Bool.or_eq_true] at h
  rw [write]
  cases hexpired : a.new_expired k.id e with
  | some new_expired => exact World.lookup_writeEntry _ _ _
  | none =>
    cases hexpiration : a.new_expiration e with
    | none =>
      rw [hexpired, hexpiration] at h
      exact absurd h (by simp)
    | some new_expiration =>
      have hedited : a.edited k.id e = { e with expiration := new_expiration } := by
        rw [edited, hexpired, hexpiration]
        rfl
      rw [hedited]
      exact World.lookup_writeEntry _ _ _

/-- Without an edit nothing is written. -/
theorem write_of_not_edits (h : a.edits k.id e = false) : a.write k e w = w := by
  rw [edits, Bool.or_eq_false_iff, Option.isSome_eq_false_iff, Option.isSome_eq_false_iff,
    Option.isNone_iff_eq_none, Option.isNone_iff_eq_none] at h
  rw [write, h.1, h.2]

/-- The writes go to an entry file that is there: they take and free no names. -/
theorem isSome_write (hlook : (w.db.lookup k).isSome = true) (k' : DbLoc) :
    ((a.write k e w).db.lookup k').isSome = (w.db.lookup k').isSome := by
  have hone : ∀ (w : World) (e : DBEntry), (w.db.lookup k).isSome = true →
      ((w.writeEntry k e).db.lookup k').isSome = (w.db.lookup k').isSome := by
    intro w e h
    by_cases hk : k' = k
    · rw [hk, World.lookup_writeEntry, h]
      rfl
    · rw [World.lookup_writeEntry_ne _ hk]
  rw [write]
  cases a.new_expiration e with
  | none =>
    cases a.new_expired k.id e with
    | none => rfl
    | some new_expired => exact hone w _ hlook
  | some new_expiration =>
    cases a.new_expired k.id e with
    | none => exact hone w _ hlook
    | some new_expired =>
      rw [hone _ _ (by rw [World.lookup_writeEntry]; rfl)]
      exact hone w _ hlook

theorem lookup_write_ne {k' : DbLoc} (h : k' ≠ k) :
    (a.write k e w).db.lookup k' = w.db.lookup k' := by
  rw [write]
  cases a.new_expiration e with
  | none =>
    cases a.new_expired k.id e with
    | none => rfl
    | some new_expired => exact World.lookup_writeEntry_ne _ h
  | some new_expiration =>
    cases a.new_expired k.id e with
    | none => exact World.lookup_writeEntry_ne _ h
    | some new_expired =>
      exact (World.lookup_writeEntry_ne _ h).trans (World.lookup_writeEntry_ne _ h)

@[simp] theorem write_dirs : (a.write k e w).dirs = w.dirs := by
  rw [write]
  split <;> split <;> rfl

theorem nameTaken_write (hlook : (w.db.lookup k).isSome = true) (fs : Str) (e' : DBEntry)
    (name : Str) : (a.write k e w).nameTaken fs e' name = w.nameTaken fs e' name := by
  rw [World.nameTaken, isSome_write hlook, write_dirs, World.nameTaken]

end EditArgs

/-- The ways the edit of an entry can go in a real run: the state, the reserved names and what is
printed and done. -/
inductive EditSpec (fsconfig : FilesystemConfig) (a : EditArgs) (o : RenameOutcome)
    (reserved : List Str) (k : DbLoc) (e : DBEntry) (w : World) :
    World × List Str × EditReport → Prop where
  /-- no date is printed: there is no edit, or the name has nothing to do with the boundary -/
  | silent (h : a.expired = false ∨ a.edits k.id e = false ∨ e.released > 1000000000 ∨
      a.name_time k.id = none) :
    EditSpec fsconfig a o reserved k e w (a.write k e w, reserved, ⟨none, none, k.id, false⟩)
  /-- the name stays: the boundary has not changed, or no name is found, or it is near enough -/
  | kept (hexpired : a.expired = true) (hedits : a.edits k.id e = true)
      (h : a.new_boundary k.id e = a.old_boundary k.id e ∨
        (a.write k e w).expiredIdFor o.search k e (a.new_boundary k.id e) reserved = none ∨
        (a.write k e w).expiredIdFor o.search k e (a.new_boundary k.id e) reserved = some k.id) :
    EditSpec fsconfig a o reserved k e w (a.write k e w, reserved,
      ⟨some (a.new_boundary k.id e + fsconfig.keeptime * DAYS), none, k.id, false⟩)
  /-- a new name is found -/
  | found {new_id id : Str} {w' : World} {renamed : Bool} (hexpired : a.expired = true)
      (hedits : a.edits k.id e = true) (hchanged : a.new_boundary k.id e ≠ a.old_boundary k.id e)
      (hfound : (a.write k e w).expiredIdFor o.search k e (a.new_boundary k.id e) reserved =
        some new_id) (hne : new_id ≠ k.id)
      (hrename : (a.write k e w).renameAsExpired o k e new_id = (w', id, renamed)) :
    EditSpec fsconfig a o reserved k e w (w', new_id :: reserved,
      ⟨some (a.new_boundary k.id e + fsconfig.keeptime * DAYS), some (k.id, new_id), id, renamed⟩)

theorem editEntry_spec (fsconfig : FilesystemConfig) (a : EditArgs) (o : RenameOutcome)
    (reserved : List Str) (k : DbLoc) (e : DBEntry) (w : World) :
    EditSpec fsconfig a o reserved k e w (editEntry fsconfig a false o reserved k e w) := by
  rw [editEntry]
  simp only [Bool.false_eq_true, if_false]
  split
  · rename_i hboth
    obtain ⟨hexpired, hedits⟩ := Bool.and_eq_true_iff.mp hboth
    split
    · rename_i hreleased
      exact .silent (Or.inr (Or.inr (Or.inl hreleased)))
    · split
      · rename_i hname
        exact .silent (Or.inr (Or.inr (Or.inr hname)))
      · split
        · rename_i hsame
          exact .kept hexpired hedits (Or.inl hsame)
        · rename_i hchanged
          split
          · rename_i hnone
            exact .kept hexpired hedits (Or.inr (Or.inl hnone))
          · rename_i new_id hfound
            split
            · rename_i hown
              exact .kept hexpired hedits (Or.inr (Or.inr (hown ▸ hfound)))
            · rename_i hne
              exact .found hexpired hedits hchanged hfound hne rfl
  · rename_i hno
    rw [Bool.and_eq_true, not_and_or, Bool.not_eq_true, Bool.not_eq_true] at hno
    refine .silent ?_
    rcases hno with h | h
    · exact Or.inl h
    · exact Or.inr (Or.inl h)

end HpcWorkspace
