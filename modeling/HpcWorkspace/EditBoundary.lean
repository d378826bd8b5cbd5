import HpcWorkspace.EditDb

/-!
# The retention boundary of `ws_editdb` and of the expirer

`change` computes the boundary from the times in memory, `expire_workspaces` from the fields that
were written and the name. They part where `writeEntry` drops a time: an expired time below zero is
not written, and the expirer takes the name instead. The rename brings the two together again, so
what is left are the names that are not changed and lie beyond the printed date.
-/

namespace HpcWorkspace

/-! ## Agreement -/

/-- The expirer deletes what is stored under an id once the time is over `boundary + keeptime`, and
this is less than 1000 seconds after the printed date `D`. -/
def BoundaryAgrees (fsconfig : FilesystemConfig) (w : World) (k : DbLoc) (D : ℤ) : Prop :=
  ∃ stored boundary, w.db.lookup k = some (.entry stored) ∧
    (∀ now, shouldDelete fsconfig k.id stored now =
      some (decide (now > boundary + fsconfig.keeptime * DAYS))) ∧
    D ≤ boundary + fsconfig.keeptime * DAYS ∧ boundary + fsconfig.keeptime * DAYS < D + 1000

/-- The rename of an edited entry is needed and goes through: the boundary has changed and is a
plausible time, one of the names is free, and the system calls succeed, or leave the entry under
its new name when they can not be taken back. -/
structure RenameGoesThrough (a : EditArgs) (o : RenameOutcome) (reserved : List Str) (k : DbLoc)
    (e : DBEntry) (w : World) (base : Str) : Prop where
  /-- the boundary has changed -/
  changed : a.new_boundary k.id e ≠ a.old_boundary k.id e
  /-- it is a plausible time -/
  positive : 0 < a.new_boundary k.id e
  /-- one of the names is free -/
  free : ∃ i : ℕ, i < 1000 ∧ deletedName base (a.new_boundary k.id e + i) ∉ reserved ∧
    w.nameTaken k.fs e (deletedName base (a.new_boundary k.id e + i)) = false
  /-- existence can be checked -/
  checks : o.search = true ∧ o.checks = true
  /-- the entry is renamed -/
  db : o.db = true
  /-- the directory too, or there is none, or the entry is not renamed back -/
  dir : w.dirs.find (World.deletedDir e k.id) = none ∨ o.dir = true ∨ o.rollback = false

/-- Where the two boundaries agree: the expired time after the edit is written, or the name was not
far beyond the boundary, or it is changed. -/
def BoundaryWritten (a : EditArgs) (o : RenameOutcome) (reserved : List Str) (k : DbLoc)
    (e : DBEntry) (w : World) (base : Str) (ts : ℤ) : Prop :=
  0 ≤ (a.edited k.id e).expired ∨ ts < a.new_boundary k.id e + 1000 ∨
    RenameGoesThrough a o reserved k e w base

/-! ## The expirer on an entry that was not released -/

/-- The boundary of the expirer for a stored entry whose name carries the time `ts`; a release time
before 2001 is ignored, with a date in the future. -/
def storedBoundary (e : DBEntry) (ts : ℤ) : ℤ :=
  if e.expired = 0 then
    max (max e.expiration e.expired) (if e.released ≠ 0 then 3000000000 else ts)
  else max e.expiration e.expired

theorem shouldDelete_eq {fsconfig : FilesystemConfig} {id : Str} {e : DBEntry} {ts : ℤ}
    (hreleased : e.released ≤ 1000000000) (hname : fileTime id = some ts) (now : ℤ) :
    shouldDelete fsconfig id e now =
      some (decide (now > storedBoundary e ts + fsconfig.keeptime * DAYS)) := by
  have hkeep : fsconfig.keeptime * 24 * 3600 = fsconfig.keeptime * DAYS := by
    rw [DAYS]
    omega
  rw [shouldDelete, hname]
  simp only [show ¬e.released > 1000000000 by omega, if_false, hkeep]
  rfl

/-- Two boundaries after which the expirer deletes are the same. -/
theorem boundary_unique {b b' c : ℤ}
    (h : ∀ now, (some (decide (now > b + c)) : Option Bool) = some (decide (now > b' + c))) :
    b = b' := by
  have hiff : ∀ now, now > b + c ↔ now > b' + c := fun now =>
    decide_eq_decide.mp (Option.some.inj (h now))
  have h₁ := (hiff (b + c + 1)).mp (by omega)
  have h₂ := (hiff (b' + c + 1)).mpr (by omega)
  omega

/-! ## The name after an edit -/

section

variable {fsconfig : FilesystemConfig} {a : EditArgs} {o : RenameOutcome} {reserved : List Str}
  {k : DbLoc} {e : DBEntry} {w : World} {base : Str} {ts D : ℤ}

/-- The name after an edit that prints a date: the old one, or one of the 1000 from the boundary
on. -/
inductive NameAfter (a : EditArgs) (k : DbLoc) (e : DBEntry) (base : Str) : Str → Prop where
  /-- it stays -/
  | kept : NameAfter a k e base k.id
  /-- it carries the boundary, or a little more -/
  | moved {i : ℕ} (hi : i < 1000) (hpos : 0 < a.new_boundary k.id e) :
    NameAfter a k e base (deletedName base (a.new_boundary k.id e + i))

/-- **What is left of an edited entry**: a date is printed for the new boundary, and under its name
lies what was written of the new times. -/
theorem of_printed (hk : k.area = .deleted)
    (hname : splitExpiredId k.id = some (base, ts))
    {r : World × List Str × EditReport} (h : EditSpec fsconfig a o reserved k e w r)
    (hprinted : r.2.2.restorable_until = some D) :
    D = a.new_boundary k.id e + fsconfig.keeptime * DAYS ∧ a.expired = true ∧
      r.1.db.lookup ⟨k.fs, .deleted, r.2.2.id⟩ = some (.entry (a.edited k.id e).persisted) ∧
      NameAfter a k e base r.2.2.id := by
  have hself : (⟨k.fs, .deleted, k.id⟩ : DbLoc) = k := by rw [← hk]
  cases h with
  | silent h => cases hprinted
  | kept hexpired hedits h =>
    refine ⟨(Option.some.inj hprinted).symm, hexpired, ?_, .kept⟩
    rw [hself]
    exact EditArgs.lookup_write hedits
  | found hexpired hedits hchanged hfound hne hrename =>
    obtain ⟨hstored, hid⟩ :=
      World.lookup_renameAsExpired hrename (EditArgs.lookup_write hedits) hk
    refine ⟨(Option.some.inj hprinted).symm, hexpired, hstored, ?_⟩
    dsimp only
    rcases hid with hid | hid
    · rw [hid]
      exact .kept
    · obtain ⟨hpos, i, hi, hnew, -⟩ := World.expiredIdFor_eq_some hname hfound
      rw [hid, hnew]
      exact .moved hi hpos

/-- The time that the name carries then. -/
theorem NameAfter.fileTime {id : Str} (h : NameAfter a k e base id)
    (hname : splitExpiredId k.id = some (base, ts))
    (hrange : a.new_boundary k.id e + 1000 ≤ 2 ^ 63) :
    ∃ ts', fileTime id = some ts' ∧ (id = k.id ∧ ts' = ts ∨
      0 < a.new_boundary k.id e ∧ a.new_boundary k.id e ≤ ts' ∧
        ts' < a.new_boundary k.id e + 1000) := by
  obtain ⟨htime, -, hbase⟩ := fileTime_of_splitExpiredId hname
  cases h with
  | kept => exact ⟨ts, htime, Or.inl ⟨rfl, rfl⟩⟩
  | @moved i hi hpos =>
    have hsplit : splitExpiredId (deletedName base (a.new_boundary k.id e + i)) =
        some (base, a.new_boundary k.id e + i) :=
      splitExpiredId_deletedName hbase (by omega) (by omega)
    exact ⟨_, (fileTime_of_splitExpiredId hsplit).1, Or.inr ⟨hpos, by omega, by omega⟩⟩

/-- When a name is found, the rename changes it if its system calls let it. -/
theorem renameAsExpired_id {new_id : Str} (hreleased : e.released ≤ 1000000000)
    (hname : splitExpiredId k.id = some (base, ts))
    (hrange : a.new_boundary k.id e + 1000 ≤ 2 ^ 63)
    (hfound : (a.write k e w).expiredIdFor o.search k e (a.new_boundary k.id e) reserved =
      some new_id) (hne : new_id ≠ k.id) :
    ((a.write k e w).renameAsExpired o k e new_id).2.1 ≠ k.id ↔ o.checks = true ∧ o.db = true ∧
      (w.dirs.find (World.deletedDir e k.id) = none ∨ o.dir = true ∨ o.rollback = false) := by
  obtain ⟨hpos, i, hi, hnew, hfree⟩ := World.expiredIdFor_eq_some hname hfound
  obtain ⟨-, -, hfree⟩ := hfree.resolve_left hne
  obtain ⟨-, -, hbase⟩ := fileTime_of_splitExpiredId hname
  have hsplit : splitExpiredId new_id = some (base, a.new_boundary k.id e + i) := by
    rw [hnew]
    exact splitExpiredId_deletedName hbase (by omega) (by omega)
  rw [World.renameAsExpired_of_free hreleased hname hsplit (by omega) hne hfree,
    EditArgs.write_dirs]
  cases o.checks with
  | false => simp
  | true =>
    cases o.db with
    | false => simp
    | true =>
      cases w.dirs.find (World.deletedDir e k.id) with
      | none => simp [hne]
      | some n =>
        cases o.dir with
        | true => simp [hne]
        | false =>
          cases o.rollback with
          | true => simp
          | false => simp [hne]

/-- A rename that goes through changes a name that is far beyond the boundary. -/
theorem RenameGoesThrough.ne (h : RenameGoesThrough a o reserved k e w base)
    (hlook : w.db.lookup k = some (.entry e)) (hreleased : e.released ≤ 1000000000)
    (hname : splitExpiredId k.id = some (base, ts)) (hfar : a.new_boundary k.id e + 1000 ≤ ts)
    (hrange : a.new_boundary k.id e + 1000 ≤ 2 ^ 63)
    {r : World × List Str × EditReport} (hr : EditSpec fsconfig a o reserved k e w r)
    (hprinted : r.2.2.restorable_until = some D) : r.2.2.id ≠ k.id := by
  obtain ⟨-, -, hbase⟩ := fileTime_of_splitExpiredId hname
  cases hr with
  | silent h => cases hprinted
  | kept hexpired hedits hkept =>
    rcases hkept with hsame | hnone | hown
    · exact absurd hsame h.changed
    · obtain ⟨i, hi, hreserved, hfree⟩ := h.free
      rw [World.expiredIdFor, hname, h.checks.1] at hnone
      dsimp only at hnone
      rw [if_neg (by have := h.positive; omega)] at hnone
      rw [← EditArgs.nameTaken_write (a := a) (k := k) (e := e) (by rw [hlook]; rfl)] at hfree
      exact absurd hnone (World.expiredName_ne_none hi hreserved hfree)
    · -- the name carries a time that is none of the 1000
      obtain ⟨hpos, i, hi, hown, -⟩ := World.expiredIdFor_eq_some hname hown
      rw [hown, splitExpiredId_deletedName hbase (by omega) (by omega)] at hname
      have htime := (Prod.mk.inj (Option.some.inj hname)).2
      omega
  | found hexpired hedits hchanged hfound hne hrename =>
    have hid := renameAsExpired_id hreleased hname hrange hfound hne
    rw [hrename] at hid
    exact hid.mpr ⟨h.checks.2, h.db, h.dir⟩

/-- A name that is changed was changed by a rename that goes through. -/
theorem renameGoesThrough_of_ne (hlook : w.db.lookup k = some (.entry e))
    (hreleased : e.released ≤ 1000000000) (hname : splitExpiredId k.id = some (base, ts))
    (hrange : a.new_boundary k.id e + 1000 ≤ 2 ^ 63)
    {r : World × List Str × EditReport} (hr : EditSpec fsconfig a o reserved k e w r)
    (hne : r.2.2.id ≠ k.id) : RenameGoesThrough a o reserved k e w base := by
  cases hr with
  | silent h => exact absurd rfl hne
  | kept hexpired hedits h => exact absurd rfl hne
  | found hexpired hedits hchanged hfound hnew hrename =>
    have hid := renameAsExpired_id hreleased hname hrange hfound hnew
    rw [hrename] at hid
    obtain ⟨hchecks, hdb, hdir⟩ := hid.mp hne
    obtain ⟨hpos, i, hi, rfl, hfree⟩ := World.expiredIdFor_eq_some hname hfound
    obtain ⟨hsearch, hreserved, hfree⟩ := hfree.resolve_left hnew
    rw [EditArgs.nameTaken_write (by rw [hlook]; rfl)] at hfree
    exact ⟨hchanged, hpos, ⟨i, hi, hreserved, hfree⟩, ⟨hsearch, hchecks⟩, hdb, hdir⟩

end

/-! ## The result -/

/-- The two boundaries, by the sign of the expired time after the edit. -/
theorem storedBoundary_agrees {fe fx ts ts' nb : ℤ} {e : DBEntry} (hreleased : e.released = 0)
    (hexp : e.expiration = fe) (hexd : e.expired = if fx > 0 then fx else 0)
    (hnb : nb = EditArgs.boundary_of (some ts) fe fx) (hts : 0 ≤ ts)
    (hts' : ts' = ts ∨ 0 < nb ∧ nb ≤ ts' ∧ ts' < nb + 1000) :
    (nb ≤ storedBoundary e ts' ∧ storedBoundary e ts' < nb + 1000) ↔
      0 ≤ fx ∨ ts' < nb + 1000 := by
  rw [EditArgs.boundary_of, Option.getD_some] at hnb
  rw [storedBoundary, hexp, hexd, hreleased, if_neg (not_not.mpr rfl)]
  rcases Int.lt_trichotomy fx 0 with hneg | rfl | hpos
  · -- the expired time is dropped, and the name stands in for it
    rw [if_pos (by omega : fx ≠ 0)] at hnb
    rw [if_neg (by omega : ¬fx > 0), if_pos rfl]
    omega
  · simp only [ne_eq, not_true_eq_false, if_false] at hnb
    simp only [gt_iff_lt]
    omega
  · rw [if_pos (by omega : fx ≠ 0)] at hnb
    rw [if_pos hpos, if_neg (by omega : ¬fx = 0)]
    omega

/-- **The boundaries of `ws_editdb` and the expirer agree exactly when the expired time is written,
or the name is near enough, or the rename goes through.** -/
theorem boundaryAgrees_iff (fsconfig : FilesystemConfig) (a : EditArgs) (o : RenameOutcome)
    (reserved : List Str) (k : DbLoc) (e : DBEntry) (w : World) {base : Str} {ts D : ℤ}
    (hk : k.area = .deleted) (hlook : w.db.lookup k = some (.entry e)) (hreleased : e.released = 0)
    (hname : splitExpiredId k.id = some (base, ts))
    (hrange : a.new_boundary k.id e + 1000 ≤ 2 ^ 63)
    (hprinted : (editEntry fsconfig a false o reserved k e w).2.2.restorable_until = some D) :
    BoundaryAgrees fsconfig (editEntry fsconfig a false o reserved k e w).1
        ⟨k.fs, .deleted, (editEntry fsconfig a false o reserved k e w).2.2.id⟩ D ↔
      BoundaryWritten a o reserved k e w base ts := by
  have hspec := editEntry_spec fsconfig a o reserved k e w
  obtain ⟨hD, hexpired, hstored, hafter⟩ := of_printed hk hname hspec hprinted
  obtain ⟨ts', htime, hts'⟩ := hafter.fileTime hname hrange
  obtain ⟨-, hts, -⟩ := fileTime_of_splitExpiredId hname
  have hnamed : a.name_time k.id = some ts := by
    rw [EditArgs.name_time, if_pos hexpired, timestampFromId_eq, hname]
    rfl
  have hpersisted : (a.edited k.id e).persisted.released = 0 := by
    simp [DBEntry.persisted, EditArgs.edited, hreleased]
  have hboundary : a.new_boundary k.id e = EditArgs.boundary_of (some ts)
      (a.edited k.id e).expiration (a.edited k.id e).expired := by
    rw [EditArgs.new_boundary, hnamed]
  have hagree := storedBoundary_agrees hpersisted rfl rfl hboundary hts (hts'.imp_left And.right)
  have hiff : BoundaryAgrees fsconfig (editEntry fsconfig a false o reserved k e w).1
      ⟨k.fs, .deleted, (editEntry fsconfig a false o reserved k e w).2.2.id⟩ D ↔
        0 ≤ (a.edited k.id e).expired ∨ ts' < a.new_boundary k.id e + 1000 := by
    rw [← hagree]
    constructor
    · rintro ⟨stored, boundary, hlook', hdelete, hle, hlt⟩
      obtain rfl := DbFile.entry.inj (Option.some.inj (hstored.symm.trans hlook'))
      have hb := boundary_unique fun now =>
        (hdelete now).symm.trans (shouldDelete_eq (by omega) htime now)
      omega
    · rintro ⟨hle, hlt⟩
      exact ⟨_, _, hstored, shouldDelete_eq (by omega) htime, by omega, by omega⟩
  rw [hiff, BoundaryWritten]
  have hself : (editEntry fsconfig a false o reserved k e w).2.2.id = k.id → ts' = ts := by
    intro hid
    rw [hid, (fileTime_of_splitExpiredId hname).1] at htime
    exact (Option.some.inj htime).symm
  constructor
  · rintro (hsign | hlt)
    · exact Or.inl hsign
    · by_cases hid : (editEntry fsconfig a false o reserved k e w).2.2.id = k.id
      · exact Or.inr (Or.inl (hself hid ▸ hlt))
      · exact Or.inr (Or.inr
          (renameGoesThrough_of_ne hlook (by omega) hname hrange hspec hid))
  · rintro (hsign | hlt | hrename)
    · exact Or.inl hsign
    · rcases hts' with ⟨-, rfl⟩ | ⟨-, -, hlt'⟩
      · exact Or.inr hlt
      · exact Or.inr hlt'
    · by_cases hfar : a.new_boundary k.id e + 1000 ≤ ts
      · have hne := hrename.ne hlook (by omega) hname hfar hrange hspec hprinted
        exact Or.inr (hts'.resolve_left fun h => hne h.1).2.2
      · rcases hts' with ⟨-, rfl⟩ | ⟨-, -, hlt'⟩
        · exact Or.inr (by omega)
        · exact Or.inr hlt'

/-! ## A directory that can not be moved -/

/-- An entry that the expirer moved a day after it was over its time. -/
def lateEntry : DBEntry :=
  ⟨['u'], ⟨['s'], ['u', '-', 'a']⟩, 1690000000, 1699900000, 0, 3, false, [], [], [], 0, 1700000000,
    []⟩

/-- Its file. -/
def lateLoc : DbLoc := ⟨['f'], .deleted, deletedName ['u', '-', 'a'] 1700000000⟩

/-- It lies in the deleted area, with its directory. -/
def lateWorld : World where
  db := (∅ : AList fun _ : DbLoc => DbFile).insert lateLoc (.entry lateEntry)
  dirs := DirTree.empty.create (World.deletedDir lateEntry lateLoc.id) ⟨1690000000, false, 1000⟩
  magic := some

/-- `ws_editdb -e --add-time-expired -20000` -/
def longAgo : EditArgs := ⟨true, 0, -20000, none, none, by decide⟩

/-- The directory can not be moved, and the entry is renamed back. -/
def stuckDir : RenameOutcome := { RenameOutcome.ok with dir := false }

theorem boundaryAgrees_iff_late :
    BoundaryAgrees (.ofSpaces ['s'] [])
        (editEntry (.ofSpaces ['s'] []) longAgo false stuckDir [] lateLoc lateEntry lateWorld).1
        ⟨lateLoc.fs, .deleted, (editEntry (.ofSpaces ['s'] []) longAgo false stuckDir [] lateLoc
          lateEntry lateWorld).2.2.id⟩ 1700764000 ↔
      BoundaryWritten longAgo stuckDir [] lateLoc lateEntry lateWorld ['u', '-', 'a'] 1700000000 :=
  boundaryAgrees_iff (.ofSpaces ['s'] []) longAgo stuckDir [] lateLoc lateEntry lateWorld rfl rfl
    rfl (by decide) (by decide) (by decide)

/-- The expired time is in 1969 then and is not written: the date that is printed is a day before
the one that the expirer keeps. -/
theorem not_boundaryAgrees :
    (editEntry (.ofSpaces ['s'] []) longAgo false stuckDir [] lateLoc lateEntry
        lateWorld).2.2.restorable_until = some 1700764000 ∧
      ¬BoundaryAgrees (.ofSpaces ['s'] [])
        (editEntry (.ofSpaces ['s'] []) longAgo false stuckDir [] lateLoc lateEntry lateWorld).1
        ⟨['f'], .deleted, (editEntry (.ofSpaces ['s'] []) longAgo false stuckDir [] lateLoc lateEntry
          lateWorld).2.2.id⟩ 1700764000 := by
  refine ⟨by decide, ?_⟩
  rintro ⟨stored, boundary, hlook, hdelete, -, hlt⟩
  have hstored : (editEntry (.ofSpaces ['s'] []) longAgo false stuckDir [] lateLoc lateEntry
      lateWorld).1.db.lookup ⟨['f'], .deleted, (editEntry (.ofSpaces ['s'] []) longAgo false stuckDir
        [] lateLoc lateEntry lateWorld).2.2.id⟩ =
      some (.entry (longAgo.edited lateLoc.id lateEntry).persisted) := by
    decide
  obtain rfl := DbFile.entry.inj (Option.some.inj (hstored.symm.trans hlook))
  -- a day later the expirer still keeps it
  have hkept := (hdelete 1700850400).symm.trans (by decide : _ = some false)
  have hle := of_decide_eq_false (Option.some.inj hkept)
  omega

end HpcWorkspace
