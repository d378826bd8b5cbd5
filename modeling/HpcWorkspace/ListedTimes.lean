import HpcWorkspace.DeletedEntries

/-!
# The deletion time that `ws_list -e` shows

`print_entry` counts the keep time of a deleted entry from `released`, from `expired` or from the
time in the name. The expirer counts it from `released` or from the latest of `expiration`,
`expired` and the time in the name. The two are the same as long as the expiration is not the
latest: an expired workspace whose expiration is moved on with `ws_editdb` is kept longer than
shown, unless its rename puts the new boundary into the name.
-/

namespace HpcWorkspace

/-! ## The two computations -/

/-- `remaining` of `print_entry` and `print_entry_tableformat` for a deleted entry, in seconds. -/
def remaining (fsconfig : FilesystemConfig) (id : Str) (e : DBEntry) (now : ℤ) : ℤ :=
  if e.released ≠ 0 then e.released + fsconfig.releasekeeptime * 86400 - now
  else
    let remaining := e.expired + fsconfig.keeptime * 86400 - now
    -- compatibility with v1
    if e.expired = 0 then
      match timestampFromId id with
      | some ts => ts + fsconfig.keeptime * 86400 - now
      | none => remaining
    else remaining

/-- The last moment at which the expirer keeps an entry whose name carries the time `ts`. -/
def lastKept (fsconfig : FilesystemConfig) (e : DBEntry) (ts : ℤ) : ℤ :=
  if e.released > 1000000000 then e.released + fsconfig.releasekeeptime * DAYS - 1
  else storedBoundary e ts + fsconfig.keeptime * DAYS

/-- The time that `ws_list -e` counts down reaches zero when the expirer starts to delete the
entry, up to the second between `>` and `>=`. -/
def ShownExactly (fsconfig : FilesystemConfig) (id : Str) (e : DBEntry) : Prop :=
  ∀ now, (remaining fsconfig id e now < 0 → shouldDelete fsconfig id e now = some true) ∧
    (0 < remaining fsconfig id e now → shouldDelete fsconfig id e now ≠ some true)

section

variable {fsconfig : FilesystemConfig} {id : Str} {e : DBEntry} {ts now : ℤ}

/-- The expirer deletes an entry once its last moment is over. -/
theorem shouldDelete_iff (hname : fileTime id = some ts) :
    shouldDelete fsconfig id e now = some true ↔ lastKept fsconfig e ts < now := by
  by_cases hreleased : e.released > 1000000000
  · rw [lastKept, if_pos hreleased, shouldDelete, hname]
    simp only [if_pos hreleased, Option.some.injEq, decide_eq_true_eq]
    rw [DAYS]
    omega
  · rw [lastKept, if_neg hreleased, shouldDelete_eq (by omega) hname, Option.some.injEq,
      decide_eq_true_eq, gt_iff_lt]

/-- It skips names without a time. -/
theorem shouldDelete_of_fileTime_none (hname : fileTime id = none) :
    shouldDelete fsconfig id e now = none := by
  rw [shouldDelete, hname]

/-- The time runs down by the second. -/
theorem remaining_eq : remaining fsconfig id e now = remaining fsconfig id e 0 - now := by
  rw [remaining, remaining]
  split
  · omega
  · dsimp only
    split
    · cases timestampFromId id with
      | none => dsimp only; omega
      | some ts => dsimp only; omega
    · omega

/-- The two moments are the same, or one second apart. -/
theorem shownExactly_iff : ShownExactly fsconfig id e ↔ ∃ ts, fileTime id = some ts ∧
    lastKept fsconfig e ts ≤ remaining fsconfig id e 0 ∧
    remaining fsconfig id e 0 ≤ lastKept fsconfig e ts + 1 := by
  constructor
  · intro h
    cases hname : fileTime id with
    | none =>
      have hdelete := (h (remaining fsconfig id e 0 + 1)).1 (by rw [remaining_eq]; omega)
      rw [shouldDelete_of_fileTime_none hname] at hdelete
      cases hdelete
    | some ts =>
      refine ⟨ts, rfl, ?_, ?_⟩
      · have hdelete := (h (remaining fsconfig id e 0 + 1)).1 (by rw [remaining_eq]; omega)
        rw [shouldDelete_iff hname] at hdelete
        omega
      · have hkeep := (h (remaining fsconfig id e 0 - 1)).2 (by rw [remaining_eq]; omega)
        rw [ne_eq, shouldDelete_iff hname] at hkeep
        omega
  · rintro ⟨ts, hname, hle, hge⟩ now
    rw [remaining_eq, ne_eq, shouldDelete_iff hname]
    constructor
    · intro hover
      omega
    · intro hleft
      omega

end

/-! ## The entries that are shown exactly -/

/-- The time that the listing takes from the name. -/
def listedName (id : Str) : ℤ := (timestampFromId id).getD 0

/-- The times of an entry that is shown exactly in every configuration: it was released at a
plausible time, or the latest of its times is the one that is listed. -/
def TimesAgree (id : Str) (e : DBEntry) : Prop :=
  ∃ ts, fileTime id = some ts ∧ (e.released > 1000000000 ∨
    e.released = 0 ∧ (e.expired ≠ 0 ∧ e.expiration ≤ e.expired ∨
      e.expired = 0 ∧ e.expiration ≤ listedName id ∧ ts ≤ listedName id))

/-- A name with a time is listed with it. -/
theorem listedName_of_splitExpiredId {id base : Str} {ts : ℤ}
    (h : splitExpiredId id = some (base, ts)) : listedName id = ts := by
  rw [listedName, timestampFromId_eq, h]
  rfl

/-- The listing takes the time from the name as the expirer does, or none. -/
theorem listedName_eq {id : Str} {ts : ℤ} (hname : fileTime id = some ts) :
    listedName id = ts ∧ 0 ≤ ts ∨ listedName id = 0 := by
  cases htime : timestampFromId id with
  | none =>
    rw [listedName, htime]
    exact Or.inr rfl
  | some ts' =>
    obtain ⟨base, hsplit⟩ := exists_base htime
    obtain ⟨hname', hts, -⟩ := fileTime_of_splitExpiredId hsplit
    obtain rfl := Option.some.inj (hname.symm.trans hname')
    exact Or.inl ⟨listedName_of_splitExpiredId hsplit, hts⟩

/-- What the countdown starts from. -/
theorem remaining_zero (fsconfig : FilesystemConfig) (id : Str) (e : DBEntry) :
    remaining fsconfig id e 0 =
      if e.released ≠ 0 then e.released + fsconfig.releasekeeptime * DAYS
      else (if e.expired = 0 then listedName id else e.expired) + fsconfig.keeptime * DAYS := by
  have hdays : DAYS = 86400 := rfl
  rw [remaining, listedName, hdays]
  split
  · omega
  · dsimp only
    split
    · rename_i hexpired
      cases timestampFromId id with
      | none =>
        rw [Option.getD_none, hexpired]
        dsimp only
        omega
      | some ts =>
        rw [Option.getD_some]
        dsimp only
        omega
    · omega

/-- **An entry is shown exactly in every configuration when its times agree, and only then.** -/
theorem shownExactly_all_iff (id : Str) (e : DBEntry) :
    (∀ fsconfig, ShownExactly fsconfig id e) ↔ TimesAgree id e := by
  have hdays : DAYS = 86400 := rfl
  constructor
  · intro h
    -- two configurations that keep released entries for zero days and for two
    have hconf : ∀ releasekeeptime : ℤ, ∃ fsconfig : FilesystemConfig,
        fsconfig.keeptime = 0 ∧ fsconfig.releasekeeptime = releasekeeptime := fun releasekeeptime =>
      ⟨{ FilesystemConfig.ofSpaces ['s'] [] with
          keeptime := 0, releasekeeptime := releasekeeptime }, rfl, rfl⟩
    obtain ⟨short, hkeep, hrelease⟩ := hconf 0
    obtain ⟨long, hkeep', hrelease'⟩ := hconf 2
    obtain ⟨ts, hname, hle, hge⟩ := shownExactly_iff.mp (h short)
    obtain ⟨ts', hname', hle', hge'⟩ := shownExactly_iff.mp (h long)
    obtain rfl := Option.some.inj (hname.symm.trans hname')
    rw [remaining_zero, lastKept, hkeep, hrelease, hdays] at hle hge
    rw [remaining_zero, lastKept, hkeep', hrelease', hdays] at hle' hge'
    refine ⟨ts, hname, ?_⟩
    by_cases hreleased : e.released > 1000000000
    · exact Or.inl hreleased
    · rw [if_neg hreleased] at hle hge hle' hge'
      by_cases hzero : e.released = 0
      · refine Or.inr ⟨hzero, ?_⟩
        rw [if_neg (not_not.mpr hzero), storedBoundary, if_neg (not_not.mpr hzero)] at hle
        by_cases hexpired : e.expired = 0
        · rw [if_pos hexpired, if_pos hexpired] at hle
          exact Or.inr ⟨hexpired, by omega, by omega⟩
        · rw [if_neg hexpired, if_neg hexpired] at hle
          exact Or.inl ⟨hexpired, by omega⟩
      · -- a release time before 2001 is not what the expirer counts from
        rw [if_pos hzero] at hle hge hle' hge'
        omega
  · rintro ⟨ts, hname, htimes⟩ fsconfig
    refine shownExactly_iff.mpr ⟨ts, hname, ?_⟩
    rw [remaining_zero, lastKept, storedBoundary]
    rcases htimes with hreleased | ⟨hzero, htimes⟩
    · rw [if_pos (by omega : e.released ≠ 0), if_pos hreleased]
      omega
    · rw [if_neg (not_not.mpr hzero), if_neg (by omega : ¬e.released > 1000000000),
        if_neg (not_not.mpr hzero)]
      rcases htimes with ⟨hexpired, hle⟩ | ⟨hexpired, hle, hts⟩
      · rw [if_neg hexpired, if_neg hexpired]
        omega
      · rw [if_pos hexpired, if_pos hexpired]
        have := listedName_eq hname
        omega

/-! ## The steps that keep the times together -/

/-- A step after which the entry it made or changed is shown exactly. -/
def ListedStep (w : World) : EntryAct → Prop
  | .release _ _ released timestamp =>
    -- the clock is past 2001
    1000000000 < released ∧ 0 ≤ timestamp ∧ timestamp + 1 < 2 ^ 63
  | .expire fs id _ timestamp expired _ => ∀ e ts, w.readEntry fs .live id = some e →
    w.freeTimestamp fs id e timestamp 1000 = some ts →
      ts < 2 ^ 63 ∧ (e.released > 1000000000 ∨
        -- the clock does not go back between the decision and the write
        e.released ≤ 0 ∧ 0 < expired ∧ e.expiration ≤ expired)
  | .edit _ a o reserved k => ∀ e, w.readEntry k.fs k.area k.id = some e → k.area = .deleted →
    a.edits k.id e = true → e.released = 0 → ∃ base ts, splitExpiredId k.id = some (base, ts) ∧
      a.new_boundary k.id e + 1000 ≤ 2 ^ 63 ∧
      -- the expiration is not moved beyond the time that is listed, or the name follows
      (0 < (a.edited k.id e).expired ∧ (a.edited k.id e).expiration ≤ (a.edited k.id e).expired ∨
        (a.edited k.id e).expired ≤ 0 ∧ ((a.edited k.id e).expiration ≤ ts ∨
          ∃ i, RenamedTo a o reserved k e w base i))
  | .dirs _ => True

section

variable {w w' : World} {k : DbLoc} {e : DBEntry}

theorem persisted_released_of_pos {e : DBEntry} (h : 0 < e.released) :
    e.persisted.released = e.released := by
  rw [DBEntry.persisted]
  exact if_pos h

theorem persisted_expired_of_pos {e : DBEntry} (h : 0 < e.expired) :
    e.persisted.expired = e.expired := by
  rw [DBEntry.persisted]
  exact if_pos h

/-- A released entry is not renamed. -/
theorem id_of_released {fsconfig : FilesystemConfig} {a : EditArgs} {o : RenameOutcome}
    {reserved : List Str} (hreleased : e.released > 1000000000)
    {r : World × List Str × EditReport} (h : EditSpec fsconfig a o reserved k e w r) :
    r.2.2.id = k.id := by
  cases h with
  | silent _ => rfl
  | kept _ _ _ => rfl
  | found _ _ _ _ _ hrename =>
    rw [World.renameAsExpired, if_pos hreleased] at hrename
    exact (Prod.mk.inj (Prod.mk.inj hrename).2).1.symm

/-- The times of an entry that was edited. -/
theorem timesAgree_of_edit {fsconfig : FilesystemConfig} {a : EditArgs} {o : RenameOutcome}
    {reserved : List Str} {base : Str} {ts : ℤ} (hk : k.area = .deleted)
    (hlook : w.db.lookup k = some (.entry e)) (hreleased : e.released = 0)
    (hexpired : a.expired = true) (hname : splitExpiredId k.id = some (base, ts))
    (hrange : a.new_boundary k.id e + 1000 ≤ 2 ^ 63)
    (htimes : 0 < (a.edited k.id e).expired ∧
        (a.edited k.id e).expiration ≤ (a.edited k.id e).expired ∨
      (a.edited k.id e).expired ≤ 0 ∧ ((a.edited k.id e).expiration ≤ ts ∨
        ∃ i, RenamedTo a o reserved k e w base i)) :
    TimesAgree (editEntry fsconfig a false o reserved k e w).2.2.id (a.edited k.id e).persisted := by
  obtain ⟨hfile, hts, hbase⟩ := fileTime_of_splitExpiredId hname
  have hzero : (a.edited k.id e).persisted.released = 0 := by
    simp [DBEntry.persisted, EditArgs.edited, hreleased]
  have hnb : a.new_boundary k.id e =
      EditArgs.boundary_of (some ts) (a.edited k.id e).expiration (a.edited k.id e).expired := by
    rw [EditArgs.new_boundary, EditArgs.name_time, if_pos hexpired, timestampFromId_eq, hname]
    rfl
  rw [EditArgs.boundary_of, Option.getD_some] at hnb
  -- the stored expired time decides which of the other times count
  have hstored : ∀ {id : Str} {ts' : ℤ}, splitExpiredId id = some (base, ts') →
      (0 < (a.edited k.id e).expired ∧
          (a.edited k.id e).expiration ≤ (a.edited k.id e).expired ∨
        (a.edited k.id e).expired ≤ 0 ∧ (a.edited k.id e).expiration ≤ ts') →
      TimesAgree id (a.edited k.id e).persisted := by
    intro id ts' hname' hcases
    refine ⟨ts', (fileTime_of_splitExpiredId hname').1, Or.inr ⟨hzero, ?_⟩⟩
    rw [DBEntry.persisted_expiration, listedName_of_splitExpiredId hname']
    rcases hcases with ⟨hpos, hle⟩ | ⟨hneg, hle⟩
    · rw [persisted_expired_of_pos hpos]
      exact Or.inl ⟨by omega, hle⟩
    · have hnot : (a.edited k.id e).persisted.expired = 0 := by
        rw [DBEntry.persisted]
        exact if_neg (by omega)
      exact Or.inr ⟨hnot, hle, Int.le_refl ts'⟩
  rcases id_after_edit hk hlook (by omega) hname hrange
    (editEntry_spec fsconfig a o reserved k e w) with ⟨i, hrenamed, hid⟩ | ⟨hno, hid⟩
  · have hpos := hrenamed.search.positive
    rw [hid]
    refine hstored (splitExpiredId_deletedName hbase (by omega)
      (by have := hrenamed.lt; omega)) ?_
    rcases htimes with hfirst | ⟨hneg, -⟩
    · exact Or.inl hfirst
    · refine Or.inr ⟨hneg, ?_⟩
      split at hnb
      · omega
      · omega
  · rw [hid]
    refine hstored hname ?_
    rcases htimes with hfirst | ⟨hneg, hle | ⟨i, hrenamed⟩⟩
    · exact Or.inl hfirst
    · exact Or.inr ⟨hneg, hle⟩
    · exact absurd hrenamed (hno i)

/-- **The entry that a step makes or changes.** -/
theorem timesAgree_of_step {act : EntryAct}
    (htimes : ∀ k e, k.area = .deleted → w.db.lookup k = some (.entry e) → TimesAgree k.id e)
    (hok : ListedStep w act) (h : NewEntry w act k e) : TimesAgree k.id e := by
  cases h with
  | @released fs id released timestamp e hread =>
    obtain ⟨hreleased, hts, hlt⟩ := hok
    have hrange := releaseTimestamp_range w fs id timestamp
    refine ⟨_, fileTime_deletedName (by omega) (by omega), Or.inl ?_⟩
    rw [persisted_released_of_pos (by dsimp only; omega)]
    exact hreleased
  | @expired fs id now timestamp expired ts outcome e hread hover hts hfree =>
    obtain ⟨hlt, hcases⟩ := hok e ts hread hfree
    have hle := (Expirer.freeTimestamp_eq_some hfree).1
    refine ⟨ts, fileTime_deletedName (by omega) hlt, ?_⟩
    rcases hcases with hreleased | ⟨hreleased, hpos, hexpiration⟩
    · left
      rw [persisted_released_of_pos (by dsimp only; omega)]
      exact hreleased
    · refine Or.inr ⟨?_, Or.inl ?_⟩
      · rw [DBEntry.persisted]
        exact if_neg (by dsimp only; omega)
      · rw [persisted_expired_of_pos hpos]
        exact ⟨by dsimp only; omega, hexpiration⟩
  | @edited fsconfig a o reserved k e hread hk hexpired hedits =>
    have hlook : w.db.lookup k = some (.entry e) := (World.readEntry_eq_some.mp hread).2
    obtain ⟨ts, hname, hreleased | ⟨hzero, -⟩⟩ := htimes k e hk hlook
    · dsimp only
      rw [id_of_released hreleased (editEntry_spec ..)]
      refine ⟨ts, hname, Or.inl ?_⟩
      rw [persisted_released_of_pos (by dsimp only [EditArgs.edited]; omega)]
      exact hreleased
    · obtain ⟨base, ts, hsplit, hrange, hcond⟩ :=
        hok e hread hk hedits hzero
      exact timesAgree_of_edit hk hlook hzero hexpired hsplit hrange hcond

end

/-! ## The result -/

/-- Every deleted entry is shown exactly in every configuration. -/
def AllShownExactly (w : World) : Prop :=
  ∀ k e, k.area = .deleted → w.db.lookup k = some (.entry e) →
    ∀ fsconfig, ShownExactly fsconfig k.id e

/-- **The time that `ws_list -e` shows.** It is exact in every configuration for the entries whose
times agree and for no others, and a run of steps that keep the times together leaves only such
entries. -/
theorem shownExactly_iff_and_run (acts : List EntryAct) (w w' : World) :
    (∀ id e, (∀ fsconfig, ShownExactly fsconfig id e) ↔ TimesAgree id e) ∧
      (AllShownExactly w → Runs.Meets entryStep ListedStep w acts →
        Runs.exec entryStep w acts = some w' → AllShownExactly w') := by
  refine ⟨shownExactly_all_iff, ?_⟩
  intro hw hmeets hrun
  refine hmeets.invariant ?_ hw hrun
  intro w act w' hshown hok hstep k e hk hlook
  rcases entry_of_step hstep hk hlook with hold | hnew
  · exact hshown k e hk hold
  · refine (shownExactly_all_iff k.id e).mpr (timesAgree_of_step ?_ hok hnew)
    exact fun k e hk hlook => (shownExactly_all_iff k.id e).mp (hshown k e hk hlook)

/-! ## An expiration that is moved on -/

/-- A workspace over its time. -/
def overLoc : DbLoc := ⟨['f'], .live, ['u', '-', 'a']⟩

/-- Its entry. -/
def overEntry : DBEntry :=
  ⟨['u'], ⟨['s'], ['u', '-', 'a']⟩, 1690000000, 1699990000, 0, 3, false, [], [], [], 0, 0, []⟩

/-- It is the only one. -/
def overWorld : World where
  db := (∅ : AList fun _ : DbLoc => DbFile).insert overLoc (.entry overEntry)
  dirs := DirTree.empty
  magic := some

/-- The expirer comes to it at 1700000000. -/
def expireIt : EntryAct := .expire ['f'] ['u', '-', 'a'] 1700000000 1700000000 1700000000 .ok

/-- Where it lies then. -/
def expiredLoc : DbLoc := ⟨['f'], .deleted, deletedName ['u', '-', 'a'] 1700000000⟩

/-- What is written there. -/
def expiredEntry : DBEntry := { overEntry with expired := 1700000000 }

/-- `ws_editdb -e --add-time d` -/
def addTime (d : ℤ) (h : d ≠ 0) : EditArgs := ⟨true, d, 0, none, none, by simp [h]⟩

/-- Such a call, on that entry. -/
def editIt (d : ℤ) (h : d ≠ 0) : EntryAct :=
  .edit (.ofSpaces ['s'] []) (addTime d h) .ok [] expiredLoc

/-- No entry of it is deleted. -/
theorem overWorld_live {k : DbLoc} (hk : k.area = .deleted) : overWorld.db.lookup k = none := by
  have hne : k ≠ overLoc := by
    rintro rfl
    cases hk
  rw [overWorld, AList.lookup_insert_ne hne]
  rfl

theorem overWorld_allShownExactly : AllShownExactly overWorld := by
  intro k e hk hlook
  rw [overWorld_live hk] at hlook
  cases hlook

/-- An expiration that is moved back changes nothing. -/
theorem allShownExactly_back : ∃ w',
    Runs.exec entryStep overWorld [expireIt, editIt (-1) (by decide)] = some w' ∧
      AllShownExactly w' := by
  refine ⟨_, rfl, (shownExactly_iff_and_run [expireIt, editIt (-1) (by decide)] overWorld _).2
    overWorld_allShownExactly ?_ rfl⟩
  refine Runs.Meets.cons ?_ rfl (Runs.Meets.cons ?_ rfl trivial)
  · intro e ts hread hfree
    obtain rfl := Option.some.inj ((by decide : _ = some overEntry).symm.trans hread)
    obtain rfl := Option.some.inj ((by decide : _ = some (1700000000 : ℤ)).symm.trans hfree)
    exact ⟨by decide, Or.inr (by decide)⟩
  · intro e hread _ _ _
    obtain rfl := Option.some.inj ((by decide : _ = some expiredEntry).symm.trans hread)
    exact ⟨['u', '-', 'a'], 1700000000, by decide, by decide, Or.inl (by decide)⟩

/-- Twenty days are added to the expiration: the listing still counts ten days from the expired
time, when the expirer counts them from the expiration. -/
theorem not_allShownExactly : ∃ w',
    Runs.exec entryStep overWorld [expireIt, editIt 20 (by decide)] = some w' ∧
      ¬AllShownExactly w' := by
  refine ⟨_, rfl, ?_⟩
  intro h
  have hshown := h ⟨['f'], .deleted, deletedName ['u', '-', 'a'] 1701718000⟩
    { expiredEntry with expiration := 1701718000 } rfl (by decide) (.ofSpaces ['s'] [])
  -- eleven days after it was expired
  have hdelete := (hshown 1700950400).1 (by decide)
  exact absurd hdelete (by decide)

end HpcWorkspace
