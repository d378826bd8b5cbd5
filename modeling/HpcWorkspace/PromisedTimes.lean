import HpcWorkspace.ListedTimes

/-!
# The date that `ws_restore -l` promises

`ws_restore -l` adds the keep time of the filesystem to the time in the name of a deleted entry.
The expirer adds it to the stored times, and for released entries it adds `releasekeeptime` to the
release time. So a released workspace is promised for too long when released ones are kept for
shorter than expired ones, and any workspace when its name is ahead of its times.
-/

namespace HpcWorkspace

/-! ## The listing -/

/-- `atol`: like `std::stol`, but zero when there is no number, and the nearest `long` when it is
out of range. -/
def atol (s : Str) : ℤ :=
  let digits (r : Str) : ℤ := Nat.ofDigitChars 10 (r.takeWhile Char.isDigit) 0
  match s.dropWhile isSpace with
  | '-' :: r => max (-digits r) (-2 ^ 63)
  | '+' :: r => min (digits r) (2 ^ 63 - 1)
  | r => min (digits r) (2 ^ 63 - 1)

/-- `filenametime`: what follows the last dash, or the whole id. -/
def filenametime (id : Str) : ℤ :=
  match Dashed.splitLast '-' id with
  | none => atol id
  | some (_, suffix) => atol suffix

/-- `removetime`, printed after `restorable until`. -/
def removetime (fsconfig : FilesystemConfig) (id : Str) : ℤ :=
  filenametime id + fsconfig.keeptime * 24 * 3600

theorem atol_unsigned {s : Str} (hminus : ∀ r, s.dropWhile isSpace ≠ '-' :: r)
    (hplus : ∀ r, s.dropWhile isSpace ≠ '+' :: r) :
    atol s =
      min ((Nat.ofDigitChars 10 ((s.dropWhile isSpace).takeWhile Char.isDigit) 0 : ℕ) : ℤ)
        (2 ^ 63 - 1) := by
  rw [atol]
  dsimp only
  split
  · rename_i r hr
    exact absurd hr (hminus r)
  · rename_i r hr
    exact absurd hr (hplus r)
  · rfl

/-- `atol` reads what `std::stol` reads. -/
theorem atol_of_stol {s : Str} {v : ℤ} (h : stol s = some v) : atol s = v := by
  rw [stol] at h
  dsimp only at h
  split at h
  · rename_i r hr
    obtain ⟨d, hd, hv⟩ := Option.bind_eq_some_iff.mp h
    rw [atol, hr]
    change max (-((Nat.ofDigitChars 10 (List.takeWhile Char.isDigit r) 0 : ℕ) : ℤ)) (-2 ^ 63) = v
    rw [ofDigitChars_of_digits hd]
    split at hv
    · obtain rfl := Option.some.inj hv
      omega
    · cases hv
  · rename_i r hr
    obtain ⟨d, hd, hv⟩ := Option.bind_eq_some_iff.mp h
    rw [atol, hr]
    change min ((Nat.ofDigitChars 10 (List.takeWhile Char.isDigit r) 0 : ℕ) : ℤ) (2 ^ 63 - 1) = v
    rw [ofDigitChars_of_digits hd]
    split at hv
    · obtain rfl := Option.some.inj hv
      omega
    · cases hv
  · rename_i hminus hplus
    obtain ⟨d, hd, hv⟩ := Option.bind_eq_some_iff.mp h
    rw [atol_unsigned hminus hplus, ofDigitChars_of_digits hd]
    split at hv
    · obtain rfl := Option.some.inj hv
      omega
    · cases hv

/-- The listing and the expirer read the same time from a name. -/
theorem filenametime_eq {id : Str} {ts : ℤ} (h : fileTime id = some ts) : filenametime id = ts := by
  rw [fileTime] at h
  rw [filenametime]
  split at h
  · rename_i hsplit
    rw [hsplit]
    exact atol_of_stol h
  · cases h
  · rename_i hsplit
    rw [hsplit]
    exact atol_of_stol h

/-! ## The promise -/

/-- The expirer does not delete the entry before the date that is printed. -/
def NotBefore (fsconfig : FilesystemConfig) (id : Str) (e : DBEntry) : Prop :=
  ∀ now, now < removetime fsconfig id → shouldDelete fsconfig id e now ≠ some true

/-- When an entry whose name carries the time `ts` is kept until the date: a released one has a
release time and a keep time that reach it, and the name of an expired one is not ahead of its
times by more than a second. -/
def PromiseKept (fsconfig : FilesystemConfig) (ts : ℤ) (e : DBEntry) : Prop :=
  if e.released > 1000000000 then
    ts + fsconfig.keeptime * DAYS ≤ e.released + fsconfig.releasekeeptime * DAYS
  else if e.expired ≠ 0 then ts ≤ max e.expiration e.expired + 1
  else e.released ≠ 0 → ts ≤ max e.expiration 3000000000 + 1

section

variable {fsconfig : FilesystemConfig} {id : Str} {e : DBEntry} {ts : ℤ}

/-- The date against the last moment of the expirer. -/
theorem promiseKept_iff_lastKept : PromiseKept fsconfig ts e ↔
    ts + fsconfig.keeptime * DAYS ≤ lastKept fsconfig e ts + 1 := by
  rw [PromiseKept, lastKept, storedBoundary]
  split
  · omega
  · split
    · omega
    · rename_i hexpired
      rw [not_not] at hexpired
      rw [if_pos hexpired, hexpired]
      by_cases hreleased : e.released = 0
      · rw [if_neg (not_not.mpr hreleased)]
        exact iff_of_true (fun h => absurd hreleased h) (by omega)
      · rw [if_pos hreleased]
        omega

/-- **An entry is kept until the date when its promise is kept, and only then**; an entry without a
time in its name is never deleted. -/
theorem notBefore_iff :
    NotBefore fsconfig id e ↔ ∀ ts, fileTime id = some ts → PromiseKept fsconfig ts e := by
  have hdate : ∀ {ts}, fileTime id = some ts →
      removetime fsconfig id = ts + fsconfig.keeptime * DAYS := by
    intro ts hname
    rw [removetime, filenametime_eq hname, DAYS]
    omega
  constructor
  · intro h ts hname
    rw [promiseKept_iff_lastKept, ← hdate hname]
    by_contra hlate
    have hkeep := h (removetime fsconfig id - 1) (by omega)
    rw [ne_eq, shouldDelete_iff hname] at hkeep
    omega
  · intro h now hnow
    cases hname : fileTime id with
    | none =>
      rw [shouldDelete_of_fileTime_none hname]
      exact (Option.some_ne_none true).symm
    | some ts =>
      have hkept := h ts hname
      rw [promiseKept_iff_lastKept, ← hdate hname] at hkept
      rw [ne_eq, shouldDelete_iff hname]
      omega

end

/-! ## The steps that keep the promise -/

/-- A step after which the promise for the entry it made or changed is kept, with the
configurations of the filesystems. -/
def PromisedStep (conf : Str → FilesystemConfig) (w : World) : EntryAct → Prop
  | .release fs id released timestamp => ∀ e, w.readEntry fs .live id = some e →
    0 ≤ timestamp ∧ timestamp + 1 < 2 ^ 63 ∧
      PromiseKept (conf fs) (releaseTimestamp w fs id timestamp)
        { e with released := released }.persisted
  | .expire fs id _ timestamp expired _ => ∀ e ts, w.readEntry fs .live id = some e →
    w.freeTimestamp fs id e timestamp 1000 = some ts →
      ts < 2 ^ 63 ∧ PromiseKept (conf fs) ts { e with expired := expired }.persisted
  | .edit _ a o reserved k => ∀ e, w.readEntry k.fs k.area k.id = some e → k.area = .deleted →
    a.edits k.id e = true → e.released ≤ 1000000000 →
      ∃ base ts, splitExpiredId k.id = some (base, ts) ∧
        a.new_boundary k.id e + 1000 ≤ 2 ^ 63 ∧
        -- a new name carries the new boundary or a little more, else the old one stays
        (∀ i : ℕ, RenamedTo a o reserved k e w base i →
          PromiseKept (conf k.fs) (a.new_boundary k.id e + i) (a.edited k.id e).persisted) ∧
        ((∀ i, ¬RenamedTo a o reserved k e w base i) →
          PromiseKept (conf k.fs) ts (a.edited k.id e).persisted)
  | .dirs _ => True

/-- A release keeps the promise when the name is not ahead of the release time and released
workspaces are kept for as long as expired ones. -/
theorem promiseKept_of_release {fsconfig : FilesystemConfig} {e : DBEntry} {released ts : ℤ}
    (hreleased : 1000000000 < released) (hts : ts ≤ released)
    (hkeep : fsconfig.keeptime ≤ fsconfig.releasekeeptime) :
    PromiseKept fsconfig ts { e with released := released }.persisted := by
  have hdays : DAYS = 86400 := rfl
  rw [PromiseKept, persisted_released_of_pos (by dsimp only; omega), if_pos hreleased, hdays]
  dsimp only
  omega

/-- So does the expirer when the name is at most a second ahead of the time that is written. -/
theorem promiseKept_of_expire {fsconfig : FilesystemConfig} {e : DBEntry} {expired ts : ℤ}
    (hreleased : e.released ≤ 0) (hexpired : 0 < expired) (hts : ts ≤ expired + 1) :
    PromiseKept fsconfig ts { e with expired := expired }.persisted := by
  have hzero : ({ e with expired := expired } : DBEntry).persisted.released = 0 := by
    rw [DBEntry.persisted]
    exact if_neg (by dsimp only; omega)
  rw [PromiseKept, hzero, persisted_expired_of_pos hexpired, if_neg (by omega)]
  dsimp only
  rw [if_pos (by omega : expired ≠ 0)]
  omega

section

variable {w w' : World} {k : DbLoc} {e : DBEntry} {conf : Str → FilesystemConfig}

/-- **The entry that a step makes or changes.** -/
theorem notBefore_of_step {act : EntryAct}
    (hold : ∀ k e, k.area = .deleted → w.db.lookup k = some (.entry e) →
      NotBefore (conf k.fs) k.id e)
    (hok : PromisedStep conf w act) (h : NewEntry w act k e) : NotBefore (conf k.fs) k.id e := by
  -- the name carries the time that was put into it
  have hnamed : ∀ {fsconfig : FilesystemConfig} {id : Str} {e : DBEntry} {ts : ℤ},
      fileTime id = some ts → PromiseKept fsconfig ts e → NotBefore fsconfig id e := by
    intro fsconfig id e ts hname hkept
    refine notBefore_iff.mpr fun ts' hname' => ?_
    obtain rfl := Option.some.inj (hname.symm.trans hname')
    exact hkept
  cases h with
  | @released fs id released timestamp e hread =>
    obtain ⟨hts, hlt, hkept⟩ := hok e hread
    have hrange := releaseTimestamp_range w fs id timestamp
    exact hnamed (fileTime_deletedName (by omega) (by omega)) hkept
  | @expired fs id now timestamp expired ts outcome e hread hover hts hfree =>
    obtain ⟨hlt, hkept⟩ := hok e ts hread hfree
    have hle := (Expirer.freeTimestamp_eq_some hfree).1
    exact hnamed (fileTime_deletedName (by omega) hlt) hkept
  | @edited fsconfig a o reserved k e hread hk hexpired hedits =>
    have hlook : w.db.lookup k = some (.entry e) := (World.readEntry_eq_some.mp hread).2
    have hspec := editEntry_spec fsconfig a o reserved k e w
    by_cases hreleased : e.released > 1000000000
    · -- neither the name nor the release time changes
      dsimp only
      rw [id_of_released hreleased hspec]
      refine notBefore_iff.mpr fun ts hname => ?_
      have hkept := notBefore_iff.mp (hold k e hk hlook) ts hname
      have hsame : (a.edited k.id e).persisted.released = e.released :=
        persisted_released_of_pos (by dsimp only [EditArgs.edited]; omega)
      rw [PromiseKept, if_pos hreleased] at hkept
      rw [PromiseKept, hsame, if_pos hreleased]
      exact hkept
    · obtain ⟨base, ts, hname, hrange, hmoved, hstays⟩ := hok e hread hk hedits (by omega)
      obtain ⟨hfile, -, -⟩ := fileTime_of_splitExpiredId hname
      dsimp only
      rcases id_after_edit hk hlook (by omega) hname hrange hspec with
        ⟨i, hrenamed, hid⟩ | ⟨hno, hid⟩
      · have hpos := hrenamed.search.positive
        have hlt := hrenamed.lt
        rw [hid]
        exact hnamed (fileTime_deletedName (by omega) (by omega)) (hmoved i hrenamed)
      · rw [hid]
        exact hnamed hfile (hstays hno)

end

/-! ## The result -/

/-- Every deleted entry is kept until the date that is printed for it. -/
def AllPromised (conf : Str → FilesystemConfig) (w : World) : Prop :=
  ∀ k e, k.area = .deleted → w.db.lookup k = some (.entry e) → NotBefore (conf k.fs) k.id e

/-- **The date that `ws_restore -l` prints.** An entry is kept until it exactly when the promise for
the time in its name is kept, and a run of steps that keep the promise leaves only such entries. -/
theorem notBefore_iff_and_run (conf : Str → FilesystemConfig) (acts : List EntryAct)
    (w w' : World) :
    (∀ fsconfig id e, NotBefore fsconfig id e ↔
        ∀ ts, fileTime id = some ts → PromiseKept fsconfig ts e) ∧
      (AllPromised conf w → Runs.Meets entryStep (PromisedStep conf) w acts →
        Runs.exec entryStep w acts = some w' → AllPromised conf w') := by
  refine ⟨fun _ _ _ => notBefore_iff, ?_⟩
  intro hw hmeets hrun
  refine hmeets.invariant ?_ hw hrun
  intro w act w' hpromised hok hstep k e hk hlook
  rcases entry_of_step hstep hk hlook with hold | hnew
  · exact hpromised k e hk hold
  · exact notBefore_of_step hpromised hok hnew

/-! ## Released workspaces that are kept for a day -/

/-- Released workspaces are kept for a day, expired ones for ten. -/
def shortRelease : FilesystemConfig := { FilesystemConfig.ofSpaces ['s'] [] with releasekeeptime := 1 }

/-- A workspace is released at the time `t`. -/
def releaseIt (t : ℤ) : EntryAct := .release ['f'] ['u', '-', 'a'] t t

theorem overWorld_allPromised (conf : Str → FilesystemConfig) : AllPromised conf overWorld := by
  intro k e hk hlook
  rw [overWorld_live hk] at hlook
  cases hlook

/-- A workspace that is expired is kept until its date, and one that is released where released
workspaces are kept as long. -/
theorem allPromised_retired :
    (∃ w', Runs.exec entryStep overWorld [expireIt] = some w' ∧
      AllPromised (fun _ => shortRelease) w') ∧
    ∃ w', Runs.exec entryStep overWorld [releaseIt 1699900000] = some w' ∧
      AllPromised (fun _ => .ofSpaces ['s'] []) w' := by
  constructor
  · refine ⟨_, rfl, (notBefore_iff_and_run (fun _ => shortRelease) [expireIt] overWorld _).2
      (overWorld_allPromised _) ?_ rfl⟩
    refine Runs.Meets.cons ?_ rfl trivial
    intro e ts hread hfree
    obtain rfl := Option.some.inj ((by decide : _ = some overEntry).symm.trans hread)
    obtain rfl := Option.some.inj ((by decide : _ = some (1700000000 : ℤ)).symm.trans hfree)
    exact ⟨by decide, promiseKept_of_expire (by decide) (by decide) (by decide)⟩
  · refine ⟨_, rfl, (notBefore_iff_and_run (fun _ => .ofSpaces ['s'] []) [releaseIt 1699900000]
      overWorld _).2 (overWorld_allPromised _) ?_ rfl⟩
    refine Runs.Meets.cons ?_ rfl trivial
    intro e hread
    exact ⟨by decide, by decide, promiseKept_of_release (by decide) (by decide) (by decide)⟩

/-- One that was released is deleted after a day, when `ws_restore -l` still promises nine. -/
theorem not_allPromised : ∃ w', Runs.exec entryStep overWorld [releaseIt 1699900000] = some w' ∧
    ¬AllPromised (fun _ => shortRelease) w' := by
  refine ⟨_, rfl, ?_⟩
  intro h
  have hkept := h ⟨['f'], .deleted, deletedName ['u', '-', 'a'] 1699900000⟩
    { overEntry with released := 1699900000 } rfl (by decide) 1699986400 (by decide)
  exact hkept (by decide)

end HpcWorkspace
