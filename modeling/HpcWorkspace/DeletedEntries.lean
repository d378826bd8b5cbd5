import HpcWorkspace.EditBoundary
import HpcWorkspace.EditPlan
import HpcWorkspace.Lib.Runs

/-!
# How deleted entries come about

An entry of the deleted area was released by its user or expired by the expirer, and may have been
edited since. Here these are the steps of a system over the shared state, in any order and with any
readings of the clock; what else happens to the directories is a step of its own.
-/

namespace HpcWorkspace

/-! ## The steps -/

/-- What makes or changes a deleted entry. -/
inductive EntryAct where
  /-- `ws_release` of the live entry `id`: `released` is the time that is written, `timestamp` the
  one that was read for the name -/
  | release (fs id : Str) (released timestamp : ℤ)
  /-- `expire_workspaces` on the live entry `id`: `now` is compared with the expiration, `timestamp`
  is the first time for the name, `expired` the time that is written -/
  | expire (fs id : Str) (now timestamp expired : ℤ) (outcome : Outcome)
  /-- `ws_editdb --not-kidding` on an entry -/
  | edit (fsconfig : FilesystemConfig) (a : EditArgs) (o : RenameOutcome) (reserved : List Str)
      (k : DbLoc)
  /-- directories are moved, made or removed -/
  | dirs (dirs : DirTree DirLoc Dir)

/-- A step. -/
def entryStep (w : World) : EntryAct → Option World
  | .release fs id released timestamp =>
    (w.readEntry fs .live id).map fun e =>
      DBEntry.release w fs id e released (releaseTimestamp w fs id timestamp)
  | .expire fs id now timestamp expired outcome =>
    match w.readEntry fs .live id with
    | none => none
    | some e =>
      if e.expiration ≤ 0 ∨ now ≤ e.expiration then none
      else some (w.expire fs id e timestamp expired outcome).2
  | .edit fsconfig a o reserved k =>
    match w.readEntry k.fs k.area k.id with
    | none => none
    | some e =>
      -- `-e` selects the deleted area
      if a.expired = (k.area == .deleted) then
        some (editEntry fsconfig a false o reserved k e w).1
      else none
  | .dirs dirs => some { w with dirs := dirs }

/-! ## The name after an edit -/

section

variable {fsconfig : FilesystemConfig} {a : EditArgs} {o : RenameOutcome} {reserved : List Str}
  {k : DbLoc} {e : DBEntry} {w : World} {base : Str} {ts : ℤ} {i : ℕ}

/-- An edit renames the entry to the `i`-th of the names from the new boundary on: the names before
it are passed, it is free, and the system calls succeed, or leave the entry under its new name when
they can not be taken back. -/
structure RenamedTo (a : EditArgs) (o : RenameOutcome) (reserved : List Str) (k : DbLoc)
    (e : DBEntry) (w : World) (base : Str) (i : ℕ) : Prop where
  /-- a name is searched -/
  search : SearchesName a k e
  /-- among 1000 ones -/
  lt : i < 1000
  /-- those before it are reserved or in use -/
  passed : ∀ j : ℕ, j < i →
    w.Passed k e reserved (deletedName base (a.new_boundary k.id e + j))
  /-- it is not -/
  free : w.Free k e reserved (deletedName base (a.new_boundary k.id e + i))
  /-- existence can be checked -/
  checks : o.search = true ∧ o.checks = true
  /-- the entry is renamed -/
  db : o.db = true
  /-- the directory too, or there is none, or the entry is not renamed back -/
  dir : w.dirs.find (World.deletedDir e k.id) = none ∨ o.dir = true ∨ o.rollback = false

theorem passed_write {name : Str} (hlook : w.db.lookup k = some (.entry e)) :
    (a.write k e w).Passed k e reserved name ↔ w.Passed k e reserved name := by
  rw [World.Passed, World.Passed, EditArgs.nameTaken_write (by rw [hlook]; rfl)]

theorem free_write {name : Str} (hlook : w.db.lookup k = some (.entry e)) :
    (a.write k e w).Free k e reserved name ↔ w.Free k e reserved name := by
  rw [World.Free, World.Free, EditArgs.nameTaken_write (by rw [hlook]; rfl)]

/-- What the search finds when the rename is one to the `i`-th name. -/
theorem RenamedTo.found (h : RenamedTo a o reserved k e w base i)
    (hlook : w.db.lookup k = some (.entry e)) (hname : splitExpiredId k.id = some (base, ts)) :
    (a.write k e w).expiredIdFor o.search k e (a.new_boundary k.id e) reserved =
      some (deletedName base (a.new_boundary k.id e + i)) := by
  rw [h.checks.1, expiredIdFor_eq h.search hname]
  refine (World.expiredName_new_iff.mpr ⟨i, h.lt, ?_, ?_, rfl⟩).1
  · exact fun j hj => (passed_write hlook).mpr (h.passed j hj)
  · exact (free_write hlook).mpr h.free

/-- **The name after an edit**: the `i`-th one when the entry is renamed to that, else the old
one. -/
theorem id_after_edit (hk : k.area = .deleted) (hlook : w.db.lookup k = some (.entry e))
    (hreleased : e.released ≤ 1000000000) (hname : splitExpiredId k.id = some (base, ts))
    (hrange : a.new_boundary k.id e + 1000 ≤ 2 ^ 63)
    {r : World × List Str × EditReport} (hr : EditSpec fsconfig a o reserved k e w r) :
    (∃ i : ℕ, RenamedTo a o reserved k e w base i ∧
        r.2.2.id = deletedName base (a.new_boundary k.id e + i)) ∨
      ((∀ i, ¬RenamedTo a o reserved k e w base i) ∧ r.2.2.id = k.id) := by
  cases hr with
  | silent h =>
    refine Or.inr ⟨fun i hi => ?_, rfl⟩
    obtain ⟨⟨hexpired, hedits⟩, hreleased, -, -⟩ := hi.search
    rcases h with h | h | h | h
    · rw [hexpired] at h
      cases h
    · rw [hedits] at h
      cases h
    · omega
    · rw [EditArgs.name_time, if_pos hexpired, timestampFromId_eq, hname] at h
      cases h
  | kept hexpired hedits h =>
    refine Or.inr ⟨fun i hi => ?_, rfl⟩
    have hfound := hi.found hlook hname
    rcases h with hsame | hnone | hown
    · exact hi.search.changed hsame
    · rw [hnone] at hfound
      cases hfound
    · rw [hown] at hfound
      exact hi.free.1 (Option.some.inj hfound).symm
  | @found new_id id w' renamed hexpired hedits hchanged hfound hne hrename =>
    have hid := renameAsExpired_id hreleased hname hrange hfound hne
    have hwhere := (World.lookup_renameAsExpired hrename (EditArgs.lookup_write hedits) hk).2
    rw [hrename] at hid
    dsimp only at hid ⊢
    by_cases heq : id = k.id
    · refine Or.inr ⟨fun i hi => ?_, heq⟩
      exact hid.mpr ⟨hi.checks.2, hi.db, hi.dir⟩ heq
    · obtain ⟨hchecks, hdb, hdir⟩ := hid.mp heq
      have hsearch : o.search = true := by
        obtain ⟨-, i, -, -, hfree⟩ := World.expiredIdFor_eq_some hname hfound
        exact (hfree.resolve_left hne).1
      have hneeds := searchesName_of_found hexpired hedits hreleased hchanged hfound
      rw [hsearch, expiredIdFor_eq hneeds hname] at hfound
      obtain ⟨i, hi, hpassed, hfree, hnew⟩ := World.expiredName_new_iff.mp ⟨hfound, hne⟩
      refine Or.inl ⟨i, ⟨hneeds, hi, fun j hj => ?_, ?_, ⟨hsearch, hchecks⟩, hdb, hdir⟩, ?_⟩
      · exact (passed_write hlook).mp (hpassed j hj)
      · exact (free_write hlook).mp hfree
      · rw [← hnew]
        exact hwhere.resolve_left heq

end

/-! ## What a step leaves in the deleted area -/

/-- The entry that a step puts into the deleted area, or leaves changed there. -/
inductive NewEntry (w : World) : EntryAct → DbLoc → DBEntry → Prop where
  /-- a released one -/
  | released {fs id : Str} {released timestamp : ℤ} {e : DBEntry}
      (hread : w.readEntry fs .live id = some e) :
    NewEntry w (.release fs id released timestamp)
      ⟨fs, .deleted, deletedName id (releaseTimestamp w fs id timestamp)⟩
      { e with released := released }.persisted
  /-- an expired one -/
  | expired {fs id : Str} {now timestamp expired ts : ℤ} {outcome : Outcome} {e : DBEntry}
      (hread : w.readEntry fs .live id = some e) (hover : 0 < e.expiration ∧ e.expiration < now)
      (hts : 0 ≤ timestamp) (hfree : w.freeTimestamp fs id e timestamp 1000 = some ts) :
    NewEntry w (.expire fs id now timestamp expired outcome) ⟨fs, .deleted, deletedName id ts⟩
      { e with expired := expired }.persisted
  /-- an edited one -/
  | edited {fsconfig : FilesystemConfig} {a : EditArgs} {o : RenameOutcome} {reserved : List Str}
      {k : DbLoc} {e : DBEntry} (hread : w.readEntry k.fs k.area k.id = some e)
      (hk : k.area = .deleted)
      (hexpired : a.expired = true) (hedits : a.edits k.id e = true) :
    NewEntry w (.edit fsconfig a o reserved k)
      ⟨k.fs, .deleted, (editEntry fsconfig a false o reserved k e w).2.2.id⟩
      (a.edited k.id e).persisted

section

variable {w w' : World} {k' : DbLoc} {e' : DBEntry}

/-- An entry that is written into the live area and moved to the deleted one. -/
theorem entry_of_retire {fs id name : Str} {e : DBEntry} (hk' : k'.area = .deleted)
    (h : ((w.writeEntry ⟨fs, .live, id⟩ e).renameEntry ⟨fs, .live, id⟩
      ⟨fs, .deleted, name⟩).db.lookup k' = some (.entry e')) :
    w.db.lookup k' = some (.entry e') ∨ k' = ⟨fs, .deleted, name⟩ ∧ e' = e.persisted := by
  by_cases hto : k' = ⟨fs, .deleted, name⟩
  · subst hto
    rw [World.lookup_renameEntry_to (World.lookup_writeEntry ..)] at h
    exact Or.inr ⟨rfl, (DbFile.entry.inj (Option.some.inj h)).symm⟩
  · have hfrom : k' ≠ ⟨fs, .live, id⟩ := by
      rintro rfl
      cases hk'
    rw [World.lookup_renameEntry_ne hfrom hto, World.lookup_writeEntry_ne _ hfrom] at h
    exact Or.inl h

/-- The same for an edit: other entries stay. -/
theorem entry_of_edit {fsconfig : FilesystemConfig} {a : EditArgs} {o : RenameOutcome}
    {reserved : List Str} {k : DbLoc} {e : DBEntry} (hk : k.area = .deleted)
    (h : (editEntry fsconfig a false o reserved k e w).1.db.lookup k' = some (.entry e')) :
    w.db.lookup k' = some (.entry e') ∨ a.edits k.id e = true ∧
      k' = ⟨k.fs, .deleted, (editEntry fsconfig a false o reserved k e w).2.2.id⟩ ∧
      e' = (a.edited k.id e).persisted := by
  have hself : (⟨k.fs, .deleted, k.id⟩ : DbLoc) = k := by rw [← hk]
  have hwrite : ∀ f, (a.write k e w).db.lookup k' = some f →
      w.db.lookup k' = some f ∨ a.edits k.id e = true ∧ k' = k ∧
        f = .entry (a.edited k.id e).persisted := by
    intro f hf
    by_cases hk' : k' = k
    · cases hedits : a.edits k.id e with
      | true =>
        rw [hk', EditArgs.lookup_write hedits] at hf
        exact Or.inr ⟨rfl, hk', (Option.some.inj hf).symm⟩
      | false =>
        rw [EditArgs.write_of_not_edits hedits] at hf
        exact Or.inl hf
    · rw [EditArgs.lookup_write_ne hk'] at hf
      exact Or.inl hf
  have hstays : (a.write k e w).db.lookup k' = some (.entry e') →
      w.db.lookup k' = some (.entry e') ∨ a.edits k.id e = true ∧
        k' = ⟨k.fs, .deleted, k.id⟩ ∧ e' = (a.edited k.id e).persisted := by
    intro hf
    rcases hwrite _ hf with hold | ⟨hedits, hk', heq⟩
    · exact Or.inl hold
    · exact Or.inr ⟨hedits, hself.symm ▸ hk', DbFile.entry.inj heq⟩
  have hspec := editEntry_spec fsconfig a o reserved k e w
  revert h
  generalize editEntry fsconfig a false o reserved k e w = r at hspec
  intro h
  cases hspec with
  | silent _ => exact hstays h
  | kept _ hedits _ => exact hstays h
  | @found new_id id w' renamed _ hedits _ _ _ hrename =>
    obtain ⟨hnew, -⟩ := World.lookup_renameAsExpired hrename (EditArgs.lookup_write hedits) hk
    by_cases hid : k' = ⟨k.fs, .deleted, id⟩
    · dsimp only at h ⊢
      rw [hid, hnew] at h
      exact Or.inr ⟨hedits, hid, (DbFile.entry.inj (Option.some.inj h)).symm⟩
    · obtain ⟨hne, hold⟩ := World.of_lookup_renameAsExpired hrename hk hid h
      rw [EditArgs.lookup_write_ne hne] at hold
      exact Or.inl hold

/-- The edit of a live entry renames nothing. -/
theorem editEntry_live {fsconfig : FilesystemConfig} {a : EditArgs} {o : RenameOutcome}
    {reserved : List Str} {k : DbLoc} {e : DBEntry} (h : a.expired = false) :
    (editEntry fsconfig a false o reserved k e w).1 = a.write k e w := by
  have hspec := editEntry_spec fsconfig a o reserved k e w
  generalize editEntry fsconfig a false o reserved k e w = r at hspec ⊢
  cases hspec with
  | silent _ => rfl
  | kept hexpired _ _ => exact absurd (h.symm.trans hexpired) Bool.false_ne_true
  | found hexpired _ _ _ _ _ => exact absurd (h.symm.trans hexpired) Bool.false_ne_true

/-- **Inversion**: a deleted entry after a step was there before, or it is the one of the step. -/
theorem entry_of_step {act : EntryAct} (h : entryStep w act = some w')
    (hk' : k'.area = .deleted) (hlook : w'.db.lookup k' = some (.entry e')) :
    w.db.lookup k' = some (.entry e') ∨ NewEntry w act k' e' := by
  cases act with
  | release fs id released timestamp =>
    obtain ⟨e, hread, rfl⟩ := Option.map_eq_some_iff.mp h
    rcases entry_of_retire hk' hlook with hold | ⟨rfl, rfl⟩
    · exact Or.inl hold
    · exact Or.inr (.released hread)
  | expire fs id now timestamp expired outcome =>
    dsimp only [entryStep] at h
    split at h
    · cases h
    · rename_i e hread
      split at h
      · cases h
      · rename_i hover
        obtain rfl := Option.some.inj h
        have hlive : k' ≠ ⟨fs, .live, id⟩ := by
          rintro rfl
          cases hk'
        rw [World.expire] at hlook
        split at hlook
        · exact Or.inl hlook
        · rename_i hts
          split at hlook
          · exact Or.inl hlook
          · rename_i ts hfree
            dsimp only at hlook
            split at hlook
            · rcases entry_of_retire hk' hlook with hold | ⟨rfl, rfl⟩
              · exact Or.inl hold
              · exact Or.inr (.expired hread (by omega) (by omega) hfree)
            · rw [World.lookup_writeEntry_ne _ hlive] at hlook
              exact Or.inl hlook
  | edit fsconfig a o reserved k =>
    dsimp only [entryStep] at h
    split at h
    · cases h
    · rename_i e hread
      split at h
      · rename_i hexpired
        obtain rfl := Option.some.inj h
        by_cases hk : k.area = .deleted
        · rw [hk, beq_self_eq_true] at hexpired
          rcases entry_of_edit hk hlook with hold | ⟨hedits, rfl, rfl⟩
          · exact Or.inl hold
          · exact Or.inr (.edited hread hk hexpired hedits)
        · -- a live entry is written in its place
          rw [beq_false_of_ne hk] at hexpired
          have hne : k' ≠ k := by
            rintro rfl
            exact hk hk'
          rw [editEntry_live hexpired, EditArgs.lookup_write_ne hne] at hlook
          exact Or.inl hlook
      · cases h
  | dirs dirs =>
    obtain rfl := Option.some.inj h
    exact Or.inl hlook

end

end HpcWorkspace
