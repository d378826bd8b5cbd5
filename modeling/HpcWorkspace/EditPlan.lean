import HpcWorkspace.EditDb

/-!
# The plan of a `ws_editdb` dry-run

A dry-run searches the names of all entries in the state it starts in, and keeps in mind which
names it has planned. A real run searches in the state that the renames before it have left: the
names that were given are taken in both, but a name that was given up is free again in the real run
only. So the two agree as long as no entry comes to a name that was given up before.
-/

namespace HpcWorkspace

/-! ## Runs over the entries -/

/-- An entry of `entrylist`. -/
structure EditItem where
  /-- the configuration of its filesystem -/
  fsconfig : FilesystemConfig
  /-- its file -/
  loc : DbLoc
  /-- what was read from it -/
  entry : DBEntry

/-- The rename of an entry that a dry-run prints, or that a real run performs. -/
def EditReport.renames (r : EditReport) (dryrun : Bool) (k : DbLoc) : List (DbLoc × Str) :=
  match r.rename with
  | some (_, new_id) => if dryrun || r.renamed then [(k, new_id)] else []
  | none => []

/-- The loop over the entries, when no system call fails: the state after it, and the renames. -/
def editEntries (a : EditArgs) (dryrun : Bool) :
    List EditItem → List Str → World → World × List (DbLoc × Str)
  | [], _, w => (w, [])
  | x :: items, reserved, w =>
    let (w, reserved, report) :=
      editEntry x.fsconfig a dryrun .ok reserved x.loc x.entry w
    let (w, renames) := editEntries a dryrun items reserved w
    (w, report.renames dryrun x.loc ++ renames)

/-- The entries were read from deleted entry files, each from its own, and the times that the edit
can put into their names are of type `time_t`. -/
structure Listed (a : EditArgs) (w : World) (items : List EditItem) : Prop where
  /-- each has its own file -/
  nodup : (items.map EditItem.loc).Nodup
  /-- in a deleted area -/
  deleted : ∀ x ∈ items, x.loc.area = .deleted
  /-- from which it was read -/
  read : ∀ x ∈ items, w.db.lookup x.loc = some (.entry x.entry)
  /-- its new times are of type `time_t` -/
  range : ∀ x ∈ items, a.new_boundary x.loc.id x.entry + 1000 ≤ 2 ^ 63

/-- The dry-run prints the renames that the real run performs. -/
def PlanExact (a : EditArgs) (items : List EditItem) (w : World) : Prop :=
  (editEntries a true items [] w).2 = (editEntries a false items [] w).2

/-- Does the edit of an entry search for a name? The boundary has changed to a plausible time. -/
structure SearchesName (a : EditArgs) (k : DbLoc) (e : DBEntry) : Prop where
  /-- it is an edit of a deleted entry -/
  edits : a.expired = true ∧ a.edits k.id e = true
  /-- that was not released -/
  released : e.released ≤ 1000000000
  /-- the boundary changes -/
  changed : a.new_boundary k.id e ≠ a.old_boundary k.id e
  /-- to a plausible time -/
  positive : 0 < a.new_boundary k.id e

namespace World

/-- A name at which the search goes on. -/
def Passed (w : World) (k : DbLoc) (e : DBEntry) (reserved : List Str) (name : Str) : Prop :=
  name ≠ k.id ∧ (name ∈ reserved ∨ w.nameTaken k.fs e name = true)

/-- A name at which the search ends, other than the own one. -/
def Free (w : World) (k : DbLoc) (e : DBEntry) (reserved : List Str) (name : Str) : Prop :=
  name ≠ k.id ∧ name ∉ reserved ∧ w.nameTaken k.fs e name = false

end World

instance (a : EditArgs) (k : DbLoc) (e : DBEntry) : Decidable (SearchesName a k e) :=
  decidable_of_iff ((a.expired = true ∧ a.edits k.id e = true) ∧ e.released ≤ 1000000000 ∧
      a.new_boundary k.id e ≠ a.old_boundary k.id e ∧ 0 < a.new_boundary k.id e)
    ⟨fun h => ⟨h.1, h.2.1, h.2.2.1, h.2.2.2⟩,
      fun h => ⟨h.edits, h.released, h.changed, h.positive⟩⟩

/-- Going through the names from the new boundary on, an entry comes to one that is free now, but
was in use when the run started. -/
def MeetsLeftName (a : EditArgs) (start : World) (reserved : List Str) (w : World) (x : EditItem) :
    Prop :=
  SearchesName a x.loc x.entry ∧ ∃ base ts, splitExpiredId x.loc.id = some (base, ts) ∧
    ∃ i : ℕ, i < 1000 ∧
      let name (j : ℕ) : Str := deletedName base (a.new_boundary x.loc.id x.entry + j)
      (∀ j : ℕ, j < i → w.Passed x.loc x.entry reserved (name j)) ∧
        w.Free x.loc x.entry reserved (name i) ∧
        start.nameTaken x.loc.fs x.entry (name i) = true

/-- No entry comes to a name that an earlier entry of the real run has given up. -/
def NoLeftName (a : EditArgs) (start : World) : List EditItem → List Str → World → Prop
  | [], _, _ => True
  | x :: items, reserved, w =>
    let (w', reserved', _) := editEntry x.fsconfig a false .ok reserved x.loc x.entry w
    ¬MeetsLeftName a start reserved w x ∧ NoLeftName a start items reserved' w'

/-! ## The name that is planned -/

namespace World

variable {w start : World} {k : DbLoc} {e : DBEntry} {reserved : List Str} {base new_id : Str}
  {ts : ℤ} {tries : ℕ}

theorem expiredName_of_passed (h : w.Passed k e reserved (deletedName base ts)) :
    w.expiredName true k e reserved base ts (tries + 1) =
      w.expiredName true k e reserved base (ts + 1) tries := by
  obtain ⟨hown, htaken⟩ := h
  rw [expiredName, if_neg hown]
  split
  · rfl
  · rename_i hreserved
    rw [htaken.resolve_left hreserved]
    simp

theorem expiredName_of_free (h : w.Free k e reserved (deletedName base ts)) :
    w.expiredName true k e reserved base ts (tries + 1) = some (deletedName base ts) := by
  obtain ⟨hown, hreserved, hfree⟩ := h
  rw [expiredName, if_neg hown, if_neg hreserved, hfree]
  simp

/-- The search gives another name than the own one exactly when that is free and those before it
are passed. -/
theorem expiredName_new_iff :
    (w.expiredName true k e reserved base ts tries = some new_id ∧ new_id ≠ k.id) ↔
      ∃ i : ℕ, i < tries ∧ (∀ j : ℕ, j < i → w.Passed k e reserved (deletedName base (ts + j))) ∧
        w.Free k e reserved (deletedName base (ts + i)) ∧ new_id = deletedName base (ts + i) := by
  induction tries generalizing ts with
  | zero =>
    refine ⟨fun h => ?_, fun ⟨i, hi, _⟩ => absurd hi (Nat.not_lt_zero i)⟩
    cases h.1
  | succ tries ih =>
    have hfirst : ts + ((0 : ℕ) : ℤ) = ts := by simp
    have hnext : ∀ j : ℕ, ts + ((j + 1 : ℕ) : ℤ) = ts + 1 + j := fun j => by omega
    by_cases hown : deletedName base ts = k.id
    · rw [expiredName, if_pos hown]
      constructor
      · rintro ⟨hsome, hne⟩
        exact absurd (Option.some.inj hsome).symm hne
      · rintro ⟨i, hi, hpassed, hfree, -⟩
        cases i with
        | zero => exact absurd (hfirst.symm ▸ hown) hfree.1
        | succ i => exact absurd (hfirst.symm ▸ hown) (hpassed 0 (Nat.succ_pos i)).1
    · by_cases hpass : w.Passed k e reserved (deletedName base ts)
      · rw [expiredName_of_passed hpass, ih]
        constructor
        · rintro ⟨i, hi, hpassed, hfree, hnew⟩
          refine ⟨i + 1, by omega, ?_, by rwa [hnext], by rwa [hnext]⟩
          intro j hj
          cases j with
          | zero => rwa [hfirst]
          | succ j =>
            rw [hnext]
            exact hpassed j (by omega)
        · rintro ⟨i, hi, hpassed, hfree, hnew⟩
          cases i with
          | zero =>
            rw [hfirst] at hfree
            rcases hpass.2 with hmem | htaken
            · exact absurd hmem hfree.2.1
            · rw [hfree.2.2] at htaken
              cases htaken
          | succ i =>
            rw [hnext] at hfree hnew
            exact ⟨i, by omega, fun j hj => hnext j ▸ hpassed (j + 1) (by omega), hfree, hnew⟩
      · have hfree : w.Free k e reserved (deletedName base ts) := by
          rw [Passed, not_and, not_or, Bool.not_eq_true] at hpass
          exact ⟨hown, hpass hown⟩
        rw [expiredName_of_free hfree]
        constructor
        · rintro ⟨hsome, hne⟩
          exact ⟨0, by omega, fun j hj => absurd hj (Nat.not_lt_zero j), by rwa [hfirst],
            by rw [hfirst]; exact (Option.some.inj hsome).symm⟩
        · rintro ⟨i, hi, hpassed, -, hnew⟩
          cases i with
          | zero =>
            rw [hfirst] at hnew
            exact ⟨by rw [hnew], by rw [hnew]; exact hown⟩
          | succ i => exact absurd (hfirst ▸ hpassed 0 (Nat.succ_pos i)) hpass

/-- A search in a state in which less is taken finds the same, or a name that was taken. -/
theorem expiredName_cases
    (h : ∀ name, w.nameTaken k.fs e name = true →
      start.nameTaken k.fs e name = true ∨ name ∈ reserved) :
    w.expiredName true k e reserved base ts tries =
        start.expiredName true k e reserved base ts tries ∨
      ∃ name, w.expiredName true k e reserved base ts tries = some name ∧ name ≠ k.id ∧
        start.nameTaken k.fs e name = true := by
  induction tries generalizing ts with
  | zero => exact Or.inl rfl
  | succ tries ih =>
    rw [expiredName, expiredName]
    simp only [Bool.not_true, Bool.false_eq_true, if_false]
    split
    · exact Or.inl rfl
    · rename_i hown
      split
      · exact ih
      · rename_i hreserved
        cases htaken : w.nameTaken k.fs e (deletedName base ts) with
        | true =>
          have hstart := (h _ htaken).resolve_right hreserved
          rw [hstart]
          simpa using ih
        | false =>
          cases hstart : start.nameTaken k.fs e (deletedName base ts) with
          | true => exact Or.inr ⟨_, by simp, hown, hstart⟩
          | false => exact Or.inl (by simp)

end World

/-! ## The edit of an entry, planned and performed -/

section

variable {fsconfig : FilesystemConfig} {a : EditArgs} {o : RenameOutcome} {reserved : List Str}
  {k : DbLoc} {e : DBEntry} {w w' : World} {base : Str} {ts : ℤ}

/-- The new name that is planned for an entry. -/
def planned (a : EditArgs) (w : World) (reserved : List Str) (k : DbLoc) (e : DBEntry) :
    Option Str :=
  if SearchesName a k e then
    (w.expiredIdFor true k e (a.new_boundary k.id e) reserved).filter fun new_id => new_id ≠ k.id
  else none

theorem planned_eq_some {new_id : Str} : planned a w reserved k e = some new_id ↔
    SearchesName a k e ∧
      w.expiredIdFor true k e (a.new_boundary k.id e) reserved = some new_id ∧ new_id ≠ k.id := by
  rw [planned]
  split
  · rename_i h
    rw [Option.filter_eq_some_iff, decide_eq_true_iff]
    exact (and_iff_right h).symm
  · rename_i h
    exact ⟨nofun, fun hs => absurd hs.1 h⟩

theorem planned_eq_none (h : ∀ new_id, SearchesName a k e →
    w.expiredIdFor true k e (a.new_boundary k.id e) reserved = some new_id → new_id = k.id) :
    planned a w reserved k e = none := by
  rw [Option.eq_none_iff_forall_ne_some]
  intro new_id hsome
  obtain ⟨hsearch, hfound, hne⟩ := planned_eq_some.mp hsome
  exact hne (h new_id hsearch hfound)

/-- A search that finds something was for a plausible time. -/
theorem searchesName_of_found {new_id : Str} {search : Bool} (hexpired : a.expired = true)
    (hedits : a.edits k.id e = true) (hreleased : e.released ≤ 1000000000)
    (hchanged : a.new_boundary k.id e ≠ a.old_boundary k.id e)
    (hfound : w.expiredIdFor search k e (a.new_boundary k.id e) reserved = some new_id) :
    SearchesName a k e := by
  refine ⟨⟨hexpired, hedits⟩, hreleased, hchanged, ?_⟩
  rw [World.expiredIdFor] at hfound
  split at hfound
  · cases hfound
  · split at hfound
    · cases hfound
    · omega

/-- The name of an entry without a time is not searched for. -/
theorem expiredIdFor_of_unnamed {search : Bool} {boundary : ℤ} (hexpired : a.expired = true)
    (h : a.name_time k.id = none) : w.expiredIdFor search k e boundary reserved = none := by
  rw [EditArgs.name_time, if_pos hexpired, timestampFromId_eq, Option.map_eq_none_iff] at h
  rw [World.expiredIdFor, h]

/-- **The edit of an entry** when no system call fails: it goes without a rename, or the name that
is planned is printed, and in a real run the entry is renamed to it. -/
theorem editEntry_cases (fsconfig : FilesystemConfig) (a : EditArgs) (dryrun : Bool)
    (reserved : List Str) (k : DbLoc) (e : DBEntry) (w : World) :
    let written := if dryrun then w else a.write k e w
    (planned a written reserved k e = none ∧ ∃ restorable_until,
      editEntry fsconfig a dryrun .ok reserved k e w =
        (written, reserved, ⟨restorable_until, none, k.id, false⟩)) ∨
    ∃ new_id restorable_until, planned a written reserved k e = some new_id ∧
      editEntry fsconfig a dryrun .ok reserved k e w =
        if dryrun then
          (written, new_id :: reserved, ⟨restorable_until, some (k.id, new_id), k.id, false⟩)
        else
          let (w, id, renamed) := written.renameAsExpired .ok k e new_id
          (w, new_id :: reserved, ⟨restorable_until, some (k.id, new_id), id, renamed⟩) := by
  intro written
  have hsearch : RenameOutcome.ok.search = true := rfl
  rw [editEntry, hsearch]
  dsimp only
  split
  · rename_i hboth
    obtain ⟨hexpired, hedits⟩ := Bool.and_eq_true_iff.mp hboth
    split
    · rename_i hreleased
      exact Or.inl ⟨planned_eq_none fun _ h _ => absurd h.released (by omega), _, rfl⟩
    · rename_i hreleased
      split
      · rename_i hname
        refine Or.inl ⟨planned_eq_none fun _ _ hfound => ?_, _, rfl⟩
        rw [expiredIdFor_of_unnamed hexpired hname] at hfound
        cases hfound
      · split
        · rename_i hsame
          exact Or.inl ⟨planned_eq_none fun _ h _ => absurd hsame h.changed, _, rfl⟩
        · rename_i hchanged
          split
          · rename_i hnone
            refine Or.inl ⟨planned_eq_none fun _ _ hfound => ?_, _, rfl⟩
            rw [hnone] at hfound
            cases hfound
          · rename_i new_id hfound
            split
            · rename_i hown
              refine Or.inl ⟨planned_eq_none fun _ _ hfound' => ?_, _, rfl⟩
              exact (Option.some.inj (hfound'.symm.trans hfound)).trans hown
            · rename_i hne
              refine Or.inr ⟨new_id, _, planned_eq_some.mpr ⟨?_, hfound, hne⟩, rfl⟩
              exact searchesName_of_found hexpired hedits (by omega) hchanged hfound
  · rename_i hno
    refine Or.inl ⟨planned_eq_none fun _ h _ => absurd ?_ hno, _, rfl⟩
    exact Bool.and_eq_true_iff.mpr h.edits

/-- A dry-run changes nothing, and prints the name that is planned. -/
theorem editEntry_dry (fsconfig : FilesystemConfig) (a : EditArgs) (reserved : List Str)
    (k : DbLoc) (e : DBEntry) (w : World) :
    ∃ report, editEntry fsconfig a true .ok reserved k e w =
        (w, (planned a w reserved k e).toList ++ reserved, report) ∧
      report.renames true k = (planned a w reserved k e).toList.map (k, ·) := by
  rcases editEntry_cases fsconfig a true reserved k e w with
    ⟨hplanned, _, heq⟩ | ⟨new_id, _, hplanned, heq⟩
  · rw [if_pos rfl] at hplanned
    rw [hplanned]
    exact ⟨_, heq, rfl⟩
  · rw [if_pos rfl] at hplanned
    rw [hplanned]
    exact ⟨_, heq, rfl⟩

/-- What an edit leaves alone: it takes only names that are reserved then, and other files stay. -/
structure EditFrame (w w' : World) (k : DbLoc) (reserved : List Str) : Prop where
  /-- names that are taken were taken before, or are reserved -/
  taken : ∀ fs e name, w'.nameTaken fs e name = true →
    w.nameTaken fs e name = true ∨ name ∈ reserved
  /-- other files stay -/
  kept : ∀ k' f, k' ≠ k → w.db.lookup k' = some f → w'.db.lookup k' = some f

theorem EditFrame.trans {w₁ w₂ : World} (h : EditFrame w w₁ k reserved)
    (h' : EditFrame w₁ w₂ k reserved) : EditFrame w w₂ k reserved where
  taken fs e name htaken := by
    rcases h'.taken fs e name htaken with hbefore | hreserved
    · exact h.taken fs e name hbefore
    · exact Or.inr hreserved
  kept k' f hne hlook := h'.kept k' f hne (h.kept k' f hne hlook)

/-- The writes go to the own file. -/
theorem editFrame_write (hlook : (w.db.lookup k).isSome = true) :
    EditFrame w (a.write k e w) k reserved where
  taken fs e' name htaken := by
    rw [EditArgs.nameTaken_write hlook] at htaken
    exact Or.inl htaken
  kept k' f hne hlook' := by
    rw [EditArgs.lookup_write_ne hne, hlook']

/-- What is there after a move was there before, or has the new name. -/
theorem isSome_move {dirs : DirTree DirLoc Dir} {d d' d₀ : DirLoc}
    (h : ((dirs.move d d').find d₀).isSome = true) :
    (dirs.find d₀).isSome = true ∨ d₀ = d' := by
  by_cases hto : d₀ = d'
  · exact Or.inr hto
  · refine Or.inl ?_
    by_cases hfrom : d₀ = d
    · subst hfrom
      rw [DirTree.find_move_from hto] at h
      cases h
    · rwa [DirTree.find_move_ne hfrom hto] at h

/-- A rename to a free name takes that name. -/
theorem editFrame_rename {new_id : Str} {dirs : DirTree DirLoc Dir}
    (hfree : w.nameTaken k.fs e new_id = false)
    (hdirs : ∀ d₀, (dirs.find d₀).isSome = true →
      (w.dirs.find d₀).isSome = true ∨ d₀ = World.deletedDir e new_id) :
    EditFrame w { w.renameEntry k ⟨k.fs, .deleted, new_id⟩ with dirs := dirs } k
      (new_id :: reserved) where
  taken fs e' name htaken := by
    rw [World.nameTaken, Bool.or_eq_true] at htaken
    rcases htaken with hdb | hdir
    · obtain ⟨f, hf⟩ := Option.isSome_iff_exists.mp hdb
      rcases World.of_lookup_renameEntry hf with hbefore | heq
      · exact Or.inl (by rw [World.nameTaken, hbefore, Option.isSome_some, Bool.true_or])
      · rw [(DbLoc.mk.inj heq).2.2]
        exact Or.inr (List.mem_cons_self ..)
    · rcases hdirs _ hdir with hbefore | heq
      · exact Or.inl (by rw [World.nameTaken, hbefore, Bool.or_true])
      · rw [(DirLoc.mk.inj heq).2.2]
        exact Or.inr (List.mem_cons_self ..)
  kept k' f hne hlook := by
    have hto : k' ≠ ⟨k.fs, .deleted, new_id⟩ := by
      rintro rfl
      rw [World.nameTaken, hlook] at hfree
      cases hfree
    exact (World.lookup_renameEntry_ne hne hto).trans hlook

/-- The search depends on the names that are taken only. -/
theorem expiredName_congr {search : Bool} {tries : ℕ}
    (h : ∀ name, w'.nameTaken k.fs e name = w.nameTaken k.fs e name) :
    w'.expiredName search k e reserved base ts tries =
      w.expiredName search k e reserved base ts tries := by
  induction tries generalizing ts with
  | zero => rfl
  | succ tries ih => rw [World.expiredName, World.expiredName, h, ih]

theorem planned_write (hlook : (w.db.lookup k).isSome = true) :
    planned a (a.write k e w) reserved k e = planned a w reserved k e := by
  have hid : (a.write k e w).expiredIdFor true k e (a.new_boundary k.id e) reserved =
      w.expiredIdFor true k e (a.new_boundary k.id e) reserved := by
    rw [World.expiredIdFor, World.expiredIdFor]
    split
    · rfl
    · rw [expiredName_congr fun name => EditArgs.nameTaken_write hlook _ _ name]
  rw [planned, planned, hid]

/-- A real run takes the name that is planned, and performs the rename. -/
theorem editEntry_real (fsconfig : FilesystemConfig) (reserved : List Str)
    (hlook : (w.db.lookup k).isSome = true)
    (hrange : a.new_boundary k.id e + 1000 ≤ 2 ^ 63) :
    ∃ w' report, editEntry fsconfig a false .ok reserved k e w =
        (w', (planned a w reserved k e).toList ++ reserved, report) ∧
      report.renames false k = (planned a w reserved k e).toList.map (k, ·) ∧
      EditFrame w w' k ((planned a w reserved k e).toList ++ reserved) := by
  rcases editEntry_cases fsconfig a false reserved k e w with
    ⟨hplanned, _, heq⟩ | ⟨new_id, _, hplanned, heq⟩
  · rw [if_neg Bool.false_ne_true, planned_write hlook] at hplanned
    rw [hplanned]
    exact ⟨_, _, heq, rfl, editFrame_write hlook⟩
  · rw [if_neg Bool.false_ne_true, planned_write hlook] at hplanned
    obtain ⟨hsearch, hfound, hne⟩ := planned_eq_some.mp hplanned
    rw [hplanned]
    cases hname : splitExpiredId k.id with
    | none =>
      rw [World.expiredIdFor, hname] at hfound
      cases hfound
    | some p =>
      obtain ⟨base, ts⟩ := p
      obtain ⟨hpos, i, hi, hnew, hfree⟩ := World.expiredIdFor_eq_some hname hfound
      obtain ⟨-, -, hfree⟩ := hfree.resolve_left hne
      obtain ⟨-, -, hbase⟩ := fileTime_of_splitExpiredId hname
      have hsplit : splitExpiredId new_id = some (base, a.new_boundary k.id e + i) := by
        rw [hnew]
        exact splitExpiredId_deletedName hbase (by omega) (by omega)
      have hfree' : (a.write k e w).nameTaken k.fs e new_id = false := by
        rw [EditArgs.nameTaken_write hlook, hfree]
      have hrename := World.renameAsExpired_of_free (o := .ok) hsearch.released hname hsplit
        (by omega) hne hfree'
      have hwrite : EditFrame w (a.write k e w) k (new_id :: reserved) := editFrame_write hlook
      rw [if_neg Bool.false_ne_true, if_neg Bool.false_ne_true, hrename] at heq
      have hmoved : ∀ d₀, (((a.write k e w).renameEntry k
          ⟨k.fs, .deleted, new_id⟩).dirs.find d₀).isSome = true →
            ((a.write k e w).dirs.find d₀).isSome = true := by
        intro d₀ h
        rwa [World.renameEntry_dirs] at h
      cases hdir : (a.write k e w).dirs.find (World.deletedDir e k.id) with
      | none =>
        rw [hdir] at heq
        exact ⟨_, _, heq, rfl,
          hwrite.trans (editFrame_rename hfree' fun d₀ h => Or.inl (hmoved d₀ h))⟩
      | some n =>
        rw [hdir] at heq
        exact ⟨_, _, heq, rfl,
          hwrite.trans (editFrame_rename hfree' fun d₀ h => (isSome_move h).imp_left (hmoved d₀))⟩

theorem expiredIdFor_eq (hsearch : SearchesName a k e)
    (hname : splitExpiredId k.id = some (base, ts)) :
    w.expiredIdFor true k e (a.new_boundary k.id e) reserved =
      w.expiredName true k e reserved base (a.new_boundary k.id e) 1000 := by
  have hpos := hsearch.positive
  rw [World.expiredIdFor, hname]
  exact if_neg (by omega)

/-- An entry meets a name that was given up when its planned name was in use at the start. -/
theorem meetsLeftName_iff {start : World} {x : EditItem} : MeetsLeftName a start reserved w x ↔
    ∃ name, planned a w reserved x.loc x.entry = some name ∧
      start.nameTaken x.loc.fs x.entry name = true := by
  constructor
  · rintro ⟨hsearch, base, ts, hname, i, hi, hpassed, hfree, htaken⟩
    obtain ⟨hfound, hne⟩ := World.expiredName_new_iff.mpr ⟨i, hi, hpassed, hfree, rfl⟩
    rw [← expiredIdFor_eq hsearch hname] at hfound
    exact ⟨_, planned_eq_some.mpr ⟨hsearch, hfound, hne⟩, htaken⟩
  · rintro ⟨name, hplanned, htaken⟩
    obtain ⟨hsearch, hfound, hne⟩ := planned_eq_some.mp hplanned
    cases hname : splitExpiredId x.loc.id with
    | none =>
      rw [World.expiredIdFor, hname] at hfound
      cases hfound
    | some p =>
      obtain ⟨base, ts⟩ := p
      rw [expiredIdFor_eq hsearch hname] at hfound
      obtain ⟨i, hi, hpassed, hfree, rfl⟩ := World.expiredName_new_iff.mp ⟨hfound, hne⟩
      exact ⟨hsearch, base, ts, hname, i, hi, hpassed, hfree, htaken⟩

/-- The name that is planned in the state at the start was free there. -/
theorem free_of_planned {name : Str} (h : planned a w reserved k e = some name) :
    w.nameTaken k.fs e name = false := by
  obtain ⟨-, hfound, hne⟩ := planned_eq_some.mp h
  cases hname : splitExpiredId k.id with
  | none =>
    rw [World.expiredIdFor, hname] at hfound
    cases hfound
  | some p =>
    obtain ⟨-, i, -, -, hfree⟩ := World.expiredIdFor_eq_some hname hfound
    exact (hfree.resolve_left hne).2.2

/-- **The step of the comparison**: the names that are planned in the state at the start and in a
later one of the real run are the same, unless the entry meets a name that was given up. -/
theorem planned_eq_iff {start : World} (x : EditItem)
    (h : ∀ name, w.nameTaken x.loc.fs x.entry name = true →
      start.nameTaken x.loc.fs x.entry name = true ∨ name ∈ reserved) :
    planned a start reserved x.loc x.entry = planned a w reserved x.loc x.entry ↔
      ¬MeetsLeftName a start reserved w x := by
  rw [meetsLeftName_iff]
  constructor
  · rintro heq ⟨name, hplanned, htaken⟩
    rw [free_of_planned (heq.trans hplanned)] at htaken
    cases htaken
  · intro hno
    by_cases hsearch : SearchesName a x.loc x.entry
    · cases hname : splitExpiredId x.loc.id with
      | none => rw [planned, planned, World.expiredIdFor, World.expiredIdFor, hname]
      | some p =>
        obtain ⟨base, ts⟩ := p
        have hcases := @World.expiredName_cases w start x.loc x.entry reserved base
          (a.new_boundary x.loc.id x.entry) 1000 h
        rw [← expiredIdFor_eq hsearch hname, ← expiredIdFor_eq hsearch hname] at hcases
        rcases hcases with heq | ⟨name, hfound, hne, htaken⟩
        · rw [planned, planned, heq]
        · exact absurd ⟨name, planned_eq_some.mpr ⟨hsearch, hfound, hne⟩, htaken⟩ hno
    · rw [planned, planned, if_neg hsearch, if_neg hsearch]

end

/-! ## The loop -/

/-- Renames of one entry and of others are told apart. -/
theorem append_eq_append_of_loc {k : DbLoc} {p q : Option Str} {l l' : List (DbLoc × Str)}
    (hl : ∀ y ∈ l, y.1 ≠ k) (hl' : ∀ y ∈ l', y.1 ≠ k) :
    p.toList.map (k, ·) ++ l = q.toList.map (k, ·) ++ l' ↔ p = q ∧ l = l' := by
  constructor
  · intro h
    cases p with
    | none =>
      cases q with
      | none => exact ⟨rfl, h⟩
      | some y =>
        rw [Option.toList_none, List.map_nil, List.nil_append] at h
        exact absurd rfl (hl (k, y) (by rw [h]; exact List.mem_cons_self ..))
    | some x =>
      cases q with
      | none =>
        rw [Option.toList_none, List.map_nil, List.nil_append] at h
        exact absurd rfl (hl' (k, x) (by rw [← h]; exact List.mem_cons_self ..))
      | some y =>
        obtain ⟨hhead, htail⟩ := List.cons.inj h
        exact ⟨congrArg some (Prod.mk.inj hhead).2, htail⟩
  · rintro ⟨rfl, rfl⟩
    rfl

theorem loc_of_mem_renames {r : EditReport} {dryrun : Bool} {k : DbLoc} {y : DbLoc × Str}
    (h : y ∈ r.renames dryrun k) : y.1 = k := by
  rw [EditReport.renames] at h
  split at h
  · split at h
    · rw [List.mem_singleton.mp h]
    · cases h
  · cases h

/-- The renames of a run are those of its entries. -/
theorem loc_of_mem_editEntries {a : EditArgs} {dryrun : Bool} {items : List EditItem}
    {reserved : List Str} {w : World} {y : DbLoc × Str}
    (h : y ∈ (editEntries a dryrun items reserved w).2) : y.1 ∈ items.map EditItem.loc := by
  induction items generalizing reserved w with
  | nil => cases h
  | cons x items ih =>
    rw [List.map_cons, List.mem_cons]
    rcases List.mem_append.mp h with hfirst | hrest
    · exact Or.inl (loc_of_mem_renames hfirst)
    · exact Or.inr (ih hrest)

/-- A dry-run changes nothing. -/
theorem editEntries_dry (a : EditArgs) (items : List EditItem) (reserved : List Str) (w : World) :
    (editEntries a true items reserved w).1 = w := by
  induction items generalizing reserved with
  | nil => rfl
  | cons x items ih =>
    obtain ⟨report, heq, -⟩ := editEntry_dry x.fsconfig a reserved x.loc x.entry w
    rw [editEntries, heq]
    exact ih _

/-- **The run of the comparison.** From states in which the real run has taken only names that are
reserved, the renames are the same exactly when no entry meets a name that was given up. -/
theorem renames_eq_iff {a : EditArgs} {start : World} (items : List EditItem)
    {reserved : List Str} {w : World} (hnodup : (items.map EditItem.loc).Nodup)
    (hfiles : ∀ x ∈ items, (w.db.lookup x.loc).isSome = true)
    (hrange : ∀ x ∈ items, a.new_boundary x.loc.id x.entry + 1000 ≤ 2 ^ 63)
    (htaken : ∀ fs e name, w.nameTaken fs e name = true →
      start.nameTaken fs e name = true ∨ name ∈ reserved) :
    (editEntries a true items reserved start).2 = (editEntries a false items reserved w).2 ↔
      NoLeftName a start items reserved w := by
  induction items generalizing reserved w with
  | nil => exact ⟨fun _ => trivial, fun _ => rfl⟩
  | cons x items ih =>
    obtain ⟨hx, hnodup⟩ := List.nodup_cons.mp hnodup
    obtain ⟨report, hdry, hprinted⟩ :=
      editEntry_dry x.fsconfig a reserved x.loc x.entry start
    obtain ⟨w', report', hreal, hperformed, hframe⟩ :=
      editEntry_real x.fsconfig reserved (hfiles x (List.mem_cons_self ..))
        (hrange x (List.mem_cons_self ..))
    have hlater : ∀ (dryrun : Bool) (reserved : List Str) (w : World),
        ∀ y ∈ (editEntries a dryrun items reserved w).2, y.1 ≠ x.loc := by
      intro dryrun reserved w y hy heq
      exact hx (heq ▸ loc_of_mem_editEntries hy)
    rw [editEntries, editEntries, NoLeftName, hdry, hreal]
    dsimp only
    rw [hprinted, hperformed, append_eq_append_of_loc (hlater _ _ _) (hlater _ _ _),
      planned_eq_iff x (htaken _ _)]
    refine and_congr_right fun hno => ?_
    rw [(planned_eq_iff x (htaken _ _)).mpr hno]
    refine ih hnodup ?_ (fun y hy => hrange y (List.mem_cons_of_mem _ hy)) ?_
    · intro y hy
      have hne : y.loc ≠ x.loc := fun heq => hx (heq ▸ List.mem_map_of_mem hy)
      obtain ⟨f, hf⟩ := Option.isSome_iff_exists.mp (hfiles y (List.mem_cons_of_mem _ hy))
      rw [hframe.kept _ f hne hf]
      rfl
    · intro fs e name hname
      rcases hframe.taken fs e name hname with hbefore | hreserved
      · exact (htaken fs e name hbefore).imp_right (List.mem_append_right _)
      · exact Or.inr hreserved

/-- **A dry-run changes nothing, and its plan is what the real run does exactly when no entry comes
to a name that an earlier entry of the real run has given up.** -/
theorem planExact_iff (a : EditArgs) (items : List EditItem) (w : World) (h : Listed a w items) :
    (editEntries a true items [] w).1 = w ∧
      (PlanExact a items w ↔ NoLeftName a w items [] w) := by
  refine ⟨editEntries_dry a items [] w, ?_⟩
  refine renames_eq_iff items h.nodup (fun x hx => ?_) h.range fun _ _ _ htaken => Or.inl htaken
  rw [h.read x hx]
  rfl

/-! ## Two workspaces of one name -/

/-- `ws_editdb -e --add-time-expired 10` -/
def tenDays : EditArgs := ⟨true, 0, 10, none, none, by decide⟩

/-- A workspace `a` of `u` that expired at a time. -/
def expiredAt (expired : ℤ) : EditItem where
  fsconfig := .ofSpaces ['s'] []
  loc := ⟨['f'], .deleted, deletedName ['u', '-', 'a'] expired⟩
  entry := ⟨['u'], ⟨['s'], ['u', '-', 'a']⟩, 1690000000, expired - 1, 0, 3, false, [], [], [], 0,
    expired, []⟩

/-- There are two, and the second one expired ten days before the first one. -/
def tenDaysApart : List EditItem := [expiredAt 1700000000, expiredAt 1699136000]

/-- Their files and directories. -/
def tenDaysApartWorld : World where
  db := ((∅ : AList fun _ : DbLoc => DbFile).insert (expiredAt 1700000000).loc
    (.entry (expiredAt 1700000000).entry)).insert (expiredAt 1699136000).loc
      (.entry (expiredAt 1699136000).entry)
  dirs := (DirTree.empty.create ⟨['s'], .deleted, (expiredAt 1700000000).loc.id⟩
    ⟨1690000000, false, 1000⟩).create ⟨['s'], .deleted, (expiredAt 1699136000).loc.id⟩
      ⟨1690000000, false, 1000⟩
  magic := some

theorem planExact_iff_tenDaysApart :
    (editEntries tenDays true tenDaysApart [] tenDaysApartWorld).1 = tenDaysApartWorld ∧
      (PlanExact tenDays tenDaysApart tenDaysApartWorld ↔
        NoLeftName tenDays tenDaysApartWorld tenDaysApart [] tenDaysApartWorld) :=
  planExact_iff tenDays tenDaysApart tenDaysApartWorld
    ⟨by decide, by decide, by decide, by decide⟩

/-- The first one leaves its name to the second one, and the dry-run says that it is taken. -/
theorem not_planExact : Listed tenDays tenDaysApartWorld tenDaysApart ∧
    (editEntries tenDays true tenDaysApart [] tenDaysApartWorld).2 =
      [((expiredAt 1700000000).loc, deletedName ['u', '-', 'a'] 1700864000),
        ((expiredAt 1699136000).loc, deletedName ['u', '-', 'a'] 1700000001)] ∧
    (editEntries tenDays false tenDaysApart [] tenDaysApartWorld).2 =
      [((expiredAt 1700000000).loc, deletedName ['u', '-', 'a'] 1700864000),
        ((expiredAt 1699136000).loc, deletedName ['u', '-', 'a'] 1700000000)] ∧
    ¬PlanExact tenDays tenDaysApart tenDaysApartWorld := by
  refine ⟨⟨by decide, by decide, by decide, by decide⟩, by decide, by decide, ?_⟩
  rw [PlanExact]
  decide

end HpcWorkspace
