import HpcWorkspace.Lib.Runs
import HpcWorkspace.Deadlines

/-!
# The expirer and databases that are not available

The magic file tells an expirer that it has the right database before it. A directory that can not
be read makes a listing throw, which nothing catches; but `utils::dirEntries` gives an empty listing
of a directory that is missing. So an expirer that finds the magic file and the live entries but not
the deleted ones takes all deleted directories for stray ones.

Other programs may change everything between two steps, the databases too: one may go away between
the step that reads its magic file and the one that lists it. And a directory of a filesystem may be
moved or removed by a call for another one, when they share a space.
-/

namespace HpcWorkspace

/-! ## Listings -/

/-- A directory of a database. -/
inductive EntryDir where
  /-- it can be listed -/
  | present
  /-- it is not there -/
  | missing
  /-- it is there, but a listing throws -/
  | unreadable
  deriving DecidableEq

/-- The two directories of a database. -/
structure EntryDirs where
  /-- that of the live entries -/
  live : EntryDir
  /-- that of the deleted ones -/
  deleted : EntryDir
  deriving DecidableEq

namespace Expirer

/-- The next step of a call, when directories of the databases may be missing or unreadable. -/
def listStep (config : Config) (dirsOf : Str → EntryDirs) (x : Expirer) (t : Tick) (w : World) :
    Option (World × Expirer × Option Removal) :=
  let goto (pc : CallPc) : Expirer := { x with pc := pc }
  -- `openDB`, and then the listing
  let listLive (fs : Str) (empty : CallPc) : Option (World × Expirer × Option Removal) :=
    if !w.openDB fs then some (w, goto .ready, none)
    else
      match (dirsOf fs).live with
      | .present => x.callStep config t w
      | .missing => some (w, goto empty, none)
      | .unreadable => some (w, .idle, none)
  match x.pc with
  | .listIds call dirs => listLive call.fs (.readPaths call dirs [] [])
  | .listLive fs => listLive fs (.expireEntries fs [])
  | .listDeletedIds call dirs =>
    match (dirsOf call.fs).deleted with
    | .present => x.callStep config t w
    | .missing => some (w, goto (.removeStrays call dirs []), none)
    | .unreadable => some (w, .idle, none)
  | .listDeleted fs =>
    match (dirsOf fs).deleted with
    | .present => x.callStep config t w
    | .missing => some (w, goto (.deleteEntries fs []), none)
    | .unreadable => some (w, .idle, none)
  | .expireEntries fs _ =>
    -- a rename to a directory that is missing fails
    if (dirsOf fs).deleted = .missing then x.callStep config { t with outcome := .fails } w
    else x.callStep config t w
  | _ => x.callStep config t w

end Expirer

/-- The filesystem a call is made for. -/
def CallPc.fs : CallPc → Option Str
  | .ready => none
  | .listDirs call .. => some call.fs
  | .listIds call .. => some call.fs
  | .readPaths call .. => some call.fs
  | .strays call .. => some call.fs
  | .moveStray call .. => some call.fs
  | .listDeletedDirs call .. => some call.fs
  | .listDeletedIds call .. => some call.fs
  | .removeStrays call .. => some call.fs
  | .listLive fs => some fs
  | .expireEntries fs _ => some fs
  | .moveExpired fs .. => some fs
  | .listDeleted fs => some fs
  | .deleteEntries fs _ => some fs
  | .deleteDir fs .. => some fs

/-! ## Runs -/

/-- An expirer and the files. -/
structure ExpirerRun where
  /-- the files -/
  world : World
  /-- the process -/
  expirer : Expirer

/-- The same, with the directories of the databases. -/
structure ListedRun extends ExpirerRun where
  /-- the directories of the databases -/
  dirsOf : Str → EntryDirs

/-- A step of the expirer or of another program. -/
inductive ListedLabel where
  /-- the expirer's next step -/
  | expirer (t : Tick)
  /-- another program changes entries, directories, magic files and databases -/
  | others (w : World) (dirsOf : Str → EntryDirs)

/-- What is not available of a database when a call lists it. -/
inductive Lack where
  /-- the magic file is missing, or not the right one -/
  | magic
  /-- the directory of the live entries is missing or unreadable -/
  | live
  /-- that of the deleted ones is -/
  | deleted
  deriving DecidableEq

namespace ListedRun

/-- One step. -/
def step (config : Config) (s : ListedRun) : ListedLabel → Option ListedRun
  | .expirer t =>
    match s.expirer.listStep config s.dirsOf t s.world with
    | none => none
    | some (w, x, _) => some ⟨⟨w, x⟩, s.dirsOf⟩
  | .others w dirsOf => some ⟨⟨w, s.expirer⟩, dirsOf⟩

/-- The call a step belongs to, counted by the calls that are still to make after it. -/
def call (s : ListedRun) : ℕ := s.expirer.jobs.length

/-- A step moves and removes no directory in a space of `fs`, and none at all when it is made for
`fs`. -/
def LeavesDirs (config : Config) (fs : Str) (s : ListedRun) : ListedLabel → Prop
  | .expirer t => ∀ s', s.step config (.expirer t) = some s' →
      (s.expirer.pc.fs = some fs → s'.world.dirs = s.world.dirs) ∧
        ∀ k, SpaceOf config fs k.space → s'.world.dirs.find k = s.world.dirs.find k
  | .others .. => True

/-- At the moment at which a call for `fs` lists it, the database is not available: `lack` says for
each call what is not. -/
def Without (fs : Str) (lack : ℕ → Lack) (s : ListedRun) : ListedLabel → Prop
  | .expirer _ =>
    match s.expirer.pc with
    | .listIds call _ => call.fs = fs → (lack s.call = .magic → s.world.openDB fs = false) ∧
        (lack s.call = .live → (s.dirsOf fs).live ≠ .present)
    | .listLive fs' => fs' = fs → (lack s.call = .magic → s.world.openDB fs = false) ∧
        (lack s.call = .live → (s.dirsOf fs).live ≠ .present)
    | .listDeletedIds call _ => call.fs = fs →
        lack s.call = .deleted → (s.dirsOf fs).deleted ≠ .present
    | .listDeleted fs' => fs' = fs → lack s.call = .deleted → (s.dirsOf fs).deleted ≠ .present
    | _ => True
  | .others .. => True

/-- A call for `fs'` has to do with directories of `fs` in a space. -/
def OfFs (config : Config) (fs fs' space : Str) : Prop := fs' = fs ∨ SpaceOf config fs space

/-- The expirer does not look at something of `fs` that it takes for lost, or for over its time: an
old directory without an entry that was listed; a deleted directory without one that this run has
not moved; an entry that is over its time; a deleted entry that is over its time. A call for `fs`
itself may do so where it can not get to when its database is not available. -/
def FindsNothing (config : Config) (fs : Str) (lack : ℕ → Lack) (s : ListedRun) :
    ListedLabel → Prop
  | .expirer t =>
    match s.expirer.pc with
    | .strays call (founddir :: _) workspacesInDB => OfFs config fs call.fs founddir.1 →
        (call.fs = fs → lack s.call ≠ .magic) → isStray founddir workspacesInDB = true →
          ∀ n, s.world.dirs.find ⟨founddir.1, .live, founddir.2⟩ = some n →
            t.now - STRAY_GRACETIME < n.attr.mtime
    | .removeStrays call (founddir :: _) workspacesInDeletedDB =>
        OfFs config fs call.fs founddir.1 → (call.fs = fs → lack s.call ≠ .magic) →
          workspacesInDeletedDB.contains founddir.2 = false →
            movedByRun call.run_start founddir.2 = true
    | .expireEntries fs' (id :: _) => (s.dirsOf fs').deleted ≠ .missing →
        (fs' = fs → lack s.call = .deleted) →
          ∀ e, s.world.readEntry fs' .live id = some e → OfFs config fs fs' e.workspace.space →
            0 < e.expiration → t.now ≤ e.expiration
    | .deleteEntries fs' (id :: _) => (fs' = fs → lack s.call = .live) →
        ∀ e fsconfig, s.world.readEntry fs' .deleted id = some e →
          OfFs config fs fs' e.workspace.space → config.getFsConfig fs' = some fsconfig →
            shouldDelete fsconfig id e t.now ≠ some true
    | _ => True
  | .others .. => True

end ListedRun

/-! ## What a step does -/

/-- The directory of a database that a step needs is there. -/
def CallPc.Listable (dirsOf : Str → EntryDirs) (w : World) : CallPc → Prop
  | .listIds call _ => w.openDB call.fs = true ∧ (dirsOf call.fs).live = .present
  | .listLive fs => w.openDB fs = true ∧ (dirsOf fs).live = .present
  | .listDeletedIds call _ => (dirsOf call.fs).deleted = .present
  | .listDeleted fs => (dirsOf fs).deleted = .present
  | .expireEntries fs (_ :: _) => (dirsOf fs).deleted ≠ .missing
  | _ => True

namespace Expirer

variable {config : Config} {dirsOf : Str → EntryDirs} {x x' : Expirer} {t : Tick} {w w' : World}
  {removal : Option Removal}

/-- The ways a step can go. -/
inductive ListStep (config : Config) (dirsOf : Str → EntryDirs) (x : Expirer) (t : Tick)
    (w : World) : World → Expirer → Option Removal → Prop where
  /-- a database is not opened -/
  | closed : ListStep config dirsOf x t w w { x with pc := .ready } none
  /-- a listing throws -/
  | threw : ListStep config dirsOf x t w w .idle none
  /-- the directory of the live entries is missing: there seem to be none -/
  | noIds {call : CleanCall} {dirs : List (Str × Str)} (hpc : x.pc = .listIds call dirs)
      (hopen : w.openDB call.fs = true) (hmissing : (dirsOf call.fs).live = .missing) :
      ListStep config dirsOf x t w w { x with pc := .readPaths call dirs [] [] } none
  /-- the same in `expire_workspaces` -/
  | noLive {fs : Str} (hpc : x.pc = .listLive fs) (hopen : w.openDB fs = true)
      (hmissing : (dirsOf fs).live = .missing) :
      ListStep config dirsOf x t w w { x with pc := .expireEntries fs [] } none
  /-- the directory of the deleted entries is missing: there seem to be none -/
  | noDeletedIds {call : CleanCall} {dirs : List (Str × Str)}
      (hpc : x.pc = .listDeletedIds call dirs) (hmissing : (dirsOf call.fs).deleted = .missing) :
      ListStep config dirsOf x t w w { x with pc := .removeStrays call dirs [] } none
  /-- the same in `expire_workspaces` -/
  | noDeleted {fs : Str} (hpc : x.pc = .listDeleted fs)
      (hmissing : (dirsOf fs).deleted = .missing) :
      ListStep config dirsOf x t w w { x with pc := .deleteEntries fs [] } none
  /-- an entry is not moved to a directory that is missing -/
  | notMoved {fs id : Str} {ids : List Str} {w' : World} (hpc : x.pc = .expireEntries fs (id :: ids))
      (hmissing : (dirsOf fs).deleted = .missing) (hdirs : w'.dirs = w.dirs) :
      ListStep config dirsOf x t w w' { x with pc := .expireEntries fs ids } none
  /-- else the call goes on as ever -/
  | callStep {w' : World} {x' : Expirer} {removal : Option Removal}
      (h : CallStep config x t w w' x' removal) (hlist : x.pc.Listable dirsOf w) :
      ListStep config dirsOf x t w w' x' removal

/-- A call whose rename fails does not expire the entry. -/
theorem expire_of_fails (w : World) (fs id : Str) (e : DBEntry) (timestamp expired : ℤ) :
    (w.expire fs id e timestamp expired .fails).1 = none ∧
      (w.expire fs id e timestamp expired .fails).2.dirs = w.dirs := by
  dsimp only [World.expire]
  split
  · exact ⟨rfl, rfl⟩
  · split
    · exact ⟨rfl, rfl⟩
    · exact ⟨rfl, rfl⟩

theorem callStep_expireEntries_fails {fs id : Str} {ids : List Str}
    (hpc : x.pc = .expireEntries fs (id :: ids))
    (h : x.callStep config { t with outcome := .fails } w = some (w', x', removal)) :
    x' = { x with pc := .expireEntries fs ids } ∧ removal = none ∧ w'.dirs = w.dirs := by
  rw [callStep.eq_def, hpc] at h
  dsimp only at h
  split at h
  · obtain ⟨rfl, rfl, rfl⟩ := Option.some.inj h
    exact ⟨rfl, rfl, rfl⟩
  · rename_i e hread
    split at h
    · obtain ⟨rfl, rfl, rfl⟩ := Option.some.inj h
      exact ⟨rfl, rfl, rfl⟩
    · obtain ⟨hnone, hdirs⟩ := expire_of_fails w fs id e t.now₂ t.now₃
      split at h
      · rename_i w₁ hexpire
        obtain ⟨rfl, rfl, rfl⟩ := Option.some.inj h
        rw [hexpire] at hdirs
        exact ⟨rfl, rfl, hdirs⟩
      · rename_i ts w₁ hexpire
        rw [hexpire] at hnone
        cases hnone

/-- What a call needs of its database is there. -/
theorem ListStep.of_callStep {pc : CallPc} (h : x.callStep config t w = some (w', x', removal))
    (hpc : x.pc = pc) (hlist : pc.Listable dirsOf w) :
    ListStep config dirsOf x t w w' x' removal :=
  .callStep (callStep_spec h) (hpc ▸ hlist)

/-- **Inversion** for the steps when directories may be missing or unreadable. -/
theorem listStep_spec (h : x.listStep config dirsOf t w = some (w', x', removal)) :
    ListStep config dirsOf x t w w' x' removal := by
  have hsome : ∀ {w₁ : World} {x₁ : Expirer} {r₁ : Option Removal},
      some (w₁, x₁, r₁) = some (w', x', removal) → ListStep config dirsOf x t w w₁ x₁ r₁ →
        ListStep config dirsOf x t w w' x' removal := by
    intro w₁ x₁ r₁ heq hstep
    obtain ⟨rfl, rfl, rfl⟩ := Option.some.inj heq
    exact hstep
  unfold listStep at h
  dsimp only at h
  split at h
  · rename_i call dirs hpc
    split at h
    · exact hsome h .closed
    · rename_i hopens
      have hopen : w.openDB call.fs = true := by simpa using hopens
      split at h
      · rename_i hpresent
        exact .of_callStep h hpc ⟨hopen, hpresent⟩
      · rename_i hmissing
        exact hsome h (.noIds hpc hopen hmissing)
      · exact hsome h .threw
  · rename_i fs hpc
    split at h
    · exact hsome h .closed
    · rename_i hopens
      have hopen : w.openDB fs = true := by simpa using hopens
      split at h
      · rename_i hpresent
        exact .of_callStep h hpc ⟨hopen, hpresent⟩
      · rename_i hmissing
        exact hsome h (.noLive hpc hopen hmissing)
      · exact hsome h .threw
  · rename_i call dirs hpc
    split at h
    · rename_i hpresent
      exact .of_callStep h hpc hpresent
    · rename_i hmissing
      exact hsome h (.noDeletedIds hpc hmissing)
    · exact hsome h .threw
  · rename_i fs hpc
    split at h
    · rename_i hpresent
      exact .of_callStep h hpc hpresent
    · rename_i hmissing
      exact hsome h (.noDeleted hpc hmissing)
    · exact hsome h .threw
  · rename_i fs ids hpc
    cases ids with
    | nil =>
      have hstep : x.callStep config t w = some (w', x', removal) := by
        split at h
        · rw [callStep.eq_def, hpc] at h ⊢
          exact h
        · exact h
      exact .of_callStep hstep hpc trivial
    | cons id ids =>
      split at h
      · rename_i hmissing
        obtain ⟨rfl, rfl, hdirs⟩ := callStep_expireEntries_fails hpc h
        exact .notMoved hpc hmissing hdirs
      · rename_i hmissing
        exact .of_callStep h hpc hmissing
  · rename_i hids hlive hdeletedIds hdeleted hexpire
    refine .callStep (callStep_spec h) ?_
    unfold CallPc.Listable
    split
    · rename_i call dirs hpc
      exact absurd hpc (hids call dirs)
    · rename_i fs hpc
      exact absurd hpc (hlive fs)
    · rename_i call dirs hpc
      exact absurd hpc (hdeletedIds call dirs)
    · rename_i fs hpc
      exact absurd hpc (hdeleted fs)
    · rename_i fs id ids hpc
      exact absurd hpc (hexpire fs (id :: ids))
    · trivial

/-! ## The invariant -/

open ListedRun (OfFs)

/-- How far a call for `fs` gets when it lacks a part of its database: not to a listing of the
directories without the magic file, to no live entry without the directory of those, and to no
deleted entry without that one. No call is about to move or to remove a directory of `fs`. -/
def Quiet (config : Config) (fs : Str) (lack : Lack) : CallPc → Prop
  | .readPaths call .. => call.fs = fs → lack ≠ .magic
  | .strays call .. => call.fs = fs → lack ≠ .magic
  | .moveStray call founddir .. => ¬OfFs config fs call.fs founddir.1
  | .listDeletedDirs call .. => call.fs = fs → lack ≠ .magic
  | .listDeletedIds call .. => call.fs = fs → lack ≠ .magic
  | .removeStrays call .. => call.fs = fs → lack ≠ .magic
  | .expireEntries fs' ids => fs' = fs → lack ≠ .magic ∧ (ids ≠ [] → lack = .deleted)
  | .moveExpired fs' _ e .. => ¬OfFs config fs fs' e.workspace.space
  | .listDeleted fs' => fs' = fs → lack ≠ .magic
  | .deleteEntries fs' ids => fs' = fs → ids ≠ [] → lack = .live
  | .deleteDir fs' wspath _ => ¬OfFs config fs fs' wspath.space
  | _ => True

section Invariant

variable {fs : Str} {lack : Lack}

/-- A new call starts at its first listing. -/
theorem quiet_nextCall {now : ℤ} (h : x.nextCall config now = some x') :
    Quiet config fs lack x'.pc := by
  have hbegins := begins_of_nextCall h
  generalize x'.pc = pc at hbegins
  cases hbegins <;> trivial

/-- The next part of a call is no further than the one before. -/
theorem quiet_follows {pc pc' : CallPc} (h : pc.Follows w pc')
    (hquiet : Quiet config fs lack pc) : Quiet config fs lack pc' := by
  cases h with
  | listIds => trivial
  | closed hopen => trivial
  | strays => exact hquiet
  | listDeletedDirs => exact hquiet
  | listDeletedIds => exact hquiet
  | cleaned => trivial
  | closedLive hopen => trivial
  | listDeleted => exact fun heq => (hquiet heq).1
  | deleted => trivial

end Invariant

end Expirer

/-! ## A step without the database -/

namespace ListedRun

open Expirer (ListStep Quiet)

variable {config : Config} {fs : Str} {lack : ℕ → Lack} {s s' : ListedRun} {t : Tick}
  {w' : World} {x' : Expirer} {removal : Option Removal}

/-- Calls stay where they are quiet: own calls because of what they lack, and all calls because they
find nothing. -/
theorem quiet_step (hquiet : Quiet config fs (lack s.call) s.expirer.pc)
    (hun : s.Without fs lack (.expirer t)) (hfinds : s.FindsNothing config fs lack (.expirer t))
    (h : ListStep config s.dirsOf s.expirer t s.world w' x' removal) :
    Quiet config fs (lack x'.jobs.length) x'.pc := by
  dsimp only [Without, FindsNothing] at hun hfinds
  cases h with
  | closed => trivial
  | threw => trivial
  | noIds hpc hopens hmissing =>
    rw [hpc] at hun
    intro heq hlack
    exact absurd ((hun heq).1 hlack) (by simp [← heq, hopens])
  | noLive hpc hopens hmissing =>
    rw [hpc] at hun
    intro heq
    refine ⟨fun hlack => ?_, fun hne => absurd rfl hne⟩
    exact absurd ((hun heq).1 hlack) (by simp [← heq, hopens])
  | noDeletedIds hpc hmissing =>
    rw [hpc] at hquiet
    exact hquiet
  | noDeleted hpc hmissing => exact fun _ hne => absurd rfl hne
  | notMoved hpc hmissing hdirs =>
    rw [hpc] at hquiet
    exact fun heq => ⟨(hquiet heq).1, fun _ => (hquiet heq).2 (List.cons_ne_nil _ _)⟩
  | callStep hstep hlist =>
    cases hstep with
    | nextCall hpc hnext => exact Expirer.quiet_nextCall hnext
    | goOn hnext => exact Expirer.quiet_follows hnext hquiet
    | listDirs hpc hlisting => trivial
    | listIds hpc hopens hlisting =>
      rw [hpc] at hun
      intro heq hlack
      exact absurd ((hun heq).1 hlack) (by simp [← heq, hopens])
    | readPath hpc => rw [hpc] at hquiet; exact hquiet
    | keep hpc => rw [hpc] at hquiet; exact hquiet
    | stray hpc hstray hfind hold =>
      rw [hpc] at hquiet hfinds
      intro hof
      have hyoung := hfinds hof hquiet hstray _ hfind
      omega
    | moveStray hpc =>
      rw [hpc] at hquiet
      exact fun heq => absurd (Or.inl heq) hquiet
    | listDeletedDirs hpc hlisting => rw [hpc] at hquiet; exact hquiet
    | listDeletedIds hpc hlisting => rw [hpc] at hquiet; exact hquiet
    | keepDeleted hpc => rw [hpc] at hquiet; exact hquiet
    | removeStray hpc hstray hrun => rw [hpc] at hquiet; exact hquiet
    | listLive hpc hlisting =>
      rw [hpc] at hlist hun
      intro heq
      subst heq
      have hmagic : lack s.call ≠ .magic := fun hlack =>
        absurd ((hun rfl).1 hlack) (by simp [hlist.1])
      refine ⟨hmagic, fun _ => ?_⟩
      cases hlack : lack s.call with
      | magic => exact absurd hlack hmagic
      | live => exact absurd hlist.2 ((hun rfl).2 hlack)
      | deleted => exact hlack
    | keepEntry hpc | notExpired hpc hread hover hfails =>
      rw [hpc] at hquiet
      exact fun heq => ⟨(hquiet heq).1, fun _ => (hquiet heq).2 (List.cons_ne_nil _ _)⟩
    | expired hpc hread hover hts hfree =>
      rw [hpc] at hquiet hlist hfinds
      intro hof
      have hyoung := hfinds hlist (fun heq => (hquiet heq).2 (List.cons_ne_nil _ _)) _ hread hof
        hover.1
      omega
    | moveExpired hpc =>
      rw [hpc] at hquiet
      exact fun heq => absurd (Or.inl heq) hquiet
    | listDeleted hpc hlisting =>
      rw [hpc] at hquiet hlist hun
      intro heq _
      subst heq
      cases hlack : lack s.call with
      | magic => exact absurd hlack (hquiet rfl)
      | live => exact hlack
      | deleted => exact absurd hlist (hun rfl hlack)
    | keepDeletedEntry hpc =>
      rw [hpc] at hquiet
      exact fun heq _ => hquiet heq (List.cons_ne_nil _ _)
    | ended hpc => trivial
    | deleteEntry hpc hread hfs hover =>
      rw [hpc] at hquiet hfinds
      intro hof
      exact absurd hover
        (hfinds (fun heq => hquiet heq (List.cons_ne_nil _ _)) _ _ hread hof hfs)
    | deleteDir hpc =>
      rw [hpc] at hquiet
      exact fun heq => absurd (Or.inl heq) hquiet

/-- From `w` to `w'` the directories of `fs` stay, all of them if the step is made for `fs`. -/
def KeepsDirs (config : Config) (fs : Str) (pc : CallPc) (w w' : World) : Prop :=
  (pc.fs = some fs → w'.dirs = w.dirs) ∧
    ∀ k, SpaceOf config fs k.space → w'.dirs.find k = w.dirs.find k

theorem KeepsDirs.of_dirs {pc : CallPc} {w : World} (h : w'.dirs = w.dirs) :
    KeepsDirs config fs pc w w' :=
  ⟨fun _ => h, fun k _ => congrArg (DirTree.find · k) h⟩

/-- A step for another filesystem, in a space that is not one of `fs`. -/
theorem KeepsDirs.of_space {pc : CallPc} {w : World} {fs' space : Str} (hpc : pc.fs = some fs')
    (hof : ¬OfFs config fs fs' space)
    (h : ∀ k : DirLoc, k.space ≠ space → w'.dirs.find k = w.dirs.find k) :
    KeepsDirs config fs pc w w' := by
  constructor
  · intro heq
    exact absurd (Or.inl (Option.some.inj (hpc.symm.trans heq))) hof
  · intro k hk
    apply h
    rintro rfl
    exact hof (Or.inr hk)

/-- A quiet step leaves the directories of `fs`. -/
theorem keepsDirs_of_quiet (hquiet : Quiet config fs (lack s.call) s.expirer.pc)
    (hfinds : s.FindsNothing config fs lack (.expirer t))
    (h : ListStep config s.dirsOf s.expirer t s.world w' x' removal) :
    KeepsDirs config fs s.expirer.pc s.world w' := by
  dsimp only [FindsNothing] at hfinds
  cases h with
  | notMoved hpc hmissing hdirs => exact .of_dirs hdirs
  | callStep hstep hlist =>
    cases hstep with
    | moveStray hpc =>
      rw [hpc] at hquiet ⊢
      refine .of_space rfl hquiet fun k hk => find_moveDir_ne ?_ ?_
      · rintro rfl
        exact hk rfl
      · rintro rfl
        exact hk rfl
    | removeStray hpc hstray hrun =>
      rename_i call founddir dirs names
      rw [hpc] at hquiet hfinds ⊢
      have hnot : ¬OfFs config fs call.fs founddir.1 := by
        intro hof
        rw [hfinds hof hquiet hstray] at hrun
        cases hrun
      refine .of_space rfl hnot fun k hk => find_rmtree_ne ?_
      rintro rfl
      exact hk rfl
    | moveExpired hpc =>
      rw [hpc] at hquiet ⊢
      refine .of_space rfl hquiet fun k hk => find_moveDir_ne ?_ ?_
      · rintro rfl
        exact hk rfl
      · rintro rfl
        exact hk rfl
    | deleteDir hpc =>
      rw [hpc] at hquiet ⊢
      refine .of_space rfl hquiet fun k hk => find_rmtree_ne ?_
      rintro rfl
      exact hk rfl
    | expired hpc hread hover hts hfree => exact .of_dirs (World.renameEntry_dirs ..)
    | _ => exact .of_dirs rfl
  | _ => exact .of_dirs rfl

/-! ## A run without the database -/

/-- No call has come to directories of `fs`. -/
def QuietRun (config : Config) (fs : Str) (lack : ℕ → Lack) (s : ListedRun) : Prop :=
  Quiet config fs (lack s.call) s.expirer.pc

theorem QuietRun.step {label : ListedLabel} (h : QuietRun config fs lack s)
    (hun : s.Without fs lack label) (hfinds : s.FindsNothing config fs lack label)
    (hstep : s.step config label = some s') : QuietRun config fs lack s' := by
  cases label with
  | others w₁ dirsOf =>
    obtain rfl := Option.some.inj hstep
    exact h
  | expirer t =>
    dsimp only [ListedRun.step] at hstep
    split at hstep
    · cases hstep
    · rename_i w₁ x₁ removal hlist
      obtain rfl := Option.some.inj hstep
      exact quiet_step h hun hfinds (Expirer.listStep_spec hlist)

theorem QuietRun.leavesDirs {label : ListedLabel} (h : QuietRun config fs lack s)
    (hfinds : s.FindsNothing config fs lack label) : s.LeavesDirs config fs label := by
  cases label with
  | others w₁ dirsOf => trivial
  | expirer t =>
    intro s' hstep
    dsimp only [ListedRun.step] at hstep
    split at hstep
    · cases hstep
    · rename_i w₁ x₁ removal hlist
      obtain rfl := Option.some.inj hstep
      exact keepsDirs_of_quiet h hfinds (Expirer.listStep_spec hlist)

/-- One filesystem with one space. -/
def oneSpace : Config := .single ['w'] (.ofSpaces ['s'] [])

/-- A directory, and the magic files. -/
def oneDir (area : Area) (name : Str) (mtime : ℤ) : World where
  db := ∅
  dirs := DirTree.empty.create ⟨['s'], area, name⟩ ⟨mtime, false, 1000⟩
  magic := some

/-- All directories of the databases are there. -/
def allEntries (_ : Str) : EntryDirs := ⟨.present, .present⟩

/-- The deleted entries are not there. -/
def noDeletedEntries (_ : Str) : EntryDirs := ⟨.present, .missing⟩

/-- A step of the expirer with a listing. -/
def tickAt (now : ℤ) (listing : List Str) : ListedLabel := .expirer ⟨now, now, now, listing, .ok⟩

/-- The steps of `clean_stray_directories` up to the end of its first loop, with what it finds. -/
def liveRun (now : ℤ) (live : List Str) : List ListedLabel :=
  [tickAt now [], tickAt now live, tickAt now [], tickAt now [], tickAt now []] ++
    live.map (fun _ => tickAt now []) ++ [tickAt now []]

/-- The steps from there up to its last loop. -/
def deletedRun (now : ℤ) (deleted : List Str) : List ListedLabel :=
  [tickAt now deleted, tickAt now [], tickAt now []]

end ListedRun

end HpcWorkspace
