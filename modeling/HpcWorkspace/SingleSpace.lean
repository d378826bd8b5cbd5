import HpcWorkspace.Deadlines
import HpcWorkspace.UnavailableDb

/-!
# The expirer with a single space

With `-s` an expirer processes one space only. `main` hands the option to
`clean_stray_directories`, which then lists and cleans that space alone, but not to
`expire_workspaces`, which goes through all entries of a filesystem wherever their directories are.

A run leaves the other spaces alone exactly when `expire_workspaces` comes across no entry of a
workspace there that it gets to expire or to delete. Other programs may change everything between
two steps, and only what a step of the expirer changes is looked at.
-/

namespace HpcWorkspace

/-- A step of the expirer or of another program. -/
inductive RunLabel where
  /-- the expirer's next step -/
  | expirer (t : Tick)
  /-- another program changes entries and directories -/
  | others (w : World)

namespace ExpirerRun

/-! ## Runs -/

/-- One step; other programs change what they like. -/
def freeStep (config : Config) (s : ExpirerRun) : RunLabel → Option ExpirerRun
  | .expirer t => (s.expirer.callStep config t s.world).map fun r => ⟨r.1, r.2.1⟩
  | .others w => some { s with world := w }

/-- From `w` to `w'`, no directory of another space than `space` is moved or removed, and no entry
of a workspace in one. -/
structure LeavesOthers (space : Str) (w w' : World) : Prop where
  /-- directories are as they were -/
  dirs : ∀ k, k.space ≠ space → w'.dirs.find k = w.dirs.find k
  /-- entries are where they were -/
  entries : ∀ k e, w.db.lookup k = some (.entry e) → e.workspace.space ≠ space →
    ∃ e', w'.db.lookup k = some (.entry e') ∧ e'.workspace = e.workspace

/-- The expirer's next step leaves the other spaces alone. -/
def StepLeavesOthers (config : Config) (space : Str) (s : ExpirerRun) : RunLabel → Prop
  | .expirer t => ∀ s', s.freeStep config (.expirer t) = some s' →
      LeavesOthers space s.world s'.world
  | .others _ => True

/-- `expire_workspaces` gets to expire or to delete an entry only when its workspace lies in
`space`: another one is not over its time, or the call for it fails. -/
def ExpiresOnlyIn (config : Config) (space : Str) (s : ExpirerRun) : RunLabel → Prop
  | .expirer t =>
    match s.expirer.pc with
    | .expireEntries fs (id :: _) => ∀ e, s.world.readEntry fs .live id = some e →
        e.workspace.space ≠ space → 0 < e.expiration → e.expiration < t.now →
          t.outcome ≠ .ok ∨ t.now₂ < 0 ∨ s.world.freeTimestamp fs id e t.now₂ 1000 = none
    | .deleteEntries fs (id :: _) => ∀ e fsconfig, s.world.readEntry fs .deleted id = some e →
        e.workspace.space ≠ space → config.getFsConfig fs = some fsconfig →
          shouldDelete fsconfig id e t.now = some true → t.outcome ≠ .ok
    | _ => True
  | .others _ => True

end ExpirerRun

/-! ## What a step leaves -/

namespace ExpirerRun.LeavesOthers

variable {space : Str} {w w' : World}

theorem refl (space : Str) (w : World) : LeavesOthers space w w :=
  ⟨fun _ _ => rfl, fun _ e hlook _ => ⟨e, hlook, rfl⟩⟩

/-- A step that touches only directories of `space`. -/
theorem of_dirs (hdb : w'.db = w.db)
    (hdirs : ∀ k, k.space ≠ space → w'.dirs.find k = w.dirs.find k) : LeavesOthers space w w' := by
  refine ⟨hdirs, fun k e hlook _ => ⟨e, ?_, rfl⟩⟩
  rw [hdb]
  exact hlook

theorem moveDir {k k' : DirLoc} (outcome : Outcome) (now : ℤ) (hk : k.space = space)
    (hk' : k'.space = space) : LeavesOthers space w (w.moveDir outcome k k' now).1 := by
  refine of_dirs (moveDir_db ..) fun k₀ hk₀ => find_moveDir_ne ?_ ?_
  · rintro rfl
    exact hk₀ hk
  · rintro rfl
    exact hk₀ hk'

theorem rmtree {k : DirLoc} (outcome : Outcome) (hk : k.space = space) :
    LeavesOthers space w (w.rmtree outcome k) := by
  refine of_dirs (rmtree_db ..) fun k₀ hk₀ => find_rmtree_ne ?_
  rintro rfl
  exact hk₀ hk

/-- An entry is written anew, with the workspace it had. -/
theorem writeEntry {k : DbLoc} {e e' : DBEntry} (hlook : w.db.lookup k = some (.entry e))
    (hsame : e'.workspace = e.workspace) : LeavesOthers space w (w.writeEntry k e') := by
  refine ⟨fun _ _ => rfl, fun k₁ e₁ hlook₁ _ => ?_⟩
  by_cases hk : k₁ = k
  · subst hk
    rw [hlook] at hlook₁
    obtain rfl := DbFile.entry.inj (Option.some.inj hlook₁)
    exact ⟨e'.persisted, World.lookup_writeEntry .., hsame⟩
  · exact ⟨e₁, (World.lookup_writeEntry_ne e' hk).trans hlook₁, rfl⟩

theorem removeEntry {k : DbLoc} {e : DBEntry} (hlook : w.db.lookup k = some (.entry e))
    (hin : e.workspace.space = space) : LeavesOthers space w (w.removeEntry k) := by
  refine ⟨fun _ _ => rfl, fun k₁ e₁ hlook₁ hother => ?_⟩
  have hk : k₁ ≠ k := by
    rintro rfl
    rw [hlook] at hlook₁
    obtain rfl := DbFile.entry.inj (Option.some.inj hlook₁)
    exact hother hin
  exact ⟨e₁, (World.lookup_removeEntry_ne hk).trans hlook₁, rfl⟩

/-- An entry of a workspace in `space` is moved to a free name. -/
theorem retire {fs id name : Str} {e : DBEntry} {expired : ℤ}
    (hlook : w.db.lookup ⟨fs, .live, id⟩ = some (.entry e)) (hin : e.workspace.space = space)
    (hfree : w.db.lookup ⟨fs, .deleted, name⟩ = none) :
    LeavesOthers space w
      ((w.writeEntry ⟨fs, .live, id⟩ { e with expired := expired }).renameEntry ⟨fs, .live, id⟩
        ⟨fs, .deleted, name⟩) := by
  refine ⟨fun k _ => by rw [World.renameEntry_dirs, World.writeEntry_dirs], ?_⟩
  intro k₁ e₁ hlook₁ hother
  have hk : k₁ ≠ ⟨fs, .live, id⟩ := by
    rintro rfl
    rw [hlook] at hlook₁
    obtain rfl := DbFile.entry.inj (Option.some.inj hlook₁)
    exact hother hin
  have hk' : k₁ ≠ ⟨fs, .deleted, name⟩ := by
    rintro rfl
    rw [hfree] at hlook₁
    cases hlook₁
  refine ⟨e₁, ?_, rfl⟩
  rw [World.lookup_renameEntry_ne hk hk', World.lookup_writeEntry_ne _ hk]
  exact hlook₁

end ExpirerRun.LeavesOthers

/-! ## Where a call is -/

/-- Everything that a call has listed lies in `space`, and so does what it is about to move or to
remove. -/
def CallPc.In (space : Str) : CallPc → Prop
  | .listDirs call todo dirs => (∀ s ∈ call.spaces, s = space) ∧ (∀ s ∈ todo, s = space) ∧
      ∀ d ∈ dirs, d.1 = space
  | .listIds call dirs => (∀ s ∈ call.spaces, s = space) ∧ ∀ d ∈ dirs, d.1 = space
  | .readPaths call dirs _ _ => (∀ s ∈ call.spaces, s = space) ∧ ∀ d ∈ dirs, d.1 = space
  | .strays call dirs _ => (∀ s ∈ call.spaces, s = space) ∧ ∀ d ∈ dirs, d.1 = space
  | .moveStray call founddir dirs _ => (∀ s ∈ call.spaces, s = space) ∧
      ∀ d ∈ founddir :: dirs, d.1 = space
  | .listDeletedDirs _ todo dirs => (∀ s ∈ todo, s = space) ∧ ∀ d ∈ dirs, d.1 = space
  | .listDeletedIds _ dirs => ∀ d ∈ dirs, d.1 = space
  | .removeStrays _ dirs _ => ∀ d ∈ dirs, d.1 = space
  | .moveExpired _ _ e _ _ => e.workspace.space = space
  | .deleteDir _ wspath _ => wspath.space = space
  | _ => True

/-- An expirer that was started for one space. -/
structure Expirer.RestrictedTo (space : Str) (x : Expirer) : Prop where
  /-- `-s`, as long as there are calls to make -/
  single_space : x.single_space = some space ∨ x.jobs = []
  /-- where its call is -/
  within : x.pc.In space

namespace Expirer

open ExpirerRun (LeavesOthers ExpiresOnlyIn)

variable {config : Config} {space : Str} {x x' : Expirer} {t : Tick} {w w' : World}
  {removal : Option Removal}

theorem RestrictedTo.goto (h : x.RestrictedTo space) {pc : CallPc} (hpc : pc.In space) :
    RestrictedTo space { x with pc := pc } := ⟨h.single_space, hpc⟩

theorem restrictedTo_idle : RestrictedTo space .idle := ⟨Or.inr rfl, trivial⟩

/-- `clean_stray_directories` is called for the space alone. -/
theorem RestrictedTo.nextCall (h : x.RestrictedTo space) {now : ℤ}
    (hnext : x.nextCall config now = some x') : x'.RestrictedTo space := by
  unfold Expirer.nextCall at hnext
  split at hnext
  · cases hnext
  · rename_i fs jobs hjobs
    have hspace : x.single_space = some space :=
      h.single_space.resolve_right fun hnil => List.cons_ne_nil _ _ (hjobs.symm.trans hnil)
    rw [hspace] at hnext
    split at hnext
    · cases hnext
    · dsimp only at hnext
      split at hnext <;> obtain rfl := Option.some.inj hnext
      · exact ⟨Or.inl rfl, fun s => List.mem_singleton.mp, fun s => List.mem_singleton.mp, nofun⟩
      · exact ⟨Or.inl rfl, trivial⟩
  · rename_i fs jobs hjobs
    have hspace : x.single_space = some space :=
      h.single_space.resolve_right fun hnil => List.cons_ne_nil _ _ (hjobs.symm.trans hnil)
    obtain rfl := Option.some.inj hnext
    exact ⟨Or.inl hspace, trivial⟩

/-- The next part of a call has listed what the one before has. -/
theorem in_of_follows {pc pc' : CallPc} (h : pc.Follows w pc') (hin : pc.In space) :
    pc'.In space := by
  cases h with
  | listIds => exact ⟨hin.1, hin.2.2⟩
  | strays => exact hin
  | listDeletedDirs => exact ⟨hin.1, nofun⟩
  | listDeletedIds => exact hin.2
  | closed | cleaned | closedLive | listDeleted | deleted => trivial

/-- What is found in `space` joins what was found there. -/
theorem forall_mem_found {dirs : List (Str × Str)} {s : Str} {names : List Str} (hs : s = space)
    (hdirs : ∀ d ∈ dirs, d.1 = space) : ∀ d ∈ dirs ++ names.map (s, ·), d.1 = space := by
  intro d hd
  rcases List.mem_append.mp hd with hd | hd
  · exact hdirs d hd
  · obtain ⟨name, -, rfl⟩ := List.mem_map.mp hd
    exact hs

/-- A step that gets to expire an entry: no call failed, and a name was found. -/
theorem expired_of_callStep {fs fs' id id' : Str} {ids ids' : List Str} {e' : DBEntry} {ts : ℤ}
    (hpc : x.pc = .expireEntries fs (id :: ids)) (hpc' : x'.pc = .moveExpired fs' id' e' ts ids')
    (h : x.callStep config t w = some (w', x', removal)) :
    ∃ e, w.readEntry fs .live id = some e ∧ e'.workspace = e.workspace ∧
      (0 < e.expiration ∧ e.expiration < t.now) ∧ t.outcome = .ok ∧ 0 ≤ t.now₂ ∧
        w.freeTimestamp fs id e t.now₂ 1000 ≠ none := by
  rw [callStep.eq_def, hpc] at h
  dsimp only at h
  split at h
  · obtain ⟨-, rfl, -⟩ := Option.some.inj h
    cases hpc'
  · rename_i e hread
    split at h
    · obtain ⟨-, rfl, -⟩ := Option.some.inj h
      cases hpc'
    · rename_i hover
      dsimp only [World.expire] at h
      by_cases hneg : t.now₂ < 0
      · rw [if_pos hneg] at h
        obtain ⟨-, rfl, -⟩ := Option.some.inj h
        cases hpc'
      rw [if_neg hneg] at h
      cases hfree : w.freeTimestamp fs id e t.now₂ 1000 with
      | none =>
        rw [hfree] at h
        obtain ⟨-, rfl, -⟩ := Option.some.inj h
        cases hpc'
      | some ts' =>
        rw [hfree] at h
        by_cases hok : t.outcome = .ok
        · dsimp only at h
          rw [if_pos hok] at h
          obtain ⟨-, rfl, -⟩ := Option.some.inj h
          obtain ⟨-, -, rfl, -, -⟩ := CallPc.moveExpired.inj hpc'
          exact ⟨e, hread, rfl, by omega, hok, by omega, hfree ▸ Option.some_ne_none ts'⟩
        · dsimp only at h
          rw [if_neg hok] at h
          obtain ⟨-, rfl, -⟩ := Option.some.inj h
          cases hpc'

/-- A step that gets to delete an entry: no call failed. -/
theorem ok_of_deleteDir {fs fs' id : Str} {ids ids' : List Str} {wspath : DirLoc}
    (hpc : x.pc = .deleteEntries fs (id :: ids)) (hpc' : x'.pc = .deleteDir fs' wspath ids')
    (h : x.callStep config t w = some (w', x', removal)) : t.outcome = .ok := by
  rw [callStep.eq_def, hpc] at h
  dsimp only at h
  split at h
  · split at h
    · split at h
      · assumption
      · obtain ⟨-, rfl, -⟩ := Option.some.inj h
        cases hpc'
    · obtain ⟨-, rfl, -⟩ := Option.some.inj h
      cases hpc'
  · obtain ⟨-, rfl, -⟩ := Option.some.inj h
    cases hpc'

/-- **Step lemma.** -/
theorem RestrictedTo.callStep (hx : x.RestrictedTo space)
    (honly : ExpiresOnlyIn config space ⟨w, x⟩ (.expirer t))
    (h : x.callStep config t w = some (w', x', removal)) :
    LeavesOthers space w w' ∧ x'.RestrictedTo space := by
  have hin := hx.within
  dsimp only [ExpiresOnlyIn] at honly
  have hspec := callStep_spec h
  cases hspec with
  | nextCall hpc hnext => exact ⟨.refl space w, hx.nextCall hnext⟩
  | goOn hnext => exact ⟨.refl space w, hx.goto (in_of_follows hnext hin)⟩
  | listDirs hpc hlist =>
    rw [hpc] at hin
    obtain ⟨hspaces, htodo, hdirs⟩ := hin
    obtain ⟨hspace, htodo⟩ := List.forall_mem_cons.mp htodo
    exact ⟨.refl space w, hx.goto ⟨hspaces, htodo, forall_mem_found hspace hdirs⟩⟩
  | listIds hpc hopen hlist | readPath hpc =>
    rw [hpc] at hin
    exact ⟨.refl space w, hx.goto hin⟩
  | keep hpc =>
    rw [hpc] at hin
    exact ⟨.refl space w, hx.goto ⟨hin.1, (List.forall_mem_cons.mp hin.2).2⟩⟩
  | stray hpc hstray hfind hold =>
    rw [hpc] at hin
    exact ⟨.refl space w, hx.goto hin⟩
  | moveStray hpc =>
    rw [hpc] at hin
    obtain ⟨hspaces, hdirs⟩ := hin
    obtain ⟨hspace, hdirs⟩ := List.forall_mem_cons.mp hdirs
    exact ⟨.moveDir t.outcome t.now hspace hspace, hx.goto ⟨hspaces, hdirs⟩⟩
  | listDeletedDirs hpc hlist =>
    rw [hpc] at hin
    obtain ⟨htodo, hdirs⟩ := hin
    obtain ⟨hspace, htodo⟩ := List.forall_mem_cons.mp htodo
    exact ⟨.refl space w, hx.goto ⟨htodo, forall_mem_found hspace hdirs⟩⟩
  | listDeletedIds hpc hlist =>
    rw [hpc] at hin
    exact ⟨.refl space w, hx.goto hin⟩
  | keepDeleted hpc =>
    rw [hpc] at hin
    exact ⟨.refl space w, hx.goto (List.forall_mem_cons.mp hin).2⟩
  | removeStray hpc hstray hrun =>
    rw [hpc] at hin
    obtain ⟨hspace, hdirs⟩ := List.forall_mem_cons.mp hin
    exact ⟨.rmtree t.outcome hspace, hx.goto hdirs⟩
  | listLive hpc hlist | listDeleted hpc hlist => exact ⟨.refl space w, hx.goto trivial⟩
  | keepEntry hpc | keepDeletedEntry hpc => exact ⟨.refl space w, hx.goto trivial⟩
  | notExpired hpc hread hover hfails =>
    exact ⟨.writeEntry (World.readEntry_eq_some.mp hread).2 rfl, hx.goto trivial⟩
  | @expired fs id ids e ts hpc hread hover hts hfree =>
    rw [hpc] at honly
    obtain ⟨e', hread', -, -, hok, hnonneg, hname⟩ := expired_of_callStep hpc rfl h
    obtain rfl := Option.some.inj (hread.symm.trans hread')
    have hspace : e.workspace.space = space := by
      by_contra hother
      rcases honly e hread hother hover.1 hover.2 with hfails | hneg | hnone
      · exact hfails hok
      · omega
      · exact hname hnone
    have hnone : w.db.lookup ⟨fs, .deleted, deletedName id ts⟩ = none := by
      simp only [World.nameTaken, Bool.or_eq_false_iff, Option.isSome_eq_false_iff,
        Option.isNone_iff_eq_none] at hfree
      exact hfree.1
    exact ⟨.retire (World.readEntry_eq_some.mp hread).2 hspace hnone, hx.goto hspace⟩
  | moveExpired hpc =>
    rw [hpc] at hin
    exact ⟨.moveDir t.outcome t.now hin hin, hx.goto trivial⟩
  | ended hpc => exact ⟨.refl space w, restrictedTo_idle⟩
  | @deleteEntry fs id ids e fsconfig hpc hread hfs hover =>
    rw [hpc] at honly
    have hspace : e.workspace.space = space := by
      by_contra hother
      exact honly e fsconfig hread hother hfs hover (ok_of_deleteDir hpc rfl h)
    exact ⟨.removeEntry (World.readEntry_eq_some.mp hread).2 hspace, hx.goto hspace⟩
  | deleteDir hpc =>
    rw [hpc] at hin
    exact ⟨.rmtree t.outcome hin, hx.goto trivial⟩

end Expirer

/-! ## Exactly when the other spaces are left alone -/

namespace ExpirerRun

variable {config : Config} {space : Str} {s s' : ExpirerRun} {label : RunLabel} {t : Tick}

/-- An entry of another space that is expired is not where it was. -/
theorem not_leaves_of_expired {fs id : Str} {ids : List Str} {e : DBEntry}
    (hpc : s.expirer.pc = .expireEntries fs (id :: ids))
    (hread : s.world.readEntry fs .live id = some e) (hother : e.workspace.space ≠ space)
    (hover : 0 < e.expiration ∧ e.expiration < t.now) (hok : t.outcome = .ok) (hnow : 0 ≤ t.now₂)
    (hname : s.world.freeTimestamp fs id e t.now₂ 1000 ≠ none) :
    ¬StepLeavesOthers config space s (.expirer t) := by
  intro hleaves
  obtain ⟨ts, hfree⟩ := Option.ne_none_iff_exists'.mp hname
  have hstep : s.freeStep config (.expirer t) =
      some ⟨(s.world.writeEntry ⟨fs, .live, id⟩ { e with expired := t.now₃ }).renameEntry
        ⟨fs, .live, id⟩ ⟨fs, .deleted, deletedName id ts⟩,
        { s.expirer with pc := .moveExpired fs id { e with expired := t.now₃ } ts ids }⟩ := by
    have hcall : ¬(e.expiration ≤ 0 ∨ t.now ≤ e.expiration) := by omega
    have hnonneg : ¬t.now₂ < 0 := by omega
    rw [freeStep, Expirer.callStep.eq_def, hpc]
    dsimp only
    rw [hread]
    dsimp only
    rw [if_neg hcall, World.expire, if_neg hnonneg, hfree]
    dsimp only
    rw [if_pos hok]
    rfl
  obtain ⟨e', hlook, -⟩ := (hleaves _ hstep).entries _ e (World.readEntry_eq_some.mp hread).2 hother
  have hgone : ∀ w : World, (w.renameEntry ⟨fs, .live, id⟩
      ⟨fs, .deleted, deletedName id ts⟩).db.lookup ⟨fs, .live, id⟩ = none :=
    fun w => World.lookup_renameEntry_from (by simp)
  rw [hgone] at hlook
  cases hlook

/-- An entry of another space that is deleted is not where it was. -/
theorem not_leaves_of_deleted {fs id : Str} {ids : List Str} {e : DBEntry}
    {fsconfig : FilesystemConfig} (hpc : s.expirer.pc = .deleteEntries fs (id :: ids))
    (hread : s.world.readEntry fs .deleted id = some e) (hother : e.workspace.space ≠ space)
    (hfs : config.getFsConfig fs = some fsconfig)
    (hover : shouldDelete fsconfig id e t.now = some true) (hok : t.outcome = .ok) :
    ¬StepLeavesOthers config space s (.expirer t) := by
  intro hleaves
  have hstep : s.freeStep config (.expirer t) =
      some ⟨s.world.removeEntry ⟨fs, .deleted, id⟩,
        { s.expirer with pc := .deleteDir fs ⟨e.workspace.space, .deleted, id⟩ ids }⟩ := by
    rw [freeStep, Expirer.callStep.eq_def, hpc]
    dsimp only
    rw [hread, hfs]
    dsimp only
    rw [if_pos hover, if_pos hok]
    rfl
  obtain ⟨e', hlook, -⟩ := (hleaves _ hstep).entries _ e (World.readEntry_eq_some.mp hread).2 hother
  rw [World.lookup_removeEntry] at hlook
  cases hlook

/-- A step that leaves the other spaces alone expires and deletes no entry of one. -/
theorem StepLeavesOthers.expiresOnlyIn (h : StepLeavesOthers config space s label) :
    ExpiresOnlyIn config space s label := by
  cases label with
  | others w => trivial
  | expirer t =>
    unfold ExpiresOnlyIn
    dsimp only
    split
    · rename_i fs id ids hpc
      intro e hread hother hpos hover
      by_contra hnot
      simp only [not_or, not_not, Int.not_lt] at hnot
      obtain ⟨hok, hnow, hname⟩ := hnot
      exact not_leaves_of_expired hpc hread hother ⟨hpos, hover⟩ hok hnow hname h
    · rename_i fs id ids hpc
      intro e fsconfig hread hother hfs hover hok
      exact not_leaves_of_deleted hpc hread hother hfs hover hok h
    · trivial

/-- A step that expires and deletes no entry of another space leaves those alone. -/
theorem ExpiresOnlyIn.stepLeavesOthers (h : ExpiresOnlyIn config space s label)
    (hx : s.expirer.RestrictedTo space) : StepLeavesOthers config space s label := by
  cases label with
  | others w => trivial
  | expirer t =>
    intro s' hstep
    obtain ⟨⟨w', x', removal⟩, hcall, rfl⟩ := Option.map_eq_some_iff.mp hstep
    exact (hx.callStep h hcall).1

/-- The expirer stays restricted to its space. -/
theorem ExpiresOnlyIn.restrictedTo (h : ExpiresOnlyIn config space s label)
    (hx : s.expirer.RestrictedTo space) (hstep : s.freeStep config label = some s') :
    s'.expirer.RestrictedTo space := by
  cases label with
  | others w =>
    obtain rfl := Option.some.inj hstep
    exact hx
  | expirer t =>
    obtain ⟨⟨w', x', removal⟩, hcall, rfl⟩ := Option.map_eq_some_iff.mp hstep
    exact (hx.callStep h hcall).2

/-- **A run with `-s` leaves the other spaces alone** exactly when `expire_workspaces` gets to
expire and to delete no entry of a workspace in one of them. -/
theorem leavesOthers_iff (config : Config) (space : Str) (fslist : List Str) (w : World)
    (run : List RunLabel) :
    Runs.Meets (freeStep config) (StepLeavesOthers config space)
        ⟨w, Expirer.start fslist (some space)⟩ run ↔
      Runs.Meets (freeStep config) (ExpiresOnlyIn config space)
        ⟨w, Expirer.start fslist (some space)⟩ run := by
  have hstart : (Expirer.start fslist (some space)).RestrictedTo space := ⟨Or.inl rfl, trivial⟩
  have honly : ∀ (s : ExpirerRun) (label : RunLabel), s.expirer.RestrictedTo space →
      StepLeavesOthers config space s label → ExpiresOnlyIn config space s label :=
    fun _ _ _ hleaves => hleaves.expiresOnlyIn
  have hleaves : ∀ (s : ExpirerRun) (label : RunLabel), s.expirer.RestrictedTo space →
      ExpiresOnlyIn config space s label → StepLeavesOthers config space s label :=
    fun _ _ hx honly => honly.stepLeavesOthers hx
  constructor
  · intro hmeets
    exact hmeets.imp (fun s _ _ hx hleaves hstep => hleaves.expiresOnlyIn.restrictedTo hx hstep)
      honly hstart
  · intro hmeets
    exact hmeets.imp (fun s _ _ hx honly hstep => honly.restrictedTo hx hstep) hleaves hstart

/-! ## A filesystem with two spaces -/

/-- One filesystem with the spaces `s` and `r`. -/
def twoSpaces : Config := .single ['w'] (.ofSpaces ['s'] [['r']])

/-- A workspace of `bob` in `r` whose time ended at 500. -/
def workspaceInOther : World where
  db := (∅ : AList fun _ : DbLoc => DbFile).insert ⟨['w'], .live, "bob-x".toList⟩
    (.entry ⟨"bob".toList, ⟨['r'], "bob-x".toList⟩, 100, 500, 0, 3, false, [], [], [], 0, 0, []⟩)
  dirs := DirTree.empty.create ⟨['r'], .live, "bob-x".toList⟩ ⟨100, false, 1000⟩
  magic := some

/-- A step of the expirer with a listing. -/
def tickAt (now : ℤ) (listing : List Str) : RunLabel := .expirer ⟨now, now, now, listing, .ok⟩

/-- A cleaner-mode run with `-s s` at 1000, up to the first entry of `expire_workspaces`. -/
def runUpToEntry : List RunLabel :=
  [tickAt 1000 [], tickAt 1000 [], tickAt 1000 [], tickAt 1000 ["bob-x".toList], tickAt 1000 [],
    tickAt 1000 [], tickAt 1000 [], tickAt 1000 [], tickAt 1000 [], tickAt 1000 [], tickAt 1000 [],
    tickAt 1000 [], tickAt 1000 ["bob-x".toList]]

/-- A run with `-s s` expires the workspace in `r` and moves its directory. -/
theorem not_leavesOthers :
    (¬∀ (config : Config) (space : Str) (fslist : List Str) (w : World) (run : List RunLabel),
      Runs.Meets (freeStep config) (StepLeavesOthers config space)
        ⟨w, Expirer.start fslist (some space)⟩ run) ∧
      ∃ s, Runs.exec (freeStep twoSpaces) ⟨workspaceInOther, Expirer.start [['w']] (some ['s'])⟩
          (runUpToEntry ++ [tickAt 1000 [], tickAt 1000 []]) = some s ∧
        s.world.db.lookup ⟨['w'], .live, "bob-x".toList⟩ = none ∧
        s.world.dirs.find ⟨['r'], .live, "bob-x".toList⟩ = none := by
  refine ⟨fun h => ?_, _, rfl, by decide, by decide⟩
  have hmeets := h twoSpaces ['s'] [['w']] workspaceInOther (runUpToEntry ++ [tickAt 1000 []])
  have hlast : StepLeavesOthers twoSpaces ['s'] _ (tickAt 1000 []) := hmeets.of_exec rfl
  obtain ⟨e', hlook, -⟩ := (hlast _ rfl).entries ⟨['w'], .live, "bob-x".toList⟩ _ rfl (by decide)
  have hgone : some (DbFile.entry e') = none := hlook.symm.trans rfl
  cases hgone

end ExpirerRun

end HpcWorkspace
