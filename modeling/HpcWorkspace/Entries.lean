import HpcWorkspace.System

/-!
# Where entries come from

Only `ws_allocate` makes entries. All other steps keep an entry in its place, with the same user
and the same directory, or move it from the live to the deleted area under its name and a time,
or drop it. So what holds of new entries, and does not depend on more than this, holds of all
entries of a run.
-/

namespace HpcWorkspace

variable {config : Config}

/-! ## Inherited entries -/

/-- Two versions of an entry of the same workspace. -/
structure SameWorkspace (e e' : DBEntry) : Prop where
  /-- the same user -/
  username : e'.username = e.username
  /-- the same directory -/
  workspace : e'.workspace = e.workspace

/-- Two versions between which nobody changed the address either. -/
structure SameContact (e e' : DBEntry) : Prop extends SameWorkspace e e' where
  /-- the same address -/
  mailaddress : e'.mailaddress = e.mailaddress

/-- A relation between the versions of an entry that writing and reading keep. -/
structure VersionRelation (same : DBEntry → DBEntry → Prop) : Prop where
  /-- an entry is a version of itself -/
  refl : ∀ e, same e e
  /-- versions of versions -/
  trans : ∀ {e e' e''}, same e e' → same e' e'' → same e e''
  /-- what is read after a write -/
  persisted : ∀ {e e'}, same e e' → same e e'.persisted

theorem SameWorkspace.relation : VersionRelation SameWorkspace where
  refl _ := ⟨rfl, rfl⟩
  trans h h' := ⟨h'.username.trans h.username, h'.workspace.trans h.workspace⟩
  persisted h := ⟨h.username, h.workspace⟩

theorem SameContact.relation : VersionRelation SameContact where
  refl e := ⟨SameWorkspace.relation.refl e, rfl⟩
  trans h h' := ⟨SameWorkspace.relation.trans h.toSameWorkspace h'.toSameWorkspace,
    h'.mailaddress.trans h.mailaddress⟩
  persisted h := ⟨SameWorkspace.relation.persisted h.toSameWorkspace, h.mailaddress⟩

theorem SameWorkspace.persisted (e : DBEntry) : SameWorkspace e e.persisted :=
  SameWorkspace.relation.persisted (SameWorkspace.relation.refl e)

/-- Where an entry file was before a step: in its place, or in the live area. -/
inductive MovedTo : DbLoc → DbLoc → Prop where
  /-- it stays -/
  | same (k : DbLoc) : MovedTo k k
  /-- it is expired or released -/
  | retired (fs id : Str) (ts : ℤ) : MovedTo ⟨fs, .live, id⟩ ⟨fs, .deleted, deletedName id ts⟩

theorem MovedTo.trans {k k' k'' : DbLoc} (h : MovedTo k k') (h' : MovedTo k' k'') :
    MovedTo k k'' := by
  cases h with
  | same => exact h'
  | retired fs id ts =>
    cases h' with
    | same => exact .retired fs id ts

/-- Each entry of `w'` is a version of one of `w`. -/
def Inherits (w w' : World) : Prop :=
  ∀ k' e', w'.db.lookup k' = some (.entry e') →
    ∃ k e, w.db.lookup k = some (.entry e) ∧ SameWorkspace e e' ∧ MovedTo k k'

/-- Each entry of `w'` is a version, in the sense of a relation, of one of `w`. -/
def InheritsBy (same : DBEntry → DBEntry → Prop) (w w' : World) : Prop :=
  ∀ k' e', w'.db.lookup k' = some (.entry e') →
    ∃ k e, w.db.lookup k = some (.entry e) ∧ same e e' ∧ MovedTo k k'

namespace InheritsBy

variable {same same' : DBEntry → DBEntry → Prop} {w w' w'' : World}

theorem mono (hsame : ∀ {e e'}, same e e' → same' e e') (h : InheritsBy same w w') :
    InheritsBy same' w w' := by
  intro k' e' hlook
  obtain ⟨k, e, hlook, hsame', hmoved⟩ := h k' e' hlook
  exact ⟨k, e, hlook, hsame hsame', hmoved⟩

variable (relation : VersionRelation same)
include relation

theorem of_db_eq (h : w'.db = w.db) : InheritsBy same w w' := fun k e hlook =>
  ⟨k, e, by rwa [← h], relation.refl e, .same k⟩

theorem refl (w : World) : InheritsBy same w w := of_db_eq relation rfl

theorem trans (h : InheritsBy same w w') (h' : InheritsBy same w' w'') : InheritsBy same w w'' := by
  intro k'' e'' hlook
  obtain ⟨k', e', hlook', hsame', hmoved'⟩ := h' k'' e'' hlook
  obtain ⟨k, e, hlook, hsame, hmoved⟩ := h k' e' hlook'
  exact ⟨k, e, hlook, relation.trans hsame hsame', hmoved.trans hmoved'⟩

/-- An entry is written anew. -/
theorem writeEntry {k : DbLoc} {e e' : DBEntry} (hlook : w.db.lookup k = some (.entry e))
    (hsame : same e e') : InheritsBy same w (w.writeEntry k e') := by
  intro k₁ e₁ h₁
  by_cases hk : k₁ = k
  · subst hk
    rw [World.lookup_writeEntry] at h₁
    obtain rfl := DbFile.entry.inj (Option.some.inj h₁)
    exact ⟨k₁, e, hlook, relation.persisted hsame, .same k₁⟩
  · rw [World.lookup_writeEntry_ne e' hk] at h₁
    exact ⟨k₁, e₁, h₁, relation.refl e₁, .same k₁⟩

theorem removeEntry (w : World) (k : DbLoc) : InheritsBy same w (w.removeEntry k) := by
  intro k₁ e₁ h₁
  by_cases hk : k₁ = k
  · rw [hk, World.lookup_removeEntry] at h₁
    cases h₁
  · rw [World.lookup_removeEntry_ne hk] at h₁
    exact ⟨k₁, e₁, h₁, relation.refl e₁, .same k₁⟩

/-- An entry is moved to the deleted area. -/
theorem retire (w : World) (fs id : Str) (ts : ℤ) :
    InheritsBy same w (w.renameEntry ⟨fs, .live, id⟩ ⟨fs, .deleted, deletedName id ts⟩) := by
  intro k₁ e₁ h₁
  have hne : (⟨fs, .live, id⟩ : DbLoc) ≠ ⟨fs, .deleted, deletedName id ts⟩ := by simp
  by_cases hk : k₁ = ⟨fs, .live, id⟩
  · rw [hk, World.lookup_renameEntry_from hne] at h₁
    cases h₁
  by_cases hk' : k₁ = ⟨fs, .deleted, deletedName id ts⟩
  · subst hk'
    cases hlook : w.db.lookup ⟨fs, .live, id⟩ with
    | none =>
      have hsame : w.renameEntry ⟨fs, .live, id⟩ ⟨fs, .deleted, deletedName id ts⟩ = w := by
        rw [World.renameEntry, hlook]
      rw [hsame] at h₁
      exact ⟨_, e₁, h₁, relation.refl e₁, .same _⟩
    | some f =>
      rw [World.lookup_renameEntry_to hlook] at h₁
      obtain rfl := Option.some.inj h₁
      exact ⟨_, e₁, hlook, relation.refl e₁, .retired fs id ts⟩
  · rw [World.lookup_renameEntry_ne hk hk'] at h₁
    exact ⟨k₁, e₁, h₁, relation.refl e₁, .same k₁⟩

/-- An entry is written anew and moved to the deleted area. -/
theorem retireAs {fs id : Str} {e e' : DBEntry}
    (hlook : w.db.lookup ⟨fs, .live, id⟩ = some (.entry e)) (hsame : same e e') (ts : ℤ) :
    InheritsBy same w ((w.writeEntry ⟨fs, .live, id⟩ e').renameEntry ⟨fs, .live, id⟩
      ⟨fs, .deleted, deletedName id ts⟩) :=
  (writeEntry relation hlook hsame).trans relation (retire relation _ fs id ts)

end InheritsBy

namespace Inherits

variable {w w' : World}

theorem of_db_eq (h : w'.db = w.db) : Inherits w w' := InheritsBy.of_db_eq SameWorkspace.relation h

theorem refl (w : World) : Inherits w w := of_db_eq rfl

theorem writeEntry {k : DbLoc} {e e' : DBEntry} (hlook : w.db.lookup k = some (.entry e))
    (hsame : SameWorkspace e e') : Inherits w (w.writeEntry k e') :=
  InheritsBy.writeEntry SameWorkspace.relation hlook hsame

theorem of_contact (h : InheritsBy SameContact w w') : Inherits w w' :=
  h.mono SameContact.toSameWorkspace

end Inherits

/-! ## The tools -/

@[simp] theorem moveDir_db (w : World) (outcome : Outcome) (k k' : DirLoc) (now : ℤ) :
    (w.moveDir outcome k k' now).1.db = w.db := by
  cases outcome with
  | ok =>
    dsimp only [World.moveDir]
    split
    · rename_i w' hren
      obtain ⟨-, rfl⟩ := World.renameDir_eq_some hren
      rfl
    · rfl
  | fails => rfl
  | partly =>
    dsimp only [World.moveDir]
    split <;> rfl

@[simp] theorem rmtree_db (w : World) (outcome : Outcome) (k : DirLoc) :
    (w.rmtree outcome k).db = w.db := by
  cases outcome <;> rfl

/-- A found entry lies where the search looked. -/
theorem lookup_of_findEntries {w : World} {searchlist : List Str} {id fs : Str} {e : DBEntry}
    (h : findEntries w searchlist id = [(fs, e)]) :
    w.db.lookup ⟨fs, .live, id⟩ = some (.entry e) := by
  have hmem : (fs, e) ∈ findEntries w searchlist id := h ▸ List.mem_singleton_self (fs, e)
  have hread := (mem_findEntries.mp hmem).2.2
  exact (World.readEntry_eq_some.mp hread).2

/-- An extension does not change user and directory. -/
theorem sameWorkspace_of_useExtension {e e' : DBEntry} {isRoot : Bool} {expiration reminder : ℤ}
    {mailaddress comment : Str}
    (h : e.useExtension isRoot expiration mailaddress reminder comment = some e') :
    SameWorkspace e e' := by
  unfold DBEntry.useExtension at h
  split at h
  · cases h
  · rw [← Option.some.inj h]
    exact ⟨rfl, rfl⟩

theorem sameWorkspace_of_extendEntry {c : Caller} {a : AllocArgs} {user_option : Str}
    {env : AllocEnv} {fsconfig : FilesystemConfig} {e e' : DBEntry}
    (h : extendEntry config c a user_option env fsconfig e = some e') : SameWorkspace e e' := by
  dsimp only [extendEntry] at h
  split at h
  · cases h
  split at h
  · cases h
  · exact sameWorkspace_of_useExtension h

/-- `ws_allocate` inherits the entries, but for the one it makes. -/
theorem wsAllocate_inherits (config : Config) (c : Caller) (a : AllocArgs) (env : AllocEnv)
    (w : World) :
    Inherits w (wsAllocate config c a env w).1 ∨
      ∃ (w₁ : World) (user_option : Str) (fsconfig : FilesystemConfig) (fs : Str), w₁.db = w.db ∧ config.getFsConfig fs = some fsconfig ∧
        allocCommandline c a = some user_option ∧ a.extension = false ∧
        (wsAllocate config c a env w).1 = w₁.writeEntry ⟨fs, .live, wsid c.username a.name⟩
          (newEntry config c a env fsconfig
            (workspaceDir fsconfig c env user_option a.name)) := by
  have hspec := wsAllocate_spec config c a env w
  generalize wsAllocate config c a env w = out at hspec ⊢
  cases hspec with
  | refused | reused => exact Or.inl (.refl w)
  | extended checks extend found configured entry =>
    exact Or.inl (.writeEntry (lookup_of_findEntries found) (sameWorkspace_of_extendEntry entry))
  | creates checks create missing first configured allocatable opened =>
    rename_i user_option fs rest fsconfig
    have hmade := createWorkspace_spec config c a user_option env w fs fsconfig
    generalize createWorkspace config c a user_option env w fs fsconfig = out at hmade ⊢
    cases hmade with
    | crashed | invalid => exact Or.inl (.of_db_eq (by simp))
    | created hdir hid he owner valid =>
      subst hid he hdir
      exact Or.inr ⟨_, user_option, fsconfig, fs, by simp, configured, checks.commandline,
        create, rfl⟩

/-- Releasing an entry that is there. -/
theorem release_keeps {w : World} {fs id : Str} {e : DBEntry} (released timestamp : ℤ)
    (h : w.db.lookup ⟨fs, .live, id⟩ = some (.entry e)) :
    InheritsBy SameContact w (DBEntry.release w fs id e released timestamp) := by
  refine .retireAs SameContact.relation h ?_ timestamp
  exact ⟨⟨rfl, rfl⟩, rfl⟩

theorem wsRelease_keeps (c : Caller) (a : ReleaseArgs) (env : ReleaseEnv) (w : World) :
    InheritsBy SameContact w (wsRelease config c a env w).1 := by
  have relation := SameContact.relation
  have hspec := wsRelease_spec config c a env w
  generalize wsRelease config c a env w = out at hspec ⊢
  cases hspec with
  | refused => exact .refl relation w
  | deleted commandline found hid =>
    subst hid
    have hlook := lookup_of_findEntries (releaseFind_eq_some found).2.1
    exact ((release_keeps _ _ hlook).trans relation (.of_db_eq relation (rmtree_db ..))).trans
      relation (.removeEntry relation _ _)
  | released commandline found hid htimestamp keep move =>
    subst hid
    have hlook := lookup_of_findEntries (releaseFind_eq_some found).2.1
    rw [(Prod.mk.inj move).1]
    exact (release_keeps _ _ hlook).trans relation (.of_db_eq relation (moveDir_db ..))

theorem wsRestore_keeps (c : Caller) (a : RestoreArgs) (env : RestoreEnv) (w : World) :
    InheritsBy SameContact w (wsRestore config c a env w).1 := by
  have relation := SameContact.relation
  have hspec := wsRestore_spec config c a env w
  generalize wsRestore config c a env w = out at hspec ⊢
  cases hspec with
  | refused | failed => exact .refl relation w
  | wiped => exact .trans relation (.of_db_eq relation (rmtree_db ..)) (.removeEntry relation _ _)
  | wipedPartly => exact .of_db_eq relation (rmtree_db ..)
  | onto found keep hid htarget path nosub move group =>
    rename_i username fs targetFs targetId fslist e target w' w''
    obtain ⟨-, rfl⟩ := World.renameDir_eq_some move
    refine .trans relation ?_ (.removeEntry relation _ _)
    rw [group]
    split
    · have hlook := (World.readEntry_eq_some.mp (restoreTarget_eq_some htarget).2.2).2
      exact .trans relation (.of_db_eq relation rfl)
        (.writeEntry relation hlook ⟨⟨rfl, rfl⟩, rfl⟩)
    · exact .of_db_eq relation rfl
  | into =>
    refine .trans relation (.of_db_eq relation ?_) (.removeEntry relation _ _)
    rw [World.removeDir_db, World.touch_db]

theorem callStep_keeps {x x' : Expirer} {t : Tick} {w w' : World} {removal : Option Removal}
    (h : x.callStep config t w = some (w', x', removal)) : InheritsBy SameContact w w' := by
  have relation := SameContact.relation
  have hspec := Expirer.callStep_spec h
  cases hspec with
  | moveStray | moveExpired => exact .of_db_eq relation (moveDir_db ..)
  | removeStray | deleteDir => exact .of_db_eq relation (rmtree_db ..)
  | notExpired hpc hread =>
    exact .writeEntry relation (World.readEntry_eq_some.mp hread).2 ⟨⟨rfl, rfl⟩, rfl⟩
  | expired hpc hread =>
    refine .retireAs relation (World.readEntry_eq_some.mp hread).2 ?_ _
    exact ⟨⟨rfl, rfl⟩, rfl⟩
  | deleteEntry => exact .removeEntry relation _ _
  | _ => exact .refl relation w

/-- Steps of other tools than `ws_allocate` make no entries and change no address. -/
theorem keeps_of_step {s s' : System} {act : Action} (hact : ∀ c a env, act ≠ .allocate c a env)
    (h : s.step config act = some s') : InheritsBy SameContact s.world s'.world := by
  cases act with
  | allocate c a env => exact absurd rfl (hact c a env)
  | release c a env =>
    dsimp only [System.step] at h
    split at h
    · obtain rfl := Option.some.inj h
      exact wsRelease_keeps c a env s.world
    · cases h
  | restore c a env =>
    dsimp only [System.step] at h
    split at h
    · obtain rfl := Option.some.inj h
      exact wsRestore_keeps c a env s.world
    · cases h
  | work path mtime isEmpty =>
    obtain rfl := Option.some.inj h
    exact .of_db_eq SameContact.relation rfl
  | expirer fslist single_space =>
    dsimp only [System.step] at h
    split at h
    · obtain rfl := Option.some.inj h
      exact .refl SameContact.relation _
    · cases h
  | tick t =>
    dsimp only [System.step] at h
    split at h
    · split at h
      · cases h
      · rename_i w x removal hstep
        obtain rfl := Option.some.inj h
        exact callStep_keeps hstep
    · cases h

theorem inherits_of_step {s s' : System} {act : Action} (hact : ∀ c a env, act ≠ .allocate c a env)
    (h : s.step config act = some s') : Inherits s.world s'.world :=
  .of_contact (keeps_of_step hact h)

/-! ## Properties of all entries -/

/-- A property of entries that other versions of the workspace's entry share. -/
structure Hereditary (P : DbLoc → DBEntry → Prop) : Prop where
  /-- it does not depend on what changes -/
  same : ∀ {k : DbLoc} {e e' : DBEntry}, SameWorkspace e e' → P k e → P k e'
  /-- it goes along to the deleted area -/
  retired : ∀ {fs id : Str} {ts : ℤ} {e : DBEntry},
    P ⟨fs, .live, id⟩ e → P ⟨fs, .deleted, deletedName id ts⟩ e

/-- Every entry has a property. -/
def World.Entries (w : World) (P : DbLoc → DBEntry → Prop) : Prop :=
  ∀ k e, w.db.lookup k = some (.entry e) → P k e

theorem Hereditary.of_inherits {P : DbLoc → DBEntry → Prop} (hP : Hereditary P) {w w' : World}
    (h : Inherits w w') (hw : w.Entries P) : w'.Entries P := by
  intro k' e' hlook
  obtain ⟨k, e, hlook, hsame, hmoved⟩ := h k' e' hlook
  have hke := hP.same hsame (hw k e hlook)
  cases hmoved with
  | same => exact hke
  | retired fs id ts => exact hP.retired hke

/-- **Step rule.** A hereditary property that new entries have is kept by every step. -/
theorem Hereditary.step {P : DbLoc → DBEntry → Prop} (hP : Hereditary P) {s s' : System}
    {act : Action} (hs : s.world.Entries P) (h : s.step config act = some s')
    (hnew : ∀ c a env fs fsconfig user_option, act = .allocate c a env →
      config.getFsConfig fs = some fsconfig → allocCommandline c a = some user_option →
      a.extension = false →
        P ⟨fs, .live, wsid c.username a.name⟩ (newEntry config c a env fsconfig
          (workspaceDir fsconfig c env user_option a.name))) : s'.world.Entries P := by
  cases act with
  | allocate c a env =>
    dsimp only [System.step] at h
    split at h
    · obtain rfl := Option.some.inj h
      rcases wsAllocate_inherits config c a env s.world with hinh |
        ⟨w₁, user_option, fsconfig, fs, hdb, hfs, hcmd, hext, heq⟩
      · exact hP.of_inherits hinh hs
      · have hmade := hnew c a env fs fsconfig user_option rfl hfs hcmd hext
        intro k e hlook
        dsimp only at hlook
        rw [heq] at hlook
        by_cases hk : k = ⟨fs, .live, wsid c.username a.name⟩
        · subst hk
          rw [World.lookup_writeEntry] at hlook
          obtain rfl := DbFile.entry.inj (Option.some.inj hlook)
          exact hP.same (.persisted _) hmade
        · rw [World.lookup_writeEntry_ne _ hk, hdb] at hlook
          exact hs k e hlook
    · cases h
  | _ => exact hP.of_inherits (inherits_of_step (fun _ _ _ heq => by cases heq) h) hs

end HpcWorkspace
