import HpcWorkspace.Access
import HpcWorkspace.Entries

/-!
# Keep times

What is shared by the results about expired and released workspaces: where their directories can
lie, what an entry in the deleted area says about the end of its keep time, and that the expirer
leaves such an entry alone until then.
-/

namespace HpcWorkspace

variable {config : Config}

/-! ## Spaces -/

/-- A space of a filesystem. -/
def SpaceOf (config : Config) (fs space : Str) : Prop :=
  ∃ fsconfig, config.getFsConfig fs = some fsconfig ∧ space ∈ fsconfig.spaces

/-- No space belongs to two filesystems. -/
def SpacesDisjoint (config : Config) : Prop :=
  ∀ fs fs' space, SpaceOf config fs space → SpaceOf config fs' space → fs = fs'

/-- The tools are called by ordinary users. -/
def Action.Ordinary : Action → Prop
  | .allocate c _ _ => c.NonRoot
  | .release c _ _ => c.NonRoot
  | .restore c _ _ => c.NonRoot
  | _ => True

/-- The directory of an entry is in a space of the filesystem, and a live one has the name of the
entry. -/
structure Placed (config : Config) (k : DbLoc) (e : DBEntry) : Prop where
  /-- the space -/
  space : SpaceOf config k.fs e.workspace.space
  /-- the name -/
  name : k.area = .live → e.workspace.name = k.id

theorem placed_hereditary (config : Config) : Hereditary (Placed config) where
  same hsame h := ⟨hsame.workspace ▸ h.space, hsame.workspace ▸ h.name⟩
  retired h := ⟨h.space, nofun⟩

/-- Every step of ordinary users and the expirer keeps entries in their place. -/
theorem placed_step {s s' : System} {act : Action} (hs : s.world.Entries (Placed config))
    (hact : act.Ordinary) (h : s.step config act = some s') :
    s'.world.Entries (Placed config) := by
  refine (placed_hereditary config).step hs h ?_
  rintro c a env fs fsconfig user_option rfl hfs hcmd hcreate
  obtain rfl := user_option_of_create (isRoot_of_nonRoot hact) hcmd hcreate
  exact ⟨⟨fsconfig, hfs, workspaceDir_space_mem ..⟩, fun _ => workspaceDir_name (Or.inl rfl) _⟩

theorem placed_init (config : Config) (clock : ℤ) :
    (System.init clock).world.Entries (Placed config) := by
  intro k e hlook
  rw [System.init, World.init, AList.lookup_empty] at hlook
  cases hlook

/-! ## Live entries are not released -/

/-- An extension does not mark an entry as released. -/
theorem released_of_extendEntry {c : Caller} {a : AllocArgs} {user_option : Str} {env : AllocEnv}
    {fsconfig : FilesystemConfig} {e e' : DBEntry}
    (h : extendEntry config c a user_option env fsconfig e = some e') : e'.released = e.released := by
  dsimp only [extendEntry] at h
  split at h
  · cases h
  split at h
  · cases h
  unfold DBEntry.useExtension at h
  split at h
  · cases h
  · rw [← Option.some.inj h]

/-- No live entry is marked as released. -/
def LiveUnreleased (w : World) : Prop :=
  ∀ fs id e, w.db.lookup ⟨fs, .live, id⟩ = some (.entry e) → e.released = 0

namespace LiveUnreleased

variable {w w' : World}

theorem of_db_eq (h : LiveUnreleased w) (hdb : w'.db = w.db) : LiveUnreleased w' := by
  intro fs id e hlook
  rw [hdb] at hlook
  exact h fs id e hlook

/-- An entry that is not released is written. -/
theorem writeEntry (h : LiveUnreleased w) {k : DbLoc} {e : DBEntry} (he : e.released = 0) :
    LiveUnreleased (w.writeEntry k e) := by
  intro fs id e' hlook
  by_cases hk : (⟨fs, .live, id⟩ : DbLoc) = k
  · subst hk
    rw [World.lookup_writeEntry] at hlook
    obtain rfl := DbFile.entry.inj (Option.some.inj hlook)
    dsimp only [DBEntry.persisted]
    rw [he]
    rfl
  · rw [World.lookup_writeEntry_ne e hk] at hlook
    exact h fs id e' hlook

theorem removeEntry (h : LiveUnreleased w) (k : DbLoc) : LiveUnreleased (w.removeEntry k) := by
  intro fs id e hlook
  by_cases hk : (⟨fs, .live, id⟩ : DbLoc) = k
  · rw [hk, World.lookup_removeEntry] at hlook
    cases hlook
  · rw [World.lookup_removeEntry_ne hk] at hlook
    exact h fs id e hlook

/-- Whatever is written to a live entry that is moved to the deleted area at once. -/
theorem retireAs (h : LiveUnreleased w) (fs id : Str) (e : DBEntry) (ts : ℤ) :
    LiveUnreleased ((w.writeEntry ⟨fs, .live, id⟩ e).renameEntry ⟨fs, .live, id⟩
      ⟨fs, .deleted, deletedName id ts⟩) := by
  intro fs' id' e' hlook
  by_cases hk : (⟨fs', .live, id'⟩ : DbLoc) = ⟨fs, .live, id⟩
  · rw [hk, World.lookup_renameEntry_from (by simp)] at hlook
    cases hlook
  · rw [World.lookup_renameEntry_ne hk (by simp), World.lookup_writeEntry_ne e hk] at hlook
    exact h fs' id' e' hlook

theorem wsAllocate (h : LiveUnreleased w) (c : Caller) (a : AllocArgs) (env : AllocEnv) :
    LiveUnreleased (wsAllocate config c a env w).1 := by
  have hspec := wsAllocate_spec config c a env w
  generalize HpcWorkspace.wsAllocate config c a env w = out at hspec ⊢
  cases hspec with
  | refused | reused => exact h
  | extended checks extend found configured entry =>
    have he := h _ _ _ (lookup_of_findEntries found)
    refine h.writeEntry ?_
    rw [← he]
    exact released_of_extendEntry entry
  | creates checks create missing first configured allocatable opened =>
    rename_i user_option fs rest fsconfig
    have hmade := createWorkspace_spec config c a user_option env w fs fsconfig
    generalize createWorkspace config c a user_option env w fs fsconfig = out at hmade ⊢
    cases hmade with
    | crashed | invalid => exact h.of_db_eq (by simp)
    | created hdir hid he owner valid =>
      subst he
      exact (h.of_db_eq (by simp)).writeEntry rfl

theorem wsRelease (h : LiveUnreleased w) (c : Caller) (a : ReleaseArgs) (env : ReleaseEnv) :
    LiveUnreleased (wsRelease config c a env w).1 := by
  have hspec := wsRelease_spec config c a env w
  generalize HpcWorkspace.wsRelease config c a env w = out at hspec ⊢
  cases hspec with
  | refused => exact h
  | deleted => exact ((h.retireAs _ _ _ _).of_db_eq (rmtree_db ..)).removeEntry _
  | released commandline found hid htimestamp keep move =>
    rw [(Prod.mk.inj move).1]
    exact (h.retireAs _ _ _ _).of_db_eq (moveDir_db ..)

theorem wsRestore (h : LiveUnreleased w) (c : Caller) (a : RestoreArgs) (env : RestoreEnv) :
    LiveUnreleased (wsRestore config c a env w).1 := by
  have hspec := wsRestore_spec config c a env w
  generalize HpcWorkspace.wsRestore config c a env w = out at hspec ⊢
  cases hspec with
  | refused | failed => exact h
  | wiped => exact (h.of_db_eq (rmtree_db ..)).removeEntry _
  | wipedPartly => exact h.of_db_eq (rmtree_db ..)
  | onto found keep hid htarget path nosub move group =>
    obtain ⟨-, rfl⟩ := World.renameDir_eq_some move
    refine LiveUnreleased.removeEntry ?_ _
    rw [group]
    split
    · have hlook := (World.readEntry_eq_some.mp (restoreTarget_eq_some htarget).2.2).2
      have htarget := h _ _ _ hlook
      exact LiveUnreleased.writeEntry (h.of_db_eq rfl) htarget
    · exact h.of_db_eq rfl
  | into => exact (h.of_db_eq (by rw [World.removeDir_db, World.touch_db])).removeEntry _

theorem callStep (h : LiveUnreleased w) {x x' : Expirer} {t : Tick} {removal : Option Removal}
    (hstep : x.callStep config t w = some (w', x', removal)) : LiveUnreleased w' := by
  have hspec := Expirer.callStep_spec hstep
  cases hspec with
  | moveStray | moveExpired => exact h.of_db_eq (moveDir_db ..)
  | removeStray | deleteDir => exact h.of_db_eq (rmtree_db ..)
  | notExpired hpc hread =>
    have he := h _ _ _ (World.readEntry_eq_some.mp hread).2
    exact h.writeEntry he
  | expired => exact h.retireAs _ _ _ _
  | deleteEntry => exact h.removeEntry _
  | _ => exact h

theorem step {s s' : System} {act : Action} (hs : LiveUnreleased s.world)
    (h : s.step config act = some s') : LiveUnreleased s'.world := by
  cases act with
  | allocate c a env =>
    dsimp only [System.step] at h
    split at h
    · obtain rfl := Option.some.inj h
      exact hs.wsAllocate c a env
    · cases h
  | release c a env =>
    dsimp only [System.step] at h
    split at h
    · obtain rfl := Option.some.inj h
      exact hs.wsRelease c a env
    · cases h
  | restore c a env =>
    dsimp only [System.step] at h
    split at h
    · obtain rfl := Option.some.inj h
      exact hs.wsRestore c a env
    · cases h
  | work path mtime isEmpty =>
    obtain rfl := Option.some.inj h
    exact hs
  | expirer fslist single_space =>
    dsimp only [System.step] at h
    split at h
    · obtain rfl := Option.some.inj h
      exact hs
    · cases h
  | tick t =>
    dsimp only [System.step] at h
    split at h
    · split at h
      · cases h
      · rename_i w x removal hstep
        obtain rfl := Option.some.inj h
        exact hs.callStep hstep
    · cases h

theorem init (clock : ℤ) : LiveUnreleased (System.init clock).world := by
  intro fs id e hlook
  rw [System.init, World.init, AList.lookup_empty] at hlook
  cases hlook

end LiveUnreleased

/-! ## The end of the keep time -/

/-- The times at which `expire_workspaces` deletes an entry. -/
theorem le_of_shouldDelete {fsconfig : FilesystemConfig} {id : Str} {e : DBEntry} {now : ℤ}
    (h : shouldDelete fsconfig id e now = some true) :
    (1000000000 < e.released ∧ e.released + fsconfig.releasekeeptime * 24 * 3600 ≤ now) ∨
      e.released ≤ 1000000000 ∧ max e.expiration e.expired + fsconfig.keeptime * 24 * 3600 < now ∧
        (e.released ≠ 0 → e.expired = 0 → 3000000000 + fsconfig.keeptime * 24 * 3600 < now) := by
  unfold shouldDelete at h
  split at h
  · cases h
  rename_i releasetime _
  dsimp only at h
  split at h
  · rename_i hrel
    have hle := of_decide_eq_true (Option.some.inj h)
    exact Or.inl ⟨hrel, hle⟩
  · rename_i hrel
    have hlt := of_decide_eq_true (Option.some.inj h)
    refine Or.inr ⟨Int.not_lt.mp hrel, ?_, ?_⟩
    · split at hlt <;> omega
    · intro hne hexp
      rw [if_pos hexp, if_pos hne] at hlt
      omega

/-- A time of release from which the entry keeps its keep time: the code ignores times before
2001 and takes the date 3000000000 for them. -/
def ReleaseTime (fsconfig : FilesystemConfig) (e : DBEntry) (released : ℤ) : Prop :=
  1000000000 < released ∨ 0 < released ∧ e.expired = 0 ∧
    released + fsconfig.releasekeeptime * 24 * 3600 ≤ 3000000000 + fsconfig.keeptime * 24 * 3600

namespace Retained

/-- The directory in the deleted area. -/
def dir (r : Retained) : DirLoc := ⟨r.space, .deleted, r.name⟩

/-- The deleted entry. -/
def key (r : Retained) : DbLoc := ⟨r.fs, .deleted, r.name⟩

/-- An entry that is not deleted before the deadline. -/
def KeptBy (config : Config) (r : Retained) (e : DBEntry) : Prop :=
  ∀ fsconfig now, config.getFsConfig r.fs = some fsconfig →
    shouldDelete fsconfig r.name e now = some true → r.deadline ≤ now

/-- An entry that is marked as released. -/
theorem keptBy_released {r : Retained} {e : DBEntry} {released : ℤ} {fsconfig : FilesystemConfig}
    (hfs : config.getFsConfig r.fs = some fsconfig)
    (hdeadline : r.deadline = released + fsconfig.releasekeeptime * 24 * 3600)
    (htime : ReleaseTime fsconfig e released) :
    r.KeptBy config ({ e with released := released } : DBEntry).persisted := by
  intro fsconfig' now hfs' hdel
  obtain rfl := Option.some.inj (hfs.symm.trans hfs')
  have hle := le_of_shouldDelete hdel
  have hpos : released > 0 := by rcases htime with h | h <;> omega
  dsimp only [DBEntry.persisted] at hle
  rw [if_pos hpos] at hle
  rw [hdeadline]
  rcases hle with ⟨-, hle⟩ | ⟨hold, -, hdate⟩
  · exact hle
  · rcases htime with htime | ⟨-, hexp, hkeep⟩
    · omega
    · rw [hexp] at hdate
      have := hdate (by omega) rfl
      omega

/-- An entry that is marked as expired. -/
theorem keptBy_expired {r : Retained} {e : DBEntry} {expired : ℤ} {fsconfig : FilesystemConfig}
    (hfs : config.getFsConfig r.fs = some fsconfig)
    (hdeadline : r.deadline = expired + fsconfig.keeptime * 24 * 3600) (hlive : e.released = 0) :
    r.KeptBy config ({ e with expired := expired } : DBEntry).persisted := by
  intro fsconfig' now hfs' hdel
  obtain rfl := Option.some.inj (hfs.symm.trans hfs')
  have hle := le_of_shouldDelete hdel
  dsimp only [DBEntry.persisted] at hle
  rw [hlive, if_neg (by omega)] at hle
  rw [hdeadline]
  split at hle <;> omega

/-- The deleted entry of a retained workspace is there, and says so. -/
structure EntryKept (config : Config) (w : World) (r : Retained) : Prop where
  /-- the space is one of the filesystem -/
  space : SpaceOf config r.fs r.space
  /-- the entry -/
  entry : ∃ e, w.db.lookup r.key = some (.entry e) ∧ e.username = r.owner ∧ r.KeptBy config e

variable {w w' : World} {r : Retained}

theorem EntryKept.congr (h : EntryKept config w r) (hdb : w'.db.lookup r.key = w.db.lookup r.key) :
    EntryKept config w' r := by
  obtain ⟨e, he, hrest⟩ := h.entry
  exact ⟨h.space, e, hdb.trans he, hrest⟩

theorem EntryKept.lookup_ne_none (h : EntryKept config w r) : w.db.lookup r.key ≠ none := by
  obtain ⟨e, he, -⟩ := h.entry
  rw [he]
  exact Option.some_ne_none _

/-- An entry is moved to a free name. -/
theorem EntryKept.retireAs (h : EntryKept config w r) {fs id : Str} (e : DBEntry) {ts : ℤ}
    (hfree : w.db.lookup ⟨fs, .deleted, deletedName id ts⟩ = none) :
    EntryKept config ((w.writeEntry ⟨fs, .live, id⟩ e).renameEntry ⟨fs, .live, id⟩
      ⟨fs, .deleted, deletedName id ts⟩) r := by
  have hlive : r.key ≠ ⟨fs, .live, id⟩ := by simp [key]
  have hname : r.key ≠ ⟨fs, .deleted, deletedName id ts⟩ := fun heq =>
    h.lookup_ne_none (heq ▸ hfree)
  exact h.congr ((World.lookup_renameEntry_ne hlive hname).trans (World.lookup_writeEntry_ne e hlive))

/-- **The expirer leaves the entry alone** until the deadline. -/
theorem EntryKept.callStep (h : EntryKept config w r) {x x' : Expirer} {t : Tick}
    {removal : Option Removal} (hstep : Expirer.CallStep config x t w w' x' removal)
    (hearly : t.now < r.deadline) : EntryKept config w' r := by
  cases hstep with
  | moveStray | moveExpired => exact h.congr (by rw [moveDir_db])
  | removeStray | deleteDir => exact h.congr (by rw [rmtree_db])
  | notExpired => exact h.congr (World.lookup_writeEntry_ne _ (by simp [key]))
  | expired hpc hread hover hts hfree =>
    rw [World.nameTaken, Bool.or_eq_false_iff, Option.isSome_eq_false_iff,
      Option.isNone_iff_eq_none] at hfree
    exact h.retireAs _ hfree.1
  | deleteEntry hpc hread hfs hover =>
    rename_i fs id ids e fsconfig
    refine h.congr (World.lookup_removeEntry_ne fun heq => ?_)
    -- it would be over its keep time
    obtain ⟨e', he', -, hkept⟩ := h.entry
    rw [heq, (World.readEntry_eq_some.mp hread).2] at he'
    obtain rfl := DbFile.entry.inj (Option.some.inj he')
    obtain ⟨rfl, -, rfl⟩ := DbLoc.mk.inj heq
    exact absurd (hkept fsconfig t.now hfs hover) (by omega)
  | _ => exact h

end Retained

/-! ## Directories -/

section Directories

variable {w : World} {outcome : Outcome} {k k' k₀ : DirLoc} {now : ℤ} {i : ℕ}

/-- The ways a move of a directory can end. -/
theorem moveDir_cases (w : World) (outcome : Outcome) (k k' : DirLoc) (now : ℤ) :
    (w.moveDir outcome k k' now).1.dirs = w.dirs ∨
      (w.moveDir outcome k k' now).1.dirs = w.dirs.move k k' ∧ w.mayReplace k' = true ∨
      ∃ d, (w.moveDir outcome k k' now).1.dirs = w.dirs.create k' d ∧ w.dirs.find k' = none := by
  cases outcome with
  | ok =>
    dsimp only [World.moveDir]
    unfold World.renameDir
    split
    · rename_i w' hren
      split at hren
      · rename_i hcond
        obtain rfl := Option.some.inj hren
        exact Or.inr (Or.inl ⟨rfl, hcond.2⟩)
      · cases hren
    · exact Or.inl rfl
  | fails => exact Or.inl rfl
  | partly =>
    dsimp only [World.moveDir]
    split
    · rename_i n _ hnone
      exact Or.inr (Or.inr ⟨_, rfl, hnone⟩)
    · exact Or.inl rfl

theorem find_moveDir_ne (h : k₀ ≠ k) (h' : k₀ ≠ k') :
    (w.moveDir outcome k k' now).1.dirs.find k₀ = w.dirs.find k₀ := by
  rcases moveDir_cases w outcome k k' now with heq | ⟨heq, -⟩ | ⟨d, heq, -⟩ <;> rw [heq]
  · exact DirTree.find_move_ne h h'
  · exact DirTree.find_create_ne d h'

/-- A directory that is not empty is not replaced. -/
theorem find_moveDir_of_not_mayReplace (hkeep : w.mayReplace k' = false) :
    (w.moveDir outcome k k' now).1.dirs.find k' = w.dirs.find k' := by
  rcases moveDir_cases w outcome k k' now with heq | ⟨-, hmay⟩ | ⟨d, -, hnone⟩
  · rw [heq]
  · rw [hkeep] at hmay
    cases hmay
  · rw [World.mayReplace, hnone] at hkeep
    cases hkeep

/-- A move that nothing hinders. -/
theorem find_moveDir_ok {n : DirNode Dir} (hk : w.dirs.find k = some n)
    (hmay : w.mayReplace k' = true) :
    (w.moveDir .ok k k' now).1.dirs.find k' = some n := by
  have hren : w.renameDir k k' = some { w with dirs := w.dirs.move k k' } := by
    rw [World.renameDir, if_pos ⟨by rw [hk]; rfl, hmay⟩]
  rw [World.moveDir, hren]
  exact DirTree.find_move_to hk

theorem gone_moveDir (h : w.dirs.Gone i) : (w.moveDir outcome k k' now).1.dirs.Gone i := by
  rcases moveDir_cases w outcome k k' now with heq | ⟨heq, -⟩ | ⟨d, heq, -⟩ <;> rw [heq]
  · exact h
  · exact h.move k k'
  · exact h.create k' d

theorem find_rmtree_ne (h : k₀ ≠ k) : (w.rmtree outcome k).dirs.find k₀ = w.dirs.find k₀ := by
  cases outcome with
  | ok => exact World.find_removeDir_ne h
  | fails => rfl
  | partly => exact DirTree.find_modify_ne _ h

theorem gone_of_rmtree (h : w.dirs.Gone i) : (w.rmtree outcome k).dirs.Gone i := by
  cases outcome with
  | ok => exact h.remove k
  | fails => exact h
  | partly => exact DirTree.Gone.modify h k fun d => { d with isEmpty := false }

/-- A directory that is deleted without an error is gone. -/
theorem gone_rmtree {n : DirNode Dir} (h : w.dirs.find k = some n) :
    (w.rmtree .ok k).dirs.Gone n.inode := DirTree.gone_remove h

theorem gone_makeDir {dirs : DirTree DirLoc Dir} (h : dirs.Gone i) :
    (makeDir dirs k now).Gone i := by
  unfold makeDir
  split
  · exact h
  · exact h.create k _

theorem gone_chownDir {dirs : DirTree DirLoc Dir} {uid : ℕ} (h : dirs.Gone i) :
    (chownDir dirs k uid).Gone i := h.modify k fun d => { d with uid := uid }

theorem gone_touch {mtime : ℤ} {isEmpty : Bool} (h : w.dirs.Gone i) :
    (w.touch k mtime isEmpty).dirs.Gone i :=
  DirTree.Gone.modify h k fun d => { d with mtime := mtime, isEmpty := isEmpty }

/-- What is gone does not come back with a step of the expirer. -/
theorem gone_callStep {x x' : Expirer} {t : Tick} {w' : World} {removal : Option Removal}
    (hstep : Expirer.CallStep config x t w w' x' removal) (h : w.dirs.Gone i) :
    w'.dirs.Gone i := by
  cases hstep with
  | moveStray | moveExpired => exact gone_moveDir h
  | removeStray | deleteDir => exact gone_of_rmtree h
  | expired =>
    rw [World.renameEntry_dirs, World.writeEntry_dirs]
    exact h
  | _ => exact h

end Directories

end HpcWorkspace
