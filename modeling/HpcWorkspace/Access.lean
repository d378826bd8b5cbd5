import HpcWorkspace.Restore

/-!
# Access control of the tools

Each tool asks `hasAccess` for the filesystem it is going to act on, through the list of valid
filesystems. Creating, releasing and restoring are checked for the caller on every path. An
extension is checked only when the filesystems are searched: with `-F` it is the right to create
that is checked, and for the user of `-u`. So the rights are enforced for a caller exactly when
wherever this other check lets him through he may extend as well.
-/

namespace HpcWorkspace

variable {config : Config} {c : Caller} {w : World}

/-! ## The promise -/

/-- **Every right is enforced** for the caller: whatever a tool does in a filesystem, he has the
access for. -/
structure Enforced (config : Config) (c : Caller) : Prop where
  /-- creating -/
  create : ∀ {a : AllocArgs} {env : AllocEnv} {w : World} {fs id : Str} {e : DBEntry},
    (wsAllocate config c a env w).2 = .created fs id e →
      config.hasAccess c.username c.groups fs .create = true
  /-- extending -/
  extend : ∀ {a : AllocArgs} {env : AllocEnv} {w : World} {fs id : Str} {e e' : DBEntry},
    (wsAllocate config c a env w).2 = .extended fs id e e' →
      config.hasAccess c.username c.groups fs .extend = true
  /-- releasing -/
  release : ∀ {a : ReleaseArgs} {env : ReleaseEnv} {w : World} {fs id : Str} {e : DBEntry}
    {timestamp : ℤ} {moved : Bool},
    (wsRelease config c a env w).2 = .released fs id e timestamp moved ∨
      (wsRelease config c a env w).2 = .deleted fs id e →
      config.hasAccess c.username c.groups fs .release = true
  /-- restoring, the filesystem of the deleted workspace and the one of the target -/
  restore : ∀ {a : RestoreArgs} {env : RestoreEnv} {w : World} {fs targetFs targetId : Str}
    {e target : DBEntry} {moved : Bool},
    (wsRestore config c a env w).2 = .restored fs e targetFs targetId target moved →
      config.hasAccess c.username c.groups fs .restore = true ∧
        config.hasAccess c.username c.groups targetFs .restore = true
  /-- deleting restorable data -/
  wipe : ∀ {a : RestoreArgs} {env : RestoreEnv} {w : World} {fs : Str} {e : DBEntry} {gone : Bool},
    (wsRestore config c a env w).2 = .wiped fs e gone →
      config.hasAccess c.username c.groups fs .restore = true

/-! ## Creating -/

/-- `-u` is ignored for ordinary users who create. -/
theorem user_option_of_create {a : AllocArgs} {user_option : Str} (hc : c.isRoot = false)
    (hcmd : allocCommandline c a = some user_option) (hext : a.extension = false) :
    user_option = [] := by
  obtain ⟨-, huser, -⟩ := allocCommandline_eq_some.mp hcmd
  rw [huser, hext, hc]
  cases a.user <;> rfl

/-- `-u` is ignored for ordinary users who release. -/
theorem user_option_of_release {a : ReleaseArgs} {user_option : Str} (hc : c.isRoot = false)
    (hcmd : releaseCommandline c a = some user_option) : user_option = [] := by
  obtain ⟨-, huser⟩ := releaseCommandline_eq_some.mp hcmd
  rw [huser, hc]
  cases a.user <;> rfl

theorem isRoot_of_nonRoot (hc : c.NonRoot) : c.isRoot = false := beq_false_of_ne hc.1

/-- A filesystem that passes the check of `-F` may be used for creating by the user checked. -/
theorem hasAccess_of_validateFsAndGroup {a : AllocArgs} {username fs : Str}
    (hc : c.isRoot = false) (h : validateFsAndGroup config c a username = true)
    (hfs : a.filesystem = some fs) : config.hasAccess username c.groups fs .create = true := by
  simp only [validateFsAndGroup, hfs, Bool.and_eq_true, hc, Bool.or_false] at h
  exact Config.mem_validFilesystems.mp (List.contains_iff_mem.mp h.2)

/-- A caller who gets to create something may do so where the search starts. -/
theorem hasAccess_create {a : AllocArgs} {user_option fs : Str} {rest : List Str} (hc : c.NonRoot)
    (checks : AllocChecks config c a w user_option) (hext : a.extension = false)
    (hfirst : allocSearchlist config c a = fs :: rest) :
    config.hasAccess c.username c.groups fs .create = true := by
  cases hF : a.filesystem with
  | some fs' =>
    rw [allocSearchlist, hF] at hfirst
    obtain ⟨rfl, -⟩ := List.cons.inj hfirst
    have hopt := user_option_of_create (isRoot_of_nonRoot hc) checks.commandline hext
    have hcheck := checks.fsAndGroup
    rw [validatedUser, if_pos hopt] at hcheck
    exact hasAccess_of_validateFsAndGroup (isRoot_of_nonRoot hc) hcheck hF
  | none =>
    simp only [allocSearchlist, hF, hext, Bool.false_eq_true, if_false] at hfirst
    refine Config.mem_validFilesystems.mp ?_
    rw [hfirst]
    exact List.mem_cons_self ..

/-! ## Releasing and restoring -/

/-- A caller who gets to release something may do so there. -/
theorem hasAccess_release {a : ReleaseArgs} {user_option fs : Str} {e : DBEntry} (hc : c.NonRoot)
    (hcmd : releaseCommandline c a = some user_option)
    (hfind : releaseFind config c a user_option w = some (fs, e)) :
    config.hasAccess c.username c.groups fs .release = true := by
  have hroot := isRoot_of_nonRoot hc
  obtain ⟨hcheck, hfound, -⟩ := releaseFind_eq_some hfind
  obtain ⟨hmem, -, -⟩ := mem_findEntries.mp (hfound ▸ List.mem_singleton_self (fs, e))
  have hopt := user_option_of_release hroot hcmd
  cases hF : a.filesystem with
  | some fs' =>
    rw [releaseSearchlist, hF] at hmem
    obtain rfl := List.mem_singleton.mp hmem
    simp only [validateFs, hF, validatedUser, if_pos hopt, hroot, Bool.or_false] at hcheck
    exact Config.mem_validFilesystems.mp (List.contains_iff_mem.mp hcheck)
  | none =>
    rw [releaseSearchlist, hF] at hmem
    exact Config.mem_validFilesystems.mp hmem

/-- An ordinary caller restores for himself. -/
theorem RestoreFound.user_eq {a : RestoreArgs} {username fs : Str} {fslist : List Str}
    {e : DBEntry} (hc : c.NonRoot) (found : RestoreFound config c a w username fslist fs e) :
    username = c.username := found.user.resolve_right hc.2

/-- A caller who gets to restore or delete something may do so there. -/
theorem hasAccess_restore {a : RestoreArgs} {username fs : Str} {fslist : List Str} {e : DBEntry}
    (hc : c.NonRoot) (found : RestoreFound config c a w username fslist fs e) :
    config.hasAccess c.username c.groups fs .restore = true := by
  rw [← found.user_eq hc]
  exact hasAccess_of_mem_restoreFslist found.list found.mem

/-- The same for the target. -/
theorem hasAccess_restoreTarget {a : RestoreArgs} {username fs id targetFs : Str}
    {fslist : List Str} {e target : DBEntry} (hc : c.NonRoot)
    (found : RestoreFound config c a w username fslist fs e)
    (htarget : restoreTarget w fslist id = some (targetFs, target)) :
    config.hasAccess c.username c.groups targetFs .restore = true := by
  rw [← found.user_eq hc]
  exact hasAccess_of_mem_restoreFslist found.list (restoreTarget_eq_some htarget).1

/-! ## Extending -/

/-- Does the check of `-F` let the caller through to an extension in a filesystem? For an entry of
his own it asks for his right to create, for an entry he is a delegate of it asks for the right of
the user he names. -/
def PassesCreate (config : Config) (c : Caller) (fs : Str) : Prop :=
  (config.hasAccess c.username c.groups fs .create = true ∧ '/' ∉ c.username) ∨
    (∃ g ∈ c.userGroups, g ≠ []) ∧
      ∃ u, AcceptedUser u ∧ config.hasAccess u c.groups fs .create = true

/-- Where the check of `-F` lets the caller through, he may extend. -/
def ExtendGuarded (config : Config) (c : Caller) : Prop :=
  config.validFilesystems c.username c.groups .create ≠ [] →
    ∀ fs fsconfig, config.getFsConfig fs = some fsconfig → fsconfig.extendable = true →
      PassesCreate config c fs → config.hasAccess c.username c.groups fs .extend = true

/-- Who extends an entry may modify it or is a delegate. -/
theorem extendEntry_allowed {a : AllocArgs} {env : AllocEnv} {user_option : Str}
    {fsconfig : FilesystemConfig} {e e' : DBEntry}
    (h : extendEntry config c a user_option env fsconfig e = some e') :
    fsconfig.extendable = true ∧
      (mayModify c user_option = true ∨ isDelegate c env e = true) := by
  dsimp only [extendEntry] at h
  split at h
  · cases h
  rename_i hextendable
  split at h
  · cases h
  rename_i hmay
  refine ⟨by simpa using hextendable, ?_⟩
  rw [Bool.and_eq_true, Bool.not_eq_true', Bool.not_eq_true', not_and, Bool.not_eq_false] at hmay
  by_cases hown : mayModify c user_option = true
  · exact Or.inl hown
  · exact Or.inr (hmay (by simpa using hown))

/-- The id of an extension. -/
theorem allocId_of_extension {a : AllocArgs} {user_option : Str} (hext : a.extension = true) :
    allocId c a user_option = wsid (validatedUser c user_option) a.name := by
  rw [allocId, validatedUser]
  cases user_option with
  | nil => simp
  | cons x xs => simp [hext]

/-- An extension with `-F` passed the check. -/
theorem passesCreate_of_extended {a : AllocArgs} {env : AllocEnv} {user_option fs : Str}
    {fsconfig : FilesystemConfig} {e e' : DBEntry} (hc : c.NonRoot)
    (checks : AllocChecks config c a w user_option) (hF : a.filesystem = some fs)
    (hid : checkID (allocId c a user_option) = true) (hext : a.extension = true)
    (hentry : extendEntry config c a user_option env fsconfig e = some e') :
    PassesCreate config c fs := by
  have haccess := hasAccess_of_validateFsAndGroup (isRoot_of_nonRoot hc) checks.fsAndGroup hF
  have hown : validatedUser c user_option = c.username → PassesCreate config c fs := fun heq => by
    rw [heq] at haccess
    refine Or.inl ⟨haccess, fun hslash => ?_⟩
    rw [allocId_of_extension hext, heq, checkID] at hid
    have hcontains : (wsid c.username a.name).contains '/' = true :=
      List.contains_iff_mem.mpr (List.mem_append_left _ hslash)
    rw [hcontains, Bool.or_true] at hid
    cases hid
  by_cases hnone : user_option = []
  · exact hown (if_pos hnone)
  by_cases heq : user_option = c.username
  · exact hown ((if_neg hnone).trans heq)
  · rw [validatedUser, if_neg hnone] at haccess
    have haccepted := (allocCommandline_eq_some.mp checks.commandline).2.2 hnone
    rcases (extendEntry_allowed hentry).2 with hmay | hdel
    · rw [mayModify, isRoot_of_nonRoot hc, beq_false_of_ne hnone, beq_false_of_ne heq] at hmay
      cases hmay
    · rw [isDelegate, Bool.and_eq_true, Bool.and_eq_true, bne_iff_ne] at hdel
      exact Or.inr ⟨⟨e.group, List.contains_iff_mem.mp hdel.1.2, hdel.1.1⟩,
        user_option, haccepted, haccess⟩

/-- Where the check of `-F` is enough, a caller who gets to extend something may do so there. -/
theorem hasAccess_extend {a : AllocArgs} {env : AllocEnv} {user_option fs : Str}
    {fsconfig : FilesystemConfig} {e e' : DBEntry} (hc : c.NonRoot)
    (hguard : ExtendGuarded config c) (checks : AllocChecks config c a w user_option)
    (hext : a.extension = true)
    (hfound : findEntries w (allocSearchlist config c a) (allocId c a user_option) = [(fs, e)])
    (hfs : config.getFsConfig fs = some fsconfig)
    (hentry : extendEntry config c a user_option env fsconfig e = some e') :
    config.hasAccess c.username c.groups fs .extend = true := by
  obtain ⟨hmem, -, hread⟩ := mem_findEntries.mp (hfound ▸ List.mem_singleton_self (fs, e))
  cases hF : a.filesystem with
  | some fs' =>
    rw [allocSearchlist, hF] at hmem
    obtain rfl := List.mem_singleton.mp hmem
    have hid := (World.readEntry_eq_some.mp hread).1
    exact hguard checks.valid _ _ hfs (extendEntry_allowed hentry).1
      (passesCreate_of_extended hc checks hF hid hext hentry)
  | none =>
    simp only [allocSearchlist, hF, hext, if_true] at hmem
    exact Config.mem_validFilesystems.mp hmem

/-! ## A world with one workspace -/

/-- An entry of a group that can be extended. -/
def groupEntry (user group : Str) : DBEntry :=
  { username := user
    workspace := ⟨[], []⟩
    creation := 0
    expiration := 0
    reminder := 0
    extensions := 1
    groupflag := true
    group := group
    mailaddress := []
    comment := []
    released := 0
    expired := 0
    acctcode := [] }

/-- `ws_allocate -x -F <fs> [-u <user>] x 0` -/
def extendArgs (fs : Str) (user : Option Str) : AllocArgs :=
  { name := ['x']
    duration := 0
    filesystem := some fs
    extension := true
    reminder := 0
    mailaddress := []
    user := user
    groupreadable := none
    groupwritable := none
    comment := [] }

/-- Surroundings in which every directory is accessible. -/
def plainEnv : AllocEnv :=
  { now := 0
    created := 0
    rand := 0
    statfs := fun _ => none
    passwd := fun _ => none
    groupKnown := fun _ => true
    access := fun _ => true }

/-- The world with one workspace `x`, of a user, in a filesystem. -/
def oneWorkspace (fs user group : Str) : World :=
  World.init.writeEntry ⟨fs, .live, wsid user ['x']⟩ (groupEntry user group)

/-- At most one workspace is counted in it. -/
theorem countWorkspaces_oneWorkspace_le (config : Config) (fs user group username : Str)
    (groups : List Str) :
    countWorkspaces config (oneWorkspace fs user group) username groups ≤ 1 := by
  have hzero : countWorkspaces config .init username groups = 0 := by
    refine List.sum_eq_zero_iff_forall_eq_nat.mpr fun n hn => ?_
    obtain ⟨fs', -, rfl⟩ := List.mem_map.mp hn
    split <;> rfl
  have hopen : World.init.openDB fs = true := beq_self_eq_true (some fs)
  rw [oneWorkspace, countWorkspaces_writeEntry config _ hopen, hzero]
  split <;> decide

/-- The call finds the workspace of the user it works for. -/
theorem findEntries_oneWorkspace {fs user group : Str} (hslash : '/' ∉ user) :
    findEntries (oneWorkspace fs user group) [fs] (wsid user ['x']) =
      [(fs, (groupEntry user group).persisted)] := by
  have hread : (oneWorkspace fs user group).readEntry fs .live (wsid user ['x']) =
      some (groupEntry user group).persisted :=
    World.readEntry_eq_some.mpr ⟨checkID_wsid hslash (by decide), World.lookup_writeEntry ..⟩
  have hopen : (oneWorkspace fs user group).openDB fs = true := beq_self_eq_true (some fs)
  rw [findEntries, List.filterMap_cons, hopen, if_pos rfl, hread]
  rfl

/-- A call that passes the check of `-F`, of an owner or a delegate, extends. -/
theorem extends_oneWorkspace {fs user group : Str} {option : Option Str}
    {fsconfig : FilesystemConfig}
    (hvalid : config.validFilesystems c.username c.groups .create ≠ [])
    (hfs : config.getFsConfig fs = some fsconfig) (hextendable : fsconfig.extendable = true)
    (haccess : config.hasAccess user c.groups fs .create = true) (hslash : '/' ∉ user)
    (hcmd : allocCommandline c (extendArgs fs option) = some (option.getD []))
    (huser : validatedUser c (option.getD []) = user)
    (hmay : mayModify c (option.getD []) = true ∨ group ≠ [] ∧ group ∈ c.userGroups) :
    ∃ id e e', (wsAllocate config c (extendArgs fs option) plainEnv
      (oneWorkspace fs user group)).2 = .extended fs id e e' := by
  have hcheck : validateFsAndGroup config c (extendArgs fs option) user = true := by
    have hmem : (config.validFilesystems user c.groups .create).contains fs = true :=
      List.contains_iff_mem.mpr (Config.mem_validFilesystems.mpr haccess)
    rw [validateFsAndGroup]
    simp only [extendArgs, groupGiven, hmem, Bool.true_or, Bool.and_self]
  have checks : AllocChecks config c (extendArgs fs option) (oneWorkspace fs user group)
      (option.getD []) := by
    refine ⟨hcmd, hvalid, by rw [huser]; exact hcheck, fun hmax => ?_, fun fs' hmem => ?_⟩
    · have := countWorkspaces_oneWorkspace_le config fs user group c.username c.groups
      omega
    · obtain rfl := List.mem_singleton.mp hmem
      exact ⟨fsconfig, hfs⟩
  have hid : allocId c (extendArgs fs option) (option.getD []) = wsid user ['x'] := by
    rw [allocId_of_extension rfl, huser]
    rfl
  have hentry : ∃ e', extendEntry config c (extendArgs fs option) (option.getD []) plainEnv fsconfig
      (groupEntry user group).persisted = some e' := by
    dsimp only [extendEntry]
    rw [hextendable, if_neg (by decide), if_neg ?_]
    · simp [DBEntry.useExtension, DBEntry.extensionsLeft, extendedExpiration, extendArgs, DBEntry.persisted, groupEntry]
    · rcases hmay with hmay | ⟨hne, hmem⟩
      · simp [hmay]
      · have : isDelegate c plainEnv (groupEntry user group).persisted = true := by
          cases group with
          | nil => exact absurd rfl hne
          | cons x xs => simpa [isDelegate, plainEnv, DBEntry.persisted, groupEntry] using hmem
        simp [this]
  obtain ⟨e', he'⟩ := hentry
  refine ⟨wsid user ['x'], (groupEntry user group).persisted, e', ?_⟩
  have hlist : allocSearchlist config c (extendArgs fs option) = [fs] := rfl
  rw [wsAllocate_of_checks checks]
  dsimp only [allocateChecked]
  rw [hlist, hid, findEntries_oneWorkspace hslash]
  simp only [extendArgs, if_true, hfs] at he' ⊢
  rw [he']

/-! ## When the rights are enforced -/

/-- Wherever the check of `-F` lets a caller through, he can extend an entry. -/
theorem exists_extended {fs : Str} {fsconfig : FilesystemConfig}
    (hvalid : config.validFilesystems c.username c.groups .create ≠ [])
    (hfs : config.getFsConfig fs = some fsconfig) (hextendable : fsconfig.extendable = true)
    (hpass : PassesCreate config c fs) :
    ∃ a env w id e e', (wsAllocate config c a env w).2 = .extended fs id e e' := by
  rcases hpass with ⟨haccess, hslash⟩ | ⟨⟨g, hg, hne⟩, u, haccepted, haccess⟩
  · -- an entry of the caller
    have hcmd : allocCommandline c (extendArgs fs none) = some [] :=
      allocCommandline_eq_some.mpr ⟨rfl, rfl, fun h => absurd rfl h⟩
    have hmay : mayModify c ((none : Option Str).getD []) = true := by simp [mayModify]
    obtain ⟨id, e, e', h⟩ := extends_oneWorkspace hvalid hfs hextendable haccess hslash hcmd rfl
      (Or.inl hmay)
    exact ⟨_, _, oneWorkspace fs c.username [], id, e, e', h⟩
  · -- an entry of the user that is named
    have hcmd : allocCommandline c (extendArgs fs (some u)) = some u :=
      allocCommandline_eq_some.mpr ⟨rfl, rfl, fun _ => haccepted⟩
    obtain ⟨id, e, e', h⟩ := extends_oneWorkspace hvalid hfs hextendable haccess
      haccepted.no_slash hcmd (if_neg haccepted.ne_nil) (Or.inr ⟨hne, hg⟩)
    exact ⟨_, _, _, id, e, e', h⟩

/-- **Access control.** The rights of an ordinary caller are enforced exactly when he may extend
wherever the check of `-F` lets him through to an extension. -/
theorem enforced_iff_extendGuarded (config : Config) (c : Caller) (hc : c.NonRoot) :
    Enforced config c ↔ ExtendGuarded config c := by
  constructor
  · intro h hvalid fs fsconfig hfs hextendable hpass
    obtain ⟨a, env, w, id, e, e', hext⟩ := exists_extended hvalid hfs hextendable hpass
    exact h.extend hext
  · intro hguard
    refine ⟨?_, ?_, ?_, ?_, ?_⟩
    · intro a env w fs id e h
      generalize hout : wsAllocate config c a env w = out at h
      have hspec := wsAllocate_spec config c a env w
      rw [hout] at hspec
      cases hspec with
      | creates checks create missing first configured allocatable opened =>
        rcases createWorkspace_result config c a _ env w _ _ with hmade | ⟨id', e', hmade⟩
        · cases hmade.symm.trans h
        · obtain ⟨rfl, -⟩ := AllocResult.created.inj (hmade.symm.trans h)
          exact hasAccess_create hc checks create first
      | _ => cases h
    · intro a env w fs id e e' h
      generalize hout : wsAllocate config c a env w = out at h
      have hspec := wsAllocate_spec config c a env w
      rw [hout] at hspec
      cases hspec with
      | extended checks extend found configured entry =>
        obtain ⟨rfl, -⟩ := AllocResult.extended.inj h
        exact hasAccess_extend hc hguard checks extend found configured entry
      | creates checks create missing first configured allocatable opened =>
        rcases createWorkspace_result config c a _ env w _ _ with hmade | ⟨id', e', hmade⟩ <;>
          cases hmade.symm.trans h
      | _ => cases h
    · intro a env w fs id e timestamp moved h
      generalize hout : wsRelease config c a env w = out at h
      have hspec := wsRelease_spec config c a env w
      rw [hout] at hspec
      cases hspec with
      | refused => rcases h with h | h <;> cases h
      | deleted commandline found =>
        rcases h with h | h
        · cases h
        · obtain ⟨rfl, -⟩ := ReleaseResult.deleted.inj h
          exact hasAccess_release hc commandline found
      | released commandline found =>
        rcases h with h | h
        · obtain ⟨rfl, -⟩ := ReleaseResult.released.inj h
          exact hasAccess_release hc commandline found
        · cases h
    · intro a env w fs targetFs targetId e target moved h
      generalize hout : wsRestore config c a env w = out at h
      have hspec := wsRestore_spec config c a env w
      rw [hout] at hspec
      cases hspec with
      | failed found keep hid htarget | onto found keep hid htarget | into found keep hid htarget =>
        obtain ⟨rfl, -, rfl, -⟩ := RestoreResult.restored.inj h
        exact ⟨hasAccess_restore hc found, hasAccess_restoreTarget hc found htarget⟩
      | _ => cases h
    · intro a env w fs e gone h
      generalize hout : wsRestore config c a env w = out at h
      have hspec := wsRestore_spec config c a env w
      rw [hout] at hspec
      cases hspec with
      | wiped found | wipedPartly found =>
        obtain ⟨rfl, -⟩ := RestoreResult.wiped.inj h
        exact hasAccess_restore hc found
      | _ => cases h

/-- A user in a group. -/
def ordinary (uid : ℕ) (username : Str) : Caller :=
  { uid := uid
    username := username
    gid := 1000
    groupname := "users".toList
    groups := ["users".toList]
    userGroups := ["users".toList] }

/-- A user `bob`. -/
def bob : Caller := ordinary 1000 "bob".toList

/-- Without access control lists everything is allowed, so the rights are enforced. -/
theorem enforced_single : Enforced (.single ['w'] (.ofSpaces ['s'] [])) bob :=
  (enforced_iff_extendGuarded (.single ['w'] (.ofSpaces ['s'] [])) bob
    ⟨by decide, by decide⟩).mpr fun _ fs fsconfig hfs _ _ => by
      obtain ⟨rfl, rfl⟩ := Config.getFsConfig_single.mp hfs
      decide

/-- A filesystem in which `bob` may only create and release. -/
def noExtendConfig : Config :=
  .single ['w']
    { FilesystemConfig.ofSpaces ['s'] [] with user_acl := ["bob:create,release".toList] }

/-- With `-F` he extends his workspace there. -/
theorem not_enforced :
    ¬∀ (config : Config) (c : Caller), c.NonRoot → Enforced config c := by
  intro h
  have hext : (wsAllocate noExtendConfig bob (extendArgs ['w'] none) plainEnv
      (oneWorkspace ['w'] bob.username [])).2 =
        .extended ['w'] (wsid bob.username ['x']) (groupEntry bob.username []).persisted
          (groupEntry bob.username []).persisted := by decide
  have haccess := (h noExtendConfig bob ⟨by decide, by decide⟩).extend hext
  exact absurd haccess (by decide)

end HpcWorkspace
