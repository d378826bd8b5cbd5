import HpcWorkspace.Access

/-!
# A created workspace is found again

The directory of a new workspace and the look-ups are named after the user of `-u` when root
gives one, the entry always after the caller. So what was created is found again when `-u` names
nobody or the caller himself; the same call must also still be below the number of workspaces a
user can have, the new one included.
-/

namespace HpcWorkspace

variable {config : Config} {c : Caller} {a : AllocArgs} {env : AllocEnv} {w w' : World}
  {user_option fs id : Str} {e : DBEntry} {fsconfig : FilesystemConfig} {tuid : ℕ}

/-! ## The promise -/

/-- A search finds exactly this entry, when it comes to the filesystem of the entry and to no
other one with an entry of that name. -/
def FindsExactly (w : World) (searchlist : List Str) (lookup fs : Str) (e : DBEntry) : Prop :=
  fs ∈ searchlist →
    (∀ fs' ∈ searchlist, fs' ≠ fs → w.openDB fs' = true → w.readEntry fs' .live lookup = none) →
      findEntries w searchlist lookup = [(fs, e)]

/-- **A created workspace is found again**: `w'` is the state after the call `a` has created the
entry `e` with this id in the filesystem. -/
structure FoundAgain (config : Config) (c : Caller) (a : AllocArgs) (env : AllocEnv) (w' : World)
    (fs id : Str) (e : DBEntry) : Prop where
  /-- the directory is named like the entry -/
  dirname : e.workspace.name = id
  /-- the user of the entry owns the directory -/
  owner : ∃ n, w'.dirs.find e.workspace.loc = some n ∧ env.passwd e.username = some n.attr.uid
  /-- the same call reports the entry -/
  again : ∀ env', wsAllocate config c a env' w' = (w', .reused fs id e.persisted)
  /-- a call with `-x` finds it, when the same `-u` counts -/
  extend : ∀ (a' : AllocArgs) (user_option : Str), a'.extension = true → a'.name = a.name →
    allocCommandline c a = some user_option → allocCommandline c a' = some user_option →
      FindsExactly w' (allocSearchlist config c a') (allocId c a' user_option) fs e.persisted
  /-- so does `ws_release` -/
  release : ∀ (r : ReleaseArgs) (user_option : Str), r.name = a.name →
    allocCommandline c a = some user_option → releaseCommandline c r = some user_option →
      FindsExactly w' (releaseSearchlist config c r) (releaseId c r user_option) fs e.persisted

/-- Root names another user with `-u`. -/
def NamesOther (c : Caller) (a : AllocArgs) : Prop :=
  c.isRoot = true ∧ a.user.getD [] ≠ [] ∧ a.user.getD [] ≠ c.username

/-- The caller can have one more workspace, of this name in this filesystem. -/
def RoomLeft (config : Config) (c : Caller) (w : World) (fs name : Str) : Prop :=
  config.global.maxuserworkspaces > 0 →
    ((countWorkspaces config w c.username c.groups +
      if w.db.lookup ⟨fs, .live, wsid c.username name⟩ = none ∧
        isCounted config c.username c.groups ⟨fs, .live, wsid c.username name⟩ = true
      then 1 else 0 : ℕ) : ℤ) ≤ config.global.maxuserworkspaces

/-! ## What a creation did -/

/-- A call that created an entry. -/
structure Creation (config : Config) (c : Caller) (a : AllocArgs) (env : AllocEnv) (w w' : World)
    (fs id : Str) (e : DBEntry) (user_option : Str) (fsconfig : FilesystemConfig) (tuid : ℕ) :
    Prop where
  /-- it got past its checks -/
  checks : AllocChecks config c a w user_option
  /-- it was not an extension -/
  create : a.extension = false
  /-- its search found nothing -/
  missing : findEntries w (allocSearchlist config c a) (allocId c a user_option) = []
  /-- the filesystem is one of those searched -/
  searched : fs ∈ allocSearchlist config c a
  /-- its database was opened -/
  opened : w.openDB fs = true
  /-- the owner of the directory -/
  owner : workspaceUid c env user_option = some tuid
  /-- the id is one of the caller -/
  id_eq : id = wsid c.username a.name
  /-- it is accepted -/
  valid : checkID id = true
  /-- the entry -/
  entry : e = newEntry config c a env fsconfig (workspaceDir fsconfig c env user_option a.name)
  /-- the state afterwards -/
  world : w' = ((w.mkdir e.workspace.loc env.now).chown e.workspace.loc tuid).writeEntry
    ⟨fs, .live, id⟩ e

theorem creation_of_created (h : wsAllocate config c a env w = (w', .created fs id e)) :
    ∃ user_option fsconfig tuid,
      Creation config c a env w w' fs id e user_option fsconfig tuid := by
  have hspec := wsAllocate_spec config c a env w
  rw [h] at hspec
  generalize hout : (w', AllocResult.created fs id e) = out at hspec
  cases hspec with
  | creates checks create missing first configured allocatable opened =>
    rename_i user_option fs' rest fsconfig
    have hmade := createWorkspace_spec config c a user_option env w fs' fsconfig
    rw [← hout] at hmade
    generalize hout' : (w', AllocResult.created fs id e) = out' at hmade
    cases hmade with
    | created hdir hid he owner valid =>
      obtain ⟨rfl, hres⟩ := Prod.mk.inj hout'
      obtain ⟨rfl, rfl, rfl⟩ := AllocResult.created.inj hres
      refine ⟨user_option, fsconfig, _, checks, create, missing, ?_, opened, owner, hid, valid,
        by rw [he, hdir], by rw [he]; rfl⟩
      rw [first]
      exact List.mem_cons_self ..
    | _ => cases (Prod.mk.inj hout').2
  | _ => cases (Prod.mk.inj hout).2

namespace Creation

variable (h : Creation config c a env w w' fs id e user_option fsconfig tuid)
include h

/-- The entry can be read. -/
theorem readEntry : w'.readEntry fs .live id = some e.persisted := by
  refine World.readEntry_eq_some.mpr ⟨h.valid, ?_⟩
  rw [h.world]
  exact World.lookup_writeEntry ..

/-- The entries of other filesystems are as before. -/
theorem readEntry_ne {fs' lookup : Str} (hne : fs' ≠ fs) :
    w'.readEntry fs' .live lookup = w.readEntry fs' .live lookup := by
  have hkey : (⟨fs', .live, lookup⟩ : DbLoc) ≠ ⟨fs, .live, id⟩ := fun heq =>
    hne (DbLoc.mk.inj heq).1
  have hlook : w'.db.lookup ⟨fs', .live, lookup⟩ = w.db.lookup ⟨fs', .live, lookup⟩ := by
    rw [h.world, World.lookup_writeEntry_ne e hkey, World.chown_db, World.mkdir_db]
  rw [World.readEntry, World.readEntry, hlook]

theorem magic : w'.magic = w.magic := by
  rw [h.world]
  rfl

theorem openDB (fs' : Str) : w'.openDB fs' = w.openDB fs' := by
  rw [World.openDB, World.openDB, h.magic]

/-- The user that counts. -/
theorem user_option_eq : user_option = if c.isRoot then a.user.getD [] else [] := by
  obtain ⟨-, huser, -⟩ := allocCommandline_eq_some.mp h.checks.commandline
  rw [huser, h.create]
  cases c.isRoot <;> cases a.user <;> rfl

/-- The number of workspaces of the caller afterwards. -/
theorem countWorkspaces_eq : countWorkspaces config w' c.username c.groups =
    countWorkspaces config w c.username c.groups +
      if w.db.lookup ⟨fs, .live, wsid c.username a.name⟩ = none ∧
        isCounted config c.username c.groups ⟨fs, .live, wsid c.username a.name⟩ = true
      then 1 else 0 := by
  have hmade : ((w.mkdir e.workspace.loc env.now).chown e.workspace.loc tuid).db = w.db := by
    rw [World.chown_db, World.mkdir_db]
  have hopen : ((w.mkdir e.workspace.loc env.now).chown e.workspace.loc tuid).openDB fs = true :=
    h.opened
  rw [h.world, countWorkspaces_writeEntry config e hopen, hmade, h.id_eq,
    countWorkspaces_congr hmade rfl]

/-- No other filesystem that is searched has an entry of that name. -/
theorem others (hid : allocId c a user_option = id) :
    ∀ fs' ∈ allocSearchlist config c a, fs' ≠ fs → w'.openDB fs' = true →
      w'.readEntry fs' .live id = none := by
  intro fs' hmem hne hopen
  rw [h.readEntry_ne hne]
  rw [h.openDB] at hopen
  by_contra hsome
  obtain ⟨e', he'⟩ := Option.ne_none_iff_exists'.mp hsome
  have : (fs', e') ∈ findEntries w (allocSearchlist config c a) (allocId c a user_option) :=
    mem_findEntries.mpr ⟨hmem, hopen, by rw [hid]; exact he'⟩
  rw [h.missing] at this
  cases this

/-- A search for the id finds the entry. -/
theorem findsExactly {searchlist : List Str} {lookup : Str} (hnodup : searchlist.Nodup)
    (hid : lookup = id) : FindsExactly w' searchlist lookup fs e.persisted := by
  subst hid
  intro hfs hothers
  exact findEntries_eq_singleton hnodup hfs ((h.openDB fs).trans h.opened) h.readEntry hothers

/-- The same call gets past its checks when there is room left. -/
theorem checks_again (hroom : RoomLeft config c w fs a.name) :
    AllocChecks config c a w' user_option where
  commandline := h.checks.commandline
  valid := h.checks.valid
  fsAndGroup := h.checks.fsAndGroup
  limit hmax := by
    rw [h.countWorkspaces_eq]
    exact hroom hmax
  configured := h.checks.configured

/-- The same call reports the entry. -/
theorem again (hid : allocId c a user_option = id) (hroom : RoomLeft config c w fs a.name)
    (env' : AllocEnv) : wsAllocate config c a env' w' = (w', .reused fs id e.persisted) := by
  have hfound := h.findsExactly (nodup_allocSearchlist config c a) hid h.searched (by
    rw [hid]
    exact h.others hid)
  rw [wsAllocate_of_checks (h.checks_again hroom)]
  dsimp only [allocateChecked]
  rw [hfound, hid, h.create]
  rfl

end Creation

/-! ## When it is found again -/

theorem nodup_releaseSearchlist (config : Config) (c : Caller) (r : ReleaseArgs) :
    (releaseSearchlist config c r).Nodup := by
  unfold releaseSearchlist
  split
  · exact List.nodup_singleton _
  · exact Config.nodup_validFilesystems

theorem workspaceUid_self (hpasswd : env.passwd c.username = some c.uid)
    (huser : user_option = [] ∨ user_option = c.username) :
    workspaceUid c env user_option = some c.uid := by
  rw [workspaceUid]
  split
  · rename_i hopt
    rcases huser with rfl | rfl
    · exact absurd hopt (Nat.lt_irrefl 0)
    · exact hpasswd
  · rfl

theorem allocId_self (huser : user_option = [] ∨ user_option = c.username) :
    allocId c a user_option = wsid c.username a.name := by
  rcases huser with rfl | rfl
  · simp [allocId]
  · simp [allocId]

theorem releaseId_self {r : ReleaseArgs} (huser : user_option = [] ∨ user_option = c.username) :
    releaseId c r user_option = wsid c.username r.name := by
  rcases huser with rfl | rfl
  · simp [releaseId]
  · simp [releaseId]

/-- **Found again.** What `ws_allocate` has created is found again exactly when root does not name
another user with `-u` and the caller could have one more workspace. -/
theorem foundAgain_iff (config : Config) (c : Caller) (a : AllocArgs) (env : AllocEnv)
    (w w' : World) (fs id : Str) (e : DBEntry) (hpasswd : env.passwd c.username = some c.uid)
    (h : wsAllocate config c a env w = (w', .created fs id e)) :
    FoundAgain config c a env w' fs id e ↔ ¬NamesOther c a ∧ RoomLeft config c w fs a.name := by
  obtain ⟨user_option, fsconfig, tuid, made⟩ := creation_of_created h
  have hdir : e.workspace = workspaceDir fsconfig c env user_option a.name := by
    rw [made.entry]
    rfl
  constructor
  · intro found
    constructor
    · rintro ⟨hroot, hopt, hother⟩
      have huser := made.user_option_eq
      rw [if_pos hroot] at huser
      rw [← huser] at hopt hother
      -- the directory is named after the other user
      have hname : e.workspace.name = wsid user_option a.name := by
        rw [hdir, workspaceDir, if_neg (fun hno => by simp [hroot] at hno),
          if_pos ⟨List.length_pos_iff.mpr hopt, hroot⟩]
      have heq := hname.symm.trans (found.dirname.trans made.id_eq)
      exact hother (List.append_cancel_right heq)
    · intro hmax
      have hspec := wsAllocate_spec config c a env w'
      rw [found.again env] at hspec
      generalize hout : (w', AllocResult.reused fs id e.persisted) = out at hspec
      have hlimit : (countWorkspaces config w' c.username c.groups : ℤ) ≤
          config.global.maxuserworkspaces := by
        cases hspec with
        | refused => cases (Prod.mk.inj hout).2
        | reused checks | extended checks | creates checks => exact checks.limit hmax
      rwa [made.countWorkspaces_eq] at hlimit
  · rintro ⟨hother, hroom⟩
    have huser : user_option = [] ∨ user_option = c.username := by
      rw [made.user_option_eq]
      cases hroot : c.isRoot with
      | false => exact Or.inl rfl
      | true =>
        by_contra hno
        rw [if_pos rfl, not_or] at hno
        exact hother ⟨hroot, hno⟩
    have hself : ∀ {b : AllocArgs} {user_option' : Str}, b.name = a.name →
        allocCommandline c a = some user_option' → allocId c b user_option' = id := by
      intro b user_option' hname hcmd
      obtain rfl := Option.some.inj (hcmd.symm.trans made.checks.commandline)
      rw [allocId_self huser, hname, made.id_eq]
    have hid := hself (b := a) rfl made.checks.commandline
    refine ⟨?_, ?_, made.again hid hroom, ?_, ?_⟩
    · rw [hdir, workspaceDir_name huser, made.id_eq]
    · obtain rfl : c.uid = tuid :=
        Option.some.inj ((workspaceUid_self hpasswd huser).symm.trans made.owner)
      obtain ⟨n, hn, -⟩ := find_makeDir_self w.dirs e.workspace.loc env.now
      refine ⟨⟨n.inode, { n.attr with uid := c.uid }⟩, ?_, ?_⟩
      · rw [made.world, World.writeEntry_dirs, World.chown_dirs, World.mkdir_dirs,
          find_chownDir_self, hn]
        rfl
      · rw [made.entry]
        exact hpasswd
    · intro a' user_option' _ hname hcmd _
      exact made.findsExactly (nodup_allocSearchlist config c a') (hself hname hcmd)
    · intro r user_option' hname hcmd _
      obtain rfl := Option.some.inj (hcmd.symm.trans made.checks.commandline)
      exact made.findsExactly (nodup_releaseSearchlist config c r)
        (by rw [releaseId_self huser, hname, made.id_eq])

/-- `ws_allocate [-u <user>] x` -/
def createArgs (user : Option Str) : AllocArgs :=
  { name := ['x']
    duration := 1
    filesystem := none
    extension := false
    reminder := 0
    mailaddress := []
    user := user
    groupreadable := none
    groupwritable := none
    comment := [] }

/-- Surroundings with a user `bob`. -/
def bobEnv : AllocEnv :=
  { plainEnv with passwd := fun u => [("root".toList, 0), ("bob".toList, 1000)].lookup u }

/-- A configuration that sets nothing. -/
def plainConfig : Config := .single ['w'] (.ofSpaces ['s'] [])

/-- What `bob` has created is found again. -/
theorem foundAgain_bob : ∃ w' e,
    wsAllocate plainConfig bob (createArgs none) bobEnv .init =
      (w', .created ['w'] (wsid bob.username ['x']) e) ∧
    FoundAgain plainConfig bob (createArgs none) bobEnv w' ['w'] (wsid bob.username ['x']) e :=
  ⟨_, _, rfl, (foundAgain_iff plainConfig bob (createArgs none) bobEnv .init _ ['w'] _ _ rfl
    rfl).mpr ⟨fun h => absurd h.1 (by decide), fun h => absurd h (by decide)⟩⟩

/-- The superuser. -/
def root : Caller :=
  { uid := 0
    username := "root".toList
    gid := 0
    groupname := "root".toList
    groups := ["root".toList]
    userGroups := ["root".toList] }

/-- What root creates for `bob` is not found again. -/
theorem not_foundAgain : ¬∀ (config : Config) (c : Caller) (a : AllocArgs) (env : AllocEnv)
    (w w' : World) (fs id : Str) (e : DBEntry), env.passwd c.username = some c.uid →
      wsAllocate config c a env w = (w', .created fs id e) →
        FoundAgain config c a env w' fs id e := by
  intro h
  have found := h plainConfig root (createArgs (some bob.username)) bobEnv .init _ ['w']
    (wsid root.username ['x']) _ rfl rfl
  exact absurd found.dirname (by decide)

end HpcWorkspace
