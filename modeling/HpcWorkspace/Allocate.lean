import HpcWorkspace.Lib.Searches
import HpcWorkspace.World

/-!
# `ws_allocate`

A call searches the filesystems for an entry of the workspace; it reuses or extends the one it
finds, and creates the directory and then the entry when there is none.
-/

namespace HpcWorkspace

/-- The calling user, as the kernel and the user database give him. -/
structure Caller where
  /-- `getuid()` -/
  uid : ℕ
  /-- `user::getUsername()` -/
  username : Str
  /-- `getgid()` -/
  gid : ℕ
  /-- `user::getGroupname()` -/
  groupname : Str
  /-- `user::getGrouplist()`: the groups of the process -/
  groups : List Str
  /-- `user::getUserGroupList(username)`: the groups in the user database -/
  userGroups : List Str

namespace Caller

/-- `getuid() == 0` -/
def isRoot (c : Caller) : Bool := c.uid == 0

/-- An ordinary user: the tools know root by the user id, `ws_restore` also by the name. -/
def NonRoot (c : Caller) : Prop := c.uid ≠ 0 ∧ c.username ≠ "root".toList

end Caller

/-- The command line of `ws_allocate`, with the duration and the mail address that `commandline`
and `main` have settled. -/
structure AllocArgs where
  /-- the workspace name -/
  name : Str
  /-- days -/
  duration : ℤ
  /-- `-F` -/
  filesystem : Option Str
  /-- `-x` -/
  extension : Bool
  /-- `-r` -/
  reminder : ℤ
  /-- `-m` -/
  mailaddress : Str
  /-- `-u` -/
  user : Option Str
  /-- `-g` -/
  groupreadable : Option Str
  /-- `-G` -/
  groupwritable : Option Str
  /-- `-c` -/
  comment : Str

/-- What a call reads of its surroundings. -/
structure AllocEnv where
  /-- the clock -/
  now : ℤ
  /-- the clock when the entry is made -/
  created : ℤ
  /-- `rand()` -/
  rand : ℕ
  /-- bytes available in a space, `none` when `statfs` fails -/
  statfs : Str → Option ℕ
  /-- the user id of a user name -/
  passwd : Str → Option ℕ
  /-- is the group name in the group database? -/
  groupKnown : Str → Bool
  /-- may the caller read, write and enter a directory? -/
  access : WsPath → Bool

/-- How a call ended. -/
inductive AllocResult where
  /-- an error before anything was changed -/
  | refused
  /-- the process ended after the directory was made, before the entry was written -/
  | crashed
  /-- an existing entry is reported -/
  | reused (fs id : Str) (e : DBEntry)
  /-- an existing entry was updated -/
  | extended (fs id : Str) (e e' : DBEntry)
  /-- a new workspace -/
  | created (fs id : Str) (e : DBEntry)
  deriving DecidableEq

/-- `commandline`: the `-u` user that counts; `none` when the name or the user is refused. -/
def allocCommandline (c : Caller) (a : AllocArgs) : Option Str :=
  -- this allows user to extend foreign workspaces
  let user := if a.user.isSome && !(a.extension || c.isRoot) then [] else a.user.getD []
  if !isValidWorkspaceName a.name then none
  else if user ≠ [] ∧ (user.head? = some '-' ∨ user = ['.'] ∨ user = ['.', '.'] ∨ '/' ∈ user) then
    none
  else some user

/-- Is a group given on the command line one of the groups of the process? -/
def groupGiven (c : Caller) (group : Option Str) : Bool :=
  match group with
  | none => true
  | some g => g == [] || c.groups.contains g

/-- `validateFsAndGroup` -/
def validateFsAndGroup (config : Config) (c : Caller) (a : AllocArgs) (username : Str) : Bool :=
  groupGiven c a.groupreadable && groupGiven c a.groupwritable &&
    match a.filesystem with
    | none => true
    | some fs => (config.validFilesystems username c.groups .create).contains fs || c.isRoot

/-- `countWorkspaces` -/
def countWorkspaces (config : Config) (w : World) (username : Str) (groups : List Str) : ℕ :=
  ((config.validFilesystems username groups .list).map fun fs =>
    if w.openDB fs then (w.matchPattern fs .live ['*'] username).length else 0).sum

/-- The filesystems a call looks at. -/
def allocSearchlist (config : Config) (c : Caller) (a : AllocArgs) : List Str :=
  match a.filesystem with
  | some fs => [fs]
  | none => config.validFilesystems c.username c.groups (if a.extension then .extend else .create)

/-- The id a call looks for. -/
def allocId (c : Caller) (a : AllocArgs) (user_option : Str) : Str :=
  if a.extension ∧ user_option.length > 0 then wsid user_option a.name
  else if user_option.length > 0 ∧ c.isRoot then wsid user_option a.name
  else wsid c.username a.name

/-- The search loop of the tools: the readable entries of an id in a list of filesystems. -/
def findEntries (w : World) (searchlist : List Str) (id : Str) : List (Str × DBEntry) :=
  searchlist.filterMap fun fs =>
    if w.openDB fs then (w.readEntry fs .live id).map (fs, ·) else none

/-- `user_option.empty() ? username : user_option`, the user that `-F` is validated against. -/
def validatedUser (c : Caller) (user_option : Str) : Str :=
  if user_option = [] then c.username else user_option

/-- A 32-bit `int` -/
def int32 (z : ℤ) : ℤ := z.bmod (2 ^ 32)

/-- The limit of a duration in a filesystem. -/
def configduration (config : Config) (fsconfig : FilesystemConfig) : ℤ :=
  if fsconfig.maxduration ≠ 0 then fsconfig.maxduration else config.global.durationdefault

/-- `validateDuration`; a `maxduration` that is not positive does not count here. -/
def validateDuration (config : Config) (fsconfig : FilesystemConfig) (c : Caller) (duration : ℤ) :
    ℤ :=
  let limit :=
    if fsconfig.maxduration > 0 then fsconfig.maxduration else config.global.durationdefault
  if !c.isRoot ∧ (duration > limit ∨ duration < 0) then limit else duration

/-- The expiration a request for an extension asks for, -1 for none. -/
def extendedExpiration (config : Config) (fsconfig : FilesystemConfig) (c : Caller)
    (duration now : ℤ) : ℤ :=
  if duration ≠ 0 then
    let limit := configduration config fsconfig
    let duration := if !c.isRoot ∧ (duration > limit ∨ duration < 0) then limit else duration
    now + int32 (duration * 24 * 3600)
  else -1

/-- `may_modify`: root, the owner, or nobody else named. -/
def mayModify (c : Caller) (user_option : Str) : Bool :=
  c.isRoot || user_option == [] || user_option == c.username

/-- The delegate check: the caller is in the group of the workspace and has access to it. -/
def isDelegate (c : Caller) (env : AllocEnv) (e : DBEntry) : Bool :=
  e.group != [] && c.userGroups.contains e.group && env.access e.workspace

/-- `allocate`, a workspace was found and `-x` given. -/
def extendEntry (config : Config) (c : Caller) (a : AllocArgs) (user_option : Str) (env : AllocEnv)
    (fsconfig : FilesystemConfig) (e : DBEntry) : Option DBEntry :=
  if !fsconfig.extendable then none
  else if !mayModify c user_option && !isDelegate c env e then none
  else
    let keep_owner_settings := !mayModify c user_option
    let mailaddress := if keep_owner_settings then [] else a.mailaddress
    let newmail := if mailaddress ≠ [] then mailaddress else e.mailaddress
    let reminder := if keep_owner_settings then 0 else a.reminder
    let comment := if keep_owner_settings then [] else a.comment
    let exp := extendedExpiration config fsconfig c a.duration env.now
    e.useExtension c.isRoot exp newmail reminder comment

/-- The loop of `mostspace`: the best space so far and its bytes, from space number `i` on. -/
def mostspace (statfs : Str → Option ℕ) : List Str → ℕ → ℕ × ℕ → ℕ
  | [], _, (spaceid, _) => spaceid
  | space :: spaces, i, (spaceid, max_free_bytes) =>
    match statfs space with
    | none => mostspace statfs spaces (i + 1) (spaceid, max_free_bytes)
    | some free_bytes =>
      if free_bytes > max_free_bytes then mostspace statfs spaces (i + 1) (i, free_bytes)
      else mostspace statfs spaces (i + 1) (spaceid, max_free_bytes)

/-- The space `createWorkspace` selects. -/
def selectSpace (fsconfig : FilesystemConfig) (c : Caller) (env : AllocEnv) : ℕ :=
  let spaces := fsconfig.spaces
  if spaces.length > 1 then
    if fsconfig.spaceselection = "random".toList then env.rand % spaces.length
    else if fsconfig.spaceselection = "uid".toList then c.uid % spaces.length
    else if fsconfig.spaceselection = "gid".toList then c.gid % spaces.length
    else if fsconfig.spaceselection = "mostspace".toList then mostspace env.statfs spaces 0 (0, 0)
    else 0
  else 0

/-- The directory `createWorkspace` makes. -/
def workspaceDir (fsconfig : FilesystemConfig) (c : Caller) (env : AllocEnv)
    (user_option name : Str) : WsPath :=
  let space := fsconfig.spaces.getD (selectSpace fsconfig c env) []
  if user_option.length > 0 ∧ user_option ≠ c.username ∧ !c.isRoot then
    ⟨space, wsid c.username name⟩
  else if user_option.length > 0 ∧ c.isRoot then ⟨space, wsid user_option name⟩
  else ⟨space, wsid c.username name⟩

/-- The owner `createWorkspace` gives the directory; `none` when the user does not exist. -/
def workspaceUid (c : Caller) (env : AllocEnv) (user_option : Str) : Option ℕ :=
  if user_option.length > 0 then env.passwd user_option else some c.uid

/-- The group of a new workspace: from the command line, or the current one. -/
def primarygroup (c : Caller) (a : AllocArgs) : Str :=
  let readable := a.groupreadable.getD []
  let writable := a.groupwritable.getD []
  if readable ≠ [] ∨ writable ≠ [] then (if readable ≠ [] then readable else writable)
  else c.groupname

/-- The entry of a new workspace. -/
def newEntry (config : Config) (c : Caller) (a : AllocArgs) (env : AllocEnv)
    (fsconfig : FilesystemConfig) (wsdir : WsPath) : DBEntry :=
  { username := c.username
    workspace := wsdir
    creation := env.created
    expiration :=
      env.now + int32 (validateDuration config fsconfig c a.duration * 24 * 3600)
    reminder := a.reminder
    extensions := fsconfig.maxextensions
    groupflag := a.groupreadable.isSome || a.groupwritable.isSome
    group := primarygroup c a
    mailaddress := a.mailaddress
    comment := a.comment
    released := 0
    expired := 0
    acctcode := [] }

/-- The creation: directory, owner, entry. -/
def createWorkspace (config : Config) (c : Caller) (a : AllocArgs) (user_option : Str)
    (env : AllocEnv) (w : World) (fs : Str) (fsconfig : FilesystemConfig) :
    World × AllocResult :=
  let wsdir := workspaceDir fsconfig c env user_option a.name
  let id := wsid c.username a.name
  let e := newEntry config c a env fsconfig wsdir
  let w := w.mkdir wsdir.loc env.now
  match workspaceUid c env user_option with
  | none => (w, .crashed)
  | some tuid =>
    if primarygroup c a ≠ [] ∧ !env.groupKnown (primarygroup c a) then (w, .crashed)
    else
      let w := w.chown wsdir.loc tuid
      if checkID id then (w.writeEntry ⟨fs, .live, id⟩ e, .created fs id e) else (w, .crashed)

/-- `allocate` after its checks: search, then reuse, extend or create. -/
def allocateChecked (config : Config) (c : Caller) (a : AllocArgs) (user_option : Str)
    (env : AllocEnv) (w : World) : World × AllocResult :=
  let searchlist := allocSearchlist config c a
  let id := allocId c a user_option
  match findEntries w searchlist id with
  | _ :: _ :: _ => (w, .refused)
  | [(fs, e)] =>
    if a.extension then
      match config.getFsConfig fs with
      | none => (w, .refused)
      | some fsconfig =>
        match extendEntry config c a user_option env fsconfig e with
        | none => (w, .refused)
        | some e' => (w.writeEntry ⟨fs, .live, id⟩ e', .extended fs id e e')
    else (w, .reused fs id e)
  | [] =>
    if a.extension then (w, .refused)
    else
      match searchlist with
      | [] => (w, .refused)
      | fs :: _ =>
        match config.getFsConfig fs with
        | none => (w, .refused)
        | some fsconfig =>
          if !fsconfig.allocatable || !w.openDB fs then (w, .refused)
          else createWorkspace config c a user_option env w fs fsconfig

/-- `allocate` -/
def allocate (config : Config) (c : Caller) (a : AllocArgs) (user_option : Str) (env : AllocEnv)
    (w : World) : World × AllocResult :=
  if config.validFilesystems c.username c.groups .create = [] then (w, .refused)
  else if !validateFsAndGroup config c a (validatedUser c user_option) then
    (w, .refused)
  else if config.global.maxuserworkspaces > 0 ∧
      (countWorkspaces config w c.username c.groups : ℤ) > config.global.maxuserworkspaces then
    (w, .refused)
  else if (allocSearchlist config c a).any fun fs => (config.getFsConfig fs).isNone then
    (w, .refused)
  else allocateChecked config c a user_option env w

/-- A call of `ws_allocate`. -/
def wsAllocate (config : Config) (c : Caller) (a : AllocArgs) (env : AllocEnv) (w : World) :
    World × AllocResult :=
  match allocCommandline c a with
  | none => (w, .refused)
  | some user_option => allocate config c a user_option env w

/-! ## What a call does -/

theorem mem_findEntries {w : World} {searchlist : List Str} {id fs : Str} {e : DBEntry} :
    (fs, e) ∈ findEntries w searchlist id ↔
      fs ∈ searchlist ∧ w.openDB fs = true ∧ w.readEntry fs .live id = some e := by
  rw [findEntries, List.mem_filterMap]
  constructor
  · rintro ⟨fs', hmem, heq⟩
    split at heq
    · rename_i hopen
      obtain ⟨e', he', hpair⟩ := Option.map_eq_some_iff.mp heq
      obtain ⟨rfl, rfl⟩ := Prod.mk.inj hpair
      exact ⟨hmem, hopen, he'⟩
    · cases heq
  · rintro ⟨hmem, hopen, he⟩
    exact ⟨fs, hmem, by rw [if_pos hopen, he]; rfl⟩

/-- A name that `commandline` accepts for `-u`. -/
structure AcceptedUser (user : Str) : Prop where
  /-- it is there -/
  ne_nil : user ≠ []
  /-- it is not taken for an option -/
  no_dash : user.head? ≠ some '-'
  /-- nor for the directory itself -/
  ne_dot : user ≠ ['.']
  /-- or its parent -/
  ne_dots : user ≠ ['.', '.']
  /-- it is one path component -/
  no_slash : '/' ∉ user

/-- **Inversion** for `commandline`: the name is valid, and a `-u` that counts is accepted. -/
theorem allocCommandline_eq_some {c : Caller} {a : AllocArgs} {user_option : Str} :
    allocCommandline c a = some user_option ↔
      isValidWorkspaceName a.name = true ∧
        user_option = (if a.user.isSome && !(a.extension || c.isRoot) then [] else a.user.getD []) ∧
        (user_option ≠ [] → AcceptedUser user_option) := by
  dsimp only [allocCommandline]
  generalize (if a.user.isSome && !(a.extension || c.isRoot) then [] else a.user.getD []) = user
  split
  · rename_i hname
    rw [Bool.not_eq_true'] at hname
    exact ⟨nofun, fun h => by rw [hname] at h; cases h.1⟩
  rename_i hname
  rw [Bool.not_eq_true', Bool.not_eq_false] at hname
  split
  · rename_i hbad
    refine ⟨nofun, fun ⟨_, huser, haccepted⟩ => ?_⟩
    obtain ⟨-, h₁, h₂, h₃, h₄⟩ := haccepted (huser ▸ hbad.1)
    rw [huser] at h₁ h₂ h₃ h₄
    rcases hbad.2 with h | h | h | h <;> contradiction
  · rename_i hok
    rw [not_and, not_or, not_or, not_or] at hok
    rw [Option.some.injEq]
    constructor
    · rintro rfl
      refine ⟨hname, rfl, fun hne => ?_⟩
      obtain ⟨h₁, h₂, h₃, h₄⟩ := hok hne
      exact ⟨hne, h₁, h₂, h₃, h₄⟩
    · exact fun h => h.2.1.symm

/-- A call that gets past its checks, with the `-u` user that counts. -/
structure AllocChecks (config : Config) (c : Caller) (a : AllocArgs) (w : World)
    (user_option : Str) : Prop where
  /-- the command line is accepted -/
  commandline : allocCommandline c a = some user_option
  /-- the caller may create workspaces somewhere -/
  valid : config.validFilesystems c.username c.groups .create ≠ []
  /-- filesystem and group are accepted -/
  fsAndGroup : validateFsAndGroup config c a (validatedUser c user_option) = true
  /-- he does not have too many of them -/
  limit : config.global.maxuserworkspaces > 0 →
    (countWorkspaces config w c.username c.groups : ℤ) ≤ config.global.maxuserworkspaces
  /-- the filesystems that are searched are configured -/
  configured : ∀ fs ∈ allocSearchlist config c a, ∃ fsconfig, config.getFsConfig fs = some fsconfig

/-- The ways a call can end. -/
inductive AllocSpec (config : Config) (c : Caller) (a : AllocArgs) (env : AllocEnv) (w : World) :
    World × AllocResult → Prop where
  /-- nothing happens -/
  | refused : AllocSpec config c a env w (w, .refused)
  /-- an entry was found -/
  | reused {user_option fs : Str} {e : DBEntry} (checks : AllocChecks config c a w user_option)
      (create : a.extension = false)
      (found : findEntries w (allocSearchlist config c a) (allocId c a user_option) = [(fs, e)]) :
      AllocSpec config c a env w (w, .reused fs (allocId c a user_option) e)
  /-- an entry was found and is extended -/
  | extended {user_option fs : Str} {fsconfig : FilesystemConfig} {e e' : DBEntry}
      (checks : AllocChecks config c a w user_option) (extend : a.extension = true)
      (found : findEntries w (allocSearchlist config c a) (allocId c a user_option) = [(fs, e)])
      (configured : config.getFsConfig fs = some fsconfig)
      (entry : extendEntry config c a user_option env fsconfig e = some e') :
      AllocSpec config c a env w
        (w.writeEntry ⟨fs, .live, allocId c a user_option⟩ e',
          .extended fs (allocId c a user_option) e e')
  /-- no entry was found -/
  | creates {user_option fs : Str} {rest : List Str} {fsconfig : FilesystemConfig}
      (checks : AllocChecks config c a w user_option) (create : a.extension = false)
      (missing : findEntries w (allocSearchlist config c a) (allocId c a user_option) = [])
      (first : allocSearchlist config c a = fs :: rest)
      (configured : config.getFsConfig fs = some fsconfig)
      (allocatable : fsconfig.allocatable = true) (opened : w.openDB fs = true) :
      AllocSpec config c a env w (createWorkspace config c a user_option env w fs fsconfig)

variable {config : Config} {c : Caller} {a : AllocArgs} {env : AllocEnv} {w : World}

/-- The ways the creation can end. -/
inductive CreateSpec (config : Config) (c : Caller) (a : AllocArgs) (user_option : Str)
    (env : AllocEnv) (w : World) (fs : Str) (fsconfig : FilesystemConfig) :
    World × AllocResult → Prop where
  /-- user or group are not known -/
  | crashed : CreateSpec config c a user_option env w fs fsconfig
      (w.mkdir (workspaceDir fsconfig c env user_option a.name).loc env.now, .crashed)
  /-- the id is not accepted -/
  | invalid {tuid : ℕ} : CreateSpec config c a user_option env w fs fsconfig
      ((w.mkdir (workspaceDir fsconfig c env user_option a.name).loc env.now).chown
        (workspaceDir fsconfig c env user_option a.name).loc tuid, .crashed)
  /-- directory and entry are there -/
  | created {tuid : ℕ} {wsdir : WsPath} {id : Str} {e : DBEntry}
      (hdir : wsdir = workspaceDir fsconfig c env user_option a.name)
      (hid : id = wsid c.username a.name) (he : e = newEntry config c a env fsconfig wsdir)
      (owner : workspaceUid c env user_option = some tuid) (valid : checkID id = true) :
      CreateSpec config c a user_option env w fs fsconfig
        (((w.mkdir wsdir.loc env.now).chown wsdir.loc tuid).writeEntry ⟨fs, .live, id⟩ e,
          .created fs id e)

/-- **Inversion** for the creation. -/
theorem createWorkspace_spec (config : Config) (c : Caller) (a : AllocArgs) (user_option : Str)
    (env : AllocEnv) (w : World) (fs : Str) (fsconfig : FilesystemConfig) :
    CreateSpec config c a user_option env w fs fsconfig
      (createWorkspace config c a user_option env w fs fsconfig) := by
  dsimp only [createWorkspace]
  split
  · exact .crashed
  rename_i tuid howner
  split
  · exact .crashed
  split
  · rename_i hid
    exact .created rfl rfl rfl howner hid
  · exact .invalid

/-- The creation makes an entry in the filesystem it is given, or none. -/
theorem createWorkspace_result (config : Config) (c : Caller) (a : AllocArgs) (user_option : Str)
    (env : AllocEnv) (w : World) (fs : Str) (fsconfig : FilesystemConfig) :
    (createWorkspace config c a user_option env w fs fsconfig).2 = .crashed ∨
      ∃ id e, (createWorkspace config c a user_option env w fs fsconfig).2 = .created fs id e := by
  have hspec := createWorkspace_spec config c a user_option env w fs fsconfig
  generalize createWorkspace config c a user_option env w fs fsconfig = out at hspec ⊢
  cases hspec with
  | crashed | invalid => exact Or.inl rfl
  | created => exact Or.inr ⟨_, _, rfl⟩

/-- The checks of `allocate` are those of a call that gets past them. -/
theorem allocate_cases (config : Config) (env : AllocEnv) (w : World) {user_option : Str}
    (hcmd : allocCommandline c a = some user_option) :
    (¬AllocChecks config c a w user_option ∧
        allocate config c a user_option env w = (w, .refused)) ∨
      AllocChecks config c a w user_option ∧
        allocate config c a user_option env w = allocateChecked config c a user_option env w := by
  unfold allocate
  split
  · rename_i hvalid
    exact Or.inl ⟨fun checks => checks.valid hvalid, rfl⟩
  rename_i hvalid
  split
  · rename_i hfs
    refine Or.inl ⟨fun checks => ?_, rfl⟩
    rw [checks.fsAndGroup] at hfs
    cases hfs
  rename_i hfs
  split
  · rename_i hlimit
    exact Or.inl ⟨fun checks => absurd (checks.limit hlimit.1) (Int.not_le.mpr hlimit.2), rfl⟩
  rename_i hlimit
  split
  · rename_i hconf
    refine Or.inl ⟨fun checks => ?_, rfl⟩
    obtain ⟨fs, hmem, hnone⟩ := List.any_eq_true.mp hconf
    obtain ⟨fsconfig, hget⟩ := checks.configured fs hmem
    rw [hget] at hnone
    cases hnone
  rename_i hconf
  refine Or.inr ⟨⟨hcmd, hvalid, by rwa [Bool.not_eq_true', Bool.not_eq_false] at hfs,
    fun hmax => Int.not_lt.mp fun hlt => hlimit ⟨hmax, hlt⟩, fun fs hmem => ?_⟩, rfl⟩
  by_contra hnone
  refine hconf (List.any_eq_true.mpr ⟨fs, hmem, ?_⟩)
  cases hget : config.getFsConfig fs with
  | none => rfl
  | some fsconfig => exact absurd ⟨fsconfig, hget⟩ hnone

/-- The ways a call can go on after its checks. -/
inductive CheckedSpec (config : Config) (c : Caller) (a : AllocArgs) (user_option : Str)
    (env : AllocEnv) (w : World) : World × AllocResult → Prop where
  /-- nothing happens -/
  | refused : CheckedSpec config c a user_option env w (w, .refused)
  /-- an entry was found -/
  | reused {fs : Str} {e : DBEntry} (create : a.extension = false)
      (found : findEntries w (allocSearchlist config c a) (allocId c a user_option) = [(fs, e)]) :
      CheckedSpec config c a user_option env w (w, .reused fs (allocId c a user_option) e)
  /-- an entry was found and is extended -/
  | extended {fs : Str} {fsconfig : FilesystemConfig} {e e' : DBEntry} (extend : a.extension = true)
      (found : findEntries w (allocSearchlist config c a) (allocId c a user_option) = [(fs, e)])
      (configured : config.getFsConfig fs = some fsconfig)
      (entry : extendEntry config c a user_option env fsconfig e = some e') :
      CheckedSpec config c a user_option env w
        (w.writeEntry ⟨fs, .live, allocId c a user_option⟩ e',
          .extended fs (allocId c a user_option) e e')
  /-- no entry was found -/
  | creates {fs : Str} {rest : List Str} {fsconfig : FilesystemConfig} (create : a.extension = false)
      (missing : findEntries w (allocSearchlist config c a) (allocId c a user_option) = [])
      (first : allocSearchlist config c a = fs :: rest)
      (configured : config.getFsConfig fs = some fsconfig)
      (allocatable : fsconfig.allocatable = true) (opened : w.openDB fs = true) :
      CheckedSpec config c a user_option env w
        (createWorkspace config c a user_option env w fs fsconfig)

/-- **Inversion** for what follows the checks. -/
theorem allocateChecked_cases (config : Config) (c : Caller) (a : AllocArgs) (user_option : Str)
    (env : AllocEnv) (w : World) :
    CheckedSpec config c a user_option env w (allocateChecked config c a user_option env w) := by
  dsimp only [allocateChecked]
  split
  · exact .refused
  · rename_i fs e hfound
    split
    · rename_i hext
      split
      · exact .refused
      · rename_i fsconfig hget
        split
        · exact .refused
        · rename_i e' hentry
          exact .extended hext hfound hget hentry
    · rename_i hext
      exact .reused (by simpa using hext) hfound
  · rename_i hmissing
    split
    · exact .refused
    · rename_i hext
      split
      · exact .refused
      · rename_i fs rest hfirst
        split
        · exact .refused
        · rename_i fsconfig hget
          split
          · exact .refused
          · rename_i hopen
            rw [Bool.or_eq_true, not_or, Bool.not_eq_true', Bool.not_eq_true', Bool.not_eq_false,
              Bool.not_eq_false] at hopen
            exact .creates (by simpa using hext) hmissing hfirst hget hopen.1 hopen.2

theorem allocateChecked_spec {user_option : Str} (checks : AllocChecks config c a w user_option) :
    AllocSpec config c a env w (allocateChecked config c a user_option env w) := by
  have hcases := allocateChecked_cases config c a user_option env w
  generalize allocateChecked config c a user_option env w = out at hcases ⊢
  cases hcases with
  | refused => exact .refused
  | reused create found => exact .reused checks create found
  | extended extend found configured entry =>
    exact .extended checks extend found configured entry
  | creates create missing first configured allocatable opened =>
    exact .creates checks create missing first configured allocatable opened

/-- **Inversion** for `ws_allocate`. -/
theorem wsAllocate_spec (config : Config) (c : Caller) (a : AllocArgs) (env : AllocEnv)
    (w : World) : AllocSpec config c a env w (wsAllocate config c a env w) := by
  unfold wsAllocate
  split
  · exact .refused
  · rename_i user_option hcmd
    rcases allocate_cases config env w hcmd with ⟨-, h⟩ | ⟨checks, h⟩
    · rw [h]
      exact .refused
    · rw [h]
      exact allocateChecked_spec checks

/-- A call that gets past its checks goes on to the search. -/
theorem wsAllocate_of_checks {user_option : Str} (checks : AllocChecks config c a w user_option) :
    wsAllocate config c a env w = allocateChecked config c a user_option env w := by
  unfold wsAllocate
  rw [checks.commandline]
  rcases allocate_cases config env w checks.commandline with
    ⟨hno, -⟩ | ⟨-, h⟩
  · exact absurd checks hno
  · exact h

/-- What a search finds when one of the filesystems has the entry. -/
theorem findEntries_eq_singleton {searchlist : List Str} {id fs : Str} {e : DBEntry}
    (hnodup : searchlist.Nodup) (hfs : fs ∈ searchlist) (hopen : w.openDB fs = true)
    (hread : w.readEntry fs .live id = some e)
    (hothers : ∀ fs' ∈ searchlist, fs' ≠ fs → w.openDB fs' = true →
      w.readEntry fs' .live id = none) : findEntries w searchlist id = [(fs, e)] := by
  refine Searches.filterMap_eq_of_only hnodup hfs ?_ fun fs' hmem hne => ?_
  · rw [if_pos hopen, hread]
    rfl
  · split
    · rename_i hopen'
      rw [hothers fs' hmem hne hopen']
      rfl
    · rfl

theorem nodup_allocSearchlist (config : Config) (c : Caller) (a : AllocArgs) :
    (allocSearchlist config c a).Nodup := by
  unfold allocSearchlist
  split
  · exact List.nodup_singleton _
  · exact Config.nodup_validFilesystems

/-- When the caller works for himself, the directory is named after him. -/
theorem workspaceDir_name {fsconfig : FilesystemConfig} {user_option : Str}
    (huser : user_option = [] ∨ user_option = c.username) (name : Str) :
    (workspaceDir fsconfig c env user_option name).name = wsid c.username name := by
  rw [workspaceDir]
  split
  · rfl
  split
  · rename_i hopt
    rcases huser with rfl | rfl
    · exact absurd hopt.1 (Nat.lt_irrefl 0)
    · rfl
  · rfl

/-- `mostspace` gives the number of a space. -/
theorem mostspace_lt (statfs : Str → Option ℕ) (spaces : List Str) {i n : ℕ} {best : ℕ × ℕ}
    (hi : i + spaces.length ≤ n) (hbest : best.1 < n) : mostspace statfs spaces i best < n := by
  induction spaces generalizing i best with
  | nil => exact hbest
  | cons space spaces ih =>
    obtain ⟨spaceid, max_free_bytes⟩ := best
    rw [List.length_cons] at hi
    rw [mostspace]
    split
    · exact ih (by omega) hbest
    · split
      · exact ih (by omega) (by dsimp only; omega)
      · exact ih (by omega) hbest

theorem selectSpace_lt (fsconfig : FilesystemConfig) (c : Caller) (env : AllocEnv) :
    selectSpace fsconfig c env < fsconfig.spaces.length := by
  have hpos : 0 < fsconfig.spaces.length := List.length_pos_of_ne_nil fsconfig.spaces_ne
  dsimp only [selectSpace]
  split
  · split
    · exact Nat.mod_lt _ hpos
    split
    · exact Nat.mod_lt _ hpos
    split
    · exact Nat.mod_lt _ hpos
    split
    · exact mostspace_lt _ _ (by omega) hpos
    · exact hpos
  · exact hpos

/-- The directory is in one of the spaces of the filesystem. -/
theorem workspaceDir_space_mem (fsconfig : FilesystemConfig) (c : Caller) (env : AllocEnv)
    (user_option name : Str) :
    (workspaceDir fsconfig c env user_option name).space ∈ fsconfig.spaces := by
  have hmem : fsconfig.spaces.getD (selectSpace fsconfig c env) [] ∈ fsconfig.spaces := by
    rw [List.getD_eq_getElem?_getD, List.getElem?_eq_getElem (selectSpace_lt fsconfig c env)]
    exact List.getElem_mem _
  dsimp only [workspaceDir]
  split
  · exact hmem
  split
  · exact hmem
  · exact hmem

/-! ## Counting -/

/-- Is an entry file at this place counted for a user? -/
def isCounted (config : Config) (username : Str) (groups : List Str) (k : DbLoc) : Bool :=
  (config.validFilesystems username groups .list).contains k.fs && k.area == .live &&
    globMatch (wsid username ['*']) k.id

/-- Only databases count. -/
theorem countWorkspaces_congr {w' : World} (hdb : w'.db = w.db) (hmagic : w'.magic = w.magic)
    (username : Str) (groups : List Str) :
    countWorkspaces config w' username groups = countWorkspaces config w username groups := by
  have hopen : ∀ fs, w'.openDB fs = w.openDB fs := fun fs => by rw [World.openDB, hmagic]; rfl
  have hmatch : ∀ fs, w'.matchPattern fs .live ['*'] username =
      w.matchPattern fs .live ['*'] username := fun fs => by
    rw [World.matchPattern, World.dirEntries, hdb]
    rfl
  simp only [countWorkspaces, hopen, hmatch]

/-- A write adds one to the count when the file is new and counted. -/
theorem countWorkspaces_writeEntry (config : Config) {k : DbLoc} (e : DBEntry)
    (hopen : w.openDB k.fs = true) (username : Str) (groups : List Str) :
    countWorkspaces config (w.writeEntry k e) username groups =
      countWorkspaces config w username groups +
        if w.db.lookup k = none ∧ isCounted config username groups k = true then 1 else 0 := by
  have hkeys : (w.writeEntry k e).db.keys = k :: w.db.keys.erase k := AList.keys_insert _
  have hnew : w.db.lookup k = none ↔ k ∉ w.db.keys := AList.lookup_eq_none
  have hone : ∀ fs', (if (w.writeEntry k e).openDB fs' then
      ((w.writeEntry k e).matchPattern fs' .live ['*'] username).length else 0) =
        (if w.openDB fs' then (w.matchPattern fs' .live ['*'] username).length else 0) +
          if fs' = k.fs then (if w.db.lookup k = none ∧ k.area = .live ∧
            globMatch (wsid username ['*']) k.id = true then 1 else 0) else 0 := by
    intro fs'
    have hsame : (w.writeEntry k e).openDB fs' = w.openDB fs' := rfl
    rw [hsame]
    split
    · rw [World.matchPattern, World.matchPattern, World.dirEntries, World.dirEntries, hkeys,
        List.length_map, List.length_map, ← List.countP_eq_length_filter,
        ← List.countP_eq_length_filter, Searches.countP_cons_erase]
      congr 1
      by_cases hfs : fs' = k.fs
      · simp [hfs, hnew]
      · simp [hfs, Ne.symm hfs]
    · rename_i hclosed
      have hne : fs' ≠ k.fs := fun heq => hclosed (heq ▸ hopen)
      rw [if_neg hne]
  rw [countWorkspaces, countWorkspaces, Searches.sum_map_add_ite Config.nodup_validFilesystems hone]
  congr 1
  unfold isCounted
  by_cases hfs : k.fs ∈ config.validFilesystems username groups .list
  · simp [hfs]
  · simp [hfs]

end HpcWorkspace
