import HpcWorkspace.Lib.Paths
import HpcWorkspace.ReleaseTarget
import HpcWorkspace.RestoreExact

/-!
# The paths the tools work on

The tools build paths from what the configuration, the command line and the entries say: some are
joined as paths, some as strings, and the path of a deleted directory is made from the one in the
entry. Here each tool is traced: the calls that open, write, rename or remove an entry file, and
those that create, open, move, change or remove a workspace directory, with the paths as the code
builds them. What only looks at a path, `exists`, `access` or `statfs`, is left out.

A trace is a function of the command line, the configuration, the databases and the calls that
fail.
-/

namespace HpcWorkspace

/-! ## Paths -/

/-- The paths in the `Filesystem_config` of a validated configuration. -/
structure FsPaths where
  /-- path to the database -/
  database : Str
  /-- subdirectory to move deleted workspaces to -/
  deletedPath : Str
  /-- `validate` refuses a filesystem without a database -/
  database_ne : database ≠ []
  /-- or without a deleted name -/
  deletedPath_ne : deletedPath ≠ []

/-- `getWSPath()`, the string in the entry. -/
def WsPath.str (p : WsPath) : Str := if p.isEmpty then [] else p.space ++ '/' :: p.name

/-- The directory of an area of a database. -/
def databaseDir (paths : FsPaths) : Area → Str
  | .live => paths.database
  | .deleted => Paths.join '/' paths.database paths.deletedPath

/-- The path of an entry file: `cppfs::path(database) / id`, or with the deleted path between. -/
def entryPath (paths : FsPaths) (area : Area) (id : Str) : Str :=
  Paths.join '/' (databaseDir paths area) id

/-- The target of `ws_release`. -/
def releasedPath (paths : FsPaths) (wsdir name : Str) : Str :=
  Paths.join '/' (Paths.join '/' (Paths.parent '/' wsdir) paths.deletedPath) name

/-- `wssourcename`: go one up, add deleted subdirectory and add workspace name. -/
def wssourcename (paths : FsPaths) (wsdir name : Str) : Str :=
  Paths.parent '/' wsdir ++ '/' :: paths.deletedPath ++ '/' :: name

/-! ## Calls -/

/-- What is done to an entry file. -/
inductive EntryOp where
  /-- `getFileContents` -/
  | read
  /-- `open` for writing, in `writeEntry` -/
  | write
  /-- `rename`, of the first path to the second one -/
  | rename
  /-- `remove` -/
  | remove
  deriving DecidableEq

/-- What is done to a workspace directory. -/
inductive DirOp where
  /-- `create_directories` -/
  | create_directories
  /-- `open` with `O_DIRECTORY` and `O_NOFOLLOW` -/
  | openDirectory
  /-- `fchown` of what was opened -/
  | fchown
  /-- `fchmod` of what was opened -/
  | fchmod
  /-- `unlink` -/
  | unlink
  /-- `rename` and `renameat`, of the first path to the second one -/
  | rename
  /-- `mv`, of the first path to the second one or into it -/
  | mv
  /-- `rmtree_below` -/
  | rmtree_below
  /-- `remove` -/
  | remove
  deriving DecidableEq

/-- A call with the paths it is given. -/
inductive FileCall where
  /-- on the database -/
  | entry (op : EntryOp) (paths : List Str)
  /-- on a workspace directory -/
  | dir (op : DirOp) (paths : List Str)
  deriving DecidableEq

/-- The calls that fail. -/
structure PathFaults where
  /-- `create_directories` in `createWorkspace` -/
  create : Bool
  /-- `open` of the directory -/
  openDirectory : Bool
  /-- `fchown` of the directory -/
  fchown : Bool
  /-- `fchmod` of the directory -/
  fchmod : Bool
  /-- `rename` of an entry file in `release` -/
  renameEntry : Bool
  /-- how the move of a directory goes -/
  move : MoveCall
  /-- is the directory still there after `--delete-data`? -/
  dataLeft : Bool

namespace PathFaults

/-- Does `createWorkspace` come to its end? -/
def created (faults : PathFaults) (known : Bool) : Bool :=
  !faults.create && !faults.openDirectory && known && !faults.fchown && !faults.fchmod

/-- Is the directory moved, by `rename` or `mv`? -/
def moved (faults : PathFaults) : Bool :=
  match faults.move with
  | .rename | .mv .ok => true
  | _ => false

end PathFaults

/-! ## The database -/

variable (config : Config) (paths : Str → FsPaths) (faults : PathFaults) (w : World)

/-- `openDB` reads the magic file if it is there. -/
def openDBCalls (fs : Str) : List FileCall :=
  if (w.magic fs).isSome then
    [.entry .read [(paths fs).database ++ '/' :: ".ws_db_magic".toList]]
  else []

/-- `readEntry` checks the id first. -/
def readEntryCalls (fs : Str) (area : Area) (id : Str) : List FileCall :=
  if checkID id then [.entry .read [entryPath (paths fs) area id]] else []

/-- `writeEntry` of an entry that was read. -/
def writeEntryCalls (fs id : Str) : List FileCall :=
  [.entry .write [entryPath (paths fs) .live id]]

/-- `createEntry` checks the id, and writes. -/
def createEntryCalls (fs id : Str) : List FileCall :=
  if checkID id then [.entry .write [(paths fs).database ++ '/' :: id]] else []

/-- `deleteEntry` of a deleted entry. -/
def deleteEntryCalls (fs id : Str) : List FileCall :=
  if checkID id then [.entry .remove [entryPath (paths fs) .deleted id]] else []

/-- The search loop of the tools, which ends at a name that is not configured. -/
def searchCalls (id : Str) : List Str → List FileCall
  | [] => []
  | fs :: searchlist =>
    match config.getFsConfig fs with
    | none => []
    | some _ =>
      openDBCalls paths w fs ++ (if w.openDB fs then readEntryCalls paths fs .live id else []) ++
        searchCalls id searchlist

/-! ## `ws_allocate` -/

/-- `createWorkspace`, up to the call that fails; `known` tells whether user and group exist. -/
def createWorkspaceCalls (wsdir : Str) (known : Bool) : List FileCall :=
  .dir .create_directories [wsdir] ::
    if faults.create then []
    else
      .dir .openDirectory [wsdir] ::
        -- removes a planted symlink itself
        if faults.openDirectory then [.dir .unlink [wsdir]]
        else if !known then []
        else
          .dir .fchown [wsdir] ::
            if faults.fchown then [.dir .unlink [wsdir]]
            else .dir .fchmod [wsdir] :: if faults.fchmod then [.dir .unlink [wsdir]] else []

/-- `allocate` after its checks. -/
def allocateCheckedCalls (c : Caller) (a : AllocArgs) (user_option : Str) (env : AllocEnv) :
    List FileCall :=
  let searchlist := allocSearchlist config c a
  let id := allocId c a user_option
  match findEntries w searchlist id with
  | _ :: _ :: _ => []
  | [(fs, e)] =>
    if a.extension then
      match config.getFsConfig fs with
      | none => []
      | some fsconfig =>
        match extendEntry config c a user_option env fsconfig e with
        | none => []
        | some _ => writeEntryCalls paths fs id
    else []
  | [] =>
    if a.extension then []
    else
      match searchlist with
      | [] => []
      | fs :: _ =>
        match config.getFsConfig fs with
        | none => []
        | some fsconfig =>
          if !fsconfig.allocatable then []
          else
            openDBCalls paths w fs ++
              if !w.openDB fs then []
              else
                let known := (workspaceUid c env user_option).isSome &&
                  (primarygroup c a == [] || env.groupKnown (primarygroup c a))
                createWorkspaceCalls faults (workspaceDir fsconfig c env user_option a.name).str
                  known ++
                  if faults.created known then createEntryCalls paths fs (wsid c.username a.name)
                  else []

/-- `ws_allocate` -/
def wsAllocateCalls (c : Caller) (a : AllocArgs) (env : AllocEnv) : List FileCall :=
  match allocCommandline c a with
  | none => []
  | some user_option =>
    if config.validFilesystems c.username c.groups .create = [] then []
    else if !validateFsAndGroup config c a (validatedUser c user_option) then []
    else
      -- `countWorkspaces` opens the databases
      (if config.global.maxuserworkspaces > 0 then
        (config.validFilesystems c.username c.groups .list).flatMap (openDBCalls paths w)
      else []) ++
      if config.global.maxuserworkspaces > 0 ∧
          (countWorkspaces config w c.username c.groups : ℤ) > config.global.maxuserworkspaces then
        []
      else
        searchCalls config paths w (allocId c a user_option) (allocSearchlist config c a) ++
        if (allocSearchlist config c a).any fun fs => (config.getFsConfig fs).isNone then []
        else allocateCheckedCalls config paths faults w c a user_option env

/-! ## `ws_release` -/

/-- `DBEntryV1::release`, and then the directory. -/
def releaseFoundCalls (a : ReleaseArgs) (fs id name : Str) (wsdir : Str) : List FileCall :=
  writeEntryCalls paths fs id ++
  .entry .rename [entryPath (paths fs) .live id, entryPath (paths fs) .deleted name] ::
    if faults.renameEntry then []
    else if a.deletedata then
      [.dir .rmtree_below [wsdir], .dir .remove [wsdir],
        .entry .remove [entryPath (paths fs) .deleted name]]
    else
      let target := releasedPath (paths fs) wsdir name
      .dir .rename [wsdir, target] ::
        match faults.move with
        | .mv _ => [.dir .mv [wsdir, target]]
        | _ => []

/-- `ws_release` -/
def wsReleaseCalls (c : Caller) (a : ReleaseArgs) (env : ReleaseEnv) : List FileCall :=
  match releaseCommandline c a with
  | none => []
  | some user_option =>
    if config.validFilesystems c.username c.groups .release = [] then []
    else if !validateFs config c a (validatedUser c user_option) then []
    else
      let id := releaseId c a user_option
      searchCalls config paths w id (releaseSearchlist config c a) ++
      match releaseFind config c a user_option w with
      | none => []
      | some (fs, e) =>
        releaseFoundCalls paths faults a fs id
          (deletedName id (releaseTimestamp w fs id env.timestamp)) e.workspace.str

/-! ## `ws_restore` -/

/-- The source of `restore`: the filesystem of the only hit is opened again, and the entry read. -/
def restoreSourceCalls (fslist : List Str) (name username : Str) : List FileCall :=
  match restoreHits w fslist (idNoOwner name username) username with
  | [(fs, _)] =>
    match config.getFsConfig fs with
    | none => []
    | some fsconfig =>
      if !fsconfig.restorable then []
      else
        openDBCalls paths w fs ++
          if w.openDB fs then readEntryCalls paths fs .deleted name else []
  | _ => []

/-- The target of `restore`: the loop ends when it is found. -/
def restoreTargetCalls (id : Str) : List Str → List FileCall
  | [] => []
  | fs :: fslist =>
    openDBCalls paths w fs ++
      if w.openDB fs then
        readEntryCalls paths fs .live id ++
          if (w.readEntry fs .live id).isSome then [] else restoreTargetCalls id fslist
      else restoreTargetCalls id fslist

/-- `--delete-data` -/
def restoreDeleteCalls (fs name source : Str) : List FileCall :=
  [.dir .rmtree_below [source], .dir .remove [source]] ++
    if faults.dataLeft then [] else deleteEntryCalls paths fs name

/-- The move of `restore`: onto the directory of the target, or into it. -/
def restoreMoveCalls (name source : Str) (e : DBEntry) (targetFs targetId targetpath : Str) :
    List FileCall :=
  if config.global.restorenosub then
    .dir .rename [source, targetpath] ::
      if faults.move = .rename then
        -- carry over group workspace flag from source entry
        (if e.group ≠ [] then writeEntryCalls paths targetFs targetId else []) ++
          deleteEntryCalls paths targetFs name
      else []
  else
    let targetpathname := targetpath ++ '/' :: Paths.filename '/' source
    .dir .rename [source, targetpathname] ::
      (match faults.move with
      | .mv _ => [.dir .mv [source, targetpathname]]
      | _ => []) ++
      if faults.moved then deleteEntryCalls paths targetFs name else []

/-- `restore` -/
def restoreCalls (c : Caller) (a : RestoreArgs) (username : Str) : List FileCall :=
  match restoreFslist config c username a.filesystem with
  | none => []
  | some fslist =>
    fslist.flatMap (openDBCalls paths w) ++
    restoreSourceCalls config paths w fslist a.name username ++
    match restoreSource config w fslist a.name username with
    | none => []
    | some (fs, e) =>
      let source := wssourcename (paths fs) e.workspace.str a.name
      if a.deletedata then restoreDeleteCalls paths faults fs a.name source
      else
        let targetId := wsid username (a.target.getD [])
        restoreTargetCalls paths w targetId fslist ++
        match restoreTarget w fslist targetId with
        | none => []
        | some (targetFs, target) =>
          if target.workspace.str = [] then []
          else
            restoreMoveCalls config paths faults a.name source e targetFs targetId
              target.workspace.str

/-- `ws_restore` without `-l` -/
def wsRestoreCalls (c : Caller) (a : RestoreArgs) (env : RestoreEnv) : List FileCall :=
  if !restoreCommandline a then []
  else if restoreUser c a ≠ c.username ∧ c.username ≠ "root".toList then []
  else if !checkName a.name c.username || !env.human then []
  else restoreCalls config paths faults w c a (restoreUser c a)

/-- The command line of `ws_restore -l`. -/
structure RestoreListArgs where
  /-- the pattern, which is not checked -/
  name : Str
  /-- `-F` -/
  filesystem : Str
  /-- `-u` -/
  username : Str
  /-- `-b` -/
  terse : Bool

/-- The entries of a listing; the first one that is not read ends it. -/
def listCalls (fs : Str) : List Str → List FileCall
  | [] => []
  | id :: ids =>
    readEntryCalls paths fs .deleted id ++
      if (w.readEntry fs .deleted id).isSome then listCalls fs ids else []

/-- `ws_restore -l` -/
def restoreListCalls (c : Caller) (a : RestoreListArgs) : List FileCall :=
  let userpattern :=
    if c.isRoot || config.global.admins.contains c.username then
      if a.username ≠ [] then a.username else ['*']
    else c.username
  let validfs := config.validFilesystems c.username c.groups .restore
  let fslist :=
    if a.filesystem ≠ [] then (if validfs.contains a.filesystem then [a.filesystem] else [])
    else validfs
  let pattern := if a.name = [] then ['*'] else a.name
  fslist.flatMap fun fs =>
    openDBCalls paths w fs ++
      if w.openDB fs && !a.terse then
        listCalls paths w fs (w.matchPattern fs .deleted pattern userpattern)
      else []

/-! ## All of them -/

/-- A call of one of the tools. -/
inductive Invocation where
  /-- `ws_allocate` -/
  | allocate (c : Caller) (a : AllocArgs) (env : AllocEnv)
  /-- `ws_release` -/
  | release (c : Caller) (a : ReleaseArgs) (env : ReleaseEnv)
  /-- `ws_restore` -/
  | restore (c : Caller) (a : RestoreArgs) (env : RestoreEnv)
  /-- `ws_restore -l` -/
  | restoreList (c : Caller) (a : RestoreListArgs)

namespace Invocation

/-- Who calls. -/
def caller : Invocation → Caller
  | allocate c _ _ => c
  | release c _ _ => c
  | restore c _ _ => c
  | restoreList c _ => c

/-- The calls on paths. -/
def calls : Invocation → List FileCall
  | allocate c a env => wsAllocateCalls config paths faults w c a env
  | release c a env => wsReleaseCalls config paths faults w c a env
  | restore c a env => wsRestoreCalls config paths faults w c a env
  | restoreList c a => restoreListCalls config paths w c a

/-- The directory of the target workspace of a restore. -/
def target : Invocation → Option Str
  | restore c a _ =>
    (restoreFslist config c (restoreUser c a) a.filesystem).bind fun fslist =>
      (restoreTarget w fslist (wsid (restoreUser c a) (a.target.getD []))).map fun p =>
        p.2.workspace.str
  | _ => none

end Invocation

end HpcWorkspace
