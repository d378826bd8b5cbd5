import HpcWorkspace.Release

/-!
# `ws_expirer`

A cleaner-mode run makes, for each filesystem, a call of `clean_stray_directories`, and then, for
each filesystem, a call of `expire_workspaces`. A call is a sequence of steps: each listing of a
directory or a database, each entry that is read, each check of a directory, each move and each
deletion is one step, so that other programs can be placed between any two of them.
-/

namespace HpcWorkspace

/-- `STRAY_GRACETIME` -/
def STRAY_GRACETIME : ℤ := 3600

/-- A call that `main` makes. -/
inductive Job where
  /-- `clean_stray_directories` -/
  | clean (fs : Str)
  /-- `expire_workspaces` -/
  | expire (fs : Str)
  deriving DecidableEq

/-- The arguments and the start time of a call of `clean_stray_directories`. -/
structure CleanCall where
  /-- the filesystem -/
  fs : Str
  /-- the spaces to clean -/
  spaces : List Str
  /-- `run_start` -/
  run_start : ℤ
  deriving DecidableEq

/-- Where a call is, with its local variables: each constructor names the step it takes next.
Lists hold what a loop has still to do. -/
inductive CallPc where
  /-- between calls -/
  | ready
  /-- list the directories of the next space; `dirs` are those found -/
  | listDirs (call : CleanCall) (todo : List Str) (dirs : List (Str × Str))
  /-- open the database and list the ids of the live entries -/
  | listIds (call : CleanCall) (dirs : List (Str × Str))
  /-- read the path of the next live entry; `workspacesInDB` are those read -/
  | readPaths (call : CleanCall) (dirs : List (Str × Str)) (wsIDs : List Str)
      (workspacesInDB : List (Str × WsPath))
  /-- compare the next directory with the entries, and look at its age if it has none -/
  | strays (call : CleanCall) (dirs : List (Str × Str)) (workspacesInDB : List (Str × WsPath))
  /-- move a stray directory to the deleted area -/
  | moveStray (call : CleanCall) (founddir : Str × Str) (dirs : List (Str × Str))
      (workspacesInDB : List (Str × WsPath))
  /-- list the deleted directories of the next space -/
  | listDeletedDirs (call : CleanCall) (todo : List Str) (dirs : List (Str × Str))
  /-- list the ids of the deleted entries -/
  | listDeletedIds (call : CleanCall) (dirs : List (Str × Str))
  /-- compare the next deleted directory with the entries and remove it if it has none -/
  | removeStrays (call : CleanCall) (dirs : List (Str × Str)) (workspacesInDeletedDB : List Str)
  /-- open the database and list the ids of the live entries -/
  | listLive (fs : Str)
  /-- read the next live entry and expire it if it is over its time -/
  | expireEntries (fs : Str) (ids : List Str)
  /-- move the directory of the entry that was expired as `<id>-<timestamp>` -/
  | moveExpired (fs id : Str) (e : DBEntry) (timestamp : ℤ) (ids : List Str)
  /-- list the ids of the deleted entries -/
  | listDeleted (fs : Str)
  /-- read the next deleted entry and delete it if it is over its time -/
  | deleteEntries (fs : Str) (ids : List Str)
  /-- delete the directory of the deleted entry -/
  | deleteDir (fs : Str) (wspath : DirLoc) (ids : List Str)
  deriving DecidableEq

/-- A process: the calls it has still to make and the one it is in. -/
structure Expirer where
  /-- the calls to make -/
  jobs : List Job
  /-- `-s` -/
  single_space : Option Str
  /-- the point in the current call -/
  pc : CallPc
  deriving DecidableEq

/-- No run is in progress. -/
def Expirer.idle : Expirer := ⟨[], none, .ready⟩

/-- The next part of a call, when a listing is not taken or a loop has come to its end. -/
inductive CallPc.Follows (w : World) : CallPc → CallPc → Prop where
  /-- all spaces are listed -/
  | listIds {call : CleanCall} {dirs : List (Str × Str)} :
      Follows w (.listDirs call [] dirs) (.listIds call dirs)
  /-- the database is not opened -/
  | closed {call : CleanCall} {dirs : List (Str × Str)} (hopen : w.openDB call.fs = false) :
      Follows w (.listIds call dirs) .ready
  /-- all entries are read -/
  | strays {call : CleanCall} {dirs : List (Str × Str)} {workspacesInDB : List (Str × WsPath)} :
      Follows w (.readPaths call dirs [] workspacesInDB) (.strays call dirs workspacesInDB)
  /-- all directories are looked at -/
  | listDeletedDirs {call : CleanCall} {workspacesInDB : List (Str × WsPath)} :
      Follows w (.strays call [] workspacesInDB) (.listDeletedDirs call call.spaces [])
  /-- all spaces are listed -/
  | listDeletedIds {call : CleanCall} {dirs : List (Str × Str)} :
      Follows w (.listDeletedDirs call [] dirs) (.listDeletedIds call dirs)
  /-- all deleted directories are looked at -/
  | cleaned {call : CleanCall} {workspacesInDeletedDB : List Str} :
      Follows w (.removeStrays call [] workspacesInDeletedDB) .ready
  /-- the database is not opened -/
  | closedLive {fs : Str} (hopen : w.openDB fs = false) : Follows w (.listLive fs) .ready
  /-- all live entries are looked at -/
  | listDeleted {fs : Str} : Follows w (.expireEntries fs []) (.listDeleted fs)
  /-- all deleted entries are looked at -/
  | deleted {fs : Str} : Follows w (.deleteEntries fs []) .ready

/-- What a step reads of its surroundings: up to three readings of the clock, the order in which
a directory is listed, and how its system calls end. -/
structure Tick where
  /-- the clock -/
  now : ℤ
  /-- the clock, read once more -/
  now₂ : ℤ
  /-- the clock, read a third time -/
  now₃ : ℤ
  /-- the names of a directory, in the order of the listing -/
  listing : List Str
  /-- how the system calls end -/
  outcome : Outcome

/-- A directory that a step hands to `rmtree`. -/
structure Removal where
  /-- where it lies -/
  loc : DirLoc
  /-- its identity -/
  inode : ℕ
  /-- when -/
  time : ℤ
  deriving DecidableEq

namespace World

/-- The names of the directories of an area of a space. -/
def dirNames (w : World) (space : Str) (area : Area) : List Str :=
  (w.dirs.locs.filter fun k => k.space == space && k.area == area).map DirLoc.name

/-- `DBEntryV1::expire`: is a name taken in the database or among the directories? -/
def nameTaken (w : World) (fs : Str) (e : DBEntry) (name : Str) : Bool :=
  (w.db.lookup ⟨fs, .deleted, name⟩).isSome ||
    (w.dirs.find ⟨e.workspace.space, .deleted, name⟩).isSome

/-- `DBEntryV1::expire`: the first time from `base_ts` on whose name is free, of `tries` ones. -/
def freeTimestamp (w : World) (fs id : Str) (e : DBEntry) : ℤ → ℕ → Option ℤ
  | _, 0 => none
  | ts, tries + 1 =>
    if w.nameTaken fs e (deletedName id ts) then w.freeTimestamp fs id e (ts + 1) tries
    else some ts

/-- `DBEntryV1::expire`: find a name, write the entry as expired, move it to the deleted area.
The first part is `none` when it throws. -/
def expire (w : World) (fs id : Str) (e : DBEntry) (timestamp expired : ℤ) (outcome : Outcome) :
    Option ℤ × World :=
  -- the timestamp must be a word of digits
  if timestamp < 0 then (none, w)
  else
    match w.freeTimestamp fs id e timestamp 1000 with
    | none => (none, w)
    | some ts =>
      let w := w.writeEntry ⟨fs, .live, id⟩ { e with expired := expired }
      if outcome = .ok then
        (some ts, w.renameEntry ⟨fs, .live, id⟩ ⟨fs, .deleted, deletedName id ts⟩)
      else (none, w)

end World

/-- Is a directory that was found a stray one? None of the entries has its path or its name. -/
def isStray (founddir : Str × Str) (workspacesInDB : List (Str × WsPath)) : Bool :=
  workspacesInDB.all fun item => item.2 != ⟨founddir.1, founddir.2⟩ && item.1 != founddir.2

/-- Guard 2 of `clean_stray_directories`: was the directory moved here by this very run? -/
def movedByRun (run_start : ℤ) (name : Str) : Bool :=
  match trailingTimestamp name with
  | some movets => movets ≥ run_start
  | none => false

namespace Expirer

/-- The next call of `main`. -/
def nextCall (config : Config) (x : Expirer) (now : ℤ) : Option Expirer :=
  match x.jobs with
  | [] => none
  | .clean fs :: jobs =>
    match config.getFsConfig fs with
    | none => none
    | some fsconfig =>
      match x.single_space with
      | none => some ⟨jobs, x.single_space, .listDirs ⟨fs, fsconfig.spaces, now⟩ fsconfig.spaces []⟩
      | some space =>
        if fsconfig.spaces.contains space then
          some ⟨jobs, x.single_space, .listDirs ⟨fs, [space], now⟩ [space] []⟩
        else some ⟨jobs, x.single_space, .ready⟩
  | .expire fs :: jobs => some ⟨jobs, x.single_space, .listLive fs⟩

/-- The next step of a call, with the directory it hands to `rmtree`; `none` when the process has
nothing to do or the listing is not one of the directory it lists. -/
def callStep (config : Config) (x : Expirer) (t : Tick) (w : World) :
    Option (World × Expirer × Option Removal) :=
  let goto (pc : CallPc) : Expirer := { x with pc := pc }
  match x.pc with
  | .ready => (x.nextCall config t.now).map fun x => (w, x, none)
  -- clean_stray_directories: live directories first, entries later
  | .listDirs call [] dirs => some (w, goto (.listIds call dirs), none)
  | .listDirs call (space :: todo) dirs =>
    if t.listing.Perm (w.dirNames space .live) then
      let found := (t.listing.filter (·.contains '-')).map (space, ·)
      some (w, goto (.listDirs call todo (dirs ++ found)), none)
    else none
  | .listIds call dirs =>
    if !w.openDB call.fs then some (w, goto .ready, none)
    else if t.listing.Perm (w.matchPattern call.fs .live ['*'] ['*']) then
      some (w, goto (.readPaths call dirs t.listing []), none)
    else none
  | .readPaths call dirs [] workspacesInDB => some (w, goto (.strays call dirs workspacesInDB), none)
  | .readPaths call dirs (wsid :: wsIDs) workspacesInDB =>
    -- an entry that can not be read keeps its id, with an empty path
    let path := match w.readEntry call.fs .live wsid with
      | some e => e.workspace
      | none => ⟨[], []⟩
    some (w, goto (.readPaths call dirs wsIDs (workspacesInDB ++ [(wsid, path)])), none)
  | .strays call [] _ => some (w, goto (.listDeletedDirs call call.spaces []), none)
  | .strays call (founddir :: dirs) workspacesInDB =>
    if isStray founddir workspacesInDB then
      match w.dirs.find ⟨founddir.1, .live, founddir.2⟩ with
      -- vanished before cleanup
      | none => some (w, goto (.strays call dirs workspacesInDB), none)
      | some n =>
        -- guard 1: an allocation may be in flight
        if n.attr.mtime > t.now - STRAY_GRACETIME then
          some (w, goto (.strays call dirs workspacesInDB), none)
        else some (w, goto (.moveStray call founddir dirs workspacesInDB), none)
    else some (w, goto (.strays call dirs workspacesInDB), none)
  | .moveStray call founddir dirs workspacesInDB =>
    let (w, _) := w.moveDir t.outcome ⟨founddir.1, .live, founddir.2⟩
      ⟨founddir.1, .deleted, deletedName founddir.2 t.now⟩ t.now
    some (w, goto (.strays call dirs workspacesInDB), none)
  -- clean_stray_directories: deleted directories
  | .listDeletedDirs call [] dirs => some (w, goto (.listDeletedIds call dirs), none)
  | .listDeletedDirs call (space :: todo) dirs =>
    if t.listing.Perm (w.dirNames space .deleted) then
      let found := (t.listing.filter (globMatch ['*', '-', '*'] ·)).map (space, ·)
      some (w, goto (.listDeletedDirs call todo (dirs ++ found)), none)
    else none
  | .listDeletedIds call dirs =>
    if t.listing.Perm (w.matchPattern call.fs .deleted ['*'] ['*']) then
      some (w, goto (.removeStrays call dirs t.listing), none)
    else none
  | .removeStrays _ [] _ => some (w, goto .ready, none)
  | .removeStrays call (founddir :: dirs) workspacesInDeletedDB =>
    let next := goto (.removeStrays call dirs workspacesInDeletedDB)
    if workspacesInDeletedDB.contains founddir.2 then some (w, next, none)
    else if movedByRun call.run_start founddir.2 then some (w, next, none)
    else
      let loc : DirLoc := ⟨founddir.1, .deleted, founddir.2⟩
      let removal := (w.dirs.find loc).map fun n => ⟨loc, n.inode, t.now⟩
      some (w.rmtree t.outcome loc, next, removal)
  -- expire_workspaces: live entries
  | .listLive fs =>
    if !w.openDB fs then some (w, goto .ready, none)
    else if t.listing.Perm (w.matchPattern fs .live ['*'] ['*']) then
      some (w, goto (.expireEntries fs t.listing), none)
    else none
  | .expireEntries fs [] => some (w, goto (.listDeleted fs), none)
  | .expireEntries fs (id :: ids) =>
    match w.readEntry fs .live id with
    | none => some (w, goto (.expireEntries fs ids), none)
    | some e =>
      if e.expiration ≤ 0 ∨ t.now ≤ e.expiration then some (w, goto (.expireEntries fs ids), none)
      else
        match w.expire fs id e t.now₂ t.now₃ t.outcome with
        | (none, w) => some (w, goto (.expireEntries fs ids), none)
        | (some ts, w) =>
          some (w, goto (.moveExpired fs id { e with expired := t.now₃ } ts ids), none)
  | .moveExpired fs _ e timestamp ids =>
    let (w, _) := w.moveDir t.outcome e.workspace.loc
      ⟨e.workspace.space, .deleted, deletedName e.workspace.name timestamp⟩ t.now
    some (w, goto (.expireEntries fs ids), none)
  -- expire_workspaces: deleted entries
  | .listDeleted fs =>
    if t.listing.Perm (w.matchPattern fs .deleted ['*'] ['*']) then
      some (w, goto (.deleteEntries fs t.listing), none)
    else none
  | .deleteEntries _ [] => some (w, goto .ready, none)
  | .deleteEntries fs (id :: ids) =>
    match w.readEntry fs .deleted id, config.getFsConfig fs with
    | some e, some fsconfig =>
      if shouldDelete fsconfig id e t.now = some true then
        if t.outcome = .ok then
          some (w.removeEntry ⟨fs, .deleted, id⟩,
            goto (.deleteDir fs ⟨e.workspace.space, .deleted, id⟩ ids), none)
        -- the exception of `deleteEntry` ends the process
        else some (w, .idle, none)
      else some (w, goto (.deleteEntries fs ids), none)
    | _, _ => some (w, goto (.deleteEntries fs ids), none)
  | .deleteDir fs wspath ids =>
    let removal := (w.dirs.find wspath).map fun n => ⟨wspath, n.inode, t.now⟩
    some (w.rmtree t.outcome wspath, goto (.deleteEntries fs ids), removal)

/-- Start a cleaner-mode run for the filesystems of `-F`, or all. -/
def start (fslist : List Str) (single_space : Option Str) : Expirer :=
  ⟨fslist.map .clean ++ fslist.map .expire, single_space, .ready⟩

/-- A process that has nothing left to do ends. -/
def settled (x : Expirer) : Expirer := if x.jobs = [] ∧ x.pc = .ready then .idle else x

/-! ## What a step does -/

/-- The ways a step can go: where the call stood, and the state, the process and the removal after
it. -/
inductive CallStep (config : Config) (x : Expirer) (t : Tick) (w : World) :
    World → Expirer → Option Removal → Prop where
  /-- the next call starts -/
  | nextCall {x' : Expirer} (hpc : x.pc = .ready) (hnext : x.nextCall config t.now = some x') :
      CallStep config x t w w x' none
  /-- a listing of a database that is not opened, or of the last space, or the end of a loop: the
  call goes on to its next part -/
  | goOn {pc : CallPc} (hnext : x.pc.Follows w pc) : CallStep config x t w w { x with pc := pc } none
  /-- the directories of a space are listed -/
  | listDirs {call : CleanCall} {space : Str} {todo : List Str} {dirs : List (Str × Str)}
      (hpc : x.pc = .listDirs call (space :: todo) dirs)
      (hlist : t.listing.Perm (w.dirNames space .live)) :
      CallStep config x t w w
        { x with
          pc := .listDirs call todo
            (dirs ++ (t.listing.filter (·.contains '-')).map (space, ·)) } none
  /-- the ids of the live entries are listed -/
  | listIds {call : CleanCall} {dirs : List (Str × Str)} (hpc : x.pc = .listIds call dirs)
      (hopen : w.openDB call.fs = true)
      (hlist : t.listing.Perm (w.matchPattern call.fs .live ['*'] ['*'])) :
      CallStep config x t w w { x with pc := .readPaths call dirs t.listing [] } none
  /-- the path of an entry is read -/
  | readPath {call : CleanCall} {dirs : List (Str × Str)} {wsid : Str} {wsIDs : List Str}
      {workspacesInDB : List (Str × WsPath)}
      (hpc : x.pc = .readPaths call dirs (wsid :: wsIDs) workspacesInDB) :
      CallStep config x t w w
        { x with
          pc := .readPaths call dirs wsIDs (workspacesInDB ++ [(wsid,
            match w.readEntry call.fs .live wsid with
            | some e => e.workspace
            | none => ⟨[], []⟩)]) } none
  /-- a directory is not stray, or gone, or too young -/
  | keep {call : CleanCall} {founddir : Str × Str} {dirs : List (Str × Str)}
      {workspacesInDB : List (Str × WsPath)}
      (hpc : x.pc = .strays call (founddir :: dirs) workspacesInDB) :
      CallStep config x t w w { x with pc := .strays call dirs workspacesInDB } none
  /-- a stray directory is old enough -/
  | stray {call : CleanCall} {founddir : Str × Str} {dirs : List (Str × Str)}
      {workspacesInDB : List (Str × WsPath)} {n : DirNode Dir}
      (hpc : x.pc = .strays call (founddir :: dirs) workspacesInDB)
      (hstray : isStray founddir workspacesInDB = true)
      (hfind : w.dirs.find ⟨founddir.1, .live, founddir.2⟩ = some n)
      (hold : n.attr.mtime ≤ t.now - STRAY_GRACETIME) :
      CallStep config x t w w { x with pc := .moveStray call founddir dirs workspacesInDB } none
  /-- it is moved -/
  | moveStray {call : CleanCall} {founddir : Str × Str} {dirs : List (Str × Str)}
      {workspacesInDB : List (Str × WsPath)}
      (hpc : x.pc = .moveStray call founddir dirs workspacesInDB) :
      CallStep config x t w
        (w.moveDir t.outcome ⟨founddir.1, .live, founddir.2⟩
          ⟨founddir.1, .deleted, deletedName founddir.2 t.now⟩ t.now).1
        { x with pc := .strays call dirs workspacesInDB } none
  /-- the deleted directories of a space are listed -/
  | listDeletedDirs {call : CleanCall} {space : Str} {todo : List Str} {dirs : List (Str × Str)}
      (hpc : x.pc = .listDeletedDirs call (space :: todo) dirs)
      (hlist : t.listing.Perm (w.dirNames space .deleted)) :
      CallStep config x t w w
        { x with
          pc := .listDeletedDirs call todo
            (dirs ++ (t.listing.filter (globMatch ['*', '-', '*'] ·)).map (space, ·)) } none
  /-- the ids of the deleted entries are listed -/
  | listDeletedIds {call : CleanCall} {dirs : List (Str × Str)}
      (hpc : x.pc = .listDeletedIds call dirs)
      (hlist : t.listing.Perm (w.matchPattern call.fs .deleted ['*'] ['*'])) :
      CallStep config x t w w { x with pc := .removeStrays call dirs t.listing } none
  /-- a deleted directory has an entry, or was moved by this run -/
  | keepDeleted {call : CleanCall} {founddir : Str × Str} {dirs : List (Str × Str)}
      {workspacesInDeletedDB : List Str}
      (hpc : x.pc = .removeStrays call (founddir :: dirs) workspacesInDeletedDB) :
      CallStep config x t w w { x with pc := .removeStrays call dirs workspacesInDeletedDB } none
  /-- a stray deleted directory is removed -/
  | removeStray {call : CleanCall} {founddir : Str × Str} {dirs : List (Str × Str)}
      {workspacesInDeletedDB : List Str}
      (hpc : x.pc = .removeStrays call (founddir :: dirs) workspacesInDeletedDB)
      (hstray : workspacesInDeletedDB.contains founddir.2 = false)
      (hrun : movedByRun call.run_start founddir.2 = false) :
      CallStep config x t w (w.rmtree t.outcome ⟨founddir.1, .deleted, founddir.2⟩)
        { x with pc := .removeStrays call dirs workspacesInDeletedDB }
        ((w.dirs.find ⟨founddir.1, .deleted, founddir.2⟩).map fun n =>
          ⟨⟨founddir.1, .deleted, founddir.2⟩, n.inode, t.now⟩)
  /-- the ids of the live entries are listed -/
  | listLive {fs : Str} (hpc : x.pc = .listLive fs)
      (hlist : t.listing.Perm (w.matchPattern fs .live ['*'] ['*'])) :
      CallStep config x t w w { x with pc := .expireEntries fs t.listing } none
  /-- an entry can not be read, or is not over its time, or no name is found for it -/
  | keepEntry {fs id : Str} {ids : List Str} (hpc : x.pc = .expireEntries fs (id :: ids)) :
      CallStep config x t w w { x with pc := .expireEntries fs ids } none
  /-- an entry that is over its time is written as expired, but not moved -/
  | notExpired {fs id : Str} {ids : List Str} {e : DBEntry}
      (hpc : x.pc = .expireEntries fs (id :: ids)) (hread : w.readEntry fs .live id = some e)
      (hover : 0 < e.expiration ∧ e.expiration < t.now) (hfails : t.outcome ≠ .ok) :
      CallStep config x t w (w.writeEntry ⟨fs, .live, id⟩ { e with expired := t.now₃ })
        { x with pc := .expireEntries fs ids } none
  /-- an entry that is over its time is moved to the deleted area -/
  | expired {fs id : Str} {ids : List Str} {e : DBEntry} {ts : ℤ}
      (hpc : x.pc = .expireEntries fs (id :: ids)) (hread : w.readEntry fs .live id = some e)
      (hover : 0 < e.expiration ∧ e.expiration < t.now) (hts : 0 ≤ t.now₂ ∧ t.now₂ ≤ ts)
      (hfree : w.nameTaken fs e (deletedName id ts) = false) :
      CallStep config x t w
        ((w.writeEntry ⟨fs, .live, id⟩ { e with expired := t.now₃ }).renameEntry ⟨fs, .live, id⟩
          ⟨fs, .deleted, deletedName id ts⟩)
        { x with pc := .moveExpired fs id { e with expired := t.now₃ } ts ids } none
  /-- its directory is moved -/
  | moveExpired {fs id : Str} {ids : List Str} {e : DBEntry} {ts : ℤ}
      (hpc : x.pc = .moveExpired fs id e ts ids) :
      CallStep config x t w
        (w.moveDir t.outcome e.workspace.loc
          ⟨e.workspace.space, .deleted, deletedName e.workspace.name ts⟩ t.now).1
        { x with pc := .expireEntries fs ids } none
  /-- the ids of the deleted entries are listed -/
  | listDeleted {fs : Str} (hpc : x.pc = .listDeleted fs)
      (hlist : t.listing.Perm (w.matchPattern fs .deleted ['*'] ['*'])) :
      CallStep config x t w w { x with pc := .deleteEntries fs t.listing } none
  /-- a deleted entry is kept -/
  | keepDeletedEntry {fs id : Str} {ids : List Str} (hpc : x.pc = .deleteEntries fs (id :: ids)) :
      CallStep config x t w w { x with pc := .deleteEntries fs ids } none
  /-- a deleted entry can not be removed: the process ends -/
  | ended {fs id : Str} {ids : List Str} (hpc : x.pc = .deleteEntries fs (id :: ids)) :
      CallStep config x t w w .idle none
  /-- a deleted entry is removed -/
  | deleteEntry {fs id : Str} {ids : List Str} {e : DBEntry} {fsconfig : FilesystemConfig}
      (hpc : x.pc = .deleteEntries fs (id :: ids)) (hread : w.readEntry fs .deleted id = some e)
      (hfs : config.getFsConfig fs = some fsconfig)
      (hover : shouldDelete fsconfig id e t.now = some true) :
      CallStep config x t w (w.removeEntry ⟨fs, .deleted, id⟩)
        { x with pc := .deleteDir fs ⟨e.workspace.space, .deleted, id⟩ ids } none
  /-- its directory is removed -/
  | deleteDir {fs : Str} {wspath : DirLoc} {ids : List Str} (hpc : x.pc = .deleteDir fs wspath ids) :
      CallStep config x t w (w.rmtree t.outcome wspath) { x with pc := .deleteEntries fs ids }
        ((w.dirs.find wspath).map fun n => ⟨wspath, n.inode, t.now⟩)

theorem freeTimestamp_eq_some {w : World} {fs id : Str} {e : DBEntry} {base ts : ℤ} {tries : ℕ}
    (h : w.freeTimestamp fs id e base tries = some ts) :
    base ≤ ts ∧ w.nameTaken fs e (deletedName id ts) = false := by
  induction tries generalizing base with
  | zero => cases h
  | succ tries ih =>
    rw [World.freeTimestamp] at h
    split at h
    · obtain ⟨hle, hfree⟩ := ih h
      exact ⟨by omega, hfree⟩
    · rename_i hfree
      obtain rfl := Option.some.inj h
      exact ⟨Int.le_refl _, by simpa using hfree⟩

/-- The ways `DBEntryV1::expire` can end: nothing is done, the entry is written but not moved, or
it is moved to a free name. -/
theorem expire_cases (w : World) (fs id : Str) (e : DBEntry) (timestamp expired : ℤ)
    (outcome : Outcome) :
    w.expire fs id e timestamp expired outcome = (none, w) ∨
      (outcome ≠ .ok ∧ w.expire fs id e timestamp expired outcome =
        (none, w.writeEntry ⟨fs, .live, id⟩ { e with expired := expired })) ∨
      ∃ ts, (0 ≤ timestamp ∧ timestamp ≤ ts) ∧ w.nameTaken fs e (deletedName id ts) = false ∧
        w.expire fs id e timestamp expired outcome =
          (some ts, (w.writeEntry ⟨fs, .live, id⟩ { e with expired := expired }).renameEntry
            ⟨fs, .live, id⟩ ⟨fs, .deleted, deletedName id ts⟩) := by
  dsimp only [World.expire]
  split
  · exact Or.inl rfl
  rename_i hnonneg
  split
  · exact Or.inl rfl
  rename_i ts hfree
  obtain ⟨hle, hnot⟩ := freeTimestamp_eq_some hfree
  split
  · exact Or.inr (Or.inr ⟨ts, ⟨Int.not_lt.mp hnonneg, hle⟩, hnot, rfl⟩)
  · rename_i hfails
    exact Or.inr (Or.inl ⟨hfails, rfl⟩)

variable {config : Config} {x x' : Expirer} {t : Tick} {w w' : World} {removal : Option Removal}

/-- **Inversion** for the steps of the expirer. -/
theorem callStep_spec (h : x.callStep config t w = some (w', x', removal)) :
    CallStep config x t w w' x' removal := by
  have hsome : ∀ {w₁ : World} {x₁ : Expirer} {r₁ : Option Removal},
      some (w₁, x₁, r₁) = some (w', x', removal) → CallStep config x t w w₁ x₁ r₁ →
        CallStep config x t w w' x' removal := by
    intro w₁ x₁ r₁ heq hstep
    obtain ⟨rfl, rfl, rfl⟩ := Option.some.inj heq
    exact hstep
  have follow : ∀ {pc : CallPc}, x.pc.Follows w pc →
      some (w, { x with pc := pc }, (none : Option Removal)) = some (w', x', removal) →
        CallStep config x t w w' x' removal := fun hf heq => hsome heq (.goOn hf)
  obtain ⟨jobs, single_space, pc⟩ := x
  cases pc with
  | ready =>
    obtain ⟨x₁, hnext, heq⟩ := Option.map_eq_some_iff.mp h
    exact hsome (congrArg some heq) (.nextCall rfl hnext)
  | listDirs call todo dirs =>
    cases todo with
    | nil => exact follow .listIds h
    | cons space todo =>
      dsimp only [callStep] at h
      split at h
      · rename_i hlist
        exact hsome h (.listDirs rfl hlist)
      · cases h
  | listIds call dirs =>
    dsimp only [callStep] at h
    split at h
    · rename_i hopen
      exact follow (.closed (by simpa using hopen)) h
    · rename_i hopen
      split at h
      · rename_i hlist
        exact hsome h (.listIds rfl (by simpa using hopen) hlist)
      · cases h
  | readPaths call dirs wsIDs workspacesInDB =>
    cases wsIDs with
    | nil => exact follow .strays h
    | cons wsid wsIDs => exact hsome h (.readPath rfl)
  | strays call dirs workspacesInDB =>
    cases dirs with
    | nil => exact follow .listDeletedDirs h
    | cons founddir dirs =>
      dsimp only [callStep] at h
      split at h
      · rename_i hstray
        split at h
        · exact hsome h (.keep rfl)
        · rename_i n hfind
          split at h
          · exact hsome h (.keep rfl)
          · rename_i hold
            exact hsome h (.stray rfl hstray hfind (Int.not_lt.mp hold))
      · exact hsome h (.keep rfl)
  | moveStray call founddir dirs workspacesInDB => exact hsome h (.moveStray rfl)
  | listDeletedDirs call todo dirs =>
    cases todo with
    | nil => exact follow .listDeletedIds h
    | cons space todo =>
      dsimp only [callStep] at h
      split at h
      · rename_i hlist
        exact hsome h (.listDeletedDirs rfl hlist)
      · cases h
  | listDeletedIds call dirs =>
    dsimp only [callStep] at h
    split at h
    · rename_i hlist
      exact hsome h (.listDeletedIds rfl hlist)
    · cases h
  | removeStrays call dirs workspacesInDeletedDB =>
    cases dirs with
    | nil => exact follow .cleaned h
    | cons founddir dirs =>
      dsimp only [callStep] at h
      split at h
      · exact hsome h (.keepDeleted rfl)
      · rename_i hstray
        split at h
        · exact hsome h (.keepDeleted rfl)
        · rename_i hrun
          exact hsome h (.removeStray rfl (by simpa using hstray) (by simpa using hrun))
  | listLive fs =>
    dsimp only [callStep] at h
    split at h
    · rename_i hopen
      exact follow (.closedLive (by simpa using hopen)) h
    · split at h
      · rename_i hlist
        exact hsome h (.listLive rfl hlist)
      · cases h
  | expireEntries fs ids =>
    cases ids with
    | nil => exact follow .listDeleted h
    | cons id ids =>
      dsimp only [callStep] at h
      split at h
      · exact hsome h (.keepEntry rfl)
      · rename_i e hread
        split at h
        · exact hsome h (.keepEntry rfl)
        · rename_i hover
          have hover' : 0 < e.expiration ∧ e.expiration < t.now := by omega
          rcases expire_cases w fs id e t.now₂ t.now₃ t.outcome with hexp | ⟨hfails, hexp⟩ |
            ⟨ts, hts, hfree, hexp⟩ <;> rw [hexp] at h
          · exact hsome h (.keepEntry rfl)
          · exact hsome h (.notExpired rfl hread hover' hfails)
          · exact hsome h (.expired rfl hread hover' hts hfree)
  | moveExpired fs id e timestamp ids => exact hsome h (.moveExpired rfl)
  | listDeleted fs =>
    dsimp only [callStep] at h
    split at h
    · rename_i hlist
      exact hsome h (.listDeleted rfl hlist)
    · cases h
  | deleteEntries fs ids =>
    cases ids with
    | nil => exact follow .deleted h
    | cons id ids =>
      dsimp only [callStep] at h
      split at h
      · rename_i e fsconfig hread hfs
        split at h
        · rename_i hover
          split at h
          · exact hsome h (.deleteEntry rfl hread hfs hover)
          · exact hsome h (.ended rfl)
        · exact hsome h (.keepDeletedEntry rfl)
      · exact hsome h (.keepDeletedEntry rfl)
  | deleteDir fs wspath ids => exact hsome h (.deleteDir rfl)

/-- Where a call can begin. -/
inductive Begins (config : Config) : CallPc → Prop where
  /-- `-s` names no space of the filesystem -/
  | skipped : Begins config .ready
  /-- `clean_stray_directories` lists spaces of its filesystem -/
  | clean {call : CleanCall} {fsconfig : FilesystemConfig}
      (hfs : config.getFsConfig call.fs = some fsconfig)
      (hspaces : ∀ space ∈ call.spaces, space ∈ fsconfig.spaces) :
      Begins config (.listDirs call call.spaces [])
  /-- `expire_workspaces` lists the live entries -/
  | expire {fs : Str} : Begins config (.listLive fs)

/-- **Inversion** for the next call. -/
theorem begins_of_nextCall {now : ℤ} (h : x.nextCall config now = some x') :
    Begins config x'.pc := by
  unfold nextCall at h
  split at h
  · cases h
  · split at h
    · cases h
    · rename_i fsconfig hfs
      split at h
      · obtain rfl := Option.some.inj h
        exact .clean hfs fun space hspace => hspace
      · split at h <;> obtain rfl := Option.some.inj h
        · rename_i space _ hspace
          refine .clean hfs fun space' hspace' => ?_
          obtain rfl := List.mem_singleton.mp hspace'
          exact List.contains_iff_mem.mp hspace
        · exact .skipped
  · obtain rfl := Option.some.inj h
    exact .expire

/-- The two steps that hand a directory to `rmtree`. -/
inductive Removes : CallPc → DirLoc → Prop where
  /-- a deleted directory has no entry, and was not moved by this run -/
  | stray {call : CleanCall} {founddir : Str × Str} {dirs : List (Str × Str)} {names : List Str}
      (hstray : names.contains founddir.2 = false)
      (hrun : movedByRun call.run_start founddir.2 = false) :
      Removes (.removeStrays call (founddir :: dirs) names) ⟨founddir.1, .deleted, founddir.2⟩
  /-- its entry was deleted -/
  | deleted {fs : Str} {wspath : DirLoc} {ids : List Str} : Removes (.deleteDir fs wspath ids) wspath

/-- **Inversion** for removals. -/
theorem removes_of_callStep {m : Removal} (h : CallStep config x t w w' x' (some m)) :
    ∃ n, w.dirs.find m.loc = some n ∧ m.inode = n.inode ∧ m.time = t.now ∧
      w' = w.rmtree t.outcome m.loc ∧ Removes x.pc m.loc := by
  generalize hr : some m = removal at h
  cases h with
  | removeStray hpc hstray hrun =>
    obtain ⟨n, hn, rfl⟩ := Option.map_eq_some_iff.mp hr.symm
    exact ⟨n, hn, rfl, rfl, rfl, hpc ▸ .stray hstray hrun⟩
  | deleteDir hpc =>
    obtain ⟨n, hn, rfl⟩ := Option.map_eq_some_iff.mp hr.symm
    exact ⟨n, hn, rfl, rfl, rfl, hpc ▸ .deleted⟩
  | _ => cases hr

theorem settled_pc (x : Expirer) : x.settled.pc = x.pc := by
  unfold settled
  split
  · rename_i h
    exact h.2.symm
  · rfl

end Expirer

end HpcWorkspace
