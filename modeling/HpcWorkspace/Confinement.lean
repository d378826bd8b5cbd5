import HpcWorkspace.Deadlines
import HpcWorkspace.FilePaths

/-!
# Where the tools work

Whatever names are given on the command line, and whoever is root, the files the tools open, write,
rename or remove are children of a database or of its deleted directory, and the directories they
create, move, change or remove are children of a space or of its deleted directory.

The names pass different checks. A workspace name is a pattern, a `-u` user of `ws_allocate` is one
path component, and all other ids are checked before they become file names. The path of a
directory is taken from the entry, so this rests on who wrote the entries.
-/

namespace HpcWorkspace

/-! ## Path components -/

/-- What an id has to be. -/
theorem checkID_iff {id : Str} :
    checkID id = true ↔ id ≠ [] ∧ id ≠ ['.'] ∧ id ≠ ['.', '.'] ∧ '/' ∉ id := by
  simp [checkID, and_assoc]

theorem slash_notMem_fmtLong (z : ℤ) : '/' ∉ fmtLong z := by
  have hdigits : ∀ n : ℕ, '/' ∉ Nat.toDigits 10 n := fun n hmem =>
    absurd (Nat.isDigit_of_mem_toDigits (by decide) (by decide) hmem) (by decide)
  rw [fmtLong]
  split
  · exact hdigits _
  · rw [List.mem_cons, not_or]
    exact ⟨by decide, hdigits _⟩

/-- The name of a deleted entry is one path component when its id is. -/
theorem checkID_deletedName {id : Str} (h : checkID id = true) (ts : ℤ) :
    checkID (deletedName id ts) = true := by
  have hslash := (checkID_iff.mp h).2.2.2
  have hdash : '-' ∈ deletedName id ts := List.mem_append_right id (List.mem_cons_self ..)
  refine checkID_iff.mpr ⟨?_, ?_, ?_, ?_⟩
  · exact fun heq => absurd (heq ▸ hdash) (by decide)
  · exact fun heq => absurd (heq ▸ hdash) (by decide)
  · exact fun heq => absurd (heq ▸ hdash) (by decide)
  · rw [deletedName, List.mem_append, List.mem_cons]
    rintro (hmem | heq | hmem)
    · exact hslash hmem
    · exact absurd heq (by decide)
    · exact slash_notMem_fmtLong ts hmem

/-! ## What is written to a database -/

/-- The entries the tools write to the database of a filesystem. Only `createEntry` makes new ones;
all other writes keep the user and the directory of the entry that was read. -/
inductive Written (config : Config) (fs : Str) : DBEntry → Prop where
  /-- `ws_allocate` creates it -/
  | created {c : Caller} {a : AllocArgs} {env : AllocEnv} {user_option : Str}
      {fsconfig : FilesystemConfig} (username : '/' ∉ c.username)
      (configured : config.getFsConfig fs = some fsconfig)
      (commandline : allocCommandline c a = some user_option) :
      Written config fs (newEntry config c a env fsconfig
        (workspaceDir fsconfig c env user_option a.name))
  /-- it is read, changed and written -/
  | rewritten {e e' : DBEntry} (read : Written config fs e) (same : SameWorkspace e e') :
      Written config fs e'

variable {config : Config} {fs : Str} {e : DBEntry}

/-- The directory of a new workspace is called after a user and the workspace. -/
theorem checkID_workspaceDir {c : Caller} {a : AllocArgs} {user_option : Str}
    (fsconfig : FilesystemConfig) (env : AllocEnv) (hslash : '/' ∉ c.username)
    (hcmd : allocCommandline c a = some user_option) :
    checkID (workspaceDir fsconfig c env user_option a.name).name = true := by
  obtain ⟨hname, -, haccepted⟩ := allocCommandline_eq_some.mp hcmd
  unfold workspaceDir
  split
  · exact checkID_wsid hslash hname
  · split
    · rename_i hroot
      exact checkID_wsid (haccepted (List.ne_nil_of_length_pos hroot.1)).no_slash hname
    · exact checkID_wsid hslash hname

namespace Written

/-- The directory is in a space of the filesystem. -/
theorem space (h : Written config fs e) : SpaceOf config fs e.workspace.space := by
  induction h with
  | created _ configured _ => exact ⟨_, configured, workspaceDir_space_mem ..⟩
  | rewritten _ same ih => exact same.workspace ▸ ih

/-- Its name is one path component. -/
theorem name (h : Written config fs e) : checkID e.workspace.name = true := by
  induction h with
  | created username _ commandline => exact checkID_workspaceDir _ _ username commandline
  | rewritten _ same ih => exact same.workspace ▸ ih

/-- The path is `<space>/<name>`. -/
theorem str (h : Written config fs e) :
    e.workspace.str = e.workspace.space ++ '/' :: e.workspace.name := by
  refine if_neg fun hempty => ?_
  rw [WsPath.isEmpty, Bool.and_eq_true, beq_iff_eq, beq_iff_eq] at hempty
  exact (checkID_iff.mp h.name).1 hempty.2

end Written

/-- All entries of the databases are written by the tools. -/
def World.Written (config : Config) (w : World) : Prop :=
  w.Entries fun k e => HpcWorkspace.Written config k.fs e

theorem written_hereditary (config : Config) :
    Hereditary fun k e => Written config k.fs e where
  same hsame h := h.rewritten hsame
  retired h := h

/-- A step of users whose names have no slash. -/
def Action.SlashFree : Action → Prop
  | .allocate c _ _ => '/' ∉ c.username
  | _ => True

theorem written_step {s s' : System} {act : Action} (hs : s.world.Written config)
    (hact : act.SlashFree) (h : s.step config act = some s') : s'.world.Written config := by
  refine (written_hereditary config).step hs h ?_
  rintro c a env fs fsconfig user_option rfl hfs hcmd -
  exact .created hact hfs hcmd

/-- **Every run** of the tools and the expirer writes such entries only. -/
theorem written_of_run {acts : List Action} {s : System} {clock : ℤ}
    (hacts : ∀ act ∈ acts, act.SlashFree)
    (hr : Runs.exec (System.step config) (System.init clock) acts = some s) :
    s.world.Written config := by
  have hmeets : Runs.Meets (System.step config) (fun _ act => act.SlashFree) (.init clock) acts :=
    .of_mem (fun act hmem _ => hacts act hmem) _
  refine hmeets.invariant (fun s act s' hs hact h => written_step hs hact h) ?_ hr
  intro k e hlook
  rw [System.init, World.init, AList.lookup_empty] at hlook
  cases hlook

/-! ## Confinement -/

/-- A path that leads to something with a name of its own directly in a directory. -/
def ChildOf (dir p : Str) : Prop := ∃ name, checkID name = true ∧ Paths.Child '/' dir name p

/-- A child of a configured database or of its deleted directory. -/
def InDatabase (config : Config) (paths : Str → FsPaths) (p : Str) : Prop :=
  ∃ fs fsconfig area, config.getFsConfig fs = some fsconfig ∧
    ChildOf (databaseDir (paths fs) area) p

/-- The directory of an area of a space: a space is `<space>/` to the tools, and the deleted path
is joined to it as a path or as a string. -/
def spaceDirs (paths : FsPaths) (space : Str) : Area → List Str
  | .live => [space ++ ['/']]
  | .deleted =>
    [Paths.join '/' (space ++ ['/']) paths.deletedPath, space ++ ['/'] ++ '/' :: paths.deletedPath]

/-- With a relative path, as it should be, both are the same. -/
theorem same_spaceDirs {paths : FsPaths} (h : Paths.isAbsolute '/' paths.deletedPath = false)
    (space : Str) {dir dir' : Str} (hdir : dir ∈ spaceDirs paths space .deleted)
    (hdir' : dir' ∈ spaceDirs paths space .deleted) : Paths.Same '/' dir dir' := by
  have hsame : Paths.Same '/' (Paths.join '/' (space ++ ['/']) paths.deletedPath)
      (space ++ ['/'] ++ '/' :: paths.deletedPath) := Paths.same_join (by simp) h
  simp only [spaceDirs, List.mem_cons, List.not_mem_nil, or_false] at hdir hdir'
  rcases hdir with rfl | rfl
  · rcases hdir' with rfl | rfl
    · exact .refl _
    · exact hsame
  · rcases hdir' with rfl | rfl
    · exact hsame.symm
    · exact .refl _

/-- A path that leads to a directory of a space. -/
def LeadsTo (paths : FsPaths) (d : DirLoc) (p : Str) : Prop :=
  ∃ dir ∈ spaceDirs paths d.space d.area, Paths.Child '/' dir d.name p

/-- A child of a configured space or of its deleted directory. -/
def InSpace (config : Config) (paths : Str → FsPaths) (p : Str) : Prop :=
  ∃ fs space area, SpaceOf config fs space ∧ ∃ dir ∈ spaceDirs (paths fs) space area, ChildOf dir p

/-- All paths of a call are in their place; for a restore this can also be the directory of the
target. -/
def Confined (config : Config) (paths : Str → FsPaths) (target : Option Str) : FileCall → Prop
  | .entry _ ps => ∀ p ∈ ps, InDatabase config paths p
  | .dir _ ps => ∀ p ∈ ps, InSpace config paths p ∨
      ∃ dir, target = some dir ∧ InSpace config paths dir ∧ ChildOf dir p

/-! ## Paths of entries -/

variable {paths : Str → FsPaths} {fsconfig : FilesystemConfig} {id : Str}

theorem inDatabase_entryPath (hfs : config.getFsConfig fs = some fsconfig) (area : Area)
    (hid : checkID id = true) : InDatabase config paths (entryPath (paths fs) area id) := by
  obtain ⟨hne, -, -, hslash⟩ := checkID_iff.mp hid
  exact ⟨fs, fsconfig, area, hfs, id, hid, .join hslash hne _⟩

/-- The same for a path that is put together as a string. -/
theorem inDatabase_append (hfs : config.getFsConfig fs = some fsconfig) (hid : checkID id = true) :
    InDatabase config paths ((paths fs).database ++ '/' :: id) := by
  obtain ⟨hne, -, -, hslash⟩ := checkID_iff.mp hid
  exact ⟨fs, fsconfig, .live, hfs, id, hid, .append_of_ne hslash hne (paths fs).database_ne⟩

/-! ## Paths of directories -/

theorem LeadsTo.inSpace {d : DirLoc} {p : Str} (h : LeadsTo (paths fs) d p)
    (hspace : SpaceOf config fs d.space) (hname : checkID d.name = true) :
    InSpace config paths p := by
  obtain ⟨dir, hdir, hchild⟩ := h
  exact ⟨fs, d.space, d.area, hspace, dir, hdir, d.name, hname, hchild⟩

namespace Written

/-- The path of an entry leads to its directory. -/
theorem leadsTo (h : Written config fs e) (paths : FsPaths) :
    LeadsTo paths e.workspace.loc e.workspace.str := by
  obtain ⟨hne, -, -, hslash⟩ := checkID_iff.mp h.name
  refine ⟨_, List.mem_singleton_self _, ?_⟩
  rw [h.str]
  exact .append hslash hne _

theorem same_parent (h : Written config fs e) :
    Paths.Same '/' (Paths.parent '/' e.workspace.str) (e.workspace.space ++ ['/']) := by
  rw [h.str]
  exact Paths.same_parent (checkID_iff.mp h.name).2.2.2 _

/-- Where `ws_release` puts it. -/
theorem leadsTo_releasedPath (h : Written config fs e) (paths : FsPaths)
    (hid : checkID id = true) :
    LeadsTo paths ⟨e.workspace.space, .deleted, id⟩ (releasedPath paths e.workspace.str id) := by
  obtain ⟨hne, -, -, hslash⟩ := checkID_iff.mp hid
  have hchild := Paths.Child.join hslash hne
    (Paths.join '/' (Paths.parent '/' e.workspace.str) paths.deletedPath)
  exact ⟨_, List.mem_cons_self .., hchild.of_same (h.same_parent.join _)⟩

/-- Where `ws_restore` takes it from. -/
theorem leadsTo_wssourcename (h : Written config fs e) (paths : FsPaths)
    (hid : checkID id = true) :
    LeadsTo paths ⟨e.workspace.space, .deleted, id⟩ (wssourcename paths e.workspace.str id) := by
  obtain ⟨hne, -, -, hslash⟩ := checkID_iff.mp hid
  have hparent : Paths.parent '/' e.workspace.str ≠ [] := by
    rw [h.str]
    exact Paths.parent_ne_nil (checkID_iff.mp h.name).2.2.2 _
  have hchild : Paths.Child '/' (Paths.parent '/' e.workspace.str ++ '/' :: paths.deletedPath) id
      (wssourcename paths e.workspace.str id) := .append_of_ne hslash hne (by simp)
  exact ⟨_, List.mem_cons_of_mem _ (List.mem_singleton_self _),
    hchild.of_same (h.same_parent.append hparent (by simp) _)⟩

theorem inSpace (h : Written config fs e) : InSpace config paths e.workspace.str :=
  (h.leadsTo (paths fs)).inSpace h.space h.name

theorem inSpace_releasedPath (h : Written config fs e) (hid : checkID id = true) :
    InSpace config paths (releasedPath (paths fs) e.workspace.str id) :=
  (h.leadsTo_releasedPath (paths fs) hid).inSpace h.space hid

theorem inSpace_wssourcename (h : Written config fs e) (hid : checkID id = true) :
    InSpace config paths (wssourcename (paths fs) e.workspace.str id) :=
  (h.leadsTo_wssourcename (paths fs) hid).inSpace h.space hid

/-- Where it puts it in the directory of the target. -/
theorem childOf_target (h : Written config fs e) (hid : checkID id = true) (space : Str) :
    ChildOf e.workspace.str
      (e.workspace.str ++ '/' :: Paths.filename '/' (space ++ '/' :: id)) := by
  obtain ⟨hne, -, -, hslash⟩ := checkID_iff.mp hid
  rw [Paths.filename_append hslash]
  refine ⟨id, hid, .append_of_ne hslash hne ?_⟩
  rw [h.str]
  simp

end Written

/-! ## The calls -/

/-- All calls of a trace are confined. -/
def AllConfined (config : Config) (paths : Str → FsPaths) (target : Option Str)
    (calls : List FileCall) : Prop :=
  ∀ call ∈ calls, Confined config paths target call

section Calls

variable {faults : PathFaults} {w : World} {target : Option Str} {calls calls' : List FileCall}

@[simp] theorem allConfined_nil : AllConfined config paths target [] :=
  fun _ hmem => absurd hmem List.not_mem_nil

@[simp] theorem allConfined_cons {call : FileCall} :
    AllConfined config paths target (call :: calls) ↔
      Confined config paths target call ∧ AllConfined config paths target calls :=
  List.forall_mem_cons

@[simp] theorem allConfined_append :
    AllConfined config paths target (calls ++ calls') ↔
      AllConfined config paths target calls ∧ AllConfined config paths target calls' :=
  List.forall_mem_append

@[simp] theorem confined_entry {op : EntryOp} {p : Str} :
    Confined config paths target (.entry op [p]) ↔ InDatabase config paths p := by
  simp [Confined]

@[simp] theorem confined_entry₂ {op : EntryOp} {p q : Str} :
    Confined config paths target (.entry op [p, q]) ↔
      InDatabase config paths p ∧ InDatabase config paths q := by
  simp [Confined]

theorem confined_dir {op : DirOp} {p : Str} (hp : InSpace config paths p) :
    Confined config paths target (.dir op [p]) := by
  simp [Confined, hp]

theorem confined_dir₂ {op : DirOp} {p q : Str} (hp : InSpace config paths p)
    (hq : InSpace config paths q) : Confined config paths target (.dir op [p, q]) := by
  simp [Confined, hp, hq]

/-- The magic file has a name like an entry. -/
theorem allConfined_openDB (hfs : config.getFsConfig fs = some fsconfig) :
    AllConfined config paths target (openDBCalls paths w fs) := by
  have hmagic : InDatabase config paths ((paths fs).database ++ '/' :: ".ws_db_magic".toList) :=
    inDatabase_append hfs (by decide)
  rw [openDBCalls]
  split
  · exact allConfined_cons.mpr ⟨confined_entry.mpr hmagic, allConfined_nil⟩
  · simp

theorem allConfined_readEntry (hfs : config.getFsConfig fs = some fsconfig) (area : Area)
    (id : Str) : AllConfined config paths target (readEntryCalls paths fs area id) := by
  rw [readEntryCalls]
  split
  · rename_i hid
    simp [inDatabase_entryPath hfs area hid]
  · simp

theorem allConfined_createEntry (hfs : config.getFsConfig fs = some fsconfig) (id : Str) :
    AllConfined config paths target (createEntryCalls paths fs id) := by
  rw [createEntryCalls]
  split
  · rename_i hid
    simp [inDatabase_append hfs hid]
  · simp

theorem allConfined_deleteEntry (hfs : config.getFsConfig fs = some fsconfig) (id : Str) :
    AllConfined config paths target (deleteEntryCalls paths fs id) := by
  rw [deleteEntryCalls]
  split
  · rename_i hid
    simp [inDatabase_entryPath hfs .deleted hid]
  · simp

theorem allConfined_writeEntry (hfs : config.getFsConfig fs = some fsconfig)
    (hid : checkID id = true) :
    AllConfined config paths target (writeEntryCalls paths fs id) := by
  simp [writeEntryCalls, inDatabase_entryPath hfs .live hid]

/-- The search loop stops before a name that is not configured. -/
theorem allConfined_search (id : Str) (searchlist : List Str) :
    AllConfined config paths target (searchCalls config paths w id searchlist) := by
  induction searchlist with
  | nil => simp [searchCalls]
  | cons fs searchlist ih =>
    rw [searchCalls]
    split
    · simp
    · rename_i hfs
      refine allConfined_append.mpr ⟨allConfined_append.mpr ⟨allConfined_openDB hfs, ?_⟩, ih⟩
      split
      · exact allConfined_readEntry hfs .live id
      · simp

/-- What a search finds has a checked id and is written by the tools. -/
theorem found_written {searchlist : List Str} (hw : w.Written config)
    (hfound : findEntries w searchlist id = [(fs, e)]) :
    checkID id = true ∧ Written config fs e := by
  have hread := (mem_findEntries.mp (hfound ▸ List.mem_singleton_self (fs, e))).2.2
  obtain ⟨hid, hlook⟩ := World.readEntry_eq_some.mp hread
  exact ⟨hid, hw _ _ hlook⟩

/-! ## `ws_allocate` -/

theorem allConfined_createWorkspace {wsdir : Str} (hwsdir : InSpace config paths wsdir)
    (known : Bool) :
    AllConfined config paths target (createWorkspaceCalls faults wsdir known) := by
  have hdir : ∀ op, Confined config paths target (.dir op [wsdir]) :=
    fun op => confined_dir hwsdir
  rw [createWorkspaceCalls, allConfined_cons]
  refine ⟨hdir _, ?_⟩
  split
  · simp
  rw [allConfined_cons]
  refine ⟨hdir _, ?_⟩
  split
  · simp [hdir]
  split
  · simp
  rw [allConfined_cons]
  refine ⟨hdir _, ?_⟩
  split
  · simp [hdir]
  · split <;> simp [hdir]

theorem allConfined_allocateChecked {c : Caller} {a : AllocArgs} {user_option : Str}
    (env : AllocEnv) (hw : w.Written config) (hslash : '/' ∉ c.username)
    (hcmd : allocCommandline c a = some user_option) :
    AllConfined config paths target
      (allocateCheckedCalls config paths faults w c a user_option env) := by
  dsimp only [allocateCheckedCalls]
  split
  · simp
  · rename_i fs e hfound
    split
    · split
      · simp
      · rename_i hfs
        split
        · simp
        · exact allConfined_writeEntry hfs (found_written hw hfound).1
    · simp
  · split
    · simp
    split
    · simp
    rename_i fs _ _
    split
    · simp
    rename_i fsconfig hfs
    split
    · simp
    refine allConfined_append.mpr ⟨allConfined_openDB hfs, ?_⟩
    split
    · simp
    have hnew : Written config fs
        (newEntry config c a env fsconfig (workspaceDir fsconfig c env user_option a.name)) :=
      .created hslash hfs hcmd
    have hdir : InSpace config paths (workspaceDir fsconfig c env user_option a.name).str :=
      hnew.inSpace
    refine allConfined_append.mpr ⟨allConfined_createWorkspace hdir _, ?_⟩
    split
    · exact allConfined_createEntry hfs _
    · simp

/-- **`ws_allocate`** is confined. -/
theorem allConfined_allocate {c : Caller} {a : AllocArgs} (env : AllocEnv) (hw : w.Written config)
    (hslash : '/' ∉ c.username) :
    AllConfined config paths target (wsAllocateCalls config paths faults w c a env) := by
  rw [wsAllocateCalls]
  split
  · simp
  rename_i user_option hcmd
  split
  · simp
  split
  · simp
  refine allConfined_append.mpr ⟨?_, ?_⟩
  · split
    · intro call hmem
      obtain ⟨fs, hfs, hcall⟩ := List.mem_flatMap.mp hmem
      obtain ⟨fsconfig, hconf⟩ :=
        Config.getFsConfig_of_hasAccess (Config.mem_validFilesystems.mp hfs)
      exact allConfined_openDB hconf call hcall
    · simp
  · split
    · simp
    refine allConfined_append.mpr ⟨allConfined_search _ _, ?_⟩
    split
    · simp
    · exact allConfined_allocateChecked env hw hslash hcmd

/-! ## `ws_release` -/

theorem allConfined_releaseFound {a : ReleaseArgs} (hfs : config.getFsConfig fs = some fsconfig)
    (hid : checkID id = true) (he : Written config fs e) (ts : ℤ) :
    AllConfined config paths target
      (releaseFoundCalls paths faults a fs id (deletedName id ts) e.workspace.str) := by
  have hname := checkID_deletedName hid ts
  have hentry : InDatabase config paths (entryPath (paths fs) .deleted (deletedName id ts)) :=
    inDatabase_entryPath hfs .deleted hname
  rw [releaseFoundCalls, allConfined_append, allConfined_cons, confined_entry₂]
  refine ⟨allConfined_writeEntry hfs hid, ⟨inDatabase_entryPath hfs .live hid, hentry⟩, ?_⟩
  split
  · simp
  split
  · simp [confined_dir he.inSpace, hentry]
  · have hmove : ∀ op, Confined config paths target
        (.dir op [e.workspace.str, releasedPath (paths fs) e.workspace.str (deletedName id ts)]) :=
      fun op => confined_dir₂ he.inSpace (he.inSpace_releasedPath hname)
    dsimp only
    split <;> simp [hmove]

/-- **`ws_release`** is confined, also with a `-u` that is not checked. -/
theorem allConfined_release {c : Caller} {a : ReleaseArgs} (env : ReleaseEnv)
    (hw : w.Written config) :
    AllConfined config paths target (wsReleaseCalls config paths faults w c a env) := by
  rw [wsReleaseCalls]
  split
  · simp
  split
  · simp
  split
  · simp
  refine allConfined_append.mpr ⟨allConfined_search _ _, ?_⟩
  split
  · simp
  · rename_i fs e hfind
    obtain ⟨-, hfound, fsconfig, hfs⟩ := releaseFind_eq_some hfind
    obtain ⟨hid, he⟩ := found_written hw hfound
    exact allConfined_releaseFound hfs hid he _

/-! ## `ws_restore` -/

theorem allConfined_restoreTarget (id : Str) {fslist : List Str}
    (hfslist : ∀ fs ∈ fslist, ∃ fsconfig, config.getFsConfig fs = some fsconfig) :
    AllConfined config paths target (restoreTargetCalls paths w id fslist) := by
  induction fslist with
  | nil => simp [restoreTargetCalls]
  | cons fs fslist ih =>
    obtain ⟨⟨fsconfig, hfs⟩, hrest⟩ := List.forall_mem_cons.mp hfslist
    rw [restoreTargetCalls]
    refine allConfined_append.mpr ⟨allConfined_openDB hfs, ?_⟩
    split
    · refine allConfined_append.mpr ⟨allConfined_readEntry hfs .live id, ?_⟩
      split
      · simp
      · exact ih hrest
    · exact ih hrest

theorem allConfined_restoreSource (fslist : List Str) (name username : Str) :
    AllConfined config paths target
      (restoreSourceCalls config paths w fslist name username) := by
  rw [restoreSourceCalls]
  split
  · split
    · simp
    · rename_i hfs
      split
      · simp
      · refine allConfined_append.mpr ⟨allConfined_openDB hfs, ?_⟩
        split
        · exact allConfined_readEntry hfs .deleted name
        · simp
  · simp

/-- The move ends in the target's directory, or in its place. -/
theorem allConfined_restoreMove {name targetFs targetId : Str} {e te : DBEntry}
    (hname : checkID name = true) (he : Written config fs e)
    (hfs : config.getFsConfig targetFs = some fsconfig) (hid : checkID targetId = true)
    (hte : Written config targetFs te) :
    AllConfined config paths (some te.workspace.str)
      (restoreMoveCalls config paths faults name (wssourcename (paths fs) e.workspace.str name) e
        targetFs targetId te.workspace.str) := by
  have hsource : InSpace config paths (wssourcename (paths fs) e.workspace.str name) :=
    he.inSpace_wssourcename hname
  have hdelete : AllConfined config paths (some te.workspace.str)
      (deleteEntryCalls paths targetFs name) := allConfined_deleteEntry hfs name
  rw [restoreMoveCalls]
  split
  · rw [allConfined_cons]
    refine ⟨confined_dir₂ hsource hte.inSpace, ?_⟩
    split
    · refine allConfined_append.mpr ⟨?_, hdelete⟩
      split
      · exact allConfined_writeEntry hfs hid
      · simp
    · simp
  · have hmove : ∀ op, Confined config paths (some te.workspace.str)
        (.dir op [wssourcename (paths fs) e.workspace.str name, te.workspace.str ++ '/' ::
          Paths.filename '/' (wssourcename (paths fs) e.workspace.str name)]) := by
      intro op p hp
      simp only [List.mem_cons, List.not_mem_nil, or_false] at hp
      rcases hp with rfl | rfl
      · exact Or.inl hsource
      · exact Or.inr ⟨_, rfl, hte.inSpace, hte.childOf_target hname _⟩
    dsimp only
    rw [List.cons_append, allConfined_cons, allConfined_append]
    refine ⟨hmove _, ?_, ?_⟩
    · split <;> simp [hmove]
    · split
      · exact hdelete
      · simp

/-- **`restore`** is confined: the name and the id of the target are checked when the entries are
read. -/
theorem allConfined_restore {c : Caller} {a : RestoreArgs} {username : Str} (hw : w.Written config)
    (htarget : target = (restoreFslist config c username a.filesystem).bind fun fslist =>
      (restoreTarget w fslist (wsid username (a.target.getD []))).map fun p =>
        p.2.workspace.str) :
    AllConfined config paths target (restoreCalls config paths faults w c a username) := by
  rw [restoreCalls]
  split
  · simp
  rename_i fslist hlist
  have hfslist : ∀ fs ∈ fslist, ∃ fsconfig, config.getFsConfig fs = some fsconfig :=
    fun fs hfs => Config.getFsConfig_of_hasAccess (hasAccess_of_mem_restoreFslist hlist hfs)
  refine allConfined_append.mpr ⟨allConfined_append.mpr ⟨?_, allConfined_restoreSource _ _ _⟩, ?_⟩
  · intro call hmem
    obtain ⟨fs, hfs, hcall⟩ := List.mem_flatMap.mp hmem
    obtain ⟨fsconfig, hconf⟩ := hfslist fs hfs
    exact allConfined_openDB hconf call hcall
  split
  · simp
  rename_i fs e hsource
  obtain ⟨-, -, hread, fsconfig, hfs, -⟩ := restoreSource_eq_some hsource
  obtain ⟨hname, hlook⟩ := World.readEntry_eq_some.mp hread
  have he : Written config fs e := hw _ _ hlook
  have hdir : InSpace config paths (wssourcename (paths fs) e.workspace.str a.name) :=
    he.inSpace_wssourcename hname
  dsimp only
  split
  · rw [restoreDeleteCalls, allConfined_append]
    refine ⟨by simp [confined_dir hdir], ?_⟩
    split
    · simp
    · exact allConfined_deleteEntry hfs _
  refine allConfined_append.mpr ⟨allConfined_restoreTarget _ hfslist, ?_⟩
  split
  · simp
  rename_i targetFs te hte
  split
  · simp
  obtain ⟨hmem, -, hreadTarget⟩ := restoreTarget_eq_some hte
  obtain ⟨hid, hlookTarget⟩ := World.readEntry_eq_some.mp hreadTarget
  obtain ⟨fsconfig', hfs'⟩ := hfslist targetFs hmem
  rw [hlist, Option.bind_some, hte, Option.map_some] at htarget
  rw [htarget]
  exact allConfined_restoreMove hname he hfs' hid (hw _ _ hlookTarget)

theorem allConfined_list (hfs : config.getFsConfig fs = some fsconfig) (ids : List Str) :
    AllConfined config paths target (listCalls paths w fs ids) := by
  induction ids with
  | nil => simp [listCalls]
  | cons id ids ih =>
    rw [listCalls, allConfined_append]
    refine ⟨allConfined_readEntry hfs .deleted id, ?_⟩
    split
    · exact ih
    · simp

/-- **`ws_restore -l`** is confined, with any pattern. -/
theorem allConfined_restoreList (c : Caller) (a : RestoreListArgs) :
    AllConfined config paths target (restoreListCalls config paths w c a) := by
  have hvalid : ∀ fs ∈ config.validFilesystems c.username c.groups .restore,
      ∃ fsconfig, config.getFsConfig fs = some fsconfig :=
    fun fs hfs => Config.getFsConfig_of_hasAccess (Config.mem_validFilesystems.mp hfs)
  intro call hmem
  dsimp only [restoreListCalls] at hmem
  obtain ⟨fs, hfs, hcall⟩ := List.mem_flatMap.mp hmem
  have hconf : ∃ fsconfig, config.getFsConfig fs = some fsconfig := by
    split at hfs
    · split at hfs
      · rename_i hgiven
        rw [List.mem_singleton.mp hfs]
        exact hvalid _ (List.contains_iff_mem.mp hgiven)
      · exact absurd hfs List.not_mem_nil
    · exact hvalid fs hfs
  obtain ⟨fsconfig, hconf⟩ := hconf
  rcases List.mem_append.mp hcall with hopen | hlist
  · exact allConfined_openDB hconf call hopen
  · split at hlist
    · exact allConfined_list hconf _ call hlist
    · exact absurd hlist List.not_mem_nil

end Calls

/-! ## All tools -/

/-- **Path confinement.** Whatever is given on the command line, in databases whose entries the
tools have written, every file that is opened, written, renamed or removed is a child of a database
or of its deleted directory, and every directory that is created, moved, changed or removed is a
child of a space or of its deleted directory, or of the target of a restore. -/
theorem confined_of_written {config : Config} {paths : Str → FsPaths} {faults : PathFaults}
    {w : World} (hw : w.Written config) (invocation : Invocation)
    (hslash : '/' ∉ invocation.caller.username) {call : FileCall}
    (hcall : call ∈ invocation.calls config paths faults w) :
    Confined config paths (invocation.target config w) call := by
  cases invocation with
  | allocate c a env => exact allConfined_allocate env hw hslash call hcall
  | release c a env => exact allConfined_release env hw call hcall
  | restore c a env =>
    dsimp only [Invocation.calls, wsRestoreCalls] at hcall
    split at hcall
    · exact absurd hcall List.not_mem_nil
    split at hcall
    · exact absurd hcall List.not_mem_nil
    split at hcall
    · exact absurd hcall List.not_mem_nil
    · exact allConfined_restore hw rfl call hcall
  | restoreList c a => exact allConfined_restoreList c a call hcall

/-- The paths of a filesystem. -/
def plainPaths (_ : Str) : FsPaths where
  database := ['d', 'b']
  deletedPath := ['.', 'r']
  database_ne := List.cons_ne_nil _ _
  deletedPath_ne := List.cons_ne_nil _ _

/-- No call fails. -/
def allSucceed : PathFaults where
  create := false
  openDirectory := false
  fchown := false
  fchmod := false
  renameEntry := false
  move := .rename
  dataLeft := false

/-- The state after `bob` has created a workspace `x`. -/
def afterCreation : World := (wsAllocate plainConfig bob (createArgs none) bobEnv .init).1

theorem written_afterCreation : afterCreation.Written plainConfig := by
  have hrun : Runs.exec (System.step plainConfig) (System.init 0)
      [.allocate bob (createArgs none) bobEnv] = some
        { System.init 0 with world := afterCreation, clock := bobEnv.created } := rfl
  refine written_of_run ?_ hrun
  intro act hmem
  rw [List.mem_singleton.mp hmem]
  exact (by decide : '/' ∉ bob.username)

/-- He releases it: the directory goes from the space to its deleted directory. -/
theorem confined_of_written_bob :
    .dir .rename ["s/bob-x".toList, "s/.r/bob-x-1000".toList] ∈
        (Invocation.release bob ⟨['x'], none, none, false⟩ ⟨1000, 1000, .ok⟩).calls plainConfig
          plainPaths allSucceed afterCreation ∧
      Confined plainConfig plainPaths none
        (.dir .rename ["s/bob-x".toList, "s/.r/bob-x-1000".toList]) := by
  have hcall : .dir .rename ["s/bob-x".toList, "s/.r/bob-x-1000".toList] ∈
      (Invocation.release bob ⟨['x'], none, none, false⟩ ⟨1000, 1000, .ok⟩).calls plainConfig
        plainPaths allSucceed afterCreation := by decide
  exact ⟨hcall, confined_of_written written_afterCreation
    (.release bob ⟨['x'], none, none, false⟩ ⟨1000, 1000, .ok⟩) (by decide) hcall⟩

end HpcWorkspace
