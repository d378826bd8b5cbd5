import HpcWorkspace.Allocate

/-!
# `ws_release`

A call searches the filesystems for the entry, marks it as released and moves it to the deleted
area of the database under `<id>-<timestamp>`, then moves the directory to the deleted area of
its space under the same name, or deletes the data and the entry.
-/

namespace HpcWorkspace

/-- How a system call or a series of them ends. -/
inductive Outcome where
  /-- as POSIX says -/
  | ok
  /-- it fails and changes nothing -/
  | fails
  /-- `mv` across devices gave up after copying a part, or `rmtree` after deleting a part -/
  | partly
  deriving DecidableEq

namespace World

/-- Move a directory: `rename`, and `mv` when it crosses devices. The result tells whether the
move succeeded. -/
def moveDir (w : World) (outcome : Outcome) (k k' : DirLoc) (now : ℤ) : World × Bool :=
  match outcome with
  | .ok =>
    match w.renameDir k k' with
    | some w => (w, true)
    | none => (w, false)
  | .fails => (w, false)
  | .partly =>
    -- what was copied so far stays at the target
    match w.dirs.find k, w.dirs.find k' with
    | some n, none => ({ w with dirs := w.dirs.create k' ⟨now, false, n.attr.uid⟩ }, false)
    | _, _ => (w, false)

/-- Delete a directory with its contents; what `partly` leaves behind is not empty. -/
def rmtree (w : World) (outcome : Outcome) (k : DirLoc) : World :=
  match outcome with
  | .ok => w.removeDir k
  | .fails => w
  | .partly => { w with dirs := w.dirs.modify k fun d => { d with isEmpty := false } }

end World

/-- The command line of `ws_release`. -/
structure ReleaseArgs where
  /-- the workspace name -/
  name : Str
  /-- `-F` -/
  filesystem : Option Str
  /-- `-u` -/
  user : Option Str
  /-- `--delete-data` -/
  deletedata : Bool

/-- What a call reads of its surroundings. -/
structure ReleaseEnv where
  /-- the clock when the tool takes the timestamp -/
  timestamp : ℤ
  /-- the clock when the entry is marked as released -/
  released : ℤ
  /-- how the move or the deletion of the directory ends -/
  outcome : Outcome

/-- How a call ended. -/
inductive ReleaseResult where
  /-- an error before anything was changed -/
  | refused
  /-- the entry was moved to the deleted area; `moved` tells whether the directory was -/
  | released (fs id : Str) (e : DBEntry) (timestamp : ℤ) (moved : Bool)
  /-- entry and data were deleted -/
  | deleted (fs id : Str) (e : DBEntry)
  deriving DecidableEq

/-- `commandline`: the `-u` user that counts; `none` when the name is refused. -/
def releaseCommandline (c : Caller) (a : ReleaseArgs) : Option Str :=
  if !isValidWorkspaceName a.name then none
  else some (if a.user.isSome && !c.isRoot then [] else a.user.getD [])

/-- `validateFs` -/
def validateFs (config : Config) (c : Caller) (a : ReleaseArgs) (username : Str) : Bool :=
  match a.filesystem with
  | none => true
  | some fs => (config.validFilesystems username c.groups .release).contains fs || c.isRoot

/-- The filesystems a call looks at. -/
def releaseSearchlist (config : Config) (c : Caller) (a : ReleaseArgs) : List Str :=
  match a.filesystem with
  | some fs => [fs]
  | none => config.validFilesystems c.username c.groups .release

/-- The id a call looks for. -/
def releaseId (c : Caller) (a : ReleaseArgs) (user_option : Str) : Str :=
  if user_option.length > 0 ∧ c.isRoot then wsid user_option a.name else wsid c.username a.name

/-- `DBEntryV1::release`: the timestamp that is used, one more when the name is taken. -/
def releaseTimestamp (w : World) (fs id : Str) (timestamp : ℤ) : ℤ :=
  if (w.db.lookup ⟨fs, .deleted, deletedName id timestamp⟩).isSome then timestamp + 1
  else timestamp

theorem releaseTimestamp_range (w : World) (fs id : Str) (timestamp : ℤ) :
    timestamp ≤ releaseTimestamp w fs id timestamp ∧
      releaseTimestamp w fs id timestamp ≤ timestamp + 1 := by
  rw [releaseTimestamp]
  split
  · omega
  · omega

/-- `DBEntryV1::release`: write the entry as released and move it to the deleted area. -/
def DBEntry.release (w : World) (fs id : Str) (e : DBEntry) (released timestamp : ℤ) : World :=
  let w := w.writeEntry ⟨fs, .live, id⟩ { e with released := released }
  w.renameEntry ⟨fs, .live, id⟩ ⟨fs, .deleted, deletedName id timestamp⟩

@[simp] theorem DBEntry.release_dirs (w : World) (fs id : Str) (e : DBEntry)
    (released timestamp : ℤ) :
    (DBEntry.release w fs id e released timestamp).dirs = w.dirs := by
  rw [DBEntry.release, World.renameEntry_dirs, World.writeEntry_dirs]

/-- The other entries stay as they are. -/
theorem DBEntry.lookup_release_ne {w : World} {fs id : Str} {e : DBEntry} {released timestamp : ℤ}
    {k : DbLoc} (h : k ≠ ⟨fs, .live, id⟩) (h' : k ≠ ⟨fs, .deleted, deletedName id timestamp⟩) :
    (DBEntry.release w fs id e released timestamp).db.lookup k = w.db.lookup k :=
  (World.lookup_renameEntry_ne h h').trans (World.lookup_writeEntry_ne _ h)

/-- The entry of a call that gets as far as releasing something. -/
def releaseFind (config : Config) (c : Caller) (a : ReleaseArgs) (user_option : Str) (w : World) :
    Option (Str × DBEntry) :=
  if config.validFilesystems c.username c.groups .release = [] then none
  else if !validateFs config c a (validatedUser c user_option) then none
  else if (releaseSearchlist config c a).any fun fs => (config.getFsConfig fs).isNone then none
  else
    match findEntries w (releaseSearchlist config c a) (releaseId c a user_option) with
    | [found] => some found
    | _ => none

/-- `release` -/
def release (config : Config) (c : Caller) (a : ReleaseArgs) (user_option : Str) (env : ReleaseEnv)
    (w : World) : World × ReleaseResult :=
  match releaseFind config c a user_option w with
  | none => (w, .refused)
  | some (fs, e) =>
    let id := releaseId c a user_option
    let timestamp := releaseTimestamp w fs id env.timestamp
    let w := DBEntry.release w fs id e env.released timestamp
    if a.deletedata then
      let w := w.rmtree env.outcome e.workspace.loc
      (w.removeEntry ⟨fs, .deleted, deletedName id timestamp⟩, .deleted fs id e)
    else
      let target := ⟨e.workspace.space, .deleted, deletedName id timestamp⟩
      let (w, moved) := w.moveDir env.outcome e.workspace.loc target env.released
      (w, .released fs id e timestamp moved)

/-- A call of `ws_release`. -/
def wsRelease (config : Config) (c : Caller) (a : ReleaseArgs) (env : ReleaseEnv) (w : World) :
    World × ReleaseResult :=
  match releaseCommandline c a with
  | none => (w, .refused)
  | some user_option => release config c a user_option env w

/-! ## What a call does -/

/-- **Inversion** for `commandline`: the name is valid, and only root's `-u` counts. -/
theorem releaseCommandline_eq_some {c : Caller} {a : ReleaseArgs} {user_option : Str} :
    releaseCommandline c a = some user_option ↔
      isValidWorkspaceName a.name = true ∧
        user_option = if a.user.isSome && !c.isRoot then [] else a.user.getD [] := by
  unfold releaseCommandline
  split
  · rename_i hname
    rw [Bool.not_eq_true'] at hname
    exact ⟨nofun, fun h => by rw [hname] at h; cases h.1⟩
  · rename_i hname
    rw [Bool.not_eq_true', Bool.not_eq_false] at hname
    rw [Option.some.injEq]
    exact ⟨fun h => ⟨hname, h.symm⟩, fun h => h.2.symm⟩

/-- The ways a call can end. -/
inductive ReleaseSpec (config : Config) (c : Caller) (a : ReleaseArgs) (env : ReleaseEnv)
    (w : World) : World × ReleaseResult → Prop where
  /-- nothing happens -/
  | refused : ReleaseSpec config c a env w (w, .refused)
  /-- entry and data are deleted -/
  | deleted {user_option fs : Str} {e : DBEntry} {id : Str} {timestamp : ℤ}
      (commandline : releaseCommandline c a = some user_option)
      (found : releaseFind config c a user_option w = some (fs, e))
      (hid : id = releaseId c a user_option)
      (htimestamp : timestamp = releaseTimestamp w fs id env.timestamp)
      (deletedata : a.deletedata = true) :
      ReleaseSpec config c a env w
        ((((DBEntry.release w fs id e env.released timestamp).rmtree env.outcome
          e.workspace.loc).removeEntry ⟨fs, .deleted, deletedName id timestamp⟩), .deleted fs id e)
  /-- the entry is moved, then the directory -/
  | released {user_option fs : Str} {e : DBEntry} {id : Str} {timestamp : ℤ} {w' : World}
      {moved : Bool} (commandline : releaseCommandline c a = some user_option)
      (found : releaseFind config c a user_option w = some (fs, e))
      (hid : id = releaseId c a user_option)
      (htimestamp : timestamp = releaseTimestamp w fs id env.timestamp)
      (keep : a.deletedata = false)
      (move : (w', moved) = (DBEntry.release w fs id e env.released timestamp).moveDir env.outcome
        e.workspace.loc ⟨e.workspace.space, .deleted, deletedName id timestamp⟩ env.released) :
      ReleaseSpec config c a env w (w', .released fs id e timestamp moved)

/-- **Inversion** for `ws_release`. -/
theorem wsRelease_spec (config : Config) (c : Caller) (a : ReleaseArgs) (env : ReleaseEnv)
    (w : World) : ReleaseSpec config c a env w (wsRelease config c a env w) := by
  unfold wsRelease
  split
  · exact .refused
  · rename_i user_option hcmd
    dsimp only [release]
    split
    · exact .refused
    · rename_i fs e hfound
      split
      · rename_i hdel
        exact .deleted hcmd hfound rfl rfl hdel
      · rename_i hdel
        exact .released hcmd hfound rfl rfl (by simpa using hdel) rfl

/-- What is released was found by the search, after the checks. -/
theorem releaseFind_eq_some {config : Config} {c : Caller} {a : ReleaseArgs} {user_option fs : Str}
    {w : World} {e : DBEntry} (h : releaseFind config c a user_option w = some (fs, e)) :
    validateFs config c a (validatedUser c user_option) = true ∧
      findEntries w (releaseSearchlist config c a) (releaseId c a user_option) = [(fs, e)] ∧
      ∃ fsconfig, config.getFsConfig fs = some fsconfig := by
  unfold releaseFind at h
  split at h
  · cases h
  split at h
  · cases h
  rename_i hfs
  split at h
  · cases h
  rename_i hconf
  split at h
  · rename_i found hfound
    obtain rfl := Option.some.inj h
    refine ⟨by rwa [Bool.not_eq_true', Bool.not_eq_false] at hfs, hfound, ?_⟩
    have hmem : fs ∈ releaseSearchlist config c a :=
      (mem_findEntries.mp (hfound ▸ List.mem_singleton_self (fs, e))).1
    by_contra hnone
    refine hconf (List.any_eq_true.mpr ⟨fs, hmem, ?_⟩)
    cases hget : config.getFsConfig fs with
    | none => rfl
    | some fsconfig => exact absurd ⟨fsconfig, hget⟩ hnone
  · cases h

end HpcWorkspace
