import HpcWorkspace.Expirer
import HpcWorkspace.Lib.Runs
import HpcWorkspace.Restore

/-!
# Tools run one after the other

The system: databases and directories, the expirer's process and the clock. A tool is started
when no other one runs; `ws_allocate`, `ws_release` and `ws_restore` are one step here, the
expirer takes its steps one by one. Every reading of the clock is at least the one before.

Two history variables say what became of workspaces that were expired or released: `retained` are
the directories that left the live area and that their owner has neither restored nor deleted
since, `removals` are the directories that the expirer handed to `rmtree`.
-/

namespace HpcWorkspace

/-- A directory that left the live area. -/
structure Retained where
  /-- the filesystem -/
  fs : Str
  /-- the space of the directory -/
  space : Str
  /-- the name of the deleted entry -/
  name : Str
  /-- the identity of the directory -/
  inode : ℕ
  /-- the user of the entry -/
  owner : Str
  /-- it left by release, else by expiry -/
  released : Bool
  /-- end of the keep time -/
  deadline : ℤ
  deriving DecidableEq

/-- Databases, directories, processes, the clock and the history. -/
structure System where
  /-- databases and directories -/
  world : World
  /-- the expirer -/
  expirer : Expirer
  /-- the last reading of the clock -/
  clock : ℤ
  /-- directories that left the live area -/
  retained : List Retained
  /-- directories handed to `rmtree` -/
  removals : List Removal

/-- What happens next. -/
inductive Action where
  /-- `ws_allocate` -/
  | allocate (c : Caller) (a : AllocArgs) (env : AllocEnv)
  /-- `ws_release` -/
  | release (c : Caller) (a : ReleaseArgs) (env : ReleaseEnv)
  /-- `ws_restore` -/
  | restore (c : Caller) (a : RestoreArgs) (env : RestoreEnv)
  /-- a user works in the directory of a workspace -/
  | work (path : WsPath) (mtime : ℤ) (isEmpty : Bool)
  /-- `ws_expirer` is started -/
  | expirer (fslist : List Str) (single_space : Option Str)
  /-- the expirer's next step -/
  | tick (t : Tick)

namespace System

/-- Empty databases and spaces at some time. -/
def init (clock : ℤ) : System where
  world := .init
  expirer := .idle
  clock := clock
  retained := []
  removals := []

/-- What leaves the live area of `w` when the entry `e` becomes the deleted entry `name`. -/
def leaving (w : World) (fs name : Str) (e : DBEntry) (released : Bool) (deadline : ℤ) :
    List Retained :=
  match w.dirs.find e.workspace.loc with
  | none => []
  | some n => [⟨fs, e.workspace.space, name, n.inode, e.username, released, deadline⟩]

/-- What leaves with a call of `ws_release`. -/
def leftByRelease (config : Config) (w : World) (env : ReleaseEnv) : ReleaseResult → List Retained
  | .released fs id e timestamp _ =>
    match config.getFsConfig fs with
    | none => []
    | some fsconfig => leaving w fs (deletedName id timestamp) e true
        (env.released + fsconfig.releasekeeptime * 24 * 3600)
  | _ => []

/-- What leaves with a step of the expirer: the directory of an entry that was expired. -/
def leftByExpirer (config : Config) (w : World) : CallPc → List Retained
  | .moveExpired fs id e timestamp _ =>
    match config.getFsConfig fs with
    | none => []
    | some fsconfig => leaving w fs (deletedName id timestamp) e false
        (e.expired + fsconfig.keeptime * 24 * 3600)
  | _ => []

/-- Has its owner restored a directory with this call, or started to delete its data? -/
def endedBy (c : Caller) (a : RestoreArgs) (result : RestoreResult) (r : Retained) : Bool :=
  match result with
  | .refused => false
  | .wiped fs _ _ => r.owner == c.username && r.fs == fs && r.name == a.name
  | .restored fs _ _ _ _ moved => moved && r.owner == c.username && r.fs == fs && r.name == a.name

/-- One step. -/
def step (config : Config) (s : System) : Action → Option System
  | .allocate c a env =>
    if s.expirer = .idle ∧ s.clock ≤ env.now ∧ env.now ≤ env.created then
      some { s with world := (wsAllocate config c a env s.world).1, clock := env.created }
    else none
  | .release c a env =>
    if s.expirer = .idle ∧ s.clock ≤ env.timestamp ∧ env.timestamp ≤ env.released then
      let r := wsRelease config c a env s.world
      some { s with
        world := r.1
        clock := env.released
        retained := s.retained ++ leftByRelease config s.world env r.2 }
    else none
  | .restore c a env =>
    if s.expirer = .idle ∧ s.clock ≤ env.now then
      let r := wsRestore config c a env s.world
      some { s with
        world := r.1
        clock := env.now
        retained := s.retained.filter fun k => !endedBy c a r.2 k }
    else none
  | .work path mtime isEmpty => some { s with world := s.world.touch path.loc mtime isEmpty }
  | .expirer fslist single_space =>
    if s.expirer = .idle ∧ ∀ fs ∈ fslist, fs ∈ config.Filesystems then
      some { s with expirer := (Expirer.start fslist single_space).settled }
    else none
  | .tick t =>
    if s.clock ≤ t.now ∧ t.now ≤ t.now₂ ∧ t.now₂ ≤ t.now₃ then
      match s.expirer.callStep config t s.world with
      | none => none
      | some (w, x, removal) =>
        some { world := w
               expirer := x.settled
               clock := t.now₃
               retained := s.retained ++ leftByExpirer config s.world s.expirer.pc
               removals := s.removals ++ removal.toList }
    else none

end System

end HpcWorkspace
