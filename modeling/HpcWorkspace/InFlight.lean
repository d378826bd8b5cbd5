import HpcWorkspace.FailedMove

/-!
# A creation while the expirer runs

`ws_allocate` makes the directory of a workspace, or takes one that is there, gives it to its
owner, and writes the entry. Here these are steps of their own, and the expirer may take any number
of its steps between them and after them.

A run of the expirer lists the directories first and the entries later, so a creation that writes
its entry in between is seen. A directory that is older than the grace time is not safe when the
entries were listed before its own one was written: it is moved to the deleted area, and nothing
brings it back. A run that lists the entries after the write leaves it alone.
-/

namespace HpcWorkspace

/-! ## The steps of a creation -/

/-- `fchown` of an open directory, wherever it lies. -/
def World.fchown (w : World) (wsfd uid : ℕ) : World :=
  match w.dirs.locate wsfd with
  | none => w
  | some k => w.chown k uid

/-- A call of `createWorkspace` and of `createEntry`, with all that they are given. -/
structure CreateCall where
  /-- the caller -/
  caller : Caller
  /-- the command line -/
  args : AllocArgs
  /-- the `-u` user that counts -/
  user_option : Str
  /-- what the call reads -/
  env : AllocEnv
  /-- the filesystem -/
  fs : Str
  /-- its configuration -/
  fsconfig : FilesystemConfig

namespace CreateCall

/-- The directory. -/
def wsdir (job : CreateCall) : WsPath :=
  workspaceDir job.fsconfig job.caller job.env job.user_option job.args.name

/-- The id of the entry. -/
def id (job : CreateCall) : Str := wsid job.caller.username job.args.name

/-- The entry. -/
def entry (job : CreateCall) (config : Config) : DBEntry :=
  newEntry config job.caller job.args job.env job.fsconfig job.wsdir

/-- The owner; `none` when user or group are not known. -/
def owner (job : CreateCall) : Option ℕ :=
  if primarygroup job.caller job.args ≠ [] ∧
    !job.env.groupKnown (primarygroup job.caller job.args) then none
  else workspaceUid job.caller job.env job.user_option

end CreateCall

/-- Where a creation is: each constructor names the step it takes next. -/
inductive CreatePc where
  /-- `create_directories` -/
  | mkdir
  /-- open the directory -/
  | opendir
  /-- `fchown` and `fchmod` of the open directory -/
  | chown (wsfd : ℕ)
  /-- read the clock twice and write the entry; the directory was given to its owner before -/
  | createEntry (owned : ℤ)
  /-- the entry was written -/
  | written (time : ℤ)
  /-- the process ended before -/
  | ended
  deriving DecidableEq

/-- Was the entry written? -/
def CreatePc.isWritten : CreatePc → Bool
  | .written _ => true
  | _ => false

/-- A creation that is in flight beside the expirer. -/
structure InFlight where
  /-- databases, directories and the expirer -/
  sys : System
  /-- the point in the creation -/
  pc : CreatePc
  /-- history: the system when the directory was made -/
  made : Option System
  /-- history: was the entry written when the expirer listed the live entries last? -/
  listed : Bool

/-- Who takes the next step. -/
inductive Turn where
  /-- the creation, at some time -/
  | create (now : ℤ)
  /-- `ws_expirer` is started -/
  | expirer (fslist : List Str) (single_space : Option Str)
  /-- the expirer -/
  | tick (t : Tick)

namespace InFlight

/-- A creation that begins. -/
def start (sys : System) : InFlight := ⟨sys, .mkdir, none, false⟩

/-- The next step of the creation. -/
def createStep (config : Config) (job : CreateCall) (now : ℤ) (s : InFlight) : Option InFlight :=
  let w := s.sys.world
  let goto (w : World) (pc : CreatePc) : InFlight :=
    { s with sys := { s.sys with world := w, clock := now }, pc := pc }
  match s.pc with
  | .mkdir =>
    let sys := { s.sys with world := w.mkdir job.wsdir.loc now, clock := now }
    some { s with sys := sys, pc := .opendir, made := some sys }
  | .opendir =>
    match w.dirs.find job.wsdir.loc with
    | none => some (goto w .ended)
    | some n => some (goto w (.chown n.inode))
  | .chown wsfd =>
    match job.owner with
    | none => some (goto w .ended)
    | some tuid => some (goto (w.fchown wsfd tuid) (.createEntry now))
  | .createEntry owned =>
    if owned ≤ job.env.now ∧ job.env.now ≤ job.env.created ∧ job.env.created ≤ now then
      if checkID job.id then
        some (goto (w.writeEntry ⟨job.fs, .live, job.id⟩ (job.entry config)) (.written now))
      else some (goto w .ended)
    else none
  | .written _ => none
  | .ended => none

/-- Was the entry written when the live entries were listed last, after the next step of the
expirer? -/
def listedAfter (s : InFlight) : Bool :=
  match s.sys.expirer.pc with
  | .listIds _ _ => s.pc.isWritten
  | _ => s.listed

/-- One step. -/
def step (config : Config) (job : CreateCall) (s : InFlight) : Turn → Option InFlight
  | .create now => if s.sys.clock ≤ now then s.createStep config job now else none
  | .expirer fslist single_space =>
    (s.sys.step config (.expirer fslist single_space)).map fun sys => { s with sys := sys }
  | .tick t =>
    (s.sys.step config (.tick t)).map fun sys =>
      { s with
        sys := sys
        listed := s.listedAfter }

/-- The ways a step of the creation can go. -/
inductive CreateStep (config : Config) (job : CreateCall) (now : ℤ) (s : InFlight) :
    InFlight → Prop where
  /-- the directory is there -/
  | mkdir (hpc : s.pc = .mkdir) :
      CreateStep config job now s
        { s with
          sys := { s.sys with world := s.sys.world.mkdir job.wsdir.loc now, clock := now }
          pc := .opendir
          made := some
            { s.sys with world := s.sys.world.mkdir job.wsdir.loc now, clock := now } }
  /-- it is opened -/
  | opened {wsfd : ℕ} (hpc : s.pc = .opendir) :
      CreateStep config job now s { s with sys := { s.sys with clock := now }, pc := .chown wsfd }
  /-- it is given to its owner -/
  | owned {wsfd tuid : ℕ} (hpc : s.pc = .chown wsfd) :
      CreateStep config job now s
        { s with
          sys := { s.sys with world := s.sys.world.fchown wsfd tuid, clock := now }
          pc := .createEntry now }
  /-- the entry is written -/
  | wrote {owned : ℤ} (hpc : s.pc = .createEntry owned) (hid : checkID job.id = true) :
      CreateStep config job now s
        { s with
          sys :=
            { s.sys with
              world := s.sys.world.writeEntry ⟨job.fs, .live, job.id⟩ (job.entry config)
              clock := now }
          pc := .written now }
  /-- the process ends before -/
  | ended (hpc : s.pc.isWritten = false) :
      CreateStep config job now s { s with sys := { s.sys with clock := now }, pc := .ended }

/-- **Inversion** for the steps of the creation. -/
theorem createStep_spec {config : Config} {job : CreateCall} {now : ℤ} {s s' : InFlight}
    (h : s.createStep config job now = some s') : CreateStep config job now s s' := by
  unfold createStep at h
  cases hpc : s.pc with
  | mkdir =>
    rw [hpc] at h
    rw [← Option.some.inj h]
    exact .mkdir hpc
  | opendir =>
    rw [hpc] at h
    dsimp only at h
    split at h <;> rw [← Option.some.inj h]
    · exact .ended (by rw [hpc]; rfl)
    · exact .opened hpc
  | chown wsfd =>
    rw [hpc] at h
    dsimp only at h
    split at h <;> rw [← Option.some.inj h]
    · exact .ended (by rw [hpc]; rfl)
    · exact .owned hpc
  | createEntry owned =>
    rw [hpc] at h
    dsimp only at h
    split at h
    · split at h <;> rw [← Option.some.inj h]
      · rename_i hid
        exact .wrote hpc hid
      · exact .ended (by rw [hpc]; rfl)
    · cases h
  | written | ended =>
    rw [hpc] at h
    cases h

/-! ## Alone it is the creation of `ws_allocate` -/

/-- The turns of a creation that nothing disturbs: all at one time, but the last. -/
def alone (job : CreateCall) : List Turn :=
  [.create job.env.now, .create job.env.now, .create job.env.now, .create job.env.created]

/-- A directory that is found is given to its owner at its place. -/
theorem fchown_of_find {w : World} {k : DirLoc} {n : DirNode Dir} (h : w.dirs.find k = some n)
    (uid : ℕ) : w.fchown n.inode uid = w.chown k uid := by
  rw [World.fchown, DirTree.locate_eq_some h]

/-- `createWorkspace` in the words of the steps. -/
theorem createWorkspace_eq (config : Config) (job : CreateCall) (w : World) :
    createWorkspace config job.caller job.args job.user_option job.env w job.fs job.fsconfig =
      match job.owner with
      | none => (w.mkdir job.wsdir.loc job.env.now, .crashed)
      | some tuid =>
        let w := (w.mkdir job.wsdir.loc job.env.now).chown job.wsdir.loc tuid
        if checkID job.id then
          (w.writeEntry ⟨job.fs, .live, job.id⟩ (job.entry config),
            .created job.fs job.id (job.entry config))
        else (w, .crashed) := by
  dsimp only [createWorkspace]
  unfold CreateCall.owner
  cases hgroup : workspaceUid job.caller job.env job.user_option with
  | none =>
    dsimp only
    rw [ite_self]
    rfl
  | some tuid =>
    dsimp only
    split <;> rfl

/-- **Alone, the steps do what `createWorkspace` does**, whether it gets to the entry or not. -/
theorem exec_alone (config : Config) (job : CreateCall) (sys : System)
    (hclock : sys.clock ≤ job.env.now) (hcreated : job.env.now ≤ job.env.created) :
    ∃ turns s, turns <+: alone job ∧
      Runs.exec (step config job) (start sys) turns = some s ∧
      s.sys.world = (createWorkspace config job.caller job.args job.user_option job.env
        sys.world job.fs job.fsconfig).1 ∧
      ((s.pc = .written job.env.created ∧
          (createWorkspace config job.caller job.args job.user_option job.env sys.world job.fs
            job.fsconfig).2 = .created job.fs job.id (job.entry config)) ∨
        (s.pc = .ended ∧ (createWorkspace config job.caller job.args job.user_option job.env
          sys.world job.fs job.fsconfig).2 = .crashed)) := by
  obtain ⟨n, hn, -⟩ := find_makeDir_self sys.world.dirs job.wsdir.loc job.env.now
  have hfind : (sys.world.mkdir job.wsdir.loc job.env.now).dirs.find job.wsdir.loc = some n := hn
  obtain ⟨s₁, hs₁, hsys₁, hpc₁⟩ : ∃ s₁,
      step config job (start sys) (.create job.env.now) = some s₁ ∧
        s₁.sys = { sys with
          world := sys.world.mkdir job.wsdir.loc job.env.now, clock := job.env.now } ∧
        s₁.pc = .opendir := ⟨_, if_pos hclock, rfl, rfl⟩
  obtain ⟨s₂, hs₂, hsys₂, hpc₂⟩ : ∃ s₂, step config job s₁ (.create job.env.now) = some s₂ ∧
      s₂.sys = s₁.sys ∧ s₂.pc = .chown n.inode := by
    dsimp only [step, createStep]
    rw [hsys₁, hpc₁, if_pos (Int.le_refl _)]
    dsimp only
    rw [hfind]
    exact ⟨_, rfl, rfl, rfl⟩
  rw [createWorkspace_eq]
  cases howner : job.owner with
  | none =>
    obtain ⟨s₃, hs₃, hworld, hpc⟩ : ∃ s₃, step config job s₂ (.create job.env.now) = some s₃ ∧
        s₃.sys.world = s₂.sys.world ∧ s₃.pc = .ended := by
      dsimp only [step, createStep]
      rw [hsys₂, hsys₁, hpc₂, howner, if_pos (Int.le_refl _)]
      exact ⟨_, rfl, rfl, rfl⟩
    refine ⟨(alone job).take 3, s₃, List.take_prefix _ _, ?_, ?_, Or.inr ⟨hpc, rfl⟩⟩
    · simp only [alone, List.take_succ_cons, List.take_zero, Runs.exec, hs₁, hs₂, hs₃]
    · rw [hworld, hsys₂, hsys₁]
  | some tuid =>
    obtain ⟨s₃, hs₃, hsys₃, hpc₃⟩ : ∃ s₃, step config job s₂ (.create job.env.now) = some s₃ ∧
        s₃.sys = { s₂.sys with
          world := (sys.world.mkdir job.wsdir.loc job.env.now).chown job.wsdir.loc tuid } ∧
        s₃.pc = .createEntry job.env.now := by
      dsimp only [step, createStep]
      rw [hsys₂, hsys₁, hpc₂, howner, if_pos (Int.le_refl _)]
      dsimp only
      rw [fchown_of_find hfind]
      exact ⟨_, rfl, rfl, rfl⟩
    have hclock₃ : s₃.sys.clock = job.env.now := by rw [hsys₃, hsys₂, hsys₁]
    have htimes : job.env.now ≤ job.env.now ∧ job.env.now ≤ job.env.created ∧
        job.env.created ≤ job.env.created := ⟨Int.le_refl _, hcreated, Int.le_refl _⟩
    by_cases hid : checkID job.id = true
    · obtain ⟨s₄, hs₄, hworld, hpc⟩ : ∃ s₄,
          step config job s₃ (.create job.env.created) = some s₄ ∧
            s₄.sys.world =
              s₃.sys.world.writeEntry ⟨job.fs, .live, job.id⟩ (job.entry config) ∧
            s₄.pc = .written job.env.created := by
        dsimp only [step, createStep]
        rw [hclock₃, hpc₃, if_pos hcreated]
        dsimp only
        rw [if_pos htimes, if_pos hid]
        exact ⟨_, rfl, rfl, rfl⟩
      refine ⟨alone job, s₄, List.prefix_rfl, ?_, ?_, Or.inl ⟨hpc, ?_⟩⟩
      · simp only [alone, Runs.exec, hs₁, hs₂, hs₃, hs₄]
      · dsimp only
        rw [if_pos hid, hworld, hsys₃]
      · dsimp only
        rw [if_pos hid]
    · obtain ⟨s₄, hs₄, hworld, hpc⟩ : ∃ s₄,
          step config job s₃ (.create job.env.created) = some s₄ ∧
            s₄.sys.world = s₃.sys.world ∧ s₄.pc = .ended := by
        dsimp only [step, createStep]
        rw [hclock₃, hpc₃, if_pos hcreated]
        dsimp only
        rw [if_pos htimes, if_neg hid]
        exact ⟨_, rfl, rfl, rfl⟩
      refine ⟨alone job, s₄, List.prefix_rfl, ?_, ?_, Or.inr ⟨hpc, ?_⟩⟩
      · simp only [alone, Runs.exec, hs₁, hs₂, hs₃, hs₄]
      · dsimp only
        rw [if_neg hid, hworld, hsys₃]
      · dsimp only
        rw [if_neg hid]

/-! ## What is promised, and when it is kept -/

variable {config : Config} {job : CreateCall} {s s' : InFlight}

/-- The directory of the creation, until its entry is over its time. -/
def dirOf (config : Config) (job : CreateCall) (n : DirNode Dir) : LeftOver :=
  ⟨job.wsdir, n.inode, (job.entry config).expiration + 1⟩

/-- **What is promised**: once the entry is written, in time, the directory it points to is the one
that was made, where it was made, and the expirer has not removed it, until the entry is over its
time. -/
def Protected (config : Config) (job : CreateCall) (s : InFlight) : Prop :=
  ∀ made time, s.made = some made → s.pc = .written time → time ≤ made.clock + STRAY_GRACETIME →
    ∃ n, made.world.dirs.find job.wsdir.loc = some n ∧
      (s.sys.clock ≤ (job.entry config).expiration → (dirOf config job n).Stays s.sys.world) ∧
      (dirOf config job n).KeptUntil made s.sys

/-- **The condition on a step.** When the directory is made, or taken, the expirer is not about to
move it. Later on, until the entry is over its time: when the directory is compared with the live
entries of a listing from before the write, or of another filesystem, and seems to be a stray one,
it is younger than the grace time; and no other live entry with this directory is expired. -/
def Careful (config : Config) (job : CreateCall) (s : InFlight) : Turn → Prop
  | .create _ => s.pc = .mkdir →
    match s.sys.expirer.pc with
    | .moveStray _ founddir _ _ => founddir ≠ (job.wsdir.space, job.wsdir.name)
    | .moveExpired _ _ e _ _ => e.workspace ≠ job.wsdir
    | _ => True
  | .expirer .. => True
  | .tick t => s.made ≠ none → t.now ≤ (job.entry config).expiration →
    match s.sys.expirer.pc with
    | .strays call (founddir :: _) workspacesInDB =>
      founddir = (job.wsdir.space, job.wsdir.name) → isStray founddir workspacesInDB = true →
        ¬(s.listed = true ∧ call.fs = job.fs) →
          ∀ n, s.sys.world.dirs.find job.wsdir.loc = some n →
            t.now - STRAY_GRACETIME < n.attr.mtime
    | .expireEntries fs (id :: _) => ∀ e, s.sys.world.readEntry fs .live id = some e →
        0 < e.expiration → e.expiration < t.now → e.workspace ≠ job.wsdir
    | _ => True

/-! ## The invariant -/

/-- The expirer removes deleted directories only. -/
def RemovesDeleted : CallPc → Prop
  | .deleteDir _ wspath _ => wspath.area = .deleted
  | _ => True

/-- A call that listed the live entries after the write has the id still to read, or knows the
directory. -/
def KnowsEntry (job : CreateCall) : CallPc → Prop
  | .readPaths call _ wsIDs workspacesInDB => call.fs = job.fs →
      job.id ∈ wsIDs ∨ (job.id, job.wsdir) ∈ workspacesInDB
  | .strays call _ workspacesInDB => call.fs = job.fs → (job.id, job.wsdir) ∈ workspacesInDB
  | .moveStray call _ _ workspacesInDB => call.fs = job.fs → (job.id, job.wsdir) ∈ workspacesInDB
  | _ => True

/-- **The invariant.** -/
structure Inv (config : Config) (job : CreateCall) (s : InFlight) : Prop where
  /-- what the expirer removes -/
  removes : RemovesDeleted s.sys.expirer.pc
  /-- the directory, once it is made -/
  dir : ∀ made, s.made = some made → ∃ n, made.world.dirs.find job.wsdir.loc = some n ∧
    (dirOf config job n).Inv made s.sys
  /-- the entry, once it is written -/
  entry : ∀ time, s.pc = .written time → s.sys.clock ≤ (job.entry config).expiration →
    s.sys.world.readEntry job.fs .live job.id = some (job.entry config).persisted
  /-- the entry was written before it was listed -/
  written : s.listed = true → ∃ time, s.pc = .written time
  /-- what the expirer has listed -/
  knows : s.listed = true → s.sys.clock ≤ (job.entry config).expiration →
    KnowsEntry job s.sys.expirer.pc

/-- Before the write there is nothing to say about the entry. -/
theorem inv_of_not_written (hremoves : RemovesDeleted s.sys.expirer.pc)
    (hdir : ∀ made, s.made = some made → ∃ n, made.world.dirs.find job.wsdir.loc = some n ∧
      (dirOf config job n).Inv made s.sys)
    (hpc : s.pc.isWritten = false) (hlisted : s.listed ≠ true) : Inv config job s where
  removes := hremoves
  dir := hdir
  entry time hw := by
    rw [hw] at hpc
    cases hpc
  written hyes := absurd hyes hlisted
  knows hyes := absurd hyes hlisted

theorem inv_start {sys : System} (h : sys.expirer = .idle) : Inv config job (start sys) := by
  refine inv_of_not_written ?_ (fun made hmade => by cases hmade) rfl (by simp [start])
  dsimp only [start]
  rw [h]
  trivial

/-! ## Steps of the creation -/

section Dirs

variable {left : LeftOver} {s₁ sys sys' : System} {w : World}

theorem stays_chown (h : left.Stays w) (k : DirLoc) (uid : ℕ) : left.Stays (w.chown k uid) := by
  obtain ⟨n, hn, hinode⟩ := h.dir
  by_cases hk : left.path.loc = k
  · refine ⟨⟨n.inode, { n.attr with uid := uid }⟩, ?_, hinode⟩
    rw [World.chown_dirs, ← hk, find_chownDir_self, hn]
    rfl
  · exact h.congr (find_chownDir_ne hk)

/-- The creation does not move its directory. -/
theorem stays_fchown (h : left.Stays w) (wsfd uid : ℕ) : left.Stays (w.fchown wsfd uid) := by
  unfold World.fchown
  split
  · exact h
  · exact stays_chown h _ _

/-- A step that leaves the expirer alone keeps the invariant when the directory stays. -/
theorem inv_frame (h : left.Inv s₁ sys) (hclock : sys.clock ≤ sys'.clock)
    (hstays : left.Stays sys.world → left.Stays sys'.world) (hx : sys'.expirer = sys.expirer)
    (hr : sys'.removals = sys.removals) : left.Inv s₁ sys' := by
  constructor
  · intro hearly
    obtain ⟨hdir, hpc⟩ := h.stays (by omega)
    exact ⟨hstays hdir, hx ▸ hpc⟩
  · obtain ⟨fresh, hfresh, hkept⟩ := h.kept
    exact ⟨fresh, hr.trans hfresh, hkept⟩

end Dirs

/-- A directory that the expirer is not about to move when it is made. -/
theorem pcOk_of_careful {now : ℤ} (h : RemovesDeleted s.sys.expirer.pc) (hpc : s.pc = .mkdir)
    (hok : Careful config job s (.create now)) (n : DirNode Dir) :
    (dirOf config job n).PcOk s.sys.expirer.pc := by
  have hmoves := hok hpc
  cases hx : s.sys.expirer.pc with
  | moveStray | moveExpired =>
    rw [hx] at hmoves
    exact hmoves
  | deleteDir =>
    rw [hx] at h
    exact h
  | _ => trivial

/-- **Step lemma** for the creation. -/
theorem Inv.createStep {now : ℤ} (h : Inv config job s) (hclock : s.sys.clock ≤ now)
    (hok : Careful config job s (.create now))
    (hstep : s.createStep config job now = some s') : Inv config job s' := by
  have hlisted : s.pc.isWritten = false → s.listed ≠ true := by
    intro hno hyes
    obtain ⟨time, hpc⟩ := h.written hyes
    rw [hpc] at hno
    cases hno
  cases createStep_spec hstep with
  | mkdir hpc =>
    refine inv_of_not_written h.removes (fun made hmade => ?_) rfl (hlisted (by rw [hpc]; rfl))
    obtain rfl := Option.some.inj hmade
    obtain ⟨n, hn, -⟩ := find_makeDir_self s.sys.world.dirs job.wsdir.loc now
    exact ⟨n, hn, fun _ => ⟨⟨n, hn, rfl⟩, pcOk_of_careful h.removes hpc hok n⟩, .refl _ _⟩
  | opened hpc =>
    refine inv_of_not_written h.removes (fun made hmade => ?_) rfl (hlisted (by rw [hpc]; rfl))
    obtain ⟨n, hn, hdir⟩ := h.dir made hmade
    exact ⟨n, hn, inv_frame hdir hclock id rfl rfl⟩
  | owned hpc =>
    refine inv_of_not_written h.removes (fun made hmade => ?_) rfl (hlisted (by rw [hpc]; rfl))
    obtain ⟨n, hn, hdir⟩ := h.dir made hmade
    exact ⟨n, hn, inv_frame hdir hclock (stays_fchown · _ _) rfl rfl⟩
  | ended hpc =>
    refine inv_of_not_written h.removes (fun made hmade => ?_) rfl (hlisted hpc)
    obtain ⟨n, hn, hdir⟩ := h.dir made hmade
    exact ⟨n, hn, inv_frame hdir hclock id rfl rfl⟩
  | wrote hpc hid =>
    have hnot := hlisted (by rw [hpc]; rfl)
    refine ⟨h.removes, ?_, ?_, fun hyes => absurd hyes hnot, fun hyes => absurd hyes hnot⟩
    · intro made hmade
      obtain ⟨n, hn, hdir⟩ := h.dir made hmade
      refine ⟨n, hn, inv_frame hdir hclock (fun hstays => hstays.congr ?_) rfl rfl⟩
      rw [World.writeEntry_dirs]
    · intro time _ _
      exact World.readEntry_eq_some.mpr ⟨hid, World.lookup_writeEntry _ _ _⟩

/-! ## Steps of the expirer -/

section Calls

variable {x x' : Expirer} {t : Tick} {w w' : World} {removal : Option Removal}

/-- An entry that is not over its time stays as it is. -/
theorem readEntry_callStep {fs id : Str} {e : DBEntry} (hread : w.readEntry fs .live id = some e)
    (hearly : t.now ≤ e.expiration) (hstep : Expirer.CallStep config x t w w' x' removal) :
    w'.readEntry fs .live id = some e := by
  obtain ⟨hid, hlook⟩ := World.readEntry_eq_some.mp hread
  refine World.readEntry_eq_some.mpr ⟨hid, ?_⟩
  have hother : ∀ {fs' id' : Str} {e' : DBEntry}, w.readEntry fs' .live id' = some e' →
      e'.expiration < t.now → (⟨fs, .live, id⟩ : DbLoc) ≠ ⟨fs', .live, id'⟩ := by
    intro fs' id' e' hread' hover heq
    obtain ⟨rfl, -, rfl⟩ := DbLoc.mk.inj heq
    obtain rfl := Option.some.inj (hread.symm.trans hread')
    omega
  cases hstep with
  | moveStray | moveExpired => rwa [moveDir_db]
  | removeStray | deleteDir => rwa [rmtree_db]
  | notExpired hpc hread' hover =>
    rwa [World.lookup_writeEntry_ne _ (hother hread' hover.2)]
  | expired hpc hread' hover =>
    have hne := hother hread' hover.2
    rwa [World.lookup_renameEntry_ne hne (by simp), World.lookup_writeEntry_ne _ hne]
  | deleteEntry => rwa [World.lookup_removeEntry_ne (by simp)]
  | _ => exact hlook

/-- The expirer goes on to remove deleted directories only. -/
theorem removesDeleted_callStep (h : Expirer.CallStep config x t w w' x' removal) :
    RemovesDeleted x'.pc := by
  cases h with
  | nextCall hpc hnext =>
    have hbegins := Expirer.begins_of_nextCall hnext
    generalize x'.pc = pc at hbegins
    cases hbegins <;> trivial
  | goOn hnext =>
    generalize x.pc = pc at hnext
    cases hnext <;> trivial
  | deleteEntry => rfl
  | _ => trivial

/-- The entry is among the live ones that are listed. -/
theorem mem_listIds {listing : List Str} {e : DBEntry}
    (hread : w.readEntry job.fs .live job.id = some e)
    (hlist : listing.Perm (w.matchPattern job.fs .live ['*'] ['*'])) : job.id ∈ listing := by
  have hdash : globMatch (wsid ['*'] ['*']) job.id = true := by
    have hmem : '-' ∈ job.id := List.mem_append_right _ (List.mem_cons_self ..)
    exact (globMatch_dash job.id).trans (decide_eq_true hmem)
  rw [hlist.mem_iff]
  refine List.mem_map.mpr ⟨⟨job.fs, .live, job.id⟩, List.mem_filter.mpr ⟨?_, ?_⟩, rfl⟩
  · have hlook := (World.readEntry_eq_some.mp hread).2
    exact AList.lookup_isSome.mp (by rw [hlook]; rfl)
  · simp [hdash]

/-- **What a listing after the write knows stays known.** -/
theorem knowsEntry_callStep {e : DBEntry} (hread : w.readEntry job.fs .live job.id = some e)
    (hpath : e.workspace = job.wsdir)
    (hknows : (∀ call dirs, x.pc ≠ .listIds call dirs) → KnowsEntry job x.pc)
    (hstep : Expirer.CallStep config x t w w' x' removal) : KnowsEntry job x'.pc := by
  cases hstep with
  | nextCall hpc hnext =>
    have hbegins := Expirer.begins_of_nextCall hnext
    generalize x'.pc = pc at hbegins
    cases hbegins <;> trivial
  | goOn hnext =>
    generalize x.pc = pc at hnext hknows
    cases hnext with
    | strays =>
      intro hfs
      rcases hknows (by simp) hfs with hno | hmem
      · exact absurd hno List.not_mem_nil
      · exact hmem
    | _ => trivial
  | listIds hpc hopen hlist =>
    intro hfs
    rw [hfs] at hlist
    exact Or.inl (mem_listIds hread hlist)
  | @readPath call dirs wsid wsIDs workspacesInDB hpc =>
    rw [hpc] at hknows
    intro hfs
    rcases hknows (by simp) hfs with hmem | hmem
    · rcases List.mem_cons.mp hmem with rfl | hmem
      · refine Or.inr (List.mem_append_right _ (List.mem_singleton.mpr ?_))
        rw [hfs, hread, ← hpath]
      · exact Or.inl hmem
    · exact Or.inr (List.mem_append_left _ hmem)
  | keep hpc | stray hpc | moveStray hpc =>
    rw [hpc] at hknows
    exact hknows (by simp)
  | _ => trivial

/-- A directory that is known is no stray one. -/
theorem isStray_of_mem {id : Str} {path : WsPath} {workspacesInDB : List (Str × WsPath)}
    (h : (id, path) ∈ workspacesInDB) : isStray (path.space, path.name) workspacesInDB = false := by
  rw [isStray, List.all_eq_false]
  exact ⟨_, h, by simp⟩

end Calls

/-- A careful step leaves the directory alone: what was listed after the write is no stray one. -/
theorem Inv.leavesAlone {t : Tick} {made : System} {n : DirNode Dir} (h : Inv config job s)
    (hmade : s.made = some made) (hclock : s.sys.clock ≤ t.now)
    (hok : Careful config job s (.tick t)) :
    LeavesAlone (dirOf config job n) s.sys (.tick t) := by
  intro hearly
  have htime : t.now ≤ (job.entry config).expiration := Int.lt_add_one_iff.mp hearly
  have hcareful := hok (by rw [hmade]; simp) htime
  cases hpc : s.sys.expirer.pc with
  | strays call dirs workspacesInDB =>
    rw [hpc] at hcareful
    cases dirs with
    | nil => trivial
    | cons founddir dirs =>
      rintro rfl hstray
      refine hcareful rfl hstray fun hlisted => ?_
      have hknows := h.knows hlisted.1 (Int.le_trans hclock htime)
      rw [hpc] at hknows
      have hknown := isStray_of_mem (hknows hlisted.2)
      exact absurd (hknown.symm.trans hstray) (by simp)
  | expireEntries fs ids =>
    rw [hpc] at hcareful
    cases ids with
    | nil => trivial
    | cons => exact hcareful
  | _ => trivial

/-- What a step of the expirer's process does in the system. -/
theorem tick_eq_some {sys sys' : System} {t : Tick} (h : sys.step config (.tick t) = some sys') :
    sys.clock ≤ t.now ∧ t.now ≤ sys'.clock ∧ ∃ x removal,
      Expirer.CallStep config sys.expirer t sys.world sys'.world x removal ∧
        sys'.expirer.pc = x.pc := by
  dsimp only [System.step] at h
  split at h
  · rename_i htimes
    split at h
    · cases h
    · rename_i w x removal hcall
      obtain rfl := Option.some.inj h
      exact ⟨htimes.1, Int.le_trans htimes.2.1 htimes.2.2, x, removal, Expirer.callStep_spec hcall,
        Expirer.settled_pc x⟩
  · cases h

/-- The entry was written when it is counted as listed. -/
theorem CreatePc.exists_of_isWritten {pc : CreatePc} (h : pc.isWritten = true) :
    ∃ time, pc = .written time := by
  cases pc with
  | written time => exact ⟨time, rfl⟩
  | _ => cases h

/-- What is listed after the step was listed before it, if the step is no listing. -/
theorem listed_of_listedAfter (h : s.listedAfter = true) :
    (s.listed = true ∨ s.pc.isWritten = true) ∧
      ((∀ call dirs, s.sys.expirer.pc ≠ .listIds call dirs) → s.listed = true) := by
  unfold listedAfter at h
  split at h
  · rename_i call dirs hpc
    exact ⟨Or.inr h, fun hno => absurd hpc (hno call dirs)⟩
  · exact ⟨Or.inl h, fun _ => h⟩

/-- **Step lemma** for the expirer. -/
theorem Inv.tick {t : Tick} {sys' : System} (h : Inv config job s)
    (hok : Careful config job s (.tick t)) (hstep : s.sys.step config (.tick t) = some sys') :
    Inv config job { s with sys := sys', listed := s.listedAfter } := by
  obtain ⟨hclock, hclock', x, removal, hcall, hpc⟩ := tick_eq_some hstep
  have hentry : ∀ time, s.pc = .written time → t.now ≤ (job.entry config).expiration →
      s.sys.world.readEntry job.fs .live job.id = some (job.entry config).persisted :=
    fun time hw hearly => h.entry time hw (Int.le_trans hclock hearly)
  have hwritten : s.listedAfter = true → ∃ time, s.pc = .written time := by
    intro hafter
    rcases (listed_of_listedAfter hafter).1 with hlisted | hw
    · exact h.written hlisted
    · exact CreatePc.exists_of_isWritten hw
  refine ⟨?_, ?_, ?_, hwritten, ?_⟩
  · dsimp only
    rw [hpc]
    exact removesDeleted_callStep hcall
  · intro made hmade
    obtain ⟨n, hn, hdir⟩ := h.dir made hmade
    exact ⟨n, hn, hdir.step (show (Action.tick t).OfExpirer from trivial)
      (h.leavesAlone hmade hclock hok) hstep⟩
  · intro time hw hearly
    exact readEntry_callStep (hentry time hw (Int.le_trans hclock' hearly))
      (Int.le_trans hclock' hearly) hcall
  · intro hafter hearly
    have hnow := Int.le_trans hclock' hearly
    obtain ⟨time, hw⟩ := hwritten hafter
    dsimp only
    rw [hpc]
    refine knowsEntry_callStep (hentry time hw hnow) rfl (fun hno => ?_) hcall
    exact h.knows ((listed_of_listedAfter hafter).2 hno) (Int.le_trans hclock hnow)

/-- A new run of the expirer has listed nothing yet. -/
theorem Inv.expirer {fslist : List Str} {single_space : Option Str} {sys' : System}
    (h : Inv config job s) (hstep : s.sys.step config (.expirer fslist single_space) = some sys') :
    Inv config job { s with sys := sys' } := by
  have hrun := hstep
  dsimp only [System.step] at hrun
  split at hrun
  · obtain rfl := Option.some.inj hrun
    have hpc := Expirer.settled_pc (Expirer.start fslist single_space)
    refine ⟨?_, ?_, h.entry, h.written, ?_⟩
    · dsimp only
      rw [hpc]
      trivial
    · intro made hmade
      obtain ⟨n, hn, hdir⟩ := h.dir made hmade
      exact ⟨n, hn, hdir.step (show (Action.expirer fslist single_space).OfExpirer from trivial)
        trivial hstep⟩
    · intro _ _
      dsimp only
      rw [hpc]
      trivial
  · cases hrun

/-- **Step lemma.** -/
theorem Inv.step {turn : Turn} (h : Inv config job s) (hok : Careful config job s turn)
    (hstep : s.step config job turn = some s') : Inv config job s' := by
  cases turn with
  | create now =>
    dsimp only [InFlight.step] at hstep
    split at hstep
    · rename_i hclock
      exact h.createStep hclock hok hstep
    · cases hstep
  | expirer fslist single_space =>
    obtain ⟨sys', hsys, rfl⟩ := Option.map_eq_some_iff.mp hstep
    exact h.expirer hsys
  | tick t =>
    obtain ⟨sys', hsys, rfl⟩ := Option.map_eq_some_iff.mp hstep
    exact h.tick hok hsys

/-- `bob` creates `x`, at one time. -/
def bobCreates (now : ℤ) : CreateCall where
  caller := bob
  args := createArgs none
  user_option := []
  env := { bobEnv with now := now, created := now }
  fs := ['w']
  fsconfig := .ofSpaces ['s'] []

/-- Steps of the expirer at one time, with what each of them lists. -/
def ticks (now : ℤ) (listings : List (List Str)) : List Turn :=
  listings.map fun listing => .tick ⟨now, now, now, listing, .ok⟩

/-- The expirer lists directories and entries, and compares them when the entry is written. -/
def comparedLater (now : ℤ) (dirs : List Str) : List Turn :=
  [.expirer [['w']] none] ++ ticks now [[], dirs, [], []] ++
    [.create now, .create now, .create now] ++ ticks now [[], []]

/-- His directory was left over by a release; the expirer lists it, he takes it for a new workspace,
the expirer moves it, and removes it in its next run. -/
def takenAndRemoved : List Turn :=
  [.expirer [['w']] none] ++ ticks 2000004000 [[], ["bob-x".toList], [], []] ++
    [.create 2000004000, .create 2000004000, .create 2000004000, .create 2000004000] ++
    ticks 2000004000 [[], [], [], [], ["bob-x-2000004000".toList], [],
      ["bob-x-2000000100".toList], [], [], [], ["bob-x".toList], [], [],
      ["bob-x-2000000100".toList], [], []] ++
    [.expirer [['w']] none] ++
    ticks 2000005000 [[], [], [], ["bob-x".toList], [], [], [], ["bob-x-2000004000".toList], [],
      ["bob-x-2000000100".toList], []]

/-- The state after the release. -/
def leftOverState : System :=
  (Runs.exec (System.step plainConfig) LeftOver.bobState [LeftOver.stuckRelease 2000000100]).getD
    (.init 0)

end InFlight

end HpcWorkspace
