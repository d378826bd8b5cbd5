import HpcWorkspace.Caps
import HpcWorkspace.RestoreExact

/-!
# The capabilities the tools raise

In capability mode `drop_caps` fixes at the start which capabilities a tool can raise later; a
`raise_cap` of any other one ends the process. The raises are spread over the tools and the
database code they share. Here each tool is traced: the calls of `Cap` on the way it takes
through the code, as a function of its command line, the configuration, the databases and the
system calls that fail.
-/

namespace HpcWorkspace

/-! ## Runs in capability mode -/

/-- A program linked with libcap that is not set-uid and has its capabilities installed. -/
structure CapabilityMode (p : Proc) (capabilities : List Capability) : Prop where
  /-- not set-uid -/
  ruid : p.ruid = p.euid
  /-- the capabilities it keeps are permitted -/
  permitted : capabilities ⊆ p.permitted
  /-- with the one that the constructor tries -/
  dacOverride : .dacOverride ∈ capabilities

/-- All that is raised is in the set. -/
def RaisesOnly (capabilities : List Capability) (calls : List CapCall) : Prop :=
  ∀ raised, .raise_cap raised ∈ calls → raised ⊆ capabilities

theorem raisesOnly_append {capabilities : List Capability} {calls calls' : List CapCall} :
    RaisesOnly capabilities (calls ++ calls') ↔
      RaisesOnly capabilities calls ∧ RaisesOnly capabilities calls' := by
  simp only [RaisesOnly, List.mem_append, or_imp, forall_and]

theorem raisesOnly_cons {capabilities : List Capability} {call : CapCall} {calls : List CapCall} :
    RaisesOnly capabilities (call :: calls) ↔
      RaisesOnly capabilities [call] ∧ RaisesOnly capabilities calls :=
  @raisesOnly_append capabilities [call] calls

/-- What holds between two calls in capability mode. -/
structure CapInv (capabilities : List Capability) (s : Cap × Proc) : Prop where
  hascaps : s.1.hascaps = true
  issetuid : s.1.issetuid = false
  /-- the permitted set stays as `drop_caps` left it -/
  permitted : s.2.permitted = capabilities
  effective : s.2.effective ⊆ capabilities

variable {capabilities : List Capability} {s : Cap × Proc}

/-- **One call** in capability mode: only a raise outside the set fails. -/
theorem CapInv.call (h : CapInv capabilities s) (call : CapCall) :
    (RaisesOnly capabilities [call] ∧ ∃ s', capCall s call = .ok s' ∧ CapInv capabilities s') ∨
      (¬RaisesOnly capabilities [call] ∧ capCall s call = .error .EPERM) := by
  obtain ⟨cap, p⟩ := s
  have hperm : p.permitted = capabilities := h.permitted
  have hset : cap.issetuid = false := h.issetuid
  have hcaps : cap.hascaps = true := h.hascaps
  have hother : (∀ raised, call ≠ .raise_cap raised) → RaisesOnly capabilities [call] := by
    intro hno raised hmem
    exact absurd (List.mem_singleton.mp hmem).symm (hno raised)
  cases call with
  | setDbIdentity dbuid dbgid => exact Or.inl ⟨hother (by simp), _, rfl, hcaps, hset, hperm, h.effective⟩
  | raise_cap raised =>
    have hraises : RaisesOnly capabilities [.raise_cap raised] ↔ raised ⊆ capabilities := by
      simp [RaisesOnly]
    have hsub : p.effective ++ raised ⊆ p.permitted ↔ raised ⊆ capabilities := by
      rw [hperm, List.append_subset]
      exact and_iff_right h.effective
    have hcall : capCall (cap, p) (.raise_cap raised) = do
        return (cap, ← cap_set_proc p p.permitted (p.effective ++ raised)) := by
      simp only [capCall, Cap.raise_cap, hcaps, hset, if_true, Bool.false_eq_true, if_false]
      cases cap_set_proc p p.permitted (p.effective ++ raised) <;> rfl
    by_cases hraised : raised ⊆ capabilities
    · left
      refine ⟨hraises.mpr hraised, (cap, { p with effective := p.effective ++ raised }), ?_, hcaps,
        hset, hperm, List.append_subset.mpr ⟨h.effective, hraised⟩⟩
      rw [hcall, cap_set_proc, if_pos ⟨List.Subset.refl _, hsub.mpr hraised⟩]
      rfl
    · right
      refine ⟨fun hno => hraised (hraises.mp hno), ?_⟩
      rw [hcall, cap_set_proc, if_neg fun hboth => hraised (hsub.mp hboth.2)]
      rfl
  | lower_cap lowered uid =>
    have hsub : (p.effective.filter fun c => !lowered.contains c) ⊆ p.permitted := by
      rw [hperm]
      intro c hc
      exact h.effective (List.mem_of_mem_filter hc)
    refine Or.inl ⟨hother (by simp),
      (cap, { p with effective := p.effective.filter fun c => !lowered.contains c }), ?_, hcaps, hset,
      hperm, hperm ▸ hsub⟩
    simp only [capCall, Cap.lower_cap, hcaps, hset, cap_set_proc, List.Subset.refl, hsub, and_self,
      if_true, Bool.false_eq_true, if_false]
    rfl
  | become_db =>
    refine Or.inl ⟨hother (by simp), (cap, p), ?_, hcaps, hset, hperm, h.effective⟩
    simp only [capCall, Cap.become_db, hset, Bool.not_false, if_true]
    rfl
  | become_caller =>
    refine Or.inl ⟨hother (by simp), (cap, p), ?_, hcaps, hset, hperm, h.effective⟩
    simp only [capCall, Cap.become_caller, Cap.set_identity, hset, Bool.not_false, if_true]
    rfl
  | become_root =>
    refine Or.inl ⟨hother (by simp), (cap, p), ?_, hcaps, hset, hperm, h.effective⟩
    simp only [capCall, Cap.become_root, Cap.set_identity, hset, Bool.not_false, if_true]
    rfl

/-- **A run** in capability mode ends early exactly when something is raised that was not kept. -/
theorem CapInv.run (h : CapInv capabilities s) (calls : List CapCall) :
    (∃ s', calls.foldlM capCall s = .ok s') ↔ RaisesOnly capabilities calls := by
  induction calls generalizing s with
  | nil => exact ⟨fun _ _ hmem => absurd hmem List.not_mem_nil, fun _ => ⟨s, rfl⟩⟩
  | cons call calls ih =>
    rw [raisesOnly_cons, List.foldlM_cons]
    rcases h.call call with ⟨hraises, s', hcall, hinv⟩ | ⟨hno, hcall⟩
    · rw [hcall]
      exact (ih hinv).trans (and_iff_right hraises).symm
    · rw [hcall]
      constructor
      · rintro ⟨s', hs'⟩
        cases hs'
      · intro hboth
        exact absurd hboth.1 hno

/-- A program in capability mode gets through its calls exactly when it kept all it raises. -/
theorem capRun_iff {p : Proc} (hmode : CapabilityMode p capabilities) (calls : List CapCall) :
    (∃ s, capRun true p capabilities calls = .ok s) ↔ RaisesOnly capabilities calls := by
  have hcaps : (Cap.new true p).hascaps = true := by
    simp [Cap.new, hmode.ruid, hmode.permitted hmode.dacOverride]
  have hset : (Cap.new true p).issetuid = false := by
    simp [Cap.new, hmode.ruid]
  have hdrop : (Cap.new true p).drop_caps p capabilities p.ruid =
      .ok { p with permitted := capabilities, effective := [] } := by
    simp only [Cap.drop_caps, hcaps, hset, if_true, Bool.false_eq_true, if_false, cap_set_proc,
      hmode.permitted, List.nil_subset, and_self]
    rfl
  rw [capRun, hdrop]
  exact CapInv.run ⟨hcaps, hset, rfl, List.nil_subset _⟩ calls

/-! ## The ways through the tools -/

/-- The system calls that fail, and the ids of the DB user. -/
structure CapEnv where
  /-- uid of the DB user -/
  dbuid : UInt32
  /-- gid of the DB user -/
  dbgid : UInt32
  /-- `create_directories` in `createWorkspace` -/
  create : Bool
  /-- `open` of the directory -/
  openDir : Bool
  /-- `fchown` of the directory -/
  fchown : Bool
  /-- `fchmod` of the directory -/
  fchmod : Bool
  /-- `fchown` of an entry file -/
  entryOwner : Bool
  /-- `rename` of an entry file in `release` -/
  renameEntry : Bool

variable (config : Config) (env : CapEnv) (w : World)

/-- `writeEntry` -/
def writeEntryCaps : List CapCall :=
  [.raise_cap [.dacOverride], .become_db, .raise_cap [.fowner],
    .lower_cap [.fowner, .dacOverride] env.dbuid, .raise_cap [.chown]] ++
  (if env.entryOwner then [.lower_cap [.chown] env.dbuid] else []) ++
  [.lower_cap [.chown] env.dbuid]

/-- `createWorkspace`, up to the step that fails; `known` tells whether user and group exist. -/
def createWorkspaceCaps (known : Bool) : List CapCall :=
  [.raise_cap [.dacOverride], .lower_cap [.dacOverride] env.dbuid] ++
  if env.create then []
  else
    [.raise_cap [.dacOverride], .lower_cap [.dacOverride] env.dbuid] ++
    if env.openDir || !known then []
    else
      [.raise_cap [.chown], .lower_cap [.chown] env.dbuid] ++
      if env.fchown then [] else [.raise_cap [.fowner], .lower_cap [.fowner] env.dbuid]

/-- Does `createWorkspace` come to its end? -/
def createWorkspaceEnds (known : Bool) : Bool :=
  !env.create && !env.openDir && known && !env.fchown && !env.fchmod

/-- `ws_allocate` -/
def allocateCaps (c : Caller) (a : AllocArgs) (surroundings : AllocEnv) : List CapCall :=
  match allocCommandline c a with
  | none => []
  | some user_option =>
    let known := (workspaceUid c surroundings user_option).isSome &&
      (primarygroup c a == [] || surroundings.groupKnown (primarygroup c a))
    match (wsAllocate config c a surroundings w).2 with
    | .refused => []
    | .reused _ _ _ => []
    | .extended _ _ _ _ => writeEntryCaps env
    | .crashed => createWorkspaceCaps env known
    | .created _ _ _ =>
      createWorkspaceCaps env known ++
        if createWorkspaceEnds env known then writeEntryCaps env else []

/-- `DBEntryV1::release` -/
def releaseEntryCaps : List CapCall :=
  writeEntryCaps env ++
    [.raise_cap [.fowner, .dacOverride], .become_db, .lower_cap [.dacOverride, .fowner] env.dbuid]

/-- `DBEntryV1::remove` -/
def removeCaps : List CapCall :=
  [.raise_cap [.dacOverride], .become_db, .lower_cap [.dacOverride] env.dbuid]

/-- `ws_release` -/
def releaseCaps (c : Caller) (a : ReleaseArgs) (surroundings : ReleaseEnv) : List CapCall :=
  match (wsRelease config c a surroundings w).2 with
  | .refused => []
  | .deleted _ _ _ =>
    releaseEntryCaps env ++
      if env.renameEntry then []
      else
        [.raise_cap [.fowner], .become_caller, .lower_cap [.fowner] env.dbuid,
          .raise_cap [.dacOverride], .become_db, .lower_cap [.dacOverride] env.dbuid] ++
        removeCaps env
  | .released _ _ _ _ _ =>
    releaseEntryCaps env ++
      if env.renameEntry then []
      else [.raise_cap [.dacOverride], .lower_cap [.dacOverride] env.dbuid]

/-- `restore` behind its searches, without `--delete-data`. -/
def restoreMoveCaps (a : RestoreArgs) (surroundings : RestoreEnv) (e target : DBEntry) :
    List CapCall :=
  [.raise_cap [.dacOverride, .dacReadSearch], .become_db] ++
  (if config.global.restorenosub then
    let moved := (w.moveOnto surroundings.outcome ⟨e.workspace.space, .deleted, a.name⟩
      target.workspace.loc).2
    -- carry over group workspace flag from source entry
    if moved && e.group != [] then writeEntryCaps env else []
  else []) ++
  [.lower_cap [.dacOverride, .dacReadSearch] env.dbuid]

/-- `restore` -/
def restoreCaps (c : Caller) (a : RestoreArgs) (username : Str) (surroundings : RestoreEnv) :
    List CapCall :=
  match restoreFslist config c username a.filesystem with
  | none => []
  | some fslist =>
    [.raise_cap [.dacOverride, .dacReadSearch],
      .lower_cap [.dacOverride, .dacReadSearch] env.dbuid] ++
    match restoreSource config w fslist a.name username with
    | none => []
    | some (_, e) =>
      if a.deletedata then
        let loc : DirLoc := ⟨e.workspace.space, .deleted, a.name⟩
        let data_gone := ((w.rmtree surroundings.outcome loc).dirs.find loc).isNone
        [.raise_cap [.fowner, .dacOverride, .dacReadSearch], .lower_cap [.fowner] env.dbuid,
          .raise_cap [.dacOverride], .become_db] ++
        if data_gone then [.lower_cap [.dacOverride] env.dbuid] else []
      else
        match restoreTarget w fslist (wsid username (a.target.getD [])) with
        | none => []
        | some (_, target) =>
          if target.workspace.isEmpty then []
          else restoreMoveCaps config env w a surroundings e target

/-- A call of `ws_restore`, past its checks. -/
def wsRestoreCaps (c : Caller) (a : RestoreArgs) (surroundings : RestoreEnv) : List CapCall :=
  if !restoreCommandline a then []
  else if restoreUser c a ≠ c.username ∧ c.username ≠ "root".toList then []
  else if !checkName a.name c.username || !surroundings.human then []
  else restoreCaps config env w c a (restoreUser c a) surroundings

/-- A call of one of the three tools. -/
inductive ToolCall where
  /-- `ws_allocate` -/
  | allocate (c : Caller) (a : AllocArgs) (surroundings : AllocEnv)
  /-- `ws_release` -/
  | release (c : Caller) (a : ReleaseArgs) (surroundings : ReleaseEnv)
  /-- `ws_restore` -/
  | restore (c : Caller) (a : RestoreArgs) (surroundings : RestoreEnv)
  /-- `ws_restore -l` -/
  | restoreList

/-- What `main` passes to `drop_caps`. -/
def ToolCall.drops : ToolCall → List Capability
  | .allocate _ _ _ => [.dacOverride, .chown, .fowner]
  | .release _ _ _ => [.dacOverride, .chown, .fowner]
  | .restore _ _ _ => [.dacOverride, .dacReadSearch, .fowner]
  | .restoreList => [.dacOverride, .dacReadSearch, .fowner]

/-- The calls of `Cap` after that. -/
def ToolCall.calls : ToolCall → List CapCall
  | .allocate c a surroundings =>
    .setDbIdentity env.dbuid env.dbgid :: allocateCaps config env w c a surroundings
  | .release c a surroundings =>
    .setDbIdentity env.dbuid env.dbgid :: releaseCaps config env w c a surroundings
  | .restore c a surroundings =>
    .setDbIdentity env.dbuid env.dbgid :: wsRestoreCaps config env w c a surroundings
  | .restoreList =>
    [.setDbIdentity env.dbuid env.dbgid, .raise_cap [.dacOverride, .dacReadSearch],
      .lower_cap [.dacOverride, .dacReadSearch] env.dbuid]

/-! ## What is raised -/

variable {config env w}

@[simp] theorem raisesOnly_nil (capabilities : List Capability) : RaisesOnly capabilities [] :=
  fun _ hmem => absurd hmem List.not_mem_nil

@[simp] theorem raisesOnly_raise {raised : List Capability} {calls : List CapCall} :
    RaisesOnly capabilities (.raise_cap raised :: calls) ↔
      raised ⊆ capabilities ∧ RaisesOnly capabilities calls := by
  rw [raisesOnly_cons]
  simp [RaisesOnly]

@[simp] theorem raisesOnly_lower {lowered : List Capability} {uid : UInt32} {calls : List CapCall} :
    RaisesOnly capabilities (.lower_cap lowered uid :: calls) ↔ RaisesOnly capabilities calls := by
  rw [raisesOnly_cons]
  simp [RaisesOnly]

@[simp] theorem raisesOnly_become_db {calls : List CapCall} :
    RaisesOnly capabilities (.become_db :: calls) ↔ RaisesOnly capabilities calls := by
  rw [raisesOnly_cons]
  simp [RaisesOnly]

@[simp] theorem raisesOnly_become_caller {calls : List CapCall} :
    RaisesOnly capabilities (.become_caller :: calls) ↔ RaisesOnly capabilities calls := by
  rw [raisesOnly_cons]
  simp [RaisesOnly]

@[simp] theorem raisesOnly_setDbIdentity {dbuid dbgid : UInt32} {calls : List CapCall} :
    RaisesOnly capabilities (.setDbIdentity dbuid dbgid :: calls) ↔
      RaisesOnly capabilities calls := by
  rw [raisesOnly_cons]
  simp [RaisesOnly]

attribute [simp] raisesOnly_append

/-- Writing an entry takes three capabilities. -/
@[simp] theorem raisesOnly_writeEntry :
    RaisesOnly capabilities (writeEntryCaps env) ↔ [.dacOverride, .fowner, .chown] ⊆ capabilities := by
  rw [writeEntryCaps]
  split <;> simp

/-- **`ws_allocate`** keeps all it raises. -/
theorem raisesOnly_allocate (c : Caller) (a : AllocArgs) (surroundings : AllocEnv) :
    RaisesOnly [.dacOverride, .chown, .fowner] (allocateCaps config env w c a surroundings) := by
  have hwrite : RaisesOnly [.dacOverride, .chown, .fowner] (writeEntryCaps env) := by
    simp
  have hcreate : ∀ known, RaisesOnly [.dacOverride, .chown, .fowner]
      (createWorkspaceCaps env known) := by
    intro known
    rw [createWorkspaceCaps]
    split
    · simp
    · split
      · simp
      · split <;> simp
  rw [allocateCaps]
  split
  · simp
  · dsimp only
    split
    · simp
    · simp
    · exact hwrite
    · exact hcreate _
    · refine raisesOnly_append.mpr ⟨hcreate _, ?_⟩
      split
      · exact hwrite
      · simp

/-- **`ws_release`** keeps all it raises. -/
theorem raisesOnly_release (c : Caller) (a : ReleaseArgs) (surroundings : ReleaseEnv) :
    RaisesOnly [.dacOverride, .chown, .fowner] (releaseCaps config env w c a surroundings) := by
  have hrelease : RaisesOnly [.dacOverride, .chown, .fowner] (releaseEntryCaps env) := by
    simp [releaseEntryCaps]
  rw [releaseCaps]
  split
  · simp
  · refine raisesOnly_append.mpr ⟨hrelease, ?_⟩
    split <;> simp [removeCaps]
  · refine raisesOnly_append.mpr ⟨hrelease, ?_⟩
    split <;> simp

/-- A call of `ws_restore` that moves the directory of a group workspace onto the one of the
target. -/
structure CarriesGroup (config : Config) (c : Caller) (a : RestoreArgs) (surroundings : RestoreEnv)
    (w : World) : Prop where
  /-- it passes the checks -/
  commandline : restoreCommandline a = true
  user : restoreUser c a = c.username ∨ c.username = "root".toList
  checked : checkName a.name c.username = true
  human : surroundings.human = true
  /-- it restores, and without a subdirectory -/
  keep : a.deletedata = false
  nosub : config.global.restorenosub = true
  /-- it finds a source with a group and a target, and can rename the directory -/
  found : ∃ fslist fs e targetFs target,
    restoreFslist config c (restoreUser c a) a.filesystem = some fslist ∧
      restoreSource config w fslist a.name (restoreUser c a) = some (fs, e) ∧
      restoreTarget w fslist (wsid (restoreUser c a) (a.target.getD [])) = some (targetFs, target) ∧
      target.workspace.isEmpty = false ∧ e.group ≠ [] ∧
      (w.moveOnto surroundings.outcome ⟨e.workspace.space, .deleted, a.name⟩
        target.workspace.loc).2 = true

/-- The entry of the target is written for a group that is carried over only. -/
theorem raisesOnly_restoreMove {a : RestoreArgs} {surroundings : RestoreEnv} {e target : DBEntry} :
    RaisesOnly [.dacOverride, .dacReadSearch, .fowner]
        (restoreMoveCaps config env w a surroundings e target) ↔
      ¬(config.global.restorenosub = true ∧ e.group ≠ [] ∧
        (w.moveOnto surroundings.outcome ⟨e.workspace.space, .deleted, a.name⟩
          target.workspace.loc).2 = true) := by
  have hwrite : ¬RaisesOnly [.dacOverride, .dacReadSearch, .fowner] (writeEntryCaps env) := by
    simp
  rw [restoreMoveCaps]
  split
  · rename_i hnosub
    dsimp only
    split
    · rename_i hmoved
      simp only [Bool.and_eq_true, bne_iff_ne] at hmoved
      simp [hwrite, hnosub, hmoved]
    · rename_i hmoved
      simp only [Bool.and_eq_true, bne_iff_ne, not_and_or] at hmoved
      simp only [List.append_nil, List.cons_append, List.nil_append, raisesOnly_raise,
        raisesOnly_become_db, raisesOnly_lower, raisesOnly_nil, hnosub, true_and, and_true,
        iff_true_intro (show [Capability.dacOverride, .dacReadSearch] ⊆
          [.dacOverride, .dacReadSearch, .fowner] by simp), true_iff]
      rintro ⟨hgroup, hok⟩
      rcases hmoved with hno | hno
      · exact hno hok
      · exact hno hgroup
  · rename_i hsub
    simp [hsub]

/-- **`ws_restore`** keeps all it raises but for carrying a group over. -/
theorem raisesOnly_restore (c : Caller) (a : RestoreArgs) (surroundings : RestoreEnv) :
    RaisesOnly [.dacOverride, .dacReadSearch, .fowner] (wsRestoreCaps config env w c a surroundings) ↔
      ¬CarriesGroup config c a surroundings w := by
  have hearly : ∀ {calls : List CapCall},
      RaisesOnly [.dacOverride, .dacReadSearch, .fowner] calls →
        ¬CarriesGroup config c a surroundings w →
          (RaisesOnly [.dacOverride, .dacReadSearch, .fowner] calls ↔
            ¬CarriesGroup config c a surroundings w) :=
    fun hcalls hnot => ⟨fun _ => hnot, fun _ => hcalls⟩
  rw [wsRestoreCaps]
  split
  · rename_i hcmd
    refine hearly (raisesOnly_nil _) fun hcarries => ?_
    simp [hcarries.commandline] at hcmd
  rename_i hcmd
  split
  · rename_i huser
    refine hearly (raisesOnly_nil _) fun hcarries => ?_
    rcases hcarries.user with hsame | hroot
    · exact huser.1 hsame
    · exact huser.2 hroot
  rename_i huser
  split
  · rename_i hname
    refine hearly (raisesOnly_nil _) fun hcarries => ?_
    simp [hcarries.checked, hcarries.human] at hname
  rename_i hname
  rw [restoreCaps]
  split
  · rename_i hlist
    refine hearly (raisesOnly_nil _) fun hcarries => ?_
    obtain ⟨fslist, _, _, _, _, hlist', -⟩ := hcarries.found
    rw [hlist] at hlist'
    cases hlist'
  rename_i fslist hlist
  simp only [List.cons_append, List.nil_append, raisesOnly_raise, raisesOnly_lower,
    iff_true_intro (show [Capability.dacOverride, .dacReadSearch] ⊆
      [.dacOverride, .dacReadSearch, .fowner] by simp), true_and]
  split
  · rename_i hsource
    refine hearly (raisesOnly_nil _) fun hcarries => ?_
    obtain ⟨fslist', fs, e, _, _, hlist', hsource', -⟩ := hcarries.found
    obtain rfl := Option.some.inj (hlist.symm.trans hlist')
    rw [hsource] at hsource'
    cases hsource'
  rename_i fs e hsource
  split
  · rename_i hdel
    refine hearly ?_ fun hcarries => ?_
    · split <;> simp
    · rw [hcarries.keep] at hdel
      cases hdel
  rename_i hdel
  split
  · rename_i htarget
    refine hearly (raisesOnly_nil _) fun hcarries => ?_
    obtain ⟨fslist', _, _, _, _, hlist', -, htarget', -⟩ := hcarries.found
    obtain rfl := Option.some.inj (hlist.symm.trans hlist')
    rw [htarget] at htarget'
    cases htarget'
  rename_i targetFs target htarget
  have hfound : ∀ {fslist' fs' e' targetFs' target'},
      restoreFslist config c (restoreUser c a) a.filesystem = some fslist' →
      restoreSource config w fslist' a.name (restoreUser c a) = some (fs', e') →
      restoreTarget w fslist' (wsid (restoreUser c a) (a.target.getD [])) =
        some (targetFs', target') → e' = e ∧ target' = target := by
    intro fslist' fs' e' targetFs' target' hlist' hsource' htarget'
    obtain rfl := Option.some.inj (hlist.symm.trans hlist')
    exact ⟨(Prod.mk.inj (Option.some.inj (hsource'.symm.trans hsource))).2,
      (Prod.mk.inj (Option.some.inj (htarget'.symm.trans htarget))).2⟩
  split
  · rename_i hpath
    refine hearly (raisesOnly_nil _) fun hcarries => ?_
    obtain ⟨_, _, _, _, _, hlist', hsource', htarget', hpath', -⟩ := hcarries.found
    obtain ⟨-, rfl⟩ := hfound hlist' hsource' htarget'
    rw [hpath] at hpath'
    cases hpath'
  rename_i hpath
  rw [raisesOnly_restoreMove, not_iff_not]
  constructor
  · rintro ⟨hnosub, hgroup, hmoved⟩
    simp only [Bool.or_eq_true, not_or, Bool.not_eq_true', Bool.not_eq_false] at hname
    refine ⟨by simpa using hcmd, ?_, hname.1, hname.2, by simpa using hdel, hnosub, fslist, fs, e,
      targetFs, target, hlist, hsource, htarget, by simpa using hpath, hgroup, hmoved⟩
    by_contra hno
    rw [not_or] at hno
    exact huser hno
  · intro hcarries
    obtain ⟨_, _, _, _, _, hlist', hsource', htarget', -, hgroup, hmoved⟩ := hcarries.found
    obtain ⟨rfl, rfl⟩ := hfound hlist' hsource' htarget'
    exact ⟨hcarries.nosub, hgroup, hmoved⟩

/-- A call that has to write an entry with capabilities for restoring only. -/
def ToolCall.Carries (config : Config) (w : World) : ToolCall → Prop
  | .restore c a surroundings => CarriesGroup config c a surroundings w
  | _ => False

/-- **Capability sufficiency.** In capability mode a call of the tools raises only what its `main`
has kept, and so gets through all its raises, exactly when it is not a restore that carries a
group over. -/
theorem capabilities_suffice_iff (config : Config) (env : CapEnv) (w : World) (call : ToolCall) :
    (RaisesOnly call.drops (call.calls config env w) ↔ ¬call.Carries config w) ∧
      ∀ p, CapabilityMode p call.drops →
        ((∃ s, capRun true p call.drops (call.calls config env w) = .ok s) ↔
          ¬call.Carries config w) := by
  have hraises : RaisesOnly call.drops (call.calls config env w) ↔ ¬call.Carries config w := by
    cases call with
    | allocate c a surroundings =>
      simpa [ToolCall.calls, ToolCall.drops, ToolCall.Carries] using
        raisesOnly_allocate c a surroundings
    | release c a surroundings =>
      simpa [ToolCall.calls, ToolCall.drops, ToolCall.Carries] using
        raisesOnly_release c a surroundings
    | restore c a surroundings =>
      simpa [ToolCall.calls, ToolCall.drops, ToolCall.Carries] using
        raisesOnly_restore c a surroundings
    | restoreList => simp [ToolCall.calls, ToolCall.drops, ToolCall.Carries]
  exact ⟨hraises, fun p hmode => (capRun_iff hmode _).trans hraises⟩

/-- A user's process with the capabilities that are installed for the tools. -/
def userCaps (capabilities : List Capability) : Proc where
  ruid := 1000
  euid := 1000
  suid := 1000
  rgid := 100
  egid := 100
  sgid := 100
  groups := [100]
  permitted := capabilities
  effective := []

/-- No system call fails. -/
def noFailures : CapEnv := ⟨999, 99, false, false, false, false, false, false⟩

/-- `ws_release x` gets through. -/
theorem capabilities_suffice_release :
    ∃ s, capRun true (userCaps [.dacOverride, .chown, .fowner]) [.dacOverride, .chown, .fowner]
      ((ToolCall.release bob ⟨['x'], none, none, false⟩ ⟨100, 100, .ok⟩).calls plainConfig noFailures
        (wsAllocate plainConfig bob (createArgs none) bobEnv .init).1) = .ok s := by
  have hmode : CapabilityMode (userCaps [.dacOverride, .chown, .fowner])
      [.dacOverride, .chown, .fowner] := ⟨rfl, List.Subset.refl _, List.mem_cons_self ..⟩
  exact ((capabilities_suffice_iff plainConfig noFailures
    (wsAllocate plainConfig bob (createArgs none) bobEnv .init).1
    (.release bob ⟨['x'], none, none, false⟩ ⟨100, 100, .ok⟩)).2 _ hmode).mpr id

/-- A configuration in which restores go onto the directory of the target. -/
def nosubConfig : Config :=
  { plainConfig with global := { plainConfig.global with restorenosub := true } }

/-- `bob` has released the group workspace `x`; his workspace `y` is empty. -/
def groupWorld : World :=
  { (releasedDisk ['w'] ['s']).world with
    db := (releasedDisk ['w'] ['s']).world.db.insert ⟨['w'], .deleted, "bob-x-100".toList⟩
      (.entry ((bobsEntry ⟨['s'], "bob-x".toList⟩ 100).setGroup ['g'])) }

/-- Restoring it ends in `raise_cap`, after the directory was moved. -/
theorem not_capabilities_suffice :
    ¬∀ (config : Config) (env : CapEnv) (w : World) (call : ToolCall) (p : Proc),
      CapabilityMode p call.drops →
        ∃ s, capRun true p call.drops (call.calls config env w) = .ok s := by
  intro h
  have hmode : CapabilityMode (userCaps [.dacOverride, .dacReadSearch, .fowner])
      (ToolCall.restore bob restoreArgs ⟨200, true, .ok⟩).drops :=
    ⟨rfl, List.Subset.refl _, List.mem_cons_self ..⟩
  obtain ⟨s, hs⟩ := h nosubConfig noFailures groupWorld
    (.restore bob restoreArgs ⟨200, true, .ok⟩) _ hmode
  have hfails : capRun true (userCaps [.dacOverride, .dacReadSearch, .fowner])
      (ToolCall.restore bob restoreArgs ⟨200, true, .ok⟩).drops
      ((ToolCall.restore bob restoreArgs ⟨200, true, .ok⟩).calls nosubConfig noFailures groupWorld) =
        .error .EPERM := by rfl
  cases hfails.symm.trans hs

end HpcWorkspace
