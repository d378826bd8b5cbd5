import HpcWorkspace.Confinement

/-!
# What no call works on

The traces of the tools and their model are two descriptions of one program. They fit together: an
entry file that no call of a trace writes, renames or removes stays as it is in the model, and so
does a directory that no call works on. A trace is the longest when none of its calls fails.
-/

namespace HpcWorkspace

/-! ## Places of calls -/

/-- Does a call change the file of an entry? -/
def FileCall.OnEntry (paths : Str → FsPaths) (k : DbLoc) : FileCall → Prop
  | .entry op ps => op ≠ .read ∧ ∃ p ∈ ps, Paths.Same '/' p (entryPath (paths k.fs) k.area k.id)
  | .dir _ _ => False

/-- Does a call work on a directory, or right in it? -/
def FileCall.OnDir (paths : Str → FsPaths) (d : DirLoc) : FileCall → Prop
  | .entry _ _ => False
  | .dir _ ps => ∃ p ∈ ps, ∃ fs, LeadsTo (paths fs) d p ∨
      ∃ dir, LeadsTo (paths fs) d dir ∧ ChildOf dir p

/-- What no call works on stays as it is. -/
structure Framed (paths : Str → FsPaths) (calls : List FileCall) (w w' : World) : Prop where
  /-- the entry files -/
  entries : ∀ k, (∀ call ∈ calls, ¬call.OnEntry paths k) → w'.db.lookup k = w.db.lookup k
  /-- the directories -/
  dirs : ∀ d, (∀ call ∈ calls, ¬call.OnDir paths d) → w'.dirs.find d = w.dirs.find d

namespace Framed

variable {paths : Str → FsPaths} {calls calls' : List FileCall} {call : FileCall}
  {w w' w'' : World}

theorem refl (w : World) : Framed paths calls w w := ⟨fun _ _ => rfl, fun _ _ => rfl⟩

theorem trans (h : Framed paths calls w w') (h' : Framed paths calls w' w'') :
    Framed paths calls w w'' where
  entries k hk := (h'.entries k hk).trans (h.entries k hk)
  dirs d hd := (h'.dirs d hd).trans (h.dirs d hd)

/-- More calls work on more. -/
theorem mono (h : Framed paths calls w w') (hsub : calls ⊆ calls') : Framed paths calls' w w' where
  entries k hk := h.entries k fun call hmem => hk call (hsub hmem)
  dirs d hd := h.dirs d fun call hmem => hd call (hsub hmem)

/-- One entry file changes. -/
theorem entry {k : DbLoc} (hmem : call ∈ calls) (hon : call.OnEntry paths k)
    (hdirs : w'.dirs = w.dirs) (hdb : ∀ k' ≠ k, w'.db.lookup k' = w.db.lookup k') :
    Framed paths calls w w' where
  entries k' hk' := hdb k' fun heq => hk' call hmem (heq ▸ hon)
  dirs d _ := by rw [hdirs]

/-- One directory changes. -/
theorem dir {d : DirLoc} (hmem : call ∈ calls) (hon : call.OnDir paths d) (hdb : w'.db = w.db)
    (hdirs : ∀ d' ≠ d, w'.dirs.find d' = w.dirs.find d') : Framed paths calls w w' where
  entries k _ := by rw [hdb]
  dirs d' hd' := hdirs d' fun heq => hd' call hmem (heq ▸ hon)

/-- Two directories change. -/
theorem dir₂ {d₁ d₂ : DirLoc} (hmem : call ∈ calls) (hon₁ : call.OnDir paths d₁)
    (hon₂ : call.OnDir paths d₂) (hdb : w'.db = w.db)
    (hdirs : ∀ d', d' ≠ d₁ → d' ≠ d₂ → w'.dirs.find d' = w.dirs.find d') :
    Framed paths calls w w' where
  entries k _ := by rw [hdb]
  dirs d' hd' := hdirs d' (fun heq => hd' call hmem (heq ▸ hon₁)) fun heq =>
    hd' call hmem (heq ▸ hon₂)

theorem writeEntry {k : DbLoc} (e : DBEntry) (hmem : call ∈ calls) (hon : call.OnEntry paths k) :
    Framed paths calls w (w.writeEntry k e) :=
  entry hmem hon rfl fun _ hne => World.lookup_writeEntry_ne e hne

theorem removeEntry {k : DbLoc} (hmem : call ∈ calls) (hon : call.OnEntry paths k) :
    Framed paths calls w (w.removeEntry k) :=
  entry hmem hon rfl fun _ hne => World.lookup_removeEntry_ne hne

theorem rmtree {d : DirLoc} (outcome : Outcome) (hmem : call ∈ calls) (hon : call.OnDir paths d) :
    Framed paths calls w (w.rmtree outcome d) :=
  dir hmem hon (rmtree_db ..) fun _ hne => find_rmtree_ne hne

variable {d d' : DirLoc} {outcome : Outcome} {now : ℤ}

theorem moveDir (hmem : call ∈ calls) (hon : call.OnDir paths d) (hon' : call.OnDir paths d') :
    Framed paths calls w (w.moveDir outcome d d' now).1 :=
  dir₂ hmem hon hon' (moveDir_db ..) fun _ => find_moveDir_ne

theorem moveOnto (hmem : call ∈ calls) (hon : call.OnDir paths d) (hon' : call.OnDir paths d') :
    Framed paths calls w (w.moveOnto outcome d d').1 := by
  rcases w.moveOnto_cases outcome d d' with heq | ⟨moved, hren, heq⟩
  · rw [heq]
    exact .refl w
  · obtain ⟨-, rfl⟩ := World.renameDir_eq_some hren
    rw [heq]
    exact dir₂ hmem hon hon' rfl fun _ => DirTree.find_move_ne

theorem moveInto (hmem : call ∈ calls) (hon : call.OnDir paths d) (hon' : call.OnDir paths d') :
    Framed paths calls w (w.moveInto outcome d d' now).1 := by
  rcases w.moveInto_cases outcome d d' now with heq | ⟨n, n', -, -, heq⟩
  · rw [heq]
    exact .refl w
  · rw [heq]
    exact dir₂ hmem hon hon' rfl fun _ hne hne' =>
      (World.find_removeDir_ne hne).trans (World.find_touch_ne hne')

end Framed

/-! ## `ws_allocate` -/

variable {config : Config} {paths : Str → FsPaths} {w : World}

theorem onEntry_of_mem {op : EntryOp} {ps : List Str} {k : DbLoc} (hop : op ≠ .read)
    (hp : entryPath (paths k.fs) k.area k.id ∈ ps) : (FileCall.entry op ps).OnEntry paths k :=
  ⟨hop, _, hp, .refl _⟩

/-- An entry that is written under a path put together as a string. -/
theorem onEntry_create {fs id : Str} (hid : checkID id = true) :
    (FileCall.entry .write [(paths fs).database ++ '/' :: id]).OnEntry paths ⟨fs, .live, id⟩ := by
  obtain ⟨hne, -, -, hslash⟩ := checkID_iff.mp hid
  have hrel : Paths.isAbsolute '/' id = false := by
    obtain ⟨x, xs, rfl⟩ := List.exists_cons_of_ne_nil hne
    have hx : x ≠ '/' := fun heq => hslash (heq ▸ List.mem_cons_self ..)
    simp [Paths.isAbsolute, hx]
  exact ⟨by decide, _, List.mem_singleton_self _, (Paths.same_join (paths fs).database_ne hrel).symm⟩

theorem onDir_of_mem {op : DirOp} {ps : List Str} {d : DirLoc} {fs p : Str} (hp : p ∈ ps)
    (hleads : LeadsTo (paths fs) d p) : (FileCall.dir op ps).OnDir paths d :=
  ⟨p, hp, fs, Or.inl hleads⟩

/-- The creation works on the directory, and on the entry when user and group are known. -/
theorem framed_createWorkspace {c : Caller} {a : AllocArgs} {user_option fs : Str} {env : AllocEnv}
    {fsconfig : FilesystemConfig} {calls : List FileCall} (hslash : '/' ∉ c.username)
    (hfs : config.getFsConfig fs = some fsconfig)
    (hcmd : allocCommandline c a = some user_option)
    (hdir : .dir .create_directories [(workspaceDir fsconfig c env user_option a.name).str] ∈ calls)
    (hentry : ((workspaceUid c env user_option).isSome &&
        (primarygroup c a == [] || env.groupKnown (primarygroup c a))) = true →
      checkID (wsid c.username a.name) = true →
        .entry .write [(paths fs).database ++ '/' :: wsid c.username a.name] ∈ calls) :
    Framed paths calls w (createWorkspace config c a user_option env w fs fsconfig).1 := by
  have hnew : Written config fs
      (newEntry config c a env fsconfig (workspaceDir fsconfig c env user_option a.name)) :=
    .created hslash hfs hcmd
  have hon : (FileCall.dir .create_directories
      [(workspaceDir fsconfig c env user_option a.name).str]).OnDir paths
        (workspaceDir fsconfig c env user_option a.name).loc :=
    onDir_of_mem (List.mem_singleton_self _) (hnew.leadsTo (paths fs))
  have hmkdir : Framed paths calls w
      (w.mkdir (workspaceDir fsconfig c env user_option a.name).loc env.now) :=
    .dir hdir hon rfl fun _ hne => find_makeDir_ne hne
  dsimp only [createWorkspace]
  split
  · exact hmkdir
  rename_i tuid huid
  split
  · exact hmkdir
  rename_i hgroup
  have hchown : ∀ w' : World, Framed paths calls w'
      (w'.chown (workspaceDir fsconfig c env user_option a.name).loc tuid) :=
    fun w' => .dir hdir hon rfl fun _ hne => find_chownDir_ne hne
  split
  · rename_i hid
    have hknown : ((workspaceUid c env user_option).isSome &&
        (primarygroup c a == [] || env.groupKnown (primarygroup c a))) = true := by
      rw [huid]
      by_cases hnil : primarygroup c a = []
      · simp [hnil]
      · simpa [hnil] using hgroup
    exact (hmkdir.trans (hchown _)).trans (.writeEntry _ (hentry hknown hid) (onEntry_create hid))
  · exact hmkdir.trans (hchown _)

/-- What follows the checks is in the trace. -/
theorem allocateChecked_subset {c : Caller} {a : AllocArgs} {user_option : Str} {env : AllocEnv}
    {faults : PathFaults} (checks : AllocChecks config c a w user_option) :
    allocateCheckedCalls config paths faults w c a user_option env ⊆
      wsAllocateCalls config paths faults w c a env := by
  have hconf : ¬((allocSearchlist config c a).any fun fs => (config.getFsConfig fs).isNone) =
      true := by
    rw [List.any_eq_true]
    rintro ⟨fs, hfs, hnone⟩
    obtain ⟨fsconfig, hsome⟩ := checks.configured fs hfs
    rw [hsome] at hnone
    cases hnone
  have hlimit : ¬(config.global.maxuserworkspaces > 0 ∧
      (countWorkspaces config w c.username c.groups : ℤ) > config.global.maxuserworkspaces) :=
    fun hmany => absurd (checks.limit hmany.1) (by omega)
  intro call hmem
  simp only [wsAllocateCalls, checks.commandline, checks.valid, checks.fsAndGroup, hlimit, hconf,
    if_false, Bool.not_true, Bool.false_eq_true]
  exact List.mem_append_right _ (List.mem_append_right _ hmem)

theorem framed_allocate {c : Caller} (a : AllocArgs) (env : AllocEnv) (hslash : '/' ∉ c.username) :
    Framed paths (wsAllocateCalls config paths allSucceed w c a env) w
      (wsAllocate config c a env w).1 := by
  have hspec := wsAllocate_spec config c a env w
  generalize wsAllocate config c a env w = out at hspec ⊢
  cases hspec with
  | refused | reused => exact .refl w
  | extended checks extend found configured entry =>
    refine .mono ?_ (allocateChecked_subset checks)
    simp only [allocateCheckedCalls, found, extend, configured, entry, if_true]
    exact .writeEntry _ (List.mem_singleton_self _)
      (onEntry_of_mem (by decide) (List.mem_singleton_self _))
  | creates checks create missing first configured allocatable opened =>
    refine .mono ?_ (allocateChecked_subset checks)
    simp only [allocateCheckedCalls, missing, create, Bool.false_eq_true, if_false]
    simp only [first, configured, allocatable, opened, Bool.not_true, Bool.false_eq_true, if_false]
    refine framed_createWorkspace hslash configured checks.commandline ?_ fun hknown hid => ?_
    · exact List.mem_append_right _ (List.mem_append_left _ (List.mem_cons_self ..))
    · refine List.mem_append_right _ (List.mem_append_right _ ?_)
      rw [hknown, if_pos (by decide), createEntryCalls, if_pos hid]
      exact List.mem_singleton_self _

/-! ## `ws_release` -/

/-- What follows the search is in the trace. -/
theorem releaseFound_subset {c : Caller} {a : ReleaseArgs} {env : ReleaseEnv} {faults : PathFaults}
    {user_option fs : Str} {e : DBEntry} (hcmd : releaseCommandline c a = some user_option)
    (hfind : releaseFind config c a user_option w = some (fs, e)) :
    releaseFoundCalls paths faults a fs (releaseId c a user_option)
        (deletedName (releaseId c a user_option)
          (releaseTimestamp w fs (releaseId c a user_option) env.timestamp)) e.workspace.str ⊆
      wsReleaseCalls config paths faults w c a env := by
  have hvalid : ¬config.validFilesystems c.username c.groups .release = [] := by
    intro hnil
    rw [releaseFind, if_pos hnil] at hfind
    cases hfind
  have hcheck := (releaseFind_eq_some hfind).1
  intro call hmem
  simp only [wsReleaseCalls, hcmd, hvalid, hcheck, hfind, if_false, Bool.not_true,
    Bool.false_eq_true]
  exact List.mem_append_right _ hmem

/-- The entry is written and goes to the deleted area, and the directory is deleted or moved. -/
theorem framed_releaseFound {a : ReleaseArgs} {fs id : Str} {e : DBEntry} (released ts : ℤ)
    (outcome : Outcome) (hid : checkID id = true) (he : Written config fs e) :
    (a.deletedata = true →
      Framed paths (releaseFoundCalls paths allSucceed a fs id (deletedName id ts) e.workspace.str)
        w (((DBEntry.release w fs id e released ts).rmtree outcome e.workspace.loc).removeEntry
          ⟨fs, .deleted, deletedName id ts⟩)) ∧
    (a.deletedata = false →
      Framed paths (releaseFoundCalls paths allSucceed a fs id (deletedName id ts) e.workspace.str)
        w ((DBEntry.release w fs id e released ts).moveDir outcome e.workspace.loc
          ⟨e.workspace.space, .deleted, deletedName id ts⟩ released).1) := by
  have hrelease : Framed paths
      (releaseFoundCalls paths allSucceed a fs id (deletedName id ts) e.workspace.str) w
        (DBEntry.release w fs id e released ts) := by
    constructor
    · intro k hk
      refine DBEntry.lookup_release_ne ?_ ?_
      · rintro rfl
        exact hk _ (List.mem_cons_self ..) (onEntry_of_mem (by decide) (List.mem_singleton_self _))
      · rintro rfl
        exact hk _ (List.mem_cons_of_mem _ (List.mem_cons_self ..))
          (onEntry_of_mem (by decide) (List.mem_cons_of_mem _ (List.mem_singleton_self _)))
    · intro d _
      rw [DBEntry.release_dirs]
  constructor
  · intro hdelete
    have hrmtree : .dir .rmtree_below [e.workspace.str] ∈
        releaseFoundCalls paths allSucceed a fs id (deletedName id ts) e.workspace.str := by
      simp [releaseFoundCalls, allSucceed, hdelete]
    have hremove : .entry .remove [entryPath (paths fs) .deleted (deletedName id ts)] ∈
        releaseFoundCalls paths allSucceed a fs id (deletedName id ts) e.workspace.str := by
      simp [releaseFoundCalls, allSucceed, hdelete]
    exact (hrelease.trans (.rmtree outcome hrmtree
      (onDir_of_mem (List.mem_singleton_self _) (he.leadsTo (paths fs))))).trans
        (.removeEntry hremove (onEntry_of_mem (by decide) (List.mem_singleton_self _)))
  · intro hkeep
    have hcall : .dir .rename [e.workspace.str, releasedPath (paths fs) e.workspace.str
        (deletedName id ts)] ∈
          releaseFoundCalls paths allSucceed a fs id (deletedName id ts) e.workspace.str := by
      simp [releaseFoundCalls, allSucceed, hkeep]
    exact hrelease.trans (.moveDir hcall
      (onDir_of_mem (List.mem_cons_self ..) (he.leadsTo (paths fs)))
      (onDir_of_mem (List.mem_cons_of_mem _ (List.mem_singleton_self _))
        (he.leadsTo_releasedPath (paths fs) (checkID_deletedName hid ts))))

theorem framed_release (c : Caller) (a : ReleaseArgs) (env : ReleaseEnv)
    (hw : w.Written config) :
    Framed paths (wsReleaseCalls config paths allSucceed w c a env) w
      (wsRelease config c a env w).1 := by
  have hspec := wsRelease_spec config c a env w
  generalize wsRelease config c a env w = out at hspec ⊢
  cases hspec with
  | refused => exact .refl w
  | deleted hcmd found hid htimestamp deletedata =>
    subst hid htimestamp
    obtain ⟨hid, he⟩ := found_written hw (releaseFind_eq_some found).2.1
    exact ((framed_releaseFound _ _ _ hid he).1 deletedata).mono (releaseFound_subset hcmd found)
  | released hcmd found hid htimestamp keep move =>
    subst hid htimestamp
    obtain ⟨hid, he⟩ := found_written hw (releaseFind_eq_some found).2.1
    rw [(Prod.mk.inj move).1]
    exact ((framed_releaseFound _ _ _ hid he).2 keep).mono (releaseFound_subset hcmd found)

/-! ## `ws_restore` -/

/-- `--delete-data` works on the source and its entry. -/
theorem framed_restoreDelete {fs name : Str} {e : DBEntry} (outcome : Outcome)
    (hname : checkID name = true) (he : Written config fs e) :
    Framed paths
        (restoreDeleteCalls paths allSucceed fs name (wssourcename (paths fs) e.workspace.str name))
        w (w.rmtree outcome ⟨e.workspace.space, .deleted, name⟩) ∧
      Framed paths
        (restoreDeleteCalls paths allSucceed fs name (wssourcename (paths fs) e.workspace.str name))
        w ((w.rmtree outcome ⟨e.workspace.space, .deleted, name⟩).removeEntry
          ⟨fs, .deleted, name⟩) := by
  have hrmtree : Framed paths
      (restoreDeleteCalls paths allSucceed fs name (wssourcename (paths fs) e.workspace.str name))
      w (w.rmtree outcome ⟨e.workspace.space, .deleted, name⟩) :=
    .rmtree outcome (List.mem_append_left _ (List.mem_cons_self ..))
      (onDir_of_mem (List.mem_singleton_self _) (he.leadsTo_wssourcename (paths fs) hname))
  have hentry : .entry .remove [entryPath (paths fs) .deleted name] ∈
      restoreDeleteCalls paths allSucceed fs name
        (wssourcename (paths fs) e.workspace.str name) := by
    simp [restoreDeleteCalls, allSucceed, deleteEntryCalls, hname]
  exact ⟨hrmtree, hrmtree.trans (.removeEntry hentry
    (onEntry_of_mem (by decide) (List.mem_singleton_self _)))⟩

section Move

variable {name targetFs targetId fs : Str} {e te : DBEntry}

/-- The move onto the directory of the target, which can also change the target's entry. -/
theorem framed_restoreOnto (outcome : Outcome) (hname : checkID name = true)
    (he : Written config fs e) (hte : Written config targetFs te)
    (hnosub : config.global.restorenosub = true) {calls : List FileCall}
    (hcalls : calls = restoreMoveCalls config paths allSucceed name
      (wssourcename (paths fs) e.workspace.str name) e targetFs targetId te.workspace.str)
    {moved : World}
    (hmoved : moved = (w.moveOnto outcome ⟨e.workspace.space, .deleted, name⟩ te.workspace.loc).1) :
    Framed paths calls w moved ∧
      Framed paths calls w ((if e.group ≠ [] then
          moved.writeEntry ⟨targetFs, .live, targetId⟩ (te.setGroup e.group)
        else moved).removeEntry ⟨targetFs, .deleted, name⟩) := by
  have hrename : .dir .rename [wssourcename (paths fs) e.workspace.str name, te.workspace.str] ∈
      calls := by
    rw [hcalls, restoreMoveCalls, if_pos hnosub]
    exact List.mem_cons_self ..
  have hwrite : e.group ≠ [] →
      .entry .write [entryPath (paths targetFs) .live targetId] ∈ calls := by
    intro hgroup
    simp [hcalls, restoreMoveCalls, hnosub, allSucceed, writeEntryCalls, hgroup]
  have hremove : .entry .remove [entryPath (paths targetFs) .deleted name] ∈ calls := by
    simp [hcalls, restoreMoveCalls, hnosub, allSucceed, deleteEntryCalls, hname]
  have hmove : Framed paths calls w moved := by
    rw [hmoved]
    exact .moveOnto hrename
      (onDir_of_mem (List.mem_cons_self ..) (he.leadsTo_wssourcename (paths fs) hname))
      (onDir_of_mem (List.mem_cons_of_mem _ (List.mem_singleton_self _))
        (hte.leadsTo (paths targetFs)))
  refine ⟨hmove, .trans ?_ (.removeEntry hremove
    (onEntry_of_mem (by decide) (List.mem_singleton_self _)))⟩
  split
  · rename_i hgroup
    exact hmove.trans (.writeEntry _ (hwrite hgroup)
      (onEntry_of_mem (by decide) (List.mem_singleton_self _)))
  · exact hmove

/-- The move into the directory of the target. -/
theorem framed_restoreInto (outcome : Outcome) (now : ℤ) (hname : checkID name = true)
    (he : Written config fs e) (hte : Written config targetFs te)
    (hsub : config.global.restorenosub = false) {calls : List FileCall}
    (hcalls : calls = restoreMoveCalls config paths allSucceed name
      (wssourcename (paths fs) e.workspace.str name) e targetFs targetId te.workspace.str)
    {moved : World}
    (hmoved : moved =
      (w.moveInto outcome ⟨e.workspace.space, .deleted, name⟩ te.workspace.loc now).1) :
    Framed paths calls w moved ∧
      Framed paths calls w (moved.removeEntry ⟨targetFs, .deleted, name⟩) := by
  have hrename : .dir .rename [wssourcename (paths fs) e.workspace.str name, te.workspace.str ++
      '/' :: Paths.filename '/' (wssourcename (paths fs) e.workspace.str name)] ∈ calls := by
    simp [hcalls, restoreMoveCalls, hsub]
  have hremove : .entry .remove [entryPath (paths targetFs) .deleted name] ∈ calls := by
    simp [hcalls, restoreMoveCalls, hsub, allSucceed, PathFaults.moved, deleteEntryCalls, hname]
  have hmove : Framed paths calls w moved := by
    rw [hmoved]
    refine .moveInto hrename
      (onDir_of_mem (List.mem_cons_self ..) (he.leadsTo_wssourcename (paths fs) hname)) ?_
    exact ⟨_, List.mem_cons_of_mem _ (List.mem_singleton_self _), targetFs, Or.inr
      ⟨_, hte.leadsTo (paths targetFs), hte.childOf_target hname _⟩⟩
  exact ⟨hmove, hmove.trans (.removeEntry hremove
    (onEntry_of_mem (by decide) (List.mem_singleton_self _)))⟩

end Move

/-- What follows the source is in the trace. -/
theorem restoreDelete_subset {c : Caller} {a : RestoreArgs} {username fs : Str} {fslist : List Str}
    {e : DBEntry} {faults : PathFaults}
    (hlist : restoreFslist config c username a.filesystem = some fslist)
    (hsource : restoreSource config w fslist a.name username = some (fs, e))
    (hdelete : a.deletedata = true) :
    restoreDeleteCalls paths faults fs a.name (wssourcename (paths fs) e.workspace.str a.name) ⊆
      restoreCalls config paths faults w c a username := by
  intro call hmem
  simp only [restoreCalls, hlist, hsource, hdelete, if_true]
  exact List.mem_append_right _ hmem

/-- What follows source and target is in the trace. -/
theorem restoreMove_subset {c : Caller} {a : RestoreArgs} {username fs targetFs : Str}
    {fslist : List Str} {e te : DBEntry} {faults : PathFaults}
    (hlist : restoreFslist config c username a.filesystem = some fslist)
    (hsource : restoreSource config w fslist a.name username = some (fs, e))
    (hkeep : a.deletedata = false)
    (htarget : restoreTarget w fslist (wsid username (a.target.getD [])) = some (targetFs, te))
    (hpath : te.workspace.str ≠ []) :
    restoreMoveCalls config paths faults a.name (wssourcename (paths fs) e.workspace.str a.name) e
        targetFs (wsid username (a.target.getD [])) te.workspace.str ⊆
      restoreCalls config paths faults w c a username := by
  intro call hmem
  simp only [restoreCalls, hlist, hsource, hkeep, htarget, hpath, if_false, Bool.false_eq_true]
  exact List.mem_append_right _ (List.mem_append_right _ hmem)

theorem framed_restore (c : Caller) (a : RestoreArgs) (username : Str) (env : RestoreEnv)
    (hw : w.Written config) :
    Framed paths (restoreCalls config paths allSucceed w c a username) w
      (restore config c a username env w).1 := by
  dsimp only [restore]
  split
  · exact .refl w
  rename_i fslist hlist
  split
  · exact .refl w
  rename_i fs e hsource
  obtain ⟨-, -, hread, -⟩ := restoreSource_eq_some hsource
  obtain ⟨hname, hlook⟩ := World.readEntry_eq_some.mp hread
  have he : Written config fs e := hw _ _ hlook
  split
  · rename_i hdelete
    split
    · exact .mono (framed_restoreDelete env.outcome hname he).2
        (restoreDelete_subset hlist hsource hdelete)
    · exact .mono (framed_restoreDelete env.outcome hname he).1
        (restoreDelete_subset hlist hsource hdelete)
  rename_i hdelete
  have hkeep : a.deletedata = false := by simpa using hdelete
  split
  · exact .refl w
  rename_i targetFs te htarget
  split
  · exact .refl w
  have hte : Written config targetFs te :=
    hw _ _ (World.readEntry_eq_some.mp (restoreTarget_eq_some htarget).2.2).2
  have hpath : te.workspace.str ≠ [] := by
    rw [hte.str]
    simp
  refine .mono ?_ (restoreMove_subset hlist hsource hkeep htarget hpath)
  split
  · rename_i hnosub
    split
    · exact (framed_restoreOnto env.outcome hname he hte hnosub rfl rfl).2
    · exact (framed_restoreOnto env.outcome hname he hte hnosub rfl rfl).1
  · rename_i hsub
    rw [Bool.not_eq_true] at hsub
    split
    · exact (framed_restoreInto env.outcome env.now hname he hte hsub rfl rfl).2
    · exact (framed_restoreInto env.outcome env.now hname he hte hsub rfl rfl).1

/-! ## All tools -/

/-- The databases and directories after a call. -/
def Invocation.after (config : Config) (w : World) : Invocation → World
  | .allocate c a env => (wsAllocate config c a env w).1
  | .release c a env => (wsRelease config c a env w).1
  | .restore c a env => (wsRestore config c a env w).1
  | .restoreList _ _ => w

/-- **The traces are complete.** What no call of the trace works on stays as it is. -/
theorem framed (hw : w.Written config) (invocation : Invocation)
    (hslash : '/' ∉ invocation.caller.username) :
    Framed paths (invocation.calls config paths allSucceed w) w (invocation.after config w) := by
  cases invocation with
  | allocate c a env => exact framed_allocate a env hslash
  | release c a env => exact framed_release c a env hw
  | restore c a env =>
    have hcall : wsRestore config c a env w =
        if !restoreCommandline a then (w, .refused)
        else if restoreUser c a ≠ c.username ∧ c.username ≠ "root".toList then (w, .refused)
        else if !checkName a.name c.username || !env.human then (w, .refused)
        else restore config c a (restoreUser c a) env w := rfl
    rw [Invocation.calls, Invocation.after, wsRestoreCalls, hcall]
    split
    · exact .refl w
    split
    · exact .refl w
    split
    · exact .refl w
    · exact framed_restore c a (restoreUser c a) env hw
  | restoreList c a => exact .refl w

end HpcWorkspace
