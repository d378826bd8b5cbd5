import HpcWorkspace.Release

/-!
# `ws_restore`

A call looks for the deleted entry it is given, and for the live entry of the target. It moves
the deleted directory into the directory of the target, or onto it, and removes the deleted
entry; or it deletes the data and the entry.
-/

namespace HpcWorkspace

/-- The command line of `ws_restore` without `-l`. -/
structure RestoreArgs where
  /-- the workspace name, as listed: `<user>-<name>-<timestamp>` -/
  name : Str
  /-- the target workspace -/
  target : Option Str
  /-- `-F` -/
  filesystem : Option Str
  /-- `-u` -/
  username : Option Str
  /-- `--delete-data` -/
  deletedata : Bool

/-- What a call reads of its surroundings. -/
structure RestoreEnv where
  /-- the clock -/
  now : ℤ
  /-- does the caller pass the test for humans? -/
  human : Bool
  /-- how the move or the deletion of the directory ends -/
  outcome : Outcome

/-- How a call ended. -/
inductive RestoreResult where
  /-- an error before anything was changed -/
  | refused
  /-- the deletion of the data was started; `gone` tells whether it is complete, and the entry was
  removed -/
  | wiped (fs : Str) (e : DBEntry) (gone : Bool)
  /-- source and target were found and the move was tried; `moved` tells whether it succeeded,
  and the deleted entry was removed from the database of the target -/
  | restored (fs : Str) (e : DBEntry) (targetFs targetId : Str) (target : DBEntry) (moved : Bool)
  deriving DecidableEq

/-- `commandline`: is the call refused? -/
def restoreCommandline (a : RestoreArgs) : Bool :=
  (a.target.isSome || a.deletedata) && isValidWorkspaceName a.name &&
    match a.target with
    | none => true
    | some target => isValidWorkspaceName target

/-- `check_name` -/
def checkName (name real_username : Str) : Bool :=
  real_username == "root".toList || (real_username ++ ['-']).isPrefixOf name

/-- `id_noowner`: the name without the user it starts with. -/
def idNoOwner (name username : Str) : Str :=
  if (username ++ ['-']).isPrefixOf name then name.drop (username.length + 1) else name

/-- The filesystems `restore` searches; `none` when `-F` names one that is not allowed. -/
def restoreFslist (config : Config) (c : Caller) (username : Str) (filesystem : Option Str) :
    Option (List Str) :=
  let validfs := config.validFilesystems username c.groups .restore
  match filesystem with
  | none => some validfs
  | some fs => if fs = [] then some validfs else if validfs.contains fs then some [fs] else none

/-- The deleted entries that match: `hits`. -/
def restoreHits (w : World) (fslist : List Str) (id_noowner username : Str) : List (Str × Str) :=
  fslist.flatMap fun fs =>
    if w.openDB fs then (w.matchPattern fs .deleted id_noowner username).map (fs, ·) else []

/-- The source of `restore`: the filesystem of the only hit, and the entry of the name in it. -/
def restoreSource (config : Config) (w : World) (fslist : List Str) (name username : Str) :
    Option (Str × DBEntry) :=
  match restoreHits w fslist (idNoOwner name username) username with
  | [(fs, _)] =>
    match config.getFsConfig fs with
    | none => none
    | some fsconfig =>
      if fsconfig.restorable && w.openDB fs then (w.readEntry fs .deleted name).map (fs, ·) else none
  | _ => none

/-- The target of `restore`: the first filesystem that has the entry. -/
def restoreTarget (w : World) (fslist : List Str) (id : Str) : Option (Str × DBEntry) :=
  fslist.findSome? fun fs =>
    if w.openDB fs then (w.readEntry fs .live id).map (fs, ·) else none

/-- Move the deleted directory into the directory of the target. What is in the target is not
modelled, so `outcome` also stands for a name that is taken there. -/
def World.moveInto (w : World) (outcome : Outcome) (k k' : DirLoc) (now : ℤ) : World × Bool :=
  match outcome, w.dirs.find k, w.dirs.find k' with
  | .ok, some _, some _ => ((w.touch k' now false).removeDir k, true)
  | _, _, _ => (w, false)

/-- `renameat` onto the directory of the target; there is no `mv` to fall back to. -/
def World.moveOnto (w : World) (outcome : Outcome) (k k' : DirLoc) : World × Bool :=
  match outcome, w.renameDir k k' with
  | .ok, some w => (w, true)
  | _, _ => (w, false)

/-- `restore` -/
def restore (config : Config) (c : Caller) (a : RestoreArgs) (username : Str) (env : RestoreEnv)
    (w : World) : World × RestoreResult :=
  match restoreFslist config c username a.filesystem with
  | none => (w, .refused)
  | some fslist =>
    match restoreSource config w fslist a.name username with
    | none => (w, .refused)
    | some (fs, e) =>
      let wssourcename : DirLoc := ⟨e.workspace.space, .deleted, a.name⟩
      if a.deletedata then
        let w := w.rmtree env.outcome wssourcename
        if (w.dirs.find wssourcename).isNone then
          (w.removeEntry ⟨fs, .deleted, a.name⟩, .wiped fs e true)
        else (w, .wiped fs e false)
      else
        let targetId := wsid username (a.target.getD [])
        match restoreTarget w fslist targetId with
        | none => (w, .refused)
        | some (targetFs, target) =>
          if target.workspace.isEmpty then (w, .refused)
          else if config.global.restorenosub then
            -- onto the directory of the target
            let (w, moved) := w.moveOnto env.outcome wssourcename target.workspace.loc
            if moved then
              -- carry over group workspace flag from source entry
              let w :=
                if e.group ≠ [] then w.writeEntry ⟨targetFs, .live, targetId⟩ (target.setGroup e.group)
                else w
              (w.removeEntry ⟨targetFs, .deleted, a.name⟩,
                .restored fs e targetFs targetId target true)
            else (w, .restored fs e targetFs targetId target false)
          else
            let (w, moved) := w.moveInto env.outcome wssourcename target.workspace.loc env.now
            if moved then
              (w.removeEntry ⟨targetFs, .deleted, a.name⟩,
                .restored fs e targetFs targetId target true)
            else (w, .restored fs e targetFs targetId target false)

/-- A call of `ws_restore`. -/
def wsRestore (config : Config) (c : Caller) (a : RestoreArgs) (env : RestoreEnv) (w : World) :
    World × RestoreResult :=
  if !restoreCommandline a then (w, .refused)
  else
    let username := a.username.getD []
    let username := if username = [] then c.username else username
    if username ≠ c.username ∧ c.username ≠ "root".toList then (w, .refused)
    else if !checkName a.name c.username || !env.human then (w, .refused)
    else restore config c a username env w

/-! ## What a call does -/

/-- A call that gets as far as a source entry: the user it works for, the filesystems it searches
and the source. -/
structure RestoreFound (config : Config) (c : Caller) (a : RestoreArgs) (w : World)
    (username : Str) (fslist : List Str) (fs : Str) (e : DBEntry) : Prop where
  /-- the command line is accepted -/
  commandline : restoreCommandline a = true
  /-- the name is accepted -/
  checked : checkName a.name c.username = true
  /-- only root works for somebody else -/
  user : username = c.username ∨ c.username = "root".toList
  /-- the filesystems -/
  list : restoreFslist config c username a.filesystem = some fslist
  /-- the source -/
  source : restoreSource config w fslist a.name username = some (fs, e)

/-- The ways a call can end. -/
inductive RestoreSpec (config : Config) (c : Caller) (a : RestoreArgs) (env : RestoreEnv)
    (w : World) : World × RestoreResult → Prop where
  /-- nothing happens -/
  | refused : RestoreSpec config c a env w (w, .refused)
  /-- the data and the entry are gone -/
  | wiped {username fs : Str} {fslist : List Str} {e : DBEntry}
      (found : RestoreFound config c a w username fslist fs e) (deletedata : a.deletedata = true)
      (gone : (w.rmtree env.outcome ⟨e.workspace.space, .deleted, a.name⟩).dirs.find
        ⟨e.workspace.space, .deleted, a.name⟩ = none) :
      RestoreSpec config c a env w
        ((w.rmtree env.outcome ⟨e.workspace.space, .deleted, a.name⟩).removeEntry
          ⟨fs, .deleted, a.name⟩, .wiped fs e true)
  /-- a part of the data is left, and the entry -/
  | wipedPartly {username fs : Str} {fslist : List Str} {e : DBEntry}
      (found : RestoreFound config c a w username fslist fs e) (deletedata : a.deletedata = true) :
      RestoreSpec config c a env w
        (w.rmtree env.outcome ⟨e.workspace.space, .deleted, a.name⟩, .wiped fs e false)
  /-- the move failed -/
  | failed {username fs targetFs targetId : Str} {fslist : List Str} {e target : DBEntry}
      (found : RestoreFound config c a w username fslist fs e) (keep : a.deletedata = false)
      (hid : targetId = wsid username (a.target.getD []))
      (htarget : restoreTarget w fslist targetId = some (targetFs, target))
      (path : target.workspace.isEmpty = false) :
      RestoreSpec config c a env w (w, .restored fs e targetFs targetId target false)
  /-- the directory went onto the one of the target -/
  | onto {username fs targetFs targetId : Str} {fslist : List Str} {e target : DBEntry}
      {w' w'' : World}
      (found : RestoreFound config c a w username fslist fs e) (keep : a.deletedata = false)
      (hid : targetId = wsid username (a.target.getD []))
      (htarget : restoreTarget w fslist targetId = some (targetFs, target))
      (path : target.workspace.isEmpty = false) (nosub : config.global.restorenosub = true)
      (move : w.renameDir ⟨e.workspace.space, .deleted, a.name⟩ target.workspace.loc = some w')
      (group : w'' = if e.group ≠ [] then
        w'.writeEntry ⟨targetFs, .live, targetId⟩ (target.setGroup e.group) else w') :
      RestoreSpec config c a env w
        (w''.removeEntry ⟨targetFs, .deleted, a.name⟩,
          .restored fs e targetFs targetId target true)
  /-- the directory went into the one of the target -/
  | into {username fs targetFs targetId : Str} {fslist : List Str} {e target : DBEntry}
      {n n' : DirNode Dir}
      (found : RestoreFound config c a w username fslist fs e) (keep : a.deletedata = false)
      (hid : targetId = wsid username (a.target.getD []))
      (htarget : restoreTarget w fslist targetId = some (targetFs, target))
      (path : target.workspace.isEmpty = false) (sub : config.global.restorenosub = false)
      (source : w.dirs.find ⟨e.workspace.space, .deleted, a.name⟩ = some n)
      (directory : w.dirs.find target.workspace.loc = some n') :
      RestoreSpec config c a env w
        (((w.touch target.workspace.loc env.now false).removeDir
          ⟨e.workspace.space, .deleted, a.name⟩).removeEntry ⟨targetFs, .deleted, a.name⟩,
          .restored fs e targetFs targetId target true)

theorem hasAccess_of_mem_restoreFslist {config : Config} {c : Caller} {username fs : Str}
    {filesystem : Option Str} {fslist : List Str}
    (h : restoreFslist config c username filesystem = some fslist) (hfs : fs ∈ fslist) :
    config.hasAccess username c.groups fs .restore = true := by
  refine Config.mem_validFilesystems.mp ?_
  dsimp only [restoreFslist] at h
  split at h
  · rwa [← Option.some.inj h] at hfs
  · split at h
    · rwa [← Option.some.inj h] at hfs
    · split at h
      · rename_i hmem
        rw [← Option.some.inj h] at hfs
        rw [List.mem_singleton.mp hfs]
        exact List.contains_iff_mem.mp hmem
      · cases h

theorem mem_restoreHits {w : World} {fslist : List Str} {id_noowner username fs id : Str} :
    (fs, id) ∈ restoreHits w fslist id_noowner username ↔
      fs ∈ fslist ∧ w.openDB fs = true ∧ id ∈ w.matchPattern fs .deleted id_noowner username := by
  rw [restoreHits, List.mem_flatMap]
  constructor
  · rintro ⟨fs', hfs, hmem⟩
    split at hmem
    · rename_i hopen
      obtain ⟨id', hid, heq⟩ := List.mem_map.mp hmem
      obtain ⟨rfl, rfl⟩ := Prod.mk.inj heq
      exact ⟨hfs, hopen, hid⟩
    · exact absurd hmem List.not_mem_nil
  · rintro ⟨hfs, hopen, hid⟩
    exact ⟨fs, hfs, by rw [if_pos hopen]; exact List.mem_map_of_mem hid⟩

theorem restoreSource_eq_some {config : Config} {w : World} {fslist : List Str}
    {name username fs : Str} {e : DBEntry}
    (h : restoreSource config w fslist name username = some (fs, e)) :
    (∃ id, restoreHits w fslist (idNoOwner name username) username = [(fs, id)]) ∧
      w.openDB fs = true ∧ w.readEntry fs .deleted name = some e ∧
      ∃ fsconfig, config.getFsConfig fs = some fsconfig ∧ fsconfig.restorable = true := by
  unfold restoreSource at h
  split at h
  · rename_i fs' id hhits
    split at h
    · cases h
    · rename_i fsconfig hconf
      split at h
      · rename_i hgo
        obtain ⟨e', he, heq⟩ := Option.map_eq_some_iff.mp h
        obtain ⟨rfl, rfl⟩ := Prod.mk.inj heq
        obtain ⟨hrest, hopen⟩ := Bool.and_eq_true_iff.mp hgo
        exact ⟨⟨id, hhits⟩, hopen, he, fsconfig, hconf, hrest⟩
      · cases h
  · cases h

theorem restoreTarget_eq_some {w : World} {fslist : List Str} {id fs : Str} {e : DBEntry}
    (h : restoreTarget w fslist id = some (fs, e)) :
    fs ∈ fslist ∧ w.openDB fs = true ∧ w.readEntry fs .live id = some e := by
  obtain ⟨fs', hmem, heq⟩ := List.exists_of_findSome?_eq_some h
  split at heq
  · rename_i hopen
    obtain ⟨e', he, hpair⟩ := Option.map_eq_some_iff.mp heq
    obtain ⟨rfl, rfl⟩ := Prod.mk.inj hpair
    exact ⟨hmem, hopen, he⟩
  · cases heq

/-- The source lies in one of the filesystems that are searched. -/
theorem RestoreFound.mem {config : Config} {c : Caller} {a : RestoreArgs} {w : World}
    {username fs : Str} {fslist : List Str} {e : DBEntry}
    (h : RestoreFound config c a w username fslist fs e) : fs ∈ fslist := by
  obtain ⟨⟨id, hhits⟩, -⟩ := restoreSource_eq_some h.source
  exact (mem_restoreHits.mp (hhits ▸ List.mem_singleton_self (fs, id))).1

theorem World.moveOnto_cases (w : World) (outcome : Outcome) (k k' : DirLoc) :
    w.moveOnto outcome k k' = (w, false) ∨
      ∃ w', w.renameDir k k' = some w' ∧ w.moveOnto outcome k k' = (w', true) := by
  unfold moveOnto
  split
  · rename_i w' hren
    exact Or.inr ⟨w', hren, rfl⟩
  · exact Or.inl rfl

theorem World.moveInto_cases (w : World) (outcome : Outcome) (k k' : DirLoc) (now : ℤ) :
    w.moveInto outcome k k' now = (w, false) ∨
      ∃ n n', w.dirs.find k = some n ∧ w.dirs.find k' = some n' ∧
        w.moveInto outcome k k' now = ((w.touch k' now false).removeDir k, true) := by
  unfold moveInto
  split
  · rename_i n n' hn hn'
    exact Or.inr ⟨n, n', hn, hn', rfl⟩
  · exact Or.inl rfl

variable {config : Config} {c : Caller} {a : RestoreArgs} {env : RestoreEnv} {w : World}

theorem restore_spec {username : Str} (hcmd : restoreCommandline a = true)
    (hname : checkName a.name c.username = true)
    (huser : username = c.username ∨ c.username = "root".toList) :
    RestoreSpec config c a env w (restore config c a username env w) := by
  dsimp only [restore]
  split
  · exact .refused
  rename_i fslist hlist
  split
  · exact .refused
  rename_i fs e hsource
  have found : RestoreFound config c a w username fslist fs e :=
    ⟨hcmd, hname, huser, hlist, hsource⟩
  split
  · rename_i hdel
    split
    · rename_i hgone
      exact .wiped found hdel (Option.isNone_iff_eq_none.mp hgone)
    · exact .wipedPartly found hdel
  rename_i hdel
  have keep : a.deletedata = false := by simpa using hdel
  split
  · exact .refused
  rename_i targetFs target htarget
  split
  · exact .refused
  rename_i hpath
  have path : target.workspace.isEmpty = false := by simpa using hpath
  split
  · rename_i hnosub
    rcases w.moveOnto_cases env.outcome ⟨e.workspace.space, .deleted, a.name⟩
      target.workspace.loc with hmove | ⟨w', hren, hmove⟩
    · rw [hmove]
      exact .failed found keep rfl htarget path
    · rw [hmove]
      exact .onto found keep rfl htarget path hnosub hren rfl
  · rename_i hnosub
    rcases w.moveInto_cases env.outcome ⟨e.workspace.space, .deleted, a.name⟩
      target.workspace.loc env.now with hmove | ⟨n, n', hn, hn', hmove⟩
    · rw [hmove]
      exact .failed found keep rfl htarget path
    · rw [hmove]
      exact .into found keep rfl htarget path (by simpa using hnosub) hn hn'

/-- **Inversion** for `ws_restore`. -/
theorem wsRestore_spec (config : Config) (c : Caller) (a : RestoreArgs) (env : RestoreEnv)
    (w : World) : RestoreSpec config c a env w (wsRestore config c a env w) := by
  dsimp only [wsRestore]
  generalize hu : (if a.username.getD [] = [] then c.username else a.username.getD []) = username
  split
  · exact .refused
  rename_i hcmd
  split
  · exact .refused
  rename_i huser
  split
  · exact .refused
  rename_i hname
  rw [Bool.or_eq_true, not_or, Bool.not_eq_true', Bool.not_eq_false] at hname
  refine restore_spec (by simpa using hcmd) hname.1 ?_
  by_contra hno
  rw [not_or] at hno
  exact huser hno

end HpcWorkspace
