import HpcWorkspace.FoundAgain
import HpcWorkspace.RestoreOwn

/-!
# What a restore leaves behind

`ws_restore` finds the deleted entry and the live entry of the target with two searches, which may
end in different filesystems. After the move it removes the deleted entry, but from the database
in which it found the *target*. When that is not the database of the source, the entry stays
although its directory is gone.

The directory itself goes to a place that the `World` does not show: below the directory of the
target. A finer tree has these places as well; at the top level it agrees with the world.
-/

namespace HpcWorkspace

/-! ## Directories in directories -/

/-- Where a directory can be. -/
inductive Place where
  /-- in an area of a space -/
  | top (k : DirLoc)
  /-- in another directory, under a name -/
  | within (outer : ℕ) (name : Str)
  deriving DecidableEq

/-- A world and a tree of the same directories that also has places below them. -/
structure Disk where
  /-- what the tools see -/
  world : World
  /-- all directories -/
  tree : DirTree Place Dir
  /-- both agree at the top level -/
  shows : ∀ k, tree.find (.top k) = world.dirs.find k

/-- The place of a deleted workspace. -/
def deletedPlace (e : DBEntry) (name : Str) : Place := .top ⟨e.workspace.space, .deleted, name⟩

/-- The move of `restore` in the finer tree: onto the directory of the target, or into it under
the name of the deleted workspace. -/
def treeAfter (config : Config) (name : Str) (now : ℤ) (tree : DirTree Place Dir) :
    RestoreResult → DirTree Place Dir
  | .restored _ e _ _ target true =>
    if config.global.restorenosub then
      tree.move (deletedPlace e name) (.top target.workspace.loc)
    else
      match tree.find (.top target.workspace.loc) with
      | none => tree
      | some outer =>
        (tree.modify (.top target.workspace.loc) fun d => { d with mtime := now, isEmpty := false }).move
          (deletedPlace e name) (.within outer.inode name)
  | _ => tree

variable {config : Config} {c : Caller} {a : RestoreArgs} {env : RestoreEnv}

/-- A deleted directory is not where a live one is. -/
theorem deletedPlace_ne (e : DBEntry) (name : Str) (p : WsPath) :
    deletedPlace e name ≠ .top p.loc := by
  intro h
  have harea := congrArg DirLoc.area (Place.top.inj h)
  cases harea

theorem top_ne_deletedPlace {k : DirLoc} {e : DBEntry} {name : Str}
    (h : k ≠ ⟨e.workspace.space, .deleted, name⟩) : Place.top k ≠ deletedPlace e name :=
  fun heq => h (Place.top.inj heq)

/-- **Refinement**: the finer tree keeps showing what the world shows, through every call that
does not delete data. -/
theorem shows_restore (d : Disk) (keep : a.deletedata = false) (k : DirLoc) :
    (treeAfter config a.name env.now d.tree (wsRestore config c a env d.world).2).find (.top k) =
      (wsRestore config c a env d.world).1.dirs.find k := by
  have hspec := wsRestore_spec config c a env d.world
  generalize wsRestore config c a env d.world = out at hspec ⊢
  cases hspec with
  | refused => exact d.shows k
  | wiped found deletedata => rw [keep] at deletedata; cases deletedata
  | wipedPartly found deletedata => rw [keep] at deletedata; cases deletedata
  | failed => exact d.shows k
  | @onto username fs targetFs targetId fslist e target w' w'' found _ _ _ _ nosub move group =>
    obtain ⟨⟨n, hn⟩, rfl⟩ := World.renameDir_eq_some move
    have hdirs : w''.dirs =
        d.world.dirs.move ⟨e.workspace.space, .deleted, a.name⟩ target.workspace.loc := by
      rw [group]
      split <;> rfl
    simp only [treeAfter, nosub, if_true, World.removeEntry_dirs, hdirs]
    have hn' : d.tree.find (deletedPlace e a.name) = some n := (d.shows _).trans hn
    by_cases hto : k = target.workspace.loc
    · subst hto
      rw [DirTree.find_move_to hn, DirTree.find_move_to hn']
    · have hto' : Place.top k ≠ .top target.workspace.loc := fun h => hto (Place.top.inj h)
      by_cases hfrom : k = ⟨e.workspace.space, .deleted, a.name⟩
      · subst hfrom
        rw [DirTree.find_move_from hto]
        exact DirTree.find_move_from hto'
      · rw [DirTree.find_move_ne hfrom hto, DirTree.find_move_ne (top_ne_deletedPlace hfrom) hto',
          d.shows]
  | @into username fs targetFs targetId fslist e target n n' found _ _ _ _ sub source directory =>
    have hn : d.tree.find (deletedPlace e a.name) = some n := (d.shows _).trans source
    have hn' : d.tree.find (.top target.workspace.loc) = some n' := (d.shows _).trans directory
    simp only [treeAfter, sub, hn', Bool.false_eq_true, if_false, World.removeEntry_dirs]
    by_cases hfrom : k = ⟨e.workspace.space, .deleted, a.name⟩
    · subst hfrom
      have hne : deletedPlace e a.name ≠ .within n'.inode a.name := by simp [deletedPlace]
      rw [World.removeDir, DirTree.find_remove_self]
      exact DirTree.find_move_from hne
    · rw [World.find_removeDir_ne hfrom,
        DirTree.find_move_ne (top_ne_deletedPlace hfrom) (by simp)]
      by_cases htarget : k = target.workspace.loc
      · subst htarget
        rw [DirTree.find_modify_self, d.shows, World.touch, DirTree.find_modify_self]
      · rw [DirTree.find_modify_ne _ fun h => htarget (Place.top.inj h),
          World.find_touch_ne htarget, d.shows]

/-! ## Exactly the entry of the source -/

/-- Where the restored directory belongs. -/
def TargetPlace (config : Config) (name : Str) (tree : DirTree Place Dir) (target : DBEntry)
    (p : Place) : Prop :=
  if config.global.restorenosub then p = .top target.workspace.loc
  else ∃ outer, tree.find (.top target.workspace.loc) = some outer ∧ p = .within outer.inode name

/-- A restore of the entry `e` of the filesystem `fs` to `target` has removed this entry and no
other one, and the directory is at the place it belongs to and nowhere else. -/
structure RestoredExactly (config : Config) (name : Str) (d : Disk) (w' : World)
    (tree' : DirTree Place Dir) (fs : Str) (e target : DBEntry) : Prop where
  /-- the entry is gone -/
  removed : w'.db.lookup ⟨fs, .deleted, name⟩ = none
  /-- the other deleted entries are as they were -/
  others : ∀ k : DbLoc, k.area = .deleted → k ≠ ⟨fs, .deleted, name⟩ →
    w'.db.lookup k = d.world.db.lookup k
  /-- the directory that was in the deleted area is at the target, and only there -/
  once : ∃ n p, d.tree.find (deletedPlace e name) = some n ∧
    TargetPlace config name tree' target p ∧
    ∀ p', (∃ n', tree'.find p' = some n' ∧ n'.inode = n.inode) ↔ p' = p
  /-- it is no longer in the deleted area -/
  gone : w'.dirs.find ⟨e.workspace.space, .deleted, name⟩ = none
  /-- and the world shows the same -/
  shows : ∀ k, tree'.find (.top k) = w'.dirs.find k

/-- The user a call works for. -/
def restoreUser (c : Caller) (a : RestoreArgs) : Str :=
  if a.username.getD [] = [] then c.username else a.username.getD []

/-- The first of the searched filesystems that has the target is the one with the source. -/
def SameFilesystem (config : Config) (c : Caller) (a : RestoreArgs) (w : World) : Prop :=
  ∀ fslist fs e targetFs target,
    restoreFslist config c (restoreUser c a) a.filesystem = some fslist →
    restoreSource config w fslist a.name (restoreUser c a) = some (fs, e) →
    restoreTarget w fslist (wsid (restoreUser c a) (a.target.getD [])) = some (targetFs, target) →
    targetFs = fs

/-- What a call reports as source and target are what the searches of its user find. -/
theorem found_of_restored {w : World} {fs targetFs targetId : Str} {e target : DBEntry}
    {moved : Bool}
    (h : (wsRestore config c a env w).2 = .restored fs e targetFs targetId target moved) :
    ∃ fslist, restoreFslist config c (restoreUser c a) a.filesystem = some fslist ∧
      restoreSource config w fslist a.name (restoreUser c a) = some (fs, e) ∧
      restoreTarget w fslist (wsid (restoreUser c a) (a.target.getD [])) =
        some (targetFs, target) := by
  have hcall : wsRestore config c a env w = restore config c a (restoreUser c a) env w := by
    have hdef : wsRestore config c a env w =
        if !restoreCommandline a then (w, .refused)
        else if restoreUser c a ≠ c.username ∧ c.username ≠ "root".toList then (w, .refused)
        else if !checkName a.name c.username || !env.human then (w, .refused)
        else restore config c a (restoreUser c a) env w := rfl
    rw [hdef] at h ⊢
    split at h
    · cases h
    · split at h
      · cases h
      · split at h
        · cases h
        · rename_i hcmd huser hname
          rw [if_neg hcmd, if_neg huser, if_neg hname]
  rw [hcall] at h
  dsimp only [restore] at h
  split at h
  · cases h
  rename_i fslist hlist
  split at h
  · cases h
  rename_i fs' e' hsource
  split at h
  · split at h <;> cases h
  split at h
  · cases h
  rename_i targetFs' target' htarget
  split at h
  · cases h
  have hsame : fs' = fs ∧ e' = e ∧ targetFs' = targetFs ∧ target' = target := by
    split at h <;> split at h <;> cases h <;> exact ⟨rfl, rfl, rfl, rfl⟩
  obtain ⟨rfl, rfl, rfl, rfl⟩ := hsame
  exact ⟨fslist, hlist, hsource, htarget⟩

/-- The condition says what the searches of a call must have found. -/
theorem sameFilesystem_iff {w : World} {fs targetFs targetId : Str} {e target : DBEntry}
    {moved : Bool}
    (h : (wsRestore config c a env w).2 = .restored fs e targetFs targetId target moved) :
    SameFilesystem config c a w ↔ targetFs = fs := by
  obtain ⟨fslist, hlist, hsource, htarget⟩ := found_of_restored h
  constructor
  · intro hsame
    exact hsame _ _ _ _ _ hlist hsource htarget
  · rintro rfl fslist' fs' e' targetFs' target' hlist' hsource' htarget'
    obtain rfl := Option.some.inj (hlist.symm.trans hlist')
    obtain ⟨rfl, -⟩ := Prod.mk.inj (Option.some.inj (hsource.symm.trans hsource'))
    obtain ⟨rfl, -⟩ := Prod.mk.inj (Option.some.inj (htarget.symm.trans htarget'))
    rfl

/-- The entries after a successful restore: one less in the database of the target. -/
theorem db_of_restored {w : World} {fs targetFs targetId : Str} {e target : DBEntry}
    (h : (wsRestore config c a env w).2 = .restored fs e targetFs targetId target true)
    {k : DbLoc} (hk : k.area = .deleted) :
    (wsRestore config c a env w).1.db.lookup k =
      if k = ⟨targetFs, .deleted, a.name⟩ then none else w.db.lookup k := by
  have hspec := wsRestore_spec config c a env w
  generalize wsRestore config c a env w = out at hspec h ⊢
  cases hspec with
  | refused => cases h
  | wiped => cases h
  | wipedPartly => cases h
  | failed => cases h
  | onto found _ _ _ _ nosub move group =>
    cases h
    obtain ⟨-, rfl⟩ := World.renameDir_eq_some move
    split
    · rename_i heq
      subst heq
      exact World.lookup_removeEntry ..
    · rename_i hne
      rw [World.lookup_removeEntry_ne hne, group]
      split
      · refine World.lookup_writeEntry_ne _ ?_
        rintro rfl
        cases hk
      · rfl
  | into =>
    cases h
    split
    · rename_i heq
      subst heq
      exact World.lookup_removeEntry ..
    · rename_i hne
      rw [World.lookup_removeEntry_ne hne]
      rfl

/-- The directory after a successful restore. -/
theorem place_of_restored (d : Disk) {fs targetFs targetId : Str} {e target : DBEntry}
    (h : (wsRestore config c a env d.world).2 = .restored fs e targetFs targetId target true) :
    ∃ n p, d.tree.find (deletedPlace e a.name) = some n ∧
      TargetPlace config a.name
        (treeAfter config a.name env.now d.tree (wsRestore config c a env d.world).2) target p ∧
      (treeAfter config a.name env.now d.tree (wsRestore config c a env d.world).2).find p =
        some n := by
  have hspec := wsRestore_spec config c a env d.world
  generalize wsRestore config c a env d.world = out at hspec h ⊢
  cases hspec with
  | refused => cases h
  | wiped => cases h
  | wipedPartly => cases h
  | failed => cases h
  | onto found _ _ _ _ nosub move group =>
    cases h
    obtain ⟨⟨n, hn⟩, rfl⟩ := World.renameDir_eq_some move
    have hn' : d.tree.find (deletedPlace e a.name) = some n := (d.shows _).trans hn
    simp only [treeAfter, nosub, if_true, TargetPlace]
    exact ⟨n, _, hn', rfl, DirTree.find_move_to hn'⟩
  | @into _ _ _ _ _ _ _ n outer found _ _ _ _ sub source directory =>
    cases h
    have hn : d.tree.find (deletedPlace e a.name) = some n := (d.shows _).trans source
    have houter : d.tree.find (.top target.workspace.loc) = some outer := (d.shows _).trans directory
    simp only [treeAfter, sub, houter, Bool.false_eq_true, if_false, TargetPlace]
    refine ⟨n, _, hn, ⟨⟨outer.inode, { outer.attr with mtime := env.now, isEmpty := false }⟩,
      ?_, rfl⟩, DirTree.find_move_to ?_⟩
    · rw [DirTree.find_move_ne (deletedPlace_ne e a.name _).symm (by simp),
        DirTree.find_modify_self, houter]
      rfl
    · rw [DirTree.find_modify_ne _ (deletedPlace_ne e a.name _), hn]

/-- A successful restore was not asked to delete the data, and the deleted area no longer has the
directory. -/
theorem gone_of_restored {w : World} {fs targetFs targetId : Str} {e target : DBEntry}
    (h : (wsRestore config c a env w).2 = .restored fs e targetFs targetId target true) :
    a.deletedata = false ∧
      (wsRestore config c a env w).1.dirs.find ⟨e.workspace.space, .deleted, a.name⟩ = none := by
  have hspec := wsRestore_spec config c a env w
  generalize wsRestore config c a env w = out at hspec h ⊢
  cases hspec with
  | refused => cases h
  | wiped => cases h
  | wipedPartly => cases h
  | failed => cases h
  | onto found keep _ _ _ _ move group =>
    cases h
    obtain ⟨-, rfl⟩ := World.renameDir_eq_some move
    refine ⟨keep, ?_⟩
    have hne : (⟨e.workspace.space, .deleted, a.name⟩ : DirLoc) ≠ target.workspace.loc := by
      intro heq
      cases congrArg DirLoc.area heq
    rw [World.removeEntry_dirs, group]
    split <;> exact DirTree.find_move_from hne
  | into found keep =>
    cases h
    exact ⟨keep, DirTree.find_remove_self ..⟩

/-- **Restoring exactly one entry.** A successful restore removes the entry it restored, and no
other one, exactly when source and target are found in the same filesystem. -/
theorem restored_exactly_iff (config : Config) (c : Caller) (a : RestoreArgs) (env : RestoreEnv)
    (d : Disk) {fs targetFs targetId : Str} {e target : DBEntry}
    (h : (wsRestore config c a env d.world).2 = .restored fs e targetFs targetId target true) :
    RestoredExactly config a.name d (wsRestore config c a env d.world).1
        (treeAfter config a.name env.now d.tree (wsRestore config c a env d.world).2) fs e target ↔
      SameFilesystem config c a d.world := by
  rw [sameFilesystem_iff h]
  constructor
  · intro hexact
    obtain ⟨fslist, -, hsource, -⟩ := found_of_restored h
    obtain ⟨-, -, hread, -⟩ := restoreSource_eq_some hsource
    have hremoved := hexact.removed
    rw [db_of_restored h rfl] at hremoved
    split at hremoved
    · rename_i heq
      exact (congrArg DbLoc.fs heq).symm
    · rw [(World.readEntry_eq_some.mp hread).2] at hremoved
      cases hremoved
  · rintro rfl
    obtain ⟨n, p, hn, hp, hfind⟩ := place_of_restored d h
    obtain ⟨keep, hgone⟩ := gone_of_restored h
    refine ⟨?_, ?_, ⟨n, p, hn, hp, ?_⟩, hgone, shows_restore d keep⟩
    · rw [db_of_restored h rfl, if_pos rfl]
    · intro k hk hne
      rw [db_of_restored h hk, if_neg hne]
    · intro p'
      constructor
      · rintro ⟨n', hn', hinode⟩
        exact DirTree.find_inj hn' hfind hinode
      · rintro rfl
        exact ⟨n, hfind, rfl⟩

/-! ## Two filesystems -/

/-- Two filesystems with a space each. -/
def twoFilesystems : Config where
  global := plainConfig.global
  filesystems := [(['v'], .ofSpaces ['r'] []), (['w'], .ofSpaces ['s'] [])]
  sorted := by decide

/-- An entry of `bob` for a directory. -/
def bobsEntry (workspace : WsPath) (released : ℤ) : DBEntry where
  username := bob.username
  workspace := workspace
  creation := 0
  expiration := 1000
  reminder := 0
  extensions := 0
  groupflag := false
  group := []
  mailaddress := []
  comment := []
  released := released
  expired := 0
  acctcode := []

/-- A new directory is at the top level of both trees. -/
theorem shows_create {tree : DirTree Place Dir} {dirs : DirTree DirLoc Dir}
    (hnext : tree.next = dirs.next) (h : ∀ k, tree.find (.top k) = dirs.find k) (k₀ : DirLoc)
    (dir : Dir) (k : DirLoc) : (tree.create (.top k₀) dir).find (.top k) = (dirs.create k₀ dir).find k := by
  by_cases hk : k = k₀
  · subst hk
    rw [DirTree.find_create_self, DirTree.find_create_self, hnext]
  · rw [DirTree.find_create_ne _ hk, DirTree.find_create_ne _ fun heq => hk (Place.top.inj heq), h]

/-- `bob` has released `x` in `w`; his workspace `y` is in the filesystem `fs`. -/
def releasedDisk (fs space : Str) : Disk where
  world :=
    { db := ((∅ : AList fun _ : DbLoc => DbFile).insert ⟨['w'], .deleted, "bob-x-100".toList⟩
          (.entry (bobsEntry ⟨['s'], "bob-x".toList⟩ 100))).insert ⟨fs, .live, "bob-y".toList⟩
        (.entry (bobsEntry ⟨space, "bob-y".toList⟩ 0))
      dirs := (DirTree.empty.create ⟨['s'], .deleted, "bob-x-100".toList⟩ ⟨50, false, 1000⟩).create
        ⟨space, .live, "bob-y".toList⟩ ⟨60, true, 1000⟩
      magic := some }
  tree := (DirTree.empty.create (.top ⟨['s'], .deleted, "bob-x-100".toList⟩) ⟨50, false, 1000⟩).create
    (.top ⟨space, .live, "bob-y".toList⟩) ⟨60, true, 1000⟩
  shows := shows_create rfl (shows_create rfl (fun _ => rfl) _ _) _ _

/-- `ws_restore bob-x-100 y` -/
def restoreArgs : RestoreArgs := ⟨"bob-x-100".toList, some ['y'], none, none, false⟩

/-- In one filesystem the restore does what it should. -/
theorem restored_exactly_oneFilesystem :
    RestoredExactly twoFilesystems restoreArgs.name (releasedDisk ['w'] ['s'])
      (wsRestore twoFilesystems bob restoreArgs ⟨200, true, .ok⟩ (releasedDisk ['w'] ['s']).world).1
      (treeAfter twoFilesystems restoreArgs.name 200 (releasedDisk ['w'] ['s']).tree
        (wsRestore twoFilesystems bob restoreArgs ⟨200, true, .ok⟩
          (releasedDisk ['w'] ['s']).world).2)
      ['w'] (bobsEntry ⟨['s'], "bob-x".toList⟩ 100) (bobsEntry ⟨['s'], "bob-y".toList⟩ 0) := by
  have h : (wsRestore twoFilesystems bob restoreArgs ⟨200, true, .ok⟩
      (releasedDisk ['w'] ['s']).world).2 = .restored ['w'] (bobsEntry ⟨['s'], "bob-x".toList⟩ 100)
        ['w'] "bob-y".toList (bobsEntry ⟨['s'], "bob-y".toList⟩ 0) true := by rfl
  exact (restored_exactly_iff twoFilesystems bob restoreArgs ⟨200, true, .ok⟩
    (releasedDisk ['w'] ['s']) h).mpr ((sameFilesystem_iff h).mpr rfl)

/-- With the target in the other filesystem the entry stays, and its directory is gone. -/
theorem not_restored_exactly :
    ¬∀ (config : Config) (c : Caller) (a : RestoreArgs) (env : RestoreEnv) (d : Disk)
      (fs targetFs targetId : Str) (e target : DBEntry),
      (wsRestore config c a env d.world).2 = .restored fs e targetFs targetId target true →
        RestoredExactly config a.name d (wsRestore config c a env d.world).1
          (treeAfter config a.name env.now d.tree (wsRestore config c a env d.world).2) fs e
          target := by
  intro h
  have hexact := h twoFilesystems bob restoreArgs ⟨200, true, .ok⟩ (releasedDisk ['v'] ['r']) ['w']
    ['v'] "bob-y".toList (bobsEntry ⟨['s'], "bob-x".toList⟩ 100)
    (bobsEntry ⟨['r'], "bob-y".toList⟩ 0) rfl
  have hstays : (wsRestore twoFilesystems bob restoreArgs ⟨200, true, .ok⟩
      (releasedDisk ['v'] ['r']).world).1.db.lookup ⟨['w'], .deleted, "bob-x-100".toList⟩ =
        some (.entry (bobsEntry ⟨['s'], "bob-x".toList⟩ 100)) := by rfl
  cases hexact.removed.symm.trans hstays

end HpcWorkspace
