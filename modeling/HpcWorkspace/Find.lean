import HpcWorkspace.GroupShortcut
import HpcWorkspace.LiveWorkspaces

/-!
# `ws_find`

`ws_find`, `ws_list`, `ws_stat` and `ws_editdb` select entries in the same way: a list of
filesystems, a pattern for the names and one for the users, which ordinary callers can not choose.
`ws_find` prints the path of the first entry it can read. For a workspace name it finds what the
search loop of `ws_allocate` and `ws_release` finds first; so it prints the path that `ws_allocate`
printed, in every later state, as long as the workspace is in use.
-/

namespace HpcWorkspace

/-! ## The selection -/

/-- `userpattern`: root and admins choose a user with `-u`, or get all; others get their own. -/
def userpattern (config : Config) (c : Caller) (user : Str) : Str :=
  if c.isRoot || config.global.admins.contains c.username then (if user ≠ [] then user else ['*'])
  else c.username

/-- A name is in a listing when its file is there. -/
theorem mem_dirEntries {w : World} {fs pattern id : Str} {area : Area} : id ∈ w.dirEntries fs area pattern ↔
    (w.db.lookup ⟨fs, area, id⟩).isSome = true ∧ globMatch pattern id = true := by
  rw [World.dirEntries, List.mem_map]
  constructor
  · rintro ⟨⟨fs', area', id'⟩, hk, rfl⟩
    obtain ⟨hmem, hmatch⟩ := List.mem_filter.mp hk
    simp only [Bool.and_eq_true, beq_iff_eq] at hmatch
    obtain ⟨⟨rfl, rfl⟩, hglob⟩ := hmatch
    exact ⟨AList.lookup_isSome.mpr hmem, hglob⟩
  · rintro ⟨hsome, hglob⟩
    refine ⟨⟨fs, area, id⟩, List.mem_filter.mpr ⟨AList.lookup_isSome.mp hsome, ?_⟩, rfl⟩
    simp only [hglob, BEq.rfl, Bool.and_self]

theorem nodup_dirEntries (w : World) (fs : Str) (area : Area) (pattern : Str) :
    (w.dirEntries fs area pattern).Nodup := by
  refine (w.db.keys_nodup.filter _).map_on ?_
  rintro ⟨fs₁, area₁, id₁⟩ h₁ ⟨fs₂, area₂, id₂⟩ h₂ hid
  have hk₁ := (List.mem_filter.mp h₁).2
  have hk₂ := (List.mem_filter.mp h₂).2
  simp only [Bool.and_eq_true, beq_iff_eq] at hk₁ hk₂
  obtain ⟨⟨rfl, rfl⟩, -⟩ := hk₁
  obtain ⟨⟨rfl, rfl⟩, -⟩ := hk₂
  exact congrArg _ hid

/-- The order in which a directory is read. -/
structure DirOrder where
  /-- the names in this order -/
  order : List Str → List Str
  /-- each of them, once -/
  perm : ∀ names, (order names).Perm names

/-- As they are. -/
def DirOrder.plain : DirOrder := ⟨id, fun names => .refl names⟩

/-- The arguments of `matchPattern`, and what it reads apart from the database. -/
structure Query where
  /-- the user and group database -/
  udb : UserDb
  /-- entry files that are no YAML -/
  broken : Str → Bool
  /-- the user of the process -/
  caller : Str
  /-- the pattern for the names -/
  pattern : Str
  /-- the pattern for the users -/
  user : Str
  /-- the groups of the process -/
  groups : List Str
  /-- `deleted` -/
  area : Area
  /-- `groupworkspaces` -/
  listgroups : Bool

namespace Query

/-- `matchPattern`; `none` is an exception. -/
def matchlist (q : Query) (w : World) (fs : Str) : Option (List Str) :=
  w.matchPatternAs q.udb q.broken q.caller fs q.area q.pattern q.user q.groups q.listgroups

/-- Names and users are plain words, and no group workspaces are asked for: only one id fits. -/
structure Plain (q : Query) : Prop where
  /-- the pattern is a workspace name -/
  name : isValidWorkspaceName q.pattern = true
  /-- the user pattern is a user -/
  user : ∀ ch ∈ q.user, isLiteral ch
  /-- without `-g` -/
  own : q.listgroups = false

variable {q : Query} {w : World} {fs : Str}

theorem matchlist_of_own (h : q.listgroups = false) :
    q.matchlist w fs = some (w.matchPattern fs q.area q.pattern q.user) := by
  rw [matchlist, World.matchPatternAs, h]
  rfl

/-- The only id that fits. -/
theorem Plain.matchlist_eq (h : q.Plain) :
    q.matchlist w fs =
      some (if w.db.lookup ⟨fs, q.area, wsid q.user q.pattern⟩ = none then []
        else [wsid q.user q.pattern]) := by
  have hliteral : ∀ ch ∈ wsid q.user q.pattern, isLiteral ch := by
    intro ch hch
    rcases List.mem_append.mp hch with hch | hch
    · exact h.user ch hch
    rcases List.mem_cons.mp hch with rfl | hch
    · decide
    · exact isLiteral_of_isNameChar (isNameChar_of_mem h.name hch)
  have honly : ∀ k : DbLoc, (k.fs == fs && k.area == q.area &&
      globMatch (wsid q.user q.pattern) k.id) = true ↔ k = ⟨fs, q.area, wsid q.user q.pattern⟩ := by
    rintro ⟨fs', area, id⟩
    rw [globMatch_literal hliteral]
    simp only [Bool.and_eq_true, beq_iff_eq, decide_eq_true_eq, DbLoc.mk.injEq]
    constructor
    · rintro ⟨⟨rfl, rfl⟩, rfl⟩
      exact ⟨rfl, rfl, rfl⟩
    · rintro ⟨rfl, rfl, rfl⟩
      exact ⟨⟨rfl, rfl⟩, rfl⟩
  rw [matchlist_of_own h.own, World.matchPattern, World.dirEntries]
  congr 1
  by_cases hnone : w.db.lookup ⟨fs, q.area, wsid q.user q.pattern⟩ = none
  · rw [if_pos hnone, List.filter_eq_nil_iff.mpr]
    · rfl
    · intro k hk hpk
      rw [(honly k).mp hpk] at hk
      exact AList.lookup_eq_none.mp hnone hk
  · have hmem : (⟨fs, q.area, wsid q.user q.pattern⟩ : DbLoc) ∈ w.db.keys := by
      by_contra hnot
      exact hnone (AList.lookup_eq_none.mpr hnot)
    rw [if_neg hnone, Searches.filter_eq_singleton w.db.keys_nodup hmem honly]
    rfl

end Query

/-! ## `ws_find` -/

/-- The command line of `ws_find`; what is not given is empty. -/
structure FindArgs where
  /-- the name -/
  name : Str
  /-- `-F` -/
  filesystem : Str
  /-- `-u` -/
  user : Str
  /-- `-g` -/
  group : Bool

/-- How a call ends. -/
inductive FindResult where
  /-- no name, `exit(-4)` -/
  | noName
  /-- the filesystem can not be used, `exit(-3)` -/
  | invalidFilesystem
  /-- an exception of `matchPattern`, `exit(-2)` -/
  | failed
  /-- `exit(-1)` -/
  | notFound
  /-- the path is printed, `exit(0)` -/
  | found (path : WsPath)
  deriving DecidableEq

/-- The filesystems that are looked at; `none` is the `exit` for one that can not be used. -/
def findFslist (config : Config) (c : Caller) (filesystem : Str) : Option (List Str) :=
  let validfs := config.validFilesystems c.username c.groups .use
  if filesystem ≠ [] then (if validfs.contains filesystem then some [filesystem] else none)
  else some validfs

/-- The loop over the filesystems: one that can not be opened is passed, and so is an entry that can
not be read. -/
def findLoop (q : Query) (dir : DirOrder) (w : World) : List Str → FindResult
  | [] => .notFound
  | fs :: fslist =>
    if !w.openDB fs then findLoop q dir w fslist
    else
      match q.matchlist w fs with
      | none => .failed
      | some ids =>
        match (dir.order ids).findSome? (w.readEntry fs q.area) with
        | some e => .found e.workspace
        | none => findLoop q dir w fslist

/-- What `ws_find` asks of the databases. -/
def findQuery (config : Config) (c : Caller) (a : FindArgs) (udb : UserDb) (broken : Str → Bool) :
    Query where
  udb := udb
  broken := broken
  caller := c.username
  pattern := a.name
  user := userpattern config c a.user
  groups := c.groups
  area := .live
  listgroups := a.group

/-- `main` of `ws_find`. -/
def wsFind (config : Config) (c : Caller) (a : FindArgs) (udb : UserDb) (broken : Str → Bool)
    (dir : DirOrder) (w : World) : FindResult :=
  if a.name = [] then .noName
  else
    match findFslist config c a.filesystem with
    | none => .invalidFilesystem
    | some fslist => findLoop (findQuery config c a udb broken) dir w fslist

/-! ## What is found -/

theorem DirOrder.order_nil (dir : DirOrder) : dir.order [] = [] := (dir.perm []).eq_nil

theorem DirOrder.order_singleton (dir : DirOrder) (name : Str) : dir.order [name] = [name] :=
  List.perm_singleton.mp (dir.perm [name])

/-- The loop finds the first entry of the search loop of the other tools. -/
theorem findLoop_eq {q : Query} (h : q.Plain) (harea : q.area = .live) (dir : DirOrder) (w : World)
    (fslist : List Str) :
    findLoop q dir w fslist =
      ((findEntries w fslist (wsid q.user q.pattern)).head?.elim .notFound
        fun found => .found found.2.workspace) := by
  induction fslist with
  | nil => rfl
  | cons fs fslist ih =>
    rw [findLoop, findEntries, List.filterMap_cons]
    by_cases hopen : w.openDB fs = true
    · simp only [hopen, Bool.not_true, Bool.false_eq_true, if_false, if_true, h.matchlist_eq]
      by_cases hnone : w.db.lookup ⟨fs, q.area, wsid q.user q.pattern⟩ = none
      · -- there is no such file
        have hread : w.readEntry fs .live (wsid q.user q.pattern) = none := by
          rw [Option.eq_none_iff_forall_ne_some]
          intro e he
          rw [harea, (World.readEntry_eq_some.mp he).2] at hnone
          cases hnone
        rw [if_pos hnone, dir.order_nil, hread]
        exact ih
      · rw [if_neg hnone, dir.order_singleton, harea]
        cases hread : w.readEntry fs .live (wsid q.user q.pattern) with
        | none =>
          simp only [List.findSome?_cons, hread, List.findSome?_nil, Option.map_none]
          exact ih
        | some e =>
          simp only [List.findSome?_cons, hread, Option.map_some, List.head?_cons, Option.elim_some]
    · rw [Bool.not_eq_true] at hopen
      simp only [hopen, Bool.not_false, if_true, Bool.false_eq_true, if_false]
      exact ih

/-- **`ws_find` agrees with the other tools.** For a workspace name, without group workspaces, it
prints the path of the first entry that the search of `ws_allocate` and `ws_release` finds in the
filesystems it looks at, and reports that there is none exactly when that search finds nothing,
whatever the order in which directories are read. -/
theorem wsFind_eq_findEntries (config : Config) (c : Caller) (a : FindArgs) (udb : UserDb)
    (broken : Str → Bool) (dir : DirOrder) (w : World) (fslist : List Str)
    (hname : isValidWorkspaceName a.name = true)
    (huser : ∀ ch ∈ userpattern config c a.user, isLiteral ch) (hgroup : a.group = false)
    (hfs : findFslist config c a.filesystem = some fslist) :
    wsFind config c a udb broken dir w =
      ((findEntries w fslist (wsid (userpattern config c a.user) a.name)).head?.elim .notFound
        fun found => .found found.2.workspace) := by
  have hplain : (findQuery config c a udb broken).Plain := ⟨hname, huser, hgroup⟩
  have hne : a.name ≠ [] := by
    intro hnil
    rw [hnil] at hname
    exact absurd hname (by decide)
  rw [wsFind, if_neg hne, hfs]
  exact findLoop_eq hplain rfl dir w fslist

/-- A user database without users. -/
def noUsers : UserDb := ⟨fun _ => none, fun _ => none, fun _ _ => none⟩

/-- `bob` has made the workspace `x`. -/
theorem wsFind_eq_findEntries_bob :
    wsFind plainConfig bob ⟨['x'], [], [], false⟩ noUsers (fun _ => true) .plain
      (wsAllocate plainConfig bob (createArgs none) bobEnv .init).1 =
        .found ⟨['s'], "bob-x".toList⟩ :=
  (wsFind_eq_findEntries plainConfig bob ⟨['x'], [], [], false⟩ noUsers (fun _ => true) .plain
    (wsAllocate plainConfig bob (createArgs none) bobEnv .init).1 [['w']] (by decide)
    (List.all_eq_true.mp (by decide)) rfl (by decide)).trans (by decide)

/-! ## Databases that are open stay open -/

section Magic

variable {config : Config} {w w' : World}

@[simp] theorem moveDir_magic (w : World) (outcome : Outcome) (k k' : DirLoc) (now : ℤ) :
    (w.moveDir outcome k k' now).1.magic = w.magic := by
  cases outcome with
  | ok =>
    dsimp only [World.moveDir]
    split
    · rename_i w' hren
      obtain ⟨-, rfl⟩ := World.renameDir_eq_some hren
      rfl
    · rfl
  | fails => rfl
  | partly =>
    dsimp only [World.moveDir]
    split <;> rfl

@[simp] theorem rmtree_magic (w : World) (outcome : Outcome) (k : DirLoc) :
    (w.rmtree outcome k).magic = w.magic := by
  cases outcome <;> rfl

@[simp] theorem renameEntry_magic (w : World) (k k' : DbLoc) :
    (w.renameEntry k k').magic = w.magic := by
  unfold World.renameEntry
  split <;> rfl

theorem wsAllocate_magic (c : Caller) (a : AllocArgs) (env : AllocEnv) (w : World) :
    (wsAllocate config c a env w).1.magic = w.magic := by
  have hspec := wsAllocate_spec config c a env w
  generalize wsAllocate config c a env w = out at hspec ⊢
  cases hspec with
  | refused | reused | extended => rfl
  | creates checks create missing first configured allocatable opened =>
    rename_i user_option fs rest fsconfig
    have hmade := createWorkspace_spec config c a user_option env w fs fsconfig
    generalize createWorkspace config c a user_option env w fs fsconfig = out at hmade ⊢
    cases hmade <;> rfl

theorem wsRelease_magic (c : Caller) (a : ReleaseArgs) (env : ReleaseEnv) (w : World) :
    (wsRelease config c a env w).1.magic = w.magic := by
  have hrelease : ∀ (fs id : Str) (e : DBEntry) (released timestamp : ℤ),
      (DBEntry.release w fs id e released timestamp).magic = w.magic := fun fs id e released ts =>
    renameEntry_magic ..
  have hspec := wsRelease_spec config c a env w
  generalize wsRelease config c a env w = out at hspec ⊢
  cases hspec with
  | refused => rfl
  | deleted => exact (rmtree_magic ..).trans (hrelease ..)
  | released commandline found hid htimestamp keep move =>
    obtain rfl := congrArg Prod.fst move
    exact (moveDir_magic ..).trans (hrelease ..)

theorem wsRestore_magic (c : Caller) (a : RestoreArgs) (env : RestoreEnv) (w : World) :
    (wsRestore config c a env w).1.magic = w.magic := by
  have hspec := wsRestore_spec config c a env w
  generalize wsRestore config c a env w = out at hspec ⊢
  cases hspec with
  | refused | failed | into => rfl
  | wiped | wipedPartly => exact rmtree_magic ..
  | onto found keep hid htarget path nosub move group =>
    obtain ⟨-, rfl⟩ := World.renameDir_eq_some move
    rw [group]
    split <;> rfl

theorem callStep_magic {x x' : Expirer} {t : Tick} {removal : Option Removal}
    (h : x.callStep config t w = some (w', x', removal)) : w'.magic = w.magic := by
  have hspec := Expirer.callStep_spec h
  cases hspec with
  | moveStray | moveExpired => exact moveDir_magic ..
  | removeStray | deleteDir => exact rmtree_magic ..
  | expired => exact renameEntry_magic ..
  | _ => rfl

/-- No step touches a magic file. -/
theorem magic_of_step {s s' : System} {act : Action} (h : s.step config act = some s') :
    s'.world.magic = s.world.magic := by
  cases act with
  | allocate c a env =>
    dsimp only [System.step] at h
    split at h
    · obtain rfl := Option.some.inj h
      exact wsAllocate_magic c a env s.world
    · cases h
  | release c a env =>
    dsimp only [System.step] at h
    split at h
    · obtain rfl := Option.some.inj h
      exact wsRelease_magic c a env s.world
    · cases h
  | restore c a env =>
    dsimp only [System.step] at h
    split at h
    · obtain rfl := Option.some.inj h
      exact wsRestore_magic c a env s.world
    · cases h
  | work =>
    obtain rfl := Option.some.inj h
    rfl
  | expirer fslist single_space =>
    dsimp only [System.step] at h
    split at h
    · obtain rfl := Option.some.inj h
      rfl
    · cases h
  | tick t =>
    dsimp only [System.step] at h
    split at h
    · split at h
      · cases h
      · rename_i w x removal hstep
        obtain rfl := Option.some.inj h
        exact callStep_magic hstep
    · cases h

theorem openDB_of_run {s s' : System} {acts : List Action}
    (h : Runs.exec (System.step config) s acts = some s') (fs : Str) :
    s'.world.openDB fs = s.world.openDB fs := by
  have hmagic : s'.world.magic = s.world.magic :=
    Runs.exec_invariant (fun t act t' ht hstep => (magic_of_step hstep).trans ht) rfl h
  rw [World.openDB, World.openDB, hmagic]

end Magic

/-! ## The path of a workspace -/

/-- The directory of a new workspace is there. -/
theorem Creation.dir {config : Config} {c : Caller} {a : AllocArgs} {env : AllocEnv} {w w' : World}
    {fs id user_option : Str} {e : DBEntry} {fsconfig : FilesystemConfig} {tuid : ℕ}
    (h : Creation config c a env w w' fs id e user_option fsconfig tuid) :
    ∃ n, w'.dirs.find e.workspace.loc = some n := by
  obtain ⟨n, hn, -⟩ := find_makeDir_self w.dirs e.workspace.loc env.now
  rw [h.world, World.writeEntry_dirs, World.chown_dirs, World.mkdir_dirs, find_chownDir_self, hn]
  exact ⟨_, rfl⟩

/-- **The path of a workspace.** When `ws_allocate` has created a workspace for an ordinary user,
`ws_find` with its name and filesystem prints that path in every later state of every run of
ordinary users and the expirer, until a step of the run ends the use of the workspace. -/
theorem wsFind_after_run (config : Config) (hdisjoint : SpacesDisjoint config) (clock : ℤ)
    (before after : List Action) (hbefore : ∀ act ∈ before, act.Ordinary) (s s₁ s₂ : System)
    (hreach : Runs.exec (System.step config) (.init clock) before = some s) (c : Caller)
    (hc : c.NonRoot) (a : AllocArgs) (env : AllocEnv) (fs id : Str) (e : DBEntry)
    (hstep : s.step config (.allocate c a env) = some s₁)
    (hcreated : (wsAllocate config c a env s.world).2 = .created fs id e)
    (hrun : Runs.exec (System.step config) s₁ after = some s₂)
    (hkeep : Runs.Meets (System.step config)
      (fun s act => act.Ordinary ∧ ¬Ends config s fs id act) s₁ after)
    (hadmin : config.global.admins.contains c.username = false)
    (hliteral : ∀ ch ∈ c.username, isLiteral ch) (hfs : fs ≠ [])
    (huse : fs ∈ config.validFilesystems c.username c.groups .use) (user : Str) (udb : UserDb)
    (broken : Str → Bool) (dir : DirOrder) :
    wsFind config c ⟨a.name, fs, user, false⟩ udb broken dir s₂.world = .found e.workspace := by
  -- what was created
  obtain ⟨w₁, hout⟩ : ∃ w₁, wsAllocate config c a env s.world = (w₁, .created fs id e) :=
    ⟨_, Prod.ext rfl hcreated⟩
  obtain ⟨user_option, fsconfig, tuid, made⟩ := creation_of_created hout
  have hworld : s₁.world = w₁ := by
    dsimp only [System.step] at hstep
    split at hstep
    · rw [← Option.some.inj hstep, hout]
    · cases hstep
  obtain ⟨n, hn⟩ := made.dir
  have hlook := (World.readEntry_eq_some.mp made.readEntry).2
  rw [← hworld] at hn hlook
  -- and is still there
  have hreach₁ : Runs.exec (System.step config) (.init clock)
      (before ++ [.allocate c a env]) = some s₁ := by
    rw [Runs.exec_append, hreach, Option.bind_some, Runs.exec_cons, hstep]
    rfl
  have hbefore₁ : ∀ act ∈ before ++ [.allocate c a env], act.Ordinary := by
    intro act hact
    rcases List.mem_append.mp hact with hact | hact
    · exact hbefore act hact
    · rw [List.mem_singleton.mp hact]
      exact hc
  obtain ⟨e', -, hlook', hversion, -⟩ := live_workspaces_stay config hdisjoint clock
    (before ++ [.allocate c a env]) after hbefore₁ s₁ s₂ hreach₁ hrun fs id e.persisted n hlook hn
    hkeep
  have hopen : s₂.world.openDB fs = true := by
    rw [openDB_of_run hrun, hworld, made.openDB]
    exact made.opened
  have hpattern : userpattern config c user = c.username := by
    rw [userpattern, isRoot_of_nonRoot hc, hadmin]
    rfl
  have hlist : findFslist config c fs = some [fs] := by
    rw [findFslist, if_pos hfs, if_pos (List.contains_iff_mem.mpr huse)]
  have hname := (allocCommandline_eq_some.mp made.checks.commandline).1
  rw [wsFind_eq_findEntries config c ⟨a.name, fs, user, false⟩ udb broken dir s₂.world [fs] hname
    (hpattern ▸ hliteral) rfl hlist, hpattern, ← made.id_eq]
  have hfound : findEntries s₂.world [fs] id = [(fs, e')] :=
    findEntries_eq_singleton (List.nodup_singleton fs) (List.mem_singleton_self fs) hopen
      (World.readEntry_eq_some.mpr ⟨made.valid, hlook'⟩)
      fun fs' hfs' hne => absurd (List.mem_singleton.mp hfs') hne
  rw [hfound]
  exact congrArg FindResult.found hversion.workspace

set_option maxRecDepth 4000 in
/-- `bob` finds his workspace when another user has come and gone. -/
theorem wsFind_after_run_bob : ∃ s s' e,
    Runs.exec (System.step plainConfig) (.init 0) [.allocate bob (createArgs none) bobEnv] = some s ∧
      Runs.exec (System.step plainConfig) s neighbour = some s' ∧
      wsFind plainConfig bob ⟨['x'], ['w'], [], false⟩ noUsers (fun _ => true) .plain s'.world =
        .found e := by
  refine ⟨_, _, _, rfl, rfl, wsFind_after_run plainConfig (spacesDisjoint_single _ _) 0 [] neighbour
    (fun act hact => absurd hact List.not_mem_nil) _ _ _ rfl bob ⟨by decide, by decide⟩
    (createArgs none) bobEnv ['w'] "bob-x".toList _ rfl rfl rfl ?_ rfl
    (List.all_eq_true.mp (by decide)) (by decide) (by decide) [] noUsers (fun _ => true) .plain⟩
  refine .cons ⟨⟨by decide, by decide⟩, fun h => by cases h⟩ rfl <|
    .cons ⟨⟨by decide, by decide⟩, fun h => ?_⟩ rfl trivial
  cases h with
  | released own => exact absurd own (by decide)
  | deleted own => exact absurd own (by decide)

end HpcWorkspace
