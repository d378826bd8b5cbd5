import HpcWorkspace.Retention

/-!
# Live workspaces

A workspace in use stays where it is: as long as its entry is in the live area, the entry names the
same directory, and the directory under that name is the same one. It takes a release of its user,
a restore onto it or the end of its time to change that, whatever other users, other workspaces and
the expirer do, and however their system calls end.
-/

namespace HpcWorkspace

variable {config : Config} {s s' : System} {w w' : World} {fs id : Str} {e : DBEntry} {i : ℕ}

/-! ## The property -/

/-- The directory at a place is a certain one. -/
def World.HasDir (w : World) (k : DirLoc) (i : ℕ) : Prop := ∃ n, w.dirs.find k = some n ∧ n.inode = i

/-- The live entry `id` is a version of `e`, and its directory is `i`. -/
structure InUse (w : World) (fs id : Str) (e : DBEntry) (i : ℕ) : Prop where
  /-- the entry -/
  entry : ∃ e', w.db.lookup ⟨fs, .live, id⟩ = some (.entry e') ∧ SameWorkspace e e'
  /-- the directory -/
  dir : w.HasDir e.workspace.loc i

/-- The steps that end the use of a workspace, or replace its directory. -/
inductive Ends (config : Config) (s : System) (fs id : Str) : Action → Prop where
  /-- its user releases it -/
  | released {c : Caller} {a : ReleaseArgs} {env : ReleaseEnv} {e : DBEntry} {timestamp : ℤ}
      {moved : Bool} (own : id = wsid c.username a.name)
      (result : (wsRelease config c a env s.world).2 = .released fs id e timestamp moved) :
      Ends config s fs id (.release c a env)
  /-- its user releases it and deletes its data -/
  | deleted {c : Caller} {a : ReleaseArgs} {env : ReleaseEnv} {e : DBEntry}
      (own : id = wsid c.username a.name)
      (result : (wsRelease config c a env s.world).2 = .deleted fs id e) :
      Ends config s fs id (.release c a env)
  /-- its user restores another workspace onto its directory, which is empty -/
  | replaced {c : Caller} {a : RestoreArgs} {env : RestoreEnv} {fs' : Str} {e target : DBEntry}
      (own : id = wsid c.username (a.target.getD [])) (nosub : config.global.restorenosub = true)
      (empty : s.world.mayReplace target.workspace.loc = true)
      (result : (wsRestore config c a env s.world).2 = .restored fs' e fs id target true) :
      Ends config s fs id (.restore c a env)
  /-- the expirer finds that it is over its time -/
  | expired {t : Tick} {ids : List Str} {e : DBEntry}
      (pc : s.expirer.pc = .expireEntries fs (id :: ids))
      (entry : s.world.readEntry fs .live id = some e)
      (late : 0 < e.expiration ∧ e.expiration < t.now) : Ends config s fs id (.tick t)

/-! ## Directories that stay -/

namespace World.HasDir

variable {k k' : DirLoc}

theorem congr (h : w.HasDir k i) (hdir : w'.dirs.find k = w.dirs.find k) : w'.HasDir k i := by
  obtain ⟨n, hn, hinode⟩ := h
  exact ⟨n, hdir.trans hn, hinode⟩

/-- A change of attributes leaves it. -/
theorem modify (h : w.HasDir k i) {f : Dir → Dir} (hdirs : w'.dirs = w.dirs.modify k' f) :
    w'.HasDir k i := by
  obtain ⟨n, hn, hinode⟩ := h
  by_cases hk : k = k'
  · subst hk
    refine ⟨⟨n.inode, f n.attr⟩, ?_, hinode⟩
    rw [hdirs, DirTree.find_modify_self, hn]
    rfl
  · refine ⟨n, ?_, hinode⟩
    rw [hdirs, DirTree.find_modify_ne f hk]
    exact hn

theorem touch (h : w.HasDir k i) (k' : DirLoc) (mtime : ℤ) (isEmpty : Bool) :
    (w.touch k' mtime isEmpty).HasDir k i := by
  exact h.modify (f := fun d => { d with mtime := mtime, isEmpty := isEmpty }) rfl

theorem chown (h : w.HasDir k i) (k' : DirLoc) (uid : ℕ) : (w.chown k' uid).HasDir k i := by
  exact h.modify (f := fun d => { d with uid := uid }) rfl

/-- A directory that is there is not made anew. -/
theorem mkdir (h : w.HasDir k i) (k' : DirLoc) (now : ℤ) : (w.mkdir k' now).HasDir k i := by
  by_cases hk : k = k'
  · subst hk
    obtain ⟨n, hn, hinode⟩ := h
    refine ⟨n, ?_, hinode⟩
    rw [World.mkdir_dirs, makeDir, hn]
    exact hn
  · exact h.congr (find_makeDir_ne hk)

end World.HasDir

/-- Two live entries that name one directory are one. -/
theorem Placed.unique (hdisjoint : SpacesDisjoint config) {fs' id' : Str} {e' : DBEntry}
    (h : Placed config ⟨fs, .live, id⟩ e) (h' : Placed config ⟨fs', .live, id'⟩ e')
    (hloc : e'.workspace.loc = e.workspace.loc) : fs' = fs ∧ id' = id := by
  obtain ⟨hspace, -, hname⟩ := DirLoc.mk.inj hloc
  refine ⟨hdisjoint fs' fs e.workspace.space ?_ h.space, ?_⟩
  · rw [← hspace]
    exact h'.space
  · exact (h'.name rfl).symm.trans (hname.trans (h.name rfl))

namespace InUse

theorem congr (h : InUse w fs id e i)
    (hdb : w'.db.lookup ⟨fs, .live, id⟩ = w.db.lookup ⟨fs, .live, id⟩)
    (hdir : w'.HasDir e.workspace.loc i) : InUse w' fs id e i := by
  refine ⟨?_, hdir⟩
  rw [hdb]
  exact h.entry

/-- The entry is written anew. -/
theorem writeEntry (h : InUse w fs id e i) {fs' id' : Str} {e₁ e₂ : DBEntry}
    (hlook : w.db.lookup ⟨fs', .live, id'⟩ = some (.entry e₁)) (hsame : SameWorkspace e₁ e₂) :
    InUse (w.writeEntry ⟨fs', .live, id'⟩ e₂) fs id e i := by
  refine ⟨?_, h.dir⟩
  obtain ⟨e', he', hversion⟩ := h.entry
  by_cases hk : (⟨fs, .live, id⟩ : DbLoc) = ⟨fs', .live, id'⟩
  · rw [← hk, he'] at hlook
    obtain rfl := DbFile.entry.inj (Option.some.inj hlook)
    refine ⟨e₂.persisted, ?_, ?_⟩
    · rw [hk]
      exact World.lookup_writeEntry _ _ _
    · have hwritten := SameWorkspace.relation.persisted hsame
      exact SameWorkspace.relation.trans hversion hwritten
  · exact ⟨e', (World.lookup_writeEntry_ne e₂ hk).trans he', hversion⟩

/-- Another entry names another directory. -/
theorem dir_ne (hdisjoint : SpacesDisjoint config) (hplaced : w.Entries (Placed config))
    (h : InUse w fs id e i) {fs' id' : Str} {e' : DBEntry}
    (hother : Placed config ⟨fs', .live, id'⟩ e') (hne : ¬(fs' = fs ∧ id' = id)) :
    e.workspace.loc ≠ e'.workspace.loc := by
  intro hloc
  obtain ⟨e₁, he₁, hversion⟩ := h.entry
  refine hne ((hplaced _ _ he₁).unique hdisjoint hother ?_)
  rw [hversion.workspace]
  exact hloc.symm

end InUse

/-! ## What the expirer relies on -/

/-- All live entries with a dash are listed. -/
def ListsLive (w : World) (fs : Str) (ids : List Str) : Prop :=
  ∀ id e, w.db.lookup ⟨fs, .live, id⟩ = some (.entry e) → '-' ∈ id → id ∈ ids

/-- Names with a dash. -/
def Dashes (dirs : List (Str × Str)) : Prop := ∀ d ∈ dirs, '-' ∈ d.2

/-- What a call relies on: the listed ids are all there are, a directory that is going to be moved
has none of them, and the directory of an expired entry belongs to no live one. -/
def PcGuards (config : Config) (w : World) : CallPc → Prop
  | .listDirs call todo dirs => CallOk config call todo dirs ∧ Dashes dirs
  | .listIds call dirs => CallOk config call [] dirs ∧ Dashes dirs
  | .readPaths call dirs wsIDs workspacesInDB => CallOk config call [] dirs ∧ Dashes dirs ∧
      ListsLive w call.fs (workspacesInDB.map Prod.fst ++ wsIDs)
  | .strays call dirs workspacesInDB => CallOk config call [] dirs ∧ Dashes dirs ∧
      ListsLive w call.fs (workspacesInDB.map Prod.fst)
  | .moveStray call founddir dirs workspacesInDB =>
      CallOk config call [] (founddir :: dirs) ∧ Dashes (founddir :: dirs) ∧
      ListsLive w call.fs (workspacesInDB.map Prod.fst) ∧ isStray founddir workspacesInDB = true
  | .listDeletedDirs call _ _ => ∀ space ∈ call.spaces, SpaceOf config call.fs space
  | .moveExpired fs id e _ _ => Placed config ⟨fs, .live, id⟩ e ∧
      ∀ e', w.db.lookup ⟨fs, .live, id⟩ ≠ some (.entry e')
  | .deleteDir _ wspath _ => wspath.area = .deleted
  | _ => True

/-- It depends on the live entries only. -/
theorem PcGuards.congr {pc : CallPc} (h : PcGuards config w pc)
    (hdb : ∀ fs id, w'.db.lookup ⟨fs, .live, id⟩ = w.db.lookup ⟨fs, .live, id⟩) :
    PcGuards config w' pc := by
  have hlists : ∀ {fs : Str} {ids : List Str}, ListsLive w fs ids → ListsLive w' fs ids := by
    intro fs ids hlists id e hlook
    rw [hdb] at hlook
    exact hlists id e hlook
  cases pc with
  | readPaths | strays => exact ⟨h.1, h.2.1, hlists h.2.2⟩
  | moveStray => exact ⟨h.1, h.2.1, hlists h.2.2.1, h.2.2.2⟩
  | moveExpired fs id e ts ids =>
    refine ⟨h.1, fun e' => ?_⟩
    rw [hdb]
    exact h.2 e'
  | _ => exact h

/-- A call begins with nothing found. -/
theorem pcGuards_begins {pc : CallPc} (h : Expirer.Begins config pc) : PcGuards config w pc := by
  cases h with
  | clean hfs hspaces =>
    exact ⟨callOk_start fun space hspace => ⟨_, hfs, hspaces space hspace⟩,
      fun _ hd => absurd hd List.not_mem_nil⟩
  | skipped | expire => exact trivial

theorem pcGuards_follows {pc pc' : CallPc} (hnext : pc.Follows w pc') (h : PcGuards config w pc) :
    PcGuards config w pc' := by
  cases hnext with
  | listIds => exact ⟨⟨h.1.spaces, fun _ hsp => absurd hsp List.not_mem_nil, h.1.dirs⟩, h.2⟩
  | strays =>
    obtain ⟨hcall, hdashes, hlists⟩ := h
    rw [List.append_nil] at hlists
    exact ⟨hcall, hdashes, hlists⟩
  | listDeletedDirs => exact h.1.spaces
  | _ => exact trivial

/-- The listing of the live entries has all of them. -/
theorem listsLive_of_listing {listing : List Str}
    (hlist : listing.Perm (w.matchPattern fs .live ['*'] ['*'])) : ListsLive w fs listing := by
  intro id e hlook hdash
  rw [hlist.mem_iff]
  refine List.mem_map.mpr ⟨⟨fs, .live, id⟩, List.mem_filter.mpr ⟨?_, ?_⟩, rfl⟩
  · by_contra hno
    rw [AList.lookup_eq_none.mpr hno] at hlook
    cases hlook
  · rw [Bool.and_eq_true, Bool.and_eq_true]
    exact ⟨⟨beq_self_eq_true _, rfl⟩, (globMatch_dash id).trans (decide_eq_true hdash)⟩

section Steps

variable {x' : Expirer} {t : Tick} {removal : Option Removal}

/-- A step of the expirer keeps what its call relies on. -/
theorem pcGuards_callStep (hplaced : s.world.Entries (Placed config))
    (h : PcGuards config s.world s.expirer.pc)
    (hstep : Expirer.CallStep config s.expirer t s.world w x' removal) :
    PcGuards config w x'.pc := by
  cases hstep with
  | nextCall hpc hnext => exact pcGuards_begins (Expirer.begins_of_nextCall hnext)
  | goOn hnext => exact pcGuards_follows hnext h
  | listDirs hpc =>
    rw [hpc] at h
    refine ⟨h.1.listed _, fun d hd => ?_⟩
    rcases List.mem_append.mp hd with hd | hd
    · exact h.2 d hd
    · obtain ⟨name, hname, rfl⟩ := List.mem_map.mp hd
      exact List.contains_iff_mem.mp (List.mem_filter.mp hname).2
  | listIds hpc hopen hlist =>
    rw [hpc] at h
    exact ⟨h.1, h.2, listsLive_of_listing hlist⟩
  | readPath hpc =>
    rw [hpc] at h
    refine ⟨h.1, h.2.1, fun id e hlook hdash => ?_⟩
    rw [List.map_append, List.append_assoc]
    exact h.2.2 id e hlook hdash
  | keep hpc =>
    rw [hpc] at h
    exact ⟨h.1.tail, fun d hd => h.2.1 d (List.mem_cons_of_mem _ hd), h.2.2⟩
  | stray hpc hstray =>
    rw [hpc] at h
    exact ⟨h.1, h.2.1, h.2.2, hstray⟩
  | moveStray hpc =>
    rw [hpc] at h
    refine ⟨h.1.tail, fun d hd => h.2.1 d (List.mem_cons_of_mem _ hd), fun id e hlook => ?_⟩
    rw [moveDir_db] at hlook
    exact h.2.2.1 id e hlook
  | listDeletedDirs hpc =>
    rw [hpc] at h
    exact h
  | expired hpc hread =>
    have hlook := (World.readEntry_eq_some.mp hread).2
    have hentry := hplaced _ _ hlook
    refine ⟨⟨hentry.space, hentry.name⟩, fun e' hlook' => ?_⟩
    rw [World.lookup_renameEntry_from (by simp)] at hlook'
    cases hlook'
  | deleteEntry => exact rfl
  | _ => exact trivial

/-- The expirer leaves a live workspace where it is, until it finds that its time is over. -/
theorem InUse.callStep (hdisjoint : SpacesDisjoint config)
    (hplaced : s.world.Entries (Placed config)) (hcall : PcGuards config s.world s.expirer.pc)
    (h : InUse s.world fs id e i) (hkeep : ¬Ends config s fs id (.tick t))
    (hstep : Expirer.CallStep config s.expirer t s.world w x' removal) : InUse w fs id e i := by
  have hdb : ∀ {k : DirLoc} {outcome : Outcome} {k' : DirLoc} {now : ℤ},
      (s.world.moveDir outcome k k' now).1.db = s.world.db := moveDir_db ..
  obtain ⟨e', he', hversion⟩ := h.entry
  have hentry := hplaced _ _ he'
  cases hstep with
  | moveStray hpc =>
    rename_i call founddir dirs workspacesInDB
    rw [hpc] at hcall
    obtain ⟨hok, hdashes, hlists, hstray⟩ := hcall
    refine h.congr (by rw [hdb]) (h.dir.congr (find_moveDir_ne (fun heq => ?_) (by simp [WsPath.loc])))
    -- the directory has the name of a live entry, which is listed
    obtain ⟨hspace, -, hname⟩ := DirLoc.mk.inj heq
    have hfs : fs = call.fs := by
      refine hdisjoint fs call.fs founddir.1 ?_ (hok.dirs founddir (List.mem_cons_self ..))
      rw [← hspace, ← hversion.workspace]
      exact hentry.space
    have hid : founddir.2 = id := by
      rw [← hname, ← hversion.workspace]
      exact hentry.name rfl
    subst hfs
    have hmem := hlists id e' he' (hid ▸ hdashes founddir (List.mem_cons_self ..))
    obtain ⟨item, hitem, hfst⟩ := List.mem_map.mp hmem
    have hother := (Bool.and_eq_true_iff.mp (List.all_eq_true.mp hstray item hitem)).2
    rw [hfst, hid, bne_self_eq_false] at hother
    cases hother
  | moveExpired hpc =>
    rename_i fs₁ id₁ ids e₁ ts
    rw [hpc] at hcall
    refine h.congr (by rw [hdb]) (h.dir.congr (find_moveDir_ne ?_ (by simp [WsPath.loc])))
    refine h.dir_ne hdisjoint hplaced hcall.1 fun heq => ?_
    obtain ⟨rfl, rfl⟩ := heq
    exact hcall.2 e' he'
  | removeStray hpc =>
    refine h.congr (by rw [rmtree_db]) (h.dir.congr (find_rmtree_ne (by simp [WsPath.loc])))
  | deleteDir hpc =>
    rename_i fs₁ wspath ids
    rw [hpc] at hcall
    refine h.congr (by rw [rmtree_db]) (h.dir.congr (find_rmtree_ne fun heq => ?_))
    have harea : wspath.area = .deleted := hcall
    rw [← heq] at harea
    cases harea
  | notExpired hpc hread =>
    exact h.writeEntry (World.readEntry_eq_some.mp hread).2 ⟨rfl, rfl⟩
  | expired hpc hread hover hts hfree =>
    rename_i fs₁ id₁ ids e₁ ts
    have hne : (⟨fs, .live, id⟩ : DbLoc) ≠ ⟨fs₁, .live, id₁⟩ := by
      intro heq
      obtain ⟨rfl, -, rfl⟩ := DbLoc.mk.inj heq
      exact hkeep (.expired hpc hread hover)
    refine h.congr ?_ (h.dir.congr (by rw [World.renameEntry_dirs, World.writeEntry_dirs]))
    rw [World.lookup_renameEntry_ne hne (by simp), World.lookup_writeEntry_ne _ hne]
  | deleteEntry => exact h.congr (World.lookup_removeEntry_ne (by simp)) h.dir
  | _ => exact h

end Steps

/-! ## The tools -/

section Tools

variable {c : Caller}

/-- `ws_allocate` leaves it: it makes entries under names that are free only. -/
theorem InUse.allocate (h : InUse s.world fs id e i) (hc : c.NonRoot) (a : AllocArgs)
    (env : AllocEnv) : InUse (wsAllocate config c a env s.world).1 fs id e i := by
  have hspec := wsAllocate_spec config c a env s.world
  generalize wsAllocate config c a env s.world = out at hspec ⊢
  cases hspec with
  | refused | reused => exact h
  | extended checks extend found configured entry =>
    exact h.writeEntry (lookup_of_findEntries found) (sameWorkspace_of_extendEntry entry)
  | creates checks create missing first configured allocatable opened =>
    rename_i user_option fs₁ rest fsconfig
    obtain rfl := user_option_of_create (isRoot_of_nonRoot hc) checks.commandline create
    have hmade := createWorkspace_spec config c a [] env s.world fs₁ fsconfig
    generalize createWorkspace config c a [] env s.world fs₁ fsconfig = out at hmade ⊢
    cases hmade with
    | crashed => exact h.congr rfl (h.dir.mkdir _ _)
    | invalid => exact h.congr rfl ((h.dir.mkdir _ _).chown _ _)
    | created hdir hid he owner valid =>
      rename_i tuid wsdir id₁ e₁
      refine h.congr ?_ ((h.dir.mkdir _ _).chown _ _)
      by_cases hk : (⟨fs, .live, id⟩ : DbLoc) = ⟨fs₁, .live, id₁⟩
      · -- the search would have found the entry
        obtain ⟨e', he', -⟩ := h.entry
        rw [hk] at he'
        have hread := World.readEntry_eq_some.mpr ⟨valid, he'⟩
        have hfound := mem_findEntries.mpr ⟨first ▸ List.mem_cons_self .., opened, hread⟩
        rw [hid, ← allocId_self (a := a) (Or.inl rfl), missing] at hfound
        exact absurd hfound List.not_mem_nil
      · rw [World.lookup_writeEntry_ne _ hk, World.chown_db, World.mkdir_db]

/-- `ws_release` leaves it, unless it is called for it. -/
theorem InUse.release (hdisjoint : SpacesDisjoint config)
    (hplaced : s.world.Entries (Placed config)) (h : InUse s.world fs id e i) (hc : c.NonRoot)
    {a : ReleaseArgs} {env : ReleaseEnv} (hkeep : ¬Ends config s fs id (.release c a env)) :
    InUse (wsRelease config c a env s.world).1 fs id e i := by
  have hspec := wsRelease_spec config c a env s.world
  generalize hout : wsRelease config c a env s.world = out at hspec ⊢
  have hself : ∀ {user_option : Str}, releaseCommandline c a = some user_option →
      releaseId c a user_option = wsid c.username a.name := by
    intro user_option hcmd
    exact releaseId_self (Or.inl (user_option_of_release (isRoot_of_nonRoot hc) hcmd))
  -- what another call does to its own entry and directory
  have hother : ∀ {fs₁ id₁ : Str} {e₁ : DBEntry} (released timestamp : ℤ),
      s.world.db.lookup ⟨fs₁, .live, id₁⟩ = some (.entry e₁) → ¬(fs₁ = fs ∧ id₁ = id) →
        e.workspace.loc ≠ e₁.workspace.loc ∧
          InUse (DBEntry.release s.world fs₁ id₁ e₁ released timestamp) fs id e i := by
    intro fs₁ id₁ e₁ released timestamp hlook hne
    refine ⟨h.dir_ne hdisjoint hplaced (hplaced _ _ hlook) hne, h.congr ?_ ?_⟩
    · refine DBEntry.lookup_release_ne (fun hk => hne ?_) (by simp)
      exact ⟨(DbLoc.mk.inj hk).1.symm, (DbLoc.mk.inj hk).2.2.symm⟩
    · exact h.dir.congr (by rw [DBEntry.release_dirs])
  cases hspec with
  | refused => exact h
  | deleted commandline found hid htimestamp deletedata =>
    rename_i user_option fs₁ e₁ id₁ timestamp
    have hlook := lookup_of_findEntries (releaseFind_eq_some found).2.1
    rw [← hid] at hlook
    obtain ⟨hdir, hreleased⟩ := hother env.released timestamp hlook fun heq => by
      obtain ⟨rfl, rfl⟩ := heq
      exact hkeep (.deleted (hid.trans (hself commandline)) (congrArg Prod.snd hout))
    refine hreleased.congr ?_ (hreleased.dir.congr ?_)
    · rw [World.lookup_removeEntry_ne (by simp), rmtree_db]
    · rw [World.removeEntry_dirs, find_rmtree_ne hdir]
  | released commandline found hid htimestamp keep move =>
    rename_i user_option fs₁ e₁ id₁ timestamp w₁ moved
    have hlook := lookup_of_findEntries (releaseFind_eq_some found).2.1
    rw [← hid] at hlook
    obtain ⟨hdir, hreleased⟩ := hother env.released timestamp hlook fun heq => by
      obtain ⟨rfl, rfl⟩ := heq
      exact hkeep (.released (hid.trans (hself commandline)) (congrArg Prod.snd hout))
    obtain rfl := congrArg Prod.fst move
    exact hreleased.congr (by rw [moveDir_db])
      (hreleased.dir.congr (find_moveDir_ne hdir (by simp [WsPath.loc])))

/-- `ws_restore` leaves it, unless it restores onto its empty directory. -/
theorem InUse.restore (hdisjoint : SpacesDisjoint config)
    (hplaced : s.world.Entries (Placed config)) (h : InUse s.world fs id e i) (hc : c.NonRoot)
    {a : RestoreArgs} {env : RestoreEnv} (hkeep : ¬Ends config s fs id (.restore c a env)) :
    InUse (wsRestore config c a env s.world).1 fs id e i := by
  have hspec := wsRestore_spec config c a env s.world
  generalize hout : wsRestore config c a env s.world = out at hspec ⊢
  cases hspec with
  | refused | failed => exact h
  | wiped found =>
    refine h.congr ?_ (h.dir.congr ?_)
    · rw [World.lookup_removeEntry_ne (by simp), rmtree_db]
    · rw [World.removeEntry_dirs, find_rmtree_ne (by simp [WsPath.loc])]
  | wipedPartly found =>
    exact h.congr (by rw [rmtree_db]) (h.dir.congr (find_rmtree_ne (by simp [WsPath.loc])))
  | onto found keep hid htarget path nosub move group =>
    rename_i username fs₁ targetFs targetId fslist e₁ target w₁ w₂
    have hlook := (World.readEntry_eq_some.mp (restoreTarget_eq_some htarget).2.2).2
    obtain ⟨-, rfl⟩ := World.renameDir_eq_some move
    have hne : ¬(targetFs = fs ∧ targetId = id) := by
      rintro ⟨rfl, rfl⟩
      refine hkeep (.replaced ?_ nosub ?_ (congrArg Prod.snd hout))
      · rw [hid, found.user_eq hc]
      · by_contra hfull
        rw [World.renameDir, if_neg fun hgo => hfull hgo.2] at move
        cases move
    have hdir := h.dir_ne hdisjoint hplaced (hplaced _ _ hlook) hne
    have hmoved : InUse { s.world with dirs := (s.world.dirs.move
        ⟨e₁.workspace.space, .deleted, a.name⟩ target.workspace.loc) } fs id e i :=
      h.congr rfl (h.dir.congr (DirTree.find_move_ne (by simp [WsPath.loc]) hdir))
    have hgroup : InUse w₂ fs id e i := by
      rw [group]
      split
      · exact hmoved.writeEntry hlook ⟨rfl, rfl⟩
      · exact hmoved
    exact hgroup.congr (World.lookup_removeEntry_ne (by simp)) hgroup.dir
  | into found keep hid htarget path sub source directory =>
    rename_i target n n'
    have htouched := h.dir.touch target.workspace.loc env.now false
    refine h.congr ?_ (htouched.congr ?_)
    · rw [World.lookup_removeEntry_ne (by simp), World.removeDir_db, World.touch_db]
    · rw [World.removeEntry_dirs, World.find_removeDir_ne (by simp [WsPath.loc])]

end Tools

/-! ## Runs -/

/-- **The invariant**: entries are in their place, and the expirer's call can rely on what it has
listed. -/
structure Guards (config : Config) (s : System) : Prop where
  /-- the entries -/
  placed : s.world.Entries (Placed config)
  /-- the call -/
  call : PcGuards config s.world s.expirer.pc

theorem guards_init (config : Config) (clock : ℤ) : Guards config (.init clock) where
  placed := placed_init config clock
  call := trivial

/-- **Step lemma**: every step of ordinary users and the expirer keeps the invariant, and a live
workspace that it does not end. -/
theorem Guards.step (hdisjoint : SpacesDisjoint config) (h : Guards config s) {act : Action}
    (hact : act.Ordinary) (hstep : s.step config act = some s') :
    Guards config s' ∧ ∀ fs id e i, InUse s.world fs id e i → ¬Ends config s fs id act →
      InUse s'.world fs id e i := by
  have hplaced := placed_step h.placed hact hstep
  -- while the expirer is idle, its call relies on nothing
  have hidle : ∀ {w : World}, s.expirer = .idle → PcGuards config w s.expirer.pc := by
    intro w heq
    rw [heq]
    exact trivial
  cases act with
  | allocate c a env =>
    dsimp only [System.step] at hstep
    split at hstep
    · rename_i hgo
      obtain rfl := Option.some.inj hstep
      exact ⟨⟨hplaced, hidle hgo.1⟩, fun fs id e i huse _ => huse.allocate hact a env⟩
    · cases hstep
  | release c a env =>
    dsimp only [System.step] at hstep
    split at hstep
    · rename_i hgo
      obtain rfl := Option.some.inj hstep
      exact ⟨⟨hplaced, hidle hgo.1⟩,
        fun fs id e i huse hkeep => huse.release hdisjoint h.placed hact hkeep⟩
    · cases hstep
  | restore c a env =>
    dsimp only [System.step] at hstep
    split at hstep
    · rename_i hgo
      obtain rfl := Option.some.inj hstep
      exact ⟨⟨hplaced, hidle hgo.1⟩,
        fun fs id e i huse hkeep => huse.restore hdisjoint h.placed hact hkeep⟩
    · cases hstep
  | work path mtime isEmpty =>
    obtain rfl := Option.some.inj hstep
    exact ⟨⟨hplaced, h.call.congr fun _ _ => rfl⟩,
      fun fs id e i huse _ => huse.congr rfl (huse.dir.touch _ _ _)⟩
  | expirer fslist single_space =>
    dsimp only [System.step] at hstep
    split at hstep
    · obtain rfl := Option.some.inj hstep
      refine ⟨⟨hplaced, ?_⟩, fun fs id e i huse _ => huse⟩
      rw [Expirer.settled_pc]
      exact trivial
    · cases hstep
  | tick t =>
    dsimp only [System.step] at hstep
    split at hstep
    · split at hstep
      · cases hstep
      · rename_i w x removal hcallStep
        obtain rfl := Option.some.inj hstep
        have hspec := Expirer.callStep_spec hcallStep
        refine ⟨⟨hplaced, ?_⟩,
          fun fs id e i huse hkeep => huse.callStep hdisjoint h.placed h.call hkeep hspec⟩
        rw [Expirer.settled_pc]
        exact pcGuards_callStep h.placed h.call hspec
    · cases hstep

/-- **Live workspaces stay.** From any state that ordinary users and the expirer have reached: a
workspace whose entry is live and whose directory is there keeps its path, its user and the very
directory through every further run of whatever users and the expirer, until a step of the run ends
its use. -/
theorem live_workspaces_stay (config : Config) (hdisjoint : SpacesDisjoint config) (clock : ℤ)
    (before after : List Action) (hbefore : ∀ act ∈ before, act.Ordinary) (s s' : System)
    (hreach : Runs.exec (System.step config) (.init clock) before = some s)
    (hrun : Runs.exec (System.step config) s after = some s') (fs id : Str) (e : DBEntry)
    (n : DirNode Dir) (hentry : s.world.db.lookup ⟨fs, .live, id⟩ = some (.entry e))
    (hdir : s.world.dirs.find e.workspace.loc = some n)
    (hkeep : Runs.Meets (System.step config)
      (fun s act => act.Ordinary ∧ ¬Ends config s fs id act) s after) :
    ∃ e' n', s'.world.db.lookup ⟨fs, .live, id⟩ = some (.entry e') ∧ SameWorkspace e e' ∧
      s'.world.dirs.find e.workspace.loc = some n' ∧ n'.inode = n.inode := by
  have hguards : Guards config s := by
    have hmeets : Runs.Meets (System.step config) (fun _ act => act.Ordinary) (.init clock) before :=
      .of_mem (fun act hact _ => hbefore act hact) _
    exact hmeets.invariant (fun _ _ _ h hact hstep => (Guards.step hdisjoint h hact hstep).1)
      (guards_init config clock) hreach
  have huse : InUse s.world fs id e n.inode :=
    ⟨⟨e, hentry, SameWorkspace.relation.refl e⟩, n, hdir, rfl⟩
  obtain ⟨-, ⟨e', he', hversion⟩, n', hn', hinode⟩ :=
    @Runs.Meets.invariant _ _ _ _ (fun s => Guards config s ∧ InUse s.world fs id e n.inode) _ _ _
      hkeep
      (fun s act s' h hok hstep => by
        obtain ⟨hnext, hstays⟩ := Guards.step hdisjoint h.1 hok.1 hstep
        exact ⟨hnext, hstays fs id e n.inode h.2 hok.2⟩) ⟨hguards, huse⟩ hrun
  exact ⟨e', n', he', hversion, hn', hinode⟩

/-! ## A neighbour comes and goes -/

/-- Another user allocates `x` and releases it. -/
def neighbour : List Action :=
  [.allocate userAB (createArgs none) bobEnv,
    .release userAB ⟨['x'], none, none, false⟩ ⟨2000000000, 2000000000, .partly⟩]

set_option maxRecDepth 4000 in
/-- The workspace `x` of `bob` is where it was. -/
theorem live_workspaces_stay_bob : ∃ s s' e n,
    Runs.exec (System.step plainConfig) (.init 0) [.allocate bob (createArgs none) bobEnv] = some s ∧
      Runs.exec (System.step plainConfig) s neighbour = some s' ∧
      s.world.dirs.find e.workspace.loc = some n ∧
      ∃ e' n', s'.world.db.lookup ⟨['w'], .live, "bob-x".toList⟩ = some (.entry e') ∧
        SameWorkspace e e' ∧ s'.world.dirs.find e.workspace.loc = some n' ∧ n'.inode = n.inode := by
  refine ⟨_, _, _, _, rfl, rfl, rfl, live_workspaces_stay plainConfig (spacesDisjoint_single _ _) 0
    [.allocate bob (createArgs none) bobEnv] neighbour ?_ _ _ rfl rfl _ _ _ _ rfl rfl ?_⟩
  · intro act hact
    obtain rfl := List.mem_singleton.mp hact
    exact ⟨by decide, by decide⟩
  · refine .cons ⟨⟨by decide, by decide⟩, fun h => by cases h⟩ rfl <|
      .cons ⟨⟨by decide, by decide⟩, fun h => ?_⟩ rfl trivial
    cases h with
    | released own => exact absurd own (by decide)
    | deleted own => exact absurd own (by decide)

end HpcWorkspace
