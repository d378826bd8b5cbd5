import HpcWorkspace.Deadlines
import HpcWorkspace.RestoreOwn

/-!
# Retention

A workspace that was expired or released is kept for its keep time: until then its directory stays
in the deleted area of its space under the name of its deleted entry, and the expirer does not
remove it, unless its owner restores it or deletes its data. The tools guarantee this in every run
in which users restore only their own workspaces and no name in the deleted area is used twice.
`ws_release` looks for a free name among the entries once, and not at all among the directories;
the move of a stray directory does not look at all.
-/

namespace HpcWorkspace

variable {config : Config} {s s' : System} {w w' : World} {r : Retained}

/-! ## The promise -/

/-- The directory is in the deleted area of its space, under the name of its deleted entry. -/
def Retained.InPlace (w : World) (r : Retained) : Prop :=
  (∃ n, w.dirs.find r.dir = some n ∧ n.inode = r.inode) ∧
    ∃ e, w.db.lookup r.key = some (.entry e)

/-- **Retention safety** of a state. -/
structure RetentionSafe (s : System) : Prop where
  /-- until its deadline a retained directory is in its place -/
  kept : ∀ r ∈ s.retained, s.clock < r.deadline → r.InPlace s.world
  /-- it was not handed to `rmtree` before its deadline -/
  removed : ∀ r ∈ s.retained, ∀ m ∈ s.removals, m.inode = r.inode → r.deadline ≤ m.time

/-- Ordinary users without `-u`, and system calls that fail only as POSIX says. -/
def Action.InScope : Action → Prop
  | .allocate c a _ => c.NonRoot ∧ a.user = none
  | .release c a env => c.NonRoot ∧ a.user = none ∧ env.outcome = .ok
  | .restore c a env => c.NonRoot ∧ a.username = none ∧ env.outcome = .ok
  | .tick t => t.outcome = .ok
  | _ => True

theorem Action.InScope.ordinary {act : Action} (h : act.InScope) : act.Ordinary := by
  cases act with
  | allocate | release | restore => exact h.1
  | _ => exact trivial

/-! ## The condition -/

/-- A name in the deleted area that can be used: no entry has it, and the directory, if it is to be
moved there, can be. -/
def FreeName (w : World) (fs id space : Str) (deletedata : Bool) (ts : ℤ) : Prop :=
  w.db.lookup ⟨fs, .deleted, deletedName id ts⟩ = none ∧
    (deletedata = false → w.mayReplace ⟨space, .deleted, deletedName id ts⟩ = true)

/-- A release to a free name: of the two names the code tries, the second one when an entry has the
first one. -/
structure OrderlyRelease (config : Config) (w : World) (a : ReleaseArgs) (env : ReleaseEnv)
    (fs id : Str) (e : DBEntry) : Prop where
  /-- the first name -/
  first : w.db.lookup ⟨fs, .deleted, deletedName id env.timestamp⟩ = none →
    FreeName w fs id e.workspace.space a.deletedata env.timestamp
  /-- the second name -/
  second : w.db.lookup ⟨fs, .deleted, deletedName id env.timestamp⟩ ≠ none →
    FreeName w fs id e.workspace.space a.deletedata (env.timestamp + 1)
  /-- the time is one that counts as a release -/
  time : a.deletedata = false → ∀ fsconfig, config.getFsConfig fs = some fsconfig →
    ReleaseTime fsconfig e env.released

/-- **The condition on a step.** A release goes to a free name, at a time that counts; a call of
`ws_restore` comes to an entry of the caller; a stray directory does not replace an empty one that
has an entry. -/
def Orderly (config : Config) (s : System) : Action → Prop
  | .release c a env => ∀ fs ∈ releaseSearchlist config c a, ∀ e,
      s.world.readEntry fs .live (wsid c.username a.name) = some e →
        OrderlyRelease config s.world a env fs (wsid c.username a.name) e
  | .restore c a _ => ∀ l fs e, restoreFslist config c c.username a.filesystem = some l →
      DeletedAt config c s.world l fs a.name e → e.username = c.username
  | .tick t =>
    match s.expirer.pc with
    | .moveStray call founddir _ _ => ∀ n,
        s.world.dirs.find ⟨founddir.1, .deleted, deletedName founddir.2 t.now⟩ = some n →
          n.attr.isEmpty = true →
            s.world.db.lookup ⟨call.fs, .deleted, deletedName founddir.2 t.now⟩ = none
    | _ => True
  | _ => True

/-! ## The invariant -/

/-- The directory of a retained workspace is in its place. -/
def Retained.DirKept (w : World) (r : Retained) : Prop :=
  ∃ n, w.dirs.find r.dir = some n ∧ n.inode = r.inode

/-- Spaces and directories of a call of `clean_stray_directories` belong to its filesystem. -/
structure CallOk (config : Config) (call : CleanCall) (todo : List Str)
    (dirs : List (Str × Str)) : Prop where
  /-- its spaces -/
  spaces : ∀ space ∈ call.spaces, SpaceOf config call.fs space
  /-- those it has still to list -/
  todo : ∀ space ∈ todo, SpaceOf config call.fs space
  /-- the directories it has found -/
  dirs : ∀ d ∈ dirs, SpaceOf config call.fs d.1

/-- The names of deleted directories that are looked at. -/
def DashedNames (dirs : List (Str × Str)) : Prop := ∀ d ∈ dirs, globMatch ['*', '-', '*'] d.2 = true

/-- The entry that was expired is in the deleted area, and the name is free among the
directories. -/
structure MoveOk (config : Config) (w : World) (fs id : Str) (e : DBEntry) (ts : ℤ) : Prop where
  /-- the space is one of the filesystem -/
  space : SpaceOf config fs e.workspace.space
  /-- the directory has the name of the entry -/
  name : e.workspace.name = id
  /-- the name is free -/
  free : w.dirs.find ⟨e.workspace.space, .deleted, deletedName id ts⟩ = none
  /-- the entry is there -/
  entry : w.db.lookup ⟨fs, .deleted, deletedName id ts⟩ = some (.entry e.persisted)
  /-- it was not released -/
  unreleased : e.released = 0

/-- What a call of the expirer relies on: the entries it has listed are still those of the retained
workspaces, and what it is going to remove is none of them. -/
def PcOk (config : Config) (s : System) : CallPc → Prop
  | .listDirs call todo dirs => CallOk config call todo dirs
  | .listIds call dirs => CallOk config call [] dirs
  | .readPaths call dirs _ _ => CallOk config call [] dirs
  | .strays call dirs _ => CallOk config call [] dirs
  | .moveStray call founddir dirs _ => CallOk config call [] (founddir :: dirs)
  | .listDeletedDirs call todo dirs => CallOk config call todo dirs ∧ DashedNames dirs
  | .listDeletedIds call dirs => CallOk config call [] dirs ∧ DashedNames dirs
  | .removeStrays call dirs names => CallOk config call [] dirs ∧ DashedNames dirs ∧
      ∀ r ∈ s.retained, s.clock < r.deadline → r.fs = call.fs →
        globMatch ['*', '-', '*'] r.name = true → r.name ∈ names
  | .moveExpired fs id e ts _ => MoveOk config s.world fs id e ts
  | .deleteDir _ wspath _ => ∀ r ∈ s.retained, s.clock < r.deadline → r.dir ≠ wspath
  | _ => True

/-- Retained workspaces are kept, and removed ones are gone. -/
structure Keeping (config : Config) (w : World) (clock : ℤ) (retained : List Retained)
    (removals : List Removal) : Prop where
  /-- until its deadline a retained workspace has its entry and its directory -/
  kept : ∀ r ∈ retained, clock < r.deadline → r.EntryKept config w ∧ r.DirKept w
  /-- what was removed is gone -/
  gone : ∀ m ∈ removals, w.dirs.Gone m.inode
  /-- and was over its deadline -/
  removed : ∀ m ∈ removals, ∀ r ∈ retained, r.inode = m.inode → r.deadline ≤ m.time

/-- **The invariant.** -/
structure Retains (config : Config) (s : System) : Prop where
  /-- entries are in their place -/
  placed : s.world.Entries (Placed config)
  /-- live entries are not marked as released -/
  unreleased : LiveUnreleased s.world
  /-- what is retained -/
  keeping : Keeping config s.world s.clock s.retained s.removals
  /-- the expirer's call -/
  call : PcOk config s s.expirer.pc

theorem retains_init (config : Config) (clock : ℤ) : Retains config (.init clock) where
  placed := placed_init config clock
  unreleased := .init clock
  keeping := ⟨fun _ h => absurd h List.not_mem_nil, fun _ h => absurd h List.not_mem_nil,
    fun _ h => absurd h List.not_mem_nil⟩
  call := trivial

theorem Retains.safe (h : Retains config s) : RetentionSafe s where
  kept r hr hearly := by
    obtain ⟨hentry, hdir⟩ := h.keeping.kept r hr hearly
    obtain ⟨e, he, -⟩ := hentry.entry
    exact ⟨hdir, e, he⟩
  removed r hr m hm heq := h.keeping.removed m hm r hr heq.symm

/-- A retained workspace in the same space and under the same name has the same entry. -/
theorem Retained.key_eq (hdisjoint : SpacesDisjoint config) {fs space name : Str}
    (hr : SpaceOf config r.fs r.space) (hspace : SpaceOf config fs space)
    (hdir : r.dir = ⟨space, .deleted, name⟩) : r.key = ⟨fs, .deleted, name⟩ := by
  obtain ⟨hs, -, hn⟩ := DirLoc.mk.inj hdir
  rw [← hs] at hspace
  rw [Retained.key, hn, hdisjoint _ _ _ hr hspace]

theorem Retained.DirKept.congr (h : r.DirKept w) (hdir : w'.dirs.find r.dir = w.dirs.find r.dir) :
    r.DirKept w' := by
  obtain ⟨n, hn, hinode⟩ := h
  exact ⟨n, hdir.trans hn, hinode⟩

/-! ## The users' tools -/

/-- Entries and directories of the deleted areas are as before. -/
structure SameDeleted (w w' : World) : Prop where
  /-- the entries -/
  db : ∀ fs id, w'.db.lookup ⟨fs, .deleted, id⟩ = w.db.lookup ⟨fs, .deleted, id⟩
  /-- the directories -/
  dirs : ∀ space name, w'.dirs.find ⟨space, .deleted, name⟩ = w.dirs.find ⟨space, .deleted, name⟩
  /-- what is gone does not come back -/
  gone : ∀ i, w.dirs.Gone i → w'.dirs.Gone i

theorem SameDeleted.refl (w : World) : SameDeleted w w := ⟨fun _ _ => rfl, fun _ _ => rfl, fun _ => id⟩

theorem SameDeleted.writeEntry (h : SameDeleted w w') (fs id : Str) (e : DBEntry) :
    SameDeleted w (w'.writeEntry ⟨fs, .live, id⟩ e) where
  db fs' id' := (World.lookup_writeEntry_ne e (by simp)).trans (h.db fs' id')
  dirs := h.dirs
  gone := h.gone

theorem SameDeleted.mkdir (h : SameDeleted w w') (p : WsPath) (now : ℤ) :
    SameDeleted w (w'.mkdir p.loc now) where
  db := h.db
  dirs space name := (find_makeDir_ne (by simp [WsPath.loc])).trans (h.dirs space name)
  gone i hi := gone_makeDir (h.gone i hi)

theorem SameDeleted.chown (h : SameDeleted w w') (p : WsPath) (uid : ℕ) :
    SameDeleted w (w'.chown p.loc uid) where
  db := h.db
  dirs space name := (find_chownDir_ne (by simp [WsPath.loc])).trans (h.dirs space name)
  gone i hi := gone_chownDir (h.gone i hi)

/-- `ws_allocate` leaves the deleted areas alone. -/
theorem wsAllocate_sameDeleted (c : Caller) (a : AllocArgs) (env : AllocEnv) (w : World) :
    SameDeleted w (wsAllocate config c a env w).1 := by
  have hspec := wsAllocate_spec config c a env w
  generalize wsAllocate config c a env w = out at hspec ⊢
  cases hspec with
  | refused | reused => exact .refl w
  | extended => exact (SameDeleted.refl w).writeEntry _ _ _
  | creates checks create missing first configured allocatable opened =>
    rename_i user_option fs rest fsconfig
    have hmade := createWorkspace_spec config c a user_option env w fs fsconfig
    generalize createWorkspace config c a user_option env w fs fsconfig = out at hmade ⊢
    cases hmade with
    | crashed => exact (SameDeleted.refl w).mkdir _ _
    | invalid => exact ((SameDeleted.refl w).mkdir _ _).chown _ _
    | created =>
      exact (((SameDeleted.refl w).mkdir _ _).chown _ _).writeEntry _ _ _

/-- The entry and the name of a retained workspace are not those of a free name. -/
theorem Retained.EntryKept.key_ne (h : r.EntryKept config w) {fs name : Str}
    (hfree : w.db.lookup ⟨fs, .deleted, name⟩ = none) : r.key ≠ ⟨fs, .deleted, name⟩ :=
  fun heq => h.lookup_ne_none (heq ▸ hfree)

/-- A retained workspace has another directory than one that goes to a free name. -/
theorem Retained.EntryKept.dir_ne (h : r.EntryKept config w) (hdisjoint : SpacesDisjoint config)
    {fs space name : Str} (hspace : SpaceOf config fs space)
    (hfree : w.db.lookup ⟨fs, .deleted, name⟩ = none) : r.dir ≠ ⟨space, .deleted, name⟩ :=
  fun heq => h.key_ne hfree (Retained.key_eq hdisjoint h.space hspace heq)

theorem Retained.dir_ne_live (r : Retained) (p : WsPath) : r.dir ≠ p.loc := by
  simp [Retained.dir, WsPath.loc]

/-- The name a release uses is free. -/
theorem OrderlyRelease.free {a : ReleaseArgs} {env : ReleaseEnv} {fs id : Str} {e : DBEntry}
    (h : OrderlyRelease config w a env fs id e) :
    FreeName w fs id e.workspace.space a.deletedata (releaseTimestamp w fs id env.timestamp) := by
  unfold releaseTimestamp
  split
  · rename_i hsome
    exact h.second fun hnone => by
      rw [hnone] at hsome
      cases hsome
  · rename_i hnone
    exact h.first (by simpa using hnone)

/-- What a call of `ws_release` finds. -/
theorem orderlyRelease_of_find {c : Caller} {a : ReleaseArgs} {env : ReleaseEnv} {fs : Str}
    {user_option : Str} {e : DBEntry} (hc : c.NonRoot)
    (hok : Orderly config s (.release c a env)) (hcmd : releaseCommandline c a = some user_option)
    (hfind : releaseFind config c a user_option s.world = some (fs, e)) :
    releaseId c a user_option = wsid c.username a.name ∧
      s.world.db.lookup ⟨fs, .live, wsid c.username a.name⟩ = some (.entry e) ∧
      OrderlyRelease config s.world a env fs (wsid c.username a.name) e := by
  obtain rfl := user_option_of_release (isRoot_of_nonRoot hc) hcmd
  have hid : releaseId c a [] = wsid c.username a.name := releaseId_self (Or.inl rfl)
  have hfound := (releaseFind_eq_some hfind).2.1
  rw [hid] at hfound
  obtain ⟨hmem, -, hread⟩ := mem_findEntries.mp (hfound ▸ List.mem_singleton_self (fs, e))
  exact ⟨hid, lookup_of_findEntries hfound, hok fs hmem e hread⟩

/-- A release to a free name leaves the retained entries alone. -/
theorem Retained.EntryKept.release (h : r.EntryKept config w) {fs id : Str} (e : DBEntry)
    (released : ℤ) {ts : ℤ} (hfree : w.db.lookup ⟨fs, .deleted, deletedName id ts⟩ = none) :
    r.EntryKept config (DBEntry.release w fs id e released ts) := h.retireAs _ hfree

/-- Later, with the deleted areas as before. -/
theorem Keeping.of_sameDeleted {clock clock' : ℤ} {retained : List Retained}
    {removals : List Removal} (h : Keeping config w clock retained removals)
    (hsame : SameDeleted w w') (hclock : clock ≤ clock') :
    Keeping config w' clock' retained removals where
  kept r hr hearly := by
    obtain ⟨hentry, hdir⟩ := h.kept r hr (by omega)
    exact ⟨hentry.congr (hsame.db r.fs r.name), hdir.congr (hsame.dirs r.space r.name)⟩
  gone m hm := hsame.gone _ (h.gone m hm)
  removed := h.removed

/-- One more workspace is retained. -/
theorem Keeping.append {clock : ℤ} {retained : List Retained} {removals : List Removal}
    (h : Keeping config w clock retained removals) (hkept : r.EntryKept config w ∧ r.DirKept w)
    (hinode : ∀ m ∈ removals, r.inode ≠ m.inode) :
    Keeping config w clock (retained ++ [r]) removals where
  kept r' hr' hearly := by
    rcases List.mem_append.mp hr' with hr' | hr'
    · exact h.kept r' hr' hearly
    · obtain rfl := List.mem_singleton.mp hr'
      exact hkept
  gone := h.gone
  removed m hm r' hr' heq := by
    rcases List.mem_append.mp hr' with hr' | hr'
    · exact h.removed m hm r' hr' heq
    · obtain rfl := List.mem_singleton.mp hr'
      exact absurd heq (hinode m hm)

/-- **`ws_release`** keeps what is retained, and retains what it moves. -/
theorem Retains.release (hdisjoint : SpacesDisjoint config) (h : Retains config s) {c : Caller}
    {a : ReleaseArgs} {env : ReleaseEnv} (hscope : (Action.release c a env).InScope)
    (hok : Orderly config s (.release c a env)) (hclock : s.clock ≤ env.released) :
    Keeping config (wsRelease config c a env s.world).1 env.released
      (s.retained ++
        System.leftByRelease config s.world env (wsRelease config c a env s.world).2)
      s.removals := by
  obtain ⟨hc, -, hout⟩ := hscope
  have hspec := wsRelease_spec config c a env s.world
  generalize wsRelease config c a env s.world = out at hspec ⊢
  cases hspec with
  | refused =>
    dsimp only [System.leftByRelease]
    rw [List.append_nil]
    exact h.keeping.of_sameDeleted (.refl _) hclock
  | deleted commandline found hid htimestamp deletedata =>
    rename_i user_option fs e id timestamp
    obtain ⟨hself, hlook, horderly⟩ := orderlyRelease_of_find hc hok commandline found
    rw [hself] at hid
    subst hid
    have hfree := horderly.free
    rw [← htimestamp] at hfree
    dsimp only [System.leftByRelease]
    rw [List.append_nil]
    refine ⟨fun r hr hearly => ?_, fun m hm => ?_, h.keeping.removed⟩
    · obtain ⟨hentry, hdir⟩ := h.keeping.kept r hr (by omega)
      constructor
      · refine (hentry.release e env.released hfree.1).congr ?_
        rw [World.lookup_removeEntry_ne (hentry.key_ne hfree.1), rmtree_db]
      · refine hdir.congr ?_
        rw [World.removeEntry_dirs, find_rmtree_ne (r.dir_ne_live _), DBEntry.release_dirs]
    · rw [World.removeEntry_dirs]
      refine gone_of_rmtree ?_
      rw [DBEntry.release_dirs]
      exact h.keeping.gone m hm
  | released commandline found hid htimestamp keep move =>
    rename_i user_option fs e id timestamp w' moved
    obtain ⟨hself, hlook, horderly⟩ := orderlyRelease_of_find hc hok commandline found
    rw [hself] at hid
    subst hid
    have hfree := horderly.free
    rw [← htimestamp] at hfree
    obtain rfl := (Prod.mk.inj move).1
    have hspace := (h.placed _ _ hlook).space
    -- what was retained before stays
    have hbefore : Keeping config ((DBEntry.release s.world fs (wsid c.username a.name) e
        env.released timestamp).moveDir env.outcome e.workspace.loc
          ⟨e.workspace.space, .deleted, deletedName (wsid c.username a.name) timestamp⟩
            env.released).1 env.released s.retained s.removals := by
      refine ⟨fun r hr hearly => ?_, fun m hm => ?_, h.keeping.removed⟩
      · obtain ⟨hentry, hdir⟩ := h.keeping.kept r hr (by omega)
        constructor
        · exact (hentry.release e env.released hfree.1).congr (by rw [moveDir_db])
        · refine hdir.congr ?_
          rw [find_moveDir_ne (r.dir_ne_live _) (hentry.dir_ne hdisjoint hspace hfree.1),
            DBEntry.release_dirs]
      · refine gone_moveDir ?_
        rw [DBEntry.release_dirs]
        exact h.keeping.gone m hm
    dsimp only [System.leftByRelease]
    obtain ⟨fsconfig, hfs, hmem⟩ := hspace
    rw [hfs]
    dsimp only [System.leaving]
    cases hfind : s.world.dirs.find e.workspace.loc with
    | none =>
      dsimp only
      rw [List.append_nil]
      exact hbefore
    | some n =>
      refine hbefore.append ⟨⟨⟨fsconfig, hfs, hmem⟩,
        ({ e with released := env.released } : DBEntry).persisted, ?_, rfl, ?_⟩, n, ?_, rfl⟩ ?_
      · rw [moveDir_db]
        exact World.lookup_renameEntry_to (World.lookup_writeEntry _ _ _)
      · exact Retained.keptBy_released hfs rfl (horderly.time keep fsconfig hfs)
      · rw [hout]
        refine find_moveDir_ok (by rwa [DBEntry.release_dirs]) ?_
        rw [World.mayReplace, DBEntry.release_dirs]
        exact hfree.2 keep
      · exact fun m hm => (h.keeping.gone m hm).absent _ n hfind

/-- Fewer workspaces are retained. -/
theorem Keeping.filter {clock : ℤ} {retained : List Retained} {removals : List Removal}
    (h : Keeping config w clock retained removals) (p : Retained → Bool) :
    Keeping config w clock (retained.filter p) removals where
  kept r hr hearly := h.kept r (List.mem_filter.mp hr).1 hearly
  gone := h.gone
  removed m hm r hr := h.removed m hm r (List.mem_filter.mp hr).1

/-- What a call of `ws_restore` does not come to: the other retained workspaces. -/
theorem Retains.not_source (hdisjoint : SpacesDisjoint config) (h : Retains config s) {c : Caller}
    {a : RestoreArgs} {env : RestoreEnv} (hc : c.NonRoot)
    (hok : Orderly config s (.restore c a env)) {username fs : Str} {fslist : List Str}
    {e : DBEntry} (found : RestoreFound config c a s.world username fslist fs e)
    (hr : r ∈ s.retained) (hearly : s.clock < r.deadline)
    (hother : (r.owner == c.username && r.fs == fs && r.name == a.name) = false) :
    r.dir ≠ ⟨e.workspace.space, .deleted, a.name⟩ ∧ r.key ≠ ⟨fs, .deleted, a.name⟩ ∧
      ∀ targetFs ∈ fslist, s.world.openDB targetFs = true →
        r.key ≠ ⟨targetFs, .deleted, a.name⟩ := by
  obtain ⟨hentry, -⟩ := h.keeping.kept r hr hearly
  obtain ⟨-, hdel⟩ := found.deletedAt hc
  have hlist := found.list
  rw [found.user_eq hc] at hlist
  have hlook := (World.readEntry_eq_some.mp hdel.entry).2
  have hkey : r.key ≠ ⟨fs, .deleted, a.name⟩ := by
    intro heq
    -- the entry is the caller's, so he is the owner
    obtain ⟨e', he', howner, -⟩ := hentry.entry
    rw [heq, hlook] at he'
    obtain rfl := DbFile.entry.inj (Option.some.inj he')
    obtain ⟨hfs, -, hname⟩ := DbLoc.mk.inj heq
    rw [← howner, hok _ _ _ hlist hdel, hfs, hname] at hother
    simp at hother
  refine ⟨fun heq => hkey ?_, hkey, fun targetFs hmem hopen heq => hkey ?_⟩
  · exact Retained.key_eq hdisjoint hentry.space (h.placed _ _ hlook).space heq
  · obtain rfl := hdel.only targetFs hmem hopen (heq ▸ hentry.lookup_ne_none)
    exact heq

/-- They keep their entries and directories, which the call does not touch. -/
theorem Retains.other_kept (hdisjoint : SpacesDisjoint config) (h : Retains config s) {c : Caller}
    {a : RestoreArgs} {env : RestoreEnv} (hc : c.NonRoot)
    (hok : Orderly config s (.restore c a env)) (hclock : s.clock ≤ env.now) {username fs : Str}
    {fslist : List Str} {e : DBEntry} (found : RestoreFound config c a s.world username fslist fs e)
    (hr : r ∈ s.retained.filter fun r =>
      !(r.owner == c.username && r.fs == fs && r.name == a.name))
    (hearly : env.now < r.deadline) :
    (r.dir ≠ ⟨e.workspace.space, .deleted, a.name⟩ ∧ r.key ≠ ⟨fs, .deleted, a.name⟩ ∧
      ∀ targetFs ∈ fslist, s.world.openDB targetFs = true →
        r.key ≠ ⟨targetFs, .deleted, a.name⟩) ∧
      r.EntryKept config s.world ∧ r.DirKept s.world := by
  obtain ⟨hmem, hnot⟩ := List.mem_filter.mp hr
  rw [Bool.not_eq_true'] at hnot
  have hbefore : s.clock < r.deadline := by omega
  exact ⟨h.not_source hdisjoint hc hok found hmem hbefore hnot, h.keeping.kept r hmem hbefore⟩

/-- **`ws_restore`** keeps what is retained, but for what the owner restores or deletes. -/
theorem Retains.restore (hdisjoint : SpacesDisjoint config) (h : Retains config s) {c : Caller}
    {a : RestoreArgs} {env : RestoreEnv} (hscope : (Action.restore c a env).InScope)
    (hok : Orderly config s (.restore c a env)) (hclock : s.clock ≤ env.now) :
    Keeping config (wsRestore config c a env s.world).1 env.now
      (s.retained.filter fun r => !System.endedBy c a (wsRestore config c a env s.world).2 r)
      s.removals := by
  obtain ⟨hc, -, -⟩ := hscope
  have hspec := wsRestore_spec config c a env s.world
  generalize wsRestore config c a env s.world = out at hspec ⊢
  have hlater : Keeping config s.world env.now s.retained s.removals :=
    h.keeping.of_sameDeleted (.refl _) hclock
  cases hspec with
  | refused | failed => exact hlater.filter _
  | wiped found =>
    refine ⟨fun r hr hearly => ?_, fun m hm => gone_of_rmtree (h.keeping.gone m hm),
      (h.keeping.filter _).removed⟩
    obtain ⟨⟨hdir, hkey, -⟩, hentry, hkept⟩ := h.other_kept hdisjoint hc hok hclock found hr hearly
    refine ⟨hentry.congr ?_, hkept.congr ?_⟩
    · rw [World.lookup_removeEntry_ne hkey, rmtree_db]
    · rw [World.removeEntry_dirs, find_rmtree_ne hdir]
  | wipedPartly found =>
    refine ⟨fun r hr hearly => ?_, fun m hm => gone_of_rmtree (h.keeping.gone m hm),
      (h.keeping.filter _).removed⟩
    obtain ⟨⟨hdir, -⟩, hentry, hkept⟩ := h.other_kept hdisjoint hc hok hclock found hr hearly
    refine ⟨hentry.congr ?_, hkept.congr (find_rmtree_ne hdir)⟩
    rw [rmtree_db]
  | onto found keep hid htarget path nosub move group =>
    obtain ⟨-, rfl⟩ := World.renameDir_eq_some move
    obtain ⟨hmem, hopen, -⟩ := restoreTarget_eq_some htarget
    refine ⟨fun r hr hearly => ?_, fun m hm => ?_, (h.keeping.filter _).removed⟩
    · obtain ⟨⟨hdir, -, hkey⟩, hentry, hkept⟩ :=
        h.other_kept hdisjoint hc hok hclock found hr hearly
      refine ⟨hentry.congr ?_, hkept.congr ?_⟩
      · rw [World.lookup_removeEntry_ne (hkey _ hmem hopen), group]
        split
        · exact World.lookup_writeEntry_ne _ (by simp [Retained.key])
        · rfl
      · rw [World.removeEntry_dirs, group]
        split
        · exact DirTree.find_move_ne hdir (r.dir_ne_live _)
        · exact DirTree.find_move_ne hdir (r.dir_ne_live _)
    · rw [World.removeEntry_dirs, group]
      split
      · exact (h.keeping.gone m hm).move _ _
      · exact (h.keeping.gone m hm).move _ _
  | into found keep hid htarget =>
    obtain ⟨hmem, hopen, -⟩ := restoreTarget_eq_some htarget
    refine ⟨fun r hr hearly => ?_, fun m hm => ?_, (h.keeping.filter _).removed⟩
    · obtain ⟨⟨hdir, -, hkey⟩, hentry, hkept⟩ :=
        h.other_kept hdisjoint hc hok hclock found hr hearly
      refine ⟨hentry.congr ?_, hkept.congr ?_⟩
      · rw [World.lookup_removeEntry_ne (hkey _ hmem hopen), World.removeDir_db, World.touch_db]
      · rw [World.removeEntry_dirs, World.find_removeDir_ne hdir,
          World.find_touch_ne (r.dir_ne_live _)]
    · exact (gone_touch (h.keeping.gone m hm)).remove _

/-! ## The expirer -/

section Expirer

variable {x' : Expirer} {t : Tick} {removal : Option Removal}

/-- A deleted directory without an entry is none of the retained ones. -/
theorem dir_ne_of_stray (hdisjoint : SpacesDisjoint config) {call : CleanCall}
    {founddir : Str × Str} {dirs : List (Str × Str)} {names : List Str}
    (hcall : PcOk config s (.removeStrays call (founddir :: dirs) names))
    (hstray : names.contains founddir.2 = false) (hr : r ∈ s.retained)
    (hearly : s.clock < r.deadline) (hentry : r.EntryKept config s.world) :
    r.dir ≠ ⟨founddir.1, .deleted, founddir.2⟩ := by
  intro heq
  obtain ⟨hok, hdashed, hnames⟩ := hcall
  have hkey := Retained.key_eq hdisjoint hentry.space (hok.dirs founddir (List.mem_cons_self ..)) heq
  obtain ⟨hfs, -, hname⟩ := DbLoc.mk.inj hkey
  have hmem := hnames r hr hearly hfs (hname ▸ hdashed founddir (List.mem_cons_self ..))
  rw [hname, ← List.contains_iff_mem, hstray] at hmem
  cases hmem

/-- A directory that is handed to `rmtree` is none of the retained ones. -/
theorem Retains.dir_ne_of_removes (hdisjoint : SpacesDisjoint config) (h : Retains config s)
    {loc : DirLoc} (hremoves : Expirer.Removes s.expirer.pc loc) (hr : r ∈ s.retained)
    (hearly : s.clock < r.deadline) : r.dir ≠ loc := by
  have hcall := h.call
  generalize s.expirer.pc = pc at hcall hremoves
  cases hremoves with
  | stray hstray =>
    exact dir_ne_of_stray hdisjoint hcall hstray hr hearly (h.keeping.kept r hr hearly).1
  | deleted => exact hcall r hr hearly

/-- The expirer leaves the directory of a retained workspace in its place. -/
theorem Retains.dirKept_callStep (hdisjoint : SpacesDisjoint config) (h : Retains config s)
    (hok : Orderly config s (.tick t))
    (hstep : Expirer.CallStep config s.expirer t s.world w x' removal) (hr : r ∈ s.retained)
    (hearly : s.clock < r.deadline) : r.DirKept w := by
  obtain ⟨hentry, hdir⟩ := h.keeping.kept r hr hearly
  have hcall := h.call
  cases hstep with
  | moveStray hpc =>
    rename_i call founddir dirs workspacesInDB
    dsimp only [Orderly] at hok
    rw [hpc] at hcall hok
    by_cases heq : r.dir = ⟨founddir.1, .deleted, deletedName founddir.2 t.now⟩
    · -- there is an entry of that name, so the directory is not empty
      have hkey := Retained.key_eq hdisjoint hentry.space
        (hcall.dirs founddir (List.mem_cons_self ..)) heq
      obtain ⟨n, hn, -⟩ := id hdir
      rw [heq] at hn
      have hfull : s.world.mayReplace ⟨founddir.1, .deleted, deletedName founddir.2 t.now⟩ =
          false := by
        rw [World.mayReplace, hn]
        by_contra hempty
        exact hentry.lookup_ne_none (hkey ▸ hok n hn (Bool.not_eq_false _ ▸ hempty))
      refine hdir.congr ?_
      rw [heq]
      exact find_moveDir_of_not_mayReplace hfull
    · exact hdir.congr (find_moveDir_ne (by simp [Retained.dir]) heq)
  | moveExpired hpc =>
    rename_i fs id ids e ts
    rw [hpc] at hcall
    have hmove : MoveOk config s.world fs id e ts := hcall
    rw [hmove.name]
    refine hdir.congr (find_moveDir_ne (r.dir_ne_live _) fun heq => ?_)
    obtain ⟨n, hn, -⟩ := hdir
    rw [heq, hmove.free] at hn
    cases hn
  | removeStray hpc hstray hrun =>
    rw [hpc] at hcall
    exact hdir.congr (find_rmtree_ne (dir_ne_of_stray hdisjoint hcall hstray hr hearly hentry))
  | deleteDir hpc =>
    rw [hpc] at hcall
    exact hdir.congr (find_rmtree_ne (hcall r hr hearly))
  | expired => exact hdir.congr (by rw [World.renameEntry_dirs, World.writeEntry_dirs])
  | _ => exact hdir

/-- What was retained before a step of the expirer. -/
theorem Retains.keeping_callStep (hdisjoint : SpacesDisjoint config) (h : Retains config s)
    (hout : t.outcome = .ok) (hok : Orderly config s (.tick t))
    (hclock : s.clock ≤ t.now ∧ t.now ≤ t.now₂ ∧ t.now₂ ≤ t.now₃)
    (hstep : Expirer.CallStep config s.expirer t s.world w x' removal) :
    Keeping config w t.now₃ s.retained (s.removals ++ removal.toList) where
  kept r hr hearly := by
    refine ⟨?_, h.dirKept_callStep hdisjoint hok hstep hr (by omega)⟩
    exact (h.keeping.kept r hr (by omega)).1.callStep hstep (by omega)
  gone m hm := by
    rcases List.mem_append.mp hm with hm | hm
    · exact gone_callStep hstep (h.keeping.gone m hm)
    · obtain rfl := Option.mem_toList.mp hm
      obtain ⟨n, hn, hinode, -, rfl, -⟩ := Expirer.removes_of_callStep hstep
      rw [hout, hinode]
      exact gone_rmtree hn
  removed m hm r hr heq := by
    rcases List.mem_append.mp hm with hm | hm
    · exact h.keeping.removed m hm r hr heq
    · obtain rfl := Option.mem_toList.mp hm
      obtain ⟨n, hn, hinode, htime, -, hremoves⟩ := Expirer.removes_of_callStep hstep
      rw [htime]
      by_contra hlate
      -- before its deadline the directory is in its place, and that is not removed
      obtain ⟨n', hn', hinode'⟩ := (h.keeping.kept r hr (by omega)).2
      exact h.dir_ne_of_removes hdisjoint hremoves hr (by omega)
        (DirTree.find_inj hn' hn (hinode'.trans (heq.trans hinode)))

/-- What a step of the expirer adds to what is retained. -/
theorem Retains.retained_callStep (h : Retains config s) (hout : t.outcome = .ok)
    (hstep : Expirer.CallStep config s.expirer t s.world w x' removal)
    (hbefore : Keeping config w t.now₃ s.retained (s.removals ++ removal.toList)) :
    Keeping config w t.now₃
      (s.retained ++ System.leftByExpirer config s.world s.expirer.pc)
      (s.removals ++ removal.toList) := by
  have hnothing : System.leftByExpirer config s.world s.expirer.pc = [] →
      Keeping config w t.now₃ (s.retained ++ System.leftByExpirer config s.world s.expirer.pc)
        (s.removals ++ removal.toList) := by
    intro hnil
    rw [hnil, List.append_nil]
    exact hbefore
  have hcall := h.call
  cases hpc : s.expirer.pc with
  | moveExpired fs id e ts ids =>
    rw [hpc] at hcall
    have hmove : MoveOk config s.world fs id e ts := hcall
    obtain ⟨fsconfig, hfs, hmem⟩ := hmove.space
    cases hfind : s.world.dirs.find e.workspace.loc with
    | none =>
      rw [← hpc]
      refine hnothing ?_
      dsimp only [System.leftByExpirer]
      rw [hpc]
      dsimp only
      rw [hfs]
      dsimp only [System.leaving]
      rw [hfind]
    | some n =>
      cases hstep with
      | moveExpired hpc' =>
        rename_i fs' id' ids' e' ts'
        obtain ⟨rfl, rfl, rfl, rfl, rfl⟩ := CallPc.moveExpired.inj (hpc.symm.trans hpc')
        dsimp only [System.leftByExpirer]
        rw [hfs]
        dsimp only [System.leaving]
        rw [hfind]
        refine hbefore.append ⟨⟨hmove.space, e.persisted, ?_, rfl, ?_⟩, n, ?_, rfl⟩ ?_
        · rw [moveDir_db]
          exact hmove.entry
        · exact Retained.keptBy_expired (e := e) hfs rfl hmove.unreleased
        · rw [hout, hmove.name]
          refine find_moveDir_ok hfind ?_
          rw [World.mayReplace, hmove.free]
        · intro m hm
          rw [Option.toList_none, List.append_nil] at hm
          exact (h.keeping.gone m hm).absent _ n hfind
      | goOn hnext =>
        rw [hpc] at hnext
        cases hnext
      | _ hpc' =>
        rw [hpc] at hpc'
        cases hpc'
  | _ =>
    rw [← hpc]
    refine hnothing ?_
    rw [hpc]
    rfl

/-- The names that are listed are those of the deleted entries. -/
theorem mem_listDeletedIds {listing : List Str} {fs : Str}
    (hlist : listing.Perm (w.matchPattern fs .deleted ['*'] ['*'])) {r : Retained}
    (hentry : r.EntryKept config w) (hfs : r.fs = fs)
    (hmatch : globMatch ['*', '-', '*'] r.name = true) : r.name ∈ listing := by
  rw [hlist.mem_iff]
  refine List.mem_map.mpr ⟨r.key, List.mem_filter.mpr ⟨?_, ?_⟩, rfl⟩
  · by_contra hno
    exact hentry.lookup_ne_none (AList.lookup_eq_none.mpr hno)
  · rw [Bool.and_eq_true, Bool.and_eq_true]
    exact ⟨⟨beq_iff_eq.mpr hfs, rfl⟩, hmatch⟩

theorem CallOk.tail {call : CleanCall} {todo : List Str} {founddir : Str × Str}
    {dirs : List (Str × Str)} (h : CallOk config call todo (founddir :: dirs)) :
    CallOk config call todo dirs :=
  ⟨h.spaces, h.todo, fun d hd => h.dirs d (List.mem_cons_of_mem _ hd)⟩

/-- One more space is listed. -/
theorem CallOk.listed {call : CleanCall} {space : Str} {todo : List Str} {dirs : List (Str × Str)}
    (h : CallOk config call (space :: todo) dirs) (names : List Str) :
    CallOk config call todo (dirs ++ names.map (space, ·)) := by
  refine ⟨h.spaces, fun sp hsp => h.todo sp (List.mem_cons_of_mem _ hsp), fun d hd => ?_⟩
  rcases List.mem_append.mp hd with hd | hd
  · exact h.dirs d hd
  · obtain ⟨name, -, rfl⟩ := List.mem_map.mp hd
    exact h.todo space (List.mem_cons_self ..)

theorem callOk_start {call : CleanCall} (h : ∀ space ∈ call.spaces, SpaceOf config call.fs space) :
    CallOk config call call.spaces [] :=
  ⟨h, h, fun _ hd => absurd hd List.not_mem_nil⟩

/-- The next call of the expirer begins with the spaces of its filesystem. -/
theorem pcOk_nextCall {x : Expirer} {now : ℤ} (h : x.nextCall config now = some x') :
    PcOk config s' x'.pc := by
  have hbegins := Expirer.begins_of_nextCall h
  generalize x'.pc = pc at hbegins
  cases hbegins with
  | clean hfs hspaces => exact callOk_start fun space hspace => ⟨_, hfs, hspaces space hspace⟩
  | skipped | expire => exact trivial

/-- The next part of a call relies on no more than the part before. -/
theorem pcOk_follows {pc pc' : CallPc} (hnext : pc.Follows w pc') (h : PcOk config s pc) :
    PcOk config s' pc' := by
  cases hnext with
  | listIds | strays => exact ⟨h.spaces, fun _ hsp => absurd hsp List.not_mem_nil, h.dirs⟩
  | listDeletedDirs => exact ⟨callOk_start h.spaces, fun _ hd => absurd hd List.not_mem_nil⟩
  | listDeletedIds =>
    exact ⟨⟨h.1.spaces, fun _ hsp => absurd hsp List.not_mem_nil, h.1.dirs⟩, h.2⟩
  | _ => exact trivial

/-- What the call relies on after a step of the expirer. -/
theorem Retains.call_callStep (hdisjoint : SpacesDisjoint config) (h : Retains config s)
    (hclock : s.clock ≤ t.now ∧ t.now ≤ t.now₂ ∧ t.now₂ ≤ t.now₃)
    (hstep : Expirer.CallStep config s.expirer t s.world w x' removal)
    (hworld : s'.world = w) (hnow : s'.clock = t.now₃)
    (hretained : s'.retained =
      s.retained ++ System.leftByExpirer config s.world s.expirer.pc) :
    PcOk config s' x'.pc := by
  have hcall := h.call
  cases hstep with
  | nextCall hpc hnext => exact pcOk_nextCall hnext
  | goOn hnext => exact pcOk_follows hnext hcall
  | listDirs hpc =>
    rw [hpc] at hcall
    exact hcall.listed _
  | listIds hpc | readPath hpc =>
    rw [hpc] at hcall
    exact hcall
  | keep hpc | moveStray hpc =>
    rw [hpc] at hcall
    exact hcall.tail
  | stray hpc =>
    rw [hpc] at hcall
    exact hcall
  | listDeletedDirs hpc =>
    rw [hpc] at hcall
    refine ⟨hcall.1.listed _, fun d hd => ?_⟩
    rcases List.mem_append.mp hd with hd | hd
    · exact hcall.2 d hd
    · obtain ⟨name, hname, rfl⟩ := List.mem_map.mp hd
      exact (List.mem_filter.mp hname).2
  | listDeletedIds hpc hlist =>
    rw [hpc] at hcall hretained
    refine ⟨hcall.1, hcall.2, fun r hr hearly hfs hmatch => ?_⟩
    rw [hretained] at hr
    rcases List.mem_append.mp hr with hr | hr
    · exact mem_listDeletedIds hlist (h.keeping.kept r hr (by omega)).1 hfs hmatch
    · exact absurd hr List.not_mem_nil
  | keepDeleted hpc | removeStray hpc =>
    rw [hpc] at hcall hretained
    refine ⟨hcall.1.tail, fun d hd => hcall.2.1 d (List.mem_cons_of_mem _ hd), ?_⟩
    intro r hr hearly hfs hmatch
    rw [hretained] at hr
    rcases List.mem_append.mp hr with hr | hr
    · exact hcall.2.2 r hr (by omega) hfs hmatch
    · exact absurd hr List.not_mem_nil
  | expired hpc hread hover hts hfree =>
    rename_i fs id ids e ts
    have hlook := (World.readEntry_eq_some.mp hread).2
    have hplaced := h.placed _ _ hlook
    rw [World.nameTaken, Bool.or_eq_false_iff, Option.isSome_eq_false_iff,
      Option.isSome_eq_false_iff, Option.isNone_iff_eq_none, Option.isNone_iff_eq_none] at hfree
    have hmove : MoveOk config s'.world fs id { e with expired := t.now₃ } ts := by
      rw [hworld]
      have hlive := h.unreleased _ _ _ hlook
      refine ⟨hplaced.space, hplaced.name rfl, ?_, ?_, hlive⟩
      · rw [World.renameEntry_dirs, World.writeEntry_dirs]
        exact hfree.2
      · exact World.lookup_renameEntry_to (World.lookup_writeEntry _ _ _)
    exact hmove
  | deleteEntry hpc hread hfs hover =>
    rename_i fs id ids e fsconfig
    rw [hpc] at hretained
    intro r hr hearly heq
    rw [hretained] at hr
    rcases List.mem_append.mp hr with hr | hr
    · -- the entry that was deleted would be the one of `r`
      have hlook := (World.readEntry_eq_some.mp hread).2
      obtain ⟨hentry, -⟩ := h.keeping.kept r hr (by omega)
      have hkey := Retained.key_eq hdisjoint hentry.space (h.placed _ _ hlook).space heq
      obtain ⟨e', he', -, hkept⟩ := hentry.entry
      rw [hkey, hlook] at he'
      obtain rfl := DbFile.entry.inj (Option.some.inj he')
      obtain ⟨rfl, -, rfl⟩ := DbLoc.mk.inj hkey
      exact absurd (hkept fsconfig t.now hfs hover) (by omega)
    · exact absurd hr List.not_mem_nil
  | _ => exact trivial

end Expirer

/-! ## Runs -/

/-- **Step lemma**: every step that meets the condition keeps what is retained. -/
theorem Retains.step (hdisjoint : SpacesDisjoint config) (h : Retains config s) {act : Action}
    (hok : act.InScope ∧ Orderly config s act) (hstep : s.step config act = some s') :
    Retains config s' := by
  obtain ⟨hscope, hok⟩ := hok
  have hplaced := placed_step h.placed hscope.ordinary hstep
  have hunreleased := h.unreleased.step hstep
  cases act with
  | allocate c a env =>
    dsimp only [System.step] at hstep
    split at hstep
    · rename_i hgo
      obtain rfl := Option.some.inj hstep
      refine ⟨hplaced, hunreleased, ?_, ?_⟩
      · exact h.keeping.of_sameDeleted (wsAllocate_sameDeleted c a env s.world)
          (hgo.2.1.trans hgo.2.2)
      · dsimp only
        rw [hgo.1]
        exact trivial
    · cases hstep
  | release c a env =>
    dsimp only [System.step] at hstep
    split at hstep
    · rename_i hgo
      obtain rfl := Option.some.inj hstep
      refine ⟨hplaced, hunreleased, h.release hdisjoint hscope hok (by omega), ?_⟩
      dsimp only
      rw [hgo.1]
      exact trivial
    · cases hstep
  | restore c a env =>
    dsimp only [System.step] at hstep
    split at hstep
    · rename_i hgo
      obtain rfl := Option.some.inj hstep
      refine ⟨hplaced, hunreleased, h.restore hdisjoint hscope hok (by omega), ?_⟩
      dsimp only
      rw [hgo.1]
      exact trivial
    · cases hstep
  | work path mtime isEmpty =>
    obtain rfl := Option.some.inj hstep
    have hsame : SameDeleted s.world (s.world.touch path.loc mtime isEmpty) :=
      ⟨fun _ _ => rfl, fun _ _ => World.find_touch_ne (by simp [WsPath.loc]), fun _ => gone_touch⟩
    refine ⟨hplaced, hunreleased, h.keeping.of_sameDeleted hsame (Int.le_refl _), ?_⟩
    have hcall := h.call
    dsimp only
    cases hpc : s.expirer.pc with
    | moveExpired fs id e ts ids =>
      rw [hpc] at hcall
      have hmove : MoveOk config s.world fs id e ts := hcall
      exact ⟨hmove.space, hmove.name, (hsame.dirs _ _).trans hmove.free, hmove.entry,
        hmove.unreleased⟩
    | _ =>
      rw [hpc] at hcall
      exact hcall
  | expirer fslist single_space =>
    dsimp only [System.step] at hstep
    split at hstep
    · obtain rfl := Option.some.inj hstep
      refine ⟨hplaced, hunreleased, h.keeping, ?_⟩
      rw [Expirer.settled_pc]
      exact trivial
    · cases hstep
  | tick t =>
    dsimp only [System.step] at hstep
    split at hstep
    · rename_i hclock
      split at hstep
      · cases hstep
      · rename_i w x removal hcallStep
        obtain rfl := Option.some.inj hstep
        have hspec := Expirer.callStep_spec hcallStep
        refine ⟨hplaced, hunreleased, ?_, ?_⟩
        · exact h.retained_callStep hscope hspec
            (h.keeping_callStep hdisjoint hscope hok hclock hspec)
        · rw [Expirer.settled_pc]
          exact h.call_callStep hdisjoint hclock hspec rfl rfl rfl
    · cases hstep

/-- **Retention safety.** In every run of the tools, by ordinary users without `-u`, in which every
step meets the condition, every state is safe: what was expired or released stays in its place for
its keep time, and is not removed before. -/
theorem retention_safe (config : Config) (hdisjoint : SpacesDisjoint config) (clock : ℤ)
    (acts : List Action)
    (hok : Runs.Meets (System.step config) (fun s act => act.InScope ∧ Orderly config s act)
      (.init clock) acts) (s : System)
    (hrun : Runs.exec (System.step config) (.init clock) acts = some s) : RetentionSafe s :=
  (hok.invariant (fun _ _ _ h hok hstep => Retains.step hdisjoint h hok hstep)
    (retains_init config clock) hrun).safe

/-! ## A release, a foreign deletion and a name that is used twice -/

theorem spacesDisjoint_single (fs : Str) (fsconfig : FilesystemConfig) :
    SpacesDisjoint (.single fs fsconfig) := by
  rintro fs₁ fs₂ space ⟨_, h₁, -⟩ ⟨_, h₂, -⟩
  rw [(Config.getFsConfig_single.mp h₁).1, (Config.getFsConfig_single.mp h₂).1]

/-- `bob` allocates `x` and releases it. -/
def bobReleases : List Action :=
  [.allocate bob (createArgs none) bobEnv,
    .release bob ⟨['x'], some ['w'], none, false⟩ ⟨2000000000, 2000000000, .ok⟩]

set_option maxRecDepth 4000 in
/-- What `bob` has released is retained. -/
theorem retention_safe_bob : ∃ s, Runs.exec (System.step plainConfig) (.init 0) bobReleases = some s ∧
    s.retained ≠ [] ∧ RetentionSafe s := by
  have hok : Runs.Meets (System.step plainConfig) (fun s act => act.InScope ∧
      Orderly plainConfig s act) (.init 0) bobReleases := by
    refine .cons ⟨⟨⟨by decide, by decide⟩, rfl⟩, trivial⟩ rfl <|
      .cons ⟨⟨⟨by decide, by decide⟩, rfl, rfl⟩, ?_⟩ rfl trivial
    intro fs hfs e he
    obtain rfl := List.mem_singleton.mp hfs
    obtain rfl := Option.some.inj he
    exact ⟨fun _ => ⟨rfl, fun _ => rfl⟩, fun h => absurd rfl h, fun _ _ _ => Or.inl (by decide)⟩
  exact ⟨_, rfl, List.cons_ne_nil _ _, retention_safe plainConfig (spacesDisjoint_single _ _) 0
    bobReleases hok _ rfl⟩

/-- `userAB` allocates `x` and releases it, and `userA` deletes it. -/
def foreignDelete : List Action :=
  [.allocate userAB (createArgs none) bobEnv,
    .release userAB ⟨['x'], none, none, false⟩ ⟨2000000000, 2000000000, .ok⟩,
    .restore userA ⟨"a-b-x-2000000000".toList, none, none, none, true⟩ ⟨2000000001, true, .ok⟩]

/-- A step of the expirer at one time. -/
def tickAt (listing : List Str) : Action :=
  .tick ⟨2000000000, 2000000000, 2000000000, listing, .ok⟩

/-- An allocation of `bob` ends before the entry is written, the expirer moves the directory, and in
the same second `bob` allocates and releases a workspace of that name. -/
def nameUsedTwice : List Action :=
  [.allocate bob (createArgs none) { bobEnv with groupKnown := fun _ => false },
    .work ⟨['s'], "bob-x".toList⟩ 0 false,
    .expirer [['w']] none,
    tickAt [], tickAt ["bob-x".toList], tickAt [], tickAt [], tickAt [], tickAt [], tickAt [],
    tickAt [], tickAt ["bob-x-2000000000".toList], tickAt [], tickAt [], tickAt [], tickAt [],
    tickAt [], tickAt [], tickAt [], tickAt [], tickAt [],
    .allocate bob (createArgs none) { bobEnv with now := 2000000000, created := 2000000000 },
    .release bob ⟨['x'], none, none, false⟩ ⟨2000000000, 2000000000, .ok⟩]

set_option maxRecDepth 8000 in
/-- Another user can delete the data of a released workspace, and a release that does not look for
a directory of the name leaves the data outside the deleted area. -/
theorem not_retention_safe :
    (¬∀ (config : Config), SpacesDisjoint config → ∀ (clock : ℤ) (acts : List Action),
      (∀ act ∈ acts, act.InScope) → ∀ s,
        Runs.exec (System.step config) (.init clock) acts = some s → RetentionSafe s) ∧
      (∀ act ∈ nameUsedTwice, act.InScope) ∧
      ∃ s, Runs.exec (System.step plainConfig) (.init 0) nameUsedTwice = some s ∧
        ¬RetentionSafe s := by
  refine ⟨fun h => ?_, ?_, _, rfl, fun h => ?_⟩
  · have hscope : ∀ act ∈ foreignDelete, act.InScope := by
      intro act hact
      rcases List.mem_cons.mp hact with rfl | hact
      · exact ⟨⟨by decide, by decide⟩, rfl⟩
      rcases List.mem_cons.mp hact with rfl | hact
      · exact ⟨⟨by decide, by decide⟩, rfl, rfl⟩
      obtain rfl := List.mem_singleton.mp hact
      exact ⟨⟨by decide, by decide⟩, rfl, rfl⟩
    have hsafe := h plainConfig (spacesDisjoint_single _ _) 0 foreignDelete hscope _ rfl
    obtain ⟨⟨n, hn, -⟩, -⟩ := hsafe.kept _ (List.mem_cons_self ..) (by decide)
    cases hn
  · simp only [nameUsedTwice, List.forall_mem_cons]
    refine ⟨⟨⟨by decide, by decide⟩, rfl⟩, trivial, trivial, ?_⟩
    refine ⟨?_, ?_, ?_, ?_, ?_, ?_, ?_, ?_, ?_, ?_, ?_, ?_, ?_, ?_, ?_, ?_, ?_, ?_,
      ⟨⟨by decide, by decide⟩, rfl⟩, ⟨⟨by decide, by decide⟩, rfl, rfl⟩,
      fun _ h => absurd h List.not_mem_nil⟩ <;> exact rfl
  · obtain ⟨⟨n, hn, hinode⟩, -⟩ := h.kept _ (List.mem_cons_self ..) (by decide)
    obtain rfl := Option.some.inj hn
    exact absurd hinode (by decide)

end HpcWorkspace
