import HpcWorkspace.Find
import HpcWorkspace.RestoreList
import HpcWorkspace.Retention

/-!
# What was released or expired can be restored

Until its keep time is over, a workspace that was released or expired is in the listing of
`ws_restore -l`, and `ws_restore` with the name it prints brings its directory back, in every state the
tools reach under the conditions for retention. Besides retention this rests on what is in the
databases: all files can be read, the names are workspace names that begin with the user, and a deleted
entry is not overwritten, so it says where the directory of the retained workspace is.
-/

namespace HpcWorkspace

variable {config : Config} {s s' : System} {w w' w'' : World} {U : Set Str}

/-! ## No deleted entry is overwritten -/

/-- Each file is as before, or it is an entry that was written since; where a deleted one was
written, there was none. -/
def Grows (w w' : World) : Prop :=
  ∀ k f, w'.db.lookup k = some f → w.db.lookup k = some f ∨
    (∃ e, f = .entry e) ∧ (k.area = .deleted → w.db.lookup k = none)

namespace Grows

theorem refl (w : World) : Grows w w := fun _ _ => Or.inl

theorem of_db_eq (h : Grows w w') (hdb : w''.db = w'.db) : Grows w w'' := by
  rw [Grows, hdb]
  exact h

/-- A live entry is written. -/
theorem writeEntry (h : Grows w w') (fs id : Str) (e : DBEntry) :
    Grows w (w'.writeEntry ⟨fs, .live, id⟩ e) := by
  intro k f hlook
  by_cases hk : k = ⟨fs, .live, id⟩
  · rw [hk, World.lookup_writeEntry] at hlook
    obtain rfl := Option.some.inj hlook
    refine Or.inr ⟨⟨_, rfl⟩, fun harea => ?_⟩
    rw [hk] at harea
    cases harea
  · rw [World.lookup_writeEntry_ne e hk] at hlook
    exact h k f hlook

theorem removeEntry (h : Grows w w') (k : DbLoc) : Grows w (w'.removeEntry k) := by
  intro k' f hlook
  by_cases hk : k' = k
  · rw [hk, World.lookup_removeEntry] at hlook
    cases hlook
  · rw [World.lookup_removeEntry_ne hk] at hlook
    exact h k' f hlook

/-- A live entry is written and moved to a free name. -/
theorem retireAs {fs id : Str} {ts : ℤ} (e : DBEntry)
    (hfree : w.db.lookup ⟨fs, .deleted, deletedName id ts⟩ = none) :
    Grows w ((w.writeEntry ⟨fs, .live, id⟩ e).renameEntry ⟨fs, .live, id⟩
      ⟨fs, .deleted, deletedName id ts⟩) := by
  intro k f hlook
  by_cases hto : k = ⟨fs, .deleted, deletedName id ts⟩
  · rw [hto, World.lookup_renameEntry_to (World.lookup_writeEntry ..)] at hlook
    obtain rfl := Option.some.inj hlook
    exact Or.inr ⟨⟨_, rfl⟩, fun _ => hto ▸ hfree⟩
  by_cases hfrom : k = ⟨fs, .live, id⟩
  · rw [hfrom, World.lookup_renameEntry_from (by simp)] at hlook
    cases hlook
  · rw [World.lookup_renameEntry_ne hfrom hto, World.lookup_writeEntry_ne e hfrom] at hlook
    exact Or.inl hlook

/-! ## The tools -/

theorem wsAllocate (c : Caller) (a : AllocArgs) (env : AllocEnv) (w : World) :
    Grows w (wsAllocate config c a env w).1 := by
  have hspec := wsAllocate_spec config c a env w
  generalize HpcWorkspace.wsAllocate config c a env w = out at hspec ⊢
  cases hspec with
  | refused | reused => exact .refl w
  | extended => exact (Grows.refl w).writeEntry _ _ _
  | creates checks create missing first configured allocatable opened =>
    rename_i user_option fs rest fsconfig
    have hmade := createWorkspace_spec config c a user_option env w fs fsconfig
    generalize createWorkspace config c a user_option env w fs fsconfig = out at hmade ⊢
    cases hmade with
    | crashed | invalid => exact (Grows.refl w).of_db_eq (by simp)
    | created => exact ((Grows.refl w).of_db_eq (by simp)).writeEntry _ _ _

theorem wsRelease {c : Caller} {a : ReleaseArgs} {env : ReleaseEnv} (hc : c.NonRoot)
    (hok : Orderly config s (.release c a env)) :
    Grows s.world (wsRelease config c a env s.world).1 := by
  have hspec := wsRelease_spec config c a env s.world
  generalize HpcWorkspace.wsRelease config c a env s.world = out at hspec ⊢
  cases hspec with
  | refused => exact .refl _
  | deleted commandline found hid htimestamp =>
    obtain ⟨hself, -, horderly⟩ := orderlyRelease_of_find hc hok commandline found
    have hfree := horderly.free.1
    rw [← hself, ← hid, ← htimestamp] at hfree
    exact ((Grows.retireAs _ hfree).of_db_eq (rmtree_db ..)).removeEntry _
  | released commandline found hid htimestamp keep move =>
    obtain ⟨hself, -, horderly⟩ := orderlyRelease_of_find hc hok commandline found
    have hfree := horderly.free.1
    rw [← hself, ← hid, ← htimestamp] at hfree
    rw [(Prod.mk.inj move).1]
    exact (Grows.retireAs _ hfree).of_db_eq (moveDir_db ..)

theorem wsRestore (c : Caller) (a : RestoreArgs) (env : RestoreEnv) (w : World) :
    Grows w (wsRestore config c a env w).1 := by
  have hspec := wsRestore_spec config c a env w
  generalize HpcWorkspace.wsRestore config c a env w = out at hspec ⊢
  cases hspec with
  | refused | failed => exact .refl w
  | wiped => exact ((Grows.refl w).of_db_eq (rmtree_db ..)).removeEntry _
  | wipedPartly => exact (Grows.refl w).of_db_eq (rmtree_db ..)
  | onto found keep hid htarget path nosub move group =>
    obtain ⟨-, rfl⟩ := World.renameDir_eq_some move
    refine Grows.removeEntry ?_ _
    rw [group]
    split
    · exact Grows.writeEntry ((Grows.refl w).of_db_eq rfl) _ _ _
    · exact (Grows.refl w).of_db_eq rfl
  | into => exact ((Grows.refl w).of_db_eq (by rw [World.removeDir_db, World.touch_db])).removeEntry _

theorem callStep {x x' : Expirer} {t : Tick} {removal : Option Removal}
    (h : Expirer.CallStep config x t w w' x' removal) : Grows w w' := by
  cases h with
  | moveStray | moveExpired => exact (Grows.refl w).of_db_eq (moveDir_db ..)
  | removeStray | deleteDir => exact (Grows.refl w).of_db_eq (rmtree_db ..)
  | notExpired => exact (Grows.refl w).writeEntry _ _ _
  | expired hpc hread hover hts hfree =>
    rw [World.nameTaken, Bool.or_eq_false_iff, Option.isSome_eq_false_iff,
      Option.isNone_iff_eq_none] at hfree
    exact Grows.retireAs _ hfree.1
  | deleteEntry => exact (Grows.refl w).removeEntry _
  | _ => exact .refl w

/-- **A step overwrites no deleted entry.** -/
theorem step {act : Action} (hok : act.InScope ∧ Orderly config s act)
    (h : s.step config act = some s') : Grows s.world s'.world := by
  cases act with
  | allocate c a env =>
    dsimp only [System.step] at h
    split at h
    · obtain rfl := Option.some.inj h
      exact .wsAllocate c a env s.world
    · cases h
  | release c a env =>
    dsimp only [System.step] at h
    split at h
    · obtain rfl := Option.some.inj h
      exact .wsRelease hok.1.1 hok.2
    · cases h
  | restore c a env =>
    dsimp only [System.step] at h
    split at h
    · obtain rfl := Option.some.inj h
      exact .wsRestore c a env s.world
    · cases h
  | work path mtime isEmpty =>
    obtain rfl := Option.some.inj h
    exact (Grows.refl s.world).of_db_eq rfl
  | expirer fslist single_space =>
    dsimp only [System.step] at h
    split at h
    · obtain rfl := Option.some.inj h
      exact .refl s.world
    · cases h
  | tick t =>
    dsimp only [System.step] at h
    split at h
    · split at h
      · cases h
      · rename_i w x removal hstep
        obtain rfl := Option.some.inj h
        exact .callStep (Expirer.callStep_spec hstep)
    · cases h

end Grows

/-! ## What the databases hold -/

/-- Every file of the databases holds an entry. -/
def Whole (w : World) : Prop := ∀ k f, w.db.lookup k = some f → ∃ e, f = .entry e

theorem Whole.grows (h : Whole w) (hgrows : Grows w w') : Whole w' := by
  intro k f hlook
  rcases hgrows k f hlook with hold | ⟨hnew, -⟩
  · exact h k f hold
  · exact hnew

/-- An entry is named after its user, and its name is a workspace name. -/
structure WellNamed (U : Set Str) (k : DbLoc) (e : DBEntry) : Prop extends NamedAfter U k e where
  /-- the name is one that `ws_restore` takes -/
  valid : isValidWorkspaceName k.id = true

theorem isNameChar_of_mem_fmtLong {z : ℤ} {ch : Char} (h : ch ∈ fmtLong z) : isNameChar ch := by
  have hdigit : ∀ n, ch ∈ Nat.toDigits 10 n → isNameChar ch := by
    intro n hch
    have hrange := Nat.isDigit_of_mem_toDigits (by decide) (by decide) hch
    rw [Char.isDigit, Bool.and_eq_true, decide_eq_true_eq, decide_eq_true_eq] at hrange
    have hbounds : ch ≥ '0' ∧ ch ≤ '9' := hrange
    simp [isNameChar, isAsciiAlnum, hbounds.1, hbounds.2]
  rw [fmtLong] at h
  split at h
  · exact hdigit _ h
  · rcases List.mem_cons.mp h with rfl | h
    · decide
    · exact hdigit _ h

theorem isValidWorkspaceName_deletedName {id : Str} (h : isValidWorkspaceName id = true) (ts : ℤ) :
    isValidWorkspaceName (deletedName id ts) = true := by
  cases id with
  | nil => cases h
  | cons ch chs =>
    rw [isValidWorkspaceName, Bool.and_eq_true] at h
    rw [deletedName, List.cons_append, isValidWorkspaceName, Bool.and_eq_true, List.all_append,
      Bool.and_eq_true, List.all_cons, Bool.and_eq_true]
    exact ⟨h.1, h.2, by decide, List.all_eq_true.mpr fun x hx => isNameChar_of_mem_fmtLong hx⟩

theorem wellNamed_hereditary (U : Set Str) : Hereditary (WellNamed U) where
  same hsame h := ⟨(namedAfter_hereditary U).same hsame h.toNamedAfter, h.valid⟩
  retired h := ⟨(namedAfter_hereditary U).retired h.toNamedAfter,
    isValidWorkspaceName_deletedName h.valid _⟩

/-- Every step of users whose names are made like workspace names keeps the names. -/
theorem wellNamed_step (hU : ∀ u ∈ U, isValidWorkspaceName u = true) {act : Action}
    (hs : s.world.Entries (WellNamed U)) (hact : act.ByUsers U) (h : s.step config act = some s') :
    s'.world.Entries (WellNamed U) := by
  refine (wellNamed_hereditary U).step hs h ?_
  rintro c a env fs fsconfig user_option rfl - hcmd -
  have hname := (allocCommandline_eq_some.mp hcmd).1
  exact ⟨⟨hact, a.name, rfl, fun _ => hname⟩, isValidWorkspaceName_append (hU _ hact) hname⟩

/-- A workspace name is one path component. -/
theorem checkID_of_isValidWorkspaceName {id : Str} (h : isValidWorkspaceName id = true) :
    checkID id = true := by
  cases id with
  | nil => cases h
  | cons ch chs =>
    have hslash : (ch :: chs).contains '/' = false := by
      rw [List.contains_eq_mem, decide_eq_false_iff_not]
      exact fun hmem => absurd (isNameChar_of_mem h hmem) (by decide)
    rw [isValidWorkspaceName, Bool.and_eq_true] at h
    have hdot : ch ≠ '.' := by
      rintro rfl
      exact absurd h.1 (by decide)
    rw [checkID, hslash, beq_false_of_ne (List.cons_ne_nil ch chs),
      beq_false_of_ne fun heq : ch :: chs = ['.'] => hdot (List.cons.inj heq).1,
      beq_false_of_ne fun heq : ch :: chs = ['.', '.'] => hdot (List.cons.inj heq).1]
    rfl

/-- So every file can be read. -/
theorem readEntry_isSome (hwhole : Whole w) (hnamed : w.Entries (WellNamed U)) {fs id : Str}
    {area : Area} (h : w.db.lookup ⟨fs, area, id⟩ ≠ none) :
    (w.readEntry fs area id).isSome = true := by
  obtain ⟨f, hlook⟩ := Option.ne_none_iff_exists'.mp h
  obtain ⟨e, rfl⟩ := hwhole _ _ hlook
  have hid := checkID_of_isValidWorkspaceName (hnamed _ _ hlook).valid
  rw [World.readEntry_eq_some.mpr ⟨hid, hlook⟩]
  rfl

/-! ## The entry of a retained workspace says where its directory is -/

/-- Time goes on. -/
theorem clock_le_of_step {act : Action} (h : s.step config act = some s') : s.clock ≤ s'.clock := by
  cases act with
  | allocate c a env | release c a env | restore c a env =>
    dsimp only [System.step] at h
    split at h
    · rename_i hgo
      obtain rfl := Option.some.inj h
      dsimp only
      omega
    · cases h
  | work path mtime isEmpty =>
    obtain rfl := Option.some.inj h
    exact Int.le_refl _
  | expirer fslist single_space =>
    dsimp only [System.step] at h
    split at h
    · obtain rfl := Option.some.inj h
      exact Int.le_refl _
    · cases h
  | tick t =>
    dsimp only [System.step] at h
    split at h
    · rename_i hclock
      split at h
      · cases h
      · obtain rfl := Option.some.inj h
        dsimp only
        omega
    · cases h

/-- Until the deadline the entry of a retained workspace names its space. -/
def Located (s : System) : Prop :=
  ∀ r ∈ s.retained, s.clock < r.deadline → ∀ e, s.world.db.lookup r.key = some (.entry e) →
    e.workspace.space = r.space

theorem mem_leaving {fs name : Str} {e : DBEntry} {released : Bool} {deadline : ℤ} {r : Retained}
    (h : r ∈ System.leaving w fs name e released deadline) :
    r.key = ⟨fs, .deleted, name⟩ ∧ r.space = e.workspace.space := by
  rw [System.leaving] at h
  split at h
  · cases h
  · obtain rfl := List.mem_singleton.mp h
    exact ⟨rfl, rfl⟩

/-- What a release retains. -/
theorem located_leftByRelease {c : Caller} {a : ReleaseArgs} {env : ReleaseEnv} {r : Retained}
    (hr : r ∈ System.leftByRelease config w env (wsRelease config c a env w).2) {e : DBEntry}
    (he : (wsRelease config c a env w).1.db.lookup r.key = some (.entry e)) :
    e.workspace.space = r.space := by
  have hspec := wsRelease_spec config c a env w
  generalize wsRelease config c a env w = out at hspec hr he
  cases hspec with
  | refused | deleted => cases hr
  | released commandline found hid htimestamp keep move =>
    dsimp only [System.leftByRelease] at hr
    split at hr
    · cases hr
    · obtain ⟨hkey, hspace⟩ := mem_leaving hr
      have hmove := congrArg Prod.fst move
      dsimp only at he hmove
      rw [hkey, hmove, moveDir_db, DBEntry.release,
        World.lookup_renameEntry_to (World.lookup_writeEntry ..)] at he
      obtain rfl := DbFile.entry.inj (Option.some.inj he)
      exact hspace.symm

/-- What the expirer retains has its entry already. -/
theorem located_leftByExpirer (h : Retains config s) {r : Retained}
    (hr : r ∈ System.leftByExpirer config s.world s.expirer.pc) :
    ∃ e, s.world.db.lookup r.key = some (.entry e) ∧ e.workspace.space = r.space := by
  have hcall := h.call
  generalize s.expirer.pc = pc at hcall hr
  cases pc with
  | moveExpired fs id e ts ids =>
    have hmove : MoveOk config s.world fs id e ts := hcall
    dsimp only [System.leftByExpirer] at hr
    split at hr
    · cases hr
    · obtain ⟨hkey, hspace⟩ := mem_leaving hr
      exact ⟨e.persisted, hkey ▸ hmove.entry, hspace.symm⟩
  | _ => cases hr

theorem Located.step (h : Located s) (hretains : Retains config s) {act : Action}
    (hok : act.InScope ∧ Orderly config s act) (hstep : s.step config act = some s') :
    Located s' := by
  have hgrows := Grows.step hok hstep
  have hclock := clock_le_of_step hstep
  -- an entry that was there already is the same
  have hsame : ∀ {k : DbLoc} {e e' : DBEntry}, k.area = .deleted →
      s.world.db.lookup k = some (.entry e) → s'.world.db.lookup k = some (.entry e') → e = e' := by
    intro k e e' harea hlook hlook'
    rcases hgrows k _ hlook' with hold | ⟨-, hnone⟩
    · exact DbFile.entry.inj (Option.some.inj (hlook.symm.trans hold))
    · rw [hnone harea] at hlook
      cases hlook
  have hbefore : ∀ r ∈ s.retained, s'.clock < r.deadline → ∀ e,
      s'.world.db.lookup r.key = some (.entry e) → e.workspace.space = r.space := by
    intro r hr hearly e he
    obtain ⟨e₀, he₀, -⟩ := (hretains.keeping.kept r hr (by omega)).1.entry
    rw [← hsame rfl he₀ he]
    exact h r hr (by omega) e₀ he₀
  intro r hr hearly e he
  cases act with
  | allocate c a env =>
    dsimp only [System.step] at hstep
    split at hstep
    · obtain rfl := Option.some.inj hstep
      exact hbefore r hr hearly e he
    · cases hstep
  | release c a env =>
    dsimp only [System.step] at hstep
    split at hstep
    · obtain rfl := Option.some.inj hstep
      rcases List.mem_append.mp hr with hr | hr
      · exact hbefore r hr hearly e he
      · exact located_leftByRelease hr he
    · cases hstep
  | restore c a env =>
    dsimp only [System.step] at hstep
    split at hstep
    · obtain rfl := Option.some.inj hstep
      exact hbefore r (List.mem_filter.mp hr).1 hearly e he
    · cases hstep
  | work path mtime isEmpty =>
    obtain rfl := Option.some.inj hstep
    exact hbefore r hr hearly e he
  | expirer fslist single_space =>
    dsimp only [System.step] at hstep
    split at hstep
    · obtain rfl := Option.some.inj hstep
      exact hbefore r hr hearly e he
    · cases hstep
  | tick t =>
    dsimp only [System.step] at hstep
    split at hstep
    · split at hstep
      · cases hstep
      · obtain rfl := Option.some.inj hstep
        rcases List.mem_append.mp hr with hr | hr
        · exact hbefore r hr hearly e he
        · obtain ⟨e₀, he₀, hspace⟩ := located_leftByExpirer hretains hr
          rw [← hsame rfl he₀ he]
          exact hspace
    · cases hstep

/-! ## Runs -/

/-- **The invariant.** -/
structure InOrder (config : Config) (U : Set Str) (s : System) : Prop where
  /-- retained workspaces are kept -/
  retains : Retains config s
  /-- every file holds an entry -/
  whole : Whole s.world
  /-- names -/
  named : s.world.Entries (WellNamed U)
  /-- spaces -/
  located : Located s

theorem inOrder_init (config : Config) (U : Set Str) (clock : ℤ) :
    InOrder config U (.init clock) where
  retains := retains_init config clock
  whole k f hlook := by
    rw [System.init, World.init, AList.lookup_empty] at hlook
    cases hlook
  named k e hlook := by
    rw [System.init, World.init, AList.lookup_empty] at hlook
    cases hlook
  located r hr := absurd hr List.not_mem_nil

theorem InOrder.step (hdisjoint : SpacesDisjoint config)
    (hU : ∀ u ∈ U, isValidWorkspaceName u = true) (h : InOrder config U s) {act : Action}
    (hok : act.ByUsers U ∧ act.InScope ∧ Orderly config s act) (hstep : s.step config act = some s') :
    InOrder config U s' where
  retains := h.retains.step hdisjoint hok.2 hstep
  whole := h.whole.grows (.step hok.2 hstep)
  named := wellNamed_step hU h.named hok.1 hstep
  located := h.located.step h.retains hok.2 hstep

variable {c : Caller} {r : Retained}

/-- The deleted entry of a retained workspace is one that its owner can restore. -/
theorem InOrder.deletedAt (h : InOrder config U s) (hopen : s.world.openDB r.fs = true)
    (hr : r ∈ s.retained) (hearly : s.clock < r.deadline) (howner : r.owner = c.username)
    (hrestorable : ∃ fsconfig, config.getFsConfig r.fs = some fsconfig ∧ fsconfig.restorable = true) :
    ∃ e, e.workspace.space = r.space ∧ DeletedAt config c s.world [r.fs] r.fs r.name e := by
  obtain ⟨e, he, huser, -⟩ := (h.retains.keeping.kept r hr hearly).1.entry
  have hnamed := h.named _ _ he
  obtain ⟨rest, hid, -⟩ := hnamed.id
  have hstarts : (c.username ++ ['-']) <+: r.name := by
    refine ⟨rest, ?_⟩
    rw [← howner, ← huser, List.append_assoc]
    exact hid.symm
  refine ⟨e, h.located r hr hearly e he, hnamed.valid, hstarts, List.mem_singleton_self _, hopen,
    hrestorable, ?_, fun fs' hfs' _ _ => List.mem_singleton.mp hfs'⟩
  exact World.readEntry_eq_some.mpr ⟨checkID_of_isValidWorkspaceName hnamed.valid, he⟩

/-- Its name is listed. -/
theorem InOrder.listed (h : InOrder config U s) (hopen : s.world.openDB r.fs = true)
    (hU : ∀ u ∈ U, isValidWorkspaceName u = true) (hr : r ∈ s.retained)
    (hearly : s.clock < r.deadline) (hc : c.NonRoot)
    (hadmin : config.global.admins.contains c.username = false) (howner : r.owner = c.username)
    (haccess : config.hasAccess c.username c.groups r.fs .restore = true) {a : RestoreListArgs}
    (hname : a.name = []) (hfs : a.filesystem = [] ∨ a.filesystem = r.fs) (now : Str → ℤ)
    (dir : DirOrder) : RestoreLine.id r.name ∈ wsRestoreList config c a now dir s.world := by
  obtain ⟨e, he, huser, -⟩ := (h.retains.keeping.kept r hr hearly).1.entry
  have hnamed := h.named _ _ he
  obtain ⟨rest, hid, -⟩ := hnamed.id
  have hstarts : (c.username ++ ['-']) <+: r.name := by
    refine ⟨rest, ?_⟩
    rw [← howner, ← huser, List.append_assoc]
    exact hid.symm
  have hvalid : isValidWorkspaceName r.name = true := hnamed.valid
  have hliteral : ∀ ch ∈ c.username, isLiteral ch := by
    rw [← howner, ← huser]
    exact fun ch hch => isLiteral_of_isNameChar (isNameChar_of_mem (hU _ hnamed.user) hch)
  have hown : userpattern config c a.username = c.username := by
    rw [userpattern, hadmin, isRoot_of_nonRoot hc]
    rfl
  have hmem : r.fs ∈ config.validFilesystems c.username c.groups .restore :=
    Config.mem_validFilesystems.mpr haccess
  obtain ⟨l, hlist, hl⟩ : ∃ l, restoreFslist config c c.username (some a.filesystem) = some l ∧
      r.fs ∈ l := by
    dsimp only [restoreFslist]
    by_cases hnil : a.filesystem = []
    · exact ⟨_, if_pos hnil, hmem⟩
    · have heq := hfs.resolve_left hnil
      rw [if_neg hnil, heq, if_pos (List.contains_iff_mem.mpr hmem)]
      exact ⟨_, rfl, List.mem_singleton_self _⟩
  have hthere : s.world.db.lookup ⟨r.fs, .deleted, r.name⟩ ≠ none := by
    rw [show s.world.db.lookup ⟨r.fs, .deleted, r.name⟩ = _ from he]
    exact Option.some_ne_none _
  have hhit : (r.fs, r.name) ∈ restoreHits s.world l (idNoOwner r.name c.username) c.username := by
    refine mem_restoreHits.mpr ⟨hl, hopen, ?_⟩
    rw [matchPattern_name hvalid hstarts, if_neg hthere]
    exact List.mem_singleton_self _
  rw [← List.count_pos_iff, count_wsRestoreList hname hown hlist
    (fun _ _ _ hsome => readEntry_isSome h.whole h.named hsome) hliteral hvalid hstarts]
  exact List.length_pos_of_mem hhit

/-- The directory of a target can take a deleted directory: it is there, or it can be replaced when
directories are restored without a subdirectory. -/
def TakesDirectory (config : Config) (w : World) (target : DBEntry) : Prop :=
  if config.global.restorenosub then w.mayReplace target.workspace.loc = true
  else (w.dirs.find target.workspace.loc).isSome = true

/-- A restore of an entry whose directory is in its place. -/
theorem restored_of_deletedAt {fs name : Str} {id : Str} {e target : DBEntry} {env : RestoreEnv}
    (hlist : restoreFslist config c c.username (some fs) = some [fs])
    (hdel : DeletedAt config c w [fs] fs id e) (hlive : LiveAt c w [fs] fs name target)
    (hdir : (w.dirs.find ⟨e.workspace.space, .deleted, id⟩).isSome = true)
    (htakes : TakesDirectory config w target) (hhuman : env.human = true)
    (hout : env.outcome = .ok) :
    ∃ w', wsRestore config c ⟨id, some name, some fs, none, false⟩ env w =
        (w', .restored fs e fs (wsid c.username name) target true) ∧
      w'.dirs.find ⟨e.workspace.space, .deleted, id⟩ = none ∧
        w'.db.lookup ⟨fs, .deleted, id⟩ = none := by
  have hcmd : restoreCommandline ⟨id, some name, some fs, none, false⟩ = true := by
    rw [restoreCommandline, hdel.valid]
    exact hlive.valid
  have hsource : restoreSource config w [fs] id c.username = some (fs, e) :=
    (restoreSource_iff (List.nodup_singleton fs) hdel.valid hdel.starts).mpr hdel
  obtain ⟨htarget, hpath⟩ := (restoreTarget_iff hlive.valid).mpr hlive
  obtain ⟨n, hn⟩ := Option.isSome_iff_exists.mp hdir
  rw [wsRestore_eq_restore hcmd rfl hdel.starts hhuman]
  simp only [restore, hlist, hsource, Option.getD_some, htarget, hpath, Bool.false_eq_true, if_false]
  rw [TakesDirectory] at htakes
  split at htakes
  · rename_i hnosub
    have hren : w.renameDir ⟨e.workspace.space, .deleted, id⟩ target.workspace.loc =
        some { w with
          dirs := w.dirs.move ⟨e.workspace.space, .deleted, id⟩ target.workspace.loc } := by
      rw [World.renameDir, if_pos ⟨hdir, htakes⟩]
    have hmove : w.moveOnto .ok ⟨e.workspace.space, .deleted, id⟩ target.workspace.loc =
        ({ w with
          dirs := w.dirs.move ⟨e.workspace.space, .deleted, id⟩ target.workspace.loc }, true) := by
      simp only [World.moveOnto, hren]
    have hgone : (w.dirs.move ⟨e.workspace.space, .deleted, id⟩ target.workspace.loc).find
        ⟨e.workspace.space, .deleted, id⟩ = none :=
      DirTree.find_move_from (by simp [WsPath.loc])
    rw [if_pos hnosub, hout, hmove]
    refine ⟨_, rfl, ?_, World.lookup_removeEntry ..⟩
    rw [World.removeEntry_dirs]
    split
    · rw [World.writeEntry_dirs]
      exact hgone
    · exact hgone
  · rename_i hsub
    obtain ⟨n', hn'⟩ := Option.isSome_iff_exists.mp htakes
    have hmove : w.moveInto .ok ⟨e.workspace.space, .deleted, id⟩ target.workspace.loc env.now =
        ((w.touch target.workspace.loc env.now false).removeDir ⟨e.workspace.space, .deleted, id⟩,
          true) := by
      simp only [World.moveInto, hn, hn']
    rw [if_neg hsub, hout, hmove]
    refine ⟨_, rfl, ?_, World.lookup_removeEntry ..⟩
    rw [World.removeEntry_dirs]
    exact DirTree.find_remove_self ..

/-- **What was released or expired can be restored.** In every run of the tools, by ordinary users
whose names are made like workspace names, in which every step meets the condition for retention:
until the end of its keep time, `ws_restore -l` lists a workspace that left the live area, and
`ws_restore` with the name it lists moves the directory of the workspace to a target of the same
filesystem. -/
theorem retained_restorable (config : Config) (hdisjoint : SpacesDisjoint config) (U : Set Str)
    (hU : ∀ u ∈ U, isValidWorkspaceName u = true) (clock : ℤ) (acts : List Action)
    (hok : Runs.Meets (System.step config)
      (fun s act => act.ByUsers U ∧ act.InScope ∧ Orderly config s act) (.init clock) acts)
    (s : System) (hrun : Runs.exec (System.step config) (.init clock) acts = some s) (r : Retained)
    (hr : r ∈ s.retained) (hearly : s.clock < r.deadline) (c : Caller) (hc : c.NonRoot)
    (hadmin : config.global.admins.contains c.username = false) (howner : r.owner = c.username)
    (hfs : r.fs ≠ []) (haccess : config.hasAccess c.username c.groups r.fs .restore = true) :
    (∀ (a : RestoreListArgs) (now : Str → ℤ) (dir : DirOrder), a.name = [] →
      a.filesystem = [] ∨ a.filesystem = r.fs →
        RestoreLine.id r.name ∈ wsRestoreList config c a now dir s.world) ∧
      ∀ (name : Str) (target : DBEntry) (env : RestoreEnv),
        (∃ fsconfig, config.getFsConfig r.fs = some fsconfig ∧ fsconfig.restorable = true) →
          LiveAt c s.world [r.fs] r.fs name target → TakesDirectory config s.world target →
            env.human = true → env.outcome = .ok →
              ∃ e w', wsRestore config c ⟨r.name, some name, some r.fs, none, false⟩ env s.world =
                  (w', .restored r.fs e r.fs (wsid c.username name) target true) ∧
                ⟨e.workspace.space, .deleted, r.name⟩ = r.dir ∧ r.DirKept s.world ∧
                  w'.dirs.find r.dir = none ∧ w'.db.lookup r.key = none := by
  have horder : InOrder config U s :=
    hok.invariant (fun _ _ _ h hok hstep => InOrder.step hdisjoint hU h hok hstep)
      (inOrder_init config U clock) hrun
  have hopen : s.world.openDB r.fs = true := by
    rw [openDB_of_run hrun]
    exact beq_self_eq_true (some r.fs)
  refine ⟨fun a now dir hname hfs => ?_, fun name target env hrestorable hlive htakes hhuman hout => ?_⟩
  · exact horder.listed hopen hU hr hearly hc hadmin howner haccess hname hfs now dir
  · obtain ⟨e, hspace, hdel⟩ := horder.deletedAt hopen hr hearly howner hrestorable
    have hkept := (horder.retains.keeping.kept r hr hearly).2
    have hloc : (⟨e.workspace.space, .deleted, r.name⟩ : DirLoc) = r.dir := by
      rw [hspace]
      rfl
    have hlist : restoreFslist config c c.username (some r.fs) = some [r.fs] := by
      dsimp only [restoreFslist]
      rw [if_neg hfs, if_pos (List.contains_iff_mem.mpr (Config.mem_validFilesystems.mpr haccess))]
    have hdir : (s.world.dirs.find ⟨e.workspace.space, .deleted, r.name⟩).isSome = true := by
      obtain ⟨n, hn, -⟩ := hkept
      rw [hloc, hn]
      rfl
    obtain ⟨w', hcall, hgone, hremoved⟩ :=
      restored_of_deletedAt hlist hdel hlive hdir htakes hhuman hout
    exact ⟨e, w', hcall, hloc, hkept, hloc ▸ hgone, hremoved⟩

/-- `bob` releases `x`, and allocates `y`. -/
def bobAllocatesAnother : List Action :=
  bobReleases ++ [.allocate bob { createArgs none with name := ['y'] }
    { bobEnv with now := 2000000000, created := 2000000000 }]

set_option maxRecDepth 8000 in
/-- He can restore `x` into `y`. -/
theorem retained_restorable_bob : ∃ s, Runs.exec (System.step plainConfig) (.init 0)
    bobAllocatesAnother = some s ∧
      RestoreLine.id "bob-x-2000000000".toList ∈
        wsRestoreList plainConfig bob ⟨[], [], [], false⟩ (fun _ => 2000000000) .plain s.world ∧
      ∃ e target w', wsRestore plainConfig bob
          ⟨"bob-x-2000000000".toList, some ['y'], some ['w'], none, false⟩ ⟨2000000000, true, .ok⟩
          s.world = (w', .restored ['w'] e ['w'] "bob-y".toList target true) := by
  have hok : Runs.Meets (System.step plainConfig) (fun s act => act.ByUsers {bob.username} ∧
      act.InScope ∧ Orderly plainConfig s act) (.init 0) bobAllocatesAnother := by
    refine .cons ⟨rfl, ⟨⟨by decide, by decide⟩, rfl⟩, trivial⟩ rfl <|
      .cons ⟨rfl, ⟨⟨by decide, by decide⟩, rfl, rfl⟩, ?_⟩ rfl <|
        .cons ⟨rfl, ⟨⟨by decide, by decide⟩, rfl⟩, trivial⟩ rfl trivial
    intro fs hfs e he
    obtain rfl := List.mem_singleton.mp hfs
    obtain rfl := Option.some.inj he
    exact ⟨fun _ => ⟨rfl, fun _ => rfl⟩, fun h => absurd rfl h, fun _ _ _ => Or.inl (by decide)⟩
  obtain ⟨hlisted, hrestored⟩ := retained_restorable plainConfig (spacesDisjoint_single _ _)
    {bob.username} (fun u hu => by rw [Set.mem_singleton_iff.mp hu]; decide) 0 bobAllocatesAnother hok
    _ rfl _ (List.mem_cons_self ..) (by decide) bob ⟨by decide, by decide⟩ (by decide) rfl
    (by decide) (by decide)
  obtain ⟨e, w', hcall, -⟩ := hrestored ['y'] _ ⟨2000000000, true, .ok⟩ ⟨_, rfl, by decide⟩
    ⟨by decide, by decide, rfl, ⟨[], [], rfl, fun _ h => absurd h List.not_mem_nil⟩, by decide⟩
    (by rw [TakesDirectory, if_neg (by decide)]; rfl) rfl rfl
  exact ⟨_, rfl, hlisted _ _ _ rfl (Or.inl rfl), e, _, w', hcall⟩

end HpcWorkspace
