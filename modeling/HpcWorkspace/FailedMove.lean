import HpcWorkspace.Deadlines
import HpcWorkspace.FoundAgain

/-!
# Moves that fail after the entry was moved

`ws_release` and the expirer move the entry first and the directory second. When the second move
fails, the directory stays in the live area without an entry. A later run of the expirer takes it
for a stray one and moves it to the deleted area under a name that no deleted entry has; the next
run removes it, whatever the keep time of its entry is. It is safe only as long as no run finds it
older than the grace time.
-/

namespace HpcWorkspace

/-! ## What is left over -/

/-- A directory that was not moved with its entry. -/
structure LeftOver where
  /-- its path -/
  path : WsPath
  /-- its identity -/
  inode : ℕ
  /-- the end of the keep time of its entry -/
  deadline : ℤ

/-- A step in which the move of the directory fails, after the entry was moved. -/
inductive FailedMove (config : Config) (s : System) : Action → LeftOver → Prop where
  /-- `ws_release`: neither `rename` nor `mv` moves it -/
  | release {c : Caller} {a : ReleaseArgs} {env : ReleaseEnv} {fs id : Str} {e : DBEntry}
      {timestamp : ℤ} {fsconfig : FilesystemConfig} {n : DirNode Dir}
      (hresult : (wsRelease config c a env s.world).2 = .released fs id e timestamp false)
      (hfs : config.getFsConfig fs = some fsconfig)
      (hfind : s.world.dirs.find e.workspace.loc = some n) :
      FailedMove config s (.release c a env)
        ⟨e.workspace, n.inode, env.released + fsconfig.releasekeeptime * 24 * 3600⟩
  /-- the expirer: neither does `robust_rename` -/
  | expirer {t : Tick} {fs id : Str} {e : DBEntry} {timestamp : ℤ} {ids : List Str}
      {fsconfig : FilesystemConfig} {n : DirNode Dir}
      (hpc : s.expirer.pc = .moveExpired fs id e timestamp ids)
      (hfails : (s.world.moveDir t.outcome e.workspace.loc
        ⟨e.workspace.space, .deleted, deletedName e.workspace.name timestamp⟩ t.now).2 = false)
      (hfs : config.getFsConfig fs = some fsconfig)
      (hfind : s.world.dirs.find e.workspace.loc = some n) :
      FailedMove config s (.tick t)
        ⟨e.workspace, n.inode, e.expired + fsconfig.keeptime * 24 * 3600⟩

/-- Only the expirer runs. -/
def Action.OfExpirer : Action → Prop
  | .expirer .. => True
  | .tick _ => True
  | _ => False

/-- What was removed since `s` is not the directory, or its keep time was over. -/
def LeftOver.KeptUntil (left : LeftOver) (s s' : System) : Prop :=
  ∃ fresh, s'.removals = s.removals ++ fresh ∧
    ∀ m ∈ fresh, m.inode = left.inode → left.deadline ≤ m.time

/-- **The condition on a step** before the deadline: when the directory is compared with the live
entries and seems to be a stray one, it is younger than the grace time; and no other live entry
with this directory is expired. -/
def LeavesAlone (left : LeftOver) (s : System) : Action → Prop
  | .tick t => t.now < left.deadline →
    match s.expirer.pc with
    | .strays _ (founddir :: _) workspacesInDB => founddir = (left.path.space, left.path.name) →
        isStray founddir workspacesInDB = true →
          ∀ n, s.world.dirs.find left.path.loc = some n →
            t.now - STRAY_GRACETIME < n.attr.mtime
    | .expireEntries fs (id :: _) => ∀ e, s.world.readEntry fs .live id = some e →
        0 < e.expiration → e.expiration < t.now → e.workspace ≠ left.path
    | _ => True
  | _ => True

/-! ## The invariant -/

/-- The expirer is not about to move the directory, and removes deleted directories only. -/
def LeftOver.PcOk (left : LeftOver) : CallPc → Prop
  | .moveStray _ founddir _ _ => founddir ≠ (left.path.space, left.path.name)
  | .moveExpired _ _ e _ _ => e.workspace ≠ left.path
  | .deleteDir _ wspath _ => wspath.area = .deleted
  | _ => True

/-- Until the deadline the directory is where it was. -/
structure LeftOver.Stays (left : LeftOver) (w : World) : Prop where
  /-- it is there -/
  dir : ∃ n, w.dirs.find left.path.loc = some n ∧ n.inode = left.inode

/-- **The invariant** of the runs after the failure, which began in `s₁`. -/
structure LeftOver.Inv (left : LeftOver) (s₁ s : System) : Prop where
  /-- the directory -/
  stays : s.clock < left.deadline → left.Stays s.world ∧ left.PcOk s.expirer.pc
  /-- what was removed -/
  kept : left.KeptUntil s₁ s

section Steps

variable {config : Config} {left : LeftOver} {x x' : Expirer} {t : Tick} {w w' : World}
  {removal : Option Removal}

theorem LeftOver.Stays.congr (h : left.Stays w)
    (hfind : w'.dirs.find left.path.loc = w.dirs.find left.path.loc) : left.Stays w' := by
  obtain ⟨n, hn, hinode⟩ := h.dir
  exact ⟨n, hfind.trans hn, hinode⟩

/-- A live directory is not touched by what happens to deleted ones. -/
theorem WsPath.loc_ne_deleted (p : WsPath) (space name : Str) : p.loc ≠ ⟨space, .deleted, name⟩ := by
  simp [WsPath.loc]

/-- Another live directory is moved. -/
theorem LeftOver.Stays.moveDir (h : left.Stays w) {p : WsPath} (hne : p ≠ left.path)
    (outcome : Outcome) (space name : Str) (now : ℤ) :
    left.Stays (w.moveDir outcome p.loc ⟨space, .deleted, name⟩ now).1 := by
  refine h.congr (find_moveDir_ne ?_ (left.path.loc_ne_deleted space name))
  intro heq
  apply hne
  cases p
  cases hpath : left.path
  simp_all [WsPath.loc]

/-- The directory stays with a step that leaves it alone. -/
theorem LeftOver.Stays.callStep (h : left.Stays w) (hpc : left.PcOk x.pc)
    (hstep : Expirer.CallStep config x t w w' x' removal) : left.Stays w' := by
  cases hstep with
  | @moveStray call founddir dirs workspacesInDB hat =>
    rw [hat] at hpc
    have hne : (⟨founddir.1, founddir.2⟩ : WsPath) ≠ left.path := by
      intro heq
      apply hpc
      rw [← heq]
    exact h.moveDir hne _ _ _ _
  | moveExpired hat =>
    rw [hat] at hpc
    exact h.moveDir hpc _ _ _ _
  | removeStray => exact h.congr (find_rmtree_ne (left.path.loc_ne_deleted _ _))
  | @deleteDir fs wspath ids hat =>
    rw [hat] at hpc
    refine h.congr (find_rmtree_ne fun heq => ?_)
    rw [← heq] at hpc
    cases hpc
  | expired =>
    refine h.congr ?_
    rw [World.renameEntry_dirs, World.writeEntry_dirs]
  | notExpired | deleteEntry => exact h.congr rfl
  | _ => exact h

/-- What is removed is not the directory. -/
theorem LeftOver.Stays.inode_ne (h : left.Stays w) (hpc : left.PcOk x.pc) {m : Removal}
    (hstep : Expirer.CallStep config x t w w' x' (some m)) : m.inode ≠ left.inode := by
  obtain ⟨n, hn, hinode, -, -, hremoves⟩ := Expirer.removes_of_callStep hstep
  obtain ⟨n₀, hn₀, hinode₀⟩ := h.dir
  intro heq
  have hloc : m.loc = left.path.loc :=
    DirTree.find_inj hn hn₀ (hinode.symm.trans (heq.trans hinode₀.symm))
  have harea : m.loc.area = .deleted := by
    generalize x.pc = pc at hpc hremoves
    generalize m.loc = loc at hremoves ⊢
    cases hremoves with
    | stray => rfl
    | deleted => exact hpc
  rw [hloc] at harea
  cases harea

/-- A step that leaves the directory alone does not go where it would be moved. -/
theorem LeftOver.pcOk_callStep {s : System} (hx : s.expirer = x) (hw : s.world = w)
    (hok : LeavesAlone left s (.tick t)) (hearly : t.now < left.deadline)
    (hstep : Expirer.CallStep config x t w w' x' removal) : left.PcOk x'.pc := by
  have hcond := hok hearly
  rw [hx, hw] at hcond
  cases hstep with
  | nextCall hpc hnext =>
    have hbegins := Expirer.begins_of_nextCall hnext
    generalize x'.pc = pc at hbegins
    cases hbegins <;> trivial
  | goOn hnext =>
    generalize x.pc = pc at hnext
    cases hnext <;> trivial
  | @stray call founddir dirs workspacesInDB n hpc hstray hfind hold =>
    rw [hpc] at hcond
    intro heq
    have hfind' : w.dirs.find left.path.loc = some n := by
      rw [heq] at hfind
      exact hfind
    have hyoung := hcond heq hstray n hfind'
    omega
  | @expired fs id ids e ts hpc hread hover =>
    rw [hpc] at hcond
    exact hcond e hread hover.1 hover.2
  | deleteEntry => rfl
  | _ => trivial

end Steps

/-! ## Runs -/

namespace LeftOver

variable {config : Config} {left : LeftOver} {s s' s₁ : System}

theorem KeptUntil.refl (left : LeftOver) (s : System) : left.KeptUntil s s :=
  ⟨[], (List.append_nil _).symm, fun _ h => absurd h List.not_mem_nil⟩

/-- **Step lemma.** -/
theorem Inv.step {act : Action} (h : left.Inv s₁ s) (hexpirer : act.OfExpirer)
    (hok : LeavesAlone left s act) (hstep : s.step config act = some s') : left.Inv s₁ s' := by
  cases act with
  | allocate | release | restore | work => exact hexpirer.elim
  | expirer fslist single_space =>
    dsimp only [System.step] at hstep
    split at hstep
    · obtain rfl := Option.some.inj hstep
      refine ⟨fun hearly => ⟨(h.stays hearly).1, ?_⟩, h.kept⟩
      rw [Expirer.settled_pc]
      trivial
    · cases hstep
  | tick t =>
    dsimp only [System.step] at hstep
    split at hstep
    · rename_i hclock
      split at hstep
      · cases hstep
      · rename_i w x removal hcall
        obtain rfl := Option.some.inj hstep
        have hspec := Expirer.callStep_spec hcall
        constructor
        · intro hearly
          dsimp only at hearly ⊢
          obtain ⟨hstays, hpc⟩ := h.stays (by omega)
          refine ⟨hstays.callStep hpc hspec, ?_⟩
          rw [Expirer.settled_pc]
          exact pcOk_callStep rfl rfl hok (by omega) hspec
        · obtain ⟨fresh, hfresh, hkept⟩ := h.kept
          refine ⟨fresh ++ removal.toList, ?_, fun m hm hinode => ?_⟩
          · rw [hfresh, List.append_assoc]
          rcases List.mem_append.mp hm with hm | hm
          · exact hkept m hm hinode
          · obtain rfl := Option.mem_toList.mp hm
            by_contra hearly
            obtain ⟨-, -, -, htime, -⟩ := Expirer.removes_of_callStep hspec
            obtain ⟨hstays, hpc⟩ := h.stays (by omega)
            exact hstays.inode_ne hpc hspec hinode
    · cases hstep

/-- A directory whose move fails is where it was. -/
theorem find_of_moveDir_fails {w : World} {outcome : Outcome} {k k' : DirLoc} {now : ℤ}
    (hne : k ≠ k') (h : (w.moveDir outcome k k' now).2 = false) :
    (w.moveDir outcome k k' now).1.dirs.find k = w.dirs.find k := by
  cases outcome with
  | ok =>
    dsimp only [World.moveDir] at h ⊢
    split at h
    · cases h
    · rfl
  | fails => rfl
  | partly =>
    dsimp only [World.moveDir]
    split
    · exact DirTree.find_create_ne _ hne
    · rfl

/-- After the failure the directory is where it was. -/
theorem inv_of_failedMove {act : Action} (hfail : FailedMove config s act left)
    (hstep : s.step config act = some s₁) : left.Inv s₁ s₁ := by
  refine ⟨fun _ => ?_, .refl left s₁⟩
  cases hfail with
  | @release c a env fs id e timestamp fsconfig n hresult hfs hfind =>
    dsimp only [System.step] at hstep
    split at hstep
    · rename_i hidle
      obtain rfl := Option.some.inj hstep
      refine ⟨⟨n, ?_, rfl⟩, ?_⟩
      · have hspec := wsRelease_spec config c a env s.world
        dsimp only
        generalize wsRelease config c a env s.world = out at hspec hresult ⊢
        cases hspec with
        | refused | deleted => cases hresult
        | @released user_option fs' e' id' timestamp' w' moved commandline found hid htimestamp
            keep move =>
          obtain ⟨rfl, rfl, rfl, rfl, rfl⟩ := ReleaseResult.released.inj hresult
          have hw' := congrArg Prod.fst move
          have hmoved := congrArg Prod.snd move
          dsimp only at hw'
          rw [hw', find_of_moveDir_fails (e'.workspace.loc_ne_deleted _ _) hmoved.symm,
            DBEntry.release, World.renameEntry_dirs, World.writeEntry_dirs]
          exact hfind
      · dsimp only
        rw [hidle.1]
        trivial
    · cases hstep
  | @expirer t fs id e timestamp ids fsconfig n hpc hfails hfs hfind =>
    dsimp only [System.step] at hstep
    split at hstep
    · have hcall : s.expirer.callStep config t s.world =
          some ((s.world.moveDir t.outcome e.workspace.loc
            ⟨e.workspace.space, .deleted, deletedName e.workspace.name timestamp⟩ t.now).1,
              { s.expirer with pc := .expireEntries fs ids }, none) := by
        rw [Expirer.callStep.eq_def, hpc]
      rw [hcall] at hstep
      obtain rfl := Option.some.inj hstep
      refine ⟨⟨n, ?_, rfl⟩, ?_⟩
      · dsimp only
        rw [find_of_moveDir_fails (e.workspace.loc_ne_deleted _ _) hfails]
        exact hfind
      · rw [Expirer.settled_pc]
        trivial
    · cases hstep

/-- A step of the expirer at one time. -/
def tickFrom (now : ℤ) (listing : List Str) : Action := .tick ⟨now, now, now, listing, .ok⟩

/-- `bob` has allocated `x` a while ago. -/
def bobAllocates : List Action :=
  [.allocate bob (createArgs none) { bobEnv with now := 2000000000, created := 2000000000 }]

/-- His release does not move the directory. -/
def stuckRelease (now : ℤ) : Action :=
  .release bob ⟨['x'], none, none, false⟩ ⟨now, now, .fails⟩

/-- What is left over. -/
def bobLeftOver (now : ℤ) : LeftOver := ⟨⟨['s'], "bob-x".toList⟩, 0, now + 10 * 24 * 3600⟩

/-- The steps of a run up to the comparison of the live directories. -/
def runToStrays (now : ℤ) (dirs : List Str) : List Action :=
  [.expirer [['w']] none, tickFrom now [], tickFrom now dirs, tickFrom now [], tickFrom now [],
    tickFrom now []]

/-- The rest of a run that finds a stray directory, with what it lists in the deleted area. -/
def runFromStray (now : ℤ) (dirs ids : List Str) : List Action :=
  [tickFrom now [], tickFrom now [], tickFrom now [], tickFrom now dirs, tickFrom now [],
    tickFrom now ids, tickFrom now [], tickFrom now [], tickFrom now [], tickFrom now [],
    tickFrom now [], tickFrom now ids, tickFrom now [], tickFrom now []]

/-- An hour later the directory is moved, and removed by the next run. -/
def twoRuns : List Action :=
  runToStrays 2000004000 ["bob-x".toList] ++
    runFromStray 2000004000 ["bob-x-2000004000".toList] ["bob-x-2000000100".toList] ++
      runToStrays 2000005000 [] ++
        [tickFrom 2000005000 [], tickFrom 2000005000 ["bob-x-2000004000".toList],
          tickFrom 2000005000 [], tickFrom 2000005000 ["bob-x-2000000100".toList],
          tickFrom 2000005000 []]

/-- The state before the release. -/
def bobState : System :=
  (Runs.exec (System.step plainConfig) (.init 0) bobAllocates).getD (.init 0)

/-- His release fails to move the directory. -/
theorem failedMove_bob : FailedMove plainConfig bobState (stuckRelease 2000000100)
    (bobLeftOver 2000000100) := by
  have hfail := @FailedMove.release plainConfig bobState bob ⟨['x'], none, none, false⟩
    ⟨2000000100, 2000000100, .fails⟩ _ _ _ _ _ _ rfl rfl rfl
  exact hfail

end LeftOver

end HpcWorkspace
