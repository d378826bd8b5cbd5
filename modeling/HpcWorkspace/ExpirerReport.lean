import Mathlib.Algebra.Order.Ring.Int
import HpcWorkspace.ExpirePass
import HpcWorkspace.Listing

/-!
# The report of the expirer

`expire_workspaces` counts what it finds, with or without a dry-run. A dry-run changes nothing, and
what it says is what a real pass in its place does.
-/

namespace HpcWorkspace

/-! ## Counting -/

/-- `expire_result_t`, and the morbid files of the filesystem. -/
structure ExpireReport where
  /-- live entries -/
  active_seen : ℕ
  /-- those that are kept -/
  active_keep : ℕ
  /-- those that are over their time -/
  active_expired : ℕ
  /-- reminders -/
  active_mails : ℕ
  /-- deleted entries -/
  inactive_seen : ℕ
  /-- those that are kept -/
  inactive_keep : ℕ
  /-- those that are over their keep time -/
  inactive_deleted : ℕ
  /-- ids and reasons -/
  morbid : List (Str × Str)
  deriving DecidableEq

/-- What a round finds. -/
inductive Verdict where
  /-- the file is skipped -/
  | morbid (reason : Str)
  /-- its time is over -/
  | overdue
  /-- it is kept; is its user reminded? -/
  | keep (reminded : Bool)
  deriving DecidableEq

/-- What the rounds read apart from the entries. -/
structure ReportEnv where
  /-- the clock and the system calls of a round -/
  round : DbLoc → RoundEnv
  /-- the clock, when the reminder of an entry is looked at -/
  reminder : Str → ℤ
  /-- `smtphost` -/
  smtphost : Str
  /-- `mailfrom` -/
  mail_from : Str

namespace ReportEnv

/-- `smtpUrl`; it is never empty. -/
def smtpUrl (env : ReportEnv) : Str := "smtp://".toList ++ env.smtphost

/-- What the first loop finds out about an entry. -/
def liveVerdict (env : ReportEnv) (fs : Str) (w : World) (id : Str) : Verdict :=
  match w.readEntry fs .live id with
  | none => .morbid ("database exeption, filesystem: ".toList ++ fs)
  | some e =>
    if e.expiration ≤ 0 then .morbid ("bad expiration, filesystem: ".toList ++ fs)
    else if (env.round ⟨fs, .live, id⟩).now > e.expiration then .overdue
    else
      .keep (env.reminder id > e.expiration - e.reminder * (24 * 3600) &&
        !(env.smtpUrl == [] || env.mail_from == []))

/-- What the second loop finds out about an entry. -/
def deletedVerdict (config : Config) (env : ReportEnv) (fs : Str) (w : World) (id : Str) :
    Verdict :=
  match w.readEntry fs .deleted id, config.getFsConfig fs with
  | none, _ => .morbid ("database exeption, filesystem: ".toList ++ fs)
  | some _, none => .keep false
  | some e, some fsconfig =>
    match shouldDelete fsconfig id e (env.round ⟨fs, .deleted, id⟩).now with
    | none => .morbid ("unparsable name, filesystem: ".toList ++ fs)
    | some true => .overdue
    | some false => .keep false

end ReportEnv

namespace ExpireReport

/-- Nothing is seen yet. -/
def zero : ExpireReport := ⟨0, 0, 0, 0, 0, 0, 0, []⟩

/-- The counters of the first loop. -/
def countLive (r : ExpireReport) (id : Str) : Verdict → ExpireReport
  | .morbid reason =>
    { r with active_seen := r.active_seen + 1, morbid := r.morbid ++ [(id, reason)] }
  | .overdue =>
    { r with active_seen := r.active_seen + 1, active_expired := r.active_expired + 1 }
  | .keep reminded =>
    { r with
      active_seen := r.active_seen + 1
      active_keep := r.active_keep + 1
      active_mails := r.active_mails + reminded.toNat }

/-- The counters of the second loop. -/
def countDeleted (r : ExpireReport) (id : Str) : Verdict → ExpireReport
  | .morbid reason =>
    { r with inactive_seen := r.inactive_seen + 1, morbid := r.morbid ++ [(id, reason)] }
  | .overdue =>
    { r with inactive_seen := r.inactive_seen + 1, inactive_deleted := r.inactive_deleted + 1 }
  | .keep _ => { r with inactive_seen := r.inactive_seen + 1, inactive_keep := r.inactive_keep + 1 }

end ExpireReport

/-- A round of the first loop; a dry-run does nothing to the entry. -/
def liveRound (env : ReportEnv) (dryrun : Bool) (fs id : Str) (s : World × ExpireReport) :
    (World × ExpireReport) × Option Thrown :=
  let r := s.2.countLive id (env.liveVerdict fs s.1 id)
  if dryrun then ((s.1, r), none)
  else
    let (w, thrown) := expireRound fs env.round id s.1
    ((w, r), thrown)

/-- A round of the second loop. -/
def deletedRound (config : Config) (env : ReportEnv) (dryrun : Bool) (fs id : Str)
    (s : World × ExpireReport) : (World × ExpireReport) × Option Thrown :=
  let r := s.2.countDeleted id (env.deletedVerdict config fs s.1 id)
  if dryrun then ((s.1, r), none)
  else
    let (w, thrown) := deleteRound config fs env.round id s.1
    ((w, r), thrown)

/-- The first loop. -/
def liveLoop (env : ReportEnv) (dryrun : Bool) (fs : Str) (live : List Str) (w : World) :
    (World × ExpireReport) × Option (Thrown × List Str) :=
  Loops.forEach (liveRound env dryrun fs) live (w, .zero)

/-- `expire_workspaces` with its report, for listings of the live and the deleted entries. What is
thrown ends the process, and there is no report. -/
def expireReport (config : Config) (env : ReportEnv) (dryrun : Bool) (fs : Str)
    (live deleted : List Str) (w : World) : (World × ExpireReport) × Option (Thrown × List Str) :=
  match liveLoop env dryrun fs live w with
  | (s, some thrown) => (s, some thrown)
  | (s, none) => Loops.forEach (deletedRound config env dryrun fs) deleted s

/-! ## The loops -/

section Loops

variable {config : Config} {env : ReportEnv} {dryrun : Bool} {fs id : Str}
  {live deleted : List Str} {w : World} {s : World × ExpireReport}

theorem liveRound_report : (liveRound env dryrun fs id s).1.2 =
    s.2.countLive id (env.liveVerdict fs s.1 id) := by
  rw [liveRound]
  split <;> rfl

theorem deletedRound_report : (deletedRound config env dryrun fs id s).1.2 =
    s.2.countDeleted id (env.deletedVerdict config fs s.1 id) := by
  rw [deletedRound]
  split <;> rfl

/-- The first loop throws nothing. -/
theorem liveLoop_quiet : (liveLoop env dryrun fs live w).2 = none := by
  refine Loops.forEach_quiet (fun _ _ (_ : True) => trivial) (fun id _ s _ => ?_) trivial
  rw [liveRound]
  split
  · rfl
  · rw [expireRound_eq]

theorem expireReport_eq : expireReport config env dryrun fs live deleted w =
    Loops.forEach (deletedRound config env dryrun fs) deleted (liveLoop env dryrun fs live w).1 := by
  have hquiet : (liveLoop env dryrun fs live w).2 = none := liveLoop_quiet
  rw [expireReport]
  generalize liveLoop env dryrun fs live w = out at hquiet ⊢
  obtain ⟨s, thrown⟩ := out
  obtain rfl := hquiet
  rfl

end Loops

/-! ## A dry-run and a real pass -/

section DryRun

variable {config : Config} {env : ReportEnv} {fs id : Str} {live deleted : List Str}
  {w : World}

theorem liveVerdict_overdue : env.liveVerdict fs w id = .overdue ↔ ∃ e, Due fs env.round w id e := by
  rw [ReportEnv.liveVerdict]
  cases hread : w.readEntry fs .live id with
  | none =>
    refine ⟨fun h => (by cases h), fun h => ?_⟩
    obtain ⟨e, hdue⟩ := h
    cases hread.symm.trans hdue.read
  | some e =>
    dsimp only
    constructor
    · intro h
      split at h
      · cases h
      · rename_i htime
        split at h
        · rename_i hover
          exact ⟨e, hread, not_le.mp htime, hover⟩
        · cases h
    · rintro ⟨e', hdue⟩
      obtain rfl := Option.some.inj (hread.symm.trans hdue.read)
      rw [if_neg (not_le.mpr hdue.time), if_pos hdue.late]

theorem deletedVerdict_overdue : env.deletedVerdict config fs w id = .overdue ↔
    ∃ e, OverTime config fs (env.round ⟨fs, .deleted, id⟩) id w e := by
  rw [ReportEnv.deletedVerdict]
  cases hread : w.readEntry fs .deleted id with
  | none =>
    refine ⟨fun h => (by cases h), fun h => ?_⟩
    obtain ⟨e, hover⟩ := h
    rw [OverTime, hread] at hover
    cases hover.1
  | some e =>
    cases hfs : config.getFsConfig fs with
    | none =>
      refine ⟨fun h => (by cases h), fun h => ?_⟩
      obtain ⟨e, -, fsconfig, hfs', -⟩ := h
      rw [hfs] at hfs'
      cases hfs'
    | some fsconfig =>
      dsimp only
      constructor
      · intro h
        split at h
        · cases h
        · rename_i hdelete
          exact ⟨e, hread, fsconfig, hfs, hdelete⟩
        · cases h
      · rintro ⟨e', hread', fsconfig', hfs', hdelete⟩
        obtain rfl := Option.some.inj (hread.symm.trans hread')
        obtain rfl := Option.some.inj (hfs.symm.trans hfs')
        rw [hdelete]

/-- A dry-run changes nothing. -/
theorem dryrun_liveLoop_world : (liveLoop env true fs live w).1.1 = w :=
  Loops.forEach_invariant (fun _ (s : World × ExpireReport) (hs : s.1 = w) => hs) rfl

theorem dryrun_world : (expireReport config env true fs live deleted w).1.1 = w := by
  rw [expireReport_eq]
  exact Loops.forEach_invariant (fun _ (s : World × ExpireReport) (hs : s.1 = w) => hs)
    dryrun_liveLoop_world

/-- A real pass does to the state what `expire_workspaces` does. -/
theorem liveRounds_world (r : ExpireReport) :
    (Loops.forEach (liveRound env false fs) live (w, r)).1.1 =
      (Loops.forEach (expireRound fs env.round) live w).1 := by
  induction live generalizing w r with
  | nil => rfl
  | cons id live ih =>
    have hquiet : (expireRound fs env.round id w).2 = none := by rw [expireRound_eq]
    rw [Loops.forEach_cons_of_quiet hquiet, Loops.forEach_cons_of_quiet (by exact hquiet)]
    exact ih _

theorem deletedRounds_world (r : ExpireReport) :
    (Loops.forEach (deletedRound config env false fs) deleted (w, r)).1.1 =
        (Loops.forEach (deleteRound config fs env.round) deleted w).1 ∧
      (Loops.forEach (deletedRound config env false fs) deleted (w, r)).2 =
        (Loops.forEach (deleteRound config fs env.round) deleted w).2 := by
  induction deleted generalizing w r with
  | nil => exact ⟨rfl, rfl⟩
  | cons id deleted ih =>
    cases hx : (deleteRound config fs env.round id w).2 with
    | none =>
      rw [Loops.forEach_cons_of_quiet hx, Loops.forEach_cons_of_quiet (by exact hx)]
      exact ih _
    | some x =>
      rw [Loops.forEach_cons_of_throw hx, Loops.forEach_cons_of_throw (by exact hx)]
      exact ⟨rfl, rfl⟩

/-- What the first loop reports when the verdicts are those of one state. -/
def countAll (env : ReportEnv) (fs : Str) (w : World) (live : List Str) (r : ExpireReport) :
    ExpireReport :=
  live.foldl (fun r id => r.countLive id (env.liveVerdict fs w id)) r

theorem dryrun_live_report (r : ExpireReport) :
    (Loops.forEach (liveRound env true fs) live (w, r)).1.2 = countAll env fs w live r := by
  induction live generalizing r with
  | nil => rfl
  | cons id live ih =>
    rw [Loops.forEach_cons_of_quiet rfl]
    exact ih _

/-- A real pass finds in each round what was there before the pass. -/
theorem real_live_report (hready : PassReady fs env.round live w) (hnodup : live.Nodup)
    (r : ExpireReport) :
    (Loops.forEach (liveRound env false fs) live (w, r)).1.2 = countAll env fs w live r := by
  -- the verdicts of the start are those of each round
  have hverdicts : ∀ (w₀ : World) (r : ExpireReport), (∀ id ∈ live,
      w.readEntry fs .live id = w₀.readEntry fs .live id) →
      (Loops.forEach (liveRound env false fs) live (w, r)).1.2 = countAll env fs w₀ live r := by
    clear r
    induction live generalizing w with
    | nil => exact fun _ _ _ => rfl
    | cons id ids ih =>
      intro w₀ r hsame
      obtain ⟨hnew, hnodup⟩ := List.nodup_cons.mp hnodup
      have hmem : id ∈ id :: ids := List.mem_cons_self ..
      have hquiet : (expireRound fs env.round id w).2 = none := by rw [expireRound_eq]
      have hnext : PassReady fs env.round ids (expireRound fs env.round id w).1 ∧
          ∀ id' ∈ ids, (expireRound fs env.round id w).1.readEntry fs .live id' =
            w.readEntry fs .live id' := by
        by_cases hdue : ∃ e, Due fs env.round w id e
        · obtain ⟨e, hdue⟩ := hdue
          have hname := hready.named id hmem e hdue.read
          obtain ⟨ts, hgone, hframe⟩ := expireRound_expires hdue (hready.ok id hmem)
            (hready.clock id hmem) hname (hready.free id hmem e hdue)
          exact ⟨hready.next hframe (Int.le_trans (hready.clock id hmem) hgone.since) hname hnew,
            fun id' hid' => hframe.readEntry fun heq => hnew (heq ▸ hid')⟩
        · rw [not_exists] at hdue
          rw [expireRound_keeps hdue]
          exact ⟨hready.tail, fun _ _ => rfl⟩
      have hhead : env.liveVerdict fs w id = env.liveVerdict fs w₀ id := by
        rw [ReportEnv.liveVerdict, ReportEnv.liveVerdict, hsame id hmem]
      rw [Loops.forEach_cons_of_quiet (by exact hquiet), countAll, List.foldl_cons, ← hhead]
      exact ih hnext.1 hnodup w₀ _ fun id' hid' =>
        (hnext.2 id' hid').trans (hsame id' (List.mem_cons_of_mem _ hid'))
  exact hverdicts w r fun _ _ => rfl

/-- The counters of the first loop. -/
def ExpireReport.activeCounts (r : ExpireReport) : ℕ × ℕ × ℕ × ℕ :=
  (r.active_seen, r.active_keep, r.active_expired, r.active_mails)

theorem deletedLoop_activeCounts {s : World × ExpireReport} {dryrun : Bool} :
    (Loops.forEach (deletedRound config env dryrun fs) deleted s).1.2.activeCounts =
      s.2.activeCounts := by
  refine Loops.forEach_invariant
    (fun id (t : World × ExpireReport) (ht : t.2.activeCounts = s.2.activeCounts) => ?_) rfl
  rw [deletedRound_report, ← ht]
  cases env.deletedVerdict config fs t.1 id <;> rfl

/-- A dry-run counts the verdicts. -/
theorem dryrun_live (s : World × ExpireReport) :
    (Loops.forEach (liveRound env true fs) live s).1.2.active_expired =
        s.2.active_expired + live.countP (fun id => env.liveVerdict fs s.1 id = .overdue) ∧
      (Loops.forEach (liveRound env true fs) live s).1.2.inactive_deleted =
        s.2.inactive_deleted := by
  induction live generalizing s with
  | nil => exact ⟨rfl, rfl⟩
  | cons id live ih =>
    rw [Loops.forEach_cons_of_quiet rfl, (ih _).1, (ih _).2, liveRound_report, List.countP_cons]
    dsimp only [liveRound]
    cases env.liveVerdict fs s.1 id with
    | overdue => exact ⟨by simp [ExpireReport.countLive]; omega, rfl⟩
    | morbid | keep => exact ⟨by simp [ExpireReport.countLive], rfl⟩

theorem dryrun_deleted (s : World × ExpireReport) :
    (Loops.forEach (deletedRound config env true fs) deleted s).1.2.active_expired =
        s.2.active_expired ∧
      (Loops.forEach (deletedRound config env true fs) deleted s).1.2.inactive_deleted =
        s.2.inactive_deleted +
          deleted.countP fun id => env.deletedVerdict config fs s.1 id = .overdue := by
  induction deleted generalizing s with
  | nil => exact ⟨rfl, rfl⟩
  | cons id deleted ih =>
    rw [Loops.forEach_cons_of_quiet rfl, (ih _).1, (ih _).2, deletedRound_report, List.countP_cons]
    dsimp only [deletedRound]
    cases env.deletedVerdict config fs s.1 id with
    | overdue => exact ⟨rfl, by simp [ExpireReport.countDeleted]; omega⟩
    | morbid | keep => exact ⟨rfl, by simp [ExpireReport.countDeleted]⟩

/-- What a real pass leaves of the entries that were there before it. -/
theorem real_pass {deleted₁ : List Str} (hlive : live.Perm (w.matchPattern fs .live ['*'] ['*']))
    (hdeleted : deleted.Perm (w.matchPattern fs .deleted ['*'] ['*']))
    (hdeleted₁ : deleted₁.Perm
      ((liveLoop env false fs live w).1.1.matchPattern fs .deleted ['*'] ['*']))
    (hready : PassReady fs env.round live w)
    (hok : ∀ id ∈ deleted₁, (env.round ⟨fs, .deleted, id⟩).entry = .ok ∧
      (env.round ⟨fs, .deleted, id⟩).dir = .ok) :
    (expireReport config env false fs live deleted₁ w).2 = none ∧
      (∀ id ∈ live, (expireReport config env false fs live deleted₁ w).1.1.db.lookup ⟨fs, .live, id⟩ =
        if env.liveVerdict fs w id = .overdue then none else w.db.lookup ⟨fs, .live, id⟩) ∧
      (∀ id ∈ deleted,
        (expireReport config env false fs live deleted₁ w).1.1.db.lookup ⟨fs, .deleted, id⟩ =
          if env.deletedVerdict config fs w id = .overdue then none
          else w.db.lookup ⟨fs, .deleted, id⟩) := by
  have hpass := livePass_of_loop hready (hlive.nodup_iff.mpr (nodup_dirEntries ..))
  have hsecond : DeletedPass config fs env.round deleted₁ (liveLoop env false fs live w).1.1 _ ∧ _ :=
    deletedPass_of_loop hok (hdeleted₁.nodup_iff.mpr (nodup_dirEntries ..))
  obtain ⟨hworld, hthrown⟩ := @deletedRounds_world config env fs deleted₁
    (liveLoop env false fs live w).1.1 (liveLoop env false fs live w).1.2
  rw [expireReport_eq, hworld, hthrown]
  have hfirst : (liveLoop env false fs live w).1.1 =
      (Loops.forEach (expireRound fs env.round) live w).1 := liveRounds_world _
  rw [hfirst] at hsecond hdeleted₁ ⊢
  generalize (Loops.forEach (expireRound fs env.round) live w).1 = w₁ at hpass hsecond hdeleted₁ ⊢
  obtain ⟨hgone, hquiet⟩ := hsecond
  refine ⟨hquiet, fun id hid => ?_, fun id hid => ?_⟩
  · rw [hgone.kept _ fun _ harea => by cases harea]
    by_cases hover : env.liveVerdict fs w id = .overdue
    · obtain ⟨e, hdue⟩ := liveVerdict_overdue.mp hover
      obtain ⟨ts, hretired⟩ := hpass.expired id hid e hdue
      rw [if_pos hover]
      exact hretired.gone
    · rw [if_neg hover]
      exact hpass.live_kept _ rfl fun _ _ e hdue => hover (liveVerdict_overdue.mpr ⟨e, hdue⟩)
  · -- the entry is there when the second loop begins, and as it was
    obtain ⟨hsome, hglob⟩ := mem_dirEntries.mp (hdeleted.mem_iff.mp hid)
    obtain ⟨f, hf⟩ := Option.isSome_iff_exists.mp hsome
    have hsame := hpass.deleted_kept _ f rfl hf
    have hread : w₁.readEntry fs .deleted id = w.readEntry fs .deleted id := by
      rw [World.readEntry, World.readEntry, hsame, hf]
    have hid₁ : id ∈ deleted₁ := by
      refine hdeleted₁.mem_iff.mpr (mem_dirEntries.mpr ⟨?_, hglob⟩)
      rw [hsame]
      rfl
    by_cases hover : env.deletedVerdict config fs w id = .overdue
    · obtain ⟨e, hdue⟩ := deletedVerdict_overdue.mp hover
      rw [if_pos hover]
      exact (hgone.removed id hid₁ e ⟨hread.trans hdue.1, hdue.2⟩).1
    · rw [if_neg hover, hf, ← hsame]
      refine hgone.kept _ fun _ _ _ e hdue => hover (deletedVerdict_overdue.mpr ⟨e, ?_⟩)
      exact ⟨hread.symm.trans hdue.1, hdue.2⟩

/-- **An honest dry-run.** In every state that ordinary users and the expirer can reach: a dry-run
changes nothing, and counts what it finds over its time. A real pass in its place, at the same times
and without failing system calls, reports the same about the live entries, and takes away exactly
those live and deleted entries that the dry-run found over their time; all others of both listings
are as they were. -/
theorem dryrun_honest (config : Config) (clock : ℤ) (acts : List Action)
    (hacts : ∀ act ∈ acts, act.Ordinary) (s : System)
    (hreach : Runs.exec (System.step config) (.init clock) acts = some s) (env : ReportEnv) (fs : Str)
    (live deleted deleted₁ : List Str)
    (hlive : live.Perm (s.world.matchPattern fs .live ['*'] ['*']))
    (hdeleted : deleted.Perm (s.world.matchPattern fs .deleted ['*'] ['*']))
    (hdeleted₁ : deleted₁.Perm
      ((liveLoop env false fs live s.world).1.1.matchPattern fs .deleted ['*'] ['*']))
    (hcalls : ∀ k, (env.round k).entry = .ok ∧ (env.round k).dir = .ok)
    (hclock : ∀ k, 0 ≤ (env.round k).timestamp)
    (hfree : ∀ id ∈ live, ∀ e, Due fs env.round s.world id e →
      NameFree s.world fs id e (env.round ⟨fs, .live, id⟩).timestamp)
    (dry real : World × ExpireReport)
    (hdry : (expireReport config env true fs live deleted s.world).1 = dry)
    (hreal : (expireReport config env false fs live deleted₁ s.world).1 = real) :
    (dry.1 = s.world ∧
        dry.2.active_expired = live.countP (fun id => env.liveVerdict fs s.world id = .overdue) ∧
        dry.2.inactive_deleted =
          deleted.countP (fun id => env.deletedVerdict config fs s.world id = .overdue)) ∧
      real.2.activeCounts = dry.2.activeCounts ∧
      (∀ id ∈ live, real.1.db.lookup ⟨fs, .live, id⟩ =
        if env.liveVerdict fs s.world id = .overdue then none
        else s.world.db.lookup ⟨fs, .live, id⟩) ∧
      (∀ id ∈ deleted, real.1.db.lookup ⟨fs, .deleted, id⟩ =
        if env.deletedVerdict config fs s.world id = .overdue then none
        else s.world.db.lookup ⟨fs, .deleted, id⟩) := by
  have hplaced : s.world.Entries (Placed config) := by
    have hmeets : Runs.Meets (System.step config) (fun _ act => act.Ordinary) (.init clock) acts :=
      .of_mem (fun act hact _ => hacts act hact) _
    exact hmeets.invariant (fun _ _ _ hs hact hstep => placed_step hs hact hstep)
      (placed_init config clock) hreach
  have hready : PassReady fs env.round live s.world :=
    ⟨fun id _ => hcalls _, fun id _ => hclock _, fun id _ e he =>
      (hplaced _ _ (World.readEntry_eq_some.mp he).2).name rfl, hfree⟩
  obtain ⟨-, hlives, hdeleteds⟩ := @real_pass config _ _ _ _ _ _ hlive hdeleted hdeleted₁ hready
    fun _ _ => hcalls _
  rw [hreal] at hlives hdeleteds
  refine ⟨⟨?_, ?_, ?_⟩, ?_, hlives, hdeleteds⟩
  · rw [← hdry]
    exact dryrun_world
  · rw [← hdry, expireReport_eq, (dryrun_deleted _).1, liveLoop, (dryrun_live _).1]
    exact Nat.zero_add _
  · rw [← hdry, expireReport_eq, (dryrun_deleted _).2, dryrun_liveLoop_world, liveLoop,
      (dryrun_live _).2]
    exact Nat.zero_add _
  · rw [← hdry, ← hreal, expireReport_eq, expireReport_eq, deletedLoop_activeCounts,
      deletedLoop_activeCounts, liveLoop, liveLoop, dryrun_live_report,
      real_live_report hready (hlive.nodup_iff.mpr (nodup_dirEntries ..))]

end DryRun

/-- A pass long after `bob` has left, without mails. -/
def lateReport : ReportEnv where
  round _ := ⟨2000000000, 2000000000, 2000000000, 2000000000, .ok, .ok, .done⟩
  reminder _ := 0
  smtphost := []
  mail_from := []

set_option maxRecDepth 4000 in
/-- The dry-run of this pass announces that the workspace `x` of `bob` goes. -/
theorem dryrun_honest_bob : ∃ s dry real,
    Runs.exec (System.step plainConfig) (.init 0) [.allocate bob (createArgs none) bobEnv] = some s ∧
      (expireReport plainConfig lateReport true ['w'] ["bob-x".toList] [] s.world).1 = dry ∧
      (expireReport plainConfig lateReport false ['w'] ["bob-x".toList]
        ["bob-x-2000000000".toList] s.world).1 = real ∧
      real.2.activeCounts = dry.2.activeCounts := by
  refine ⟨_, _, _, rfl, rfl, rfl, (dryrun_honest plainConfig 0
    [.allocate bob (createArgs none) bobEnv] ?_ _ rfl lateReport ['w'] ["bob-x".toList] []
    ["bob-x-2000000000".toList] (by decide) (by decide) (by decide) (fun _ => ⟨rfl, rfl⟩)
    (fun _ => (by decide : (0 : ℤ) ≤ 2000000000)) ?_ _ _ rfl rfl).2.1⟩
  · intro act hact
    obtain rfl := List.mem_singleton.mp hact
    exact ⟨by decide, by decide⟩
  · intro id hid e hdue
    obtain rfl := List.mem_singleton.mp hid
    obtain rfl := Option.some.inj hdue.read
    exact ⟨0, by decide, by decide⟩

end HpcWorkspace
