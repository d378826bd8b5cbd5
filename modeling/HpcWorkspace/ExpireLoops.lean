import HpcWorkspace.Entries
import HpcWorkspace.Lib.Loops

/-!
# The loops of `expire_workspaces`

The two loops entry by entry, with the exceptions the calls of a round throw and the `catch` blocks
around them. The rounds are the steps of the expirer, taken together for each entry. All that is
thrown is handled in the round, but for what `deleteEntry` throws: no `catch` block is around that
call, so the process ends.
-/

namespace HpcWorkspace

/-! ## Exceptions -/

/-- What a call throws. -/
inductive Thrown where
  /-- `DatabaseException` -/
  | DatabaseException
  /-- `filesystem_error` -/
  | filesystem_error
  /-- another `std::exception` -/
  | exception
  deriving DecidableEq

/-- The types in the `catch` blocks. -/
inductive Handler where
  /-- `catch (DatabaseException& e)` -/
  | DatabaseException
  /-- `catch (cppfs::filesystem_error& e)` -/
  | filesystem_error
  /-- `catch (const std::exception& e)`, the base of all -/
  | exception
  deriving DecidableEq

/-- Does a `catch` block handle an exception? -/
def Handler.handles : Handler → Thrown → Bool
  | .exception, _ => true
  | .DatabaseException, .DatabaseException => true
  | .filesystem_error, .filesystem_error => true
  | _, _ => false

/-- A `try` block: the state a call leaves, and what it throws to the caller of the block. -/
def Handler.catches (handler : Handler) (call : World × Option Thrown) : World × Option Thrown :=
  (call.1, call.2.filter fun x => !handler.handles x)

/-! ## The calls of a round -/

/-- How a mail ends, with all that is done to send it. -/
inductive Mail where
  /-- none is sent, or it is sent, or it is refused -/
  | done
  /-- something throws -/
  | throws
  deriving DecidableEq

/-- What the round of an entry reads of its surroundings. -/
structure RoundEnv where
  /-- the clock, when the entry's time is looked at -/
  now : ℤ
  /-- the clock, for the name in the deleted area -/
  timestamp : ℤ
  /-- the clock, for `expired` -/
  expired : ℤ
  /-- the clock, when the directory is moved -/
  moved : ℤ
  /-- how the entry file is moved or removed -/
  entry : Outcome
  /-- how the directory is moved or removed -/
  dir : Outcome
  /-- how the mail ends -/
  mail : Mail

/-- `robust_rename` -/
def robust_rename (outcome : Outcome) (src dest : DirLoc) (now : ℤ) (w : World) :
    World × Option Thrown :=
  match w.moveDir outcome src dest now with
  | (w, true) => (w, none)
  | (w, false) => (w, some .filesystem_error)

/-- Read the user's configuration, make a mail and send it. -/
def sendMail (mail : Mail) (w : World) : World × Option Thrown :=
  (w, if mail = .throws then some .exception else none)

/-- `deleteEntry` -/
def deleteEntry (outcome : Outcome) (k : DbLoc) (w : World) : World × Option Thrown :=
  if outcome = .ok then (w.removeEntry k, none) else (w, some .DatabaseException)

/-! ## The loops -/

/-- The body of the first loop of `expire_workspaces`. -/
def expireRound (fs : Str) (env : DbLoc → RoundEnv) (id : Str) (w : World) :
    World × Option Thrown :=
  let t := env ⟨fs, .live, id⟩
  match w.readEntry fs .live id with
  | none => Handler.DatabaseException.catches (w, some .DatabaseException)
  | some e =>
    if e.expiration ≤ 0 then (w, none)
    else if t.now > e.expiration then
      -- db entry first; on failure the entry stays live and the next run retries
      match w.expire fs id e t.timestamp t.expired t.entry with
      | (none, w) => Handler.exception.catches (w, some .exception)
      | (some timestamp, w) =>
        -- workspace second
        let tgt := ⟨e.workspace.space, .deleted, deletedName e.workspace.name timestamp⟩
        match Handler.filesystem_error.catches
            (robust_rename t.dir e.workspace.loc tgt t.moved w) with
        | (w, some x) => (w, some x)
        | (w, none) => Handler.exception.catches (sendMail t.mail w)
    else Handler.exception.catches (sendMail t.mail w)

/-- The body of the second loop of `expire_workspaces`. -/
def deleteRound (config : Config) (fs : Str) (env : DbLoc → RoundEnv) (id : Str) (w : World) :
    World × Option Thrown :=
  let t := env ⟨fs, .deleted, id⟩
  match w.readEntry fs .deleted id, config.getFsConfig fs with
  | none, _ => Handler.DatabaseException.catches (w, some .DatabaseException)
  | some _, none => (w, none)
  | some e, some fsconfig =>
    match shouldDelete fsconfig id e t.now with
    -- `stol`: `out_of_range` and `invalid_argument` are handled
    | none => Handler.exception.catches (w, some .exception)
    | some false => (w, none)
    | some true =>
      -- this call is in no `try` block
      match deleteEntry t.entry ⟨fs, .deleted, id⟩ w with
      | (w, some x) => (w, some x)
      | (w, none) => (w.rmtree t.dir ⟨e.workspace.space, .deleted, id⟩, none)

/-- `expire_workspaces`, for listings of the live and the deleted entries: the state it leaves, and
when it throws, what, and the entries that it did not take up. -/
def expire_workspaces (config : Config) (fs : Str) (env : DbLoc → RoundEnv)
    (live deleted : List Str) (w : World) : World × Option (Thrown × List DbLoc) :=
  match Loops.forEach (expireRound fs env) live w with
  | (w, some (x, rest)) =>
    (w, some (x, rest.map (⟨fs, .live, ·⟩) ++ deleted.map (⟨fs, .deleted, ·⟩)))
  | (w, none) =>
    match Loops.forEach (deleteRound config fs env) deleted w with
    | (w, some (x, rest)) => (w, some (x, rest.map (⟨fs, .deleted, ·⟩)))
    | (w, none) => (w, none)

/-! ## What a round does -/

section Rounds

variable {config : Config} {fs id : Str} {env : DbLoc → RoundEnv} {w w' : World}

/-- `catch (const std::exception& e)` handles everything. -/
@[simp] theorem exception_catches (call : World × Option Thrown) :
    Handler.exception.catches call = (call.1, none) := by
  obtain ⟨w, x⟩ := call
  cases x with
  | none => rfl
  | some x => rfl

/-- A directory that is not moved is handled. -/
@[simp] theorem catches_robust_rename (outcome : Outcome) (src dest : DirLoc) (now : ℤ)
    (w : World) : Handler.filesystem_error.catches (robust_rename outcome src dest now w) =
      ((w.moveDir outcome src dest now).1, none) := by
  rw [robust_rename]
  cases w.moveDir outcome src dest now with
  | mk w moved => cases moved <;> rfl

/-- Where the directory of an expired entry is moved to. -/
def expiredDir (e : DBEntry) (timestamp : ℤ) : DirLoc :=
  ⟨e.workspace.space, .deleted, deletedName e.workspace.name timestamp⟩

/-- The state after an entry that is over its time. -/
def expireOver (fs : Str) (t : RoundEnv) (id : Str) (e : DBEntry) (w : World) : World :=
  match w.expire fs id e t.timestamp t.expired t.entry with
  | (none, w) => w
  | (some timestamp, w) =>
    (w.moveDir t.dir e.workspace.loc (expiredDir e timestamp) t.moved).1

/-- A round of the first loop throws nothing; it leaves the state as it was, or expires the
entry. -/
theorem expireRound_eq (fs : Str) (env : DbLoc → RoundEnv) (id : Str) (w : World) :
    expireRound fs env id w =
      (match w.readEntry fs .live id with
        | none => w
        | some e =>
          if 0 < e.expiration ∧ e.expiration < (env ⟨fs, .live, id⟩).now then
            expireOver fs (env ⟨fs, .live, id⟩) id e w
          else w, none) := by
  dsimp only [expireRound]
  cases w.readEntry fs .live id with
  | none => rfl
  | some e =>
    dsimp only
    by_cases hpos : e.expiration ≤ 0
    · rw [if_pos hpos, if_neg (by omega)]
    rw [if_neg hpos]
    by_cases hover : (env ⟨fs, .live, id⟩).now > e.expiration
    · rw [if_pos hover, if_pos (by omega), expireOver]
      cases w.expire fs id e _ _ _ with
      | mk timestamp w =>
        cases timestamp with
        | none => rfl
        | some timestamp => simp [expiredDir, sendMail]
    · rw [if_neg hover, if_neg (by omega), exception_catches, sendMail]

/-- The ways an entry that is over its time can go. -/
theorem expireOver_cases (fs : Str) (t : RoundEnv) (id : Str) (e : DBEntry) (w : World) :
    expireOver fs t id e w = w ∨
      expireOver fs t id e w = w.writeEntry ⟨fs, .live, id⟩ { e with expired := t.expired } ∨
      ∃ ts, (0 ≤ t.timestamp ∧ t.timestamp ≤ ts) ∧
        w.nameTaken fs e (deletedName id ts) = false ∧
        expireOver fs t id e w =
          (((w.writeEntry ⟨fs, .live, id⟩ { e with expired := t.expired }).renameEntry
            ⟨fs, .live, id⟩ ⟨fs, .deleted, deletedName id ts⟩).moveDir t.dir e.workspace.loc
              (expiredDir e ts) t.moved).1 := by
  rcases Expirer.expire_cases w fs id e t.timestamp t.expired t.entry with
    heq | ⟨-, heq⟩ | ⟨ts, hts, hfree, heq⟩
  · exact Or.inl (by rw [expireOver, heq])
  · exact Or.inr (Or.inl (by rw [expireOver, heq]))
  · exact Or.inr (Or.inr ⟨ts, hts, hfree, by rw [expireOver, heq]⟩)

/-- A deleted entry is over its time. -/
def OverTime (config : Config) (fs : Str) (t : RoundEnv) (id : Str) (w : World) (e : DBEntry) :
    Prop :=
  w.readEntry fs .deleted id = some e ∧ ∃ fsconfig, config.getFsConfig fs = some fsconfig ∧
    shouldDelete fsconfig id e t.now = some true

/-- A round of the second loop leaves the state as it was, or deletes the entry, or throws. -/
theorem deleteRound_cases (config : Config) (fs : Str) (env : DbLoc → RoundEnv) (id : Str)
    (w : World) :
    (deleteRound config fs env id w = (w, none) ∧
        ∀ e, ¬OverTime config fs (env ⟨fs, .deleted, id⟩) id w e) ∨
      ∃ e, OverTime config fs (env ⟨fs, .deleted, id⟩) id w e ∧
        (((env ⟨fs, .deleted, id⟩).entry = .ok ∧ deleteRound config fs env id w =
            ((w.removeEntry ⟨fs, .deleted, id⟩).rmtree (env ⟨fs, .deleted, id⟩).dir
              ⟨e.workspace.space, .deleted, id⟩, none)) ∨
          ((env ⟨fs, .deleted, id⟩).entry ≠ .ok ∧
            deleteRound config fs env id w = (w, some .DatabaseException))) := by
  dsimp only [deleteRound, OverTime]
  cases hread : w.readEntry fs .deleted id with
  | none => exact Or.inl ⟨rfl, nofun⟩
  | some e =>
    cases hfs : config.getFsConfig fs with
    | none => exact Or.inl ⟨rfl, fun _ h => by obtain ⟨-, _, h, -⟩ := h; cases h⟩
    | some fsconfig =>
      dsimp only
      have hno : ∀ b, shouldDelete fsconfig id e (env ⟨fs, .deleted, id⟩).now = b →
          b ≠ some true → ∀ e', ¬(some e = some e' ∧ ∃ fsconfig', some fsconfig = some fsconfig' ∧
            shouldDelete fsconfig' id e' (env ⟨fs, .deleted, id⟩).now = some true) := by
        rintro b hb hne e' ⟨he, fsconfig', hfs', htrue⟩
        obtain rfl := Option.some.inj he
        obtain rfl := Option.some.inj hfs'
        exact hne (hb.symm.trans htrue)
      cases hdel : shouldDelete fsconfig id e (env ⟨fs, .deleted, id⟩).now with
      | none => exact Or.inl ⟨exception_catches _, hno none hdel nofun⟩
      | some due =>
        cases due with
        | false => exact Or.inl ⟨rfl, hno (some false) hdel nofun⟩
        | true =>
          refine Or.inr ⟨e, ⟨rfl, fsconfig, rfl, hdel⟩, ?_⟩
          by_cases hok : (env ⟨fs, .deleted, id⟩).entry = .ok
          · exact Or.inl ⟨hok, by simp [deleteEntry, hok]⟩
          · exact Or.inr ⟨hok, by simp [deleteEntry, hok]⟩

end Rounds

/-- The first loop throws nothing. -/
theorem forEach_expireRound_quiet (fs : Str) (env : DbLoc → RoundEnv) (live : List Str)
    (w : World) : (Loops.forEach (expireRound fs env) live w).2 = none := by
  have hquiet : ∀ id ∈ live, ∀ w, True → (expireRound fs env id w).2 = none := by
    intro id _ w _
    rw [expireRound_eq]
  exact Loops.forEach_quiet (fun _ _ _ => trivial) hquiet trivial

/-- So the second one follows. -/
theorem expire_workspaces_eq (config : Config) (fs : Str) (env : DbLoc → RoundEnv)
    (live deleted : List Str) (w : World) :
    expire_workspaces config fs env live deleted w =
      ((Loops.forEach (deleteRound config fs env) deleted
          (Loops.forEach (expireRound fs env) live w).1).1,
        (Loops.forEach (deleteRound config fs env) deleted
          (Loops.forEach (expireRound fs env) live w).1).2.map
            fun x => (x.1, x.2.map (⟨fs, .deleted, ·⟩))) := by
  have hquiet := forEach_expireRound_quiet fs env live w
  rw [expire_workspaces]
  generalize Loops.forEach (expireRound fs env) live w = out at hquiet ⊢
  obtain ⟨w₁, x₁⟩ := out
  obtain rfl := hquiet
  dsimp only
  generalize Loops.forEach (deleteRound config fs env) deleted w₁ = out
  obtain ⟨w₂, x₂⟩ := out
  cases x₂ with
  | none => rfl
  | some x₂ => rfl

/-! ## The loops and the steps of the expirer -/

section Steps

variable (config : Config) (fs : Str) (env : DbLoc → RoundEnv)

/-- A step of the expirer. -/
def Expirer.runStep (config : Config) (s : World × Expirer) (t : Tick) : Option (World × Expirer) :=
  (s.2.callStep config t s.1).map fun r => (r.1, r.2.1)

/-- The first step of a round. -/
def RoundEnv.tick (t : RoundEnv) : Tick := ⟨t.now, t.timestamp, t.expired, [], t.entry⟩

/-- The step with the directory. -/
def RoundEnv.dirTick (t : RoundEnv) : Tick := ⟨t.moved, t.moved, t.moved, [], t.dir⟩

/-- A round of the first loop is one step of the expirer or two. -/
theorem expireRound_run (x : Expirer) (id : Str) (ids : List Str) (w : World) :
    ∃ ticks, Runs.exec (Expirer.runStep config) (w, { x with pc := .expireEntries fs (id :: ids) })
      ticks = some ((expireRound fs env id w).1, { x with pc := .expireEntries fs ids }) := by
  rw [expireRound_eq]
  dsimp only
  cases hread : w.readEntry fs .live id with
  | none =>
    refine ⟨[(env ⟨fs, .live, id⟩).tick], ?_⟩
    simp [Runs.exec, Expirer.runStep, Expirer.callStep, hread]
  | some e =>
    dsimp only
    by_cases hover : 0 < e.expiration ∧ e.expiration < (env ⟨fs, .live, id⟩).now
    · rw [if_pos hover, expireOver]
      have hnot : ¬(e.expiration ≤ 0 ∨ (env ⟨fs, .live, id⟩).tick.now ≤ e.expiration) := by
        dsimp only [RoundEnv.tick]
        omega
      cases hexpire : w.expire fs id e (env ⟨fs, .live, id⟩).timestamp
          (env ⟨fs, .live, id⟩).expired (env ⟨fs, .live, id⟩).entry with
      | mk timestamp w₁ =>
        cases timestamp with
        | none =>
          refine ⟨[(env ⟨fs, .live, id⟩).tick], ?_⟩
          simp only [Runs.exec, Expirer.runStep, Expirer.callStep, hread, if_neg hnot]
          simp only [RoundEnv.tick, hexpire, Option.map_some]
        | some timestamp =>
          refine ⟨[(env ⟨fs, .live, id⟩).tick, (env ⟨fs, .live, id⟩).dirTick], ?_⟩
          simp only [Runs.exec, Expirer.runStep, Expirer.callStep, hread, if_neg hnot]
          simp only [RoundEnv.tick, RoundEnv.dirTick, hexpire, Option.map_some, expiredDir]
    · rw [if_neg hover]
      have hnot : e.expiration ≤ 0 ∨ (env ⟨fs, .live, id⟩).tick.now ≤ e.expiration := by
        dsimp only [RoundEnv.tick]
        omega
      refine ⟨[(env ⟨fs, .live, id⟩).tick], ?_⟩
      simp only [Runs.exec, Expirer.runStep, Expirer.callStep, hread, if_pos hnot, Option.map_some]

/-- A round of the second loop is one step of the expirer or two; a throw ends the process. -/
theorem deleteRound_run (x : Expirer) (id : Str) (ids : List Str) (w : World) :
    ∃ ticks, Runs.exec (Expirer.runStep config) (w, { x with pc := .deleteEntries fs (id :: ids) })
      ticks = some ((deleteRound config fs env id w).1,
        if (deleteRound config fs env id w).2.isSome then .idle
        else { x with pc := .deleteEntries fs ids }) := by
  rcases deleteRound_cases config fs env id w with
    ⟨heq, hno⟩ | ⟨e, ⟨hread, fsconfig, hfs, hdel⟩, ⟨hok, heq⟩ | ⟨hfail, heq⟩⟩ <;> rw [heq]
  · refine ⟨[(env ⟨fs, .deleted, id⟩).tick], ?_⟩
    cases hread : w.readEntry fs .deleted id with
    | none => simp [Runs.exec, Expirer.runStep, Expirer.callStep, hread]
    | some e =>
      cases hfs : config.getFsConfig fs with
      | none => simp [Runs.exec, Expirer.runStep, Expirer.callStep, hread, hfs]
      | some fsconfig =>
        have hnot : shouldDelete fsconfig id e (env ⟨fs, .deleted, id⟩).tick.now ≠ some true :=
          fun hdel => hno e ⟨hread, fsconfig, hfs, hdel⟩
        simp [Runs.exec, Expirer.runStep, Expirer.callStep, hread, hfs, hnot]
  · refine ⟨[(env ⟨fs, .deleted, id⟩).tick, (env ⟨fs, .deleted, id⟩).dirTick], ?_⟩
    simp [Runs.exec, Expirer.runStep, Expirer.callStep, hread, hfs, RoundEnv.tick, hdel, hok,
      RoundEnv.dirTick]
  · refine ⟨[(env ⟨fs, .deleted, id⟩).tick], ?_⟩
    simp [Runs.exec, Expirer.runStep, Expirer.callStep, hread, hfs, RoundEnv.tick, hdel, hfail]

/-- The first loop is a run of the expirer. -/
theorem live_loop_run (x : Expirer) (live : List Str) (w : World) :
    ∃ ticks, Runs.exec (Expirer.runStep config) (w, { x with pc := .expireEntries fs live }) ticks =
      some ((Loops.forEach (expireRound fs env) live w).1, { x with pc := .listDeleted fs }) := by
  induction live generalizing w with
  | nil => exact ⟨[⟨0, 0, 0, [], .ok⟩], rfl⟩
  | cons id live ih =>
    have hquiet : (expireRound fs env id w).2 = none := by rw [expireRound_eq]
    obtain ⟨first, hfirst⟩ := expireRound_run config fs env x id live w
    obtain ⟨rest, hrest⟩ := ih (expireRound fs env id w).1
    refine ⟨first ++ rest, ?_⟩
    rw [Runs.exec_append, hfirst, Loops.forEach_cons_of_quiet hquiet]
    exact hrest

/-- The second loop is a run of the expirer; when it throws, the process ends. -/
theorem deleted_loop_run (x : Expirer) (deleted : List Str) (w : World) :
    ∃ ticks, Runs.exec (Expirer.runStep config) (w, { x with pc := .deleteEntries fs deleted })
      ticks = some ((Loops.forEach (deleteRound config fs env) deleted w).1,
        if (Loops.forEach (deleteRound config fs env) deleted w).2.isSome then .idle
        else { x with pc := .ready }) := by
  induction deleted generalizing w with
  | nil => exact ⟨[⟨0, 0, 0, [], .ok⟩], rfl⟩
  | cons id deleted ih =>
    obtain ⟨first, hfirst⟩ :=
      deleteRound_run config fs env x id deleted w
    cases hthrow : (deleteRound config fs env id w).2 with
    | none =>
      rw [hthrow] at hfirst
      obtain ⟨rest, hrest⟩ := ih (deleteRound config fs env id w).1
      refine ⟨first ++ rest, ?_⟩
      rw [Runs.exec_append, hfirst, Loops.forEach_cons_of_quiet hthrow]
      exact hrest
    | some thrown =>
      rw [hthrow] at hfirst
      refine ⟨first, ?_⟩
      rw [hfirst, Loops.forEach_cons_of_throw hthrow]
      rfl

/-- **The loops are the expirer's.** A call of `expire_workspaces` for the listings of its two areas
is a run of steps of the expirer, and an exception ends the process. -/
theorem expire_workspaces_run (x : Expirer) {live deleted : List Str} {w : World}
    (hopen : w.openDB fs = true) (hlive : live.Perm (w.matchPattern fs .live ['*'] ['*']))
    (hdeleted : deleted.Perm ((Loops.forEach (expireRound fs env) live w).1.matchPattern fs .deleted
      ['*'] ['*'])) :
    ∃ ticks, Runs.exec (Expirer.runStep config) (w, { x with pc := .listLive fs }) ticks =
      some ((expire_workspaces config fs env live deleted w).1,
        if (expire_workspaces config fs env live deleted w).2.isSome then .idle
        else { x with pc := .ready }) := by
  obtain ⟨first, hfirst⟩ := live_loop_run config fs env x live w
  obtain ⟨second, hsecond⟩ := deleted_loop_run config fs env x deleted
    (Loops.forEach (expireRound fs env) live w).1
  refine ⟨⟨0, 0, 0, live, .ok⟩ :: (first ++ ⟨0, 0, 0, deleted, .ok⟩ :: second), ?_⟩
  have hlist : Expirer.runStep config (w, { x with pc := .listLive fs }) ⟨0, 0, 0, live, .ok⟩ =
      some (w, { x with pc := .expireEntries fs live }) := by
    simp [Expirer.runStep, Expirer.callStep, hopen, hlive]
  have hlistDeleted : Expirer.runStep config
      ((Loops.forEach (expireRound fs env) live w).1, { x with pc := .listDeleted fs })
        ⟨0, 0, 0, deleted, .ok⟩ = some ((Loops.forEach (expireRound fs env) live w).1,
          { x with pc := .deleteEntries fs deleted }) := by
    simp [Expirer.runStep, Expirer.callStep, hdeleted]
  rw [Runs.exec_cons, hlist, Option.bind_some, Runs.exec_append, hfirst, Option.bind_some,
    Runs.exec_cons, hlistDeleted, Option.bind_some, hsecond, expire_workspaces_eq,
    Option.isSome_map]

end Steps

end HpcWorkspace
