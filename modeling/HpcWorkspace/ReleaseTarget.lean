import HpcWorkspace.Release

/-!
# Where a release puts a workspace

`release` looks once whether the name for the entry is taken in the database, takes the next second
if it is, and renames. It does not look again, and neither it nor `ws_release` looks at the deleted
directories. `rename` replaces a file, and an empty directory; `mv`, which is used across devices,
moves into a directory that is there.
-/

namespace HpcWorkspace

/-- How the move of the directory goes. -/
inductive MoveCall where
  /-- `rename`, on one device -/
  | rename
  /-- `rename` fails for another reason -/
  | fails
  /-- `rename` fails across devices, and `mv` is called -/
  | mv (outcome : Outcome)
  deriving DecidableEq

/-- What a release leaves. -/
structure Released where
  /-- the state -/
  world : World
  /-- did it succeed? -/
  success : Bool
  /-- the entry file that was replaced -/
  replacedEntry : Option DbFile
  /-- the directory that was replaced -/
  replacedDir : Option (DirNode Dir)

namespace World

/-- The move of the directory in `ws_release`: the state, the success, and what was replaced. -/
def moveReleased (w : World) (call : MoveCall) (k k' : DirLoc) (now : ℤ) :
    World × Bool × Option (DirNode Dir) :=
  match call with
  | .rename =>
    match w.renameDir k k' with
    | some moved => (moved, true, w.dirs.find k')
    | none => (w, false, none)
  | .fails | .mv .fails => (w, false, none)
  | .mv .ok =>
    match w.dirs.find k, w.dirs.find k' with
    | none, _ => (w, false, none)
    | some _, none => ({ w with dirs := w.dirs.move k k' }, true, none)
    -- a directory at the target takes it in
    | some _, some _ => ((w.touch k' now false).removeDir k, true, none)
  | .mv .partly =>
    match w.dirs.find k, w.dirs.find k' with
    | none, _ => (w, false, none)
    | some n, none => ({ w with dirs := w.dirs.create k' ⟨now, false, n.attr.uid⟩ }, false, none)
    | some _, some _ => (w.touch k' now false, false, none)

/-- `DBEntryV1::release`, whose rename works or not, and the move of the directory. -/
def releaseTo (w : World) (fs id : Str) (e : DBEntry) (timestamp released : ℤ) (renamed : Bool)
    (call : MoveCall) : Released :=
  let timestamp := releaseTimestamp w fs id timestamp
  let name := deletedName id timestamp
  if renamed then
    let (moved, success, replacedDir) := (DBEntry.release w fs id e released timestamp).moveReleased
      call e.workspace.loc ⟨e.workspace.space, .deleted, name⟩ released
    ⟨moved, success, w.db.lookup ⟨fs, .deleted, name⟩, replacedDir⟩
  -- the exception leaves the entry marked as released
  else ⟨w.writeEntry ⟨fs, .live, id⟩ { e with released := released }, false, none, none⟩

end World

/-! ## What is promised -/

/-- A release replaces nothing, and one that succeeds leaves entry and directory under one name. -/
structure ReplacesNothing (w : World) (fs id : Str) (e : DBEntry) (released : ℤ) (out : Released) :
    Prop where
  /-- no entry file is replaced -/
  entry : out.replacedEntry = none
  /-- no directory is replaced -/
  dir : out.replacedDir = none
  /-- the deleted entries are still there -/
  entries : ∀ k f, k.area = .deleted → w.db.lookup k = some f → out.world.db.lookup k = some f
  /-- and the deleted directories -/
  dirs : ∀ d n, d.area = .deleted → w.dirs.find d = some n →
    ∃ n', out.world.dirs.find d = some n' ∧ n'.inode = n.inode
  /-- entry and directory have one id and timestamp -/
  same : out.success = true → ∃ ts n,
    out.world.db.lookup ⟨fs, .deleted, deletedName id ts⟩ =
      some (.entry { e with released := released }.persisted) ∧
    w.dirs.find e.workspace.loc = some n ∧
    out.world.dirs.find ⟨e.workspace.space, .deleted, deletedName id ts⟩ = some n

/-- No directory is in the way of the move. -/
def NotInTheWay (w : World) (call : MoveCall) (k k' : DirLoc) : Prop :=
  ∀ n n', w.dirs.find k = some n → w.dirs.find k' = some n' →
    (call = .rename → n'.attr.isEmpty = false) ∧ call ≠ .mv .ok

/-! ## The move -/

namespace World

variable {w : World} {call : MoveCall} {k k' : DirLoc} {now : ℤ}

/-- The ways a move can go. -/
inductive MoveSpec (w : World) (call : MoveCall) (k k' : DirLoc) (now : ℤ) :
    World × Bool × Option (DirNode Dir) → Prop where
  /-- nothing happens -/
  | failed : MoveSpec w call k k' now (w, false, none)
  /-- the directory is at the target; what was there is gone, and was empty -/
  | moved {n : DirNode Dir} {replaced : Option (DirNode Dir)} (source : w.dirs.find k = some n)
      (target : w.dirs.find k' = replaced)
      (empty : ∀ n', replaced = some n' → call = .rename ∧ n'.attr.isEmpty = true) :
      MoveSpec w call k k' now ({ w with dirs := w.dirs.move k k' }, true, replaced)
  /-- the directory is in the one at the target -/
  | into {n n' : DirNode Dir} (source : w.dirs.find k = some n) (target : w.dirs.find k' = some n')
      (mv : call = .mv .ok) :
      MoveSpec w call k k' now ((w.touch k' now false).removeDir k, true, none)
  /-- a part was copied to the target -/
  | leftover {n : DirNode Dir} (source : w.dirs.find k = some n) (target : w.dirs.find k' = none) :
      MoveSpec w call k k' now
        ({ w with dirs := w.dirs.create k' ⟨now, false, n.attr.uid⟩ }, false, none)
  /-- a part was copied into the directory at the target -/
  | leftoverInto : MoveSpec w call k k' now (w.touch k' now false, false, none)

theorem moveReleased_spec (w : World) (call : MoveCall) (k k' : DirLoc) (now : ℤ) :
    MoveSpec w call k k' now (w.moveReleased call k k' now) := by
  cases call with
  | rename =>
    dsimp only [moveReleased, renameDir]
    by_cases hcond : (w.dirs.find k).isSome ∧ w.mayReplace k' = true
    · rw [if_pos hcond]
      obtain ⟨n, hn⟩ := Option.isSome_iff_exists.mp hcond.1
      refine .moved hn rfl fun n' hn' => ⟨rfl, ?_⟩
      have hmay := hcond.2
      rwa [mayReplace, hn'] at hmay
    · rw [if_neg hcond]
      exact .failed
  | fails => exact .failed
  | mv outcome =>
    cases outcome with
    | ok =>
      dsimp only [moveReleased]
      split
      · exact .failed
      · rename_i n hn hn'
        exact .moved hn hn' nofun
      · rename_i n n' hn hn'
        exact .into hn hn' rfl
    | fails => exact .failed
    | partly =>
      dsimp only [moveReleased]
      split
      · exact .failed
      · rename_i n hn hn'
        exact .leftover hn hn'
      · exact .leftoverInto

/-- A move leaves the entries alone. -/
theorem moveReleased_db (w : World) (call : MoveCall) (k k' : DirLoc) (now : ℤ) :
    (w.moveReleased call k k' now).1.db = w.db := by
  have hspec := moveReleased_spec w call k k' now
  generalize w.moveReleased call k k' now = out at hspec
  cases hspec <;> rfl

/-- What is in the way of a move is replaced, or takes the directory in. -/
theorem moveReleased_of_inTheWay (call : MoveCall) (now : ℤ) {n n' : DirNode Dir}
    (hn : w.dirs.find k = some n) (hn' : w.dirs.find k' = some n') :
    (call = .rename → n'.attr.isEmpty = true → (w.moveReleased call k k' now).2.2 = some n') ∧
      (call = .mv .ok →
        w.moveReleased call k k' now = ((w.touch k' now false).removeDir k, true, none)) := by
  refine ⟨fun hcall hempty => ?_, fun hcall => ?_⟩
  · have hmay : w.mayReplace k' = true := by
      rw [mayReplace, hn']
      exact hempty
    rw [hcall]
    dsimp only [moveReleased, renameDir]
    rw [if_pos ⟨by rw [hn]; rfl, hmay⟩]
    exact hn'
  · rw [hcall]
    dsimp only [moveReleased]
    rw [hn, hn']

/-- The moves of the other results: a single `rename`, or an `mv` that gives up. -/
theorem moveDir_eq_moveReleased (outcome : Outcome)
    (hfree : outcome = .partly → w.dirs.find k' = none) :
    w.moveDir outcome k k' now =
      match outcome with
      | .ok => ((w.moveReleased .rename k k' now).1, (w.moveReleased .rename k k' now).2.1)
      | .fails => ((w.moveReleased .fails k k' now).1, (w.moveReleased .fails k k' now).2.1)
      | .partly =>
        ((w.moveReleased (.mv .partly) k k' now).1, (w.moveReleased (.mv .partly) k k' now).2.1) := by
  cases outcome with
  | ok =>
    dsimp only [moveDir, moveReleased]
    cases w.renameDir k k' <;> rfl
  | fails => rfl
  | partly =>
    dsimp only [moveDir, moveReleased]
    rw [hfree rfl]
    cases w.dirs.find k <;> rfl

/-- A directory that was taken in is at no place of the model. -/
theorem find_into_ne {n n₀ : DirNode Dir} {d : DirLoc} (hn : w.dirs.find k = some n)
    (hd : ((w.touch k' now false).removeDir k).dirs.find d = some n₀) : n₀.inode ≠ n.inode := by
  intro hinode
  by_cases hk : d = k
  · rw [hk, removeDir, DirTree.find_remove_self] at hd
    cases hd
  · rw [find_removeDir_ne hk] at hd
    by_cases hk' : d = k'
    · rw [hk', touch, DirTree.find_modify_self] at hd
      obtain ⟨n₁, hn₁, rfl⟩ := Option.map_eq_some_iff.mp hd
      exact hk (hk' ▸ DirTree.find_inj hn₁ hn hinode)
    · rw [find_touch_ne hk'] at hd
      exact hk (DirTree.find_inj hd hn hinode)

/-- Without a directory in the way nothing is replaced, and a move that succeeds ends at the
target. -/
theorem moveReleased_of_notInTheWay (now : ℤ) (hway : NotInTheWay w call k k') (hne : k ≠ k') :
    (w.moveReleased call k k' now).2.2 = none ∧
      (∀ d n, d ≠ k → w.dirs.find d = some n →
        ∃ n', (w.moveReleased call k k' now).1.dirs.find d = some n' ∧ n'.inode = n.inode) ∧
      ((w.moveReleased call k k' now).2.1 = true →
        ∃ n, w.dirs.find k = some n ∧ (w.moveReleased call k k' now).1.dirs.find k' = some n) := by
  have hspec := moveReleased_spec w call k k' now
  generalize w.moveReleased call k k' now = out at hspec
  have htouch : ∀ d n, w.dirs.find d = some n →
      ∃ n', (w.touch k' now false).dirs.find d = some n' ∧ n'.inode = n.inode := by
    intro d n hd
    by_cases hk' : d = k'
    · refine ⟨⟨n.inode, { n.attr with mtime := now, isEmpty := false }⟩, ?_, rfl⟩
      rw [hk', touch, DirTree.find_modify_self, ← hk', hd]
      rfl
    · exact ⟨n, (find_touch_ne hk').trans hd, rfl⟩
  cases hspec with
  | failed => exact ⟨rfl, fun d n _ hd => ⟨n, hd, rfl⟩, nofun⟩
  | moved source target empty =>
    rename_i n replaced
    have hfree : replaced = none := by
      cases hreplaced : replaced with
      | none => rfl
      | some n' =>
        obtain ⟨hcall, hempty⟩ := empty n' hreplaced
        have hno := (hway n n' source (target.trans hreplaced)).1 hcall
        rw [hempty] at hno
        cases hno
    subst hfree
    refine ⟨rfl, fun d n' hd hfind => ⟨n', ?_, rfl⟩, fun _ => ⟨n, source, ?_⟩⟩
    · have hto : d ≠ k' := by
        rintro rfl
        rw [target] at hfind
        cases hfind
      exact (DirTree.find_move_ne hd hto).trans hfind
    · exact DirTree.find_move_to source
  | into source target mv => exact absurd mv (hway _ _ source target).2
  | leftover source target =>
    refine ⟨rfl, fun d n hd hfind => ⟨n, ?_, rfl⟩, nofun⟩
    have hto : d ≠ k' := by
      rintro rfl
      rw [target] at hfind
      cases hfind
    exact (DirTree.find_create_ne _ hto).trans hfind
  | leftoverInto => exact ⟨rfl, fun d n _ hd => htouch d n hd, nofun⟩

end World

/-! ## The result -/

variable {w : World} {fs id : Str} {e : DBEntry} {timestamp released : ℤ} {call : MoveCall}

/-- **Releases.** Nothing is replaced, and a success leaves entry and directory under one name,
exactly when the name for the entry is free after the one look, and no directory is in the way of
the move; or the rename of the entry fails. -/
theorem replacesNothing_iff (w : World) (fs id : Str) (e : DBEntry) (timestamp released : ℤ)
    (renamed : Bool) (call : MoveCall) :
    ReplacesNothing w fs id e released (w.releaseTo fs id e timestamp released renamed call) ↔
      (renamed = true →
        w.db.lookup ⟨fs, .deleted, deletedName id (releaseTimestamp w fs id timestamp)⟩ = none ∧
          NotInTheWay w call e.workspace.loc ⟨e.workspace.space, .deleted,
            deletedName id (releaseTimestamp w fs id timestamp)⟩) := by
  cases renamed with
  | false =>
    refine iff_of_true ⟨rfl, rfl, fun k f hk hlook => ?_, fun d n _ hd => ⟨n, hd, rfl⟩, ?_⟩ ?_
    · refine (World.lookup_writeEntry_ne _ ?_).trans hlook
      rintro rfl
      cases hk
    · intro h
      cases h
    · intro h
      cases h
  | true =>
    dsimp only [World.releaseTo]
    rw [if_pos rfl]
    generalize releaseTimestamp w fs id timestamp = ts
    have hdirs : (DBEntry.release w fs id e released ts).dirs = w.dirs := by simp [DBEntry.release]
    have hne : e.workspace.loc ≠ ⟨e.workspace.space, .deleted, deletedName id ts⟩ := by
      simp [WsPath.loc]
    have hlook : (DBEntry.release w fs id e released ts).db.lookup
        ⟨fs, .deleted, deletedName id ts⟩ = some (.entry { e with released := released }.persisted) :=
      World.lookup_renameEntry_to (World.lookup_writeEntry ..)
    constructor
    · intro h _
      refine ⟨h.entry, fun n n' hn hn' => ?_⟩
      have hsource : (DBEntry.release w fs id e released ts).dirs.find e.workspace.loc = some n :=
        hdirs ▸ hn
      obtain ⟨hrename, hmv⟩ := World.moveReleased_of_inTheWay call released hsource (hdirs ▸ hn')
      refine ⟨fun hcall => ?_, fun hcall => ?_⟩
      · cases hempty : n'.attr.isEmpty with
        | false => rfl
        | true => cases (hrename hcall hempty).symm.trans h.dir
      · obtain ⟨ts', n₀, -, hn₀, htarget⟩ := h.same (by rw [hmv hcall])
        obtain rfl := Option.some.inj (hn.symm.trans hn₀)
        rw [hmv hcall] at htarget
        exact World.find_into_ne (hdirs ▸ hn) htarget rfl
    · intro h
      obtain ⟨hfree, hway⟩ := h rfl
      have hway' : NotInTheWay (DBEntry.release w fs id e released ts) call e.workspace.loc
          ⟨e.workspace.space, .deleted, deletedName id ts⟩ := by
        rw [NotInTheWay, hdirs]
        exact hway
      obtain ⟨hreplaced, hkept, hsame⟩ := World.moveReleased_of_notInTheWay released hway' hne
      rw [hdirs] at hkept hsame
      refine ⟨hfree, hreplaced, fun k f hk hf => ?_, fun d n hd hn => hkept d n ?_ hn, fun hok => ?_⟩
      · rw [World.moveReleased_db, DBEntry.lookup_release_ne _ _]
        · exact hf
        · rintro rfl
          cases hk
        · rintro rfl
          rw [hfree] at hf
          cases hf
      · rintro rfl
        cases hd
      · obtain ⟨n, hn, htarget⟩ := hsame hok
        exact ⟨ts, n, by rw [World.moveReleased_db]; exact hlook, hn, htarget⟩

/-- An entry of the workspace `x` of `b`. -/
def earlierEntry : DBEntry :=
  ⟨['b'], ⟨['s'], ['b', '-', 'x']⟩, 0, 0, 0, 0, false, [], [], [], 1700000000, 0, []⟩

/-- It was released twice already; the clock was set back since. -/
def releasedTwice : World :=
  (World.init.writeEntry ⟨['w'], .deleted, deletedName ['b', '-', 'x'] 1700000000⟩
    earlierEntry).writeEntry
    ⟨['w'], .deleted, deletedName ['b', '-', 'x'] 1700000001⟩ earlierEntry

/-- A third release replaces the second one. -/
theorem not_replacesNothing : ¬ReplacesNothing releasedTwice ['w'] ['b', '-', 'x'] earlierEntry
    1700000005 (releasedTwice.releaseTo ['w'] ['b', '-', 'x'] earlierEntry 1700000000 1700000005
      true .rename) := by
  intro h
  have hreplaced : (releasedTwice.releaseTo ['w'] ['b', '-', 'x'] earlierEntry 1700000000 1700000005
      true .rename).replacedEntry = some (.entry earlierEntry.persisted) := by decide
  cases hreplaced.symm.trans h.entry

end HpcWorkspace
