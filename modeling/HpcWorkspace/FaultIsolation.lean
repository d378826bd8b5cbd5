import Mathlib.Data.List.TakeWhile
import HpcWorkspace.Deadlines
import HpcWorkspace.ExpireLoops

/-!
# Errors of single entries in `expire_workspaces`

A run over all entries is compared with one from which one entry is absent, the failing one: outside
of what belongs to the failing entry both end alike exactly when the round of that entry does not
end the second loop before another one. What belongs to it are its names and directories. Entries
can share these: two live ones may have the same directory, or one may be named like the directory
of the other. Those that share with the failing entry, and are over their time in this run, are tied
to it, and count as its own.
-/

namespace HpcWorkspace

/-! ## Isolation -/

/-- A live entry that is over its time in this run. -/
def Expires (env : DbLoc → RoundEnv) (w : World) (fs id : Str) (e : DBEntry) : Prop :=
  w.db.lookup ⟨fs, .live, id⟩ = some (.entry e) ∧ 0 < e.expiration ∧
    e.expiration < (env ⟨fs, .live, id⟩).now

/-- The ids of live entries that are tied to the entry `F`. -/
inductive Tied (env : DbLoc → RoundEnv) (w : World) (F : DbLoc) : Str → Prop where
  /-- a live `F` itself -/
  | self (harea : F.area = .live) : Tied env w F F.id
  /-- one that could get the name of a deleted `F` -/
  | named {id : Str} {e : DBEntry} {ts : ℤ} (harea : F.area = .deleted)
      (hexpires : Expires env w F.fs id e) (hnonneg : 0 ≤ ts)
      (hts : (env ⟨F.fs, .live, id⟩).timestamp ≤ ts) (hname : F.id = deletedName id ts) :
      Tied env w F id
  /-- one that has the directory of a tied one, or is named like it -/
  | shared {id id' : Str} {e e' : DBEntry} (h : Tied env w F id)
      (hexpires : Expires env w F.fs id e) (hexpires' : Expires env w F.fs id' e')
      (hspace : e'.workspace.space = e.workspace.space)
      (hname : e'.workspace.name = e.workspace.name ∨ id' = e.workspace.name) : Tied env w F id'

/-- The names that belong to `F`: its own, those of the tied entries, and the free ones these can
get. -/
inductive OwnKey (env : DbLoc → RoundEnv) (w : World) (F : DbLoc) : DbLoc → Prop where
  /-- its own -/
  | self : OwnKey env w F F
  /-- that of a tied entry -/
  | live {id : Str} (h : Tied env w F id) : OwnKey env w F ⟨F.fs, .live, id⟩
  /-- one that a tied entry can get -/
  | expired {id : Str} {ts : ℤ} (h : Tied env w F id) (hnonneg : 0 ≤ ts)
      (hfree : w.db.lookup ⟨F.fs, .deleted, deletedName id ts⟩ = none) :
      OwnKey env w F ⟨F.fs, .deleted, deletedName id ts⟩

/-- The directories that the first loop can move for an entry that is tied to `F`. -/
inductive MovedDir (env : DbLoc → RoundEnv) (w : World) (F : DbLoc) : DirLoc → Prop where
  /-- the directory of a live entry -/
  | live {id : Str} {e : DBEntry} (h : Tied env w F id) (hexpires : Expires env w F.fs id e) :
      MovedDir env w F e.workspace.loc
  /-- what it can become -/
  | expired {id : Str} {e : DBEntry} {ts : ℤ} (h : Tied env w F id)
      (hexpires : Expires env w F.fs id e) (hnonneg : 0 ≤ ts) : MovedDir env w F (expiredDir e ts)

/-- The directories that belong to `F`: these, and those that the second loop removes for it or for
the entries it gets in the deleted area. -/
inductive OwnDir (env : DbLoc → RoundEnv) (w : World) (F : DbLoc) : DirLoc → Prop where
  /-- a directory that can be moved -/
  | moved {d : DirLoc} (h : MovedDir env w F d) : OwnDir env w F d
  /-- that of a deleted `F` -/
  | deleted {e : DBEntry} (harea : F.area = .deleted) (hlook : w.db.lookup F = some (.entry e)) :
      OwnDir env w F ⟨e.workspace.space, .deleted, F.id⟩
  /-- that of a name that a tied entry can get -/
  | expired {id : Str} {e : DBEntry} {ts : ℤ} (h : Tied env w F id)
      (hlook : w.db.lookup ⟨F.fs, .live, id⟩ = some (.entry e)) :
      OwnDir env w F ⟨e.workspace.space, .deleted, deletedName id ts⟩

/-- A listing without `F`. -/
def without (F : DbLoc) (area : Area) (ids : List Str) : List Str :=
  ids.filter fun id => !decide ((⟨F.fs, area, id⟩ : DbLoc) = F)

/-- The failure of `F` stays its own: all other entries are taken up, and all that does not belong
to `F` is as after a run from which `F` is absent. -/
structure FaultIsolated (config : Config) (env : DbLoc → RoundEnv) (w : World) (F : DbLoc)
    (live deleted : List Str) : Prop where
  /-- the other entries are processed -/
  processed : ∀ x rest, (expire_workspaces config F.fs env live deleted w).2 = some (x, rest) →
    ∀ k ∈ rest, k = F
  /-- the other entries -/
  entries : ∀ k, ¬OwnKey env w F k →
    (expire_workspaces config F.fs env live deleted w).1.db.lookup k =
      (expire_workspaces config F.fs env (without F .live live) (without F .deleted deleted)
        (w.removeEntry F)).1.db.lookup k
  /-- the other directories -/
  dirs : ∀ d, ¬OwnDir env w F d →
    (expire_workspaces config F.fs env live deleted w).1.dirs.find d =
      (expire_workspaces config F.fs env (without F .live live) (without F .deleted deleted)
        (w.removeEntry F)).1.dirs.find d

/-- The round of `F` ends the loop: a deleted entry over its time that `deleteEntry` does not
remove. -/
def EndsLoop (config : Config) (env : DbLoc → RoundEnv) (w : World) (F : DbLoc) : Prop :=
  F.area = .deleted ∧ (env F).entry ≠ .ok ∧
    ∃ e fsconfig, w.readEntry F.fs .deleted F.id = some e ∧
      config.getFsConfig F.fs = some fsconfig ∧
      shouldDelete fsconfig F.id e (env F).now = some true

/-- What comes after a name in a listing. -/
def namesAfter (id : Str) (ids : List Str) : List Str := (ids.dropWhile (· != id)).drop 1

/-! ## States that agree but for some names -/

/-- Two states agree outside of some entries and some directories. -/
structure AgreeOff (own : DbLoc → Prop) (ownDir : DirLoc → Prop) (w w' : World) : Prop where
  /-- the other entries -/
  entries : ∀ k, ¬own k → w.db.lookup k = w'.db.lookup k
  /-- the other directories -/
  dirs : ∀ d, ¬ownDir d → w.dirs.find d = w'.dirs.find d

namespace AgreeOff

variable {own : DbLoc → Prop} {ownDir : DirLoc → Prop} {w w' : World} {k k' : DbLoc} {d d' : DirLoc}

theorem removeEntry_right (w : World) (hk : own k) : AgreeOff own ownDir w (w.removeEntry k) := by
  refine ⟨fun k₀ hk₀ => ?_, fun d _ => rfl⟩
  have hne : k₀ ≠ k := fun heq => hk₀ (heq ▸ hk)
  exact (World.lookup_removeEntry_ne hne).symm

theorem symm (h : AgreeOff own ownDir w w') : AgreeOff own ownDir w' w :=
  ⟨fun k hk => (h.entries k hk).symm, fun d hd => (h.dirs d hd).symm⟩

/-- More directories may be left out. -/
theorem mono {ownDir' : DirLoc → Prop} (h : AgreeOff own ownDir w w')
    (hmore : ∀ d, ownDir d → ownDir' d) : AgreeOff own ownDir' w w' :=
  ⟨h.entries, fun d hd => h.dirs d fun hown => hd (hmore d hown)⟩

/-- What happens on one side to what is left out makes no difference. -/
theorem of_left {w₁ : World} (h : AgreeOff own ownDir w w')
    (hdb : ∀ k, ¬own k → w₁.db.lookup k = w.db.lookup k)
    (hdirs : ∀ d, ¬ownDir d → w₁.dirs.find d = w.dirs.find d) : AgreeOff own ownDir w₁ w' :=
  ⟨fun k hk => (hdb k hk).trans (h.entries k hk), fun d hd => (hdirs d hd).trans (h.dirs d hd)⟩

theorem writeEntry_left (h : AgreeOff own ownDir w w') (hk : own k) (e : DBEntry) :
    AgreeOff own ownDir (w.writeEntry k e) w' :=
  h.of_left (fun _ hk₀ => World.lookup_writeEntry_ne e fun heq => hk₀ (heq ▸ hk)) fun _ _ => rfl

theorem renameEntry_left (h : AgreeOff own ownDir w w') (hk : own k) (hk' : own k') :
    AgreeOff own ownDir (w.renameEntry k k') w' :=
  h.of_left
    (fun _ hk₀ => World.lookup_renameEntry_ne (fun heq => hk₀ (heq ▸ hk)) fun heq =>
      hk₀ (heq ▸ hk'))
    fun _ _ => by rw [World.renameEntry_dirs]

theorem removeEntry_left (h : AgreeOff own ownDir w w') (hk : own k) :
    AgreeOff own ownDir (w.removeEntry k) w' :=
  h.of_left (fun _ hk₀ => World.lookup_removeEntry_ne fun heq => hk₀ (heq ▸ hk)) fun _ _ => rfl

theorem moveDir_left (h : AgreeOff own ownDir w w') (hd : ownDir d) (hd' : ownDir d')
    (outcome : Outcome) (now : ℤ) : AgreeOff own ownDir (w.moveDir outcome d d' now).1 w' :=
  h.of_left (fun _ _ => by rw [moveDir_db]) fun _ hd₀ =>
    find_moveDir_ne (fun heq => hd₀ (heq ▸ hd)) fun heq => hd₀ (heq ▸ hd')

theorem rmtree_left (h : AgreeOff own ownDir w w') (hd : ownDir d) (outcome : Outcome) :
    AgreeOff own ownDir (w.rmtree outcome d) w' :=
  h.of_left (fun _ _ => by rw [rmtree_db]) fun _ hd₀ => find_rmtree_ne fun heq => hd₀ (heq ▸ hd)

theorem writeEntry (h : AgreeOff own ownDir w w') (k : DbLoc) (e : DBEntry) :
    AgreeOff own ownDir (w.writeEntry k e) (w'.writeEntry k e) := by
  refine ⟨fun k₀ hk₀ => ?_, h.dirs⟩
  by_cases hk : k₀ = k
  · rw [hk, World.lookup_writeEntry, World.lookup_writeEntry]
  · rw [World.lookup_writeEntry_ne e hk, World.lookup_writeEntry_ne e hk]
    exact h.entries k₀ hk₀

theorem removeEntry (h : AgreeOff own ownDir w w') (k : DbLoc) :
    AgreeOff own ownDir (w.removeEntry k) (w'.removeEntry k) := by
  refine ⟨fun k₀ hk₀ => ?_, h.dirs⟩
  by_cases hk : k₀ = k
  · rw [hk, World.lookup_removeEntry, World.lookup_removeEntry]
  · rw [World.lookup_removeEntry_ne hk, World.lookup_removeEntry_ne hk]
    exact h.entries k₀ hk₀

theorem renameEntry (h : AgreeOff own ownDir w w') (hk : ¬own k) (hne : k ≠ k') :
    AgreeOff own ownDir (w.renameEntry k k') (w'.renameEntry k k') := by
  have hlook := h.entries k hk
  refine ⟨fun k₀ hk₀ => ?_, fun d hd => ?_⟩
  · by_cases hfrom : k₀ = k
    · rw [hfrom, World.lookup_renameEntry_from hne, World.lookup_renameEntry_from hne]
    by_cases hto : k₀ = k'
    · cases hf : w.db.lookup k with
      | none =>
        rw [World.renameEntry, World.renameEntry, ← hlook, hf]
        exact h.entries k₀ hk₀
      | some f =>
        rw [hto, World.lookup_renameEntry_to hf, World.lookup_renameEntry_to (hlook ▸ hf)]
    · rw [World.lookup_renameEntry_ne hfrom hto, World.lookup_renameEntry_ne hfrom hto]
      exact h.entries k₀ hk₀
  · rw [World.renameEntry_dirs, World.renameEntry_dirs]
    exact h.dirs d hd

/-- The same rename finds the same source and target. -/
theorem moveDir (h : AgreeOff own ownDir w w') (hd : ¬ownDir d) (hd' : ¬ownDir d') (now : ℤ) :
    AgreeOff own ownDir (w.moveDir .ok d d' now).1 (w'.moveDir .ok d d' now).1 := by
  have hsrc := h.dirs d hd
  have hmay : w.mayReplace d' = w'.mayReplace d' := by
    rw [World.mayReplace, World.mayReplace, h.dirs d' hd']
  refine ⟨fun k hk => by rw [moveDir_db, moveDir_db]; exact h.entries k hk, fun d₀ hd₀ => ?_⟩
  dsimp only [World.moveDir, World.renameDir]
  rw [← hsrc, ← hmay]
  split
  · rename_i w₁ hren
    split at hren
    · rename_i hcond
      obtain rfl := Option.some.inj hren
      rw [if_pos hcond]
      obtain ⟨n, hn⟩ := Option.isSome_iff_exists.mp hcond.1
      dsimp only
      by_cases hto : d₀ = d'
      · rw [hto, DirTree.find_move_to hn, DirTree.find_move_to (hsrc ▸ hn)]
      by_cases hfrom : d₀ = d
      · rw [hfrom] at hto ⊢
        rw [DirTree.find_move_from hto, DirTree.find_move_from hto]
      · rw [DirTree.find_move_ne hfrom hto, DirTree.find_move_ne hfrom hto]
        exact h.dirs d₀ hd₀
    · cases hren
  · rename_i hren
    split at hren
    · cases hren
    · rename_i hcond
      rw [if_neg hcond]
      exact h.dirs d₀ hd₀

theorem rmtree (h : AgreeOff own ownDir w w') (d : DirLoc) :
    AgreeOff own ownDir (w.rmtree .ok d) (w'.rmtree .ok d) := by
  refine ⟨h.entries, fun d₀ hd₀ => ?_⟩
  by_cases hd : d₀ = d
  · rw [hd]
    exact (DirTree.find_remove_self _ _).trans (DirTree.find_remove_self _ _).symm
  · rw [find_rmtree_ne hd, find_rmtree_ne hd]
    exact h.dirs d₀ hd₀

/-- The same entry is read. -/
theorem readEntry (h : AgreeOff own ownDir w w') {fs id : Str} {area : Area}
    (hk : ¬own ⟨fs, area, id⟩) : w.readEntry fs area id = w'.readEntry fs area id := by
  rw [World.readEntry, World.readEntry, h.entries _ hk]

/-- The same name is found for an entry that is expired. -/
theorem freeTimestamp (h : AgreeOff own ownDir w w') {fs id : Str} {e : DBEntry} {base : ℤ}
    (hkey : ∀ ts, base ≤ ts → ¬own ⟨fs, .deleted, deletedName id ts⟩)
    (hdir : ∀ ts, base ≤ ts → ¬ownDir ⟨e.workspace.space, .deleted, deletedName id ts⟩)
    (tries : ℕ) : w.freeTimestamp fs id e base tries = w'.freeTimestamp fs id e base tries := by
  induction tries generalizing base with
  | zero => rfl
  | succ tries ih =>
    have htaken : w.nameTaken fs e (deletedName id base) =
        w'.nameTaken fs e (deletedName id base) := by
      rw [World.nameTaken, World.nameTaken, h.entries _ (hkey base (Int.le_refl _)),
        h.dirs _ (hdir base (Int.le_refl _))]
    have hrest := @ih (base + 1) (fun ts hts => hkey ts (by omega)) fun ts hts =>
      hdir ts (by omega)
    rw [World.freeTimestamp, World.freeTimestamp, htaken, hrest]

end AgreeOff

/-! ## What belongs to an entry -/

section Own

variable {config : Config} {env : DbLoc → RoundEnv} {w₀ start w w' : World} {F k : DbLoc}
  {id : Str} {e : DBEntry} {ts : ℤ}

/-- An entry that is not tied to `F` keeps its name in the live area. -/
theorem not_ownKey_live (hid : ¬Tied env w₀ F id) : ¬OwnKey env w₀ F ⟨F.fs, .live, id⟩ := by
  intro h
  generalize hk : (⟨F.fs, .live, id⟩ : DbLoc) = k at h
  cases h with
  | self =>
    apply hid
    rw [show id = F.id from congrArg DbLoc.id hk]
    exact .self (congrArg DbLoc.area hk).symm
  | live h =>
    apply hid
    rwa [show id = _ from congrArg DbLoc.id hk]
  | expired => cases hk

/-- When it is over its time, the names it can get are its own too. -/
theorem not_ownKey_expired (hid : ¬Tied env w₀ F id) (hexpires : Expires env w₀ F.fs id e)
    (hnonneg : 0 ≤ ts) (hts : (env ⟨F.fs, .live, id⟩).timestamp ≤ ts) :
    ¬OwnKey env w₀ F ⟨F.fs, .deleted, deletedName id ts⟩ := by
  intro h
  generalize hk : (⟨F.fs, .deleted, deletedName id ts⟩ : DbLoc) = k at h
  cases h with
  | self =>
    apply hid
    exact .named (congrArg DbLoc.area hk).symm hexpires hnonneg hts (congrArg DbLoc.id hk).symm
  | live => cases hk
  | expired h hnonneg' =>
    apply hid
    rwa [(deletedName_inj hnonneg hnonneg' (congrArg DbLoc.id hk)).1]

theorem WsPath.eq_of_fields {p q : WsPath} (hspace : p.space = q.space) (hname : p.name = q.name) :
    p = q := by
  cases p
  cases q
  simp_all

section Untied

variable (hid : ¬Tied env w₀ F id) (hexpires : Expires env w₀ F.fs id e)

include hid hexpires

/-- And its directory. -/
theorem not_movedDir_live : ¬MovedDir env w₀ F e.workspace.loc := by
  intro h
  generalize hd : e.workspace.loc = d at h
  cases h with
  | live h hexpires' =>
    apply hid
    exact h.shared hexpires' hexpires (congrArg DirLoc.space hd) (Or.inl (congrArg DirLoc.name hd))
  | expired => simp [WsPath.loc, expiredDir] at hd

/-- And those of the names it can get. -/
theorem not_movedDir_name (hnonneg : 0 ≤ ts) :
    ¬MovedDir env w₀ F ⟨e.workspace.space, .deleted, deletedName id ts⟩ := by
  intro h
  generalize hd : (⟨e.workspace.space, .deleted, deletedName id ts⟩ : DirLoc) = d at h
  cases h with
  | live => simp [WsPath.loc] at hd
  | expired h hexpires' hnonneg' =>
    apply hid
    exact h.shared hexpires' hexpires (congrArg DirLoc.space hd)
      (Or.inr (deletedName_inj hnonneg hnonneg' (congrArg DirLoc.name hd)).1)

/-- And what its directory can become. -/
theorem not_movedDir_expired (hnonneg : 0 ≤ ts) : ¬MovedDir env w₀ F (expiredDir e ts) := by
  intro h
  generalize hd : expiredDir e ts = d at h
  cases h with
  | live => simp [WsPath.loc, expiredDir] at hd
  | expired h hexpires' hnonneg' =>
    apply hid
    exact h.shared hexpires' hexpires (congrArg DirLoc.space hd)
      (Or.inl (deletedName_inj hnonneg hnonneg' (congrArg DirLoc.name hd)).1)

end Untied

/-- Where live entries have directories of their own names, a live `F` is tied to itself only. -/
theorem eq_of_tied (hnamed : ∀ id e, w₀.db.lookup ⟨F.fs, .live, id⟩ = some (.entry e) →
    e.workspace.name = id) (harea : F.area = .live) (h : Tied env w₀ F id) : id = F.id := by
  induction h with
  | self => rfl
  | named hdeleted =>
    rw [harea] at hdeleted
    cases hdeleted
  | @shared id id' e e' _ hexpires hexpires' _ hname ih =>
    have hid : e.workspace.name = id := hnamed id e hexpires.1
    rcases hname with hname | rfl
    · rw [← hnamed id' e' hexpires'.1, hname, hid, ih]
    · rw [hid, ih]

/-! ## The first loop -/

/-- What belongs to `F` in the deleted area has its directory there. -/
def OwnPaths (env : DbLoc → RoundEnv) (w₀ : World) (F : DbLoc) (w : World) : Prop :=
  ∀ k e, OwnKey env w₀ F k → k.area = .deleted → w.db.lookup k = some (.entry e) →
    OwnDir env w₀ F ⟨e.workspace.space, .deleted, k.id⟩

/-- The state before a loop, with `F` or without it. -/
structure StartsFrom (w₀ : World) (F : DbLoc) (start : World) : Prop where
  /-- nothing is new -/
  sub : ∀ k f, start.db.lookup k = some f → w₀.db.lookup k = some f
  /-- only `F` may be absent -/
  others : ∀ k, k ≠ F → start.db.lookup k = w₀.db.lookup k

theorem StartsFrom.refl (w₀ : World) (F : DbLoc) : StartsFrom w₀ F w₀ :=
  ⟨fun _ _ h => h, fun _ _ => rfl⟩

theorem StartsFrom.removeEntry (w₀ : World) (F : DbLoc) : StartsFrom w₀ F (w₀.removeEntry F) := by
  constructor
  · intro k f h
    by_cases hk : k = F
    · rw [hk, World.lookup_removeEntry] at h
      cases h
    · rwa [World.lookup_removeEntry_ne hk] at h
  · exact fun k hk => World.lookup_removeEntry_ne hk

/-- What holds of the state in the first loop, which started in `start`: live entries have their
directories and times, deleted ones are still there, and what belongs to `F` has its directory. -/
structure LiveInv (env : DbLoc → RoundEnv) (w₀ : World) (F : DbLoc) (start w : World) : Prop where
  /-- live entries -/
  paths : ∀ id e, w.db.lookup ⟨F.fs, .live, id⟩ = some (.entry e) →
    ∃ e₀, w₀.db.lookup ⟨F.fs, .live, id⟩ = some (.entry e₀) ∧ e.workspace = e₀.workspace ∧
      e.expiration = e₀.expiration
  /-- deleted entries -/
  kept : ∀ id f, start.db.lookup ⟨F.fs, .deleted, id⟩ = some f →
    w.db.lookup ⟨F.fs, .deleted, id⟩ = some f
  /-- what belongs to `F` -/
  own : OwnPaths env w₀ F w

theorem StartsFrom.liveInv (h : StartsFrom w₀ F start) : LiveInv env w₀ F start start where
  paths id e hlook := ⟨e, h.sub _ _ hlook, rfl, rfl⟩
  kept _ _ hlook := hlook
  own k e hk harea hlook := by
    have hlook₀ := h.sub _ _ hlook
    cases hk with
    | self => exact .deleted harea hlook₀
    | live => cases harea
    | expired h hnonneg hfree =>
      rw [hfree] at hlook₀
      cases hlook₀

theorem LiveInv.congr (h : LiveInv env w₀ F start w) (hdb : w'.db = w.db) :
    LiveInv env w₀ F start w' where
  paths := by
    rw [hdb]
    exact h.paths
  kept := by
    rw [hdb]
    exact h.kept
  own := by
    rw [OwnPaths, hdb]
    exact h.own

/-- An entry that is over its time was so at the start. -/
theorem LiveInv.expires (h : LiveInv env w₀ F start w)
    (hlook : w.db.lookup ⟨F.fs, .live, id⟩ = some (.entry e))
    (hover : 0 < e.expiration ∧ e.expiration < (env ⟨F.fs, .live, id⟩).now) :
    ∃ e₀, Expires env w₀ F.fs id e₀ ∧ e.workspace = e₀.workspace := by
  obtain ⟨e₀, he₀, hpath, hexpiration⟩ := h.paths id e hlook
  rw [hexpiration] at hover
  exact ⟨e₀, ⟨he₀, hover⟩, hpath⟩

/-- A live entry is written anew. -/
theorem LiveInv.writeEntry {e' : DBEntry} (h : LiveInv env w₀ F start w)
    (hlook : w.db.lookup ⟨F.fs, .live, id⟩ = some (.entry e)) (hpath : e'.workspace = e.workspace)
    (hexpiration : e'.expiration = e.expiration) :
    LiveInv env w₀ F start (w.writeEntry ⟨F.fs, .live, id⟩ e') where
  paths id' e₁ h₁ := by
    by_cases hid : id' = id
    · subst hid
      rw [World.lookup_writeEntry] at h₁
      obtain rfl := DbFile.entry.inj (Option.some.inj h₁)
      obtain ⟨e₀, he₀, heq, heq'⟩ := h.paths id' e hlook
      exact ⟨e₀, he₀, hpath.trans heq, hexpiration.trans heq'⟩
    · rw [World.lookup_writeEntry_ne e' (by simp [hid])] at h₁
      exact h.paths id' e₁ h₁
  kept id' f h₁ := by
    rw [World.lookup_writeEntry_ne e' (by simp)]
    exact h.kept id' f h₁
  own k e₁ hk harea h₁ := by
    have hne : k ≠ ⟨F.fs, .live, id⟩ := by
      rintro rfl
      cases harea
    rw [World.lookup_writeEntry_ne e' hne] at h₁
    exact h.own k e₁ hk harea h₁

/-- A live entry that is over its time is moved to a name that is free. -/
theorem LiveInv.renameEntry {e₀ : DBEntry} (h : LiveInv env w₀ F start w)
    (hexpires : Expires env w₀ F.fs id e₀) (hpath : e.workspace = e₀.workspace)
    (hnonneg : 0 ≤ ts) (hts : (env ⟨F.fs, .live, id⟩).timestamp ≤ ts)
    (hlook : w.db.lookup ⟨F.fs, .live, id⟩ = some (.entry e))
    (hfree : w.db.lookup ⟨F.fs, .deleted, deletedName id ts⟩ = none) :
    LiveInv env w₀ F start
      (w.renameEntry ⟨F.fs, .live, id⟩ ⟨F.fs, .deleted, deletedName id ts⟩) where
  paths id' e₁ h₁ := by
    by_cases hid : id' = id
    · rw [hid, World.lookup_renameEntry_from (by simp)] at h₁
      cases h₁
    · rw [World.lookup_renameEntry_ne (by simp [hid]) (by simp)] at h₁
      exact h.paths id' e₁ h₁
  kept id' f h₁ := by
    have hf := h.kept id' f h₁
    rw [World.lookup_renameEntry_ne (by simp)]
    · exact hf
    · intro heq
      rw [heq, hfree] at hf
      cases hf
  own k e₁ hk harea h₁ := by
    have hne : k ≠ ⟨F.fs, .live, id⟩ := by
      rintro rfl
      cases harea
    by_cases hto : k = ⟨F.fs, .deleted, deletedName id ts⟩
    · subst hto
      rw [World.lookup_renameEntry_to hlook] at h₁
      obtain rfl := DbFile.entry.inj (Option.some.inj h₁)
      have htied : Tied env w₀ F id := by
        by_contra hid
        exact not_ownKey_expired hid hexpires hnonneg hts hk
      rw [hpath]
      exact .expired htied hexpires.1
    · rw [World.lookup_renameEntry_ne hne hto] at h₁
      exact h.own k e₁ hk harea h₁

/-- A name that is not taken is free in the database. -/
theorem lookup_of_not_nameTaken {fs name : Str} (h : w.nameTaken fs e name = false) :
    w.db.lookup ⟨fs, .deleted, name⟩ = none := by
  rw [World.nameTaken, Bool.or_eq_false_iff] at h
  simpa using h.1

/-- **Step lemma** of the first loop. -/
theorem LiveInv.live_round (h : LiveInv env w₀ F start w) (id : Str) :
    LiveInv env w₀ F start (expireRound F.fs env id w).1 := by
  rw [expireRound_eq]
  dsimp only
  cases hread : w.readEntry F.fs .live id with
  | none => exact h
  | some e =>
    dsimp only
    split
    · rename_i hover
      have hlook := (World.readEntry_eq_some.mp hread).2
      obtain ⟨e₀, hexpires, hpath⟩ := h.expires hlook hover
      rcases expireOver_cases F.fs (env ⟨F.fs, .live, id⟩) id e w with
        heq | heq | ⟨ts, hts, hfree, heq⟩ <;> rw [heq]
      · exact h
      · exact h.writeEntry hlook rfl rfl
      · refine LiveInv.congr ?_ (moveDir_db ..)
        have hwrite : LiveInv env w₀ F start (w.writeEntry ⟨F.fs, .live, id⟩
            { e with expired := (env ⟨F.fs, .live, id⟩).expired }) := h.writeEntry hlook rfl rfl
        refine hwrite.renameEntry hexpires ?_ (by omega) hts.2 (World.lookup_writeEntry ..) ?_
        · exact hpath
        · rw [World.lookup_writeEntry_ne _ (by simp)]
          exact lookup_of_not_nameTaken hfree
    · exact h

/-- The run over all entries against the one without `F`, in the first loop. -/
def LiveApart (env : DbLoc → RoundEnv) (w₀ : World) (F : DbLoc) (w w' : World) : Prop :=
  AgreeOff (OwnKey env w₀ F) (MovedDir env w₀ F) w w'

/-- The round of a tied entry changes what belongs to `F`. -/
theorem LiveApart.live_round_own (h : LiveApart env w₀ F w w') (hstart : StartsFrom w₀ F start)
    (hinv : LiveInv env w₀ F start w) (hid : Tied env w₀ F id) :
    LiveApart env w₀ F (expireRound F.fs env id w).1 w' := by
  have hkey : OwnKey env w₀ F ⟨F.fs, .live, id⟩ := .live hid
  rw [expireRound_eq]
  dsimp only
  cases hread : w.readEntry F.fs .live id with
  | none => exact h
  | some e =>
    dsimp only
    split
    · rename_i hover
      have hlook := (World.readEntry_eq_some.mp hread).2
      obtain ⟨e₀, hexpires, hpath⟩ := hinv.expires hlook hover
      rcases expireOver_cases F.fs (env ⟨F.fs, .live, id⟩) id e w with
        heq | heq | ⟨ts, hts, hfree, heq⟩ <;> rw [heq]
      · exact h
      · exact AgreeOff.writeEntry_left h hkey _
      · have hnonneg : 0 ≤ ts := by omega
        have hkey' : OwnKey env w₀ F ⟨F.fs, .deleted, deletedName id ts⟩ := by
          by_cases hF : (⟨F.fs, .deleted, deletedName id ts⟩ : DbLoc) = F
          · rw [hF]
            exact .self
          · refine .expired hid hnonneg ?_
            cases hf : w₀.db.lookup ⟨F.fs, .deleted, deletedName id ts⟩ with
            | none => rfl
            | some f =>
              have hnone := lookup_of_not_nameTaken hfree
              rw [← hstart.others _ hF] at hf
              rw [hinv.kept _ f hf] at hnone
              cases hnone
        have hsrc : MovedDir env w₀ F e.workspace.loc := by
          rw [hpath]
          exact .live hid hexpires
        have htgt : MovedDir env w₀ F (expiredDir e ts) := by
          rw [expiredDir, hpath]
          exact .expired hid hexpires hnonneg
        refine AgreeOff.moveDir_left ?_ hsrc htgt _ _
        exact (AgreeOff.writeEntry_left h hkey _).renameEntry_left hkey hkey'
    · exact h

/-- The round of another entry does the same in both runs. -/
theorem LiveApart.live_round (h : LiveApart env w₀ F w w') (hinv : LiveInv env w₀ F start w)
    (hid : ¬Tied env w₀ F id) (hentry : (env ⟨F.fs, .live, id⟩).entry = .ok)
    (hdir : (env ⟨F.fs, .live, id⟩).dir = .ok) :
    LiveApart env w₀ F (expireRound F.fs env id w).1 (expireRound F.fs env id w').1 := by
  have hkey := not_ownKey_live hid
  rw [expireRound_eq, expireRound_eq, ← AgreeOff.readEntry h hkey]
  dsimp only
  cases hread : w.readEntry F.fs .live id with
  | none => exact h
  | some e =>
    dsimp only
    split
    · rename_i hover
      have hlook := (World.readEntry_eq_some.mp hread).2
      obtain ⟨e₀, hexpires, hpath⟩ := hinv.expires hlook hover
      rw [expireOver, expireOver, World.expire, World.expire]
      by_cases hneg : (env ⟨F.fs, .live, id⟩).timestamp < 0
      · rw [if_pos hneg, if_pos hneg]
        exact h
      rw [if_neg hneg, if_neg hneg, ← AgreeOff.freeTimestamp h]
      · cases hts : w.freeTimestamp F.fs id e (env ⟨F.fs, .live, id⟩).timestamp 1000 with
        | none => exact h
        | some ts =>
          have hle := (Expirer.freeTimestamp_eq_some hts).1
          have hsrc : ¬MovedDir env w₀ F e.workspace.loc := by
            rw [hpath]
            exact not_movedDir_live hid hexpires
          have htgt : ¬MovedDir env w₀ F (expiredDir e ts) := by
            rw [expiredDir, hpath]
            exact not_movedDir_expired hid hexpires (by omega)
          dsimp only
          rw [if_pos hentry, if_pos hentry, hdir]
          refine AgreeOff.moveDir ?_ hsrc htgt _
          exact (AgreeOff.writeEntry h _ _).renameEntry hkey (by simp)
      · intro ts hts
        exact not_ownKey_expired hid hexpires (by omega) hts
      · intro ts hts
        rw [hpath]
        exact not_movedDir_name hid hexpires (by omega)
    · exact h

/-! ## The second loop -/

/-- A round removes its entry, or leaves all as it is. -/
theorem deleteRound_db (config : Config) (fs : Str) (env : DbLoc → RoundEnv) (id : Str)
    (w : World) : (deleteRound config fs env id w).1.db = w.db ∨
      (deleteRound config fs env id w).1.db = (w.removeEntry ⟨fs, .deleted, id⟩).db := by
  rcases deleteRound_cases config fs env id w with ⟨heq, -⟩ | ⟨e, -, ⟨-, heq⟩ | ⟨-, heq⟩⟩ <;> rw [heq]
  · exact Or.inl rfl
  · exact Or.inr (rmtree_db ..)
  · exact Or.inl rfl

/-- **Step lemma** of the second loop. -/
theorem OwnPaths.deleted_round (h : OwnPaths env w₀ F w) (id : Str) :
    OwnPaths env w₀ F (deleteRound config F.fs env id w).1 := by
  intro k e hk harea hlook
  rcases deleteRound_db config F.fs env id w with hdb | hdb
  · rw [hdb] at hlook
    exact h k e hk harea hlook
  · rw [hdb] at hlook
    by_cases heq : k = ⟨F.fs, .deleted, id⟩
    · rw [heq, World.lookup_removeEntry] at hlook
      cases hlook
    · rw [World.lookup_removeEntry_ne heq] at hlook
      exact h k e hk harea hlook

/-- The run over all entries against the one without `F`. -/
def Apart (env : DbLoc → RoundEnv) (w₀ : World) (F : DbLoc) (w w' : World) : Prop :=
  AgreeOff (OwnKey env w₀ F) (OwnDir env w₀ F) w w'

/-- The round of an entry of `F` changes what belongs to `F`. -/
theorem Apart.deleted_round_own (h : Apart env w₀ F w w') (hinv : OwnPaths env w₀ F w)
    (hid : OwnKey env w₀ F ⟨F.fs, .deleted, id⟩) :
    Apart env w₀ F (deleteRound config F.fs env id w).1 w' := by
  rcases deleteRound_cases config F.fs env id w with
    ⟨heq, -⟩ | ⟨e, hover, ⟨-, heq⟩ | ⟨-, heq⟩⟩ <;> rw [heq]
  · exact h
  · have hlook := (World.readEntry_eq_some.mp hover.1).2
    exact (AgreeOff.removeEntry_left h hid).rmtree_left (hinv _ e hid rfl hlook) _
  · exact h

/-- The round of another entry does the same in both runs. -/
theorem Apart.deleted_round (h : Apart env w₀ F w w')
    (hid : ¬OwnKey env w₀ F ⟨F.fs, .deleted, id⟩)
    (hentry : (env ⟨F.fs, .deleted, id⟩).entry = .ok)
    (hdir : (env ⟨F.fs, .deleted, id⟩).dir = .ok) :
    Apart env w₀ F (deleteRound config F.fs env id w).1 (deleteRound config F.fs env id w').1 := by
  have hread := AgreeOff.readEntry h hid
  rcases deleteRound_cases config F.fs env id w with
    ⟨heq, hno⟩ | ⟨e, hover, ⟨-, heq⟩ | ⟨hfail, -⟩⟩
  · rcases deleteRound_cases config F.fs env id w' with ⟨heq', -⟩ | ⟨e, hover, -⟩
    · rw [heq, heq']
      exact h
    · exact absurd ⟨hread.trans hover.1, hover.2⟩ (hno e)
  · rcases deleteRound_cases config F.fs env id w' with
      ⟨-, hno⟩ | ⟨e', hover', ⟨-, heq'⟩ | ⟨hfail, -⟩⟩
    · exact absurd ⟨hread.symm.trans hover.1, hover.2⟩ (hno e)
    · obtain rfl : e = e' := Option.some.inj ((hover.1.symm.trans hread).trans hover'.1)
      rw [heq, heq', hdir]
      exact (AgreeOff.removeEntry h _).rmtree _
    · exact absurd hentry hfail
  · exact absurd hentry hfail

/-- A round throws only when `deleteEntry` does. -/
theorem deleteRound_quiet (hentry : (env ⟨F.fs, .deleted, id⟩).entry = .ok) (w : World) :
    (deleteRound config F.fs env id w).2 = none := by
  rcases deleteRound_cases config F.fs env id w with ⟨heq, -⟩ | ⟨e, -, ⟨-, heq⟩ | ⟨hfail, -⟩⟩
  · rw [heq]
  · rw [heq]
  · exact absurd hentry hfail

/-! ## Both loops -/

theorem LiveInv.live_loop (hstart : StartsFrom w₀ F start) (live : List Str) :
    LiveInv env w₀ F start (Loops.forEach (expireRound F.fs env) live start).1 :=
  Loops.forEach_invariant (fun id _ h => h.live_round id) hstart.liveInv

/-- The first loop without `F`. -/
theorem LiveApart.live_loop (hsingle : ∀ k, k ≠ F → (env k).entry = .ok ∧ (env k).dir = .ok)
    (live : List Str) :
    LiveApart env w F (Loops.forEach (expireRound F.fs env) live w).1
      (Loops.forEach (expireRound F.fs env) (without F .live live) (w.removeEntry F)).1 := by
  have hfull := StartsFrom.refl w F
  have habsent := StartsFrom.removeEntry w F
  have hrounds := @Loops.forEach_filter _ _ _ (expireRound F.fs env) w (w.removeEntry F) live
    (fun w₁ w₂ => LiveApart env w F w₁ w₂ ∧ LiveInv env w F w w₁ ∧
      LiveInv env w F (w.removeEntry F) w₂)
    (fun id => decide ((⟨F.fs, .live, id⟩ : DbLoc) = F)) ?_ ?_ ?_
    ⟨AgreeOff.removeEntry_right w .self, hfull.liveInv, habsent.liveInv⟩
  · exact hrounds.1.1
  · rintro id w₁ w₂ hF ⟨h, hinv, hinv'⟩
    have heq : (⟨F.fs, .live, id⟩ : DbLoc) = F := of_decide_eq_true hF
    have htied : Tied env w F id := by
      rw [show id = F.id from congrArg DbLoc.id heq]
      exact .self (congrArg DbLoc.area heq).symm
    exact ⟨h.live_round_own hfull hinv htied, hinv.live_round id, hinv'⟩
  · rintro id w₁ w₂ hF ⟨h, hinv, hinv'⟩
    refine ⟨by rw [expireRound_eq], by rw [expireRound_eq], ?_, hinv.live_round id,
      hinv'.live_round id⟩
    by_cases htied : Tied env w F id
    · -- each run has its own way with a tied entry
      have hleft := h.live_round_own hfull hinv htied
      exact AgreeOff.symm (LiveApart.live_round_own (AgreeOff.symm hleft) habsent hinv' htied)
    · obtain ⟨hentry, hdir⟩ := hsingle _ (of_decide_eq_false hF)
      exact h.live_round hinv htied hentry hdir
  · intro x rest hthrow
    rw [forEach_expireRound_quiet] at hthrow
    cases hthrow

/-- What is left after a name in a listing comes after the first place of the name. -/
theorem mem_namesAfter {name : Str} {pre rest : List Str} (h : name ∈ rest) :
    name ∈ namesAfter id (pre ++ id :: rest) := by
  induction pre with
  | nil => simpa [namesAfter] using h
  | cons a pre ih =>
    by_cases ha : a = id
    · subst ha
      simp [namesAfter, h]
    · simpa [namesAfter, ha] using ih

theorem namesAfter_eq {pre rest : List Str} (h : id ∉ pre) :
    namesAfter id (pre ++ id :: rest) = rest := by
  induction pre with
  | nil => simp [namesAfter]
  | cons a pre ih =>
    obtain ⟨ha, hpre⟩ := not_or.mp (List.mem_cons.not.mp h)
    simpa [namesAfter, Ne.symm ha] using ih hpre

/-- The second loop only ends early in a round of `F`. -/
theorem rest_of_throw (hF : (w.db.lookup F).isSome)
    (hsingle : ∀ k, k ≠ F → (env k).entry = .ok ∧ (env k).dir = .ok) {live deleted rest : List Str}
    {x : Thrown} (h : (Loops.forEach (deleteRound config F.fs env) deleted
      (Loops.forEach (expireRound F.fs env) live w).1).2 = some (x, rest)) :
    EndsLoop config env w F ∧ ∀ name ∈ rest, name ∈ namesAfter F.id deleted := by
  obtain ⟨f, hf⟩ := Option.isSome_iff_exists.mp hF
  -- an entry at `F` in the second loop was there before the first one
  have hstep : ∀ (id : Str) (w₁ : World),
      (∀ e, F.area = .deleted → w₁.db.lookup F = some (.entry e) →
        w.db.lookup F = some (.entry e)) →
      ∀ e, F.area = .deleted → (deleteRound config F.fs env id w₁).1.db.lookup F =
        some (.entry e) → w.db.lookup F = some (.entry e) := by
    intro id w₁ hinv e harea hlook
    apply hinv e harea
    rcases deleteRound_db config F.fs env id w₁ with hdb | hdb
    · rwa [hdb] at hlook
    · rw [hdb] at hlook
      by_cases heq : F = ⟨F.fs, .deleted, id⟩
      · rw [heq, World.lookup_removeEntry] at hlook
        cases hlook
      · rwa [World.lookup_removeEntry_ne heq] at hlook
  have hstart : ∀ e, F.area = .deleted →
      (Loops.forEach (expireRound F.fs env) live w).1.db.lookup F = some (.entry e) →
        w.db.lookup F = some (.entry e) := by
    intro e harea hlook
    have heta : F = ⟨F.fs, .deleted, F.id⟩ := by rw [← harea]
    rw [heta] at hf hlook ⊢
    have hkept := (@LiveInv.live_loop env w w F (.refl w F) live).kept F.id f hf
    rw [hkept] at hlook
    rw [hf, hlook]
  obtain ⟨pre, id, w₁, rfl, hinv, hthrow⟩ := Loops.exists_of_forEach_eq_some hstep h hstart
  rcases deleteRound_cases config F.fs env id w₁ with
    ⟨heq, -⟩ | ⟨e, ⟨hread, fsconfig, hfs, hdel⟩, ⟨-, heq⟩ | ⟨hfail, -⟩⟩
  · rw [heq] at hthrow
    cases hthrow
  · rw [heq] at hthrow
    cases hthrow
  · have hk : (⟨F.fs, .deleted, id⟩ : DbLoc) = F := by
      by_contra hne
      exact hfail (hsingle _ hne).1
    have harea : F.area = .deleted := (congrArg DbLoc.area hk).symm
    obtain rfl : id = F.id := congrArg DbLoc.id hk
    rw [hk] at hfail hdel
    obtain ⟨hid, hlook⟩ := World.readEntry_eq_some.mp hread
    rw [hk] at hlook
    have hread₀ : w.readEntry F.fs .deleted F.id = some e := by
      refine World.readEntry_eq_some.mpr ⟨hid, ?_⟩
      rw [hk]
      exact hinv e harea hlook
    exact ⟨⟨harea, hfail, e, fsconfig, hread₀, hfs, hdel⟩, fun name hname => mem_namesAfter hname⟩

/-- **Faults are isolated** when the round of the failing entry does not end the second loop before
another entry. -/
theorem faultIsolated_of (hF : (w.db.lookup F).isSome)
    (hsingle : ∀ k, k ≠ F → (env k).entry = .ok ∧ (env k).dir = .ok) {live deleted : List Str}
    (hlast : EndsLoop config env w F → ∀ id ∈ namesAfter F.id deleted, id = F.id) :
    FaultIsolated config env w F live deleted := by
  have hfull := StartsFrom.refl w F
  have habsent := StartsFrom.removeEntry w F
  have hrest : ∀ x rest, (Loops.forEach (deleteRound config F.fs env) deleted
      (Loops.forEach (expireRound F.fs env) live w).1).2 = some (x, rest) →
        ∀ id ∈ rest, (⟨F.fs, .deleted, id⟩ : DbLoc) = F := by
    intro x rest hthrow id hid
    obtain ⟨hends, hafter⟩ := rest_of_throw hF hsingle hthrow
    rw [hlast hends id (hafter id hid), ← hends.1]
  have hloop := @Loops.forEach_filter _ _ _ (deleteRound config F.fs env) _ _ deleted
    (fun w₁ w₂ => Apart env w F w₁ w₂ ∧ OwnPaths env w F w₁ ∧ OwnPaths env w F w₂)
    (fun id => decide ((⟨F.fs, .deleted, id⟩ : DbLoc) = F)) ?_ ?_
    (fun x rest hthrow id hid => decide_eq_true (hrest x rest hthrow id hid))
    ⟨(LiveApart.live_loop hsingle live).mono fun _ => .moved,
      (LiveInv.live_loop hfull live).own, (LiveInv.live_loop habsent (without F .live live)).own⟩
  · constructor
    · intro x rest hthrow k hk
      rw [expire_workspaces_eq] at hthrow
      obtain ⟨⟨y, ids⟩, hids, heq⟩ := Option.map_eq_some_iff.mp hthrow
      obtain ⟨-, rfl⟩ := Prod.mk.inj heq
      obtain ⟨id, hid, rfl⟩ := List.mem_map.mp hk
      exact hrest y ids hids id hid
    · intro k hk
      rw [expire_workspaces_eq, expire_workspaces_eq]
      exact hloop.1.1.entries k hk
    · intro d hd
      rw [expire_workspaces_eq, expire_workspaces_eq]
      exact hloop.1.1.dirs d hd
  · rintro id w₁ w₂ hid ⟨h, hown, hown'⟩
    have heq : (⟨F.fs, .deleted, id⟩ : DbLoc) = F := of_decide_eq_true hid
    have hkey : OwnKey env w F ⟨F.fs, .deleted, id⟩ := by
      rw [heq]
      exact .self
    exact ⟨h.deleted_round_own hown hkey, hown.deleted_round id, hown'⟩
  · rintro id w₁ w₂ hid ⟨h, hown, hown'⟩
    obtain ⟨hentry, hdir⟩ := hsingle _ (of_decide_eq_false hid)
    refine ⟨deleteRound_quiet hentry w₁, deleteRound_quiet hentry w₂, ?_, hown.deleted_round id,
      hown'.deleted_round id⟩
    by_cases hkey : OwnKey env w F ⟨F.fs, .deleted, id⟩
    · have hleft : Apart env w F (deleteRound config F.fs env id w₁).1 w₂ :=
        h.deleted_round_own hown hkey
      exact AgreeOff.symm (Apart.deleted_round_own (AgreeOff.symm hleft) hown' hkey)
    · exact h.deleted_round hkey hentry hdir

/-- An entry whose round ends the second loop leaves the ones after it unprocessed. -/
theorem others_of_faultIsolated (hsingle : ∀ k, k ≠ F → (env k).entry = .ok ∧ (env k).dir = .ok)
    {live deleted : List Str} (h : FaultIsolated config env w F live deleted)
    (hends : EndsLoop config env w F) :
    ∀ id ∈ namesAfter F.id deleted, id = F.id := by
  obtain ⟨harea, hfail, e, fsconfig, hread, hfs, hdel⟩ := hends
  have heta : (⟨F.fs, .deleted, F.id⟩ : DbLoc) = F := by rw [← harea]
  obtain ⟨hid, hlook⟩ := World.readEntry_eq_some.mp hread
  by_cases hmem : F.id ∈ deleted
  · obtain ⟨pre, post, rfl, hpre⟩ := List.eq_append_cons_of_mem hmem
    rw [namesAfter_eq hpre]
    have hthrow : ∃ x, (Loops.forEach (deleteRound config F.fs env) (pre ++ F.id :: post)
        (Loops.forEach (expireRound F.fs env) live w).1).2 = some (x, post) := by
      refine @Loops.forEach_throw _ _ _ _ _ _ (fun w₁ => w₁.db.lookup F = some (.entry e)) _
        ?_ _ ?_ ?_
      · intro id hidpre w₁ hw₁
        have hne : (⟨F.fs, .deleted, id⟩ : DbLoc) ≠ F := by
          intro heq
          exact hpre (congrArg DbLoc.id heq ▸ hidpre)
        constructor
        · rcases deleteRound_cases config F.fs env id w₁ with
            ⟨heq, -⟩ | ⟨e', -, ⟨-, heq⟩ | ⟨hno, -⟩⟩
          · rw [heq]
          · rw [heq]
          · exact absurd (hsingle _ hne).1 hno
        · rcases deleteRound_db config F.fs env id w₁ with hdb | hdb
          · rw [hdb, hw₁]
          · rw [hdb, World.lookup_removeEntry_ne hne.symm, hw₁]
      · intro w₁ hw₁
        have hread₁ : w₁.readEntry F.fs .deleted F.id = some e :=
          World.readEntry_eq_some.mpr ⟨hid, by rw [heta]; exact hw₁⟩
        rcases deleteRound_cases config F.fs env F.id w₁ with
          ⟨-, hno⟩ | ⟨e', -, ⟨hok, -⟩ | ⟨-, heq⟩⟩
        · exact absurd ⟨hread₁, fsconfig, hfs, by rw [heta]; exact hdel⟩ (hno e)
        · rw [heta] at hok
          exact absurd hok hfail
        · exact ⟨_, by rw [heq]⟩
      · rw [← heta]
        exact (LiveInv.live_loop (.refl w F) live).kept F.id _ hlook
    obtain ⟨x, hx⟩ := hthrow
    intro id hid'
    have hrest : (expire_workspaces config F.fs env live (pre ++ F.id :: post) w).2 =
        some (x, post.map (⟨F.fs, .deleted, ·⟩)) := by
      rw [expire_workspaces_eq, hx]
      rfl
    exact congrArg DbLoc.id (h.processed x _ hrest _ (List.mem_map_of_mem hid'))
  · have hdrop : deleted.dropWhile (· != F.id) = [] := by
      apply List.dropWhile_eq_nil_iff.mpr
      intro id hid'
      exact bne_iff_ne.mpr fun heq => hmem (heq ▸ hid')
    rw [namesAfter, hdrop]
    simp

end Own

/-! ## Two deleted entries -/

/-- An entry that was over its time long ago. -/
def oldEntry (user name : Str) : DBEntry where
  username := user
  workspace := ⟨['s'], wsid user name⟩
  creation := 10
  expiration := 50
  reminder := 0
  extensions := 0
  groupflag := false
  group := []
  mailaddress := []
  comment := []
  released := 0
  expired := 60
  acctcode := []

/-- One filesystem with one space. -/
def oneFilesystem : Config := .single ['w'] (.ofSpaces ['s'] [])

/-- Two deleted entries, whose directories are gone. -/
def twoDeleted : World :=
  (World.init.writeEntry ⟨['w'], .deleted, "a-x-60".toList⟩ (oldEntry ['a'] ['x'])).writeEntry
    ⟨['w'], .deleted, "b-y-60".toList⟩ (oldEntry ['b'] ['y'])

/-- The entry that can not be removed. -/
def stuck : DbLoc := ⟨['w'], .deleted, "a-x-60".toList⟩

/-- Years later all goes well but the removal of one entry. -/
def stuckEnv (k : DbLoc) : RoundEnv :=
  ⟨1000000000, 1000000000, 1000000000, 1000000000, if k = stuck then .fails else .ok, .ok, .done⟩

theorem stuckEnv_ok (k : DbLoc) (h : k ≠ stuck) :
    (stuckEnv k).entry = .ok ∧ (stuckEnv k).dir = .ok := ⟨if_neg h, rfl⟩

/-- Beside them a live entry that is not over its time, after which one of them is named. -/
def alsoLive : World :=
  twoDeleted.writeEntry ⟨['w'], .live, "a-x".toList⟩
    { oldEntry ['a'] ['x'] with expiration := 2000000000 }

end HpcWorkspace
