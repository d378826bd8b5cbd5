import HpcWorkspace.EntryUpdates
import HpcWorkspace.Lib.Yaml

/-!
# What two updates of an entry leave

There is no lock, so not every interleaving of two updates has the result of one of the two
orders. The dangerous time of an update is the one between its read and its open: what the other
one opens then is overwritten, and what the other one renames then comes back. When nothing falls
into it, and nobody reads a file that is only truncated, the files are those of one of the orders.
One case remains: when both updates set the times of release and expiry, and one of them moves the
entry, the other one may change the file on its way, and the entry is moved once, with both changes.
-/

namespace HpcWorkspace

/-! ## Steps that get in the way -/

/-- Has an update read the entry, and not opened the file yet? -/
def UpdatePc.hasRead : UpdatePc → Bool
  | .choose _ => true
  | .opening .. => true
  | _ => false

/-- Is the file of an update truncated and not written? -/
def UpdatePc.isWriting : UpdatePc → Bool
  | .writing .. => true
  | _ => false

/-- Does the update move the entry to the deleted area? -/
def Update.moves : Update → Bool
  | .release .. => true
  | .expire .. => true
  | _ => false

/-- Does the update leave the times at which the entry was released or expired? -/
def Update.keepsTimes : Update → Bool
  | .useExtension .. => true
  | .setExpiration _ => true
  | _ => false

/-- The step of `u` after `pc` does not get in the way of `v`, which is at `pc₂`. -/
def Undisturbing (u v : Update) (pc pc₂ : UpdatePc) : Prop :=
  match pc with
  -- an update that moves the entry loses nothing when the other one finds an empty file
  | .start => pc₂.isWriting = true → v.moves = true
  -- it may only be overwritten by an update that moves the entry: that one comes first then
  | .opening .. => pc₂.isWriting = false ∧ (pc₂.hasRead = true → u.moves = false ∧ v.moves = true)
  | .moving _ => pc₂.hasRead = false
  | _ => True

instance (u v : Update) (pc pc₂ : UpdatePc) : Decidable (Undisturbing u v pc pc₂) :=
  match pc with
  | .start => inferInstanceAs (Decidable (_ → _))
  | .opening .. => inferInstanceAs (Decidable (_ ∧ (_ → _ ∧ _)))
  | .moving _ => inferInstanceAs (Decidable (_ = false))
  | .choose _ => isTrue trivial
  | .writing .. => isTrue trivial
  | .check => isTrue trivial
  | .done => isTrue trivial

namespace TwoUpdates

/-- A step that does not get in the way of the other update. -/
def Undisturbing (u v : Update) (s : TwoUpdates) : Party → Prop
  | .fst => HpcWorkspace.Undisturbing u v s.fst s.snd
  | .snd => HpcWorkspace.Undisturbing v u s.snd s.fst

instance (u v : Update) (s : TwoUpdates) (p : Party) : Decidable (s.Undisturbing u v p) :=
  match p with
  | .fst => inferInstanceAs (Decidable (HpcWorkspace.Undisturbing ..))
  | .snd => inferInstanceAs (Decidable (HpcWorkspace.Undisturbing ..))

/-- A step that does not rename the file between the read and the open of the other update. -/
def RenamesApart (s : TwoUpdates) : Party → Prop
  | .fst => ∀ ts, s.fst = .moving ts → s.snd.hasRead = false
  | .snd => ∀ ts, s.snd = .moving ts → s.fst.hasRead = false

end TwoUpdates

/-- What the YAML library and the fields promise: an entry that is written is read back, up to
what is not stored. -/
structure Codec.Lawful (codec : Codec) : Prop where
  /-- no text is empty -/
  emit_ne_nil : ∀ e, codec.emit e ≠ []
  /-- a text is read back -/
  parse_emit : ∀ e, codec.parse (codec.emit e) = some e.persisted
  /-- only what is stored is written -/
  emit_persisted : ∀ e, codec.emit e.persisted = codec.emit e

namespace DBEntry

/-- An entry with the times of its release and its expiry, where they are given. -/
def withTimes (e : DBEntry) (released expired : Option ℤ) : DBEntry :=
  { e with released := released.getD e.released, expired := expired.getD e.expired }

/-- What is not stored does not matter for an entry whose times are set. -/
theorem persisted_withTimes (e : DBEntry) (released expired : Option ℤ) :
    (e.persisted.withTimes released expired).persisted =
      (e.withTimes released expired).persisted := by
  have htime : ∀ z : ℤ, (if (if z > 0 then z else 0) > 0 then (if z > 0 then z else 0) else 0) =
      if z > 0 then z else 0 := by
    intro z
    split <;> simp [*]
  obtain ⟨_, _, _, _, _, _, groupflag, group, _, _, _, _, _⟩ := e
  cases released <;> cases expired <;>
    simp only [persisted, withTimes, Option.getD_none, Option.getD_some, htime] <;>
    cases groupflag <;> cases group <;> simp

/-- What is stored is stored as it is. -/
theorem persisted_persisted (e : DBEntry) : e.persisted.persisted = e.persisted :=
  persisted_withTimes e none none

end DBEntry

/-! ## Files that are written in place -/

namespace EntryFiles

variable {f g : EntryFiles} {i : ℕ} {n n' : EntryName} {t t' : Str}

/-- The files with another text in an inode. -/
def rewrite (f : EntryFiles) (i : ℕ) (t : Str) : EntryFiles :=
  { f with text := Function.update f.text i t }

@[simp] theorem inode_rewrite (f : EntryFiles) (i : ℕ) (t : Str) :
    (f.rewrite i t).inode = f.inode := rfl

@[simp] theorem rewrite_rewrite (f : EntryFiles) (i : ℕ) (t t' : Str) :
    (f.rewrite i t).rewrite i t' = f.rewrite i t' := by
  simp [rewrite]

@[simp] theorem write_rewrite_nil (f : EntryFiles) (i : ℕ) (t : Str) :
    (f.rewrite i []).write i t = f.rewrite i t := by
  simp [rewrite, write]

theorem openTrunc_of_inode (h : f.inode n = some i) : f.openTrunc n = (f.rewrite i [], i) := by
  unfold openTrunc
  split
  · rename_i j hj
    obtain rfl := Option.some.inj (hj.symm.trans h)
    rfl
  · rename_i hnone
    rw [h] at hnone
    cases hnone

theorem content_rewrite_of_inode (h : f.inode n = some i) (t : Str) :
    (f.rewrite i t).content n = some t := by
  simp [content, rewrite, h]

theorem rename_of_missing (h : f.inode n = none) (n' : EntryName) : f.rename n n' = f := by
  unfold rename
  rw [h]

theorem rename_rewrite (f : EntryFiles) (n n' : EntryName) (i : ℕ) (t : Str) :
    (f.rewrite i t).rename n n' = (f.rename n n').rewrite i t := by
  unfold rename
  rw [inode_rewrite]
  cases f.inode n <;> rfl

/-- The live file goes to the deleted area, when a time is given. -/
def moveTo (f : EntryFiles) : Option ℤ → EntryFiles
  | none => f
  | some ts => f.rename .live (.deleted ts)

@[simp] theorem moveTo_none (f : EntryFiles) : f.moveTo none = f := rfl

theorem moveTo_rewrite (f : EntryFiles) (m : Option ℤ) (i : ℕ) (t : Str) :
    (f.rewrite i t).moveTo m = (f.moveTo m).rewrite i t := by
  cases m with
  | none => rfl
  | some ts => exact rename_rewrite f .live (.deleted ts) i t

theorem inode_moveTo_some (f : EntryFiles) (ts : ℤ) : (f.moveTo (some ts)).inode .live = none :=
  Update.inode_rename (by simp) f

end EntryFiles

/-! ## A live entry that is gone -/

section Gone

variable {codec : Codec} {taken : ℤ → Bool} {u v : Update} {f f' : EntryFiles}
  {pc pc' pc₂ : UpdatePc}

/-- An update that is going to open the live file has found one. -/
def UpdatePc.FoundLive (pc : UpdatePc) (f : EntryFiles) : Prop :=
  pc.hasRead = true → f.inode .live ≠ none

/-- A step of one update, for both of them. -/
theorem foundLive_step (hstep : u.step codec taken f pc = some (pc', f'))
    (hok : ∀ ts, pc = .moving ts → pc₂.hasRead = false) (h : pc.FoundLive f)
    (h₂ : pc₂.FoundLive f) : pc'.FoundLive f' ∧ pc₂.FoundLive f' := by
  cases Update.steps_of_step hstep with
  | read hread =>
    refine ⟨fun hpc => ?_, h₂⟩
    rcases hread with rfl | ⟨_, hlive⟩
    · cases hpc
    · exact hlive
  | choose _ => exact ⟨fun _ => h rfl, h₂⟩
  | opening hlive => exact ⟨fun _ => hlive, fun _ => hlive⟩
  | writing hinode hpc =>
    constructor
    · intro hread
      rcases hpc with rfl | hpc
      · cases hread
      · cases hpc with
        | check => cases hread
        | moving => cases hread
    · intro hread
      rw [hinode]
      exact h₂ hread
  | check =>
    refine ⟨fun hread => ?_, h₂⟩
    cases hread
  | moving _ =>
    constructor
    · intro hread
      cases hread
    · intro hread
      rw [hok _ rfl] at hread
      cases hread

/-- A live entry that is gone does not come back in a step. -/
theorem gone_step (hstep : u.step codec taken f pc = some (pc', f')) (h : pc.FoundLive f)
    (hgone : f.inode .live = none) : f'.inode .live = none := by
  cases Update.steps_of_step hstep with
  | read _ => exact hgone
  | choose _ => exact hgone
  | opening _ => exact absurd hgone (h rfl)
  | writing hinode _ => rw [hinode, hgone]
  | check => exact hgone
  | moving hmoved => exact hmoved

/-- Both updates have found a live file when they are going to open it. -/
structure TwoUpdates.FoundLive (s : TwoUpdates) : Prop where
  /-- the first -/
  fst : s.fst.FoundLive s.files
  /-- the second -/
  snd : s.snd.FoundLive s.files

theorem TwoUpdates.FoundLive.step {s s' : TwoUpdates} {p : Party} (h : s.FoundLive)
    (hok : s.RenamesApart p) (hstep : TwoUpdates.step codec taken u v s p = some s') : s'.FoundLive := by
  cases p with
  | fst =>
    obtain ⟨⟨pc', f'⟩, hmove, rfl⟩ := Option.map_eq_some_iff.mp hstep
    obtain ⟨hfst, hsnd⟩ := HpcWorkspace.foundLive_step hmove hok h.fst h.snd
    exact ⟨hfst, hsnd⟩
  | snd =>
    obtain ⟨⟨pc', f'⟩, hmove, rfl⟩ := Option.map_eq_some_iff.mp hstep
    obtain ⟨hsnd, hfst⟩ := HpcWorkspace.foundLive_step hmove hok h.snd h.fst
    exact ⟨hfst, hsnd⟩

theorem TwoUpdates.FoundLive.gone_step {s s' : TwoUpdates} {p : Party} (h : s.FoundLive)
    (hgone : s.files.inode .live = none) (hstep : TwoUpdates.step codec taken u v s p = some s') :
    s'.files.inode .live = none := by
  cases p with
  | fst =>
    obtain ⟨⟨pc', f'⟩, hmove, rfl⟩ := Option.map_eq_some_iff.mp hstep
    exact HpcWorkspace.gone_step hmove h.fst hgone
  | snd =>
    obtain ⟨⟨pc', f'⟩, hmove, rfl⟩ := Option.map_eq_some_iff.mp hstep
    exact HpcWorkspace.gone_step hmove h.snd hgone

/-- **A moved entry stays away**, through the rest of the run. -/
theorem TwoUpdates.gone_run {s₀ s s' : TwoUpdates} {before after : List Party}
    (hok : Runs.Meets (step codec taken u v) RenamesApart s₀ (before ++ after))
    (h₀ : s₀.FoundLive) (hbefore : Runs.exec (step codec taken u v) s₀ before = some s)
    (hgone : s.files.inode .live = none)
    (hafter : Runs.exec (step codec taken u v) s after = some s') :
    s'.files.inode .live = none := by
  obtain ⟨hok, hok'⟩ := Runs.meets_append.mp hok
  have hfound : s.FoundLive :=
    hok.invariant (fun s p s' h hok hstep => h.step hok hstep) h₀ hbefore
  have hkeep : ∀ s p s', s.FoundLive ∧ s.files.inode .live = none → s.RenamesApart p →
      step codec taken u v s p = some s' → s'.FoundLive ∧ s'.files.inode .live = none :=
    fun s p s' h hok hstep => ⟨h.1.step hok hstep, h.1.gone_step h.2 hstep⟩
  have hboth := (hok' s hbefore).invariant hkeep ⟨hfound, hgone⟩ hafter
  exact hboth.2

end Gone

/-! ## What one update does -/

namespace Update

/-- Do both updates set the times at which the entry was released or expired? -/
def collides (u v : Update) : Bool := !u.keepsTimes && !v.keepsTimes

/-- The time an update moves the entry to; `none` when it finds no name. -/
def moveTime (taken : ℤ → Bool) (f : EntryFiles) (u : Update) : Option ℤ :=
  match u with
  | .release .. => some (u.releaseTime f)
  | .expire timestamp _ => if timestamp < 0 then none else freeTime taken f timestamp 1000
  | _ => none

/-- What an update writes when it has read an entry, and the time it moves it to; `none` when it
gives up. -/
def outcome (taken : ℤ → Bool) (f : EntryFiles) (e : DBEntry) (u : Update) :
    Option (DBEntry × Option ℤ) :=
  if u.moves then (u.moveTime taken f).bind fun ts => (u.change e).map (·, some ts)
  else (u.change e).map (·, none)

/-- The time an update keeps while it writes: only `expire` has chosen one then. -/
def held (m : Option ℤ) (u : Update) : Option ℤ :=
  match u with
  | .expire .. => m
  | _ => none

variable {codec : Codec} {taken : ℤ → Bool} {u v : Update} {f g : EntryFiles} {e e' : DBEntry}
  {m : Option ℤ} {i : ℕ} {pc pc' : UpdatePc}

/-- Free names are looked for among the names. -/
theorem freeTime_congr (h : g.inode = f.inode) (ts : ℤ) (tries : ℕ) :
    freeTime taken g ts tries = freeTime taken f ts tries := by
  induction tries generalizing ts with
  | zero => rfl
  | succ tries ih => simp only [freeTime, h, ih]

theorem moveTime_congr (h : g.inode = f.inode) (u : Update) :
    u.moveTime taken g = u.moveTime taken f := by
  cases u <;> simp [moveTime, releaseTime, freeTime_congr h, h]

theorem outcome_congr (h : g.inode = f.inode) (e : DBEntry) (u : Update) :
    u.outcome taken g e = u.outcome taken f e := by
  simp only [outcome, moveTime_congr h]

theorem change_of_outcome (h : u.outcome taken f e = some (e', m)) : u.change e = some e' := by
  unfold outcome at h
  split at h
  · obtain ⟨ts, _, h⟩ := Option.bind_eq_some_iff.mp h
    obtain ⟨e'', he, heq⟩ := Option.map_eq_some_iff.mp h
    cases heq
    exact he
  · obtain ⟨e'', he, heq⟩ := Option.map_eq_some_iff.mp h
    cases heq
    exact he

/-- An update that moves the entry does not look at it before. -/
theorem outcome_of_moves (hmoves : u.moves = true) (e : DBEntry) :
    ∃ e', u.change e = some e' ∧
      u.outcome taken f e = (u.moveTime taken f).map fun ts => (e', some ts) := by
  cases u with
  | release timestamp released => exact ⟨_, rfl, rfl⟩
  | expire timestamp expired =>
    refine ⟨_, rfl, ?_⟩
    simp only [outcome, moves, change]
    cases moveTime taken f (.expire timestamp expired) <;> rfl
  | _ => cases hmoves

theorem moved_of_outcome (hmoves : u.moves = true) (h : u.outcome taken f e = some (e', m)) :
    ∃ ts, m = some ts ∧ u.moveTime taken f = some ts := by
  obtain ⟨e'', _, ho⟩ := outcome_of_moves hmoves e
  rw [ho] at h
  obtain ⟨ts, hts, heq⟩ := Option.map_eq_some_iff.mp h
  cases heq
  exact ⟨ts, rfl, hts⟩

theorem kept_of_outcome (hmoves : u.moves = false) (h : u.outcome taken f e = some (e', m)) :
    m = none := by
  rw [outcome, hmoves] at h
  obtain ⟨e'', _, heq⟩ := Option.map_eq_some_iff.mp h
  cases heq
  rfl

/-- The update has read `e`, and not opened the file. -/
inductive AfterRead (taken : ℤ → Bool) (f : EntryFiles) (e : DBEntry) (u : Update) :
    UpdatePc → Prop where
  /-- `expire` is to choose a name -/
  | choose {timestamp expired : ℤ} (hu : u = .expire timestamp expired) (hnow : ¬timestamp < 0) :
      AfterRead taken f e u (.choose e)
  /-- the file is to be opened -/
  | opening {e' : DBEntry} {m : Option ℤ} (ho : u.outcome taken f e = some (e', m)) :
      AfterRead taken f e u (.opening e' (u.held m))

/-- The update has written, and is to move the entry. -/
inductive AfterWrite (f : EntryFiles) (u : Update) (m : Option ℤ) : UpdatePc → Prop where
  /-- `release` is to look whether the name is taken -/
  | check (hu : u.moves = true) (hm : m = some (u.releaseTime f)) : AfterWrite f u m .check
  /-- the file is to be renamed -/
  | moving {ts : ℤ} (hu : u.moves = true) (hm : m = some ts) : AfterWrite f u m (.moving ts)

theorem AfterRead.hasRead (h : u.AfterRead taken f e pc) : pc.hasRead = true := by
  cases h <;> rfl

theorem AfterRead.congr (h : u.AfterRead taken f e pc) (hinode : g.inode = f.inode) :
    u.AfterRead taken g e pc := by
  cases h with
  | choose hu hnow => exact .choose hu hnow
  | opening ho => exact .opening ((outcome_congr hinode e u).trans ho)

theorem AfterWrite.congr (h : u.AfterWrite f m pc) (hinode : g.inode = f.inode) :
    u.AfterWrite g m pc := by
  cases h with
  | check hu hm =>
    refine .check hu (hm.trans ?_)
    cases u <;> simp [releaseTime, hinode]
  | moving hu hm => exact .moving hu hm

theorem AfterWrite.moves (h : u.AfterWrite f m pc) : u.moves = true := by
  cases h <;> assumption

theorem AfterWrite.hasWritten (h : u.AfterWrite f m pc) : HasWritten pc := by
  cases h with
  | check => exact .check
  | moving => exact .moving _

/-! ### One step of it -/

/-- An update that leaves the entry where it is goes on to open the file, if there is a change. -/
theorem afterRead_of_not_moves (hmoves : u.moves = false) (e : DBEntry) :
    u.afterRead e = (u.change e).elim .done fun e' => .opening e' none := by
  cases u with
  | release => cases hmoves
  | expire => cases hmoves
  | _ =>
    dsimp only [afterRead]
    split <;> simp [*]

theorem held_of_not_expire (hmoves : u.moves = false) (m : Option ℤ) : u.held m = none := by
  cases u with
  | expire => cases hmoves
  | _ => rfl

/-- After its read an update gives up, or has read. -/
theorem afterRead_step (taken : ℤ → Bool) (f : EntryFiles) (e : DBEntry) (u : Update) :
    u.afterRead e = .done ∧ u.outcome taken f e = none ∨
      u.AfterRead taken f e (u.afterRead e) := by
  cases hmoves : u.moves with
  | false =>
    rw [afterRead_of_not_moves hmoves]
    cases hchange : u.change e with
    | none =>
      left
      simp [outcome, hmoves, hchange]
    | some e' =>
      right
      have ho : u.outcome taken f e = some (e', none) := by
        simp [outcome, hmoves, hchange]
      have hopening := AfterRead.opening ho
      rwa [held_of_not_expire hmoves] at hopening
  | true =>
    cases u with
    | release timestamp released => exact Or.inr (.opening rfl)
    | expire timestamp expired =>
      by_cases hnow : timestamp < 0
      · left
        simp [afterRead, outcome, moveTime, moves, hnow]
      · right
        simp only [afterRead, if_neg hnow]
        exact .choose rfl hnow
    | _ => cases hmoves

theorem start_step (hread : codec.readEntry f .live = some e)
    (hstep : u.step codec taken f .start = some (pc', g)) :
    g = f ∧ (pc' = .done ∧ u.outcome taken f e = none ∨ u.AfterRead taken f e pc') := by
  rw [step, hread] at hstep
  obtain ⟨rfl, rfl⟩ := Option.some.inj hstep
  exact ⟨rfl, afterRead_step taken f e u⟩

/-- `expire` gives up when it finds no name. -/
theorem choose_step {timestamp expired : ℤ} (hu : u = .expire timestamp expired)
    (hnow : ¬timestamp < 0) (taken : ℤ → Bool) (f : EntryFiles) (e : DBEntry) :
    u.afterChoose taken f e = .done ∧ u.outcome taken f e = none ∨
      ∃ e' m, u.outcome taken f e = some (e', m) ∧
        u.afterChoose taken f e = .opening e' (u.held m) := by
  subst hu
  cases hfree : freeTime taken f timestamp 1000 with
  | none =>
    left
    simp [afterChoose, outcome, moves, moveTime, hnow, hfree]
  | some ts =>
    right
    refine ⟨{ e with expired := expired }, some ts, ?_, ?_⟩
    · simp [outcome, moves, moveTime, hnow, hfree, change]
    · simp [afterChoose, hfree, change, held]

/-- Before its open an update gives up, goes on, or opens the file. -/
theorem AfterRead.step (h : u.AfterRead taken f e pc) (hlive : f.inode .live = some i)
    (hstep : u.step codec taken f pc = some (pc', g)) :
    (g = f ∧ (pc' = .done ∧ u.outcome taken f e = none ∨ u.AfterRead taken f e pc')) ∨
      ∃ e' m, u.outcome taken f e = some (e', m) ∧ pc = .opening e' (u.held m) ∧
        pc' = .writing e' i (u.held m) ∧ g = f.rewrite i [] := by
  cases h with
  | choose hu hnow =>
    left
    obtain ⟨rfl, rfl⟩ := Option.some.inj hstep
    refine ⟨rfl, ?_⟩
    rcases choose_step hu hnow taken f e with hdone | ⟨e', m, ho, hpc⟩
    · exact Or.inl hdone
    · rw [hpc]
      exact Or.inr (.opening ho)
  | opening ho =>
    right
    rw [Update.step, EntryFiles.openTrunc_of_inode hlive] at hstep
    obtain ⟨rfl, rfl⟩ := Option.some.inj hstep
    exact ⟨_, _, ho, rfl, rfl, rfl⟩

theorem afterWrite_step (ho : u.outcome taken f e = some (e', m)) :
    u.moves = false ∧ u.afterWrite (u.held m) = .done ∨
      u.AfterWrite f m (u.afterWrite (u.held m)) := by
  cases hmoves : u.moves with
  | false =>
    left
    cases u with
    | release => cases hmoves
    | expire => cases hmoves
    | _ => exact ⟨rfl, rfl⟩
  | true =>
    right
    obtain ⟨ts, rfl, hts⟩ := moved_of_outcome hmoves ho
    cases u with
    | release timestamp released => exact .check rfl hts.symm
    | expire timestamp expired => exact .moving rfl rfl
    | _ => cases hmoves

theorem writing_step (ho : u.outcome taken f e = some (e', m)) (hinode : g.inode = f.inode)
    {g' : EntryFiles}
    (hstep : u.step codec taken g (.writing e' i (u.held m)) = some (pc', g')) :
    g' = g.write i (codec.emit e') ∧
      (u.moves = false ∧ pc' = .done ∨ u.AfterWrite (g.write i (codec.emit e')) m pc') := by
  obtain ⟨rfl, rfl⟩ := Option.some.inj hstep
  exact ⟨rfl, (afterWrite_step ho).imp_right fun h => h.congr hinode⟩

/-- After its write an update looks at the name, or moves the entry. -/
theorem AfterWrite.step (h : u.AfterWrite f m pc) (hinode : g.inode = f.inode) {g' : EntryFiles}
    (hstep : u.step codec taken g pc = some (pc', g')) :
    (g' = g ∧ u.AfterWrite f m pc') ∨
      ∃ ts, pc = .moving ts ∧ m = some ts ∧ pc' = .done ∧ g' = g.moveTo (some ts) := by
  cases h.congr hinode with
  | check hu hm =>
    obtain ⟨rfl, rfl⟩ := Option.some.inj hstep
    exact Or.inl ⟨rfl, .moving hu hm⟩
  | moving hu hm =>
    obtain ⟨rfl, rfl⟩ := Option.some.inj hstep
    exact Or.inr ⟨_, rfl, hm, rfl, rfl⟩

/-! ### The rest of it, alone -/

/-- The files after an update that has read an entry and runs alone. -/
def result (codec : Codec) (taken : ℤ → Bool) (f : EntryFiles) (e : DBEntry) (i : ℕ)
    (u : Update) : EntryFiles :=
  match u.outcome taken f e with
  | none => f
  | some p => (f.rewrite i (codec.emit p.1)).moveTo p.2

theorem result_of_none (h : u.outcome taken f e = none) : u.result codec taken f e i = f := by
  rw [result, h]

theorem result_of_some (h : u.outcome taken f e = some (e', m)) :
    u.result codec taken f e i = (f.rewrite i (codec.emit e')).moveTo m := by
  rw [result, h]

theorem alone_afterWrite (h : u.AfterWrite f m pc) : u.alone codec taken pc f = f.moveTo m := by
  cases h with
  | check hu hm =>
    subst hm
    rfl
  | moving hu hm =>
    subst hm
    rfl

theorem alone_writing (ho : u.outcome taken f e = some (e', m)) (hinode : g.inode = f.inode) :
    u.alone codec taken (.writing e' i (u.held m)) g = (g.write i (codec.emit e')).moveTo m := by
  have hstep : u.step codec taken g (.writing e' i (u.held m)) =
      some (u.afterWrite (u.held m), g.write i (codec.emit e')) := rfl
  rw [alone_step hstep]
  rcases (writing_step ho hinode hstep).2 with ⟨hmoves, hdone⟩ | hwritten
  · rw [hdone, alone_done, kept_of_outcome hmoves ho, EntryFiles.moveTo_none]
  · exact alone_afterWrite hwritten

theorem alone_afterRead (h : u.AfterRead taken f e pc) (hlive : f.inode .live = some i) :
    u.alone codec taken pc f = u.result codec taken f e i := by
  have hopen : ∀ {e' m}, u.outcome taken f e = some (e', m) →
      u.alone codec taken (.opening e' (u.held m)) f = u.result codec taken f e i := by
    intro e' m ho
    have hstep : u.step codec taken f (.opening e' (u.held m)) =
        some (.writing e' i (u.held m), f.rewrite i []) := by
      rw [Update.step, EntryFiles.openTrunc_of_inode hlive]
    rw [alone_step hstep, alone_writing ho (f.inode_rewrite i []), EntryFiles.write_rewrite_nil,
      result_of_some ho]
  cases h with
  | opening ho => exact hopen ho
  | choose hu hnow =>
    have hstep : u.step codec taken f (.choose e) = some (u.afterChoose taken f e, f) := rfl
    rw [alone_step hstep]
    rcases choose_step hu hnow taken f e with ⟨hdone, ho⟩ | ⟨e', m, ho, hpc⟩
    · rw [hdone, alone_done, result_of_none ho]
    · rw [hpc, hopen ho]

theorem alone_start (hread : codec.readEntry f .live = some e) (hlive : f.inode .live = some i) :
    u.alone codec taken .start f = u.result codec taken f e i := by
  have hstep : u.step codec taken f .start = some (u.afterRead e, f) := by
    rw [Update.step, hread]
  rw [alone_step hstep]
  rcases afterRead_step taken f e u with ⟨hdone, ho⟩ | hread
  · rw [hdone, alone_done, result_of_none ho]
  · exact alone_afterRead hread hlive

/-- Without a live file nothing is moved any more. -/
theorem alone_of_gone (hgone : f.inode .live = none) (hpc : pc = .done ∨ HasWritten pc) :
    u.alone codec taken pc f = f := by
  rcases hpc with rfl | hpc
  · rfl
  · cases hpc with
    | check => exact EntryFiles.rename_of_missing hgone _
    | moving ts => exact EntryFiles.rename_of_missing hgone _

/-- A write to a file that was moved. -/
theorem alone_writing_of_gone (hgone : f.inode .live = none) (e' : DBEntry) (i : ℕ)
    (target : Option ℤ) :
    u.alone codec taken (.writing e' i target) f = f.write i (codec.emit e') := by
  have hstep : u.step codec taken f (.writing e' i target) =
      some (u.afterWrite target, f.write i (codec.emit e')) := rfl
  rw [alone_step hstep]
  exact alone_of_gone hgone (afterWrite_cases target u)

end Update

/-! ## Results -/

section Results

variable {codec : Codec} {taken : ℤ → Bool} {u v : Update} {f f₀ : EntryFiles}
  {e e₁ e₂ : DBEntry} {m m₂ : Option ℤ} {i : ℕ} {ts : ℤ}

open Update

/-- The entry is moved once, with both changes: `v` has changed what `u` wrote. -/
def Merged (codec : Codec) (taken : ℤ → Bool) (u v : Update) (f₀ f : EntryFiles) : Prop :=
  ∃ i e e₁ e₂ ts, f₀.inode .live = some i ∧ codec.readEntry f₀ .live = some e ∧
    u.change e = some e₁ ∧ v.change e₁.persisted = some e₂ ∧
    (u.moveTime taken f₀ = some ts ∨ v.moveTime taken f₀ = some ts) ∧
    f = (f₀.rewrite i (codec.emit e₂)).rename .live (.deleted ts)

/-- The files are those after one of the orders; two updates that collide may also have moved the
entry once, with both changes. -/
def SerialResult (codec : Codec) (taken : ℤ → Bool) (u v : Update) (f₀ f : EntryFiles) : Prop :=
  f = serial codec taken u v f₀ ∨ f = serial codec taken v u f₀ ∨
    collides u v = true ∧ (Merged codec taken u v f₀ f ∨ Merged codec taken v u f₀ f)

theorem collides_comm (u v : Update) : collides u v = collides v u := by
  exact Bool.and_comm _ _

theorem SerialResult.symm (h : SerialResult codec taken u v f₀ f) :
    SerialResult codec taken v u f₀ f := by
  rcases h with h | h | ⟨hcollides, h⟩
  · exact Or.inr (Or.inl h)
  · exact Or.inl h
  · exact Or.inr (Or.inr ⟨(collides_comm v u).trans hcollides, h.symm⟩)

/-- What stays out of the times does not look at them. -/
theorem change_withTimes (hv : v.keepsTimes = true) (e : DBEntry) (released expired : Option ℤ) :
    v.change (e.withTimes released expired) =
      (v.change e).map fun e' => e'.withTimes released expired := by
  cases v with
  | useExtension isRoot expiration mailaddress reminder comment =>
    have hleft : (e.withTimes released expired).extensionsLeft isRoot expiration =
        e.extensionsLeft isRoot expiration := rfl
    simp only [change, DBEntry.useExtension, hleft]
    split <;> rfl
  | setExpiration edit =>
    simp only [change, Option.map_map]
    rfl
  | _ => cases hv

/-- What stays out of the times does not look at what is not stored. -/
theorem change_persisted (hv : v.keepsTimes = true) (e : DBEntry) :
    v.change e.persisted = (v.change e).map DBEntry.persisted := by
  cases v with
  | useExtension isRoot expiration mailaddress reminder comment =>
    have hleft : e.persisted.extensionsLeft isRoot expiration =
        e.extensionsLeft isRoot expiration := rfl
    simp only [change, DBEntry.useExtension, hleft]
    split <;> rfl
  | setExpiration edit =>
    simp only [change, Option.map_map]
    rfl
  | _ => cases hv

/-- A move sets one of the times. -/
theorem change_of_moves (hu : u.moves = true) :
    ∃ released expired, ∀ e, u.change e = some (e.withTimes released expired) := by
  cases u with
  | release timestamp released => exact ⟨some released, none, fun _ => rfl⟩
  | expire timestamp expired => exact ⟨none, some expired, fun _ => rfl⟩
  | _ => cases hu

/-- **Commuting changes.** A change that stays out of the times of the move may come first. -/
theorem change_comm (hu : u.moves = true) (hv : v.keepsTimes = true) (h₁ : u.change e = some e₁)
    (h₂ : v.change e₁.persisted = some e₂) :
    ∃ e₁' e₂', v.change e = some e₁' ∧ u.change e₁'.persisted = some e₂' ∧
      e₂'.persisted = e₂.persisted := by
  obtain ⟨released, expired, hset⟩ := change_of_moves hu
  obtain rfl := Option.some.inj ((hset e).symm.trans h₁)
  rw [change_persisted hv, change_withTimes hv, Option.map_map] at h₂
  obtain ⟨e₁', hchange, rfl⟩ := Option.map_eq_some_iff.mp h₂
  refine ⟨e₁', _, hchange, hset e₁'.persisted, ?_⟩
  rw [Function.comp_apply, DBEntry.persisted_withTimes, DBEntry.persisted_persisted]

end Results

/-! ## Interleavings -/

section Interleavings

variable {codec : Codec} {taken : ℤ → Bool} {u v : Update} {f f' f₀ : EntryFiles}
  {e e₁ e₂ : DBEntry} {m m₂ : Option ℤ} {i : ℕ} {pc pc' pc₂ : UpdatePc}

open Update

theorem readEntry_rewrite (hcodec : codec.Lawful) (hlive : f₀.inode .live = some i)
    (e₁ : DBEntry) : codec.readEntry (f₀.rewrite i (codec.emit e₁)) .live = some e₁.persisted := by
  rw [Codec.readEntry, EntryFiles.content_rewrite_of_inode hlive]
  split
  · rename_i h
    cases h
  · rename_i h
    exact absurd (Option.some.inj h) (hcodec.emit_ne_nil e₁)
  · rename_i t _ h
    obtain rfl := Option.some.inj h
    exact hcodec.parse_emit e₁

theorem readEntry_truncated (hlive : f₀.inode .live = some i) :
    codec.readEntry (f₀.rewrite i []) .live = none := by
  rw [Codec.readEntry, EntryFiles.content_rewrite_of_inode hlive]

/-! ### The two orders -/

/-- When the first update gives up, the second one runs alone. -/
theorem serial_of_none (hread : codec.readEntry f₀ .live = some e)
    (hlive : f₀.inode .live = some i) (ho : u.outcome taken f₀ e = none) :
    serial codec taken u v f₀ = v.result codec taken f₀ e i := by
  rw [serial, alone_start hread hlive, result_of_none ho, alone_start hread hlive]

/-- When the first update moves the entry, the second one finds nothing. -/
theorem serial_of_moved (hread : codec.readEntry f₀ .live = some e)
    (hlive : f₀.inode .live = some i) (hmoves : u.moves = true)
    (ho : u.outcome taken f₀ e = some (e₁, m)) :
    serial codec taken u v f₀ = (f₀.rewrite i (codec.emit e₁)).moveTo m := by
  obtain ⟨ts, rfl, _⟩ := moved_of_outcome hmoves ho
  rw [serial, alone_start hread hlive, result_of_some ho]
  exact alone_of_missing v (EntryFiles.inode_moveTo_some _ ts)

/-- When the first update leaves the entry, the second one reads what it wrote. -/
theorem serial_of_kept (hcodec : codec.Lawful) (hread : codec.readEntry f₀ .live = some e)
    (hlive : f₀.inode .live = some i) (hmoves : u.moves = false)
    (ho : u.outcome taken f₀ e = some (e₁, m)) :
    serial codec taken u v f₀ =
      v.result codec taken (f₀.rewrite i (codec.emit e₁)) e₁.persisted i := by
  rw [serial, alone_start hread hlive, result_of_some ho, kept_of_outcome hmoves ho]
  exact alone_start (readEntry_rewrite hcodec hlive e₁) hlive

/-- **One move with both changes** has the result of an order, or is a merged one. -/
theorem result_of_merged (hcodec : codec.Lawful) (hread : codec.readEntry f₀ .live = some e)
    (hlive : f₀.inode .live = some i) (hmoves : u.moves = true)
    (ho : u.outcome taken f₀ e = some (e₁, m))
    (ho₂ : v.outcome taken f₀ e₁.persisted = some (e₂, m₂)) {ts : ℤ}
    (hts : m = some ts ∨ v.moves = true ∧ m₂ = some ts) :
    SerialResult codec taken u v f₀
      ((f₀.rewrite i (codec.emit e₂)).rename .live (.deleted ts)) := by
  have hchange := change_of_outcome ho
  have hchange₂ := change_of_outcome ho₂
  cases hv : v.keepsTimes with
  | true =>
    have hvmoves : v.moves = false := by
      cases v <;> first | rfl | cases hv
    obtain rfl : m = some ts := by
      rcases hts with h | ⟨h, _⟩
      · exact h
      · rw [hvmoves] at h
        cases h
    obtain ⟨e₁', e₂', h₁', h₂', heq⟩ := change_comm hmoves hv hchange hchange₂
    have hov : v.outcome taken f₀ e = some (e₁', none) := by
      simp [outcome, hvmoves, h₁']
    obtain ⟨ts', hts', htime⟩ := moved_of_outcome hmoves ho
    obtain rfl := Option.some.inj hts'
    have hou : u.outcome taken (f₀.rewrite i (codec.emit e₁')) e₁'.persisted =
        some (e₂', some ts) := by
      rw [outcome_congr (f₀.inode_rewrite i _)]
      simp [outcome, hmoves, htime, h₂']
    have hemit : codec.emit e₂' = codec.emit e₂ := by
      rw [← hcodec.emit_persisted e₂', heq, hcodec.emit_persisted]
    right
    left
    rw [serial_of_kept hcodec hread hlive hvmoves hov, result_of_some hou,
      EntryFiles.rewrite_rewrite, hemit]
    rfl
  | false =>
    have hu : u.keepsTimes = false := by
      cases u <;> first | rfl | cases hmoves
    have htime : u.moveTime taken f₀ = some ts ∨ v.moveTime taken f₀ = some ts := by
      rcases hts with rfl | ⟨hvmoves, rfl⟩
      · obtain ⟨ts', hts', htime⟩ := moved_of_outcome hmoves ho
        obtain rfl := Option.some.inj hts'
        exact Or.inl htime
      · obtain ⟨ts', hts', htime⟩ := moved_of_outcome hvmoves ho₂
        obtain rfl := Option.some.inj hts'
        exact Or.inr htime
    refine Or.inr (Or.inr ⟨by simp [collides, hu, hv], Or.inl ?_⟩)
    exact ⟨i, e, e₁, e₂, ts, hlive, hread, hchange, hchange₂, htime, rfl⟩

/-- **A change that is overwritten.** The update that moves the entry comes first, or does
nothing. -/
theorem result_of_stale (hcodec : codec.Lawful) (hread : codec.readEntry f₀ .live = some e)
    (hlive : f₀.inode .live = some i) (hkeeps : u.moves = false) (hmoves : v.moves = true)
    (ho : u.outcome taken f₀ e = some (e₁, m)) :
    SerialResult codec taken u v f₀
      (v.result codec taken (f₀.rewrite i (codec.emit e₁)) e i) := by
  have houtcome : ∀ e' w, Update.outcome taken (f₀.rewrite i (codec.emit e₁)) e' w =
      w.outcome taken f₀ e' := outcome_congr (f₀.inode_rewrite i _)
  cases htime : v.moveTime taken f₀ with
  | none =>
    have hnone : ∀ e', v.outcome taken f₀ e' = none := by
      intro e'
      obtain ⟨_, _, h⟩ := outcome_of_moves hmoves e'
      rw [h, htime]
      rfl
    left
    rw [serial_of_kept hcodec hread hlive hkeeps ho, result_of_none, result_of_none]
    · rw [houtcome, hnone]
    · rw [houtcome, hnone]
  | some ts =>
    obtain ⟨e₂, _, h⟩ := outcome_of_moves hmoves e
    rw [htime] at h
    right
    left
    rw [serial_of_moved hread hlive hmoves h, result_of_some ((houtcome e v).trans h),
      EntryFiles.rewrite_rewrite]

/-! ### How far the updates have come -/

/-- Where two updates are that do not get in each other's way, seen from one of them, which is `u`;
`f₀` are the files before both, with the entry `e` in the inode `i`. -/
inductive Stage (codec : Codec) (taken : ℤ → Bool) (u v : Update) (f₀ : EntryFiles) (e : DBEntry)
    (i : ℕ) : UpdatePc → UpdatePc → EntryFiles → Prop where
  /-- none has begun -/
  | idle : Stage codec taken u v f₀ e i .start .start f₀
  /-- one has read -/
  | reading {pc : UpdatePc} (hu : u.AfterRead taken f₀ e pc) :
      Stage codec taken u v f₀ e i pc .start f₀
  /-- both have read -/
  | both {pc pc₂ : UpdatePc} (hu : u.AfterRead taken f₀ e pc) (hv : v.AfterRead taken f₀ e pc₂) :
      Stage codec taken u v f₀ e i pc pc₂ f₀
  /-- one has opened the file, the other one has not begun -/
  | writing {e₁ : DBEntry} {m : Option ℤ} (ho : u.outcome taken f₀ e = some (e₁, m)) :
      Stage codec taken u v f₀ e i (.writing e₁ i (u.held m)) .start (f₀.rewrite i [])
  /-- one has written, the other one has not begun -/
  | written {e₁ : DBEntry} {m : Option ℤ} {pc : UpdatePc}
      (ho : u.outcome taken f₀ e = some (e₁, m)) (hu : u.AfterWrite f₀ m pc) :
      Stage codec taken u v f₀ e i pc .start (f₀.rewrite i (codec.emit e₁))
  /-- one has written, the other one has read that -/
  | passed {e₁ : DBEntry} {m : Option ℤ} {pc pc₂ : UpdatePc}
      (ho : u.outcome taken f₀ e = some (e₁, m)) (hu : u.AfterWrite f₀ m pc)
      (hv : v.AfterRead taken f₀ e₁.persisted pc₂) :
      Stage codec taken u v f₀ e i pc pc₂ (f₀.rewrite i (codec.emit e₁))
  /-- one has written, the other one has opened the file again -/
  | merging {e₁ e₂ : DBEntry} {m m₂ : Option ℤ} {pc : UpdatePc}
      (ho : u.outcome taken f₀ e = some (e₁, m)) (hu : u.AfterWrite f₀ m pc)
      (ho₂ : v.outcome taken f₀ e₁.persisted = some (e₂, m₂)) :
      Stage codec taken u v f₀ e i pc (.writing e₂ i (v.held m₂)) (f₀.rewrite i [])
  /-- both have written, one after the other, and both are to move the entry -/
  | merged {e₁ e₂ : DBEntry} {m m₂ : Option ℤ} {pc pc₂ : UpdatePc}
      (ho : u.outcome taken f₀ e = some (e₁, m)) (hu : u.AfterWrite f₀ m pc)
      (ho₂ : v.outcome taken f₀ e₁.persisted = some (e₂, m₂)) (hv : v.AfterWrite f₀ m₂ pc₂) :
      Stage codec taken u v f₀ e i pc pc₂ (f₀.rewrite i (codec.emit e₂))
  /-- one writes what the other one, which has read, will overwrite and move -/
  | stale {e₁ : DBEntry} {m : Option ℤ} {pc₂ : UpdatePc}
      (ho : u.outcome taken f₀ e = some (e₁, m)) (hkeeps : u.moves = false)
      (hmoves : v.moves = true) (hv : v.AfterRead taken f₀ e pc₂) :
      Stage codec taken u v f₀ e i (.writing e₁ i (u.held m)) pc₂ (f₀.rewrite i [])
  /-- one is done, and the other one leads to a result -/
  | settled {pc₂ : UpdatePc} {f : EntryFiles}
      (hf : SerialResult codec taken u v f₀ (v.alone codec taken pc₂ f)) :
      Stage codec taken u v f₀ e i .done pc₂ f

/-- A step of the update from which the stage is seen. -/
theorem stage_step_fst (hcodec : codec.Lawful) (hread : codec.readEntry f₀ .live = some e)
    (hlive : f₀.inode .live = some i) (h : Stage codec taken u v f₀ e i pc pc₂ f)
    (hstep : u.step codec taken f pc = some (pc', f')) (hok : Undisturbing u v pc pc₂) :
    Stage codec taken u v f₀ e i pc' pc₂ f' := by
  cases h with
  | idle =>
    obtain ⟨rfl, ⟨rfl, ho⟩ | hu⟩ := start_step hread hstep
    · refine .settled (Or.inl ?_)
      rw [serial_of_none hread hlive ho, alone_start hread hlive]
    · exact .reading hu
  | reading hu =>
    rcases hu.step hlive hstep with ⟨rfl, ⟨rfl, ho⟩ | hu⟩ | ⟨e₁, m, ho, rfl, rfl, rfl⟩
    · refine .settled (Or.inl ?_)
      rw [serial_of_none hread hlive ho, alone_start hread hlive]
    · exact .reading hu
    · exact .writing ho
  | both hu hv =>
    rcases hu.step hlive hstep with ⟨rfl, ⟨rfl, ho⟩ | hu⟩ | ⟨e₁, m, ho, rfl, rfl, rfl⟩
    · refine .settled (Or.inl ?_)
      rw [serial_of_none hread hlive ho, alone_afterRead hv hlive]
    · exact .both hu hv
    · obtain ⟨hkeeps, hmoves⟩ := hok.2 hv.hasRead
      exact .stale ho hkeeps hmoves hv
  | writing ho =>
    obtain ⟨rfl, ⟨hmoves, rfl⟩ | hu⟩ := writing_step ho (f₀.inode_rewrite i []) hstep
    · refine .settled (Or.inl ?_)
      rw [serial_of_kept hcodec hread hlive hmoves ho, EntryFiles.write_rewrite_nil,
        alone_start (readEntry_rewrite hcodec hlive _) hlive]
    · rw [EntryFiles.write_rewrite_nil] at hu ⊢
      exact .written ho (hu.congr rfl)
  | written ho hu =>
    rcases hu.step (f₀.inode_rewrite i _) hstep with ⟨rfl, hu⟩ | ⟨ts, rfl, rfl, rfl, rfl⟩
    · exact .written ho hu
    · refine .settled (Or.inl ?_)
      rw [serial_of_moved hread hlive hu.moves ho]
      exact alone_of_missing v (EntryFiles.inode_moveTo_some _ ts)
  | passed ho hu hv =>
    rcases hu.step (f₀.inode_rewrite i _) hstep with ⟨rfl, hu⟩ | ⟨ts, rfl, _⟩
    · exact .passed ho hu hv
    · -- the other one would bring the entry back
      have hread₂ : pc₂.hasRead = false := hok
      rw [hv.hasRead] at hread₂
      cases hread₂
  | merging ho hu ho₂ =>
    rcases hu.step (f₀.inode_rewrite i _) hstep with ⟨rfl, hu⟩ | ⟨ts, rfl, rfl, rfl, rfl⟩
    · exact .merging ho hu ho₂
    · refine .settled ?_
      rw [alone_writing_of_gone (EntryFiles.inode_moveTo_some _ ts), EntryFiles.moveTo_rewrite,
        EntryFiles.write_rewrite_nil, ← EntryFiles.moveTo_rewrite]
      exact result_of_merged hcodec hread hlive hu.moves ho ho₂ (Or.inl rfl)
  | merged ho hu ho₂ hv =>
    rcases hu.step (f₀.inode_rewrite i _) hstep with ⟨rfl, hu⟩ | ⟨ts, rfl, rfl, rfl, rfl⟩
    · exact .merged ho hu ho₂ hv
    · refine .settled ?_
      rw [alone_of_gone (EntryFiles.inode_moveTo_some _ ts) (Or.inr hv.hasWritten)]
      exact result_of_merged hcodec hread hlive hu.moves ho ho₂ (Or.inl rfl)
  | stale ho hkeeps hmoves hv =>
    obtain ⟨rfl, ⟨_, rfl⟩ | hu⟩ := writing_step ho (f₀.inode_rewrite i []) hstep
    · refine .settled ?_
      rw [EntryFiles.write_rewrite_nil, alone_afterRead (hv.congr (f₀.inode_rewrite i _)) hlive]
      exact result_of_stale hcodec hread hlive hkeeps hmoves ho
    · rw [hu.moves] at hkeeps
      cases hkeeps
  | settled => cases hstep

/-- A step of the other update. -/
theorem stage_step_snd (hcodec : codec.Lawful) (hread : codec.readEntry f₀ .live = some e)
    (hlive : f₀.inode .live = some i) (h : Stage codec taken u v f₀ e i pc pc₂ f)
    (hstep : v.step codec taken f pc₂ = some (pc', f')) (hok : Undisturbing v u pc₂ pc) :
    Stage codec taken u v f₀ e i pc pc' f' ∨ Stage codec taken v u f₀ e i pc' pc f' := by
  cases h with
  | idle => exact Or.inr (stage_step_fst hcodec hread hlive .idle hstep hok)
  | reading hu =>
    obtain ⟨rfl, ⟨rfl, ho⟩ | hv⟩ := start_step hread hstep
    · refine Or.inr (.settled (Or.inl ?_))
      rw [serial_of_none hread hlive ho, alone_afterRead hu hlive]
    · exact Or.inl (.both hu hv)
  | both hu hv => exact Or.inr (stage_step_fst hcodec hread hlive (.both hv hu) hstep hok)
  | writing ho =>
    -- it reads an empty file
    have hmoves : u.moves = true := hok rfl
    rw [step, readEntry_truncated hlive] at hstep
    obtain ⟨rfl, rfl⟩ := Option.some.inj hstep
    refine Or.inr (.settled (Or.inr (Or.inl ?_)))
    rw [serial_of_moved hread hlive hmoves ho, alone_writing ho (f₀.inode_rewrite i []),
      EntryFiles.write_rewrite_nil]
  | @written e₁ m _ ho hu =>
    obtain ⟨rfl, ⟨rfl, _⟩ | hv⟩ := start_step (readEntry_rewrite hcodec hlive e₁) hstep
    · refine Or.inr (.settled (Or.inr (Or.inl ?_)))
      rw [serial_of_moved hread hlive hu.moves ho,
        alone_afterWrite (hu.congr (f₀.inode_rewrite i _))]
    · exact Or.inl (.passed ho hu (hv.congr rfl))
  | passed ho hu hv =>
    rcases (hv.congr (f₀.inode_rewrite i _)).step hlive hstep with
      ⟨rfl, ⟨rfl, _⟩ | hv⟩ | ⟨e₂, m₂, ho₂, rfl, rfl, rfl⟩
    · refine Or.inr (.settled (Or.inr (Or.inl ?_)))
      rw [serial_of_moved hread hlive hu.moves ho,
        alone_afterWrite (hu.congr (f₀.inode_rewrite i _))]
    · exact Or.inl (.passed ho hu (hv.congr rfl))
    · rw [EntryFiles.rewrite_rewrite]
      exact Or.inl (.merging ho hu ((outcome_congr (f₀.inode_rewrite i _) _ v).symm.trans ho₂))
  | merging ho hu ho₂ =>
    obtain ⟨rfl, ⟨hkeeps, rfl⟩ | hv⟩ := writing_step ho₂ (f₀.inode_rewrite i []) hstep
    · obtain ⟨ts, rfl, _⟩ := moved_of_outcome hu.moves ho
      refine Or.inr (.settled ?_)
      rw [EntryFiles.write_rewrite_nil, alone_afterWrite (hu.congr (f₀.inode_rewrite i _))]
      exact (result_of_merged hcodec hread hlive hu.moves ho ho₂ (Or.inl rfl)).symm
    · rw [EntryFiles.write_rewrite_nil] at hv ⊢
      exact Or.inl (.merged ho hu ho₂ (hv.congr rfl))
  | merged ho hu ho₂ hv =>
    rcases hv.step (f₀.inode_rewrite i _) hstep with ⟨rfl, hv⟩ | ⟨ts, rfl, rfl, rfl, rfl⟩
    · exact Or.inl (.merged ho hu ho₂ hv)
    · refine Or.inr (.settled ?_)
      rw [alone_of_gone (EntryFiles.inode_moveTo_some _ ts) (Or.inr hu.hasWritten)]
      exact (result_of_merged hcodec hread hlive hu.moves ho ho₂ (Or.inr ⟨hv.moves, rfl⟩)).symm
  | stale ho hkeeps hmoves hv =>
    rcases (hv.congr (f₀.inode_rewrite i [])).step hlive hstep with
      ⟨rfl, ⟨rfl, hnone⟩ | hv⟩ | ⟨_, _, _, rfl, _⟩
    · refine Or.inr (.settled (Or.inl ?_))
      rw [outcome_congr (f₀.inode_rewrite i [])] at hnone
      rw [serial_of_none hread hlive hnone, alone_writing ho (f₀.inode_rewrite i []),
        EntryFiles.write_rewrite_nil, result_of_some ho]
    · exact Or.inl (.stale ho hkeeps hmoves (hv.congr rfl))
    · -- the file is truncated
      cases hok.1
  | settled hf =>
    rw [alone_step hstep] at hf
    exact Or.inl (.settled hf)

/-- What can be seen at each moment, from one of the updates. -/
inductive Serial (codec : Codec) (taken : ℤ → Bool) (u v : Update) (f₀ : EntryFiles) :
    TwoUpdates → Prop where
  /-- nothing can be read, so nothing happens -/
  | unreadable {s : TwoUpdates} (hread : codec.readEntry f₀ .live = none)
      (hfst : s.fst = .start ∨ s.fst = .done) (hsnd : s.snd = .start ∨ s.snd = .done)
      (hf : s.files = f₀) : Serial codec taken u v f₀ s
  /-- an entry can be read -/
  | readable {s : TwoUpdates} {e : DBEntry} {i : ℕ} (hread : codec.readEntry f₀ .live = some e)
      (hlive : f₀.inode .live = some i)
      (hstage : Stage codec taken u v f₀ e i s.fst s.snd s.files ∨
        Stage codec taken v u f₀ e i s.snd s.fst s.files) : Serial codec taken u v f₀ s

theorem serial_start (codec : Codec) (taken : ℤ → Bool) (u v : Update) (f₀ : EntryFiles) :
    Serial codec taken u v f₀ ⟨.start, .start, f₀⟩ := by
  cases hread : codec.readEntry f₀ .live with
  | none => exact .unreadable hread (Or.inl rfl) (Or.inl rfl) rfl
  | some e =>
    cases hlive : f₀.inode .live with
    | none =>
      rw [readEntry_of_missing hlive] at hread
      cases hread
    | some i => exact .readable hread hlive (Or.inl .idle)

/-- Without an entry an update only reads. -/
theorem unreadable_step (hread : codec.readEntry f .live = none) (hpc : pc = .start ∨ pc = .done)
    (hstep : u.step codec taken f pc = some (pc', f')) : pc' = .done ∧ f' = f := by
  rcases hpc with rfl | rfl
  · rw [Update.step, hread] at hstep
    obtain ⟨rfl, rfl⟩ := Option.some.inj hstep
    exact ⟨rfl, rfl⟩
  · cases hstep

/-- **Step lemma.** -/
theorem serial_step (hcodec : codec.Lawful) {s s' : TwoUpdates} {p : Party}
    (h : Serial codec taken u v f₀ s) (hok : s.Undisturbing u v p)
    (hstep : s.step codec taken u v p = some s') : Serial codec taken u v f₀ s' := by
  cases p with
  | fst =>
    obtain ⟨⟨pc', f'⟩, hmove, rfl⟩ := Option.map_eq_some_iff.mp hstep
    cases h with
    | unreadable hread hfst hsnd hf =>
      rw [hf] at hmove
      obtain ⟨rfl, rfl⟩ := unreadable_step hread hfst hmove
      exact .unreadable hread (Or.inr rfl) hsnd rfl
    | readable hread hlive hstage =>
      rcases hstage with h | h
      · exact .readable hread hlive (Or.inl (stage_step_fst hcodec hread hlive h hmove hok))
      · exact .readable hread hlive (stage_step_snd hcodec hread hlive h hmove hok).symm
  | snd =>
    obtain ⟨⟨pc', f'⟩, hmove, rfl⟩ := Option.map_eq_some_iff.mp hstep
    cases h with
    | unreadable hread hfst hsnd hf =>
      rw [hf] at hmove
      obtain ⟨rfl, rfl⟩ := unreadable_step hread hsnd hmove
      exact .unreadable hread hfst (Or.inr rfl) rfl
    | readable hread hlive hstage =>
      rcases hstage with h | h
      · exact .readable hread hlive (stage_step_snd hcodec hread hlive h hmove hok)
      · exact .readable hread hlive (Or.inr (stage_step_fst hcodec hread hlive h hmove hok))

/-- Two updates that are done have come to a result. -/
theorem Stage.result (h : Stage codec taken u v f₀ e i .done .done f) :
    SerialResult codec taken u v f₀ f := by
  cases h with
  | both hu => cases hu
  | passed _ hu => cases hu
  | merged _ hu => cases hu
  | settled hf => exact hf

theorem Serial.result {s : TwoUpdates} (h : Serial codec taken u v f₀ s) (hfst : s.fst = .done)
    (hsnd : s.snd = .done) : SerialResult codec taken u v f₀ s.files := by
  cases h with
  | unreadable hread _ _ hf =>
    have hgives_up : ∀ w : Update, w.alone codec taken .start f₀ = f₀ := by
      intro w
      have hstep : w.step codec taken f₀ .start = some (.done, f₀) := by
        rw [Update.step, hread]
      rw [alone_step hstep, alone_done]
    left
    rw [hf, serial, hgives_up, hgives_up]
  | readable _ _ hstage =>
    rw [hfst, hsnd] at hstage
    rcases hstage with h | h
    · exact h.result
    · exact h.result.symm

end Interleavings

/-! ## An extension while an entry is released -/

/-- The lines of an entry. -/
def entryLines (e : DBEntry) : List (Str × Str) :=
  [("space".toList, e.workspace.space), ("name".toList, e.workspace.name),
    ("user".toList, e.username), ("creation".toList, Yaml.Flat.printNumber e.creation),
    ("expiration".toList, Yaml.Flat.printNumber e.expiration),
    ("expired".toList, Yaml.Flat.printNumber e.expired),
    ("extensions".toList, Yaml.Flat.printNumber e.extensions),
    ("reminder".toList, Yaml.Flat.printNumber e.reminder),
    ("mailaddress".toList, e.mailaddress), ("group".toList, e.group),
    ("released".toList, Yaml.Flat.printNumber e.released), ("comment".toList, e.comment),
    ("acctcode".toList, e.acctcode)]

/-- An entry from its lines. -/
def entryOfLines (m : List (Str × YamlNode)) : DBEntry :=
  let string (key : Str) : Str :=
    match m.lookup key with
    | some (.scalar s) => s
    | _ => []
  let number (key : Str) : ℤ := Yaml.Flat.parseNumber (string key)
  { username := string "user".toList
    workspace := ⟨string "space".toList, string "name".toList⟩
    creation := number "creation".toList
    expiration := number "expiration".toList
    reminder := number "reminder".toList
    extensions := number "extensions".toList
    groupflag := !(string "group".toList).isEmpty
    group := string "group".toList
    mailaddress := string "mailaddress".toList
    comment := string "comment".toList
    released := number "released".toList
    expired := number "expired".toList
    acctcode := string "acctcode".toList }

/-- One line for each field of an entry. -/
def linesCodec : Codec where
  emit e := (entryLines e.persisted).flatMap fun p => Yaml.Flat.emitLine p ++ ['\n']
  parse t := (Yaml.Flat.load t).map entryOfLines

theorem linesCodec_lawful : linesCodec.Lawful where
  emit_ne_nil e := by
    simp [linesCodec, entryLines, Yaml.Flat.emitLine]
  parse_emit e := by
    have hwords : ∀ k ∈ (entryLines e.persisted).map Prod.fst, Yaml.IsWord k :=
      of_decide_eq_true rfl
    have hparse : linesCodec.parse (linesCodec.emit e) =
        (Yaml.Flat.load ((entryLines e.persisted).flatMap fun p =>
          Yaml.Flat.emitLine p ++ ['\n'])).map entryOfLines := rfl
    rw [hparse, Yaml.Flat.load_lines hwords, Option.map_some]
    have hread : entryOfLines ((entryLines e.persisted).map fun p => (p.1, .scalar p.2)) =
        { e.persisted with
          creation := Yaml.Flat.parseNumber (Yaml.Flat.printNumber e.persisted.creation)
          expiration := Yaml.Flat.parseNumber (Yaml.Flat.printNumber e.persisted.expiration)
          reminder := Yaml.Flat.parseNumber (Yaml.Flat.printNumber e.persisted.reminder)
          extensions := Yaml.Flat.parseNumber (Yaml.Flat.printNumber e.persisted.extensions)
          released := Yaml.Flat.parseNumber (Yaml.Flat.printNumber e.persisted.released)
          expired := Yaml.Flat.parseNumber (Yaml.Flat.printNumber e.persisted.expired) } := rfl
    rw [hread]
    simp only [Yaml.Flat.parseNumber_printNumber]
  emit_persisted e := by
    simp only [linesCodec, DBEntry.persisted_persisted]

/-- The live file with two extensions left. -/
def linesFiles : EntryFiles where
  inode n := if n = .live then some 0 else none
  text _ := linesCodec.emit twoLeft
  next := 1

end HpcWorkspace
