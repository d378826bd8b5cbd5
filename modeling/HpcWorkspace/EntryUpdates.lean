import Mathlib.Logic.Function.Basic
import HpcWorkspace.Lib.Runs
import HpcWorkspace.World

/-!
# Two updates of an entry at the same time

An update reads the entry file, changes the entry in memory, opens the file with truncation,
writes it, and may rename it to the deleted area; there is no lock. So two updates of one entry
can lose one of the changes, mix their texts, or bring a live entry back that was moved away.
-/

namespace HpcWorkspace

/-! ## Files -/

/-- A name of an entry file of one workspace. -/
inductive EntryName where
  /-- `<id>` -/
  | live
  /-- `<id>-<ts>` in the deleted area -/
  | deleted (ts : ℤ)
  deriving DecidableEq

/-- The entry files of one workspace. An open file keeps its inode when it is renamed. -/
structure EntryFiles where
  /-- the inode a name refers to -/
  inode : EntryName → Option ℕ
  /-- the text of an inode -/
  text : ℕ → Str
  /-- the next new inode -/
  next : ℕ

namespace EntryFiles

/-- What is seen of the files. -/
def content (f : EntryFiles) (n : EntryName) : Option Str := (f.inode n).map f.text

/-- `open` with `O_CREAT | O_TRUNC`, with the inode of the descriptor. -/
def openTrunc (f : EntryFiles) (n : EntryName) : EntryFiles × ℕ :=
  match f.inode n with
  | some i => ({ f with text := Function.update f.text i [] }, i)
  | none =>
    ({ inode := Function.update f.inode n (some f.next)
       text := Function.update f.text f.next []
       next := f.next + 1 }, f.next)

/-- `write` from the start of the file; what lies behind stays. -/
def write (f : EntryFiles) (i : ℕ) (t : Str) : EntryFiles :=
  { f with text := Function.update f.text i (t ++ (f.text i).drop t.length) }

/-- `rename`; a file that is at the target goes away. -/
def rename (f : EntryFiles) (n n' : EntryName) : EntryFiles :=
  match f.inode n with
  | none => f
  | some i => { f with inode := Function.update (Function.update f.inode n none) n' (some i) }

end EntryFiles

/-- The YAML library. -/
structure Codec where
  /-- text of an entry -/
  emit : DBEntry → Str
  /-- entry of a text -/
  parse : Str → Option DBEntry

/-- `readFromFile`; `none` is the exception for a missing, empty or broken file. -/
def Codec.readEntry (codec : Codec) (f : EntryFiles) (n : EntryName) : Option DBEntry :=
  match f.content n with
  | none => none
  | some [] => none
  | some t => codec.parse t

/-! ## Updates -/

/-- An invocation that updates the live entry, with its arguments and its readings of the clock. -/
inductive Update where
  /-- `useExtension` -/
  | useExtension (isRoot : Bool) (expiration : ℤ) (mailaddress : Str) (reminder : ℤ) (comment : Str)
  /-- `ws_editdb`: the expiration computed from the one in the entry, if it is to be changed -/
  | setExpiration (edit : ℤ → Option ℤ)
  /-- `ws_editdb`: the same for the time it expired -/
  | setExpired (edit : ℤ → Option ℤ)
  /-- `release` -/
  | release (timestamp released : ℤ)
  /-- `expire` -/
  | expire (timestamp expired : ℤ)

/-- Where an update is, with its local variables: the step it takes next. -/
inductive UpdatePc where
  /-- read the entry -/
  | start
  /-- `expire`: look for a free name -/
  | choose (e : DBEntry)
  /-- open the file to write this entry, and rename it then, if a time is given -/
  | opening (e : DBEntry) (target : Option ℤ)
  /-- write it -/
  | writing (e : DBEntry) (fd : ℕ) (target : Option ℤ)
  /-- `release`: look whether the name is taken -/
  | check
  /-- rename the file -/
  | moving (ts : ℤ)
  /-- nothing more -/
  | done
  deriving DecidableEq

namespace Update

/-- The change in memory; `none` when nothing is written. -/
def change (e : DBEntry) : Update → Option DBEntry
  | .useExtension isRoot expiration mailaddress reminder comment =>
    e.useExtension isRoot expiration mailaddress reminder comment
  | .setExpiration edit => (edit e.expiration).map fun z => { e with expiration := z }
  | .setExpired edit => (edit e.expired).map fun z => { e with expired := z }
  | .release _ released => some { e with released := released }
  | .expire _ expired => some { e with expired := expired }

/-- `expire`: the first time whose name is free; `taken` tells about the directories. -/
def freeTime (taken : ℤ → Bool) (f : EntryFiles) : ℤ → ℕ → Option ℤ
  | _, 0 => none
  | ts, tries + 1 =>
    if (f.inode (.deleted ts)).isSome || taken ts then freeTime taken f (ts + 1) tries else some ts

/-- What comes after reading the entry. -/
def afterRead (e : DBEntry) (u : Update) : UpdatePc :=
  match u with
  | .expire timestamp _ => if timestamp < 0 then .done else .choose e
  | _ =>
    match u.change e with
    | none => .done
    | some e => .opening e none

/-- What comes after choosing a name. -/
def afterChoose (taken : ℤ → Bool) (f : EntryFiles) (e : DBEntry) (u : Update) : UpdatePc :=
  match u with
  | .expire timestamp _ =>
    match freeTime taken f timestamp 1000, u.change e with
    | some ts, some e => .opening e (some ts)
    | _, _ => .done
  | _ => .done

/-- What comes after writing the entry. -/
def afterWrite (target : Option ℤ) (u : Update) : UpdatePc :=
  match u, target with
  | .release .., _ => .check
  | .expire .., some ts => .moving ts
  | _, _ => .done

/-- The name `release` renames to. -/
def releaseTime (f : EntryFiles) (u : Update) : ℤ :=
  match u with
  | .release timestamp _ =>
    if (f.inode (.deleted timestamp)).isSome then timestamp + 1 else timestamp
  | _ => 0

variable (codec : Codec) (taken : ℤ → Bool)

/-- The next step of an update; `none` when it has come to its end. -/
def step (u : Update) (f : EntryFiles) : UpdatePc → Option (UpdatePc × EntryFiles)
  | .start =>
    match codec.readEntry f .live with
    | none => some (.done, f)
    | some e => some (u.afterRead e, f)
  | .choose e => some (u.afterChoose taken f e, f)
  | .opening e target => some (.writing e (f.openTrunc .live).2 target, (f.openTrunc .live).1)
  | .writing e fd target => some (u.afterWrite target, f.write fd (codec.emit e))
  | .check => some (.moving (u.releaseTime f), f)
  | .moving ts => some (.done, f.rename .live (.deleted ts))
  | .done => none

/-- The files after at most so many steps of an update that runs alone. -/
def runAlone (u : Update) : ℕ → UpdatePc → EntryFiles → EntryFiles
  | 0, _, f => f
  | n + 1, pc, f =>
    match u.step codec taken f pc with
    | none => f
    | some (pc, f) => runAlone u n pc f

/-- A bound on the steps that are left. -/
def rank : UpdatePc → ℕ
  | .start => 6
  | .choose _ => 5
  | .opening .. => 4
  | .writing .. => 3
  | .check => 2
  | .moving _ => 1
  | .done => 0

/-- The files after an update that runs alone from some point on. -/
def alone (u : Update) (pc : UpdatePc) (f : EntryFiles) : EntryFiles :=
  u.runAlone codec taken (rank pc) pc f

/-- The files after two updates, one after the other. -/
def serial (u v : Update) (f : EntryFiles) : EntryFiles :=
  v.alone codec taken .start (u.alone codec taken .start f)

end Update

/-! ## Two updates -/

/-- The state of two updates. -/
structure TwoUpdates where
  /-- the first update -/
  fst : UpdatePc
  /-- the second update -/
  snd : UpdatePc
  /-- the files -/
  files : EntryFiles

/-- Which of the updates takes a step. -/
inductive Party where
  /-- the first -/
  | fst
  /-- the second -/
  | snd
  deriving DecidableEq

namespace TwoUpdates

/-- One step. -/
def step (codec : Codec) (taken : ℤ → Bool) (u v : Update) (s : TwoUpdates) :
    Party → Option TwoUpdates
  | .fst => (u.step codec taken s.files s.fst).map fun p => ⟨p.1, s.snd, p.2⟩
  | .snd => (v.step codec taken s.files s.snd).map fun p => ⟨s.fst, p.1, p.2⟩

end TwoUpdates

/-! ## What a step of an update does -/

namespace Update

variable {codec : Codec} {taken : ℤ → Bool} {u v : Update} {f f' : EntryFiles}
  {pc pc' : UpdatePc}

/-- The update has read the entry, and changed nothing. -/
inductive HasRead : UpdatePc → Prop where
  /-- a name is to be chosen -/
  | choose (e : DBEntry) : HasRead (.choose e)
  /-- the file is to be opened -/
  | opening (e : DBEntry) (target : Option ℤ) : HasRead (.opening e target)

/-- The update has written the entry, and has the rename before it. -/
inductive HasWritten : UpdatePc → Prop where
  /-- the name is to be looked at -/
  | check : HasWritten .check
  /-- the file is to be renamed -/
  | moving (ts : ℤ) : HasWritten (.moving ts)

/-- What a step of an update does with the files. -/
inductive Steps (f : EntryFiles) : UpdatePc → UpdatePc → EntryFiles → Prop where
  /-- the entry is read -/
  | read {pc' : UpdatePc} (h : pc' = .done ∨ HasRead pc' ∧ f.inode .live ≠ none) :
      Steps f .start pc' f
  /-- a name is chosen -/
  | choose {e : DBEntry} {pc' : UpdatePc} (h : pc' = .done ∨ ∃ e' ts, pc' = .opening e' ts) :
      Steps f (.choose e) pc' f
  /-- the file is opened -/
  | opening {e : DBEntry} {target : Option ℤ} {f' : EntryFiles} {fd : ℕ}
      (h : f'.inode .live ≠ none) : Steps f (.opening e target) (.writing e fd target) f'
  /-- the entry is written -/
  | writing {e : DBEntry} {target : Option ℤ} {fd : ℕ} {f' : EntryFiles} {pc' : UpdatePc}
      (h : f'.inode = f.inode) (hpc : pc' = .done ∨ HasWritten pc') :
      Steps f (.writing e fd target) pc' f'
  /-- a name is looked at -/
  | check {ts : ℤ} : Steps f .check (.moving ts) f
  /-- the file is renamed -/
  | moving {ts : ℤ} {f' : EntryFiles} (h : f'.inode .live = none) :
      Steps f (.moving ts) .done f'

theorem afterRead_cases (e : DBEntry) (u : Update) :
    u.afterRead e = .done ∨ HasRead (u.afterRead e) := by
  unfold afterRead
  split
  · split
    · exact Or.inl rfl
    · exact Or.inr (.choose e)
  · split
    · exact Or.inl rfl
    · exact Or.inr (.opening _ _)

theorem afterChoose_cases (taken : ℤ → Bool) (f : EntryFiles) (e : DBEntry) (u : Update) :
    u.afterChoose taken f e = .done ∨ ∃ e' ts, u.afterChoose taken f e = .opening e' ts := by
  unfold afterChoose
  split
  · split
    · exact Or.inr ⟨_, _, rfl⟩
    · exact Or.inl rfl
  · exact Or.inl rfl

theorem afterWrite_cases (target : Option ℤ) (u : Update) :
    u.afterWrite target = .done ∨ HasWritten (u.afterWrite target) := by
  unfold afterWrite
  split
  · exact Or.inr .check
  · exact Or.inr (.moving _)
  · exact Or.inl rfl

theorem inode_openTrunc (f : EntryFiles) (n : EntryName) : (f.openTrunc n).1.inode n ≠ none := by
  unfold EntryFiles.openTrunc
  split
  · rename_i i hi
    rw [hi]
    exact Option.some_ne_none i
  · dsimp only
    rw [Function.update_self]
    exact Option.some_ne_none _

theorem inode_rename {n n' : EntryName} (hne : n ≠ n') (f : EntryFiles) :
    (f.rename n n').inode n = none := by
  unfold EntryFiles.rename
  split
  · assumption
  · dsimp only
    rw [Function.update_of_ne hne, Function.update_self]

/-- Nothing is read when there is no file. -/
theorem readEntry_of_missing (h : f.inode .live = none) : codec.readEntry f .live = none := by
  rw [Codec.readEntry, EntryFiles.content, h]
  rfl

/-- **Inversion** for the steps of an update. -/
theorem steps_of_step (h : u.step codec taken f pc = some (pc', f')) : Steps f pc pc' f' := by
  cases pc with
  | start =>
    dsimp only [step] at h
    split at h
    · obtain ⟨rfl, rfl⟩ := Option.some.inj h
      exact .read (Or.inl rfl)
    · rename_i e hread
      obtain ⟨rfl, rfl⟩ := Option.some.inj h
      refine .read ((afterRead_cases e u).imp_right fun h => ⟨h, fun hlive => ?_⟩)
      rw [readEntry_of_missing hlive] at hread
      cases hread
  | choose e =>
    obtain ⟨rfl, rfl⟩ := Option.some.inj h
    exact .choose (afterChoose_cases taken f e u)
  | opening e target =>
    obtain ⟨rfl, rfl⟩ := Option.some.inj h
    exact .opening (inode_openTrunc f .live)
  | writing e fd target =>
    obtain ⟨rfl, rfl⟩ := Option.some.inj h
    exact .writing rfl (afterWrite_cases target u)
  | check =>
    obtain ⟨rfl, rfl⟩ := Option.some.inj h
    exact .check
  | moving ts =>
    obtain ⟨rfl, rfl⟩ := Option.some.inj h
    exact .moving (inode_rename (by simp) f)
  | done => cases h

theorem rank_lt (h : Steps f pc pc' f') : rank pc' < rank pc := by
  cases h with
  | read h =>
    rcases h with rfl | ⟨h, _⟩
    · decide
    · cases h <;> simp only [rank, Nat.reduceLT]
  | choose h =>
    rcases h with rfl | ⟨e', ts, rfl⟩ <;> simp only [rank, Nat.reduceLT]
  | opening => simp only [rank, Nat.reduceLT]
  | writing h hpc =>
    rcases hpc with rfl | hpc
    · simp only [rank, Nat.reduceLT]
    · cases hpc <;> simp only [rank, Nat.reduceLT]
  | check => simp only [rank, Nat.reduceLT]
  | moving => simp only [rank, Nat.reduceLT]

/-- More steps than there are do not matter. -/
theorem runAlone_eq {n m : ℕ} (hn : rank pc ≤ n) (hm : rank pc ≤ m) :
    u.runAlone codec taken n pc f = u.runAlone codec taken m pc f := by
  induction n generalizing m pc f with
  | zero =>
    obtain rfl : pc = .done := by
      cases pc <;> first | rfl | cases hn
    cases m <;> rfl
  | succ n ih =>
    cases m with
    | zero =>
      obtain rfl : pc = .done := by
        cases pc <;> first | rfl | cases hm
      rfl
    | succ m =>
      rw [runAlone, runAlone]
      cases hstep : u.step codec taken f pc with
      | none => rfl
      | some p =>
        have hlt := rank_lt (steps_of_step hstep)
        exact ih (by omega) (by omega)

/-- A step leads on to the same end. -/
theorem alone_step (h : u.step codec taken f pc = some (pc', f')) :
    u.alone codec taken pc f = u.alone codec taken pc' f' := by
  have hlt := rank_lt (steps_of_step h)
  obtain ⟨n, hn⟩ : ∃ n, rank pc = n + 1 := ⟨rank pc - 1, by omega⟩
  rw [alone, hn, runAlone, h]
  exact runAlone_eq (by omega) (Nat.le_refl _)

@[simp] theorem alone_done (u : Update) (f : EntryFiles) : u.alone codec taken .done f = f := rfl

/-- Without a live entry an update does nothing. -/
theorem alone_of_missing (u : Update) (h : f.inode .live = none) :
    u.alone codec taken .start f = f := by
  have hstep : u.step codec taken f .start = some (.done, f) := by
    rw [step, readEntry_of_missing h]
  rw [alone_step hstep, alone_done]

end Update

/-! ## An entry with two extensions -/

/-- An entry with two extensions left. -/
def twoLeft : DBEntry :=
  { username := "bob".toList
    workspace := ⟨['s'], "bob-x".toList⟩
    creation := 0
    expiration := 100
    reminder := 0
    extensions := 2
    groupflag := false
    group := []
    mailaddress := []
    comment := []
    released := 0
    expired := 0
    acctcode := [] }

/-- A text with the fields that change. -/
def fieldsCodec : Codec where
  emit e :=
    fmtLong e.extensions ++ ':' :: (fmtLong e.expiration ++ ':' :: fmtLong e.persisted.released)
  parse t :=
    match (t.splitOn ':').map stollDigits with
    | [some extensions, some expiration, some released] =>
      some { twoLeft with extensions := extensions, expiration := expiration, released := released }
    | _ => none

/-- The live file with this entry. -/
def twoLeftFiles : EntryFiles where
  inode n := if n = .live then some 0 else none
  text _ := fieldsCodec.emit twoLeft
  next := 1

/-- `ws_allocate -x` of an ordinary user, to an expiration. -/
def extendTo (expiration : ℤ) : Update := .useExtension false expiration [] 0 []

end HpcWorkspace
