import HpcWorkspace.Entries
import HpcWorkspace.EntryUpdates
import HpcWorkspace.FoundAgain

/-!
# Two calls of `ws_allocate` at the same time

A call looks for the entry, makes the directory in the space it selects, changes its owner, and
writes the entry; another call can come in between, there is no lock, and a directory that is there
already is taken. When two calls both find no entry and select different spaces, both make a
directory and print it, and one of the directories is left without an entry. When they select the
same directory, and do not write the entry file at the same time, they agree.
-/

namespace HpcWorkspace

/-! ## The steps of a call -/

/-- A call of `ws_allocate` without `-u`, past its checks. -/
structure AllocCall where
  /-- the caller -/
  c : Caller
  /-- the command line -/
  a : AllocArgs
  /-- what it reads of its surroundings -/
  env : AllocEnv

/-- Where a call is, with its local variables: the step it takes next. -/
inductive AllocPc where
  /-- look for an existing entry -/
  | lookup
  /-- make the directory -/
  | makeDir
  /-- change its owner -/
  | setOwner
  /-- open the entry file, to write this entry -/
  | opening (e : DBEntry)
  /-- write it -/
  | writing (e : DBEntry) (fd : ℕ)
  /-- the directory is printed -/
  | printed (dir : WsPath)
  /-- the call ended with an error -/
  | failed
  deriving DecidableEq

namespace AllocCall

variable (codec : Codec) (config : Config) (fsconfig : FilesystemConfig) (call : AllocCall)

/-- The id of the workspace. -/
def id : Str := wsid call.c.username call.a.name

/-- The directory a call makes when there is no entry. -/
def dir : WsPath := workspaceDir fsconfig call.c call.env [] call.a.name

/-- The entry a call writes then. -/
def entry : DBEntry := newEntry config call.c call.a call.env fsconfig (call.dir fsconfig)

/-- The entry a call finds. -/
def look (files : EntryFiles) : Option DBEntry :=
  if checkID call.id then codec.readEntry files .live else none

/-- What comes after the search: the entry is extended or reported, or a new one is made. -/
def afterLookup : Option DBEntry → AllocPc
  | some e =>
    if call.a.extension then
      match extendEntry config call.c call.a [] call.env fsconfig e with
      | none => .failed
      | some e' => .opening e'
    else .printed e.workspace
  | none => if call.a.extension || !fsconfig.allocatable then .failed else .makeDir

/-- What comes after the owner is changed. -/
def afterOwner : AllocPc :=
  if checkID call.id then .opening (call.entry config fsconfig) else .failed

/-- Is the group of the new workspace known? -/
def groupKnown : Bool :=
  primarygroup call.c call.a == [] || call.env.groupKnown (primarygroup call.c call.a)

/-- The next step of a call; `none` when it has come to its end. -/
def step (files : EntryFiles) (dirs : DirTree DirLoc Dir) :
    AllocPc → Option (AllocPc × EntryFiles × DirTree DirLoc Dir)
  | .lookup => some (call.afterLookup config fsconfig (call.look codec files), files, dirs)
  | .makeDir => some (.setOwner, files, makeDir dirs (call.dir fsconfig).loc call.env.now)
  | .setOwner =>
    if call.groupKnown then
      some (call.afterOwner config fsconfig, files,
        chownDir dirs (call.dir fsconfig).loc call.c.uid)
    else some (.failed, files, dirs)
  | .opening e =>
    some (.writing e (files.openTrunc .live).2, (files.openTrunc .live).1, dirs)
  | .writing e fd => some (.printed e.workspace, files.write fd (codec.emit e), dirs)
  | .printed _ => none
  | .failed => none

end AllocCall

/-! ## Two calls -/

/-- The other one of two parties. -/
def Party.other : Party → Party
  | .fst => .snd
  | .snd => .fst

theorem Party.eq_or_eq_other (p p' : Party) : p' = p ∨ p' = p.other := by
  cases p <;> cases p' <;> simp [Party.other]

theorem Party.other_ne (p : Party) : p.other ≠ p := by
  cases p <;> nofun

/-- The state of two calls that work on the same database and the same spaces. -/
structure TwoAllocs where
  /-- where they are -/
  pc : Party → AllocPc
  /-- the entry files of the workspace -/
  files : EntryFiles
  /-- the directories -/
  dirs : DirTree DirLoc Dir

namespace TwoAllocs

/-- Two calls that have begun. -/
def start (files : EntryFiles) (dirs : DirTree DirLoc Dir) : TwoAllocs where
  pc _ := .lookup
  files := files
  dirs := dirs

/-- One step. -/
def step (codec : Codec) (config : Config) (fsconfig : FilesystemConfig)
    (calls : Party → AllocCall) (s : TwoAllocs) (p : Party) : Option TwoAllocs :=
  ((calls p).step codec config fsconfig s.files s.dirs (s.pc p)).map fun r =>
    ⟨Function.update s.pc p r.1, r.2.1, r.2.2⟩

end TwoAllocs

/-- The directory of the entry a call has yet to write. -/
def AllocPc.pending (fsconfig : FilesystemConfig) (call : AllocCall) : AllocPc → Option WsPath
  | .makeDir => some (call.dir fsconfig)
  | .setOwner => some (call.dir fsconfig)
  | .opening e => some e.workspace
  | .writing e _ => some e.workspace
  | _ => none

/-- Is a call between opening and writing the entry file? -/
def AllocPc.writes : AllocPc → Bool
  | .writing .. => true
  | _ => false

/-- **The condition on a step.** A call that finds no entry while the other one has yet to write
one selects the same directory; no call opens the entry file while the other one writes it. -/
def TwoAllocs.Agreeing (codec : Codec) (fsconfig : FilesystemConfig) (calls : Party → AllocCall)
    (s : TwoAllocs) (p : Party) : Prop :=
  (s.pc p = .lookup → (calls p).look codec s.files = none →
    ∀ q, (s.pc p.other).pending fsconfig (calls p.other) = some q → (calls p).dir fsconfig = q) ∧
  (∀ e, s.pc p = .opening e → (s.pc p.other).writes = false)

/-- An entry whose text is not empty and gives the directory back. -/
def Codec.Keeps (codec : Codec) (e : DBEntry) : Prop :=
  codec.emit e ≠ [] ∧ ∃ e', codec.parse (codec.emit e) = some e' ∧ e'.workspace = e.workspace

/-- An entry a call can write. -/
def AllocCall.MayWrite (config : Config) (fsconfig : FilesystemConfig) (call : AllocCall)
    (e : DBEntry) : Prop :=
  e = call.entry config fsconfig ∨ call.a.extension = true ∧
    ∃ e₀, extendEntry config call.c call.a [] call.env fsconfig e₀ = some e

/-- The workspace before both calls: there is an entry with its directory, and no other directory
of that id in the spaces, or there is none, and at most the directory both calls would make. -/
inductive Settled (codec : Codec) (fsconfig : FilesystemConfig) (calls : Party → AllocCall)
    (id : Str) (files : EntryFiles) (dirs : DirTree DirLoc Dir) : Prop where
  /-- there is no entry -/
  | free (hread : codec.readEntry files .live = none)
      (hdirs : ∀ space ∈ fsconfig.spaces, (dirs.find ⟨space, .live, id⟩).isSome →
        ∀ p, (calls p).dir fsconfig = ⟨space, id⟩)
  /-- there is one -/
  | allocated {e : DBEntry} (hread : codec.readEntry files .live = some e)
      (hname : e.workspace.name = id) (hspace : e.workspace.space ∈ fsconfig.spaces)
      (hdirs : ∀ space ∈ fsconfig.spaces,
        (dirs.find ⟨space, .live, id⟩).isSome ↔ space = e.workspace.space)

/-- Both calls have printed a directory, it is the only one of that id in the spaces, and the entry
points to it. -/
structure AgreeOn (codec : Codec) (fsconfig : FilesystemConfig) (id : Str) (q : WsPath)
    (s : TwoAllocs) : Prop where
  /-- they print the same directory -/
  printed : ∀ p, s.pc p = .printed q
  /-- it is one of that id -/
  name : q.name = id
  /-- it is in a space of the filesystem -/
  space : q.space ∈ fsconfig.spaces
  /-- it is there, and no other one -/
  only : ∀ space ∈ fsconfig.spaces, (s.dirs.find ⟨space, .live, id⟩).isSome ↔ space = q.space
  /-- the entry points to it -/
  entry : ∃ e, codec.readEntry s.files .live = some e ∧ e.workspace = q

/-! ## What a step does -/

section Steps

variable {codec : Codec} {config : Config} {fsconfig : FilesystemConfig} {call : AllocCall}
  {files files' : EntryFiles} {dirs dirs' : DirTree DirLoc Dir} {pc pc' : AllocPc} {q : WsPath}

/-- `open` leaves an empty file. -/
theorem EntryFiles.openTrunc_spec (f : EntryFiles) (n : EntryName) :
    (f.openTrunc n).1.inode n = some (f.openTrunc n).2 ∧
      (f.openTrunc n).1.text (f.openTrunc n).2 = [] := by
  unfold openTrunc
  split
  · rename_i i hi
    exact ⟨hi, Function.update_self ..⟩
  · exact ⟨Function.update_self .., Function.update_self ..⟩

/-- An empty file is no entry. -/
theorem Codec.readEntry_of_empty {n : EntryName} {i : ℕ} (hi : files.inode n = some i)
    (ht : files.text i = []) : codec.readEntry files n = none := by
  have hc : files.content n = some [] := by
    rw [EntryFiles.content, hi, Option.map_some, ht]
  rw [readEntry, hc]

/-- What is written into an empty file is read again. -/
theorem Codec.Keeps.readEntry {e : DBEntry} (h : codec.Keeps e) {n : EntryName} {i : ℕ}
    (hi : files.inode n = some i) (ht : files.text i = []) :
    ∃ e', codec.readEntry (files.write i (codec.emit e)) n = some e' ∧
      e'.workspace = e.workspace := by
  obtain ⟨hne, e', hparse, hdir⟩ := h
  have hc : (files.write i (codec.emit e)).content n = some (codec.emit e) := by
    rw [EntryFiles.content, EntryFiles.write, hi, Option.map_some]
    dsimp only
    rw [Function.update_self, ht, List.drop_nil, List.append_nil]
  refine ⟨e', ?_, hdir⟩
  rw [Codec.readEntry, hc]
  split
  · rename_i hno
    cases hno
  · rename_i hno
    exact absurd (Option.some.inj hno) hne
  · rename_i t _ ht'
    rw [← Option.some.inj ht']
    exact hparse

/-- A call that works for a directory, and has made it when it is past that step. -/
inductive WorksFor (codec : Codec) (fsconfig : FilesystemConfig) (call : AllocCall) (q : WsPath)
    (dirs : DirTree DirLoc Dir) : AllocPc → Prop where
  /-- it has not begun -/
  | lookup : WorksFor codec fsconfig call q dirs .lookup
  /-- it makes the directory -/
  | makeDir (hdir : call.dir fsconfig = q) : WorksFor codec fsconfig call q dirs .makeDir
  /-- it has made it -/
  | setOwner (hdir : call.dir fsconfig = q) (hmade : (dirs.find q.loc).isSome) :
      WorksFor codec fsconfig call q dirs .setOwner
  /-- it opens the file for an entry that points to it -/
  | opening {e : DBEntry} (hentry : e.workspace = q) (hkeeps : codec.Keeps e)
      (hmade : (dirs.find q.loc).isSome) : WorksFor codec fsconfig call q dirs (.opening e)
  /-- it writes that -/
  | writing {e : DBEntry} {fd : ℕ} (hentry : e.workspace = q) (hkeeps : codec.Keeps e)
      (hmade : (dirs.find q.loc).isSome) : WorksFor codec fsconfig call q dirs (.writing e fd)
  /-- it has printed it -/
  | printed (hmade : (dirs.find q.loc).isSome) :
      WorksFor codec fsconfig call q dirs (.printed q)

/-- Another call that keeps the directory does not disturb. -/
theorem WorksFor.mono (h : WorksFor codec fsconfig call q dirs pc)
    (hmade : (dirs.find q.loc).isSome → (dirs'.find q.loc).isSome) :
    WorksFor codec fsconfig call q dirs' pc := by
  cases h with
  | lookup => exact .lookup
  | makeDir hdir => exact .makeDir hdir
  | setOwner hdir hthere => exact .setOwner hdir (hmade hthere)
  | opening hentry hkeeps hthere => exact .opening hentry hkeeps (hmade hthere)
  | writing hentry hkeeps hthere => exact .writing hentry hkeeps (hmade hthere)
  | printed hthere => exact .printed (hmade hthere)

/-- The directories after a step for a directory: it stays, and no other one comes. -/
structure OnlyAt (q : WsPath) (dirs dirs' : DirTree DirLoc Dir) : Prop where
  /-- it stays -/
  made : (dirs.find q.loc).isSome → (dirs'.find q.loc).isSome
  /-- the others are as before -/
  frame : ∀ k, k ≠ q.loc → dirs'.find k = dirs.find k

theorem OnlyAt.refl (q : WsPath) (dirs : DirTree DirLoc Dir) : OnlyAt q dirs dirs :=
  ⟨id, fun _ _ => rfl⟩

theorem onlyAt_makeDir (q : WsPath) (dirs : DirTree DirLoc Dir) (now : ℤ) :
    (makeDir dirs q.loc now |>.find q.loc).isSome ∧ OnlyAt q dirs (makeDir dirs q.loc now) := by
  obtain ⟨n, hn, -⟩ := find_makeDir_self dirs q.loc now
  have hmade : (makeDir dirs q.loc now |>.find q.loc).isSome := by
    rw [hn]
    rfl
  exact ⟨hmade, fun _ => hmade, fun k hk => find_makeDir_ne hk⟩

theorem onlyAt_chownDir (q : WsPath) (dirs : DirTree DirLoc Dir) (uid : ℕ) :
    OnlyAt q dirs (chownDir dirs q.loc uid) := by
  refine ⟨fun h => ?_, fun k hk => find_chownDir_ne hk⟩
  rw [find_chownDir_self, Option.isSome_map]
  exact h

/-- What a call finds leads to the directory of the entry. -/
theorem worksFor_afterLookup_found {e : DBEntry} (hentry : e.workspace = q)
    (hkeeps : ∀ e, call.MayWrite config fsconfig e → codec.Keeps e)
    (hmade : (dirs.find q.loc).isSome) :
    call.afterLookup config fsconfig (some e) = .failed ∨
      (call.afterLookup config fsconfig (some e)).writes = false ∧
        WorksFor codec fsconfig call q dirs (call.afterLookup config fsconfig (some e)) := by
  dsimp only [AllocCall.afterLookup]
  split
  · rename_i hext
    split
    · exact Or.inl rfl
    · rename_i e' he'
      have hws : e'.workspace = q := by
        rw [(sameWorkspace_of_extendEntry he').2, hentry]
      exact Or.inr ⟨rfl, .opening hws (hkeeps e' (Or.inr ⟨hext, e, he'⟩)) hmade⟩
  · rw [hentry]
    exact Or.inr ⟨rfl, .printed hmade⟩

/-- A call that finds nothing makes a directory. -/
theorem afterLookup_missing (call : AllocCall) (config : Config) (fsconfig : FilesystemConfig) :
    call.afterLookup config fsconfig none = .failed ∨
      call.afterLookup config fsconfig none = .makeDir := by
  dsimp only [AllocCall.afterLookup]
  split
  · exact Or.inl rfl
  · exact Or.inr rfl

end Steps

/-! ## Two calls agree -/

namespace TwoAllocs

section Agree

variable {codec : Codec} {config : Config} {fsconfig : FilesystemConfig}
  {calls : Party → AllocCall} {s s' : TwoAllocs} {q : WsPath} {p : Party} {id : Str}

/-- The entry file while both calls work for a directory. -/
inductive FileState (codec : Codec) (fsconfig : FilesystemConfig) (calls : Party → AllocCall)
    (q : WsPath) (s : TwoAllocs) : Prop where
  /-- there is an entry, it points to the directory -/
  | written {e : DBEntry} (hquiet : ∀ p, (s.pc p).writes = false)
      (hread : codec.readEntry s.files .live = some e) (hentry : e.workspace = q)
      (hmade : (s.dirs.find q.loc).isSome)
  /-- there is none, a call will write it, none has ended -/
  | missing (p : Party) (hquiet : ∀ p, (s.pc p).writes = false)
      (hread : codec.readEntry s.files .live = none)
      (hnone : ∀ p d, s.pc p ≠ .printed d)
      (hpending : (s.pc p).pending fsconfig (calls p) = some q)
  /-- a call has opened the file, the other one has not -/
  | opened (p : Party) {e : DBEntry} {fd : ℕ} (hpc : s.pc p = .writing e fd)
      (hfile : s.files.inode .live = some fd) (htext : s.files.text fd = [])
      (hother : (s.pc p.other).writes = false)

/-- Both calls work for one directory, the only one of its id. -/
structure Towards (codec : Codec) (fsconfig : FilesystemConfig) (calls : Party → AllocCall)
    (id : Str) (q : WsPath) (s : TwoAllocs) : Prop where
  /-- it has the name of the id -/
  name : q.name = id
  /-- it is in a space of the filesystem -/
  space : q.space ∈ fsconfig.spaces
  /-- no other space has one -/
  only : ∀ space ∈ fsconfig.spaces, (s.dirs.find ⟨space, .live, id⟩).isSome → space = q.space
  /-- both calls work for it -/
  works : ∀ p, WorksFor codec fsconfig (calls p) q s.dirs (s.pc p)
  /-- the entry file -/
  file : FileState codec fsconfig calls q s

theorem pc_self (pc : Party → AllocPc) (pc' : AllocPc) (files : EntryFiles)
    (dirs : DirTree DirLoc Dir) :
    (⟨Function.update pc p pc', files, dirs⟩ : TwoAllocs).pc p = pc' := Function.update_self ..

theorem pc_of_ne {p' : Party} (hne : p' ≠ p) (pc : Party → AllocPc) (pc' : AllocPc)
    (files : EntryFiles) (dirs : DirTree DirLoc Dir) :
    (⟨Function.update pc p pc', files, dirs⟩ : TwoAllocs).pc p' = pc p' :=
  Function.update_of_ne hne ..

/-- **Inversion** for a step: one call moves. -/
theorem step_eq_some (h : s.step codec config fsconfig calls p = some s') :
    ∃ r, (calls p).step codec config fsconfig s.files s.dirs (s.pc p) = some r ∧
      s' = ⟨Function.update s.pc p r.1, r.2.1, r.2.2⟩ := by
  obtain ⟨r, hr, rfl⟩ := Option.map_eq_some_iff.mp h
  exact ⟨r, hr, rfl⟩

/-- A step for the directory keeps what is said of the directories and the calls. -/
theorem Towards.works_update (h : Towards codec fsconfig calls id q s) {pc' : AllocPc}
    {dirs' : DirTree DirLoc Dir} (honly : OnlyAt q s.dirs dirs')
    (hpc : WorksFor codec fsconfig (calls p) q dirs' pc') :
    (∀ space ∈ fsconfig.spaces, (dirs'.find ⟨space, .live, id⟩).isSome → space = q.space) ∧
      ∀ p', WorksFor codec fsconfig (calls p') q dirs' (Function.update s.pc p pc' p') := by
  constructor
  · intro space hspace hsome
    by_cases hq : (⟨space, .live, id⟩ : DirLoc) = q.loc
    · exact congrArg DirLoc.space hq
    · rw [honly.frame _ hq] at hsome
      exact h.only space hspace hsome
  · intro p'
    by_cases hp : p' = p
    · subst hp
      rw [Function.update_self]
      exact hpc
    · rw [Function.update_of_ne hp]
      exact (h.works p').mono honly.made

theorem writes_update {pc' : AllocPc} (hs : ∀ p, (s.pc p).writes = false)
    (hpc : pc'.writes = false) (p' : Party) : (Function.update s.pc p pc' p').writes = false := by
  by_cases hp : p' = p
  · subst hp
    rw [Function.update_self]
    exact hpc
  · rw [Function.update_of_ne hp]
    exact hs p'

/-- A step that leaves the entry file alone. -/
theorem FileState.update (h : FileState codec fsconfig calls q s) {pc' : AllocPc}
    {dirs' : DirTree DirLoc Dir} (honly : OnlyAt q s.dirs dirs')
    (hpc : (s.pc p).writes = false) (hpc' : pc'.writes = false)
    (hprinted : ∀ d, pc' = .printed d → codec.readEntry s.files .live ≠ none)
    (hpending : (s.pc p).pending fsconfig (calls p) = some q →
      pc'.pending fsconfig (calls p) = some q) :
    FileState codec fsconfig calls q ⟨Function.update s.pc p pc', s.files, dirs'⟩ := by
  cases h with
  | written hquiet hread hentry hmade =>
    exact .written (writes_update hquiet hpc') hread hentry (honly.made hmade)
  | missing p₀ hquiet hread hnone hpending₀ =>
    refine .missing p₀ (writes_update hquiet hpc') hread ?_ ?_
    · intro p' d
      by_cases hp : p' = p
      · subst hp
        rw [pc_self]
        exact fun hd => hprinted d hd hread
      · rw [pc_of_ne hp]
        exact hnone p' d
    · by_cases hp : p₀ = p
      · subst hp
        rw [pc_self]
        exact hpending hpending₀
      · rw [pc_of_ne hp]
        exact hpending₀
  | opened p₀ hpc₀ hfile htext hother =>
    have hne : p₀ ≠ p := fun heq => by
      rw [← heq, hpc₀] at hpc
      cases hpc
    obtain rfl : p = p₀.other := (Party.eq_or_eq_other p₀ p).resolve_left (Ne.symm hne)
    refine .opened p₀ ((pc_of_ne hne ..).trans hpc₀) hfile htext ?_
    rw [pc_self]
    exact hpc'

/-- Some call has ended with an error. -/
def Failed (s : TwoAllocs) : Prop := ∃ p, s.pc p = .failed

/-- A step of a call that works for the directory and leaves the entry file alone. -/
theorem Towards.update (h : Towards codec fsconfig calls id q s) {pc' : AllocPc}
    {dirs' : DirTree DirLoc Dir} (honly : OnlyAt q s.dirs dirs')
    (hpc : (s.pc p).writes = false) (hpc' : pc'.writes = false)
    (hworks : WorksFor codec fsconfig (calls p) q dirs' pc')
    (hprinted : ∀ d, pc' = .printed d → codec.readEntry s.files .live ≠ none)
    (hpending : (s.pc p).pending fsconfig (calls p) = some q →
      pc'.pending fsconfig (calls p) = some q) :
    Towards codec fsconfig calls id q ⟨Function.update s.pc p pc', s.files, dirs'⟩ := by
  obtain ⟨honly', hworks'⟩ := h.works_update honly hworks
  exact ⟨h.name, h.space, honly', hworks', h.file.update honly hpc hpc' hprinted hpending⟩

/-- A call that fails. -/
theorem failed_update (pc : Party → AllocPc) (files : EntryFiles) (dirs : DirTree DirLoc Dir) :
    Failed ⟨Function.update pc p .failed, files, dirs⟩ := ⟨p, Function.update_self ..⟩

/-- What a call finds while both work for a directory. -/
theorem Towards.look (h : Towards codec fsconfig calls id q s) (hid : checkID id = true)
    (hp : (calls p).id = id) (hpc : s.pc p = .lookup) :
    (∃ e, (calls p).look codec s.files = some e ∧ e.workspace = q ∧
      (s.dirs.find q.loc).isSome) ∨
      (calls p).look codec s.files = none ∧
        (s.pc p.other).pending fsconfig (calls p.other) = some q := by
  have hlook : (calls p).look codec s.files = codec.readEntry s.files .live := by
    rw [AllocCall.look, hp, if_pos hid]
  rw [hlook]
  cases h.file with
  | written hquiet hread hentry hmade => exact Or.inl ⟨_, hread, hentry, hmade⟩
  | missing p₀ hquiet hread hnone hpending =>
    have hne : p₀ ≠ p := fun heq => by
      rw [heq, hpc] at hpending
      cases hpending
    rw [(Party.eq_or_eq_other p p₀).resolve_left hne] at hpending
    exact Or.inr ⟨hread, hpending⟩
  | opened p₀ hpc₀ hfile htext =>
    have hne : p₀ ≠ p := fun heq => by
      rw [← heq, hpc₀] at hpc
      cases hpc
    obtain rfl := (Party.eq_or_eq_other p p₀).resolve_left hne
    have hworks := h.works p.other
    rw [hpc₀] at hworks ⊢
    cases hworks with
    | writing hentry => exact Or.inr ⟨Codec.readEntry_of_empty hfile htext, congrArg some hentry⟩

/-- **Step lemma**: both calls go on working for the directory. -/
theorem Towards.step (h : Towards codec fsconfig calls id q s) (hid : checkID id = true)
    (hcalls : ∀ p, (calls p).id = id)
    (hkeeps : ∀ p e, (calls p).MayWrite config fsconfig e → codec.Keeps e)
    (hok : s.Agreeing codec fsconfig calls p)
    (hstep : s.step codec config fsconfig calls p = some s') :
    Failed s' ∨ Towards codec fsconfig calls id q s' := by
  obtain ⟨r, hr, rfl⟩ := step_eq_some hstep
  have hworks := h.works p
  cases hpc : s.pc p with
  | lookup =>
    rw [hpc] at hr
    obtain rfl := Option.some.inj hr
    rcases h.look hid (hcalls p) hpc with ⟨e, hlook, hentry, hmade⟩ | ⟨hlook, hpending⟩
    · rw [hlook]
      rcases worksFor_afterLookup_found hentry (hkeeps p) hmade with hfail | ⟨hquiet, hfor⟩
      · rw [hfail]
        exact Or.inl (failed_update ..)
      · refine Or.inr (h.update (.refl ..) (by rw [hpc]; rfl) hquiet hfor ?_ ?_)
        · rw [AllocCall.look, hcalls p, if_pos hid] at hlook
          rw [hlook]
          exact fun _ _ => nofun
        · rw [hpc]
          nofun
    · have hdir := hok.1 hpc hlook q hpending
      rw [hlook]
      rcases afterLookup_missing (calls p) config fsconfig
        with hnext | hnext
      · rw [hnext]
        exact Or.inl (failed_update ..)
      · rw [hnext]
        refine Or.inr (h.update (.refl ..) (by rw [hpc]; rfl) rfl (.makeDir hdir) nofun ?_)
        rw [hpc]
        nofun
  | makeDir =>
    rw [hpc] at hr hworks
    obtain rfl := Option.some.inj hr
    cases hworks with
    | makeDir hdir =>
      dsimp only
      rw [hdir]
      obtain ⟨hmade, honly⟩ := onlyAt_makeDir q s.dirs (calls p).env.now
      exact Or.inr (h.update honly (by rw [hpc]; rfl) rfl (.setOwner hdir hmade) nofun
        fun _ => congrArg some hdir)
  | setOwner =>
    rw [hpc] at hr hworks
    dsimp only [AllocCall.step] at hr
    cases hworks with
    | setOwner hdir hmade =>
      split at hr
      · obtain rfl := Option.some.inj hr
        dsimp only
        have honly := onlyAt_chownDir q s.dirs (calls p).c.uid
        rw [AllocCall.afterOwner, hcalls p, if_pos hid, hdir]
        exact Or.inr (h.update honly (by rw [hpc]; rfl) rfl
          (.opening hdir (hkeeps p _ (Or.inl rfl)) (honly.made hmade)) nofun
          fun _ => congrArg some hdir)
      · obtain rfl := Option.some.inj hr
        exact Or.inl (failed_update ..)
  | opening e =>
    rw [hpc] at hr hworks
    obtain rfl := Option.some.inj hr
    cases hworks with
    | opening hentry hkept hmade =>
      obtain ⟨honly, hworks'⟩ := h.works_update (p := p) (.refl ..)
        (@WorksFor.writing _ _ _ _ _ _ (s.files.openTrunc .live).2 hentry hkept hmade)
      obtain ⟨hfile, htext⟩ := s.files.openTrunc_spec .live
      refine Or.inr ⟨h.name, h.space, honly, hworks',
        .opened p (Function.update_self ..) hfile htext ?_⟩
      rw [pc_of_ne (Party.other_ne p)]
      exact hok.2 e hpc
  | writing e fd =>
    rw [hpc] at hr hworks
    obtain rfl := Option.some.inj hr
    cases hworks with
    | writing hentry hkept hmade =>
      subst hentry
      obtain ⟨honly, hworks'⟩ := h.works_update (p := p) (.refl ..) (.printed hmade)
      -- the file is open, and it is this call that has opened it
      cases h.file with
      | written hquiet =>
        have := hquiet p
        rw [hpc] at this
        cases this
      | missing _ hquiet =>
        have := hquiet p
        rw [hpc] at this
        cases this
      | opened p₀ hpc₀ hfile htext hother =>
        rcases Party.eq_or_eq_other p₀ p with rfl | rfl
        · obtain ⟨rfl, rfl⟩ := AllocPc.writing.inj (hpc.symm.trans hpc₀)
          obtain ⟨e', hread, hdir⟩ := hkept.readEntry hfile htext
          refine Or.inr ⟨h.name, h.space, honly, hworks', .written ?_ hread hdir hmade⟩
          intro p'
          rcases Party.eq_or_eq_other p p' with rfl | rfl
          · rw [pc_self]
            rfl
          · rw [pc_of_ne (Party.other_ne p)]
            exact hother
        · rw [hpc] at hother
          cases hother
  | printed d =>
    rw [hpc] at hr
    cases hr
  | failed =>
    rw [hpc] at hr
    cases hr

/-- The first step of both, when there is no entry: the directory is chosen. -/
theorem towards_of_first_step {files : EntryFiles} {dirs : DirTree DirLoc Dir}
    (hcalls : ∀ p, (calls p).id = id) (hread : codec.readEntry files .live = none)
    (hdirs : ∀ space ∈ fsconfig.spaces, (dirs.find ⟨space, .live, id⟩).isSome →
      ∀ p, (calls p).dir fsconfig = ⟨space, id⟩)
    (hstep : (start files dirs).step codec config fsconfig calls p = some s') :
    Failed s' ∨ ∃ q, Towards codec fsconfig calls id q s' := by
  obtain ⟨r, hr, rfl⟩ := step_eq_some hstep
  obtain rfl := Option.some.inj hr
  have hlook : (calls p).look codec files = none := by
    rw [AllocCall.look, hread, ite_self]
  dsimp only [start]
  rw [hlook]
  rcases afterLookup_missing (calls p) config fsconfig
    with hnext | hnext
  · rw [hnext]
    exact Or.inl (failed_update ..)
  rw [hnext]
  refine Or.inr ⟨(calls p).dir fsconfig, ?_, workspaceDir_space_mem .., ?_, ?_, ?_⟩
  · rw [← hcalls p]
    exact workspaceDir_name (Or.inl rfl) _
  · exact fun space hspace hsome => (congrArg WsPath.space (hdirs space hspace hsome p)).symm
  · intro p'
    rcases Party.eq_or_eq_other p p' with rfl | rfl
    · rw [pc_self]
      exact .makeDir rfl
    · rw [pc_of_ne (Party.other_ne p)]
      exact .lookup
  · refine .missing p (writes_update (s := start files dirs) (fun _ => rfl) rfl) hread ?_ ?_
    · intro p' d
      rcases Party.eq_or_eq_other p p' with rfl | rfl
      · rw [pc_self]
        nofun
      · rw [pc_of_ne (Party.other_ne p)]
        nofun
    · rw [pc_self]
      rfl

/-- What holds in every state of two calls: an error, no step yet, or a directory both work for. -/
inductive Agreed (codec : Codec) (fsconfig : FilesystemConfig) (calls : Party → AllocCall)
    (id : Str) (s : TwoAllocs) : Prop where
  /-- one has failed -/
  | failed (h : Failed s)
  /-- none has begun, and there is no entry -/
  | start {files : EntryFiles} {dirs : DirTree DirLoc Dir} (heq : s = start files dirs)
      (hread : codec.readEntry files .live = none)
      (hdirs : ∀ space ∈ fsconfig.spaces, (dirs.find ⟨space, .live, id⟩).isSome →
        ∀ p, (calls p).dir fsconfig = ⟨space, id⟩)
  /-- both work for a directory -/
  | towards (q : WsPath) (h : Towards codec fsconfig calls id q s)

theorem agreed_start {files : EntryFiles} {dirs : DirTree DirLoc Dir}
    (h : Settled codec fsconfig calls id files dirs) :
    Agreed codec fsconfig calls id (start files dirs) := by
  cases h with
  | free hread hdirs => exact .start rfl hread hdirs
  | @allocated e hread hname hspace hdirs =>
    have hmade : (dirs.find e.workspace.loc).isSome := by
      rw [WsPath.loc, hname]
      exact (hdirs _ hspace).mpr rfl
    exact .towards e.workspace ⟨hname, hspace, fun space hspace => (hdirs space hspace).mp,
      fun _ => .lookup, .written (fun _ => rfl) hread rfl hmade⟩

/-- A call that has failed stays so. -/
theorem Failed.step (h : Failed s) (hstep : s.step codec config fsconfig calls p = some s') :
    Failed s' := by
  obtain ⟨p₀, hp₀⟩ := h
  obtain ⟨r, hr, rfl⟩ := step_eq_some hstep
  have hne : p₀ ≠ p := fun heq => by
    rw [← heq, hp₀] at hr
    cases hr
  exact ⟨p₀, (pc_of_ne hne ..).trans hp₀⟩

theorem Agreed.step (h : Agreed codec fsconfig calls id s) (hid : checkID id = true)
    (hcalls : ∀ p, (calls p).id = id)
    (hkeeps : ∀ p e, (calls p).MayWrite config fsconfig e → codec.Keeps e)
    (hok : s.Agreeing codec fsconfig calls p)
    (hstep : s.step codec config fsconfig calls p = some s') :
    Agreed codec fsconfig calls id s' := by
  cases h with
  | failed h => exact .failed (h.step hstep)
  | start heq hread hdirs =>
    subst heq
    rcases towards_of_first_step hcalls hread hdirs hstep with h | ⟨q, h⟩
    · exact .failed h
    · exact .towards q h
  | towards q h =>
    rcases h.step hid hcalls hkeeps hok hstep with h | h
    · exact .failed h
    · exact .towards q h

/-- At the end both have printed the directory they work for. -/
theorem Agreed.agreeOn (h : Agreed codec fsconfig calls id s)
    (hprinted : ∀ p, ∃ d, s.pc p = .printed d) : ∃ q, AgreeOn codec fsconfig id q s := by
  cases h with
  | failed h =>
    obtain ⟨p, hp⟩ := h
    obtain ⟨d, hd⟩ := hprinted p
    rw [hd] at hp
    cases hp
  | start heq =>
    subst heq
    obtain ⟨d, hd⟩ := hprinted .fst
    cases hd
  | towards q h =>
    have hpc : ∀ p, s.pc p = .printed q := by
      intro p
      obtain ⟨d, hd⟩ := hprinted p
      have hworks := h.works p
      rw [hd] at hworks
      cases hworks
      exact hd
    cases h.file with
    | @written e hquiet hread hentry hmade =>
      refine ⟨q, hpc, h.name, h.space, fun space hspace => ⟨h.only space hspace, ?_⟩,
        e, hread, hentry⟩
      rintro rfl
      rw [← h.name]
      exact hmade
    | missing p hquiet hread hnone => exact absurd (hpc p) (hnone p q)
    | opened p hwrites =>
      rw [hpc p] at hwrites
      cases hwrites

/-- A call with an id that is no file name comes to no entry. -/
def NoEntry (s : TwoAllocs) : Prop :=
  ∀ p, s.pc p = .lookup ∨ s.pc p = .makeDir ∨ s.pc p = .setOwner ∨ s.pc p = .failed

theorem NoEntry.step (h : NoEntry s) (hid : checkID id = false)
    (hcalls : ∀ p, (calls p).id = id)
    (hstep : s.step codec config fsconfig calls p = some s') : NoEntry s' := by
  obtain ⟨r, hr, rfl⟩ := step_eq_some hstep
  intro p'
  rcases Party.eq_or_eq_other p p' with rfl | rfl
  · rw [pc_self]
    rcases h p' with hpc | hpc | hpc | hpc
    · rw [hpc] at hr
      obtain rfl := Option.some.inj hr
      dsimp only
      rw [AllocCall.look, hcalls p', hid, if_neg (by decide)]
      rcases afterLookup_missing (calls p') config fsconfig
        with hnext | hnext
      · exact Or.inr (Or.inr (Or.inr hnext))
      · exact Or.inr (Or.inl hnext)
    · rw [hpc] at hr
      obtain rfl := Option.some.inj hr
      exact Or.inr (Or.inr (Or.inl rfl))
    · rw [hpc] at hr
      dsimp only [AllocCall.step] at hr
      split at hr
      · obtain rfl := Option.some.inj hr
        dsimp only
        rw [AllocCall.afterOwner, hcalls p', hid, if_neg (by decide)]
        exact Or.inr (Or.inr (Or.inr rfl))
      · obtain rfl := Option.some.inj hr
        exact Or.inr (Or.inr (Or.inr rfl))
    · rw [hpc] at hr
      cases hr
  · rw [pc_of_ne (Party.other_ne p)]
    exact h p.other

end Agree

/-- **Concurrent calls agree**: when two calls of `ws_allocate` for the same workspace that find no
entry select the same directory, and do not write the entry file at the same time, and both
succeed, then they print the same directory, it is the only one of its id, and the entry points to
it. -/
theorem allocations_agree (codec : Codec) (config : Config) (fsconfig : FilesystemConfig)
    (calls : Party → AllocCall) (user name : Str) (files : EntryFiles)
    (dirs : DirTree DirLoc Dir) (parties : List Party) (s : TwoAllocs)
    (hsame : ∀ p, (calls p).c.username = user ∧ (calls p).a.name = name)
    (hkeeps : ∀ p e, (calls p).MayWrite config fsconfig e → codec.Keeps e)
    (hsettled : Settled codec fsconfig calls (wsid user name) files dirs)
    (hok : Runs.Meets (step codec config fsconfig calls) (Agreeing codec fsconfig calls)
      (start files dirs) parties)
    (hrun : Runs.exec (step codec config fsconfig calls) (start files dirs) parties = some s)
    (hprinted : ∀ p, ∃ d, s.pc p = .printed d) :
    ∃ q, AgreeOn codec fsconfig (wsid user name) q s := by
  have hcalls : ∀ p, (calls p).id = wsid user name := by
    intro p
    obtain ⟨huser, hname⟩ := hsame p
    rw [AllocCall.id, huser, hname]
  cases hid : checkID (wsid user name) with
  | true =>
    have hagreed : Agreed codec fsconfig calls (wsid user name) s :=
      hok.invariant (fun _ _ _ h hok hstep => h.step hid hcalls hkeeps hok hstep)
        (agreed_start hsettled) hrun
    exact hagreed.agreeOn hprinted
  | false =>
    have hno : NoEntry s :=
      hok.invariant (fun _ _ _ h _ hstep => h.step hid hcalls hstep) (fun _ => Or.inl rfl) hrun
    obtain ⟨d, hd⟩ := hprinted .fst
    rcases hno .fst with h | h | h | h <;> rw [hd] at h <;> cases h

/-- Calls of one user select the same space unless it depends on chance or on the free space. -/
theorem dir_eq_of_selection {fsconfig : FilesystemConfig} {call call' : AllocCall}
    (hfixed : fsconfig.spaces.length ≤ 1 ∨ fsconfig.spaceselection ≠ "random".toList ∧
      fsconfig.spaceselection ≠ "mostspace".toList)
    (huid : call.c.uid = call'.c.uid) (hgid : call.c.gid = call'.c.gid)
    (hid : call.id = call'.id) : call.dir fsconfig = call'.dir fsconfig := by
  have hselect : selectSpace fsconfig call.c call.env = selectSpace fsconfig call'.c call'.env := by
    dsimp only [selectSpace]
    rcases hfixed with hone | ⟨hrandom, hmost⟩
    · rw [if_neg (by omega), if_neg (by omega)]
    · rw [if_neg hrandom, if_neg hrandom, if_neg hmost, if_neg hmost, huid, hgid]
  have hname : (call.dir fsconfig).name = (call'.dir fsconfig).name := by
    rw [AllocCall.dir, AllocCall.dir, workspaceDir_name (Or.inl rfl), workspaceDir_name (Or.inl rfl)]
    exact hid
  have hspace : ∀ call : AllocCall, (call.dir fsconfig).space =
      fsconfig.spaces.getD (selectSpace fsconfig call.c call.env) [] := by
    intro call
    rw [AllocCall.dir, workspaceDir, if_neg (fun h => absurd h.1 (Nat.lt_irrefl 0)),
      if_neg (fun h => absurd h.1 (Nat.lt_irrefl 0))]
  cases hd : call.dir fsconfig
  cases hd' : call'.dir fsconfig
  rw [hd, hd'] at hname
  have hs := hspace call
  rw [hselect, ← hspace call', hd, hd'] at hs
  cases hname
  cases hs
  rfl

/-! ## Two calls of a job -/

/-- A text with directory and comment, closed by a semicolon. -/
def commentCodec (name : Str) : Codec where
  emit e := e.workspace.space ++ ':' :: (e.comment ++ [';'])
  parse t :=
    match t.splitOn ';' with
    | [body, []] =>
      match body.splitOn ':' with
      | [space, comment] => some { twoLeft with workspace := ⟨space, name⟩, comment := comment }
      | _ => none
    | _ => none

/-- A filesystem with two spaces, one is selected at random. -/
def twoSpaces : FilesystemConfig := .ofSpaces ['s'] [['t']]

/-- A call of `bob`, with a comment and a random number. -/
def bobCall (comment : Str) (rand : ℕ) : AllocCall where
  c := bob
  a := { createArgs none with comment := comment }
  env := { plainEnv with rand := rand }

/-- Two calls of `bob`, with comments and random numbers. -/
def bobCalls (comment comment' : Str) (rand rand' : ℕ) : Party → AllocCall
  | .fst => bobCall comment rand
  | .snd => bobCall comment' rand'

/-- No entry file. -/
def noFiles : EntryFiles where
  inode _ := none
  text _ := []
  next := 0

/-- The id of `bob`'s workspace. -/
def bobId : Str := wsid bob.username ['x']

/-- Two calls of `bob` in turns, up to the entry file. -/
def inTurns : List Party := [.fst, .snd, .fst, .snd, .fst, .snd]

/-- The steps of these calls. -/
def bobStep (comment comment' : Str) (rand rand' : ℕ) : TwoAllocs → Party → Option TwoAllocs :=
  step (commentCodec bobId) (.single ['w'] twoSpaces) twoSpaces
    (bobCalls comment comment' rand rand')

/-- The entry of `bob`'s new workspace. -/
def bobEntry (comment : Str) (rand : ℕ) : DBEntry :=
  (bobCall comment rand).entry (.single ['w'] twoSpaces) twoSpaces

/-- A call of `bob` writes only the entry of a new workspace. -/
theorem bobCall_keeps {comment : Str} {rand : ℕ} {e : DBEntry}
    (hemit : (commentCodec bobId).emit (bobEntry comment rand) ≠ [])
    (hparse : (commentCodec bobId).parse ((commentCodec bobId).emit (bobEntry comment rand)) =
      some { twoLeft with
        workspace := (bobEntry comment rand).workspace
        comment := comment })
    (h : (bobCall comment rand).MayWrite (.single ['w'] twoSpaces) twoSpaces e) :
    (commentCodec bobId).Keeps e := by
  rcases h with rfl | ⟨hext, -⟩
  · exact ⟨hemit, _, hparse, rfl⟩
  · cases hext

set_option maxRecDepth 4000 in
/-- Two calls in turns that select the same space agree. -/
theorem allocations_agree_inTurns : ∃ s, Runs.exec (bobStep ['a'] ['b'] 0 0)
    (start noFiles .empty) (inTurns ++ [.fst, .fst, .snd, .snd]) = some s ∧
      ∃ q, AgreeOn (commentCodec bobId) twoSpaces bobId q s := by
  refine ⟨_, rfl, allocations_agree (commentCodec bobId) (.single ['w'] twoSpaces) twoSpaces
    (bobCalls ['a'] ['b'] 0 0) bob.username ['x'] noFiles .empty
    (inTurns ++ [.fst, .fst, .snd, .snd]) _ ?_ ?_ ?_ ?_ rfl ?_⟩
  · exact fun p => by cases p <;> exact ⟨rfl, rfl⟩
  · intro p e h
    cases p with
    | fst => exact bobCall_keeps (by decide) rfl h
    | snd => exact bobCall_keeps (by decide) rfl h
  · exact .free rfl fun space _ hsome => by cases hsome
  · refine .cons ⟨fun _ _ _ => nofun, nofun⟩ rfl <| .cons ⟨fun _ _ q hq => ?_, nofun⟩ rfl <|
      .cons ⟨nofun, nofun⟩ rfl <| .cons ⟨nofun, nofun⟩ rfl <| .cons ⟨nofun, nofun⟩ rfl <|
      .cons ⟨nofun, nofun⟩ rfl <| .cons ⟨nofun, fun _ _ => rfl⟩ rfl <|
      .cons ⟨nofun, nofun⟩ rfl <| .cons ⟨nofun, fun _ _ => rfl⟩ rfl <|
      .cons ⟨nofun, nofun⟩ rfl trivial
    exact Option.some.inj hq
  · exact fun p => by cases p <;> exact ⟨_, rfl⟩

/-- An old directory of the id in the other space. -/
def strayDirs : DirTree DirLoc Dir := makeDir .empty ⟨['t'], .live, bobId⟩ 0

set_option maxRecDepth 4000 in
/-- Two calls that select different spaces print different directories. With the same space, the
entry can be lost when both write it at the same time, and an old directory in another space makes
a second one. -/
theorem not_allocations_agree :
    (¬∀ (codec : Codec) (config : Config) (fsconfig : FilesystemConfig)
      (calls : Party → AllocCall) (user name : Str) (files : EntryFiles)
      (dirs : DirTree DirLoc Dir) (parties : List Party) (s : TwoAllocs),
      (∀ p, (calls p).c.username = user ∧ (calls p).a.name = name) →
      (∀ p e, (calls p).MayWrite config fsconfig e → codec.Keeps e) →
      Settled codec fsconfig calls (wsid user name) files dirs →
      Runs.exec (step codec config fsconfig calls) (start files dirs) parties = some s →
      (∀ p, ∃ d, s.pc p = .printed d) →
        ∃ q, AgreeOn codec fsconfig (wsid user name) q s) ∧
      (∃ s, Runs.exec (bobStep "abc".toList ['b'] 0 0) (start noFiles .empty)
          (inTurns ++ [.fst, .snd, .fst, .snd]) = some s ∧
        (∀ p, s.pc p = .printed ⟨['s'], bobId⟩) ∧
        (commentCodec bobId).readEntry s.files .live = none) ∧
      ∃ s, Runs.exec (bobStep ['a'] ['b'] 0 0) (start noFiles strayDirs)
          [.fst, .fst, .fst, .fst, .fst, .snd] = some s ∧
        (∀ p, s.pc p = .printed ⟨['s'], bobId⟩) ∧
        ∀ space ∈ twoSpaces.spaces, (s.dirs.find ⟨space, .live, bobId⟩).isSome := by
  refine ⟨fun h => ?_, ?_, ?_⟩
  · obtain ⟨q, hagree⟩ := h (commentCodec bobId) (.single ['w'] twoSpaces) twoSpaces
      (bobCalls ['a'] ['b'] 0 1) bob.username ['x'] noFiles .empty
      (inTurns ++ [.fst, .fst, .snd, .snd]) _ (fun p => by cases p <;> exact ⟨rfl, rfl⟩)
      (fun p e h => by
        cases p with
        | fst => exact bobCall_keeps (by decide) rfl h
        | snd => exact bobCall_keeps (by decide) rfl h)
      (.free rfl fun space _ hsome => by cases hsome) rfl (fun p => by cases p <;> exact ⟨_, rfl⟩)
    have hfst : (⟨['s'], bobId⟩ : WsPath) = q := AllocPc.printed.inj (hagree.printed .fst)
    have hsnd : (⟨['t'], bobId⟩ : WsPath) = q := AllocPc.printed.inj (hagree.printed .snd)
    exact absurd (hfst.trans hsnd.symm) (by decide)
  · exact ⟨_, rfl, fun p => by cases p <;> rfl, rfl⟩
  · exact ⟨_, rfl, fun p => by cases p <;> rfl, by decide⟩

end TwoAllocs

end HpcWorkspace
