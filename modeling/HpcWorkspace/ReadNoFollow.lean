import HpcWorkspace.Lib.Runs
import Mathlib.Data.Nat.Notation
import Mathlib.Data.List.Basic

/-!
# Reading a file of a user

The expirer reads `~/.ws_user.conf` of other users with its own rights. The user can put something else
there at any time, and write to the file while it is read: so `readFileNoFollow` opens without
following a link, looks at what it has opened and not at the path, and stops when it has read too much.
What another process does is a step like any other.
-/

namespace HpcWorkspace

/-! ## The steps -/

/-- What is at the path. -/
inductive FileKind where
  /-- nothing -/
  | missing
  /-- a symbolic link -/
  | symlink
  /-- a regular file -/
  | regular
  /-- a directory, a pipe, a device -/
  | other
  deriving DecidableEq

/-- Why a `DatabaseException` is thrown. -/
inductive ReadFailure where
  /-- `could not open file` -/
  | notOpened
  /-- `could not stat file` -/
  | noStat
  /-- `is not a regular file` -/
  | notRegular
  /-- `is larger than` -/
  | tooLarge
  /-- `error reading` -/
  | noRead
  deriving DecidableEq

/-- What comes next. -/
inductive ReadPc where
  /-- `open` -/
  | opening
  /-- `fstat` -/
  | stating
  /-- `read`, with the content so far -/
  | reading (content : List UInt8)
  /-- the content was returned -/
  | returned (content : List UInt8)
  /-- an exception was thrown -/
  | threw (why : ReadFailure)

/-- A call of `readFileNoFollow`, and the file. -/
structure FileRead where
  /-- what comes next -/
  pc : ReadPc
  /-- what is at the path; once it is opened, what was opened -/
  kind : FileKind
  /-- the bytes in it -/
  data : List UInt8
  /-- the bytes that were in it since it was opened, the last ones first -/
  seen : List (List UInt8)
  /-- is `fd` open? -/
  fd : Bool

/-- What happens next. -/
inductive ReadEvent where
  /-- another process puts something else at the path -/
  | replaced (kind : FileKind) (data : List UInt8)
  /-- another process writes to the file -/
  | written (data : List UInt8)
  /-- `open` fails -/
  | openFails
  /-- `open` does not fail -/
  | opened
  /-- `fstat` fails -/
  | statFails
  /-- `fstat` does not fail -/
  | stated
  /-- `read` gives so many bytes -/
  | gives (n : ℕ)
  /-- `read` is interrupted -/
  | interrupted
  /-- `read` fails -/
  | readFails

/-- The size of `buf` -/
def bufSize : ℕ := 65536

namespace FileRead

/-- Before the call. -/
def start (kind : FileKind) (data : List UInt8) : FileRead := ⟨.opening, kind, data, [], false⟩

/-- `close(fd)`, and the exception -/
def throwing (s : FileRead) (why : ReadFailure) : FileRead := { s with pc := .threw why, fd := false }

/-- One step; `none` when the kernel would not do that. -/
def step (maxSize : ℕ) (s : FileRead) : ReadEvent → Option FileRead
  -- what was opened stays what it is
  | .replaced kind data =>
    match s.pc with
    | .opening => some { s with kind := kind, data := data }
    | _ => some s
  | .written data =>
    match s.pc with
    | .opening => some { s with data := data }
    | _ => some { s with data := data, seen := data :: s.seen }
  | .openFails =>
    match s.pc with
    | .opening => some (s.throwing .notOpened)
    | _ => none
  -- `O_NOFOLLOW`: a link is not opened
  | .opened =>
    match s.pc with
    | .opening =>
      if s.kind = .missing ∨ s.kind = .symlink then none
      else some { s with pc := .stating, seen := [s.data], fd := true }
    | _ => none
  | .statFails =>
    match s.pc with
    | .stating => some (s.throwing .noStat)
    | _ => none
  | .stated =>
    match s.pc with
    | .stating =>
      if s.kind ≠ .regular then some (s.throwing .notRegular)
      else if s.data.length > maxSize then some (s.throwing .tooLarge)
      else some { s with pc := .reading [] }
    | _ => none
  -- nothing is given at the end of the file only
  | .gives n =>
    match s.pc with
    | .reading content =>
      if n ≤ min bufSize (s.data.length - content.length) ∧
          (n = 0 → s.data.length ≤ content.length) then
        if n = 0 then some { s with pc := .returned content, fd := false }
        else
          let content := content ++ (s.data.drop content.length).take n
          -- file grew past the limit after our stat()
          if content.length > maxSize then some (s.throwing .tooLarge)
          else some { s with pc := .reading content }
      else none
    | _ => none
  | .interrupted =>
    match s.pc with
    | .reading _ => some s
    | _ => none
  | .readFails =>
    match s.pc with
    | .reading _ => some (s.throwing .noRead)
    | _ => none

end FileRead

/-- Steps of the call that bring it on: those of other processes and interrupted ones do not. -/
def ReadEvent.Own : ReadEvent → Bool
  | .replaced .. | .written _ | .interrupted => false
  | _ => true

/-! ## What is read -/

/-- Each byte stood at its place in one of the versions of a file. -/
def Stood (seen : List (List UInt8)) (content : List UInt8) : Prop :=
  ∀ i < content.length, ∃ data ∈ seen, data[i]? = content[i]?

namespace Stood

variable {seen : List (List UInt8)} {content data : List UInt8}

theorem nil : Stood seen [] := fun _ hi => absurd hi (Nat.not_lt_zero _)

theorem cons (h : Stood seen content) (data : List UInt8) : Stood (data :: seen) content := by
  intro i hi
  obtain ⟨d, hd, hbyte⟩ := h i hi
  exact ⟨d, List.mem_cons_of_mem _ hd, hbyte⟩

/-- What is read next stands in the file. -/
theorem append (h : Stood seen content) (hdata : data ∈ seen) (n : ℕ) :
    Stood seen (content ++ (data.drop content.length).take n) := by
  intro i hi
  by_cases hold : i < content.length
  · obtain ⟨d, hd, hbyte⟩ := h i hold
    exact ⟨d, hd, by rw [List.getElem?_append_left hold, hbyte]⟩
  · rw [List.length_append, List.length_take, List.length_drop] at hi
    refine ⟨data, hdata, ?_⟩
    rw [List.getElem?_append_right (Nat.le_of_not_lt hold), List.getElem?_take_of_lt (by omega),
      List.getElem?_drop, Nat.add_sub_cancel' (Nat.le_of_not_lt hold)]

/-- In a file that nobody has written to. -/
theorem eq_of_length (h : Stood [data] content) (hlength : data.length ≤ content.length) :
    content = data := by
  refine List.ext_getElem? fun i => ?_
  by_cases hi : i < content.length
  · obtain ⟨d, hd, hbyte⟩ := h i hi
    rw [← hbyte, List.mem_singleton.mp hd]
  · rw [List.getElem?_eq_none (by omega), List.getElem?_eq_none (by omega)]

end Stood

namespace FileRead

/-- What holds between two steps. -/
def Inv (maxSize : ℕ) (s : FileRead) : Prop :=
  match s.pc with
  | .opening => s.fd = false
  | .stating => s.fd = true ∧ s.data ∈ s.seen
  | .reading content =>
    s.fd = true ∧ s.data ∈ s.seen ∧ s.kind = .regular ∧ content.length ≤ maxSize ∧
      Stood s.seen content
  | .returned content =>
    s.fd = false ∧ s.kind = .regular ∧ content.length ≤ maxSize ∧ Stood s.seen content ∧
      ∃ data ∈ s.seen, data.length ≤ content.length
  | .threw why => s.fd = false ∧ (why = .tooLarge → ∃ data ∈ s.seen, maxSize < data.length)

/-- How many steps of its own the call can still take. -/
def left (maxSize : ℕ) (s : FileRead) : ℕ :=
  match s.pc with
  | .opening => maxSize + 3
  | .stating => maxSize + 2
  | .reading content => maxSize - content.length + 1
  | .returned _ => 0
  | .threw _ => 0

variable {maxSize : ℕ} {s s' : FileRead} {ev : ReadEvent}

/-- What `read` does. -/
theorem gives_cases {content data : List UInt8} {kind : FileKind} {seen : List (List UInt8)}
    {fd : Bool} {n : ℕ}
    (h : step maxSize ⟨.reading content, kind, data, seen, fd⟩ (.gives n) = some s') :
    n = 0 ∧ data.length ≤ content.length ∧ s' = ⟨.returned content, kind, data, seen, false⟩ ∨
      0 < n ∧ content.length + n ≤ data.length ∧
        (maxSize < content.length + n ∧ s' = ⟨.threw .tooLarge, kind, data, seen, false⟩ ∨
          content.length + n ≤ maxSize ∧
            s' = ⟨.reading (content ++ (data.drop content.length).take n), kind, data, seen, fd⟩) := by
  simp only [step] at h
  split at h
  · rename_i hguard
    split at h
    · rename_i hn
      obtain rfl := Option.some.inj h
      exact Or.inl ⟨hn, hguard.2 hn, rfl⟩
    · rename_i hn
      have hlength : (content ++ (data.drop content.length).take n).length = content.length + n := by
        rw [List.length_append, List.length_take, List.length_drop]
        omega
      refine Or.inr ⟨Nat.pos_of_ne_zero hn, by omega, ?_⟩
      rw [hlength] at h
      split at h
      · rename_i hlarge
        obtain rfl := Option.some.inj h
        exact Or.inl ⟨hlarge, rfl⟩
      · rename_i hsmall
        obtain rfl := Option.some.inj h
        exact Or.inr ⟨Nat.le_of_not_lt hsmall, rfl⟩
  · cases h

/-- **Step lemma.** -/
theorem Inv.step (hs : s.Inv maxSize) (h : s.step maxSize ev = some s') : s'.Inv maxSize := by
  obtain ⟨pc, kind, data, seen, fd⟩ := s
  cases ev with
  | replaced kind' data' =>
    cases pc with
    | opening =>
      obtain rfl := Option.some.inj h
      exact hs
    | stating | reading | returned | threw =>
      obtain rfl := Option.some.inj h
      exact hs
  | written data' =>
    cases pc with
    | opening =>
      obtain rfl := Option.some.inj h
      exact hs
    | stating =>
      obtain rfl := Option.some.inj h
      exact ⟨hs.1, List.mem_cons_self ..⟩
    | reading content =>
      obtain rfl := Option.some.inj h
      obtain ⟨hfd, -, hkind, hsize, hstood⟩ := hs
      exact ⟨hfd, List.mem_cons_self .., hkind, hsize, hstood.cons data'⟩
    | returned content =>
      obtain rfl := Option.some.inj h
      obtain ⟨hfd, hkind, hsize, hstood, d, hd, hend⟩ := hs
      exact ⟨hfd, hkind, hsize, hstood.cons data', d, List.mem_cons_of_mem _ hd, hend⟩
    | threw why =>
      obtain rfl := Option.some.inj h
      refine ⟨hs.1, fun hwhy => ?_⟩
      obtain ⟨d, hd, hlarge⟩ := hs.2 hwhy
      exact ⟨d, List.mem_cons_of_mem _ hd, hlarge⟩
  | openFails =>
    cases pc with
    | opening =>
      obtain rfl := Option.some.inj h
      exact ⟨rfl, fun hwhy => by cases hwhy⟩
    | stating | reading | returned | threw => cases h
  | opened =>
    cases pc with
    | opening =>
      simp only [FileRead.step] at h
      split at h
      · cases h
      · obtain rfl := Option.some.inj h
        exact ⟨rfl, List.mem_singleton_self _⟩
    | stating | reading | returned | threw => cases h
  | statFails =>
    cases pc with
    | stating =>
      obtain rfl := Option.some.inj h
      exact ⟨rfl, fun hwhy => by cases hwhy⟩
    | opening | reading | returned | threw => cases h
  | stated =>
    cases pc with
    | stating =>
      simp only [FileRead.step] at h
      split at h
      · obtain rfl := Option.some.inj h
        exact ⟨rfl, fun hwhy => by cases hwhy⟩
      · rename_i hregular
        split at h
        · rename_i hlarge
          obtain rfl := Option.some.inj h
          exact ⟨rfl, fun _ => ⟨data, hs.2, hlarge⟩⟩
        · obtain rfl := Option.some.inj h
          exact ⟨hs.1, hs.2, not_not.mp hregular, Nat.zero_le _, .nil⟩
    | opening | reading | returned | threw => cases h
  | gives n =>
    cases pc with
    | reading content =>
      obtain ⟨hfd, hdata, hkind, hsize, hstood⟩ := hs
      rcases gives_cases h with ⟨-, hend, rfl⟩ | ⟨-, hn, ⟨hlarge, rfl⟩ | ⟨hsmall, rfl⟩⟩
      · exact ⟨rfl, hkind, hsize, hstood, data, hdata, hend⟩
      · exact ⟨rfl, fun _ => ⟨data, hdata, by omega⟩⟩
      · refine ⟨hfd, hdata, hkind, ?_, hstood.append hdata n⟩
        rw [List.length_append, List.length_take, List.length_drop]
        omega
    | opening | stating | returned | threw => cases h
  | interrupted =>
    cases pc with
    | reading content =>
      obtain rfl := Option.some.inj h
      exact hs
    | opening | stating | returned | threw => cases h
  | readFails =>
    cases pc with
    | reading content =>
      obtain rfl := Option.some.inj h
      exact ⟨rfl, fun hwhy => by cases hwhy⟩
    | opening | stating | returned | threw => cases h

/-- A step of the call brings it nearer to its end, and no other step takes it away. -/
theorem left_step (hs : s.Inv maxSize) (h : s.step maxSize ev = some s') :
    s'.left maxSize + (if ev.Own then 1 else 0) ≤ s.left maxSize := by
  obtain ⟨pc, kind, data, seen, fd⟩ := s
  cases ev with
  | replaced kind' data' | written data' =>
    cases pc with
    | opening | stating | reading | returned | threw =>
      obtain rfl := Option.some.inj h
      exact Nat.le_refl _
  | openFails =>
    cases pc with
    | opening =>
      obtain rfl := Option.some.inj h
      exact Nat.le_add_left ..
    | stating | reading | returned | threw => cases h
  | opened =>
    cases pc with
    | opening =>
      simp only [FileRead.step] at h
      split at h
      · cases h
      · obtain rfl := Option.some.inj h
        exact Nat.le_refl _
    | stating | reading | returned | threw => cases h
  | statFails =>
    cases pc with
    | stating =>
      obtain rfl := Option.some.inj h
      exact Nat.le_add_left ..
    | opening | reading | returned | threw => cases h
  | stated =>
    cases pc with
    | stating =>
      simp only [FileRead.step] at h
      split at h
      · obtain rfl := Option.some.inj h
        exact Nat.le_add_left ..
      · split at h
        · obtain rfl := Option.some.inj h
          exact Nat.le_add_left ..
        · obtain rfl := Option.some.inj h
          exact Nat.le_refl _
    | opening | reading | returned | threw => cases h
  | gives n =>
    cases pc with
    | reading content =>
      have hsize : content.length ≤ maxSize := hs.2.2.2.1
      rcases gives_cases h with ⟨-, -, rfl⟩ | ⟨hpos, hn, ⟨-, rfl⟩ | ⟨hsmall, rfl⟩⟩
      · exact Nat.le_add_left ..
      · exact Nat.le_add_left ..
      · simp only [left, ReadEvent.Own, if_true, List.length_append, List.length_take,
          List.length_drop]
        omega
    | opening | stating | returned | threw => cases h
  | interrupted =>
    cases pc with
    | reading content =>
      obtain rfl := Option.some.inj h
      exact Nat.le_refl _
    | opening | stating | returned | threw => cases h
  | readFails =>
    cases pc with
    | reading content =>
      obtain rfl := Option.some.inj h
      exact Nat.le_add_left ..
    | opening | stating | returned | threw => cases h

/-- **Run lemma.** -/
theorem inv_run {evs : List ReadEvent} (hs : s.Inv maxSize)
    (hrun : Runs.exec (step maxSize) s evs = some s') :
    s'.Inv maxSize ∧ s'.left maxSize + evs.countP ReadEvent.Own ≤ s.left maxSize := by
  induction evs generalizing s with
  | nil =>
    obtain rfl := Option.some.inj hrun
    exact ⟨hs, Nat.le_refl _⟩
  | cons ev evs ih =>
    obtain ⟨s₁, hstep, hrun⟩ := Runs.exec_cons_eq_some.mp hrun
    obtain ⟨hinv, hcount⟩ := ih (hs.step hstep) hrun
    have hleft := left_step hs hstep
    refine ⟨hinv, ?_⟩
    rw [List.countP_cons]
    omega

/-- Has the call ended? -/
def ended (s : FileRead) : Prop :=
  match s.pc with
  | .returned _ | .threw _ => True
  | _ => False

/-- A call that has not ended can go on, without a failure after `open`. -/
theorem exists_step (hs : ¬s.ended) : ∃ ev s', ev.Own = true ∧ s.step maxSize ev = some s' := by
  obtain ⟨pc, kind, data, seen, fd⟩ := s
  cases pc with
  | opening => exact ⟨.openFails, _, rfl, rfl⟩
  | stating =>
    by_cases hkind : kind ≠ .regular
    · exact ⟨.stated, _, rfl, if_pos hkind⟩
    · by_cases hlarge : data.length > maxSize
      · exact ⟨.stated, _, rfl, (if_neg hkind).trans (if_pos hlarge)⟩
      · exact ⟨.stated, _, rfl, (if_neg hkind).trans (if_neg hlarge)⟩
  | reading content =>
    by_cases hend : data.length ≤ content.length
    · exact ⟨.gives 0, _, rfl, (if_pos ⟨Nat.zero_le _, fun _ => hend⟩).trans (if_pos rfl)⟩
    · have hone : 1 ≤ min bufSize (data.length - content.length) := by
        rw [bufSize]
        omega
      have hguard : 1 ≤ min bufSize (data.length - content.length) ∧
          (1 = 0 → data.length ≤ content.length) := ⟨hone, fun h => absurd h Nat.one_ne_zero⟩
      by_cases hlarge : (content ++ (data.drop content.length).take 1).length > maxSize
      · exact ⟨.gives 1, _, rfl,
          ((if_pos hguard).trans (if_neg Nat.one_ne_zero)).trans (if_pos hlarge)⟩
      · exact ⟨.gives 1, _, rfl,
          ((if_pos hguard).trans (if_neg Nat.one_ne_zero)).trans (if_neg hlarge)⟩
  | returned | threw => exact absurd trivial hs

/-- **Reading a file that its owner plays with.** Whatever other processes put at the path or write
to the file meanwhile, with any failures, interruptions and sizes of the pieces: what is returned is
from a regular file, is not too long, has at each place a byte that stood there at some time, and
reaches to the end that the file had at some time; so it is the file when nobody has written to it.
A file is called too large only when it was. When the call has ended, the file is closed; and it ends
after so many steps, also when the file grows all the time. -/
theorem readFileNoFollow_safe (maxSize : ℕ) (kind : FileKind) (data : List UInt8)
    (evs : List ReadEvent) (s : FileRead)
    (hrun : Runs.exec (step maxSize) (start kind data) evs = some s) :
    (∀ content, s.pc = .returned content →
        s.kind = .regular ∧ content.length ≤ maxSize ∧ Stood s.seen content ∧
          (∃ data ∈ s.seen, data.length ≤ content.length) ∧
          ∀ data, s.seen = [data] → content = data) ∧
      (s.pc = .threw .tooLarge → ∃ data ∈ s.seen, maxSize < data.length) ∧
      (s.ended → s.fd = false) ∧
      evs.countP ReadEvent.Own ≤ maxSize + 3 ∧
      (¬s.ended → ∃ ev s', ev.Own = true ∧ s.step maxSize ev = some s') := by
  obtain ⟨hinv, hcount⟩ := inv_run (show (start kind data).Inv maxSize from rfl) hrun
  refine ⟨fun content hpc => ?_, fun hpc => ?_, fun hended => ?_, ?_, exists_step⟩
  · rw [Inv, hpc] at hinv
    obtain ⟨-, hkind, hsize, hstood, hend⟩ := hinv
    refine ⟨hkind, hsize, hstood, hend, fun d hd => ?_⟩
    rw [hd] at hstood hend
    obtain ⟨d', hd', hlength⟩ := hend
    rw [List.mem_singleton.mp hd'] at hlength
    exact hstood.eq_of_length hlength
  · rw [Inv, hpc] at hinv
    exact hinv.2 rfl
  · obtain ⟨pc, kind, data, seen, fd⟩ := s
    cases pc with
    | returned | threw => exact hinv.1
    | opening | stating | reading => exact absurd hended id
  · exact Nat.le_of_add_left_le hcount

/-- Two bytes are read one by one, the second one after it was changed. -/
def changedRun : List ReadEvent :=
  [.opened, .stated, .gives 1, .interrupted, .written [3, 4], .gives 1, .gives 0]

theorem readFileNoFollow_safe_changed : ∃ s, Runs.exec (step 10) (start .regular [1, 2]) changedRun =
    some s ∧ s.pc = .returned [1, 4] ∧ Stood s.seen [1, 4] := by
  obtain ⟨s, hrun, hpc⟩ : ∃ s, Runs.exec (step 10) (start .regular [1, 2]) changedRun = some s ∧
      s.pc = .returned [1, 4] := ⟨_, rfl, rfl⟩
  exact ⟨s, hrun, hpc,
    ((readFileNoFollow_safe 10 .regular [1, 2] changedRun s hrun).1 [1, 4] hpc).2.2.1⟩

end FileRead

end HpcWorkspace
