import HpcWorkspace.EntryUpdates

/-!
# Updates of an entry when system calls fail

`writeEntry` truncates the entry file and then writes it in a loop. It logs when the file can not
be opened or the loop stops early, and returns as if nothing was wrong; so do `useExtension`,
which was its last step, and `release` and `expire`, which go on to rename the file. An error of
the rename is thrown, but by then the file has been written.
-/

namespace HpcWorkspace

/-! ## Writing -/

/-- What a `write` call returns. -/
inductive WriteResult where
  /-- so many bytes were taken -/
  | written (n : ℕ)
  /-- `EINTR` -/
  | interrupted
  /-- any other error -/
  | failed
  deriving DecidableEq

/-- What an update meets at its system calls. -/
structure SysCalls where
  /-- does `open` succeed? -/
  opens : Bool
  /-- the results of the `write` calls, one after the other -/
  writes : List WriteResult
  /-- does `exists` of `release` throw? -/
  existsThrows : Bool
  /-- does `rename` succeed? -/
  renames : Bool

/-- The loop of `writeEntry`: what it writes of `buf`, and how much is left. It is `none` as long as
the results do not end the loop. -/
def writeLoop : Str → List WriteResult → Option (Str × ℕ)
  | [], _ => some ([], 0)
  | _ :: _, [] => none
  | c :: buf, .interrupted :: results => writeLoop (c :: buf) results
  | c :: buf, .failed :: _ => some ([], (c :: buf).length)
  | c :: buf, .written n :: results =>
    (writeLoop ((c :: buf).drop n) results).map fun p => ((c :: buf).take n ++ p.1, p.2)

/-- How many of `left` bytes the `write` calls take before one of them fails. -/
def bytesTaken : ℕ → List WriteResult → ℕ
  | 0, _ => 0
  | _ + 1, [] => 0
  | left + 1, .interrupted :: results => bytesTaken (left + 1) results
  | _ + 1, .failed :: _ => 0
  | left + 1, .written n :: results =>
    min n (left + 1) + bytesTaken (left + 1 - n) results

/-- **What the loop writes**: the bytes that are taken, from the start of the text. -/
theorem writeLoop_eq_some {buf : Str} {results : List WriteResult} {t : Str} {left : ℕ}
    (h : writeLoop buf results = some (t, left)) :
    t = buf.take (bytesTaken buf.length results) ∧ t.length + left = buf.length := by
  induction results generalizing buf t left with
  | nil =>
    cases buf with
    | nil =>
      obtain ⟨rfl, rfl⟩ := Option.some.inj h
      exact ⟨rfl, rfl⟩
    | cons c buf => cases h
  | cons r results ih =>
    cases buf with
    | nil =>
      obtain ⟨rfl, rfl⟩ := Option.some.inj h
      exact ⟨rfl, rfl⟩
    | cons c buf =>
      cases r with
      | interrupted => exact ih h
      | failed =>
        obtain ⟨rfl, rfl⟩ := Option.some.inj h
        exact ⟨rfl, Nat.zero_add _⟩
      | written n =>
        obtain ⟨⟨t', left'⟩, hrest, heq⟩ := Option.map_eq_some_iff.mp h
        obtain ⟨rfl, rfl⟩ := heq
        obtain ⟨ht, hlength⟩ := ih hrest
        rw [List.length_drop] at ht hlength
        constructor
        · -- the bytes of this call, and then those of the later ones
          have htaken : bytesTaken (c :: buf).length (.written n :: results) =
              min n (c :: buf).length + bytesTaken ((c :: buf).length - n) results := rfl
          rw [htaken, List.take_add, ← List.take_eq_take_min, ← List.drop_eq_drop_min, ← ht]
        · dsimp only at hlength ⊢
          rw [List.length_append, List.length_take]
          omega

/-- `writeEntry`: the second part is `writeok`, which the callers do not see. -/
def EntryFiles.writeEntry (f : EntryFiles) (text : Str) (sys : SysCalls) :
    Option (EntryFiles × Bool) :=
  if sys.opens then
    let (f, fd) := f.openTrunc .live
    (writeLoop text sys.writes).map fun p => (f.write fd p.1, p.2 == 0)
  else some (f, false)

/-- What `write` calls leave of a text. -/
def SysCalls.takenOf (sys : SysCalls) (text : Str) : Str :=
  text.take (bytesTaken text.length sys.writes)

/-- **What `writeEntry` does** with a file that is there: nothing when it is not opened, and else
it holds the bytes that were taken. No name changes. -/
theorem writeEntry_spec {f f' : EntryFiles} {text : Str} {sys : SysCalls} {writeok : Bool}
    (hlive : f.inode .live ≠ none) (h : f.writeEntry text sys = some (f', writeok)) :
    (sys.opens = false ∧ f' = f ∧ writeok = false) ∨
      (sys.opens = true ∧ f'.inode = f.inode ∧ f'.content .live = some (sys.takenOf text) ∧
        (writeok = true ↔ sys.takenOf text = text)) := by
  unfold EntryFiles.writeEntry at h
  split at h
  · rename_i hopens
    right
    obtain ⟨i, hi⟩ := Option.ne_none_iff_exists'.mp hlive
    have hopen : f.openTrunc .live = ({ f with text := Function.update f.text i [] }, i) := by
      unfold EntryFiles.openTrunc
      rw [hi]
    rw [hopen] at h
    obtain ⟨⟨t, left⟩, hloop, heq⟩ := Option.map_eq_some_iff.mp h
    obtain ⟨rfl, rfl⟩ := heq
    obtain ⟨ht, hlength⟩ := writeLoop_eq_some hloop
    have ht : t = sys.takenOf text := ht
    refine ⟨hopens, rfl, ?_, ?_⟩
    · simp [EntryFiles.content, EntryFiles.write, hi, ht]
    · rw [← ht, beq_iff_eq]
      constructor
      · intro hleft
        dsimp only at hleft
        have hprefix : t <+: text := ht ▸ List.take_prefix _ _
        exact hprefix.eq_of_length (by omega)
      · intro hall
        have hsame := congrArg List.length hall
        dsimp only
        omega
  · rename_i hopens
    obtain ⟨rfl, rfl⟩ := Option.some.inj h
    exact Or.inl ⟨by simpa using hopens, rfl, rfl⟩

/-! ## Updates -/

/-- How an update ends. -/
inductive Ending where
  /-- it does not get as far as writing -/
  | unwritten
  /-- an exception leaves it, and the tool reports an error -/
  | threw
  /-- it returns, and the tool reports success -/
  | returned
  deriving DecidableEq

namespace Update

variable (codec : Codec) (taken : ℤ → Bool)

/-- The entry an update writes, and the time in the name that `expire` chose. -/
def prepare (u : Update) (f : EntryFiles) : Option (DBEntry × Option ℤ) :=
  match codec.readEntry f .live with
  | none => none
  | some e =>
    match u.afterRead e with
    | .opening e target => some (e, target)
    | .choose e =>
      match u.afterChoose taken f e with
      | .opening e target => some (e, target)
      | _ => none
    | _ => none

/-- The rename of `release` and `expire`. -/
def renameTo (sys : SysCalls) (ts : ℤ) (f : EntryFiles) : EntryFiles × Ending :=
  if sys.renames then (f.rename .live (.deleted ts), .returned) else (f, .threw)

/-- What an update does after `writeEntry`, whatever came of it. -/
def finish (sys : SysCalls) (u : Update) (target : Option ℤ) (f : EntryFiles) :
    EntryFiles × Ending :=
  match u.afterWrite target with
  | .check =>
    -- `exists` throws a `filesystem_error`, which nothing catches
    if sys.existsThrows then (f, .threw) else renameTo sys (u.releaseTime f) f
  | .moving ts => renameTo sys ts f
  | _ => (f, .returned)

/-- An update that runs alone; `none` as long as it is in the loop of `writeEntry`. -/
def perform (sys : SysCalls) (u : Update) (f : EntryFiles) : Option (EntryFiles × Ending) :=
  match u.prepare codec taken f with
  | none => some (f, .unwritten)
  | some (e, target) =>
    (f.writeEntry (codec.emit e) sys).map fun p => u.finish sys target p.1

/-- The system calls after the write that make an update throw. -/
def ThrowsAfterWrite (sys : SysCalls) : Update → Prop
  | .release .. => sys.existsThrows = true ∨ sys.renames = false
  | .expire .. => sys.renames = false
  | _ => False

variable {codec taken} {sys : SysCalls} {u : Update} {f f' : EntryFiles} {e : DBEntry}
  {target : Option ℤ} {ending : Ending}

/-- What is written is there to be read before. -/
theorem read_of_prepare (h : u.prepare codec taken f = some (e, target)) :
    ∃ e₀, codec.readEntry f .live = some e₀ := by
  unfold prepare at h
  split at h
  · cases h
  · exact ⟨_, ‹_›⟩

theorem inode_of_read {e₀ : DBEntry} (h : codec.readEntry f .live = some e₀) :
    f.inode .live ≠ none := by
  intro hnone
  rw [Codec.readEntry, EntryFiles.content, hnone] at h
  cases h

/-- An update gets to its write as it does when it takes step after step. -/
theorem alone_of_prepare (h : u.prepare codec taken f = some (e, target)) :
    u.alone codec taken .start f = u.alone codec taken (.opening e target) f := by
  unfold prepare at h
  split at h
  · cases h
  · rename_i e₀ hread
    have hstart : u.step codec taken f .start = some (u.afterRead e₀, f) := by
      rw [step, hread]
    rw [alone_step hstart]
    split at h
    · rename_i e₁ target₁ hafter
      obtain ⟨rfl, rfl⟩ := Option.some.inj h
      rw [hafter]
    · rename_i e₁ hafter
      have hchoose : u.step codec taken f (.choose e₁) = some (u.afterChoose taken f e₁, f) := rfl
      rw [hafter, alone_step hchoose]
      split at h
      · rename_i e₂ target₂ hchosen
        obtain ⟨rfl, rfl⟩ := Option.some.inj h
        rw [hchosen]
      · cases h
    · cases h

/-- A time is given to `expire`, and to no other update. -/
theorem afterWrite_of_prepare (sys : SysCalls)
    (h : u.prepare codec taken f = some (e, target)) :
    (∃ timestamp released, u = .release timestamp released) ∨
      (∃ timestamp expired ts, u = .expire timestamp expired ∧ target = some ts) ∨
        (u.afterWrite target = .done ∧ ¬u.ThrowsAfterWrite sys) := by
  cases u with
  | release timestamp released => exact Or.inl ⟨_, _, rfl⟩
  | expire timestamp expired =>
    right; left
    unfold prepare at h
    split at h
    · cases h
    · rename_i e₀ hread
      dsimp only [afterRead] at h
      split at h
      · rename_i hafter
        split at hafter <;> cases hafter
      · rename_i e₁ hafter
        dsimp only [afterChoose] at h
        split at h
        · rename_i hchosen
          split at hchosen
          · obtain ⟨rfl, rfl⟩ := UpdatePc.opening.inj hchosen
            obtain ⟨rfl, rfl⟩ := Option.some.inj h
            exact ⟨_, _, _, rfl, rfl⟩
          · cases hchosen
        · cases h
      · cases h
  | useExtension isRoot expiration mailaddress reminder comment =>
    exact Or.inr (Or.inr ⟨by cases target <;> rfl, id⟩)
  | setExpiration edit => exact Or.inr (Or.inr ⟨by cases target <;> rfl, id⟩)
  | setExpired edit => exact Or.inr (Or.inr ⟨by cases target <;> rfl, id⟩)

theorem renameTo_cases (sys : SysCalls) (ts : ℤ) (f : EntryFiles) :
    (sys.renames = true ∧ renameTo sys ts f = (f.rename .live (.deleted ts), .returned)) ∨
      (sys.renames = false ∧ renameTo sys ts f = (f, .threw)) := by
  unfold renameTo
  split
  · rename_i hren
    exact Or.inl ⟨hren, rfl⟩
  · rename_i hren
    exact Or.inr ⟨by simpa using hren, rfl⟩

/-- **After the write.** An update throws when `exists` or `rename` fails, and leaves the files as
the write left them; else it returns. -/
theorem finish_spec (sys : SysCalls) (h : u.prepare codec taken f = some (e, target))
    (g : EntryFiles) :
    (u.ThrowsAfterWrite sys ∧ u.finish sys target g = (g, .threw)) ∨
      (¬u.ThrowsAfterWrite sys ∧ (u.finish sys target g).2 = .returned) := by
  rcases afterWrite_of_prepare sys h with ⟨timestamp, released, rfl⟩ |
    ⟨timestamp, expired, ts, rfl, rfl⟩ | ⟨hafter, hno⟩
  · dsimp only [ThrowsAfterWrite, finish, afterWrite]
    cases hexists : sys.existsThrows with
    | true => exact Or.inl ⟨Or.inl rfl, rfl⟩
    | false =>
      rcases renameTo_cases sys (releaseTime g (.release timestamp released)) g with
        ⟨hren, heq⟩ | ⟨hren, heq⟩
      · exact Or.inr ⟨by simp [hren], congrArg Prod.snd heq⟩
      · exact Or.inl ⟨Or.inr hren, heq⟩
  · dsimp only [ThrowsAfterWrite, finish, afterWrite]
    rcases renameTo_cases sys ts g with ⟨hren, heq⟩ | ⟨hren, heq⟩
    · exact Or.inr ⟨by simp [hren], congrArg Prod.snd heq⟩
    · exact Or.inl ⟨hren, heq⟩
  · right
    refine ⟨hno, ?_⟩
    rw [finish, hafter]

/-- **Refinement.** When no system call fails, an update leaves the files as it does when it takes
step after step. -/
theorem perform_of_ok (h : u.prepare codec taken f = some (e, target)) (hopens : sys.opens = true)
    (hwrites : writeLoop (codec.emit e) sys.writes = some (codec.emit e, 0))
    (hexists : sys.existsThrows = false) (hrenames : sys.renames = true) :
    u.perform codec taken sys f = some (u.alone codec taken .start f, .returned) := by
  have hwrite : f.writeEntry (codec.emit e) sys =
      some ((f.openTrunc .live).1.write (f.openTrunc .live).2 (codec.emit e), true) := by
    unfold EntryFiles.writeEntry
    rw [if_pos hopens]
    dsimp only
    rw [hwrites]
    rfl
  have hopen : u.step codec taken f (.opening e target) =
      some (.writing e (f.openTrunc .live).2 target, (f.openTrunc .live).1) := rfl
  unfold perform
  rw [h, alone_of_prepare h, alone_step hopen, alone_step rfl]
  dsimp only
  rw [hwrite]
  dsimp only [Option.map_some, finish]
  rcases afterWrite_of_prepare sys h with ⟨timestamp, released, rfl⟩ |
    ⟨timestamp, expired, ts, rfl, rfl⟩ | ⟨hafter, hno⟩
  · simp only [afterWrite, hexists, renameTo, hrenames]
    rfl
  · simp only [afterWrite, renameTo, hrenames]
    rfl
  · rw [hafter, alone_done]

/-- What an update that writes has done: the file is as the write left it, when `exists` or
`rename` throws, and else the update has returned. -/
theorem perform_spec (h : u.prepare codec taken f = some (e, target))
    (hrun : u.perform codec taken sys f = some (f', ending)) :
    ∃ g writeok, f.writeEntry (codec.emit e) sys = some (g, writeok) ∧
      ((u.ThrowsAfterWrite sys ∧ f' = g ∧ ending = .threw) ∨
        (¬u.ThrowsAfterWrite sys ∧ ending = .returned)) := by
  unfold perform at hrun
  rw [h] at hrun
  obtain ⟨⟨g, writeok⟩, hwrite, heq⟩ := Option.map_eq_some_iff.mp hrun
  refine ⟨g, writeok, hwrite, ?_⟩
  rcases finish_spec sys h g with ⟨hthrows, hfinish⟩ | ⟨hno, hfinish⟩
  · rw [hfinish] at heq
    obtain ⟨rfl, rfl⟩ := heq
    exact Or.inl ⟨hthrows, rfl, rfl⟩
  · rw [heq] at hfinish
    exact Or.inr ⟨hno, hfinish⟩

end Update

/-! ## A write that fails -/

section WriteFails

variable (codec : Codec) (taken : ℤ → Bool)

/-- The `open` or a `write` fails. -/
def WriteFails (f : EntryFiles) (text : Str) (sys : SysCalls) : Prop :=
  ∃ f', f.writeEntry text sys = some (f', false)

/-- A failed write has done no harm: the entry has its old or its new text and can be read, it is
where it was, and an error is reported. -/
structure AtomicWrite (f f' : EntryFiles) (text : Str) (ending : Ending) : Prop where
  /-- the old or the new text -/
  stored : f'.content .live = f.content .live ∨ f'.content .live = some text
  /-- it can be read -/
  readable : codec.readEntry f' .live ≠ none
  /-- it is not moved -/
  unmoved : f'.inode = f.inode
  /-- there is an error -/
  reported : ending = .threw

/-- **Failed writes.** They do no harm only when the update is a release or an expiry that throws
later on, and nothing has been written or just the old text again; an extension returns. -/
theorem entry_writes_atomic_iff (u : Update) (sys : SysCalls) (f f' : EntryFiles) (e : DBEntry)
    (target : Option ℤ) (ending : Ending) (hprepare : u.prepare codec taken f = some (e, target))
    (hfails : WriteFails f (codec.emit e) sys)
    (hrun : u.perform codec taken sys f = some (f', ending)) :
    AtomicWrite codec f f' (codec.emit e) ending ↔
      u.ThrowsAfterWrite sys ∧
        (sys.opens = false ∨ f.content .live = some (sys.takenOf (codec.emit e))) := by
  obtain ⟨e₀, hread⟩ := Update.read_of_prepare hprepare
  have hlive := Update.inode_of_read hread
  obtain ⟨g', hfails⟩ := hfails
  obtain ⟨g, writeok, hwrite, hending⟩ := Update.perform_spec hprepare hrun
  obtain ⟨rfl, rfl⟩ := Prod.mk.inj (Option.some.inj (hwrite.symm.trans hfails))
  have hspec := writeEntry_spec hlive hwrite
  constructor
  · intro hatomic
    rcases hending with ⟨hthrows, rfl, -⟩ | ⟨-, hreturned⟩
    · refine ⟨hthrows, ?_⟩
      rcases hspec with ⟨hopens, -⟩ | ⟨-, -, hcontent, hpart⟩
      · exact Or.inl hopens
      · right
        rcases hatomic.stored with hold | hnew
        · rw [← hold, hcontent]
        · rw [hcontent] at hnew
          exact absurd (hpart.mpr (Option.some.inj hnew)) Bool.false_ne_true
    · exact absurd (hreturned.symm.trans hatomic.reported) (by decide)
  · rintro ⟨hthrows, hold⟩
    rcases hending with ⟨-, rfl, hthrew⟩ | ⟨hno, -⟩
    · have hsame : f'.content .live = f.content .live ∧ f'.inode = f.inode := by
        rcases hspec with ⟨-, rfl, -⟩ | ⟨hopens, hinode, hcontent, -⟩
        · exact ⟨rfl, rfl⟩
        · rcases hold with hclosed | hold
          · exact absurd (hopens.symm.trans hclosed) (by decide)
          · exact ⟨hcontent.trans hold.symm, hinode⟩
      have hreadable : codec.readEntry f' .live ≠ none := by
        rw [Codec.readEntry, hsame.1, ← Codec.readEntry, hread]
        exact Option.some_ne_none e₀
      exact ⟨Or.inl hsame.1, hreadable, hsame.2, hthrew⟩
    · exact absurd hthrows hno

end WriteFails

/-- System calls of which all but `open` and `rename` succeed. -/
def nothingOpens : SysCalls := ⟨false, [], false, false⟩

/-- A disk that is full after some bytes. -/
def fullAfter (n : ℕ) : SysCalls := ⟨true, [.interrupted, .written n, .failed], false, true⟩

/-- A release that can neither open nor rename the file leaves it. -/
theorem entry_writes_atomic_unopened :
    AtomicWrite fieldsCodec twoLeftFiles twoLeftFiles "2:100:500".toList .threw := by
  have h := (entry_writes_atomic_iff fieldsCodec (fun _ => false) (.release 500 500) nothingOpens
    twoLeftFiles twoLeftFiles { twoLeft with released := 500 } none .threw rfl ⟨_, rfl⟩ rfl).mpr
      ⟨Or.inr rfl, Or.inl rfl⟩
  exact h

set_option maxRecDepth 4000 in
/-- With the disk full after three bytes, the entry of an extension can not be read any more, and
the extension returns; that of a release is moved as well. -/
theorem not_entry_writes_atomic :
    (¬∀ (codec : Codec) (taken : ℤ → Bool) (u : Update) (sys : SysCalls) (f f' : EntryFiles)
      (e : DBEntry) (target : Option ℤ) (ending : Ending),
      u.prepare codec taken f = some (e, target) → WriteFails f (codec.emit e) sys →
        u.perform codec taken sys f = some (f', ending) →
          AtomicWrite codec f f' (codec.emit e) ending) ∧
      (∃ f', (extendTo 200).perform fieldsCodec (fun _ => false) (fullAfter 3) twoLeftFiles =
          some (f', .returned) ∧
        f'.content .live = some "1:2".toList ∧ fieldsCodec.readEntry f' .live = none) ∧
      ∃ f', (Update.release 500 500).perform fieldsCodec (fun _ => false) (fullAfter 3)
          twoLeftFiles = some (f', .returned) ∧
        f'.content .live = none ∧ f'.content (.deleted 500) = some "2:1".toList ∧
          fieldsCodec.readEntry f' (.deleted 500) = none := by
  refine ⟨?_, ⟨_, rfl, rfl, by decide⟩, ⟨_, rfl, rfl, rfl, by decide⟩⟩
  intro h
  have hatomic := h fieldsCodec (fun _ => false) (extendTo 200) (fullAfter 3) twoLeftFiles _ _ _ _
    rfl ⟨_, rfl⟩ rfl
  exact absurd hatomic.reported (by decide)

/-! ## A release that fails -/

section ReleaseFails

variable (codec : Codec) (taken : ℤ → Bool)

/-- A failed release has left no trace: the entry is as before. So if it was not marked as released,
it is kept for the full time of an expired entry after it expires. -/
structure NoTrace (f f' : EntryFiles) : Prop where
  /-- the text is the same -/
  same : f'.content .live = f.content .live
  /-- it is deleted only after the time to keep an expired one -/
  kept : ∀ e, codec.readEntry f .live = some e → e.released ≤ 1000000000 →
    ∀ e', codec.readEntry f' .live = some e' → ∀ (fsconfig : FilesystemConfig) (id : Str)
      (expired now : ℤ), 0 < expired →
      shouldDelete fsconfig id { e' with expired := expired }.persisted now = some true →
        expired + fsconfig.keeptime * 24 * 3600 < now

/-- An entry that is not marked as released is kept for the time to keep an expired one. -/
theorem expired_of_shouldDelete {fsconfig : FilesystemConfig} {id : Str} {e : DBEntry}
    {expired now : ℤ} (hreleased : e.released ≤ 1000000000) (hexpired : 0 < expired)
    (h : shouldDelete fsconfig id { e with expired := expired }.persisted now = some true) :
    expired + fsconfig.keeptime * 24 * 3600 < now := by
  have hpersisted : ({ e with expired := expired } : DBEntry).persisted.expired = expired := by
    simp only [DBEntry.persisted]
    exact if_pos hexpired
  have hnot : ¬({ e with expired := expired } : DBEntry).persisted.released > 1000000000 := by
    simp only [DBEntry.persisted]
    split <;> omega
  unfold shouldDelete at h
  split at h
  · cases h
  · dsimp only at h
    rw [if_neg hnot, hpersisted, if_neg (by omega)] at h
    have hover := of_decide_eq_true (Option.some.inj h)
    omega

/-- **Failed releases.** An exception of `release` leaves no trace only when the file was not
opened, or was given the text it had before. -/
theorem release_without_trace_iff (timestamp released : ℤ) (sys : SysCalls) (f f' : EntryFiles)
    (e : DBEntry) (ending : Ending) (hread : codec.readEntry f .live = some e)
    (hrun : (Update.release timestamp released).perform codec taken sys f = some (f', ending)) :
    (ending = .threw → NoTrace codec f f') ↔
      (sys.existsThrows = false ∧ sys.renames = true) ∨ sys.opens = false ∨
        f.content .live = some (sys.takenOf (codec.emit { e with released := released })) := by
  have hlive := Update.inode_of_read hread
  have hprepare : (Update.release timestamp released).prepare codec taken f =
      some ({ e with released := released }, none) := by
    unfold Update.prepare
    rw [hread]
    rfl
  obtain ⟨g, writeok, hwrite, hending⟩ := Update.perform_spec hprepare hrun
  have hspec := writeEntry_spec hlive hwrite
  rcases hending with ⟨hthrows, rfl, rfl⟩ | ⟨hno, rfl⟩
  · have hfails : ¬(sys.existsThrows = false ∧ sys.renames = true) := by
      rintro ⟨hexists, hrenames⟩
      rcases hthrows with h | h
      · exact absurd (h.symm.trans hexists) (by decide)
      · exact absurd (h.symm.trans hrenames) (by decide)
    constructor
    · intro htrace
      right
      rcases hspec with ⟨hopens, -⟩ | ⟨-, -, hcontent, -⟩
      · exact Or.inl hopens
      · exact Or.inr ((htrace rfl).same.symm.trans hcontent)
    · intro hcond _
      have hsame : f'.content .live = f.content .live := by
        rcases hspec with ⟨-, rfl, -⟩ | ⟨hopens, -, hcontent, -⟩
        · rfl
        · rcases hcond with h | h | h
          · exact absurd h hfails
          · exact absurd (hopens.symm.trans h) (by decide)
          · exact hcontent.trans h.symm
      refine ⟨hsame, ?_⟩
      intro e₁ hread₁ hnot e' hread' fsconfig id expired now hexpired hdelete
      rw [Codec.readEntry, hsame, ← Codec.readEntry, hread₁] at hread'
      obtain rfl := Option.some.inj hread'
      exact expired_of_shouldDelete hnot hexpired hdelete
  · constructor
    · intro _
      left
      have hno : ¬(sys.existsThrows = true ∨ sys.renames = false) := hno
      simpa using hno
    · intro _ hthrew
      cases hthrew

end ReleaseFails

/-- System calls of which only `rename` fails. -/
def renameFails (writes : List WriteResult) : SysCalls := ⟨true, writes, false, false⟩

/-- A time to keep expired workspaces that is longer than that for released ones. -/
def keepsExpired : FilesystemConfig :=
  { FilesystemConfig.ofSpaces ['s'] [] with keeptime := 30, releasekeeptime := 1 }

set_option maxRecDepth 4000 in
/-- A release that can not open the file leaves no trace when it fails. -/
theorem release_without_trace_unopened : NoTrace fieldsCodec twoLeftFiles twoLeftFiles :=
  (release_without_trace_iff fieldsCodec (fun _ => false) 500 500 nothingOpens twoLeftFiles
    twoLeftFiles twoLeft .threw rfl rfl).mpr (Or.inr (Or.inl rfl)) rfl

/-- The text of the entry that is marked as released. -/
def releasedText : Str := "2:100:1700000000".toList

set_option maxRecDepth 4000 in
/-- When only the rename fails the live entry is marked as released; after it expires it is deleted
a day later, and not after thirty days. -/
theorem not_release_without_trace :
    (¬∀ (codec : Codec) (taken : ℤ → Bool) (timestamp released : ℤ) (sys : SysCalls)
      (f f' : EntryFiles) (e : DBEntry), codec.readEntry f .live = some e →
        (Update.release timestamp released).perform codec taken sys f = some (f', .threw) →
          NoTrace codec f f') ∧
      ∃ f', (Update.release 1700000000 1700000000).perform fieldsCodec (fun _ => false)
          (renameFails [.written 16]) twoLeftFiles = some (f', .threw) ∧
        f'.content .live = some releasedText ∧
          ∃ e', fieldsCodec.readEntry f' .live = some e' ∧
            shouldDelete keepsExpired "bob-x-1800000000".toList
              { e' with expired := 1800000000 }.persisted 1800086400 = some true := by
  constructor
  · intro h
    have htrace := h fieldsCodec (fun _ => false) 1700000000 1700000000 (renameFails [.written 16])
      twoLeftFiles _ twoLeft rfl rfl
    exact absurd htrace.same (by decide)
  · exact ⟨_, rfl, rfl, { twoLeft with released := 1700000000 }, rfl, by decide⟩

end HpcWorkspace
