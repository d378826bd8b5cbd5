import HpcWorkspace.Durations
import HpcWorkspace.Lib.Runs

/-!
# Extensions

An entry has a number of extensions. A call by an ordinary user that moves its expiration on takes
one of them, and is refused when none is left; all other calls take none. So no more calls move the
expiration on than there were extensions.

A delegate, a member of the group who works for the owner, changes nothing but the expiration. But
he may also move it back, as the owner may.
-/

namespace HpcWorkspace

/-! ## Calls -/

/-- A call that updates an entry. -/
inductive UpdateAct where
  /-- `ws_allocate -x` -/
  | allocate (config : Config) (c : Caller) (a : AllocArgs) (env : AllocEnv)
  /-- `useExtension` of the entry in a file -/
  | useExtension (k : DbLoc) (isRoot : Bool) (expiration : ℤ) (mailaddress : Str) (reminder : ℤ)
      (comment : Str)

namespace UpdateAct

/-- Does root make the call? -/
def isRoot : UpdateAct → Bool
  | allocate _ c _ _ => c.isRoot
  | useExtension _ isRoot _ _ _ _ => isRoot

/-- Does the call end with an error? -/
def throws (w : World) : UpdateAct → Prop
  | allocate config c a env => (wsAllocate config c a env w).2 = .refused
  | useExtension k isRoot expiration mailaddress reminder comment =>
    ∃ e, w.readEntry k.fs k.area k.id = some e ∧
      e.useExtension isRoot expiration mailaddress reminder comment = none

/-- Does the call ask for no expiration, or for one that is not later than a stored one? -/
def asksNoMore (expiration : ℤ) : UpdateAct → Prop
  | allocate config c a env => ∀ fs fsconfig, config.getFsConfig fs = some fsconfig →
    extendedExpiration config fsconfig c a.duration env.now = -1 ∨
      extendedExpiration config fsconfig c a.duration env.now ≤ expiration
  | useExtension _ _ asked _ _ _ => asked = -1 ∨ asked ≤ expiration

end UpdateAct

/-- The state after a call; other calls of `ws_allocate` are not enabled, and `useExtension` is only
with an entry that can be read. -/
def updateStep (w : World) : UpdateAct → Option World
  | .allocate config c a env => if a.extension then some (wsAllocate config c a env w).1 else none
  | .useExtension k isRoot expiration mailaddress reminder comment =>
    match w.readEntry k.fs k.area k.id with
    | none => none
    | some e =>
      match e.useExtension isRoot expiration mailaddress reminder comment with
      -- the exception comes before the write
      | none => some w
      | some e' => some (w.writeEntry k e')

/-- The stored expiration of an entry. -/
def storedExpiration (w : World) (k : DbLoc) : Option ℤ :=
  match w.db.lookup k with
  | some (.entry e) => some e.expiration
  | _ => none

/-- Is the stored expiration in `w'` later than in `w`? -/
def raised (k : DbLoc) (w w' : World) : Bool :=
  match storedExpiration w k, storedExpiration w' k with
  | some old, some new => old < new
  | _, _ => false

/-- The calls of ordinary users in a run that raise the stored expiration. -/
def raises (k : DbLoc) : World → List UpdateAct → ℕ
  | _, [] => 0
  | w, act :: acts =>
    match updateStep w act with
    | none => 0
    | some w' => (if !act.isRoot && raised k w w' then 1 else 0) + raises k w' acts

/-! ## What a call does -/

/-- `useExtension` takes an extension for a later expiration, but not from root. -/
theorem extensions_of_useExtension {e e' : DBEntry} {isRoot : Bool} {expiration reminder : ℤ}
    {mailaddress comment : Str}
    (h : e.useExtension isRoot expiration mailaddress reminder comment = some e') :
    e'.extensions = (if !isRoot ∧ e.expiration < e'.expiration then e.extensions - 1
      else e.extensions) ∧ (isRoot = false → 0 ≤ e'.extensions) := by
  have hexp := expiration_of_useExtension h
  rw [DBEntry.useExtension] at h
  split at h
  · cases h
  · rename_i hleft
    obtain rfl := Option.some.inj h
    rw [DBEntry.extensionsLeft] at hleft ⊢
    refine ⟨?_, fun hroot => ?_⟩
    · rw [hexp]
      by_cases hasked : expiration = -1
      · simp [hasked]
      · simp [hasked]
    · simp only [hroot, Bool.not_false, and_true, Int.not_lt] at hleft
      simpa [hroot] using hleft

/-- An entry before and after a call. -/
structure Used (act : UpdateAct) (e e' : DBEntry) : Prop where
  /-- an extension is taken for a later expiration, but not from root -/
  extensions : e'.extensions =
    if !act.isRoot ∧ e.expiration < e'.expiration then e.extensions - 1 else e.extensions
  /-- and there was one -/
  left : 0 ≤ e.extensions → 0 ≤ e'.extensions
  /-- only a call that asks for more raises the expiration -/
  asked : act.asksNoMore e.expiration → e'.expiration ≤ e.expiration

/-- A call that leaves the entry alone. -/
theorem Used.refl (act : UpdateAct) (e : DBEntry) : Used act e e where
  extensions := by simp
  left h := h
  asked _ := Int.le_refl _

/-- A call of `useExtension` that returns. -/
theorem Used.of_useExtension {act : UpdateAct} {e e' : DBEntry} {expiration reminder : ℤ}
    {mailaddress comment : Str}
    (h : e.useExtension act.isRoot expiration mailaddress reminder comment = some e')
    (hasked : act.asksNoMore e.expiration → expiration = -1 ∨ expiration ≤ e.expiration) :
    Used act e e'.persisted := by
  obtain ⟨hextensions, hleft⟩ := extensions_of_useExtension h
  refine ⟨hextensions, fun hn => ?_, fun hno => ?_⟩
  · cases hroot : act.isRoot with
    | false => exact hleft hroot
    | true =>
      rw [hroot] at hextensions
      change 0 ≤ e'.extensions
      rw [hextensions, if_neg (by simp)]
      exact hn
  · rw [DBEntry.persisted_expiration, expiration_of_useExtension h]
    rcases hasked hno with rfl | hle
    · simp
    · split
      · exact hle
      · exact Int.le_refl _

/-- A call of `ws_allocate` ends in a call of `useExtension`. -/
theorem useExtension_of_extendEntry {config : Config} {c : Caller} {a : AllocArgs}
    {user_option : Str} {env : AllocEnv} {fsconfig : FilesystemConfig} {e e' : DBEntry}
    (h : extendEntry config c a user_option env fsconfig e = some e') :
    ∃ mailaddress reminder comment,
      e.useExtension c.isRoot (extendedExpiration config fsconfig c a.duration env.now) mailaddress
        reminder comment = some e' := by
  dsimp only [extendEntry] at h
  split at h
  · cases h
  · split at h
    · cases h
    · exact ⟨_, _, _, h⟩

/-- With `-x` nothing is created, and an entry is only written when it is extended. -/
theorem wsAllocate_extension_cases (config : Config) (c : Caller) {a : AllocArgs} (env : AllocEnv)
    (w : World) (hext : a.extension = true) :
    wsAllocate config c a env w = (w, .refused) ∨
      ∃ fs id e e', (wsAllocate config c a env w).2 = .extended fs id e e' := by
  have hspec := wsAllocate_spec config c a env w
  generalize wsAllocate config c a env w = out at hspec ⊢
  cases hspec with
  | refused => exact Or.inl rfl
  | extended => exact Or.inr ⟨_, _, _, _, rfl⟩
  | reused checks create | creates checks create => simp [hext] at create

/-- **Step lemma**: what a call does to an entry; one that throws changes nothing. -/
theorem used_of_updateStep {w w' : World} {act : UpdateAct} {k : DbLoc} {e : DBEntry}
    (hlook : w.db.lookup k = some (.entry e)) (h : updateStep w act = some w') :
    (∃ e', w'.db.lookup k = some (.entry e') ∧ Used act e e') ∧ (act.throws w → w' = w) := by
  have hwrite : ∀ {k' : DbLoc} {e₀ e' : DBEntry}, w.db.lookup k' = some (.entry e₀) →
      (k' = k → e₀ = e → Used act e e'.persisted) →
        ∃ e'', (w.writeEntry k' e').db.lookup k = some (.entry e'') ∧ Used act e e'' := by
    intro k' e₀ e' hlook' hused
    by_cases hk : k = k'
    · subst hk
      obtain rfl := DbFile.entry.inj (Option.some.inj (hlook'.symm.trans hlook))
      exact ⟨_, World.lookup_writeEntry .., hused rfl rfl⟩
    · exact ⟨e, (World.lookup_writeEntry_ne _ hk).trans hlook, .refl act e⟩
  cases act with
  | allocate config c a env =>
    rw [updateStep] at h
    split at h
    · rename_i hext
      obtain rfl := Option.some.inj h
      rcases wsAllocate_extension_cases config c env w hext with
        hrefused | ⟨fs, id, e₀, e', hextended⟩
      · rw [hrefused]
        exact ⟨⟨e, hlook, .refl _ e⟩, fun _ => rfl⟩
      · obtain ⟨⟨user_option, fsconfig, -, hfs, hentry⟩, hlook', hw⟩ := stored_of_extended hextended
        refine ⟨?_, fun hthrows => ?_⟩
        · rw [hw]
          refine hwrite hlook' fun _ he => ?_
          obtain ⟨mailaddress, reminder, comment, huse⟩ := useExtension_of_extendEntry hentry
          rw [he] at huse
          exact .of_useExtension huse fun hno => hno fs fsconfig hfs
        · rw [UpdateAct.throws, hextended] at hthrows
          cases hthrows
    · cases h
  | useExtension k' isRoot expiration mailaddress reminder comment =>
    rw [updateStep] at h
    split at h
    · cases h
    · rename_i e₀ hread
      obtain ⟨-, hlook'⟩ := World.readEntry_eq_some.mp hread
      split at h
      · obtain rfl := Option.some.inj h
        exact ⟨⟨e, hlook, .refl _ e⟩, fun _ => rfl⟩
      · rename_i e' huse
        obtain rfl := Option.some.inj h
        refine ⟨hwrite hlook' fun _ he => ?_, fun hthrows => ?_⟩
        · rw [he] at huse
          exact .of_useExtension huse fun hno => hno
        · obtain ⟨e₁, hread', hnone⟩ := hthrows
          obtain rfl := Option.some.inj (hread.symm.trans hread')
          rw [huse] at hnone
          cases hnone

/-! ## Accounting -/

/-- A call keeps account of the extensions of an entry. -/
structure Accounts (k : DbLoc) (w : World) (act : UpdateAct) (w' : World) (e e' : DBEntry) : Prop where
  /-- the entry before -/
  before : w.db.lookup k = some (.entry e)
  /-- and after -/
  after : w'.db.lookup k = some (.entry e')
  /-- a call of an ordinary user that raises the expiration takes exactly one -/
  one : act.isRoot = false → e.expiration < e'.expiration → e'.extensions = e.extensions - 1
  /-- other calls take none -/
  none : e'.expiration ≤ e.expiration → e'.extensions = e.extensions
  /-- nor do calls without an expiration, or with one that is not later -/
  noMore : act.asksNoMore e.expiration → e'.extensions = e.extensions
  /-- nor does root -/
  root : act.isRoot = true → e'.extensions = e.extensions
  /-- the number is never negative -/
  left : 0 ≤ e'.extensions
  /-- a call that throws leaves everything as it was -/
  throws : act.throws w → w' = w

theorem accounts_of_updateStep {w w' : World} {act : UpdateAct} {k : DbLoc} {e : DBEntry}
    (hlook : w.db.lookup k = some (.entry e)) (hn : 0 ≤ e.extensions)
    (h : updateStep w act = some w') : ∃ e', Accounts k w act w' e e' := by
  obtain ⟨⟨e', hlook', hused⟩, hthrows⟩ := used_of_updateStep hlook h
  have hextensions := hused.extensions
  refine ⟨e', hlook, hlook', fun hroot hlt => ?_, fun hle => ?_, fun hno => ?_, fun hroot => ?_,
    hused.left hn, hthrows⟩
  · rw [hextensions, if_pos ⟨by simp [hroot], hlt⟩]
  · rw [hextensions, if_neg fun h => absurd h.2 (Int.not_lt.mpr hle)]
  · rw [hextensions, if_neg fun h => absurd h.2 (Int.not_lt.mpr (hused.asked hno))]
  · rw [hextensions, if_neg (by simp [hroot])]

/-- A call keeps the sum of the extensions that are left and those that were taken. -/
theorem Accounts.balance {k : DbLoc} {w w' : World} {act : UpdateAct} {e e' : DBEntry}
    (h : Accounts k w act w' e e') :
    e'.extensions + (if !act.isRoot && raised k w w' then 1 else 0 : ℕ) = e.extensions := by
  have hraised : raised k w w' = decide (e.expiration < e'.expiration) := by
    rw [raised, storedExpiration, storedExpiration, h.before, h.after]
  rw [hraised]
  cases hroot : act.isRoot with
  | true => simpa using h.root hroot
  | false =>
    by_cases hlt : e.expiration < e'.expiration
    · have := h.one hroot hlt
      simp [hlt]
      omega
    · simpa [hlt] using h.none (Int.not_lt.mp hlt)

/-- **Run lemma**: the balance over a run. -/
theorem balance_run {k : DbLoc} {acts : List UpdateAct} {w w' : World} {e : DBEntry}
    (hlook : w.db.lookup k = some (.entry e)) (hn : 0 ≤ e.extensions)
    (hrun : Runs.exec updateStep w acts = some w') :
    ∃ e', w'.db.lookup k = some (.entry e') ∧ 0 ≤ e'.extensions ∧
      e'.extensions + (raises k w acts : ℤ) = e.extensions := by
  induction acts generalizing w e with
  | nil =>
    obtain rfl := Option.some.inj hrun
    exact ⟨e, hlook, hn, by simp [raises]⟩
  | cons act acts ih =>
    obtain ⟨w₁, hstep, hrest⟩ := Runs.exec_cons_eq_some.mp hrun
    obtain ⟨e₁, haccounts⟩ := accounts_of_updateStep hlook hn hstep
    obtain ⟨e', hlook', hn', hsum⟩ := ih haccounts.after haccounts.left hrest
    refine ⟨e', hlook', hn', ?_⟩
    have hbalance := haccounts.balance
    rw [raises, hstep]
    push_cast at hbalance ⊢
    omega

/-- **Extensions are accounted for**: in a run of calls on an entry with `n` extensions every call
keeps account, and at most `n` calls of ordinary users raise the stored expiration, each for one
extension. -/
theorem extension_accounting {k : DbLoc} {acts : List UpdateAct} {w w' : World} {e : DBEntry}
    (hlook : w.db.lookup k = some (.entry e)) (hn : 0 ≤ e.extensions)
    (hrun : Runs.exec updateStep w acts = some w') :
    (∃ e', w'.db.lookup k = some (.entry e') ∧ 0 ≤ e'.extensions ∧
      e'.extensions + (raises k w acts : ℤ) = e.extensions ∧
        ∀ act w'', updateStep w' act = some w'' → ∃ e'', Accounts k w' act w'' e' e'') ∧
      (raises k w acts : ℤ) ≤ e.extensions := by
  obtain ⟨e', hlook', hn', hsum⟩ := balance_run hlook hn hrun
  refine ⟨⟨e', hlook', hn', hsum, fun act w'' hstep => ?_⟩, by omega⟩
  exact accounts_of_updateStep hlook' hn' hstep

/-- The only entry of bob has one extension. -/
def bobLoc : DbLoc := ⟨['w'], .live, wsid bob.username ['x']⟩

/-- He asks for more twice. -/
def askTwice : List UpdateAct :=
  [.useExtension bobLoc false 1000 [] 0 [], .useExtension bobLoc false 2000 [] 0 []]

theorem extension_accounting_twice : ∃ w',
    Runs.exec updateStep (oneWorkspace ['w'] bob.username []) askTwice = some w' ∧
      (raises bobLoc (oneWorkspace ['w'] bob.username []) askTwice : ℤ) ≤ 1 :=
  ⟨_, rfl, (extension_accounting (e := (groupEntry bob.username []).persisted) rfl (by decide) rfl).2⟩

/-! ## Delegates -/

/-- Nothing but the expiration is changed, and that not to an earlier one. -/
structure OnlyExtended (e e' : DBEntry) : Prop where
  /-- the address of the owner -/
  mailaddress : e'.mailaddress = e.mailaddress
  /-- his reminder -/
  reminder : e'.reminder = e.reminder
  /-- his comment -/
  comment : e'.comment = e.comment
  /-- the group -/
  group : e'.group = e.group
  /-- the directory -/
  workspace : e'.workspace = e.workspace
  /-- the owner -/
  username : e'.username = e.username
  /-- the expiration -/
  expiration : e.expiration ≤ e'.expiration

/-- The settings of an entry that a delegate extends are those of the owner. The flag of an entry
that was read says whether it has a group. -/
theorem onlyExtended_of_delegate {config : Config} {c : Caller} {a : AllocArgs} {user_option : Str}
    {env : AllocEnv} {fsconfig : FilesystemConfig} {e e' : DBEntry}
    (hmay : mayModify c user_option = false) (hgroup : e.groupflag = !e.group.isEmpty)
    (hle : e.expiration ≤ e'.expiration)
    (h : extendEntry config c a user_option env fsconfig e = some e') :
    OnlyExtended e e'.persisted := by
  simp only [extendEntry, hmay, Bool.not_false, if_true, ne_eq, not_true_eq_false, if_false] at h
  split at h
  · cases h
  · split at h
    · cases h
    · rw [DBEntry.useExtension] at h
      split at h
      · cases h
      · obtain rfl := Option.some.inj h
        refine ⟨?_, ?_, ?_, ?_, rfl, rfl, hle⟩
        · simp [DBEntry.persisted]
        · simp [DBEntry.persisted]
        · simp [DBEntry.persisted]
        · cases hempty : e.group <;> simp [DBEntry.persisted, hgroup, hempty]

/-- **Delegates.** An extension by an ordinary user who names somebody else changes nothing but the
expiration. It is not earlier than before exactly when none is asked for, or one that is not earlier;
a call that ends with an error changes nothing. -/
theorem delegate_only_extends_iff (config : Config) (c : Caller) (a : AllocArgs) (env : AllocEnv)
    (w : World) {user_option : Str} (hroot : c.isRoot = false) (hext : a.extension = true)
    (hcmd : allocCommandline c a = some user_option) (hne : user_option ≠ [])
    (howner : user_option ≠ c.username) :
    (∀ fs id e e' fsconfig, (wsAllocate config c a env w).2 = .extended fs id e e' →
      config.getFsConfig fs = some fsconfig → e.groupflag = !e.group.isEmpty →
        ∃ stored, (wsAllocate config c a env w).1 = w.writeEntry ⟨fs, .live, id⟩ stored ∧
          (OnlyExtended e stored.persisted ↔
            extendedExpiration config fsconfig c a.duration env.now = -1 ∨
              e.expiration ≤ extendedExpiration config fsconfig c a.duration env.now)) ∧
      ((∀ fs id e e', (wsAllocate config c a env w).2 ≠ .extended fs id e e') →
        (wsAllocate config c a env w).1 = w) := by
  have hmay : mayModify c user_option = false := by simp [mayModify, hroot, hne, howner]
  constructor
  · intro fs id e e' fsconfig hextended hfs hgroup
    obtain ⟨⟨user, fsconfig', hcmd', hfs', hentry⟩, -, hw⟩ := stored_of_extended hextended
    obtain rfl := Option.some.inj (hfs.symm.trans hfs')
    obtain rfl := Option.some.inj (hcmd.symm.trans hcmd')
    have hexp := expiration_of_extendEntry hentry
    refine ⟨e', hw, fun honly => ?_, fun hasked => ?_⟩
    · have hle := honly.expiration
      rw [DBEntry.persisted_expiration, hexp] at hle
      by_cases hasked : extendedExpiration config fsconfig c a.duration env.now = -1
      · exact Or.inl hasked
      · rw [if_pos hasked] at hle
        exact Or.inr hle
    · refine onlyExtended_of_delegate hmay hgroup ?_ hentry
      rw [hexp]
      split
      · rename_i hsome
        exact hasked.resolve_left hsome
      · exact Int.le_refl _
  · intro hno
    rcases wsAllocate_extension_cases config c env w hext with
      hrefused | ⟨fs, id, e, e', hextended⟩
    · rw [hrefused]
    · exact absurd hextended (hno fs id e e')

/-- A group workspace of alice for another month. -/
def aliceWorld : World :=
  World.init.writeEntry ⟨['w'], .live, wsid "alice".toList ['x']⟩
    { groupEntry "alice".toList "users".toList with expiration := 2592000 }

/-- `ws_allocate -x -F w -u alice x <days>` -/
def delegateArgs (days : ℤ) : AllocArgs :=
  { extendArgs ['w'] (some "alice".toList) with duration := days }

/-- Bob, who is in the group, extends it to sixty days. -/
theorem delegate_only_extends_longer : ∃ e stored,
    aliceWorld.db.lookup ⟨['w'], .live, wsid "alice".toList ['x']⟩ = some (.entry e) ∧
      (wsAllocate (.single ['w'] (.ofSpaces ['s'] [])) bob (delegateArgs 60) plainEnv
        aliceWorld).1 = aliceWorld.writeEntry ⟨['w'], .live, wsid "alice".toList ['x']⟩ stored ∧
      OnlyExtended e stored.persisted := by
  obtain ⟨stored, hw, hiff⟩ := (delegate_only_extends_iff (.single ['w'] (.ofSpaces ['s'] [])) bob
    (delegateArgs 60) plainEnv aliceWorld rfl rfl (by decide : _ = some "alice".toList) (by decide)
    (by decide)).1 _ _ _ _ (.ofSpaces ['s'] []) rfl rfl rfl
  exact ⟨_, stored, rfl, hw, hiff.mpr (Or.inr (by decide))⟩

/-- He asks for a day, and the workspace is over its time a day from now. -/
theorem not_delegate_only_extends : ∃ e stored,
    aliceWorld.db.lookup ⟨['w'], .live, wsid "alice".toList ['x']⟩ = some (.entry e) ∧
      (wsAllocate (.single ['w'] (.ofSpaces ['s'] [])) bob (delegateArgs 1) plainEnv
        aliceWorld).1.db.lookup ⟨['w'], .live, wsid "alice".toList ['x']⟩ = some (.entry stored) ∧
      ¬OnlyExtended e stored := by
  refine ⟨_, _, rfl, rfl, fun h => ?_⟩
  exact absurd h.expiration (by decide)

end HpcWorkspace
