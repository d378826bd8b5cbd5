import HpcWorkspace.Access
import HpcWorkspace.Entries

/-!
# Durations and expirations

`ws_allocate` turns a number of days into seconds before it adds them to the clock. The product is
one of 32-bit integers, the sum is not. So an expiration is exact as long as the days, after they
were cut to what is allowed, are fewer than 24856; a longer time wraps, and can end before it
begins.
-/

namespace HpcWorkspace

/-! ## What is allowed -/

/-- The longest duration for a new workspace. -/
def creationLimit (config : Config) (fsconfig : FilesystemConfig) : ℤ :=
  if fsconfig.maxduration > 0 then fsconfig.maxduration else config.global.durationdefault

/-- The duration an extension is made for, after it was cut to what is allowed. -/
def extensionDuration (config : Config) (fsconfig : FilesystemConfig) (c : Caller) (duration : ℤ) :
    ℤ :=
  let limit := configduration config fsconfig
  if !c.isRoot ∧ (duration > limit ∨ duration < 0) then limit else duration

/-- The expiration is exact: so many days from now; not in the past, and within the limit for
ordinary users. -/
structure ExactExpiration (isRoot : Bool) (limit now duration expiration : ℤ) : Prop where
  /-- in exact integers -/
  exact : expiration = now + 86400 * duration
  /-- no workspace is over its time when it is made -/
  notBefore : 0 ≤ duration → now ≤ expiration
  /-- the allowed maximum -/
  limited : isRoot = false → expiration ≤ now + 86400 * limit

/-- The seconds of so many days fit into an `int`. -/
def FitsInt (duration : ℤ) : Prop := -2 ^ 31 ≤ 86400 * duration ∧ 86400 * duration < 2 ^ 31

instance (duration : ℤ) : Decidable (FitsInt duration) := inferInstanceAs (Decidable (_ ∧ _))

theorem int32_eq_self_iff {z : ℤ} : int32 z = z ↔ -2 ^ 31 ≤ z ∧ z < 2 ^ 31 := by
  constructor
  · intro h
    have hle : -((2 ^ 32 : ℕ) / 2 : ℤ) ≤ z.bmod (2 ^ 32) := Int.le_bmod (by decide)
    have hlt : z.bmod (2 ^ 32) < ((2 ^ 32 : ℕ) + 1) / 2 := Int.bmod_lt (by decide)
    rw [int32] at h
    omega
  · intro h
    exact Int.bmod_eq_of_le (by omega) (by omega)

/-- The sum is exact when the product is. -/
theorem add_int32_eq_iff (now : ℤ) {duration : ℤ} :
    now + int32 (duration * 24 * 3600) = now + 86400 * duration ↔ FitsInt duration := by
  have hmul : duration * 24 * 3600 = 86400 * duration := by omega
  rw [hmul, add_right_inj, int32_eq_self_iff, FitsInt]

variable {config : Config} {fsconfig : FilesystemConfig} {c : Caller}

/-- What is left after the cut is within the limit. -/
theorem validateDuration_le {duration : ℤ} (hc : c.isRoot = false) :
    validateDuration config fsconfig c duration ≤ creationLimit config fsconfig := by
  rw [validateDuration, hc, ← creationLimit]
  split
  · exact Int.le_refl _
  · rename_i hcut
    simp only [Bool.not_false, true_and, not_or] at hcut
    exact Int.not_lt.mp hcut.1

theorem extensionDuration_le {duration : ℤ} (hc : c.isRoot = false) :
    extensionDuration config fsconfig c duration ≤ configduration config fsconfig := by
  rw [extensionDuration, hc]
  split
  · exact Int.le_refl _
  · rename_i hcut
    simp only [Bool.not_false, true_and, not_or] at hcut
    exact Int.not_lt.mp hcut.1

/-- The rest follows from the exact sum. -/
theorem ExactExpiration.of_exact {isRoot : Bool} {limit now duration expiration : ℤ}
    (h : expiration = now + 86400 * duration) (hle : isRoot = false → duration ≤ limit) :
    ExactExpiration isRoot limit now duration expiration where
  exact := h
  notBefore hduration := by omega
  limited hroot := by
    have := hle hroot
    omega

/-! ## The two computations -/

theorem extendedExpiration_of_ne {duration now : ℤ} (h : duration ≠ 0) :
    extendedExpiration config fsconfig c duration now =
      now + int32 (extensionDuration config fsconfig c duration * 24 * 3600) := by
  rw [extendedExpiration, if_pos h]
  rfl

/-- The expiration of a new entry. -/
theorem newEntry_exact_iff {a : AllocArgs} {env : AllocEnv} {wsdir : WsPath} :
    ExactExpiration c.isRoot (creationLimit config fsconfig) env.now
        (validateDuration config fsconfig c a.duration)
        (newEntry config c a env fsconfig wsdir).persisted.expiration ↔
      FitsInt (validateDuration config fsconfig c a.duration) := by
  rw [DBEntry.persisted_expiration, newEntry, ← add_int32_eq_iff env.now]
  constructor
  · exact fun h => h.exact
  · exact fun h => .of_exact h fun hroot => validateDuration_le hroot

/-- What `useExtension` leaves for an expiration. -/
theorem expiration_of_useExtension {e e' : DBEntry} {isRoot : Bool} {expiration reminder : ℤ}
    {mailaddress comment : Str}
    (h : e.useExtension isRoot expiration mailaddress reminder comment = some e') :
    e'.expiration = if expiration ≠ -1 then expiration else e.expiration := by
  rw [DBEntry.useExtension] at h
  split at h
  · cases h
  · rw [← Option.some.inj h]

theorem expiration_of_extendEntry {a : AllocArgs} {user_option : Str} {env : AllocEnv}
    {e e' : DBEntry} (h : extendEntry config c a user_option env fsconfig e = some e') :
    e'.expiration =
      if extendedExpiration config fsconfig c a.duration env.now ≠ -1 then
        extendedExpiration config fsconfig c a.duration env.now
      else e.expiration := by
  dsimp only [extendEntry] at h
  split at h
  · cases h
  · split at h
    · cases h
    · exact expiration_of_useExtension h

/-- A creation leaves the new entry in its file. -/
theorem stored_of_created {a : AllocArgs} {env : AllocEnv} {w : World} {fs id : Str} {e : DBEntry}
    (h : (wsAllocate config c a env w).2 = .created fs id e) :
    (∃ fsconfig wsdir, config.getFsConfig fs = some fsconfig ∧
      e = newEntry config c a env fsconfig wsdir) ∧
      (wsAllocate config c a env w).1.db.lookup ⟨fs, .live, id⟩ = some (.entry e.persisted) := by
  have hspec := wsAllocate_spec config c a env w
  generalize wsAllocate config c a env w = out at h hspec ⊢
  cases hspec with
  | creates checks create missing first configured allocatable opened =>
    rename_i user_option fs' rest fsconfig
    have hmade := createWorkspace_spec config c a user_option env w fs' fsconfig
    generalize createWorkspace config c a user_option env w fs' fsconfig = out at h hmade ⊢
    cases hmade with
    | crashed | invalid => cases h
    | created hdir hid he owner valid =>
      obtain ⟨rfl, rfl, rfl⟩ := AllocResult.created.inj h
      exact ⟨⟨fsconfig, _, configured, he⟩, World.lookup_writeEntry ..⟩
  | _ => cases h

/-- An extension updates the entry that was found. -/
theorem stored_of_extended {a : AllocArgs} {env : AllocEnv} {w : World} {fs id : Str}
    {e e' : DBEntry} (h : (wsAllocate config c a env w).2 = .extended fs id e e') :
    (∃ user_option fsconfig, allocCommandline c a = some user_option ∧
      config.getFsConfig fs = some fsconfig ∧
        extendEntry config c a user_option env fsconfig e = some e') ∧
      w.db.lookup ⟨fs, .live, id⟩ = some (.entry e) ∧
        (wsAllocate config c a env w).1 = w.writeEntry ⟨fs, .live, id⟩ e' := by
  have hspec := wsAllocate_spec config c a env w
  generalize wsAllocate config c a env w = out at h hspec ⊢
  cases hspec with
  | extended checks extend found configured entry =>
    obtain ⟨rfl, rfl, rfl, rfl⟩ := AllocResult.extended.inj h
    exact ⟨⟨_, _, checks.commandline, configured, entry⟩, lookup_of_findEntries found, rfl⟩
  | creates checks create missing first configured allocatable opened =>
    rename_i user_option fs' rest fsconfig
    rcases createWorkspace_result config c a user_option env w fs' fsconfig with
      hmade | ⟨id', e', hmade⟩ <;> cases hmade.symm.trans h
  | _ => cases h

/-! ## The result -/

/-- Is the expiration of an extension exact? When one is asked for, the seconds have to fit. None is
asked for with a duration of zero, and when the sum is -1; then the old expiration stays. -/
def ExtendsExactly (config : Config) (fsconfig : FilesystemConfig) (c : Caller) (duration now : ℤ)
    (e : DBEntry) : Prop :=
  if extendedExpiration config fsconfig c duration now ≠ -1 then
    FitsInt (extensionDuration config fsconfig c duration)
  else e.expiration = now + 86400 * extensionDuration config fsconfig c duration

/-- **Durations.** The stored expiration is exact when the seconds of the duration that was allowed
fit into an `int`, and only then. -/
theorem durations_exact_iff (config : Config) (c : Caller) (a : AllocArgs) (env : AllocEnv)
    (w : World) :
    (∀ fs id e fsconfig, (wsAllocate config c a env w).2 = .created fs id e →
      config.getFsConfig fs = some fsconfig →
        ∃ stored, (wsAllocate config c a env w).1.db.lookup ⟨fs, .live, id⟩ =
            some (.entry stored) ∧
          (ExactExpiration c.isRoot (creationLimit config fsconfig) env.now
              (validateDuration config fsconfig c a.duration) stored.expiration ↔
            FitsInt (validateDuration config fsconfig c a.duration))) ∧
      ∀ fs id e e' fsconfig, (wsAllocate config c a env w).2 = .extended fs id e e' →
        config.getFsConfig fs = some fsconfig →
          ∃ stored, (wsAllocate config c a env w).1.db.lookup ⟨fs, .live, id⟩ =
              some (.entry stored) ∧
            (ExactExpiration c.isRoot (configduration config fsconfig) env.now
                (extensionDuration config fsconfig c a.duration) stored.expiration ↔
              ExtendsExactly config fsconfig c a.duration env.now e) := by
  constructor
  · intro fs id e fsconfig hcreated hfs
    obtain ⟨⟨fsconfig', wsdir, hfs', rfl⟩, hstored⟩ := stored_of_created hcreated
    obtain rfl := Option.some.inj (hfs.symm.trans hfs')
    exact ⟨_, hstored, newEntry_exact_iff⟩
  · intro fs id e e' fsconfig hextended hfs
    obtain ⟨⟨user_option, fsconfig', -, hfs', hentry⟩, -, hw⟩ := stored_of_extended hextended
    obtain rfl := Option.some.inj (hfs.symm.trans hfs')
    refine ⟨e'.persisted, by rw [hw, World.lookup_writeEntry], ?_⟩
    have hle : c.isRoot = false → extensionDuration config fsconfig c a.duration ≤
        configduration config fsconfig := fun hroot => extensionDuration_le hroot
    rw [DBEntry.persisted_expiration, expiration_of_extendEntry hentry, ExtendsExactly]
    split
    · rename_i hasked
      have hne : a.duration ≠ 0 := by
        intro hzero
        rw [extendedExpiration, if_neg (not_not.mpr hzero)] at hasked
        exact hasked rfl
      rw [extendedExpiration_of_ne hne, ← add_int32_eq_iff env.now]
      exact ⟨fun h => h.exact, fun h => .of_exact h hle⟩
    · exact ⟨fun h => h.exact, fun h => .of_exact h hle⟩

/-- `ws_allocate x <days>` -/
def allocArgs (days : ℤ) : AllocArgs := { extendArgs ['w'] none with extension := false, duration := days }

/-- A month is exact. -/
theorem durations_exact_month : ∃ stored,
    (wsAllocate (.single ['w'] (.ofSpaces ['s'] [])) bob (allocArgs 30) plainEnv .init).1.db.lookup
        ⟨['w'], .live, wsid bob.username ['x']⟩ = some (.entry stored) ∧
      ExactExpiration bob.isRoot 100 0 30 stored.expiration := by
  obtain ⟨stored, hstored, hiff⟩ := (durations_exact_iff (.single ['w'] (.ofSpaces ['s'] [])) bob
    (allocArgs 30) plainEnv .init).1 _ _ _ (.ofSpaces ['s'] []) rfl rfl
  exact ⟨stored, hstored, hiff.mpr (by decide)⟩

/-- Root makes a workspace for a hundred years, which is over its time at once. -/
theorem not_durations_exact : ∃ stored,
    (wsAllocate (.single ['w'] (.ofSpaces ['s'] [])) (ordinary 0 "root".toList) (allocArgs 36500)
        plainEnv .init).1.db.lookup ⟨['w'], .live, wsid "root".toList ['x']⟩ =
      some (.entry stored) ∧
      stored.expiration < 0 ∧ ¬ExactExpiration true 100 0 36500 stored.expiration := by
  refine ⟨_, rfl, by decide, fun h => ?_⟩
  have hexact := h.exact
  exact absurd hexact (by decide)

end HpcWorkspace
