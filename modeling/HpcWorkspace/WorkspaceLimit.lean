import HpcWorkspace.Entries
import HpcWorkspace.FoundAgain

/-!
# The limit of workspaces per user

`maxuserworkspaces` limits the workspaces of a user. `allocate` counts the entry files that are
named like those of the caller, in the filesystems that he may list, and refuses the call when
there are more of them than the limit. It does so before it looks whether the call makes a
workspace at all.

So a user gets one workspace more than the limit, and further ones where the count does not see
what he has; while a user may be refused because of files of somebody else, and when he only wants
to extend or to reuse a workspace. The limit holds in all runs in which none of this matters.
-/

namespace HpcWorkspace

/-! ## What a user owns and what is counted -/

namespace World

/-- Is a file a live entry of a user? -/
def owns (w : World) (user : Str) (k : DbLoc) : Bool :=
  k.area == .live &&
    match w.db.lookup k with
    | some (.entry e) => e.username == user
    | _ => false

/-- The number of live workspaces of a user. -/
def owned (w : World) (user : Str) : ℕ := w.db.keys.countP (w.owns user)

/-- Is a file named like a live entry of a user, in a filesystem that he may list and whose
database can be opened? -/
def named (config : Config) (w : World) (user : Str) (groups : List Str) (k : DbLoc) : Bool :=
  (config.validFilesystems user groups .list).contains k.fs && (w.openDB k.fs &&
    (k.area == .live && globMatch (wsid user ['*']) k.id))

/-- The number of his workspaces that are not counted. -/
def hidden (config : Config) (w : World) (user : Str) (groups : List Str) : ℕ :=
  w.db.keys.countP fun k => w.owns user k && !w.named config user groups k

/-- The number of files that are counted and are no workspaces of his. -/
def foreign (config : Config) (w : World) (user : Str) (groups : List Str) : ℕ :=
  w.db.keys.countP fun k => w.named config user groups k && !w.owns user k

end World

section Counting

variable {α : Type} {p q : α → Bool}

theorem countP_or_of_disjoint {l : List α} (h : ∀ x ∈ l, p x = true → q x = false) :
    l.countP (fun x => p x || q x) = l.countP p + l.countP q := by
  induction l with
  | nil => rfl
  | cons x l ih =>
    have hl := ih fun y hy => h y (List.mem_cons_of_mem _ hy)
    have hx := h x (List.mem_cons_self ..)
    simp only [List.countP_cons, hl]
    cases hp : p x with
    | true => simp [hx hp]; omega
    | false => simp; omega

end Counting

variable {config : Config} {w w' : World} {user : Str} {groups : List Str}

/-- The files that `countWorkspaces` counts. -/
theorem countWorkspaces_eq (config : Config) (w : World) (user : Str) (groups : List Str) :
    countWorkspaces config w user groups = w.db.keys.countP (w.named config user groups) := by
  have hsum : ∀ l : List Str, l.Nodup →
      (l.map fun fs => if w.openDB fs then (w.matchPattern fs .live ['*'] user).length else 0).sum =
        w.db.keys.countP fun k => l.contains k.fs && (w.openDB k.fs &&
          (k.area == .live && globMatch (wsid user ['*']) k.id)) := by
    intro l hl
    induction l with
    | nil => simp
    | cons fs l ih =>
      obtain ⟨hnot, hl⟩ := List.nodup_cons.mp hl
      have hone : (if w.openDB fs then (w.matchPattern fs .live ['*'] user).length else 0) =
          w.db.keys.countP fun k => k.fs == fs && (w.openDB k.fs &&
            (k.area == .live && globMatch (wsid user ['*']) k.id)) := by
        split
        · rename_i hopen
          rw [World.matchPattern, World.dirEntries, List.length_map, ← List.countP_eq_length_filter]
          refine List.countP_congr fun k _ => ?_
          by_cases hk : k.fs = fs
          · simp [hk, hopen]
          · simp [hk]
        · rename_i hopen
          symm
          rw [List.countP_eq_zero]
          intro k _
          by_cases hk : k.fs = fs
          · simp [hk, hopen]
          · simp [hk]
      rw [List.map_cons, List.sum_cons, hone, ih hl, ← countP_or_of_disjoint]
      · refine List.countP_congr fun k _ => ?_
        rw [List.contains_cons, Bool.and_or_distrib_right]
      · intro k _ hk
        have hfs : k.fs = fs := beq_iff_eq.mp (Bool.and_eq_true_iff.mp hk).1
        rw [hfs, List.contains_eq_mem, decide_eq_false hnot, Bool.false_and]
  exact hsum _ Config.nodup_validFilesystems

/-- **The count** is wrong by what is hidden and by what is foreign. -/
theorem countWorkspaces_add_hidden (config : Config) (w : World) (user : Str) (groups : List Str) :
    countWorkspaces config w user groups + w.hidden config user groups =
      w.owned user + w.foreign config user groups := by
  have hnamed := List.countP_eq_countP_filter_add w.db.keys (w.named config user groups)
    (w.owns user)
  have howned := List.countP_eq_countP_filter_add w.db.keys (w.owns user)
    (w.named config user groups)
  simp only [List.countP_filter] at hnamed howned
  have hboth : w.db.keys.countP (fun k => w.named config user groups k && w.owns user k) =
      w.db.keys.countP fun k => w.owns user k && w.named config user groups k :=
    List.countP_congr fun k _ => by rw [Bool.and_comm]
  rw [countWorkspaces_eq, World.owned, World.hidden, World.foreign]
  omega

/-! ## What a step does to the number -/

/-- The live workspaces of a user. -/
theorem mem_owned {k : DbLoc} : k ∈ w.db.keys.filter (w.owns user) ↔
    ∃ e, w.db.lookup k = some (.entry e) ∧ k.area = .live ∧ e.username = user := by
  rw [List.mem_filter, World.owns, Bool.and_eq_true, beq_iff_eq]
  constructor
  · rintro ⟨-, harea, huser⟩
    split at huser
    · rename_i e hlook
      exact ⟨e, hlook, harea, beq_iff_eq.mp huser⟩
    · cases huser
  · rintro ⟨e, hlook, harea, huser⟩
    refine ⟨AList.lookup_isSome.mp (by rw [hlook]; rfl), harea, ?_⟩
    rw [hlook]
    exact beq_iff_eq.mpr huser

theorem nodup_owned (w : World) (user : Str) : (w.db.keys.filter (w.owns user)).Nodup :=
  w.db.keys_nodup.filter _

/-- A user whose workspaces are among those he had has no more of them. -/
theorem owned_le_of_subset
    (h : w'.db.keys.filter (w'.owns user) ⊆ w.db.keys.filter (w.owns user)) :
    w'.owned user ≤ w.owned user := by
  rw [World.owned, World.owned, List.countP_eq_length_filter, List.countP_eq_length_filter]
  exact (List.subperm_of_subset (nodup_owned w' user) h).length_le

/-- A step that makes no entry. -/
theorem owned_le_of_inherits (h : Inherits w w') (user : Str) : w'.owned user ≤ w.owned user := by
  refine owned_le_of_subset fun k hk => ?_
  obtain ⟨e', hlook', harea, huser⟩ := mem_owned.mp hk
  obtain ⟨k₀, e, hlook, hsame, hmoved⟩ := h k e' hlook'
  cases hmoved with
  | same => exact mem_owned.mpr ⟨e, hlook, harea, hsame.username.symm.trans huser⟩
  | retired fs id ts => cases harea

section Written

variable {k : DbLoc} {e : DBEntry}

/-- Somebody else's entry makes no difference. -/
theorem owned_writeEntry_ne (w : World) (k : DbLoc) (h : e.username ≠ user) :
    (w.writeEntry k e).owned user ≤ w.owned user := by
  refine owned_le_of_subset fun k' hk' => ?_
  obtain ⟨e', hlook, harea, huser⟩ := mem_owned.mp hk'
  by_cases hk : k' = k
  · subst hk
    rw [World.lookup_writeEntry] at hlook
    obtain rfl := DbFile.entry.inj (Option.some.inj hlook)
    exact absurd huser h
  · rw [World.lookup_writeEntry_ne _ hk] at hlook
    exact mem_owned.mpr ⟨e', hlook, harea, huser⟩

/-- An entry of his is one more at most. -/
theorem owned_writeEntry_le (w : World) (k : DbLoc) (e : DBEntry) (user : Str) :
    (w.writeEntry k e).owned user ≤ w.owned user + 1 := by
  have hsub : (w.writeEntry k e).db.keys.filter ((w.writeEntry k e).owns user) ⊆
      k :: w.db.keys.filter (w.owns user) := by
    intro k' hk'
    obtain ⟨e', hlook, harea, huser⟩ := mem_owned.mp hk'
    by_cases hk : k' = k
    · rw [hk]
      exact List.mem_cons_self ..
    · rw [World.lookup_writeEntry_ne _ hk] at hlook
      exact List.mem_cons_of_mem _ (mem_owned.mpr ⟨e', hlook, harea, huser⟩)
  rw [World.owned, World.owned, List.countP_eq_length_filter, List.countP_eq_length_filter]
  exact (List.subperm_of_subset (nodup_owned _ user) hsub).length_le

/-- An entry in the place of one of his makes no difference. -/
theorem owned_writeEntry_old (e : DBEntry) (hold : w.owns user k = true) :
    (w.writeEntry k e).owned user ≤ w.owned user := by
  refine owned_le_of_subset fun k' hk' => ?_
  obtain ⟨e', hlook, harea, huser⟩ := mem_owned.mp hk'
  by_cases hk : k' = k
  · subst hk
    rw [World.owns, Bool.and_eq_true] at hold
    have hmatch := hold.2
    split at hmatch
    · rename_i e₀ hlook₀
      exact mem_owned.mpr ⟨e₀, hlook₀, harea, beq_iff_eq.mp hmatch⟩
    · cases hmatch
  · rw [World.lookup_writeEntry_ne _ hk] at hlook
    exact mem_owned.mpr ⟨e', hlook, harea, huser⟩

/-- A new live entry of his is one more. -/
theorem owned_writeEntry_new (harea : k.area = .live) (huser : e.username = user)
    (hnew : w.owns user k = false) : w.owned user + 1 ≤ (w.writeEntry k e).owned user := by
  have hnot : k ∉ w.db.keys.filter (w.owns user) := fun hmem => by
    rw [(List.mem_filter.mp hmem).2] at hnew
    cases hnew
  have hsub : k :: w.db.keys.filter (w.owns user) ⊆
      (w.writeEntry k e).db.keys.filter ((w.writeEntry k e).owns user) := by
    intro k' hk'
    rcases List.mem_cons.mp hk' with rfl | hk'
    · exact mem_owned.mpr ⟨e.persisted, World.lookup_writeEntry .., harea, huser⟩
    · obtain ⟨e', hlook, harea', huser'⟩ := mem_owned.mp hk'
      have hk : k' ≠ k := fun heq => hnot (heq ▸ hk')
      exact mem_owned.mpr ⟨e', (World.lookup_writeEntry_ne _ hk).trans hlook, harea', huser'⟩
  rw [World.owned, World.owned, List.countP_eq_length_filter, List.countP_eq_length_filter]
  have hnodup := List.nodup_cons.mpr ⟨hnot, nodup_owned w user⟩
  simpa using (List.subperm_of_subset hnodup hsub).length_le

theorem owned_congr (h : w'.db = w.db) (user : Str) : w'.owned user = w.owned user := by
  have howns : w'.owns user = w.owns user := by
    funext k
    rw [World.owns, World.owns, h]
  rw [World.owned, World.owned, howns, h]

end Written

/-! ## Calls -/

/-- A call that gets as far as the check of the limit. -/
structure ReachesLimit (config : Config) (c : Caller) (a : AllocArgs) (user_option : Str) :
    Prop where
  /-- the command line is accepted -/
  commandline : allocCommandline c a = some user_option
  /-- the caller may create workspaces somewhere -/
  valid : config.validFilesystems c.username c.groups .create ≠ []
  /-- filesystem and group are accepted -/
  fsAndGroup : validateFsAndGroup config c a (validatedUser c user_option) = true

/-- The limit, or the lack of one, lets a call pass. -/
def WithinLimit (config : Config) (c : Caller) (w : World) : Prop :=
  config.global.maxuserworkspaces > 0 →
    (countWorkspaces config w c.username c.groups : ℤ) ≤ config.global.maxuserworkspaces

/-- A call that is refused for the limit. -/
def RefusedForLimit (config : Config) (c : Caller) (a : AllocArgs) (w : World) : Prop :=
  (∃ user_option, ReachesLimit config c a user_option) ∧ ¬WithinLimit config c w

/-- A call that asks for a workspace that is not there. -/
def AsksForNew (config : Config) (c : Caller) (a : AllocArgs) (w : World) : Prop :=
  a.extension = false ∧ ∀ user_option, allocCommandline c a = some user_option →
    findEntries w (allocSearchlist config c a) (allocId c a user_option) = []

/-- What `createWorkspace` needs to get to the entry. -/
structure Made (c : Caller) (a : AllocArgs) (user_option : Str) (env : AllocEnv) : Prop where
  /-- the owner is known -/
  owner : workspaceUid c env user_option ≠ none
  /-- the group is known -/
  group : primarygroup c a ≠ [] → env.groupKnown (primarygroup c a) = true
  /-- the id is accepted -/
  id : checkID (wsid c.username a.name) = true

/-- A call that makes a workspace, unless it is refused for the limit. -/
structure Creates (config : Config) (c : Caller) (a : AllocArgs) (env : AllocEnv) (w : World)
    (user_option fs : Str) : Prop where
  /-- it gets as far as the limit -/
  reaches : ReachesLimit config c a user_option
  /-- the filesystems that are searched are configured -/
  configured : ∀ fs ∈ allocSearchlist config c a, ∃ fsconfig, config.getFsConfig fs = some fsconfig
  /-- it is no extension -/
  create : a.extension = false
  /-- no entry is found -/
  missing : findEntries w (allocSearchlist config c a) (allocId c a user_option) = []
  /-- the filesystem is the first one -/
  first : ∃ rest, allocSearchlist config c a = fs :: rest
  /-- workspaces can be made there -/
  allocatable : ∃ fsconfig, config.getFsConfig fs = some fsconfig ∧ fsconfig.allocatable = true
  /-- its database can be opened -/
  opened : w.openDB fs = true
  /-- directory and entry are made -/
  made : Made c a user_option env
  /-- the entry is not one that he has -/
  fresh : w.owns c.username ⟨fs, .live, wsid c.username a.name⟩ = false

/-- `w'` is `w` with a new entry of a user and what else is made with it. -/
def EntryAdded (user fs id : Str) (w w' : World) : Prop :=
  ∃ (w₁ : World) (e : DBEntry), w₁.db = w.db ∧ e.username = user ∧
    w' = w₁.writeEntry ⟨fs, .live, id⟩ e

section Calls

variable {c : Caller} {a : AllocArgs} {env : AllocEnv} {user_option fs : Str}

/-- `createWorkspace` makes the entry or leaves the database as it is. -/
theorem createWorkspace_cases (config : Config) (c : Caller) (a : AllocArgs) (user_option : Str)
    (env : AllocEnv) (w : World) (fs : Str) (fsconfig : FilesystemConfig) :
    (¬Made c a user_option env ∧
        (createWorkspace config c a user_option env w fs fsconfig).1.db = w.db) ∨
      Made c a user_option env ∧ EntryAdded c.username fs (wsid c.username a.name) w
        (createWorkspace config c a user_option env w fs fsconfig).1 := by
  dsimp only [createWorkspace]
  cases howner : workspaceUid c env user_option with
  | none => exact Or.inl ⟨fun made => made.owner howner, by simp⟩
  | some tuid =>
    dsimp only
    split
    · rename_i hgroup
      refine Or.inl ⟨fun made => ?_, by simp⟩
      rw [made.group hgroup.1] at hgroup
      exact absurd hgroup.2 (by decide)
    · rename_i hgroup
      split
      · rename_i hid
        refine Or.inr ⟨⟨by rw [howner]; nofun, fun hne => ?_, hid⟩, _, _, ?_, ?_, rfl⟩
        · by_contra hunknown
          exact hgroup ⟨hne, by simpa using hunknown⟩
        · simp
        · rfl
      · rename_i hid
        exact Or.inl ⟨fun made => hid made.id, by simp⟩

/-- A call within the limit makes its workspace. -/
theorem Creates.entryAdded (h : Creates config c a env w user_option fs)
    (hwithin : WithinLimit config c w) :
    EntryAdded c.username fs (wsid c.username a.name) w (wsAllocate config c a env w).1 := by
  obtain ⟨rest, hfirst⟩ := h.first
  obtain ⟨fsconfig, hfsconfig, hallocatable⟩ := h.allocatable
  have checks : AllocChecks config c a w user_option :=
    ⟨h.reaches.commandline, h.reaches.valid, h.reaches.fsAndGroup, hwithin, h.configured⟩
  have hchecked : allocateChecked config c a user_option env w =
      createWorkspace config c a user_option env w fs fsconfig := by
    dsimp only [allocateChecked]
    rw [h.missing, h.create, hfirst]
    dsimp only
    rw [hfsconfig]
    dsimp only
    rw [hallocatable, h.opened]
    rfl
  rw [wsAllocate_of_checks checks, hchecked]
  rcases createWorkspace_cases config c a user_option env w fs fsconfig with ⟨hnot, -⟩ | ⟨-, hadded⟩
  · exact absurd h.made hnot
  · exact hadded

/-- **A call of `ws_allocate`** makes no entry, or it overwrites one of the caller, or it is within
the limit and makes a workspace. -/
theorem wsAllocate_owned (config : Config) (c : Caller) (a : AllocArgs) (env : AllocEnv)
    (w : World) :
    (∀ user, (wsAllocate config c a env w).1.owned user ≤ w.owned user) ∨
      (∃ user_option fs, Creates config c a env w user_option fs) ∧ WithinLimit config c w ∧
        ∀ user, (wsAllocate config c a env w).1.owned user ≤
          w.owned user + if user = c.username then 1 else 0 := by
  have hspec := wsAllocate_spec config c a env w
  generalize wsAllocate config c a env w = out at hspec ⊢
  cases hspec with
  | refused | reused => exact Or.inl fun user => Nat.le_refl _
  | extended checks extend found configured entry =>
    exact Or.inl (owned_le_of_inherits
      (.writeEntry (lookup_of_findEntries found) (sameWorkspace_of_extendEntry entry)))
  | @creates user_option fs rest fsconfig checks create missing first configured allocatable opened =>
    rcases createWorkspace_cases config c a user_option env w fs fsconfig with
      ⟨-, hdb⟩ | ⟨made, w₁, e, hdb, huser, heq⟩
    · exact Or.inl (owned_le_of_inherits (.of_db_eq hdb))
    rw [heq]
    have hothers : ∀ user, user ≠ c.username →
        (w₁.writeEntry ⟨fs, .live, wsid c.username a.name⟩ e).owned user ≤ w.owned user := by
      intro user hne
      have hle := owned_writeEntry_ne w₁ ⟨fs, .live, wsid c.username a.name⟩
        (fun heq => hne (heq.symm.trans huser))
      rwa [owned_congr hdb] at hle
    cases hfresh : w.owns c.username ⟨fs, .live, wsid c.username a.name⟩ with
    | true =>
      refine Or.inl fun user => ?_
      by_cases hself : user = c.username
      · subst hself
        have hown : w₁.owns c.username ⟨fs, .live, wsid c.username a.name⟩ = true := by
          rwa [World.owns, hdb, ← World.owns]
        have hle := owned_writeEntry_old e hown
        rwa [owned_congr hdb] at hle
      · exact hothers user hself
    | false =>
      refine Or.inr ⟨⟨user_option, fs, ?_⟩, checks.limit, fun user => ?_⟩
      · exact ⟨⟨checks.commandline, checks.valid, checks.fsAndGroup⟩, checks.configured, create,
          missing, ⟨rest, first⟩, ⟨fsconfig, configured, allocatable⟩, opened, made, hfresh⟩
      · split
        · rename_i hself
          have hle := owned_writeEntry_le w₁ ⟨fs, .live, wsid c.username a.name⟩ e user
          rwa [owned_congr hdb] at hle
        · rename_i hne
          exact hothers user hne

end Calls

/-! ## Runs -/

namespace System

/-- The limit holds of a step: after it no ordinary user owns more live workspaces than the limit,
and what is refused for the limit is a call of a user who owns as many and asks for another one. -/
def LimitHolds (config : Config) (s : System) (act : Action) : Prop :=
  ∀ s', s.step config act = some s' →
    (∀ user, user ≠ "root".toList →
      (s'.world.owned user : ℤ) ≤ config.global.maxuserworkspaces) ∧
    match act with
    | .allocate c a _ => c.username ≠ "root".toList → RefusedForLimit config c a s.world →
        AsksForNew config c a s.world ∧
          config.global.maxuserworkspaces ≤ s.world.owned c.username
    | _ => True

/-- The count of an ordinary user's call does no harm. A call that makes a workspace finds the limit
exceeded if he owns as many as the limit says. A call that finds it exceeded asks for a new
workspace, and he owns as many. -/
def CountsRight (config : Config) (s : System) : Action → Prop
  | .allocate c a env => c.username ≠ "root".toList →
      (s.step config (.allocate c a env)).isSome = true →
        let m := config.global.maxuserworkspaces
        let own : ℤ := s.world.owned c.username
        let hidden : ℤ := s.world.hidden config c.username c.groups
        let foreign : ℤ := s.world.foreign config c.username c.groups
        (∀ user_option fs, Creates config c a env s.world user_option fs → m ≤ own →
          m + hidden < own + foreign) ∧
        ∀ user_option, ReachesLimit config c a user_option → m + hidden < own + foreign →
          AsksForNew config c a s.world ∧ m ≤ own
  | _ => True

/-- No ordinary user owns more than the limit. -/
def WithinLimits (config : Config) (s : System) : Prop :=
  ∀ user, user ≠ "root".toList → (s.world.owned user : ℤ) ≤ config.global.maxuserworkspaces

section

variable {s s' : System} {act : Action}

/-- The world after a call of `ws_allocate`. -/
theorem world_of_allocate {c : Caller} {a : AllocArgs} {env : AllocEnv}
    (h : s.step config (.allocate c a env) = some s') :
    s'.world = (wsAllocate config c a env s.world).1 := by
  dsimp only [System.step] at h
  split at h
  · rw [← Option.some.inj h]
  · cases h

/-- The check, with what is hidden and what is foreign. -/
theorem withinLimit_iff (hmax : 0 < config.global.maxuserworkspaces) (c : Caller) (w : World) :
    WithinLimit config c w ↔
      ¬(config.global.maxuserworkspaces + (w.hidden config c.username c.groups : ℤ) <
        w.owned c.username + w.foreign config c.username c.groups) := by
  have hcount := countWorkspaces_add_hidden config w c.username c.groups
  unfold WithinLimit
  constructor
  · intro h
    have hle := h hmax
    omega
  · intro h _
    omega

/-- **Step lemma.** -/
theorem WithinLimits.step (hmax : 0 < config.global.maxuserworkspaces) (hs : s.WithinLimits config)
    (hright : s.CountsRight config act) (h : s.step config act = some s') :
    s'.WithinLimits config := by
  by_cases hact : ∀ c a env, act ≠ .allocate c a env
  · intro user huser
    have hle := owned_le_of_inherits (inherits_of_step hact h) user
    have hlimit := hs user huser
    omega
  · push Not at hact
    obtain ⟨c, a, env, rfl⟩ := hact
    intro user huser
    have hlimit := hs user huser
    rw [world_of_allocate h]
    rcases wsAllocate_owned config c a env s.world with hle | ⟨⟨user_option, fs, hcreates⟩,
      hwithin, hle⟩
    · have hle := hle user
      omega
    · have hle := hle user
      split at hle
      · rename_i hself
        subst hself
        have hcounts := (hright huser (by rw [h]; rfl)).1 user_option fs hcreates
        rw [withinLimit_iff hmax] at hwithin
        omega
      · omega

/-- **What the limit needs** of a step. -/
theorem limitHolds_of_countsRight (hmax : 0 < config.global.maxuserworkspaces)
    (hs : s.WithinLimits config) (hright : s.CountsRight config act) :
    s.LimitHolds config act := by
  intro s' h
  refine ⟨hs.step hmax hright h, ?_⟩
  cases act with
  | allocate c a env =>
    rintro hroot ⟨⟨user_option, hreaches⟩, hrefused⟩
    rw [withinLimit_iff hmax, not_not] at hrefused
    exact (hright hroot (by rw [h]; rfl)).2 user_option hreaches hrefused
  | _ => trivial

/-- A step of which the limit holds counts right. -/
theorem countsRight_of_limitHolds (hmax : 0 < config.global.maxuserworkspaces)
    (hholds : s.LimitHolds config act) : s.CountsRight config act := by
  cases act with
  | allocate c a env =>
    intro hroot henabled
    obtain ⟨s', h⟩ := Option.isSome_iff_exists.mp henabled
    obtain ⟨hafter, hrefuses⟩ := hholds s' h
    refine ⟨fun user_option fs hcreates hmany => ?_, fun user_option hreaches hover => ?_⟩
    · by_contra hnot
      -- the call makes one more
      obtain ⟨w₁, e, hdb, huser, heq⟩ := hcreates.entryAdded ((withinLimit_iff hmax c _).mpr hnot)
      have hfresh : w₁.owns c.username ⟨fs, .live, wsid c.username a.name⟩ = false := by
        rw [World.owns, hdb, ← World.owns]
        exact hcreates.fresh
      have hmore := owned_writeEntry_new rfl huser hfresh
      have hlimit := hafter c.username hroot
      rw [owned_congr hdb] at hmore
      rw [world_of_allocate h, heq] at hlimit
      omega
    · refine hrefuses hroot ⟨⟨user_option, hreaches⟩, ?_⟩
      rw [withinLimit_iff hmax, not_not]
      exact hover
  | _ => trivial

end

/-- **The limit of workspaces per user** holds of all steps of a run exactly when the counts do no
harm in any of them. -/
theorem limitHolds_iff (config : Config) (hmax : 0 < config.global.maxuserworkspaces) (clock : ℤ)
    (acts : List Action) :
    Runs.Meets (step config) (LimitHolds config) (.init clock) acts ↔
      Runs.Meets (step config) (CountsRight config) (.init clock) acts := by
  have hinit : (init clock).WithinLimits config := by
    intro user _
    exact Int.le_of_lt hmax
  constructor
  · intro hmeets
    exact hmeets.imp (fun _ _ _ (_ : True) _ _ => trivial)
      (fun _ _ _ hholds => countsRight_of_limitHolds hmax hholds) trivial
  · intro hmeets
    refine hmeets.imp (fun s act s' hs hright h => hs.step hmax hright h) ?_ hinit
    exact fun s act hs hright => limitHolds_of_countsRight hmax hs hright

/-- One workspace per user. -/
def limitOne : Config :=
  { plainConfig with global := { plainConfig.global with maxuserworkspaces := 1 } }

/-- `bob` makes a workspace. -/
def bobCreates (name : Str) : Action :=
  .allocate bob { createArgs none with name := name } bobEnv

/-- So does `bob-y`, whose workspaces are counted for `bob`. -/
def bobyCreates (name : Str) : Action :=
  .allocate (ordinary 1001 "bob-y".toList) { createArgs none with name := name } bobEnv

/-- The first workspace of `bob` is no problem, and the second one is refused. -/
theorem limitHolds_refused :
    Runs.Meets (step limitOne) (LimitHolds limitOne) (.init 0)
        [bobCreates ['x'], bobyCreates ['z'], bobCreates ['y']] ∧
      ∃ s, Runs.exec (step limitOne) (.init 0)
          [bobCreates ['x'], bobyCreates ['z'], bobCreates ['y']] = some s ∧
        s.world.owned "bob".toList = 1 ∧ s.world.owned "bob-y".toList = 1 := by
  refine ⟨(limitHolds_iff limitOne (by decide) 0 _).mpr (.cons ?_ rfl (.cons ?_ rfl
    (.cons ?_ rfl trivial))), _, rfl, by decide, by decide⟩
  · exact fun _ _ => ⟨fun _ _ _ hmany => absurd hmany (by decide),
      fun _ _ hover => absurd hover (by decide)⟩
  · exact fun _ _ => ⟨fun _ _ _ hmany => absurd hmany (by decide),
      fun _ _ hover => absurd hover (by decide)⟩
  · -- two are counted
    exact fun _ _ => ⟨fun _ _ _ _ => by decide, fun _ _ _ => ⟨⟨rfl, by decide⟩, by decide⟩⟩

/-- With a limit of one he gets two. -/
theorem not_limitHolds :
    (¬∀ (config : Config) (clock : ℤ) (acts : List Action), 0 < config.global.maxuserworkspaces →
      Runs.Meets (step config) (LimitHolds config) (.init clock) acts) ∧
      ∃ s, Runs.exec (step limitOne) (.init 0) [bobCreates ['x'], bobCreates ['y']] = some s ∧
        s.world.owned "bob".toList = 2 := by
  refine ⟨fun h => ?_, _, rfl, by decide⟩
  have hmeets := h limitOne 0 ([bobCreates ['x']] ++ [bobCreates ['y']]) (by decide)
  have hlast : LimitHolds limitOne _ (bobCreates ['y']) := hmeets.of_exec rfl
  exact absurd ((hlast _ rfl).1 "bob".toList (by decide)) (by decide)

end System

end HpcWorkspace
