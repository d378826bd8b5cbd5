import Mathlib.Order.Basic
import HpcWorkspace.Access

/-!
# `spaceselection: mostspace`

The loop keeps the best space so far and starts with space 0 and no bytes, whether or not space 0
can be reached. A space has to have more bytes than that to be taken. So an unreachable space is
used when it is the first one and no reachable space has a byte left.
-/

namespace HpcWorkspace

/-! ## The loop -/

/-- What the loop can end with. -/
inductive MostspaceSpec (statfs : Str → Option ℕ) (spaces : List Str) (i : ℕ) (best : ℕ × ℕ) :
    ℕ → Prop where
  /-- no space has more than the best one so far -/
  | kept (le : ∀ space ∈ spaces, ∀ bytes ∈ statfs space, bytes ≤ best.2) :
      MostspaceSpec statfs spaces i best best.1
  /-- the first of the spaces that have most -/
  | found {k bytes : ℕ} {space : Str} (hk : spaces[k]? = some space)
      (hbytes : statfs space = some bytes) (lt : best.2 < bytes)
      (le : ∀ other ∈ spaces, ∀ bytes' ∈ statfs other, bytes' ≤ bytes)
      (first : ∀ j < k, ∀ other ∈ spaces[j]?, ∀ bytes' ∈ statfs other, bytes' < bytes) :
      MostspaceSpec statfs spaces i best (i + k)

theorem MostspaceSpec.cons {statfs : Str → Option ℕ} {space : Str} {spaces : List Str} {i n : ℕ}
    {best : ℕ × ℕ} (h : MostspaceSpec statfs spaces (i + 1) best n)
    (hspace : ∀ bytes ∈ statfs space, bytes ≤ best.2) :
    MostspaceSpec statfs (space :: spaces) i best n := by
  cases h with
  | kept le => exact .kept (List.forall_mem_cons.2 ⟨hspace, le⟩)
  | @found k bytes _ hk hbytes lt le first =>
    rw [Nat.add_assoc, Nat.add_comm 1]
    have hle : ∀ bytes' ∈ statfs space, bytes' ≤ bytes := fun bytes' h =>
      (hspace bytes' h).trans lt.le
    refine .found (k := k + 1) hk hbytes lt (List.forall_mem_cons.2 ⟨hle, le⟩) fun j hj => ?_
    cases j with
    | zero =>
      intro other hother bytes' hbytes'
      cases hother
      exact (hspace bytes' hbytes').trans_lt lt
    | succ j => exact first j (by omega)

/-- **Inversion** for the loop of `mostspace`. -/
theorem mostspace_spec (statfs : Str → Option ℕ) (spaces : List Str) (i : ℕ) (best : ℕ × ℕ) :
    MostspaceSpec statfs spaces i best (mostspace statfs spaces i best) := by
  induction spaces generalizing i best with
  | nil => exact .kept fun _ h => absurd h List.not_mem_nil
  | cons space spaces ih =>
    rw [mostspace]
    split
    · rename_i hnone
      exact (ih _ _).cons fun bytes h => by rw [hnone] at h; cases h
    rename_i bytes hsome
    have hself : ∀ bytes' ∈ statfs space, bytes' = bytes := fun bytes' h =>
      (Option.mem_unique hsome h).symm
    split
    · rename_i hgt
      have hrest := ih (i + 1) (i, bytes)
      generalize mostspace statfs spaces (i + 1) (i, bytes) = n at hrest
      cases hrest with
      | kept le =>
        refine .found (k := 0) rfl hsome hgt ?_ fun j hj => absurd hj (Nat.not_lt_zero j)
        exact List.forall_mem_cons.2 ⟨fun bytes' h => (hself bytes' h).le, le⟩
      | @found k bytes₂ other hk hbytes lt le first =>
        have hlt : ∀ bytes' ∈ statfs space, bytes' < bytes₂ := fun bytes' h =>
          (hself bytes' h).trans_lt lt
        rw [Nat.add_assoc, Nat.add_comm 1]
        refine .found (k := k + 1) hk hbytes (hgt.trans lt)
          (List.forall_mem_cons.2 ⟨fun bytes' h => (hlt bytes' h).le, le⟩) fun j hj => ?_
        cases j with
        | zero =>
          intro other hother
          cases hother
          exact hlt
        | succ j => exact first j (by omega)
    · rename_i hle
      exact (ih _ _).cons fun bytes' h => (hself bytes' h).trans_le (Nat.le_of_not_gt hle)

/-! ## The space that is used -/

/-- What `statfs` reports of a filesystem it reaches. -/
structure StatfsAnswer where
  /-- `f_bsize` -/
  f_bsize : ℕ
  /-- `f_bavail` -/
  f_bavail : ℕ
  /-- the product is a number of 64 bits -/
  fits : f_bsize * f_bavail < 2 ^ 64

/-- The bytes available to users. -/
def StatfsAnswer.available (answer : StatfsAnswer) : ℕ := answer.f_bsize * answer.f_bavail

/-- `free_bytes`, a number of 64 bits -/
def StatfsAnswer.free_bytes (answer : StatfsAnswer) : ℕ :=
  answer.f_bsize * answer.f_bavail % 2 ^ 64

@[simp]
theorem StatfsAnswer.free_bytes_eq (answer : StatfsAnswer) : answer.free_bytes = answer.available :=
  Nat.mod_eq_of_lt answer.fits

/-- A call of `ws_allocate` for which `statfs` gives these answers. -/
def AllocEnv.withStatfs (env : AllocEnv) (answer : Str → Option StatfsAnswer) : AllocEnv :=
  { env with statfs := fun space => (answer space).map StatfsAnswer.free_bytes }

/-- A space is reachable, no reachable one has more bytes, and no earlier one has as many. -/
def IsMostSpace (spaces : List Str) (answer : Str → Option StatfsAnswer) (space : Str) : Prop :=
  ∃ (k : ℕ) (best : StatfsAnswer), spaces[k]? = some space ∧ answer space = some best ∧
    (∀ other ∈ spaces, ∀ a ∈ answer other, a.available ≤ best.available) ∧
    ∀ j < k, ∀ other ∈ spaces[j]?, ∀ a ∈ answer other, a.available < best.available

/-- The first space answers, or some space has bytes left. -/
def SpaceLeft (spaces : List Str) (answer : Str → Option StatfsAnswer) : Prop :=
  (∃ space ∈ spaces.head?, (answer space).isSome) ∨
    ∃ space ∈ spaces, ∃ a ∈ answer space, 0 < a.available

theorem mostspace_isMostSpace_iff {spaces : List Str} {answer : Str → Option StatfsAnswer}
    (hne : spaces ≠ []) :
    IsMostSpace spaces answer
        (spaces.getD (mostspace (fun space => (answer space).map StatfsAnswer.free_bytes) spaces 0
          (0, 0)) []) ↔ SpaceLeft spaces answer := by
  obtain ⟨space₀, rest, rfl⟩ := List.exists_cons_of_ne_nil hne
  have hspec := mostspace_spec (fun space => (answer space).map StatfsAnswer.free_bytes)
    (space₀ :: rest) 0 (0, 0)
  generalize mostspace (fun space => (answer space).map StatfsAnswer.free_bytes) (space₀ :: rest) 0
    (0, 0) = n at hspec ⊢
  cases hspec with
  | kept le =>
    have hzero : ∀ other ∈ space₀ :: rest, ∀ a ∈ answer other, a.available ≤ 0 := by
      intro other hother a ha
      rw [← a.free_bytes_eq]
      exact le other hother _ (Option.mem_map_of_mem _ ha)
    constructor
    · rintro ⟨k, best, -, hbest, -⟩
      exact Or.inl ⟨space₀, rfl, by rw [show answer space₀ = some best from hbest]; rfl⟩
    · rintro (⟨space, hspace, hsome⟩ | ⟨space, hspace, a, ha, hpos⟩)
      · cases hspace
        obtain ⟨best, hbest⟩ := Option.isSome_iff_exists.1 hsome
        exact ⟨0, best, rfl, hbest, fun other hother a ha =>
          (hzero other hother a ha).trans (Nat.zero_le _), fun j hj => absurd hj (Nat.not_lt_zero j)⟩
      · exact absurd (hzero space hspace a ha) (Nat.not_le.2 hpos)
  | @found k bytes space hk hbytes lt le first =>
    obtain ⟨best, hbest, rfl⟩ := Option.map_eq_some_iff.1 hbytes
    rw [best.free_bytes_eq] at lt le first
    have hspace : (space₀ :: rest).getD (0 + k) [] = space := by
      rw [Nat.zero_add, List.getD_eq_getElem?_getD, hk]
      rfl
    rw [hspace]
    refine iff_of_true ⟨k, best, hk, hbest, fun other hother a ha => ?_, fun j hj other hother a ha =>
      ?_⟩ (Or.inr ⟨space, List.mem_of_getElem? hk, best, hbest, lt⟩)
    · rw [← a.free_bytes_eq]
      exact le other hother _ (Option.mem_map_of_mem _ ha)
    · rw [← a.free_bytes_eq]
      exact first j hj other hother _ (Option.mem_map_of_mem _ ha)

theorem workspaceDir_space (fsconfig : FilesystemConfig) (c : Caller) (env : AllocEnv)
    (user_option name : Str) : (workspaceDir fsconfig c env user_option name).space =
      fsconfig.spaces.getD (selectSpace fsconfig c env) [] := by
  dsimp only [workspaceDir]
  split
  · rfl
  split
  · rfl
  · rfl

/-- **`mostspace` uses a usable space** if and only if the first one can be reached or some reachable
one has a byte left. -/
theorem createWorkspace_mostspace_iff (fsconfig : FilesystemConfig) (c : Caller) (env : AllocEnv)
    (answer : Str → Option StatfsAnswer) (user_option name : Str)
    (hselection : fsconfig.spaceselection = "mostspace".toList)
    (hspaces : 2 ≤ fsconfig.spaces.length) :
    IsMostSpace fsconfig.spaces answer
        (workspaceDir fsconfig c (env.withStatfs answer) user_option name).space ↔
      SpaceLeft fsconfig.spaces answer := by
  have hselect : selectSpace fsconfig c (env.withStatfs answer) =
      mostspace (fun space => (answer space).map StatfsAnswer.free_bytes) fsconfig.spaces 0
        (0, 0) := by
    dsimp only [selectSpace]
    rw [if_pos (by omega), hselection]
    rfl
  rw [workspaceDir_space, hselect]
  exact mostspace_isMostSpace_iff fsconfig.spaces_ne

/-- A filesystem with a space `s` and a space `t`. -/
def mostSpaceOfTwo : FilesystemConfig :=
  { FilesystemConfig.ofSpaces ['s'] [['t']] with spaceselection := "mostspace".toList }

/-- The space `s` is gone; of `t` so many blocks are available. -/
def onlySecond (blocks : ℕ) (h : 4096 * blocks < 2 ^ 64) (space : Str) : Option StatfsAnswer :=
  if space = ['t'] then some ⟨4096, blocks, h⟩ else none

theorem createWorkspace_mostspace_block :
    IsMostSpace mostSpaceOfTwo.spaces (onlySecond 1 (by decide))
      (workspaceDir mostSpaceOfTwo bob (plainEnv.withStatfs (onlySecond 1 (by decide))) []
        ['x']).space :=
  (createWorkspace_mostspace_iff mostSpaceOfTwo bob plainEnv (onlySecond 1 (by decide)) [] ['x'] rfl
    (by decide)).2 (Or.inr ⟨['t'], by decide, ⟨4096, 1, by decide⟩, rfl, by decide⟩)

/-- The gone space is used when the other one is full. -/
theorem createWorkspace_mostspace_full :
    (∃ space ∈ mostSpaceOfTwo.spaces, (onlySecond 0 (by decide) space).isSome) ∧
      ¬IsMostSpace mostSpaceOfTwo.spaces (onlySecond 0 (by decide))
        (workspaceDir mostSpaceOfTwo bob (plainEnv.withStatfs (onlySecond 0 (by decide))) []
          ['x']).space := by
  refine ⟨⟨['t'], by decide, rfl⟩, ?_⟩
  rintro ⟨k, best, -, hbest, -⟩
  have hspace : (workspaceDir mostSpaceOfTwo bob
      (plainEnv.withStatfs (onlySecond 0 (by decide))) [] ['x']).space = ['s'] := by
    decide
  rw [hspace] at hbest
  cases hbest

end HpcWorkspace
