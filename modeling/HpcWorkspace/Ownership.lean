import HpcWorkspace.Entries
import HpcWorkspace.FoundAgain
import Mathlib.Data.Set.Insert

/-!
# Whose entries the tools act on

An id is the user's name, a dash and the workspace's name, and the tools look entries up by id
without comparing the user stored in the entry. Dashes are allowed on both sides, so the look-up
separates users exactly when no user's name is another one's followed by a dash and a workspace
name. `ws_restore` takes the name of a deleted entry and compares its beginning with the caller's
name and a dash.
-/

namespace HpcWorkspace

variable {config : Config} {c : Caller} {w : World} {U : Set Str}

/-- The user of an entry, if it has one, is the caller. -/
def Own (c : Caller) (e : DBEntry) : Prop := e.username = [] ∨ e.username = c.username

/-! ## Ids of different users -/

/-- No user's name is another one's, a dash and a workspace name. -/
def DashFree (U : Set Str) : Prop :=
  ∀ u ∈ U, ∀ v ∈ U, ∀ m, isValidWorkspaceName m = true → u ≠ wsid v m

/-- Ids determine the user and the workspace. -/
def SeparateIds (U : Set Str) : Prop :=
  ∀ u ∈ U, ∀ v ∈ U, ∀ n m, isValidWorkspaceName n = true → isValidWorkspaceName m = true →
    wsid u n = wsid v m → u = v ∧ n = m

/-- What stands before a dash in a valid name is a valid name. -/
theorem isValidWorkspaceName_prefix {m n : Str} (h : isValidWorkspaceName (m ++ '-' :: n) = true) :
    isValidWorkspaceName m = true := by
  cases m with
  | nil =>
    rw [List.nil_append, isValidWorkspaceName, Bool.and_eq_true] at h
    exact absurd h.1 (by decide)
  | cons d ds =>
    rw [List.cons_append, isValidWorkspaceName, Bool.and_eq_true, List.all_append,
      Bool.and_eq_true] at h
    rw [isValidWorkspaceName, Bool.and_eq_true]
    exact ⟨h.1, h.2.1⟩

theorem DashFree.separateIds (h : DashFree U) : SeparateIds U := by
  intro u hu v hv n m hn hm heq
  rcases Dashed.append_sep_eq heq with hsame | ⟨k, hk, hn'⟩ | ⟨k, hk, hm'⟩
  · exact hsame
  · have hvalid : isValidWorkspaceName k = true := isValidWorkspaceName_prefix (hn' ▸ hn)
    exact absurd hk (h v hv u hu k hvalid)
  · have hvalid : isValidWorkspaceName k = true := isValidWorkspaceName_prefix (hm' ▸ hm)
    exact absurd hk (h u hu v hv k hvalid)

/-- A name in front of a valid one makes it a valid name again. -/
theorem isValidWorkspaceName_append {m n : Str} (hm : isValidWorkspaceName m = true)
    (hn : isValidWorkspaceName n = true) : isValidWorkspaceName (m ++ '-' :: n) = true := by
  cases m with
  | nil => cases hm
  | cons d ds =>
    rw [isValidWorkspaceName, Bool.and_eq_true] at hm
    rw [List.cons_append, isValidWorkspaceName, Bool.and_eq_true, List.all_append,
      Bool.and_eq_true, List.all_cons, Bool.and_eq_true]
    exact ⟨hm.1, hm.2, by decide, List.all_eq_true.mpr fun x hx => isNameChar_of_mem hn hx⟩

theorem SeparateIds.dashFree (h : SeparateIds U) : DashFree U := by
  intro u hu v hv m hm heq
  have hx : isValidWorkspaceName ['x'] = true := by decide
  -- `u` and `x` make the same id as `v` and the longer name
  have hid : wsid u ['x'] = wsid v (m ++ '-' :: ['x']) := by
    rw [heq, wsid, wsid, wsid, List.append_assoc, List.cons_append]
  obtain ⟨-, hname⟩ := h u hu v hv _ _ hx (isValidWorkspaceName_append hm hx) hid
  have hlen := congrArg List.length hname
  rw [List.length_append, List.length_cons] at hlen
  simp only [List.length_cons, List.length_nil] at hlen
  omega

/-! ## Allocate and release -/

/-- A call of `ws_allocate` acts on an entry of the caller, or makes one where none can be read. -/
def AllocResult.OnOwn (c : Caller) (w : World) : AllocResult → Prop
  | .reused _ _ e => Own c e
  | .extended _ _ e _ => Own c e
  | .created fs id _ => w.readEntry fs .live id = none
  | _ => True

/-- A call of `ws_release` acts on an entry of the caller. -/
def ReleaseResult.OnOwn (c : Caller) : ReleaseResult → Prop
  | .released _ _ e _ _ => Own c e
  | .deleted _ _ e => Own c e
  | .refused => True

/-- **Isolation** of a step: without `-u`, an ordinary user's call acts on his entries. -/
def Isolated (config : Config) (s : System) : Action → Prop
  | .allocate c a env => c.NonRoot → a.user = none →
      (wsAllocate config c a env s.world).2.OnOwn c s.world
  | .release c a env => c.NonRoot → a.user = none → (wsRelease config c a env s.world).2.OnOwn c
  | _ => True

/-- The tools are called by users of a set. -/
def Action.ByUsers (U : Set Str) : Action → Prop
  | .allocate c _ _ => c.username ∈ U
  | .release c _ _ => c.username ∈ U
  | .restore c _ _ => c.username ∈ U
  | _ => True

/-- An entry is named after its user; the rest of a live entry's name is a workspace name. -/
structure NamedAfter (U : Set Str) (k : DbLoc) (e : DBEntry) : Prop where
  /-- the user is known -/
  user : e.username ∈ U
  /-- the name -/
  id : ∃ rest, k.id = wsid e.username rest ∧ (k.area = .live → isValidWorkspaceName rest = true)

theorem namedAfter_hereditary (U : Set Str) : Hereditary (NamedAfter U) where
  same hsame h := by
    obtain ⟨rest, hid, hrest⟩ := h.id
    exact ⟨hsame.username ▸ h.user, rest, by rw [hsame.username, hid], hrest⟩
  retired h := by
    rename_i fs id ts e
    obtain ⟨rest, hid, -⟩ := h.id
    refine ⟨h.user, rest ++ '-' :: fmtLong ts, ?_, nofun⟩
    dsimp only at hid ⊢
    rw [hid, deletedName, wsid, wsid, List.append_assoc, List.cons_append]

/-- Every step keeps the names. -/
theorem namedAfter_step {s s' : System} {act : Action} (hs : s.world.Entries (NamedAfter U))
    (hact : act.ByUsers U) (h : s.step config act = some s') :
    s'.world.Entries (NamedAfter U) := by
  refine (namedAfter_hereditary U).step hs h ?_
  rintro c a env fs fsconfig user_option rfl - hcmd -
  exact ⟨hact, a.name, rfl, fun _ => (allocCommandline_eq_some.mp hcmd).1⟩

theorem namedAfter_init (U : Set Str) (clock : ℤ) :
    (System.init clock).world.Entries (NamedAfter U) := by
  intro k e hlook
  rw [System.init, World.init, AList.lookup_empty] at hlook
  cases hlook

/-- The entry under an id of the caller is his. -/
theorem own_of_lookup (hU : SeparateIds U) (hw : w.Entries (NamedAfter U)) (hc : c.username ∈ U)
    {fs name : Str} {e : DBEntry} (hname : isValidWorkspaceName name = true)
    (hlook : w.db.lookup ⟨fs, .live, wsid c.username name⟩ = some (.entry e)) : Own c e := by
  obtain ⟨huser, rest, hid, hrest⟩ := hw _ _ hlook
  exact Or.inr (hU _ hc _ huser _ _ hname (hrest rfl) hid).1.symm

theorem wsAllocate_onOwn (hU : SeparateIds U) (hw : w.Entries (NamedAfter U))
    (hc : c.username ∈ U) {a : AllocArgs} (env : AllocEnv) (huser : a.user = none) :
    (wsAllocate config c a env w).2.OnOwn c w := by
  have hself : ∀ {user_option : Str}, AllocChecks config c a w user_option →
      user_option = [] ∧ isValidWorkspaceName a.name = true := by
    intro user_option checks
    obtain ⟨hname, hopt, -⟩ := allocCommandline_eq_some.mp checks.commandline
    rw [huser] at hopt
    exact ⟨hopt, hname⟩
  have hspec := wsAllocate_spec config c a env w
  generalize wsAllocate config c a env w = out at hspec ⊢
  cases hspec with
  | refused => exact trivial
  | reused checks create found =>
    obtain ⟨rfl, hname⟩ := hself checks
    rw [allocId_self (Or.inl rfl)] at found ⊢
    exact own_of_lookup hU hw hc hname (lookup_of_findEntries found)
  | extended checks extend found =>
    obtain ⟨rfl, hname⟩ := hself checks
    rw [allocId_self (Or.inl rfl)] at found ⊢
    exact own_of_lookup hU hw hc hname (lookup_of_findEntries found)
  | creates checks create missing first configured allocatable opened =>
    rename_i user_option fs rest fsconfig
    obtain ⟨rfl, hname⟩ := hself checks
    have hmade := createWorkspace_spec config c a [] env w fs fsconfig
    generalize createWorkspace config c a [] env w fs fsconfig = out at hmade ⊢
    cases hmade with
    | crashed | invalid => exact trivial
    | created hdir hid =>
      rw [AllocResult.OnOwn, hid]
      by_contra hsome
      obtain ⟨e, he⟩ := Option.ne_none_iff_exists'.mp hsome
      have hmem : (fs, e) ∈ findEntries w (allocSearchlist config c a) (allocId c a []) :=
        mem_findEntries.mpr ⟨first ▸ List.mem_cons_self .., opened,
          by rwa [allocId_self (Or.inl rfl)]⟩
      rw [missing] at hmem
      cases hmem

theorem wsRelease_onOwn (hU : SeparateIds U) (hw : w.Entries (NamedAfter U))
    (hc : c.username ∈ U) (hroot : c.NonRoot) {a : ReleaseArgs} (env : ReleaseEnv) :
    (wsRelease config c a env w).2.OnOwn c := by
  have hfound : ∀ {user_option fs : Str} {e : DBEntry},
      releaseCommandline c a = some user_option →
        releaseFind config c a user_option w = some (fs, e) → Own c e := by
    intro user_option fs e hcmd hfind
    obtain rfl := user_option_of_release (isRoot_of_nonRoot hroot) hcmd
    have hlook := lookup_of_findEntries (releaseFind_eq_some hfind).2.1
    rw [releaseId_self (Or.inl rfl)] at hlook
    exact own_of_lookup hU hw hc (releaseCommandline_eq_some.mp hcmd).1 hlook
  have hspec := wsRelease_spec config c a env w
  generalize wsRelease config c a env w = out at hspec ⊢
  cases hspec with
  | refused => exact trivial
  | deleted commandline found => exact hfound commandline found
  | released commandline found => exact hfound commandline found

/-- **Isolation of users.** Ids determine user and workspace, and in every run all calls of
ordinary users without `-u` act on their own entries, exactly when no user's name is another one's
followed by a dash and a workspace name. -/
theorem isolated_iff_dashFree (U : Set Str) :
    (SeparateIds U ∧ ∀ (config : Config) (clock : ℤ) (acts : List Action),
      (∀ act ∈ acts, act.ByUsers U) →
        Runs.Meets (System.step config) (Isolated config) (System.init clock) acts) ↔
      DashFree U := by
  constructor
  · exact fun h => h.1.dashFree
  · intro hU
    refine ⟨hU.separateIds, fun config clock acts hacts => ?_⟩
    refine Runs.Meets.of_invariant (P := Action.ByUsers U)
      (fun s act s' hs hact hstep => namedAfter_step hs hact hstep) (fun s act hs hact => ?_)
      (namedAfter_init U clock) hacts
    cases act with
    | allocate c a env => exact fun _ huser => wsAllocate_onOwn hU.separateIds hs hact env huser
    | release c a env => exact fun hroot _ => wsRelease_onOwn hU.separateIds hs hact hroot env
    | _ => exact trivial

/-- A user whose name is another one's, a dash and a name. -/
def userAB : Caller := ordinary 1001 "a-b".toList

/-- The other one. -/
def userA : Caller := ordinary 1000 ['a']

/-- `userAB` allocates `x`, and `userA` releases `b-x`. -/
def foreignRelease : List Action :=
  [.allocate userAB (createArgs none) bobEnv,
    .release userA ⟨"b-x".toList, none, none, false⟩ ⟨100, 100, .ok⟩]

/-- The release is one of the workspace of `userAB`. -/
theorem not_isolated : ¬∀ U : Set Str,
    SeparateIds U ∧ ∀ (config : Config) (clock : ℤ) (acts : List Action),
      (∀ act ∈ acts, act.ByUsers U) →
        Runs.Meets (System.step config) (Isolated config) (System.init clock) acts := by
  intro h
  have hmeets := (h {userA.username, userAB.username}).2 plainConfig 0 foreignRelease (by
    intro act hact
    rcases List.mem_cons.mp hact with rfl | hact
    · exact Or.inr rfl
    · obtain rfl := List.mem_singleton.mp hact
      exact Or.inl rfl)
  have hown : Own userA (newEntry plainConfig userAB (createArgs none) bobEnv (.ofSpaces ['s'] [])
      ⟨['s'], "a-b-x".toList⟩) := (hmeets.2 _ rfl).1 ⟨by decide, by decide⟩ rfl
  rcases hown with hown | hown <;> exact absurd hown (by decide)

end HpcWorkspace
