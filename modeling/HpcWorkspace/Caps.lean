import Mathlib.Data.List.Basic

/-!
# Privileges

The tools run with the rights of the caller and take the ones they need for a short time: as
set-uid programs by changing the effective identity, or, when they are linked with libcap and
installed with capabilities, by raising capabilities that `drop_caps` has left in the permitted
set. `Cap` hides both from the tools.

The process is modelled with what the system calls involved read and change. A set-uid process is
privileged when its effective uid is 0; none of its calls touches the capability sets.
-/

namespace HpcWorkspace

/-! ## System calls -/

/-- `cap_value_t` -/
inductive Capability where
  | chown
  | dacOverride
  | dacReadSearch
  | fowner
  | sysAdmin
  deriving DecidableEq

/-- Why a system call fails. -/
inductive Errno where
  /-- lack of privilege -/
  | EPERM
  /-- an argument that means nothing -/
  | EINVAL
  deriving DecidableEq

/-- `(uid_t)-1`, which is nobody's -/
def invalidId : UInt32 := 0xffffffff

/-- What a process is allowed to do. -/
structure Proc where
  /-- real uid -/
  ruid : UInt32
  /-- effective uid -/
  euid : UInt32
  /-- saved uid -/
  suid : UInt32
  /-- real gid -/
  rgid : UInt32
  /-- effective gid -/
  egid : UInt32
  /-- saved gid -/
  sgid : UInt32
  /-- supplementary groups -/
  groups : List UInt32
  /-- permitted capabilities -/
  permitted : List Capability
  /-- effective capabilities -/
  effective : List Capability
  deriving DecidableEq

/-- `seteuid` -/
def seteuid (p : Proc) (uid : UInt32) : Except Errno Proc :=
  if uid = invalidId then .error .EINVAL
  else if p.euid = 0 ∨ uid = p.ruid ∨ uid = p.euid ∨ uid = p.suid then .ok { p with euid := uid }
  else .error .EPERM

/-- `setegid` -/
def setegid (p : Proc) (gid : UInt32) : Except Errno Proc :=
  if gid = invalidId then .error .EINVAL
  else if p.euid = 0 ∨ gid = p.rgid ∨ gid = p.egid ∨ gid = p.sgid then .ok { p with egid := gid }
  else .error .EPERM

/-- Groups a process can have: `NGROUPS_MAX` of them at most. -/
def GroupsOk (groups : List UInt32) : Prop := groups.length ≤ 65536 ∧ invalidId ∉ groups

instance (groups : List UInt32) : Decidable (GroupsOk groups) :=
  inferInstanceAs (Decidable (_ ∧ _))

/-- `setgroups` -/
def setgroups (p : Proc) (groups : List UInt32) : Except Errno Proc :=
  if p.euid ≠ 0 then .error .EPERM
  else if GroupsOk groups then .ok { p with groups := groups }
  else .error .EINVAL

/-- `cap_set_proc`: nothing is added to the permitted set, and only what is permitted becomes
effective. -/
def cap_set_proc (p : Proc) (permitted effective : List Capability) : Except Errno Proc :=
  if permitted ⊆ p.permitted ∧ effective ⊆ permitted then
    .ok { p with permitted := permitted, effective := effective }
  else .error .EPERM

/-! ## The class `Cap` -/

/-- `GroupsMode`: which supplementary groups to set when changing identity. -/
inductive GroupsMode where
  /-- leave current groups untouched -/
  | Keep
  /-- no supplementary groups -/
  | Clear
  /-- the groups of the calling user -/
  | Restore
  deriving DecidableEq

/-- `Cap` -/
structure Cap where
  /-- capabilities are used -/
  hascaps : Bool
  /-- the set-uid identity is used -/
  issetuid : Bool
  /-- uid of the calling user -/
  user_uid : UInt32
  /-- gid of the calling user -/
  user_gid : UInt32
  /-- supplementary groups of the calling user -/
  user_groups : List UInt32
  /-- uid of the DB user -/
  db_uid : UInt32
  /-- gid of the DB user -/
  db_gid : UInt32
  /-- was `setDbIdentity` called? -/
  db_identity_set : Bool
  deriving DecidableEq

namespace Cap

/-- The constructor; `libcap` tells whether the program is linked with it. Capabilities are used
when `CAP_DAC_OVERRIDE` can be made effective. -/
def new (libcap : Bool) (p : Proc) : Cap where
  hascaps := p.ruid == p.euid && libcap && p.permitted.contains .dacOverride
  issetuid := p.ruid != p.euid
  user_uid := p.ruid
  user_gid := p.rgid
  user_groups := p.groups
  db_uid := 0
  db_gid := 0
  db_identity_set := false

/-- The `switch` over the groups in `set_identity`. -/
def set_groups (cap : Cap) (p : Proc) : GroupsMode → Except Errno Proc
  | .Clear => setgroups p []
  | .Restore => setgroups p cap.user_groups
  | .Keep => .ok p

/-- `set_identity`; an error is the `exit` after a system call that fails. -/
def set_identity (cap : Cap) (p : Proc) (euid egid : UInt32) (groups : GroupsMode) :
    Except Errno Proc :=
  if !cap.issetuid then .ok p
  else do
    let p ← seteuid p 0
    let p ← cap.set_groups p groups
    let p ← setegid p egid
    seteuid p euid

/-- `setDbIdentity` -/
def setDbIdentity (cap : Cap) (dbuid dbgid : UInt32) : Cap :=
  { cap with db_uid := dbuid, db_gid := dbgid, db_identity_set := true }

/-- `become_root` -/
def become_root (cap : Cap) (p : Proc) : Except Errno Proc := cap.set_identity p 0 0 .Keep

/-- `become_db`; without a DB identity the process ends, which counts as a wrong argument. -/
def become_db (cap : Cap) (p : Proc) : Except Errno Proc :=
  if !cap.issetuid then .ok p
  else if !cap.db_identity_set then .error .EINVAL
  else cap.set_identity p cap.db_uid cap.db_gid .Clear

/-- `become_caller` -/
def become_caller (cap : Cap) (p : Proc) : Except Errno Proc :=
  cap.set_identity p cap.user_uid cap.user_gid .Restore

/-- `drop_caps` -/
def drop_caps (cap : Cap) (p : Proc) (capabilities : List Capability) (uid : UInt32) :
    Except Errno Proc := do
  let p ← if cap.hascaps then cap_set_proc p capabilities [] else .ok p
  if cap.issetuid then
    -- become the calling user again: euid, egid and supplementary groups
    cap.set_identity p uid cap.user_gid .Restore
  else .ok p

/-- `lower_cap` -/
def lower_cap (cap : Cap) (p : Proc) (capabilities : List Capability) (uid : UInt32) :
    Except Errno Proc := do
  let p ← if cap.hascaps then
      cap_set_proc p p.permitted (p.effective.filter fun c => !capabilities.contains c)
    else .ok p
  if cap.issetuid then
    if cap.db_identity_set then
      -- lowered state is the DB identity
      cap.set_identity p cap.db_uid cap.db_gid .Clear
    else seteuid p uid
  else .ok p

/-- `raise_cap` -/
def raise_cap (cap : Cap) (p : Proc) (capabilities : List Capability) : Except Errno Proc := do
  let p ← if cap.hascaps then cap_set_proc p p.permitted (p.effective ++ capabilities) else .ok p
  if cap.issetuid then cap.become_root p else .ok p

end Cap

/-- The calls after `drop_caps`. -/
inductive CapCall where
  | setDbIdentity (dbuid dbgid : UInt32)
  | raise_cap (capabilities : List Capability)
  | lower_cap (capabilities : List Capability) (uid : UInt32)
  | become_db
  | become_caller
  | become_root
  deriving DecidableEq

/-- One call. -/
def capCall (s : Cap × Proc) : CapCall → Except Errno (Cap × Proc)
  | .setDbIdentity dbuid dbgid => .ok (s.1.setDbIdentity dbuid dbgid, s.2)
  | .raise_cap capabilities => do return (s.1, ← s.1.raise_cap s.2 capabilities)
  | .lower_cap capabilities uid => do return (s.1, ← s.1.lower_cap s.2 capabilities uid)
  | .become_db => do return (s.1, ← s.1.become_db s.2)
  | .become_caller => do return (s.1, ← s.1.become_caller s.2)
  | .become_root => do return (s.1, ← s.1.become_root s.2)

/-- `drop_caps` with the uid of the caller, and the calls after it. -/
def capRun (libcap : Bool) (p : Proc) (capabilities : List Capability) (calls : List CapCall) :
    Except Errno (Cap × Proc) := do
  let p' ← (Cap.new libcap p).drop_caps p capabilities p.ruid
  calls.foldlM capCall (Cap.new libcap p, p')

/-! ## Set-uid processes -/

/-- A set-uid-root program at its start, in SUID mode: root itself is not a set-uid caller, and
uses capabilities when the program knows them. -/
structure SetuidRoot (libcap : Bool) (p : Proc) : Prop where
  /-- the program runs as root -/
  euid : p.euid = 0
  /-- and can become root again -/
  suid : p.suid = 0
  /-- it is not set-gid -/
  egid : p.egid = p.rgid
  /-- it does not run in capability mode -/
  mode : p.ruid ≠ 0 ∨ libcap = false
  /-- the ids of a process are valid -/
  ruid_valid : p.ruid ≠ invalidId
  rgid_valid : p.rgid ≠ invalidId
  groups_valid : GroupsOk p.groups

/-- The DB identities that are set in a sequence of calls; the tools set one. -/
def dbIdentities (calls : List CapCall) : List (UInt32 × UInt32) :=
  calls.filterMap fun call =>
    match call with
    | .setDbIdentity dbuid dbgid => some (dbuid, dbgid)
    | _ => none

/-- Calls that need the DB identity. -/
def CapCall.NeedsDb : CapCall → Prop
  | .lower_cap _ _ => True
  | .become_db => True
  | _ => False

/-- `setDbIdentity` comes before the first call that needs the identity. -/
def SetFirst (calls : List CapCall) : Prop :=
  ∀ before call after, calls = before ++ call :: after → call.NeedsDb → dbIdentities before ≠ []

/-- Root, a DB identity without supplementary groups, or the caller with his own ones. -/
def OneIdentity (start p : Proc) (ids : List (UInt32 × UInt32)) : Prop :=
  (p.euid = 0 ∧ p.egid = 0) ∨
    ((p.euid, p.egid) ∈ ids ∧ p.groups = []) ∨
    (p.euid = start.ruid ∧ p.egid = start.rgid ∧ p.groups = start.groups)

/-- What holds between two calls. -/
structure IdentityInv (start : Proc) (ids : List (UInt32 × UInt32)) (cap : Cap) (p : Proc) :
    Prop where
  /-- SUID mode, or root without libcap -/
  hascaps : cap.hascaps = false
  /-- the identity of the caller is kept -/
  user_uid : cap.user_uid = start.ruid
  user_gid : cap.user_gid = start.rgid
  user_groups : cap.user_groups = start.groups
  /-- the saved uid stays 0 -/
  suid : p.suid = 0
  /-- the identity is one of the three -/
  identity : OneIdentity start p ids
  /-- the DB identity is one that was set -/
  db : cap.db_identity_set = true → (cap.db_uid, cap.db_gid) ∈ ids
  db_set : ids ≠ [] → cap.db_identity_set = true

/-- A call has kept the invariant, or an identity that was set is nobody's. -/
def IdentityKept (start : Proc) (ids : List (UInt32 × UInt32)) :
    Except Errno (Cap × Proc) → Prop
  | .ok s => IdentityInv start ids s.1 s.2
  | .error e => e = .EINVAL ∧ ∃ id ∈ ids, id.1 = invalidId ∨ id.2 = invalidId

/-- The groups after a change of the identity. -/
def GroupsMode.groups (mode : GroupsMode) (cap : Cap) (p : Proc) : List UInt32 :=
  match mode with
  | .Keep => p.groups
  | .Clear => []
  | .Restore => cap.user_groups

variable {libcap : Bool} {start p : Proc} {cap : Cap} {ids : List (UInt32 × UInt32)}

/-! Without capabilities only the identity is changed. -/

theorem Cap.raise_cap_eq (hcaps : cap.hascaps = false) (capabilities : List Capability) :
    cap.raise_cap p capabilities = if cap.issetuid then cap.become_root p else .ok p := by
  rw [raise_cap, hcaps]
  rfl

theorem Cap.lower_cap_eq (hcaps : cap.hascaps = false) (capabilities : List Capability)
    (uid : UInt32) :
    cap.lower_cap p capabilities uid =
      if cap.issetuid then
        if cap.db_identity_set then cap.set_identity p cap.db_uid cap.db_gid .Clear
        else seteuid p uid
      else .ok p := by
  rw [lower_cap, hcaps]
  rfl

theorem Cap.drop_caps_eq (hcaps : cap.hascaps = false) (capabilities : List Capability)
    (uid : UInt32) :
    cap.drop_caps p capabilities uid =
      if cap.issetuid then cap.set_identity p uid cap.user_gid .Restore else .ok p := by
  rw [drop_caps, hcaps]
  rfl

/-- **The saved uid is enough**: as long as it is 0, all parts of the identity can be changed. -/
theorem Cap.set_identity_eq (hset : cap.issetuid = true) (hsuid : p.suid = 0)
    (hgroups : GroupsOk cap.user_groups) (euid egid : UInt32) (mode : GroupsMode) :
    cap.set_identity p euid egid mode =
      if egid = invalidId ∨ euid = invalidId then .error .EINVAL
      else .ok { p with euid := euid, egid := egid, groups := mode.groups cap p } := by
  have hroot : seteuid p 0 = .ok { p with euid := 0 } := by
    simp [seteuid, hsuid, show (0 : UInt32) ≠ invalidId by decide]
  have hmode : cap.set_groups { p with euid := 0 } mode =
      .ok { p with euid := 0, groups := mode.groups cap p } := by
    have hnil : GroupsOk [] := by decide
    cases mode <;> simp [set_groups, setgroups, hnil, hgroups, GroupsMode.groups]
  simp only [set_identity, hset, Bool.not_true, Bool.false_eq_true, if_false, hroot, bind,
    Except.bind, hmode]
  by_cases hegid : egid = invalidId
  · simp [setegid, hegid]
  · by_cases heuid : euid = invalidId
    · simp [setegid, seteuid, hegid, heuid]
    · simp [setegid, seteuid, hegid, heuid]

/-- A change of the identity that ends in one of the three. -/
theorem IdentityInv.set_identity (h : IdentityInv start ids cap p) (hgroups : GroupsOk start.groups)
    {euid egid : UInt32} {mode : GroupsMode}
    (hvalid : egid = invalidId ∨ euid = invalidId → (euid, egid) ∈ ids)
    (hid : OneIdentity start { p with euid := euid, egid := egid, groups := mode.groups cap p } ids) :
    IdentityKept start ids (do return (cap, ← cap.set_identity p euid egid mode)) := by
  cases hset : cap.issetuid with
  | false =>
    simpa [Cap.set_identity, hset, IdentityKept, bind, Except.bind, pure, Except.pure] using h
  | true =>
    rw [Cap.set_identity_eq hset h.suid (h.user_groups ▸ hgroups)]
    split
    · rename_i hinvalid
      exact ⟨rfl, _, hvalid hinvalid, hinvalid.symm⟩
    · exact { h with identity := hid }

theorem OneIdentity.mono {ids' : List (UInt32 × UInt32)} (h : OneIdentity start p ids)
    (hsub : ids ⊆ ids') : OneIdentity start p ids' := by
  rcases h with hroot | ⟨hdb, hgroups⟩ | hcaller
  · exact Or.inl hroot
  · exact Or.inr (Or.inl ⟨hsub hdb, hgroups⟩)
  · exact Or.inr (Or.inr hcaller)

/-- The DB identity is one of the three. -/
theorem IdentityInv.set_db (h : IdentityInv start ids cap p) (hgroups : GroupsOk start.groups)
    (hset : cap.db_identity_set = true) :
    IdentityKept start ids (do return (cap, ← cap.set_identity p cap.db_uid cap.db_gid .Clear)) := by
  apply h.set_identity hgroups
  · intro _
    exact h.db hset
  · exact Or.inr (Or.inl ⟨h.db hset, rfl⟩)

/-- Root is one of the three. -/
theorem IdentityInv.set_root (h : IdentityInv start ids cap p) (hgroups : GroupsOk start.groups) :
    IdentityKept start ids (do return (cap, ← cap.become_root p)) := by
  apply h.set_identity hgroups
  · rintro (hinvalid | hinvalid) <;> cases hinvalid
  · exact Or.inl ⟨rfl, rfl⟩

/-- The caller is one of the three. -/
theorem IdentityInv.set_caller (h : IdentityInv start ids cap p) (hstart : SetuidRoot libcap start) :
    IdentityKept start ids (do return (cap, ← cap.become_caller p)) := by
  apply h.set_identity hstart.groups_valid
  · rintro (hinvalid | hinvalid)
    · exact absurd (h.user_gid.symm.trans hinvalid) hstart.rgid_valid
    · exact absurd (h.user_uid.symm.trans hinvalid) hstart.ruid_valid
  · exact Or.inr (Or.inr ⟨h.user_uid, h.user_gid, h.user_groups⟩)

/-- **One call** keeps the invariant. -/
theorem IdentityInv.call (h : IdentityInv start ids cap p) (hstart : SetuidRoot libcap start)
    (call : CapCall) (hneeds : call.NeedsDb → ids ≠ []) :
    IdentityKept start (ids ++ dbIdentities [call]) (capCall (cap, p) call) := by
  cases call with
  | setDbIdentity dbuid dbgid =>
    exact { h with
      identity := h.identity.mono (List.subset_append_left ..)
      db := fun _ => List.mem_append_right _ (List.mem_singleton_self _)
      db_set := fun _ => rfl }
  | raise_cap capabilities =>
    rw [show dbIdentities [.raise_cap capabilities] = [] from rfl, List.append_nil]
    simp only [capCall, Cap.raise_cap_eq h.hascaps]
    split
    · exact h.set_root hstart.groups_valid
    · exact h
  | lower_cap capabilities uid =>
    rw [show dbIdentities [.lower_cap capabilities uid] = [] from rfl, List.append_nil]
    have hdb := h.db_set (hneeds trivial)
    simp only [capCall, Cap.lower_cap_eq h.hascaps, if_pos hdb]
    split
    · exact h.set_db hstart.groups_valid hdb
    · exact h
  | become_db =>
    rw [show dbIdentities [.become_db] = [] from rfl, List.append_nil]
    have hdb := h.db_set (hneeds trivial)
    simp only [capCall, Cap.become_db, hdb, Bool.not_true, Bool.false_eq_true, if_false]
    split
    · exact h
    · exact h.set_db hstart.groups_valid hdb
  | become_caller =>
    rw [show dbIdentities [.become_caller] = [] from rfl, List.append_nil]
    exact h.set_caller hstart
  | become_root =>
    rw [show dbIdentities [.become_root] = [] from rfl, List.append_nil]
    exact h.set_root hstart.groups_valid

/-- `drop_caps` makes the process the caller again. -/
theorem drop_caps_inv (hstart : SetuidRoot libcap start) (capabilities : List Capability) :
    IdentityKept start [] (do
      return (Cap.new libcap start,
        ← (Cap.new libcap start).drop_caps start capabilities start.ruid)) := by
  have hcaps : (Cap.new libcap start).hascaps = false := by
    rcases hstart.mode with hruid | hlib
    · simp [Cap.new, hstart.euid, hruid]
    · simp [Cap.new, hlib]
  have hinv : ∀ p : Proc, p.suid = 0 → p.euid = start.ruid → p.egid = start.rgid →
      p.groups = start.groups → IdentityInv start [] (Cap.new libcap start) p := by
    intro p hsuid heuid hegid hgroups
    exact {
      hascaps := hcaps
      user_uid := rfl
      user_gid := rfl
      user_groups := rfl
      suid := hsuid
      identity := Or.inr (Or.inr ⟨heuid, hegid, hgroups⟩)
      db := nofun
      db_set := fun hne => absurd rfl hne }
  rw [Cap.drop_caps_eq hcaps]
  split
  · rename_i hset
    rw [Cap.set_identity_eq hset hstart.suid hstart.groups_valid, if_neg]
    · exact hinv _ hstart.suid rfl rfl rfl
    · rintro (hinvalid | hinvalid)
      · exact hstart.rgid_valid hinvalid
      · exact hstart.ruid_valid hinvalid
  · rename_i hset
    have hsame : start.ruid = start.euid := by simpa [Cap.new] using hset
    exact hinv start hstart.suid hsame.symm hstart.egid rfl

theorem dbIdentities_append (calls calls' : List CapCall) :
    dbIdentities (calls ++ calls') = dbIdentities calls ++ dbIdentities calls' :=
  List.filterMap_append ..

/-- **A run** of calls keeps the invariant: by induction on the calls still to come. -/
theorem calls_inv (hstart : SetuidRoot libcap start) (before calls : List CapCall) {s : Cap × Proc}
    (hfirst : SetFirst (before ++ calls)) (h : IdentityInv start (dbIdentities before) s.1 s.2) :
    IdentityKept start (dbIdentities (before ++ calls)) (calls.foldlM capCall s) := by
  induction calls generalizing before s with
  | nil =>
    rw [List.append_nil]
    exact h
  | cons call calls ih =>
    have hcall := h.call hstart call fun hneeds => hfirst before call calls rfl hneeds
    rw [← dbIdentities_append] at hcall
    rw [List.foldlM_cons]
    cases hres : capCall s call with
    | error e =>
      rw [hres] at hcall
      obtain ⟨he, id, hid, hinvalid⟩ := hcall
      refine ⟨he, id, ?_, hinvalid⟩
      rw [List.append_cons, dbIdentities_append]
      exact List.mem_append_left _ hid
    | ok s' =>
      rw [hres] at hcall
      have hrest := ih (before ++ [call]) (by simpa using hfirst) hcall
      rw [List.append_assoc] at hrest
      exact hrest

/-- **Identities are never mixed.** For a set-uid process of any caller and every sequence of calls
after `drop_caps` that sets the DB identity before it is needed: after each call the identity is
root's, the DB user's without supplementary groups, or the caller's with his own groups, and the
saved uid is 0. No call fails for lack of privilege; only an id that is nobody's is refused. -/
theorem identities_never_mixed (libcap : Bool) (start : Proc) (hstart : SetuidRoot libcap start)
    (capabilities : List Capability) (calls : List CapCall) (hfirst : SetFirst calls)
    (before : List CapCall) (hbefore : before <+: calls) :
    match capRun libcap start capabilities before with
    | .ok (_, p) => OneIdentity start p (dbIdentities before) ∧ p.suid = 0
    | .error e => e ≠ .EPERM ∧ ∃ id ∈ dbIdentities before, id.1 = invalidId ∨ id.2 = invalidId := by
  obtain ⟨after, rfl⟩ := hbefore
  have hfirst' : SetFirst ([] ++ before) := by
    intro l call l' heq hneeds
    exact hfirst l call (l' ++ after) (by rw [← List.nil_append before, heq]; simp) hneeds
  have hdrop := drop_caps_inv hstart capabilities
  rw [capRun]
  cases hres : (Cap.new libcap start).drop_caps start capabilities start.ruid with
  | error e =>
    rw [hres] at hdrop
    obtain ⟨-, id, hid, -⟩ := hdrop
    exact absurd hid List.not_mem_nil
  | ok p =>
    rw [hres] at hdrop
    have hrun := calls_inv hstart [] before hfirst' hdrop
    change IdentityKept start (dbIdentities before)
      (before.foldlM capCall (Cap.new libcap start, p)) at hrun
    change match before.foldlM capCall (Cap.new libcap start, p) with
      | .ok (_, p) => OneIdentity start p (dbIdentities before) ∧ p.suid = 0
      | .error e =>
        e ≠ .EPERM ∧ ∃ id ∈ dbIdentities before, id.1 = invalidId ∨ id.2 = invalidId
    generalize before.foldlM capCall (Cap.new libcap start, p) = out at hrun ⊢
    match out, hrun with
    | .ok s, hinv => exact ⟨hinv.identity, hinv.suid⟩
    | .error e, hfail => exact ⟨by rw [hfail.1]; decide, hfail.2⟩

/-- A user with two groups at the start of a set-uid tool. -/
def userStart : Proc where
  ruid := 1000
  euid := 0
  suid := 0
  rgid := 100
  egid := 100
  sgid := 100
  groups := [100, 200]
  permitted := []
  effective := []

/-- `ws_release` in short: the entry is written as the DB user, the directory moved as root. -/
def releaseCalls : List CapCall :=
  [.setDbIdentity 999 99, .raise_cap [.dacOverride], .become_db, .lower_cap [.dacOverride] 999,
    .raise_cap [.fowner], .become_caller]

theorem identities_never_mixed_release :
    match capRun false userStart [.dacOverride, .fowner] releaseCalls with
    | .ok (_, p) => OneIdentity userStart p (dbIdentities releaseCalls) ∧ p.suid = 0
    | .error e =>
      e ≠ .EPERM ∧ ∃ id ∈ dbIdentities releaseCalls, id.1 = invalidId ∨ id.2 = invalidId := by
  have hstart : SetuidRoot false userStart := by
    constructor <;> decide
  have hfirst : SetFirst releaseCalls := by
    intro before call after heq hneeds
    cases before with
    | nil =>
      obtain ⟨rfl, -⟩ := List.cons.inj heq
      exact absurd hneeds id
    | cons first before =>
      obtain ⟨rfl, -⟩ := List.cons.inj heq
      exact List.cons_ne_nil _ _
  exact identities_never_mixed false userStart hstart [.dacOverride, .fowner] releaseCalls hfirst
    releaseCalls (List.prefix_refl _)

end HpcWorkspace
