import HpcWorkspace.Caps
import Mathlib.Data.Int.Notation

/-!
# The child that runs `/bin/mv`

Across filesystems a directory is moved by `/bin/mv`, in a child of the tool. In SUID mode the saved
uid of the tool is 0 all the time, and a program that the child executes would inherit it. So the
child pins the identity first: whatever `/bin/mv` does then, it stays with the identity that the
tool had, without the groups of the caller.
-/

namespace HpcWorkspace

/-! ## More system calls -/

/-- `setresgid`; `(gid_t)-1` leaves an id as it is. -/
def setresgid (p : Proc) (r e s : UInt32) : Except Errno Proc :=
  let allowed (gid : UInt32) : Prop :=
    p.euid = 0 ∨ gid = invalidId ∨ gid = p.rgid ∨ gid = p.egid ∨ gid = p.sgid
  if allowed r ∧ allowed e ∧ allowed s then
    .ok { p with
      rgid := if r = invalidId then p.rgid else r
      egid := if e = invalidId then p.egid else e
      sgid := if s = invalidId then p.sgid else s }
  else .error .EPERM

/-- `setresuid`; `(uid_t)-1` leaves an id as it is. -/
def setresuid (p : Proc) (r e s : UInt32) : Except Errno Proc :=
  let allowed (uid : UInt32) : Prop :=
    p.euid = 0 ∨ uid = invalidId ∨ uid = p.ruid ∨ uid = p.euid ∨ uid = p.suid
  if allowed r ∧ allowed e ∧ allowed s then
    .ok { p with
      ruid := if r = invalidId then p.ruid else r
      euid := if e = invalidId then p.euid else e
      suid := if s = invalidId then p.suid else s }
  else .error .EPERM

/-- A call whose result is not looked at: when it fails, all is as before. -/
def tryCall (call : Proc → Except Errno Proc) (p : Proc) : Proc :=
  match call p with
  | .ok p => p
  | .error _ => p

/-- A program that is not set-uid is executed: the saved ids become the effective ones. -/
def execPlain (p : Proc) : Proc := { p with suid := p.euid, sgid := p.egid }

/-! ## The child -/

/-- The child of `utils::mv`, up to `execle`. -/
def pinIdentity (p : Proc) : Proc :=
  let keep_euid := p.euid
  let keep_egid := p.egid
  match seteuid p 0 with
  | .ok p =>
    let p := tryCall (setgroups · []) p
    let p := tryCall (setresgid · keep_egid keep_egid keep_egid) p
    tryCall (setresuid · keep_euid keep_euid keep_euid) p
  -- user mode and capability mode: there is nothing to pin
  | .error _ => p

/-- `/bin/mv` at its start. -/
def mvChild (p : Proc) : Proc := execPlain (pinIdentity p)

/-- How a child ends. -/
inductive WaitStatus where
  /-- `WIFEXITED` -/
  | exited (code : UInt8)
  /-- `WIFSIGNALED` -/
  | signaled (signal : ℕ)

/-- What `utils::mv` returns; `status` is `none` when `waitpid` fails. -/
def mvResult (forked : Bool) (status : Option WaitStatus) : ℤ :=
  if !forked then -1
  else
    match status with
    | none => -1
    | some (.signaled _) => -1
    | some (.exited code) => code.toNat

/-- Only a child that has ended by itself with 0 counts as a success. -/
theorem mvResult_eq_zero (forked : Bool) (status : Option WaitStatus) :
    mvResult forked status = 0 ↔ forked = true ∧ status = some (.exited 0) := by
  cases forked with
  | false => simp [mvResult]
  | true =>
    cases status with
    | none => simp [mvResult]
    | some status =>
      cases status with
      | signaled signal => simp [mvResult]
      | exited code => simp [mvResult, ← UInt8.toNat_inj]

/-! ## What a program may try -/

/-- The calls that change the identity. -/
inductive IdCall where
  | seteuid (uid : UInt32)
  | setegid (gid : UInt32)
  | setgroups (groups : List UInt32)
  | setresuid (r e s : UInt32)
  | setresgid (r e s : UInt32)
  | execPlain

/-- One call, which may fail. -/
def idCall (p : Proc) : IdCall → Proc
  | .seteuid uid => tryCall (HpcWorkspace.seteuid · uid) p
  | .setegid gid => tryCall (HpcWorkspace.setegid · gid) p
  | .setgroups groups => tryCall (HpcWorkspace.setgroups · groups) p
  | .setresuid r e s => tryCall (HpcWorkspace.setresuid · r e s) p
  | .setresgid r e s => tryCall (HpcWorkspace.setresgid · r e s) p
  | .execPlain => HpcWorkspace.execPlain p

/-- All ids are those of one identity, and there are no other groups. -/
structure Pinned (uid gid : UInt32) (p : Proc) : Prop where
  /-- the uids -/
  ruid : p.ruid = uid
  euid : p.euid = uid
  suid : p.suid = uid
  /-- the gids -/
  rgid : p.rgid = gid
  egid : p.egid = gid
  sgid : p.sgid = gid
  /-- the supplementary groups -/
  groups : p.groups = []

section Pinned

variable {uid gid : UInt32} {p p' : Proc}

/-- A call keeps what it keeps when it succeeds. -/
theorem tryCall_invariant {Inv : Proc → Prop} {call : Proc → Except Errno Proc} (hp : Inv p)
    (hcall : ∀ p', call p = .ok p' → Inv p') : Inv (tryCall call p) := by
  rw [tryCall]
  split
  · rename_i p' heq
    exact hcall p' heq
  · exact hp

theorem eq_of_allowed {id₀ id : UInt32} (h : id = invalidId ∨ id = id₀ ∨ id = id₀ ∨ id = id₀) :
    (if id = invalidId then id₀ else id) = id₀ := by
  split
  · rfl
  · rename_i hvalid
    rcases h with h | h | h | h
    · exact absurd h hvalid
    all_goals exact h

/-- **Step lemma**: a process that is pinned to someone else than root stays so. -/
theorem Pinned.idCall (h : Pinned uid gid p) (huid : uid ≠ 0) (call : IdCall) :
    Pinned uid gid (idCall p call) := by
  have hp := h
  obtain ⟨hruid, heuid, hsuid, hrgid, hegid, hsgid, hgroups⟩ := h
  have hnoroot : p.euid ≠ 0 := by rwa [heuid]
  cases call with
  | seteuid u =>
    rw [HpcWorkspace.idCall]
    refine tryCall_invariant hp fun p' h => ?_
    rw [HpcWorkspace.seteuid] at h
    split at h
    · cases h
    · split at h
      · rename_i hallowed
        obtain rfl := Except.ok.inj h
        refine ⟨hruid, ?_, hsuid, hrgid, hegid, hsgid, hgroups⟩
        rcases hallowed with h | h | h | h
        · exact absurd h hnoroot
        · exact h.trans hruid
        · exact h.trans heuid
        · exact h.trans hsuid
      · cases h
  | setegid g =>
    rw [HpcWorkspace.idCall]
    refine tryCall_invariant hp fun p' h => ?_
    rw [HpcWorkspace.setegid] at h
    split at h
    · cases h
    · split at h
      · rename_i hallowed
        obtain rfl := Except.ok.inj h
        refine ⟨hruid, heuid, hsuid, hrgid, ?_, hsgid, hgroups⟩
        rcases hallowed with h | h | h | h
        · exact absurd h hnoroot
        · exact h.trans hrgid
        · exact h.trans hegid
        · exact h.trans hsgid
      · cases h
  | setgroups groups =>
    rw [HpcWorkspace.idCall]
    refine tryCall_invariant hp fun p' h => ?_
    rw [HpcWorkspace.setgroups, if_pos hnoroot] at h
    cases h
  | setresuid r e s =>
    rw [HpcWorkspace.idCall]
    refine tryCall_invariant hp fun p' h => ?_
    simp only [HpcWorkspace.setresuid, hruid, heuid, hsuid, huid, false_or] at h
    split at h
    · rename_i hallowed
      obtain rfl := Except.ok.inj h
      exact ⟨eq_of_allowed hallowed.1, eq_of_allowed hallowed.2.1, eq_of_allowed hallowed.2.2, hrgid,
        hegid, hsgid, hgroups⟩
    · cases h
  | setresgid r e s =>
    rw [HpcWorkspace.idCall]
    refine tryCall_invariant hp fun p' h => ?_
    simp only [HpcWorkspace.setresgid, hnoroot, false_or, hrgid, hegid, hsgid] at h
    split at h
    · rename_i hallowed
      obtain rfl := Except.ok.inj h
      exact ⟨hruid, heuid, hsuid, eq_of_allowed hallowed.1, eq_of_allowed hallowed.2.1,
        eq_of_allowed hallowed.2.2, hgroups⟩
    · cases h
  | execPlain => exact ⟨hruid, heuid, heuid, hrgid, hegid, hegid, hgroups⟩

/-- **Run lemma.** -/
theorem Pinned.idCalls (h : Pinned uid gid p) (huid : uid ≠ 0) (calls : List IdCall) :
    Pinned uid gid (calls.foldl HpcWorkspace.idCall p) := by
  induction calls generalizing p with
  | nil => exact h
  | cons call calls ih => exact ih (h.idCall huid call)

/-- With a saved uid of root and valid ids the child is pinned. -/
theorem pinned_mvChild (hsuid : p.suid = 0) (heuid : p.euid ≠ invalidId)
    (hegid : p.egid ≠ invalidId) : Pinned p.euid p.egid (mvChild p) := by
  have hroot : seteuid p 0 = .ok { p with euid := 0 } := by
    simp [seteuid, hsuid, show (0 : UInt32) ≠ invalidId by decide]
  have hnil : GroupsOk [] := by decide
  have hpin : pinIdentity p =
      { p with
        ruid := p.euid
        euid := p.euid
        suid := p.euid
        rgid := p.egid
        egid := p.egid
        sgid := p.egid
        groups := [] } := by
    simp [pinIdentity, hroot, tryCall, setgroups, hnil, setresgid, setresuid, heuid, hegid]
  rw [mvChild, hpin]
  exact ⟨rfl, rfl, rfl, rfl, rfl, rfl, rfl⟩

end Pinned

/-! ## After any calls of a tool -/

section Tool

variable {libcap : Bool} {start p p' : Proc} {cap : Cap}

/-- A computation that succeeds has done so in both parts. -/
theorem exists_of_bind_ok {ε α β : Type} {x : Except ε α} {f : α → Except ε β} {b : β}
    (h : (x >>= f) = .ok b) : ∃ a, x = .ok a ∧ f a = .ok b := by
  cases x with
  | error e => cases h
  | ok a => exact ⟨a, rfl, h⟩

/-- The effective ids are somebody's. -/
def ValidIds (p : Proc) : Prop := p.euid ≠ invalidId ∧ p.egid ≠ invalidId

theorem ValidIds.seteuid {uid : UInt32} (hp : ValidIds p) (h : HpcWorkspace.seteuid p uid = .ok p') :
    ValidIds p' := by
  rw [HpcWorkspace.seteuid] at h
  split at h
  · cases h
  · rename_i hvalid
    split at h
    · obtain rfl := Except.ok.inj h
      exact ⟨hvalid, hp.2⟩
    · cases h

theorem ValidIds.setegid {gid : UInt32} (hp : ValidIds p) (h : HpcWorkspace.setegid p gid = .ok p') :
    ValidIds p' := by
  rw [HpcWorkspace.setegid] at h
  split at h
  · cases h
  · rename_i hvalid
    split at h
    · obtain rfl := Except.ok.inj h
      exact ⟨hp.1, hvalid⟩
    · cases h

theorem ValidIds.setgroups {groups : List UInt32} (hp : ValidIds p)
    (h : HpcWorkspace.setgroups p groups = .ok p') : ValidIds p' := by
  rw [HpcWorkspace.setgroups] at h
  split at h
  · cases h
  · split at h
    · obtain rfl := Except.ok.inj h
      exact hp
    · cases h

theorem ValidIds.cap_set_proc {permitted effective : List Capability} (hp : ValidIds p)
    (h : HpcWorkspace.cap_set_proc p permitted effective = .ok p') : ValidIds p' := by
  rw [HpcWorkspace.cap_set_proc] at h
  split at h
  · obtain rfl := Except.ok.inj h
    exact hp
  · cases h

/-- Capabilities are changed, or not, and the ids stay valid for what comes next. -/
theorem ValidIds.caps_then {b : Bool} {permitted effective : List Capability}
    {next : Proc → Except Errno Proc} (hp : ValidIds p)
    (h : (if b = true then HpcWorkspace.cap_set_proc p permitted effective >>= next
      else Except.ok p >>= next) = .ok p') : ∃ p₁, ValidIds p₁ ∧ next p₁ = .ok p' := by
  cases b with
  | true =>
    obtain ⟨p₁, hcaps, h⟩ := exists_of_bind_ok h
    exact ⟨p₁, hp.cap_set_proc hcaps, h⟩
  | false => exact ⟨p, hp, h⟩

theorem ValidIds.set_identity {euid egid : UInt32} {groups : GroupsMode} (hp : ValidIds p)
    (h : cap.set_identity p euid egid groups = .ok p') : ValidIds p' := by
  rw [Cap.set_identity] at h
  split at h
  · obtain rfl := Except.ok.inj h
    exact hp
  · obtain ⟨p₁, hroot, h⟩ := exists_of_bind_ok h
    obtain ⟨p₂, hgroups, h⟩ := exists_of_bind_ok h
    obtain ⟨p₃, hegid, h⟩ := exists_of_bind_ok h
    have h₁ := hp.seteuid hroot
    have h₂ : ValidIds p₂ := by
      cases groups with
      | Keep =>
        obtain rfl := Except.ok.inj hgroups
        exact h₁
      | Clear => exact h₁.setgroups hgroups
      | Restore => exact h₁.setgroups hgroups
    exact (h₂.setegid hegid).seteuid h

theorem ValidIds.drop_caps {capabilities : List Capability} {uid : UInt32} (hp : ValidIds p)
    (h : cap.drop_caps p capabilities uid = .ok p') : ValidIds p' := by
  rw [Cap.drop_caps] at h
  obtain ⟨p₁, h₁, h⟩ := hp.caps_then h
  split at h
  · exact h₁.set_identity h
  · obtain rfl := Except.ok.inj h
    exact h₁

/-- **Step lemma**: the ids stay valid. -/
theorem ValidIds.capCall {s s' : Cap × Proc} (hp : ValidIds s.2) {call : CapCall}
    (h : HpcWorkspace.capCall s call = .ok s') : ValidIds s'.2 := by
  cases call with
  | setDbIdentity dbuid dbgid =>
    obtain rfl := Except.ok.inj h
    exact hp
  | raise_cap capabilities =>
    obtain ⟨p, hraise, h⟩ := exists_of_bind_ok h
    obtain rfl := Except.ok.inj h
    rw [Cap.raise_cap] at hraise
    obtain ⟨p₁, h₁, hraise⟩ := hp.caps_then hraise
    split at hraise
    · exact h₁.set_identity hraise
    · obtain rfl := Except.ok.inj hraise
      exact h₁
  | lower_cap capabilities uid =>
    obtain ⟨p, hlower, h⟩ := exists_of_bind_ok h
    obtain rfl := Except.ok.inj h
    rw [Cap.lower_cap] at hlower
    obtain ⟨p₁, h₁, hlower⟩ := hp.caps_then hlower
    split at hlower
    · split at hlower
      · exact h₁.set_identity hlower
      · exact h₁.seteuid hlower
    · obtain rfl := Except.ok.inj hlower
      exact h₁
  | become_db =>
    obtain ⟨p, hdb, h⟩ := exists_of_bind_ok h
    obtain rfl := Except.ok.inj h
    rw [Cap.become_db] at hdb
    split at hdb
    · obtain rfl := Except.ok.inj hdb
      exact hp
    · split at hdb
      · cases hdb
      · exact hp.set_identity hdb
  | become_caller =>
    obtain ⟨p, hcaller, h⟩ := exists_of_bind_ok h
    obtain rfl := Except.ok.inj h
    exact hp.set_identity hcaller
  | become_root =>
    obtain ⟨p, hroot, h⟩ := exists_of_bind_ok h
    obtain rfl := Except.ok.inj h
    exact hp.set_identity hroot

theorem ValidIds.capCalls {s s' : Cap × Proc} (hp : ValidIds s.2) {calls : List CapCall}
    (h : calls.foldlM HpcWorkspace.capCall s = .ok s') : ValidIds s'.2 := by
  induction calls generalizing s with
  | nil =>
    obtain rfl := Except.ok.inj h
    exact hp
  | cons call calls ih =>
    rw [List.foldlM_cons] at h
    obtain ⟨s₁, hcall, h⟩ := exists_of_bind_ok h
    exact ih (hp.capCall hcall) h

/-- What a set-uid tool is after any calls: it has valid ids and can become root again. -/
theorem capRun_spec (hstart : SetuidRoot libcap start) {capabilities : List Capability}
    {calls : List CapCall} (hfirst : SetFirst calls)
    (hrun : capRun libcap start capabilities calls = .ok (cap, p)) :
    ValidIds p ∧ IdentityInv start (dbIdentities calls) cap p := by
  obtain ⟨p₀, hdrop, hrun⟩ := exists_of_bind_ok hrun
  have hvalid : ValidIds start := by
    refine ⟨?_, ?_⟩
    · rw [hstart.euid]
      decide
    · rw [hstart.egid]
      exact hstart.rgid_valid
  have hinv := drop_caps_inv hstart capabilities
  rw [hdrop] at hinv
  have hkept := calls_inv hstart [] calls hfirst hinv
  rw [List.nil_append] at hkept
  change IdentityKept start (dbIdentities calls)
    (calls.foldlM capCall (Cap.new libcap start, p₀)) at hkept
  rw [hrun] at hkept
  exact ⟨(hvalid.drop_caps hdrop).capCalls (s := (Cap.new libcap start, p₀)) hrun, hkept⟩

/-- **`/bin/mv` keeps to one identity.** A set-uid tool of any caller moves a directory after any
calls that change its identity. All ids of the child are then those that the tool acts with: root's,
those of a DB user or those of the caller, and it has no supplementary groups. When they are not
root's, nothing that `/bin/mv` calls gives it another identity. -/
theorem mv_child_pinned (libcap : Bool) (start : Proc) (hstart : SetuidRoot libcap start)
    (capabilities : List Capability) (calls : List CapCall) (hfirst : SetFirst calls) (cap : Cap)
    (p : Proc) (hrun : capRun libcap start capabilities calls = .ok (cap, p)) :
    (p.euid, p.egid) ∈ (0, 0) :: (start.ruid, start.rgid) :: dbIdentities calls ∧
      Pinned p.euid p.egid (mvChild p) ∧
      (p.euid ≠ 0 → ∀ tries : List IdCall, Pinned p.euid p.egid (tries.foldl idCall (mvChild p))) := by
  obtain ⟨⟨heuid, hegid⟩, hinv⟩ := capRun_spec hstart hfirst hrun
  have hpinned := pinned_mvChild hinv.suid heuid hegid
  refine ⟨?_, hpinned, fun hroot tries => hpinned.idCalls hroot tries⟩
  rcases hinv.identity with ⟨heuid, hegid⟩ | ⟨hdb, -⟩ | ⟨heuid, hegid, -⟩
  · rw [heuid, hegid]
    exact List.mem_cons_self ..
  · exact List.mem_cons_of_mem _ (List.mem_cons_of_mem _ hdb)
  · rw [heuid, hegid]
    exact List.mem_cons_of_mem _ (List.mem_cons_self ..)

/-- The DB user releases a workspace: `/bin/mv` can not become root, as the tool itself can. -/
theorem mv_child_pinned_release : ∃ cap p,
    capRun false userStart [.dacOverride] [.setDbIdentity 999 99, .become_db] = .ok (cap, p) ∧
    (seteuid p 0).isOk ∧
    Pinned 999 99 ([.seteuid 0, .setgroups [0], .seteuid 1000].foldl idCall (mvChild p)) := by
  have hstart : SetuidRoot false userStart := by
    constructor <;> decide
  have hfirst : SetFirst [.setDbIdentity 999 99, .become_db] := by
    intro before call after heq hneeds
    cases before with
    | nil =>
      obtain ⟨rfl, -⟩ := List.cons.inj heq
      exact absurd hneeds id
    | cons first before =>
      obtain ⟨rfl, -⟩ := List.cons.inj heq
      exact List.cons_ne_nil _ _
  exact ⟨_, _, rfl, rfl, (mv_child_pinned false userStart hstart [.dacOverride]
    [.setDbIdentity 999 99, .become_db] hfirst _ _ rfl).2.2 (by decide) _⟩

end Tool

end HpcWorkspace
