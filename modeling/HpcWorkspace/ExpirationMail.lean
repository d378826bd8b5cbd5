import HpcWorkspace.Access
import HpcWorkspace.MailAddress

/-!
# An address for the expiration mail

When a workspace expires in a filesystem with `expirationmail`, the expirer sends a mail to the address
in the entry, if there is one and the user did not switch these mails off. `ws_allocate` takes care of
the address: it looks for a filesystem with `expirationmail` in which the caller may create workspaces.
But it asks for the user of `-u`, and without `-u` this is a user without a name. So filesystems that are
open to the caller by `user_acl` do not count, and the entry is made without an address.
-/

namespace HpcWorkspace

/-- `expire_workspaces`: is a mail sent for an entry that expires? -/
def sendsExpirationMail (config : RawConfig) (fs : Str) (u : UserConfig) (e : DBEntry) : Bool :=
  config.expirationmail fs &&
    ((u.expirationmail && !e.mailaddress.isEmpty) || decide (e.reminder > 0))

/-- The caller may create workspaces in a filesystem with expiration mails and wants these mails. -/
structure WantsExpirationMail (config : RawConfig) (c : Caller) (u : UserConfig) : Prop where
  /-- there is such a filesystem -/
  filesystem : ∃ fs, config.toConfig.hasAccess c.username c.groups fs .create = true ∧
    config.expirationmail fs = true
  /-- the mails are not switched off -/
  expirationmail : u.expirationmail = true

/-- An entry with an address, to which the expiration mails are sent. -/
structure Addressed (config : RawConfig) (c : Caller) (u : UserConfig) (e : DBEntry) : Prop where
  /-- there is an address -/
  ne_nil : e.mailaddress ≠ []
  /-- it is the caller's account or valid -/
  valid : e.mailaddress = c.username ∨ isValidEmail e.mailaddress = true
  /-- the mail is sent where the filesystem asks for it -/
  sent : ∀ fs, config.expirationmail fs = true → sendsExpirationMail config fs u e = true

/-- What gives a call an address: one on the command line, or without `-m` a reminder or a filesystem
with expiration mails that is open to a user without a name in the groups of the caller. -/
def AsksForAddress (config : RawConfig) (c : Caller) (u : UserConfig) (o : AllocOptions) : Prop :=
  (∃ mailaddress, o.mailaddress = some mailaddress ∧ mailaddress ≠ []) ∨
    o.mailaddress = none ∧
      ((o.reminder ≠ 0 ∨ u.reminder ≠ -1 ∧ u.reminder ≠ 0) ∨
        ∃ fs, config.toConfig.hasAccess [] c.groups fs .create = true ∧
          config.expirationmail fs = true)

variable {config : RawConfig} {c : Caller} {u : UserConfig} {o : AllocOptions}

theorem fs_expiration_mail_iff {user : Str} :
    fs_expiration_mail config c user = true ↔
      ∃ fs, config.toConfig.hasAccess user c.groups fs .create = true ∧
        config.expirationmail fs = true := by
  rw [fs_expiration_mail, List.any_eq_true]
  simp only [Config.mem_validFilesystems]

theorem settledReminder_ne_zero :
    o.settledReminder u ≠ 0 ↔ o.reminder ≠ 0 ∨ u.reminder ≠ -1 ∧ u.reminder ≠ 0 := by
  unfold AllocOptions.settledReminder
  split
  · omega
  · omega

/-- When the caller wants the mails, an address is chosen if and only if something asks for one. -/
theorem chosenMail_ne_nil (hname : c.username ≠ []) (huser : o.user = none)
    (hmail : u.expirationmail = true) :
    o.chosenMail config c u ≠ [] ↔ AsksForAddress config c u o := by
  have heffective : o.effectiveUser c = [] := by
    rw [AllocOptions.effectiveUser, huser]
    rfl
  have hasks : (o.settledReminder u ≠ 0 ∨
        fs_expiration_mail config c (o.effectiveUser c) = true) ∧
      (u.expirationmail = true ∨ o.settledReminder u ≠ 0) ↔
      (o.reminder ≠ 0 ∨ u.reminder ≠ -1 ∧ u.reminder ≠ 0) ∨
        ∃ fs, config.toConfig.hasAccess [] c.groups fs .create = true ∧
          config.expirationmail fs = true := by
    rw [heffective, fs_expiration_mail_iff, settledReminder_ne_zero]
    exact and_iff_left (Or.inl hmail)
  unfold AsksForAddress AllocOptions.chosenMail
  dsimp only
  cases hgiven : o.mailaddress with
  | some mailaddress =>
    simp only [Option.getD_some, ite_self, Option.some.injEq, exists_eq_left', reduceCtorEq,
      false_and, or_false]
  | none =>
    simp only [reduceCtorEq, false_and, exists_false, false_or, true_and]
    rw [← hasks]
    split
    · rename_i hcond
      refine iff_of_true ?_ hcond
      split
      · rename_i hlength
        exact List.ne_nil_of_length_pos hlength
      · exact hname
    · rename_i hcond
      exact iff_of_false (fun hne => hne rfl) hcond

/-- **The address for the expiration mail.** For a call without `-u` that creates an entry, a caller
who wants the mails gets an address if and only if something else than his own access to the filesystem
asks for one. -/
theorem created_addressed_iff (load : Str → Option UserConfDoc) (userconf : Str) (env : AllocEnv)
    (w : World) {fs id : Str} {e : DBEntry} (hname : c.username ≠ []) (huser : o.user = none)
    (hcreated : (allocateMain config c (.ofText load userconf) o env w).2 = .created fs id e) :
    (WantsExpirationMail config c (.ofText load userconf) →
        Addressed config c (.ofText load userconf) e) ↔
      (WantsExpirationMail config c (.ofText load userconf) →
        AsksForAddress config c (.ofText load userconf) o) := by
  have hstored := mailaddress_of_created hcreated
  refine forall_congr' fun wants => ?_
  rw [← chosenMail_ne_nil hname huser wants.expirationmail, ← validatedMail_ne_nil hname,
    ← hstored]
  constructor
  · exact fun addressed => addressed.ne_nil
  · intro hne
    refine ⟨hne, ?_, fun fs hfs => ?_⟩
    · rcases validatedMail_cases c (o.chosenMail config c (.ofText load userconf)) with h | h | h
      · exact absurd (hstored.trans h) hne
      · exact Or.inl (hstored.trans h)
      · rw [← hstored] at h
        exact Or.inr h
    · have hsome : (!e.mailaddress.isEmpty) = true := by
        rw [Bool.not_eq_true', List.isEmpty_eq_false_iff]
        exact hne
      rw [sendsExpirationMail, hfs, wants.expirationmail, hsome]
      rfl

/-- A filesystem with expiration mails that is open to some users. -/
def mailConfig (user_acl : List Str) : RawConfig where
  global :=
    { RawGlobalConfig.defaults with
      clustername := ['c'], defaultWorkspace := ['w'], dbuid := 1, dbgid := 1 }
  filesystems :=
    { entries :=
        [(['w'],
          { name := ['w']
            comment := []
            spaces := [['s']]
            spaceselection := "random".toList
            deletedPath := ['d']
            database := ['b']
            groupdefault := []
            userdefault := []
            user_acl := user_acl
            group_acl := []
            keeptime := 10
            releasekeeptime := 10
            maxduration := 100
            maxextensions := 10
            expirationmail := true
            allocatable := true
            extendable := true
            restorable := true })]
      sorted := List.pairwise_singleton .. }

/-- Nothing but a name is given. -/
def plainOptions : AllocOptions where
  name := ['x']
  duration := -1
  filesystem := none
  extension := false
  reminder := 0
  mailaddress := none
  user := none
  groupreadable := none
  groupwritable := none
  comment := []

/-- The entry of `bob`. -/
def mailEntry (mailaddress : Str) : DBEntry where
  username := bob.username
  workspace := ⟨['s'], wsid bob.username ['x']⟩
  creation := 0
  expiration := 30 * 24 * 3600
  reminder := 0
  extensions := 10
  groupflag := false
  group := "users".toList
  mailaddress := mailaddress
  comment := []
  released := 0
  expired := 0
  acctcode := []

/-- Where everybody may create workspaces, an entry has the account as its address. -/
theorem created_addressed_open :
    Addressed (mailConfig []) bob (.ofText (fun _ => none) []) (mailEntry bob.username) := by
  have hcreated : (allocateMain (mailConfig []) bob (.ofText (fun _ => none) []) plainOptions plainEnv
      World.init).2 = .created ['w'] (wsid bob.username ['x']) (mailEntry bob.username) := by
    decide
  have hopen : AsksForAddress (mailConfig []) bob (.ofText (fun _ => none) []) plainOptions :=
    Or.inr ⟨rfl, Or.inr ⟨['w'], by decide, by decide⟩⟩
  have hwants : WantsExpirationMail (mailConfig []) bob (.ofText (fun _ => none) []) :=
    ⟨⟨['w'], by decide, by decide⟩, by decide⟩
  exact (created_addressed_iff (fun _ => none) [] plainEnv World.init (by decide) rfl hcreated).2
    (fun _ => hopen) hwants

/-- Where `bob` may create workspaces by his name, his entry has no address. -/
theorem created_addressed_acl :
    (allocateMain (mailConfig [bob.username]) bob (.ofText (fun _ => none) []) plainOptions plainEnv
        World.init).2 = .created ['w'] (wsid bob.username ['x']) (mailEntry []) ∧
      WantsExpirationMail (mailConfig [bob.username]) bob (.ofText (fun _ => none) []) ∧
      ¬Addressed (mailConfig [bob.username]) bob (.ofText (fun _ => none) []) (mailEntry []) :=
  ⟨by decide, ⟨⟨['w'], by decide, by decide⟩, by decide⟩, fun addressed => addressed.ne_nil rfl⟩

end HpcWorkspace
