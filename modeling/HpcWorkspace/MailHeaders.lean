import HpcWorkspace.Entries
import HpcWorkspace.ExpirationMail
import HpcWorkspace.Mails

/-!
# Headers of the mails about a workspace

An address comes from the command line, from the user's own file or from the name of his account, and is
put into the header of a mail that root sends. Only addresses that stay on a line get into an entry: what
`commandline` settles is empty, the account or valid, an extension keeps the address or takes the settled
one, and the other tools leave it alone. The id of a live entry is made of an account and a valid name.
-/

namespace HpcWorkspace

/-! ## Addresses that are stored -/

/-- An address that is empty, one of some accounts, or valid. -/
def StoredAddress (accounts : List Str) (mailaddress : Str) : Prop :=
  mailaddress = [] ∨ mailaddress ∈ accounts ∨ isValidEmail mailaddress = true

theorem StoredAddress.settled (config : RawConfig) (c : Caller) (u : UserConfig) (o : AllocOptions) :
    StoredAddress [c.username] (o.settled config c u).mailaddress := by
  rcases validatedMail_cases c (o.chosenMail config c u) with h | h | h
  · exact Or.inl h
  · exact Or.inr (Or.inl (List.mem_singleton.2 h))
  · exact Or.inr (Or.inr h)

theorem StoredAddress.mono {accounts accounts' : List Str} {mailaddress : Str}
    (h : StoredAddress accounts mailaddress) (hsub : accounts ⊆ accounts') :
    StoredAddress accounts' mailaddress :=
  h.imp_right fun h => h.imp_left fun hmem => hsub hmem

theorem StoredAddress.inLine {accounts : List Str} {mailaddress : Str}
    (h : StoredAddress accounts mailaddress) (haccounts : ∀ name ∈ accounts, InLine name) :
    InLine mailaddress := by
  rcases h with rfl | hmem | hvalid
  · exact fun c hc => by cases hc
  · exact haccounts _ hmem
  · exact (isValidEmail_inLine hvalid).1

theorem mailaddress_of_useExtension {e e' : DBEntry} {isRoot : Bool} {expiration reminder : ℤ}
    {mailaddress comment : Str}
    (h : e.useExtension isRoot expiration mailaddress reminder comment = some e') :
    e'.mailaddress = mailaddress ∨ e'.mailaddress = e.mailaddress := by
  unfold DBEntry.useExtension at h
  split at h
  · cases h
  · rw [← Option.some.inj h]
    exact ite_eq_or_eq _ _ _

/-- An extension takes the address of the call or keeps the one of the entry. -/
theorem mailaddress_of_extendEntry {config : Config} {c : Caller} {a : AllocArgs} {user_option : Str}
    {env : AllocEnv} {fsconfig : FilesystemConfig} {e e' : DBEntry}
    (h : extendEntry config c a user_option env fsconfig e = some e') :
    e'.mailaddress = a.mailaddress ∨ e'.mailaddress = e.mailaddress := by
  dsimp only [extendEntry] at h
  split at h
  · cases h
  split at h
  · cases h
  rcases mailaddress_of_useExtension h with hnew | hold
  · rw [hnew]
    split
    · -- a delegate keeps the owner's address
      exact Or.inr (if_neg fun hne => hne rfl)
    · exact ite_eq_or_eq _ _ _
  · exact Or.inr hold

variable {config : RawConfig} {c : Caller} {u : UserConfig} {o : AllocOptions} {env : AllocEnv}
  {w : World}

/-- **The addresses a call stores**: in an entry it creates, the account of the caller, a valid address
or none; in an entry it extends, one of these or the one that was there. -/
theorem allocateMain_stores (config : RawConfig) (c : Caller) (u : UserConfig) (o : AllocOptions)
    (env : AllocEnv) (w : World) :
    (∀ fs id e, (allocateMain config c u o env w).2 = .created fs id e →
        StoredAddress [c.username] e.mailaddress) ∧
      ∀ fs id e e', (allocateMain config c u o env w).2 = .extended fs id e e' →
        StoredAddress [c.username] e'.mailaddress ∨ e'.mailaddress = e.mailaddress := by
  have hsettled := StoredAddress.settled config c u o
  refine ⟨fun fs id e h => ?_, fun fs id e e' h => ?_⟩
  · rw [mailaddress_of_created h]
    exact hsettled
  · rcases allocateMain_cases config c u o env w with hout | ⟨user_option, -, hout⟩
    · rw [hout] at h
      cases h
    rw [hout] at h
    have hcases := allocateChecked_cases config.toConfig c (o.settled config c u) user_option env w
    generalize allocateChecked config.toConfig c (o.settled config c u) user_option env w = out
      at h hcases
    cases hcases with
    | refused | reused => cases h
    | creates =>
      rename_i fs' rest fsconfig _ _ _ _ _ _
      rcases createWorkspace_result config.toConfig c (o.settled config c u) user_option env w fs'
        fsconfig with hmade | ⟨id', e₁, hmade⟩
      · rw [hmade] at h
        cases h
      · rw [hmade] at h
        cases h
    | extended extend found configured entry =>
      obtain ⟨-, -, rfl, rfl⟩ := AllocResult.extended.inj h
      rcases mailaddress_of_extendEntry entry with heq | heq
      · exact Or.inl (heq ▸ hsettled)
      · exact Or.inr heq

/-! ## Runs -/

/-- What happens next: a call of `ws_allocate` with its options and the caller's `~/.ws_user.conf`, or
a step of something else. -/
inductive OptAction where
  /-- `ws_allocate` -/
  | allocate (c : Caller) (userconf : Str) (o : AllocOptions) (env : AllocEnv)
  /-- anything else -/
  | other (act : Action)

/-- One step. -/
def System.optStep (load : Str → Option UserConfDoc) (config : RawConfig) (s : System) :
    OptAction → Option System
  | .allocate c userconf o env =>
    if s.expirer = .idle ∧ s.clock ≤ env.now ∧ env.now ≤ env.created then
      some { s with
        world := (allocateMain config c (.ofText load userconf) o env s.world).1
        clock := env.created }
    else none
  | .other (.allocate ..) => none
  | .other act => s.step config.toConfig act

/-- The account of the caller. -/
def OptAction.account : OptAction → Option Str
  | .allocate c .. => some c.username
  | .other _ => none

/-- What the mails about an entry take from it: an address, and the name of its file. -/
structure Mailable (accounts : List Str) (k : DbLoc) (e : DBEntry) : Prop where
  /-- the address is one that is stored -/
  address : StoredAddress accounts e.mailaddress
  /-- a live entry is named after an account and a workspace -/
  id : k.area = .live → ∃ account ∈ accounts, ∃ name, isValidWorkspaceName name = true ∧
    k.id = wsid account name

theorem Mailable.of_keeps {accounts : List Str} {w w' : World} (h : InheritsBy SameContact w w')
    (hw : w.Entries (Mailable accounts)) : w'.Entries (Mailable accounts) := by
  intro k' e' hlook
  obtain ⟨k, e, hlook, hsame, hmoved⟩ := h k' e' hlook
  have hke := hw k e hlook
  refine ⟨hsame.mailaddress ▸ hke.address, fun hlive => ?_⟩
  cases hmoved with
  | same => exact hke.id hlive
  | retired => cases hlive

/-- An entry is written. -/
theorem Mailable.writeEntry {accounts : List Str} {w : World} {k : DbLoc} {e : DBEntry}
    (hw : w.Entries (Mailable accounts)) (he : Mailable accounts k e) :
    (w.writeEntry k e).Entries (Mailable accounts) := by
  intro k₁ e₁ hlook
  by_cases hk : k₁ = k
  · subst hk
    rw [World.lookup_writeEntry] at hlook
    obtain rfl := DbFile.entry.inj (Option.some.inj hlook)
    exact ⟨he.address, he.id⟩
  · rw [World.lookup_writeEntry_ne e hk] at hlook
    exact hw k₁ e₁ hlook

theorem allocateMain_mailable {accounts : List Str} (config : RawConfig) {c : Caller}
    (u : UserConfig) (o : AllocOptions) (env : AllocEnv) {w : World}
    (hc : c.username ∈ accounts) (hw : w.Entries (Mailable accounts)) :
    (allocateMain config c u o env w).1.Entries (Mailable accounts) := by
  have hsettled : StoredAddress accounts (o.settled config c u).mailaddress :=
    (StoredAddress.settled config c u o).mono
      fun name hname => List.mem_singleton.1 hname ▸ hc
  rcases allocateMain_cases config c u o env w with hout | ⟨user_option, hcmd, hout⟩
  · rw [hout]
    exact hw
  rw [hout]
  have hcases := allocateChecked_cases config.toConfig c (o.settled config c u) user_option env w
  generalize allocateChecked config.toConfig c (o.settled config c u) user_option env w = out
    at hcases ⊢
  cases hcases with
  | refused | reused => exact hw
  | extended extend found configured entry =>
    have hold := hw _ _ (lookup_of_findEntries found)
    refine Mailable.writeEntry hw ⟨?_, hold.id⟩
    rcases mailaddress_of_extendEntry entry with heq | heq
    · exact heq ▸ hsettled
    · exact heq ▸ hold.address
  | creates =>
    rename_i fs rest fsconfig _ _ _ _ _ _
    have hmade := createWorkspace_spec config.toConfig c (o.settled config c u) user_option env w fs
      fsconfig
    generalize createWorkspace config.toConfig c (o.settled config c u) user_option env w fs
      fsconfig = out at hmade ⊢
    cases hmade with
    | crashed | invalid => exact .of_keeps (.of_db_eq SameContact.relation (by simp)) hw
    | created hdir hid he owner valid =>
      refine Mailable.writeEntry (.of_keeps (.of_db_eq SameContact.relation (by simp)) hw) ⟨?_, ?_⟩
      · rw [he]
        exact hsettled
      · exact fun _ => ⟨c.username, hc, o.name, (allocCommandline_eq_some.1 hcmd).1, hid⟩

theorem optStep_other {load : Str → Option UserConfDoc} {s s' : System} {act : Action}
    (h : s.optStep load config (.other act) = some s') :
    (∀ c a env, act ≠ .allocate c a env) ∧ s.step config.toConfig act = some s' := by
  cases act with
  | allocate c a env => cases h
  | _ => exact ⟨fun _ _ _ heq => (by cases heq), h⟩

/-- **Step.** What the mails take from an entry stays as it must be. -/
theorem optStep_mailable {load : Str → Option UserConfDoc} {accounts : List Str} {s s' : System}
    {act : OptAction} (hs : s.world.Entries (Mailable accounts))
    (hact : ∀ account, act.account = some account → account ∈ accounts)
    (h : s.optStep load config act = some s') : s'.world.Entries (Mailable accounts) := by
  cases act with
  | allocate c userconf o env =>
    dsimp only [System.optStep] at h
    split at h
    · obtain rfl := Option.some.inj h
      exact allocateMain_mailable config _ o env (hact c.username rfl) hs
    · cases h
  | other act =>
    obtain ⟨hother, hstep⟩ := optStep_other h
    exact .of_keeps (keeps_of_step hother hstep) hs

/-- **Run.** Every entry of a run has what the mails need. -/
theorem run_mailable {load : Str → Option UserConfDoc} {clock : ℤ} {as : List OptAction}
    {s : System} (hr : Runs.exec (System.optStep load config) (System.init clock) as = some s) :
    s.world.Entries (Mailable (as.filterMap OptAction.account)) := by
  have hmeets : Runs.Meets (System.optStep load config)
      (fun _ act => ∀ account, act.account = some account →
        account ∈ as.filterMap OptAction.account) (System.init clock) as :=
    Runs.Meets.of_mem (fun act hact _ account haccount =>
      List.mem_filterMap.2 ⟨act, hact, haccount⟩) _
  refine hmeets.invariant (fun s act s' hs hact h => optStep_mailable hs hact h) ?_ hr
  intro k e hlook
  cases hlook

/-! ## Headers -/

theorem inLine_fmtNat (n : ℕ) : InLine (Nat.toDigits 10 n) := by
  intro c hc
  have hdigit := Nat.isDigit_of_mem_toDigits (by decide) (by decide) hc
  rw [isInLine, Bool.and_eq_true, Bool.and_eq_true, bne_iff_ne, bne_iff_ne, bne_iff_ne]
  refine ⟨⟨?_, ?_⟩, ?_⟩
  all_goals
    rintro rfl
    cases hdigit

theorem inLine_fmtLong (z : ℤ) : InLine (fmtLong z) := by
  unfold fmtLong
  split
  · exact inLine_fmtNat _
  · exact .append (s := ['-']) (List.all_eq_true.1 rfl) (inLine_fmtNat _)

theorem inLine_generateMailDateFormat (env : MailEnv) (time : ℤ) :
    InLine (generateMailDateFormat env time) := by
  unfold generateMailDateFormat
  cases hdate : env.strftime time with
  | none => exact List.all_eq_true.1 rfl
  | some date => exact env.strftime_inLine time date hdate

theorem inLine_generateMessageID (env : MailEnv) (domain : Str) (hdomain : InLine domain) :
    InLine (generateMessageID env domain) := by
  have hdot : InLine ['.'] := List.all_eq_true.1 rfl
  have hat : InLine ['@'] := List.all_eq_true.1 rfl
  have hnumbers : InLine (fmtLong env.now ++ '.' :: Nat.toDigits 10 env.pid ++
      '.' :: Nat.toDigits 10 env.hash) :=
    ((inLine_fmtLong _).append (hdot.append (inLine_fmtNat _))).append (hdot.append (inLine_fmtNat _))
  exact hnumbers.append (hat.append hdomain)

/-- A line with a fixed beginning. -/
theorem InLine.headed (head : Str) {text : Str} (hne : head ≠ []) (hhead : head.all isInLine = true)
    (htext : InLine text) : head ++ text ≠ [] ∧ InLine (head ++ text) :=
  ⟨List.append_ne_nil_of_left_ne_nil hne text, .append (List.all_eq_true.1 hhead) htext⟩

/-- The lines after the sender are lines when address and subject are. -/
theorem headerRest_inLine (env : MailEnv) {address subject : Str} (haddress : InLine address)
    (hsubject : InLine subject) :
    ∀ line ∈ headerRest env [address] subject, line ≠ [] ∧ InLine line := by
  have hto : generateToHeader [address] = address := List.append_nil _
  have hid := inLine_generateMessageID env "ws_expirer".toList (List.all_eq_true.1 rfl)
  have hclose : InLine ['>'] := List.all_eq_true.1 rfl
  have hboundary : InLine boundary := List.all_eq_true.1 rfl
  have hmessage := InLine.headed "Message-ID: <".toList (by decide) rfl hid
  simp only [headerRest, hto, List.forall_mem_cons]
  refine ⟨InLine.headed _ (by decide) rfl haddress, InLine.headed _ (by decide) rfl hsubject, ?_,
    InLine.headed _ (by decide) rfl (inLine_generateMailDateFormat env env.now),
    ⟨by decide, List.all_eq_true.1 rfl⟩, InLine.headed _ (by decide) rfl hboundary, fun _ h => ?_⟩
  · exact ⟨List.append_ne_nil_of_left_ne_nil hmessage.1 _, hmessage.2.append hclose⟩
  · cases h

/-- The header of a mail has the lines of the generator and no others. -/
structure HeaderIntact (env : MailEnv) (mail_from : Str) (mail_to : List Str) (subject mail : Str) :
    Prop where
  /-- what stands in a line after the sender stays there -/
  lines : ∀ line ∈ headerRest env mail_to subject, line ≠ [] ∧ InLine line
  /-- after the sender, which the configuration gives, the reader finds just these lines -/
  rest : ∃ text, mail = "From: ".toList ++ mail_from ++ CRLF ++ text ∧
    readHeader text = headerRest env mail_to subject
  /-- with a sender that is a line he finds the lines of the header -/
  whole : InLine mail_from → readHeader mail = headerLines env mail_from mail_to subject

theorem headerIntact_writeLines (env : MailEnv) (mail_from : Str) {address subject : Str}
    (haddress : InLine address) (hsubject : InLine subject) (body : List Str) :
    HeaderIntact env mail_from [address] subject
      (writeLines (headerLines env mail_from [address] subject ++ [] :: body)) where
  lines := headerRest_inLine env haddress hsubject
  rest := ⟨writeLines (headerRest env [address] subject ++ [] :: body), rfl,
    readHeader_writeLines (headerRest_inLine env haddress hsubject) body⟩
  whole hfrom := readHeader_writeLines (List.forall_mem_cons.2
    ⟨InLine.headed _ (by decide) rfl hfrom, headerRest_inLine env haddress hsubject⟩) body

/-- The mails about a workspace have intact headers. -/
structure MailsIntact (id address : Str) : Prop where
  /-- the reminder -/
  reminder : ∀ (env : MailEnv) (mail_from : Str) (expirationtime : ℤ) (fsname clustername : Str),
    HeaderIntact env mail_from [address] (reminderSubject env expirationtime id)
      (generateReminderMail env mail_from [address] expirationtime id fsname clustername)
  /-- the expiration mail -/
  expiration : ∀ (env : MailEnv) (mail_from : Str) (expirationtime : ℤ) (fsname clustername : Str)
    (keeptime : ℤ), HeaderIntact env mail_from [address] (expirationSubject env expirationtime id)
      (generateExpirationMail env mail_from [address] expirationtime id fsname clustername keeptime)

theorem mailsIntact {id address : Str} (hid : InLine id) (haddress : InLine address) :
    MailsIntact id address where
  reminder env mail_from expirationtime _ _ :=
    headerIntact_writeLines env mail_from haddress (.append (.append (.append
      (List.all_eq_true.1 rfl) hid) (List.all_eq_true.1 rfl))
        (inLine_generateMailDateFormat env expirationtime)) _
  expiration env mail_from expirationtime _ _ _ :=
    headerIntact_writeLines env mail_from haddress (.append (.append (.append
      (List.all_eq_true.1 rfl) hid) (List.all_eq_true.1 rfl))
        (inLine_generateMailDateFormat env expirationtime)) _

theorem inLine_wsid {account name : Str} (haccount : InLine account)
    (hname : isValidWorkspaceName name = true) : InLine (wsid account name) := by
  have hrest : InLine ('-' :: name) := by
    intro c hc
    rcases List.mem_cons.1 hc with rfl | hc
    · rfl
    · have hchar := isNameChar_of_mem hname hc
      rw [isInLine, Bool.and_eq_true, Bool.and_eq_true, bne_iff_ne, bne_iff_ne, bne_iff_ne]
      refine ⟨⟨?_, ?_⟩, ?_⟩
      all_goals
        rintro rfl
        exact absurd hchar (by decide)
  exact haccount.append hrest

/-- **Integrity of mail headers.** A call stores the account of the caller, a valid address, none, or
the address that was there; valid addresses stay on a line and are not too long; so in a run of callers
whose accounts have no control characters the mails about every live entry have intact headers. -/
theorem mailHeaders_intact (load : Str → Option UserConfDoc) (config : RawConfig) {clock : ℤ}
    {as : List OptAction} {s : System}
    (hr : Runs.exec (System.optStep load config) (System.init clock) as = some s)
    (haccounts : ∀ account ∈ as.filterMap OptAction.account, InLine account) :
    (∀ (c : Caller) (userconf : Str) (o : AllocOptions) (env : AllocEnv) (w : World),
        (∀ fs id e,
            (allocateMain config c (.ofText load userconf) o env w).2 = .created fs id e →
              StoredAddress [c.username] e.mailaddress) ∧
          ∀ fs id e e',
            (allocateMain config c (.ofText load userconf) o env w).2 = .extended fs id e e' →
              StoredAddress [c.username] e'.mailaddress ∨ e'.mailaddress = e.mailaddress) ∧
      (∀ email, isValidEmail email = true → InLine email ∧ email.length ≤ 254) ∧
      (∀ k e, s.world.db.lookup k = some (.entry e) →
        StoredAddress (as.filterMap OptAction.account) e.mailaddress) ∧
      ∀ fs id e, s.world.db.lookup ⟨fs, .live, id⟩ = some (.entry e) →
        MailsIntact id e.mailaddress := by
  have hentries := run_mailable hr
  refine ⟨fun c userconf o env w => allocateMain_stores config c _ o env w,
    fun email h => isValidEmail_inLine h, fun k e hlook => (hentries k e hlook).address,
    fun fs id e hlook => ?_⟩
  have hmail := hentries _ e hlook
  obtain ⟨account, haccount, name, hname, hid⟩ := hmail.id rfl
  obtain rfl : id = wsid account name := hid
  exact mailsIntact (inLine_wsid (haccounts account haccount) hname)
    (hmail.address.inLine haccounts)

/-- `bob` makes a workspace. -/
def bobCreates : List OptAction := [.allocate bob [] plainOptions plainEnv]

theorem inLine_bobCreates : ∀ account ∈ bobCreates.filterMap OptAction.account, InLine account := by
  intro account haccount
  obtain rfl := List.mem_singleton.1 haccount
  exact List.all_eq_true.1 rfl

/-- Dates are their numbers. -/
def plainMailEnv : MailEnv where
  now := 0
  pid := 1
  hash := 0
  strftime time := some (fmtLong time)
  strftime_inLine time _ hdate := Option.some.inj hdate ▸ inLine_fmtLong time

/-- A reader finds just the header lines in the reminder and in the expiration mail about it. -/
theorem mailHeaders_intact_bob : ∃ s e, Runs.exec (System.optStep (fun _ => none) (mailConfig []))
      (System.init 0) bobCreates = some s ∧
    s.world.db.lookup ⟨['w'], .live, wsid bob.username ['x']⟩ = some (.entry e) ∧
    readHeader (generateReminderMail plainMailEnv ['m'] [e.mailaddress] e.expiration
        (wsid bob.username ['x']) ['w'] ['c']) =
      headerLines plainMailEnv ['m'] [e.mailaddress]
        (reminderSubject plainMailEnv e.expiration (wsid bob.username ['x'])) ∧
    readHeader (generateExpirationMail plainMailEnv ['m'] [e.mailaddress] e.expiration
        (wsid bob.username ['x']) ['w'] ['c'] 10) =
      headerLines plainMailEnv ['m'] [e.mailaddress]
        (expirationSubject plainMailEnv e.expiration (wsid bob.username ['x'])) := by
  obtain ⟨s, hr, hentry⟩ : ∃ s, Runs.exec (System.optStep (fun _ => none) (mailConfig []))
      (System.init 0) bobCreates = some s ∧
        s.world.db.lookup ⟨['w'], .live, wsid bob.username ['x']⟩ =
          some (.entry (mailEntry bob.username).persisted) := ⟨_, rfl, by decide⟩
  have hfrom : InLine ['m'] := List.all_eq_true.1 rfl
  have hmails := (mailHeaders_intact (fun _ => none) (mailConfig []) hr
    inLine_bobCreates).2.2.2 _ _ _ hentry
  exact ⟨s, _, hr, hentry, (hmails.reminder plainMailEnv ['m'] _ ['w'] ['c']).whole hfrom,
    (hmails.expiration plainMailEnv ['m'] _ ['w'] ['c'] 10).whole hfrom⟩

/-- `bob` makes a workspace for his group. -/
def bobShares : List OptAction :=
  [.allocate bob [] { plainOptions with groupwritable := some "users".toList } plainEnv]

/-- `ws_allocate -x -u bob x` -/
def extendsBob : AllocOptions := { plainOptions with extension := true, user := some bob.username }

/-- Who extends it on behalf of `bob` stores `bob`, which is neither empty, nor her account, nor a
valid address. -/
theorem not_storesOwnAddress : ∃ s fs id e e',
    Runs.exec (System.optStep (fun _ => none) (mailConfig [])) (System.init 0) bobShares = some s ∧
      (allocateMain (mailConfig []) (ordinary 1001 "alice".toList) (.ofText (fun _ => none) [])
        extendsBob plainEnv s.world).2 = .extended fs id e e' ∧
      ¬StoredAddress ["alice".toList] e'.mailaddress := by
  obtain ⟨s, hr, hentry⟩ : ∃ s, Runs.exec (System.optStep (fun _ => none) (mailConfig []))
      (System.init 0) bobShares = some s ∧ ∃ e e', (allocateMain (mailConfig [])
        (ordinary 1001 "alice".toList) (.ofText (fun _ => none) []) extendsBob plainEnv
        s.world).2 = .extended ['w'] (wsid bob.username ['x']) e e' ∧
          e'.mailaddress = bob.username := ⟨_, rfl, _, _, rfl, rfl⟩
  obtain ⟨e, e', hextended, haddress⟩ := hentry
  refine ⟨s, _, _, e, e', hr, hextended, ?_⟩
  rw [haddress]
  rintro (hempty | haccount | hvalid)
  · cases hempty
  · exact absurd (List.mem_singleton.mp haccount) (by decide)
  · exact absurd hvalid (by decide +kernel)

end HpcWorkspace
