import HpcWorkspace.Allocate
import HpcWorkspace.ConfigFiles
import HpcWorkspace.Email

/-!
# The mail address of a workspace

`commandline` of `ws_allocate` settles the options with the help of `~/.ws_user.conf`: group, reminder,
mail address and duration. The address is needed for reminders, and in filesystems that send a mail when
a workspace expires. Which filesystems count for this is looked up for the user of `-u`, who is nobody
when the option is not given, and not for the caller.
-/

namespace HpcWorkspace

/-! ## `UserConfig` -/

/-- The keys of `~/.ws_user.conf`, when it is YAML. -/
structure UserConfDoc where
  /-- `mail` -/
  mail : Option Str
  /-- `groupname` -/
  groupname : Option Str
  /-- `duration` -/
  duration : Option ℤ
  /-- `reminder` -/
  reminder : Option ℤ
  /-- `expirationmail` -/
  expirationmail : Option Bool

/-- `UserConfig` -/
structure UserConfig where
  /-- address for reminders -/
  mailaddress : Str
  /-- group for `-g` and `-G` -/
  groupname : Str
  /-- days before the expiration to send a reminder, -1 when it is not set -/
  reminder : ℤ
  /-- duration of new workspaces, -1 when it is not set -/
  duration : ℤ
  /-- does the user want a mail when a workspace expires? -/
  expirationmail : Bool

namespace UserConfig

/-- What holds without a file. -/
def defaults : UserConfig where
  mailaddress := []
  groupname := []
  reminder := -1
  duration := -1
  expirationmail := true

/-- The values of a document. -/
def ofDoc (doc : UserConfDoc) : UserConfig where
  mailaddress := doc.mail.getD []
  groupname := doc.groupname.getD []
  reminder := doc.reminder.getD (-1)
  duration := doc.duration.getD (-1)
  expirationmail := doc.expirationmail.getD true

/-- The file as YAML, or its first line as the address; `load` is the YAML parser, `none` when it
throws. -/
def read (load : Str → Option UserConfDoc) (userconf : Str) : UserConfig :=
  if userconf.contains ':' || userconf.head? == some '#' then
    match load userconf with
    | none => defaults
    | some doc => ofDoc doc
  else { defaults with mailaddress := userconf.takeWhile (· != '\n') }

/-- `UserConfig::UserConfig`: an address that is not valid is dropped. -/
def ofText (load : Str → Option UserConfDoc) (userconf : Str) : UserConfig :=
  let conf := read load userconf
  if conf.mailaddress != [] && !isValidEmail conf.mailaddress then { conf with mailaddress := [] }
  else conf

end UserConfig

/-! ## `commandline` -/

/-- The options of `ws_allocate`, as they are given. -/
structure AllocOptions where
  /-- the workspace name -/
  name : Str
  /-- `-d`, -1 when it is not given -/
  duration : ℤ
  /-- `-F` -/
  filesystem : Option Str
  /-- `-x` -/
  extension : Bool
  /-- `-r`, 0 when it is not given -/
  reminder : ℤ
  /-- `-m` -/
  mailaddress : Option Str
  /-- `-u` -/
  user : Option Str
  /-- `-g` -/
  groupreadable : Option Str
  /-- `-G` -/
  groupwritable : Option Str
  /-- `-c` -/
  comment : Str

/-- Does a filesystem send a mail when a workspace expires? -/
def RawConfig.expirationmail (config : RawConfig) (fs : Str) : Bool :=
  (config.filesystems.entries.lookup fs).any (·.expirationmail)

/-- `fs_expiration_mail`: does one of the filesystems for a user and the caller's groups? -/
def fs_expiration_mail (config : RawConfig) (c : Caller) (user : Str) : Bool :=
  (config.toConfig.validFilesystems user c.groups .create).any config.expirationmail

namespace AllocOptions

/-- The `-u` user that counts. -/
def effectiveUser (c : Caller) (o : AllocOptions) : Str :=
  if o.user.isSome && !(o.extension || c.isRoot) then [] else o.user.getD []

/-- A group option: the group of the user configuration stands for a missing name. -/
def settledGroup (u : UserConfig) (o : AllocOptions) (group : Option Str) : Option Str :=
  if (o.groupreadable.isSome || o.groupwritable.isSome) && o.groupreadable.getD [] == [] &&
      o.groupwritable.getD [] == [] && u.groupname != [] then some u.groupname
  else group

/-- `-r`, or the reminder of the user configuration. -/
def settledReminder (u : UserConfig) (o : AllocOptions) : ℤ :=
  if o.reminder = 0 ∧ u.reminder ≠ -1 then u.reminder else o.reminder

/-- The mail address before it is validated. -/
def chosenMail (config : RawConfig) (c : Caller) (u : UserConfig) (o : AllocOptions) : Str :=
  let reminder := o.settledReminder u
  if (reminder ≠ 0 ∨ fs_expiration_mail config c (o.effectiveUser c) = true) ∧
      (u.expirationmail = true ∨ reminder ≠ 0) then
    match o.mailaddress with
    | some mailaddress => mailaddress
    | none => if u.mailaddress.length > 0 then u.mailaddress else c.username
  else o.mailaddress.getD []

/-- An address that is neither the caller's account nor valid becomes the account. -/
def validatedMail (c : Caller) (mailaddress : Str) : Str :=
  if mailaddress != [] && mailaddress != c.username then
    if !mailaddress.contains '@' || !isValidEmail mailaddress then c.username else mailaddress
  else mailaddress

/-- `-d`, the duration of the user configuration, or in `main` that of the configuration. -/
def settledDuration (config : RawConfig) (c : Caller) (u : UserConfig) (o : AllocOptions) : ℤ :=
  let duration :=
    if o.duration = -1 then
      if o.extension ∧ (o.chosenMail config c u ≠ [] ∨ o.comment ≠ [] ∨ o.settledReminder u ≠ 0) then 0
      else u.duration
    else o.duration
  if duration = -1 then min config.global.durationdefault config.global.maxduration else duration

/-- What `commandline` and `main` make of the options. -/
def settled (config : RawConfig) (c : Caller) (u : UserConfig) (o : AllocOptions) : AllocArgs where
  name := o.name
  duration := o.settledDuration config c u
  filesystem := o.filesystem
  extension := o.extension
  reminder := o.settledReminder u
  mailaddress := validatedMail c (o.chosenMail config c u)
  user := o.user
  groupreadable := o.settledGroup u o.groupreadable
  groupwritable := o.settledGroup u o.groupwritable
  comment := o.comment

end AllocOptions

/-- `allocate`, where `given` has the groups as they are given: these are the ones that are checked. -/
def allocateGiven (config : Config) (c : Caller) (given a : AllocArgs) (user_option : Str)
    (env : AllocEnv) (w : World) : World × AllocResult :=
  if config.validFilesystems c.username c.groups .create = [] then (w, .refused)
  else if !validateFsAndGroup config c given (validatedUser c user_option) then (w, .refused)
  else if config.global.maxuserworkspaces > 0 ∧
      (countWorkspaces config w c.username c.groups : ℤ) > config.global.maxuserworkspaces then
    (w, .refused)
  else if (allocSearchlist config c a).any fun fs => (config.getFsConfig fs).isNone then
    (w, .refused)
  else allocateChecked config c a user_option env w

/-- `main` of `ws_allocate`, with the user configuration that it reads. -/
def allocateMain (config : RawConfig) (c : Caller) (u : UserConfig) (o : AllocOptions)
    (env : AllocEnv) (w : World) : World × AllocResult :=
  if !config.validate then (w, .refused)
  else
    let a := o.settled config c u
    match allocCommandline c a with
    | none => (w, .refused)
    | some user_option =>
      let given := { a with groupreadable := o.groupreadable, groupwritable := o.groupwritable }
      allocateGiven config.toConfig c given a user_option env w

/-! ## What is stored -/

variable {config : RawConfig} {c : Caller} {u : UserConfig} {o : AllocOptions} {env : AllocEnv}
  {w : World}

/-- A call that is not refused is one of `allocateChecked` with the settled options. -/
theorem allocateMain_cases (config : RawConfig) (c : Caller) (u : UserConfig) (o : AllocOptions)
    (env : AllocEnv) (w : World) :
    allocateMain config c u o env w = (w, .refused) ∨
      ∃ user_option, allocCommandline c (o.settled config c u) = some user_option ∧
        allocateMain config c u o env w =
          allocateChecked config.toConfig c (o.settled config c u) user_option env w := by
  unfold allocateMain
  split
  · exact Or.inl rfl
  dsimp only
  split
  · exact Or.inl rfl
  rename_i user_option hcmd
  unfold allocateGiven
  split
  · exact Or.inl rfl
  split
  · exact Or.inl rfl
  split
  · exact Or.inl rfl
  split
  · exact Or.inl rfl
  · exact Or.inr ⟨user_option, hcmd, rfl⟩

/-- The entry that is created has the settled address. -/
theorem mailaddress_of_created {fs id : Str} {e : DBEntry}
    (h : (allocateMain config c u o env w).2 = .created fs id e) :
    e.mailaddress = AllocOptions.validatedMail c (o.chosenMail config c u) := by
  rcases allocateMain_cases config c u o env w with hout | ⟨user_option, -, hout⟩
  · rw [hout] at h
    cases h
  rw [hout] at h
  have hcases := allocateChecked_cases config.toConfig c (o.settled config c u) user_option env w
  generalize allocateChecked config.toConfig c (o.settled config c u) user_option env w = out
    at h hcases
  cases hcases with
  | refused | reused | extended => cases h
  | creates create missing first configured allocatable opened =>
    rename_i fs' rest fsconfig
    have hmade := createWorkspace_spec config.toConfig c (o.settled config c u) user_option env w fs'
      fsconfig
    generalize createWorkspace config.toConfig c (o.settled config c u) user_option env w fs'
      fsconfig = out at h hmade
    cases hmade with
    | crashed | invalid => cases h
    | created hdir hid he owner valid =>
      obtain ⟨rfl, rfl, rfl⟩ := AllocResult.created.inj h
      rw [he]
      rfl

/-- **The settled address** is empty, the caller's account or a valid address. -/
theorem validatedMail_cases (c : Caller) (mailaddress : Str) :
    AllocOptions.validatedMail c mailaddress = [] ∨
      AllocOptions.validatedMail c mailaddress = c.username ∨
      isValidEmail (AllocOptions.validatedMail c mailaddress) = true := by
  unfold AllocOptions.validatedMail
  split
  · split
    · exact Or.inr (Or.inl rfl)
    · rename_i hvalid
      rw [Bool.or_eq_true, not_or, Bool.not_eq_true', Bool.not_eq_true', Bool.not_eq_false,
        Bool.not_eq_false] at hvalid
      exact Or.inr (Or.inr hvalid.2)
  · rename_i hknown
    rw [Bool.and_eq_true, bne_iff_ne, bne_iff_ne, not_and_or, not_not, not_not] at hknown
    exact hknown.imp_right Or.inl

/-- Validation keeps an address, though not always the same. -/
theorem validatedMail_ne_nil (hname : c.username ≠ []) (mailaddress : Str) :
    AllocOptions.validatedMail c mailaddress ≠ [] ↔ mailaddress ≠ [] := by
  unfold AllocOptions.validatedMail
  split
  · rename_i hmail
    rw [Bool.and_eq_true, bne_iff_ne] at hmail
    split
    · exact iff_of_true hname hmail.1
    · exact Iff.rfl
  · exact Iff.rfl

end HpcWorkspace
