import Mathlib.Data.Char
import Mathlib.Data.List.Lex
import HpcWorkspace.Config
import HpcWorkspace.Lib.SortedMap

/-!
# Configuration files

`Config` reads the files of a directory one after the other. A key that a file gives replaces what was
there; a filesystem takes what it does not give itself from the global settings as they are at that
moment. `validate` decides whether the tools accept the result.
-/

namespace HpcWorkspace

/-! ## Documents -/

/-- The keys at the top of a file. -/
inductive GlobalKey where
  | clustername
  | smtphost
  | mail_from
  | default_workspace
  | default
  | duration
  | maxduration
  | durationdefault
  | reminderdefault
  | maxextensions
  | dbuid
  | dbgid
  | admins
  | debugusers
  | adminmail
  | deldirtimeout
  | deldir_timeout
  | expirerlogpath
  | maxuserworkspaces
  | restorenosub
  deriving DecidableEq

/-- What a key is read as. -/
abbrev GlobalKey.Value : GlobalKey → Type
  | clustername | smtphost | mail_from | default_workspace | default | expirerlogpath => Str
  | admins | debugusers | adminmail => List Str
  | dbuid | dbgid => UInt32
  | restorenosub => Bool
  | _ => ℤ

/-- What a file says of a filesystem. -/
structure FsSection where
  /-- `spaces` -/
  spaces : Option (List Str)
  /-- `spaceselection` -/
  spaceselection : Option Str
  /-- `deleted` -/
  deleted : Option Str
  /-- `database` -/
  database : Option Str
  /-- `groupdefault` -/
  groupdefault : Option (List Str)
  /-- `userdefault` -/
  userdefault : Option (List Str)
  /-- `user_acl` -/
  user_acl : Option (List Str)
  /-- `group_acl` -/
  group_acl : Option (List Str)
  /-- `keeptime` -/
  keeptime : Option ℤ
  /-- `releasekeeptime` -/
  releasekeeptime : Option ℤ
  /-- `maxduration` -/
  maxduration : Option ℤ
  /-- `duration` -/
  duration : Option ℤ
  /-- `maxextensions` -/
  maxextensions : Option ℤ
  /-- `expirationmail` -/
  expirationmail : Option Bool
  /-- `allocatable` -/
  allocatable : Option Bool
  /-- `extendable` -/
  extendable : Option Bool
  /-- `restorable` -/
  restorable : Option Bool
  /-- `comment` -/
  comment : Option Str

/-- A file that can be loaded: its keys have the types they are read as. -/
structure ConfigDoc where
  /-- the keys at the top -/
  globals : (key : GlobalKey) → Option key.Value
  /-- the filesystems under `workspaces` -/
  workspaces : List (Str × FsSection)
  /-- the filesystems under `filesystems` -/
  filesystems : List (Str × FsSection)

/-- The filesystems of a file, in the order they are read. -/
def ConfigDoc.sections (doc : ConfigDoc) : List (Str × FsSection) :=
  doc.workspaces ++ doc.filesystems

/-! ## `Config` -/

/-- `Global_config`, as it is read. -/
@[ext]
structure RawGlobalConfig where
  /-- name of the cluster, for mails -/
  clustername : Str
  /-- host for sending mails -/
  smtphost : Str
  /-- sender of mails -/
  mail_from : Str
  /-- filesystem to use if several are allowed -/
  defaultWorkspace : Str
  /-- people allowed to see all workspaces -/
  admins : List Str
  /-- users allowed to see debug output -/
  debugusers : List Str
  /-- addresses to alert in case of problems -/
  adminmail : List Str
  /-- longest duration a user can choose, 0 for no limit -/
  maxduration : ℤ
  /-- default duration -/
  durationdefault : ℤ
  /-- when to send a reminder, 0 for none -/
  reminderdefault : ℤ
  /-- extensions a user gets -/
  maxextensions : ℤ
  /-- number of workspaces a user can create, 0 for no limit -/
  maxuserworkspaces : ℤ
  /-- user id of the database, 0 when it is not set -/
  dbuid : UInt32
  /-- group id of the database, 0 when it is not set -/
  dbgid : UInt32
  /-- seconds for the deletion of a directory -/
  deldirtimeout : ℤ
  /-- where `ws_expirer` places its log files -/
  expirerlogpath : Str
  /-- restore does not create subdirectories -/
  restorenosub : Bool

/-- `Filesystem_config`, as it is read. -/
@[ext]
structure RawFilesystemConfig where
  /-- name of the filesystem -/
  name : Str
  /-- some notice for the user -/
  comment : Str
  /-- prefix paths for workspaces -/
  spaces : List Str
  /-- method to select from `spaces` -/
  spaceselection : Str
  /-- subdirectory for deleted workspaces -/
  deletedPath : Str
  /-- path of the database -/
  database : Str
  /-- groups that have this filesystem as default -/
  groupdefault : List Str
  /-- users that have this filesystem as default -/
  userdefault : List Str
  /-- users have to match this list if it is present -/
  user_acl : List Str
  /-- groups have to match this list if it is present -/
  group_acl : List Str
  /-- days to keep a deleted workspace after expiration -/
  keeptime : ℤ
  /-- days to keep a deleted workspace after release -/
  releasekeeptime : ℤ
  /-- longest duration a user can choose -/
  maxduration : ℤ
  /-- extensions a user can do -/
  maxextensions : ℤ
  /-- send a mail to the user when the workspace expires -/
  expirationmail : Bool
  /-- is this filesystem allocatable? -/
  allocatable : Bool
  /-- is this filesystem extendable? -/
  extendable : Bool
  /-- can a workspace be restored into this filesystem? -/
  restorable : Bool

/-- `Config`, as it is read. -/
@[ext]
structure RawConfig where
  /-- global settings -/
  global : RawGlobalConfig
  /-- filesystems by name -/
  filesystems : SortedMap Str RawFilesystemConfig

/-- The defaults `Config` begins with. -/
def RawGlobalConfig.defaults : RawGlobalConfig where
  clustername := []
  smtphost := []
  mail_from := []
  defaultWorkspace := []
  admins := []
  debugusers := []
  adminmail := []
  maxduration := 100
  durationdefault := 30
  reminderdefault := 0
  maxextensions := 10
  maxuserworkspaces := 0
  dbuid := 0
  dbgid := 0
  deldirtimeout := 300
  expirerlogpath := []
  restorenosub := false

/-- The global keys of a file. Of two names for a setting the one that is read later wins. -/
def RawGlobalConfig.read (global : RawGlobalConfig) (keys : (key : GlobalKey) → Option key.Value) :
    RawGlobalConfig where
  clustername := (keys .clustername).getD global.clustername
  smtphost := (keys .smtphost).getD global.smtphost
  mail_from := (keys .mail_from).getD global.mail_from
  defaultWorkspace := (keys .default).getD ((keys .default_workspace).getD global.defaultWorkspace)
  admins := (keys .admins).getD global.admins
  debugusers := (keys .debugusers).getD global.debugusers
  adminmail := (keys .adminmail).getD global.adminmail
  maxduration := (keys .maxduration).getD ((keys .duration).getD global.maxduration)
  durationdefault := (keys .durationdefault).getD global.durationdefault
  reminderdefault := (keys .reminderdefault).getD global.reminderdefault
  maxextensions := (keys .maxextensions).getD global.maxextensions
  maxuserworkspaces := (keys .maxuserworkspaces).getD global.maxuserworkspaces
  dbuid := (keys .dbuid).getD global.dbuid
  dbgid := (keys .dbgid).getD global.dbgid
  deldirtimeout := (keys .deldir_timeout).getD ((keys .deldirtimeout).getD global.deldirtimeout)
  expirerlogpath := (keys .expirerlogpath).getD global.expirerlogpath
  restorenosub := (keys .restorenosub).getD global.restorenosub

/-- The longest duration a section gives itself, 0 when it gives none. -/
def FsSection.ownDuration (s : FsSection) : ℤ := s.duration.getD (s.maxduration.getD 0)

/-- A filesystem, from its section and the global settings at that moment. -/
def FsSection.read (s : FsSection) (global : RawGlobalConfig) (name : Str) :
    RawFilesystemConfig where
  name := name
  comment := s.comment.getD []
  spaces := s.spaces.getD []
  spaceselection := s.spaceselection.getD "random".toList
  deletedPath := s.deleted.getD []
  database := s.database.getD []
  groupdefault := s.groupdefault.getD []
  userdefault := s.userdefault.getD []
  user_acl := s.user_acl.getD []
  group_acl := s.group_acl.getD []
  keeptime := s.keeptime.getD 10
  releasekeeptime := s.releasekeeptime.getD (s.keeptime.getD 10)
  maxduration :=
    if s.ownDuration = 0 ∧ global.maxduration ≠ 0 then global.maxduration else s.ownDuration
  maxextensions := s.maxextensions.getD global.maxextensions
  expirationmail := s.expirationmail.getD false
  allocatable := s.allocatable.getD true
  extendable := s.extendable.getD true
  restorable := s.restorable.getD true

namespace RawConfig

/-- The loop over the filesystems of a file. -/
def readSections (global : RawGlobalConfig) (sections : List (Str × FsSection))
    (filesystems : SortedMap Str RawFilesystemConfig) : SortedMap Str RawFilesystemConfig :=
  filesystems.insertAll (sections.map fun s => (s.1, s.2.read global s.1))

/-- `readYAML` -/
def readYAML (config : RawConfig) (doc : ConfigDoc) : RawConfig :=
  let global := config.global.read doc.globals
  ⟨global, readSections global doc.sections config.filesystems⟩

/-- `Config::Config` on the files of a directory, in the order of their names. -/
def ofFiles (files : List ConfigDoc) : RawConfig := files.foldl readYAML ⟨.defaults, .empty⟩

/-- `(uid_t)-1` and `(gid_t)-1` -/
def noId : UInt32 := -1

/-- `validate` -/
def validate (config : RawConfig) : Bool :=
  config.global.dbuid != 0 && config.global.dbuid != noId && config.global.dbgid != 0 &&
    config.global.dbgid != noId && config.global.clustername != [] &&
    config.global.defaultWorkspace != [] && !config.filesystems.entries.isEmpty &&
    config.filesystems.entries.all fun p =>
      p.2.spaces != [] && p.2.database != [] && p.2.deletedPath != []

end RawConfig

/-! ## What the tools read of it -/

/-- A filesystem that has spaces. -/
def RawFilesystemConfig.toConfig (fsdata : RawFilesystemConfig) : Option FilesystemConfig :=
  if h : fsdata.spaces ≠ [] then
    some
      { spaces := fsdata.spaces
        spaceselection := fsdata.spaceselection
        groupdefault := fsdata.groupdefault
        userdefault := fsdata.userdefault
        user_acl := fsdata.user_acl
        group_acl := fsdata.group_acl
        keeptime := fsdata.keeptime
        releasekeeptime := fsdata.releasekeeptime
        maxduration := fsdata.maxduration
        maxextensions := fsdata.maxextensions
        allocatable := fsdata.allocatable
        extendable := fsdata.extendable
        restorable := fsdata.restorable
        spaces_ne := h }
  else none

/-- The global settings. -/
def RawGlobalConfig.toConfig (global : RawGlobalConfig) : GlobalConfig where
  defaultWorkspace := global.defaultWorkspace
  admins := global.admins
  durationdefault := global.durationdefault
  maxuserworkspaces := global.maxuserworkspaces
  restorenosub := global.restorenosub

theorem map_fst_filterMap_toConfig_sublist (entries : List (Str × RawFilesystemConfig)) :
    ((entries.filterMap fun p => p.2.toConfig.map (p.1, ·)).map Prod.fst).Sublist
      (entries.map Prod.fst) := by
  induction entries with
  | nil => exact .slnil
  | cons p entries ih =>
    cases hp : p.2.toConfig with
    | none =>
      rw [List.filterMap_cons_none (by rw [hp]; rfl)]
      exact ih.cons _
    | some fsconfig =>
      rw [List.filterMap_cons_some (b := (p.1, fsconfig)) (by rw [hp]; rfl)]
      exact ih.cons_cons _

/-- The configuration the tools work with; `validate` accepts none with a filesystem without spaces. -/
def RawConfig.toConfig (config : RawConfig) : Config where
  global := config.global.toConfig
  filesystems := config.filesystems.entries.filterMap fun p => p.2.toConfig.map (p.1, ·)
  sorted := config.filesystems.sorted.sublist (map_fst_filterMap_toConfig_sublist _)

end HpcWorkspace
