import HpcWorkspace.ConfigSplit

/-!
# `ws_validate_config`

The tool loads the configuration as the others do and then goes through the settings on its own; it
prints the user and group id of the database but does not look at them, and it does not ask whether
`validate` accepted the configuration.
-/

namespace HpcWorkspace

/-! ## The tool -/

/-- What the tool ends with an error for. -/
inductive ValidateError where
  | noWorkspaces
  | noClustername
  | noDefault
  | defaultUndefined
  | noAdmins
  | noAdminmail
  | noName
  | noDeleted (wsname : Str)
  | noSpaces (wsname : Str)
  | noDatabase (wsname : Str)
  deriving DecidableEq

/-- The message of an error. -/
def ValidateError.message : ValidateError → Str
  | noWorkspaces => "No Workspaces defined".toList
  | noClustername =>
    "No clustername definied, please add \"clustername: <name>\" clause to toplevel".toList
  | noDefault =>
    "No default workspace found, please add \"default: <name>\" clause to toplevel".toList
  | defaultUndefined => "default workspace is not defined as workspace in the file".toList
  | noAdmins => "No admins found, please add \"admins:: <[List]>\" clause to toplevel".toList
  | noAdminmail =>
    "No adminmail found, please add \"adminmail: <[List]>\" clause to toplevel".toList
  | noName => "Invalid Filesystem Name".toList
  | noDeleted wsname =>
    "No deleted directory found for filesystem ".toList ++ wsname ++
      ", please add \"deleted: <dir>\" clause to workspace".toList
  | noSpaces wsname =>
    "No spaces found for filesystem ".toList ++ wsname ++
      ", please add \"spaces: <[List]>\"".toList
  | noDatabase wsname =>
    "No database location define for filesystem ".toList ++ wsname ++
      ", please add \"database: <dir>\" clause to workspace".toList

/-- How the tool ends. -/
inductive ValidateEnd where
  /-- `config is valid!` -/
  | valid
  /-- an error, and `exit(1)` -/
  | error (e : ValidateError)
  /-- an exception that is not caught -/
  | aborted
  deriving DecidableEq

/-- The paths of a filesystem that `exists` and `status` are asked about. -/
def RawFilesystemConfig.probed (ws : RawFilesystemConfig) : List Str :=
  (ws.spaces.flatMap fun space => [space, space ++ '/' :: ws.deletedPath]) ++
    [ws.database, ws.database ++ "/.ws_db_magic".toList, ws.database ++ '/' :: ws.deletedPath]

/-- The checks of one filesystem, without what only warns. `status` tells whether the kernel can say
of a path if it exists; else there is an exception. -/
def validateFilesystem (status : Str → Bool) (ws : RawFilesystemConfig) : ValidateEnd :=
  if ws.name = [] then .error .noName
  else if ws.deletedPath = [] then .error (.noDeleted ws.name)
  else if ws.spaces = [] then .error (.noSpaces ws.name)
  else if !(ws.spaces.flatMap fun space => [space, space ++ '/' :: ws.deletedPath]).all status then
    .aborted
  else if ws.database = [] then .error (.noDatabase ws.name)
  else if !ws.probed.all status then .aborted
  else .valid

/-- The loop over the filesystems. -/
def validateFilesystems (status : Str → Bool) : List (Str × RawFilesystemConfig) → ValidateEnd
  | [] => .valid
  | p :: rest =>
    match validateFilesystem status p.2 with
    | .valid => validateFilesystems status rest
    | e => e

/-- `main` on a configuration that was read. -/
def validateConfig (status : Str → Bool) (config : RawConfig) : ValidateEnd :=
  let global := config.global
  let wsnames := config.filesystems.entries.map Prod.fst
  if wsnames = [] then .error .noWorkspaces
  else if global.clustername = [] then .error .noClustername
  else if global.defaultWorkspace = [] then .error .noDefault
  else if global.defaultWorkspace ∉ wsnames then .error .defaultUndefined
  else if global.admins = [] then .error .noAdmins
  else if global.adminmail = [] then .error .noAdminmail
  else if global.expirerlogpath ≠ [] ∧ status global.expirerlogpath = false then .aborted
  else validateFilesystems status config.filesystems.entries

/-- `ws_validate_config` on some files; `none` when one of them can not be loaded. -/
def wsValidateConfig (status : Str → Bool) : Option (List ConfigDoc) → ValidateEnd
  | none => .aborted
  | some files => validateConfig status (.ofFiles files)

/-! ## What it asks for -/

/-- What the tool wants of a filesystem. -/
structure FilesystemComplete (status : Str → Bool) (ws : RawFilesystemConfig) : Prop where
  /-- it has a name -/
  name : ws.name ≠ []
  /-- `deleted` is there -/
  deleted : ws.deletedPath ≠ []
  /-- there are spaces -/
  spaces : ws.spaces ≠ []
  /-- `database` is there -/
  database : ws.database ≠ []
  /-- the kernel can say whether its paths exist -/
  probed : ∀ path ∈ ws.probed, status path = true

/-- What the tool wants of a configuration. -/
structure ConfigComplete (status : Str → Bool) (config : RawConfig) : Prop where
  /-- there are filesystems -/
  filesystems : config.filesystems.entries ≠ []
  /-- `clustername` is there -/
  clustername : config.global.clustername ≠ []
  /-- `default` is there -/
  defaultWorkspace : config.global.defaultWorkspace ≠ []
  /-- and is one of the filesystems -/
  defaultDefined : config.global.defaultWorkspace ∈ config.filesystems.entries.map Prod.fst
  /-- there are `admins` -/
  admins : config.global.admins ≠ []
  /-- there is an `adminmail` -/
  adminmail : config.global.adminmail ≠ []
  /-- the kernel can say whether the log path exists -/
  expirerlogpath : config.global.expirerlogpath ≠ [] → status config.global.expirerlogpath = true
  /-- the filesystems are complete -/
  complete : ∀ p ∈ config.filesystems.entries, FilesystemComplete status p.2

variable {status : Str → Bool}

theorem validateFilesystem_eq_valid {ws : RawFilesystemConfig} :
    validateFilesystem status ws = .valid ↔ FilesystemComplete status ws := by
  unfold validateFilesystem
  constructor
  · intro h
    split at h
    · cases h
    rename_i hname
    split at h
    · cases h
    rename_i hdeleted
    split at h
    · cases h
    rename_i hspaces
    split at h
    · cases h
    split at h
    · cases h
    rename_i hdatabase
    split at h
    · cases h
    rename_i hprobed
    rw [Bool.not_eq_true', Bool.not_eq_false, List.all_eq_true] at hprobed
    exact ⟨hname, hdeleted, hspaces, hdatabase, hprobed⟩
  · intro h
    have hprobed : ws.probed.all status = true := List.all_eq_true.2 h.probed
    have hspaces : (ws.spaces.flatMap fun space => [space, space ++ '/' :: ws.deletedPath]).all
        status = true :=
      List.all_eq_true.2 fun path hpath => h.probed path (List.mem_append_left _ hpath)
    rw [if_neg h.name, if_neg h.deleted, if_neg h.spaces, hspaces, if_neg (by decide),
      if_neg h.database, hprobed, if_neg (by decide)]

theorem validateFilesystems_eq_valid {entries : List (Str × RawFilesystemConfig)} :
    validateFilesystems status entries = .valid ↔
      ∀ p ∈ entries, FilesystemComplete status p.2 := by
  induction entries with
  | nil => exact iff_of_true rfl fun _ h => absurd h List.not_mem_nil
  | cons p entries ih =>
    rw [List.forall_mem_cons, ← ih, ← validateFilesystem_eq_valid, validateFilesystems]
    cases validateFilesystem status p.2 with
    | valid => exact (and_iff_right rfl).symm
    | error e => exact iff_of_false (fun h => by cases h) fun h => by cases h.1
    | aborted => exact iff_of_false (fun h => by cases h) fun h => by cases h.1

/-- The tool reports a valid configuration when nothing it asks for is missing. -/
theorem validateConfig_eq_valid {config : RawConfig} :
    validateConfig status config = .valid ↔ ConfigComplete status config := by
  unfold validateConfig
  dsimp only
  constructor
  · intro h
    split at h
    · cases h
    rename_i hfilesystems
    split at h
    · cases h
    rename_i hclustername
    split at h
    · cases h
    rename_i hdefault
    split at h
    · cases h
    rename_i hdefined
    split at h
    · cases h
    rename_i hadmins
    split at h
    · cases h
    rename_i hadminmail
    split at h
    · cases h
    rename_i hlogpath
    refine ⟨fun hnil => hfilesystems (List.map_eq_nil_iff.2 hnil), hclustername, hdefault,
      not_not.1 hdefined, hadmins, hadminmail, fun hne => ?_, validateFilesystems_eq_valid.1 h⟩
    exact Bool.not_eq_false _ |>.mp fun hno => hlogpath ⟨hne, hno⟩
  · intro h
    have hlogpath : ¬(config.global.expirerlogpath ≠ [] ∧
        status config.global.expirerlogpath = false) := fun hno => by
      rw [h.expirerlogpath hno.1] at hno
      cases hno.2
    rw [if_neg fun hnil => h.filesystems (List.map_eq_nil_iff.1 hnil), if_neg h.clustername,
      if_neg h.defaultWorkspace, if_neg (not_not.2 h.defaultDefined), if_neg h.admins,
      if_neg h.adminmail, if_neg hlogpath]
    exact validateFilesystems_eq_valid.2 h.complete

/-! ## Against `validate` -/

/-- The ids that `validate` accepts. -/
structure IdsAllowed (global : RawGlobalConfig) : Prop where
  /-- `dbuid` is set -/
  dbuid : global.dbuid ≠ 0 ∧ global.dbuid ≠ RawConfig.noId
  /-- `dbgid` is set -/
  dbgid : global.dbgid ≠ 0 ∧ global.dbgid ≠ RawConfig.noId

/-- The tools accept the configuration, and find what every filesystem has to have. -/
structure Usable (config : RawConfig) : Prop where
  /-- `validate` accepts it -/
  valid : config.validate = true
  /-- the mandatory settings -/
  mandatory : ∀ p ∈ config.filesystems.entries,
    p.2.spaces ≠ [] ∧ p.2.database ≠ [] ∧ p.2.deletedPath ≠ []

/-- Of what `validate` checks the tool leaves out the ids. -/
theorem ConfigComplete.usable_iff {config : RawConfig} (h : ConfigComplete status config) :
    Usable config ↔ IdsAllowed config.global := by
  have hmandatory : ∀ p ∈ config.filesystems.entries,
      p.2.spaces ≠ [] ∧ p.2.database ≠ [] ∧ p.2.deletedPath ≠ [] := fun p hp =>
    ⟨(h.complete p hp).spaces, (h.complete p hp).database, (h.complete p hp).deleted⟩
  have hall : (config.filesystems.entries.all fun p =>
      p.2.spaces != [] && p.2.database != [] && p.2.deletedPath != []) = true := by
    refine List.all_eq_true.2 fun p hp => ?_
    obtain ⟨hspaces, hdatabase, hdeleted⟩ := hmandatory p hp
    rw [bne_iff_ne.2 hspaces, bne_iff_ne.2 hdatabase, bne_iff_ne.2 hdeleted]
    rfl
  have hnonempty : (!config.filesystems.entries.isEmpty) = true := by
    rw [Bool.not_eq_true', List.isEmpty_eq_false_iff]
    exact h.filesystems
  have hvalidate : config.validate = true ↔ config.global.dbuid ≠ 0 ∧
      config.global.dbuid ≠ RawConfig.noId ∧ config.global.dbgid ≠ 0 ∧
      config.global.dbgid ≠ RawConfig.noId := by
    rw [RawConfig.validate, hall, hnonempty, bne_iff_ne.2 h.clustername,
      bne_iff_ne.2 h.defaultWorkspace]
    simp only [Bool.and_true, Bool.and_eq_true, bne_iff_ne, and_assoc]
  constructor
  · intro husable
    obtain ⟨h₁, h₂, h₃, h₄⟩ := hvalidate.1 husable.valid
    exact ⟨⟨h₁, h₂⟩, ⟨h₃, h₄⟩⟩
  · intro hids
    exact ⟨hvalidate.2 ⟨hids.dbuid.1, hids.dbuid.2, hids.dbgid.1, hids.dbgid.2⟩, hmandatory⟩

/-- **`ws_validate_config` is sound** on a document if and only if the ids are allowed or the tool
misses something else. -/
theorem wsValidateConfig_sound_iff (status : Str → Bool) (document : Option (List ConfigDoc)) :
    (wsValidateConfig status document = .valid →
        ∃ files, document = some files ∧ Usable (.ofFiles files)) ↔
      ∀ files, document = some files → ConfigComplete status (.ofFiles files) →
        IdsAllowed (RawConfig.ofFiles files).global := by
  cases document with
  | none => exact iff_of_true (fun h => by cases h) fun files h => by cases h
  | some files =>
    rw [wsValidateConfig, validateConfig_eq_valid]
    constructor
    · intro hsound files' heq hcomplete
      cases heq
      obtain ⟨files', heq, husable⟩ := hsound hcomplete
      cases heq
      exact hcomplete.usable_iff.1 husable
    · intro hids hcomplete
      exact ⟨files, rfl, hcomplete.usable_iff.2 (hids files rfl hcomplete)⟩

/-- A file with one complete filesystem and no ids. -/
def noIdsFile : ConfigDoc :=
  { ConfigDoc.empty with
    globals := fun
      | .clustername => some ['c']
      | .default => some ['a']
      | .admins => some [['r']]
      | .adminmail => some [['r']]
      | _ => none
    filesystems :=
      [(['a'], { FsSection.empty with
        spaces := some [['s']]
        deleted := some ['d']
        database := some ['b'] })] }

/-- It is reported as valid, and no tool accepts it. -/
theorem wsValidateConfig_noIds :
    wsValidateConfig (fun _ => true) (some [noIdsFile]) = .valid ∧
      ¬Usable (.ofFiles [noIdsFile]) := by
  refine ⟨by decide, fun h => ?_⟩
  have hinvalid : (RawConfig.ofFiles [noIdsFile]).validate = false := by decide
  exact Bool.false_ne_true (hinvalid.symm.trans h.valid)

end HpcWorkspace
