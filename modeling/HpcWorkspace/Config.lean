import Mathlib.Data.List.Nodup
import HpcWorkspace.Names

/-!
# Configuration and access control

What the tools read of the configuration: the filesystems with their spaces, limits and access
control lists, and the global settings. `hasAccess` decides whether a user with a list of groups
may use a filesystem for an intent; `validFilesystems` lists the ones he may use, by priority.
-/

namespace HpcWorkspace

/-- `ws::intent` -/
inductive Intent where
  | list
  | use
  | create
  | extend
  | release
  | restore
  deriving DecidableEq

/-- `ws::intentnames` -/
def intentnames : List (Str × Intent) :=
  [("list".toList, .list), ("use".toList, .use), ("create".toList, .create),
    ("extend".toList, .extend), ("release".toList, .release), ("restore".toList, .restore)]

/-- The modifier of an access control entry. -/
inductive Modifier where
  /-- `+` grants -/
  | plus
  /-- `-` denies -/
  | minus
  deriving DecidableEq

/-- The `Filesystem_config` of a validated configuration. -/
structure FilesystemConfig where
  /-- prefix paths for workspaces -/
  spaces : List Str
  /-- method to select from `spaces` -/
  spaceselection : Str
  /-- groups that have this filesystem as default -/
  groupdefault : List Str
  /-- users that have this filesystem as default -/
  userdefault : List Str
  /-- users have to match this list if it is present -/
  user_acl : List Str
  /-- groups have to match this list if it is present -/
  group_acl : List Str
  /-- days to keep a deleted workspace after expiration -/
  keeptime : ℤ
  /-- days to keep a deleted workspace after release -/
  releasekeeptime : ℤ
  /-- longest duration a user can choose, 0 for the global default -/
  maxduration : ℤ
  /-- extensions a user can do -/
  maxextensions : ℤ
  /-- is this filesystem allocatable? -/
  allocatable : Bool
  /-- is this filesystem extendable? -/
  extendable : Bool
  /-- can a workspace be restored into this filesystem? -/
  restorable : Bool
  /-- `validate` refuses a filesystem without spaces -/
  spaces_ne : spaces ≠ []

/-- The `Global_config`. -/
structure GlobalConfig where
  /-- filesystem to use if several are allowed -/
  defaultWorkspace : Str
  /-- people allowed to see all workspaces -/
  admins : List Str
  /-- default duration -/
  durationdefault : ℤ
  /-- number of workspaces a user can create, 0 for no limit -/
  maxuserworkspaces : ℤ
  /-- restore does not create subdirectories -/
  restorenosub : Bool

/-- `Config`: global settings and the `std::map` of filesystems, ordered by name. -/
structure Config where
  /-- global settings -/
  global : GlobalConfig
  /-- filesystems by name -/
  filesystems : List (Str × FilesystemConfig)
  /-- a map has each name once, in order -/
  sorted : (filesystems.map Prod.fst).Pairwise (· < ·)

/-- A filesystem entry that sets nothing but its spaces. -/
def FilesystemConfig.ofSpaces (space : Str) (spaces : List Str) : FilesystemConfig where
  spaces := space :: spaces
  spaceselection := "random".toList
  groupdefault := []
  userdefault := []
  user_acl := []
  group_acl := []
  keeptime := 10
  releasekeeptime := 10
  maxduration := 100
  maxextensions := 10
  allocatable := true
  extendable := true
  restorable := true
  spaces_ne := List.cons_ne_nil _ _

/-- A configuration that sets nothing but one filesystem. -/
def Config.single (fs : Str) (fsconfig : FilesystemConfig) : Config where
  global :=
    { defaultWorkspace := []
      admins := []
      durationdefault := 30
      maxuserworkspaces := 0
      restorenosub := false }
  filesystems := [(fs, fsconfig)]
  sorted := List.pairwise_singleton ..

namespace Config

/-- `getFsConfig`; `none` is the `exit` for a name that is not configured. -/
def getFsConfig (config : Config) (fs : Str) : Option FilesystemConfig :=
  config.filesystems.lookup fs

@[simp] theorem getFsConfig_single {fs fs' : Str} {fsconfig fsconfig' : FilesystemConfig} :
    (single fs fsconfig).getFsConfig fs' = some fsconfig' ↔ fs' = fs ∧ fsconfig' = fsconfig := by
  rw [getFsConfig, single, List.lookup_cons]
  by_cases h : fs' = fs
  · rw [beq_iff_eq.mpr h]
    simp only [Option.some.injEq, h, true_and, eq_comm]
  · rw [beq_false_of_ne h]
    simp only [List.lookup_nil, reduceCtorEq, h, false_and]

/-- `Filesystems()`: the names, in order. -/
def Filesystems (config : Config) : List Str := config.filesystems.map Prod.fst

end Config

/-! ## Access control lists -/

/-- `\w` in the C locale -/
def isWord (c : Char) : Bool := isAsciiAlnum c || c == '_'

/-- The part `([^:]+)(:(\w+(,\w+)*)?)?$` of an entry: the id and the permissions. -/
def matchAclId (s : Str) : Option (Str × Str) :=
  match s.span (· != ':') with
  | ([], _) => none
  | (id, []) => some (id, [])
  | (id, _ :: permissions) =>
    if permissions == [] || (permissions.splitOn ',').all fun w => w != [] && w.all isWord then
      some (id, permissions)
    else none

/-- The entry matched by `^([-+])?([^:]+)(:(\w+(,\w+)*)?)?$`: a modifier that can not be split off
belongs to the id. -/
def matchAcl (entry : Str) : Option (Modifier × Str × Str) :=
  match entry with
  | '+' :: rest => ((matchAclId rest).orElse fun _ => matchAclId entry).map (Modifier.plus, ·)
  | '-' :: rest =>
    match matchAclId rest with
    | some m => some (Modifier.minus, m)
    | none => (matchAclId entry).map (Modifier.plus, ·)
  | _ => (matchAclId entry).map (Modifier.plus, ·)

/-- `utils::parseACL`: invalid entries and entries whose permissions are all unknown are
dropped. -/
def parseACL (acl : List Str) : List (Str × Modifier × List Intent) :=
  acl.filterMap fun entry =>
    match matchAcl entry with
    | none => none
    | some (modifier, id, permissions) =>
      let tokens := if permissions == [] then [] else permissions.splitOn ','
      let intents := tokens.filterMap (intentnames.lookup ·)
      if tokens != [] && intents == [] then none else some (id, modifier, intents)

/-- `aclEntryAllows`: no intents means all intents. -/
def aclEntryAllows (perm : Modifier × List Intent) (intent : Intent) : Bool :=
  if perm.2 == [] then perm.1 == .plus else (perm.1 == .plus) == perm.2.contains intent

/-- One list of `hasAccess`: matching entries replace the result so far, deny wins among them. -/
def checkACL (acl : List Str) (isMatch : Str → Bool) (intent : Intent) (ok : Bool) : Bool :=
  let matching := (parseACL acl).filter fun entry => isMatch entry.1
  if matching.isEmpty then ok else matching.all fun entry => aclEntryAllows entry.2 intent

namespace Config

/-- `hasAccess`: groups first, then users, then admins. -/
def hasAccess (config : Config) (user : Str) (groups : List Str) (fs : Str) (intent : Intent) :
    Bool :=
  match config.getFsConfig fs with
  | none => false
  | some fsconfig =>
    let ok :=
      if !fsconfig.user_acl.isEmpty || !fsconfig.group_acl.isEmpty then
        let ok := checkACL fsconfig.group_acl (groups.contains ·) intent false
        checkACL fsconfig.user_acl (· == user) intent ok
      else true
    config.global.admins.contains user || ok

/-- The first part of `validFilesystems`: user default, group default, global default. -/
def defaultFilesystems (config : Config) (user : Str) (groups : List Str) (intent : Intent) :
    List Str :=
  let access (fs : Str) : Bool := config.hasAccess user groups fs intent
  let userdefault := (config.filesystems.find? fun p =>
    p.2.userdefault.contains user && access p.1).map Prod.fst
  let validfs := userdefault.toList
  let groupdefault := (config.filesystems.find? fun p =>
    groups.any (p.2.groupdefault.contains ·) && access p.1 && !validfs.contains p.1).map Prod.fst
  let validfs := validfs ++ groupdefault.toList
  let default := config.global.defaultWorkspace
  if default != [] && access default && !validfs.contains default then validfs ++ [default]
  else validfs

/-- `validFilesystems`: the defaults, then all others with access. -/
def validFilesystems (config : Config) (user : Str) (groups : List Str) (intent : Intent) :
    List Str :=
  let validfs := config.defaultFilesystems user groups intent
  validfs ++ (config.Filesystems.filter fun fs =>
    config.hasAccess user groups fs intent && !validfs.contains fs)

/-! ## What access means -/

variable {config : Config} {user fs : Str} {groups : List Str} {intent : Intent}

/-- Access is granted to configured filesystems only. -/
theorem getFsConfig_of_hasAccess (h : config.hasAccess user groups fs intent) :
    ∃ fsconfig, config.getFsConfig fs = some fsconfig := by
  cases hfs : config.getFsConfig fs with
  | none => simp only [hasAccess, hfs, Bool.false_eq_true] at h
  | some fsconfig => exact ⟨fsconfig, rfl⟩

theorem mem_Filesystems_of_getFsConfig {fsconfig : FilesystemConfig}
    (h : config.getFsConfig fs = some fsconfig) : fs ∈ config.Filesystems := by
  obtain ⟨l₁, l₂, heq, -⟩ := List.lookup_eq_some_iff.mp h
  rw [Filesystems, heq, List.map_append]
  exact List.mem_append_right _ (List.mem_cons_self ..)

/-- A default is taken from the filesystems that pass its test. -/
theorem of_mem_find? {l : List (Str × FilesystemConfig)} {test : Str × FilesystemConfig → Bool}
    (h : fs ∈ ((l.find? test).map Prod.fst).toList) : ∃ p, p.1 = fs ∧ test p := by
  rw [Option.mem_toList, Option.map_eq_some_iff] at h
  obtain ⟨p, hp, rfl⟩ := h
  exact ⟨p, rfl, List.find?_some hp⟩

theorem hasAccess_of_mem_defaultFilesystems
    (h : fs ∈ config.defaultFilesystems user groups intent) :
    config.hasAccess user groups fs intent := by
  have hpair : ∀ {test : Str × FilesystemConfig → Bool} {l : List Str},
      fs ∈ ((config.filesystems.find? fun p => test p && config.hasAccess user groups p.1 intent).map
        Prod.fst).toList ++ ((config.filesystems.find? fun p => groups.any
          (p.2.groupdefault.contains ·) && config.hasAccess user groups p.1 intent &&
            !l.contains p.1).map Prod.fst).toList → config.hasAccess user groups fs intent := by
    intro test l hmem
    rcases List.mem_append.mp hmem with hmem | hmem
    · obtain ⟨p, rfl, hp⟩ := of_mem_find? hmem
      exact (Bool.and_eq_true_iff.mp hp).2
    · obtain ⟨p, rfl, hp⟩ := of_mem_find? hmem
      exact (Bool.and_eq_true_iff.mp (Bool.and_eq_true_iff.mp hp).1).2
  dsimp only [defaultFilesystems] at h
  split at h
  · rename_i hdefault
    rcases List.mem_append.mp h with h | h
    · exact hpair h
    · rw [List.mem_singleton.mp h]
      exact (Bool.and_eq_true_iff.mp (Bool.and_eq_true_iff.mp hdefault).1).2
  · exact hpair h

/-- The valid filesystems are those the user has access to. -/
theorem mem_validFilesystems :
    fs ∈ config.validFilesystems user groups intent ↔ config.hasAccess user groups fs intent := by
  rw [validFilesystems, List.mem_append, List.mem_filter, Bool.and_eq_true]
  constructor
  · rintro (hmem | ⟨-, haccess, -⟩)
    · exact hasAccess_of_mem_defaultFilesystems hmem
    · exact haccess
  · intro haccess
    obtain ⟨fsconfig, hfs⟩ := getFsConfig_of_hasAccess haccess
    rw [Bool.not_eq_true', ← Bool.not_eq_true, List.contains_iff_mem, or_iff_not_imp_left]
    exact fun hnot => ⟨mem_Filesystems_of_getFsConfig hfs, haccess, hnot⟩

/-- Appending what is not there yet keeps a list free of repetitions. -/
theorem nodup_append_of_notMem {l l' : List Str} (hl : l.Nodup) (hl' : l'.Nodup)
    (hnot : ∀ fs ∈ l', l.contains fs = false) : (l ++ l').Nodup := by
  refine List.nodup_append.mpr ⟨hl, hl', fun x hx y hy heq => ?_⟩
  have := hnot y hy
  rw [List.contains_eq_mem, decide_eq_false_iff_not] at this
  exact this (heq ▸ hx)

theorem nodup_defaultFilesystems : (config.defaultFilesystems user groups intent).Nodup := by
  have hpair : ∀ {test test' : Str × FilesystemConfig → Bool},
      (((config.filesystems.find? test).map Prod.fst).toList ++
        ((config.filesystems.find? fun p => test' p &&
          !((config.filesystems.find? test).map Prod.fst).toList.contains p.1).map
            Prod.fst).toList).Nodup := by
    intro test test'
    have hone : ∀ o : Option Str, o.toList.Nodup := fun o => by
      cases o
      · exact List.nodup_nil
      · exact List.nodup_singleton _
    refine nodup_append_of_notMem (hone _) (hone _) fun fs hmem => ?_
    obtain ⟨p, rfl, hp⟩ := of_mem_find? hmem
    exact Bool.not_eq_eq_eq_not.mp (Bool.and_eq_true_iff.mp hp).2
  dsimp only [defaultFilesystems]
  split
  · rename_i hdefault
    refine nodup_append_of_notMem hpair (List.nodup_singleton _) fun fs hmem => ?_
    rw [List.mem_singleton.mp hmem]
    exact Bool.not_eq_eq_eq_not.mp (Bool.and_eq_true_iff.mp hdefault).2
  · exact hpair

/-- Each filesystem is only once in the list. -/
theorem nodup_validFilesystems : (config.validFilesystems user groups intent).Nodup := by
  have hsorted : config.Filesystems.Nodup :=
    config.sorted.imp fun hlt heq => by
      rw [heq] at hlt
      exact absurd hlt (List.lt_irrefl _)
  refine nodup_append_of_notMem nodup_defaultFilesystems (hsorted.filter _) fun fs hmem => ?_
  exact Bool.not_eq_eq_eq_not.mp (Bool.and_eq_true_iff.mp (List.mem_filter.mp hmem).2).2

end Config

end HpcWorkspace
