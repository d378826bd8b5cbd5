import HpcWorkspace.ConfigFiles
import HpcWorkspace.Lib.Paths
import HpcWorkspace.Lib.Settling

/-!
# `ws_prepare`

Root calls `ws_prepare` to make the directories of a configuration and the magic files of the databases,
without which no tool opens a database. What is there already is left as it is, so a call can be
repeated.
-/

namespace HpcWorkspace

/-! ## Files -/

/-- What has a name. -/
inductive FileNode where
  /-- a directory with its mode and owners -/
  | dir (mode : ℕ) (uid gid : UInt32)
  /-- a file with its content -/
  | file (content : Str)
  /-- something else -/
  | other
  deriving DecidableEq

/-- Is it a directory? -/
def FileNode.isDir : FileNode → Bool
  | dir .. => true
  | _ => false

/-- What is found by its names from the root. -/
structure FileTree where
  /-- what has these names -/
  node : List Str → Option FileNode
  /-- the root is a directory -/
  root : (node []).any FileNode.isDir = true
  /-- what has a name is in a directory -/
  rooted : ∀ p name, (node (p ++ [name])).isSome = true → (node p).any FileNode.isDir = true

namespace FileTree

/-- `exists` -/
def exist (t : FileTree) (p : List Str) : Bool := (t.node p).isSome

/-- `is_directory` -/
def isDir (t : FileTree) (p : List Str) : Bool := (t.node p).any FileNode.isDir

theorem exist_of_isDir {t : FileTree} {p : List Str} (h : t.isDir p = true) : t.exist p = true := by
  rw [isDir] at h
  rw [exist]
  cases hp : t.node p with
  | none =>
    rw [hp] at h
    cases h
  | some n => rfl

theorem isDir_of_exist_append {t : FileTree} {p : List Str} {name : Str}
    (h : t.exist (p ++ [name]) = true) : t.isDir p = true := t.rooted p name h

/-- Something new in a directory; without the directory, or when the name is taken, nothing is
done. -/
def add (t : FileTree) (dir : List Str) (name : Str) (n : FileNode) : FileTree :=
  if h : t.isDir dir = true ∧ t.node (dir ++ [name]) = none then
    { node := Function.update t.node (dir ++ [name]) (some n)
      root := by
        rw [Function.update_of_ne fun hnil => by cases dir <;> cases hnil]
        exact t.root
      rooted := by
        intro p name' hsome
        have hp : t.isDir p = true := by
          by_cases heq : p ++ [name'] = dir ++ [name]
          · rw [(List.append_inj' heq rfl).1]
            exact h.1
          · rw [Function.update_of_ne heq] at hsome
            exact t.rooted p name' hsome
        have hne : p ≠ dir ++ [name] := by
          rintro rfl
          rw [isDir, h.2] at hp
          cases hp
        rw [Function.update_of_ne hne]
        exact hp }
  else t

/-- `chmod` and `chown` of a directory; without one they fail. -/
def setOwner (t : FileTree) (p : List Str) (mode : ℕ) (uid gid : UInt32) : FileTree :=
  if h : t.isDir p = true then
    have hdir : ∀ q, t.isDir q = true →
        (Function.update t.node p (some (.dir mode uid gid)) q).any FileNode.isDir = true := by
      intro q hq
      by_cases heq : q = p
      · rw [heq, Function.update_self]
        rfl
      · rw [Function.update_of_ne heq]
        exact hq
    { node := Function.update t.node p (some (.dir mode uid gid))
      root := hdir [] t.root
      rooted := by
        intro q name hsome
        apply hdir
        by_cases heq : q ++ [name] = p
        · exact t.rooted q name (heq ▸ exist_of_isDir h)
        · rw [Function.update_of_ne heq] at hsome
          exact t.rooted q name hsome }
  else t

/-- `create_directories` below a directory; a name that is no directory is in the way. -/
def createDirectories (t : FileTree) (parent : List Str) : List Str → FileTree
  | [] => t
  | name :: names =>
    match t.node (parent ++ [name]) with
    | none => (t.add parent name (.dir 0o755 0 0)).createDirectories (parent ++ [name]) names
    | some n => if n.isDir then t.createDirectories (parent ++ [name]) names else t

/-- `utils::writeFile` for a new file; without a directory it can not be opened. -/
def writeFile (t : FileTree) (dir : List Str) (name content : Str) : FileTree :=
  t.add dir name (.file content)

end FileTree

/-! ## The call -/

/-- `.ws_db_magic` -/
def magicName : Str := ".ws_db_magic".toList

/-- The names to a path, from the directory of the process. -/
def resolve (cwd : List Str) (p : Str) : List Str :=
  if Paths.isAbsolute '/' p then Paths.names '/' p else cwd ++ Paths.names '/' p

/-- A directory is made, unless it is there. -/
def prepareDir (global : RawGlobalConfig) (mode : ℕ) (p : List Str) (t : FileTree) : FileTree :=
  if t.exist p then t
  else (t.createDirectories [] p).setOwner p mode global.dbuid global.dbgid

/-- The magic file is written, unless it is there. -/
def prepareMagic (fs : Str) (dir : List Str) (t : FileTree) : FileTree :=
  if t.exist (dir ++ [magicName]) then t else t.writeFile dir magicName (fs ++ ['\n'])

/-- A space with its directory for deleted workspaces. -/
def prepareSpace (global : RawGlobalConfig) (cwd : List Str) (deletedPath : Str) (t : FileTree)
    (sp : Str) : FileTree :=
  let t := prepareDir global 0o755 (resolve cwd sp) t
  prepareDir global 0o700 (resolve cwd (Paths.join '/' sp deletedPath)) t

/-- The directories of a filesystem. -/
def prepareFs (global : RawGlobalConfig) (cwd : List Str) (t : FileTree)
    (p : Str × RawFilesystemConfig) : FileTree :=
  let t := prepareDir global 0o755 (resolve cwd p.2.database) t
  let t := prepareDir global 0o755 (resolve cwd (Paths.join '/' p.2.database p.2.deletedPath)) t
  let t := prepareMagic p.1 (resolve cwd p.2.database) t
  p.2.spaces.foldl (prepareSpace global cwd p.2.deletedPath) t

/-- `main` of `ws_prepare`, for root -/
def wsPrepare (config : RawConfig) (cwd : List Str) (t : FileTree) : FileTree :=
  if !config.validate then t
  else config.filesystems.entries.foldl (prepareFs config.global cwd) t

/-- `getFirstLine` -/
def getFirstLine (text : Str) : Str := text.takeWhile (· != '\n')

/-- `Config::openDB`: the database of a filesystem in a directory -/
def FileTree.openDB (t : FileTree) (fs : Str) (dir : List Str) : Bool :=
  match t.node (dir ++ [magicName]) with
  | some (.file content) => getFirstLine content == fs
  | _ => false

/-! ## What is there stays -/

namespace FileTree

variable {t t' t'' : FileTree} {parent names p dir : List Str} {name : Str} {n : FileNode}

/-- A tree in which at least the same things are. -/
def Adds (t t' : FileTree) : Prop := ∀ p n, t.node p = some n → t'.node p = some n

theorem Adds.refl (t : FileTree) : t.Adds t := fun _ _ h => h

theorem Adds.trans (h : t.Adds t') (h' : t'.Adds t'') : t.Adds t'' :=
  fun p n hp => h' p n (h p n hp)

theorem Adds.exist (h : t.Adds t') (hp : t.exist p = true) : t'.exist p = true := by
  obtain ⟨n, hn⟩ := Option.isSome_iff_exists.mp hp
  rw [FileTree.exist, h p n hn]
  rfl

theorem adds_add (t : FileTree) (dir : List Str) (name : Str) (n : FileNode) :
    t.Adds (t.add dir name n) := by
  intro q m hq
  rw [add]
  split
  · rename_i h
    have hne : q ≠ dir ++ [name] := by
      rintro rfl
      rw [h.2] at hq
      cases hq
    exact (Function.update_of_ne hne ..).trans hq
  · exact hq

theorem node_add (hdir : t.isDir dir = true) (hnone : t.node (dir ++ [name]) = none) :
    (t.add dir name n).node (dir ++ [name]) = some n := by
  rw [add, dif_pos ⟨hdir, hnone⟩]
  exact Function.update_self ..

theorem add_of_not_dir (h : t.isDir dir = false) : t.add dir name n = t := by
  rw [add, dif_neg fun hdir => by rw [h] at hdir; cases hdir.1]

theorem adds_createDirectories (t : FileTree) (parent names : List Str) :
    t.Adds (t.createDirectories parent names) := by
  induction names generalizing t parent with
  | nil => exact .refl t
  | cons name names ih =>
    rw [createDirectories]
    split
    · exact Adds.trans (adds_add t parent name _) (ih _ _)
    · split
      · exact ih _ _
      · exact .refl t

/-- What leads to something are directories. -/
theorem isDir_of_above (hp : t.exist p = true) {q : List Str} (hq : q <+: p) (hne : q ≠ p) :
    t.isDir q = true := by
  induction p using List.reverseRecOn with
  | nil => exact absurd (List.prefix_nil.mp hq) hne
  | append_singleton p name ih =>
    have hdir := isDir_of_exist_append hp
    rcases List.prefix_concat_iff.mp hq with heq | hq
    · exact absurd heq hne
    · by_cases heq : q = p
      · rw [heq]
        exact hdir
      · exact ih (exist_of_isDir hdir) hq heq

/-- Something that is no directory is in the way. -/
def Blocked (t : FileTree) (p : List Str) : Prop :=
  ∃ q n, q <+: p ∧ t.node q = some n ∧ n.isDir = false

theorem Blocked.adds (h : t.Blocked p) (hadds : t.Adds t') : t'.Blocked p := by
  obtain ⟨q, n, hq, hnode, hn⟩ := h
  exact ⟨q, n, hq, hadds q n hnode, hn⟩

theorem Blocked.not_isDir (h : t.Blocked p) : t.isDir p = false := by
  obtain ⟨q, n, hq, hnode, hn⟩ := h
  rw [← Bool.not_eq_true]
  intro hdir
  have hqdir : t.isDir q = true := by
    by_cases heq : q = p
    · rw [heq]
      exact hdir
    · exact isDir_of_above (exist_of_isDir hdir) hq heq
  rw [isDir, hnode] at hqdir
  exact Bool.false_ne_true (hn.symm.trans hqdir)

/-- When something is in the way, no directories are made. -/
theorem createDirectories_blocked (hparent : t.isDir parent = true)
    (h : t.Blocked (parent ++ names)) : t.createDirectories parent names = t := by
  induction names generalizing parent with
  | nil => rfl
  | cons name names ih =>
    have happ : parent ++ name :: names = (parent ++ [name]) ++ names := by
      rw [List.append_assoc, List.singleton_append]
    rw [createDirectories]
    split
    · rename_i hnone
      have hnot : t.isDir (parent ++ [name]) = false := by rw [isDir, hnone]; rfl
      obtain ⟨q, n, hq, hnode, hn⟩ := h
      have hexist : t.exist q = true := by rw [exist, hnode]; rfl
      have hother : t.isDir q = false := by rw [isDir, hnode]; exact hn
      have hpre : parent ++ [name] <+: parent ++ name :: names := happ ▸ List.prefix_append ..
      rcases List.prefix_or_prefix_of_prefix hq hpre with hbelow | habove
      · rcases List.prefix_concat_iff.mp hbelow with rfl | hbelow
        · rw [hnone] at hnode
          cases hnode
        · have hdir : t.isDir q = true := by
            by_cases heq : q = parent
            · rw [heq]
              exact hparent
            · exact isDir_of_above (exist_of_isDir hparent) hbelow heq
          exact absurd (hother.symm.trans hdir) Bool.false_ne_true
      · by_cases heq : parent ++ [name] = q
        · rw [← heq, hnone] at hnode
          cases hnode
        · exact absurd (hnot.symm.trans (isDir_of_above hexist habove heq)) Bool.false_ne_true
    · split
      · rename_i n hnode hdir
        refine ih ?_ (happ ▸ h)
        rw [isDir, hnode]
        exact hdir
      · rfl

/-- Either the directories are made, or something is in the way. -/
theorem isDir_createDirectories (hparent : t.isDir parent = true) :
    (t.createDirectories parent names).isDir (parent ++ names) = true ∨
      (t.createDirectories parent names).Blocked (parent ++ names) := by
  induction names generalizing t parent with
  | nil =>
    rw [List.append_nil]
    exact Or.inl hparent
  | cons name names ih =>
    have happ : parent ++ name :: names = (parent ++ [name]) ++ names := by
      rw [List.append_assoc, List.singleton_append]
    rw [createDirectories, happ]
    split
    · rename_i hnone
      refine ih ?_
      rw [isDir, node_add hparent hnone]
      rfl
    · split
      · rename_i n hnode hdir
        refine ih ?_
        rw [isDir, hnode]
        exact hdir
      · rename_i n hnode hdir
        exact Or.inr ⟨parent ++ [name], n, List.prefix_append .., hnode,
          Bool.not_eq_true _ ▸ hdir⟩

/-! ## Owners -/

theorem node_setOwner_ne {mode : ℕ} {uid gid : UInt32} {q : List Str} (h : q ≠ p) :
    (t.setOwner p mode uid gid).node q = t.node q := by
  rw [setOwner]
  split
  · exact Function.update_of_ne h ..
  · rfl

theorem node_setOwner_self {mode : ℕ} {uid gid : UInt32} (h : t.isDir p = true) :
    (t.setOwner p mode uid gid).node p = some (.dir mode uid gid) := by
  rw [setOwner, dif_pos h]
  exact Function.update_self ..

theorem setOwner_of_not_dir {mode : ℕ} {uid gid : UInt32} (h : t.isDir p = false) :
    t.setOwner p mode uid gid = t := by
  rw [setOwner, dif_neg fun hdir => by rw [h] at hdir; cases hdir]

/-! ## Each step settles something -/

/-- There is something, or something is in the way. -/
def Decided (t : FileTree) (p : List Str) : Prop := t.exist p = true ∨ t.Blocked p

/-- Where nothing is in the way there is a directory. -/
theorem Decided.isDir (h : t.Decided p) (hfree : ¬t.Blocked p) : t.isDir p = true := by
  have hexist := h.resolve_right hfree
  by_contra hdir
  obtain ⟨n, hn⟩ := Option.isSome_iff_exists.mp hexist
  rw [FileTree.isDir, hn] at hdir
  exact hfree ⟨p, n, List.prefix_refl p, hn, Bool.not_eq_true _ ▸ hdir⟩

theorem Decided.adds (h : t.Decided p) (hadds : t.Adds t') : t'.Decided p :=
  h.imp hadds.exist fun hblocked => hblocked.adds hadds

end FileTree

open FileTree

variable {global : RawGlobalConfig} {cwd : List Str}

theorem settles_prepareDir (global : RawGlobalConfig) (mode : ℕ) (p : List Str) :
    Settles Adds (fun _ => True) (prepareDir global mode p) (·.Decided p) where
  adds t := by
    rw [prepareDir]
    split
    · exact .refl t
    · rename_i hmissing
      intro q n hq
      have hne : q ≠ p := by
        rintro rfl
        exact hmissing (by rw [exist, hq]; rfl)
      rw [node_setOwner_ne hne]
      exact adds_createDirectories t [] p q n hq
  settled t _ := by
    rw [prepareDir]
    split
    · rename_i hthere
      exact Or.inl hthere
    · have hmade := @isDir_createDirectories t [] p t.root
      rw [List.nil_append] at hmade
      rcases hmade with hdir | hblocked
      · refine Or.inl ?_
        rw [exist, node_setOwner_self hdir]
        rfl
      · rw [setOwner_of_not_dir hblocked.not_isDir]
        exact Or.inr hblocked
  stable _ _ hadds h := h.adds hadds
  stays t h := by
    rw [prepareDir]
    split
    · rfl
    · rename_i hmissing
      have hblocked := h.resolve_left hmissing
      rw [createDirectories_blocked t.root hblocked, setOwner_of_not_dir hblocked.not_isDir]

theorem settles_prepareMagic (fs : Str) (dir : List Str) :
    Settles Adds (·.Decided dir) (prepareMagic fs dir)
      fun t => t.exist (dir ++ [magicName]) = true ∨ t.Blocked dir where
  adds t := by
    rw [prepareMagic]
    split
    · exact .refl t
    · exact adds_add _ _ _ _
  settled t hdecided := by
    rw [prepareMagic]
    split
    · rename_i hthere
      exact Or.inl hthere
    · rename_i hmissing
      by_cases hdir : t.isDir dir = true
      · refine Or.inl ?_
        have hnone : t.node (dir ++ [magicName]) = none := by
          rw [exist] at hmissing
          exact Option.not_isSome_iff_eq_none.mp hmissing
        rw [exist, writeFile, node_add hdir hnone]
        rfl
      · refine Or.inr (Blocked.adds ?_ (adds_add _ _ _ _))
        rcases hdecided with hexist | hblocked
        · obtain ⟨n, hn⟩ := Option.isSome_iff_exists.mp hexist
          refine ⟨dir, n, List.prefix_refl _, hn, ?_⟩
          rw [isDir, hn] at hdir
          exact Bool.not_eq_true _ ▸ hdir
        · exact hblocked
  stable _ _ hadds h := h.imp hadds.exist fun hblocked => hblocked.adds hadds
  stays t h := by
    rw [prepareMagic]
    split
    · rfl
    · rename_i hmissing
      exact add_of_not_dir (h.resolve_left hmissing).not_isDir

/-- What a filesystem needs: its directories and the magic file, or something is in the way. -/
structure Prepared (cwd : List Str) (p : Str × RawFilesystemConfig) (t : FileTree) : Prop where
  /-- the database -/
  database : t.Decided (resolve cwd p.2.database)
  /-- the deleted entries -/
  deleted : t.Decided (resolve cwd (Paths.join '/' p.2.database p.2.deletedPath))
  /-- the magic file -/
  magic : t.exist (resolve cwd p.2.database ++ [magicName]) = true ∨
    t.Blocked (resolve cwd p.2.database)
  /-- the spaces -/
  spaces : ∀ sp ∈ p.2.spaces, t.Decided (resolve cwd sp) ∧
    t.Decided (resolve cwd (Paths.join '/' sp p.2.deletedPath))

theorem adds_trans (t t' t'' : FileTree) (h : t.Adds t') (h' : t'.Adds t'') : t.Adds t'' := h.trans h'

theorem settles_prepareSpace (global : RawGlobalConfig) (cwd : List Str) (deletedPath sp : Str) :
    Settles Adds (fun _ => True) (prepareSpace global cwd deletedPath · sp) fun t =>
      t.Decided (resolve cwd sp) ∧ t.Decided (resolve cwd (Paths.join '/' sp deletedPath)) :=
  (settles_prepareDir global 0o755 (resolve cwd sp)).comp adds_trans
    ((settles_prepareDir global 0o700 (resolve cwd (Paths.join '/' sp deletedPath))).of_imp
      fun _ _ => trivial)

theorem settles_prepareFs (global : RawGlobalConfig) (cwd : List Str)
    (p : Str × RawFilesystemConfig) :
    Settles Adds (fun _ => True) (prepareFs global cwd · p) (Prepared cwd p) := by
  have hdatabase := settles_prepareDir global 0o755 (resolve cwd p.2.database)
  have hdeleted := settles_prepareDir global 0o755
    (resolve cwd (Paths.join '/' p.2.database p.2.deletedPath))
  have hmagic := settles_prepareMagic p.1 (resolve cwd p.2.database)
  have hspaces := Settles.foldl Adds.refl adds_trans
    (settles_prepareSpace global cwd p.2.deletedPath) p.2.spaces
  have hall := ((hdatabase.comp adds_trans (hdeleted.of_imp fun _ _ => trivial)).comp adds_trans
    (hmagic.of_imp fun _ h => h.1)).comp adds_trans (hspaces.of_imp fun _ _ => trivial)
  refine ⟨hall.adds, fun t ht => ?_, fun t t' hadds h => ?_, fun t h => ?_⟩
  · obtain ⟨⟨⟨hdb, hdel⟩, hmagic⟩, hsp⟩ := hall.settled t ht
    exact ⟨hdb, hdel, hmagic, hsp⟩
  · obtain ⟨⟨⟨hdb, hdel⟩, hmagic⟩, hsp⟩ :=
      hall.stable t t' hadds ⟨⟨⟨h.database, h.deleted⟩, h.magic⟩, h.spaces⟩
    exact ⟨hdb, hdel, hmagic, hsp⟩
  · exact hall.stays t ⟨⟨⟨h.database, h.deleted⟩, h.magic⟩, h.spaces⟩

theorem settles_wsPrepare (config : RawConfig) (hvalid : config.validate = true) :
    Settles Adds (fun _ => True) (wsPrepare config cwd)
      fun t => ∀ p ∈ config.filesystems.entries, Prepared cwd p t := by
  have hfold := Settles.foldl Adds.refl adds_trans
    (settles_prepareFs config.global cwd) config.filesystems.entries
  have hmain : wsPrepare config cwd =
      fun t => config.filesystems.entries.foldl (prepareFs config.global cwd) t := by
    funext t
    rw [wsPrepare, hvalid]
    rfl
  rw [hmain]
  exact hfold

/-! ## What is not touched -/

section Frame

variable {t : FileTree} {q : List Str}

theorem node_add_ne {dir : List Str} {name : Str} {n : FileNode} (h : q ≠ dir ++ [name]) :
    (t.add dir name n).node q = t.node q := by
  rw [add]
  split
  · exact Function.update_of_ne h ..
  · rfl

theorem node_createDirectories {parent names : List Str} (h : ¬q <+: parent ++ names) :
    (t.createDirectories parent names).node q = t.node q := by
  induction names generalizing t parent with
  | nil => rfl
  | cons name names ih =>
    have happ : parent ++ name :: names = (parent ++ [name]) ++ names := by
      rw [List.append_assoc, List.singleton_append]
    rw [happ] at h
    rw [createDirectories]
    split
    · rw [ih h, node_add_ne]
      rintro rfl
      exact h (List.prefix_append ..)
    · split
      · exact ih h
      · rfl

theorem node_prepareDir {mode : ℕ} {p : List Str} (h : ¬q <+: p) :
    (prepareDir global mode p t).node q = t.node q := by
  rw [prepareDir]
  split
  · rfl
  · have hne : q ≠ p := by
      rintro rfl
      exact h (List.prefix_refl q)
    rw [node_setOwner_ne hne, node_createDirectories]
    rwa [List.nil_append]

theorem node_prepareMagic {fs : Str} {dir : List Str} (h : q ≠ dir ++ [magicName]) :
    (prepareMagic fs dir t).node q = t.node q := by
  rw [prepareMagic]
  split
  · rfl
  · exact node_add_ne h

/-- The directories of a filesystem. -/
def fsDirs (cwd : List Str) (p : Str × RawFilesystemConfig) : List (List Str) :=
  resolve cwd p.2.database :: resolve cwd (Paths.join '/' p.2.database p.2.deletedPath) ::
    p.2.spaces.flatMap fun sp => [resolve cwd sp, resolve cwd (Paths.join '/' sp p.2.deletedPath)]

theorem node_prepareSpaces {deletedPath : Str} {spaces : List Str}
    (h : ∀ sp ∈ spaces, ¬q <+: resolve cwd sp ∧
      ¬q <+: resolve cwd (Paths.join '/' sp deletedPath)) :
    (spaces.foldl (prepareSpace global cwd deletedPath) t).node q = t.node q := by
  induction spaces generalizing t with
  | nil => rfl
  | cons sp spaces ih =>
    obtain ⟨hsp, hdeleted⟩ := h sp (List.mem_cons_self ..)
    rw [List.foldl_cons, ih fun sp' hsp' => h sp' (List.mem_cons_of_mem _ hsp'), prepareSpace,
      node_prepareDir hdeleted, node_prepareDir hsp]

/-- Paths that lead elsewhere. -/
theorem not_prefix_spaces {p : Str × RawFilesystemConfig} (h : ∀ d ∈ fsDirs cwd p, ¬q <+: d) :
    ∀ sp ∈ p.2.spaces, ¬q <+: resolve cwd sp ∧
      ¬q <+: resolve cwd (Paths.join '/' sp p.2.deletedPath) := by
  intro sp hsp
  have hmem : ∀ d ∈ [resolve cwd sp, resolve cwd (Paths.join '/' sp p.2.deletedPath)],
      d ∈ fsDirs cwd p := fun d hd =>
    List.mem_cons_of_mem _ (List.mem_cons_of_mem _ (List.mem_flatMap.mpr ⟨sp, hsp, hd⟩))
  exact ⟨h _ (hmem _ (List.mem_cons_self ..)),
    h _ (hmem _ (List.mem_cons_of_mem _ (List.mem_singleton_self _)))⟩

theorem node_prepareFs {p : Str × RawFilesystemConfig} (h : ∀ d ∈ fsDirs cwd p, ¬q <+: d)
    (hmagic : q ≠ resolve cwd p.2.database ++ [magicName]) :
    (prepareFs global cwd t p).node q = t.node q := by
  rw [prepareFs, node_prepareSpaces (not_prefix_spaces h), node_prepareMagic hmagic,
    node_prepareDir (h _ (List.mem_cons_of_mem _ (List.mem_cons_self ..))),
    node_prepareDir (h _ (List.mem_cons_self ..))]

theorem node_prepareFss {l : List (Str × RawFilesystemConfig)}
    (h : ∀ p ∈ l, (∀ d ∈ fsDirs cwd p, ¬q <+: d) ∧ q ≠ resolve cwd p.2.database ++ [magicName]) :
    (l.foldl (prepareFs global cwd) t).node q = t.node q := by
  induction l generalizing t with
  | nil => rfl
  | cons p l ih =>
    obtain ⟨hdirs, hmagic⟩ := h p (List.mem_cons_self ..)
    rw [List.foldl_cons, ih fun p' hp' => h p' (List.mem_cons_of_mem _ hp'),
      node_prepareFs hdirs hmagic]

end Frame

/-! ## Databases -/

/-- The magic file of a filesystem is nobody else's. -/
structure OwnMagic (config : RawConfig) (cwd : List Str) (p : Str × RawFilesystemConfig) : Prop where
  /-- the name is one line -/
  line : '\n' ∉ p.1
  /-- no other filesystem has its database in the same directory -/
  database : ∀ p' ∈ config.filesystems.entries, p'.1 ≠ p.1 →
    resolve cwd p'.2.database ≠ resolve cwd p.2.database
  /-- and no path of the configuration leads through the file -/
  path : ∀ p' ∈ config.filesystems.entries, ∀ d ∈ fsDirs cwd p',
    ¬resolve cwd p.2.database ++ [magicName] <+: d

theorem getFirstLine_magic {fs : Str} (h : '\n' ∉ fs) : getFirstLine (fs ++ ['\n']) = fs := by
  have hall : ∀ c ∈ fs, (c != '\n') = true := by
    intro c hc
    rw [bne_iff_ne]
    rintro rfl
    exact h hc
  rw [getFirstLine, List.takeWhile_append_of_pos hall]
  exact List.append_nil fs

/-- A filesystem without a magic file gets one. -/
theorem node_magic_prepareFs {p : Str × RawFilesystemConfig} {t : FileTree}
    (hpath : ∀ d ∈ fsDirs cwd p, ¬resolve cwd p.2.database ++ [magicName] <+: d)
    (hnone : t.node (resolve cwd p.2.database ++ [magicName]) = none)
    (hfree : ¬(prepareFs global cwd t p).Blocked (resolve cwd p.2.database)) :
    (prepareFs global cwd t p).node (resolve cwd p.2.database ++ [magicName]) =
      some (.file (p.1 ++ ['\n'])) := by
  have hdatabase := settles_prepareDir global 0o755 (resolve cwd p.2.database)
  have hdeleted := settles_prepareDir global 0o755
    (resolve cwd (Paths.join '/' p.2.database p.2.deletedPath))
  have hspaces := Settles.foldl Adds.refl adds_trans
    (settles_prepareSpace global cwd p.2.deletedPath) p.2.spaces
  rw [prepareFs] at hfree ⊢
  rw [node_prepareSpaces (not_prefix_spaces hpath)]
  have hdecided := ((hdatabase.settled t trivial).adds
    (hdeleted.adds (prepareDir global 0o755 (resolve cwd p.2.database) t)))
  have hnone₂ := hnone
  rw [← @node_prepareDir global t _ 0o755 _ (hpath _ (List.mem_cons_self ..)),
    ← @node_prepareDir global _ _ 0o755 _ (hpath _ (List.mem_cons_of_mem _ (List.mem_cons_self ..)))]
    at hnone₂
  generalize prepareDir global 0o755 (resolve cwd (Paths.join '/' p.2.database p.2.deletedPath))
    (prepareDir global 0o755 (resolve cwd p.2.database) t) = t₂ at hfree hdecided hnone₂ ⊢
  have hdir : t₂.isDir (resolve cwd p.2.database) = true := by
    refine hdecided.isDir fun hblocked => hfree ?_
    exact (hblocked.adds ((settles_prepareMagic p.1 _).adds t₂)).adds (hspaces.adds _)
  have hmissing : ¬t₂.exist (resolve cwd p.2.database ++ [magicName]) = true := by
    rw [exist, hnone₂]
    exact Bool.false_ne_true
  rw [prepareMagic, if_neg hmissing, writeFile, node_add hdir hnone₂]

/-- **`ws_prepare` can be repeated.** Whatever is there before, it stays as it is; each directory of the
configuration and each magic file is there afterwards, or something is in the way that is none; and
the second call does nothing. Databases that could be opened can still be opened, and no others of those
that had a magic file; a filesystem that had none can be opened now, when its database is its own and
nothing is in the way. -/
theorem wsPrepare_settles (config : RawConfig) (hvalid : config.validate = true) (cwd : List Str)
    (t : FileTree) :
    t.Adds (wsPrepare config cwd t) ∧
      wsPrepare config cwd (wsPrepare config cwd t) = wsPrepare config cwd t ∧
      ∀ p ∈ config.filesystems.entries, Prepared cwd p (wsPrepare config cwd t) ∧
        (t.exist (resolve cwd p.2.database ++ [magicName]) = true →
          (wsPrepare config cwd t).openDB p.1 (resolve cwd p.2.database) =
            t.openDB p.1 (resolve cwd p.2.database)) ∧
        (t.exist (resolve cwd p.2.database ++ [magicName]) = false → OwnMagic config cwd p →
          ¬(wsPrepare config cwd t).Blocked (resolve cwd p.2.database) →
            (wsPrepare config cwd t).openDB p.1 (resolve cwd p.2.database) = true) := by
  have hall := @settles_wsPrepare cwd config hvalid
  have hadds := hall.adds t
  refine ⟨hadds, hall.idempotent trivial, fun p hp => ⟨hall.settled t trivial p hp, ?_, ?_⟩⟩
  · intro hexist
    obtain ⟨n, hn⟩ := Option.isSome_iff_exists.mp hexist
    rw [openDB, openDB, hn, hadds _ _ hn]
  · intro hmissing hown hfree
    have hnone : t.node (resolve cwd p.2.database ++ [magicName]) = none := by
      rw [exist] at hmissing
      exact Option.isSome_eq_false_iff.mp hmissing |> Option.isNone_iff_eq_none.mp
    obtain ⟨before, after, hsplit⟩ := List.append_of_mem hp
    have hmain : wsPrepare config cwd t = after.foldl (prepareFs config.global cwd)
        (prepareFs config.global cwd (before.foldl (prepareFs config.global cwd) t) p) := by
      rw [wsPrepare, hvalid, hsplit, List.foldl_append, List.foldl_cons]
      rfl
    have hothers : ∀ p' ∈ before, p'.1 ≠ p.1 := by
      intro p' hp'
      have hsorted := config.filesystems.sorted
      rw [hsplit, List.map_append, List.map_cons, List.pairwise_append] at hsorted
      exact ne_of_lt (hsorted.2.2 p'.1 (List.mem_map_of_mem hp') p.1 (List.mem_cons_self ..))
    have hbefore : (before.foldl (prepareFs config.global cwd) t).node
        (resolve cwd p.2.database ++ [magicName]) = none := by
      rw [node_prepareFss fun p' hp' => ?_]
      · exact hnone
      · have hmem : p' ∈ config.filesystems.entries := hsplit ▸ List.mem_append_left _ hp'
        refine ⟨hown.path p' hmem, fun heq => ?_⟩
        exact hown.database p' hmem (hothers p' hp') (List.append_inj_left' heq rfl).symm
    have hafter := Settles.foldl Adds.refl adds_trans (settles_prepareFs config.global cwd) after
    have hwritten := node_magic_prepareFs (hown.path p hp) hbefore fun hblocked =>
      hfree (hmain ▸ hblocked.adds (hafter.adds _))
    have hnode := hafter.adds _ _ _ hwritten
    rw [← hmain] at hnode
    rw [openDB, hnode]
    exact beq_iff_eq.mpr (getFirstLine_magic hown.line)

/-- Only the root. -/
def FileTree.onlyRoot : FileTree where
  node p := if p = [] then some (.dir 0o755 0 0) else none
  root := rfl
  rooted := by
    intro p name h
    rw [if_neg (List.append_ne_nil_of_right_ne_nil p (List.cons_ne_nil name []))] at h
    cases h

/-- A configuration with one filesystem. -/
def oneSpace : RawConfig where
  global :=
    { RawGlobalConfig.defaults with
      clustername := ['c'], defaultWorkspace := ['w'], dbuid := 1, dbgid := 1 }
  filesystems :=
    { entries :=
        [(['w'],
          { name := ['w']
            comment := []
            spaces := ["/s".toList]
            spaceselection := "random".toList
            deletedPath := ['d']
            database := "/b".toList
            groupdefault := []
            userdefault := []
            user_acl := []
            group_acl := []
            keeptime := 10
            releasekeeptime := 10
            maxduration := 100
            maxextensions := 10
            expirationmail := true
            allocatable := true
            extendable := true
            restorable := true })]
      sorted := List.pairwise_singleton .. }

/-- The first call makes the database, the second one does nothing. -/
theorem wsPrepare_settles_onlyRoot :
    FileTree.onlyRoot.openDB ['w'] [['b']] = false ∧
      (wsPrepare oneSpace [] .onlyRoot).openDB ['w'] [['b']] = true ∧
      (wsPrepare oneSpace [] .onlyRoot).node [['b']] = some (.dir 0o755 1 1) ∧
      wsPrepare oneSpace [] (wsPrepare oneSpace [] .onlyRoot) = wsPrepare oneSpace [] .onlyRoot := by
  obtain ⟨-, hsecond, hall⟩ := wsPrepare_settles oneSpace (by decide) [] .onlyRoot
  obtain ⟨-, -, hopen⟩ := hall _ (List.mem_singleton_self _)
  have hdir : (wsPrepare oneSpace [] .onlyRoot).isDir [['b']] = true := by decide
  refine ⟨by decide, ?_, by decide, hsecond⟩
  refine hopen (by decide) ⟨by decide, by decide, by decide⟩ fun hblocked => ?_
  exact Bool.false_ne_true (hblocked.not_isDir.symm.trans hdir)

end HpcWorkspace
