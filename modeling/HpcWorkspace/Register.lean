import HpcWorkspace.FilePaths

/-!
# `ws_register`

A call keeps a directory with a subdirectory for each filesystem the user may list, in which his
workspaces have links under the names of their directories. It makes the links that are missing and
removes those that have no workspace. A link that is there is kept when a workspace has its name; where
it leads is not looked at.
-/

namespace HpcWorkspace

/-! ## Directories with links -/

/-- What has a name in a directory. -/
inductive LinkNode where
  /-- a symbolic link with its target -/
  | symlink (target : Str)
  /-- something else -/
  | other
  deriving DecidableEq

/-- A directory of `ws_register`. -/
abbrev LinkDir := AList fun _ : Str => LinkNode

namespace LinkDir

/-- What is found under a name; without a name it is the directory itself. -/
def node (dir : LinkDir) (name : Str) : Option LinkNode :=
  if name == [] || name == ['.'] || name == ['.', '.'] then some .other else dir.lookup name

/-- `!exists && !is_symlink`, then `create_symlink`. -/
def createMissing (dir : LinkDir) (name target : Str) : LinkDir :=
  if (dir.node name).isNone then dir.insert name (.symlink target) else dir

/-- `is_symlink` -/
def isSymlink (dir : LinkDir) (name : Str) : Bool :=
  match dir.node name with
  | some (.symlink _) => true
  | _ => false

/-- A link that is not in the list is removed. -/
def removeStale (keeplist : List Str) (dir : LinkDir) (name : Str) : LinkDir :=
  if dir.isSymlink name && !keeplist.contains name then dir.erase name else dir

end LinkDir

/-! ## The call -/

/-- The first loop: a workspace that was matched. -/
def registerEntry (w : World) (fs : Str) (st : LinkDir × List Str) (id : Str) :
    LinkDir × List Str :=
  match w.readEntry fs .live id with
  | none => st
  | some e =>
    (st.1.createMissing e.workspace.name e.workspace.str, st.2 ++ [e.workspace.name])

/-- The loops for a filesystem. -/
def registerFs (w : World) (username fs : Str) (dir : LinkDir) : LinkDir :=
  if !w.openDB fs then dir
  else
    let st := (w.matchPattern fs .live ['*'] username).foldl (registerEntry w fs) (dir, [])
    -- other files than links are listed as well, but not removed
    (st.1.keys.filter (globMatch (wsid username ['*']) ·)).foldl (LinkDir.removeStale st.2) st.1

/-- `ws_register`: the subdirectories of the filesystems, before and after. -/
def wsRegister (config : Config) (c : Caller) (w : World) (dirs : Str → LinkDir) : Str → LinkDir :=
  (config.validFilesystems c.username c.groups .list).foldl
    (fun dirs fs => Function.update dirs fs (registerFs w c.username fs (dirs fs))) dirs

/-! ## In sync -/

/-- The workspaces of a user in a filesystem. -/
def matchedWorkspaces (w : World) (username fs : Str) : List WsPath :=
  (w.matchPattern fs .live ['*'] username).filterMap fun id =>
    (w.readEntry fs .live id).map DBEntry.workspace

/-- A directory in sync with the workspaces; `realpath` says to which directory a target leads. -/
structure InSync (realpath : Str → Option WsPath) (w : World) (username fs : Str) (dir : LinkDir) :
    Prop where
  /-- each workspace has a link that leads to it -/
  linked : ∀ p ∈ matchedWorkspaces w username fs,
    ∃ target, dir.node p.name = some (.symlink target) ∧ realpath target = some p
  /-- no other link has a name of the user's -/
  others : ∀ name target, dir.node name = some (.symlink target) → wsid username [] <+: name →
    ∃ p ∈ matchedWorkspaces w username fs, p.name = name

/-- What a directory must be like for a call to bring it in sync. -/
structure Registrable (realpath : Str → Option WsPath) (w : World) (username fs : Str)
    (dir : LinkDir) : Prop where
  /-- links with the name of a workspace lead to it already -/
  links : ∀ p ∈ matchedWorkspaces w username fs, ∀ target,
    dir.node p.name = some (.symlink target) → realpath target = some p
  /-- workspaces that need a link do not share a name -/
  distinct : ∀ p ∈ matchedWorkspaces w username fs, ∀ q ∈ matchedWorkspaces w username fs,
    dir.node p.name = none → p.name = q.name → p = q
  /-- the pattern finds the names of the user's that have no workspace -/
  globbed : ∀ name target, dir.node name = some (.symlink target) → wsid username [] <+: name →
    globMatch (wsid username ['*']) name = true ∨
      ∃ p ∈ matchedWorkspaces w username fs, p.name = name

/-! ## What the loops do -/

namespace LinkDir

variable {dir : LinkDir}

theorem isSymlink_iff {name : Str} :
    dir.isSymlink name = true ↔ ∃ target, dir.node name = some (.symlink target) := by
  unfold isSymlink
  split
  · rename_i target hnode
    exact iff_of_true rfl ⟨target, hnode⟩
  · rename_i hno
    exact iff_of_false (fun h => by cases h) fun ⟨target, hnode⟩ => hno target hnode

theorem lookup_eq_node {name : Str} (h : dir.isSymlink name = true) :
    dir.lookup name = dir.node name := by
  obtain ⟨target, hnode⟩ := isSymlink_iff.1 h
  unfold node at hnode ⊢
  split
  · rename_i hdir
    rw [if_pos hdir] at hnode
    cases hnode
  · rfl

theorem node_of_lookup_eq {dir' : LinkDir} {name : Str} (h : dir'.lookup name = dir.lookup name) :
    dir'.node name = dir.node name := by
  rw [node, node, h]

theorem node_createMissing (dir : LinkDir) (name target n : Str) :
    (dir.createMissing name target).node n =
      (dir.node n).or (if name = n then some (.symlink target) else none) := by
  unfold createMissing
  split
  · rename_i hmissing
    rw [Option.isNone_iff_eq_none] at hmissing
    by_cases hn : name = n
    · subst hn
      rw [hmissing, if_pos rfl, Option.none_or]
      unfold node at hmissing ⊢
      split
      · rename_i hdir
        rw [if_pos hdir] at hmissing
        cases hmissing
      · exact AList.lookup_insert dir
    · rw [if_neg hn, Option.or_none]
      exact node_of_lookup_eq (AList.lookup_insert_ne (Ne.symm hn))
  · rename_i hsome
    split
    · rename_i hn
      subst hn
      cases hnode : dir.node name with
      | none =>
        rw [hnode] at hsome
        exact absurd rfl hsome
      | some x => rfl
    · rw [Option.or_none]

theorem node_erase {name : Str} (h : dir.isSymlink name = true) (n : Str) :
    node (dir.erase name) n = if n = name then none else dir.node n := by
  split
  · rename_i hn
    subst hn
    have hlook := lookup_eq_node h
    obtain ⟨target, hnode⟩ := isSymlink_iff.1 h
    unfold node at hlook hnode ⊢
    split
    · rename_i hdir
      rw [if_pos hdir] at hnode
      cases hnode
    · exact AList.lookup_erase n dir
  · rename_i hn
    exact node_of_lookup_eq (AList.lookup_erase_ne hn)

theorem node_removeStale (dir : LinkDir) (keeplist : List Str) (name n : Str) :
    (removeStale keeplist dir name).node n =
      if n = name ∧ dir.isSymlink n = true ∧ keeplist.contains n = false then none
      else dir.node n := by
  unfold removeStale
  split
  · rename_i hstale
    rw [Bool.and_eq_true, Bool.not_eq_true'] at hstale
    rw [node_erase hstale.1]
    by_cases hn : n = name
    · subst hn
      rw [if_pos rfl, if_pos ⟨rfl, hstale⟩]
    · rw [if_neg hn, if_neg fun h => hn h.1]
  · rename_i hkept
    rw [Bool.and_eq_true, Bool.not_eq_true'] at hkept
    rw [if_neg]
    rintro ⟨rfl, hstale⟩
    exact hkept hstale

/-- **The second loop** removes the links in its list that are not kept. -/
theorem node_foldl_removeStale (dir : LinkDir) (keeplist names : List Str) (n : Str) :
    (names.foldl (removeStale keeplist) dir).node n =
      if n ∈ names ∧ dir.isSymlink n = true ∧ keeplist.contains n = false then none
      else dir.node n := by
  induction names generalizing dir with
  | nil => rw [if_neg fun h => by cases h.1]; rfl
  | cons name names ih =>
    have hstep := dir.node_removeStale keeplist name n
    rw [List.foldl_cons, ih]
    by_cases hstale : n = name ∧ dir.isSymlink n = true ∧ keeplist.contains n = false
    · rw [if_pos hstale] at hstep
      have hgone : ¬(removeStale keeplist dir name).isSymlink n = true := by
        rw [isSymlink, hstep]
        exact Bool.false_ne_true
      rw [if_neg fun h => hgone h.2.1, hstep,
        if_pos ⟨List.mem_cons.2 (Or.inl hstale.1), hstale.2⟩]
    · rw [if_neg hstale] at hstep
      have hsame : (removeStale keeplist dir name).isSymlink n = dir.isSymlink n := by
        rw [isSymlink, isSymlink, hstep]
      have hlisted : n ∈ names ∧ dir.isSymlink n = true ∧ keeplist.contains n = false ↔
          n ∈ name :: names ∧ dir.isSymlink n = true ∧ keeplist.contains n = false := by
        rw [List.mem_cons]
        exact ⟨fun h => ⟨Or.inr h.1, h.2⟩, fun h => ⟨h.1.resolve_left fun hn =>
          hstale ⟨hn, h.2⟩, h.2⟩⟩
      rw [hsame, hstep, if_congr hlisted rfl rfl]

end LinkDir

variable {w : World} {username fs : Str}

/-- The first loop, over the workspaces that are matched. -/
theorem foldl_registerEntry (ids : List Str) (st : LinkDir × List Str) :
    ids.foldl (registerEntry w fs) st =
      (ids.filterMap fun id => (w.readEntry fs .live id).map DBEntry.workspace).foldl
        (fun st p => (st.1.createMissing p.name p.str, st.2 ++ [p.name])) st := by
  induction ids generalizing st with
  | nil => rfl
  | cons id ids ih =>
    rw [List.foldl_cons, ih, registerEntry]
    cases hread : w.readEntry fs .live id with
    | none => rw [List.filterMap_cons_none (by rw [hread]; rfl)]
    | some e =>
      rw [List.filterMap_cons_some (b := e.workspace) (by rw [hread]; rfl), List.foldl_cons]

/-- **The first loop** keeps what is there, makes the links that are missing, each to the first workspace
of its name, and collects the names. -/
theorem foldl_createMissing (workspaces : List WsPath) (dir : LinkDir) (keeplist : List Str) :
    (∀ n, LinkDir.node (workspaces.foldl (fun st p =>
        (st.1.createMissing p.name p.str, st.2 ++ [p.name])) (dir, keeplist)).1 n =
      (dir.node n).or ((workspaces.find? (·.name == n)).map fun p => .symlink p.str)) ∧
    (workspaces.foldl (fun st p => (st.1.createMissing p.name p.str, st.2 ++ [p.name]))
      (dir, keeplist)).2 = keeplist ++ workspaces.map WsPath.name := by
  induction workspaces generalizing dir keeplist with
  | nil => exact ⟨fun n => (Option.or_none ..).symm, (List.append_nil _).symm⟩
  | cons p workspaces ih =>
    obtain ⟨hnode, hkeep⟩ := ih (dir.createMissing p.name p.str) (keeplist ++ [p.name])
    refine ⟨fun n => ?_, ?_⟩
    · rw [List.foldl_cons, hnode, LinkDir.node_createMissing, Option.or_assoc, List.find?_cons]
      congr 1
      by_cases hn : p.name = n
      · rw [if_pos hn, beq_iff_eq.2 hn]
        rfl
      · rw [if_neg hn, beq_false_of_ne hn, Option.none_or]
    · rw [List.foldl_cons, hkeep, List.append_assoc]
      rfl

/-- **What a call does** in a filesystem whose database is opened: a link with a name of the user's
that has no workspace is gone, everything else is kept, and the missing links are there. -/
theorem node_registerFs (hopen : w.openDB fs = true) (dir : LinkDir) (n : Str) :
    (registerFs w username fs dir).node n =
      if globMatch (wsid username ['*']) n = true ∧ dir.isSymlink n = true ∧
          n ∉ (matchedWorkspaces w username fs).map WsPath.name then none
      else (dir.node n).or (((matchedWorkspaces w username fs).find? (·.name == n)).map
        fun p => .symlink p.str) := by
  obtain ⟨hnode, hkeep⟩ := foldl_createMissing (matchedWorkspaces w username fs) dir []
  unfold registerFs
  rw [hopen, if_neg (by decide)]
  dsimp only
  rw [foldl_registerEntry, ← matchedWorkspaces]
  generalize (matchedWorkspaces w username fs).foldl (fun st p =>
    (LinkDir.createMissing st.1 p.name p.str, st.2 ++ [p.name])) (dir, []) = st at hnode hkeep ⊢
  rw [LinkDir.node_foldl_removeStale, hkeep, List.nil_append, ← hnode n]
  refine if_congr ?_ rfl rfl
  rw [List.mem_filter, List.contains_eq_mem, decide_eq_false_iff_not]
  -- where no workspace has the name, nothing was made
  have hsame : n ∉ (matchedWorkspaces w username fs).map WsPath.name →
      st.1.isSymlink n = dir.isSymlink n := by
    intro hno
    have hfind : (matchedWorkspaces w username fs).find? (·.name == n) = none :=
      List.find?_eq_none.2 fun p hp heq => hno (List.mem_map.2 ⟨p, hp, beq_iff_eq.1 heq⟩)
    have heq := hnode n
    rw [hfind, Option.map_none, Option.or_none] at heq
    rw [LinkDir.isSymlink, LinkDir.isSymlink, heq]
  constructor
  · rintro ⟨⟨-, hglob⟩, hlink, hno⟩
    exact ⟨hglob, hsame hno ▸ hlink, hno⟩
  · rintro ⟨hglob, hlink, hno⟩
    rw [← hsame hno] at hlink
    refine ⟨⟨?_, hglob⟩, hlink, hno⟩
    obtain ⟨target, htarget⟩ := LinkDir.isSymlink_iff.1 hlink
    rw [← LinkDir.lookup_eq_node hlink] at htarget
    exact AList.lookup_isSome.1 (by rw [htarget]; rfl)

/-! ## Bringing a directory in sync -/

variable {realpath : Str → Option WsPath} {dir : LinkDir}

/-- Under the name of a workspace a call keeps what is there, or makes the link. -/
theorem node_registerFs_matched (hopen : w.openDB fs = true) {p : WsPath}
    (hp : p ∈ matchedWorkspaces w username fs) :
    (registerFs w username fs dir).node p.name =
      (dir.node p.name).or (((matchedWorkspaces w username fs).find? (·.name == p.name)).map
        fun p => .symlink p.str) := by
  rw [node_registerFs hopen, if_neg]
  exact fun h => h.2.2 (List.mem_map_of_mem hp)

theorem InSync.registrable (hopen : w.openDB fs = true)
    (h : InSync realpath w username fs (registerFs w username fs dir)) :
    Registrable realpath w username fs dir where
  links p hp target hnode := by
    obtain ⟨target', hnode', htarget'⟩ := h.linked p hp
    rw [node_registerFs_matched hopen hp, hnode] at hnode'
    obtain rfl := LinkNode.symlink.inj (Option.some.inj hnode')
    exact htarget'
  distinct p hp q hq hnone hname := by
    obtain ⟨target, hnode, htarget⟩ := h.linked p hp
    obtain ⟨target', hnode', htarget'⟩ := h.linked q hq
    rw [← hname, hnode] at hnode'
    obtain rfl := LinkNode.symlink.inj (Option.some.inj hnode')
    exact Option.some.inj (htarget.symm.trans htarget')
  globbed name target hnode hprefix := by
    by_contra hno
    rw [not_or] at hno
    have hkept : (registerFs w username fs dir).node name = some (.symlink target) := by
      rw [node_registerFs hopen, if_neg fun h => hno.1 h.1, hnode]
      rfl
    exact hno.2 (h.others name target hkept hprefix)

theorem Registrable.inSync (hopen : w.openDB fs = true)
    (hreal : ∀ p ∈ matchedWorkspaces w username fs, realpath p.str = some p)
    (hother : ∀ p ∈ matchedWorkspaces w username fs, dir.node p.name ≠ some .other)
    (h : Registrable realpath w username fs dir) :
    InSync realpath w username fs (registerFs w username fs dir) where
  linked p hp := by
    rw [node_registerFs_matched hopen hp]
    cases hnode : dir.node p.name with
    | some x =>
      cases x with
      | symlink target => exact ⟨target, rfl, h.links p hp target hnode⟩
      | other => exact absurd hnode (hother p hp)
    | none =>
      -- the link was made to the first workspace with this name
      have hfound : ((matchedWorkspaces w username fs).find? (·.name == p.name)).isSome :=
        List.find?_isSome.2 ⟨p, hp, beq_self_eq_true _⟩
      obtain ⟨q, hq⟩ := Option.isSome_iff_exists.1 hfound
      have htest : (q.name == p.name) = true := by simpa using List.find?_some hq
      have hname : p.name = q.name := (beq_iff_eq.1 htest).symm
      obtain rfl := h.distinct p hp q (List.mem_of_find?_eq_some hq) hnode hname
      exact ⟨p.str, by rw [hq]; rfl, hreal p hp⟩
  others name target hnode hprefix := by
    by_contra hno
    have hunmatched : name ∉ (matchedWorkspaces w username fs).map WsPath.name := by
      intro hmem
      obtain ⟨p, hp, hname⟩ := List.mem_map.1 hmem
      exact hno ⟨p, hp, hname⟩
    have hfind : (matchedWorkspaces w username fs).find? (·.name == name) = none :=
      List.find?_eq_none.2 fun p hp heq => hno ⟨p, hp, beq_iff_eq.1 heq⟩
    rw [node_registerFs hopen, hfind, Option.map_none, Option.or_none] at hnode
    split at hnode
    · cases hnode
    · rename_i hkept
      rcases h.globbed name target hnode hprefix with hglob | hmatched
      · exact hkept ⟨hglob, LinkDir.isSymlink_iff.2 ⟨target, hnode⟩, hunmatched⟩
      · exact hno hmatched

/-- The filesystems have directories of their own. -/
theorem foldl_update {f : Str → LinkDir → LinkDir} {fslist : List Str} (hnodup : fslist.Nodup)
    (dirs : Str → LinkDir) (fs : Str) :
    fslist.foldl (fun dirs fs => Function.update dirs fs (f fs (dirs fs))) dirs fs =
      if fs ∈ fslist then f fs (dirs fs) else dirs fs := by
  induction fslist generalizing dirs with
  | nil => rfl
  | cons fs' fslist ih =>
    rw [List.nodup_cons] at hnodup
    rw [List.foldl_cons, ih hnodup.2]
    by_cases hfs : fs = fs'
    · subst hfs
      rw [if_neg hnodup.1, Function.update_self, if_pos (List.mem_cons_self ..)]
    · have hmem : fs ∈ fs' :: fslist ↔ fs ∈ fslist := by
        rw [List.mem_cons, or_iff_right hfs]
      rw [Function.update_of_ne hfs, if_congr hmem rfl rfl]

/-- A workspace of `bob` in the space `s`. -/
def bobRegistered : World :=
  World.init.writeEntry ⟨['w'], .live, "bob-x".toList⟩
    { groupEntry bob.username [] with workspace := ⟨['s'], "bob-x".toList⟩ }

/-- The directory of the workspace is there. -/
def bobRealpath (target : Str) : Option WsPath :=
  if target = "s/bob-x".toList then some ⟨['s'], "bob-x".toList⟩ else none

/-- A directory with one link. -/
def oneLink (name target : Str) : LinkDir := AList.singleton name (.symlink target)

theorem matchedWorkspaces_bob :
    matchedWorkspaces bobRegistered bob.username ['w'] = [⟨['s'], "bob-x".toList⟩] := by
  decide

theorem validFilesystems_bob {fs : Str}
    (h : fs ∈ (Config.single ['w'] (.ofSpaces ['s'] [])).validFilesystems bob.username bob.groups
      .list) : fs = ['w'] := by
  have hvalid : (Config.single ['w'] (.ofSpaces ['s'] [])).validFilesystems bob.username bob.groups
      .list = [['w']] := by
    decide
  rw [hvalid] at h
  exact List.mem_singleton.1 h

end HpcWorkspace
