import HpcWorkspace.Ownership

/-!
# Whose workspaces `ws_restore` acts on

A call names a deleted entry; it is accepted when the name begins with the caller's name and a
dash, and the user of the entry is not looked at. So the calls of an ordinary user act on his own
workspaces exactly when the entries they can come to are his: the deleted ones whose name begins
like that, and the live ones a target can name.
-/

namespace HpcWorkspace

variable {config : Config} {c : Caller} {w : World} {U : Set Str}

/-! ## The promise -/

/-- A call of `ws_restore` deletes or moves a workspace of the caller, into one of his. -/
def RestoreResult.OnOwn (c : Caller) : RestoreResult → Prop
  | .refused => True
  | .wiped _ e _ => Own c e
  | .restored _ e _ _ target _ => Own c e ∧ Own c target

/-- **All calls act on the caller's own workspaces.** -/
def RestoresOwn (config : Config) (c : Caller) (w : World) : Prop :=
  ∀ (a : RestoreArgs) (env : RestoreEnv), (wsRestore config c a env w).2.OnOwn c

/-! ## The entries a call can come to -/

/-- The filesystems a call searches, with or without `-F`. -/
def Searches (config : Config) (c : Caller) (l : List Str) : Prop :=
  ∃ filesystem, restoreFslist config c c.username filesystem = some l

/-- A deleted entry that a call searching these filesystems comes to. -/
structure DeletedAt (config : Config) (c : Caller) (w : World) (l : List Str) (fs name : Str)
    (e : DBEntry) : Prop where
  /-- the name is a workspace name -/
  valid : isValidWorkspaceName name = true
  /-- it begins with the user's name and a dash -/
  starts : (c.username ++ ['-']) <+: name
  /-- the filesystem is searched -/
  mem : fs ∈ l
  /-- its database can be opened -/
  opened : w.openDB fs = true
  /-- one can restore in it -/
  restorable : ∃ fsconfig, config.getFsConfig fs = some fsconfig ∧ fsconfig.restorable = true
  /-- the entry can be read -/
  entry : w.readEntry fs .deleted name = some e
  /-- no other filesystem that is searched has an entry of that name -/
  only : ∀ fs' ∈ l, w.openDB fs' = true → w.db.lookup ⟨fs', .deleted, name⟩ ≠ none → fs' = fs

/-- A live entry that a call searching these filesystems takes for the target of that name. -/
structure LiveAt (c : Caller) (w : World) (l : List Str) (fs name : Str) (e : DBEntry) :
    Prop where
  /-- the name is a workspace name -/
  valid : isValidWorkspaceName name = true
  /-- its database can be opened -/
  opened : w.openDB fs = true
  /-- the entry can be read -/
  entry : w.readEntry fs .live (wsid c.username name) = some e
  /-- no filesystem that is searched before has such an entry -/
  first : ∃ l₁ l₂, l = l₁ ++ fs :: l₂ ∧
    ∀ fs' ∈ l₁, w.openDB fs' = true → w.readEntry fs' .live (wsid c.username name) = none
  /-- it names a directory -/
  path : e.workspace.isEmpty = false

/-- The entries that calls can come to are those of the caller. -/
def OwnNames (config : Config) (c : Caller) (w : World) : Prop :=
  ∀ l, Searches config c l → ∀ fs name e, DeletedAt config c w l fs name e →
    Own c e ∧ ∀ fs' name' target, LiveAt c w l fs' name' target → Own c target

/-! ## The look-ups -/

theorem nodup_of_searches {l : List Str} (h : Searches config c l) : l.Nodup := by
  obtain ⟨filesystem, h⟩ := h
  dsimp only [restoreFslist] at h
  split at h
  · rw [← Option.some.inj h]
    exact Config.nodup_validFilesystems
  · split at h
    · rw [← Option.some.inj h]
      exact Config.nodup_validFilesystems
    · split at h
      · rw [← Option.some.inj h]
        exact List.nodup_singleton _
      · cases h

/-- The pattern of the search is the name itself. -/
theorem wsid_idNoOwner {name username : Str} (hstarts : (username ++ ['-']) <+: name) :
    wsid username (idNoOwner name username) = name := by
  obtain ⟨rest, rfl⟩ := hstarts
  have hbegins : (username ++ ['-']).isPrefixOf (username ++ ['-'] ++ rest) = true :=
    List.isPrefixOf_iff_prefix.mpr (List.prefix_append _ _)
  have hdrop : (username ++ ['-'] ++ rest).drop (username.length + 1) = rest := by
    rw [show username.length + 1 = (username ++ ['-']).length by simp, List.drop_left]
  rw [idNoOwner, if_pos hbegins, hdrop, wsid, List.append_assoc]
  rfl

/-- A workspace name stands for itself as a pattern. -/
theorem globMatch_name {name : Str} (h : isValidWorkspaceName name = true) (s : Str) :
    globMatch name s = decide (name = s) :=
  globMatch_literal (fun _ hc => isLiteral_of_isNameChar (isNameChar_of_mem h hc)) s

/-- The search in a filesystem finds the name when an entry file of that name is there. -/
theorem matchPattern_name {name username : Str} (hvalid : isValidWorkspaceName name = true)
    (hstarts : (username ++ ['-']) <+: name) (fs : Str) :
    w.matchPattern fs .deleted (idNoOwner name username) username =
      if w.db.lookup ⟨fs, .deleted, name⟩ = none then [] else [name] := by
  have hp : ∀ k : DbLoc, (k.fs == fs && k.area == .deleted && globMatch name k.id) = true ↔
      k = ⟨fs, .deleted, name⟩ := by
    rintro ⟨fs', area, id⟩
    rw [globMatch_name hvalid]
    simp only [Bool.and_eq_true, beq_iff_eq, decide_eq_true_eq, DbLoc.mk.injEq]
    constructor
    · rintro ⟨⟨rfl, rfl⟩, rfl⟩
      exact ⟨rfl, rfl, rfl⟩
    · rintro ⟨rfl, rfl, rfl⟩
      exact ⟨⟨rfl, rfl⟩, rfl⟩
  rw [World.matchPattern, World.dirEntries, wsid_idNoOwner hstarts]
  by_cases hnone : w.db.lookup ⟨fs, .deleted, name⟩ = none
  · rw [if_pos hnone]
    have hnot : (⟨fs, .deleted, name⟩ : DbLoc) ∉ w.db.keys := AList.lookup_eq_none.mp hnone
    rw [List.filter_eq_nil_iff.mpr fun k hk hpk => hnot ((hp k).mp hpk ▸ hk)]
    rfl
  · rw [if_neg hnone]
    have hmem : (⟨fs, .deleted, name⟩ : DbLoc) ∈ w.db.keys := by
      by_contra hnot
      exact hnone (AList.lookup_eq_none.mpr hnot)
    rw [Searches.filter_eq_singleton w.db.keys_nodup hmem hp]
    rfl

/-- What `restore` takes for the source. -/
theorem restoreSource_iff {l : List Str} {fs name : Str} {e : DBEntry} (hl : l.Nodup)
    (hvalid : isValidWorkspaceName name = true) (hstarts : (c.username ++ ['-']) <+: name) :
    restoreSource config w l name c.username = some (fs, e) ↔
      DeletedAt config c w l fs name e := by
  constructor
  · intro h
    obtain ⟨⟨id, hhits⟩, hopen, hread, hrest⟩ := restoreSource_eq_some h
    have hfs := (mem_restoreHits.mp (hhits ▸ List.mem_singleton_self (fs, id))).1
    refine ⟨hvalid, hstarts, hfs, hopen, hrest, hread, fun fs' hmem hopen' hsome => ?_⟩
    have hhit : (fs', name) ∈ restoreHits w l (idNoOwner name c.username) c.username := by
      refine mem_restoreHits.mpr ⟨hmem, hopen', ?_⟩
      rw [matchPattern_name hvalid hstarts, if_neg hsome]
      exact List.mem_singleton_self _
    rw [hhits] at hhit
    exact (Prod.mk.inj (List.mem_singleton.mp hhit)).1
  · intro h
    have hsome : w.db.lookup ⟨fs, .deleted, name⟩ ≠ none := by
      rw [(World.readEntry_eq_some.mp h.entry).2]
      exact Option.some_ne_none _
    have hhits : restoreHits w l (idNoOwner name c.username) c.username = [(fs, name)] := by
      refine (Searches.flatMap_eq_of_only hl h.mem fun fs' hmem hne => ?_).trans ?_
      · split
        · rename_i hopen
          rw [matchPattern_name hvalid hstarts, if_pos (by
            by_contra hother
            exact hne (h.only fs' hmem hopen hother))]
          rfl
        · rfl
      · rw [if_pos h.opened, matchPattern_name hvalid hstarts, if_neg hsome]
        rfl
    obtain ⟨fsconfig, hfs, hrest⟩ := h.restorable
    simp only [restoreSource, hhits, hfs, hrest, h.opened, Bool.and_self, if_true, h.entry,
      Option.map_some]

/-- What `restore` takes for the target. -/
theorem restoreTarget_iff {l : List Str} {fs name : Str} {e : DBEntry}
    (hvalid : isValidWorkspaceName name = true) :
    restoreTarget w l (wsid c.username name) = some (fs, e) ∧ e.workspace.isEmpty = false ↔
      LiveAt c w l fs name e := by
  rw [restoreTarget, List.findSome?_eq_some_iff]
  constructor
  · rintro ⟨⟨l₁, fs', l₂, hl, hhere, hbefore⟩, hpath⟩
    split at hhere
    · rename_i hopen
      obtain ⟨e', he', heq⟩ := Option.map_eq_some_iff.mp hhere
      obtain ⟨rfl, rfl⟩ := Prod.mk.inj heq
      refine ⟨hvalid, hopen, he', ⟨l₁, l₂, hl, fun fs'' hmem hopen'' => ?_⟩, hpath⟩
      have hnone := hbefore fs'' hmem
      rw [if_pos hopen''] at hnone
      exact Option.map_eq_none_iff.mp hnone
    · cases hhere
  · intro h
    obtain ⟨l₁, l₂, hl, hbefore⟩ := h.first
    refine ⟨⟨l₁, fs, l₂, hl, ?_, fun fs' hmem => ?_⟩, h.path⟩
    · rw [if_pos h.opened, h.entry]
      rfl
    · split
      · rename_i hopen
        rw [hbefore fs' hmem hopen]
        rfl
      · rfl

/-! ## When calls act on the caller's own workspaces -/

/-- A call past its command line restores for the caller. -/
theorem wsRestore_eq_restore {a : RestoreArgs} {env : RestoreEnv}
    (hcmd : restoreCommandline a = true) (huser : a.username = none)
    (hstarts : (c.username ++ ['-']) <+: a.name) (hhuman : env.human = true) :
    wsRestore config c a env w = restore config c a c.username env w := by
  have hname : checkName a.name c.username = true := by
    rw [checkName, List.isPrefixOf_iff_prefix.mpr hstarts, Bool.or_true]
  simp [wsRestore, hcmd, huser, hname, hhuman]

/-- `ws_restore --delete-data` comes to every deleted entry there is for it. -/
theorem exists_wiped {l : List Str} {fs name : Str} {e : DBEntry} (hl : Searches config c l)
    (h : DeletedAt config c w l fs name e) :
    ∃ a env gone, (wsRestore config c a env w).2 = .wiped fs e gone := by
  have hnodup := nodup_of_searches hl
  obtain ⟨filesystem, hlist⟩ := hl
  have hcmd : restoreCommandline ⟨name, none, filesystem, none, true⟩ = true := by
    rw [restoreCommandline, h.valid]
    rfl
  refine ⟨⟨name, none, filesystem, none, true⟩, ⟨0, true, .ok⟩, ?_⟩
  rw [wsRestore_eq_restore hcmd rfl h.starts rfl]
  simp only [restore, hlist, (restoreSource_iff hnodup h.valid h.starts).mpr h, if_true]
  split
  · exact ⟨true, rfl⟩
  · exact ⟨false, rfl⟩

/-- `ws_restore` comes to every target there is for it. -/
theorem exists_restored {l : List Str} {fs name fs' name' : Str} {e target : DBEntry}
    (hl : Searches config c l) (h : DeletedAt config c w l fs name e)
    (h' : LiveAt c w l fs' name' target) :
    ∃ a env targetId moved,
      (wsRestore config c a env w).2 = .restored fs e fs' targetId target moved := by
  have hnodup := nodup_of_searches hl
  obtain ⟨filesystem, hlist⟩ := hl
  have hcmd : restoreCommandline ⟨name, some name', filesystem, none, false⟩ = true := by
    rw [restoreCommandline, h.valid]
    exact h'.valid
  obtain ⟨htarget, hpath⟩ := (restoreTarget_iff h'.valid).mpr h'
  refine ⟨⟨name, some name', filesystem, none, false⟩, ⟨0, true, .ok⟩, wsid c.username name', ?_⟩
  rw [wsRestore_eq_restore hcmd rfl h.starts rfl]
  simp only [restore, hlist, (restoreSource_iff hnodup h.valid h.starts).mpr h, Option.getD_some,
    htarget, hpath, Bool.false_eq_true, if_false]
  split
  · split
    · exact ⟨true, rfl⟩
    · exact ⟨false, rfl⟩
  · split
    · exact ⟨true, rfl⟩
    · exact ⟨false, rfl⟩

/-- A call that comes to a source comes to one there is for it. -/
theorem RestoreFound.deletedAt {a : RestoreArgs} {username fs : Str} {fslist : List Str}
    {e : DBEntry} (hc : c.NonRoot) (found : RestoreFound config c a w username fslist fs e) :
    Searches config c fslist ∧ DeletedAt config c w fslist fs a.name e := by
  obtain rfl := found.user_eq hc
  have hsearch : Searches config c fslist := ⟨a.filesystem, found.list⟩
  have hcmd := found.commandline
  rw [restoreCommandline, Bool.and_eq_true, Bool.and_eq_true] at hcmd
  have hstarts := found.checked
  rw [checkName, beq_false_of_ne hc.2, Bool.false_or] at hstarts
  exact ⟨hsearch, (restoreSource_iff (nodup_of_searches hsearch) hcmd.1.2
    (List.isPrefixOf_iff_prefix.mp hstarts)).mp found.source⟩

/-- The same for the target. -/
theorem RestoreFound.liveAt {a : RestoreArgs} {username fs targetFs targetId : Str}
    {fslist : List Str} {e target : DBEntry} (hc : c.NonRoot)
    (found : RestoreFound config c a w username fslist fs e) (keep : a.deletedata = false)
    (hid : targetId = wsid username (a.target.getD []))
    (htarget : restoreTarget w fslist targetId = some (targetFs, target))
    (path : target.workspace.isEmpty = false) :
    LiveAt c w fslist targetFs (a.target.getD []) target := by
  obtain rfl := found.user_eq hc
  have hcmd := found.commandline
  rw [restoreCommandline, keep, Bool.or_false, Bool.and_eq_true, Bool.and_eq_true] at hcmd
  obtain ⟨name, hname⟩ := Option.isSome_iff_exists.mp hcmd.1.1
  rw [hname] at hcmd
  rw [hid, hname] at htarget
  rw [hname]
  exact (restoreTarget_iff hcmd.2).mp ⟨htarget, path⟩

/-- When the entries calls can come to are the caller's, they act on his workspaces. -/
theorem OwnNames.restoresOwn (h : OwnNames config c w) (hc : c.NonRoot) :
    RestoresOwn config c w := by
  intro a env
  have hspec := wsRestore_spec config c a env w
  generalize wsRestore config c a env w = out at hspec ⊢
  cases hspec with
  | refused => exact trivial
  | wiped found | wipedPartly found =>
    obtain ⟨hl, hdel⟩ := found.deletedAt hc
    exact (h _ hl _ _ _ hdel).1
  | failed found keep hid htarget path | onto found keep hid htarget path
  | into found keep hid htarget path =>
    obtain ⟨hl, hdel⟩ := found.deletedAt hc
    obtain ⟨hown, htargets⟩ := h _ hl _ _ _ hdel
    exact ⟨hown, htargets _ _ _ (found.liveAt hc keep hid htarget path)⟩

/-- **Restoring one's own.** The calls of an ordinary user act on his own workspaces exactly when
the entries they can come to are his. -/
theorem restoresOwn_iff_ownNames (config : Config) (c : Caller) (w : World) (hc : c.NonRoot) :
    RestoresOwn config c w ↔ OwnNames config c w := by
  constructor
  · intro h l hl fs name e hdel
    constructor
    · obtain ⟨a, env, gone, hres⟩ := exists_wiped hl hdel
      have hown := h a env
      rwa [hres] at hown
    · intro fs' name' target hlive
      obtain ⟨a, env, targetId, moved, hres⟩ := exists_restored hl hdel hlive
      have hown := h a env
      rw [hres] at hown
      exact hown.2
  · exact fun h => h.restoresOwn hc

/-! ## Databases the tools have written -/

/-- No user's name begins with another one's and a dash. -/
def PrefixFree (U : Set Str) : Prop := ∀ u ∈ U, ∀ v ∈ U, ¬(u ++ ['-']) <+: v

/-- Names of entries of different users begin differently. -/
theorem PrefixFree.eq_of_wsid (hU : PrefixFree U) {u v n m : Str} (hu : u ∈ U) (hv : v ∈ U)
    (h : wsid u n = wsid v m) : u = v := by
  have hbegins : ∀ {a b k : Str}, a = b ++ '-' :: k → (b ++ ['-']) <+: a := fun {a b k} heq =>
    ⟨k, by rw [heq, List.append_assoc]; rfl⟩
  rcases Dashed.append_sep_eq h with hsame | ⟨k, hk, -⟩ | ⟨k, hk, -⟩
  · exact hsame.1
  · exact absurd (hbegins hk) (hU u hu v hv)
  · exact absurd (hbegins hk) (hU v hv u hu)

/-- When entries are named after their users, a call comes to entries of the caller. -/
theorem ownNames_of_namedAfter (hU : PrefixFree U) (hw : w.Entries (NamedAfter U))
    (hc : c.username ∈ U) : OwnNames config c w := by
  intro l _ fs name e hdel
  constructor
  · obtain ⟨rest, hrest⟩ := hdel.starts
    obtain ⟨huser, rest', hid, -⟩ := hw _ _ (World.readEntry_eq_some.mp hdel.entry).2
    have hname : wsid c.username rest = wsid e.username rest' := by
      rw [← hid, wsid, ← hrest, List.append_assoc]
      rfl
    exact Or.inr (hU.eq_of_wsid hc huser hname).symm
  · intro fs' name' target hlive
    obtain ⟨huser, rest', hid, -⟩ := hw _ _ (World.readEntry_eq_some.mp hlive.entry).2
    exact Or.inr (hU.eq_of_wsid hc huser hid).symm

/-- The entries of a run of the users' calls are named after them. -/
theorem namedAfter_run {clock : ℤ} {acts : List Action} {s : System}
    (hacts : ∀ act ∈ acts, act.ByUsers U)
    (hrun : Runs.exec (System.step config) (.init clock) acts = some s) :
    s.world.Entries (NamedAfter U) := by
  have hmeets : Runs.Meets (System.step config) (fun _ act => act.ByUsers U) (.init clock) acts :=
    .of_mem (fun act hact _ => hacts act hact) _
  exact hmeets.invariant (fun s act s' hs hact hstep => namedAfter_step hs hact hstep)
    (namedAfter_init U clock) hrun

/-- **Restoring one's own, over runs.** When no user's name begins with another one's and a dash,
the calls of ordinary users act on their own workspaces in every state the tools reach. -/
theorem restoresOwn_of_exec (hU : PrefixFree U) {clock : ℤ} {acts : List Action} {s : System}
    (hacts : ∀ act ∈ acts, act.ByUsers U)
    (hrun : Runs.exec (System.step config) (.init clock) acts = some s) (hc : c.NonRoot)
    (huser : c.username ∈ U) : RestoresOwn config c s.world :=
  (ownNames_of_namedAfter hU (namedAfter_run hacts hrun) huser).restoresOwn hc

/-! ## Two users -/

/-- `userAB` allocates and releases `x`. -/
def releaseRun : List Action :=
  [.allocate userAB (createArgs none) bobEnv,
    .release userAB ⟨['x'], none, none, false⟩ ⟨100, 100, .ok⟩]

/-- The world after that. -/
def releasedWorld : World :=
  (wsRelease plainConfig userAB ⟨['x'], none, none, false⟩ ⟨100, 100, .ok⟩
    (wsAllocate plainConfig userAB (createArgs none) bobEnv .init).1).1

/-- As long as he is alone, he restores what is his. -/
theorem restoresOwn_userAB : RestoresOwn plainConfig userAB releasedWorld := by
  have hrun : Runs.exec (System.step plainConfig) (.init 0) releaseRun =
      some ⟨releasedWorld, .idle, 100, _, []⟩ := rfl
  have hacts : ∀ act ∈ releaseRun, act.ByUsers {userAB.username} := by
    intro act hact
    rcases List.mem_cons.mp hact with rfl | hact
    · exact rfl
    · obtain rfl := List.mem_singleton.mp hact
      exact rfl
  have hfree : PrefixFree {userAB.username} := by
    rintro u rfl v rfl
    decide
  exact (restoresOwn_iff_ownNames plainConfig userAB releasedWorld ⟨by decide, by decide⟩).mpr
    (ownNames_of_namedAfter hfree (namedAfter_run hacts hrun) rfl)

/-- But `userA` can delete it: its name begins with his name and a dash. -/
theorem not_restoresOwn :
    ¬∀ (config : Config) (c : Caller) (w : World), c.NonRoot → RestoresOwn config c w := by
  intro h
  have hown : Own userA { newEntry plainConfig userAB (createArgs none) bobEnv (.ofSpaces ['s'] [])
      ⟨['s'], "a-b-x".toList⟩ with released := 100 } :=
    h plainConfig userA releasedWorld ⟨by decide, by decide⟩
      ⟨"a-b-x-100".toList, none, none, none, true⟩ ⟨200, true, .ok⟩
  rcases hown with hown | hown <;> exact absurd hown (by decide)

end HpcWorkspace
