import Mathlib.Data.List.Dedup
import HpcWorkspace.Release

/-!
# The group shortcut

For group workspaces `matchPattern` reads every entry that fits the pattern, to look at its group.
It leaves out the entries of users who have no group in common with the caller. Who has a group in
common is asked from the user database; the group of an entry is from the time it was written, and
the groups it is compared with are those of the process. So an entry is lost when these disagree.
-/

namespace HpcWorkspace

/-! ## Users and groups -/

/-- The user and group database. -/
structure UserDb where
  /-- `getpwnam`: the primary group of a user -/
  getpwnam : Str → Option ℕ
  /-- `getgrgid`: the name of a group -/
  getgrgid : ℕ → Option Str
  /-- `getgrouplist`; `none` when it fails, also with the buffer it asked for -/
  getgrouplist : Str → ℕ → Option (List ℕ)

namespace UserDb

/-- `user::getUserGroupList`; the names are those of a `std::set`, each once. -/
def getUserGroupList (udb : UserDb) (username : Str) : List Str :=
  match udb.getpwnam username with
  | none => []
  | some pw_gid =>
    let primary := (udb.getgrgid pw_gid).toList
    match udb.getgrouplist username pw_gid with
    | none => primary
    | some gids => (primary ++ gids.filterMap udb.getgrgid).dedup

/-- What `hasCommonGroups` finds out about a user: a group in common, or no groups at all. -/
def commonGroups (udb : UserDb) (baselist : List Str) (user : Str) : Bool :=
  let comparelist := udb.getUserGroupList user
  if comparelist.length = 0 then true
  else
    let intersection := baselist.filter fun g => comparelist.contains g
    decide (intersection.length > 0)

end UserDb

/-- `HasGroupIntersection` -/
structure HasGroupIntersection where
  /-- the groups of the caller -/
  baselist : List Str
  /-- what was found out already -/
  resultcache : List (Str × Bool)

namespace HasGroupIntersection

/-- The constructor. -/
def make (udb : UserDb) (baseuser : Str) : HasGroupIntersection :=
  ⟨udb.getUserGroupList baseuser, []⟩

/-- `hasCommonGroups` -/
def hasCommonGroups (udb : UserDb) (x : HasGroupIntersection) (user : Str) :
    Bool × HasGroupIntersection :=
  match x.resultcache.lookup user with
  | some result => (result, x)
  | none =>
    let result := udb.commonGroups x.baselist user
    (result, { x with resultcache := (user, result) :: x.resultcache })

end HasGroupIntersection

/-- `utils::splitString`: `std::getline` gives no word after a delimiter at the end. -/
def splitString (str : Str) (delimiter : Char) : List Str :=
  let words := str.splitOn delimiter
  if words.getLast? = some [] then words.dropLast else words

/-! ## The listing -/

namespace World

/-- The group that is read from an entry file; `none` is an exception. A file that can not be opened
is logged and has none, `broken` tells which ones are no YAML. -/
def fileGroup (w : World) (broken : Str → Bool) (k : DbLoc) : Option Str :=
  match w.db.lookup k with
  | some (.entry e) => some e.group
  | some .unreadable => if broken k.id then none else some []
  | none => some []

/-- Is the owner of an entry file known to have no group in common with the caller? Only names with
one dash are asked for. -/
def skips (udb : UserDb) (x : HasGroupIntersection) (f : Str) : Bool × HasGroupIntersection :=
  match splitString f '-' with
  | [owner, _] =>
    let (common, x) := x.hasCommonGroups udb owner
    (!common, x)
  | _ => (false, x)

/-- The loop of `listdir` over the files, `groupof` is what reading them gives; `none` is the
exception of a file. -/
def listGroupFiles (udb : UserDb) (groupof : Str → Option Str) (groups : List Str) :
    HasGroupIntersection → List Str → Option (List Str)
  | _, [] => some []
  | groupintersection, f :: filelist =>
    match skips udb groupintersection f with
    | (true, groupintersection) => listGroupFiles udb groupof groups groupintersection filelist
    | (false, groupintersection) =>
      match groupof f with
      | none => none
      | some group =>
        (listGroupFiles udb groupof groups groupintersection filelist).map fun list =>
          if groups.contains group then f :: list else list

/-- `FilesystemDBV1::matchPattern` of a caller. -/
def matchPatternAs (w : World) (udb : UserDb) (broken : Str → Bool) (caller fs : Str) (area : Area)
    (pattern user : Str) (groups : List Str) (groupworkspaces : Bool) : Option (List Str) :=
  if groupworkspaces then
    listGroupFiles udb (fun f => w.fileGroup broken ⟨fs, area, f⟩) groups (.make udb caller)
      (w.dirEntries fs area (wsid ['*'] pattern))
  else some (w.matchPattern fs area pattern user)

/-- The same without a shortcut: every file is read, and those of the groups are kept. -/
def readMatching (groupof : Str → Option Str) (groups : List Str) :
    List Str → Option (List Str)
  | [] => some []
  | f :: filelist =>
    match groupof f with
    | none => none
    | some group =>
      (readMatching groupof groups filelist).map fun list =>
        if groups.contains group then f :: list else list

end World

/-! ## What is left out -/

/-- An entry file is left out: its owner is known, and has no group in common with the caller. -/
def LeftOut (udb : UserDb) (caller f : Str) : Prop :=
  ∃ owner name, splitString f '-' = [owner, name] ∧ udb.getUserGroupList owner ≠ [] ∧
    ∀ g ∈ udb.getUserGroupList owner, g ∉ udb.getUserGroupList caller

/-- Nothing is lost: some other file can not be read, so that there is no list in any case; or those
that are left out can be read, and have none of the groups. -/
def NothingLost (udb : UserDb) (caller : Str) (groupof : Str → Option Str) (groups : List Str)
    (filelist : List Str) : Prop :=
  (∃ f ∈ filelist, ¬LeftOut udb caller f ∧ groupof f = none) ∨
    ∀ f ∈ filelist, LeftOut udb caller f → ∃ group, groupof f = some group ∧ group ∉ groups

theorem UserDb.commonGroups_eq_false {udb : UserDb} {baselist : List Str} {user : Str} :
    udb.commonGroups baselist user = false ↔
      udb.getUserGroupList user ≠ [] ∧ ∀ g ∈ udb.getUserGroupList user, g ∉ baselist := by
  rw [commonGroups]
  by_cases hnil : udb.getUserGroupList user = []
  · simp [hnil]
  · have hlength : ¬(udb.getUserGroupList user).length = 0 := fun h =>
      hnil (List.length_eq_zero_iff.mp h)
    simp only [hlength, if_false, decide_eq_false_iff_not, gt_iff_lt, List.length_pos_iff,
      ne_eq, not_not, List.filter_eq_nil_iff, List.contains_iff_mem, hnil, not_false_eq_true,
      true_and]
    exact ⟨fun h g hg hbase => h g hbase hg, fun h g hbase hg => h g hg hbase⟩

/-- The cache of a caller holds what would be found out again. -/
structure HasGroupIntersection.Right (udb : UserDb) (caller : Str) (x : HasGroupIntersection) :
    Prop where
  /-- the groups are those of the caller -/
  base : x.baselist = udb.getUserGroupList caller
  /-- the results are right -/
  cached : ∀ user result, x.resultcache.lookup user = some result →
    result = udb.commonGroups (udb.getUserGroupList caller) user

namespace HasGroupIntersection

variable {udb : UserDb} {caller user : Str} {x : HasGroupIntersection}

theorem right_make (udb : UserDb) (caller : Str) : (make udb caller).Right udb caller := by
  refine ⟨rfl, fun user result h => ?_⟩
  cases h

/-- With a cache or without it, the answer is the same. -/
theorem hasCommonGroups_spec (hx : x.Right udb caller) (user : Str) :
    (x.hasCommonGroups udb user).1 = udb.commonGroups (udb.getUserGroupList caller) user ∧
      (x.hasCommonGroups udb user).2.Right udb caller := by
  rw [hasCommonGroups]
  split
  · rename_i result hcached
    exact ⟨hx.cached user result hcached, hx⟩
  · rw [hx.base]
    refine ⟨rfl, rfl, fun user' result h => ?_⟩
    rw [List.lookup_cons] at h
    split at h
    · rename_i heq
      rw [beq_iff_eq.mp heq]
      exact (Option.some.inj h).symm
    · exact hx.cached user' result h

end HasGroupIntersection

namespace World

variable {udb : UserDb} {caller : Str} {x : HasGroupIntersection} {groupof : Str → Option Str}
  {groups filelist : List Str}

theorem skips_spec (hx : x.Right udb caller) (f : Str) :
    ((skips udb x f).1 = true ↔ LeftOut udb caller f) ∧ (skips udb x f).2.Right udb caller := by
  rw [skips]
  split
  · rename_i owner name hsplit
    obtain ⟨hcommon, hright⟩ := HasGroupIntersection.hasCommonGroups_spec hx owner
    refine ⟨?_, hright⟩
    dsimp only
    rw [hcommon, Bool.not_eq_true', UserDb.commonGroups_eq_false]
    constructor
    · intro h
      exact ⟨owner, name, hsplit, h⟩
    · rintro ⟨owner', name', hsplit', h⟩
      obtain ⟨rfl, -⟩ := List.cons.inj (hsplit.symm.trans hsplit')
      exact h
  · rename_i hsplit
    refine ⟨iff_of_false Bool.false_ne_true ?_, hx⟩
    rintro ⟨owner, name, heq, -⟩
    exact hsplit owner name heq

/-- The loop reads what is not left out. -/
theorem listGroupFiles_eq (hx : x.Right udb caller) :
    listGroupFiles udb groupof groups x filelist =
      readMatching groupof groups (filelist.filter fun f => !(skips udb (.make udb caller) f).1) := by
  induction filelist generalizing x with
  | nil => rfl
  | cons f filelist ih =>
    obtain ⟨hskips, hright⟩ := skips_spec hx f
    have hfirst := (skips_spec (HasGroupIntersection.right_make udb caller) f).1
    have hsame : (skips udb x f).1 = (skips udb (.make udb caller) f).1 :=
      Bool.eq_iff_iff.mpr (hskips.trans hfirst.symm)
    rw [listGroupFiles, List.filter_cons, ← hsame]
    generalize skips udb x f = out at hright
    obtain ⟨skipped, x'⟩ := out
    cases skipped with
    | true => exact ih hright
    | false =>
      rw [Bool.not_false, if_pos rfl, readMatching, ← ih hright]

theorem readMatching_eq_none :
    readMatching groupof groups filelist = none ↔ ∃ f ∈ filelist, groupof f = none := by
  induction filelist with
  | nil => simp [readMatching]
  | cons f filelist ih =>
    rw [readMatching]
    cases hf : groupof f with
    | none => exact iff_of_true rfl ⟨f, List.mem_cons_self .., hf⟩
    | some group => simp [ih, hf]

theorem readMatching_of_readable (h : ∀ f ∈ filelist, groupof f ≠ none) :
    readMatching groupof groups filelist =
      some (filelist.filter fun f => (groupof f).any groups.contains) := by
  induction filelist with
  | nil => rfl
  | cons f filelist ih =>
    obtain ⟨group, hgroup⟩ := Option.ne_none_iff_exists'.mp (h f (List.mem_cons_self ..))
    rw [readMatching, hgroup, ih fun f hf => h f (List.mem_cons_of_mem _ hf)]
    simp [List.filter_cons, hgroup]

end World

/-- **Group workspaces.** The shortcut gives the list that reading every entry gives, exactly when
it loses nothing. -/
theorem matchPatternAs_iff (w : World) (udb : UserDb) (broken : Str → Bool) (caller fs : Str)
    (area : Area) (pattern user : Str) (groups : List Str) :
    w.matchPatternAs udb broken caller fs area pattern user groups true =
        World.readMatching (fun f => w.fileGroup broken ⟨fs, area, f⟩) groups
          (w.dirEntries fs area (wsid ['*'] pattern)) ↔
      NothingLost udb caller (fun f => w.fileGroup broken ⟨fs, area, f⟩) groups
        (w.dirEntries fs area (wsid ['*'] pattern)) := by
  rw [World.matchPatternAs, if_pos rfl,
    World.listGroupFiles_eq (HasGroupIntersection.right_make udb caller)]
  generalize (fun f => w.fileGroup broken ⟨fs, area, f⟩) = groupof
  generalize w.dirEntries fs area (wsid ['*'] pattern) = filelist
  have hkept : ∀ f, f ∈ filelist.filter (fun f => !(World.skips udb (.make udb caller) f).1) ↔
      f ∈ filelist ∧ ¬LeftOut udb caller f := by
    intro f
    rw [List.mem_filter, Bool.not_eq_true', ← Bool.not_eq_true,
      (World.skips_spec (HasGroupIntersection.right_make udb caller) f).1]
  by_cases hfails : ∃ f ∈ filelist, ¬LeftOut udb caller f ∧ groupof f = none
  · -- both end with the exception
    obtain ⟨f, hf, hread, hnone⟩ := hfails
    refine iff_of_true ?_ (Or.inl ⟨f, hf, hread, hnone⟩)
    rw [World.readMatching_eq_none.mpr ⟨f, (hkept f).mpr ⟨hf, hread⟩, hnone⟩,
      World.readMatching_eq_none.mpr ⟨f, hf, hnone⟩]
  have hreadable : ∀ f ∈ filelist.filter (fun f => !(World.skips udb (.make udb caller) f).1),
      groupof f ≠ none := by
    intro f hf hnone
    obtain ⟨hmem, hread⟩ := (hkept f).mp hf
    exact hfails ⟨f, hmem, hread, hnone⟩
  rw [World.readMatching_of_readable hreadable, NothingLost, or_iff_right hfails]
  by_cases hnone : ∃ f ∈ filelist, groupof f = none
  · -- only reading everything ends with the exception
    rw [World.readMatching_eq_none.mpr hnone]
    obtain ⟨f, hf, hnone⟩ := hnone
    refine iff_of_false (Option.some_ne_none _) fun h => ?_
    by_cases hout : LeftOut udb caller f
    · obtain ⟨group, hgroup, -⟩ := h f hf hout
      rw [hnone] at hgroup
      cases hgroup
    · exact hfails ⟨f, hf, hout, hnone⟩
  have hall : ∀ f ∈ filelist, groupof f ≠ none := fun f hf h => hnone ⟨f, hf, h⟩
  rw [World.readMatching_of_readable hall, Option.some.injEq, List.filter_comm,
    List.filter_eq_self]
  constructor
  · intro h f hf hout
    obtain ⟨group, hgroup⟩ := Option.ne_none_iff_exists'.mp (hall f hf)
    refine ⟨group, hgroup, fun hmem => ?_⟩
    have hlisted : f ∈ filelist.filter fun f => (groupof f).any groups.contains := by
      rw [List.mem_filter, hgroup]
      exact ⟨hf, List.contains_iff_mem.mpr hmem⟩
    exact ((hkept f).mp (List.mem_filter.mpr ⟨hf, h f hlisted⟩)).2 hout
  · intro h f hlisted
    obtain ⟨hf, hany⟩ := List.mem_filter.mp hlisted
    refine (List.mem_filter.mp ((hkept f).mpr ⟨hf, fun hout => ?_⟩)).2
    obtain ⟨group, hgroup, hno⟩ := h f hf hout
    rw [hgroup] at hany
    exact hno (List.contains_iff_mem.mp hany)

/-- `a` and `b` have groups of their own, and `b` is in the group `p`. -/
def twoUsers : UserDb where
  getpwnam u := if u = ['a'] then some 1 else if u = ['b'] then some 2 else none
  getgrgid g := if g = 1 then some ['a'] else if g = 2 then some ['b'] else some ['p']
  getgrouplist u _ := if u = ['a'] then some [1] else some [2, 3]

/-- A workspace that `a` made for the group `p`, before leaving it. -/
def groupWorkspace : World :=
  World.init.writeEntry ⟨['w'], .live, ['a', '-', 'x']⟩
    ⟨['a'], ⟨['s'], ['a', '-', 'x']⟩, 0, 0, 0, 0, true, ['p'], [], [], 0, 0, []⟩

/-- `b` does not see it. -/
theorem not_matchPatternAs : groupWorkspace.matchPatternAs twoUsers (fun _ => false) ['b'] ['w'] .live
      ['*'] ['*'] [['b'], ['p']] true ≠
    World.readMatching (fun f => groupWorkspace.fileGroup (fun _ => false) ⟨['w'], .live, f⟩)
      [['b'], ['p']] (groupWorkspace.dirEntries ['w'] .live (wsid ['*'] ['*'])) := by
  decide

end HpcWorkspace
