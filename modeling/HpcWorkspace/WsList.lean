import Mathlib.Data.Char
import Mathlib.Data.List.Lex
import Mathlib.Data.Prod.Lex
import HpcWorkspace.Lib.Sorting
import HpcWorkspace.Listing

/-!
# `ws_list`

What `ws_list` shows: the entries that were collected, sorted if it is asked for. When the databases
do not change meanwhile, it shows the same entries as a loop without threads, and with a sort the
order of the workers is not seen any more, but for entries of one key. An ordinary user sees his own
entries, or with `-g` those that belong to one of his groups.
-/

namespace HpcWorkspace

/-! ## The command line -/

/-- The command line of `ws_list`, for a listing of workspaces; what is not given is empty. -/
structure ListArgs where
  /-- the pattern -/
  pattern : Str
  /-- `-F` -/
  filesystem : Str
  /-- `-u` -/
  user : Str
  /-- `-g` -/
  group : Bool
  /-- `-e` -/
  expired : Bool
  /-- `-N` -/
  name : Bool
  /-- `-C` -/
  creation : Bool
  /-- `-R` -/
  remaining : Bool
  /-- `-r` -/
  reverted : Bool

/-- The filesystems that are listed; one that can not be used is reported, and nothing is listed. -/
def listFslist (config : Config) (c : Caller) (filesystem : Str) : List Str :=
  let validfs := config.validFilesystems c.username c.groups .list
  if filesystem ≠ [] then (if validfs.contains filesystem then [filesystem] else []) else validfs

/-- What `ws_list` asks of the databases. -/
def listQuery (config : Config) (c : Caller) (a : ListArgs) (udb : UserDb) (broken : Str → Bool) :
    Query where
  udb := udb
  broken := broken
  caller := c.username
  pattern := if a.pattern = [] then ['*'] else a.pattern
  user := userpattern config c a.user
  groups := c.groups
  area := if a.expired then .deleted else .live
  listgroups := a.group

theorem nodup_listFslist (config : Config) (c : Caller) (filesystem : Str) :
    (listFslist config c filesystem).Nodup := by
  rw [listFslist]
  split
  · split
    · exact List.nodup_singleton _
    · exact List.nodup_nil
  · exact Config.nodup_validFilesystems

theorem mem_listFslist {config : Config} {c : Caller} {filesystem fs : Str}
    (h : fs ∈ listFslist config c filesystem) :
    fs ∈ config.validFilesystems c.username c.groups .list := by
  rw [listFslist] at h
  split at h
  · split at h
    · rename_i hvalid
      rw [List.mem_singleton.mp h]
      exact List.contains_iff_mem.mp hvalid
    · cases h
  · exact h

/-- The listing without threads. -/
def sequentialListing (config : Config) (c : Caller) (a : ListArgs) (udb : UserDb)
    (broken : Str → Bool) (w : World) : List (DbLoc × DBEntry) :=
  listSequential (listQuery config c a udb broken) w (listFslist config c a.filesystem)

/-! ## The order -/

/-- `getRemaining` -/
def DBEntry.getRemaining (e : DBEntry) (now : ℤ) : ℤ := e.expiration - now

namespace ListArgs

/-- `x->getRemaining() < y->getRemaining()`, where both read the clock. -/
def lessRemaining (now : ℤ × ℤ) (x y : DbLoc × DBEntry) : Bool :=
  decide (x.2.getRemaining now.1 < y.2.getRemaining now.2)

/-- `x->getCreation() < y->getCreation()` -/
def lessCreation (x y : DbLoc × DBEntry) : Bool := decide (x.2.creation < y.2.creation)

/-- `x->getId() < y->getId()` -/
def lessId (x y : DbLoc × DBEntry) : Bool := decide (x.1.id < y.1.id)

/-- `sort` -/
def sort (a : ListArgs) : Bool := a.name || a.creation || a.remaining

/-- A comparison; the first of the three that is asked for counts. -/
def less (a : ListArgs) (now : ℤ × ℤ) : DbLoc × DBEntry → DbLoc × DBEntry → Bool :=
  if a.remaining then lessRemaining now else if a.creation then lessCreation else lessId

/-- What is shown, in its order; `std::sort` is one sort or another, and `clock` is what its
comparisons read. -/
def shown (a : ListArgs) (clock : ℕ → ℤ × ℤ) (std : Sorting (DbLoc × DBEntry))
    (entrylist : List (DbLoc × DBEntry)) : List (DbLoc × DBEntry) :=
  if a.sort then
    let entrylist := std.sort (fun k => a.less (clock k)) entrylist
    if a.reverted then entrylist.reverse else entrylist
  else entrylist

/-- The second does not change while entries are sorted by their remaining time. -/
def SameSecond (a : ListArgs) (clock : ℕ → ℤ × ℤ) : Prop :=
  a.remaining = true → ∃ now, ∀ k, clock k = (now, now)

/-- The key of an entry: the less time remains, the earlier it expires. -/
def sortKey (a : ListArgs) (x : DbLoc × DBEntry) : Lex (ℤ × Str) :=
  if a.remaining then toLex (x.2.expiration, [])
  else if a.creation then toLex (x.2.creation, [])
  else toLex (0, x.1.id)

variable {a : ListArgs} {clock clock' : ℕ → ℤ × ℤ}

/-- All comparisons are one, that of the keys. -/
theorem less_eq (hclock : a.SameSecond clock) :
    (fun k => a.less (clock k)) = fun _ x y => decide (a.sortKey x < a.sortKey y) := by
  funext k x y
  rw [less, sortKey, sortKey]
  split
  · rename_i hremaining
    obtain ⟨now, hnow⟩ := hclock hremaining
    refine decide_eq_decide.mpr (Iff.trans ?_ Prod.Lex.toLex_lt_toLex.symm)
    simp only [hnow, DBEntry.getRemaining, Int.sub_lt_sub_right_iff, lt_self_iff_false, and_false,
      or_false]
  · split
    · refine decide_eq_decide.mpr (Iff.trans ?_ Prod.Lex.toLex_lt_toLex.symm)
      simp only [lt_self_iff_false, and_false, or_false]
    · refine decide_eq_decide.mpr (Iff.trans ?_ Prod.Lex.toLex_lt_toLex.symm)
      simp only [lt_self_iff_false, true_and, false_or]

theorem perm_sort (hclock : a.SameSecond clock) (std : Sorting (DbLoc × DBEntry))
    (l : List (DbLoc × DBEntry)) : (std.sort (fun k => a.less (clock k)) l).Perm l := by
  rw [less_eq hclock]
  exact std.perm (Sorting.strictWeak_key a.sortKey) l

theorem perm_shown (hclock : a.SameSecond clock) (std : Sorting (DbLoc × DBEntry))
    (l : List (DbLoc × DBEntry)) : (a.shown clock std l).Perm l := by
  rw [shown]
  split
  · split
    · exact (List.reverse_perm _).trans (perm_sort hclock std l)
    · exact perm_sort hclock std l
  · exact .refl l

/-- Sorted, the keys are shown in one order only. -/
theorem keys_shown (hclock : a.SameSecond clock) (hclock' : a.SameSecond clock')
    (std std' : Sorting (DbLoc × DBEntry)) {l l' : List (DbLoc × DBEntry)} (hsort : a.sort = true)
    (h : l.Perm l') :
    (a.shown clock std l).map a.sortKey = (a.shown clock' std' l').map a.sortKey := by
  have hkeys := std.map_key_eq std' a.sortKey h
  rw [shown, shown, if_pos hsort, if_pos hsort, less_eq hclock, less_eq hclock']
  split
  · rw [List.map_reverse, List.map_reverse, hkeys]
  · exact hkeys

/-- Sorted, the keys go up, or down with `-r`. -/
theorem pairwise_shown (hclock : a.SameSecond clock) (std : Sorting (DbLoc × DBEntry))
    (hsort : a.sort = true) (l : List (DbLoc × DBEntry)) : (a.shown clock std l).Pairwise fun x y =>
      if a.reverted then a.sortKey y ≤ a.sortKey x else a.sortKey x ≤ a.sortKey y := by
  have hup := List.pairwise_map.mp (std.pairwise_key a.sortKey l)
  rw [shown, if_pos hsort, less_eq hclock]
  split
  · exact List.pairwise_reverse.mpr hup
  · exact hup

end ListArgs

/-! ## What is shown -/

namespace Listing

variable {q : Query} {s s' : Listing}

/-- Without other processes the databases stay. -/
theorem seen_alone {w : World} {evs : List ListEvent} (hown : ∀ ev ∈ evs, ∀ w', ev ≠ .others w')
    (hw : s.seen = [w]) (hrun : Runs.exec (step q) s evs = some s') : s'.seen = [w] := by
  have hmeets : Runs.Meets (step q) (fun _ ev => ∀ w', ev ≠ .others w') s evs :=
    Runs.Meets.of_mem (fun ev hev _ => hown ev hev) s
  refine hmeets.invariant (fun t ev t' (ht : t.seen = [w]) hev hstep => ?_) hw hrun
  have hspec := step_spec hstep
  cases hspec with
  | others w' => exact absurd rfl (hev w')
  | _ => exact ht

/-- **What `ws_list` shows.** In any order of the workers, when no other process changes the
databases, and the second does not change during a sort by the remaining time, `ws_list` shows the
entries that a loop without threads lists, each as often; and sorted, the keys come in the order that
any sort of that list gives, up or with `-r` down. -/
theorem wsList_shown (config : Config) (c : Caller) (a : ListArgs) (udb : UserDb)
    (broken : Str → Bool) (w : World) (evs : List ListEvent) (s : Listing)
    (hown : ∀ ev ∈ evs, ∀ w', ev ≠ .others w')
    (hrun : Runs.exec (step (listQuery config c a udb broken))
      (start w (listFslist config c a.filesystem)) evs = some s)
    (hdone : s.finished = true) (clock clock' : ℕ → ℤ × ℤ) (hclock : a.SameSecond clock)
    (hclock' : a.SameSecond clock') (std std' : Sorting (DbLoc × DBEntry)) :
    (a.shown clock std s.entrylist).Perm (sequentialListing config c a udb broken w) ∧
      (a.sort = true →
        (a.shown clock std s.entrylist).map a.sortKey =
            (a.shown clock' std' (sequentialListing config c a udb broken w)).map a.sortKey ∧
          (a.shown clock std s.entrylist).Pairwise fun x y =>
            if a.reverted then a.sortKey y ≤ a.sortKey x else a.sortKey x ≤ a.sortKey y) := by
  obtain ⟨gone, hstands⟩ := stands_of_run (nodup_listFslist config c a.filesystem) hrun
  have hfaithful := hstands.faithful hdone
  rw [seen_alone hown rfl hrun] at hfaithful
  have hperm := hfaithful.perm (nodup_listFslist config c a.filesystem)
  exact ⟨(ListArgs.perm_shown hclock std _).trans hperm, fun hsort =>
    ⟨ListArgs.keys_shown hclock hclock' std std' hsort hperm,
      ListArgs.pairwise_shown hclock std hsort _⟩⟩

end Listing

/-- Sorted by name, downwards. -/
def byName : ListArgs :=
  { pattern := []
    filesystem := []
    user := []
    group := false
    expired := false
    name := true
    creation := false
    remaining := false
    reverted := true }

/-- `bob` has the workspaces `x` and `y`. -/
def bobWorld : World :=
  (wsAllocate plainConfig bob { createArgs none with name := ['y'] } bobEnv
    (wsAllocate plainConfig bob (createArgs none) bobEnv .init).1).1

/-- Two workers read the entries, and the second is faster. -/
def bobListing : List ListEvent :=
  [.next, .read "bob-x".toList, .read "bob-y".toList, .push 1, .push 0, .wait]

/-- Sorted by the remaining time, downwards. -/
def byRemaining : ListArgs := { byName with name := false, remaining := true }

/-- `bob` is shown both, the one with more time before the other. -/
theorem wsList_shown_bob : ∃ s,
    Runs.exec (Listing.step (listQuery plainConfig bob byRemaining noUsers fun _ => true))
      (.start bobWorld (listFslist plainConfig bob byRemaining.filesystem)) bobListing = some s ∧
    s.entrylist.length = 2 ∧
    (byRemaining.shown (fun _ => (5, 5)) (.stable _) s.entrylist).Perm
      (sequentialListing plainConfig bob byRemaining noUsers (fun _ => true) bobWorld) ∧
    (byRemaining.shown (fun _ => (5, 5)) (.stable _) s.entrylist).Pairwise fun x y =>
      byRemaining.sortKey y ≤ byRemaining.sortKey x := by
  have hclock : byRemaining.SameSecond fun _ => (5, 5) := fun _ => ⟨5, fun _ => rfl⟩
  obtain ⟨hperm, hkeys⟩ := Listing.wsList_shown plainConfig bob byRemaining noUsers (fun _ => true)
    bobWorld bobListing _ (fun ev hev w' heq => by subst heq; simp [bobListing] at hev) rfl rfl _ _
    hclock hclock (.stable _) (.stable _)
  exact ⟨_, rfl, rfl, hperm, (hkeys rfl).2⟩

/-! ## Who sees what -/

/-- Up to its first star a pattern stands for itself. -/
theorem prefix_of_globLoop {u pat : Str} (hu : ∀ ch ∈ u, isLiteral ch) {fuel : ℕ} {str : Str}
    (h : globLoop fuel (u ++ pat) str none = true) : u <+: str := by
  induction u generalizing fuel str with
  | nil => exact List.nil_prefix
  | cons d u ih =>
    cases fuel with
    | zero => cases h
    | succ fuel =>
      rw [List.cons_append, globLoop_cons (hu d (List.mem_cons_self ..))] at h
      cases str with
      | nil => cases h
      | cons ch str =>
        split at h
        · rename_i hhead
          obtain rfl := Option.some.inj hhead
          exact (List.prefix_cons_inj ch).mpr (ih (fun x hx => hu x (List.mem_cons_of_mem _ hx)) h)
        · cases h

/-- What passes the group filter is of one of the groups. -/
theorem mem_listGroupFiles {udb : UserDb} {groupof : Str → Option Str} {groups : List Str}
    {x : HasGroupIntersection} {filelist ids : List Str}
    (h : World.listGroupFiles udb groupof groups x filelist = some ids) {id : Str} (hid : id ∈ ids) :
    ∃ group ∈ groups, groupof id = some group := by
  induction filelist generalizing x ids with
  | nil =>
    obtain rfl := Option.some.inj h
    cases hid
  | cons f filelist ih =>
    rw [World.listGroupFiles] at h
    split at h
    · exact ih h hid
    · split at h
      · cases h
      · rename_i group hgroup
        obtain ⟨ids', hids', rfl⟩ := Option.map_eq_some_iff.mp h
        split at hid
        · rename_i hmem
          rcases List.mem_cons.mp hid with rfl | hid
          · exact ⟨group, List.contains_iff_mem.mp hmem, hgroup⟩
          · exact ih hids' hid
        · exact ih hids' hid

/-- **Who sees what.** At any time of a listing, whatever other processes do: what an ordinary user
has got is on a filesystem he may list; without `-g` its name begins with his own name and a dash,
and with `-g` the entry had one of the groups of the process in some state of the databases
meanwhile. -/
theorem wsList_sees (config : Config) (c : Caller) (hc : c.NonRoot)
    (hadmin : config.global.admins.contains c.username = false)
    (hliteral : ∀ ch ∈ c.username, isLiteral ch) (a : ListArgs) (udb : UserDb) (broken : Str → Bool)
    (w : World) (evs : List ListEvent) (s : Listing)
    (hrun : Runs.exec (Listing.step (listQuery config c a udb broken))
      (.start w (listFslist config c a.filesystem)) evs = some s) (x : DbLoc × DBEntry)
    (hx : x ∈ s.entrylist) :
    config.hasAccess c.username c.groups x.1.fs .list = true ∧
      (a.group = false → (c.username ++ ['-']) <+: x.1.id) ∧
      (a.group = true → ∃ w' ∈ s.seen, ∃ group ∈ c.groups, w'.fileGroup broken x.1 = some group) := by
  obtain ⟨gone, hstands⟩ := Listing.stands_of_run (nodup_listFslist config c a.filesystem) hrun
  obtain ⟨hfs, hthere⟩ := hstands.passed.there x hx
  obtain ⟨w', hw', -, ids, hids, hid⟩ := hthere.fits
  have hpattern : userpattern config c a.user = c.username := by
    rw [userpattern, isRoot_of_nonRoot hc, hadmin]
    rfl
  refine ⟨?_, fun hown => ?_, fun hgroup => ?_⟩
  · have hmem : x.1.fs ∈ listFslist config c a.filesystem := by
      rw [hstands.parts]
      exact List.mem_append_left _ hfs
    exact Config.mem_validFilesystems.mp (mem_listFslist hmem)
  · rw [Query.matchlist_of_own (by exact hown)] at hids
    obtain rfl := Option.some.inj hids
    have hmatch := (mem_dirEntries.mp hid).2
    rw [listQuery, hpattern, wsid, globMatch, List.append_cons] at hmatch
    refine prefix_of_globLoop (fun ch hch => ?_) hmatch
    rcases List.mem_append.mp hch with hch | hch
    · exact hliteral ch hch
    · rw [List.mem_singleton.mp hch]
      decide
  · rw [Query.matchlist, World.matchPatternAs, if_pos (by exact hgroup)] at hids
    obtain ⟨group, hmem, hread⟩ := mem_listGroupFiles hids hid
    refine ⟨w', hw', group, hmem, ?_⟩
    have hloc : x.1 = ⟨x.1.fs, (listQuery config c a udb broken).area, x.1.id⟩ := by
      rw [← hthere.area]
    rw [hloc]
    exact hread

/-- `bob` sees his own workspaces. -/
theorem wsList_sees_bob : ∃ s x,
    Runs.exec (Listing.step (listQuery plainConfig bob byName noUsers fun _ => true))
      (.start bobWorld (listFslist plainConfig bob byName.filesystem)) bobListing = some s ∧
    x ∈ s.entrylist ∧ (bob.username ++ ['-']) <+: x.1.id := by
  refine ⟨_, _, rfl, List.mem_cons_self .., (wsList_sees plainConfig bob ⟨by decide, by decide⟩ rfl
    (List.all_eq_true.mp (by decide)) byName noUsers (fun _ => true) bobWorld bobListing _ rfl _
    (List.mem_cons_self ..)).2.1 rfl⟩

end HpcWorkspace
