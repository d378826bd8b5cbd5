import HpcWorkspace.DeletedEntries
import HpcWorkspace.EditPlan
import HpcWorkspace.WsList

/-!
# A call of `ws_editdb`

A call collects the entries with a thread pool and edits them one after the other, in the order in
which the workers handed them in. For live entries this order does not matter: the call does to
each selected entry what its options say, and to nothing else. With a date, it is the same to do it
once or twice.
-/

namespace HpcWorkspace

/-! ## The call -/

/-- Which entries are selected; what is not given is empty. -/
structure EditSelection where
  /-- the pattern -/
  pattern : Str
  /-- `-F` -/
  filesystem : Str
  /-- `-u` -/
  user : Str

/-- The filesystems; groups do not count. -/
def editFslist (config : Config) (c : Caller) (filesystem : Str) : List Str :=
  listFslist config { c with groups := [] } filesystem

/-- What `ws_editdb` asks of the databases. -/
def editQuery (config : Config) (c : Caller) (sel : EditSelection) (a : EditArgs) (udb : UserDb)
    (broken : Str → Bool) : Query where
  udb := udb
  broken := broken
  caller := c.username
  pattern := if sel.pattern = [] then ['*'] else sel.pattern
  user := userpattern config c sel.user
  groups := []
  area := if a.expired then .deleted else .live
  listgroups := false

/-- An entry with the configuration of its filesystem, which is there for the filesystems of the
list. -/
def editItem (config : Config) (x : DbLoc × DBEntry) : EditItem :=
  ⟨(config.getFsConfig x.1.fs).getD (.ofSpaces [] []), x.1, x.2⟩

/-- A call that nobody disturbs, with its workers in some order. -/
inductive EditCall (config : Config) (c : Caller) (sel : EditSelection) (a : EditArgs)
    (udb : UserDb) (broken : Str → Bool) (dryrun : Bool) (w : World) : World → Prop where
  | run {evs : List ListEvent} {s : Listing} (own : ∀ ev ∈ evs, ∀ w', ev ≠ .others w')
      (collect : Runs.exec (Listing.step (editQuery config c sel a udb broken))
        (.start w (editFslist config c sel.filesystem)) evs = some s)
      (all : s.finished = true) :
      EditCall config c sel a udb broken dryrun w
        (editEntries a dryrun (s.entrylist.map (editItem config)) [] w).1

/-! ## Live entries -/

section Live

variable {a : EditArgs} {w w' : World}

/-- What a real call does to the entries that it has collected, in any order. -/
structure Edited (a : EditArgs) (selected : List (DbLoc × DBEntry)) (w w' : World) : Prop where
  /-- each is edited -/
  entries : ∀ x ∈ selected, w'.db.lookup x.1 =
    some (.entry (if a.edits x.1.id x.2 then (a.edited x.1.id x.2).persisted else x.2))
  /-- other files stay -/
  others : ∀ k, k ∉ selected.map Prod.fst → w'.db.lookup k = w.db.lookup k
  /-- directories stay -/
  dirs : w'.dirs = w.dirs
  /-- and so do the databases -/
  magic : w'.magic = w.magic

theorem write_magic (a : EditArgs) (k : DbLoc) (e : DBEntry) (w : World) :
    (a.write k e w).magic = w.magic := by
  rw [EditArgs.write]
  split <;> split <;> rfl

theorem editEntries_live (hlive : a.expired = false) (config : Config) (reserved : List Str)
    {l : List (DbLoc × DBEntry)} (honce : (l.map Prod.fst).Nodup)
    (hread : ∀ x ∈ l, w.db.lookup x.1 = some (.entry x.2)) :
    Edited a l w (editEntries a false (l.map (editItem config)) reserved w).1 := by
  induction l generalizing w reserved with
  | nil => exact ⟨fun x hx => absurd hx List.not_mem_nil, fun _ _ => rfl, rfl, rfl⟩
  | cons x l ih =>
    rw [List.map_cons, List.nodup_cons] at honce
    have hfirst := @editEntry_live w (editItem config x).fsconfig a .ok reserved x.1 x.2 hlive
    rw [List.map_cons, editEntries]
    dsimp only [editItem] at hfirst ⊢
    generalize editEntry _ a false .ok reserved x.1 x.2 w = out at hfirst ⊢
    obtain ⟨w₁, reserved₁, report⟩ := out
    obtain rfl := hfirst
    dsimp only
    -- the files of the others are as they were
    have hlater : ∀ y ∈ l, (a.write x.1 x.2 w).db.lookup y.1 = some (.entry y.2) := by
      intro y hy
      have hne : y.1 ≠ x.1 := by
        intro heq
        exact honce.1 (heq ▸ List.mem_map_of_mem hy)
      rw [EditArgs.lookup_write_ne hne]
      exact hread y (List.mem_cons_of_mem _ hy)
    have hrest := ih reserved₁ honce.2 hlater
    refine ⟨fun y hy => ?_, fun k hk => ?_, hrest.dirs.trans EditArgs.write_dirs,
      hrest.magic.trans (write_magic a x.1 x.2 w)⟩
    · rcases List.mem_cons.mp hy with rfl | hy
      · rw [hrest.others y.1 honce.1]
        cases hedits : a.edits y.1.id y.2 with
        | true =>
          rw [if_pos rfl]
          exact EditArgs.lookup_write hedits
        | false =>
          rw [EditArgs.write_of_not_edits hedits, if_neg Bool.false_ne_true]
          exact hread y (List.mem_cons_self ..)
      · exact hrest.entries y hy
    · rw [List.map_cons, List.mem_cons, not_or] at hk
      rw [hrest.others k hk.2]
      exact EditArgs.lookup_write_ne hk.1

/-- The order of the entries does not matter. -/
theorem Edited.perm {l l' : List (DbLoc × DBEntry)} (h : Edited a l w w') (hperm : l.Perm l') :
    Edited a l' w w' where
  entries x hx := h.entries x (hperm.mem_iff.mpr hx)
  others k hk := h.others k fun hmem => hk ((hperm.map Prod.fst).mem_iff.mp hmem)
  dirs := h.dirs
  magic := h.magic

end Live

/-! ## What a call does -/

/-- The entries of a call, without threads. -/
def editSelected (config : Config) (c : Caller) (sel : EditSelection) (a : EditArgs) (udb : UserDb)
    (broken : Str → Bool) (w : World) : List (DbLoc × DBEntry) :=
  listSequential (editQuery config c sel a udb broken) w (editFslist config c sel.filesystem)

section Calls

variable {config : Config} {c : Caller} {sel : EditSelection} {a : EditArgs} {udb : UserDb}
  {broken : Str → Bool} {w w' w'' : World}

theorem EditCall.edited (hlive : a.expired = false)
    (h : EditCall config c sel a udb broken false w w') :
    Edited a (editSelected config c sel a udb broken w) w w' := by
  cases h with
  | @run evs s own collect all =>
    have hnodup : (editFslist config c sel.filesystem).Nodup := nodup_listFslist ..
    obtain ⟨gone, hstands⟩ := Listing.stands_of_run hnodup collect
    have hfaithful := hstands.faithful all
    rw [Listing.seen_alone own rfl collect] at hfaithful
    refine Edited.perm ?_ (hfaithful.perm hnodup)
    refine editEntries_live hlive config [] hfaithful.once fun x hx => ?_
    obtain ⟨-, harea, -, ⟨w₁, hw₁, hread⟩⟩ := hfaithful.there x hx
    obtain rfl := List.mem_singleton.mp hw₁
    have hlook := (World.readEntry_eq_some.mp hread).2
    rw [← harea] at hlook
    exact hlook

/-- Edits of live entries do not change which ones are selected. -/
theorem Edited.selected (hedited : Edited a (editSelected config c sel a udb broken w) w w')
    {x : DbLoc × DBEntry} (hx : x ∈ editSelected config c sel a udb broken w') :
    ∃ e, (x.1, e) ∈ editSelected config c sel a udb broken w ∧
      x.2 = if a.edits x.1.id e then (a.edited x.1.id e).persisted else e := by
  obtain ⟨hfs, harea, ⟨w₁, hw₁, hopen, ids, hids, hid⟩, ⟨w₂, hw₂, hread⟩⟩ := mem_listSequential.mp hx
  obtain rfl := List.mem_singleton.mp hw₁
  obtain rfl := List.mem_singleton.mp hw₂
  obtain ⟨hvalid, hlook⟩ := World.readEntry_eq_some.mp hread
  rw [← harea] at hlook
  by_cases hmem : x.1 ∈ (editSelected config c sel a udb broken w).map Prod.fst
  · obtain ⟨⟨k, e⟩, hsel, rfl⟩ := List.mem_map.mp hmem
    refine ⟨e, hsel, ?_⟩
    have hnew := hedited.entries _ hsel
    rw [hlook] at hnew
    exact DbFile.entry.inj (Option.some.inj hnew)
  · -- it would have been selected before
    refine absurd (List.mem_map_of_mem (f := Prod.fst) (a := x) ?_) hmem
    rw [hedited.others _ hmem] at hlook
    rw [Query.matchlist_of_own rfl] at hids
    obtain rfl := Option.some.inj hids
    refine mem_listSequential.mpr ⟨hfs, harea, ⟨w, List.mem_singleton_self w, ?_, ?_⟩,
      ⟨w, List.mem_singleton_self w, ?_⟩⟩
    · rw [World.openDB, ← hedited.magic]
      exact hopen
    · refine ⟨_, Query.matchlist_of_own rfl, mem_dirEntries.mpr ⟨?_, (mem_dirEntries.mp hid).2⟩⟩
      rw [← harea]
      exact Option.isSome_iff_exists.mpr ⟨_, hlook⟩
    · refine World.readEntry_eq_some.mpr ⟨hvalid, ?_⟩
      rw [← harea]
      exact hlook

/-- A date is the only option. -/
theorem EditArgs.only_date (a : EditArgs)
    (h : a.ensureuntil.isSome = true ∨ a.expireby.isSome = true) :
    a.addtime = 0 ∧ a.addtimeexpired = 0 := by
  have hone := a.only_one
  rcases h with h | h
  all_goals
    rw [if_pos h] at hone
    constructor
    all_goals
      by_contra hne
      rw [if_pos hne] at hone
      omega

theorem EditArgs.only_expireby (a : EditArgs) (h : a.expireby.isSome = true) :
    a.ensureuntil = none := by
  have hone := a.only_one
  rw [if_pos h] at hone
  by_contra hne
  rw [if_pos (Option.isSome_iff_ne_none.mpr hne)] at hone
  omega

/-- A date is reached by one edit. -/
theorem not_edits_edited (htime : a.addtime = 0) (hexpired : a.addtimeexpired = 0) (id : Str)
    (e : DBEntry) :
    a.edits id (if a.edits id e then (a.edited id e).persisted else e) = false := by
  cases hedits : a.edits id e with
  | false =>
    rw [if_neg Bool.false_ne_true]
    exact hedits
  | true =>
    rw [if_pos rfl]
    simp only [EditArgs.edits, EditArgs.new_expired, EditArgs.new_expiration, htime, hexpired,
      ne_eq, not_true_eq_false, if_false, Option.isSome_none, Bool.or_false] at hedits ⊢
    simp only [DBEntry.persisted_expiration, EditArgs.edited, EditArgs.new_expiration, htime, ne_eq,
      not_true_eq_false, if_false]
    cases huntil : a.ensureuntil with
    | some date =>
      simp only [huntil] at hedits ⊢
      split at hedits
      · rename_i hbefore
        simp only [if_pos hbefore, Option.getD_some, lt_irrefl, if_false, Option.isSome_none]
      · cases hedits
    | none =>
      cases hby : a.expireby with
      | none =>
        simp only [huntil, hby] at hedits
        cases hedits
      | some date =>
        simp only [huntil, hby] at hedits ⊢
        split at hedits
        · rename_i hafter
          simp only [if_pos hafter, Option.getD_some, gt_iff_lt, lt_irrefl, if_false,
            Option.isSome_none]
        · cases hedits

/-- An entry that is not edited is as early and as late as it has to be. -/
theorem date_of_not_edits {id : Str} {e : DBEntry} (htime : a.addtime = 0)
    (h : a.edits id e = false) :
    (∀ date, a.ensureuntil = some date → date ≤ e.expiration) ∧
      (∀ date, a.ensureuntil = none → a.expireby = some date → e.expiration ≤ date) := by
  have hnone := (Bool.or_eq_false_iff.mp h).1
  rw [EditArgs.new_expiration, htime, if_neg (not_not_intro rfl)] at hnone
  refine ⟨fun date huntil => ?_, fun date huntil hby => ?_⟩
  · simp only [huntil] at hnone
    split at hnone
    · cases hnone
    · omega
  · simp only [huntil, hby] at hnone
    split at hnone
    · cases hnone
    · omega

/-- **A call for live entries.** Whatever the order in which the workers hand the entries in, a real
call edits each selected entry as its options say and leaves all else. After `--ensure-until` no
selected workspace expires before the date, after `--expire-by` none after it, and a second call
with the same date, in whatever order, changes nothing any more. -/
theorem wsEditdb_live (config : Config) (c : Caller) (sel : EditSelection) (a : EditArgs)
    (udb : UserDb) (broken : Str → Bool) (w w' : World) (hlive : a.expired = false)
    (hcall : EditCall config c sel a udb broken false w w') :
    Edited a (editSelected config c sel a udb broken w) w w' ∧
      (∀ date, a.ensureuntil = some date →
        ∀ x ∈ editSelected config c sel a udb broken w', date ≤ x.2.expiration) ∧
      (∀ date, a.expireby = some date →
        ∀ x ∈ editSelected config c sel a udb broken w', x.2.expiration ≤ date) ∧
      (a.addtime = 0 → a.addtimeexpired = 0 → ∀ w'',
        EditCall config c sel a udb broken false w' w'' →
          w''.dirs = w'.dirs ∧ ∀ k, w''.db.lookup k = w'.db.lookup k) := by
  have hedited := hcall.edited hlive
  have hdone : a.addtime = 0 → a.addtimeexpired = 0 →
      ∀ x ∈ editSelected config c sel a udb broken w', a.edits x.1.id x.2 = false := by
    intro htime hexpired x hx
    obtain ⟨e, -, he⟩ := hedited.selected hx
    rw [he]
    exact not_edits_edited htime hexpired x.1.id e
  refine ⟨hedited, fun date huntil x hx => ?_, fun date hby x hx => ?_, ?_⟩
  · obtain ⟨htime, hexpired⟩ := a.only_date (Or.inl (Option.isSome_of_eq_some huntil))
    exact (date_of_not_edits htime (hdone htime hexpired x hx)).1 date huntil
  · have hsome := Option.isSome_of_eq_some hby
    obtain ⟨htime, hexpired⟩ := a.only_date (Or.inr hsome)
    exact (date_of_not_edits htime (hdone htime hexpired x hx)).2 date (a.only_expireby hsome) hby
  · intro htime hexpired w'' hagain
    have hsecond := hagain.edited hlive
    refine ⟨hsecond.dirs, fun k => ?_⟩
    by_cases hk : k ∈ (editSelected config c sel a udb broken w').map Prod.fst
    · obtain ⟨x, hx, rfl⟩ := List.mem_map.mp hk
      rw [hsecond.entries x hx, hdone htime hexpired x hx, if_neg Bool.false_ne_true]
      obtain ⟨-, harea, -, ⟨w₁, hw₁, hread⟩⟩ := mem_listSequential.mp hx
      obtain rfl := List.mem_singleton.mp hw₁
      rw [← (World.readEntry_eq_some.mp hread).2, ← harea]
    · exact hsecond.others k hk

end Calls

/-- Nothing ends before 2030. -/
def until2030 : EditArgs := ⟨false, 0, 0, some 1900000000, none, by decide⟩

/-- `bob` may edit his workspaces, which end before that. -/
theorem wsEditdb_live_bob : ∃ w', EditCall plainConfig bob ⟨[], [], []⟩ until2030 noUsers
    (fun _ => true) false bobWorld w' ∧
    ∀ x ∈ editSelected plainConfig bob ⟨[], [], []⟩ until2030 noUsers (fun _ => true) w',
      1900000000 ≤ x.2.expiration := by
  have hcall : ∃ w', EditCall plainConfig bob ⟨[], [], []⟩ until2030 noUsers (fun _ => true) false
      bobWorld w' := by
    have hown : ∀ ev ∈ bobListing, ∀ w', ev ≠ .others w' := by
      intro ev hev w' heq
      subst heq
      simp [bobListing] at hev
    exact ⟨_, .run hown rfl rfl⟩
  obtain ⟨w', hcall⟩ := hcall
  exact ⟨w', hcall, (wsEditdb_live plainConfig bob ⟨[], [], []⟩ until2030 noUsers (fun _ => true)
    bobWorld w' rfl hcall).2.1 1900000000 rfl⟩

end HpcWorkspace
