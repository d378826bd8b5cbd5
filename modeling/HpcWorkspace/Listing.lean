import Mathlib.Data.List.Nodup
import HpcWorkspace.Find
import HpcWorkspace.Lib.Gather
import HpcWorkspace.Lib.Inevitable

/-!
# Listing

`ws_list`, `ws_stat` and `ws_editdb` collect entries from one filesystem after the other. In each
they match the names and give these to a thread pool; the workers read the entries and hand them in
in any order. Meanwhile other processes create, move and remove entries. What is collected was
there: each entry was matched in some state of the databases and read in some state, none is
collected twice, and one that was there all the time is not missed.
-/

namespace HpcWorkspace

/-! ## The parallel loop -/

/-- Where the loop over the filesystems stands. -/
structure Listing where
  /-- the databases -/
  world : World
  /-- what they were before; this is not in the program -/
  past : List World
  /-- the filesystems to come -/
  fslist : List Str
  /-- the filesystem the pool is at, and its `matchlist` -/
  current : Option (Str × Gather Str (Option DBEntry))
  /-- `entrylist`, each entry with its file -/
  entrylist : List (DbLoc × DBEntry)
  /-- an exception of `matchPattern`, which nobody catches -/
  failed : Bool

/-- What happens next. -/
inductive ListEvent where
  /-- another process changes the databases -/
  | others (w : World)
  /-- the main thread goes to the next filesystem -/
  | next
  /-- a worker reads an entry -/
  | read (id : Str)
  /-- a worker hands an entry in -/
  | push (k : ℕ)
  /-- the main thread finds that the pool is done -/
  | wait

/-- What the workers have handed in; entries that could not be read are left out. -/
def collected (area : Area) (fs : Str) (g : Gather Str (Option DBEntry)) : List (DbLoc × DBEntry) :=
  g.done.filterMap fun x => x.2.map fun e => (⟨fs, area, x.1⟩, e)

namespace Listing

/-- The begin. -/
def start (w : World) (fslist : List Str) : Listing := ⟨w, [], fslist, none, [], false⟩

/-- `openDB` and `matchPattern`; a database that can not be opened is passed. -/
def openFs (q : Query) (s : Listing) (fs : Str) (fslist : List Str) : Listing :=
  if !s.world.openDB fs then { s with fslist := fslist }
  else
    match q.matchlist s.world fs with
    | none => { s with failed := true }
    | some ids => { s with fslist := fslist, current := some (fs, .start ids) }

/-- One step. -/
def step (q : Query) (s : Listing) : ListEvent → Option Listing
  | .others w => some { s with world := w, past := s.world :: s.past }
  | .next =>
    if s.failed || s.current.isSome then none
    else s.fslist.head?.map fun fs => s.openFs q fs s.fslist.tail
  | .read id =>
    s.current.bind fun c =>
      (c.2.take id (s.world.readEntry c.1 q.area id)).map fun g =>
        { s with current := some (c.1, g) }
  | .push k =>
    s.current.bind fun c => (c.2.hand k).map fun g => { s with current := some (c.1, g) }
  | .wait =>
    s.current.bind fun c =>
      if c.2.finished then
        some { s with current := none, entrylist := s.entrylist ++ collected q.area c.1 c.2 }
      else none

/-- Is everything collected? -/
def finished (s : Listing) : Bool := !s.failed && s.current.isNone && s.fslist.isEmpty

/-- The states of the databases so far. -/
def seen (s : Listing) : List World := s.world :: s.past

/-- The steps, with what they need. -/
inductive Step (q : Query) (s : Listing) : ListEvent → Listing → Prop where
  | others (w : World) : Step q s (.others w) { s with world := w, past := s.world :: s.past }
  | closed (fs : Str) (fslist : List Str) (idle : s.current = none)
      (head : s.fslist = fs :: fslist) (shut : s.world.openDB fs = false) :
      Step q s .next { s with fslist := fslist }
  | fails (fs : Str) (sound : s.failed = false) (idle : s.current = none) (mem : fs ∈ s.fslist)
      (threw : q.matchlist s.world fs = none) : Step q s .next { s with failed := true }
  | opened (fs : Str) (fslist ids : List Str) (idle : s.current = none)
      (head : s.fslist = fs :: fslist) (opens : s.world.openDB fs = true)
      (matched : q.matchlist s.world fs = some ids) :
      Step q s .next { s with fslist := fslist, current := some (fs, .start ids) }
  | read (id fs : Str) (g g' : Gather Str (Option DBEntry)) (at_fs : s.current = some (fs, g))
      (take : g.take id (s.world.readEntry fs q.area id) = some g') :
      Step q s (.read id) { s with current := some (fs, g') }
  | push (k : ℕ) (fs : Str) (g g' : Gather Str (Option DBEntry)) (at_fs : s.current = some (fs, g))
      (hand : g.hand k = some g') : Step q s (.push k) { s with current := some (fs, g') }
  | wait (fs : Str) (g : Gather Str (Option DBEntry)) (at_fs : s.current = some (fs, g))
      (all : g.finished = true) :
      Step q s .wait
        { s with current := none, entrylist := s.entrylist ++ collected q.area fs g }

variable {q : Query} {s s' : Listing} {ev : ListEvent}

/-- **Inversion.** -/
theorem step_spec (h : s.step q ev = some s') : Step q s ev s' := by
  cases ev with
  | others w =>
    obtain rfl := Option.some.inj h
    exact .others w
  | next =>
    dsimp only [step] at h
    split at h
    · cases h
    · rename_i hidle
      rw [Bool.or_eq_true, not_or, Bool.not_eq_true, Bool.not_eq_true, Option.isSome_eq_false_iff,
        Option.isNone_iff_eq_none] at hidle
      obtain ⟨fs, hfs, rfl⟩ := Option.map_eq_some_iff.mp h
      have hhead : s.fslist = fs :: s.fslist.tail := List.eq_cons_of_mem_head? hfs
      rw [openFs]
      cases hopen : s.world.openDB fs with
      | false => exact .closed fs s.fslist.tail hidle.2 hhead hopen
      | true =>
        cases hmatch : q.matchlist s.world fs with
        | none =>
          exact .fails fs hidle.1 hidle.2 (hhead ▸ List.mem_cons_self ..) hmatch
        | some ids => exact .opened fs s.fslist.tail ids hidle.2 hhead hopen hmatch
  | read id =>
    obtain ⟨c, hc, h⟩ := Option.bind_eq_some_iff.mp h
    obtain ⟨g', hg', rfl⟩ := Option.map_eq_some_iff.mp h
    exact .read id c.1 c.2 g' hc hg'
  | push k =>
    obtain ⟨c, hc, h⟩ := Option.bind_eq_some_iff.mp h
    obtain ⟨g', hg', rfl⟩ := Option.map_eq_some_iff.mp h
    exact .push k c.1 c.2 g' hc hg'
  | wait =>
    obtain ⟨c, hc, h⟩ := Option.bind_eq_some_iff.mp h
    split at h
    · rename_i hall
      obtain rfl := Option.some.inj h
      exact .wait c.1 c.2 hc hall
    · cases h

end Listing

/-! ## Names match once -/

theorem sublist_of_listGroupFiles {udb : UserDb} {groupof : Str → Option Str} {groups : List Str}
    {x : HasGroupIntersection} {filelist ids : List Str}
    (h : World.listGroupFiles udb groupof groups x filelist = some ids) : ids.Sublist filelist := by
  induction filelist generalizing x ids with
  | nil =>
    obtain rfl := Option.some.inj h
    exact .slnil
  | cons f filelist ih =>
    rw [World.listGroupFiles] at h
    split at h
    · exact (ih h).cons f
    · split at h
      · cases h
      · obtain ⟨ids', hids', rfl⟩ := Option.map_eq_some_iff.mp h
        split
        · exact (ih hids').cons_cons f
        · exact (ih hids').cons f

theorem Query.nodup_matchlist {q : Query} {w : World} {fs : Str} {ids : List Str}
    (h : q.matchlist w fs = some ids) : ids.Nodup := by
  rw [matchlist, World.matchPatternAs] at h
  split at h
  · exact (sublist_of_listGroupFiles h).nodup (nodup_dirEntries ..)
  · obtain rfl := Option.some.inj h
    exact nodup_dirEntries ..

/-! ## What is collected -/

/-- The database of `fs` can be opened, and `id` is in its `matchlist`. -/
structure Fits (q : Query) (w : World) (fs id : Str) : Prop where
  /-- `openDB` -/
  opens : w.openDB fs = true
  /-- `matchPattern` -/
  matched : ∃ ids, q.matchlist w fs = some ids ∧ id ∈ ids

/-- An entry was matched, and it was read, each in some state of the databases. -/
structure WasThere (q : Query) (seen : List World) (x : DbLoc × DBEntry) : Prop where
  /-- it is of the area that is listed -/
  area : x.1.area = q.area
  /-- it was matched -/
  fits : ∃ w ∈ seen, Fits q w x.1.fs x.1.id
  /-- it was read -/
  read : ∃ w ∈ seen, w.readEntry x.1.fs q.area x.1.id = some x.2

/-- An entry is there all the time. -/
def AllTheTime (q : Query) (seen : List World) (fs id : Str) : Prop :=
  ∀ w ∈ seen, Fits q w fs id ∧ (w.readEntry fs q.area id).isSome = true

/-- **A faithful listing.** -/
structure Faithful (q : Query) (fslist : List Str) (seen : List World)
    (entrylist : List (DbLoc × DBEntry)) : Prop where
  /-- no entry is collected twice -/
  once : (entrylist.map Prod.fst).Nodup
  /-- what is collected was there -/
  there : ∀ x ∈ entrylist, x.1.fs ∈ fslist ∧ WasThere q seen x
  /-- what was there all the time is collected -/
  complete : ∀ fs ∈ fslist, ∀ id, AllTheTime q seen fs id →
    ∃ e, (⟨fs, q.area, id⟩, e) ∈ entrylist

section Faithful

variable {q : Query} {seen seen' : List World} {fs id : Str}

theorem WasThere.mono {x : DbLoc × DBEntry} (h : WasThere q seen x) (hsub : seen ⊆ seen') :
    WasThere q seen' x := by
  obtain ⟨w, hw, hfits⟩ := h.fits
  obtain ⟨w', hw', hread⟩ := h.read
  exact ⟨h.area, ⟨w, hsub hw, hfits⟩, ⟨w', hsub hw', hread⟩⟩

theorem AllTheTime.anti (h : AllTheTime q seen' fs id) (hsub : seen ⊆ seen') :
    AllTheTime q seen fs id := fun w hw => h w (hsub hw)

theorem Faithful.mono {fslist : List Str} {entrylist : List (DbLoc × DBEntry)}
    (h : Faithful q fslist seen entrylist) (hsub : seen ⊆ seen') :
    Faithful q fslist seen' entrylist where
  once := h.once
  there x hx := ⟨(h.there x hx).1, (h.there x hx).2.mono hsub⟩
  complete fs hfs id hid := h.complete fs hfs id (hid.anti hsub)

/-- One filesystem is passed, and nothing of it was there all the time. -/
theorem Faithful.pass {fslist : List Str} {entrylist : List (DbLoc × DBEntry)}
    (h : Faithful q fslist seen entrylist) (hnone : ∀ id, ¬AllTheTime q seen fs id) :
    Faithful q (fslist ++ [fs]) seen entrylist where
  once := h.once
  there x hx := ⟨List.mem_append_left _ (h.there x hx).1, (h.there x hx).2⟩
  complete fs' hfs' id hid := by
    rcases List.mem_append.mp hfs' with hfs' | hfs'
    · exact h.complete fs' hfs' id hid
    · rw [List.mem_singleton.mp hfs'] at hid
      exact absurd hid (hnone id)

/-- A faithful pool: its items are the names that were matched, its answers were read. -/
structure PoolFaithful (q : Query) (seen : List World) (fs : Str)
    (g : Gather Str (Option DBEntry)) : Prop where
  /-- each name once -/
  once : g.items.Nodup
  /-- the names were matched -/
  fits : ∀ id ∈ g.items, ∃ w ∈ seen, Fits q w fs id
  /-- the entries were read -/
  read : g.Answers fun id entry => ∃ w ∈ seen, w.readEntry fs q.area id = entry
  /-- no name is missing -/
  complete : ∀ id, AllTheTime q seen fs id → id ∈ g.items

namespace PoolFaithful

variable {g g' : Gather Str (Option DBEntry)}

theorem mono (h : PoolFaithful q seen fs g) (hsub : seen ⊆ seen') :
    PoolFaithful q seen' fs g where
  once := h.once
  fits id hid := by
    obtain ⟨w, hw, hfits⟩ := h.fits id hid
    exact ⟨w, hsub hw, hfits⟩
  read := h.read.mono fun id entry hseen => by
    obtain ⟨w, hw, hread⟩ := hseen
    exact ⟨w, hsub hw, hread⟩
  complete id hid := h.complete id (hid.anti hsub)

theorem start {w : World} {ids : List Str} (hw : w ∈ seen) (hopen : w.openDB fs = true)
    (hmatch : q.matchlist w fs = some ids) : PoolFaithful q seen fs (.start ids) where
  once := by
    rw [Gather.items_start]
    exact Query.nodup_matchlist hmatch
  fits id hid := by
    rw [Gather.items_start] at hid
    exact ⟨w, hw, hopen, ids, hmatch, hid⟩
  read := Gather.answers_start _ _
  complete id hid := by
    rw [Gather.items_start]
    obtain ⟨ids', hids', hmem⟩ := (hid w hw).1.matched
    obtain rfl := Option.some.inj (hmatch.symm.trans hids')
    exact hmem

theorem take {w : World} (h : PoolFaithful q seen fs g) (hw : w ∈ seen)
    (htake : g.take id (w.readEntry fs q.area id) = some g') : PoolFaithful q seen fs g' where
  once := (Gather.items_take htake).nodup_iff.mpr h.once
  fits id hid := h.fits id ((Gather.items_take htake).mem_iff.mp hid)
  read := h.read.take htake ⟨w, hw, rfl⟩
  complete id hid := (Gather.items_take htake).mem_iff.mpr (h.complete id hid)

theorem hand {k : ℕ} (h : PoolFaithful q seen fs g) (hhand : g.hand k = some g') :
    PoolFaithful q seen fs g' where
  once := (Gather.items_hand hhand).nodup_iff.mpr h.once
  fits id hid := h.fits id ((Gather.items_hand hhand).mem_iff.mp hid)
  read := h.read.hand hhand
  complete id hid := (Gather.items_hand hhand).mem_iff.mpr (h.complete id hid)

end PoolFaithful

theorem mem_collected {area : Area} {g : Gather Str (Option DBEntry)} {x : DbLoc × DBEntry} :
    x ∈ collected area fs g ↔ x.1.fs = fs ∧ x.1.area = area ∧ (x.1.id, some x.2) ∈ g.done := by
  rw [collected, List.mem_filterMap]
  constructor
  · rintro ⟨⟨id, entry⟩, hmem, hx⟩
    obtain ⟨e, rfl, rfl⟩ := Option.map_eq_some_iff.mp hx
    exact ⟨rfl, rfl, hmem⟩
  · rintro ⟨rfl, rfl, hmem⟩
    exact ⟨_, hmem, rfl⟩

/-- The pool is done, and its entries join the others. -/
theorem Faithful.collect {fslist : List Str} {entrylist : List (DbLoc × DBEntry)}
    {g : Gather Str (Option DBEntry)} (h : Faithful q fslist seen entrylist) (hfs : fs ∉ fslist)
    (hg : PoolFaithful q seen fs g) (hall : g.finished = true) :
    Faithful q (fslist ++ [fs]) seen (entrylist ++ collected q.area fs g) where
  once := by
    rw [List.map_append, List.nodup_append']
    refine ⟨h.once, ?_, ?_⟩
    · -- the names are items, which come once
      have hkeys : (g.done.map Prod.fst).Nodup := by
        rw [Gather.done_of_finished hall]
        exact hg.once
      rw [collected, List.map_filterMap]
      refine List.Pairwise.filterMap _ ?_ (List.pairwise_map.mp hkeys)
      rintro ⟨id₁, entry₁⟩ ⟨id₂, entry₂⟩ hne k₁ hk₁ k₂ hk₂ rfl
      simp only [Option.map_map, Option.map_eq_some_iff, Function.comp_apply] at hk₁ hk₂
      obtain ⟨-, -, rfl⟩ := hk₁
      obtain ⟨-, -, hk⟩ := hk₂
      exact hne (congrArg DbLoc.id hk).symm
    · rintro k hk hk'
      obtain ⟨x, hx, rfl⟩ := List.mem_map.mp hk
      obtain ⟨y, hy, hloc⟩ := List.mem_map.mp hk'
      refine hfs ?_
      rw [← (mem_collected.mp hy).1, hloc]
      exact (h.there x hx).1
  there x hx := by
    rcases List.mem_append.mp hx with hx | hx
    · exact ⟨List.mem_append_left _ (h.there x hx).1, (h.there x hx).2⟩
    · obtain ⟨rfl, harea, hdone⟩ := mem_collected.mp hx
      have hitem : x.1.id ∈ g.items := by
        rw [← Gather.done_of_finished hall]
        exact List.mem_map_of_mem (f := Prod.fst) hdone
      exact ⟨List.mem_append_right _ (List.mem_singleton_self _), harea, hg.fits _ hitem,
        hg.read.of_mem_done hdone⟩
  complete fs' hfs' id hid := by
    rcases List.mem_append.mp hfs' with hfs' | hfs'
    · obtain ⟨e, he⟩ := h.complete fs' hfs' id hid
      exact ⟨e, List.mem_append_left _ he⟩
    · rw [List.mem_singleton.mp hfs'] at hid ⊢
      have hitem := hg.complete id hid
      rw [← Gather.done_of_finished hall] at hitem
      obtain ⟨⟨id', entry⟩, hdone, rfl⟩ := List.mem_map.mp hitem
      -- it was read, in a state in which it was there
      obtain ⟨w, hw, hread⟩ := hg.read.of_mem_done hdone
      obtain ⟨e, he⟩ := Option.isSome_iff_exists.mp (hid w hw).2
      refine ⟨e, List.mem_append_right _ (mem_collected.mpr ⟨rfl, rfl, ?_⟩)⟩
      rw [← he, hread]
      exact hdone

end Faithful

/-! ## Any order of steps -/

namespace Listing

variable {q : Query} {s s' : Listing} {ev : ListEvent} {fslist gone : List Str}

/-- The filesystems `gone` are listed faithfully, and so is the one the pool is at. -/
structure Stands (q : Query) (fslist gone : List Str) (s : Listing) : Prop where
  /-- those passed, the current one and those to come -/
  parts : fslist = gone ++ (s.current.toList.map Prod.fst ++ s.fslist)
  /-- the entries so far -/
  passed : Faithful q gone s.seen s.entrylist
  /-- the pool -/
  pool : ∀ fs g, s.current = some (fs, g) → PoolFaithful q s.seen fs g
  /-- the exception -/
  threw : s.failed = true → ∃ fs ∈ fslist, ∃ w ∈ s.seen, q.matchlist w fs = none

theorem stands_start (q : Query) (w : World) (fslist : List Str) :
    Stands q fslist [] (start w fslist) where
  parts := rfl
  passed := ⟨List.nodup_nil, fun _ hx => absurd hx List.not_mem_nil,
    fun _ hfs => absurd hfs List.not_mem_nil⟩
  pool _ _ h := by cases h
  threw h := by cases h

/-- A step, of this process or of another one. -/
theorem Stands.step (h : Stands q fslist gone s) (hnodup : fslist.Nodup)
    (hstep : s.step q ev = some s') : ∃ gone', Stands q fslist gone' s' := by
  have hparts := h.parts
  have hspec := step_spec hstep
  cases hspec with
  | others w =>
    have hsub : s.seen ⊆ w :: s.seen := List.subset_cons_self ..
    refine ⟨gone, hparts, h.passed.mono hsub, fun fs g hg => (h.pool fs g hg).mono hsub,
      fun hfailed => ?_⟩
    obtain ⟨fs, hfs, w', hw', hnone⟩ := h.threw hfailed
    exact ⟨fs, hfs, w', hsub hw', hnone⟩
  | closed fs fslist' idle head shut =>
    refine ⟨gone ++ [fs], ?_, h.passed.pass fun id hid => ?_, fun fs' g hg => h.pool fs' g hg,
      h.threw⟩
    · simpa only [idle, head, Option.toList_none, List.map_nil, List.nil_append, List.append_assoc,
        List.singleton_append] using hparts
    · rw [(hid _ (List.mem_cons_self ..)).1.opens] at shut
      cases shut
  | fails fs sound idle mem threw =>
    refine ⟨gone, hparts, h.passed, h.pool, fun _ => ⟨fs, ?_, s.world, List.mem_cons_self .., threw⟩⟩
    rw [hparts]
    exact List.mem_append_right _ (List.mem_append_right _ mem)
  | opened fs fslist' ids idle head opens matched =>
    refine ⟨gone, ?_, h.passed, fun fs' g hg => ?_, h.threw⟩
    · simpa only [idle, head, Option.toList_none, Option.toList_some, List.map_nil, List.map_cons,
        List.nil_append, List.singleton_append] using hparts
    · obtain ⟨rfl, rfl⟩ := Prod.mk.inj (Option.some.inj hg)
      exact .start (List.mem_cons_self ..) opens matched
  | read id fs g g' at_fs take =>
    refine ⟨gone, ?_, h.passed, fun fs' g₁ hg => ?_, h.threw⟩
    · rw [at_fs] at hparts
      exact hparts
    · obtain ⟨rfl, rfl⟩ := Prod.mk.inj (Option.some.inj hg)
      exact (h.pool fs g at_fs).take (List.mem_cons_self ..) take
  | push k fs g g' at_fs hand =>
    refine ⟨gone, ?_, h.passed, fun fs' g₁ hg => ?_, h.threw⟩
    · rw [at_fs] at hparts
      exact hparts
    · obtain ⟨rfl, rfl⟩ := Prod.mk.inj (Option.some.inj hg)
      exact (h.pool fs g at_fs).hand hand
  | wait fs g at_fs all =>
    rw [at_fs] at hparts
    have hnew : fs ∉ gone := by
      rw [hparts] at hnodup
      intro hfs
      exact (List.nodup_append'.mp hnodup).2.2 hfs (List.mem_cons_self ..)
    refine ⟨gone ++ [fs], ?_, h.passed.collect hnew (h.pool fs g at_fs) all, fun fs' g' hg => ?_,
      h.threw⟩
    · rw [hparts, List.append_assoc]
      rfl
    · cases hg

theorem finished_iff : s.finished = true ↔ s.failed = false ∧ s.current = none ∧ s.fslist = [] := by
  rw [finished, Bool.and_eq_true, Bool.and_eq_true, Bool.not_eq_true', Option.isNone_iff_eq_none,
    List.isEmpty_iff, and_assoc]

theorem stands_of_run {w : World} (hnodup : fslist.Nodup) {evs : List ListEvent}
    (hrun : Runs.exec (step q) (start w fslist) evs = some s) : ∃ gone, Stands q fslist gone s :=
  Runs.exec_invariant (fun t ev t' (ht : ∃ gone, Stands q fslist gone t) hstep => by
      obtain ⟨gone, ht⟩ := ht
      exact ht.step hnodup hstep) ⟨[], stands_start q w fslist⟩ hrun

theorem Stands.faithful (h : Stands q fslist gone s) (hdone : s.finished = true) :
    Faithful q fslist s.seen s.entrylist := by
  obtain ⟨-, hidle, hlast⟩ := finished_iff.mp hdone
  have hparts := h.parts
  rw [hidle, hlast] at hparts
  have hgone : fslist = gone := hparts.trans (List.append_nil gone)
  rw [hgone]
  exact h.passed

/-! ## It ends -/

/-- Other processes change the databases, some times or not at all, and then a step of this one is
done. -/
def Round (q : Query) (s s' : Listing) : Prop :=
  ∃ (changes : List World) (ev : ListEvent), (∀ w, ev ≠ .others w) ∧
    Runs.exec (step q) s (changes.map .others ++ [ev]) = some s'

/-- What is to do: filesystems first, and then the work of the pool. -/
def todo (s : Listing) : ℕ × ℕ :=
  (s.fslist.length + (!s.failed).toNat, s.current.elim 0 fun c => c.2.left + 1)

theorem exec_others (q : Query) (s : Listing) (changes : List World) :
    ∃ t, Runs.exec (step q) s (changes.map .others) = some t ∧ t.todo = s.todo := by
  induction changes generalizing s with
  | nil => exact ⟨s, rfl, rfl⟩
  | cons w changes ih =>
    obtain ⟨t, ht, htodo⟩ := ih { s with world := w, past := s.world :: s.past }
    exact ⟨t, ht, htodo⟩

/-- A step of this process is one step less. -/
theorem todo_of_step (h : s.step q ev = some s') (hown : ∀ w, ev ≠ .others w) :
    Prod.Lex (· < ·) (· < ·) s'.todo s.todo := by
  have hspec := step_spec h
  cases hspec with
  | others w => exact absurd rfl (hown w)
  | closed fs fslist' idle head shut =>
    refine .left _ _ ?_
    dsimp only
    rw [head, List.length_cons]
    omega
  | fails fs sound =>
    refine .left _ _ ?_
    dsimp only
    rw [sound]
    simp
  | opened fs fslist' ids idle head =>
    refine .left _ _ ?_
    dsimp only
    rw [head, List.length_cons]
    omega
  | read id fs g g' at_fs take =>
    have hleft := Gather.left_take take
    rw [todo, todo, at_fs]
    refine .right _ ?_
    simp only [Option.elim_some]
    omega
  | push k fs g g' at_fs hand =>
    have hleft := Gather.left_hand hand
    rw [todo, todo, at_fs]
    refine .right _ ?_
    simp only [Option.elim_some]
    omega
  | wait fs g at_fs =>
    rw [todo, todo, at_fs]
    refine .right _ ?_
    simp only [Option.elim_none, Option.elim_some]
    omega

/-- As long as it is not done, there is something to do. -/
theorem exists_step (q : Query) (hfailed : s.failed = false) (hdone : s.finished = false) :
    ∃ ev s', (∀ w, ev ≠ .others w) ∧ s.step q ev = some s' := by
  cases hcurrent : s.current with
  | none =>
    cases hlist : s.fslist with
    | nil =>
      have hall := finished_iff.mpr ⟨hfailed, hcurrent, hlist⟩
      rw [hall] at hdone
      cases hdone
    | cons fs fslist =>
      refine ⟨.next, s.openFs q fs fslist, fun w => by simp, ?_⟩
      rw [step, hfailed, hcurrent, hlist]
      rfl
  | some c =>
    cases hpool : c.2.finished with
    | true =>
      refine ⟨.wait, { s with current := none, entrylist := s.entrylist ++ collected q.area c.1 c.2 },
        fun w => by simp, ?_⟩
      rw [step, hcurrent, Option.bind_some, if_pos hpool]
    | false =>
      rcases Gather.progress hpool with ⟨id, htake⟩ | ⟨g', hhand⟩
      · obtain ⟨g', hg'⟩ := htake (s.world.readEntry c.1 q.area id)
        refine ⟨.read id, { s with current := some (c.1, g') }, fun w => by simp, ?_⟩
        rw [step, hcurrent, Option.bind_some, hg']
        rfl
      · refine ⟨.push 0, { s with current := some (c.1, g') }, fun w => by simp, ?_⟩
        rw [step, hcurrent, Option.bind_some, hhand]
        rfl

theorem todo_of_round (h : Round q s s') : Prod.Lex (· < ·) (· < ·) s'.todo s.todo := by
  obtain ⟨changes, ev, hown, hrun⟩ := h
  obtain ⟨t, ht, htodo⟩ := exec_others q s changes
  rw [Runs.exec_append, ht, Option.bind_some, Runs.exec_cons_eq_some] at hrun
  obtain ⟨s'', hstep, hs''⟩ := hrun
  obtain rfl := Option.some.inj hs''
  rw [← htodo]
  exact todo_of_step hstep hown

/-- It ends, from wherever it stands. -/
theorem inevitable (q : Query) (s : Listing) :
    Inevitable (Round q) (fun t => t.finished = true ∨ t.failed = true) s := by
  have hwf : WellFounded fun s s' : Listing => Prod.Lex (· < ·) (· < ·) s.todo s'.todo :=
    InvImage.wf todo (WellFounded.prod_lex wellFounded_lt wellFounded_lt)
  induction s using hwf.induction with
  | _ s ih =>
    by_cases hend : s.finished = true ∨ s.failed = true
    · exact .now hend
    · rw [not_or, Bool.not_eq_true, Bool.not_eq_true] at hend
      obtain ⟨ev, s', hown, hstep⟩ := exists_step q hend.2 hend.1
      refine .later ⟨s', [], ev, hown, ?_⟩ fun t ht => ih t (todo_of_round ht)
      exact Runs.exec_cons_eq_some.mpr ⟨s', hstep, rfl⟩

/-- **Listing under concurrency.** Whatever the order in which the workers read and hand in the
entries, and whatever other processes do to the databases in between, the loop ends. If it was not
an exception of `matchPattern` that ended it, then no entry has been collected twice, each collected
one was matched and read in some state that the databases had meanwhile, and each one that could be
matched and read in all of these is collected. -/
theorem listing_faithful (q : Query) (w : World) (fslist : List Str) (hnodup : fslist.Nodup) :
    Inevitable (Round q)
      (fun s => s.finished = true ∧ Faithful q fslist s.seen s.entrylist ∨
        s.failed = true ∧ ∃ fs ∈ fslist, ∃ w' ∈ s.seen, q.matchlist w' fs = none)
      (start w fslist) := by
  have hstands := (inevitable q (start w fslist)).and_invariant
    (fun s => ∃ gone, Stands q fslist gone s) (fun s s' hs hround => ?_)
    ⟨[], stands_start q w fslist⟩
  · refine hstands.mono fun s hs => ?_
    obtain ⟨⟨gone, hs⟩, hdone | hfailed⟩ := hs
    · exact Or.inl ⟨hdone, hs.faithful hdone⟩
    · exact Or.inr ⟨hfailed, hs.threw hfailed⟩
  · obtain ⟨changes, ev, -, hrun⟩ := hround
    refine Runs.exec_invariant (fun t ev t' (ht : ∃ gone, Stands q fslist gone t) hstep => ?_) hs hrun
    obtain ⟨gone, ht⟩ := ht
    exact ht.step hnodup hstep

/-- All live entries. -/
def everything : Query := ⟨noUsers, fun _ => true, [], ['*'], ['*'], [], .live, false⟩

/-- A listing of one filesystem. -/
theorem listing_faithful_single : Inevitable (Round everything)
    (fun s => s.finished = true ∧ Faithful everything [['w']] s.seen s.entrylist ∨
      s.failed = true ∧ ∃ fs ∈ [['w']], ∃ w' ∈ s.seen, everything.matchlist w' fs = none)
    (start .init [['w']]) :=
  listing_faithful everything .init [['w']] (List.nodup_singleton _)

end Listing

/-! ## Alone -/

/-- The same in a sequence, entry by entry. -/
def listSequential (q : Query) (w : World) (fslist : List Str) : List (DbLoc × DBEntry) :=
  fslist.flatMap fun fs =>
    if !w.openDB fs then []
    else
      ((q.matchlist w fs).getD []).filterMap fun id =>
        (w.readEntry fs q.area id).map fun e => (⟨fs, q.area, id⟩, e)

section Alone

variable {q : Query} {w : World} {fslist : List Str} {s s' : Listing}

theorem mem_listSequential {x : DbLoc × DBEntry} : x ∈ listSequential q w fslist ↔
    x.1.fs ∈ fslist ∧ WasThere q [w] x := by
  rw [listSequential, List.mem_flatMap]
  constructor
  · rintro ⟨fs, hfs, hx⟩
    split at hx
    · cases hx
    · rename_i hopen
      obtain ⟨id, hid, hread⟩ := List.mem_filterMap.mp hx
      obtain ⟨e, he, rfl⟩ := Option.map_eq_some_iff.mp hread
      rw [Bool.not_eq_true, Bool.not_eq_false'] at hopen
      cases hmatch : q.matchlist w fs with
      | none =>
        rw [hmatch] at hid
        cases hid
      | some ids =>
        rw [hmatch] at hid
        exact ⟨hfs, rfl, ⟨w, List.mem_singleton_self w, hopen, ids, hmatch, hid⟩,
          ⟨w, List.mem_singleton_self w, he⟩⟩
  · rintro ⟨hfs, harea, ⟨w₁, hw₁, hfits⟩, ⟨w₂, hw₂, hread⟩⟩
    obtain rfl := List.mem_singleton.mp hw₁
    obtain rfl := List.mem_singleton.mp hw₂
    obtain ⟨ids, hmatch, hid⟩ := hfits.matched
    refine ⟨x.1.fs, hfs, ?_⟩
    rw [hfits.opens, hmatch]
    refine List.mem_filterMap.mpr ⟨x.1.id, hid, ?_⟩
    rw [hread, ← harea]
    rfl

theorem nodup_listSequential (h : fslist.Nodup) : (listSequential q w fslist).Nodup := by
  rw [listSequential, List.nodup_flatMap]
  refine ⟨fun fs _ => ?_, h.imp fun {fs fs'} hne x hx hx' => ?_⟩
  · split
    · exact List.nodup_nil
    · cases hmatch : q.matchlist w fs with
      | none => exact List.nodup_nil
      | some ids =>
        refine List.Nodup.filterMap ?_ (Query.nodup_matchlist hmatch)
        intro id₁ id₂ x hx₁ hx₂
        obtain ⟨e₁, -, rfl⟩ := Option.map_eq_some_iff.mp hx₁
        obtain ⟨e₂, -, hx⟩ := Option.map_eq_some_iff.mp hx₂
        exact (congrArg (fun y : DbLoc × DBEntry => y.1.id) hx).symm
  · -- entries of two filesystems differ
    have hloc : ∀ fs₀, x ∈ (if (!w.openDB fs₀) = true then [] else
        ((q.matchlist w fs₀).getD []).filterMap fun id =>
          (w.readEntry fs₀ q.area id).map fun e => ((⟨fs₀, q.area, id⟩ : DbLoc), e)) →
        x.1.fs = fs₀ := by
      intro fs₀ hmem
      split at hmem
      · cases hmem
      · obtain ⟨id, -, hread⟩ := List.mem_filterMap.mp hmem
        obtain ⟨e, -, rfl⟩ := Option.map_eq_some_iff.mp hread
        rfl
    exact hne ((hloc fs hx).symm.trans (hloc fs' hx'))

/-- A faithful listing of databases that do not change. -/
theorem Faithful.perm (h : Faithful q fslist [w] s.entrylist) (hnodup : fslist.Nodup) :
    s.entrylist.Perm (listSequential q w fslist) := by
  refine (List.perm_ext_iff_of_nodup h.once.of_map (nodup_listSequential hnodup)).mpr fun x => ?_
  rw [mem_listSequential]
  constructor
  · exact h.there x
  · rintro ⟨hfs, hthere⟩
    obtain ⟨harea, ⟨w₁, hw₁, hfits⟩, ⟨w₂, hw₂, hread⟩⟩ := hthere
    obtain rfl := List.mem_singleton.mp hw₁
    obtain rfl := List.mem_singleton.mp hw₂
    obtain ⟨e, he⟩ := h.complete x.1.fs hfs x.1.id fun w hw => by
      rw [List.mem_singleton.mp hw]
      exact ⟨hfits, Option.isSome_iff_exists.mpr ⟨_, hread⟩⟩
    -- an entry has one value
    obtain ⟨-, -, -, ⟨w, hw, hread'⟩⟩ := h.there _ he
    rw [List.mem_singleton.mp hw] at hread'
    obtain rfl := Option.some.inj (hread.symm.trans hread')
    rw [← harea] at he
    exact he

end Alone

end HpcWorkspace
