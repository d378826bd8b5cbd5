import HpcWorkspace.FilePaths
import HpcWorkspace.GlobExact
import HpcWorkspace.PromisedTimes
import HpcWorkspace.RestoreOwn
import HpcWorkspace.WsList

/-!
# `ws_restore -l`

The listing prints the names that `ws_restore` takes. What an ordinary user gets without a pattern are
the deleted entries whose names begin with his name and a dash; a restore of one of these names comes
to an entry exactly when the listing for the same filesystems prints the name once, and the entry can
be read and restored from its filesystem. With the dates, an entry that can not be read ends the part of
its filesystem.
-/

namespace HpcWorkspace

/-! ## The listing -/

/-- What is printed. -/
inductive RestoreLine where
  /-- the filesystem of `-F` can not be used -/
  | invalidFilesystem
  /-- a database that can not be opened, or an entry that can not be read -/
  | error (fs : Str)
  /-- the name of a deleted entry -/
  | id (id : Str)
  /-- `unavailable since` -/
  | unavailable (filenametime : ℤ)
  /-- `restorable until`, with what remains -/
  | restorable (removetime days hours : ℤ)
  /-- `in filesystem` -/
  | filesystem (fs : Str)
  deriving DecidableEq

/-- The dates of an entry. -/
def restoreDates (config : Config) (fs id : Str) (now : ℤ) : List RestoreLine :=
  match config.getFsConfig fs with
  | none => []
  | some fsconfig =>
    let remaining := removetime fsconfig id - now
    [.unavailable (filenametime id),
      .restorable (removetime fsconfig id) (remaining.tdiv (24 * 3600))
        ((remaining.tmod (24 * 3600)).tdiv 3600),
      .filesystem fs]

/-- The loop over the names of a filesystem, with the clock at each of them. -/
def restoreLines (config : Config) (w : World) (terse : Bool) (clock : Str → ℤ) (fs : Str) :
    List Str → List RestoreLine
  | [] => []
  | id :: ids =>
    .id id ::
      if terse then restoreLines config w terse clock fs ids
      else
        match w.readEntry fs .deleted id with
        | none => [.error fs]
        | some _ => restoreDates config fs id (clock id) ++ restoreLines config w terse clock fs ids

/-- The pattern: all when none is given. -/
def restorePattern (a : RestoreListArgs) : Str := if a.name = [] then ['*'] else a.name

/-- `ws_restore -l` -/
def wsRestoreList (config : Config) (c : Caller) (a : RestoreListArgs) (clock : Str → ℤ)
    (dir : DirOrder) (w : World) : List RestoreLine :=
  match restoreFslist config c c.username (some a.filesystem) with
  | none => [.invalidFilesystem]
  | some fslist =>
    fslist.flatMap fun fs =>
      if w.openDB fs then
        restoreLines config w a.terse clock fs (dir.order
          (w.matchPattern fs .deleted (restorePattern a) (userpattern config c a.username)))
      else [.error fs]

/-! ## The names that are printed -/

variable {config : Config} {w : World} {terse : Bool} {clock : Str → ℤ} {fs : Str}

theorem id_notMem_restoreDates {id : Str} {now : ℤ} (id' : Str) :
    RestoreLine.id id' ∉ restoreDates config fs id now := by
  rw [restoreDates]
  split <;> simp

/-- With `-b` each name is printed. -/
theorem restoreLines_terse (ids : List Str) :
    restoreLines config w true clock fs ids = ids.map .id := by
  induction ids with
  | nil => rfl
  | cons id ids ih =>
    rw [restoreLines, if_pos rfl, ih]
    rfl

/-- With the dates too, when all entries can be read. -/
theorem count_restoreLines {ids : List Str}
    (hread : terse = false → ∀ id ∈ ids, (w.readEntry fs .deleted id).isSome = true) (id : Str) :
    (restoreLines config w terse clock fs ids).count (.id id) = ids.count id := by
  cases terse with
  | true =>
    rw [restoreLines_terse]
    exact List.count_map_of_injective ids RestoreLine.id (fun _ _ => RestoreLine.id.inj) id
  | false =>
    induction ids with
    | nil => rfl
    | cons id' ids ih =>
      obtain ⟨e, he⟩ := Option.isSome_iff_exists.mp (hread rfl id' (List.mem_cons_self ..))
      have hrest := ih fun _ x hx => hread rfl x (List.mem_cons_of_mem _ hx)
      rw [restoreLines, if_neg Bool.false_ne_true, he]
      dsimp only
      rw [List.count_cons, List.count_append, hrest,
        List.count_eq_zero_of_not_mem (id_notMem_restoreDates id), Nat.zero_add, List.count_cons]
      simp only [beq_iff_eq, RestoreLine.id.injEq]

/-- What is printed is one of the names. -/
theorem mem_of_mem_restoreLines {ids : List Str} {id : Str}
    (h : RestoreLine.id id ∈ restoreLines config w terse clock fs ids) : id ∈ ids := by
  induction ids with
  | nil => cases h
  | cons id' ids ih =>
    rw [restoreLines] at h
    rcases List.mem_cons.mp h with heq | h
    · rw [RestoreLine.id.inj heq]
      exact List.mem_cons_self ..
    refine List.mem_cons_of_mem _ ?_
    split at h
    · exact ih h
    · split at h
      · rcases List.mem_singleton.mp h
      · rcases List.mem_append.mp h with h | h
        · exact absurd h (id_notMem_restoreDates id)
        · exact ih h

/-! ## What an ordinary user gets -/

/-- All names of a user. -/
theorem globMatch_wsid_star {u : Str} (hu : ∀ ch ∈ u, isLiteral ch) (id : Str) :
    globMatch (wsid u ['*']) id = true ↔ (u ++ ['-']) <+: id := by
  have hstem : ∀ ch ∈ u ++ ['-'], isLiteral ch := by
    intro ch hch
    rcases List.mem_append.mp hch with hch | hch
    · exact hu ch hch
    · rw [List.mem_singleton.mp hch]
      rfl
  have hpat : wsid u ['*'] = (u ++ ['-']) ++ ['*'] := by rw [wsid, List.append_assoc]; rfl
  rw [hpat]
  constructor
  · exact fun h => prefix_of_globLoop hstem h
  · rintro ⟨rest, rfl⟩
    rw [globMatch_eq_plainMatch, plainMatch]
    generalize u ++ ['-'] = stem at hstem
    induction stem with
    | nil =>
      rw [List.nil_append, items_star, items_nil]
      exact Wildcards.matchesText_star.mpr ⟨rest, [], (List.append_nil rest).symm,
        Wildcards.matchesText_nil_nil⟩
    | cons d stem ih =>
      rw [List.cons_append, items_literal (hstem d (List.mem_cons_self ..)), List.cons_append,
        Wildcards.matchesText_one_cons, ih fun ch hch => hstem ch (List.mem_cons_of_mem _ hch),
        Bool.and_true]
      exact beq_self_eq_true d

section Own

variable {c : Caller} {dir : DirOrder} {l : List Str} {id : Str}

/-- The names of the caller in a filesystem: each deleted entry file of his, once. -/
theorem count_matchPattern_own (hliteral : ∀ ch ∈ c.username, isLiteral ch)
    (hstarts : (c.username ++ ['-']) <+: id) :
    (dir.order (w.matchPattern fs .deleted ['*'] c.username)).count id =
      if w.db.lookup ⟨fs, .deleted, id⟩ = none then 0 else 1 := by
  rw [(dir.perm _).count_eq, World.matchPattern]
  split
  · rename_i hnone
    refine List.count_eq_zero_of_not_mem fun hmem => ?_
    have hsome := (mem_dirEntries.mp hmem).1
    rw [hnone] at hsome
    cases hsome
  · rename_i hsome
    refine List.count_eq_one_of_mem (nodup_dirEntries ..) (mem_dirEntries.mpr ⟨?_, ?_⟩)
    · exact Option.isSome_iff_ne_none.mpr hsome
    · exact (globMatch_wsid_star hliteral id).mpr hstarts

/-- **The listing prints the hits of a restore**, each once. -/
theorem count_wsRestoreList {a : RestoreListArgs} (hname : a.name = [])
    (hown : userpattern config c a.username = c.username)
    (hlist : restoreFslist config c c.username (some a.filesystem) = some l)
    (hread : a.terse = false → ∀ fs id, w.db.lookup ⟨fs, .deleted, id⟩ ≠ none →
      (w.readEntry fs .deleted id).isSome = true)
    (hliteral : ∀ ch ∈ c.username, isLiteral ch) (hvalid : isValidWorkspaceName id = true)
    (hstarts : (c.username ++ ['-']) <+: id) :
    (wsRestoreList config c a clock dir w).count (.id id) =
      (restoreHits w l (idNoOwner id c.username) c.username).length := by
  have hpattern : restorePattern a = ['*'] := if_pos hname
  rw [wsRestoreList, hlist]
  dsimp only
  rw [hown, hpattern, restoreHits, List.count_flatMap, List.length_flatMap]
  congr 1
  refine List.map_congr_left fun fs _ => ?_
  rw [Function.comp_apply]
  split
  · rw [@count_restoreLines config w _ clock fs (dir.order _) ?_ id, count_matchPattern_own hliteral hstarts,
      matchPattern_name hvalid hstarts]
    · split <;> rfl
    · intro hterse id' hmem
      refine hread hterse fs id' (Option.isSome_iff_ne_none.mp ?_)
      exact (mem_dirEntries.mp ((dir.perm _).mem_iff.mp hmem)).1
  · rw [List.count_eq_zero_of_not_mem (by simp)]
    rfl

/-- Nothing else is printed for him. -/
theorem starts_of_mem_wsRestoreList {a : RestoreListArgs} (hname : a.name = [])
    (hown : userpattern config c a.username = c.username)
    (hliteral : ∀ ch ∈ c.username, isLiteral ch)
    (h : RestoreLine.id id ∈ wsRestoreList config c a clock dir w) :
    (c.username ++ ['-']) <+: id := by
  have hpattern : restorePattern a = ['*'] := if_pos hname
  rw [wsRestoreList] at h
  split at h
  · cases List.mem_singleton.mp h
  · obtain ⟨fs, -, h⟩ := List.mem_flatMap.mp h
    split at h
    · have hmem := (dir.perm _).mem_iff.mp (mem_of_mem_restoreLines h)
      rw [hown, hpattern] at hmem
      exact (globMatch_wsid_star hliteral id).mp (mem_dirEntries.mp hmem).2
    · cases List.mem_singleton.mp h

/-- What a restore of a name comes to: the name is there once, and the entry can be read and restored
from its filesystem. -/
theorem exists_deletedAt_iff (hl : l.Nodup) (hvalid : isValidWorkspaceName id = true)
    (hstarts : (c.username ++ ['-']) <+: id) :
    (∃ fs e, DeletedAt config c w l fs id e) ↔
      (restoreHits w l (idNoOwner id c.username) c.username).length = 1 ∧
        ∃ fs e, fs ∈ l ∧ w.openDB fs = true ∧ w.readEntry fs .deleted id = some e ∧
          ∃ fsconfig, config.getFsConfig fs = some fsconfig ∧ fsconfig.restorable = true := by
  constructor
  · rintro ⟨fs, e, h⟩
    obtain ⟨⟨id', hhits⟩, -⟩ := restoreSource_eq_some ((restoreSource_iff hl hvalid hstarts).mpr h)
    rw [hhits]
    exact ⟨rfl, fs, e, h.mem, h.opened, h.entry, h.restorable⟩
  · rintro ⟨hone, fs, e, hmem, hopen, hentry, hrestorable⟩
    refine ⟨fs, e, hvalid, hstarts, hmem, hopen, hrestorable, hentry, fun fs' hmem' hopen' hsome => ?_⟩
    obtain ⟨hit, hhits⟩ := List.length_eq_one_iff.mp hone
    have hhit : ∀ fs, fs ∈ l → w.openDB fs = true → w.db.lookup ⟨fs, .deleted, id⟩ ≠ none →
        (fs, id) = hit := by
      intro fs hmem hopen hsome
      refine List.mem_singleton.mp (hhits ▸ mem_restoreHits.mpr ⟨hmem, hopen, ?_⟩)
      rw [matchPattern_name hvalid hstarts, if_neg hsome]
      exact List.mem_singleton_self _
    have hthere : w.db.lookup ⟨fs, .deleted, id⟩ ≠ none := by
      rw [(World.readEntry_eq_some.mp hentry).2]
      exact Option.some_ne_none _
    have hsame := (hhit fs' hmem' hopen' hsome).trans (hhit fs hmem hopen hthere).symm
    exact (Prod.mk.inj hsame).1

end Own

/-- A call for the caller gets past its look-ups when the names it is given are there for it. -/
theorem wsRestore_ne_refused_iff {c : Caller} {a : RestoreArgs} {env : RestoreEnv} {l : List Str}
    (hc : c.NonRoot) (huser : a.username = none) (hhuman : env.human = true)
    (hlist : restoreFslist config c c.username a.filesystem = some l) :
    (wsRestore config c a env w).2 ≠ .refused ↔
      restoreCommandline a = true ∧ (c.username ++ ['-']) <+: a.name ∧
        (∃ fs e, DeletedAt config c w l fs a.name e) ∧
        (a.deletedata = false → ∃ fs target, LiveAt c w l fs (a.target.getD []) target) := by
  have hsearch : Searches config c l := ⟨a.filesystem, hlist⟩
  have hnodup := nodup_of_searches hsearch
  constructor
  · intro hgoes
    have hspec := wsRestore_spec config c a env w
    generalize wsRestore config c a env w = out at hspec hgoes
    have hfound : ∀ {username fs : Str} {fslist : List Str} {e : DBEntry},
        RestoreFound config c a w username fslist fs e → fslist = l ∧ restoreCommandline a = true ∧
          (c.username ++ ['-']) <+: a.name ∧ ∃ fs e, DeletedAt config c w l fs a.name e := by
      intro username fs fslist e found
      have hl := found.list
      rw [found.user_eq hc, hlist] at hl
      obtain rfl := Option.some.inj hl
      have hdel := (found.deletedAt hc).2
      exact ⟨rfl, found.commandline, hdel.starts, fs, e, hdel⟩
    cases hspec with
    | refused => exact absurd rfl hgoes
    | wiped found deletedata | wipedPartly found deletedata =>
      obtain ⟨-, hcmd, hstarts, hdel⟩ := hfound found
      exact ⟨hcmd, hstarts, hdel, fun hkeep => absurd (deletedata.symm.trans hkeep) (by decide)⟩
    | failed found keep hid htarget path | onto found keep hid htarget path
    | into found keep hid htarget path =>
      have hlive := found.liveAt hc keep hid htarget path
      obtain ⟨rfl, hcmd, hstarts, hdel⟩ := hfound found
      exact ⟨hcmd, hstarts, hdel, fun _ => ⟨_, _, hlive⟩⟩
  · rintro ⟨hcmd, hstarts, ⟨fs, e, hdel⟩, htarget⟩
    rw [wsRestore_eq_restore hcmd huser hstarts hhuman]
    simp only [restore, hlist, (restoreSource_iff hnodup hdel.valid hstarts).mpr hdel]
    split
    · split <;> exact RestoreResult.noConfusion
    · rename_i hkeep
      obtain ⟨fs', target, hlive⟩ := htarget (by simpa using hkeep)
      obtain ⟨hfind, hpath⟩ := (restoreTarget_iff hlive.valid).mpr hlive
      simp only [hfind, hpath, Bool.false_eq_true, if_false]
      split <;> split <;> exact RestoreResult.noConfusion

/-- **`ws_restore` takes what `ws_restore -l` lists.** A call of an ordinary user that passes its
command line and finds its target comes to an entry exactly when the listing of all his names, for the
same filesystems, prints the name once, and the entry can be read and restored from its filesystem. -/
theorem wsRestore_takes_listed (config : Config) (c : Caller) (hc : c.NonRoot)
    (hadmin : config.global.admins.contains c.username = false)
    (hliteral : ∀ ch ∈ c.username, isLiteral ch) (a : RestoreArgs) (env : RestoreEnv)
    (huser : a.username = none) (hhuman : env.human = true) (hcmd : restoreCommandline a = true)
    (clock : Str → ℤ) (dir : DirOrder) (w : World) (l : List Str)
    (hlist : restoreFslist config c c.username a.filesystem = some l) :
    (wsRestore config c a env w).2 ≠ .refused ↔
      (wsRestoreList config c ⟨[], a.filesystem.getD [], [], true⟩ clock dir w).count (.id a.name) = 1 ∧
        (∃ fs e, fs ∈ l ∧ w.openDB fs = true ∧ w.readEntry fs .deleted a.name = some e ∧
          ∃ fsconfig, config.getFsConfig fs = some fsconfig ∧ fsconfig.restorable = true) ∧
        (a.deletedata = false → ∃ fs target, LiveAt c w l fs (a.target.getD []) target) := by
  have hown : userpattern config c [] = c.username := by
    rw [userpattern, hadmin, isRoot_of_nonRoot hc]
    rfl
  have hlist' : restoreFslist config c c.username (some (a.filesystem.getD [])) = some l := by
    rw [← hlist]
    cases a.filesystem with
    | none => rfl
    | some fs => rfl
  have hvalid : isValidWorkspaceName a.name = true := by
    rw [restoreCommandline, Bool.and_eq_true, Bool.and_eq_true] at hcmd
    exact hcmd.1.2
  have hnodup : l.Nodup := nodup_of_searches ⟨a.filesystem, hlist⟩
  rw [wsRestore_ne_refused_iff hc huser hhuman hlist]
  constructor
  · rintro ⟨-, hstarts, hdel, htarget⟩
    obtain ⟨hone, hentry⟩ := (exists_deletedAt_iff hnodup hvalid hstarts).mp hdel
    refine ⟨?_, hentry, htarget⟩
    rw [count_wsRestoreList rfl hown hlist' (fun h => absurd h Bool.false_ne_true.symm) hliteral hvalid
      hstarts]
    exact hone
  · rintro ⟨hone, hentry, htarget⟩
    have hlisted : RestoreLine.id a.name ∈
        wsRestoreList config c ⟨[], a.filesystem.getD [], [], true⟩ clock dir w := by
      rw [← List.count_pos_iff, hone]
      exact Nat.one_pos
    have hstarts := starts_of_mem_wsRestoreList rfl hown hliteral hlisted
    rw [count_wsRestoreList rfl hown hlist' (fun h => absurd h Bool.false_ne_true.symm) hliteral hvalid
      hstarts] at hone
    exact ⟨hcmd, hstarts, (exists_deletedAt_iff hnodup hvalid hstarts).mpr ⟨hone, hentry⟩, htarget⟩

/-- A workspace that was released is listed once, and its data can be deleted. -/
theorem wsRestore_takes_listed_userAB :
    (wsRestoreList plainConfig userAB ⟨[], [], [], true⟩ (fun _ => 200) .plain releasedWorld).count
        (.id "a-b-x-100".toList) = 1 ∧
      (wsRestore plainConfig userAB ⟨"a-b-x-100".toList, none, none, none, true⟩ ⟨200, true, .ok⟩
        releasedWorld).2 ≠ .refused := by
  have hlisted : (wsRestoreList plainConfig userAB ⟨[], [], [], true⟩ (fun _ => 200) .plain
      releasedWorld).count (.id "a-b-x-100".toList) = 1 := by decide
  refine ⟨hlisted, (wsRestore_takes_listed plainConfig userAB ⟨by decide, by decide⟩ (by decide)
    (List.all_eq_true.mp (by decide)) ⟨"a-b-x-100".toList, none, none, none, true⟩ ⟨200, true, .ok⟩
    rfl rfl (by decide) (fun _ => 200) .plain releasedWorld _ rfl).mpr ⟨hlisted, ?_, fun h => absurd h (by decide)⟩⟩
  exact ⟨['w'], _, by decide, by decide, rfl, _, rfl, by decide⟩

end HpcWorkspace
