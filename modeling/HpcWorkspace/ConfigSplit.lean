import Mathlib.Data.List.Perm.Basic
import HpcWorkspace.ConfigFiles

/-!
# A configuration in several files

The files of a directory are read as one configuration. What a filesystem does not set itself it takes
from the files that were read before, so it matters whether the global settings come first. Two names
of one setting in two files are read in the order of the files, in one file the newer name wins.
-/

namespace HpcWorkspace

/-! ## What several files give -/

/-- What the last file gives that gives anything. -/
def lastGiven {β : Type} (read : ConfigDoc → Option β) : List ConfigDoc → Option β
  | [] => none
  | doc :: files => (lastGiven read files).or (read doc)

section

variable {β : Type} {read old new : ConfigDoc → Option β} {files : List ConfigDoc}

theorem lastGiven_eq_none (h : ∀ doc ∈ files, read doc = none) : lastGiven read files = none := by
  induction files with
  | nil => rfl
  | cons doc files ih =>
    rw [lastGiven, ih fun d hd => h d (List.mem_cons_of_mem _ hd), h doc List.mem_cons_self]
    rfl

/-- At most one of the files gives something. -/
def GivenOnce (read : ConfigDoc → Option β) (files : List ConfigDoc) : Prop :=
  files.Pairwise fun doc doc' => read doc = none ∨ read doc' = none

theorem GivenOnce.rest {doc : ConfigDoc} {v : β} (h : GivenOnce read (doc :: files))
    (hdoc : read doc = some v) : ∀ doc' ∈ files, read doc' = none := by
  intro doc' hmem
  refine ((List.pairwise_cons.1 h).1 doc' hmem).resolve_left fun hnone => ?_
  rw [hdoc] at hnone
  cases hnone

/-- What one of them gives is what is found. -/
theorem GivenOnce.findSome?_eq (h : GivenOnce read files) {doc : ConfigDoc} {v : β}
    (hmem : doc ∈ files) (hv : read doc = some v) : files.findSome? read = some v := by
  induction files with
  | nil => cases hmem
  | cons d files ih =>
    rw [List.findSome?_cons]
    rcases List.mem_cons.1 hmem with rfl | hmem
    · rw [hv]
    · have hnone := ((List.pairwise_cons.1 h).1 doc hmem).resolve_right fun hno => by
        rw [hv] at hno
        cases hno
      rw [hnone]
      exact ih (List.pairwise_cons.1 h).2 hmem

/-- Then the last one is the first one. -/
theorem lastGiven_eq_findSome? (h : GivenOnce read files) :
    lastGiven read files = files.findSome? read := by
  induction files with
  | nil => rfl
  | cons doc files ih =>
    rw [lastGiven, List.findSome?_cons]
    cases hdoc : read doc with
    | none => rw [Option.or_none, ih (List.pairwise_cons.1 h).2]
    | some v => rw [lastGiven_eq_none (h.rest hdoc), Option.none_or]

theorem lastGiven_congr {read' : ConfigDoc → Option β} (h : ∀ doc ∈ files, read doc = read' doc) :
    lastGiven read files = lastGiven read' files := by
  induction files with
  | nil => rfl
  | cons doc files ih =>
    rw [lastGiven, lastGiven, ih fun d hd => h d (List.mem_cons_of_mem _ hd),
      h doc List.mem_cons_self]

/-- Two names of a setting: reading the files one after the other gives what reading them at once
does, when no later file gives another value under the old name. -/
theorem lastGiven_or_iff (hold : GivenOnce old files) (hnew : GivenOnce new files) (start : β) :
    (lastGiven (fun doc => (new doc).or (old doc)) files).getD start =
        (files.findSome? new).getD ((files.findSome? old).getD start) ↔
      files.Pairwise fun doc doc' => ∀ v ∈ new doc, ∀ v' ∈ old doc', v' = v := by
  induction files with
  | nil => exact iff_of_true rfl .nil
  | cons doc files ih =>
    have hold' := (List.pairwise_cons.1 hold).2
    have hnew' := (List.pairwise_cons.1 hnew).2
    have hrest := ih hold' hnew'
    rw [lastGiven, List.findSome?_cons, List.findSome?_cons, List.pairwise_cons]
    cases hn : new doc with
    | some v =>
      have hnone := hnew.rest hn
      have hlast : lastGiven (fun doc => (new doc).or (old doc)) files = files.findSome? old := by
        rw [← lastGiven_eq_findSome? hold']
        exact lastGiven_congr fun d hd => by rw [hnone d hd, Option.none_or]
      have htail : files.Pairwise fun doc doc' => ∀ v ∈ new doc, ∀ v' ∈ old doc', v' = v :=
        List.pairwise_of_forall_mem_list fun d hd _ _ v hv => by
          rw [hnone d hd] at hv
          cases hv
      rw [hlast, Option.some_or, Option.getD_some, and_iff_left htail]
      constructor
      · intro heq d hd v₁ hv₁ w hw
        rw [GivenOnce.findSome?_eq hold' hd hw, Option.some_or, Option.getD_some] at heq
        rw [heq, Option.mem_unique hv₁ rfl]
      · intro hall
        cases hfound : files.findSome? old with
        | none => rfl
        | some w =>
          obtain ⟨d, hd, hw⟩ := List.exists_of_findSome?_eq_some hfound
          exact hall d hd v rfl w hw
    | none =>
      cases ho : old doc with
      | some w =>
        have hnone := hold.rest ho
        have hlast : lastGiven (fun doc => (new doc).or (old doc)) files = files.findSome? new := by
          rw [← lastGiven_eq_findSome? hnew']
          exact lastGiven_congr fun d hd => by rw [hnone d hd, Option.or_none]
        have htail : files.Pairwise fun doc doc' => ∀ v ∈ new doc, ∀ v' ∈ old doc', v' = v :=
          List.pairwise_of_forall_mem_list fun _ _ d hd _ _ w hw => by
            rw [hnone d hd] at hw
            cases hw
        rw [hlast, Option.none_or]
        have hhead : ∀ d ∈ files, ∀ v ∈ (none : Option β), ∀ v' ∈ old d, v' = v :=
          fun _ _ v hv => by cases hv
        refine iff_of_true ?_ ⟨hhead, htail⟩
        cases files.findSome? new with
        | none => rfl
        | some v => rfl
      | none =>
        rw [Option.none_or, Option.or_none, hrest]
        exact (and_iff_right fun _ _ v hv => by cases hv).symm

end

/-! ## The global settings -/

/-- The global settings after some files. -/
def globalsOf (files : List ConfigDoc) : RawGlobalConfig :=
  files.foldl (fun global doc => global.read doc.globals) .defaults

/-- A setting is what the last file gives. -/
theorem field_globalsOf {β : Type} (field : RawGlobalConfig → β) (read : ConfigDoc → Option β)
    (h : ∀ (global : RawGlobalConfig) (doc : ConfigDoc),
      field (global.read doc.globals) = (read doc).getD (field global))
    (files : List ConfigDoc) :
    field (globalsOf files) = (lastGiven read files).getD (field .defaults) := by
  have hfold : ∀ global : RawGlobalConfig,
      field (files.foldl (fun global doc => global.read doc.globals) global) =
        (lastGiven read files).getD (field global) := by
    induction files with
    | nil => exact fun _ => rfl
    | cons doc files ih =>
      intro global
      rw [List.foldl_cons, ih, h, lastGiven]
      cases lastGiven read files with
      | none => rfl
      | some v => rfl
  exact hfold _

/-- The longest duration a file gives for all filesystems. -/
def ConfigDoc.maxduration (doc : ConfigDoc) : Option ℤ :=
  (doc.globals .maxduration).or (doc.globals .duration)

theorem maxduration_globalsOf (files : List ConfigDoc) :
    (globalsOf files).maxduration = (lastGiven ConfigDoc.maxduration files).getD 100 :=
  field_globalsOf RawGlobalConfig.maxduration ConfigDoc.maxduration
    (fun global doc => by
      rw [ConfigDoc.maxduration, RawGlobalConfig.read]
      cases doc.globals .maxduration <;> rfl) files

theorem maxextensions_globalsOf (files : List ConfigDoc) :
    (globalsOf files).maxextensions =
      (lastGiven (fun doc => doc.globals .maxextensions) files).getD 10 :=
  field_globalsOf RawGlobalConfig.maxextensions (fun doc => doc.globals .maxextensions)
    (fun _ _ => rfl) files

/-- The files in one. -/
def ConfigDoc.concat (files : List ConfigDoc) : ConfigDoc where
  globals key := files.findSome? fun doc => doc.globals key
  workspaces := files.flatMap ConfigDoc.workspaces
  filesystems := files.flatMap ConfigDoc.filesystems

/-- Each key, and each filesystem, is in one file only. -/
structure Distributed (files : List ConfigDoc) : Prop where
  /-- keys at the top -/
  globals : ∀ key : GlobalKey, GivenOnce (fun doc => doc.globals key) files
  /-- filesystems -/
  filesystems : ((files.flatMap ConfigDoc.sections).map Prod.fst).Nodup

/-- Of the two names of a setting the one that is read first in a file is in no later file, unless it
has the same value there. -/
structure NamesInOrder (files : List ConfigDoc) : Prop where
  /-- `default_workspace` and `default` -/
  default : files.Pairwise fun doc doc' =>
    ∀ v ∈ doc.globals .default, ∀ v' ∈ doc'.globals .default_workspace, v' = v
  /-- `duration` and `maxduration` -/
  maxduration : files.Pairwise fun doc doc' =>
    ∀ v ∈ doc.globals .maxduration, ∀ v' ∈ doc'.globals .duration, v' = v
  /-- `deldirtimeout` and `deldir_timeout` -/
  deldirtimeout : files.Pairwise fun doc doc' =>
    ∀ v ∈ doc.globals .deldir_timeout, ∀ v' ∈ doc'.globals .deldirtimeout, v' = v

/-- A setting with one name does not depend on the order of the files. -/
theorem field_concat {files : List ConfigDoc} (hfiles : Distributed files) (key : GlobalKey)
    (field : RawGlobalConfig → key.Value)
    (h : ∀ (global : RawGlobalConfig) (keys : (key : GlobalKey) → Option key.Value),
      field (global.read keys) = (keys key).getD (field global)) :
    field (globalsOf files) =
      field (RawGlobalConfig.defaults.read (ConfigDoc.concat files).globals) := by
  rw [field_globalsOf field (fun doc => doc.globals key) (fun global doc => h global doc.globals),
    lastGiven_eq_findSome? (hfiles.globals key), h]
  rfl

/-- One with two names does not when they are in order. -/
theorem field_concat_iff {β : Type} {files : List ConfigDoc} {old new : ConfigDoc → Option β}
    (hold : GivenOnce old files) (hnew : GivenOnce new files) (field : RawGlobalConfig → β)
    (h : ∀ (global : RawGlobalConfig) (doc : ConfigDoc),
      field (global.read doc.globals) = (new doc).getD ((old doc).getD (field global)))
    (hconcat : old (.concat files) = files.findSome? old ∧ new (.concat files) = files.findSome? new) :
    field (globalsOf files) =
        field (RawGlobalConfig.defaults.read (ConfigDoc.concat files).globals) ↔
      files.Pairwise fun doc doc' => ∀ v ∈ new doc, ∀ v' ∈ old doc', v' = v := by
  have hread : ∀ (global : RawGlobalConfig) (doc : ConfigDoc),
      field (global.read doc.globals) = ((new doc).or (old doc)).getD (field global) := by
    intro global doc
    rw [h]
    cases new doc <;> rfl
  rw [field_globalsOf field _ hread, h, hconcat.1, hconcat.2]
  exact lastGiven_or_iff hold hnew _

theorem globalsOf_eq_iff {files : List ConfigDoc} (hfiles : Distributed files) :
    globalsOf files = RawGlobalConfig.defaults.read (ConfigDoc.concat files).globals ↔
      NamesInOrder files := by
  have hdefault := field_concat_iff (hfiles.globals .default_workspace) (hfiles.globals .default)
    RawGlobalConfig.defaultWorkspace (fun _ _ => rfl) ⟨rfl, rfl⟩
  have hduration := field_concat_iff (hfiles.globals .duration) (hfiles.globals .maxduration)
    RawGlobalConfig.maxduration (fun _ _ => rfl) ⟨rfl, rfl⟩
  have htimeout := field_concat_iff (hfiles.globals .deldirtimeout)
    (hfiles.globals .deldir_timeout) RawGlobalConfig.deldirtimeout (fun _ _ => rfl) ⟨rfl, rfl⟩
  constructor
  · intro heq
    exact ⟨hdefault.1 (congrArg _ heq), hduration.1 (congrArg _ heq), htimeout.1 (congrArg _ heq)⟩
  · intro horder
    exact RawGlobalConfig.ext
      (field_concat hfiles .clustername RawGlobalConfig.clustername fun _ _ => rfl)
      (field_concat hfiles .smtphost RawGlobalConfig.smtphost fun _ _ => rfl)
      (field_concat hfiles .mail_from RawGlobalConfig.mail_from fun _ _ => rfl)
      (hdefault.2 horder.default)
      (field_concat hfiles .admins RawGlobalConfig.admins fun _ _ => rfl)
      (field_concat hfiles .debugusers RawGlobalConfig.debugusers fun _ _ => rfl)
      (field_concat hfiles .adminmail RawGlobalConfig.adminmail fun _ _ => rfl)
      (hduration.2 horder.maxduration)
      (field_concat hfiles .durationdefault RawGlobalConfig.durationdefault fun _ _ => rfl)
      (field_concat hfiles .reminderdefault RawGlobalConfig.reminderdefault fun _ _ => rfl)
      (field_concat hfiles .maxextensions RawGlobalConfig.maxextensions fun _ _ => rfl)
      (field_concat hfiles .maxuserworkspaces RawGlobalConfig.maxuserworkspaces fun _ _ => rfl)
      (field_concat hfiles .dbuid RawGlobalConfig.dbuid fun _ _ => rfl)
      (field_concat hfiles .dbgid RawGlobalConfig.dbgid fun _ _ => rfl)
      (htimeout.2 horder.deldirtimeout)
      (field_concat hfiles .expirerlogpath RawGlobalConfig.expirerlogpath fun _ _ => rfl)
      (field_concat hfiles .restorenosub RawGlobalConfig.restorenosub fun _ _ => rfl)

/-! ## The filesystems -/

/-- Where a filesystem does not set its limits, those of the global settings count. -/
theorem FsSection.read_eq_iff (s : FsSection) (name : Str) (global global' : RawGlobalConfig) :
    s.read global name = s.read global' name ↔
      (s.ownDuration = 0 → global.maxduration = global'.maxduration) ∧
        (s.maxextensions = none → global.maxextensions = global'.maxextensions) := by
  have hduration : ∀ g : RawGlobalConfig, (s.read g name).maxduration =
      if s.ownDuration = 0 then g.maxduration else s.ownDuration := by
    intro g
    by_cases hown : s.ownDuration = 0
    · rw [if_pos hown]
      by_cases hg : g.maxduration = 0
      · exact (if_neg fun h => h.2 hg).trans (hown.trans hg.symm)
      · exact if_pos ⟨hown, hg⟩
    · rw [if_neg hown]
      exact if_neg fun h => hown h.1
  have hextensions : ∀ g : RawGlobalConfig,
      (s.read g name).maxextensions = s.maxextensions.getD g.maxextensions := fun _ => rfl
  constructor
  · intro heq
    have hd := congrArg RawFilesystemConfig.maxduration heq
    have he := congrArg RawFilesystemConfig.maxextensions heq
    rw [hduration, hduration] at hd
    rw [hextensions, hextensions] at he
    refine ⟨fun hown => ?_, fun hnone => ?_⟩
    · rwa [if_pos hown, if_pos hown] at hd
    · rwa [hnone] at he
  · rintro ⟨hd, he⟩
    refine RawFilesystemConfig.ext rfl rfl rfl rfl rfl rfl rfl rfl rfl rfl rfl rfl ?_ ?_ rfl rfl rfl rfl
    · rw [hduration, hduration]
      split
      · exact hd ‹_›
      · rfl
    · rw [hextensions, hextensions]
      cases hs : s.maxextensions with
      | none => exact he hs
      | some v => rfl

/-- The filesystems of some files, each as it is read. -/
def placed (global : RawGlobalConfig) : List ConfigDoc → List (Str × RawFilesystemConfig)
  | [] => []
  | doc :: files =>
    (doc.sections.map fun s => (s.1, s.2.read (global.read doc.globals) s.1)) ++
      placed (global.read doc.globals) files

theorem foldl_readYAML (files : List ConfigDoc) (config : RawConfig) :
    files.foldl RawConfig.readYAML config =
      ⟨files.foldl (fun global doc => global.read doc.globals) config.global,
        config.filesystems.insertAll (placed config.global files)⟩ := by
  induction files generalizing config with
  | nil => rfl
  | cons doc files ih =>
    rw [List.foldl_cons, ih, placed, SortedMap.insertAll_append]
    rfl

theorem map_fst_placed (global : RawGlobalConfig) (files : List ConfigDoc) :
    (placed global files).map Prod.fst = (files.flatMap ConfigDoc.sections).map Prod.fst := by
  induction files generalizing global with
  | nil => rfl
  | cons doc files ih =>
    rw [placed, List.map_append, ih, List.flatMap_cons, List.map_append, List.map_map]
    rfl

theorem mem_placed {global : RawGlobalConfig} {files : List ConfigDoc} {p : Str × RawFilesystemConfig} :
    p ∈ placed global files ↔ ∃ before doc after, files = before ++ doc :: after ∧
      ∃ s ∈ doc.sections, p = (s.1, s.2.read
        ((before ++ [doc]).foldl (fun global doc => global.read doc.globals) global) s.1) := by
  induction files generalizing global with
  | nil => simp [placed]
  | cons doc files ih =>
    rw [placed, List.mem_append, ih, List.mem_map]
    constructor
    · rintro (⟨s, hs, rfl⟩ | ⟨before, doc', after, rfl, s, hs, rfl⟩)
      · exact ⟨[], doc, files, rfl, s, hs, rfl⟩
      · exact ⟨doc :: before, doc', after, rfl, s, hs, rfl⟩
    · rintro ⟨before, doc', after, heq, s, hs, rfl⟩
      cases before with
      | nil =>
        obtain ⟨rfl, rfl⟩ := List.cons.inj heq
        exact Or.inl ⟨s, hs, rfl⟩
      | cons d before =>
        obtain ⟨rfl, rfl⟩ := List.cons.inj heq
        exact Or.inr ⟨before, doc', after, rfl, s, hs, rfl⟩

/-! ## The configuration -/

/-- A filesystem without limits of its own is in a file up to which the files give the same limits as
all of them. -/
structure LimitsGiven (files : List ConfigDoc) : Prop where
  /-- the longest duration, 100 when no file gives one -/
  maxduration : ∀ before doc after, files = before ++ doc :: after → ∀ s ∈ doc.sections,
    s.2.ownDuration = 0 → (lastGiven ConfigDoc.maxduration (before ++ [doc])).getD 100 =
      (lastGiven ConfigDoc.maxduration files).getD 100
  /-- the number of extensions, 10 when no file gives one -/
  maxextensions : ∀ before doc after, files = before ++ doc :: after → ∀ s ∈ doc.sections,
    s.2.maxextensions = none →
      (lastGiven (fun doc => doc.globals .maxextensions) (before ++ [doc])).getD 10 =
        (lastGiven (fun doc => doc.globals .maxextensions) files).getD 10

theorem perm_sections_concat (files : List ConfigDoc) :
    (ConfigDoc.concat files).sections.Perm (files.flatMap ConfigDoc.sections) :=
  List.flatMap_append_perm files ConfigDoc.workspaces ConfigDoc.filesystems

theorem ofFiles_eq (files : List ConfigDoc) : RawConfig.ofFiles files =
    ⟨globalsOf files, SortedMap.empty.insertAll (placed .defaults files)⟩ :=
  foldl_readYAML files ⟨.defaults, .empty⟩

/-- The filesystems are the same when each is read with the same limits. -/
theorem filesystems_eq_iff {files : List ConfigDoc} (hfiles : Distributed files) :
    (RawConfig.ofFiles files).filesystems =
        (RawConfig.ofFiles [ConfigDoc.concat files]).filesystems ↔
      ∀ before doc after, files = before ++ doc :: after → ∀ s ∈ doc.sections,
        s.2.read (globalsOf (before ++ [doc])) s.1 =
          s.2.read (RawGlobalConfig.defaults.read (ConfigDoc.concat files).globals) s.1 := by
  have hperm := perm_sections_concat files
  have hnodup : ((placed .defaults files).map Prod.fst).Nodup := by
    rw [map_fst_placed]
    exact hfiles.filesystems
  have hnodup' : ((placed .defaults [ConfigDoc.concat files]).map Prod.fst).Nodup := by
    rw [map_fst_placed, List.flatMap_singleton]
    exact ((hperm.map Prod.fst).nodup_iff).2 hfiles.filesystems
  have hmem : ∀ p, p ∈ (RawConfig.ofFiles files).filesystems.entries ↔ p ∈ placed .defaults files := by
    intro p
    rw [ofFiles_eq, SortedMap.mem_insertAll hnodup]
    exact or_iff_left fun h => List.not_mem_nil h.1
  have hmem' : ∀ p, p ∈ (RawConfig.ofFiles [ConfigDoc.concat files]).filesystems.entries ↔
      ∃ s ∈ (ConfigDoc.concat files).sections, p = (s.1, s.2.read
        (RawGlobalConfig.defaults.read (ConfigDoc.concat files).globals) s.1) := by
    intro p
    rw [ofFiles_eq, SortedMap.mem_insertAll hnodup', placed, placed, List.append_nil, List.mem_map]
    refine (or_iff_left fun h => List.not_mem_nil h.1).trans ?_
    exact exists_congr fun s => and_congr_right fun _ => eq_comm
  constructor
  · intro heq before doc after hsplit s hs
    have hin := (hmem _).2 (mem_placed.2 ⟨before, doc, after, hsplit, s, hs, rfl⟩)
    rw [heq, hmem'] at hin
    obtain ⟨s', hs', hpair⟩ := hin
    obtain ⟨hname, hread⟩ := Prod.mk.inj hpair
    have hin : s ∈ files.flatMap ConfigDoc.sections :=
      List.mem_flatMap.2 ⟨doc, hsplit ▸ List.mem_append_right _ List.mem_cons_self, hs⟩
    have hsame : s = s' :=
      List.inj_on_of_nodup_map hfiles.filesystems hin (hperm.mem_iff.1 hs') hname
    rw [← hsame] at hread
    exact hread
  · intro hread
    refine SortedMap.ext_mem fun p => ?_
    rw [hmem, hmem', mem_placed]
    constructor
    · rintro ⟨before, doc, after, hsplit, s, hs, rfl⟩
      refine ⟨s, hperm.mem_iff.2 (List.mem_flatMap.2 ⟨doc, ?_, hs⟩), ?_⟩
      · rw [hsplit]
        exact List.mem_append_right _ List.mem_cons_self
      · exact congrArg (Prod.mk s.1) (hread before doc after hsplit s hs)
    · rintro ⟨s, hs, rfl⟩
      obtain ⟨doc, hdoc, hs⟩ := List.mem_flatMap.1 (hperm.mem_iff.1 hs)
      obtain ⟨before, after, hsplit⟩ := List.append_of_mem hdoc
      exact ⟨before, doc, after, hsplit, s, hs,
        congrArg (Prod.mk s.1) (hread before doc after hsplit s hs).symm⟩

/-- **A configuration in several files** is that of one file if and only if the names of a setting are
in order and the filesystems come behind the limits they take. -/
theorem ofFiles_eq_concat_iff (files : List ConfigDoc) (hfiles : Distributed files) :
    RawConfig.ofFiles files = RawConfig.ofFiles [ConfigDoc.concat files] ↔
      NamesInOrder files ∧ LimitsGiven files := by
  have hglobal : (RawConfig.ofFiles files).global =
      (RawConfig.ofFiles [ConfigDoc.concat files]).global ↔ NamesInOrder files := by
    rw [ofFiles_eq, ofFiles_eq]
    exact globalsOf_eq_iff hfiles
  have hlimits : NamesInOrder files → ((RawConfig.ofFiles files).filesystems =
      (RawConfig.ofFiles [ConfigDoc.concat files]).filesystems ↔ LimitsGiven files) := by
    intro horder
    have hwhole := (globalsOf_eq_iff hfiles).2 horder
    rw [filesystems_eq_iff hfiles, ← hwhole]
    simp only [FsSection.read_eq_iff, maxduration_globalsOf, maxextensions_globalsOf]
    constructor
    · intro h
      exact ⟨fun before doc after hsplit s hs => (h before doc after hsplit s hs).1,
        fun before doc after hsplit s hs => (h before doc after hsplit s hs).2⟩
    · intro h before doc after hsplit s hs
      exact ⟨h.maxduration before doc after hsplit s hs, h.maxextensions before doc after hsplit s hs⟩
  rw [RawConfig.ext_iff, hglobal]
  exact and_congr_right hlimits

/-- A file that says nothing. -/
def ConfigDoc.empty : ConfigDoc := ⟨fun _ => none, [], []⟩

/-- A section that says nothing. -/
def FsSection.empty : FsSection :=
  ⟨none, none, none, none, none, none, none, none, none, none, none, none, none, none, none, none,
    none, none⟩

/-- A file with the longest duration for all filesystems. -/
def durationFile : ConfigDoc :=
  { ConfigDoc.empty with
    globals := fun
      | .maxduration => some (30 : ℤ)
      | _ => none }

/-- A file with one filesystem. -/
def filesystemFile : ConfigDoc := { ConfigDoc.empty with workspaces := [(['a'], .empty)] }

theorem distributed_durationFile (files : List ConfigDoc)
    (hfiles : files = [durationFile, filesystemFile] ∨ files = [filesystemFile, durationFile]) :
    Distributed files := by
  rcases hfiles with rfl | rfl
  · exact ⟨fun _ => List.pairwise_pair.2 (Or.inr rfl), by decide⟩
  · exact ⟨fun _ => List.pairwise_pair.2 (Or.inl rfl), by decide⟩

theorem ofFiles_durationFile_first :
    RawConfig.ofFiles [durationFile, filesystemFile] =
      RawConfig.ofFiles [ConfigDoc.concat [durationFile, filesystemFile]] := by
  have hlast : ∀ before doc after, [durationFile, filesystemFile] = before ++ doc :: after →
      doc.sections = [] ∨ [durationFile, filesystemFile] = before ++ [doc] := by
    intro before doc after hsplit
    cases after with
    | nil => exact Or.inr hsplit
    | cons d after =>
      have hlength := congrArg List.length hsplit
      simp only [List.length_append, List.length_cons, List.length_nil] at hlength
      obtain rfl : before = [] := List.length_eq_zero_iff.1 (by omega)
      exact Or.inl (congrArg ConfigDoc.sections (List.cons.inj hsplit).1.symm)
  refine (ofFiles_eq_concat_iff [durationFile, filesystemFile]
    (distributed_durationFile _ (Or.inl rfl))).2 ⟨⟨?_, ?_, ?_⟩, ⟨?_, ?_⟩⟩
  · exact List.pairwise_pair.2 fun v hv => by cases hv
  · exact List.pairwise_pair.2 fun v _ v' hv' => by cases hv'
  · exact List.pairwise_pair.2 fun v hv => by cases hv
  · intro before doc after hsplit s hs _
    rcases hlast before doc after hsplit with hnone | hall
    · rw [hnone] at hs
      cases hs
    · rw [← hall]
  · intro before doc after hsplit s hs _
    rcases hlast before doc after hsplit with hnone | hall
    · rw [hnone] at hs
      cases hs
    · rw [← hall]

/-- A filesystem in a file before the duration has 100 days, in one file with it 30. -/
theorem ofFiles_durationFile_last : Distributed [filesystemFile, durationFile] ∧
    RawConfig.ofFiles [filesystemFile, durationFile] ≠
      RawConfig.ofFiles [ConfigDoc.concat [filesystemFile, durationFile]] := by
  refine ⟨distributed_durationFile _ (Or.inr rfl), fun heq => ?_⟩
  have hentries := congrArg (fun c : RawConfig =>
    c.filesystems.entries.map fun p => p.2.maxduration) heq
  have hsplit : (RawConfig.ofFiles [filesystemFile, durationFile]).filesystems.entries.map
      (fun p => p.2.maxduration) = [100] := by
    decide
  have hone : (RawConfig.ofFiles [ConfigDoc.concat [filesystemFile, durationFile]]).filesystems.entries.map
      (fun p => p.2.maxduration) = [30] := by
    decide
  rw [hsplit, hone] at hentries
  exact absurd hentries (by decide)

end HpcWorkspace
