import Mathlib.Data.List.TakeDrop
import Mathlib.Data.List.TakeWhile
import HpcWorkspace.Config

/-!
# Access rules

The rules the administrator's guide gives for access control lists, stated without any order:
which entries are well formed, which of them name a user or one of his groups, and what they
allow. `hasAccess` runs over the two lists with flags and decides exactly these rules, so neither
the order nor the repetition of entries and groups plays a role.

From the same rules follows how `validFilesystems` orders what a user may use: his own default,
the default of a group, the global default, and the rest by name.
-/

namespace HpcWorkspace

/-! ## The entries of an access control list -/

/-- An entry behind its sign: an id, and permissions if there are any. -/
inductive AclBody : Str → Str → List Str → Prop
  /-- `id` -/
  | bare {id : Str} (hid : id ≠ []) (hcolon : ':' ∉ id) : AclBody id id []
  /-- `id:` -/
  | colon {id : Str} (hid : id ≠ []) (hcolon : ':' ∉ id) : AclBody (id ++ [':']) id []
  /-- `id:permission{,permission}` -/
  | permissions {id : Str} {names : List Str} (hid : id ≠ []) (hcolon : ':' ∉ id)
      (hnames : names ≠ []) (hwords : ∀ name ∈ names, name ≠ [] ∧ ∀ c ∈ name, isWord c) :
      AclBody (id ++ ':' :: [','].intercalate names) id names

/-- An entry `[+|-]id[:[permission{,permission}]]`, with its sign, its id and its permissions. A
sign that no id follows is part of the id. -/
inductive AclEntry : Str → Modifier → Str → List Str → Prop
  /-- a sign that grants -/
  | plus {body id : Str} {names : List Str} (h : AclBody body id names) :
      AclEntry ('+' :: body) .plus id names
  /-- a sign that denies -/
  | minus {body id : Str} {names : List Str} (h : AclBody body id names) :
      AclEntry ('-' :: body) .minus id names
  /-- no sign -/
  | unsigned {entry id : Str} {names : List Str} (h : AclBody entry id names)
      (hsign : ∀ sign body, entry = sign :: body → sign = '+' ∨ sign = '-' →
        ∀ id names, ¬AclBody body id names) : AclEntry entry .plus id names

/-- The permission names in the third group of the match. -/
def permissionNames (permissions : Str) : List Str :=
  if permissions == [] then [] else permissions.splitOn ','

theorem permissionNames_of_ne {permissions : Str} (h : permissions ≠ []) :
    permissionNames permissions = permissions.splitOn ',' := by
  simp only [permissionNames, beq_iff_eq, h, if_false]

/-- Words joined by commas are split again into the words. -/
theorem permissionNames_intercalate {names : List Str} (hnames : names ≠ [])
    (hwords : ∀ name ∈ names, name ≠ [] ∧ ∀ c ∈ name, isWord c) :
    [','].intercalate names ≠ [] ∧ permissionNames ([','].intercalate names) = names := by
  have hcomma : ∀ name ∈ names, ',' ∉ name := by
    intro name hname hmem
    have := (hwords name hname).2 _ hmem
    revert this
    decide
  have hsplit : ([','].intercalate names).splitOn ',' = names :=
    List.splitOn_intercalate _ hcomma hnames
  have hne : [','].intercalate names ≠ [] := by
    intro hnil
    rw [hnil, List.splitOn_nil] at hsplit
    exact (hwords [] (hsplit ▸ List.mem_singleton_self _)).1 rfl
  exact ⟨hne, by rw [permissionNames_of_ne hne, hsplit]⟩

/-- The words of a list that passes the pattern `\w+(,\w+)*`. -/
theorem words_of_all {permissions : Str}
    (h : ((permissions.splitOn ',').all fun w => w != [] && w.all isWord) = true) :
    ∀ name ∈ permissions.splitOn ',', name ≠ [] ∧ ∀ c ∈ name, isWord c := by
  intro name hname
  have hword := List.all_eq_true.mp h name hname
  simpa only [Bool.and_eq_true, bne_iff_ne, List.all_eq_true] using hword

theorem all_of_words {names : List Str}
    (h : ∀ name ∈ names, name ≠ [] ∧ ∀ c ∈ name, isWord c) :
    (names.all fun w => w != [] && w.all isWord) = true := by
  simpa only [List.all_eq_true, Bool.and_eq_true, bne_iff_ne] using h

/-- The id ends at the first colon. -/
theorem span_colon {id rest : Str} (hcolon : ':' ∉ id) :
    (id ++ ':' :: rest).span (· != ':') = (id, ':' :: rest) := by
  induction id with
  | nil => rfl
  | cons c id ih =>
    have hc : (c != ':') = true := by
      simp only [bne_iff_ne]
      rintro rfl
      exact hcolon (List.mem_cons_self ..)
    have hid : ':' ∉ id := fun hmem => hcolon (List.mem_cons_of_mem _ hmem)
    simp only [List.span_eq_takeWhile_dropWhile, Prod.mk.injEq] at ih ⊢
    simpa only [List.cons_append, List.takeWhile_cons, List.dropWhile_cons, hc, if_true,
      List.cons.injEq, true_and] using ih hid

theorem span_of_notMem {id : Str} (hcolon : ':' ∉ id) : id.span (· != ':') = (id, []) := by
  have hall : ∀ c ∈ id, (c != ':') = true := by
    intro c hc
    simp only [bne_iff_ne]
    rintro rfl
    exact hcolon hc
  simp only [List.span_eq_takeWhile_dropWhile, List.takeWhile_eq_self_iff.mpr hall,
    List.dropWhile_eq_nil_iff.mpr hall]

/-- What the id and the rest are that are found. -/
theorem of_span {s id rest : Str} (h : s.span (· != ':') = (id, rest)) :
    s = id ++ rest ∧ ':' ∉ id ∧ ∀ c tail, rest = c :: tail → c = ':' := by
  rw [List.span_eq_takeWhile_dropWhile, Prod.mk.injEq] at h
  obtain ⟨rfl, rfl⟩ := h
  refine ⟨(List.takeWhile_append_dropWhile ..).symm, ?_, ?_⟩
  · intro hmem
    have := List.mem_takeWhile_imp hmem
    simp at this
  · intro c tail hrest
    have := List.head?_dropWhile_not (· != ':') s
    simpa [hrest] using this

/-- **The part behind the sign** is matched exactly when it is an id with permissions. -/
theorem matchAclId_iff {s id : Str} {names : List Str} :
    (∃ permissions, matchAclId s = some (id, permissions) ∧ permissionNames permissions = names) ↔
      AclBody s id names := by
  constructor
  · rintro ⟨permissions, h, rfl⟩
    rw [matchAclId] at h
    split at h
    · cases h
    · rename_i id' hne hspan
      obtain ⟨rfl, hcolon, -⟩ := of_span hspan
      obtain ⟨rfl, rfl⟩ := Prod.mk.inj (Option.some.inj h)
      rw [List.append_nil]
      exact .bare hne hcolon
    · rename_i id' c permissions' hne hspan
      obtain ⟨rfl, hcolon, hc⟩ := of_span hspan
      obtain rfl := hc _ _ rfl
      split at h
      · rename_i hwords
        obtain ⟨rfl, rfl⟩ := Prod.mk.inj (Option.some.inj h)
        by_cases hnil : permissions' = []
        · subst hnil
          exact .colon hne hcolon
        · have hall : ((permissions'.splitOn ',').all fun w => w != [] && w.all isWord) = true := by
            simpa only [Bool.or_eq_true, beq_iff_eq, hnil, false_or] using hwords
          have hbody := AclBody.permissions hne hcolon (List.splitOn_ne_nil _ _) (words_of_all hall)
          rwa [List.intercalate_splitOn, ← permissionNames_of_ne hnil] at hbody
      · cases h
  · intro h
    cases h with
    | bare hid hcolon =>
      refine ⟨[], ?_, rfl⟩
      obtain ⟨c, id, rfl⟩ := List.exists_cons_of_ne_nil hid
      rw [matchAclId, span_of_notMem hcolon]
    | colon hid hcolon =>
      refine ⟨[], ?_, rfl⟩
      obtain ⟨c, id, rfl⟩ := List.exists_cons_of_ne_nil hid
      rw [matchAclId, span_colon hcolon]
      rfl
    | permissions hid hcolon hnames hwords =>
      obtain ⟨hne, hsplit⟩ := permissionNames_intercalate hnames hwords
      refine ⟨_, ?_, hsplit⟩
      obtain ⟨c, id, rfl⟩ := List.exists_cons_of_ne_nil hid
      rw [permissionNames_of_ne hne] at hsplit
      rw [matchAclId, span_colon hcolon]
      simp only [hsplit, all_of_words hwords, Bool.or_true, if_true]

theorem matchAclId_eq_none {s : Str} (h : matchAclId s = none) (id : Str) (names : List Str) :
    ¬AclBody s id names := by
  intro hbody
  obtain ⟨permissions, hmatch, -⟩ := matchAclId_iff.mpr hbody
  rw [h] at hmatch
  cases hmatch

theorem not_matchAclId {s : Str} (h : ∀ id names, ¬AclBody s id names) : matchAclId s = none := by
  cases hmatch : matchAclId s with
  | none => rfl
  | some m => exact absurd (matchAclId_iff.mp ⟨m.2, hmatch, rfl⟩) (h _ _)

/-- An entry matched without its sign has no id behind the sign. -/
theorem AclEntry.of_whole {sign : Char} {body id permissions : Str}
    (hnone : matchAclId body = none)
    (h : matchAclId (sign :: body) = some (id, permissions)) :
    AclEntry (sign :: body) .plus id (permissionNames permissions) := by
  apply AclEntry.unsigned (matchAclId_iff.mp ⟨_, h, rfl⟩)
  intro sign' body' heq _
  obtain ⟨-, rfl⟩ := List.cons.inj heq
  exact matchAclId_eq_none hnone

/-- **Entries** are matched exactly as their format says. -/
theorem matchAcl_iff {entry id : Str} {modifier : Modifier} {names : List Str} :
    (∃ permissions, matchAcl entry = some (modifier, id, permissions) ∧
      permissionNames permissions = names) ↔ AclEntry entry modifier id names := by
  constructor
  · rintro ⟨permissions, h, rfl⟩
    rw [matchAcl.eq_def] at h
    split at h
    · rename_i body
      cases hbody : matchAclId body with
      | some m =>
        simp only [hbody, Option.orElse_some, Option.map_some, Option.some.injEq,
          Prod.mk.injEq] at h
        obtain ⟨rfl, rfl⟩ := h
        exact .plus (matchAclId_iff.mp ⟨_, hbody, rfl⟩)
      | none =>
        simp only [hbody, Option.orElse_none, Option.map_eq_some_iff, Prod.mk.injEq] at h
        obtain ⟨m, hm, rfl, rfl⟩ := h
        exact .of_whole hbody hm
    · rename_i body
      cases hbody : matchAclId body with
      | some m =>
        simp only [hbody, Option.some.injEq, Prod.mk.injEq] at h
        obtain ⟨rfl, rfl⟩ := h
        exact .minus (matchAclId_iff.mp ⟨_, hbody, rfl⟩)
      | none =>
        simp only [hbody, Option.map_eq_some_iff, Prod.mk.injEq] at h
        obtain ⟨m, hm, rfl, rfl⟩ := h
        exact .of_whole hbody hm
    · rename_i hplus hminus
      simp only [Option.map_eq_some_iff, Prod.mk.injEq] at h
      obtain ⟨m, hm, rfl, rfl⟩ := h
      apply AclEntry.unsigned (matchAclId_iff.mp ⟨_, hm, rfl⟩)
      rintro sign body rfl (rfl | rfl)
      · exact absurd rfl (hplus body)
      · exact absurd rfl (hminus body)
  · intro h
    cases h with
    | plus hbody =>
      obtain ⟨permissions, hmatch, hnames⟩ := matchAclId_iff.mpr hbody
      exact ⟨permissions, by simp [matchAcl, hmatch], hnames⟩
    | minus hbody =>
      obtain ⟨permissions, hmatch, hnames⟩ := matchAclId_iff.mpr hbody
      exact ⟨permissions, by simp [matchAcl, hmatch], hnames⟩
    | unsigned hwhole hsign =>
      obtain ⟨permissions, hmatch, hnames⟩ := matchAclId_iff.mpr hwhole
      refine ⟨permissions, ?_, hnames⟩
      rw [matchAcl.eq_def]
      split
      · rename_i body
        simp [not_matchAclId (hsign _ body rfl (Or.inl rfl)), hmatch]
      · rename_i body
        simp [not_matchAclId (hsign _ body rfl (Or.inr rfl)), hmatch]
      · simp [hmatch]

/-! ## What the entries allow -/

/-- The names list the permission for an intent. -/
def Permits (names : List Str) (intent : Intent) : Prop :=
  ∃ name ∈ names, (name, intent) ∈ intentnames

/-- A rule of a list: a well-formed entry that either names no permission at all or at least one
that exists. -/
structure AclRule (acl : List Str) (modifier : Modifier) (id : Str) (names : List Str) :
    Prop where
  /-- an entry of the list -/
  listed : ∃ entry ∈ acl, AclEntry entry modifier id names
  /-- which is not ignored -/
  known : names = [] ∨ ∃ intent, Permits names intent

/-- Does a rule allow an intent? Without permissions it is about all of them. -/
def Allows (modifier : Modifier) (names : List Str) (intent : Intent) : Prop :=
  match modifier with
  | .plus => names = [] ∨ Permits names intent
  | .minus => names ≠ [] ∧ ¬Permits names intent

/-- Some rule of the list is about one of the ids. -/
def Named (acl : List Str) (ids : Str → Prop) : Prop :=
  ∃ modifier id names, AclRule acl modifier id names ∧ ids id

/-- All rules of the list about these ids allow the intent. -/
def AllAllow (acl : List Str) (ids : Str → Prop) (intent : Intent) : Prop :=
  ∀ modifier id names, AclRule acl modifier id names → ids id → Allows modifier names intent

theorem lookup_intentnames {name : Str} {intent : Intent} :
    intentnames.lookup name = some intent ↔ (name, intent) ∈ intentnames := by
  constructor
  · intro h
    obtain ⟨l₁, l₂, heq, -⟩ := List.lookup_eq_some_iff.mp h
    rw [heq]
    exact List.mem_append_right _ (List.mem_cons_self ..)
  · intro h
    simp only [intentnames, List.mem_cons, Prod.mk.injEq, List.not_mem_nil, or_false] at h
    rcases h with ⟨rfl, rfl⟩ | ⟨rfl, rfl⟩ | ⟨rfl, rfl⟩ | ⟨rfl, rfl⟩ | ⟨rfl, rfl⟩ | ⟨rfl, rfl⟩ <;> rfl

/-- The intents that are left of a permission list. -/
theorem mem_intents {names : List Str} {intent : Intent} :
    intent ∈ names.filterMap (intentnames.lookup ·) ↔ Permits names intent := by
  simp only [List.mem_filterMap, lookup_intentnames, Permits]

theorem parseACL_eq (acl : List Str) :
    parseACL acl = acl.filterMap fun entry =>
      match matchAcl entry with
      | none => none
      | some (modifier, id, permissions) =>
        let intents := (permissionNames permissions).filterMap (intentnames.lookup ·)
        if permissionNames permissions != [] && intents == [] then none
        else some (id, modifier, intents) := rfl

/-- **`parseACL`** drops permissions that do not exist, and the entries that have no others: a
permission list never becomes an empty one. -/
theorem mem_parseACL {acl : List Str} {id : Str} {modifier : Modifier} {intents : List Intent} :
    (id, modifier, intents) ∈ parseACL acl ↔
      ∃ names, AclRule acl modifier id names ∧ intents = names.filterMap (intentnames.lookup ·) := by
  rw [parseACL_eq, List.mem_filterMap]
  constructor
  · rintro ⟨entry, hentry, h⟩
    split at h
    · cases h
    · rename_i modifier' id' permissions hmatch
      dsimp only at h
      split at h
      · cases h
      · rename_i hkept
        simp only [Option.some.injEq, Prod.mk.injEq] at h
        obtain ⟨rfl, rfl, rfl⟩ := h
        refine ⟨permissionNames permissions,
          ⟨⟨entry, hentry, matchAcl_iff.mp ⟨_, hmatch, rfl⟩⟩, ?_⟩, rfl⟩
        rw [or_iff_not_imp_left]
        intro hne
        by_contra hno
        apply hkept
        rw [Bool.and_eq_true, bne_iff_ne, beq_iff_eq, List.eq_nil_iff_forall_not_mem]
        exact ⟨hne, fun intent hmem => hno ⟨intent, mem_intents.mp hmem⟩⟩
  · rintro ⟨names, ⟨⟨entry, hentry, haclentry⟩, hknown⟩, rfl⟩
    obtain ⟨permissions, hmatch, rfl⟩ := matchAcl_iff.mpr haclentry
    refine ⟨entry, hentry, ?_⟩
    have hkept : ¬((permissionNames permissions != [] &&
        (permissionNames permissions).filterMap (intentnames.lookup ·) == []) = true) := by
      rw [Bool.and_eq_true, bne_iff_ne, beq_iff_eq]
      rintro ⟨hne, hnil⟩
      obtain ⟨intent, hpermits⟩ := hknown.resolve_left hne
      exact List.not_mem_nil (hnil ▸ mem_intents.mpr hpermits)
    simp only [hmatch]
    exact if_neg hkept

/-- An entry that is kept is about all intents only if it names no permission. -/
theorem intents_eq_nil {names : List Str} (hknown : names = [] ∨ ∃ intent, Permits names intent) :
    names.filterMap (intentnames.lookup ·) = [] ↔ names = [] := by
  constructor
  · intro h
    rcases hknown with hnames | ⟨intent, hpermits⟩
    · exact hnames
    · exact absurd (h ▸ mem_intents.mpr hpermits) List.not_mem_nil
  · rintro rfl
    rfl

/-- An entry that is kept allows what its rule allows. -/
theorem aclEntryAllows_iff {modifier : Modifier} {names : List Str} {intent : Intent}
    (hknown : names = [] ∨ ∃ intent, Permits names intent) :
    aclEntryAllows (modifier, names.filterMap (intentnames.lookup ·)) intent = true ↔
      Allows modifier names intent := by
  have hcontains : (names.filterMap (intentnames.lookup ·)).contains intent = true ↔
      Permits names intent := by
    rw [List.contains_iff_mem, mem_intents]
  dsimp only [aclEntryAllows, Allows]
  by_cases hempty : names = []
  · subst hempty
    cases modifier <;> simp [Permits]
  · rw [if_neg fun h => hempty ((intents_eq_nil hknown).mp (beq_iff_eq.mp h))]
    rw [← hcontains]
    generalize (names.filterMap (intentnames.lookup ·)).contains intent = permitted
    cases modifier <;> cases permitted <;> simp [hempty]

/-! ## The loops of `hasAccess` -/

/-- The flags of a loop over one list. -/
structure AclFlags where
  /-- an entry matched -/
  any_match : Bool
  /-- all that matched allow the intent -/
  all_allow : Bool

/-- One turn of the loop. -/
def AclFlags.turn (isMatch : Str → Bool) (intent : Intent) (flags : AclFlags)
    (aclentry : Str × Modifier × List Intent) : AclFlags :=
  if isMatch aclentry.1 then
    let entry_ok := aclEntryAllows aclentry.2 intent
    ⟨true, if !entry_ok then false else flags.all_allow⟩
  else flags

/-- The part of `hasAccess` for one list. -/
def loopACL (acl : List Str) (isMatch : Str → Bool) (intent : Intent) (ok : Bool) : Bool :=
  if acl.length > 0 then
    let flags := (parseACL acl).foldl (AclFlags.turn isMatch intent) ⟨false, true⟩
    if flags.any_match then flags.all_allow else ok
  else ok

/-- The flags after any number of turns. -/
theorem foldl_turn (isMatch : Str → Bool) (intent : Intent) (flags : AclFlags)
    (entries : List (Str × Modifier × List Intent)) :
    entries.foldl (AclFlags.turn isMatch intent) flags =
      ⟨flags.any_match || !(entries.filter fun entry => isMatch entry.1).isEmpty,
        flags.all_allow && (entries.filter fun entry => isMatch entry.1).all fun entry =>
          aclEntryAllows entry.2 intent⟩ := by
  induction entries generalizing flags with
  | nil => simp
  | cons entry entries ih =>
    rw [List.foldl_cons, ih]
    cases hmatch : isMatch entry.1 with
    | false => simp [AclFlags.turn, hmatch]
    | true =>
      cases hok : aclEntryAllows entry.2 intent <;> simp [AclFlags.turn, hmatch, hok]

/-- The loop computes what `checkACL` says about all entries at once. -/
theorem loopACL_eq (acl : List Str) (isMatch : Str → Bool) (intent : Intent) (ok : Bool) :
    loopACL acl isMatch intent ok = checkACL acl isMatch intent ok := by
  cases acl with
  | nil => rfl
  | cons entry acl =>
    dsimp only [loopACL, checkACL]
    rw [foldl_turn, if_pos (by simp)]
    cases ((parseACL (entry :: acl)).filter fun entry => isMatch entry.1).isEmpty <;> simp

/-- `hasAccess` with its loops. -/
def Config.hasAccessByLoops (config : Config) (user : Str) (groups : List Str) (fs : Str)
    (intent : Intent) : Bool :=
  match config.getFsConfig fs with
  | none => false
  | some fsconfig =>
    let ok :=
      if fsconfig.user_acl.length > 0 || fsconfig.group_acl.length > 0 then
        -- as soon as any ACL is present access is denied and has to be granted
        let ok := loopACL fsconfig.group_acl (groups.contains ·) intent false
        loopACL fsconfig.user_acl (· == user) intent ok
      else true
    if config.global.admins.contains user then true else ok

theorem Config.hasAccessByLoops_eq (config : Config) (user : Str) (groups : List Str) (fs : Str)
    (intent : Intent) :
    config.hasAccessByLoops user groups fs intent = config.hasAccess user groups fs intent := by
  have hlength : ∀ l : List Str, decide (l.length > 0) = !l.isEmpty := by
    intro l
    cases l <;> simp
  have hor : ∀ a b : Bool, (if a then true else b) = (a || b) := by decide
  dsimp only [hasAccessByLoops, hasAccess]
  cases config.getFsConfig fs with
  | none => rfl
  | some fsconfig => simp only [loopACL_eq, hlength, hor]

/-! ## Access -/

/-- One list decides for the ids it names, and leaves the result to others if it names none. -/
theorem checkACL_iff {acl : List Str} {isMatch : Str → Bool} {intent : Intent} {ok : Bool} :
    checkACL acl isMatch intent ok = true ↔
      (Named acl (isMatch ·) ∧ AllAllow acl (isMatch ·) intent) ∨
        (¬Named acl (isMatch ·) ∧ ok = true) := by
  have hnamed : ((parseACL acl).filter fun entry => isMatch entry.1).isEmpty = true ↔
      ¬Named acl (isMatch ·) := by
    rw [List.isEmpty_iff, List.filter_eq_nil_iff]
    constructor
    · rintro h ⟨modifier, id, names, hrule, hid⟩
      exact h _ (mem_parseACL.mpr ⟨names, hrule, rfl⟩) hid
    · rintro h ⟨id, modifier, intents⟩ hmem hid
      obtain ⟨names, hrule, -⟩ := mem_parseACL.mp hmem
      exact h ⟨modifier, id, names, hrule, hid⟩
  have hallow : (((parseACL acl).filter fun entry => isMatch entry.1).all fun entry =>
      aclEntryAllows entry.2 intent) = true ↔ AllAllow acl (isMatch ·) intent := by
    simp only [List.all_eq_true, List.mem_filter, and_imp]
    constructor
    · intro h modifier id names hrule hid
      exact (aclEntryAllows_iff hrule.known).mp (h _ (mem_parseACL.mpr ⟨names, hrule, rfl⟩) hid)
    · rintro h ⟨id, modifier, intents⟩ hmem hid
      obtain ⟨names, hrule, rfl⟩ := mem_parseACL.mp hmem
      exact (aclEntryAllows_iff hrule.known).mpr (h _ _ _ hrule hid)
  dsimp only [checkACL]
  split
  · rename_i hempty
    simp only [hnamed.mp hempty, false_and, not_false_eq_true, true_and, false_or]
  · rename_i hempty
    rw [hnamed, not_not] at hempty
    simp only [hallow, hempty, true_and, not_true_eq_false, false_and, or_false]

/-- **The documented access**: administrators have it, and everybody where there are no lists.
Otherwise the rules about the user himself decide, or else those about his groups, and each of
them has to allow the intent. -/
def Config.MayAccess (config : Config) (user : Str) (groups : List Str) (fs : Str)
    (intent : Intent) : Prop :=
  ∃ fsconfig, config.getFsConfig fs = some fsconfig ∧
    (user ∈ config.global.admins ∨
      (fsconfig.user_acl = [] ∧ fsconfig.group_acl = []) ∨
      (Named fsconfig.user_acl (· = user) ∧ AllAllow fsconfig.user_acl (· = user) intent) ∨
      (¬Named fsconfig.user_acl (· = user) ∧ Named fsconfig.group_acl (· ∈ groups) ∧
        AllAllow fsconfig.group_acl (· ∈ groups) intent))

/-- `hasAccess` decides the documented access. -/
theorem Config.hasAccess_iff {config : Config} {user fs : Str} {groups : List Str}
    {intent : Intent} :
    config.hasAccess user groups fs intent = true ↔ config.MayAccess user groups fs intent := by
  simp only [hasAccess, MayAccess]
  cases hfs : config.getFsConfig fs with
  | none => simp
  | some fsconfig =>
    simp only [Option.some.injEq, exists_eq_left', Bool.or_eq_true (config.global.admins.contains _),
      List.contains_iff_mem]
    by_cases hempty : fsconfig.user_acl = [] ∧ fsconfig.group_acl = []
    · simp [hempty.1, hempty.2]
    · have hacl : (!fsconfig.user_acl.isEmpty || !fsconfig.group_acl.isEmpty) = true := by
        simpa [← not_and_or] using hempty
      simp only [hempty, false_or, if_pos hacl, checkACL_iff, List.contains_iff_mem, beq_iff_eq,
        Bool.false_eq_true, and_false, or_false]

/-- Two situations in which the same things are said, in any order and any number of times. -/
structure SameRules (config config' : Config) (groups groups' : List Str) (fs : Str) :
    Prop where
  /-- about the administrators -/
  admins : ∀ admin, admin ∈ config.global.admins ↔ admin ∈ config'.global.admins
  /-- about the groups of the user -/
  groups : ∀ group, group ∈ groups ↔ group ∈ groups'
  /-- in the lists of the filesystem -/
  lists : Option.Rel (fun fsconfig fsconfig' : FilesystemConfig =>
    (∀ entry, entry ∈ fsconfig.user_acl ↔ entry ∈ fsconfig'.user_acl) ∧
      ∀ entry, entry ∈ fsconfig.group_acl ↔ entry ∈ fsconfig'.group_acl)
    (config.getFsConfig fs) (config'.getFsConfig fs)

/-- The rules of a list are those of its elements. -/
theorem AclRule.congr {acl acl' : List Str} (h : ∀ entry, entry ∈ acl ↔ entry ∈ acl')
    (modifier : Modifier) (id : Str) (names : List Str) :
    AclRule acl modifier id names ↔ AclRule acl' modifier id names := by
  constructor
  · rintro ⟨⟨entry, hentry, hacl⟩, hknown⟩
    exact ⟨⟨entry, (h entry).mp hentry, hacl⟩, hknown⟩
  · rintro ⟨⟨entry, hentry, hacl⟩, hknown⟩
    exact ⟨⟨entry, (h entry).mpr hentry, hacl⟩, hknown⟩

theorem eq_nil_congr {l l' : List Str} (h : ∀ x, x ∈ l ↔ x ∈ l') : l = [] ↔ l' = [] := by
  simp only [List.eq_nil_iff_forall_not_mem, h]

/-- Access depends on what is said only. -/
theorem SameRules.hasAccess_eq {config config' : Config} {groups groups' : List Str} {fs : Str}
    (h : SameRules config config' groups groups' fs) (user : Str) (intent : Intent) :
    config'.hasAccess user groups' fs intent = config.hasAccess user groups fs intent := by
  rw [Bool.eq_iff_iff, Config.hasAccess_iff, Config.hasAccess_iff, Config.MayAccess,
    Config.MayAccess]
  have hlists := h.lists
  cases hfs : config.getFsConfig fs with
  | none =>
    rw [hfs] at hlists
    generalize config'.getFsConfig fs = found at hlists
    cases hlists
    simp
  | some fsconfig =>
    rw [hfs] at hlists
    generalize config'.getFsConfig fs = found at hlists
    obtain ⟨huser, hgroup⟩ := hlists
    simp only [Option.some.injEq, exists_eq_left', h.admins, eq_nil_congr huser,
      eq_nil_congr hgroup, Named, AllAllow, AclRule.congr huser, AclRule.congr hgroup, h.groups]

/-- **Access is the documented one**: `hasAccess`, with its two loops, decides `MayAccess`;
`parseACL` keeps the well-formed entries with the permissions that exist and makes no entry one
about all intents; and the order and the repetition of groups and entries are of no account. -/
theorem Config.hasAccess_documented (config : Config) (user : Str) (groups : List Str) (fs : Str)
    (intent : Intent) :
    config.hasAccessByLoops user groups fs intent = config.hasAccess user groups fs intent ∧
      (config.hasAccess user groups fs intent = true ↔ config.MayAccess user groups fs intent) ∧
      (∀ acl id modifier intents, (id, modifier, intents) ∈ parseACL acl ↔
        ∃ names, AclRule acl modifier id names ∧
          intents = names.filterMap (intentnames.lookup ·) ∧ (intents = [] ↔ names = [])) ∧
      ∀ (config' : Config) (groups' : List Str), SameRules config config' groups groups' fs →
        config'.hasAccess user groups' fs intent = config.hasAccess user groups fs intent := by
  refine ⟨hasAccessByLoops_eq .., hasAccess_iff, ?_, ?_⟩
  · intro acl id modifier intents
    rw [mem_parseACL]
    constructor
    · rintro ⟨names, hrule, rfl⟩
      exact ⟨names, hrule, rfl, intents_eq_nil hrule.known⟩
    · rintro ⟨names, hrule, rfl, -⟩
      exact ⟨names, hrule, rfl⟩
  · intro config' groups' hsame
    exact hsame.hasAccess_eq user intent

/-- A filesystem with a list for groups: the team may do everything but extend. -/
def teamConfig (group_acl : List Str) : Config :=
  .single "fs".toList { FilesystemConfig.ofSpaces "/space".toList [] with group_acl }

/-- The entries in another order, one of them twice, and the groups as well. -/
theorem Config.hasAccess_documented_team :
    (teamConfig ["+team".toList, "-team:extend".toList]).hasAccess "bob".toList
        ["team".toList, "staff".toList] "fs".toList .use =
      (teamConfig ["-team:extend".toList, "+team".toList, "+team".toList]).hasAccess "bob".toList
        ["staff".toList, "team".toList, "staff".toList] "fs".toList .use := by
  refine ((hasAccess_documented
    (teamConfig ["-team:extend".toList, "+team".toList, "+team".toList]) "bob".toList
    ["staff".toList, "team".toList, "staff".toList] "fs".toList .use).2.2.2 _ _ ⟨?_, ?_, ?_⟩)
  · exact fun admin => Iff.rfl
  · intro group
    simp only [List.mem_cons, List.not_mem_nil, or_false]
    grind
  · refine Option.Rel.some ⟨fun entry => Iff.rfl, fun entry => ?_⟩
    simp only [List.mem_cons, List.not_mem_nil, or_false]
    grind

/-! ## The order of the valid filesystems -/

/-- The first of the filesystems with a property, by name; nothing if there is none. -/
def FirstByName (P : Str → Prop) : Option Str → Prop
  | none => ∀ fs, ¬P fs
  | some fs => P fs ∧ ∀ fs', P fs' → ¬fs' < fs

/-- A user is named by the user default of a filesystem. -/
def Config.HasUserdefault (config : Config) (user fs : Str) : Prop :=
  ∃ fsconfig, config.getFsConfig fs = some fsconfig ∧ user ∈ fsconfig.userdefault

/-- One of the groups is named by the group default of a filesystem. -/
def Config.HasGroupdefault (config : Config) (groups : List Str) (fs : Str) : Prop :=
  ∃ fsconfig, config.getFsConfig fs = some fsconfig ∧
    ∃ group ∈ groups, group ∈ fsconfig.groupdefault

theorem Config.nodup_Filesystems (config : Config) : config.Filesystems.Nodup := by
  apply config.sorted.imp
  intro fs fs' hlt heq
  rw [heq] at hlt
  exact List.lt_irrefl _ hlt

/-- What a pass over the map meets are the filesystems as `getFsConfig` has them. -/
theorem Config.mem_filesystems_iff {config : Config} {fs : Str} {fsconfig : FilesystemConfig} :
    (fs, fsconfig) ∈ config.filesystems ↔ config.getFsConfig fs = some fsconfig := by
  have hnodup := config.nodup_Filesystems
  rw [Filesystems] at hnodup
  rw [getFsConfig]
  generalize config.filesystems = l at hnodup ⊢
  induction l with
  | nil => simp
  | cons p l ih =>
    obtain ⟨hnot, hl⟩ := List.nodup_cons.mp hnodup
    rw [List.mem_cons, List.lookup_cons]
    by_cases hfs : fs = p.1
    · subst hfs
      simp only [beq_self_eq_true, Option.some.injEq]
      constructor
      · rintro (heq | hmem)
        · rw [← heq]
        · exact absurd (List.mem_map_of_mem hmem) hnot
      · rintro rfl
        exact Or.inl rfl
    · have hne : (fs, fsconfig) ≠ p := fun heq => hfs (congrArg Prod.fst heq)
      simp only [beq_false_of_ne hfs, hne, false_or]
      exact ih hl

/-- **A pass** over the map that stops at the first hit finds the first filesystem by name. -/
theorem Config.firstByName_find? {config : Config} {test : Str × FilesystemConfig → Bool}
    {P : Str → Prop}
    (hP : ∀ fs, P fs ↔ ∃ fsconfig, config.getFsConfig fs = some fsconfig ∧ test (fs, fsconfig)) :
    FirstByName P ((config.filesystems.find? test).map Prod.fst) := by
  cases hfind : config.filesystems.find? test with
  | none =>
    intro fs hfs
    obtain ⟨fsconfig, hget, htest⟩ := (hP fs).mp hfs
    exact List.find?_eq_none.mp hfind _ (mem_filesystems_iff.mpr hget) htest
  | some p =>
    obtain ⟨htest, before, after, heq, hbefore⟩ := List.find?_eq_some_iff_append.mp hfind
    have hmem : p ∈ config.filesystems := heq ▸ List.mem_append_right _ (List.mem_cons_self ..)
    refine ⟨(hP p.1).mpr ⟨p.2, mem_filesystems_iff.mp hmem, htest⟩, ?_⟩
    intro fs hfs hlt
    obtain ⟨fsconfig, hget, htest'⟩ := (hP fs).mp hfs
    have hmem' := mem_filesystems_iff.mpr hget
    have hsorted := config.sorted
    rw [heq, List.map_append, List.map_cons, List.pairwise_append] at hsorted
    rw [heq, List.mem_append, List.mem_cons] at hmem'
    rcases hmem' with hmem' | rfl | hmem'
    · simpa [htest'] using hbefore _ hmem'
    · exact List.lt_irrefl _ hlt
    · have hafter := List.rel_of_pairwise_cons hsorted.2.1 (List.mem_map_of_mem hmem')
      exact List.lt_asymm hlt hafter

/-- The list of the valid filesystems in its four parts. -/
structure ByPriority (config : Config) (user : Str) (groups : List Str) (intent : Intent)
    (validfs : List Str) where
  /-- a user default -/
  userdefault : Option Str
  /-- a further filesystem that is a group default -/
  groupdefault : Option Str
  /-- the global default, unless it is there already -/
  default : Option Str
  /-- all others -/
  others : List Str
  eq : validfs = userdefault.toList ++ groupdefault.toList ++ default.toList ++ others
  user_first : FirstByName (fun fs => config.HasUserdefault user fs ∧
    config.hasAccess user groups fs intent = true) userdefault
  group_first : FirstByName (fun fs => config.HasGroupdefault groups fs ∧
    config.hasAccess user groups fs intent = true ∧ fs ∉ userdefault) groupdefault
  default_first : ∀ fs, fs ∈ default ↔ fs = config.global.defaultWorkspace ∧ fs ≠ [] ∧
    config.hasAccess user groups fs intent = true ∧ fs ∉ userdefault ∧ fs ∉ groupdefault
  by_name : others.Pairwise (· < ·)

/-- The defaults in their three parts. -/
theorem Config.defaultFilesystems_eq (config : Config) (user : Str) (groups : List Str)
    (intent : Intent) :
    ∃ userdefault groupdefault default : Option Str,
      config.defaultFilesystems user groups intent =
        userdefault.toList ++ groupdefault.toList ++ default.toList ∧
      FirstByName (fun fs => config.HasUserdefault user fs ∧
        config.hasAccess user groups fs intent = true) userdefault ∧
      FirstByName (fun fs => config.HasGroupdefault groups fs ∧
        config.hasAccess user groups fs intent = true ∧ fs ∉ userdefault) groupdefault ∧
      ∀ fs, fs ∈ default ↔ fs = config.global.defaultWorkspace ∧ fs ≠ [] ∧
        config.hasAccess user groups fs intent = true ∧ fs ∉ userdefault ∧ fs ∉ groupdefault := by
  dsimp only [defaultFilesystems]
  set userdefault := (config.filesystems.find? fun p => p.2.userdefault.contains user &&
    config.hasAccess user groups p.1 intent).map Prod.fst with huser
  set groupdefault := (config.filesystems.find? fun p =>
    groups.any (p.2.groupdefault.contains ·) && config.hasAccess user groups p.1 intent &&
      !userdefault.toList.contains p.1).map Prod.fst with hgroup
  have huserfirst : FirstByName (fun fs => config.HasUserdefault user fs ∧
      config.hasAccess user groups fs intent = true) userdefault := by
    rw [huser]
    apply firstByName_find?
    intro fs
    simp only [HasUserdefault, Bool.and_eq_true, List.contains_iff_mem]
    constructor
    · rintro ⟨⟨fsconfig, hfs, hmem⟩, haccess⟩
      exact ⟨fsconfig, hfs, hmem, haccess⟩
    · rintro ⟨fsconfig, hfs, hmem, haccess⟩
      exact ⟨⟨fsconfig, hfs, hmem⟩, haccess⟩
  have hgroupfirst : FirstByName (fun fs => config.HasGroupdefault groups fs ∧
      config.hasAccess user groups fs intent = true ∧ fs ∉ userdefault) groupdefault := by
    rw [hgroup]
    apply firstByName_find?
    intro fs
    simp only [HasGroupdefault, Bool.and_eq_true, List.any_eq_true, List.contains_iff_mem,
      Bool.not_eq_true', ← Bool.not_eq_true, Option.mem_toList]
    constructor
    · rintro ⟨⟨fsconfig, hfs, hmem⟩, haccess, hnot⟩
      exact ⟨fsconfig, hfs, ⟨hmem, haccess⟩, hnot⟩
    · rintro ⟨fsconfig, hfs, ⟨hmem, haccess⟩, hnot⟩
      exact ⟨⟨fsconfig, hfs, hmem⟩, haccess, hnot⟩
  clear_value userdefault groupdefault
  split
  · rename_i htest
    refine ⟨userdefault, groupdefault, some config.global.defaultWorkspace, rfl, huserfirst,
      hgroupfirst, ?_⟩
    intro fs
    simp only [Bool.and_eq_true, bne_iff_ne, Bool.not_eq_true', ← Bool.not_eq_true,
      List.contains_iff_mem, List.mem_append, Option.mem_toList, not_or] at htest
    simp only [Option.mem_def, Option.some.injEq]
    constructor
    · rintro rfl
      exact ⟨rfl, htest.1.1, htest.1.2, htest.2⟩
    · rintro ⟨rfl, -⟩
      rfl
  · rename_i htest
    refine ⟨userdefault, groupdefault, none, (List.append_nil _).symm, huserfirst, hgroupfirst, ?_⟩
    intro fs
    simp only [Bool.and_eq_true, bne_iff_ne, Bool.not_eq_true', ← Bool.not_eq_true,
      List.contains_iff_mem, List.mem_append, Option.mem_toList, not_or] at htest
    simp only [Option.mem_def, reduceCtorEq, false_iff]
    rintro ⟨rfl, hne, haccess, huser', hgroup'⟩
    exact htest ⟨⟨hne, haccess⟩, huser', hgroup'⟩

/-- The same groups in any order give the same list. -/
theorem Config.validFilesystems_congr (config : Config) (user : Str) {groups groups' : List Str}
    (intent : Intent) (h : ∀ group, group ∈ groups ↔ group ∈ groups') :
    config.validFilesystems user groups' intent = config.validFilesystems user groups intent := by
  have haccess : ∀ fs, config.hasAccess user groups' fs intent =
      config.hasAccess user groups fs intent := by
    intro fs
    apply SameRules.hasAccess_eq
    refine ⟨fun admin => Iff.rfl, h, ?_⟩
    cases config.getFsConfig fs with
    | none => exact .none
    | some fsconfig => exact .some ⟨fun entry => Iff.rfl, fun entry => Iff.rfl⟩
  have hany : ∀ test : Str → Bool, groups'.any test = groups.any test := by
    intro test
    rw [Bool.eq_iff_iff, List.any_eq_true, List.any_eq_true]
    simp only [h]
  simp only [validFilesystems, defaultFilesystems, haccess, hany]

/-- **The valid filesystems are ordered**: no filesystem twice, exactly the configured ones the
user has access to; first his own default, then the default of a group, then the global default,
then the others by name; whatever the order of the groups. -/
theorem Config.validFilesystems_ordered (config : Config) (user : Str) (groups : List Str)
    (intent : Intent) :
    (config.validFilesystems user groups intent).Nodup ∧
      (∀ fs, fs ∈ config.validFilesystems user groups intent ↔
        fs ∈ config.Filesystems ∧ config.hasAccess user groups fs intent = true) ∧
      Nonempty (ByPriority config user groups intent
        (config.validFilesystems user groups intent)) ∧
      ∀ groups' : List Str, groups.Perm groups' →
        config.validFilesystems user groups' intent =
          config.validFilesystems user groups intent := by
  refine ⟨nodup_validFilesystems, ?_, ?_, ?_⟩
  · intro fs
    rw [mem_validFilesystems]
    constructor
    · intro haccess
      obtain ⟨fsconfig, hfs⟩ := getFsConfig_of_hasAccess haccess
      exact ⟨mem_Filesystems_of_getFsConfig hfs, haccess⟩
    · exact And.right
  · obtain ⟨userdefault, groupdefault, default, heq, huser, hgroup, hdefault⟩ :=
      config.defaultFilesystems_eq user groups intent
    exact ⟨{
      userdefault := userdefault
      groupdefault := groupdefault
      default := default
      others := config.Filesystems.filter fun fs => config.hasAccess user groups fs intent &&
        !(config.defaultFilesystems user groups intent).contains fs
      eq := by rw [← heq]; rfl
      user_first := huser
      group_first := hgroup
      default_first := hdefault
      by_name := config.sorted.filter _ }⟩
  · intro groups' hperm
    exact config.validFilesystems_congr user intent fun group => hperm.mem_iff

end HpcWorkspace
