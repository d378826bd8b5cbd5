import HpcWorkspace.Lib.Yaml
import HpcWorkspace.World

/-!
# The text of an entry

`writeEntry` puts the fields of an entry into a map, without those that say nothing: no user, no
group, not expired, not released. `readFromString` takes defaults for what is missing. Both exist
twice, for `yaml-cpp` and for `rapidyaml`; the second one takes values that are no scalars, and
empty strings, for missing ones.

Entries written by older versions lack further fields. The time of creation is then the time of
the directory at the moment of reading.
-/

namespace HpcWorkspace

/-- `DBEntryV1`, as far as it is read from a text. -/
structure DBEntryV1 where
  /-- version of the format, 0 for legacy entries; never written -/
  dbversion : Int32
  /-- owner, empty for legacy entries -/
  username : Str
  /-- directory path -/
  workspace : Str
  /-- epoch time of creation -/
  creation : Int64
  /-- epoch time of expiration -/
  expiration : Int64
  /-- epoch time of manual release -/
  released : Int64
  /-- epoch time when the expirer expired it -/
  expired : Int64
  /-- epoch time of the reminder -/
  reminder : Int64
  /-- extensions, counting down -/
  extensions : Int32
  /-- marks group workspaces, is not written -/
  groupflag : Bool
  /-- group for whom it is visible -/
  group : Str
  /-- address for the reminder -/
  mailaddress : Str
  /-- user defined comment -/
  comment : Str
  /-- account code for billing -/
  acctcode : Str
  deriving DecidableEq

/-- The library the tools are built with. -/
inductive YamlBuild where
  /-- `yaml-cpp` -/
  | yamlcpp
  /-- `WS_RAPIDYAML_DB` -/
  | rapidyaml
  deriving DecidableEq

namespace YamlBuild

/-- Does a value count for a number? `has_val` of `rapidyaml` is false for lists and maps. -/
def hasVal : YamlBuild → YamlNode → Bool
  | .yamlcpp, _ => true
  | .rapidyaml, n => n != .collection

/-- Does a value count for a string? -/
def hasString : YamlBuild → YamlNode → Bool
  | .yamlcpp, _ => true
  | .rapidyaml, .scalar s => s != []
  | .rapidyaml, _ => false

end YamlBuild

/-- The value of a field, or its default. -/
def fieldOr {α : Type} (counts : YamlNode → Bool) (read : YamlNode → Option α) (default : Option α) :
    Option YamlNode → Option α
  | none => default
  | some n => if counts n then read n else default

namespace DBEntryV1

/-! ## Writing and reading -/

/-- The map that `writeEntry` makes; a field without a value is left out. -/
def fields (build : YamlBuild) (y : Yaml) (e : DBEntryV1) : List (Str × Option Str) :=
  let head : List (Str × Option Str) :=
    [("workspace".toList, some e.workspace),
      ("user".toList, if e.username ≠ [] then some e.username else none),
      ("creation".toList, some (y.printLong e.creation)),
      ("expiration".toList, some (y.printLong e.expiration)),
      ("expired".toList, if 0 < e.expired then some (y.printLong e.expired) else none),
      ("extensions".toList, some (y.printInt e.extensions))]
  let tail : List (Str × Option Str) :=
    [("reminder".toList, some (y.printLong e.reminder)),
      ("mailaddress".toList, some e.mailaddress),
      ("group".toList, if e.groupflag ∧ e.group ≠ [] then some e.group else none),
      ("released".toList, if 0 < e.released then some (y.printLong e.released) else none),
      ("comment".toList, some e.comment)]
  let acctcode : List (Str × Option Str) := [("acctcode".toList, some e.acctcode)]
  match build with
  | .yamlcpp => head ++ tail ++ acctcode
  | .rapidyaml => head ++ acctcode ++ tail

/-- `writeEntry`: the text that is written. -/
def writeEntry (build : YamlBuild) (y : Yaml) (e : DBEntryV1) : Str :=
  y.emit (Yaml.present (e.fields build y))

/-- `readFromString` after the checks; `node` finds a value by its key, `fileTime` is
`getFileTimeAsLong`. -/
def ofMap (build : YamlBuild) (y : Yaml) (fileTime : Str → Option Int64)
    (node : Str → Option YamlNode) : Option DBEntryV1 := do
  let string (key : Str) : Option Str := fieldOr build.hasString y.readString (some []) (node key)
  let long (key : Str) : Option Int64 := fieldOr build.hasVal y.readLong (some 0) (node key)
  let int (key : Str) : Option Int32 := fieldOr build.hasVal y.readInt (some 0) (node key)
  let dbversion ← int "dbversion".toList
  let workspace ← string "workspace".toList
  let username ← string "user".toList
  let creation ←
    fieldOr build.hasVal y.readLong (fileTime workspace) (node "creation".toList)
  let released ← long "released".toList
  let expiration ← long "expiration".toList
  let expired ← long "expired".toList
  let reminder ← long "reminder".toList
  let extensions ← int "extensions".toList
  let mailaddress ← string "mailaddress".toList
  let comment ← string "comment".toList
  let group ← string "group".toList
  let acctcode ← string "acctcode".toList
  some
    { dbversion := dbversion
      username := username
      workspace := workspace
      creation := creation
      expiration := expiration
      released := released
      expired := expired
      reminder := reminder
      extensions := extensions
      groupflag := group != []
      group := group
      mailaddress := mailaddress
      comment := comment
      acctcode := acctcode }

/-- `readFromString`; `none` is an exception. -/
def readFromString (build : YamlBuild) (y : Yaml) (fileTime : Str → Option Int64) (str : Str) :
    Option DBEntryV1 :=
  match y.load str with
  | none => none
  | some dbentry =>
    -- `yaml-cpp` can not tell an empty file from one without fields
    if build = .yamlcpp ∧ dbentry = [] then none
    else ofMap build y fileTime fun key => dbentry.lookup key

/-! ## What is kept -/

/-- An entry as it comes back from its text. -/
def persisted (e : DBEntryV1) : DBEntryV1 :=
  let group := if e.groupflag ∧ e.group ≠ [] then e.group else []
  { e with
    dbversion := 0
    expired := if 0 < e.expired then e.expired else 0
    released := if 0 < e.released then e.released else 0
    groupflag := group != []
    group := group }

/-- The entry that the tools work with; a path is taken apart by `path`. -/
def toEntry (path : Str → WsPath) (e : DBEntryV1) : DBEntry where
  username := e.username
  workspace := path e.workspace
  creation := e.creation.toInt
  expiration := e.expiration.toInt
  reminder := e.reminder.toInt
  extensions := e.extensions.toInt
  groupflag := e.groupflag
  group := e.group
  mailaddress := e.mailaddress
  comment := e.comment
  released := e.released.toInt
  expired := e.expired.toInt
  acctcode := e.acctcode

variable {build : YamlBuild} {y : Yaml} {fileTime : Str → Option Int64} {e : DBEntryV1}

/-- What comes back is what the tools' model says. -/
theorem toEntry_persisted (path : Str → WsPath) (e : DBEntryV1) :
    e.persisted.toEntry path = (e.toEntry path).persisted := by
  have hpos : ∀ z : Int64, (if 0 < z then z else 0).toInt = if z.toInt > 0 then z.toInt else 0 := by
    intro z
    have hiff : 0 < z ↔ z.toInt > 0 := Int64.lt_iff_toInt_lt
    by_cases h : 0 < z
    · rw [if_pos h, if_pos (hiff.mp h)]
    · rw [if_neg h, if_neg fun hz => h (hiff.mpr hz)]
      rfl
  have hgroup : (if e.groupflag = true ∧ e.group ≠ [] then e.group else []) =
      if (e.groupflag && !e.group.isEmpty) = true then e.group else [] := by
    cases e.groupflag <;> cases e.group <;> rfl
  have hflag : ∀ group : Str, (group != []) = !group.isEmpty := fun group => by
    cases group <;> rfl
  simp only [persisted, toEntry, DBEntry.persisted, hpos, hgroup, hflag]
  rfl

theorem nodup_fields (build : YamlBuild) (y : Yaml) (e : DBEntryV1) :
    ((e.fields build y).map Prod.fst).Nodup := by
  cases build <;> exact of_decide_eq_true rfl

theorem isWord_fields (build : YamlBuild) (y : Yaml) (e : DBEntryV1) :
    ∀ k ∈ (e.fields build y).map Prod.fst, Yaml.IsWord k := by
  cases build <;> exact of_decide_eq_true rfl

/-! ## Fields are read back -/

section Fields

variable (h : y.Lawful)
include h

theorem string_scalar (s : Str) :
    fieldOr build.hasString y.readString (some []) (some (.scalar s)) = some s := by
  cases build with
  | yamlcpp => exact h.readString_scalar s
  | rapidyaml =>
    cases s with
    | nil => rfl
    | cons c s => exact h.readString_scalar (c :: s)

/-- A string that is left out in some cases is empty then. -/
theorem string_ite (s : Str) (p : Prop) [Decidable p] :
    fieldOr build.hasString y.readString (some [])
      ((if p then some s else none).map .scalar) = some (if p then s else []) := by
  split
  · exact string_scalar h s
  · rfl

theorem long_scalar (default : Option Int64) (z : Int64) :
    fieldOr build.hasVal y.readLong default (some (.scalar (y.printLong z))) = some z := by
  cases build <;> exact h.readLong_print z

/-- A time that is left out when it is not positive is zero then. -/
theorem long_ite (z : Int64) (p : Prop) [Decidable p] :
    fieldOr build.hasVal y.readLong (some 0)
      ((if p then some (y.printLong z) else none).map .scalar) = some (if p then z else 0) := by
  split
  · exact long_scalar h _ z
  · rfl

theorem int_scalar (z : Int32) :
    fieldOr build.hasVal y.readInt (some 0) (some (.scalar (y.printInt z))) = some z := by
  cases build <;> exact h.readInt_print z

/-- **Reading the map of an entry.** -/
theorem ofMap_fields {node : Str → Option YamlNode}
    (hnode : ∀ k, node k = ((e.fields build y).lookup k).join.map .scalar) :
    ofMap build y fileTime node = some e.persisted := by
  have huser : (if e.username ≠ [] then e.username else []) = e.username := by
    cases e.username <;> rfl
  have hlookup : ∀ (key : Str) (v : Option Str), (e.fields build y).lookup key = some v →
      node key = v.map .scalar := by
    intro key v hv
    rw [hnode, hv]
    rfl
  have hdbversion : node "dbversion".toList = none := by
    rw [hnode]
    cases build <;> rfl
  dsimp only [ofMap]
  rw [hdbversion, hlookup "workspace".toList (some e.workspace) (by cases build <;> rfl),
    hlookup "user".toList (if e.username ≠ [] then some e.username else none)
      (by cases build <;> rfl),
    hlookup "creation".toList (some (y.printLong e.creation)) (by cases build <;> rfl),
    hlookup "released".toList (if 0 < e.released then some (y.printLong e.released) else none)
      (by cases build <;> rfl),
    hlookup "expiration".toList (some (y.printLong e.expiration)) (by cases build <;> rfl),
    hlookup "expired".toList (if 0 < e.expired then some (y.printLong e.expired) else none)
      (by cases build <;> rfl),
    hlookup "reminder".toList (some (y.printLong e.reminder)) (by cases build <;> rfl),
    hlookup "extensions".toList (some (y.printInt e.extensions)) (by cases build <;> rfl),
    hlookup "mailaddress".toList (some e.mailaddress) (by cases build <;> rfl),
    hlookup "comment".toList (some e.comment) (by cases build <;> rfl),
    hlookup "group".toList (if e.groupflag ∧ e.group ≠ [] then some e.group else none)
      (by cases build <;> rfl),
    hlookup "acctcode".toList (some e.acctcode) (by cases build <;> rfl)]
  simp only [Option.map_some, string_scalar h, string_ite h, long_scalar h, long_ite h,
    int_scalar h, huser]
  rfl

/-- **Reading the text of an entry** gives back what is kept of it. -/
theorem readFromString_writeEntry :
    readFromString build y fileTime (e.writeEntry build y) = some e.persisted := by
  obtain ⟨m, hload, hlookup⟩ := h.load_present (nodup_fields build y e) (isWord_fields build y e)
  have hne : m ≠ [] := by
    rintro rfl
    have hworkspace := hlookup "workspace".toList
    have hthere : (e.fields build y).lookup "workspace".toList = some (some e.workspace) := by
      cases build <;> rfl
    rw [hthere] at hworkspace
    cases hworkspace
  rw [readFromString, writeEntry, hload]
  dsimp only
  rw [if_neg fun hempty => hne hempty.2]
  exact ofMap_fields h hlookup

end Fields

/-- What is read for the user, and the flag of a group workspace, which is set when it has a
group. -/
theorem read_of_ofMap {node : Str → Option YamlNode}
    (h : ofMap build y fileTime node = some e) :
    fieldOr build.hasString y.readString (some []) (node "user".toList) = some e.username ∧
      e.groupflag = (e.group != []) := by
  -- one field after the other is taken off
  obtain ⟨dbversion, -, h⟩ := Option.bind_eq_some_iff.mp h
  obtain ⟨workspace, -, h⟩ := Option.bind_eq_some_iff.mp h
  obtain ⟨username, huser, h⟩ := Option.bind_eq_some_iff.mp h
  iterate 10 obtain ⟨_, -, h⟩ := Option.bind_eq_some_iff.mp h
  cases h
  exact ⟨huser, rfl⟩

/-- An entry without negative times and with a fitting flag is kept as it is. -/
theorem persisted_eq (hexpired : 0 ≤ e.expired) (hreleased : 0 ≤ e.released)
    (hgroup : e.groupflag = true ↔ e.group ≠ []) : e.persisted = { e with dbversion := 0 } := by
  have htime : ∀ z : Int64, 0 ≤ z → (if 0 < z then z else 0) = z := by
    intro z hz
    split
    · rfl
    · rename_i hpos
      have hle : z.toInt ≤ 0 := Int64.le_iff_toInt_le.mp (Int64.not_lt.mp hpos)
      have hge : 0 ≤ z.toInt := Int64.le_iff_toInt_le.mp hz
      have hzero : (0 : Int64).toInt = z.toInt := Int.le_antisymm hge hle
      exact Int64.toInt_inj.mp hzero
  have hkeep : (if e.groupflag = true ∧ e.group ≠ [] then e.group else []) = e.group := by
    split
    · rfl
    · rename_i hno
      by_contra hne
      exact hno ⟨hgroup.mpr (Ne.symm hne), Ne.symm hne⟩
  have hflag : (e.group != []) = e.groupflag := by
    rw [Bool.eq_iff_iff, bne_iff_ne]
    exact hgroup.symm
  simp only [persisted, htime _ hexpired, htime _ hreleased, hkeep, hflag]

/-- A text has a field for the user. -/
def HasUser (y : Yaml) (text : Str) : Prop :=
  ∃ m n, y.load text = some m ∧ m.lookup "user".toList = some n

/-- Without one, no user is read. -/
theorem hasUser_of_readFromString {s : Str} (h : readFromString build y fileTime s = some e)
    (huser : e.username ≠ []) : HasUser y s := by
  unfold readFromString at h
  split at h
  · cases h
  · rename_i m hload
    split at h
    · cases h
    · cases hlookup : m.lookup "user".toList with
      | some n => exact ⟨m, n, hload, hlookup⟩
      | none =>
        exfalso
        have hread := (read_of_ofMap h).1
        rw [hlookup] at hread
        exact huser (Option.some.inj hread).symm

/-- An entry without a user is written without the field. -/
theorem username_of_hasUser (hy : y.Lawful) (h : HasUser y (e.writeEntry build y)) :
    e.username ≠ [] := by
  rintro hnone
  obtain ⟨m, n, hload, hn⟩ := h
  obtain ⟨m', hload', hlookup⟩ :=
    hy.load_present (nodup_fields build y e) (isWord_fields build y e)
  obtain rfl := Option.some.inj (hload.symm.trans hload')
  have hfield : (e.fields build y).lookup "user".toList =
      some (if e.username ≠ [] then some e.username else none) := by
    cases build <;> rfl
  rw [hlookup, hfield, if_neg (not_not.mpr hnone)] at hn
  cases hn

/-- **Texts of entries**: an entry is read back from its text as it was, and an entry of any version
that was read stays as it was when it is written and read again, with no user that its first text
did not have. -/
theorem entry_text_roundtrip (build : YamlBuild) (y : Yaml) (h : y.Lawful) :
    (∀ (e : DBEntryV1) (fileTime : Str → Option Int64), 0 ≤ e.expired → 0 ≤ e.released →
      (e.groupflag = true ↔ e.group ≠ []) →
        readFromString build y fileTime (e.writeEntry build y) =
          some { e with dbversion := 0 }) ∧
      ∀ (s : Str) (e : DBEntryV1) (fileTime fileTime' : Str → Option Int64),
        readFromString build y fileTime s = some e → 0 ≤ e.expired → 0 ≤ e.released →
          readFromString build y fileTime' (e.writeEntry build y) =
              some { e with dbversion := 0 } ∧
            (HasUser y (e.writeEntry build y) → HasUser y s) := by
  have hback : ∀ (e : DBEntryV1) (fileTime : Str → Option Int64), 0 ≤ e.expired →
      0 ≤ e.released → (e.groupflag = true ↔ e.group ≠ []) →
        readFromString build y fileTime (e.writeEntry build y) =
          some { e with dbversion := 0 } := by
    intro e fileTime hexpired hreleased hgroup
    rw [readFromString_writeEntry h, persisted_eq hexpired hreleased hgroup]
  refine ⟨hback, fun s e fileTime fileTime' hread hexpired hreleased => ⟨?_, fun huser => ?_⟩⟩
  · refine hback e fileTime' hexpired hreleased ?_
    have hflag : e.groupflag = (e.group != []) := by
      unfold readFromString at hread
      split at hread
      · cases hread
      · split at hread
        · cases hread
        · exact (read_of_ofMap hread).2
    rw [hflag, bne_iff_ne]
  · exact hasUser_of_readFromString hread (username_of_hasUser h huser)

/-- An entry with all fields. -/
def bobEntry : DBEntryV1 where
  dbversion := 0
  username := "bob".toList
  workspace := "/s/bob-x".toList
  creation := 1000
  expiration := 2000
  released := 1500
  expired := 0
  reminder := 7
  extensions := 3
  groupflag := true
  group := "hpc".toList
  mailaddress := "bob".toList
  comment := "test".toList
  acctcode := "p1".toList

/-- A legacy text, without user and creation. -/
def legacyText : Str := "workspace: /s/bob-x\nexpiration: 2000\nextensions: 3\n".toList

/-- What is read from it; its directory is from 500. -/
def legacyEntry : DBEntryV1 where
  dbversion := 0
  username := []
  workspace := "/s/bob-x".toList
  creation := 500
  expiration := 2000
  released := 0
  expired := 0
  reminder := 0
  extensions := 3
  groupflag := false
  group := []
  mailaddress := []
  comment := []
  acctcode := []

set_option maxRecDepth 4000 in
/-- An entry and a legacy entry, with one line per key. -/
theorem entry_text_roundtrip_bob :
    readFromString .rapidyaml Yaml.flat (fun _ => none)
        (bobEntry.writeEntry .rapidyaml Yaml.flat) = some bobEntry ∧
      readFromString .rapidyaml Yaml.flat (fun _ => none)
        (legacyEntry.writeEntry .rapidyaml Yaml.flat) = some legacyEntry := by
  obtain ⟨hback, hlegacy⟩ := entry_text_roundtrip .rapidyaml Yaml.flat Yaml.flat_lawful
  have hread : readFromString .rapidyaml Yaml.flat (fun _ => some 500) legacyText =
      some legacyEntry := by decide
  exact ⟨hback bobEntry _ (by decide) (by decide) (by decide),
    (hlegacy legacyText legacyEntry _ _ hread (by decide) (by decide)).1⟩

end DBEntryV1

end HpcWorkspace
