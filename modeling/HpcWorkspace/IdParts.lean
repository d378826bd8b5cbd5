import HpcWorkspace.World

/-!
# Owner and name in an id

An id is `<user>-<name>` with dashes allowed on both sides, so what stands before a dash need not be
the owner. `getOwner` goes through the dashes from the last one back and takes the first part that is
an existing user, or, when there is none, what stands before the first dash. `getID` gives the rest; it
looks for users only when there is more than one dash. Both always split the id at the same dash.
-/

namespace HpcWorkspace

open Dashed (Before Longest before_take length_take_of_getElem?)

/-! ## Positions in a string -/

namespace Str

/-- `s.find(c)`; `none` is `npos`. -/
def find (s : Str) (c : Char) : Option ℕ := s.findIdx? (· == c)

/-- `s.find_last_of(c, pos)` -/
def findLastOf (s : Str) (c : Char) : ℕ → Option ℕ
  | 0 => if s[0]? = some c then some 0 else none
  | pos + 1 => if s[pos + 1]? = some c then some (pos + 1) else findLastOf s c pos

/-- `s.substr(pos)`; `none` is `out_of_range`. -/
def substr (s : Str) (pos : ℕ) : Option Str := if pos ≤ s.length then some (s.drop pos) else none

variable {s : Str} {c : Char} {pos d : ℕ}

theorem find_eq_some (h : find s c = some d) : s[d]? = some c ∧ c ∉ s.take d := by
  obtain ⟨hlt, hd, hfirst⟩ := List.findIdx?_eq_some_iff_getElem.mp h
  refine ⟨List.getElem?_eq_some_iff.mpr ⟨hlt, beq_iff_eq.mp hd⟩, fun hmem => ?_⟩
  obtain ⟨e, he, heq⟩ := List.mem_iff_getElem.mp hmem
  rw [List.length_take] at he
  rw [List.getElem_take] at heq
  exact hfirst e (by omega) (beq_iff_eq.mpr heq)

theorem find_eq_none (h : find s c = none) : c ∉ s := fun hmem =>
  absurd (List.findIdx?_eq_none_iff.mp h c hmem) (by rw [beq_self_eq_true]; exact Bool.noConfusion)

/-- What is found is the last one up to the position. -/
theorem findLastOf_eq_some (h : findLastOf s c pos = some d) :
    d ≤ pos ∧ s[d]? = some c ∧ ∀ e, d < e → e ≤ pos → s[e]? ≠ some c := by
  induction pos with
  | zero =>
    rw [findLastOf] at h
    split at h
    · rename_i hc
      obtain rfl := Option.some.inj h
      exact ⟨Nat.le_refl _, hc, fun e hlt hle => absurd hlt (by omega)⟩
    · cases h
  | succ pos ih =>
    rw [findLastOf] at h
    split at h
    · rename_i hc
      obtain rfl := Option.some.inj h
      exact ⟨Nat.le_refl _, hc, fun e hlt hle => absurd hlt (by omega)⟩
    · rename_i hno
      obtain ⟨hle, hc, hafter⟩ := ih h
      refine ⟨by omega, hc, fun e hlt hle' => ?_⟩
      rcases Nat.lt_or_eq_of_le hle' with hlt' | rfl
      · exact hafter e hlt (by omega)
      · exact hno

theorem findLastOf_eq_none (h : findLastOf s c pos = none) : ∀ e, e ≤ pos → s[e]? ≠ some c := by
  induction pos with
  | zero =>
    rw [findLastOf] at h
    split at h
    · cases h
    · rename_i hno
      intro e he
      rwa [Nat.le_zero.mp he]
  | succ pos ih =>
    rw [findLastOf] at h
    split at h
    · cases h
    · rename_i hno
      intro e he
      rcases Nat.lt_or_eq_of_le he with hlt | rfl
      · exact ih h e (by omega)
      · exact hno

end Str

/-! ## `getOwner` and `getID` -/

section Source

variable (user_exists : Str → Bool) (wsid : Str)

/-- The loop of `getOwner`, at a dash; `none` if it ends without an owner. -/
def ownerLoop (current_dash : ℕ) : Option Str :=
  let candidate := wsid.take current_dash
  if user_exists candidate then some candidate
  else if current_dash = 0 then none
  else
    match _hnext : Str.findLastOf wsid '-' (current_dash - 1) with
    | none => none
    | some next_dash => ownerLoop next_dash
termination_by current_dash
decreasing_by
  have hle := (Str.findLastOf_eq_some _hnext).1
  omega

/-- `utils::getOwner` -/
def getOwner : Str :=
  match Str.find wsid '-' with
  | none => []
  | some pos =>
    -- without a position the search starts at the end
    match Str.findLastOf wsid '-' wsid.length with
    | none => wsid.take pos
    | some current_dash => (ownerLoop user_exists wsid current_dash).getD (wsid.take pos)

/-- `utils::getID`; `none` is the exception of `substr`. -/
def getID : Option Str :=
  if wsid.count '-' = 1 then
    match Str.findLastOf wsid '-' wsid.length with
    | none => some []
    | some last_dash => Str.substr wsid (last_dash + 1)
  else Str.substr wsid ((getOwner user_exists wsid).length + 1)

end Source

/-! ## The owner -/

section Owner

variable {user_exists : Str → Bool} {wsid : Str}

/-- What `getOwner` is for: the longest part before a dash that is an existing user; when there is
none, the part before the first dash. -/
inductive IsOwner (user_exists : Str → Bool) (wsid : Str) : Str → Prop where
  /-- an existing user -/
  | user {owner : Str} (h : Longest (user_exists · = true) '-' wsid (some owner)) :
      IsOwner user_exists wsid owner
  /-- no user exists -/
  | first {owner : Str} (h : Longest (user_exists · = true) '-' wsid none)
      (hbefore : Before '-' wsid owner) (hfirst : '-' ∉ owner) : IsOwner user_exists wsid owner

/-- The owner stands before a dash. -/
theorem IsOwner.before {owner : Str} (h : IsOwner user_exists wsid owner) :
    Before '-' wsid owner := by
  cases h with
  | user h =>
    cases h with
    | found ha => exact ha
  | first h hbefore => exact hbefore

/-- There is only one. -/
theorem IsOwner.unique {owner owner' : Str} (h : IsOwner user_exists wsid owner)
    (h' : IsOwner user_exists wsid owner') : owner = owner' := by
  cases h with
  | user h =>
    cases h' with
    | user h' => exact Option.some.inj (h.unique h')
    | first h' => cases h.unique h'
  | first h hbefore hfirst =>
    cases h' with
    | user h' => cases h.unique h'
    | first h' hbefore' hfirst' => exact hbefore.eq_of_notMem hbefore' hfirst hfirst'

/-- **The loop.** When no user stands before a later dash, it finds the longest user there is. -/
theorem longest_ownerLoop {current_dash : ℕ} (hdash : wsid[current_dash]? = some '-')
    (hlater : ∀ a, Before '-' wsid a → user_exists a = true → a.length ≤ current_dash) :
    Longest (user_exists · = true) '-' wsid (ownerLoop user_exists wsid current_dash) := by
  induction current_dash using Nat.strong_induction_on with
  | _ current_dash ih =>
    have hlen := length_take_of_getElem? hdash
    rw [ownerLoop]
    split
    · rename_i hexists
      refine .found (before_take hdash) hexists fun a ha hP => ?_
      rw [hlen]
      exact hlater a ha hP
    rename_i hno
    -- what is left stands before an earlier dash
    have hearlier : ∀ a, Before '-' wsid a → user_exists a = true → a.length < current_dash := by
      intro a ha hP
      rcases Nat.lt_or_eq_of_le (hlater a ha hP) with hlt | heq
      · exact hlt
      · rw [ha.eq_of_length (before_take hdash) (heq.trans hlen.symm)] at hP
        exact absurd hP hno
    split
    · rename_i hzero
      exact .none fun a ha hP => absurd (hearlier a ha hP) (by omega)
    split
    · rename_i hnext
      refine .none fun a ha hP => Str.findLastOf_eq_none hnext a.length ?_ ha.getElem?.1
      have hlt := hearlier a ha hP
      omega
    · rename_i hpos next_dash hnext
      obtain ⟨hle, hdash', hafter⟩ := Str.findLastOf_eq_some hnext
      refine ih next_dash (by omega) hdash' fun a ha hP => ?_
      by_contra hgt
      have hlt := hearlier a ha hP
      exact hafter a.length (by omega) (by omega) ha.getElem?.1

/-- The search for the last dash finds one. -/
theorem findLastOf_length (h : '-' ∈ wsid) : ∃ last_dash,
    Str.findLastOf wsid '-' wsid.length = some last_dash ∧ wsid[last_dash]? = some '-' ∧
      ∀ a, Before '-' wsid a → a.length ≤ last_dash := by
  cases hlast : Str.findLastOf wsid '-' wsid.length with
  | none =>
    obtain ⟨d, hd⟩ := List.mem_iff_getElem?.mp h
    have hlt := (List.getElem?_eq_some_iff.mp hd).1
    exact absurd hd (Str.findLastOf_eq_none hlast d (by omega))
  | some last_dash =>
    obtain ⟨-, hdash, hafter⟩ := Str.findLastOf_eq_some hlast
    refine ⟨last_dash, rfl, hdash, fun a ha => ?_⟩
    by_contra hgt
    have hlen := ha.length_lt
    exact hafter a.length (by omega) (by omega) ha.getElem?.1

/-- **`getOwner`** gives the owner. -/
theorem isOwner_getOwner (user_exists : Str → Bool) (h : '-' ∈ wsid) :
    IsOwner user_exists wsid (getOwner user_exists wsid) := by
  obtain ⟨last_dash, hlast, hdash, hlater⟩ := findLastOf_length h
  have hloop := longest_ownerLoop hdash fun a ha (_ : user_exists a = true) => hlater a ha
  cases hpos : Str.find wsid '-' with
  | none => exact absurd h (Str.find_eq_none hpos)
  | some pos =>
    obtain ⟨hfirst, hno⟩ := Str.find_eq_some hpos
    rw [getOwner, hpos]
    dsimp only
    rw [hlast]
    dsimp only
    cases hfound : ownerLoop user_exists wsid last_dash with
    | none => exact .first (hfound ▸ hloop) (before_take hfirst) hno
    | some owner => exact .user (hfound ▸ hloop)

/-! ## The name -/

/-- With one dash, what stands before it is the owner. -/
theorem length_eq_of_count {a b : Str} (hcount : wsid.count '-' = 1) (ha : Before '-' wsid a)
    (hb : Before '-' wsid b) : a = b := by
  have hno : ∀ {a}, Before '-' wsid a → '-' ∉ a := by
    rintro a ⟨r, rfl⟩
    rw [List.count_append, List.count_cons_self] at hcount
    exact List.count_eq_zero.mp (by omega)
  exact ha.eq_of_notMem hb (hno ha) (hno hb)

/-- Behind a first word there is something to take. -/
theorem substr_of_before {a : Str} (h : Before '-' wsid a) :
    Str.substr wsid (a.length + 1) = some (wsid.drop (a.length + 1)) := if_pos h.length_lt

/-- `getID` gives what stands behind the owner, also where it does not look for it. -/
theorem getID_eq (user_exists : Str → Bool) (h : '-' ∈ wsid) :
    getID user_exists wsid = some (wsid.drop ((getOwner user_exists wsid).length + 1)) := by
  have howner := (isOwner_getOwner user_exists h).before
  rw [getID]
  split
  · rename_i hcount
    obtain ⟨last_dash, hlast, hdash, -⟩ := findLastOf_length h
    have hlen := length_take_of_getElem? hdash
    rw [hlast, length_eq_of_count hcount howner (before_take hdash), hlen]
    have hsubstr := substr_of_before (before_take hdash)
    rw [hlen] at hsubstr
    exact hsubstr
  · exact substr_of_before howner

/-- Without a dash there is no owner. -/
theorem getOwner_of_notMem (user_exists : Str → Bool) (h : '-' ∉ wsid) :
    getOwner user_exists wsid = [] := by
  cases hpos : Str.find wsid '-' with
  | none => rw [getOwner, hpos]
  | some pos => exact absurd (List.mem_of_getElem? (Str.find_eq_some hpos).1) h

/-- The only string for which `getID` throws is the empty one. -/
theorem getID_eq_none_iff (user_exists : Str → Bool) : getID user_exists wsid = none ↔ wsid = [] := by
  by_cases h : '-' ∈ wsid
  · rw [getID_eq user_exists h]
    refine iff_of_false (fun hnone => (by cases hnone)) ?_
    rintro rfl
    cases h
  · have hcount : wsid.count '-' ≠ 1 := by
      rw [List.count_eq_zero.mpr h]
      exact Nat.zero_ne_one
    rw [getID, if_neg hcount, getOwner_of_notMem user_exists h, Str.substr]
    cases wsid with
    | nil => exact iff_of_true rfl rfl
    | cons c cs => exact iff_of_false (fun hnone => (by cases hnone)) (List.cons_ne_nil _ _)

/-- **Owner and name.** For every id with a dash and whatever users exist, `getOwner` gives the longest
part before a dash that is a user, or else the part before the first dash, and `getID` gives the rest
without an exception. -/
theorem getOwner_getID (user_exists : Str → Bool) (wsid : Str) (h : '-' ∈ wsid) :
    IsOwner user_exists wsid (getOwner user_exists wsid) ∧
      ∃ name, getID user_exists wsid = some name ∧
        getOwner user_exists wsid ++ '-' :: name = wsid := by
  have howner := isOwner_getOwner user_exists h
  exact ⟨howner, _, getID_eq user_exists h, howner.before.append_drop⟩

end Owner

/-- `root` exists; `root-a` and `root-a-b` do not. -/
theorem getOwner_getID_root :
    getOwner (· == "root".toList) "root-a-b".toList = "root".toList ∧
      getID (· == "root".toList) "root-a-b".toList = some "a-b".toList := by
  obtain ⟨howner, name, hname, heq⟩ :=
    getOwner_getID (· == "root".toList) "root-a-b".toList (by decide)
  have hroot : IsOwner (· == "root".toList) "root-a-b".toList "root".toList :=
    .user (.found ⟨"a-b".toList, rfl⟩ rfl fun a _ hP => by rw [eq_of_beq hP])
  have hsame := howner.unique hroot
  rw [hsame] at heq
  obtain rfl := (List.cons.inj (List.append_cancel_left heq)).2
  exact ⟨hsame, hname⟩

/-! ## What `ws_list` shows -/

/-- `DBEntryV1::getUsername`: legacy entries do not have the field. -/
def getUsername (user_exists : Str → Bool) (id : Str) (e : DBEntry) : Str :=
  if e.username ≠ [] then e.username else getOwner user_exists id

/-- `getMaskedID`, for a user; `none` is an exception. -/
def getMaskedID (user_exists : Str → Bool) (config : Config) (user id : Str) (e : DBEntry) :
    Option Str :=
  if config.global.admins.contains user then some id
  else
    let owner := getUsername user_exists id e
    if owner ≠ [] ∧ id.length > owner.length + 1 ∧ id.take owner.length = owner ∧
        id[owner.length]? = some '-' then
      Str.substr id (owner.length + 1)
    else getID user_exists id

/-- **The listing.** Other users than admins see the name of a workspace: with the owner, a dash and
what is shown comes the id, for entries that know their owner as for those of which it is guessed. -/
theorem getMaskedID_eq {config : Config} {user id : Str} {e : DBEntry} (user_exists : Str → Bool)
    (hadmin : config.global.admins.contains user = false)
    (hid : (e.username = [] ∧ '-' ∈ id) ∨ ∃ name, name ≠ [] ∧ id = wsid e.username name) :
    ∃ name, getMaskedID user_exists config user id e = some name ∧
      wsid (getUsername user_exists id e) name = id := by
  have hno : ¬config.global.admins.contains user = true := by
    rw [hadmin]
    exact Bool.false_ne_true
  have hbefore : Before '-' id (getUsername user_exists id e) := by
    rw [getUsername]
    split
    · rename_i hname
      rcases hid with ⟨hlegacy, -⟩ | ⟨name, -, hid⟩
      · exact absurd hlegacy hname
      · exact ⟨name, hid⟩
    · rename_i hlegacy
      rcases hid with ⟨-, hdash⟩ | ⟨name, -, rfl⟩
      · exact (isOwner_getOwner user_exists hdash).before
      · exact (isOwner_getOwner user_exists (List.mem_append_right _ (List.mem_cons_self ..))).before
  refine ⟨_, ?_, hbefore.append_drop⟩
  rw [getMaskedID, if_neg hno]
  dsimp only
  split
  · exact substr_of_before hbefore
  rename_i hguess
  have hdash : '-' ∈ id := by
    obtain ⟨rest, heq⟩ := hbefore
    rw [heq]
    exact List.mem_append_right _ (List.mem_cons_self ..)
  have hguessed : getUsername user_exists id e = getOwner user_exists id := by
    rw [getUsername]
    refine if_neg fun hname => ?_
    rcases hid with ⟨hlegacy, -⟩ | ⟨name, hne, hid⟩
    · exact hname hlegacy
    · -- the owner is known and a name follows
      refine hguess ⟨?_, ?_, hbefore.getElem?.2, hbefore.getElem?.1⟩
      · rwa [getUsername, if_pos hname]
      · rw [getUsername, if_pos hname, hid, wsid, List.length_append, List.length_cons]
        have hpos := List.length_pos_of_ne_nil hne
        omega
  rw [hguessed]
  exact getID_eq user_exists hdash

end HpcWorkspace
