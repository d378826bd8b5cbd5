import Mathlib.Logic.Relation
import HpcWorkspace.Glob
import HpcWorkspace.Lib.Wildcards

/-!
# `glob_match` against the plain matcher

A pattern is read as a list of items, and the plain matcher tries every sequence for every star.
`glob_match` walks over two C strings with pointers; it reads a class while it matches, and goes back
to the last star only. A read outside of the strings is a fault.
-/

namespace HpcWorkspace

open Wildcards

/-! ## The syntax of patterns -/

/-- A span of a character class; a single character is a span too. -/
structure Span where
  /-- the first character -/
  first : Char
  /-- the last one -/
  last : Char

/-- Is a character in a span? -/
def Span.contains (span : Span) (c : Char) : Bool := span.first ≤ c && c ≤ span.last

/-- What stands for one character of a name. -/
inductive OneChar where
  /-- `?` -/
  | any
  /-- a character -/
  | literal (d : Char)
  /-- a class, which `!` inverts -/
  | cclass (inverted : Bool) (spans : List Span)

/-- Does it stand for this character? -/
def OneChar.accepts : OneChar → Char → Bool
  | any, _ => true
  | literal d, c => d == c
  | cclass inverted spans, c => spans.any (·.contains c) != inverted

/-- The span that begins with `a`, and what follows it. -/
def spanOf (a : Char) : Str → Span × Str
  | '-' :: b :: rest => if b = ']' then (⟨a, a⟩, '-' :: b :: rest) else (⟨a, b⟩, rest)
  | rest => (⟨a, a⟩, rest)

theorem length_spanOf (a : Char) (rest : Str) : (spanOf a rest).2.length ≤ rest.length := by
  unfold spanOf
  split
  · split
    · exact Nat.le_refl _
    · simp only [List.length_cons]
      omega
  · exact Nat.le_refl _

/-- The spans of a class, up to its `]`, and what follows it; the first span can begin with `]`.
`none` when there is no end. -/
def parseSpans (first : Bool) : Str → Option (List Span × Str)
  | [] => none
  | a :: rest =>
    if a = ']' ∧ first = false then some ([], rest)
    else (parseSpans false (spanOf a rest).2).map fun r => ((spanOf a rest).1 :: r.1, r.2)
termination_by p => p.length
decreasing_by exact Nat.lt_succ_of_le (length_spanOf a rest)

theorem length_parseSpans {first : Bool} {p : Str} {r : List Span × Str}
    (h : parseSpans first p = some r) : r.2.length ≤ p.length := by
  induction first, p using parseSpans.induct generalizing r with
  | case1 first =>
    rw [parseSpans] at h
    cases h
  | case2 first a rest hend =>
    rw [parseSpans, if_pos hend] at h
    cases h
    exact Nat.le_succ _
  | case3 first a rest hno ih =>
    rw [parseSpans, if_neg hno] at h
    obtain ⟨r, hr, rfl⟩ := Option.map_eq_some_iff.1 h
    have hspan := length_spanOf a rest
    have hrest := ih hr
    rw [List.length_cons]
    dsimp only at hrest ⊢
    omega

/-- The text of a class behind its `[` and `!`. -/
def classText (p : Str) : Str := if p.head? == some '!' then p.tail else p

/-- A class behind its `[`, and what follows it. -/
def parseClass (p : Str) : Option (OneChar × Str) :=
  (parseSpans true (classText p)).map fun r => (.cclass (p.head? == some '!') r.1, r.2)

theorem length_parseClass {p : Str} {r : OneChar × Str} (h : parseClass p = some r) :
    r.2.length ≤ p.length := by
  obtain ⟨r, hr, rfl⟩ := Option.map_eq_some_iff.1 h
  refine Nat.le_trans (length_parseSpans hr) ?_
  unfold classText
  split
  · rw [List.length_tail]
    exact Nat.sub_le _ _
  · exact Nat.le_refl _

/-- The item that begins with `d`, and what follows it. A `[` without an end stands for itself, and a
backslash at the end for nothing. -/
def itemOf (d : Char) (p : Str) : List (Item OneChar) × Str :=
  if d = '?' then ([.one .any], p)
  else if d = '*' then ([.star], p)
  else if d = '[' then
    match parseClass p with
    | none => ([.one (.literal '[')], p)
    | some (cclass, rest) => ([.one cclass], rest)
  else if d = '\\' then
    match p with
    | [] => ([], [])
    | d :: p => ([.one (.literal d)], p)
  else ([.one (.literal d)], p)

theorem length_itemOf (d : Char) (p : Str) :
    (itemOf d p).1.length ≤ 1 ∧ (itemOf d p).2.length ≤ p.length := by
  unfold itemOf
  split
  · exact ⟨Nat.le_refl _, Nat.le_refl _⟩
  split
  · exact ⟨Nat.le_refl _, Nat.le_refl _⟩
  split
  · split
    · exact ⟨Nat.le_refl _, Nat.le_refl _⟩
    · rename_i hclass
      exact ⟨Nat.le_refl _, length_parseClass hclass⟩
  split
  · split
    · exact ⟨Nat.zero_le _, Nat.le_refl _⟩
    · exact ⟨Nat.le_refl _, Nat.le_succ _⟩
  · exact ⟨Nat.le_refl _, Nat.le_refl _⟩

/-- The items of a pattern. -/
def items : Str → List (Item OneChar)
  | [] => []
  | d :: p => (itemOf d p).1 ++ items (itemOf d p).2
termination_by p => p.length
decreasing_by exact Nat.lt_succ_of_le (length_itemOf d p).2

/-- The plain matcher. -/
def plainMatch (pat str : Str) : Bool := matchesText OneChar.accepts (items pat) str

@[simp]
theorem items_nil : items [] = [] := by rw [items]

@[simp]
theorem items_any (p : Str) : items ('?' :: p) = .one .any :: items p := by
  rw [items]
  rfl

@[simp]
theorem items_star (p : Str) : items ('*' :: p) = .star :: items p := by
  rw [items]
  rfl

theorem items_malformed {p : Str} (h : parseClass p = none) :
    items ('[' :: p) = .one (.literal '[') :: items p := by
  have hitem : itemOf '[' p = ([.one (.literal '[')], p) := by
    rw [itemOf.eq_def, if_neg (by decide), if_neg (by decide), if_pos rfl, h]
  rw [items, hitem]
  rfl

theorem items_class {p rest : Str} {cclass : OneChar} (h : parseClass p = some (cclass, rest)) :
    items ('[' :: p) = .one cclass :: items rest := by
  have hitem : itemOf '[' p = ([.one cclass], rest) := by
    rw [itemOf.eq_def, if_neg (by decide), if_neg (by decide), if_pos rfl, h]
  rw [items, hitem]
  rfl

@[simp]
theorem items_quoted_end : items ['\\'] = [] := by
  rw [items]
  exact items_nil

@[simp]
theorem items_quoted (d : Char) (p : Str) :
    items ('\\' :: d :: p) = .one (.literal d) :: items p := by
  rw [items]
  rfl

theorem items_literal {d : Char} (h : isLiteral d = true) (p : Str) :
    items (d :: p) = .one (.literal d) :: items p := by
  obtain ⟨h₁, h₂, h₃, h₄⟩ := ne_of_isLiteral h
  have hitem : itemOf d p = ([.one (.literal d)], p) := by
    rw [itemOf.eq_def, if_neg h₁, if_neg h₂, if_neg h₃, if_neg h₄]
  rw [items, hitem]
  rfl

theorem length_items (p : Str) : (items p).length ≤ p.length := by
  induction p using items.induct with
  | case1 =>
    rw [items_nil]
    exact Nat.le_refl _
  | case2 d p ih =>
    have hitem := length_itemOf d p
    rw [items, List.length_append, List.length_cons]
    omega

/-! ## C strings -/

/-- The null character. -/
def nul : Char := '\x00'

/-- A string as C has it: the characters before the first null character. -/
structure CString where
  /-- the characters -/
  chars : Str
  /-- none of them is null -/
  no_nul : nul ∉ chars

namespace CString

/-- The character at a place; `none` is a read behind the end. -/
def read (s : CString) (i : ℕ) : Option Char :=
  if i = s.chars.length then some nul else s.chars[i]?

/-- What is left of a string at a place inside of it. -/
structure At (s : CString) (i : ℕ) (rest : Str) : Prop where
  /-- the place is not behind the end -/
  le : i ≤ s.chars.length
  /-- the rest of the string -/
  drop : s.chars.drop i = rest

variable {s : CString} {i : ℕ} {c : Char} {rest : Str}

theorem At.read_nil (h : s.At i []) : s.read i = some nul := by
  have hge := List.drop_eq_nil_iff.1 h.drop
  exact if_pos (Nat.le_antisymm h.le hge)

theorem At.read_cons (h : s.At i (c :: rest)) : s.read i = some c := by
  have hlt : i < s.chars.length := by
    by_contra hge
    have hnil := List.drop_eq_nil_of_le (Nat.le_of_not_lt hge)
    rw [h.drop] at hnil
    cases hnil
  rw [read, if_neg (Nat.ne_of_lt hlt), ← List.head?_drop, h.drop]
  rfl

theorem At.next (h : s.At i (c :: rest)) : s.At (i + 1) rest := by
  refine ⟨?_, ?_⟩
  · by_contra hlt
    have hnil : s.chars.drop i = [] := List.drop_eq_nil_of_le (by omega)
    rw [h.drop] at hnil
    cases hnil
  · rw [← List.drop_drop, h.drop]
    rfl

theorem At.ne_nul (h : s.At i (c :: rest)) : c ≠ nul := by
  rintro rfl
  refine s.no_nul (List.mem_of_mem_drop (i := i) ?_)
  rw [h.drop]
  exact List.mem_cons_self

theorem at_zero (s : CString) : s.At 0 s.chars := ⟨Nat.zero_le _, rfl⟩

end CString

/-! ## `glob_match` -/

/-- `pat`, `str`, `back_pat` and `back_str`, as places in the two strings. -/
structure GlobPointers where
  /-- `pat` -/
  pat : ℕ
  /-- `str` -/
  str : ℕ
  /-- `back_pat` and `back_str`; `none` is `NULL` -/
  back : Option (ℕ × ℕ)

/-- Where `glob_match` is. -/
inductive GlobState where
  /-- at the top of `for (;;)` -/
  | round (q : GlobPointers)
  /-- at the top of `do`, with `c`, `inverted`, `cclass`, `a` and `match` -/
  | span (q : GlobPointers) (c : Char) (inverted : Bool) (cclass : ℕ) (a : Char) (found : Bool)
  /-- it has returned -/
  | returned (b : Bool)

/-- `backtrack:` -/
def globBacktrack (back : Option (ℕ × ℕ)) (c : Char) : GlobState :=
  match back with
  | none => .returned false
  | some (back_pat, back_str) =>
    if c = nul then .returned false
    else .round ⟨back_pat, back_str + 1, some (back_pat, back_str + 1)⟩

/-- `literal:` -/
def globLiteral (q : GlobPointers) (c d : Char) : GlobState :=
  if c = d then (if d = nul then .returned true else .round q) else globBacktrack q.back c

/-- The condition of the loop over the spans, and what follows the loop; `a` is read already. -/
def globSpanEnd (q : GlobPointers) (c : Char) (inverted : Bool) (cclass : ℕ) (a : Char)
    (found : Bool) : GlobState :=
  if a = ']' then
    if found = inverted then globBacktrack q.back c else .round { q with pat := cclass }
  else .span q c inverted cclass a found

/-- One step of `glob_match`: a round, or a span of a class. `none` is a read outside of the
strings. -/
def globStep (pat str : CString) : GlobState → Option GlobState
  | .round q => do
    let c ← str.read q.str
    let d ← pat.read q.pat
    let next : GlobPointers := { q with pat := q.pat + 1, str := q.str + 1 }
    if d = '?' then some (if c = nul then .returned false else .round next)
    else if d = '*' then
      let x ← pat.read (q.pat + 1)
      some <|
        if x = nul then .returned true
        else .round { q with pat := q.pat + 1, back := some (q.pat + 1, q.str) }
    else if d = '[' then
      if c = nul then some (.returned false)
      else
        let x ← pat.read (q.pat + 1)
        let inverted := x == '!'
        let cclass := if inverted then q.pat + 2 else q.pat + 1
        let a ← pat.read cclass
        some (.span next c inverted (cclass + 1) a false)
    else if d = '\\' then
      let d ← pat.read (q.pat + 1)
      some (globLiteral { next with pat := q.pat + 2 } c d)
    else some (globLiteral next c d)
  | .span q c inverted cclass a found =>
    if a = nul then some (globLiteral q c '[')
    else do
      let x ← pat.read cclass
      if x = '-' then
        let b ← pat.read (cclass + 1)
        if b = ']' then
          some (globSpanEnd q c inverted (cclass + 1) x (found || (⟨a, a⟩ : Span).contains c))
        else if b = nul then some (globLiteral q c '[')
        else
          let y ← pat.read (cclass + 2)
          some (globSpanEnd q c inverted (cclass + 3) y (found || (⟨a, b⟩ : Span).contains c))
      else some (globSpanEnd q c inverted (cclass + 1) x (found || (⟨a, a⟩ : Span).contains c))
  | .returned b => some (.returned b)

/-- A state leads to another one, without a fault. -/
def GlobReaches (pat str : CString) : GlobState → GlobState → Prop :=
  Relation.ReflTransGen fun st st' => globStep pat str st = some st'

/-- A call that has returned is over. -/
theorem GlobReaches.eq_returned {pat str : CString} {b : Bool} {st : GlobState}
    (h : GlobReaches pat str (.returned b) st) : st = .returned b := by
  induction h with
  | refl => rfl
  | tail _ hstep ih =>
    subst ih
    exact (Option.some.inj hstep).symm

/-- The call. -/
def globStart : GlobState := .round ⟨0, 0, none⟩

/-! ## The pointers and the walk -/

section

variable {pat str : CString} {q : GlobPointers} {w : Walk OneChar Char}

/-- Where there is something left to read; the end reads as null. -/
def headOrNul (rest : Str) : Char := rest.head?.getD nul

theorem headOrNul_cons (c : Char) (rest : Str) : headOrNul (c :: rest) = c := rfl

theorem CString.At.read {s : CString} {i : ℕ} {rest : Str} (h : s.At i rest) :
    s.read i = some (headOrNul rest) := by
  cases rest with
  | nil => exact h.read_nil
  | cons c rest => exact h.read_cons

/-- The state the loop over the spans begins with, or goes on with. -/
def spansFrom (first : Bool) (q : GlobPointers) (c : Char) (inverted : Bool) (cclass : ℕ) (p : Str)
    (found : Bool) : GlobState :=
  if first then .span q c inverted cclass (headOrNul p) found
  else globSpanEnd q c inverted cclass (headOrNul p) found

variable (str) in
/-- A round of the loop takes one span, or meets the end of the pattern in it. -/
theorem globStep_span (q : GlobPointers) (c : Char) (inverted : Bool) {k : ℕ} {a : Char} {rest : Str}
    (h : pat.At k (a :: rest)) (found : Bool) :
    (∃ j, pat.At j (spanOf a rest).2 ∧
        globStep pat str (.span q c inverted (k + 1) a found) =
          some (spansFrom false q c inverted (j + 1) (spanOf a rest).2
            (found || (spanOf a rest).1.contains c))) ∨
      parseSpans false (spanOf a rest).2 = none ∧
        globStep pat str (.span q c inverted (k + 1) a found) = some (globLiteral q c '[') := by
  have hstep : ∀ x, pat.read (k + 1) = some x → x ≠ '-' →
      globStep pat str (.span q c inverted (k + 1) a found) =
        some (globSpanEnd q c inverted (k + 2) x (found || (⟨a, a⟩ : Span).contains c)) := by
    intro x hx hdash
    simp only [globStep, if_neg h.ne_nul, hx, Option.bind_eq_bind, Option.bind_some, if_neg hdash]
  cases rest with
  | nil => exact Or.inl ⟨k + 1, h.next, hstep nul h.next.read_nil (by decide)⟩
  | cons x rest =>
    by_cases hdash : x = '-'
    · subst hdash
      have hx := h.next.read_cons
      cases rest with
      | nil =>
        refine Or.inr ⟨?_, ?_⟩
        · simp [spanOf, parseSpans]
        · simp only [globStep, if_neg h.ne_nul, hx, h.next.next.read_nil, Option.bind_eq_bind,
            Option.bind_some, if_true]
          rfl
      | cons b rest =>
        have hb := h.next.next.read_cons
        have hspan : spanOf a ('-' :: b :: rest) =
            if b = ']' then (⟨a, a⟩, '-' :: b :: rest) else (⟨a, b⟩, rest) := rfl
        by_cases hend : b = ']'
        · rw [hspan, if_pos hend]
          refine Or.inl ⟨k + 1, h.next, ?_⟩
          simp only [globStep, if_neg h.ne_nul, hx, hb, Option.bind_eq_bind, Option.bind_some,
            if_true, if_pos hend]
          rfl
        · rw [hspan, if_neg hend]
          refine Or.inl ⟨k + 3, h.next.next.next, ?_⟩
          simp only [globStep, if_neg h.ne_nul, hx, hb, h.next.next.next.read, Option.bind_eq_bind,
            Option.bind_some, if_true, if_neg hend, if_neg h.next.next.ne_nul]
          rfl
    · have hspan : spanOf a (x :: rest) = (⟨a, a⟩, x :: rest) := by
        rw [spanOf.eq_def]
        split
        · rename_i heq
          exact absurd (List.head_eq_of_cons_eq heq) hdash
        · rfl
      rw [hspan]
      exact Or.inl ⟨k + 1, h.next, hstep x h.next.read_cons hdash⟩

/-- What follows the loop over the spans. -/
def classEnd (q : GlobPointers) (c : Char) (inverted : Bool) (cclass : ℕ) (found : Bool) :
    GlobState :=
  if found = inverted then globBacktrack q.back c else .round { q with pat := cclass }

variable (str) in
/-- The loop over the spans reads them as they are parsed. -/
theorem reaches_spans (q : GlobPointers) (c : Char) (inverted first : Bool) {p : Str} {k : ℕ}
    (h : pat.At k p) (found : Bool) :
    (parseSpans first p = none → GlobReaches pat str
      (spansFrom first q c inverted (k + 1) p found) (globLiteral q c '[')) ∧
    ∀ r, parseSpans first p = some r → ∃ j, pat.At j r.2 ∧ GlobReaches pat str
      (spansFrom first q c inverted (k + 1) p found)
      (classEnd q c inverted j (found || r.1.any (·.contains c))) := by
  induction first, p using parseSpans.induct generalizing k found with
  | case1 first =>
    have hspans : spansFrom first q c inverted (k + 1) [] found =
        .span q c inverted (k + 1) nul found := by
      cases first <;> rfl
    rw [hspans, parseSpans]
    refine ⟨fun _ => .single ?_, fun r hr => by cases hr⟩
    simp only [globStep, if_true]
  | case2 first a rest hend =>
    obtain ⟨rfl, rfl⟩ := hend
    rw [parseSpans, if_pos ⟨rfl, rfl⟩]
    refine ⟨fun hnone => absurd hnone (Option.some_ne_none _), fun r hr => ?_⟩
    cases hr
    refine ⟨k + 1, h.next, ?_⟩
    rw [List.any_nil, Bool.or_false]
    exact .refl
  | case3 first a rest hno ih =>
    have hspans : spansFrom first q c inverted (k + 1) (a :: rest) found =
        .span q c inverted (k + 1) a found := by
      cases first with
      | true => rfl
      | false => exact if_neg fun ha => hno ⟨ha, rfl⟩
    rw [hspans, parseSpans, if_neg hno]
    rcases globStep_span str q c inverted h found with ⟨j, hj, hstep⟩ | ⟨hnone, hstep⟩
    · obtain ⟨ihnone, ihsome⟩ := ih hj (found || (spanOf a rest).1.contains c)
      refine ⟨fun h => ?_, fun r hr => ?_⟩
      · exact .head hstep (ihnone (Option.map_eq_none_iff.1 h))
      · obtain ⟨r, hparse, rfl⟩ := Option.map_eq_some_iff.1 hr
        obtain ⟨j', hj', hreach⟩ := ihsome r hparse
        refine ⟨j', hj', .head hstep ?_⟩
        rw [List.any_cons, ← Bool.or_assoc]
        exact hreach
    · rw [hnone]
      exact ⟨fun _ => .single hstep, fun r hr => by cases hr⟩

/-- `back_pat` and `back_str` against the place a walk can come back to. -/
inductive FollowsBack (pat str : CString) :
    Option (ℕ × ℕ) → Option (List (Item OneChar) × Str) → Prop where
  /-- there was no star -/
  | none : FollowsBack pat str .none .none
  /-- behind the last star -/
  | some {i j : ℕ} {p xs : Str} (hpat : pat.At i p) (hstr : str.At j xs) :
      FollowsBack pat str (.some (i, j)) (.some (items p, xs))

/-- The pointers are where a walk is. -/
structure Follows (pat str : CString) (q : GlobPointers) (w : Walk OneChar Char) : Prop where
  /-- `pat` -/
  items : ∃ p, pat.At q.pat p ∧ w.items = items p
  /-- `str` -/
  text : str.At q.str w.text
  /-- `back_pat` and `back_str` -/
  back : FollowsBack pat str q.back w.back

/-- From a state the call goes on as a walk can. -/
inductive Progress (pat str : CString) (st : GlobState) (w : Walk OneChar Char) : Prop where
  /-- both end -/
  | stops {b : Bool} (stops : w.Stops OneChar.accepts b)
      (reaches : GlobReaches pat str st (.returned b))
  /-- both go on -/
  | next {w' : Walk OneChar Char} {q : GlobPointers} (next : w.Next OneChar.accepts w')
      (follows : Follows pat str q w') (reaches : GlobReaches pat str st (.round q))

theorem Progress.head {st st' : GlobState} (h : Progress pat str st' w)
    (hreach : GlobReaches pat str st st') : Progress pat str st w := by
  cases h with
  | stops stops reaches => exact .stops stops (hreach.trans reaches)
  | next next follows reaches => exact .next next follows (hreach.trans reaches)

/-- After a mismatch. -/
theorem progress_backtrack {its : List (Item OneChar)} {c : Char} {xs : Str} {back : Option (ℕ × ℕ)}
    {wback : Option (List (Item OneChar) × Str)} (hc : c ≠ nul)
    (hmismatch : Mismatch OneChar.accepts its c) (hback : FollowsBack pat str back wback)
    (hw : Walk.Wf ⟨its, c :: xs, wback⟩) :
    Progress pat str (globBacktrack back c) ⟨its, c :: xs, wback⟩ := by
  cases hback with
  | none => exact .stops (.mismatch hmismatch) .refl
  | @some i j p ys hpat hstr =>
    obtain ⟨y, ys, rfl⟩ := hw.exists_cons
    refine .next (.retry hmismatch)
      (q := ⟨i, j + 1, some (i, j + 1)⟩) ⟨⟨p, hpat, rfl⟩, hstr.next, .some hpat hstr.next⟩ ?_
    rw [globBacktrack, if_neg hc]
    exact .refl

/-- At the end of the pattern. -/
theorem progress_end (hitems : w.items = []) (hback : FollowsBack pat str q.back w.back)
    (htext : ∀ c xs, w.text = c :: xs → c ≠ nul) (hw : w.Wf) :
    Progress pat str (globLiteral q (headOrNul w.text) nul) w := by
  obtain ⟨its, text, wback⟩ := w
  dsimp only at hitems
  subst hitems
  cases text with
  | nil => exact .stops .matched .refl
  | cons c xs =>
    have hc := htext c xs rfl
    rw [globLiteral, headOrNul_cons, if_neg hc]
    exact progress_backtrack hc (Or.inl rfl) hback hw

/-- At a character that stands for itself. -/
theorem progress_literal {d : Char} {p text : Str} {wback : Option (List (Item OneChar) × Str)}
    (hd : d ≠ nul) (hpat : pat.At q.pat p) (hback : FollowsBack pat str q.back wback)
    {i : ℕ} (htext : str.At i text) (hstr : q.str = i + 1)
    (hw : Walk.Wf ⟨.one (.literal d) :: items p, text, wback⟩) :
    Progress pat str (globLiteral q (headOrNul text) d)
      ⟨.one (.literal d) :: items p, text, wback⟩ := by
  cases text with
  | nil =>
    have hfalse : globLiteral q nul d = .returned false := by
      rw [globLiteral, if_neg hd.symm, globBacktrack.eq_def]
      split
      · rfl
      · exact if_pos rfl
    exact .stops .short (hfalse ▸ .refl)
  | cons c xs =>
    have hc := htext.ne_nul
    rw [globLiteral, headOrNul_cons]
    by_cases heq : c = d
    · subst heq
      rw [if_pos rfl, if_neg hc]
      exact .next (.accept (beq_self_eq_true c))
        ⟨⟨p, hpat, rfl⟩, hstr ▸ htext.next, hback⟩ .refl
    · rw [if_neg heq]
      exact progress_backtrack hc
        (Or.inr ⟨_, _, rfl, beq_eq_false_iff_ne.2 fun h => heq h.symm⟩) hback hw

/-- Behind a class. -/
theorem progress_class {c : Char} {rest xs : Str} {wback : Option (List (Item OneChar) × Str)}
    (inverted : Bool) (spans : List Span) {i j : ℕ} (hpat : pat.At j rest)
    (hback : FollowsBack pat str q.back wback) (htext : str.At i (c :: xs)) (hstr : q.str = i + 1)
    (hw : Walk.Wf ⟨.one (.cclass inverted spans) :: items rest, c :: xs, wback⟩) :
    Progress pat str (classEnd q c inverted j (spans.any (·.contains c)))
      ⟨.one (.cclass inverted spans) :: items rest, c :: xs, wback⟩ := by
  by_cases heq : spans.any (·.contains c) = inverted
  · have hno : (OneChar.cclass inverted spans).accepts c = false := bne_eq_false_iff_eq.2 heq
    rw [classEnd, if_pos heq]
    exact progress_backtrack htext.ne_nul (Or.inr ⟨_, _, rfl, hno⟩) hback hw
  · have hyes : (OneChar.cclass inverted spans).accepts c = true := bne_iff_ne.2 heq
    rw [classEnd, if_neg heq]
    exact .next (.accept hyes) (q := { q with pat := j })
      ⟨⟨rest, hpat, rfl⟩, hstr ▸ htext.next, hback⟩ .refl

/-- At a `[`. -/
theorem progress_bracket {c : Char} {p xs : Str} {wback : Option (List (Item OneChar) × Str)}
    (hp : pat.At q.pat ('[' :: p)) (hback : FollowsBack pat str q.back wback)
    (htext : str.At q.str (c :: xs)) (hw : Walk.Wf ⟨items ('[' :: p), c :: xs, wback⟩) :
    Progress pat str (.round q) ⟨items ('[' :: p), c :: xs, wback⟩ := by
  obtain ⟨inverted, hinverted⟩ : ∃ inverted, inverted = (p.head? == some '!') := ⟨_, rfl⟩
  obtain ⟨body, hbody⟩ : ∃ body, body = if inverted then p.tail else p := ⟨_, rfl⟩
  obtain ⟨k, hk⟩ : ∃ k, k = if inverted then q.pat + 2 else q.pat + 1 := ⟨_, rfl⟩
  have hfirst : (headOrNul p == '!') = inverted := by
    rw [hinverted]
    cases p with
    | nil => rfl
    | cons x p => rfl
  have hclass : parseClass p =
      (parseSpans true body).map fun r => (.cclass inverted r.1, r.2) := by
    rw [parseClass, classText, hbody, hinverted]
  have hat : pat.At k body := by
    rw [hk, hbody]
    split
    · rename_i hinv
      rw [hinverted, beq_iff_eq] at hinv
      obtain ⟨p, rfl⟩ := List.head?_eq_some_iff.1 hinv
      exact hp.next.next
    · exact hp.next
  have hstep : globStep pat str (.round q) = some
      (spansFrom true ⟨q.pat + 1, q.str + 1, q.back⟩ c inverted (k + 1) body false) := by
    simp only [globStep, htext.read_cons, hp.read_cons, hp.next.read, Option.bind_eq_bind,
      Option.bind_some, if_true, if_neg htext.ne_nul, hfirst, ← hk, hat.read]
    rfl
  obtain ⟨hnone, hsome⟩ := reaches_spans str ⟨q.pat + 1, q.str + 1, q.back⟩ c inverted
    true hat false
  cases hparse : parseSpans true body with
  | none =>
    rw [items_malformed (by rw [hclass, hparse]; rfl)] at hw ⊢
    exact (progress_literal (q := ⟨q.pat + 1, q.str + 1, q.back⟩) (by decide) hp.next hback htext rfl
      hw).head (.head hstep (hnone hparse))
  | some r =>
    obtain ⟨j, hj, hreach⟩ := hsome r hparse
    rw [items_class (by rw [hclass, hparse]; rfl)] at hw ⊢
    rw [Bool.false_or] at hreach
    exact (progress_class (q := ⟨q.pat + 1, q.str + 1, q.back⟩) inverted r.1 hj hback htext rfl
      hw).head (.head hstep hreach)

/-- A `[` stands for one character, with or without an end. -/
theorem items_bracket (p : Str) : ∃ t its, items ('[' :: p) = .one t :: its := by
  cases hclass : parseClass p with
  | none => exact ⟨_, _, items_malformed hclass⟩
  | some r => exact ⟨_, _, items_class hclass⟩

/-- **One round.** -/
theorem progress_round (hf : Follows pat str q w) (hw : w.Wf) :
    Progress pat str (.round q) w := by
  obtain ⟨its, text, wback⟩ := w
  obtain ⟨⟨p, hp, hitems⟩, htext, hback⟩ := hf
  dsimp only at hitems htext hback
  subst hitems
  have hnul : ∀ c xs, text = c :: xs → c ≠ nul := by
    rintro c xs rfl
    exact htext.ne_nul
  have hread := htext.read
  cases p with
  | nil =>
    have hstep : globStep pat str (.round q) = some
        (globLiteral ⟨q.pat + 1, q.str + 1, q.back⟩ (headOrNul text) nul) := by
      simp only [globStep, hread, hp.read_nil, Option.bind_eq_bind, Option.bind_some]
      rfl
    exact (progress_end items_nil hback hnul hw).head (.single hstep)
  | cons d p =>
    have hd := hp.read_cons
    by_cases hany : d = '?'
    · subst hany
      rw [items_any] at hw ⊢
      have hstep : globStep pat str (.round q) = some
          (if headOrNul text = nul then .returned false
            else .round ⟨q.pat + 1, q.str + 1, q.back⟩) := by
        simp only [globStep, hread, hd, Option.bind_eq_bind, Option.bind_some, if_true]
      cases text with
      | nil => exact .stops .short (.single hstep)
      | cons c xs =>
        rw [headOrNul_cons, if_neg (hnul c xs rfl)] at hstep
        exact .next (.accept rfl) (q := ⟨q.pat + 1, q.str + 1, q.back⟩)
          ⟨⟨p, hp.next, rfl⟩, htext.next, hback⟩ (.single hstep)
    by_cases hstar : d = '*'
    · subst hstar
      rw [items_star] at hw ⊢
      have hstep : globStep pat str (.round q) = some
          (if headOrNul p = nul then .returned true
            else .round ⟨q.pat + 1, q.str, some (q.pat + 1, q.str)⟩) := by
        simp only [globStep, hread, hd, hp.next.read, Option.bind_eq_bind, Option.bind_some,
          if_true, if_neg hany]
      cases p with
      | nil =>
        rw [items_nil] at hw ⊢
        exact .stops .trailing (.single hstep)
      | cons x p =>
        rw [headOrNul_cons, if_neg hp.next.ne_nul] at hstep
        exact .next .star (q := ⟨q.pat + 1, q.str, some (q.pat + 1, q.str)⟩)
          ⟨⟨_, hp.next, rfl⟩, htext, .some hp.next htext⟩ (.single hstep)
    by_cases hclass : d = '['
    · subst hclass
      cases text with
      | nil =>
        have hstep : globStep pat str (.round q) = some (.returned false) := by
          simp only [globStep, hread, hd, Option.bind_eq_bind, Option.bind_some, if_true,
            if_neg hany, if_neg hstar]
          rfl
        obtain ⟨t, its, hitems⟩ := items_bracket p
        rw [hitems]
        exact .stops .short (.single hstep)
      | cons c xs => exact progress_bracket hp hback htext hw
    by_cases hquote : d = '\\'
    · subst hquote
      have hstep : globStep pat str (.round q) = some
          (globLiteral ⟨q.pat + 2, q.str + 1, q.back⟩ (headOrNul text) (headOrNul p)) := by
        simp only [globStep, hread, hd, hp.next.read, Option.bind_eq_bind, Option.bind_some,
          if_true, if_neg hany, if_neg hstar, if_neg hclass]
      cases p with
      | nil => exact (progress_end items_quoted_end hback hnul hw).head (.single hstep)
      | cons x p =>
        rw [items_quoted] at hw ⊢
        exact (progress_literal (q := ⟨q.pat + 2, q.str + 1, q.back⟩) hp.next.ne_nul hp.next.next
          hback htext rfl hw).head (.single hstep)
    · have hstep : globStep pat str (.round q) = some
          (globLiteral ⟨q.pat + 1, q.str + 1, q.back⟩ (headOrNul text) d) := by
        simp only [globStep, hread, hd, Option.bind_eq_bind, Option.bind_some, if_neg hany,
          if_neg hstar, if_neg hclass, if_neg hquote]
      have hliteral : isLiteral d = true := by
        rw [isLiteral, bne_iff_ne.2 hany, bne_iff_ne.2 hstar, bne_iff_ne.2 hclass,
          bne_iff_ne.2 hquote]
        rfl
      rw [items_literal hliteral] at hw ⊢
      exact (progress_literal (q := ⟨q.pat + 1, q.str + 1, q.back⟩) hp.ne_nul hp.next hback htext rfl
        hw).head (.single hstep)

/-- The call ends, with what the walk ends with. -/
theorem reaches_returned (hw : w.Wf) (hf : Follows pat str q w) {b : Bool}
    (hb : b = true ↔ w.Succeeds OneChar.accepts) :
    GlobReaches pat str (.round q) (.returned b) := by
  have hrun : ∀ w : Walk OneChar Char, w.Wf →
      (∀ w', w.Next OneChar.accepts w' → w'.Wf ∧ ∀ q, Follows pat str q w' →
        (b = true ↔ w'.Succeeds OneChar.accepts) → GlobReaches pat str (.round q) (.returned b)) →
      ∀ q, Follows pat str q w → (b = true ↔ w.Succeeds OneChar.accepts) →
        GlobReaches pat str (.round q) (.returned b) := by
    intro w hw ih q hf hb
    cases progress_round hf hw with
    | @stops b' stops reaches =>
      have heq : b = b' := Bool.eq_iff_iff.2 (hb.trans (stops.succeeds_iff hw).symm)
      rw [heq]
      exact reaches
    | next next follows reaches =>
      exact reaches.trans ((ih _ next).2 _ follows (hb.trans (next.succeeds_iff hw).symm))
  exact Walk.Wf.induct OneChar.accepts hrun hw q hf hb

end

/-! ## `globMatch` -/

theorem parseSpans_cons_of_ne {x : Char} (hx : x ≠ ']') (rest : Str) :
    parseSpans false (x :: rest) = parseSpans true (x :: rest) := by
  rw [parseSpans, parseSpans, if_neg fun h => hx h.1, if_neg fun h => Bool.false_ne_true h.2.symm]

theorem parseSpans_close (rest : Str) : parseSpans false (']' :: rest) = some ([], rest) := by
  rw [parseSpans, if_pos ⟨rfl, rfl⟩]

/-- The rests of pattern and name as a walk. -/
def walkOf (pat str : Str) (back : Option (Str × Str)) : Walk OneChar Char :=
  ⟨items pat, str, back.map fun p => (items p.1, p.2)⟩

/-- A single character is in its span alone. -/
theorem contains_single (a c : Char) : (⟨a, a⟩ : Span).contains c = (a == c) := by
  rw [Span.contains, Bool.eq_iff_iff, Bool.and_eq_true, decide_eq_true_eq, decide_eq_true_eq,
    beq_iff_eq]
  exact ⟨fun h => Char.le_antisymm h.1 h.2, fun h => h ▸ ⟨Char.le_refl _, Char.le_refl _⟩⟩

/-- The first span comes off a class. -/
theorem parseSpans_true (a : Char) (rest : Str) : parseSpans true (a :: rest) =
    (parseSpans false (spanOf a rest).2).map fun r => ((spanOf a rest).1 :: r.1, r.2) := by
  rw [parseSpans, if_neg fun h => Bool.false_ne_true h.2.symm]

theorem spanOf_of_ne {a x : Char} (hx : x ≠ '-') (rest : Str) :
    spanOf a (x :: rest) = (⟨a, a⟩, x :: rest) := by
  rw [spanOf.eq_def]
  split
  · rename_i heq
    exact absurd (List.head_eq_of_cons_eq heq) hx
  · rfl

/-- What is found in the first span counts with what is found in the others. -/
theorem map_spans_cons (c : Char) (found : Bool) (span : Span) (o : Option (List Span × Str)) :
    (o.map fun r => (span :: r.1, r.2)).map (fun r => (found || r.1.any (·.contains c), r.2)) =
      o.map fun r => (found || span.contains c || r.1.any (·.contains c), r.2) := by
  cases o with
  | none => rfl
  | some r => simp [Bool.or_assoc]

/-- The spans of a class are those that are parsed. -/
theorem globClass_eq (c a : Char) (rest : Str) (found : Bool) : globClass c a rest found =
    (parseSpans true (a :: rest)).map fun r => (found || r.1.any (·.contains c), r.2) := by
  induction a, rest, found using globClass.induct c with
  | case1 a rest found ih =>
    have hspan : spanOf a ('-' :: ']' :: rest) = (⟨a, a⟩, '-' :: ']' :: rest) := rfl
    have hstep : globClass c a ('-' :: ']' :: rest) found =
        globClass c '-' (']' :: rest) (found || a == c) := by
      rw [globClass.eq_def]
      exact if_pos rfl
    rw [hstep, ih, parseSpans_true a, map_spans_cons, hspan, parseSpans_cons_of_ne (by decide),
      contains_single]
  | case2 a b found hb =>
    have hspan : spanOf a ['-', b] = (⟨a, b⟩, []) := if_neg hb
    rw [globClass, if_neg hb, parseSpans_true, hspan, parseSpans]
    rfl
  | case3 a b found hb rest =>
    have hspan : spanOf a ('-' :: b :: ']' :: rest) = (⟨a, b⟩, ']' :: rest) := if_neg hb
    rw [globClass, if_neg hb, parseSpans_true, map_spans_cons, hspan, parseSpans_close]
    simp [Span.contains]
  | case4 a b found hb x rest hx ih =>
    have hspan : spanOf a ('-' :: b :: x :: rest) = (⟨a, b⟩, x :: rest) := if_neg hb
    rw [globClass, if_neg hb, parseSpans_true, map_spans_cons, hspan, parseSpans_cons_of_ne hx]
    dsimp only
    rw [if_neg hx, ih]
    rfl
  | case5 a found =>
    rw [globClass, parseSpans_true]
    simp [spanOf, parseSpans]
  | case6 a rest found h₁ h₂ =>
    rw [globClass, if_pos rfl, parseSpans_true, map_spans_cons, spanOf_of_ne (by decide),
      parseSpans_close, contains_single]
    · simp
    · exact h₁
    · exact h₂
  | case7 a x rest found h₁ h₂ hx ih =>
    have hdash : x ≠ '-' := by
      rintro rfl
      cases rest with
      | nil => exact h₂ rfl rfl
      | cons b rest => exact h₁ b rest rfl rfl
    rw [globClass, if_neg hx, ih, parseSpans_true a, map_spans_cons, spanOf_of_ne hdash,
      parseSpans_cons_of_ne hx, contains_single]
    · exact h₁
    · exact h₂
  | case8 a found =>
    rw [globClass, parseSpans_true]
    simp [spanOf, parseSpans]

/-- How a round of `globLoop` goes on, with what it computes. -/
inductive LoopProgress (fuel : ℕ) (pat str : Str) (back : Option (Str × Str)) (out : Bool) : Prop where
  /-- both end -/
  | stops (stops : (walkOf pat str back).Stops OneChar.accepts out)
  /-- both go on -/
  | next (pat' str' : Str) (back' : Option (Str × Str))
      (next : (walkOf pat str back).Next OneChar.accepts (walkOf pat' str' back'))
      (eq : out = globLoop fuel pat' str' back')

/-- What `globLoop` does after a mismatch. -/
def loopBacktrack (fuel : ℕ) (str : Str) (back : Option (Str × Str)) : Bool :=
  match str, back with
  | [], _ => false
  | _, none => false
  | _, some (backPat, backStr) => globLoop fuel backPat backStr.tail (some (backPat, backStr.tail))

/-- What it does at a character that stands for itself, `none` for the end of the pattern. -/
def loopLiteral (fuel : ℕ) (p str : Str) (back : Option (Str × Str)) (d : Option Char) : Bool :=
  if str.head? = d then d.isNone || globLoop fuel p str.tail back else loopBacktrack fuel str back

theorem loopProgress_backtrack (fuel : ℕ) {pat xs : Str} {c : Char} {back : Option (Str × Str)}
    (hw : (walkOf pat (c :: xs) back).Wf) (hmismatch : Mismatch OneChar.accepts (items pat) c) :
    LoopProgress fuel pat (c :: xs) back (loopBacktrack fuel (c :: xs) back) := by
  cases back with
  | none => exact .stops (.mismatch hmismatch)
  | some p =>
    obtain ⟨y, ys, hys⟩ := hw.exists_cons
    obtain ⟨backPat, backStr⟩ := p
    dsimp only at hys
    subst hys
    exact .next backPat ys (some (backPat, ys)) (.retry hmismatch) rfl

theorem loopProgress_literal (fuel : ℕ) {p pat str : Str} {d : Char} {back : Option (Str × Str)}
    (hpat : items pat = .one (.literal d) :: items p) (hw : (walkOf pat str back).Wf) :
    LoopProgress fuel pat str back (loopLiteral fuel p str back (some d)) := by
  cases str with
  | nil =>
    refine .stops ?_
    rw [walkOf, hpat]
    exact .short
  | cons c xs =>
    by_cases hc : c = d
    · subst hc
      refine .next p xs back ?_ (if_pos rfl)
      rw [walkOf, hpat]
      exact .accept (beq_self_eq_true c)
    · rw [loopLiteral, List.head?_cons, if_neg fun h => hc (Option.some.inj h)]
      exact loopProgress_backtrack fuel hw
        (Or.inr ⟨_, _, hpat, beq_eq_false_iff_ne.2 fun h => hc h.symm⟩)

theorem loopProgress_end (fuel : ℕ) {pat p str : Str} {back : Option (Str × Str)}
    (hpat : items pat = []) (hw : (walkOf pat str back).Wf) :
    LoopProgress fuel pat str back (loopLiteral fuel p str back none) := by
  cases str with
  | nil =>
    refine .stops ?_
    rw [walkOf, hpat]
    exact .matched
  | cons c xs => exact loopProgress_backtrack fuel hw (Or.inl hpat)

/-- At a class: whether it takes the character decides. -/
theorem loopProgress_class (fuel : ℕ) {pat rest xs : Str} {c : Char} {back : Option (Str × Str)}
    {inverted : Bool} {spans : List Span}
    (hpat : items pat = .one (.cclass inverted spans) :: items rest)
    (hw : (walkOf pat (c :: xs) back).Wf) :
    LoopProgress fuel pat (c :: xs) back
      (if spans.any (·.contains c) = inverted then loopBacktrack fuel (c :: xs) back
        else globLoop fuel rest xs back) := by
  by_cases heq : spans.any (·.contains c) = inverted
  · have hno : (OneChar.cclass inverted spans).accepts c = false := bne_eq_false_iff_eq.2 heq
    rw [if_pos heq]
    exact loopProgress_backtrack fuel hw (Or.inr ⟨_, _, hpat, hno⟩)
  · have hyes : (OneChar.cclass inverted spans).accepts c = true := bne_iff_ne.2 heq
    rw [if_neg heq]
    refine .next rest xs back ?_ rfl
    rw [walkOf, hpat]
    exact .accept hyes

theorem globLoop_malformed (fuel : ℕ) {p xs : Str} {c : Char} {back : Option (Str × Str)}
    (h : parseSpans true (classText p) = none) :
    globLoop (fuel + 1) ('[' :: p) (c :: xs) back =
      loopLiteral fuel p (c :: xs) back (some '[') := by
  cases htext : classText p with
  | nil =>
    rw [classText] at htext
    simp only [globLoop, htext]
    cases back <;> rfl
  | cons a rest =>
    have hclass : globClass c a rest false = none := by
      rw [globClass_eq, ← htext, h]
      rfl
    rw [classText] at htext
    simp only [globLoop, htext, hclass]
    cases back <;> rfl

theorem globLoop_class (fuel : ℕ) {p xs : Str} {c : Char} {back : Option (Str × Str)}
    {r : List Span × Str} (h : parseSpans true (classText p) = some r) :
    globLoop (fuel + 1) ('[' :: p) (c :: xs) back =
      if r.1.any (·.contains c) = (p.head? == some '!') then loopBacktrack fuel (c :: xs) back
      else globLoop fuel r.2 xs back := by
  cases htext : classText p with
  | nil =>
    rw [htext, parseSpans] at h
    cases h
  | cons a rest =>
    have hclass : globClass c a rest false = some (r.1.any (·.contains c), r.2) := by
      rw [globClass_eq, ← htext, h]
      rfl
    rw [classText] at htext
    simp only [globLoop, htext, hclass]
    simp only [beq_iff_eq]
    cases back <;> rfl

/-- A round of `globLoop` goes on as a walk can. -/
theorem globLoop_round (fuel : ℕ) (pat str : Str) (back : Option (Str × Str))
    (hw : (walkOf pat str back).Wf) :
    LoopProgress fuel pat str back (globLoop (fuel + 1) pat str back) := by
  cases pat with
  | nil =>
    have hloop : globLoop (fuel + 1) [] str back = loopLiteral fuel [] str back none := by
      cases str <;> cases back <;> rfl
    rw [hloop]
    exact loopProgress_end fuel items_nil hw
  | cons d p =>
    by_cases hany : d = '?'
    · subst hany
      cases str with
      | nil =>
        refine .stops ?_
        rw [walkOf, items_any]
        exact .short
      | cons c xs =>
        refine .next p xs back ?_ rfl
        rw [walkOf, items_any]
        exact .accept rfl
    by_cases hstar : d = '*'
    · subst hstar
      cases p with
      | nil =>
        refine .stops ?_
        rw [walkOf, items_star, items_nil]
        exact .trailing
      | cons x p =>
        refine .next (x :: p) str (some (x :: p, str)) ?_ rfl
        rw [walkOf, items_star]
        exact .star
    by_cases hclass : d = '['
    · subst hclass
      cases str with
      | nil =>
        obtain ⟨t, its, hitems⟩ := items_bracket p
        refine .stops ?_
        rw [walkOf, hitems]
        exact .short
      | cons c xs =>
        cases hparse : parseSpans true (classText p) with
        | none =>
          rw [globLoop_malformed fuel hparse]
          exact loopProgress_literal fuel (items_malformed (Option.map_eq_none_iff.2 hparse)) hw
        | some r =>
          rw [globLoop_class fuel hparse]
          exact loopProgress_class fuel
            (items_class (Option.map_eq_some_iff.2 ⟨r, hparse, rfl⟩)) hw
    by_cases hquote : d = '\\'
    · subst hquote
      have hloop : globLoop (fuel + 1) ('\\' :: p) str back =
          loopLiteral fuel p.tail str back p.head? := by
        cases str <;> cases back <;> rfl
      rw [hloop]
      cases p with
      | nil => exact loopProgress_end fuel items_quoted_end hw
      | cons x p => exact loopProgress_literal fuel (items_quoted x p) hw
    · have hliteral : isLiteral d = true := by
        rw [isLiteral, bne_iff_ne.2 hany, bne_iff_ne.2 hstar, bne_iff_ne.2 hclass,
          bne_iff_ne.2 hquote]
        rfl
      have hloop : globLoop (fuel + 1) (d :: p) str back =
          loopLiteral fuel p str back (some d) := by
        rw [globLoop_cons hliteral]
        cases str <;> cases back <;> rfl
      rw [hloop]
      exact loopProgress_literal fuel (items_literal hliteral p) hw

theorem globLoop_iff {fuel : ℕ} {pat str : Str} {back : Option (Str × Str)}
    (hw : (walkOf pat str back).Wf) (hfuel : (walkOf pat str back).rank ≤ fuel) :
    globLoop fuel pat str back = true ↔ (walkOf pat str back).Succeeds OneChar.accepts := by
  induction fuel generalizing pat str back with
  | zero => exact absurd hfuel (Nat.not_le_of_lt (Walk.rank_pos _))
  | succ fuel ih =>
    cases globLoop_round fuel pat str back hw with
    | stops stops => exact stops.succeeds_iff hw
    | next pat' str' back' next heq =>
      have hlt := next.rank_lt hw
      rw [heq, ih (next.wf hw) (by omega)]
      exact next.succeeds_iff hw

/-- The model of the DB selections is the plain matcher. -/
theorem globMatch_eq_plainMatch (pat str : Str) : globMatch pat str = plainMatch pat str := by
  have hstart : walkOf pat str none = ⟨items pat, str, none⟩ := rfl
  have hrank : (walkOf pat str none).rank ≤ (pat.length + 1) * (str.length + 2) := by
    rw [hstart, Walk.rank, Nat.mul_comm (pat.length + 1)]
    exact Nat.mul_le_mul (Nat.le_succ _) (Nat.succ_le_succ (length_items pat))
  refine Bool.eq_iff_iff.2 ((globLoop_iff (Walk.Wf.start _ _) hrank).trans ?_)
  exact Walk.succeeds_start _ _

/-- **`glob_match` is the plain matcher.** For every two C strings the call returns what the plain
matcher says, and no state on its way reads outside of them. -/
theorem globMatch_exact (pat str : CString) :
    GlobReaches pat str globStart (.returned (plainMatch pat.chars str.chars)) ∧
      (∀ st, GlobReaches pat str globStart st → (globStep pat str st).isSome) ∧
      globMatch pat.chars str.chars = plainMatch pat.chars str.chars := by
  have hreturns : GlobReaches pat str globStart (.returned (plainMatch pat.chars str.chars)) :=
    reaches_returned (Walk.Wf.start (items pat.chars) str.chars)
      ⟨⟨_, pat.at_zero, rfl⟩, str.at_zero, .none⟩ (Walk.succeeds_start _ _).symm
  refine ⟨hreturns, fun st hst => ?_, globMatch_eq_plainMatch _ _⟩
  have hunique : Relator.RightUnique fun st st' => globStep pat str st = some st' :=
    fun _ _ _ h h' => Option.some.inj (h.symm.trans h')
  rcases Relation.ReflTransGen.total_of_right_unique hunique hst hreturns with h | h
  · cases h.cases_head with
    | inl heq =>
      rw [heq]
      rfl
    | inr hstep =>
      obtain ⟨st', hstep, -⟩ := hstep
      rw [hstep]
      rfl
  · rw [GlobReaches.eq_returned h]
    rfl

end HpcWorkspace
