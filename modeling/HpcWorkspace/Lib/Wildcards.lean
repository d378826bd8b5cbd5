import Mathlib.Data.List.Basic

/-!
# Wildcards

A pattern is a list of items; an item takes one symbol of the text, or is a star and takes any
sequence. `matchesText` tries every sequence for every star. A walk has only one place to come back
to, behind the last star: what an earlier star could still take, the last one can take as well. The
walk succeeds exactly when the pattern matches, and it ends.
-/

namespace Wildcards

universe u v

variable {τ : Type u} {α : Type v}

/-- An item of a pattern. -/
inductive Item (τ : Type u) where
  /-- any sequence -/
  | star
  /-- one symbol -/
  | one (t : τ)

variable (accepts : τ → α → Bool)

/-- Does the pattern match the whole text? -/
def matchesText : List (Item τ) → List α → Bool
  | [], [] => true
  | [], _ :: _ => false
  | .star :: items, [] => matchesText items []
  | .star :: items, x :: xs => matchesText items (x :: xs) || matchesText (.star :: items) xs
  | .one _ :: _, [] => false
  | .one t :: items, x :: xs => accepts t x && matchesText items xs
termination_by items xs => items.length + xs.length

variable {accepts} {t : τ} {x : α} {items : List (Item τ)} {xs : List α}

@[simp]
theorem matchesText_nil_nil : matchesText accepts [] [] = true := by rw [matchesText]

@[simp]
theorem matchesText_nil_cons : matchesText accepts [] (x :: xs) = false := by rw [matchesText]

@[simp]
theorem matchesText_one_nil : matchesText accepts (.one t :: items) [] = false := by
  rw [matchesText]

@[simp]
theorem matchesText_one_cons : matchesText accepts (.one t :: items) (x :: xs) =
    (accepts t x && matchesText accepts items xs) := by
  rw [matchesText]

/-- A star takes any sequence. -/
theorem matchesText_star : matchesText accepts (.star :: items) xs = true ↔
    ∃ pre suf, xs = pre ++ suf ∧ matchesText accepts items suf = true := by
  induction xs with
  | nil =>
    rw [matchesText]
    constructor
    · exact fun h => ⟨[], [], rfl, h⟩
    · rintro ⟨pre, suf, heq, h⟩
      rwa [(List.append_eq_nil_iff.1 heq.symm).2] at h
  | cons x xs ih =>
    rw [matchesText, Bool.or_eq_true, ih]
    constructor
    · rintro (h | ⟨pre, suf, rfl, h⟩)
      · exact ⟨[], x :: xs, rfl, h⟩
      · exact ⟨x :: pre, suf, rfl, h⟩
    · rintro ⟨pre, suf, heq, h⟩
      cases pre with
      | nil => exact Or.inl (by rwa [show x :: xs = suf from heq])
      | cons y pre =>
        obtain ⟨-, rfl⟩ := List.cons.inj heq
        exact Or.inr ⟨pre, suf, rfl, h⟩

/-- What follows items for one symbol each matches the rest of the text. -/
theorem matchesText_ones {ts : List τ} (h : matchesText accepts (ts.map .one ++ items) xs = true) :
    ∃ pre suf, xs = pre ++ suf ∧ pre.length = ts.length ∧ matchesText accepts items suf = true := by
  induction ts generalizing xs with
  | nil => exact ⟨[], xs, rfl, rfl, h⟩
  | cons t ts ih =>
    rw [List.map_cons, List.cons_append] at h
    cases xs with
    | nil =>
      rw [matchesText_one_nil] at h
      cases h
    | cons x xs =>
      rw [matchesText_one_cons, Bool.and_eq_true] at h
      obtain ⟨pre, suf, rfl, hlength, hmatches⟩ := ih h.2
      exact ⟨x :: pre, suf, rfl, congrArg Nat.succ hlength, hmatches⟩

/-! ## Walks -/

/-- The rest of pattern and text, and the place behind the last star. -/
structure Walk (τ : Type u) (α : Type v) where
  /-- the rest of the pattern -/
  items : List (Item τ)
  /-- the rest of the text -/
  text : List α
  /-- the pattern behind the last star, and the text there -/
  back : Option (List (Item τ) × List α)

/-- The items do not take the symbol. -/
def Mismatch (accepts : τ → α → Bool) (items : List (Item τ)) (x : α) : Prop :=
  items = [] ∨ ∃ t rest, items = .one t :: rest ∧ accepts t x = false

theorem Mismatch.matchesText (h : Mismatch accepts items x) :
    matchesText accepts items (x :: xs) = false := by
  rcases h with rfl | ⟨t, rest, rfl, ht⟩
  · exact matchesText_nil_cons
  · rw [matchesText_one_cons, ht, Bool.false_and]

namespace Walk

/-- A walk goes on. -/
inductive Next (accepts : τ → α → Bool) : Walk τ α → Walk τ α → Prop where
  /-- a symbol is taken -/
  | accept {t : τ} {x : α} {items : List (Item τ)} {xs : List α}
      {back : Option (List (Item τ) × List α)} (h : accepts t x = true) :
      Next accepts ⟨.one t :: items, x :: xs, back⟩ ⟨items, xs, back⟩
  /-- a star takes nothing at first -/
  | star {items : List (Item τ)} {xs : List α} {back : Option (List (Item τ) × List α)} :
      Next accepts ⟨.star :: items, xs, back⟩ ⟨items, xs, some (items, xs)⟩
  /-- the last star takes one more -/
  | retry {items backItems : List (Item τ)} {x y : α} {xs ys : List α}
      (h : Mismatch accepts items x) :
      Next accepts ⟨items, x :: xs, some (backItems, y :: ys)⟩ ⟨backItems, ys, some (backItems, ys)⟩

/-- A walk ends. -/
inductive Stops (accepts : τ → α → Bool) : Walk τ α → Bool → Prop where
  /-- pattern and text end together -/
  | matched {back : Option (List (Item τ) × List α)} : Stops accepts ⟨[], [], back⟩ true
  /-- nothing follows a star -/
  | trailing {xs : List α} {back : Option (List (Item τ) × List α)} :
      Stops accepts ⟨[.star], xs, back⟩ true
  /-- the text ends before the pattern -/
  | short {t : τ} {items : List (Item τ)} {back : Option (List (Item τ) × List α)} :
      Stops accepts ⟨.one t :: items, [], back⟩ false
  /-- there is no star to come back to -/
  | mismatch {items : List (Item τ)} {x : α} {xs : List α} (h : Mismatch accepts items x) :
      Stops accepts ⟨items, x :: xs, none⟩ false

/-- Since the last star each item took one symbol. -/
def Wf (w : Walk τ α) : Prop :=
  ∀ p ∈ w.back, ∃ (ts : List τ) (pre : List α),
    p.1 = ts.map .one ++ w.items ∧ p.2 = pre ++ w.text ∧ ts.length = pre.length

/-- The last star can take more. -/
def Later (accepts : τ → α → Bool) (w : Walk τ α) : Prop :=
  ∃ p ∈ w.back, ∃ x pre suf, p.2 = x :: (pre ++ suf) ∧ matchesText accepts p.1 suf = true

/-- The pattern matches, as the walk stands. -/
def Succeeds (accepts : τ → α → Bool) (w : Walk τ α) : Prop :=
  matchesText accepts w.items w.text = true ∨ w.Later accepts

/-- A bound on the rounds that are left. -/
def rank (w : Walk τ α) : ℕ :=
  match w.back with
  | none => (w.text.length + 1) * (w.items.length + 1)
  | some (items, text) => w.items.length + 1 + text.length * (items.length + 1)

variable {w w' : Walk τ α} {b : Bool}

theorem rank_pos (w : Walk τ α) : 0 < w.rank := by
  unfold rank
  split
  · exact Nat.mul_pos (Nat.succ_pos _) (Nat.succ_pos _)
  · omega

/-- With no star to come back to, there is only the pattern at hand. -/
theorem succeeds_start (items : List (Item τ)) (xs : List α) :
    Succeeds accepts ⟨items, xs, none⟩ ↔ matchesText accepts items xs = true := by
  constructor
  · rintro (h | ⟨p, hp, -⟩)
    · exact h
    · cases hp
  · exact Or.inl

theorem Wf.start (items : List (Item τ)) (xs : List α) : Wf ⟨items, xs, none⟩ :=
  fun _ hp => by cases hp

theorem Next.wf (h : Next accepts w w') (hw : w.Wf) : w'.Wf := by
  cases h with
  | @accept t x items xs back h =>
    intro p hp
    obtain ⟨ts, pre, hitems, htext, hlength⟩ := hw p hp
    refine ⟨ts ++ [t], pre ++ [x], ?_, ?_, ?_⟩
    · rw [hitems, List.map_append, List.append_assoc]
      rfl
    · rw [htext, List.append_assoc]
      rfl
    · rw [List.length_append, List.length_append, hlength]
      rfl
  | star =>
    intro p hp
    cases hp
    exact ⟨[], [], rfl, rfl, rfl⟩
  | retry =>
    intro p hp
    cases hp
    exact ⟨[], [], rfl, rfl, rfl⟩

theorem Next.rank_lt (h : Next accepts w w') (hw : w.Wf) : w'.rank < w.rank := by
  cases h with
  | @accept t x items xs back h =>
    cases back with
    | none =>
      simp only [rank, List.length_cons, Nat.add_mul, Nat.mul_add]
      omega
    | some p =>
      simp only [rank, List.length_cons]
      omega
  | @star items xs back =>
    cases back with
    | none =>
      simp only [rank, List.length_cons, Nat.add_mul, Nat.mul_add]
      omega
    | some p =>
      obtain ⟨ts, pre, hitems, htext, hlength⟩ := hw p rfl
      have hmore : items.length + 1 ≤ p.1.length := by
        rw [hitems, List.length_append, List.length_cons]
        omega
      have hlonger : xs.length ≤ p.2.length := by
        rw [htext, List.length_append]
        exact Nat.le_add_left _ _
      have hmul : xs.length * (items.length + 1) ≤ p.2.length * (p.1.length + 1) :=
        Nat.mul_le_mul hlonger (by omega)
      simp only [rank, List.length_cons]
      omega
  | retry h =>
    simp only [rank, List.length_cons, Nat.add_mul, Nat.one_mul]
    omega

/-- Where a star takes nothing yet, it can take all that an earlier one can. -/
theorem matchesText_star_of_later {items : List (Item τ)} {xs : List α}
    {back : Option (List (Item τ) × List α)} (hw : Wf ⟨.star :: items, xs, back⟩)
    (h : Later accepts ⟨.star :: items, xs, back⟩) :
    matchesText accepts (.star :: items) xs = true := by
  obtain ⟨p, hp, x, pre, suf, htext, hmatches⟩ := h
  obtain ⟨ts, gone, hitems, htext', hlength⟩ := hw p hp
  rw [hitems] at hmatches
  obtain ⟨ones, rest, rfl, hones, hstar⟩ := matchesText_ones hmatches
  obtain ⟨pre', suf', rfl, hsuf⟩ := matchesText_star.1 hstar
  have heq : gone ++ xs = (x :: pre ++ ones) ++ (pre' ++ suf') := by
    rw [← htext', htext, List.cons_append, List.cons_append, List.append_assoc]
  rcases List.append_eq_append_iff.1 heq with ⟨m, hgone, hxs⟩ | ⟨m, hgone, hxs⟩
  · exact matchesText_star.2 ⟨m ++ pre', suf', by rw [hxs, List.append_assoc], hsuf⟩
  · have hlong := congrArg List.length hgone
    simp only [List.length_append, List.length_cons] at hlong
    omega

theorem Next.succeeds_iff (h : Next accepts w w') (hw : w.Wf) :
    w'.Succeeds accepts ↔ w.Succeeds accepts := by
  cases h with
  | @accept t x items xs back h =>
    exact or_congr (by rw [matchesText_one_cons, h, Bool.true_and]) Iff.rfl
  | @star items xs back =>
    constructor
    · rintro (h | ⟨p, hp, x, pre, suf, htext, h⟩)
      · exact Or.inl (matchesText_star.2 ⟨[], xs, rfl, h⟩)
      · cases hp
        exact Or.inl (matchesText_star.2 ⟨x :: pre, suf, htext, h⟩)
    · intro h
      have hstar : matchesText accepts (.star :: items) xs = true :=
        h.elim id (matchesText_star_of_later hw)
      obtain ⟨pre, suf, rfl, hsuf⟩ := matchesText_star.1 hstar
      cases pre with
      | nil => exact Or.inl hsuf
      | cons x pre => exact Or.inr ⟨_, rfl, x, pre, suf, rfl, hsuf⟩
  | @retry items backItems x y xs ys h =>
    constructor
    · rintro (hnow | ⟨p, hp, z, pre, suf, htext, hlater⟩)
      · exact Or.inr ⟨_, rfl, y, [], ys, rfl, hnow⟩
      · cases hp
        exact Or.inr ⟨_, rfl, y, z :: pre, suf, congrArg (y :: ·) htext, hlater⟩
    · rintro (hnow | ⟨p, hp, z, pre, suf, htext, hlater⟩)
      · rw [h.matchesText] at hnow
        cases hnow
      · cases hp
        obtain ⟨-, hys⟩ := List.cons.inj htext
        cases pre with
        | nil =>
          refine Or.inl ?_
          rw [show ys = suf from hys]
          exact hlater
        | cons z' pre => exact Or.inr ⟨_, rfl, z', pre, suf, hys, hlater⟩

theorem Stops.succeeds_iff (h : Stops accepts w b) (hw : w.Wf) : b = true ↔ w.Succeeds accepts := by
  cases h with
  | matched => exact iff_of_true rfl (Or.inl matchesText_nil_nil)
  | @trailing xs back =>
    exact iff_of_true rfl (Or.inl (matchesText_star.2
      ⟨xs, [], (List.append_nil xs).symm, matchesText_nil_nil⟩))
  | @short t items back =>
    refine iff_of_false Bool.false_ne_true ?_
    rintro (h | ⟨p, hp, x, pre, suf, htext, h⟩)
    · rw [matchesText_one_nil] at h
      cases h
    · -- the text behind the star is too short for what took all of it before
      obtain ⟨ts, gone, hitems, htext', hlength⟩ := hw p hp
      rw [hitems] at h
      obtain ⟨ones, rest, rfl, hones, -⟩ := matchesText_ones h
      have hlong := congrArg List.length (htext.symm.trans htext')
      simp only [List.length_append, List.length_cons, List.length_nil] at hlong
      omega
  | mismatch h =>
    refine iff_of_false Bool.false_ne_true ?_
    rintro (hnow | ⟨p, hp, -⟩)
    · rw [h.matchesText] at hnow
      cases hnow
    · cases hp

/-- **Induction along a walk**: what holds of a walk when it holds of all that it can go on to holds
of every walk. -/
theorem Wf.induct (accepts : τ → α → Bool) {P : Walk τ α → Prop}
    (step : ∀ w, w.Wf → (∀ w', Next accepts w w' → w'.Wf ∧ P w') → P w) (hw : w.Wf) : P w := by
  induction hrank : w.rank using Nat.strongRecOn generalizing w with
  | ind n ih =>
    subst hrank
    exact step w hw fun w' h => ⟨h.wf hw, ih _ (h.rank_lt hw) (h.wf hw) rfl⟩

/-- Where the pattern can come back to, there is text left. -/
theorem Wf.exists_cons {items backItems : List (Item τ)} {x : α} {xs backText : List α}
    (hw : Wf ⟨items, x :: xs, some (backItems, backText)⟩) : ∃ y ys, backText = y :: ys := by
  obtain ⟨-, pre, -, htext, -⟩ := hw _ rfl
  refine List.exists_cons_of_ne_nil fun hnil => ?_
  have hnone : pre ++ x :: xs = [] := htext.symm.trans hnil
  exact absurd (List.append_eq_nil_iff.1 hnone).2 (List.cons_ne_nil _ _)

end Walk

end Wildcards
