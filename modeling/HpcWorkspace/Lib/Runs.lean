import Mathlib.Data.List.Basic

/-!
# Runs of a guarded step function

A system is a partial step function `step : σ → α → Option σ` over labels `α`: the label
says which party moves and what it reads from its surroundings, `none` says that the label
is not enabled. A run is a list of labels. `Meets step ok` says of a run that each of its
steps is taken in a state that satisfies a side condition `ok`; the invariant rules below
carry a property along every run that meets its side condition.
-/

namespace Runs

universe u v

variable {σ : Type u} {α : Type v}

/-- The state after a run, `none` if one of its labels is not enabled. -/
def exec (step : σ → α → Option σ) : σ → List α → Option σ
  | s, [] => some s
  | s, a :: as =>
    match step s a with
    | none => none
    | some s' => exec step s' as

/-- Every step of the run is taken in a state that satisfies the side condition `ok`. -/
def Meets (step : σ → α → Option σ) (ok : σ → α → Prop) : σ → List α → Prop
  | _, [] => True
  | s, a :: as => ok s a ∧ ∀ s', step s a = some s' → Meets step ok s' as

instance Meets.decidable (step : σ → α → Option σ) (ok : σ → α → Prop)
    [∀ s a, Decidable (ok s a)] : ∀ s as, Decidable (Meets step ok s as)
  | _, [] => isTrue trivial
  | s, a :: as =>
    match hs : step s a with
    | none => decidable_of_iff (ok s a) (by simp [Meets, hs])
    | some s' =>
      have := Meets.decidable step ok s' as
      decidable_of_iff (ok s a ∧ Meets step ok s' as) (by simp [Meets, hs])

variable {step : σ → α → Option σ} {ok : σ → α → Prop}

@[simp] theorem exec_nil (s : σ) : exec step s [] = some s := rfl

theorem exec_cons (s : σ) (a : α) (as : List α) :
    exec step s (a :: as) = (step s a).bind fun s' => exec step s' as := by
  rw [exec]
  cases step s a <;> rfl

/-- Inversion: a run that starts with `a` takes `a` first and runs on from there. -/
theorem exec_cons_eq_some {s s'' : σ} {a : α} {as : List α} :
    exec step s (a :: as) = some s'' ↔
      ∃ s', step s a = some s' ∧ exec step s' as = some s'' := by
  rw [exec_cons, Option.bind_eq_some_iff]

/-- Runs compose. -/
theorem exec_append (s : σ) (as bs : List α) :
    exec step s (as ++ bs) = (exec step s as).bind fun s' => exec step s' bs := by
  induction as generalizing s with
  | nil => rfl
  | cons a as ih =>
    rw [List.cons_append, exec_cons, exec_cons]
    cases step s a with
    | none => rfl
    | some s' => exact ih s'

/-- Some run leads from one state to the other. -/
def Leads (step : σ → α → Option σ) (s s' : σ) : Prop := ∃ as, exec step s as = some s'

theorem Leads.refl (s : σ) : Leads step s s := ⟨[], rfl⟩

/-- A step comes first. -/
theorem Leads.head {s s' s'' : σ} {a : α} (ha : step s a = some s') (h : Leads step s' s'') :
    Leads step s s'' := by
  obtain ⟨as, has⟩ := h
  exact ⟨a :: as, exec_cons_eq_some.mpr ⟨s', ha, has⟩⟩

theorem Leads.trans {s s' s'' : σ} (h : Leads step s s') (h' : Leads step s' s'') :
    Leads step s s'' := by
  obtain ⟨as, has⟩ := h
  obtain ⟨bs, hbs⟩ := h'
  refine ⟨as ++ bs, ?_⟩
  rw [exec_append, has]
  exact hbs

/-- A condition on the labels alone is met by every run of such labels. -/
theorem Meets.of_mem {as : List α} (h : ∀ a ∈ as, ∀ s, ok s a) (s : σ) : Meets step ok s as := by
  induction as generalizing s with
  | nil => exact trivial
  | cons a as ih =>
    exact ⟨h a (List.mem_cons_self ..) s, fun s' _ =>
      ih (fun b hb => h b (List.mem_cons_of_mem _ hb)) s'⟩

/-- A run that starts with an enabled label meets the condition when the rest of it does. -/
theorem Meets.cons {s s' : σ} {a : α} {as : List α} (h : ok s a) (ha : step s a = some s')
    (hm : Meets step ok s' as) : Meets step ok s (a :: as) := by
  refine ⟨h, fun t ht => ?_⟩
  obtain rfl := Option.some.inj (ha.symm.trans ht)
  exact hm

/-- A step of a run that meets the condition is taken in a state that satisfies it. -/
theorem Meets.of_exec {as bs : List α} {a : α} {s s' : σ} (hm : Meets step ok s (as ++ a :: bs))
    (hr : exec step s as = some s') : ok s' a := by
  induction as generalizing s with
  | nil =>
    obtain rfl := Option.some.inj hr
    exact hm.1
  | cons b as ih =>
    obtain ⟨s₁, hb, hr'⟩ := exec_cons_eq_some.mp hr
    exact ih (hm.2 s₁ hb) hr'

/-- A run that meets two conditions meets both at each step. -/
theorem Meets.and {ok' : σ → α → Prop} {as : List α} {s : σ} (h : Meets step ok s as)
    (h' : Meets step ok' s as) : Meets step (fun s a => ok s a ∧ ok' s a) s as := by
  induction as generalizing s with
  | nil => exact trivial
  | cons a as ih => exact ⟨⟨h.1, h'.1⟩, fun s' hs' => ih (h.2 s' hs') (h'.2 s' hs')⟩

/-- A run meets a condition when its first part does, and the rest from where that leads. -/
theorem meets_append {as bs : List α} {s : σ} :
    Meets step ok s (as ++ bs) ↔
      Meets step ok s as ∧ ∀ s', exec step s as = some s' → Meets step ok s' bs := by
  induction as generalizing s with
  | nil => simp [Meets]
  | cons a as ih =>
    constructor
    · rintro ⟨ha, hm⟩
      refine ⟨⟨ha, fun s' hs' => (ih.mp (hm s' hs')).1⟩, fun s'' hr => ?_⟩
      obtain ⟨s', hs', hr'⟩ := exec_cons_eq_some.mp hr
      exact (ih.mp (hm s' hs')).2 s'' hr'
    · rintro ⟨⟨ha, hm⟩, hrest⟩
      refine ⟨ha, fun s' hs' => ih.mpr ⟨hm s' hs', fun s'' hr => ?_⟩⟩
      exact hrest s'' (exec_cons_eq_some.mpr ⟨s', hs', hr⟩)

/-- **Guarded invariant rule.** What every step keeps, taken in a state that satisfies the
side condition, holds at the end of every run that meets the condition. -/
theorem Meets.invariant {Inv : σ → Prop} {as : List α} {s s'' : σ} (hm : Meets step ok s as)
    (hstep : ∀ s a s', Inv s → ok s a → step s a = some s' → Inv s') (hs : Inv s)
    (hr : exec step s as = some s'') : Inv s'' := by
  induction as generalizing s with
  | nil =>
    obtain rfl := Option.some.inj hr
    exact hs
  | cons a as ih =>
    obtain ⟨s', ha, hr'⟩ := exec_cons_eq_some.mp hr
    exact ih (hm.2 s' ha) (hstep s a s' hs hm.1 ha) hr'

/-- **Rule for conditions.** When an invariant of the steps of a kind gives a condition, a run of
such steps meets the condition. -/
theorem Meets.of_invariant {Inv : σ → Prop} {P : α → Prop} {as : List α} {s : σ}
    (hstep : ∀ s a s', Inv s → P a → step s a = some s' → Inv s')
    (hok : ∀ s a, Inv s → P a → ok s a) (hs : Inv s) (has : ∀ a ∈ as, P a) :
    Meets step ok s as := by
  induction as generalizing s with
  | nil => exact trivial
  | cons a as ih =>
    have ha := has a (List.mem_cons_self ..)
    exact ⟨hok s a hs ha, fun s' hs' => ih (hstep s a s' hs ha hs') fun b hb =>
      has b (List.mem_cons_of_mem _ hb)⟩

/-- **Rule for stronger conditions.** When an invariant of the steps that meet a condition gives a
second condition with it, a run that meets the first one meets the second one. -/
theorem Meets.imp {Inv : σ → Prop} {ok' : σ → α → Prop} {as : List α} {s : σ}
    (hm : Meets step ok s as) (hstep : ∀ s a s', Inv s → ok s a → step s a = some s' → Inv s')
    (hok : ∀ s a, Inv s → ok s a → ok' s a) (hs : Inv s) : Meets step ok' s as := by
  induction as generalizing s with
  | nil => exact trivial
  | cons a as ih =>
    exact ⟨hok s a hs hm.1, fun s' ha => ih (hm.2 s' ha) (hstep s a s' hs hm.1 ha)⟩

/-- **Invariant rule.** What every step keeps holds at the end of every run. -/
theorem exec_invariant {Inv : σ → Prop}
    (hstep : ∀ s a s', Inv s → step s a = some s' → Inv s') {as : List α} {s s' : σ}
    (hs : Inv s) (hr : exec step s as = some s') : Inv s' := by
  have hmeets : Meets step (fun _ _ => True) s as := Meets.of_mem (fun _ _ _ => trivial) s
  exact hmeets.invariant (fun s a s' hi _ ha => hstep s a s' hi ha) hs hr

/-! ## Simulation -/

section Simulation

universe u' v'

variable {τ : Type u'} {β : Type v'} {step' : τ → β → Option τ}

/-- One step leads to the next state. -/
theorem Leads.of_step {s s' : σ} {a : α} (ha : step s a = some s') : Leads step s s' :=
  Leads.head ha (Leads.refl s')

/-- **Guarded simulation rule.** When every step that is taken under the side condition is
accounted for by a run of another system, of no step or more, from a related state to a related
state, then so is every run that meets the condition. -/
theorem Meets.simulates {R : σ → τ → Prop} {as : List α} {s s'' : σ} {t : τ}
    (hm : Meets step ok s as)
    (hstep : ∀ s a s' t, R s t → ok s a → step s a = some s' →
      ∃ t', Leads step' t t' ∧ R s' t')
    (hR : R s t) (hr : exec step s as = some s'') : ∃ t'', Leads step' t t'' ∧ R s'' t'' := by
  induction as generalizing s t with
  | nil =>
    obtain rfl := Option.some.inj hr
    exact ⟨t, Leads.refl t, hR⟩
  | cons a as ih =>
    obtain ⟨s', ha, hr'⟩ := exec_cons_eq_some.mp hr
    obtain ⟨t', hleads, hR'⟩ := hstep s a s' t hR hm.1 ha
    obtain ⟨t'', hleads', hR''⟩ := ih (hm.2 s' ha) hR' hr'
    exact ⟨t'', hleads.trans hleads', hR''⟩

end Simulation

end Runs
