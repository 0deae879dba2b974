import Mathlib.Data.List.Basic

/-! Runs of a partial step function: the events taken one after the other, the
invariants they keep, and the invariants kept by runs whose steps meet a guard. -/

namespace Run

section
variable {σ ε : Type} {step : σ → ε → Option σ}

/-- Take the events in order; `none` when one of them is not enabled. -/
def exec (step : σ → ε → Option σ) : σ → List ε → Option σ
  | s, [] => some s
  | s, e :: es => (step s e).bind fun t => exec step t es

/-- Every event of the run meets `guard` in the state it is taken in. -/
def Meets (step : σ → ε → Option σ) (guard : σ → ε → Prop) : σ → List ε → Prop
  | _, [] => True
  | s, e :: es => guard s e ∧ ∀ t, step s e = some t → Meets step guard t es

@[simp] theorem exec_nil (s : σ) : exec step s [] = some s := rfl

variable {es : List ε} {s : σ} {P : σ → Prop}

theorem exec_cons {t : σ} {e : ε} :
    exec step s (e :: es) = some t ↔ ∃ u, step s e = some u ∧ exec step u es = some t := by
  simp only [exec, Option.bind_eq_some_iff]

theorem exec_append {t : σ} {as bs : List ε} :
    exec step s (as ++ bs) = some t ↔ ∃ u, exec step s as = some u ∧ exec step u bs = some t := by
  induction as generalizing s with
  | nil => simp
  | cons e es ih =>
    simp only [List.cons_append, exec_cons, ih]
    constructor
    · rintro ⟨v, hv, u, hu, ht⟩; exact ⟨u, ⟨v, hv, hu⟩, ht⟩
    · rintro ⟨u, ⟨v, hv, hu⟩, ht⟩; exact ⟨v, hv, u, hu, ht⟩

theorem exec_guarded (guard : σ → ε → Prop)
    (keep : ∀ s e t, P s → guard s e → step s e = some t → P t) {t : σ} (hs : P s)
    (hg : Meets step guard s es) (h : exec step s es = some t) : P t := by
  induction es generalizing s with
  | nil => cases h; exact hs
  | cons e es ih =>
    obtain ⟨u, hu, ht⟩ := exec_cons.mp h
    exact ih (keep s e u hs hg.1 hu) (hg.2 u hu) ht

theorem meets_cons {guard : σ → ε → Prop} {t : σ} {e : ε} (hg : guard s e) (hst : step s e = some t)
    (h : Meets step guard t es) : Meets step guard s (e :: es) := by
  refine ⟨hg, ?_⟩
  intro u hu
  rw [hst] at hu
  cases hu
  exact h

theorem Meets.and {guard guard' : σ → ε → Prop} (h : Meets step guard s es)
    (h' : Meets step guard' s es) : Meets step (fun s e => guard s e ∧ guard' s e) s es := by
  induction es generalizing s with
  | nil => trivial
  | cons e es ih => exact ⟨⟨h.1, h'.1⟩, fun t ht => ih (h.2 t ht) (h'.2 t ht)⟩

/-- The guard, read at each place of the run. -/
theorem meets_iff {guard : σ → ε → Prop} :
    Meets step guard s es ↔
      ∀ as e bs t, es = as ++ e :: bs → exec step s as = some t → guard t e := by
  induction es generalizing s with
  | nil => simp [Meets]
  | cons e es ih =>
    constructor
    · rintro ⟨hg, ht⟩ as e' bs t split h
      cases as with
      | nil =>
        cases h
        cases split
        exact hg
      | cons a as =>
        obtain ⟨rfl, rfl⟩ := List.cons.inj split
        obtain ⟨u, hu, h⟩ := exec_cons.mp h
        exact ih.mp (ht u hu) as e' bs t rfl h
    · intro h
      refine ⟨h [] e es s rfl rfl, ?_⟩
      intro t ht
      refine ih.mpr ?_
      intro as e' bs u split hu
      exact h (e :: as) e' bs u (by rw [split, List.cons_append]) (exec_cons.mpr ⟨t, ht, hu⟩)

theorem Meets.split {guard : σ → ε → Prop} {t : σ} {as bs cs : List ε}
    (h : Meets step guard s (as ++ bs ++ cs)) (ht : exec step s as = some t) :
    Meets step guard s as ∧ Meets step guard t bs := by
  rw [meets_iff] at h
  constructor
  · rw [meets_iff]
    rintro xs e ys u rfl hu
    exact h xs e (ys ++ bs ++ cs) u (by simp) hu
  · rw [meets_iff]
    rintro xs e ys u rfl hu
    exact h (as ++ xs) e (ys ++ cs) u (by simp) (exec_append.mpr ⟨t, ht, hu⟩)

/-- A guard that follows from an invariant the events keep. -/
theorem meets_of_invariant {guard : σ → ε → Prop}
    (keep : ∀ e ∈ es, ∀ s, P s → guard s e ∧ ∀ t, step s e = some t → P t) (hs : P s) :
    Meets step guard s es := by
  induction es generalizing s with
  | nil => trivial
  | cons e es ih =>
    obtain ⟨hg, ht⟩ := keep e List.mem_cons_self s hs
    exact ⟨hg, fun t hst => ih (fun x hx => keep x (List.mem_cons_of_mem e hx)) (ht t hst)⟩

/-- A guard on the events alone. -/
theorem meets_of_forall {guard : ε → Prop} (h : ∀ e ∈ es, guard e) :
    Meets step (fun _ e => guard e) s es :=
  meets_of_invariant (P := fun _ => True) (fun e he _ _ => ⟨h e he, fun _ _ => trivial⟩) trivial

theorem meets_of_always {guard : σ → ε → Prop} (h : ∀ s e, guard s e) :
    Meets step guard s es :=
  meets_of_invariant (P := fun _ => True) (fun e _ s _ => ⟨h s e, fun _ _ => trivial⟩) trivial

/-- The guard along a run, computed. -/
def check (step : σ → ε → Option σ) (guard : σ → ε → Prop) [∀ s e, Decidable (guard s e)] :
    σ → List ε → Bool
  | _, [] => true
  | s, e :: es =>
    decide (guard s e) &&
      match step s e with
      | none => true
      | some t => check step guard t es

theorem meets_of_check {guard : σ → ε → Prop} [∀ s e, Decidable (guard s e)]
    (h : check step guard s es = true) : Meets step guard s es := by
  induction es generalizing s with
  | nil => trivial
  | cons e es ih =>
    rw [check, Bool.and_eq_true, decide_eq_true_iff] at h
    refine ⟨h.1, fun t ht => ih ?_⟩
    have hrest := h.2
    rwa [ht] at hrest

theorem exec_invariant (keep : ∀ s e t, P s → step s e = some t → P t) {t : σ} (hs : P s)
    (h : exec step s es = some t) : P t :=
  exec_guarded (fun _ _ => True) (fun s e t hp _ hst => keep s e t hp hst) hs
    (meets_of_forall fun _ _ => trivial) h

/-- Runs of steps that answer, with the answers. -/
def answers {ω : Type} (step : σ → ε → Option (σ × ω)) : σ → List ε → Option (σ × List ω)
  | s, [] => some (s, [])
  | s, e :: es => (step s e).bind fun (t, o) => (answers step t es).map fun (u, os) => (u, o :: os)

theorem answers_isSome {ω : Type} {step : σ → ε → Option (σ × ω)}
    (h : ∀ s e, (step s e).isSome) (s : σ) (es : List ε) : (answers step s es).isSome := by
  induction es generalizing s with
  | nil => rfl
  | cons e es ih =>
    obtain ⟨⟨t, o⟩, ht⟩ := Option.isSome_iff_exists.mp (h s e)
    rw [answers, ht, Option.bind_some, Option.isSome_map]
    exact ih t

/-- Two systems whose steps keep a relation between their states and answer alike. -/
theorem answers_related {τ ω : Type} {f : σ → ε → Option (σ × ω)} {g : τ → ε → Option (τ × ω)}
    {R : σ → τ → Prop}
    (hstep : ∀ s t e, R s t → Option.Rel (fun x y => R x.1 y.1 ∧ x.2 = y.2) (f s e) (g t e)) {t : τ}
    (h : R s t) (es : List ε) :
    Option.Rel (fun x y => R x.1 y.1 ∧ x.2 = y.2) (answers f s es) (answers g t es) := by
  induction es generalizing s t with
  | nil => exact .some ⟨h, rfl⟩
  | cons e es ih =>
    have hfirst := hstep s t e h
    rw [answers, answers]
    generalize f s e = x at hfirst ⊢
    generalize g t e = y at hfirst ⊢
    cases hfirst with
    | none => exact .none
    | @some x y hxy =>
      obtain ⟨s', o⟩ := x
      obtain ⟨t', o'⟩ := y
      have hrest := ih hxy.1
      rw [Option.bind_some, Option.bind_some]
      dsimp only at hrest ⊢
      generalize answers f s' es = a at hrest ⊢
      generalize answers g t' es = b at hrest ⊢
      cases hrest with
      | none => exact .none
      | some hab => exact .some ⟨hab.1, congrArg₂ List.cons hxy.2 hab.2⟩

end

end Run
