import Mathlib.Logic.Function.Basic
import Sewg.Lib.Run

/-! Threads that take turns on shared state. Each step runs one thread, from its
local state and the shared one, and leaves the others where they are. -/

namespace Threads

structure State (γ τ : Type) where
  shared : γ
  threads : Nat → τ

section
variable {γ τ ε : Type} {act : τ → γ → ε → Option (τ × γ)}

/-- Event `(i, e)`: thread `i` takes a step with input `e`. -/
def step (act : τ → γ → ε → Option (τ × γ)) (s : State γ τ) (e : Nat × ε) : Option (State γ τ) :=
  (act (s.threads e.1) s.shared e.2).map fun (l, g) => ⟨g, Function.update s.threads e.1 l⟩

variable {i : Nat} {s t : State γ τ}

theorem step_cases {e : ε} (h : step act s (i, e) = some t) :
    ∃ l g, act (s.threads i) s.shared e = some (l, g) ∧ t.shared = g ∧ t.threads i = l ∧
      ∀ j, j ≠ i → t.threads j = s.threads j := by
  obtain ⟨⟨l, g⟩, ha, rfl⟩ := Option.map_eq_some_iff.mp h
  refine ⟨l, g, ha, rfl, Function.update_self i l s.threads, ?_⟩
  intro j hj
  exact Function.update_of_ne hj l s.threads

theorem State.eq_of_same (hg : t.shared = s.shared) (hi : t.threads i = s.threads i)
    (hothers : ∀ j, j ≠ i → t.threads j = s.threads j) : t = s := by
  have hthreads : t.threads = s.threads := by
    funext j
    by_cases hj : j = i
    · rw [hj, hi]
    · exact hothers j hj
  cases t
  cases s
  cases hg
  cases hthreads
  rfl

/-- An assertion about each thread and the shared state survives a step if the
thread that moves keeps its own and disturbs no other's. -/
theorem step_forall {A : γ → τ → Prop} {e : ε} (hs : ∀ j, A s.shared (s.threads j))
    (h : step act s (i, e) = some t)
    (own : ∀ l g, act (s.threads i) s.shared e = some (l, g) → A g l)
    (others : ∀ l g j, act (s.threads i) s.shared e = some (l, g) → j ≠ i →
      A s.shared (s.threads j) → A g (s.threads j)) :
    ∀ j, A t.shared (t.threads j) := by
  obtain ⟨l, g, ha, hg, hl, same⟩ := step_cases h
  intro j
  rw [hg]
  by_cases hj : j = i
  · rw [hj, hl]
    exact own l g ha
  · rw [same j hj]
    exact others l g j ha hj (hs j)

/-- A thread that takes no step stays where it is. -/
theorem exec_still {es : List (Nat × ε)} {j : Nat} (hj : ∀ e ∈ es, e.1 ≠ j)
    (h : Run.exec (step act) s es = some t) : t.threads j = s.threads j := by
  induction es generalizing s with
  | nil => cases h; rfl
  | cons e es ih =>
    obtain ⟨u, hu, ht⟩ := Run.exec_cons.mp h
    obtain ⟨he, hes⟩ := List.forall_mem_cons.mp hj
    obtain ⟨-, -, -, -, -, same⟩ := step_cases hu
    exact (ih hes ht).trans (same j (Ne.symm he))

/-- A guard on all threads is computed at the first `n`, where only these move. -/
theorem meets_of_first {guard : State γ τ → Nat × ε → Prop} {es : List (Nat × ε)}
    (first : State γ τ → Nat × ε → Bool) (n : Nat) (hes : ∀ e ∈ es, e.1 < n)
    (hguard : ∀ t, (∀ j, n ≤ j → t.threads j = s.threads j) →
      ∀ e ∈ es, first t e = true → guard t e)
    (h : Run.check (step act) (fun t e => first t e = true) s es = true) :
    Run.Meets (step act) guard s es := by
  have hfrom : ∀ u, (∀ j, n ≤ j → u.threads j = s.threads j) →
      Run.Meets (step act) (fun t e => first t e = true) u es →
      Run.Meets (step act) guard u es := by
    clear h
    induction es with
    | nil => exact fun _ _ _ => trivial
    | cons e es ih =>
      obtain ⟨he, hes⟩ := List.forall_mem_cons.mp hes
      intro u hu hmeets
      refine ⟨hguard u hu e List.mem_cons_self hmeets.1, fun v hv => ?_⟩
      refine ih hes (fun t ht e' he' => hguard t ht e' (List.mem_cons_of_mem e he'))
        v ?_ (hmeets.2 v hv)
      obtain ⟨-, -, -, -, -, same⟩ := step_cases hv
      intro j hj
      rw [same j (by omega), hu j hj]
  exact hfrom s (fun _ _ => rfl) (Run.meets_of_check h)

/-- One thread and the shared state, while no other thread moves. -/
def alone (act : τ → γ → ε → Option (τ × γ)) : τ × γ → List ε → Option (τ × γ) :=
  Run.exec fun x e => act x.1 x.2 e

theorem exec_alone (s : State γ τ) (i : Nat) (es : List ε) :
    Run.exec (step act) s (es.map (Prod.mk i)) =
      (alone act (s.threads i, s.shared) es).map fun x =>
        ⟨x.2, Function.update s.threads i x.1⟩ := by
  induction es generalizing s with
  | nil => simp [alone, Run.exec]
  | cons e es ih =>
    simp only [List.map_cons, Run.exec, alone, step]
    cases act (s.threads i) s.shared e with
    | none => rfl
    | some x =>
      simp only [Option.map_some, Option.bind_some]
      rw [ih]
      simp [alone]

end

end Threads
