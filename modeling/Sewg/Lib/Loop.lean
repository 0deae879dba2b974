import Mathlib.Logic.Relation

/-! Loops whose end nothing bounds in advance. A step fails, goes on with a new state
or leaves the loop with a result; the fuel is the number of steps allowed, and a loop
returns a result when every large enough amount of fuel gives it. -/

namespace Loop

variable {σ α β : Type}

/-- All large enough amounts of fuel give `a`. -/
def Eventually (f : Nat → Option α) (a : α) : Prop := ∃ n, ∀ m ≥ n, f m = some a

theorem eventually_some (a : α) : Eventually (fun _ => some a) a := ⟨0, fun _ _ => rfl⟩

variable {a : α} {s t u : σ} {P : σ → Prop}

theorem Eventually.bind {f : Nat → Option α} {g : Nat → α → Option β} {b : β} (hf : Eventually f a)
    (hg : Eventually (fun n => g n a) b) :
    Eventually (fun n => (f n).bind (g n)) b := by
  obtain ⟨m, hm⟩ := hf
  obtain ⟨n, hn⟩ := hg
  refine ⟨max m n, fun k hk => ?_⟩
  dsimp only
  rw [hm k (Nat.le_trans (Nat.le_max_left m n) hk), Option.bind_some]
  exact hn k (Nat.le_trans (Nat.le_max_right m n) hk)

theorem Eventually.unique {f : Nat → Option α} {b : α} (ha : Eventually f a)
    (hb : Eventually f b) : a = b := by
  obtain ⟨m, hm⟩ := ha
  obtain ⟨n, hn⟩ := hb
  exact Option.some.inj ((hm _ (Nat.le_max_left m n)).symm.trans (hn _ (Nat.le_max_right m n)))

variable (step : σ → Option (σ ⊕ α))

def run : Nat → σ → Option α
  | 0, _ => none
  | n + 1, s =>
    match step s with
    | none => none
    | some (.inl t) => run n t
    | some (.inr a) => some a

/-- The loop gets from the first state to the second. -/
def Reaches : σ → σ → Prop := Relation.ReflTransGen fun s t => step s = some (.inl t)

/-- The same, with `P` in every state on the way; the last one may be without it. -/
def Within (P : σ → Prop) : σ → σ → Prop :=
  Relation.ReflTransGen fun s t => step s = some (.inl t) ∧ P s

def Returns (s : σ) (a : α) : Prop := Eventually (fun n => run step n s) a

variable {step}

theorem reaches_step (h : step s = some (.inl t)) : Reaches step s t :=
  Relation.ReflTransGen.single h

theorem Reaches.trans (h : Reaches step s t) (h' : Reaches step t u) :
    Reaches step s u :=
  Relation.ReflTransGen.trans h h'

theorem within_step (h : step s = some (.inl t)) (hs : P s) :
    Within step P s t :=
  Relation.ReflTransGen.single ⟨h, hs⟩

theorem Within.trans (h : Within step P s t) (h' : Within step P t u) :
    Within step P s u :=
  Relation.ReflTransGen.trans h h'

theorem Within.reaches (h : Within step P s t) : Reaches step s t :=
  Relation.ReflTransGen.mono (fun _ _ hst => hst.1) _ _ h

/-- There is only one way to go, so what is reached is on the way to `t`, or behind it. -/
theorem Within.or_reaches (h : Within step P s t) (hu : Reaches step s u) :
    P u ∨ Reaches step t u := by
  induction h using Relation.ReflTransGen.head_induction_on with
  | refl => exact .inr hu
  | head hst _ ih =>
    rcases Relation.ReflTransGen.cases_head hu with rfl | ⟨v, hv, hvu⟩
    · exact .inl hst.2
    · obtain rfl := Sum.inl.inj (Option.some.inj (hst.1.symm.trans hv))
      exact ih hvu

theorem returns_done (h : step s = some (.inr a)) : Returns step s a := by
  refine ⟨1, fun m hm => ?_⟩
  obtain ⟨k, rfl⟩ := Nat.exists_eq_add_of_le' hm
  dsimp only
  rw [run, h]

theorem returns_next (h : step s = some (.inl t)) (ht : Returns step t a) :
    Returns step s a := by
  obtain ⟨n, hn⟩ := ht
  refine ⟨n + 1, fun m hm => ?_⟩
  obtain ⟨k, rfl⟩ := Nat.exists_eq_add_of_le' (Nat.le_trans (Nat.le_add_left 1 n) hm)
  dsimp only
  rw [run, h]
  exact hn k (by omega)

theorem Reaches.returns (h : Reaches step s t) (ht : Returns step t a) :
    Returns step s a := by
  induction h using Relation.ReflTransGen.head_induction_on with
  | refl => exact ht
  | head hst _ ih => exact returns_next hst ih

end Loop
