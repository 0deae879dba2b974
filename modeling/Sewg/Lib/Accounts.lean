import Mathlib.Data.List.Nodup

/-! Items that are made from tokens, no two of them from the same one. -/

namespace Accounts

variable {E K : Type} {Made : E → K → Prop} {drawn : List E} {items : List K}
  {rest rest' : (E → Prop) → Prop}

/-- Every item was made from a drawn token of its own, and `rest` holds of the tokens that
nothing was made from. -/
def Accounted (Made : E → K → Prop) (drawn : List E) (items : List K)
    (rest : (E → Prop) → Prop) : Prop :=
  ∃ used : List (E × K), used.map Prod.snd = items ∧ (used.map Prod.fst).Nodup ∧
    (∀ u ∈ used, u.1 ∈ drawn ∧ Made u.1 u.2) ∧ rest fun e => e ∈ drawn ∧ e ∉ used.map Prod.fst

theorem accounted_nil (h : ∀ spare, rest spare) : Accounted Made drawn [] rest :=
  ⟨[], rfl, .nil, by simp, h _⟩

namespace Accounted

theorem imp (h : Accounted Made drawn items rest) (himp : ∀ spare, rest spare → rest' spare) :
    Accounted Made drawn items rest' := by
  obtain ⟨used, hitems, nodup, made, hrest⟩ := h
  exact ⟨used, hitems, nodup, made, himp _ hrest⟩

/-- A token is drawn and not needed. -/
theorem draw (h : Accounted Made drawn items rest) (e : E)
    (mono : ∀ spare spare' : E → Prop, (∀ x, spare x → spare' x) → rest spare → rest spare') :
    Accounted Made (e :: drawn) items rest := by
  obtain ⟨used, hitems, nodup, made, hrest⟩ := h
  refine ⟨used, hitems, nodup, ?_, ?_⟩
  · intro u hu
    exact ⟨List.mem_cons_of_mem e (made u hu).1, (made u hu).2⟩
  · exact mono _ _ (fun x hx => ⟨List.mem_cons_of_mem e hx.1, hx.2⟩) hrest

/-- A new token is drawn, and what stood on another one stands on it. -/
theorem renew (h : Accounted Made drawn items rest) {e : E} (new : e ∉ drawn)
    (hrest : ∀ spare : E → Prop, spare e → rest' spare) :
    Accounted Made (e :: drawn) items rest' := by
  obtain ⟨used, hitems, nodup, made, -⟩ := h
  refine ⟨used, hitems, nodup, ?_, ?_⟩
  · intro u hu
    exact ⟨List.mem_cons_of_mem e (made u hu).1, (made u hu).2⟩
  · refine hrest _ ⟨List.mem_cons_self, ?_⟩
    intro mem
    obtain ⟨u, hu, rfl⟩ := List.mem_map.mp mem
    exact new (made u hu).1

/-- An item is made from a spare token. -/
theorem use (h : Accounted Made drawn items rest) {k : K}
    (made : ∀ spare, rest spare → ∃ e, spare e ∧ Made e k) (hrest : ∀ spare, rest' spare) :
    Accounted Made drawn (k :: items) rest' := by
  obtain ⟨used, hitems, nodup, before, hspare⟩ := h
  obtain ⟨e, ⟨he, new⟩, hk⟩ := made _ hspare
  refine ⟨(e, k) :: used, congrArg (k :: ·) hitems, List.nodup_cons.mpr ⟨new, nodup⟩, ?_, hrest _⟩
  intro u hu
  rcases List.mem_cons.mp hu with rfl | hu
  · exact ⟨he, hk⟩
  · exact before u hu

/-- Items with one value of `f` would be of one token. -/
theorem apart {V : Type} {f : K → V} (h : Accounted Made drawn items rest)
    (unique : ∀ {e e' k k'}, Made e k → Made e' k' → f k = f k' → e = e') :
    items.Pairwise fun a b => f a ≠ f b := by
  obtain ⟨used, rfl, nodup, made, -⟩ := h
  rw [List.pairwise_map]
  refine (List.pairwise_map.mp nodup).imp_of_mem ?_
  intro u v hu hv hne same
  exact hne (unique (made u hu).2 (made v hv).2 same)

end Accounted

end Accounts
