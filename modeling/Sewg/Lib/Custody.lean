import Mathlib.Data.List.Nodup
import Mathlib.Logic.Function.Basic

/-! Things that are handed on. Lists say what is in which place, and the custody of a
thing says which places it is in: it may be in several at once, but in each of them once
at most. -/

/-- A place gets the thing, loses it, or is left as it is; the thing is to be there before,
and afterwards. -/
inductive Change {α : Type} (x : α) (before after : Prop) (l l' : List α) : Prop
  | same : l' = l → (before ↔ after) → Change x before after l l'
  | added : l'.Perm (x :: l) → ¬ before → after → Change x before after l l'
  | taken : l.Perm (x :: l') → ¬ after → Change x before after l l'

namespace Change
variable {α : Type} {x y : α} {before after : Prop} {l l' : List α}

theorem mem_iff (h : Change x before after l l') (hy : y ≠ x) : y ∈ l' ↔ y ∈ l := by
  cases h with
  | same heq => rw [heq]
  | added hperm => simp [hperm.mem_iff, hy]
  | taken hperm => simp [hperm.mem_iff, hy]

theorem mem_self (h : Change x before after l l') (hl : l.Nodup) (hbefore : x ∈ l ↔ before) :
    x ∈ l' ↔ after := by
  cases h with
  | same heq hsame => rw [heq, hbefore, hsame]
  | added hperm _ hafter => simp [hperm.mem_iff, hafter]
  | taken hperm hafter => simp [hafter, (List.nodup_cons.mp (hperm.nodup_iff.mp hl)).1]

theorem nodup (h : Change x before after l l') (hl : l.Nodup) (hbefore : x ∈ l ↔ before) :
    l'.Nodup := by
  cases h with
  | same heq => rwa [heq]
  | added hperm hnot =>
    exact hperm.nodup_iff.mpr (List.nodup_cons.mpr ⟨fun hx => hnot (hbefore.mp hx), hl⟩)
  | taken hperm => exact (hperm.nodup_iff.mp hl).of_cons

end Change

/-- The lists agree with the custody of everything. -/
structure Tracks {ι κ α : Type} (within : κ → ι → Prop) (places : ι → List α)
    (custody : α → κ) : Prop where
  mem : ∀ i x, x ∈ places i ↔ within (custody x) i
  nodup : ∀ i, (places i).Nodup

theorem Tracks.hand {ι κ α : Type} [DecidableEq α] {within : κ → ι → Prop}
    {places places' : ι → List α}
    {custody : α → κ} (h : Tracks within places custody) {x : α} {c : κ}
    (hchange : ∀ i, Change x (within (custody x) i) (within c i) (places i) (places' i)) :
    Tracks within places' (Function.update custody x c) where
  mem i y := by
    by_cases hy : y = x
    · rw [hy, Function.update_self]
      exact (hchange i).mem_self (h.nodup i) (h.mem i x)
    · rw [Function.update_of_ne hy, (hchange i).mem_iff hy]
      exact h.mem i y
  nodup i := (hchange i).nodup (h.nodup i) (h.mem i x)
