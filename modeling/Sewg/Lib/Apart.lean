import Mathlib.Algebra.BigOperators.Group.Finset.Basic
import Mathlib.Algebra.Order.BigOperators.Group.Finset
import Mathlib.Data.List.Nodup
import Sewg.Lib.Threads

/-! Things in places, each of them in one place at most; and quantities summed over the
threads of a system. -/

/-- No thing is in two places, or in one place twice. -/
structure Apart {ι α : Type} (places : ι → List α) : Prop where
  nodup : ∀ i, (places i).Nodup
  disjoint : ∀ i j, i ≠ j → (places i).Disjoint (places j)

namespace Apart
variable {ι α : Type} {places places' : ι → List α}

theorem shrink (h : Apart places) (hs : ∀ i, (places' i).Sublist (places i)) : Apart places' where
  nodup i := (hs i).nodup (h.nodup i)
  disjoint i j hij _ hi hj := h.disjoint i j hij ((hs i).subset hi) ((hs j).subset hj)

theorem add (h : Apart places) {i : ι} {xs : List α} (hx : xs.Nodup)
    (fresh : ∀ x ∈ xs, ∀ j, x ∉ places j)
    (hi : (places' i).Perm (xs ++ places i)) (others : ∀ j, j ≠ i → places' j = places j) :
    Apart places' := by
  have hnot : ∀ j, j ≠ i → (places' i).Disjoint (places' j) := by
    intro j hj x hxi hxj
    rw [others j hj] at hxj
    rcases List.mem_append.mp (hi.mem_iff.mp hxi) with hnew | hold
    · exact fresh x hnew j hxj
    · exact h.disjoint i j (Ne.symm hj) hold hxj
  constructor
  · intro j
    by_cases hj : j = i
    · rw [hj, hi.nodup_iff, List.nodup_append']
      exact ⟨hx, h.nodup i, fun x hnew hold => fresh x hnew i hold⟩
    · rw [others j hj]
      exact h.nodup j
  · intro j k hjk
    by_cases hj : j = i
    · rw [hj]
      exact hnot k (fun hk => hjk (hj.trans hk.symm))
    · by_cases hk : k = i
      · rw [hk]
        exact (hnot j hj).symm
      · rw [others j hj, others k hk]
        exact h.disjoint j k hjk

theorem move (h : Apart places) {i j : ι} (hij : i ≠ j) (hi : places' i = [])
    (hj : (places' j).Perm (places i ++ places j))
    (others : ∀ k, k ≠ i → k ≠ j → places' k = places k) :
    Apart places' := by
  classical
  -- The things leave the first place and are new in the second.
  have hleft : Apart (Function.update places i []) := by
    refine h.shrink fun k => ?_
    by_cases hk : k = i
    · rw [hk, Function.update_self]
      exact List.nil_sublist _
    · rw [Function.update_of_ne hk]
  refine hleft.add (i := j) (h.nodup i) ?_ ?_ ?_
  · intro x hx k hk
    by_cases hki : k = i
    · rw [hki, Function.update_self] at hk
      cases hk
    · rw [Function.update_of_ne hki] at hk
      exact h.disjoint i k (Ne.symm hki) hx hk
  · rw [Function.update_of_ne (Ne.symm hij)]
    exact hj
  · intro k hk
    by_cases hki : k = i
    · rw [hki, hi, Function.update_self]
    · rw [others k hki hk, Function.update_of_ne hki]

end Apart

namespace Threads

/-- A quantity of each of the first `n` threads, summed. -/
def total {τ : Type} (n : Nat) (f : τ → Nat) (threads : Nat → τ) : Nat :=
  ∑ i ∈ Finset.range n, f (threads i)

variable {τ : Type} {n : Nat}

theorem total_update (f : τ → Nat) (threads : Nat → τ) {i : Nat} (hi : i < n) (l : τ) :
    total n f (Function.update threads i l) + f (threads i) = total n f threads + f l := by
  have hsum : ∀ ts : Nat → τ, total n f ts = f (ts i) + ∑ j ∈ (Finset.range n).erase i, f (ts j) :=
    fun ts => (Finset.add_sum_erase _ (fun j => f (ts j)) (Finset.mem_range.mpr hi)).symm
  have hrest : ∑ j ∈ (Finset.range n).erase i, f (Function.update threads i l j) =
      ∑ j ∈ (Finset.range n).erase i, f (threads j) := by
    refine Finset.sum_congr rfl fun j hj => ?_
    rw [Function.update_of_ne (Finset.ne_of_mem_erase hj)]
  rw [hsum, hsum threads, hrest, Function.update_self]
  omega

theorem le_total (f : τ → Nat) (threads : Nat → τ) {i : Nat} (hi : i < n) :
    f (threads i) ≤ total n f threads :=
  Finset.single_le_sum (f := fun i => f (threads i)) (fun _ _ => Nat.zero_le _)
    (Finset.mem_range.mpr hi)

theorem total_le {f : τ → Nat} (h : ∀ l, f l ≤ 1) (threads : Nat → τ) : total n f threads ≤ n := by
  have := Finset.sum_le_card_nsmul (Finset.range n) (fun i => f (threads i)) 1
    fun i _ => h (threads i)
  simpa [total] using this

theorem total_add (f g : τ → Nat) (threads : Nat → τ) :
    total n (fun l => f l + g l) threads = total n f threads + total n g threads :=
  Finset.sum_add_distrib

end Threads
