import Mathlib.Data.Int.Init

/-! Rate limits by a level that time raises and every grant lowers. The level is a function
of the state and a time that has come since, and it bounds the grants in any window. -/

namespace Bucket

/-- Events take some time. A grant counts when its event ends. -/
structure Machine (σ ε : Type) where
  starts : ε → Int
  ends : ε → Int
  next : σ → ε → σ
  grants : σ → ε → Bool

/-- Events one after the other, from `t` on. -/
def Clocked {ε : Type} (starts ends : ε → Int) : Int → List ε → Prop
  | _, [] => True
  | t, e :: es => t ≤ starts e ∧ starts e ≤ ends e ∧ Clocked starts ends (ends e) es

section
variable {σ ε : Type} (M : Machine σ ε)

/-- The grants from `lo` to `hi`. -/
def granted (lo hi : Int) : σ → List ε → Nat
  | _, [] => 0
  | s, e :: es =>
    (if M.grants s e = true ∧ lo ≤ M.ends e ∧ M.ends e ≤ hi then 1 else 0) +
      granted lo hi (M.next s e) es

/-- `level s u` is what `s` has at a time `u` after it. Its times are those that `valid`
holds for. -/
structure Level (valid : σ → Int → Prop) (level : σ → Int → Int) (cost capacity : Int) : Prop where
  kept : ∀ {s t e}, valid s t → t ≤ M.starts e → M.starts e ≤ M.ends e →
    valid (M.next s e) (M.ends e)
  full : ∀ s u, level s u ≤ capacity
  nonneg : ∀ {s t u}, valid s t → t ≤ u → 0 ≤ level s u
  rises : ∀ s {t u}, t ≤ u → level s u ≤ level s t + (u - t)
  falls : ∀ {s t e u}, valid s t → t ≤ M.starts e → M.starts e ≤ M.ends e → M.ends e ≤ u →
    level (M.next s e) u ≤ level s u
  pays : ∀ {s t e}, valid s t → t ≤ M.starts e → M.starts e ≤ M.ends e → M.grants s e = true →
    level (M.next s e) (M.ends e) + cost ≤ level s (M.ends e)

variable {M} {valid : σ → Int → Prop} {level : σ → Int → Int} {cost capacity : Int}

variable {es : List ε} {s : σ} {t : Int}

theorem granted_late {lo hi : Int} (ht : hi < t) (hc : Clocked M.starts M.ends t es) :
    granted M lo hi s es = 0 := by
  induction es generalizing s t with
  | nil => rfl
  | cons e es ih =>
    obtain ⟨hstart, hend, hc⟩ := hc
    rw [granted, if_neg (by omega), ih (by omega) hc]

/-- What is granted in the rest of the window was there, or came in it. -/
theorem granted_le_level (L : Level M valid level cost capacity) {lo hi : Int} (hs : valid s t)
    (hc : Clocked M.starts M.ends t es) (ht : max t lo ≤ hi) :
    granted M lo hi s es * cost ≤ level s (max t lo) + (hi - max t lo) := by
  have nonneg := L.nonneg hs (Int.le_max_left t lo)
  induction es generalizing s t with
  | nil =>
    rw [granted, Int.natCast_zero, Int.zero_mul]
    omega
  | cons e es ih =>
    obtain ⟨hstart, hend, hc⟩ := hc
    have hs' := L.kept hs hstart hend
    rw [granted]
    by_cases late : hi < M.ends e
    · rw [granted_late late hc, if_neg (by omega), Int.natCast_zero, Int.zero_mul]
      omega
    · have rest := ih hs' hc (by omega) (L.nonneg hs' (Int.le_max_left _ lo))
      have rises := L.rises s (show max t lo ≤ max (M.ends e) lo by omega)
      split
      · rename_i counted
        have now : max (M.ends e) lo = M.ends e := by omega
        have pays := L.pays hs hstart hend counted.1
        rw [now] at rest rises
        rw [Int.natCast_add, Int.add_mul, Int.natCast_one, Int.one_mul]
        omega
      · have falls := L.falls hs hstart hend (Int.le_max_left (M.ends e) lo)
        rw [Nat.zero_add]
        omega

/-- In any window the grants cost no more than what fits and what the window brings. -/
theorem granted_le (L : Level M valid level cost capacity) (hs : valid s t)
    (hc : Clocked M.starts M.ends t es) (lo : Int) (length : Nat) (hcap : 0 ≤ capacity) :
    granted M lo (lo + length) s es * cost ≤ capacity + length := by
  by_cases ht : max t lo ≤ lo + length
  · have h := granted_le_level L hs hc ht
    have full := L.full s (max t lo)
    omega
  · rw [granted_late (by omega) hc, Int.natCast_zero, Int.zero_mul]
    omega

end

end Bucket
