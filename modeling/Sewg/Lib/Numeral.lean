import Mathlib.Data.Nat.Digits.Lemmas

/-! Numbers written in a base, the most significant digit first. -/

namespace Numeral

/-- The digits of `n` without leading zeros; zero has one digit. -/
def digits (b n : Nat) : List Nat := if n = 0 then [0] else (Nat.digits b n).reverse

/-- What digits stand for when they are written behind `n`. -/
def value (b n : Nat) (ds : List Nat) : Nat := ds.foldl (fun n d => n * b + d) n

section
variable {b n d k : Nat}

@[simp] theorem value_nil : value b n [] = n := rfl

@[simp] theorem value_cons (ds : List Nat) : value b n (d :: ds) = value b (n * b + d) ds := rfl

theorem value_digits (b n : Nat) : value b 0 (digits b n) = n := by
  by_cases hn : n = 0
  · subst hn
    simp [digits]
  · rw [digits, if_neg hn, value, List.foldl_reverse]
    calc List.foldr (fun d n => n * b + d) 0 (Nat.digits b n)
        = List.foldr (fun d n => d + b * n) 0 (Nat.digits b n) := by
          simp only [Nat.mul_comm b, Nat.add_comm]
      _ = Nat.ofDigits b (Nat.digits b n) := (Nat.ofDigits_eq_foldr b (Nat.digits b n)).symm
      _ = n := Nat.ofDigits_digits b n

theorem lt_of_mem_digits (hb : 1 < b) (h : d ∈ digits b n) : d < b := by
  by_cases hn : n = 0
  · rw [digits, if_pos hn, List.mem_singleton] at h
    omega
  · rw [digits, if_neg hn, List.mem_reverse] at h
    exact Nat.digits_lt_base hb h

end

end Numeral
