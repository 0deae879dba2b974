import Mathlib.Data.Nat.Init

/-! Prefixes of bit strings and tables that route by the longest of them. An
address is anything with bits; the table's entry for `x / n` is its value at `x`
and `n`, and depends on the first `n` bits of `x` only. -/

namespace Routes

variable {A P : Type} (bit : A → Nat → Bool)

/-- The first `n` bits are the same. -/
def Agree (n : Nat) (a b : A) : Prop := ∀ i < n, bit a i = bit b i

instance (n : Nat) (a b : A) : Decidable (Agree bit n a b) := Nat.decidableBallLT n _

/-- How many of the first `w` bits the two begin with in common. -/
def common (a b : A) : Nat → Nat
  | 0 => 0
  | w + 1 => if common a b w = w ∧ bit a w = bit b w then w + 1 else common a b w

section
variable {bit} {a b c : A} {m n w : Nat}

theorem Agree.mono (h : Agree bit n a b) (hm : m ≤ n) : Agree bit m a b :=
  fun i hi => h i (Nat.lt_of_lt_of_le hi hm)

theorem Agree.symm (h : Agree bit n a b) : Agree bit n b a := fun i hi => (h i hi).symm

theorem Agree.trans (h : Agree bit n a b) (h' : Agree bit n b c) : Agree bit n a c :=
  fun i hi => (h i hi).trans (h' i hi)

theorem agree_succ : Agree bit (n + 1) a b ↔ Agree bit n a b ∧ bit a n = bit b n := by
  constructor
  · intro h
    exact ⟨h.mono (Nat.le_succ n), h n (Nat.lt_succ_self n)⟩
  · rintro ⟨h, hn⟩ i hi
    rcases Nat.lt_succ_iff_lt_or_eq.mp hi with hi | rfl
    · exact h i hi
    · exact hn

theorem common_le (bit : A → Nat → Bool) (a b : A) (w : Nat) : common bit a b w ≤ w := by
  induction w with
  | zero => exact Nat.le_refl 0
  | succ w ih =>
    unfold common
    split
    · exact Nat.le_refl _
    · exact Nat.le_succ_of_le ih

theorem le_common_iff (hn : n ≤ w) : n ≤ common bit a b w ↔ Agree bit n a b := by
  induction w generalizing n with
  | zero =>
    obtain rfl := Nat.le_zero.mp hn
    exact ⟨fun _ i hi => absurd hi (Nat.not_lt_zero i), fun _ => Nat.zero_le _⟩
  | succ w ih =>
    have full : common bit a b w = w ↔ Agree bit w a b := by
      rw [← ih (Nat.le_refl w)]
      exact ⟨Nat.le_of_eq ∘ Eq.symm, Nat.le_antisymm (common_le bit a b w)⟩
    unfold common
    rcases Nat.le_succ_iff.mp hn with hn | rfl
    · split
      · rename_i h
        exact ⟨fun _ => (full.mp h.1).mono hn, fun _ => Nat.le_succ_of_le hn⟩
      · exact ih hn
    · rw [agree_succ, ← full]
      split
      · rename_i h
        exact ⟨fun _ => h, fun _ => Nat.le_refl _⟩
      · rename_i h
        have := common_le bit a b w
        exact ⟨fun h' => by omega, fun h' => absurd h' h⟩

theorem common_eq_width_iff : common bit a b w = w ↔ Agree bit w a b := by
  rw [← le_common_iff (Nat.le_refl w)]
  exact ⟨Nat.le_of_eq ∘ Eq.symm, Nat.le_antisymm (common_le bit a b w)⟩

theorem eq_common (hm : m ≤ w) (h : ∀ n ≤ w, n ≤ m ↔ Agree bit n a b) : m = common bit a b w := by
  apply Nat.le_antisymm
  · rw [le_common_iff hm]
    exact (h m hm).mp (Nat.le_refl m)
  · rw [h _ (common_le bit a b w)]
    exact (le_common_iff (common_le bit a b w)).mp (Nat.le_refl _)

/-- The bit after the common ones, if there is one, tells the two apart. -/
theorem bit_common_ne (h : common bit a b w < w) :
    bit a (common bit a b w) ≠ bit b (common bit a b w) := by
  intro heq
  have hagree := (le_common_iff (Nat.le_of_lt h)).mp (Nat.le_refl (common bit a b w))
  have := (le_common_iff h).mpr (agree_succ.mpr ⟨hagree, heq⟩)
  omega

end

/-- The value of each prefix: `table x n` is that of `x / n`. -/
abbrev Table (A P : Type) := A → Nat → Option P

/-- The last writer of a prefix wins. -/
def Table.insert (table : Table A P) (x : A) (n : Nat) (p : P) : Table A P :=
  fun y m => if m = n ∧ Agree bit n x y then some p else table y m

def Table.remove [DecidableEq P] (table : Table A P) (p : P) : Table A P :=
  fun y m => if table y m = some p then none else table y m

/-- The value of the longest prefix of `a` among those of at most `n` bits. -/
def longest (table : Table A P) (a : A) : Nat → Option P
  | 0 => table a 0
  | n + 1 => (table a (n + 1)).or (longest table a n)

section
variable {table below : Table A P} {a : A} {n w : Nat}

theorem Table.insert_same {bit : A → Nat → Bool} {x : A} {p : P}
    (hcongr : ∀ y, Agree bit n x y → table x n = table y n) (h : table x n = some p) :
    table.insert bit x n p = table := by
  funext y m
  unfold Table.insert
  split
  · rename_i hy
    rw [hy.1, ← hcongr y hy.2, h]
  · rfl

/-- Writes to two prefixes, or the same write to one, in either order. -/
theorem Table.insert_comm {bit : A → Nat → Bool} {x y : A} {m : Nat} {p q : P}
    (h : m = n → Agree bit n x y → p = q) :
    (table.insert bit x n p).insert bit y m q = (table.insert bit y m q).insert bit x n p := by
  funext z k
  unfold Table.insert
  by_cases hx : k = n ∧ Agree bit n x z
  · by_cases hy : k = m ∧ Agree bit m y z
    · obtain ⟨rfl, hx⟩ := hx
      obtain ⟨rfl, hy⟩ := hy
      simp [hx, hy, h rfl (hx.trans hy.symm)]
    · rw [if_neg hy, if_pos hx, if_pos hx]
  · rw [if_neg hx, if_neg hx]

theorem longest_congr (h : ∀ n ≤ w, table a n = below a n) :
    longest table a w = longest below a w := by
  induction w with
  | zero => exact h 0 (Nat.le_refl 0)
  | succ w ih =>
    have := ih fun n hn => h n (Nat.le_succ_of_le hn)
    simp only [longest, h (w + 1) (Nat.le_refl _), this]

theorem longest_eq_none (h : ∀ n ≤ w, table a n = none) : longest table a w = none := by
  induction w with
  | zero => exact h 0 (Nat.le_refl 0)
  | succ w ih =>
    have := ih fun n hn => h n (Nat.le_succ_of_le hn)
    simp only [longest, h (w + 1) (Nat.le_refl _), this, Option.or_none]

/-- No longer prefix has a value, so the bound does not matter. -/
theorem longest_eq_of_le (hn : n ≤ w) (h : ∀ m, n < m → m ≤ w → table a m = none) :
    longest table a w = longest table a n := by
  induction w, hn using Nat.le_induction with
  | base => rfl
  | succ w hw ih =>
    have := ih fun m hm hmw => h m hm (Nat.le_succ_of_le hmw)
    simp only [longest, h (w + 1) (Nat.lt_succ_of_le hw) (Nat.le_refl _), this, Option.none_or]

theorem longest_or {v : Option P} (hn : n ≤ w) (hshort : ∀ m < n, table a m = none)
    (hat : table a n = v) (hlong : ∀ m, n < m → m ≤ w → table a m = below a m)
    (hbelow : ∀ m ≤ n, below a m = none) :
    longest table a w = (longest below a w).or v := by
  induction w, hn using Nat.le_induction with
  | base =>
    rw [longest_eq_none hbelow, Option.none_or]
    cases n with
    | zero => exact hat
    | succ n =>
      rw [longest, hat, longest_eq_none fun m hm => hshort m (Nat.lt_succ_of_le hm), Option.or_none]
  | succ w hw ih =>
    have := ih fun m hm hmw => hlong m hm (Nat.le_succ_of_le hmw)
    rw [longest, longest, hlong (w + 1) (Nat.lt_succ_of_le hw) (Nat.le_refl _), this,
      Option.or_assoc]

end

end Routes
