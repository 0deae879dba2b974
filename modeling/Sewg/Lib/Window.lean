import Mathlib.Algebra.Group.Nat.Defs
import Mathlib.Data.List.Basic

/-! A set of recent numbers as a ring of words. Number `c` is bit `c % w` of word `c / w`
in an endless sequence of words, of which the ring keeps the last ones. Moving on to
a larger number clears the words in between, as many as the ring has at most. -/

namespace Window

variable {w N : Nat}

abbrev Ring (w N : Nat) := Vector (BitVec w) N

def Ring.word (ring : Ring w N) (i : Nat) : BitVec w := ring[i]?.getD 0

def Ring.has (ring : Ring w N) (c : Nat) : Bool := (ring.word (c / w % N)).getLsbD (c % w)

/-- Clears the words at `index 1`, .., `index count`. -/
def clear (index : Nat → Nat) (count : Nat) (ring : Ring w N) : Ring w N :=
  (List.range' 1 count).foldl (fun ring i => ring.setIfInBounds (index i) 0) ring

section
variable {ring : Ring w N} {index : Nat → Nat} {i j count : Nat} {v : BitVec w}

theorem word_set_self (h : i < N) : Ring.word (ring.setIfInBounds i v) i = v := by
  rw [Ring.word, Vector.getElem?_setIfInBounds_self_of_lt h, Option.getD_some]

theorem word_set_ne (h : i ≠ j) : Ring.word (ring.setIfInBounds i v) j = ring.word j := by
  rw [Ring.word, Vector.getElem?_setIfInBounds_ne h, Ring.word]

theorem clear_succ : clear index (count + 1) ring =
    (clear index count ring).setIfInBounds (index (1 + count)) 0 := by
  rw [clear, List.range'_1_concat, List.foldl_append]
  rfl

theorem word_clear_of_ne (h : ∀ i, 1 ≤ i → i ≤ count → index i ≠ j) :
    (clear index count ring).word j = ring.word j := by
  induction count with
  | zero => rfl
  | succ count ih =>
    rw [clear_succ, word_set_ne (h (1 + count) (by omega) (by omega))]
    exact ih fun i hi hic => h i hi (by omega)

theorem word_clear (hi : 1 ≤ i) (hic : i ≤ count) (hN : index i < N) :
    (clear index count ring).word (index i) = 0 := by
  induction count with
  | zero => omega
  | succ count ih =>
    rw [clear_succ]
    by_cases hsame : index (1 + count) = index i
    · rw [hsame, word_set_self hN]
    · rw [word_set_ne hsame]
      refine ih (Nat.le_of_lt_succ (Nat.lt_of_le_of_ne hic ?_))
      rintro rfl
      exact hsame (by rw [Nat.add_comm])

end

/-! ### Positions in the ring -/

theorem eq_of_mod_eq {a b : Nat} (hab : a ≤ b) (hlt : b < a + N) (h : a % N = b % N) : a = b := by
  have hzero := Nat.sub_mod_eq_zero_of_mod_eq h.symm
  rw [Nat.mod_eq_of_lt (by omega)] at hzero
  omega

/-- Going once round the ring meets every position. -/
theorem exists_mod_eq (hN : 0 < N) {a b : Nat} (hab : a < b) :
    ∃ i, 1 ≤ i ∧ i ≤ N ∧ (a + i) % N = b % N := by
  obtain ⟨k, rfl⟩ := Nat.exists_eq_add_of_lt hab
  refine ⟨k % N + 1, Nat.le_add_left 1 _, Nat.mod_lt k hN, ?_⟩
  rw [← Nat.add_assoc, Nat.add_right_comm, Nat.add_mod_mod, Nat.add_right_comm]

theorem in_ring {W top c : Nat} (hw : 0 < w) (hN : 0 < N) (hW : W ≤ (N - 1) * w) (h : top ≤ c + W) :
    top / w < c / w + N := by
  have hle : top / w ≤ (c + (N - 1) * w) / w := Nat.div_le_div_right (by omega)
  rw [Nat.add_mul_div_right _ _ hw] at hle
  omega

/-! ### The numbers seen -/

/-- In the words up to the one of `top`, as many as there are in the ring, the numbers
that satisfy `seen` are set. -/
def Tracks (ring : Ring w N) (top : Nat) (seen : Nat → Prop) : Prop :=
  ∀ c, c / w ≤ top / w → top / w < c / w + N → (ring.has c = true ↔ seen c)

section
variable {ring : Ring w N} {top next count c : Nat} {seen : Nat → Prop} {index : Nat → Nat}

theorem Tracks.congr {seen' : Nat → Prop} (h : Tracks ring top seen) (hs : ∀ c, seen c ↔ seen' c) :
    Tracks ring top seen' := fun c hle hlt => (h c hle hlt).trans (hs c)

theorem Tracks.advance (h : Tracks ring top seen) (hN : 0 < N) (hseen : ∀ c, seen c → c ≤ top)
    (hle : top ≤ next) (hindex : ∀ i, index i = (top / w + i) % N)
    (hcount : count = min (next / w - top / w) N) : Tracks (clear index count ring) next seen := by
  intro c hc hring
  have htop : top / w ≤ next / w := Nat.div_le_div_right hle
  by_cases hold : c / w ≤ top / w
  · -- a word that was there before is not among the cleared ones
    rw [← h c hold (by omega), Ring.has, Ring.has, word_clear_of_ne]
    intro i hi hic heq
    have hsame := eq_of_mod_eq (a := c / w) (b := top / w + i) (by omega) (by omega)
      ((hindex i).symm.trans heq).symm
    omega
  · have hfresh : ¬ seen c := fun hs => hold (Nat.div_le_div_right (hseen c hs))
    obtain ⟨i, hi, hic, heq⟩ : ∃ i, 1 ≤ i ∧ i ≤ count ∧ (top / w + i) % N = c / w % N := by
      by_cases hall : next / w - top / w ≤ N
      · refine ⟨c / w - top / w, by omega, by omega, ?_⟩
        rw [Nat.add_sub_cancel' (by omega)]
      · rw [hcount, Nat.min_eq_right (by omega)]
        exact exists_mod_eq hN (by omega)
    have hzero : (clear index count ring).word (c / w % N) = 0 := by
      rw [← heq, ← hindex]
      exact word_clear hi hic (by rw [hindex]; exact Nat.mod_lt _ hN)
    rw [Ring.has, hzero]
    simp [hfresh]

theorem Tracks.mark (h : Tracks ring top seen) (hw : 0 < w) (hN : 0 < N) (hc : c / w ≤ top / w)
    (hring : top / w < c / w + N) :
    Tracks (ring.setIfInBounds (c / w % N) (ring.word (c / w % N) ||| BitVec.twoPow w (c % w))) top
      fun x => x = c ∨ seen x := by
  intro x hx hxring
  dsimp only
  rw [← h x hx hxring, Ring.has, Ring.has]
  by_cases hword : c / w = x / w
  · have hpos : (c % w = x % w) ↔ x = c := by
      refine ⟨fun hmod => ?_, fun hxc => by rw [hxc]⟩
      rw [← Nat.div_add_mod x w, ← Nat.div_add_mod c w, hword, hmod]
    rw [hword, word_set_self (Nat.mod_lt _ hN), BitVec.getLsbD_or, BitVec.getLsbD_twoPow,
      Bool.or_eq_true, Bool.and_eq_true, decide_eq_true_iff, decide_eq_true_iff, hpos, or_comm]
    simp [Nat.mod_lt c hw]
  · have hne : c / w % N ≠ x / w % N := by
      intro heq
      rcases Nat.le_total (c / w) (x / w) with hle | hle
      · exact hword (eq_of_mod_eq hle (by omega) heq)
      · exact hword (eq_of_mod_eq hle (by omega) heq.symm).symm
    have hxc : x ≠ c := fun hxc => hword (by rw [hxc])
    rw [word_set_ne hne]
    simp [hxc]

end

end Window
