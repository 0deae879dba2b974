import Sewg.Kernel.Counter
import Sewg.Lib.Run
import Sewg.Lib.Window

/-! What `counter_validate` lets through. A counter stands in the bitmap under the number
one above it, and its word is counted in `unsigned long`: where that has 32 bits, a
jump of 2^32 words looks like none, and the words it should clear keep their bits. -/

namespace Sewg.Kernel

open Window

variable {w : Nat} {c : NoiseCounter w} {their : Nat} {accepted : List Nat}

/-- The words by which the window has to move for a counter. -/
def NoiseCounter.ahead (c : NoiseCounter w) (their : Nat) : Nat := (their + 1) / w - c.counter / w

/-- Counted in `unsigned long`, the words are as many, or still all of the bitmap. -/
def NoiseCounter.IndexHolds (c : NoiseCounter w) (their : Nat) : Prop :=
  their < REJECT_AFTER_MESSAGES w →
    c.ahead their < 2 ^ w ∨ COUNTER_BITS_TOTAL / w ≤ c.ahead their % 2 ^ w

/-- One call, with the counters let through so far, the last one first. -/
def validateStep (s : NoiseCounter w × List Nat) (their : Nat) :
    Option (NoiseCounter w × List Nat) :=
  let (ok, c) := counterValidate w s.1 their
  some (c, if ok then their :: s.2 else s.2)

/-- The sums that `counter_validate` forms stay below 2^64. The last one is that of the
loop, and formed in `unsigned long`. -/
def NoiseCounter.SumsFit (c : NoiseCounter w) (their : Nat) : Prop :=
  REJECT_AFTER_MESSAGES w + 1 < 2 ^ 64 ∧
  (their < REJECT_AFTER_MESSAGES w →
    their + 1 < 2 ^ 64 ∧ COUNTER_WINDOW_SIZE w + (their + 1) < 2 ^ 64 ∧
    ∀ i ≤ COUNTER_BITS_TOTAL / w, i + (c.counter >>> Nat.log2 w) % 2 ^ w < 2 ^ 64)

/-! ### The sizes of `unsigned long` -/

section
variable (hw : w = 32 ∨ w = 64)
include hw

theorem word_pos : 0 < w := by
  rcases hw with rfl | rfl <;> decide

theorem words_pos : 0 < COUNTER_BITS_TOTAL / w := by
  rcases hw with rfl | rfl <;> decide

theorem window_le : COUNTER_WINDOW_SIZE w ≤ (COUNTER_BITS_TOTAL / w - 1) * w := by
  rcases hw with rfl | rfl <;> decide

theorem shift_eq (x : Nat) : x >>> Nat.log2 w = x / w := by
  have hpow : 2 ^ Nat.log2 w = w := by rcases hw with rfl | rfl <;> decide
  rw [Nat.shiftRight_eq_div_pow, hpow]

theorem mask_bit (x : Nat) : x &&& (w - 1) = x % w := by
  rcases hw with rfl | rfl
  · exact Nat.and_two_pow_sub_one_eq_mod x 5
  · exact Nat.and_two_pow_sub_one_eq_mod x 6

theorem mask_word (x : Nat) :
    x &&& (COUNTER_BITS_TOTAL / w - 1) = x % (COUNTER_BITS_TOTAL / w) := by
  rcases hw with rfl | rfl
  · exact Nat.and_two_pow_sub_one_eq_mod x 6
  · exact Nat.and_two_pow_sub_one_eq_mod x 5

/-- A truncated word number still gives the word's place in the bitmap. -/
theorem mod_mod_words (x i : Nat) :
    (i + x % 2 ^ w) % (COUNTER_BITS_TOTAL / w) = (x + i) % (COUNTER_BITS_TOTAL / w) := by
  have hdvd : COUNTER_BITS_TOTAL / w ∣ 2 ^ w := by rcases hw with rfl | rfl <;> decide
  rw [Nat.add_mod, Nat.mod_mod_of_dvd _ hdvd, ← Nat.add_mod, Nat.add_comm]

theorem sub_wrapped {x y : Nat} (h : y ≤ x) :
    (x % 2 ^ w + 2 ^ w - y % 2 ^ w) % 2 ^ w = (x - y) % 2 ^ w := by
  rcases hw with rfl | rfl <;> omega

theorem sumsFit (hc : c.counter ≤ REJECT_AFTER_MESSAGES w) (their : Nat) : c.SumsFit their := by
  have hshift := shift_eq hw c.counter
  unfold NoiseCounter.SumsFit
  rw [hshift]
  clear hshift
  rcases hw with rfl | rfl
  · simp only [REJECT_AFTER_MESSAGES, COUNTER_WINDOW_SIZE, COUNTER_BITS_TOTAL] at hc ⊢
    refine ⟨by decide, fun h => ⟨by omega, by omega, fun i hi => by omega⟩⟩
  · simp only [REJECT_AFTER_MESSAGES, COUNTER_WINDOW_SIZE, COUNTER_BITS_TOTAL] at hc ⊢
    refine ⟨by decide, fun h => ⟨by omega, by omega, fun i hi => by omega⟩⟩

end

/-! ### What one call does -/

/-- The state after the counters in `accepted` were let through. -/
structure NoiseCounter.Follows (c : NoiseCounter w) (accepted : List Nat) : Prop where
  limit : c.counter ≤ REJECT_AFTER_MESSAGES w
  le : ∀ a ∈ accepted, a + 1 ≤ c.counter
  reached : c.counter = 0 ∨ ∃ a ∈ accepted, a + 1 = c.counter
  tracks : Tracks c.backtrack c.counter fun x => ∃ a ∈ accepted, x = a + 1

theorem zeroed_follows (hw : w = 32 ∨ w = 64) : (NoiseCounter.zeroed w).Follows [] := by
  refine ⟨Nat.zero_le _, nofun, .inl rfl, fun x _ _ => ?_⟩
  have hzero :
      Ring.word (NoiseCounter.zeroed w).backtrack (x / w % (COUNTER_BITS_TOTAL / w)) = 0 := by
    have hlt : x / w % (COUNTER_BITS_TOTAL / w) < COUNTER_BITS_TOTAL / w :=
      Nat.mod_lt _ (words_pos hw)
    simp [Ring.word, NoiseCounter.zeroed, hlt]
  rw [Ring.has, hzero]
  simp

section
variable (hw : w = 32 ∨ w = 64) (h : c.Follows accepted)
include hw h

/-- The words of the window are cleared, as the index is that of 64 bits or clears all. -/
theorem clearWords_tracks (hlt : their < REJECT_AFTER_MESSAGES w) (hnew : c.counter < their + 1)
    (hindex : c.IndexHolds their) :
    Tracks (clearWords w c.backtrack ((c.counter >>> Nat.log2 w) % 2 ^ w)
        (min ((((their + 1) >>> Nat.log2 w) % 2 ^ w + 2 ^ w - (c.counter >>> Nat.log2 w) % 2 ^ w) %
          2 ^ w) (COUNTER_BITS_TOTAL / w))) (their + 1) fun x => ∃ a ∈ accepted, x = a + 1 := by
  have hle : c.counter / w ≤ (their + 1) / w := Nat.div_le_div_right (Nat.le_of_lt hnew)
  have hahead : (their + 1) / w - c.counter / w = c.ahead their := rfl
  refine h.tracks.advance (words_pos hw) ?_ (Nat.le_of_lt hnew) (fun i => ?_) ?_
  · rintro x ⟨a, ha, rfl⟩
    exact h.le a ha
  · rw [mask_word hw, shift_eq hw, mod_mod_words hw]
  · rw [shift_eq hw, shift_eq hw, sub_wrapped hw hle, hahead]
    rcases hindex hlt with hfits | hall
    · rw [Nat.mod_eq_of_lt hfits]
    · have hge := Nat.mod_le (c.ahead their) (2 ^ w)
      rw [Nat.min_eq_right hall, Nat.min_eq_right (Nat.le_trans hall hge)]

omit h in
/-- The end of `counter_validate`, once the counter is in the window. -/
theorem testAndSetBit_spec {ring : Vector (BitVec w) (COUNTER_BITS_TOTAL / w)} {top : Nat}
    (ht : Tracks ring top fun x => ∃ a ∈ accepted, x = a + 1) (hle : their + 1 ≤ top)
    (hwindow : top ≤ their + 1 + COUNTER_WINDOW_SIZE w) :
    ((!(testAndSetBit w ((their + 1) &&& (w - 1)) ring
        (((their + 1) >>> Nat.log2 w) % 2 ^ w &&& (COUNTER_BITS_TOTAL / w - 1))).1) = true ↔
      their ∉ accepted) ∧
    Tracks (testAndSetBit w ((their + 1) &&& (w - 1)) ring
        (((their + 1) >>> Nat.log2 w) % 2 ^ w &&& (COUNTER_BITS_TOTAL / w - 1))).2 top
      fun x => ∃ a ∈ their :: accepted, x = a + 1 := by
  have hword := mod_mod_words hw ((their + 1) / w) 0
  rw [Nat.zero_add, Nat.add_zero] at hword
  have hdiv : (their + 1) / w ≤ top / w := Nat.div_le_div_right hle
  have hring := in_ring (word_pos hw) (words_pos hw) (window_le hw) hwindow
  have hbit : (Ring.has ring (their + 1) = true) ↔ their ∈ accepted := by
    rw [ht (their + 1) hdiv hring]
    exact ⟨fun ⟨a, ha, heq⟩ => Nat.succ.inj heq ▸ ha, fun ha => ⟨their, ha, rfl⟩⟩
  rw [mask_word hw, mask_bit hw, shift_eq hw, hword]
  constructor
  · rw [← hbit, Bool.not_eq_true', Bool.not_eq_true]
    exact Iff.rfl
  · refine (ht.mark (word_pos hw) (words_pos hw) hdiv hring).congr fun x => ?_
    simp only [List.mem_cons, exists_eq_or_imp]

theorem counterValidate_spec (hindex : c.IndexHolds their) :
    ((counterValidate w c their).1 = true ↔
      their < REJECT_AFTER_MESSAGES w ∧ their ∉ accepted ∧
        c.counter ≤ their + 1 + COUNTER_WINDOW_SIZE w) ∧
    (counterValidate w c their).2.Follows
      (if (counterValidate w c their).1 then their :: accepted else accepted) := by
  unfold counterValidate
  have hlimit := h.limit
  by_cases hreject : c.counter ≥ REJECT_AFTER_MESSAGES w + 1 ∨ their ≥ REJECT_AFTER_MESSAGES w
  · rw [if_pos hreject]
    exact ⟨⟨nofun, fun ⟨hlt, _⟩ => by omega⟩, h⟩
  · rw [if_neg hreject]
    dsimp only
    have hlt : their < REJECT_AFTER_MESSAGES w := by omega
    by_cases hbehind : COUNTER_WINDOW_SIZE w + (their + 1) < c.counter
    · rw [if_pos hbehind]
      exact ⟨⟨nofun, fun ⟨_, _, hle⟩ => by omega⟩, h⟩
    · rw [if_neg hbehind]
      by_cases hnew : their + 1 > c.counter
      · have hfresh : their ∉ accepted := fun ha => absurd (h.le their ha) (Nat.not_le.mpr hnew)
        obtain ⟨hok, htracks⟩ := testAndSetBit_spec hw (clearWords_tracks hw h hlt hnew hindex)
          (Nat.le_refl _) (Nat.le_add_right _ _)
        simp only [if_pos hnew, hok.mpr hfresh, if_true]
        refine ⟨⟨fun _ => ⟨hlt, hfresh, by omega⟩, fun _ => trivial⟩, hlt, fun a ha => ?_,
          .inr ⟨their, List.mem_cons_self, rfl⟩, htracks⟩
        rcases List.mem_cons.mp ha with rfl | ha
        · exact Nat.le_refl _
        · exact Nat.le_trans (h.le a ha) (Nat.le_of_lt hnew)
      · obtain ⟨hok, htracks⟩ := testAndSetBit_spec hw h.tracks (Nat.not_lt.mp hnew) (by omega)
        simp only [if_neg hnew]
        refine ⟨hok.trans ⟨fun ha => ⟨hlt, ha, by omega⟩, fun ha => ha.2.1⟩, ?_⟩
        split
        · refine ⟨hlimit, fun a ha => ?_, ?_, htracks⟩
          · rcases List.mem_cons.mp ha with rfl | ha
            · exact Nat.not_lt.mp hnew
            · exact h.le a ha
          · exact h.reached.imp id fun ⟨a, ha, heq⟩ => ⟨a, List.mem_cons_of_mem _ ha, heq⟩
        · rename_i hold
          have hmem : their ∈ accepted := by
            by_contra ha
            exact hold (hok.mpr ha)
          refine ⟨hlimit, h.le, h.reached, htracks.congr fun x => ?_⟩
          simp only [List.mem_cons, exists_eq_or_imp, or_iff_right_iff_imp]
          exact fun heq => ⟨their, hmem, heq⟩

end

/-! ### Runs -/

theorem indexHolds_of_64 {c : NoiseCounter 64} : c.IndexHolds their := by
  intro hlt
  have hbound : REJECT_AFTER_MESSAGES 64 < 2 ^ 64 := by decide
  left
  unfold NoiseCounter.ahead
  omega

theorem validateStep_follows (hw : w = 32 ∨ w = 64) {s t : NoiseCounter w × List Nat}
    (h : s.1.Follows s.2) (hindex : s.1.IndexHolds their) (hst : validateStep s their = some t) :
    t.1.Follows t.2 := by
  cases hst
  exact (counterValidate_spec hw h hindex).2

/-- In a run where, with 32 bits, each call counts its words rightly, every call answers
rightly: a counter is let through exactly when it is below the limit, was not let through
before, and no counter was let through that is more than the window ahead. -/
theorem counterValidate_iff {theirs : List Nat} {s : NoiseCounter w × List Nat}
    (hw : w = 64 ∨ w = 32 ∧ Run.Meets validateStep (fun s their => s.1.IndexHolds their)
      (NoiseCounter.zeroed w, []) (theirs ++ [their]))
    (hrun : Run.exec validateStep (NoiseCounter.zeroed w, []) theirs = some s) :
    ((counterValidate w s.1 their).1 = true ↔
      their < REJECT_AFTER_MESSAGES w ∧ their ∉ s.2 ∧
        ∀ a ∈ s.2, a ≤ their + COUNTER_WINDOW_SIZE w) ∧
    s.1.SumsFit their := by
  have hword : w = 32 ∨ w = 64 := hw.elim .inr fun h => .inl h.1
  have hmeets : Run.Meets validateStep (fun s their => s.1.IndexHolds their)
      (NoiseCounter.zeroed w, []) (theirs ++ [their]) := by
    rcases hw with rfl | ⟨-, h⟩
    · exact Run.meets_of_invariant (P := fun _ => True)
        (fun _ _ _ _ => ⟨indexHolds_of_64, fun _ _ => trivial⟩) trivial
    · exact h
  rw [← List.append_nil (theirs ++ [their])] at hmeets
  have hsplit := hmeets.split hrun
  have hfollows := Run.exec_guarded (P := fun s => s.1.Follows s.2) _
    (fun _ _ _ h hindex hst => validateStep_follows hword h hindex hst)
      (zeroed_follows hword) hsplit.1 hrun
  refine ⟨?_, sumsFit hword hfollows.limit their⟩
  rw [(counterValidate_spec hword hfollows hsplit.2.1).1]
  refine and_congr_right fun _ => and_congr_right fun _ => ⟨fun hle a ha => ?_, fun hall => ?_⟩
  · have := hfollows.le a ha
    omega
  · rcases hfollows.reached with hzero | ⟨a, ha, heq⟩
    · omega
    · have := hall a ha
      omega

/-- With 32 bits, a counter behind the largest one is still let through. -/
theorem reordered_accepted : ∃ s, Run.exec validateStep (NoiseCounter.zeroed 32, []) [7] = some s ∧
    (counterValidate 32 s.1 3).1 = true := by
  refine ⟨_, rfl, (@counterValidate_iff _ _ [7] _ (.inr ⟨rfl, ?_⟩) rfl).1.mpr ?_⟩
  · refine ⟨fun _ => .inl ?_, fun t _ => ⟨fun _ => .inl ?_, fun _ _ => trivial⟩⟩
    · decide
    · exact Nat.lt_of_le_of_lt (Nat.sub_le _ _) (by decide)
  · decide +kernel

/-- With 32 bits, a jump of 2^32 words clears nothing, and the bit of counter 0 makes
counter 2^37 look like one seen before. -/
theorem wideJump_refused : ∃ s, Run.exec validateStep (NoiseCounter.zeroed 32, []) [0] = some s ∧
    2 ^ 37 < REJECT_AFTER_MESSAGES 32 ∧ 2 ^ 37 ∉ s.2 ∧
    (∀ a ∈ s.2, a ≤ 2 ^ 37 + COUNTER_WINDOW_SIZE 32) ∧
    (counterValidate 32 s.1 (2 ^ 37)).1 = false := by
  refine ⟨_, rfl, ?_⟩
  decide +kernel

end Sewg.Kernel
