import Mathlib.Data.List.Induction
import Sewg.Lib.Window

/-! The replay filter of `replay/replay.go`, for a `uintptr` of `w` bits. `BacktrackWords`
divides by the size of a word in bytes, so that the ring is eight times as large as
the window needs. -/

namespace Sewg.Go

open Window

def Wordm (w : Nat) : Nat := 2 ^ w - 1

def WordLogSize (w : Nat) : Nat :=
  (Wordm w >>> 8 &&& 1) + (Wordm w >>> 16 &&& 1) + (Wordm w >>> 32 &&& 1)

def WordSize (w : Nat) : Nat := 1 <<< WordLogSize w

def CounterRedundantBitsLog (w : Nat) : Nat := WordLogSize w + 3
def CounterRedundantBits (w : Nat) : Nat := WordSize w * 8
def CounterBitsTotal : Nat := 2048
def CounterWindowSize (w : Nat) : Nat := CounterBitsTotal - CounterRedundantBits w
def BacktrackWords (w : Nat) : Nat := CounterBitsTotal / WordSize w

def minUint64 (a b : Nat) : Nat := if a > b then b else a

structure ReplayFilter (w : Nat) where
  counter : Nat
  backtrack : Vector (BitVec w) (BacktrackWords w)

namespace ReplayFilter

variable {w : Nat}

def Init (filter : ReplayFilter w) : ReplayFilter w :=
  ⟨0, filter.backtrack.setIfInBounds 0 0⟩

/-- The loop over the words between the old position and the new one. -/
def clearWords (backtrack : Vector (BitVec w) (BacktrackWords w)) (current diff : Nat) :
    Vector (BitVec w) (BacktrackWords w) :=
  (List.range' 1 diff).foldl
    (fun backtrack i => backtrack.setIfInBounds ((current + i) % BacktrackWords w) 0) backtrack

/-- "check and set bit" -/
def checkAndSet (filter : ReplayFilter w) (counter indexWord : Nat) : Bool × ReplayFilter w :=
  let indexWord := indexWord % BacktrackWords w
  let indexBit := counter &&& (CounterRedundantBits w - 1)
  let oldValue := filter.backtrack[indexWord]?.getD 0
  let newValue := oldValue ||| BitVec.twoPow w indexBit
  (oldValue != newValue,
    { filter with backtrack := filter.backtrack.setIfInBounds indexWord newValue })

-- no `uint64` operation wraps: both differences are taken of the larger and the smaller
-- number, and a shifted counter is far from the limit
def ValidateCounter (filter : ReplayFilter w) (counter limit : Nat) : Bool × ReplayFilter w :=
  if counter ≥ limit then (false, filter)
  else
    let indexWord := counter >>> CounterRedundantBitsLog w
    if counter > filter.counter then
      let current := filter.counter >>> CounterRedundantBitsLog w
      let diff := minUint64 (indexWord - current) (BacktrackWords w)
      checkAndSet ⟨counter, clearWords filter.backtrack current diff⟩ counter indexWord
    else if filter.counter - counter > CounterWindowSize w then (false, filter)
    else checkAndSet filter counter indexWord

/-- One call, with the counters let through so far, the last one first. -/
def call (s : ReplayFilter w × List Nat) (args : Nat × Nat) : ReplayFilter w × List Nat :=
  let (ok, filter) := s.1.ValidateCounter args.1 args.2
  (filter, if ok then args.1 :: s.2 else s.2)

/-- The filter after calls with these counters and limits, and the counters that were
let through. -/
def callAll (filter : ReplayFilter w) (calls : List (Nat × Nat)) : ReplayFilter w × List Nat :=
  calls.foldl call (filter, [])

/-- The sizes of a `uintptr`. -/
def IsWord (w : Nat) : Prop := w = 32 ∨ w = 64

section
variable {filter : ReplayFilter w} {accepted : List Nat} {c limit : Nat}

theorem IsWord.pos (hw : IsWord w) : 0 < w := by
  rcases hw with rfl | rfl <;> decide

theorem IsWord.words_pos (hw : IsWord w) : 0 < BacktrackWords w := by
  rcases hw with rfl | rfl <;> decide

theorem IsWord.window_le (hw : IsWord w) : CounterWindowSize w ≤ (BacktrackWords w - 1) * w := by
  rcases hw with rfl | rfl <;> decide

theorem IsWord.shift_eq (hw : IsWord w) (c : Nat) : c >>> CounterRedundantBitsLog w = c / w := by
  have hpow : 2 ^ CounterRedundantBitsLog w = w := by rcases hw with rfl | rfl <;> decide
  rw [Nat.shiftRight_eq_div_pow, hpow]

theorem IsWord.mask_eq (hw : IsWord w) (c : Nat) : c &&& (CounterRedundantBits w - 1) = c % w := by
  rcases hw with rfl | rfl
  · exact Nat.and_two_pow_sub_one_eq_mod c 5
  · exact Nat.and_two_pow_sub_one_eq_mod c 6

theorem or_twoPow_ne {v : BitVec w} {i : Nat} (hi : i < w) :
    (v != v ||| BitVec.twoPow w i) = true ↔ v.getLsbD i = false := by
  rw [bne_iff_ne]
  constructor
  · intro hne
    by_contra hset
    refine hne (BitVec.eq_of_getLsbD_eq fun j _ => ?_)
    rw [BitVec.getLsbD_or, BitVec.getLsbD_twoPow]
    by_cases hij : i = j
    · rw [← hij, eq_true_of_ne_false hset, Bool.true_or]
    · simp [hij]
  · intro hclear heq
    have hset : (v ||| BitVec.twoPow w i).getLsbD i = true := by
      rw [BitVec.getLsbD_or, BitVec.getLsbD_twoPow, decide_eq_true hi, decide_eq_true rfl,
        Bool.and_true, Bool.or_true]
    rw [← heq, hclear] at hset
    cases hset

/-- What the filter has after some calls that let `accepted` through. -/
structure Follows (filter : ReplayFilter w) (accepted : List Nat) : Prop where
  le : ∀ c ∈ accepted, c ≤ filter.counter
  tracks : Tracks filter.backtrack filter.counter (· ∈ accepted)

theorem Init_follows (hw : IsWord w) (filter : ReplayFilter w) : filter.Init.Follows [] := by
  refine ⟨nofun, fun c hc _ => ?_⟩
  have hzero : c / w = 0 := by
    rw [Init, Nat.zero_div] at hc
    exact Nat.le_zero.mp hc
  rw [Ring.has, hzero, Nat.zero_mod, Init, word_set_self hw.words_pos]
  simp

/-- The end of `ValidateCounter`, for a counter of the window. -/
theorem checkAndSet_spec (hw : IsWord w) (h : filter.Follows accepted) (hc : c ≤ filter.counter)
    (hwindow : filter.counter ≤ c + CounterWindowSize w) :
    ((filter.checkAndSet c (c >>> CounterRedundantBitsLog w)).1 = true ↔ c ∉ accepted) ∧
      (filter.checkAndSet c (c >>> CounterRedundantBitsLog w)).2.counter = filter.counter ∧
      (filter.checkAndSet c (c >>> CounterRedundantBitsLog w)).2.Follows (c :: accepted) := by
  have hle : c / w ≤ filter.counter / w := Nat.div_le_div_right hc
  have hring := in_ring hw.pos hw.words_pos hw.window_le hwindow
  have hbit : (Ring.has filter.backtrack c = true) ↔ c ∈ accepted := h.tracks c hle hring
  unfold checkAndSet
  rw [hw.shift_eq, hw.mask_eq]
  refine ⟨?_, rfl, ?_, ?_⟩
  · rw [← hbit, Bool.not_eq_true]
    exact or_twoPow_ne (Nat.mod_lt c hw.pos)
  · intro x hx
    rcases List.mem_cons.mp hx with rfl | hx
    · exact hc
    · exact h.le x hx
  · exact (h.tracks.mark hw.pos hw.words_pos hle hring).congr fun x => List.mem_cons.symm

theorem clearWords_follows (hw : IsWord w) (h : filter.Follows accepted) (hc : filter.counter < c) :
    Follows ⟨c, clearWords filter.backtrack (filter.counter >>> CounterRedundantBitsLog w)
      (minUint64 (c >>> CounterRedundantBitsLog w - filter.counter >>> CounterRedundantBitsLog w)
        (BacktrackWords w))⟩ accepted := by
  refine ⟨fun x hx => Nat.le_trans (h.le x hx) (Nat.le_of_lt hc), ?_⟩
  refine h.tracks.advance hw.words_pos h.le (Nat.le_of_lt hc) (fun i => ?_) ?_
  · rw [hw.shift_eq]
  · dsimp only
    rw [hw.shift_eq, hw.shift_eq, minUint64]
    split <;> omega

theorem ValidateCounter_spec (hw : IsWord w) (h : filter.Follows accepted) (c limit : Nat) :
    ((filter.ValidateCounter c limit).1 = true ↔
      c < limit ∧ c ∉ accepted ∧ filter.counter ≤ c + CounterWindowSize w) ∧
    (filter.ValidateCounter c limit).2.counter =
      (if c < limit then max filter.counter c else filter.counter) ∧
    (filter.ValidateCounter c limit).2.Follows
      (if (filter.ValidateCounter c limit).1 then c :: accepted else accepted) := by
  unfold ValidateCounter
  by_cases hlimit : c ≥ limit
  · rw [if_pos hlimit, if_neg (Nat.not_lt.mpr hlimit)]
    exact ⟨⟨nofun, fun hc => absurd hc.1 (Nat.not_lt.mpr hlimit)⟩, rfl, h⟩
  · have hlt := Nat.not_le.mp hlimit
    rw [if_neg hlimit, if_pos hlt]
    dsimp only
    by_cases hnew : c > filter.counter
    · have hfresh : c ∉ accepted := fun hc => absurd (h.le c hc) (Nat.not_le.mpr hnew)
      obtain ⟨hok, hcounter, hnext⟩ :=
        checkAndSet_spec hw (clearWords_follows hw h hnew) (Nat.le_refl c) (Nat.le_add_right c _)
      rw [if_pos hnew, hok.mpr hfresh, if_pos rfl]
      exact ⟨⟨fun _ => ⟨hlt, hfresh, by omega⟩, fun _ => rfl⟩,
        hcounter.trans (by dsimp only; omega), hnext⟩
    · rw [if_neg hnew]
      by_cases hbehind : filter.counter - c > CounterWindowSize w
      · rw [if_pos hbehind]
        exact ⟨⟨nofun, fun hc => by omega⟩, by dsimp only; omega, h⟩
      · have hwindow : filter.counter ≤ c + CounterWindowSize w := by omega
        obtain ⟨hok, hcounter, hnext⟩ := checkAndSet_spec hw h (Nat.not_lt.mp hnew) hwindow
        rw [if_neg hbehind]
        refine ⟨hok.trans ⟨fun hc => ⟨hlt, hc, hwindow⟩, fun hc => hc.2.1⟩, ?_, ?_⟩
        · rw [hcounter]
          omega
        · split
          · exact hnext
          · rename_i hold
            have hmem : c ∈ accepted := by
              by_contra hc
              exact hold (hok.mpr hc)
            refine ⟨fun x hx => hnext.le x (List.mem_cons_of_mem c hx),
              hnext.tracks.congr fun x => ?_⟩
            rw [List.mem_cons, or_iff_right_iff_imp]
            rintro rfl
            exact hmem

/-- The filter's counter is the largest below its limit so far, or 0. -/
structure Largest (counter : Nat) (calls : List (Nat × Nat)) : Prop where
  le : ∀ args ∈ calls, args.1 < args.2 → args.1 ≤ counter
  reached : counter = 0 ∨ ∃ args ∈ calls, args.1 < args.2 ∧ args.1 = counter

theorem Largest.concat {counter : Nat} {calls : List (Nat × Nat)} (h : Largest counter calls)
    (args : Nat × Nat) :
    Largest (if args.1 < args.2 then max counter args.1 else counter) (calls ++ [args]) := by
  split
  · rename_i hlt
    refine ⟨fun a ha hal => ?_, ?_⟩
    · rcases List.mem_append.mp ha with ha | ha
      · exact Nat.le_trans (h.le a ha hal) (Nat.le_max_left _ _)
      · rw [List.mem_singleton.mp ha]
        exact Nat.le_max_right _ _
    · rcases Nat.le_total counter args.1 with hle | hle
      · exact .inr ⟨args, by simp, hlt, (Nat.max_eq_right hle).symm⟩
      · rw [Nat.max_eq_left hle]
        exact h.reached.imp id fun ⟨a, ha, hal, hac⟩ => ⟨a, List.mem_append_left _ ha, hal, hac⟩
  · rename_i hge
    refine ⟨fun a ha hal => ?_, ?_⟩
    · rcases List.mem_append.mp ha with ha | ha
      · exact h.le a ha hal
      · rw [List.mem_singleton.mp ha] at hal
        exact absurd hal hge
    · exact h.reached.imp id fun ⟨a, ha, hal, hac⟩ => ⟨a, List.mem_append_left _ ha, hal, hac⟩

theorem callAll_spec (hw : IsWord w) (filter : ReplayFilter w) (calls : List (Nat × Nat)) :
    (filter.Init.callAll calls).1.Follows (filter.Init.callAll calls).2 ∧
      Largest (filter.Init.callAll calls).1.counter calls := by
  induction calls using List.reverseRecOn with
  | nil => exact ⟨Init_follows hw filter, nofun, .inl rfl⟩
  | append_singleton calls args ih =>
    obtain ⟨-, hcounter, hnext⟩ := ValidateCounter_spec hw ih.1 args.1 args.2
    have hstep : filter.Init.callAll (calls ++ [args]) = call (filter.Init.callAll calls) args := by
      rw [callAll, List.foldl_concat, callAll]
    rw [hstep, call]
    refine ⟨hnext, ?_⟩
    dsimp only
    rw [hcounter]
    exact ih.2.concat args

/-- After any calls, a counter is let through exactly when it is below the limit, was not
let through before, and no counter below its limit was more than the window ahead. -/
theorem ValidateCounter_iff (hw : IsWord w) (filter : ReplayFilter w) (calls : List (Nat × Nat))
    (c limit : Nat) :
    ((filter.Init.callAll calls).1.ValidateCounter c limit).1 = true ↔
      c < limit ∧ c ∉ (filter.Init.callAll calls).2 ∧
        ∀ args ∈ calls, args.1 < args.2 → args.1 ≤ c + CounterWindowSize w := by
  obtain ⟨hfollows, hlargest⟩ := callAll_spec hw filter calls
  rw [(ValidateCounter_spec hw hfollows c limit).1]
  refine and_congr_right fun _ => and_congr_right fun _ =>
    ⟨fun hle args ha hal => ?_, fun hall => ?_⟩
  · exact Nat.le_trans (hlargest.le args ha hal) hle
  · rcases hlargest.reached with hzero | ⟨args, ha, hal, hac⟩
    · omega
    · rw [← hac]
      exact hall args ha hal

/-- A filter that was used before, with every bit set. -/
def usedFilter : ReplayFilter 64 := ⟨7, .replicate _ (BitVec.allOnes 64)⟩

theorem usedFilter_accepts : IsWord 64 ∧
    ((usedFilter.Init.callAll [(5, 2 ^ 64), (300, 2 ^ 64)]).1.ValidateCounter 70
      (2 ^ 64)).1 = true := by
  refine ⟨.inr rfl, (ValidateCounter_iff (.inr rfl) usedFilter _ 70 _).mpr ?_⟩
  decide +kernel

end

end ReplayFilter

end Sewg.Go
