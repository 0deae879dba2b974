import Mathlib.Algebra.Group.Nat.Defs
import Mathlib.Data.List.Basic

/-! The replay window of `receive.c`, for `BITS_PER_LONG = w`. -/

namespace Sewg.Kernel

def COUNTER_BITS_TOTAL : Nat := 2048
def COUNTER_WINDOW_SIZE (w : Nat) : Nat := COUNTER_BITS_TOTAL - w
def REJECT_AFTER_MESSAGES (w : Nat) : Nat := (2 ^ 64 - 1) - COUNTER_WINDOW_SIZE w - 1

/-- The `receive` member of `union noise_counter`, without its lock. -/
structure NoiseCounter (w : Nat) where
  counter : Nat
  backtrack : Vector (BitVec w) (COUNTER_BITS_TOTAL / w)

def NoiseCounter.zeroed (w : Nat) : NoiseCounter w := ⟨0, .replicate _ 0⟩

section
variable (w : Nat)

/-- The loop over the words between the old position and the new one. -/
def clearWords (backtrack : Vector (BitVec w) (COUNTER_BITS_TOTAL / w)) (indexCurrent top : Nat) :
    Vector (BitVec w) (COUNTER_BITS_TOTAL / w) :=
  (List.range' 1 top).foldl
    (fun b i => b.setIfInBounds ((i + indexCurrent) &&& (COUNTER_BITS_TOTAL / w - 1)) 0) backtrack

/-- Whether the bit was set, and the words with it set. -/
def testAndSetBit (bit : Nat) (backtrack : Vector (BitVec w) (COUNTER_BITS_TOTAL / w))
    (index : Nat) : Bool × Vector (BitVec w) (COUNTER_BITS_TOTAL / w) :=
  let word := backtrack[index]?.getD 0
  (word.getLsbD bit, backtrack.setIfInBounds index (word ||| BitVec.twoPow w bit))

-- no `u64` sum wraps: both counters are below the limits by the time they are added to
def counterValidate (c : NoiseCounter w) (theirCounter : Nat) : Bool × NoiseCounter w :=
  if c.counter ≥ REJECT_AFTER_MESSAGES w + 1 ∨ theirCounter ≥ REJECT_AFTER_MESSAGES w then
    (false, c)
  else
    let theirCounter := theirCounter + 1
    if COUNTER_WINDOW_SIZE w + theirCounter < c.counter then (false, c)
    else
      let index := (theirCounter >>> Nat.log2 w) % 2 ^ w
      let c :=
        if theirCounter > c.counter then
          let indexCurrent := (c.counter >>> Nat.log2 w) % 2 ^ w
          let top := min ((index + 2 ^ w - indexCurrent) % 2 ^ w) (COUNTER_BITS_TOTAL / w)
          ⟨theirCounter, clearWords w c.backtrack indexCurrent top⟩
        else c
      let index := index &&& (COUNTER_BITS_TOTAL / w - 1)
      let (wasSet, backtrack) := testAndSetBit w (theirCounter &&& (w - 1)) c.backtrack index
      (!wasSet, { c with backtrack })

end

end Sewg.Kernel
