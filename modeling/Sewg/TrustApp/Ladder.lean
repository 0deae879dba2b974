import Mathlib.Tactic.Ring
import Sewg.TrustApp.Curve25519

/-! The loop of `curve25519_generic`, with the field as any commutative ring. -/

namespace Sewg.TrustApp

/-- `(x2, z2)` and `(x3, z3)`. -/
abbrev Rungs (R : Type) := (R × R) × R × R

/-- The bits of the scalar from `pos = 254` down. -/
def scalarBits (e : Key) : List Bool :=
  (List.range 255).reverse.map fun pos => (e[pos / 8]! >>> UInt8.ofNat (pos &&& 7)) &&& 1 = 1

section
variable {R : Type} [CommRing R]

/-- `fe_cswap` on `x2`, `x3` and on `z2`, `z3`. -/
def feCswap (swap : Bool) (s : Rungs R) : Rungs R := if swap then s.swap else s

/-- A turn after the swaps. -/
def ladderStep (x1 : R) : Rungs R → Rungs R
  | ((x2, z2), x3, z3) =>
    let z3' := (x3 - z3) * (x2 + z2)
    let z2' := (x3 + z3) * (x2 - z2)
    let tmp0 := (x2 - z2) ^ 2
    let tmp1 := (x2 + z2) ^ 2
    ((tmp1 * tmp0, (tmp1 - tmp0) * (tmp0 + 121666 * (tmp1 - tmp0))),
      (z3' + z2') ^ 2, x1 * (z3' - z2') ^ 2)

/-- The loop and the swap after it. -/
def ladderLoop (x1 : R) : List Bool → Bool → Rungs R → Rungs R
  | [], swap, s => feCswap swap s
  | b :: bits, swap, s => ladderLoop x1 bits b (ladderStep x1 (feCswap (swap ^^ b) s))

variable (frombytes : Key → R) (quotient : R × R → Key)

/-- `quotient` is `fe_invert`, the product and `fe_tobytes`. -/
def ladder (e point : Key) : Key :=
  quotient (ladderLoop (frombytes point) (scalarBits e) false ((1, 0), frombytes point, 1)).1

/-- One bit of a Montgomery ladder: the sum, and the double of one of the two. -/
def ladderBit (x1 : R) (s : Rungs R) (b : Bool) : Rungs R :=
  if b then ((ladderStep x1 s).2, (ladderStep x1 s.swap).1) else ladderStep x1 s

theorem ladderBit_eq (x1 : R) (s : Rungs R) (b : Bool) :
    ladderBit x1 s b = feCswap b (ladderStep x1 (feCswap b s)) := by
  obtain ⟨⟨x2, z2⟩, x3, z3⟩ := s
  cases b with
  | false => rfl
  | true =>
    simp only [ladderBit, feCswap, ladderStep, ↓reduceIte, Prod.swap_prod_mk,
      Prod.mk.injEq, and_true]
    constructor <;> ring

theorem ladderLoop_eq (x1 : R) (bits : List Bool) (swap : Bool) (s : Rungs R) :
    ladderLoop x1 bits swap s = bits.foldl (ladderBit x1) (feCswap swap s) := by
  induction bits generalizing swap s with
  | nil => rfl
  | cons b bits ih =>
    rw [ladderLoop, ih, List.foldl_cons, ladderBit_eq]
    cases swap <;> cases b <;> simp [feCswap]

/-- Merging each swap with the one before it changes no result. -/
theorem curve25519_deferred_swaps (scalar point : Key) :
    curve25519Generic (ladder frombytes quotient) scalar point =
      quotient ((scalarBits (normalizeSecret scalar)).foldl (ladderBit (frombytes point))
        ((1, 0), frombytes point, 1)).1 := by
  simp [curve25519Generic, ladder, ladderLoop_eq, feCswap]

end

end Sewg.TrustApp
