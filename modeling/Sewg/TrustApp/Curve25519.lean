import Sewg.TrustApp.Hex

/-! The entry points of `curve25519.c`. The Montgomery ladder itself, from the
clamped scalar to the product, is a parameter. -/

namespace Sewg.TrustApp
open CString

def nullPoint : Key := Vector.replicate WG_KEY_LEN 0

def basepoint : Key := nullPoint.set 0 9

/-- Clamping, one update of the source after the other. -/
def normalizeSecret (secret : Key) : Key :=
  let s := secret.set 0 (secret[0] &&& 248)
  let s := s.set 31 (s[31] &&& 127)
  s.set 31 (s[31] ||| 64)

def cryptoMemneq (x y : Key) : Bool := x != y

section
variable (ladder : Key → Key → Key)

/-- The scalar is copied and clamped before the ladder runs. -/
def curve25519Generic (scalar point : Key) : Key := ladder (normalizeSecret scalar) point

/-- The product, and whether it differs from zero. No architecture has a
faster path here. -/
def curve25519 (secret point : Key) : Key × Bool :=
  let mypublic := curve25519Generic ladder secret point
  (mypublic, cryptoMemneq mypublic nullPoint)

/-- A zero secret leaves `pub` unwritten. -/
def curve25519GeneratePublic (pub secret : Key) : Key × Bool :=
  if !cryptoMemneq secret nullPoint then (pub, false) else curve25519 ladder secret basepoint

end

def curve25519GenerateSecret (secret : Key) : Key := normalizeSecret secret

theorem clamp_bytes : ∀ b : UInt8, (b &&& 248) &&& 248 = b &&& 248 ∧
    ((((b &&& 127) ||| 64) &&& 127) ||| 64) = ((b &&& 127) ||| 64) ∧ ((b &&& 127) ||| 64) ≠ 0 :=
  forall_byte (by decide +kernel)

theorem normalizeSecret_get (secret : Key) (i : Nat) (h : i < WG_KEY_LEN) :
    (normalizeSecret secret)[i] =
      if i = 31 then (secret[31] &&& 127) ||| 64 else if i = 0 then secret[0] &&& 248
      else secret[i] := by
  unfold normalizeSecret
  by_cases h31 : i = 31
  · subst h31; simp
  · by_cases h0 : i = 0
    · subst h0; simp
    · simp [h31, h0, Ne.symm h31, Ne.symm h0]

theorem normalizeSecret_idem (secret : Key) :
    normalizeSecret (normalizeSecret secret) = normalizeSecret secret := by
  apply Vector.ext
  intro i hi
  rw [normalizeSecret_get _ i hi]
  split
  · rename_i h31
    subst h31
    simp only [normalizeSecret_get, ↓reduceIte]
    exact (clamp_bytes secret[31]).2.1
  · split
    · rename_i h0
      subst h0
      simp only [normalizeSecret_get, ↓reduceIte]
      exact (clamp_bytes secret[0]).1
    · rfl

theorem normalizeSecret_ne_null (secret : Key) : normalizeSecret secret ≠ nullPoint := by
  intro h
  have h31 : (normalizeSecret secret)[31] = nullPoint[31] := by rw [h]
  rw [normalizeSecret_get _ 31 (by decide), if_pos rfl] at h31
  exact (clamp_bytes secret[31]).2.2 (h31.trans (by simp [nullPoint]))

/-- Clamping twice is clamping once, so the public key is the ladder's value at
the secret clamped from what was drawn. -/
theorem generatePublic_clamped (ladder : Key → Key → Key) (pub secret : Key) :
    (curve25519GeneratePublic ladder pub (curve25519GenerateSecret secret)).1 =
      ladder (normalizeSecret secret) basepoint := by
  have hne : cryptoMemneq (normalizeSecret secret) nullPoint = true := by
    simp [cryptoMemneq, normalizeSecret_ne_null]
  simp only [curve25519GeneratePublic, curve25519GenerateSecret, hne, Bool.not_true,
    Bool.false_eq_true, ↓reduceIte, curve25519, curve25519Generic, normalizeSecret_idem]

end Sewg.TrustApp
