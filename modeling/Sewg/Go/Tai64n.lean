import Mathlib.Algebra.Group.Int.Defs
import Sewg.Go.Noise
import Sewg.Lib.Words

/-! `tai64n.go`: the timestamp of an initiation, built from the clock. -/

namespace Sewg.Go.Tai64n
open CString Words

/-- What `time.Now` reads from a clock that is past 1970. The seconds it
returns are an `int64`. -/
structure Instant where
  nanoseconds : Nat
  representable : nanoseconds / 10 ^ 9 < 2 ^ 63

def base : Nat := 4611686018427387914

def Instant.unix (t : Instant) : Nat := t.nanoseconds / 10 ^ 9

/-- An `int64`, so it wraps from the year 2262 on. -/
def Instant.unixNano (t : Instant) : Int := (t.nanoseconds : Int).bmod (2 ^ 64)

def secs (now : Instant) : Nat := (base + now.unix) % 2 ^ 64

/-- The count of all nanoseconds is cut to 32 bits, not the part below a second. -/
def nano (now : Instant) : Nat := (now.unixNano % 2 ^ 32).toNat

def now (t : Instant) : Bytes := writeBE 8 (secs t) ++ writeBE 4 (nano t)

theorem secs_eq (t : Instant) : secs t = base + t.unix := by
  have h := t.representable
  rw [secs, Nat.mod_eq_of_lt]
  unfold base Instant.unix
  omega

theorem nano_eq (t : Instant) : nano t = t.nanoseconds % 2 ^ 32 := by
  have hdvd : (2 ^ 32 : Int) ∣ ((2 ^ 64 : Nat) : Int) := by decide
  have hwrap : t.unixNano % 2 ^ 32 = (t.nanoseconds : Int) % 2 ^ 32 := by
    unfold Instant.unixNano
    rw [← Int.emod_emod_of_dvd (Int.bmod _ _) hdvd, Int.bmod_emod, Int.emod_emod_of_dvd _ hdvd]
  rw [nano, hwrap]
  omega

/-- The seconds decide, and where they agree the low words of the two counts. -/
theorem after_iff_fields (t₁ t₂ : Instant) :
    After (now t₂) (now t₁) ↔
      t₁.unix < t₂.unix ∨
        t₁.unix = t₂.unix ∧ t₁.nanoseconds % 2 ^ 32 < t₂.nanoseconds % 2 ^ 32 := by
  have hsecs (t : Instant) : secs t < 2 ^ (8 * 8) := Nat.mod_lt _ (by decide)
  have hnano (t : Instant) : nano t < 2 ^ (8 * 4) := by
    rw [nano_eq]
    exact Nat.mod_lt _ (by decide)
  unfold After now
  rw [append_lt_append_iff (by rw [length_writeBE, length_writeBE]),
    writeBE_lt_iff (hsecs t₁) (hsecs t₂), writeBE_inj (hsecs t₁) (hsecs t₂),
    writeBE_lt_iff (hnano t₁) (hnano t₂), secs_eq, secs_eq, nano_eq, nano_eq]
  omega

/-- A later instant has a later timestamp, unless both fall into one second and
the count of nanoseconds passes a multiple of `2 ^ 32` between them. -/
theorem after_now_iff (t₁ t₂ : Instant) (h : t₁.nanoseconds < t₂.nanoseconds) :
    After (now t₂) (now t₁) ↔
      t₁.unix ≠ t₂.unix ∨ t₁.nanoseconds / 2 ^ 32 = t₂.nanoseconds / 2 ^ 32 := by
  rw [after_iff_fields]
  unfold Instant.unix
  -- within one second the counts differ by less than one turn of the low word
  omega

theorem after_now_second_later :
    After (now ⟨2500000000, by decide⟩) (now ⟨1500000000, by decide⟩) :=
  (after_now_iff ⟨1500000000, by decide⟩ ⟨2500000000, by decide⟩ (by decide)).mpr
    (.inl (by decide))

/-- In the fifth second of 1970 the low word turns over. -/
theorem not_after_within_second :
    ∃ t₁ t₂ : Instant, t₁.nanoseconds < t₂.nanoseconds ∧ t₁.unix = t₂.unix ∧
      ¬After (now t₂) (now t₁) :=
  ⟨⟨4294967295, by decide⟩, ⟨4294967296, by decide⟩, by decide, by decide, by decide⟩

end Sewg.Go.Tai64n
