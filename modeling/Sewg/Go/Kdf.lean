import Mathlib.Logic.Function.Basic
import Sewg.Go.Noise
import Sewg.Kernel.Noise

/-! The key derivation of `noise-helpers.go` and of `noise.c`, on the buffers that they read and
write. A destination may be the buffer of the chaining key or of the input. -/

namespace Sewg
open CString Noise

abbrev HASH_SIZE : Nat := 32

/-- Buffers are numbered, and do not overlap. -/
abbrev Buffers := Nat → Bytes

/-- Put bytes at the start of a buffer. -/
def Buffers.store (m : Buffers) (dst : Nat) (bytes : Bytes) : Buffers :=
  Function.update m dst (bytes ++ (m dst).drop bytes.length)

namespace Go.InPlace
variable (p : Primitives)

def HMAC1 (m : Buffers) (sum : Nat) (key in0 : Bytes) : Buffers := m.store sum (p.hmac key in0)

def HMAC2 (m : Buffers) (sum : Nat) (key in0 in1 : Bytes) : Buffers :=
  m.store sum (p.hmac key (in0 ++ in1))

/-- `t0[:]` for an array. -/
def array (m : Buffers) (t : Nat) : Bytes := (m t).take HASH_SIZE

def KDF1 (m : Buffers) (t0 key input : Nat) : Buffers :=
  let m := HMAC1 p m t0 (m key) (m input)
  HMAC1 p m t0 (array m t0) [1]

-- nobody else has `prk`
def KDF2 (m : Buffers) (t0 t1 key input : Nat) : Buffers :=
  let prk := p.hmac (m key) (m input)
  let m := HMAC1 p m t0 prk [1]
  HMAC2 p m t1 prk (array m t0) [2]

def KDF3 (m : Buffers) (t0 t1 t2 key input : Nat) : Buffers :=
  let prk := p.hmac (m key) (m input)
  let m := HMAC1 p m t0 prk [1]
  let m := HMAC2 p m t1 prk (array m t0) [2]
  HMAC2 p m t2 prk (array m t1) [3]

end Go.InPlace

namespace Kernel.InPlace
variable (p : Primitives)

/-- `blake2s_hmac` with the input, of `inlen` bytes, and the output in the same place. -/
def blake2sHmac (output key : Bytes) (inlen : Nat) : Bytes :=
  p.hmac key (output.take inlen) ++ output.drop HASH_SIZE

/-- A destination and the length that goes with it. -/
structure Dst where
  dst : Option Nat
  len : Nat

/-- `goto out` when there is no destination. -/
def Dst.put (d : Dst) (m : Buffers) (output : Bytes) (next : Buffers → Buffers) : Buffers :=
  match d.dst with
  | none => m
  | some dst => if d.len = 0 then m else next (m.store dst (output.take d.len))

/-- `output` is the scratch buffer, as the stack has left it. -/
def kdf (m : Buffers) (first second third : Dst) (data chainingKey : Nat)
    (output : Bytes) : Buffers :=
  let secret := p.hmac ((m chainingKey).take HASH_SIZE) (m data)
  let output := blake2sHmac p (output.set 0 1) secret 1
  first.put m output fun m =>
    let output := blake2sHmac p (output.set HASH_SIZE 2) secret (HASH_SIZE + 1)
    second.put m output fun m =>
      let output := blake2sHmac p (output.set HASH_SIZE 3) secret (HASH_SIZE + 1)
      third.put m output id

def whole (dst : Nat) : Dst := ⟨some dst, HASH_SIZE⟩
def nowhere : Dst := ⟨none, 0⟩

end Kernel.InPlace

open Go.InPlace Kernel.InPlace

theorem array_other {dst t : Nat} (h : t ≠ dst) (m : Buffers) (bytes : Bytes) :
    array (m.store dst bytes) t = array m t := by
  simp [array, Buffers.store, h]

section
variable {p : Primitives} (hlen : ∀ key data, (p.hmac key data).length = HASH_SIZE)
include hlen

@[simp] theorem take_hmac (key data rest : Bytes) :
    (p.hmac key data ++ rest).take HASH_SIZE = p.hmac key data := by
  rw [← hlen key data, List.take_left]

theorem array_store (m : Buffers) (dst : Nat) (key data : Bytes) :
    array (m.store dst (p.hmac key data)) dst = p.hmac key data := by
  simp [array, Buffers.store, take_hmac hlen]

/-- The byte behind the first 32 of the scratch buffer takes the counter. -/
theorem counter_set (key data : Bytes) (x counter : UInt8) :
    (p.hmac key data ++ [x]).set HASH_SIZE counter = p.hmac key data ++ [counter] := by
  rw [List.set_append_right _ _ (Nat.le_of_eq (hlen key data)), hlen]
  rfl

theorem blake2sHmac_counter (secret key data : Bytes) (counter : UInt8) :
    blake2sHmac p (p.hmac key data ++ [counter]) secret (HASH_SIZE + 1) =
      p.hmac secret (p.hmac key data ++ [counter]) ++ [counter] := by
  have whole : (p.hmac key data ++ [counter]).length = HASH_SIZE + 1 := by simp [hlen]
  rw [blake2sHmac, ← whole, List.take_length, ← hlen key data, List.drop_left]

theorem store_store (m : Buffers) (dst : Nat) (key data key' data' : Bytes) :
    (m.store dst (p.hmac key data)).store dst (p.hmac key' data') =
      m.store dst (p.hmac key' data') := by
  simp [Buffers.store, hlen]

/-- Two ways to the same buffers, whatever the destinations have in common with each other, with the
chaining key or with the input. -/
theorem kdf_buffers (m : Buffers) (t0 t1 t2 key input : Nat) (hkey : (m key).length = HASH_SIZE)
    (output : Bytes) (hout : output.length = HASH_SIZE + 1) :
    KDF1 p m t0 key input = kdf p m (whole t0) nowhere nowhere input key output ∧
    KDF2 p m t0 t1 key input = kdf p m (whole t0) (whole t1) nowhere input key output ∧
    KDF3 p m t0 t1 t2 key input = kdf p m (whole t0) (whole t1) (whole t2) input key output := by
  obtain ⟨x, last⟩ : ∃ x, (output.set 0 1).drop HASH_SIZE = [x] := by
    apply List.length_eq_one_iff.mp
    simp [hout]
  have one : (output.set 0 1).take 1 = [1] := by
    cases output with
    | nil => simp at hout
    | cons c cs => rfl
  have first : ∀ secret, blake2sHmac p (output.set 0 1) secret 1 = p.hmac secret [1] ++ [x] := by
    intro secret
    rw [blake2sHmac, one, last]
  have secret : (m key).take HASH_SIZE = m key := by rw [← hkey, List.take_length]
  simp only [kdf, secret, first, Dst.put, whole, nowhere, counter_set hlen,
    blake2sHmac_counter hlen, take_hmac hlen,
    KDF1, KDF2, KDF3, HMAC1, HMAC2, array_store hlen, store_store hlen, HASH_SIZE, Nat.reduceEqDiff,
    ↓reduceIte, id, and_self]

/-- The buffers are the same on both sides, also when the first output overwrites the chaining key.
Destinations of their own get the outputs of the kernel's derivation, the shorter derivations the
first of them. -/
theorem kdf_in_place (m : Buffers) (t0 t1 t2 key input : Nat) (hkey : (m key).length = HASH_SIZE)
    (output : Bytes) (hout : output.length = HASH_SIZE + 1) :
    (KDF1 p m t0 key input = kdf p m (whole t0) nowhere nowhere input key output ∧
      KDF2 p m t0 t1 key input = kdf p m (whole t0) (whole t1) nowhere input key output ∧
      KDF3 p m t0 t1 t2 key input = kdf p m (whole t0) (whole t1) (whole t2) input key output) ∧
    (t0 ≠ t1 → t0 ≠ t2 → t1 ≠ t2 →
      let out := Kernel.kdf p (m key) (m input)
      let written := KDF3 p m t0 t1 t2 key input
      (array written t0, array written t1, array written t2) = out ∧
      array (KDF1 p m t0 key input) t0 = out.1 ∧
      (array (KDF2 p m t0 t1 key input) t0, array (KDF2 p m t0 t1 key input) t1) =
        (out.1, out.2.1)) := by
  refine ⟨kdf_buffers hlen m t0 t1 t2 key input hkey output hout, ?_⟩
  intro h01 h02 h12
  simp only [KDF1, KDF2, KDF3, HMAC1, HMAC2, array_store hlen, array_other h01, array_other h02,
    array_other h12, Kernel.kdf, and_self]
end

/-- Primitives whose keyed hash repeats the first byte of the key. -/
def repeating : Primitives where
  hash := id
  hmac key data := .replicate HASH_SIZE (key.headD 0 + data.headD 0)
  dh scalar _ := scalar
  base := []
  aeadSeal _ text _ := text
  aeadOpen _ text _ := some text

/-- `KDF2` with the chaining key in buffer 0 as its first output. -/
theorem kdf2_over_chainingKey :
    KDF2 repeating (fun _ => .replicate HASH_SIZE 7) 0 1 0 2 =
        kdf repeating (fun _ => .replicate HASH_SIZE 7) (whole 0) (whole 1) nowhere 2 0
          (.replicate 33 0) ∧
      array (KDF1 repeating (fun _ => .replicate HASH_SIZE 7) 0 0 2) 0 =
        .replicate HASH_SIZE 15 := by
  have h := @kdf_in_place repeating (fun _ _ => List.length_replicate)
    (fun _ => .replicate HASH_SIZE 7) 0 1 3 0 2
    List.length_replicate (.replicate 33 0) List.length_replicate
  exact ⟨h.1.2.1, (h.2 (by decide) (by decide) (by decide)).2.1⟩

end Sewg
