import Mathlib.Data.List.GetD
import Sewg.Lib.CString

/-! `encoding.c` of the tools: keys as base64 text. The arithmetic is that of `int`, where a shift
to the right keeps the sign, and a `char` is signed or not as the compiler has it. -/

namespace Sewg.Kernel

open CString

abbrev WG_KEY_LEN : Nat := 32
abbrev WG_KEY_LEN_BASE64 : Nat := (WG_KEY_LEN + 2) / 3 * 4 + 1

/-- A `uint8_t` as an `int`. -/
def promoted (b : UInt8) : Int32 := b.toUInt32.toInt32

/-- A `char` as an `int`. -/
def promotedChar (charSigned : Bool) (c : UInt8) : Int32 :=
  if charSigned then c.toInt8.toInt32 else promoted c

/-- An `int` put into a byte. -/
def stored (x : Int32) : UInt8 := x.toUInt32.toUInt8

/-! ### To base64 -/

def encodeBase64Char (input : UInt8) : UInt8 :=
  let input := promoted input
  stored (input + 65 + (((25 - input) >>> (8 : Int32)) &&& 6) -
    (((51 - input) >>> (8 : Int32)) &&& 75) -
    (((61 - input) >>> (8 : Int32)) &&& 15) + (((62 - input) >>> (8 : Int32)) &&& 3))

def encodeBase64 (src₀ src₁ src₂ : UInt8) : Bytes :=
  let src₀ := promoted src₀
  let src₁ := promoted src₁
  let src₂ := promoted src₂
  [(src₀ >>> (2 : Int32)) &&& 63, ((src₀ <<< (4 : Int32)) ||| (src₁ >>> (4 : Int32))) &&& 63,
    ((src₁ <<< (2 : Int32)) ||| (src₂ >>> (6 : Int32))) &&& 63, src₂ &&& 63].map fun input =>
      encodeBase64Char (stored input)

/-- What is written to `base64`, with its terminator. -/
def keyToBase64 (key : Bytes) : Bytes :=
  let key := fun i => key.getD i 0
  let groups := (List.range (WG_KEY_LEN / 3)).flatMap fun i =>
    encodeBase64 (key (3 * i)) (key (3 * i + 1)) (key (3 * i + 2))
  -- the padding replaces the last character of the last group
  groups ++ (encodeBase64 (key 30) (key 31) 0).take 3 ++ [61, 0]

/-! ### From base64 -/

/-- Some bits of a mask when `c` is between the two, and none when it is not. -/
def between (below above c : Int32) : Int32 := ((below - c) &&& (c - above)) >>> (8 : Int32)

/-- The summand of one character. -/
def decodeBase64Char (c : Int32) : Int32 :=
  -1 + (between 64 91 c &&& (c - 64)) + (between 96 123 c &&& (c - 70)) +
    (between 47 58 c &&& (c + 5)) + (between 42 44 c &&& 63) + (between 46 48 c &&& 64)

def decodeBase64 (charSigned : Bool) (src₀ src₁ src₂ src₃ : UInt8) : Int32 :=
  let val := fun c => decodeBase64Char (promotedChar charSigned c)
  (val src₀ <<< (18 : Int32)) ||| (val src₁ <<< (12 : Int32)) |||
    (val src₂ <<< (6 : Int32)) ||| val src₃

/-- The three bytes of a group. -/
def groupBytes (val : Int32) : Bytes :=
  [stored ((val >>> (16 : Int32)) &&& 0xff), stored ((val >>> (8 : Int32)) &&& 0xff),
    stored (val &&& 0xff)]

/-- What `key` holds afterwards, and what is returned. A text of the wrong shape leaves `key`
alone. -/
def keyFromBase64 (charSigned : Bool) (key : Bytes) (base64 : CStr) : Bytes × Bool :=
  if base64.strlen ≠ WG_KEY_LEN_BASE64 - 1 ∨ base64.text[WG_KEY_LEN_BASE64 - 2]? ≠ some 61
    then (key, false)
  else
    let base64 := fun i => base64.text[i]?.getD 0
    let vals := (List.range (WG_KEY_LEN / 3)).map fun i =>
      decodeBase64 charSigned (base64 (4 * i)) (base64 (4 * i + 1)) (base64 (4 * i + 2))
        (base64 (4 * i + 3))
    let val := decodeBase64 charSigned (base64 40) (base64 41) (base64 42) 65
    let ret : UInt8 :=
      vals.foldl (fun (ret : UInt8) (val : Int32) => ret ||| (val.toUInt32 >>> 31).toUInt8) 0
    let ret := ret ||| ((val.toUInt32 >>> 31) ||| (val &&& 0xff).toUInt32).toUInt8
    (vals.flatMap groupBytes ++ (groupBytes val).take 2,
      1 &&& ((promoted ret - 1) >>> (8 : Int32)) ≠ 0)

/-! ### The same in unsigned arithmetic -/

/-- The lower bits do not tell one kind of shift from the other. -/
theorem stored_shiftRight (x : Int32) {k : Nat} (hk : k ≤ 24) :
    ((x.toBitVec.sshiftRight k &&& 0xff#32).setWidth 8) = (x.toBitVec >>> k).setWidth 8 := by
  apply BitVec.eq_of_getLsbD_eq
  intro i hi
  have hmask : ∀ i < 8, (0xff#32).getLsbD i = true := by decide
  have hbound : k + i < 32 := by omega
  have hword : ¬ 32 ≤ i := by omega
  simp only [BitVec.getLsbD_setWidth, BitVec.getLsbD_and, BitVec.getLsbD_sshiftRight,
    BitVec.getLsbD_ushiftRight, hmask i hi, if_pos hbound]
  simp [hword]

theorem groupBytes_eq (val : Int32) : groupBytes val =
    [(val.toUInt32 >>> (16 : UInt32)).toUInt8, (val.toUInt32 >>> (8 : UInt32)).toUInt8,
      val.toUInt32.toUInt8] := by
  have h₁₆ :
      stored ((val >>> (16 : Int32)) &&& 0xff) = (val.toUInt32 >>> (16 : UInt32)).toUInt8 := by
    rw [stored, ← UInt8.toBitVec_inj]
    exact stored_shiftRight val (k := 16) (by decide)
  have h₈ : stored ((val >>> (8 : Int32)) &&& 0xff) = (val.toUInt32 >>> (8 : UInt32)).toUInt8 := by
    rw [stored, ← UInt8.toBitVec_inj]
    exact stored_shiftRight val (k := 8) (by decide)
  have h₀ : stored (val &&& 0xff) = val.toUInt32.toUInt8 := by
    rw [stored, ← UInt8.toBitVec_inj]
    have h := stored_shiftRight val (k := 0) (by decide)
    rw [BitVec.sshiftRight_zero, BitVec.ushiftRight_zero] at h
    exact h
  rw [groupBytes, h₁₆, h₈, h₀]

theorem toUInt32_decodeBase64 (charSigned : Bool) (src₀ src₁ src₂ src₃ : UInt8) :
    (decodeBase64 charSigned src₀ src₁ src₂ src₃).toUInt32 =
      let val := fun c => (decodeBase64Char (promotedChar charSigned c)).toUInt32
      (val src₀ <<< (18 : UInt32)) ||| (val src₁ <<< (12 : UInt32)) |||
        (val src₂ <<< (6 : UInt32)) ||| val src₃ :=
  rfl

/-- Only zero is reported as success. -/
theorem returned_iff (ret : UInt8) : 1 &&& ((promoted ret - 1) >>> (8 : Int32)) ≠ 0 ↔ ret = 0 :=
  forall_byte (P := fun ret => 1 &&& ((promoted ret - 1) >>> (8 : Int32)) ≠ 0 ↔ ret = 0)
    (by decide +kernel) ret

end Sewg.Kernel
