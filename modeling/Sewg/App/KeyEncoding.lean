import Sewg.App.Java

/-! `KeyEncoding.java`: keys as base64 and as hexadecimal text, in arithmetic without
branches. A Java `int` is a `UInt32` where only its bits matter. -/

namespace Sewg.App

open CString (Bytes)

def KEY_LENGTH : Nat := 32
def KEY_LENGTH_BASE64 : Nat := 44
def KEY_LENGTH_HEX : Nat := 64

/-- A mask that lets numbers below 2^24 through when `c` is between the two. -/
def between (below above c : UInt32) : UInt32 := ((below - c) &&& (c - above)) >>> (8 : UInt32)

/-- The summand of one character; all ones when it is not one of base64. -/
def decodeBase64Char (c : UInt16) : UInt32 :=
  let c := c.toUInt32
  0xffffffff + (between 64 91 c &&& (c - 64)) + (between 96 123 c &&& (c - 70)) +
    (between 47 58 c &&& (c + 5)) + (between 42 44 c &&& 63) + (between 46 48 c &&& 64)

def decodeBase64 (c₀ c₁ c₂ c₃ : UInt16) : UInt32 :=
  (decodeBase64Char c₀ <<< 18) ||| (decodeBase64Char c₁ <<< 12) |||
    (decodeBase64Char c₂ <<< 6) ||| decodeBase64Char c₃

/-- The three bytes of a group. -/
def groupBytes (val : UInt32) : Bytes := [(val >>> 16).toUInt8, (val >>> 8).toUInt8, val.toUInt8]

/-- `none` is the exception about the key's length. -/
def keyFromBase64 (str : JString) : Option Bytes :=
  if str.length ≠ KEY_LENGTH_BASE64 ∨ str[KEY_LENGTH_BASE64 - 1]? ≠ some 61 then none
  else
    let input := fun i => str[i]?.getD 0
    let vals := (List.range (KEY_LENGTH / 3)).map fun i =>
      decodeBase64 (input (4 * i)) (input (4 * i + 1)) (input (4 * i + 2)) (input (4 * i + 3))
    let val := decodeBase64 (input 40) (input 41) (input 42) 65
    let ret : UInt32 := vals.foldl (fun (ret val : UInt32) => ret ||| (val >>> 31)) 0
    let ret := ret ||| ((val >>> 31) ||| (val &&& 0xff))
    if ret ≠ 0 then none else some (vals.flatMap groupBytes ++ (groupBytes val).take 2)

/-- A byte of Java as an `int`. -/
def signed (b : UInt8) : UInt32 := b.toInt8.toInt32.toUInt32

/-- The character of a number below 64. -/
def encodeBase64Char (input : UInt32) : UInt16 :=
  (input + 65 + (((25 - input) >>> (8 : UInt32)) &&& 6) - (((51 - input) >>> (8 : UInt32)) &&& 75) -
    (((61 - input) >>> (8 : UInt32)) &&& 15) + (((62 - input) >>> (8 : UInt32)) &&& 3)).toUInt16

def encodeBase64 (src₀ src₁ src₂ : UInt8) : JString :=
  [(signed src₀ >>> (2 : UInt32)) &&& 63,
    ((signed src₀ <<< (4 : UInt32)) ||| ((signed src₁ &&& 0xff) >>> (4 : UInt32))) &&& 63,
    ((signed src₁ <<< (2 : UInt32)) ||| ((signed src₂ &&& 0xff) >>> (6 : UInt32))) &&& 63,
    signed src₂ &&& 63].map encodeBase64Char

/-- `none` is the exception about the key's length. -/
def keyToBase64 (key : Bytes) : Option JString :=
  if key.length ≠ KEY_LENGTH then none
  else
    let input := fun i => key.getD i 0
    let groups := (List.range (KEY_LENGTH / 3)).flatMap fun i =>
      encodeBase64 (input (3 * i)) (input (3 * i + 1)) (input (3 * i + 2))
    -- the padding replaces the last character of the last group
    some (groups ++ (encodeBase64 (input 30) (input 31) 0).take 3 ++ [61])

/-- The part of one character in `ret`, and the number it stands for. -/
def hexDigitOf (c : UInt16) : UInt32 × UInt32 :=
  let c := c.toUInt32
  let cNum := c ^^^ 48
  let cNum0 := ((cNum - 10) >>> (8 : UInt32)) &&& 0xff
  let cAlpha := (c &&& ~~~32) - 55
  let cAlpha0 := (((cAlpha - 10) ^^^ (cAlpha - 16)) >>> (8 : UInt32)) &&& 0xff
  (((cNum0 ||| cAlpha0) - 1) >>> (8 : UInt32), (cNum0 &&& cNum) ||| (cAlpha0 &&& cAlpha))

/-- `none` is the exception about the key's length. -/
def keyFromHex (str : JString) : Option Bytes :=
  if str.length ≠ KEY_LENGTH_HEX then none
  else
    let input := fun i => str.getD i 0
    let ret : UInt32 :=
      (List.range KEY_LENGTH_HEX).foldl (fun ret i => ret ||| (hexDigitOf (input i)).1) 0
    if ret ≠ 0 then none
    else some ((List.range KEY_LENGTH).map fun i =>
      ((hexDigitOf (input (2 * i))).2 * 16 ||| (hexDigitOf (input (2 * i + 1))).2).toUInt8)

/-- The digit of a number below 16. -/
def hexChar (n : Int32) : UInt16 :=
  let mask : Int32 := ((n - 10) >>> (8 : Int32)) &&& ~~~(38 : Int32)
  (87 + n + mask).toUInt32.toUInt16

/-- `none` is the exception about the key's length. -/
def keyToHex (key : Bytes) : Option JString :=
  if key.length ≠ KEY_LENGTH then none
  else some (key.flatMap fun b =>
    [hexChar ((b.toInt8.toInt32 >>> (4 : Int32)) &&& 0xf), hexChar (b.toInt8.toInt32 &&& 0xf)])

end Sewg.App
