import Mathlib.Data.List.GetD
import Mathlib.Data.List.TakeWhile
import Sewg.Lib.CString

/-! `char2hex.c`: 32-byte keys as 64 lower-case hexadecimal digits. The C
arithmetic is unsigned 32-bit until a result is stored in a `char`. -/

namespace Sewg.TrustApp
open CString

abbrev WG_KEY_LEN : Nat := 32
abbrev WG_KEY_LEN_HEX : Nat := WG_KEY_LEN * 2 + 1

abbrev Key := Vector UInt8 WG_KEY_LEN

/-- `87U + n + (((n - 10U) >> 8) & ~38U)`, stored in a `char`. -/
def hexDigit (n : UInt8) : UInt8 :=
  ((87 : UInt32) + n.toUInt32 + (((n.toUInt32 - 10) >>> 8) &&& ~~~(38 : UInt32))).toUInt8

/-- Character `2i` is the high digit of `key[i]`, character `2i + 1` the low one. -/
def hexDigits (key : Key) : Bytes :=
  List.ofFn fun j : Fin (WG_KEY_LEN * 2) =>
    let b := key[j.val / 2]
    if j.val % 2 = 0 then hexDigit (b >>> 4) else hexDigit (b &&& 15)

def keyToHex (key : Key) : Bytes := hexDigits key ++ [0]

/-- What one character of the input sets: `c_val`, and what it ors into `ret`. -/
structure HexChar where
  val : UInt8
  bad : UInt8
  deriving DecidableEq

def hexChar (c : UInt8) : HexChar :=
  let num := c ^^^ 48
  let num0 := ((num.toUInt32 - 10) >>> 8).toUInt8
  let alpha := ((c.toUInt32 &&& ~~~(32 : UInt32)) - 55).toUInt8
  let alpha0 := (((alpha.toUInt32 - 10) ^^^ (alpha.toUInt32 - 16)) >>> 8).toUInt8
  -- (x - 1) >> 8 is a signed shift: all ones exactly when neither class matched
  ⟨(num0 &&& num) ||| (alpha0 &&& alpha), if num0 ||| alpha0 = 0 then 255 else 0⟩

/-- `strlen` of a buffer with a terminator right after it. -/
def strlen (buf : Bytes) : Nat := (buf.takeWhile (· ≠ 0)).length

def hexAt (hex : Bytes) (j : Nat) : HexChar := hexChar (hex.getD j 0)

/-- The decoded key and the return value. A text of the wrong length leaves
`key` as it was; a bad digit is reported, but every byte is written. -/
def keyFromHex (key : Key) (hex : Bytes) : Key × Int :=
  if strlen hex ≠ WG_KEY_LEN_HEX - 1 then (key, 0)
  else
    let ret := (List.range (WG_KEY_LEN_HEX - 1)).foldl (fun r j => r ||| (hexAt hex j).bad) 0
    (Vector.ofFn fun i : Fin WG_KEY_LEN =>
      ((hexAt hex (2 * i)).val.toUInt32 * 16).toUInt8 ||| (hexAt hex (2 * i + 1)).val,
     if ret = 0 then 1 else 0)

/-! ## Hexadecimal text -/

def isHexDigit (c : UInt8) : Bool :=
  (48 ≤ c && c ≤ 57) || (65 ≤ c && c ≤ 70) || (97 ≤ c && c ≤ 102)

/-- The value of a digit, upper or lower case. -/
def hexValue (c : UInt8) : UInt8 := if c ≤ 57 then c - 48 else if c ≤ 70 then c - 55 else c - 87

/-- The key that 64 hexadecimal digits denote. -/
def decodeHex (digits : Bytes) : Key :=
  Vector.ofFn fun i : Fin WG_KEY_LEN =>
    16 * hexValue (digits.getD (2 * i) 0) + hexValue (digits.getD (2 * i + 1) 0)

def lowerCase (c : UInt8) : UInt8 := if 65 ≤ c ∧ c ≤ 70 then c + 32 else c

/-- The branch-free code computes the value of a digit, and reports any other character. -/
theorem hexChar_eq : ∀ c : UInt8,
    hexChar c = if isHexDigit c then ⟨hexValue c, 0⟩ else ⟨0, 255⟩ :=
  forall_byte (by decide +kernel)

theorem hexDigit_hexValue : ∀ c : UInt8, isHexDigit c = true →
    c ≠ 0 ∧ hexValue c < 16 ∧ hexDigit (hexValue c) = lowerCase c :=
  forall_byte (by decide +kernel)

theorem nibbles : ∀ b : UInt8, isHexDigit (hexDigit (b >>> 4)) = true ∧
    isHexDigit (hexDigit (b &&& 15)) = true ∧
    (16 : UInt8) * hexValue (hexDigit (b >>> 4)) + hexValue (hexDigit (b &&& 15)) = b :=
  forall_byte (by decide +kernel)

theorem nibbles_join {h l : UInt8} (hh : h < 16) (hl : l < 16) :
    (h.toUInt32 * 16).toUInt8 ||| l = 16 * h + l ∧
      (16 * h + l) >>> 4 = h ∧ (16 * h + l) &&& 15 = l := by
  have table : ∀ a b : Fin 16, let h : UInt8 := UInt8.ofNat a; let l : UInt8 := UInt8.ofNat b
      (h.toUInt32 * 16).toUInt8 ||| l = 16 * h + l ∧
        (16 * h + l) >>> 4 = h ∧ (16 * h + l) &&& 15 = l := by decide +kernel
  simpa using table ⟨h.toNat, hh⟩ ⟨l.toNat, hl⟩

/-! ## Decoding -/

theorem strlen_nulFree {hex : Bytes} (h : ∀ c ∈ hex, c ≠ 0) : strlen hex = hex.length := by
  rw [strlen, List.takeWhile_eq_self_iff.mpr]
  simpa using h

/-- The terminator is not part of the text. -/
theorem keyFromHex_terminated (old : Key) (hex : Bytes) :
    keyFromHex old (hex ++ [0]) = keyFromHex old hex := by
  have len : strlen (hex ++ [0]) = strlen hex := by
    unfold strlen
    induction hex with
    | nil => rfl
    | cons c hex ih =>
      by_cases hc : c = 0
      · simp [hc]
      · simpa [hc] using ih
  have chars : hexAt (hex ++ [0]) = hexAt hex := by
    funext j
    unfold hexAt
    by_cases hj : j < hex.length
    · rw [List.getD_append _ _ _ _ hj]
    · rw [List.getD_append_right _ _ _ _ (by omega), List.getD_eq_default hex 0 (by omega)]
      cases j - hex.length <;> rfl
  simp only [keyFromHex, len, chars]

/-- Sixty-four digits are accepted, and decoded as they should be. Nothing else is. -/
theorem keyFromHex_eq (old : Key) {hex : Bytes} (hlen : hex.length = WG_KEY_LEN * 2)
    (hnul : ∀ c ∈ hex, c ≠ 0) :
    ((keyFromHex old hex).2 = 1 ↔ ∀ c ∈ hex, isHexDigit c = true) ∧
      ((∀ c ∈ hex, isHexDigit c = true) → (keyFromHex old hex).1 = decodeHex hex) := by
  have len : strlen hex = WG_KEY_LEN_HEX - 1 := (strlen_nulFree hnul).trans hlen
  have digit : (∀ c ∈ hex, isHexDigit c = true) ↔
      ∀ j < WG_KEY_LEN * 2, isHexDigit (hex.getD j 0) = true := by
    rw [List.forall_mem_iff_forall_getElem, ← hlen]
    apply forall₂_congr
    intro j hj
    rw [List.getD_eq_getElem _ _ hj]
  simp only [keyFromHex, len, ne_eq, not_true_eq_false, ↓reduceIte]
  constructor
  · have ret : ∀ x : UInt8, (if x = 0 then (1 : Int) else 0) = 1 ↔ x = 0 := by
      intro x
      split <;> simp [*]
    rw [ret, foldl_byte_or_eq_zero_iff, digit]
    simp only [true_and, List.mem_range, hexAt, hexChar_eq]
    apply forall₂_congr
    intro j _
    cases isHexDigit (hex.getD j 0) <;> simp
  · intro hd
    apply Vector.ext
    intro i hi
    have high := digit.mp hd (2 * i) (by omega)
    have low := digit.mp hd (2 * i + 1) (by omega)
    simp only [decodeHex, Vector.getElem_ofFn, hexAt, hexChar_eq, high, low, ↓reduceIte]
    exact (nibbles_join (hexDigit_hexValue _ high).2.1 (hexDigit_hexValue _ low).2.1).1

/-! ## Encoding -/

@[simp] theorem hexDigits_length (key : Key) : (hexDigits key).length = WG_KEY_LEN * 2 :=
  List.length_ofFn

@[simp] theorem keyToHex_take (key : Key) :
    (keyToHex key).take (WG_KEY_LEN_HEX - 1) = hexDigits key := by
  have h : WG_KEY_LEN_HEX - 1 = (hexDigits key).length := by simp
  rw [keyToHex, h, List.take_left]

theorem hexDigits_get (key : Key) (j : Nat) (h : j < WG_KEY_LEN * 2) :
    (hexDigits key).getD j 0 =
      if j % 2 = 0 then hexDigit (key[j / 2] >>> 4) else hexDigit (key[j / 2] &&& 15) := by
  rw [List.getD_eq_getElem _ _ (by simpa using h)]
  simp only [hexDigits, List.getElem_ofFn]

theorem hexDigits_digits (key : Key) : ∀ c ∈ hexDigits key, isHexDigit c = true := by
  intro c hc
  obtain ⟨j, rfl⟩ := List.mem_ofFn.mp hc
  have hb := nibbles key[j.val / 2]
  dsimp only
  split
  · exact hb.1
  · exact hb.2.1

theorem hexDigits_pair (key : Key) {i : Nat} (hi : i < WG_KEY_LEN) :
    (hexDigits key).getD (2 * i) 0 = hexDigit (key[i] >>> 4) ∧
      (hexDigits key).getD (2 * i + 1) 0 = hexDigit (key[i] &&& 15) := by
  rw [hexDigits_get key _ (by omega), hexDigits_get key _ (by omega)]
  have half : (2 * i + 1) / 2 = i := by omega
  simp [half, Nat.add_mod]

theorem decodeHex_hexDigits (key : Key) : decodeHex (hexDigits key) = key := by
  apply Vector.ext
  intro i hi
  obtain ⟨high, low⟩ := hexDigits_pair key hi
  simp only [decodeHex, Vector.getElem_ofFn, high, low]
  exact (nibbles key[i]).2.2

/-- Encoding what 64 digits denote gives them back in lower case. -/
theorem hexDigits_decodeHex {hex : Bytes} (hlen : hex.length = WG_KEY_LEN * 2)
    (hd : ∀ c ∈ hex, isHexDigit c = true) : hexDigits (decodeHex hex) = hex.map lowerCase := by
  apply List.ext_getElem
  · simp [hlen]
  · intro j hj _
    rw [hexDigits_length] at hj
    have value : ∀ j (hj : j < hex.length),
        hexValue hex[j] < 16 ∧ hexDigit (hexValue hex[j]) = lowerCase hex[j] :=
      fun j hj => (hexDigit_hexValue _ (hd _ (List.getElem_mem hj))).2
    have pair :=
      nibbles_join (value (2 * (j / 2)) (by omega)).1 (value (2 * (j / 2) + 1) (by omega)).1
    have at_j : ∀ k (hk : k < hex.length), hex.getD k 0 = hex[k] := fun k hk =>
      List.getD_eq_getElem _ _ hk
    simp only [hexDigits, List.getElem_ofFn, decodeHex, Vector.getElem_ofFn, List.getElem_map,
      at_j (2 * (j / 2)) (by omega), at_j (2 * (j / 2) + 1) (by omega), pair.2]
    split
    · rw [(value _ _).2]
      congr 2
      omega
    · rw [(value _ _).2]
      congr 2
      omega

/-- Decoding what `key_to_hex` wrote gives the key back, whatever the
destination held. -/
theorem keyFromHex_hexDigits (old key : Key) : keyFromHex old (hexDigits key) = (key, 1) := by
  have hd := hexDigits_digits key
  have codec :=
    keyFromHex_eq old (hexDigits_length key) fun c hc => (hexDigit_hexValue c (hd c hc)).1
  exact Prod.ext ((codec.2 hd).trans (decodeHex_hexDigits key)) (codec.1.mpr hd)

/-- The codec is exact on texts without a NUL, and the two directions undo each other up to the
case of the digits. -/
theorem hex_codec (old key : Key) {hex : Bytes} (hnul : ∀ c ∈ hex, c ≠ 0) :
    ((keyFromHex old hex).2 = 1 ↔
      hex.length = WG_KEY_LEN * 2 ∧ ∀ c ∈ hex, isHexDigit c = true) ∧
    ((keyFromHex old hex).2 = 1 → (keyFromHex old hex).1 = decodeHex hex ∧
      keyToHex (keyFromHex old hex).1 = hex.map lowerCase ++ [0]) ∧
    keyFromHex old (keyToHex key) = (key, 1) ∧ (keyToHex key).length = WG_KEY_LEN_HEX := by
  have accepts : (keyFromHex old hex).2 = 1 ↔
      hex.length = WG_KEY_LEN * 2 ∧ ∀ c ∈ hex, isHexDigit c = true := by
    by_cases hlen : hex.length = WG_KEY_LEN * 2
    · simp [hlen, keyFromHex_eq old hlen hnul]
    · have short : strlen hex ≠ WG_KEY_LEN_HEX - 1 := by
        rw [strlen_nulFree hnul]
        exact hlen
      simp only [keyFromHex, if_pos short, hlen, false_and, iff_false]
      decide
  refine ⟨accepts, ?_, ?_, by simp [keyToHex]⟩
  · intro h
    obtain ⟨hlen, hd⟩ := accepts.mp h
    have value := (keyFromHex_eq old hlen hnul).2 hd
    exact ⟨value, by rw [value, keyToHex, hexDigits_decodeHex hlen hd]⟩
  · rw [keyToHex, keyFromHex_terminated, keyFromHex_hexDigits]

theorem hex_codec_mixed_case :
    keyToHex (keyFromHex (.replicate 32 0) (.replicate 32 65 ++ .replicate 32 55)).1 =
      List.replicate 32 97 ++ List.replicate 32 55 ++ [0] := by
  have digits : ∀ c ∈ List.replicate 32 65 ++ List.replicate 32 55, c ≠ (0 : UInt8) ∧
      isHexDigit c = true := by
    intro c h
    simp only [List.mem_append, List.mem_replicate] at h
    rcases h with ⟨_, rfl⟩ | ⟨_, rfl⟩ <;> decide
  have h := hex_codec (.replicate 32 0) (.replicate 32 0) fun c hc => (digits c hc).1
  exact (h.2.1 (h.1.mpr ⟨rfl, fun c hc => (digits c hc).2⟩)).2

end Sewg.TrustApp
