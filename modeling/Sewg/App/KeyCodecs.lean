import Sewg.App.KeyText
import Sewg.Kernel.Encoding

/-! The app and the tools write and read the same base64. The one has logical shifts and signed
bytes, the other arithmetic shifts and unsigned bytes. -/

namespace Sewg.App

open CString

/-- A text of bytes as Java has it. -/
def javaString (s : Bytes) : JString := s.map UInt8.toUInt16

/-! ### Writing -/

theorem base64_tables :
    (∀ d < 64, (Kernel.encodeBase64Char (UInt32.ofNat d).toUInt8).toUInt16 =
      encodeBase64Char (UInt32.ofNat d)) ∧
    ∀ b : UInt8,
      ((Kernel.promoted b >>> (2 : Int32)).toUInt32 &&& 63 = (signed b >>> (2 : UInt32)) &&& 63 ∧
      (Kernel.promoted b <<< (4 : Int32)).toUInt32 &&& 63 = (signed b <<< (4 : UInt32)) &&& 63 ∧
      (Kernel.promoted b >>> (4 : Int32)).toUInt32 = (signed b &&& 0xff) >>> (4 : UInt32) ∧
      (Kernel.promoted b <<< (2 : Int32)).toUInt32 &&& 63 = (signed b <<< (2 : UInt32)) &&& 63 ∧
      (Kernel.promoted b >>> (6 : Int32)).toUInt32 = (signed b &&& 0xff) >>> (6 : UInt32) ∧
      (Kernel.promoted b).toUInt32 &&& 63 = signed b &&& 63) ∧
    (b < 128 → ∀ charSigned : Bool,
      (Kernel.decodeBase64Char (Kernel.promotedChar charSigned b)).toUInt32 =
        decodeBase64Char b.toUInt16) :=
  ⟨by decide +kernel, forall_byte (by decide +kernel)⟩

theorem encodeBase64Char_agree (input : Int32) :
    (Kernel.encodeBase64Char (Kernel.stored (input &&& 63))).toUInt16 =
      encodeBase64Char (input.toUInt32 &&& 63) := by
  have hlt : (input.toUInt32 &&& 63).toNat < 64 := by
    rw [UInt32.toNat_and]
    exact Nat.lt_succ_of_le Nat.and_le_right
  have h := base64_tables.1 _ hlt
  rwa [UInt32.ofNat_toNat] at h

theorem encodeBase64_agree (b₀ b₁ b₂ : UInt8) :
    javaString (Kernel.encodeBase64 b₀ b₁ b₂) = encodeBase64 b₀ b₁ b₂ := by
  have hbits (b : UInt8) := (base64_tables.2 b).1
  simp only [javaString, Kernel.encodeBase64, encodeBase64, List.map_cons, List.map_nil,
    encodeBase64Char_agree, Int32.toUInt32_or, or_and, hbits]

theorem keyToBase64_agree {key : Bytes} (hkey : key.length = 32) :
    ∃ text : Bytes, text.length = 44 ∧ keyToBase64 key = some (javaString text) ∧
      Kernel.keyToBase64 key = text ++ [0] := by
  have hlength : ¬ key.length ≠ KEY_LENGTH := not_not.mpr hkey
  let text := (List.range 10).flatMap (fun i =>
    Kernel.encodeBase64 (key.getD (3 * i) 0) (key.getD (3 * i + 1) 0) (key.getD (3 * i + 2) 0)) ++
      (Kernel.encodeBase64 (key.getD 30 0) (key.getD 31 0) 0).take 3 ++ [61]
  have hsame : keyToBase64 key = some (javaString text) := by
    have hgroup (b₀ b₁ b₂ : UInt8) := encodeBase64_agree b₀ b₁ b₂
    simp only [javaString] at hgroup
    rw [keyToBase64, if_neg hlength]
    simp only [text, javaString, List.map_append, List.map_take, List.map_flatMap, hgroup]
    rfl
  have hchars : text.length = 44 := by
    have h := hsame
    rw [keyToBase64_eq hkey] at h
    have hlen := congrArg List.length (Option.some.inj h)
    rw [Base64.length_encode, javaString, List.length_map] at hlen
    exact hlen.symm
  exact ⟨text, hchars, hsame, (List.append_assoc _ [61] [0]).symm⟩

/-! ### Reading -/

/-- On a character of ASCII the sign of `char` does not matter. -/
theorem decodeBase64Char_agree (charSigned : Bool) {c : UInt8} (hc : c < 128) :
    (Kernel.decodeBase64Char (Kernel.promotedChar charSigned c)).toUInt32 =
      decodeBase64Char c.toUInt16 :=
  (base64_tables.2 c).2 hc charSigned

theorem decodeBase64_agree (charSigned : Bool) {c₀ c₁ c₂ c₃ : UInt8} (h₀ : c₀ < 128) (h₁ : c₁ < 128)
    (h₂ : c₂ < 128) (h₃ : c₃ < 128) :
    (Kernel.decodeBase64 charSigned c₀ c₁ c₂ c₃).toUInt32 =
      decodeBase64 c₀.toUInt16 c₁.toUInt16 c₂.toUInt16 c₃.toUInt16 := by
  rw [Kernel.toUInt32_decodeBase64, decodeBase64, ← decodeBase64Char_agree charSigned h₀,
    ← decodeBase64Char_agree charSigned h₁, ← decodeBase64Char_agree charSigned h₂,
    ← decodeBase64Char_agree charSigned h₃]

theorem charAt_javaString (s : Bytes) (i : Nat) :
    charAt (javaString s) i = (s[i]?.getD 0).toUInt16 := by
  rw [charAt, javaString, List.getElem?_map]
  cases s[i]? <;> rfl

theorem getD_ascii {s : Bytes} (hs : ∀ c ∈ s, c < 128) (i : Nat) : s[i]?.getD 0 < 128 := by
  cases h : s[i]? with
  | none => decide
  | some c => exact hs c (List.mem_of_getElem? h)

theorem toUInt8_eq_zero_iff {x : UInt32} (hx : x.toNat < 256) : x.toUInt8 = 0 ↔ x = 0 := by
  rw [← UInt8.toNat_inj, ← UInt32.toNat_inj, UInt32.toNat_toUInt8, Nat.mod_eq_of_lt hx]
  rfl

theorem sign_lt (x : UInt32) : (x >>> (31 : UInt32)).toNat < 2 := by
  have hx := x.toNat_lt
  rw [UInt32.toNat_shiftRight]
  change x.toNat >>> 31 < 2
  rw [Nat.shiftRight_eq_div_pow]
  omega

theorem unused_lt (x : UInt32) : (x &&& 0xff).toNat < 256 := by
  rw [UInt32.toNat_and]
  exact Nat.lt_succ_of_le Nat.and_le_right

theorem keyFromBase64_tools (charSigned : Bool) (old : Bytes) (s : CStr)
    (hs : ∀ c ∈ s.text, c < 128) (hshape : ¬ (s.strlen ≠ 44 ∨ s.text[43]? ≠ some 61)) :
    (Kernel.keyFromBase64 charSigned old s).1 =
        (List.range 10).flatMap (fun i => groupBytes (groupAt (javaString s.text) i)) ++
          (groupBytes (endSegment (javaString s.text))).take 2 ∧
      ((Kernel.keyFromBase64 charSigned old s).2 = true ↔
        (∀ i < 10, groupAt (javaString s.text) i >>> (31 : UInt32) = 0) ∧
          endSegment (javaString s.text) >>> (31 : UInt32) = 0 ∧
            endSegment (javaString s.text) &&& 0xff = 0) := by
  let input : Nat → UInt8 := fun i => s.text[i]?.getD 0
  let groups := fun i => Kernel.decodeBase64 charSigned (input (4 * i)) (input (4 * i + 1))
    (input (4 * i + 2)) (input (4 * i + 3))
  let final := Kernel.decodeBase64 charSigned (input 40) (input 41) (input 42) 65
  have hascii := getD_ascii hs
  have hgroup (i : Nat) : (groups i).toUInt32 = groupAt (javaString s.text) i := by
    simp only [groupAt, charAt_javaString]
    exact decodeBase64_agree charSigned (hascii _) (hascii _) (hascii _) (hascii _)
  have hfinal : final.toUInt32 = endSegment (javaString s.text) := by
    simp only [endSegment, charAt_javaString]
    exact decodeBase64_agree charSigned (hascii _) (hascii _) (hascii _) (by decide)
  have hbytes (val : Int32) : Kernel.groupBytes val = groupBytes val.toUInt32 :=
    Kernel.groupBytes_eq val
  have hcode : Kernel.keyFromBase64 charSigned old s =
      (((List.range 10).map groups).flatMap Kernel.groupBytes ++ (Kernel.groupBytes final).take 2,
        decide (1 &&&
            ((Kernel.promoted
                (((List.range 10).map groups).foldl (fun (ret : UInt8) (val : Int32) =>
          ret ||| (val.toUInt32 >>> (31 : UInt32)).toUInt8) 0 |||
            ((final.toUInt32 >>> (31 : UInt32)) ||| (final &&& 0xff).toUInt32).toUInt8) - 1) >>>
              (8 : Int32)) ≠ 0)) :=
    if_neg hshape
  rw [hcode]
  constructor
  · simp only [List.flatMap_map, hbytes, hgroup, hfinal]
  · have hlast : ((final.toUInt32 >>> (31 : UInt32)) ||| (final &&& 0xff).toUInt32).toUInt8 = 0 ↔
        final.toUInt32 >>> (31 : UInt32) = 0 ∧ final.toUInt32 &&& 0xff = 0 := by
      rw [Int32.toUInt32_and, toUInt8_eq_zero_iff, or_eq_zero_iff]
      · rfl
      · rw [UInt32.toNat_or]
        exact Nat.or_lt_two_pow (n := 8) (Nat.lt_trans (sign_lt _) (by decide)) (unused_lt _)
    have hsign (x : UInt32) : (x >>> (31 : UInt32)).toUInt8 = 0 ↔ x >>> (31 : UInt32) = 0 :=
      toUInt8_eq_zero_iff (Nat.lt_trans (sign_lt x) (by decide))
    rw [decide_eq_true_iff, Kernel.returned_iff, CString.byte_or_eq_zero_iff,
      CString.foldl_byte_or_eq_zero_iff, hlast]
    simp [hsign, hgroup, hfinal]

theorem shape_iff (s : Bytes) :
    ((javaString s).length ≠ 44 ∨ (javaString s)[43]? ≠ some 61) ↔
      s.length ≠ 44 ∨ s[43]? ≠ some 61 := by
  have hpad (c : UInt8) : c.toUInt16 = 61 ↔ c = 61 := UInt8.toUInt16_inj (b := 61)
  rw [javaString, List.length_map, List.getElem?_map]
  cases s[43]? <;> simp [hpad]

theorem keyFromBase64_agree (charSigned : Bool) (old key : Bytes) (s : CStr)
    (hs : ∀ c ∈ s.text, c < 128) :
    keyFromBase64 (javaString s.text) = some key ↔
      Kernel.keyFromBase64 charSigned old s = (key, true) := by
  rw [keyFromBase64_eq_ite]
  by_cases hshape : s.strlen ≠ 44 ∨ s.text[43]? ≠ some 61
  · have hwrong : Kernel.keyFromBase64 charSigned old s = (old, false) := if_pos hshape
    rw [if_pos ((shape_iff s.text).mpr hshape), hwrong]
    simp
  · obtain ⟨hkey, hret⟩ := keyFromBase64_tools charSigned old s hs hshape
    rw [if_neg fun h => hshape ((shape_iff s.text).mp h), Prod.ext_iff, hkey, hret]
    split
    · simp_all
    · simp_all

/-- Whether `char` is signed or not, the app and the tools take the same texts of ASCII for the same
keys, and write the same text for every key. -/
theorem base64_codecs_agree (charSigned : Bool) :
    (∀ s : CStr, (∀ c ∈ s.text, c < 128) → ∀ old key : Bytes,
      (keyFromBase64 (javaString s.text) = some key ↔
        Kernel.keyFromBase64 charSigned old s = (key, true))) ∧
    ∀ key : Bytes, key.length = 32 → ∃ text : Bytes, text.length = 44 ∧
      keyToBase64 key = some (javaString text) ∧ Kernel.keyToBase64 key = text ++ [0] :=
  ⟨fun s hs old key => keyFromBase64_agree charSigned old key s hs,
    fun _ hkey => keyToBase64_agree hkey⟩

/-- A text with digits from all ranges. -/
def mixedKeyText : CStr :=
  ⟨(List.replicate 5 [65, 90, 97, 122, 48, 57, 43, 47]).flatten ++ [98, 89, 56, 61], by decide⟩

def mixedKey : Bytes := (List.replicate 5 [1, 150, 179, 211, 223, 191]).flatten ++ [109, 143]

theorem mixedKeyText_ascii : ∀ c ∈ mixedKeyText.text, c < 128 := by decide +kernel

theorem mixed_key_codecs_agree :
    keyFromBase64 (javaString mixedKeyText.text) = some mixedKey ∧
    Kernel.keyFromBase64 true [] mixedKeyText = (mixedKey, true) ∧
    ∃ text : Bytes, text.length = 44 ∧ keyToBase64 mixedKey = some (javaString text) ∧
      Kernel.keyToBase64 mixedKey = text ++ [0] := by
  have hjava : keyFromBase64 (javaString mixedKeyText.text) = some mixedKey := by decide +kernel
  exact ⟨hjava, ((base64_codecs_agree true).1 mixedKeyText mixedKeyText_ascii [] mixedKey).mp hjava,
    (base64_codecs_agree true).2 mixedKey rfl⟩

end Sewg.App
