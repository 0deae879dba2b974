import Mathlib.Data.List.OfFn
import Sewg.App.KeyCodecs
import Sewg.Go.Text
import Sewg.TrustApp.Hex

/-! A key as hexadecimal text, on its way from the app to the device and into the trusted app. -/

namespace Sewg.App
open CString
open TrustApp (Key hexDigits)

def byteDigits (b : UInt8) : Bytes := [TrustApp.hexDigit (b >>> 4), TrustApp.hexDigit (b &&& 15)]

/-- The digits of a byte, as the app writes and the device reads them. -/
theorem byteDigits_tables : ∀ b : UInt8,
    (byteDigits b).map UInt8.toUInt16 =
      [hexChar ((b.toInt8.toInt32 >>> (4 : Int32)) &&& 0xf), hexChar (b.toInt8.toInt32 &&& 0xf)] ∧
    Go.DecodeString (byteDigits b) = some [b] :=
  forall_byte (by decide +kernel)

theorem hexDigits_flatMap (key : Key) : hexDigits key = key.toList.flatMap byteDigits := by
  have hkey : key.toList = List.ofFn fun i : Fin 32 => key[i] := by
    apply List.ext_getElem
    · simp
    · intro i _ _
      rw [List.getElem_ofFn]
      rfl
  rw [hexDigits, List.ofFn_mul, hkey, List.flatMap_def, List.map_ofFn]
  congr 2
  funext i
  have hhalf : (i.val * 2 + 1) / 2 = i := by omega
  simp [List.ofFn_succ, byteDigits, hhalf]

theorem DecodeString_append (hi lo : UInt8) (rest : Bytes) : Go.DecodeString (hi :: lo :: rest) =
    (Go.DecodeString [hi, lo]).bind fun bs => (Go.DecodeString rest).map (bs ++ ·) := by
  simp only [Go.DecodeString]
  cases Go.hexDigit hi <;> cases Go.hexDigit lo <;> cases Go.DecodeString rest <;> rfl

theorem DecodeString_digits (bs : Bytes) : Go.DecodeString (bs.flatMap byteDigits) = some bs := by
  induction bs with
  | nil => rfl
  | cons b bs ih =>
    have hfirst := (byteDigits_tables b).2
    rw [byteDigits] at hfirst
    rw [List.flatMap_cons, byteDigits, List.cons_append, List.cons_append, List.nil_append,
      DecodeString_append, hfirst, ih]
    rfl

/-- The app writes a key as the trusted app does, and both it and the device read the key from
that. -/
theorem hex_key_carried (old key : Key) :
    keyToHex key.toList = some (javaString (hexDigits key)) ∧
      TrustApp.keyToHex key = hexDigits key ++ [0] ∧
      Go.loadExactHex 32 (hexDigits key) = some key.toList ∧
      TrustApp.keyFromHex old (hexDigits key) = (key, 1) := by
  refine ⟨?_, rfl, ?_, TrustApp.keyFromHex_hexDigits old key⟩
  · rw [keyToHex, if_neg (by simp [KEY_LENGTH]), hexDigits_flatMap, javaString, List.map_flatMap]
    simp only [(byteDigits_tables _).1]
  · simp [Go.loadExactHex, hexDigits_flatMap, DecodeString_digits]

end Sewg.App
