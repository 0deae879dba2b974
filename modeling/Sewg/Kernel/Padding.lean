import Sewg.Go.Padding

/-! `send.c`: how much a packet is padded, and when the two implementations agree on it. -/

namespace Sewg.Kernel

open CString (Bytes)

def MESSAGE_PADDING_MULTIPLE : UInt32 := 16

/-- The kernel's `ALIGN` on an `unsigned int`. -/
def ALIGN (x a : UInt32) : UInt32 := (x + (a - 1)) &&& ~~~(a - 1)

/-- The arguments are `skb->len` and `PACKET_CB(skb)->mtu`. -/
def calculateSkbPadding (len mtu : UInt32) : UInt32 :=
  let lastUnit := len % mtu
  let paddedSize := ALIGN lastUnit MESSAGE_PADDING_MULTIPLE
  let paddedSize := if paddedSize > mtu then mtu else paddedSize
  paddedSize - lastUnit

/-- The mask leaves the bits from the fourth on. -/
theorem and_mask {y : Nat} (hy : y < 2 ^ 32) : y &&& 4294967280 = y / 16 * 16 := by
  have hmask : 4294967280 = (2 ^ 28 - 1) <<< 4 := rfl
  have hshift : y / 16 * 16 = y >>> 4 <<< 4 := by
    rw [Nat.shiftLeft_eq, Nat.shiftRight_eq_div_pow]
  apply Nat.eq_of_testBit_eq
  intro i
  rw [hmask, hshift, Nat.testBit_and, Nat.testBit_shiftLeft, Nat.testBit_shiftLeft,
    Nat.testBit_shiftRight, Nat.testBit_two_pow_sub_one]
  by_cases hi : 4 ≤ i
  · rw [Nat.add_sub_cancel' hi]
    by_cases hhigh : i < 32
    · simp [hi, show i - 4 < 28 by omega]
    · rw [Nat.testBit_lt_two_pow
        (Nat.lt_of_lt_of_le hy (Nat.pow_le_pow_right (by decide) (by omega)))]
      simp
  · simp [hi]

theorem toNat_ALIGN {x : UInt32} (hx : x.toNat + 15 < 2 ^ 32) :
    (ALIGN x MESSAGE_PADDING_MULTIPLE).toNat = Go.roundUp x.toNat := by
  have hlow : (MESSAGE_PADDING_MULTIPLE - 1).toNat = 15 := rfl
  have hhigh : (~~~(MESSAGE_PADDING_MULTIPLE - 1)).toNat = 4294967280 := rfl
  rw [ALIGN, UInt32.toNat_and, hhigh, UInt32.toNat_add, hlow, Nat.mod_eq_of_lt hx,
    and_mask hx, Go.roundUp]

/-- Below `2 ^ 31` nothing wraps. -/
theorem toNat_calculateSkbPadding (len mtu : UInt32) (hpos : 0 < mtu.toNat)
    (hmtu : mtu.toNat < 2 ^ 31) : (calculateSkbPadding len mtu).toNat =
      min mtu.toNat (Go.roundUp (len.toNat % mtu.toNat)) - len.toNat % mtu.toNat := by
  have hunit : (len % mtu).toNat = len.toNat % mtu.toNat := UInt32.toNat_mod len mtu
  have hlt : len.toNat % mtu.toNat < mtu.toNat := Nat.mod_lt _ hpos
  have halign : (ALIGN (len % mtu) MESSAGE_PADDING_MULTIPLE).toNat =
      Go.roundUp (len.toNat % mtu.toNat) := by
    rw [toNat_ALIGN (by omega), hunit]
  have hround : len.toNat % mtu.toNat ≤ Go.roundUp (len.toNat % mtu.toNat) := by
    unfold Go.roundUp
    omega
  unfold calculateSkbPadding
  dsimp only
  split
  · rename_i hgt
    have hgt : mtu.toNat < Go.roundUp (len.toNat % mtu.toNat) :=
      halign ▸ UInt32.lt_iff_toNat_lt.mp hgt
    rw [UInt32.toNat_sub_of_le _ _ (UInt32.le_iff_toNat_le.mpr (by omega)), hunit]
    omega
  · rename_i hle
    have hle : Go.roundUp (len.toNat % mtu.toNat) ≤ mtu.toNat :=
      halign ▸ Nat.le_of_not_lt fun h => hle (UInt32.lt_iff_toNat_lt.mpr h)
    rw [UInt32.toNat_sub_of_le _ _ (UInt32.le_iff_toNat_le.mpr (by omega)), hunit, halign]
    omega

/-- The two implementations pad alike up to the MTU. Beyond it the kernel still pads the
last unit, and the target of the other is below the length. -/
theorem padding_agrees_iff (packet : Bytes) (mtu : UInt32) (hlen : packet.length < 2 ^ 32)
    (hpos : 0 < mtu.toNat) (hmtu : mtu.toNat < 2 ^ 31) :
    (Go.padPacket mtu.toNat packet).map List.length =
        some (packet.length + (calculateSkbPadding (UInt32.ofNat packet.length) mtu).toNat) ↔
      packet.length < mtu.toNat ∨ packet.length % mtu.toNat % 16 = 0 := by
  rw [Go.padPacket_pos hpos, Option.map_some, Option.some.injEq, Go.length_padContent,
    toNat_calculateSkbPadding _ _ hpos hmtu, UInt32.toNat_ofNat_of_lt' hlen]
  have hlt : packet.length % mtu.toNat < mtu.toNat := Nat.mod_lt _ hpos
  rcases Nat.lt_or_ge packet.length mtu.toNat with h | h
  · rw [Nat.mod_eq_of_lt h, Go.roundUp]
    omega
  · unfold Go.roundUp
    omega

theorem padding_agrees_short :
    (Go.padPacket (1420 : UInt32).toNat (List.replicate 100 0)).map List.length = some (100 + 12) :=
  (padding_agrees_iff (List.replicate 100 0) 1420 (by decide) (by decide) (by decide)).mpr
    (.inl (by decide))

/-- One byte more than the MTU: the kernel pads 15, the other none. -/
theorem padding_differs :
    (Go.padPacket (1420 : UInt32).toNat (List.replicate 1421 0)).map List.length = some 1421 ∧
      1421 + (calculateSkbPadding 1421 1420).toNat = 1436 := by
  decide +kernel

end Sewg.Kernel
