import Mathlib.Data.LawfulXor.Basic
import Mathlib.Data.List.Basic
import Sewg.Lib.CString
import Sewg.Lib.Routes

/-! Words in memory: the number a machine reads from some bytes, on little- and
big-endian layouts, and the bits of the byte string in the order the network
sends them. -/

namespace Words

open CString (Bytes)

inductive Endian where
  | little
  | big
deriving DecidableEq

def readLE : Bytes → Nat
  | [] => 0
  | b :: bs => b.toNat + 256 * readLE bs

def readBE (bs : Bytes) : Nat := readLE bs.reverse

/-- Exactly `n` bytes, the least significant first. -/
def writeLE : Nat → Nat → Bytes
  | 0, _ => []
  | n + 1, x => UInt8.ofNat x :: writeLE n (x / 256)

/-- Exactly `n` bytes, the most significant first. -/
def writeBE (n x : Nat) : Bytes := (writeLE n x).reverse

def load : Endian → Bytes → Nat
  | .little, bs => readLE bs
  | .big, bs => readBE bs

/-- The word of `n` bytes with its bytes in the opposite order. -/
def reverseBytes (n x : Nat) : Nat := readLE (writeLE n x).reverse

/-- Bit `i` in network order: the first is the top bit of the first byte. -/
def bitAt (bs : Bytes) (i : Nat) : Bool := ((bs[i / 8]?).getD 0).toNat.testBit (7 - i % 8)

/-- The zero bits above the highest set one, in a word of `w` bits. -/
def leadingZeros (w x : Nat) : Nat := w - if x = 0 then 0 else x.log2 + 1

theorem length_writeLE (n x : Nat) : (writeLE n x).length = n := by
  induction n generalizing x with
  | zero => rfl
  | succ n ih => rw [writeLE, List.length_cons, ih]

theorem readLE_lt (bs : Bytes) : readLE bs < 2 ^ (8 * bs.length) := by
  induction bs with
  | nil => exact Nat.one_pos
  | cons b bs ih =>
    have hb := b.toNat_lt
    rw [readLE, List.length_cons, Nat.mul_succ, Nat.pow_add]
    omega

theorem readBE_lt (bs : Bytes) : readBE bs < 2 ^ (8 * bs.length) := by
  rw [← List.length_reverse]
  exact readLE_lt bs.reverse

theorem writeLE_readLE (bs : Bytes) : writeLE bs.length (readLE bs) = bs := by
  induction bs with
  | nil => rfl
  | cons b bs ih =>
    have hb := b.toNat_lt
    have hlow : UInt8.ofNat (b.toNat + 256 * readLE bs) = b := by
      apply UInt8.toNat_inj.mp
      rw [UInt8.toNat_ofNat']
      omega
    have hhigh : (b.toNat + 256 * readLE bs) / 256 = readLE bs := by omega
    rw [List.length_cons, readLE, writeLE, hlow, hhigh, ih]

variable {as bs : Bytes} {n x y : Nat}

theorem load_inj {e : Endian} (h : as.length = bs.length) :
    load e as = load e bs ↔ as = bs := by
  have hle : ∀ {as bs : Bytes}, as.length = bs.length → readLE as = readLE bs → as = bs := by
    intro as bs h heq
    rw [← writeLE_readLE as, ← writeLE_readLE bs, h, heq]
  refine ⟨fun heq => ?_, fun heq => by rw [heq]⟩
  cases e with
  | little => exact hle h heq
  | big => exact List.reverse_inj.mp (hle (by rw [List.length_reverse, List.length_reverse, h]) heq)

theorem readLE_writeLE (hx : x < 2 ^ (8 * n)) : readLE (writeLE n x) = x := by
  induction n generalizing x with
  | zero => exact (Nat.lt_one_iff.mp hx).symm
  | succ n ih =>
    rw [Nat.mul_succ, Nat.pow_add] at hx
    rw [writeLE, readLE, ih (by omega), UInt8.toNat_ofNat']
    omega

theorem length_writeBE (n x : Nat) : (writeBE n x).length = n := by
  rw [writeBE, List.length_reverse, length_writeLE]

theorem writeBE_succ (n x : Nat) : writeBE (n + 1) x = writeBE n (x / 256) ++ [UInt8.ofNat x] := by
  rw [writeBE, writeLE, List.reverse_cons, writeBE]

theorem writeBE_inj (hx : x < 2 ^ (8 * n)) (hy : y < 2 ^ (8 * n)) :
    writeBE n x = writeBE n y ↔ x = y := by
  constructor
  · intro h
    have hle : writeLE n x = writeLE n y := List.reverse_inj.mp h
    rw [← readLE_writeLE hx, hle, readLE_writeLE hy]
  · intro h
    rw [h]

/-- Strings of bytes whose first fields are of one length compare by the first
field, and by the rest where the first fields are the same. -/
theorem append_lt_append_iff (h : as.length = bs.length) (cs ds : Bytes) :
    as ++ cs < bs ++ ds ↔ as < bs ∨ as = bs ∧ cs < ds := by
  induction as generalizing bs with
  | nil =>
    cases bs with
    | nil => simp
    | cons b bs => simp at h
  | cons a as ih =>
    cases bs with
    | nil => simp at h
    | cons b bs =>
      simp only [List.cons_append, List.cons_lt_cons_iff, List.cons.injEq,
        ih (Nat.succ.inj h)]
      tauto

/-- Big-endian words of one size compare as their numbers do. -/
theorem writeBE_lt_iff (hx : x < 2 ^ (8 * n)) (hy : y < 2 ^ (8 * n)) :
    writeBE n x < writeBE n y ↔ x < y := by
  induction n generalizing x y with
  | zero =>
    have hx0 : x = 0 := Nat.lt_one_iff.mp hx
    have hy0 : y = 0 := Nat.lt_one_iff.mp hy
    simp [hx0, hy0]
  | succ n ih =>
    rw [Nat.mul_succ, Nat.pow_add] at hx hy
    have hx' : x / 256 < 2 ^ (8 * n) := by omega
    have hy' : y / 256 < 2 ^ (8 * n) := by omega
    have hlow : [UInt8.ofNat x] < [UInt8.ofNat y] ↔ x % 256 < y % 256 := by
      simp [List.cons_lt_cons_iff, UInt8.lt_iff_toNat_lt, UInt8.toNat_ofNat']
    rw [writeBE_succ, writeBE_succ,
      append_lt_append_iff (by rw [length_writeBE, length_writeBE]), ih hx' hy',
      writeBE_inj hx' hy', hlow]
    omega

theorem testBit_readLE (bs : Bytes) (j : Nat) :
    (readLE bs).testBit j = ((bs[j / 8]?).getD 0).toNat.testBit (j % 8) := by
  induction bs generalizing j with
  | nil => simp [readLE]
  | cons b bs ih =>
    have hsum : readLE (b :: bs) = 2 ^ 8 * readLE bs + b.toNat := by rw [readLE]; omega
    rw [hsum, Nat.testBit_two_pow_mul_add _ b.toNat_lt]
    split
    · rename_i hj
      rw [Nat.div_eq_of_lt hj, Nat.mod_eq_of_lt hj]
      rfl
    · rename_i hj
      have hdiv : j / 8 = (j - 8) / 8 + 1 := by omega
      have hmod : j % 8 = (j - 8) % 8 := by omega
      rw [ih, hdiv, hmod, List.getElem?_cons_succ]

theorem testBit_readBE {i : Nat} (hi : i < 8 * bs.length) :
    (readBE bs).testBit (8 * bs.length - 1 - i) = bitAt bs i := by
  have hlt : (8 * bs.length - 1 - i) / 8 < bs.length := by omega
  have hdiv : bs.length - 1 - (8 * bs.length - 1 - i) / 8 = i / 8 := by omega
  have hmod : (8 * bs.length - 1 - i) % 8 = 7 - i % 8 := by omega
  rw [readBE, testBit_readLE, List.getElem?_reverse hlt, hdiv, hmod, bitAt]

theorem readLE_xor (h : as.length = bs.length) :
    readLE as ^^^ readLE bs = readLE (List.zipWith (· ^^^ ·) as bs) := by
  apply Nat.eq_of_testBit_eq
  intro j
  rw [Nat.testBit_xor, testBit_readLE, testBit_readLE, testBit_readLE, List.getElem?_zipWith]
  rcases Nat.lt_or_ge (j / 8) as.length with hj | hj
  · rw [List.getElem?_eq_getElem hj, List.getElem?_eq_getElem (h ▸ hj)]
    simp [UInt8.toNat_xor, Nat.testBit_xor]
  · rw [List.getElem?_eq_none hj, List.getElem?_eq_none (h ▸ hj)]
    simp

/-- Swapped or not, the word has the bytes in network order. -/
theorem reverseBytes_readLE (bs : Bytes) : reverseBytes bs.length (readLE bs) = readBE bs := by
  rw [reverseBytes, writeLE_readLE, readBE]

theorem reverseBytes_xor (h : as.length = bs.length) :
    reverseBytes as.length (readLE as ^^^ readLE bs) = readBE as ^^^ readBE bs := by
  have hlen : (List.zipWith (· ^^^ ·) as bs).length = as.length := by
    rw [List.length_zipWith, h, Nat.min_self]
  rw [readLE_xor h, ← hlen, reverseBytes_readLE, readBE, readBE, readBE,
    readLE_xor (by rw [List.length_reverse, List.length_reverse, h]), List.reverse_zipWith h]

theorem leadingZeros_le (w x : Nat) : leadingZeros w x ≤ w := Nat.sub_le _ _

theorem le_leadingZeros_iff {w : Nat} (hx : x < 2 ^ w) (hn : n ≤ w) :
    n ≤ leadingZeros w x ↔ x < 2 ^ (w - n) := by
  unfold leadingZeros
  split
  · rename_i h
    rw [h]
    exact ⟨fun _ => Nat.two_pow_pos _, fun _ => by omega⟩
  · rename_i h
    have hlog : x.log2 < w := (Nat.log2_lt h).mpr hx
    rw [← Nat.log2_lt h]
    omega

theorem le_leadingZeros_xor {w : Nat} (hx : x < 2 ^ w) (hy : y < 2 ^ w) (hn : n ≤ w) :
    n ≤ leadingZeros w (x ^^^ y) ↔ ∀ i < n, x.testBit (w - 1 - i) = y.testBit (w - 1 - i) := by
  rw [le_leadingZeros_iff (Nat.xor_lt_two_pow hx hy) hn]
  constructor
  · intro h i hi
    have hzero : (x ^^^ y).testBit (w - 1 - i) = false :=
      Nat.testBit_lt_two_pow (Nat.lt_of_lt_of_le h (Nat.pow_le_pow_right (by decide) (by omega)))
    rw [Nat.testBit_xor] at hzero
    exact bne_eq_false_iff_eq.mp hzero
  · intro h
    apply Nat.lt_pow_two_of_testBit
    intro j hj
    rw [Nat.testBit_xor, bne_eq_false_iff_eq]
    rcases Nat.lt_or_ge j w with hjw | hjw
    · have hi := h (w - 1 - j) (by omega)
      have hback : w - 1 - (w - 1 - j) = j := by omega
      rwa [hback] at hi
    · have hpow : 2 ^ w ≤ 2 ^ j := Nat.pow_le_pow_right (by decide) hjw
      rw [Nat.testBit_lt_two_pow (Nat.lt_of_lt_of_le hx hpow),
        Nat.testBit_lt_two_pow (Nat.lt_of_lt_of_le hy hpow)]

open Routes

/-- The leading zeros of the difference count the bits in common. -/
theorem leadingZeros_xor_eq_common (h : as.length = bs.length) :
    leadingZeros (8 * as.length) (readBE as ^^^ readBE bs) =
      common bitAt as bs (8 * as.length) := by
  have hb : readBE bs < 2 ^ (8 * as.length) := by
    rw [h]
    exact readBE_lt bs
  apply eq_common (leadingZeros_le _ _)
  intro n hn
  rw [le_leadingZeros_xor (readBE_lt as) hb hn]
  apply forall₂_congr
  intro i hi
  have hb' : (readBE bs).testBit (8 * as.length - 1 - i) = bitAt bs i := by
    rw [h]
    exact testBit_readBE (by omega)
  rw [testBit_readBE (by omega), hb']

theorem bitAt_append_left {i : Nat} (hi : i < 8 * as.length) :
    bitAt (as ++ bs) i = bitAt as i := by
  rw [bitAt, bitAt, List.getElem?_append_left (by omega)]

theorem bitAt_append_right (as bs : Bytes) (i : Nat) :
    bitAt (as ++ bs) (8 * as.length + i) = bitAt bs i := by
  have hsub : (8 * as.length + i) / 8 - as.length = i / 8 := by omega
  have hmod : (8 * as.length + i) % 8 = i % 8 := by omega
  rw [bitAt, bitAt, List.getElem?_append_right (by omega), hsub, hmod]

/-- The bits of two words in a row: those of the second count when the first agree. -/
theorem common_append (h : as.length = bs.length) (cs ds : Bytes) (m : Nat) :
    common bitAt (as ++ cs) (bs ++ ds) (8 * as.length + m) =
      if common bitAt as bs (8 * as.length) = 8 * as.length then
        8 * as.length + common bitAt cs ds m
      else common bitAt as bs (8 * as.length) := by
  have hfirst : ∀ n ≤ 8 * as.length, Agree bitAt n (as ++ cs) (bs ++ ds) ↔ Agree bitAt n as bs := by
    intro n hn
    apply forall₂_congr
    intro i hi
    rw [bitAt_append_left (by omega), bitAt_append_left (by omega)]
  have hsecond : ∀ n, Agree bitAt (8 * as.length + n) (as ++ cs) (bs ++ ds) ↔
      Agree bitAt (8 * as.length) as bs ∧ Agree bitAt n cs ds := by
    intro n
    rw [← hfirst _ (Nat.le_refl _)]
    constructor
    · intro hagree
      refine ⟨hagree.mono (Nat.le_add_right _ _), fun i hi => ?_⟩
      have := hagree (8 * as.length + i) (by omega)
      rwa [bitAt_append_right, h, bitAt_append_right] at this
    · rintro ⟨hlow, hhigh⟩ i hi
      rcases Nat.lt_or_ge i (8 * as.length) with hlt | hge
      · exact hlow i hlt
      · obtain ⟨k, rfl⟩ := Nat.exists_eq_add_of_le hge
        rw [bitAt_append_right, h, bitAt_append_right]
        exact hhigh k (by omega)
  have hfull :
      common bitAt as bs (8 * as.length) = 8 * as.length ↔ Agree bitAt (8 * as.length) as bs :=
    common_eq_width_iff
  symm
  apply eq_common
  · have := common_le bitAt cs ds m
    have := common_le bitAt as bs (8 * as.length)
    split <;> omega
  · intro n hn
    rcases Nat.le_total n (8 * as.length) with hle | hge
    · rw [hfirst n hle, ← le_common_iff hle]
      split <;> omega
    · obtain ⟨k, rfl⟩ := Nat.exists_eq_add_of_le hge
      rw [hsecond, ← hfull, ← le_common_iff (w := m) (by omega)]
      have := common_le bitAt as bs (8 * as.length)
      split
      · omega
      · rename_i hne
        constructor
        · intro hk; omega
        · intro hk; exact absurd hk.1 hne

theorem common_bytes_eq_width {a b : Bytes} (h : a.length = b.length) :
    common bitAt a b (8 * a.length) = 8 * a.length ↔ a = b := by
  have hb : readBE b < 2 ^ (8 * a.length) := h ▸ readBE_lt b
  have hx := Nat.xor_lt_two_pow (readBE_lt a) hb
  rw [← leadingZeros_xor_eq_common h, ← load_inj (e := .big) h]
  have hle := leadingZeros_le (8 * a.length) (readBE a ^^^ readBE b)
  have hiff := le_leadingZeros_iff hx (Nat.le_refl _)
  rw [Nat.sub_self, Nat.pow_zero, Nat.lt_one_iff, xor_eq_zero_iff] at hiff
  exact ⟨fun heq => hiff.mp (Nat.le_of_eq heq.symm), fun heq => Nat.le_antisymm hle (hiff.mpr heq)⟩

/-- Sixteen bytes compared in two words. -/
theorem common_two_words (ha : as.length = 16) (hb : bs.length = 16) :
    common bitAt as bs 128 =
      if readBE (as.take 8) ^^^ readBE (bs.take 8) = 0 then
        64 + leadingZeros 64 (readBE (as.drop 8) ^^^ readBE (bs.drop 8))
      else leadingZeros 64 (readBE (as.take 8) ^^^ readBE (bs.take 8)) := by
  have ha1 : (as.take 8).length = 8 := by rw [List.length_take]; omega
  have ha2 : (as.drop 8).length = 8 := by rw [List.length_drop]; omega
  have hlen1 : (as.take 8).length = (bs.take 8).length := by
    rw [List.length_take, List.length_take]; omega
  have hlen2 : (as.drop 8).length = (bs.drop 8).length := by
    rw [List.length_drop, List.length_drop]; omega
  have hsplit := common_append hlen1 (as.drop 8) (bs.drop 8) 64
  have hzeros1 := leadingZeros_xor_eq_common hlen1
  have hzeros2 := leadingZeros_xor_eq_common hlen2
  have hfull := common_bytes_eq_width hlen1
  have hzero : readBE (as.take 8) ^^^ readBE (bs.take 8) = 0 ↔ as.take 8 = bs.take 8 := by
    rw [xor_eq_zero_iff]
    exact load_inj (e := .big) hlen1
  rw [List.take_append_drop, List.take_append_drop, ha1] at hsplit
  rw [ha1] at hzeros1 hfull
  rw [ha2] at hzeros2
  rw [hzeros1, hzeros2, hsplit]
  by_cases heq : as.take 8 = bs.take 8
  · rw [if_pos (hfull.mpr heq), if_pos (hzero.mpr heq)]
  · rw [if_neg fun h => heq (hfull.mp h), if_neg fun h => heq (hzero.mp h)]

end Words
