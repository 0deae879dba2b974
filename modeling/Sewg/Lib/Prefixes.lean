import Mathlib.Data.List.Nodup
import Mathlib.Tactic.IntervalCases
import Sewg.Lib.Trie
import Sewg.Lib.Words

/-! Prefixes written out: addresses whose bits behind the prefix are zero, and the list of
those that a trie has for one value. -/

namespace Words

open CString (Bytes)
open Routes

/-- A byte with its first `n` bits set. -/
def topBits (n : Nat) : UInt8 := UInt8.ofNat (256 - 2 ^ (8 - n))

/-- The bits from `n` on are cleared. -/
def maskBits : Nat → Bytes → Bytes
  | _, [] => []
  | n, b :: bs => (b &&& topBits n) :: maskBits (n - 8) bs

theorem length_maskBits (n : Nat) (bs : Bytes) : (maskBits n bs).length = bs.length := by
  induction bs generalizing n with
  | nil => rfl
  | cons b bs ih => rw [maskBits, List.length_cons, ih, List.length_cons]

theorem getElem?_maskBits (n : Nat) (bs : Bytes) (j : Nat) :
    (maskBits n bs)[j]? = (bs[j]?).map (· &&& topBits (n - 8 * j)) := by
  induction bs generalizing n j with
  | nil => rfl
  | cons b bs ih =>
    cases j with
    | zero => rfl
    | succ j =>
      have hleft : n - 8 - 8 * j = n - 8 * (j + 1) := by omega
      rw [maskBits, List.getElem?_cons_succ, List.getElem?_cons_succ, ih, hleft]

theorem topBits_of_le {n : Nat} (h : 8 ≤ n) : topBits n = 255 := by
  rw [topBits, Nat.sub_eq_zero_of_le h]
  rfl

theorem testBit_topBits (n : Nat) {j : Nat} (hj : j < 8) :
    (topBits n).toNat.testBit j = decide (7 - j < n) := by
  rcases Nat.lt_or_ge n 8 with hn | hn
  · interval_cases n <;> interval_cases j <;> rfl
  · rw [topBits_of_le hn, decide_eq_true (by omega)]
    interval_cases j <;> rfl

theorem bitAt_maskBits (n : Nat) (bs : Bytes) (i : Nat) :
    bitAt (maskBits n bs) i = (decide (i < n) && bitAt bs i) := by
  have hiff : 7 - (7 - i % 8) < n - 8 * (i / 8) ↔ i < n := by omega
  rw [bitAt, getElem?_maskBits, bitAt]
  cases bs[i / 8]? with
  | none => simp
  | some b =>
    rw [Option.map_some, Option.getD_some, Option.getD_some, UInt8.toNat_and, Nat.testBit_and,
      testBit_topBits _ (by omega), decide_eq_decide.mpr hiff, Bool.and_comm]

theorem eq_of_bitAt {a b : Bytes} (h : a.length = b.length)
    (hbits : ∀ i < 8 * a.length, bitAt a i = bitAt b i) : a = b :=
  (common_bytes_eq_width h).mp (common_eq_width_iff.mpr hbits)

theorem agree_maskBits (n : Nat) (bs : Bytes) : Agree bitAt n (maskBits n bs) bs := by
  intro i hi
  rw [bitAt_maskBits, decide_eq_true hi, Bool.true_and]

/-- Masking leaves of an address what its prefix has. -/
theorem maskBits_congr {n : Nat} {a b : Bytes} (h : a.length = b.length)
    (hagree : Agree bitAt n a b) : maskBits n a = maskBits n b := by
  apply eq_of_bitAt
  · rw [length_maskBits, length_maskBits, h]
  · intro i _
    rw [bitAt_maskBits, bitAt_maskBits]
    by_cases hi : i < n
    · rw [hagree i hi]
    · rw [decide_eq_false hi, Bool.false_and, Bool.false_and]

theorem maskBits_maskBits (n : Nat) (bs : Bytes) : maskBits n (maskBits n bs) = maskBits n bs :=
  maskBits_congr (length_maskBits n bs) (agree_maskBits n bs)

theorem and_topBits_of_le (b : UInt8) {n : Nat} (h : 8 ≤ n) : b &&& topBits n = b := by
  apply UInt8.toNat_inj.mp
  rw [topBits_of_le h, UInt8.toNat_and]
  exact (Nat.and_two_pow_sub_one_eq_mod b.toNat 8).trans (Nat.mod_eq_of_lt b.toNat_lt)

theorem and_topBits_zero (b : UInt8) : b &&& topBits 0 = 0 := by
  apply UInt8.toNat_inj.mp
  rw [UInt8.toNat_and]
  exact Nat.and_zero b.toNat

/-- Masking as it is done in place: whole bytes are cleared, and the last one before them
is masked. -/
theorem maskBits_eq_modify {n : Nat} {bs : Bytes} (hn : n ≤ 8 * bs.length) (h0 : n ≠ 0) :
    maskBits n bs = (bs.take ((n + 7) / 8) ++ List.replicate (bs.length - (n + 7) / 8) 0).modify
      ((n + 7) / 8 - 1) (· &&& topBits (n - 8 * ((n + 7) / 8 - 1))) := by
  apply List.ext_getElem?
  intro j
  rw [getElem?_maskBits, List.getElem?_modify]
  rcases Nat.lt_or_ge j ((n + 7) / 8) with hj | hj
  · rw [List.getElem?_append_left (by rw [List.length_take]; omega), List.getElem?_take_of_lt hj]
    by_cases hlast : (n + 7) / 8 - 1 = j
    · simp [hlast]
    · have hwhole : 8 ≤ n - 8 * j := by omega
      simp [hlast, and_topBits_of_le _ hwhole]
  · have hzero : n - 8 * j = 0 := by omega
    have htake : (bs.take ((n + 7) / 8)).length = (n + 7) / 8 := by rw [List.length_take]; omega
    rw [List.getElem?_append_right (by omega), htake, List.getElem?_replicate, hzero]
    rcases Nat.lt_or_ge j bs.length with hb | hb
    · rw [List.getElem?_eq_getElem hb, if_pos (by omega)]
      simp [and_topBits_zero, show ¬(n + 7) / 8 - 1 = j by omega]
    · rw [List.getElem?_eq_none hb, if_neg (by omega)]
      rfl

theorem maskBits_zero (bs : Bytes) : maskBits 0 bs = List.replicate bs.length 0 := by
  induction bs with
  | nil => rfl
  | cons b bs ih => rw [maskBits, and_topBits_zero, ih, List.length_cons, List.replicate_succ]

theorem maskBits_eq_self_iff {n : Nat} {bs : Bytes} :
    maskBits n bs = bs ↔ ∀ i, n ≤ i → bitAt bs i = false := by
  constructor
  · intro h i hi
    rw [← h, bitAt_maskBits, decide_eq_false (Nat.not_lt.mpr hi), Bool.false_and]
  · intro h
    apply eq_of_bitAt (length_maskBits n bs)
    intro i _
    rw [bitAt_maskBits]
    by_cases hi : i < n
    · rw [decide_eq_true hi, Bool.true_and]
    · rw [h i (Nat.le_of_not_lt hi), Bool.and_false]

end Words

namespace Routes.Trie

open CString (Bytes)
open Words

variable {P : Type} [DecidableEq P] {first : Bool} {p : P} {t : Trie Bytes P} {size w : Nat}

/-- The prefixes of `p`, written out. -/
def listing (first : Bool) (p : P) (t : Trie Bytes P) : List (Bytes × Nat) :=
  (t.entries first p).map fun entry => (maskBits entry.2 entry.1, entry.2)

/-- The addresses in the trie are of one size. -/
def KeysOf (size : Nat) : Trie Bytes P → Prop
  | nil => True
  | node key _ _ child => key.length = size ∧ ∀ i, (child i).KeysOf size

theorem length_of_mem_entries (hkeys : t.KeysOf size) {entry : Bytes × Nat}
    (h : entry ∈ t.entries first p) : entry.1.length = size := by
  induction t with
  | nil => cases h
  | node key len val child ih =>
    rcases mem_entries_node.mp h with ⟨-, rfl⟩ | ⟨i, hi⟩
    · exact hkeys.1
    · exact ih i (hkeys.2 i) hi

/-- Every prefix of `p` is listed, and nothing else. -/
theorem mem_listing_iff (ho : t.Ordered bitAt w) (hkeys : t.KeysOf size) {x : Bytes} {n : Nat} :
    (x, n) ∈ t.listing first p ↔ x.length = size ∧ maskBits n x = x ∧ t.get bitAt x n = some p := by
  rw [listing, List.mem_map]
  constructor
  · rintro ⟨⟨key, len⟩, hmem, heq⟩
    cases heq
    refine ⟨?_, maskBits_maskBits _ _, ?_⟩
    · rw [length_maskBits]
      exact length_of_mem_entries hkeys hmem
    · rw [get_congr (agree_maskBits _ _)]
      exact get_of_mem_entries ho hmem
  · rintro ⟨hlen, hmask, hget⟩
    obtain ⟨key, hmem, hagree⟩ := exists_mem_entries first hget
    refine ⟨(key, n), hmem, ?_⟩
    rw [maskBits_congr ((length_of_mem_entries hkeys hmem).trans hlen.symm) hagree, hmask]

theorem nodup_listing (ho : t.Ordered bitAt w) : (t.listing first p).Nodup := by
  refine List.Pairwise.map _ ?_ (pairwise_entries ho)
  rintro ⟨key, len⟩ ⟨key', len'⟩ hne heq
  simp only [Prod.mk.injEq] at heq
  obtain ⟨hmask, rfl⟩ := heq
  refine hne ⟨rfl, (agree_maskBits len key).symm.trans ?_⟩
  rw [hmask]
  exact agree_maskBits len key'

end Routes.Trie
