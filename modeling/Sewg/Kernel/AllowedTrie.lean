import Mathlib.Tactic.IntervalCases
import Sewg.Kernel.AllowedIPs

/-! The nodes of `allowedips.c` refine a trie over addresses in network order: the
keys are kept in the machine's byte order, the position of the branching bit is turned
around with them, and finding and adding walk along the pointers. -/

namespace Sewg.Kernel

open CString (Bytes)
open Words Routes PtrTree Loop

/-! ### Keys in the machine's byte order -/

/-- The bytes of each word turned around on a little-endian machine. -/
def toHost : Endian → Bytes → Bytes
  | .little, bs => (bs.take 8).reverse ++ (bs.drop 8).reverse
  | .big, bs => bs

section
variable {e : Endian} {bs : Bytes}

@[simp] theorem length_toHost (e : Endian) (bs : Bytes) : (toHost e bs).length = bs.length := by
  cases e with
  | little =>
    rw [toHost, List.length_append, List.length_reverse, List.length_reverse, ← List.length_append,
      List.take_append_drop]
  | big => rfl

theorem toHost_little_short (h : bs.length ≤ 8) : toHost .little bs = bs.reverse := by
  rw [toHost, List.take_of_length_le h, List.drop_eq_nil_of_le h, List.reverse_nil, List.append_nil]

theorem toHost_toHost (e : Endian) (bs : Bytes) : toHost e (toHost e bs) = bs := by
  cases e with
  | big => rfl
  | little =>
    rcases Nat.le_total bs.length 8 with h | h
    · rw [toHost_little_short (by rw [length_toHost]; exact h), toHost_little_short h,
        List.reverse_reverse]
    · have hlen : (bs.take 8).reverse.length = 8 := by
        rw [List.length_reverse, List.length_take, Nat.min_eq_left h]
      rw [toHost, toHost, List.take_left' hlen, List.drop_left' hlen, List.reverse_reverse,
        List.reverse_reverse, List.take_append_drop]

theorem store_beToCpu_load (e : Endian) (bs : Bytes) :
    store e bs.length (beToCpu e bs.length (load e bs)) =
      match e with
      | .little => bs.reverse
      | .big => bs := by
  have hrev : writeLE bs.length (readBE bs) = bs.reverse := by
    rw [← List.length_reverse]
    exact writeLE_readLE bs.reverse
  cases e with
  | little => rw [beToCpu, load, reverseBytes_readLE, store, hrev]
  | big => rw [beToCpu, load, store, hrev, List.reverse_reverse]

theorem swapEndian_32 (h : bs.length = 4) : swapEndian e bs 32 = toHost e bs := by
  have htake : bs.take 4 = bs := List.take_of_length_le (Nat.le_of_eq h)
  have hword := store_beToCpu_load e bs
  rw [swapEndian, if_pos rfl, htake, ← h, hword]
  cases e with
  | little => exact (toHost_little_short (by omega)).symm
  | big => rfl

theorem swapEndian_128 (h : bs.length = 16) : swapEndian e bs 128 = toHost e bs := by
  have hfst : (bs.take 8).length = 8 := by rw [List.length_take, h]; rfl
  have hsnd : (bs.drop 8).length = 8 := by rw [List.length_drop, h]
  have htake : (bs.drop 8).take 8 = bs.drop 8 := List.take_of_length_le (Nat.le_of_eq hsnd)
  have hword1 := store_beToCpu_load e (bs.take 8)
  have hword2 := store_beToCpu_load e (bs.drop 8)
  rw [hfst] at hword1
  rw [hsnd] at hword2
  rw [swapEndian, if_neg (by decide), if_pos rfl, htake, hword1, hword2]
  cases e with
  | little => rfl
  | big => exact List.take_append_drop 8 bs

/-- The first word of a key is the number its network bytes stand for. -/
theorem load_take_toHost (e : Endian) (bs : Bytes) :
    load e ((toHost e bs).take 8) = readBE (bs.take 8) := by
  cases e with
  | big => rfl
  | little =>
    rcases Nat.le_total bs.length 8 with h | h
    · rw [toHost_little_short h, List.take_of_length_le (by rw [List.length_reverse]; exact h),
        List.take_of_length_le h, load, readBE]
    · rw [toHost,
        List.take_left' (by rw [List.length_reverse, List.length_take]; omega), load, readBE]

theorem load_drop_toHost (e : Endian) {bs : Bytes} (h : 8 ≤ bs.length) :
    load e ((toHost e bs).drop 8) = readBE (bs.drop 8) := by
  cases e with
  | big => rfl
  | little =>
    rw [toHost,
      List.drop_left' (by rw [List.length_reverse, List.length_take]; omega), load, readBE]

/-- The sizes in bytes of the two kinds of addresses. -/
def AddressSize (size : Nat) : Prop := size = 4 ∨ size = 16

/-- The key of a node, in network order. -/
def NodeData.key {P : Type} (e : Endian) (size : Nat) (d : NodeData P) : Bytes :=
  toHost e (d.bits.take size)

/-- The array is full, and the branching bit is the one after the prefix. -/
structure NodeData.Shaped {P : Type} (e : Endian) (size : Nat) (d : NodeData P) : Prop where
  bits : d.bits.length = 16
  at_a : d.bit_at_a =
    match e with
    | .little => (d.cidr / 8) ^^^ ((size - 1) % 8)
    | .big => d.cidr / 8
  at_b : d.bit_at_b = 7 - d.cidr % 8

variable {P : Type} {size : Nat} {d : NodeData P} {x key : Bytes}

theorem length_key (hsize : AddressSize size) (hd : d.Shaped e size) :
    (d.key e size).length = size := by
  have := hd.bits
  rw [NodeData.key, length_toHost, List.length_take]
  rcases hsize with rfl | rfl <;> omega

theorem fls_le {w x : Nat} (hx : x < 2 ^ w) : fls x ≤ w := by
  unfold fls
  split
  · exact Nat.zero_le w
  · rename_i h
    exact (Nat.log2_lt h).mpr hx

theorem leadingZeros_eq_sub_fls (w x : Nat) : leadingZeros w x = w - fls x := rfl

/-- The comparison counts the bits in common, on either layout. -/
theorem commonBits_spec (hsize : AddressSize size) (hd : d.Shaped e size) (hx : x.length = size) :
    commonBits e d (toHost e x) (8 * size) = some (common bitAt (d.key e size) x (8 * size)) := by
  have hkey := length_key hsize hd
  have hbits : d.bits.take size = toHost e (d.key e size) := (toHost_toHost e _).symm
  have hlen := hd.bits
  have hshort : ¬ (d.bits.length < 8 * size / 8 ∨ (toHost e x).length < 8 * size / 8) := by
    rw [length_toHost, hlen, hx]
    rcases hsize with rfl | rfl <;> decide
  rw [commonBits, if_neg hshort]
  rcases hsize with rfl | rfl
  · have hzeros := leadingZeros_xor_eq_common (hkey.trans hx.symm)
    have hload : ∀ y : Bytes, y.length = 4 → load e (toHost e y) = readBE y := by
      intro y hy
      have := load_take_toHost e y
      rwa [List.take_of_length_le (by rw [length_toHost]; omega),
        List.take_of_length_le (by omega)] at this
    rw [hkey] at hzeros
    rw [if_pos rfl, hbits, List.take_of_length_le (by rw [length_toHost]; omega), hload _ hkey,
      hload _ hx, ← leadingZeros_eq_sub_fls, hzeros]
  · have htake : d.bits = toHost e (d.key e 16) := by
      rw [← hbits, List.take_of_length_le (Nat.le_of_eq hlen)]
    have hword : ∀ y : Bytes, y.length = 16 →
        load e (((toHost e y).drop 8).take 8) = readBE (y.drop 8) := by
      intro y hy
      rw [List.take_of_length_le (by rw [List.length_drop, length_toHost]; omega),
        load_drop_toHost e (by omega)]
    rw [if_neg (by decide), if_pos rfl, htake, load_take_toHost, load_take_toHost, hword _ hkey,
      hword _ hx, common_two_words hkey hx, fls128]
    have hb : ∀ y : Bytes, y.length ≤ 8 → readBE y < 2 ^ 64 := fun y hy =>
      Nat.lt_of_lt_of_le (readBE_lt y) (Nat.pow_le_pow_right (by decide) (by omega))
    have h1 :=
      fls_le (Nat.xor_lt_two_pow (hb ((d.key e 16).take 8) (by rw [List.length_take]; omega))
      (hb (x.take 8) (by rw [List.length_take]; omega)))
    have h2 :=
      fls_le (Nat.xor_lt_two_pow (hb ((d.key e 16).drop 8) (by rw [List.length_drop]; omega))
      (hb (x.drop 8) (by rw [List.length_drop]; omega)))
    by_cases hz : readBE ((d.key e 16).take 8) ^^^ readBE (x.take 8) = 0
    · rw [if_neg (not_not.mpr hz), if_pos hz, leadingZeros_eq_sub_fls]
      congr 1
      omega
    · rw [if_pos hz, if_neg hz, leadingZeros_eq_sub_fls]
      congr 1
      omega

/-- The byte that the turned position names is the one the network order has there. -/
theorem getElem?_toHost (hsize : AddressSize size) (hx : x.length = size) {j : Nat}
    (hj : j < size) :
    (toHost e x)[match e with | .little => j ^^^ ((size - 1) % 8) | .big => j]? = x[j]? := by
  cases e with
  | big => rfl
  | little =>
    rcases hsize with rfl | rfl
    · match x, hx with
      | [a, b, c, d], _ => interval_cases j <;> rfl
    · match x, hx with
      | [a0, a1, a2, a3, a4, a5, a6, a7, a8, a9, a10, a11, a12, a13, a14, a15], _ =>
        interval_cases j <;> rfl

theorem chooseNode_spec (key : Bytes) (hsize : AddressSize size) (hd : d.Shaped e size)
    (hx : x.length = size) (hkey : key.take size = toHost e x) (hcidr : d.cidr < 8 * size) :
    chooseNode d key = some (bitAt x d.cidr) := by
  have hj : d.cidr / 8 < size := by omega
  have hbyte := getElem?_toHost (e := e) hsize hx hj
  rw [← hkey, ← hd.at_a] at hbyte
  have hlt : d.bit_at_a < size := by
    by_contra h
    rw [List.getElem?_eq_none (by rw [List.length_take]; omega),
      List.getElem?_eq_getElem (hx ▸ hj)] at hbyte
    cases hbyte
  rw [List.getElem?_take_of_lt hlt] at hbyte
  rw [chooseNode, hbyte, bitAt, List.getElem?_eq_getElem (hx ▸ hj), Option.map_some,
    Option.getD_some, Nat.testBit, Nat.and_comm, hd.at_b]

/-! ### Trees of nodes as tries -/

/-- The trie that a tree of nodes stands for. -/
def abs (e : Endian) (size : Nat) : PTree (NodeData P) → Trie Bytes P
  | .nil => .nil
  | .node _ d child => .node (d.key e size) d.cidr d.peer fun i => abs e size (child i)

def AllShaped (e : Endian) (size : Nat) : PTree (NodeData P) → Prop
  | .nil => True
  | .node _ d child => d.Shaped e size ∧ ∀ i, AllShaped e size (child i)

structure Valid (e : Endian) (size : Nat) (t : PTree (NodeData P)) : Prop where
  size_ok : AddressSize size
  shaped : AllShaped e size t
  ordered : (abs e size t).Ordered bitAt (8 * size)

variable {t : PTree (NodeData P)} {m : Cells (NodeData P)}

theorem Valid.child {ptr : Nat} {child : Bool → PTree (NodeData P)}
    (h : Valid e size (.node ptr d child)) (i : Bool) : Valid e size (child i) :=
  ⟨h.size_ok, h.shaped.2 i, (h.ordered.2 i).2⟩

/-- The pointer leads to a node with peer `v`; NULL stands for no peer. -/
def PeerAt (m : Cells (NodeData P)) (v : Option P) : Option Nat → Prop
  | none => v = none
  | some n => ∃ c, m n = some c ∧ c.data.peer = v

theorem findNode_spec (hr : t.Rep m) (hv : Valid e size t) (hx : x.length = size) {v : Option P}
    {found : Option Nat} (hfound : PeerAt m v found) :
    ∃ r, Returns (findNodeStep e m (8 * size) (toHost e x)) (t.root, found) r ∧
      PeerAt m ((abs e size t).lookup bitAt (8 * size) x v) r := by
  induction t generalizing v found with
  | nil => exact ⟨found, returns_done rfl, hfound⟩
  | node ptr d child ih =>
    have hwidth : d.cidr ≤ 8 * size := hv.ordered.1
    have hcommon := commonBits_spec hv.size_ok hv.shaped.1 hx
    have hstep : findNodeStep e m (8 * size) (toHost e x) (some ptr, found) =
        if common bitAt (d.key e size) x (8 * size) ≥ d.cidr then
          let found := if d.peer.isSome then some ptr else found
          if d.cidr = 8 * size then some (.inr found)
          else (chooseNode d (toHost e x)).bind fun i => some (.inl ((child i).root, found))
        else some (.inr found) := by
      simp only [findNodeStep, hr.1, hcommon, Option.bind_eq_bind, Option.bind_some]
      rfl
    have hfound' : PeerAt m (d.peer.or v) (if d.peer.isSome then some ptr else found) := by
      cases hp : d.peer with
      | none => exact hfound
      | some p => exact ⟨_, hr.1, hp⟩
    rw [abs, Trie.lookup]
    by_cases hmatch : d.cidr ≤ common bitAt (d.key e size) x (8 * size)
    · rw [if_pos hmatch]
      rw [if_pos hmatch] at hstep
      by_cases hfull : d.cidr = 8 * size
      · rw [if_pos hfull]
        simp only [if_pos hfull] at hstep
        exact ⟨_, returns_done hstep, hfound'⟩
      · have hchoose := chooseNode_spec (toHost e x) hv.size_ok hv.shaped.1 hx
          (List.take_of_length_le (by rw [length_toHost, hx])) (by omega)
        rw [if_neg hfull]
        simp only [if_neg hfull, hchoose, Option.bind_some] at hstep
        obtain ⟨r, hret, hpeer⟩ := ih (bitAt x d.cidr) (hr.2 _) (hv.child _) hfound'
        exact ⟨r, returns_next hstep hret, hpeer⟩
    · rw [if_neg hmatch]
      rw [if_neg hmatch] at hstep
      exact ⟨found, returns_done hstep, hfound⟩

/-- Looking an address up ends, without a fault, with the peer of the longest prefix. -/
theorem lookup_spec {s : Store (NodeData P)} (hr : t.Rep s.cell) (htop : s.top = t.root)
    (hv : Valid e size t) (hx : x.length = size) (hswap : swapEndian e x (8 * size) = toHost e x) :
    Eventually (fun fuel => lookup fuel e s (8 * size) x)
      (longest ((abs e size t).get bitAt) x (8 * size)) := by
  obtain ⟨r, hret, hpeer⟩ := findNode_spec hr hv hx (show PeerAt s.cell none none from rfl)
  rw [Trie.lookup_eq_longest hv.ordered, Option.or_none] at hpeer
  unfold lookup
  dsimp only
  rw [hswap]
  refine Eventually.bind
    (f := fun fuel => findNode e s.cell (8 * size) (toHost e x) fuel s.top) (a := r) ?_ ?_
  · rw [htop]
    exact hret
  · cases r with
    | none =>
      rw [show longest ((abs e size t).get bitAt) x (8 * size) = none from hpeer]
      exact eventually_some none
    | some n =>
      obtain ⟨c, hc, hp⟩ := hpeer
      rw [← hp]
      refine ⟨0, fun _ _ => ?_⟩
      dsimp only
      rw [hc]
      rfl

end

end Sewg.Kernel
