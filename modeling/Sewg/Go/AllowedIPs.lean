import Sewg.Lib.Trie
import Sewg.Lib.Words

/-! The allowed IPs of `allowedips.go`. The code indexes slices and reads words
through unsafe pointers, so every operation can fail; an index out of range or a
read past the end of a slice is `none`. The machine's byte order is a parameter. -/

namespace Sewg.Go

open CString (Bytes)
open Words Routes

def IPv4len : Nat := 4
def IPv6len : Nat := 16

/-- A `*trieEntry`. No two nodes share a child, so a pointer is the tree under it. -/
inductive TrieEntry (P : Type) where
  | nil
  | node (cidr : Nat) (child : Bool → TrieEntry P) (bits : Bytes) (peer : Option P)
      (bit_at_byte bit_at_shift : Nat)

def swapU32 : Endian → Nat → Nat
  | .big, i => i
  | .little, i => reverseBytes 4 i

def swapU64 : Endian → Nat → Nat
  | .big, i => i
  | .little, i => reverseBytes 8 i

def commonBits (e : Endian) (ip1 ip2 : Bytes) : Option Nat :=
  let size := ip1.length
  if ip2.length < size then none
  else if size = IPv4len then
    let x := load e (ip1.take 4) ^^^ load e (ip2.take 4)
    some (leadingZeros 32 (swapU32 e x))
  else if size = IPv6len then
    let x := load e (ip1.take 8) ^^^ load e (ip2.take 8)
    if x ≠ 0 then some (leadingZeros 64 (swapU64 e x))
    else
      let x := load e ((ip1.drop 8).take 8) ^^^ load e ((ip2.drop 8).take 8)
      some (64 + leadingZeros 64 (swapU64 e x))
  else none

/-- `choose` of a node with these two fields. -/
def choose (bit_at_byte bit_at_shift : Nat) (ip : Bytes) : Option Bool :=
  (ip[bit_at_byte]?).map fun b => (b.toNat >>> bit_at_shift) &&& 1 != 0

def newEntry {P : Type} (bits : Bytes) (cidr : Nat) (peer : Option P)
    (child : Bool → TrieEntry P) : TrieEntry P :=
  .node cidr child bits peer (cidr / 8) (7 - cidr % 8)

namespace TrieEntry

variable {P : Type} (e : Endian)

def insert (ip : Bytes) (cidr : Nat) (peer : P) : TrieEntry P → Option (TrieEntry P)
  | nil => some (newEntry ip cidr (some peer) fun _ => nil)
  | node cidr' child bits peer' bit_at_byte bit_at_shift => do
    let common ← commonBits e bits ip
    if cidr' ≤ cidr ∧ common ≥ cidr' then
      if cidr' = cidr then return node cidr' child bits (some peer) bit_at_byte bit_at_shift
      else
        let bit ← choose bit_at_byte bit_at_shift ip
        let below ← (child bit).insert ip cidr peer
        return node cidr' (Function.update child bit below) bits peer' bit_at_byte bit_at_shift
    else
      let this := node cidr' child bits peer' bit_at_byte bit_at_shift
      let least := min cidr common
      if cidr = least then
        -- the new prefix is the shorter one
        let bit ← choose (cidr / 8) (7 - cidr % 8) bits
        return newEntry ip cidr (some peer) (Function.update (fun _ => nil) bit this)
      else
        let new := newEntry ip cidr (some peer) fun _ => nil
        let bit ← choose (least / 8) (7 - least % 8) ip
        return newEntry ip least none
          (Function.update (Function.update (fun _ => nil) bit new) (!bit) this)

/-- The loop of `lookup`, with `found` so far. -/
def lookup (ip : Bytes) : TrieEntry P → Option P → Option (Option P)
  | nil, found => some found
  | node cidr child bits peer bit_at_byte bit_at_shift, found => do
    let common ← commonBits e bits ip
    if common ≥ cidr then
      let found := peer.or found
      if bit_at_byte = ip.length then return found
      else
        let bit ← choose bit_at_byte bit_at_shift ip
        (child bit).lookup ip found
    else return found

variable [DecidableEq P]

def removeByPeer (p : P) : TrieEntry P → TrieEntry P
  | nil => nil
  | node cidr child bits peer bit_at_byte bit_at_shift =>
    let child := fun i => (child i).removeByPeer p
    if peer ≠ some p then node cidr child bits peer bit_at_byte bit_at_shift
    else
      match child false with
      | nil => child true
      | c => c

end TrieEntry

structure AllowedIPs (P : Type) where
  IPv4 : TrieEntry P
  IPv6 : TrieEntry P

namespace AllowedIPs

variable {P : Type} (e : Endian)

def Reset : AllowedIPs P := ⟨.nil, .nil⟩

def RemoveByPeer [DecidableEq P] (table : AllowedIPs P) (peer : P) : AllowedIPs P :=
  ⟨table.IPv4.removeByPeer peer, table.IPv6.removeByPeer peer⟩

def Insert (table : AllowedIPs P) (ip : Bytes) (cidr : Nat) (peer : P) : Option (AllowedIPs P) :=
  if ip.length = IPv6len then (table.IPv6.insert e ip cidr peer).map ({ table with IPv6 := · })
  else if ip.length = IPv4len then (table.IPv4.insert e ip cidr peer).map ({ table with IPv4 := · })
  else none

def LookupIPv4 (table : AllowedIPs P) (address : Bytes) : Option (Option P) :=
  table.IPv4.lookup e address none

def LookupIPv6 (table : AllowedIPs P) (address : Bytes) : Option (Option P) :=
  table.IPv6.lookup e address none

end AllowedIPs

/-! ### The words compare as the bit strings do -/

theorem swapU32_xor (e : Endian) {a b : Bytes} (ha : a.length = 4) (hb : b.length = 4) :
    swapU32 e (load e a ^^^ load e b) = readBE a ^^^ readBE b := by
  cases e with
  | big => rfl
  | little => rw [swapU32, load, load, ← ha, reverseBytes_xor (ha.trans hb.symm)]

theorem swapU64_xor (e : Endian) {a b : Bytes} (ha : a.length = 8) (hb : b.length = 8) :
    swapU64 e (load e a ^^^ load e b) = readBE a ^^^ readBE b := by
  cases e with
  | big => rfl
  | little => rw [swapU64, load, load, ← ha, reverseBytes_xor (ha.trans hb.symm)]

/-- The comparison through words counts the bits in common, on either layout. -/
theorem commonBits_eq (e : Endian) {a b : Bytes} (hsize : a.length = IPv4len ∨ a.length = IPv6len)
    (h : a.length = b.length) : commonBits e a b = some (common bitAt a b (8 * a.length)) := by
  have hlt : ¬ b.length < a.length := by omega
  rcases hsize with hsize | hsize
  · have ha : a.length = 4 := hsize
    have hb : b.length = 4 := by omega
    have hzeros := leadingZeros_xor_eq_common h
    rw [ha] at hzeros
    unfold commonBits
    rw [if_neg hlt, if_pos hsize]
    dsimp only
    rw [List.take_of_length_le (Nat.le_of_eq ha), List.take_of_length_le (Nat.le_of_eq hb),
      swapU32_xor e ha hb, ha, hzeros]
  · have ha : a.length = 16 := hsize
    have hb : b.length = 16 := by omega
    have ha1 : (a.take 8).length = 8 := by rw [List.length_take]; omega
    have hb1 : (b.take 8).length = 8 := by rw [List.length_take]; omega
    have ha2 : (a.drop 8).length = 8 := by rw [List.length_drop]; omega
    have hb2 : (b.drop 8).length = 8 := by rw [List.length_drop]; omega
    have hne : ¬ a.length = IPv4len := by rw [hsize]; decide
    unfold commonBits
    rw [if_neg hlt, if_neg hne, if_pos hsize]
    dsimp only
    rw [List.take_of_length_le (Nat.le_of_eq ha2), List.take_of_length_le (Nat.le_of_eq hb2),
      swapU64_xor e ha1 hb1, swapU64_xor e ha2 hb2, ha, common_two_words ha hb]
    have hzero : load e (a.take 8) ^^^ load e (b.take 8) = 0 ↔
        readBE (a.take 8) ^^^ readBE (b.take 8) = 0 := by
      rw [xor_eq_zero_iff, xor_eq_zero_iff, load_inj (ha1.trans hb1.symm)]
      exact (load_inj (e := .big) (ha1.trans hb1.symm)).symm
    by_cases hx : load e (a.take 8) ^^^ load e (b.take 8) = 0
    · rw [if_neg (not_not.mpr hx), if_pos (hzero.mp hx)]
    · rw [if_pos hx, if_neg fun h => hx (hzero.mpr h)]

theorem choose_eq {cidr : Nat} {ip : Bytes} (h : cidr < 8 * ip.length) :
    choose (cidr / 8) (7 - cidr % 8) ip = some (bitAt ip cidr) := by
  have hlt : cidr / 8 < ip.length := by omega
  rw [choose, bitAt, List.getElem?_eq_getElem hlt, Option.map_some, Option.getD_some,
    Nat.testBit, Nat.and_comm]

/-! ### The entries refine the trie -/

namespace TrieEntry

variable {P : Type} {e : Endian} {size : Nat} {t : TrieEntry P} {ip : Bytes} {cidr : Nat} {peer : P}

def abs : TrieEntry P → Trie Bytes P
  | nil => .nil
  | node cidr child bits peer _ _ => .node bits cidr peer fun i => (child i).abs

/-- The stored position of the branching bit is that of the prefix's length, and all
keys have one length. -/
def Shaped (size : Nat) : TrieEntry P → Prop
  | nil => True
  | node cidr child bits _ bit_at_byte bit_at_shift =>
    bits.length = size ∧ bit_at_byte = cidr / 8 ∧ bit_at_shift = 7 - cidr % 8 ∧
      ∀ i, (child i).Shaped size

structure Valid (size : Nat) (t : TrieEntry P) : Prop where
  size_ok : size = IPv4len ∨ size = IPv6len
  shaped : t.Shaped size
  ordered : t.abs.Ordered bitAt (8 * size)

theorem Valid.child {cidr : Nat} {child : Bool → TrieEntry P} {bits : Bytes} {peer : Option P}
    {byte shift : Nat} (h : (node cidr child bits peer byte shift).Valid size) (i : Bool) :
    (child i).Valid size :=
  ⟨h.size_ok, h.shaped.2.2.2 i, (h.ordered.2 i).2⟩

theorem abs_update {child : Bool → TrieEntry P} (i : Bool) (t : TrieEntry P) :
    (fun j => (Function.update child i t j).abs) =
      Function.update (fun j => (child j).abs) i t.abs := by
  funext j
  exact Function.apply_update (fun _ => abs) child i t j

theorem shaped_update {child : Bool → TrieEntry P} (hc : ∀ i, (child i).Shaped size) (i : Bool)
    (ht : t.Shaped size) (j : Bool) : (Function.update child i t j).Shaped size := by
  by_cases hj : j = i
  · rw [hj, Function.update_self]
    exact ht
  · rw [Function.update_of_ne hj]
    exact hc j

theorem insert_spec (peer : P) (ht : t.Valid size) (hip : ip.length = size)
    (hcidr : cidr ≤ 8 * size) : ∃ t', t.insert e ip cidr peer = some t' ∧ t'.Shaped size ∧
      t'.abs = t.abs.insert bitAt (8 * size) ip cidr peer := by
  induction t with
  | nil => exact ⟨_, rfl, ⟨hip, rfl, rfl, fun _ => trivial⟩, rfl⟩
  | node cidr' child bits peer' byte shift ih =>
    obtain ⟨hbits, rfl, rfl, hchild⟩ := ht.shaped
    have hwidth : cidr' ≤ 8 * size := ht.ordered.1
    have hcommon :=
      commonBits_eq e (a := bits) (b := ip) (hbits ▸ ht.size_ok) (hbits.trans hip.symm)
    have hleaf : (newEntry ip cidr (some peer) fun _ => nil).Shaped size :=
      ⟨hip, rfl, rfl, fun _ => trivial⟩
    have hnil : ∀ i : Bool, ((fun _ => nil : Bool → TrieEntry P) i).Shaped size := fun _ => trivial
    rw [hbits] at hcommon
    simp only [insert, hcommon, Option.bind_eq_bind, Option.bind_some, abs, Trie.insert]
    by_cases hdown : cidr' ≤ cidr ∧ cidr' ≤ common bitAt bits ip (8 * size)
    · rw [if_pos hdown, if_pos hdown]
      by_cases heq : cidr' = cidr
      · rw [if_pos heq, if_pos heq]
        exact ⟨_, rfl, ⟨hbits, rfl, rfl, hchild⟩, rfl⟩
      · have hlt : cidr' < 8 * ip.length := by omega
        obtain ⟨t', ht', hshaped, habs⟩ := ih (bitAt ip cidr') (ht.child _)
        rw [if_neg heq, if_neg heq, choose_eq hlt, Option.bind_some, ht', Option.bind_some]
        refine ⟨_, rfl, ⟨hbits, rfl, rfl, shaped_update hchild _ hshaped⟩, ?_⟩
        rw [abs, abs_update, habs]
    · rw [if_neg hdown, if_neg hdown]
      by_cases heq : cidr = min cidr (common bitAt bits ip (8 * size))
      · -- the node's prefix is the longer one, so the new one has a next bit
        have hlt : cidr < 8 * bits.length := by omega
        rw [if_pos heq, if_pos heq, choose_eq hlt, Option.bind_some]
        refine ⟨_, rfl, ⟨hip, rfl, rfl, shaped_update hnil _ ht.shaped⟩, ?_⟩
        rw [newEntry, abs, abs_update]
        rfl
      · have hlt : min cidr (common bitAt bits ip (8 * size)) < 8 * ip.length := by omega
        rw [if_neg heq, if_neg heq, choose_eq hlt, Option.bind_some]
        refine ⟨_, rfl, ⟨hip, rfl, rfl,
          shaped_update (shaped_update hnil _ hleaf) _ ht.shaped⟩, ?_⟩
        rw [newEntry, abs, abs_update, abs_update]
        congr 1
        funext i
        cases i <;> cases bitAt ip (min cidr (common bitAt bits ip (8 * size))) <;> rfl

theorem insert_valid (ht : t.Valid size) (hip : ip.length = size) (hcidr : cidr ≤ 8 * size) :
    ∃ t', t.insert e ip cidr peer = some t' ∧ t'.Valid size ∧
      t'.abs.get bitAt = (t.abs.get bitAt).insert bitAt ip cidr peer := by
  obtain ⟨t', h, hshaped, habs⟩ := insert_spec (e := e) peer ht hip hcidr
  refine ⟨t', h, ⟨ht.size_ok, hshaped, ?_⟩, ?_⟩
  · rw [habs]
    exact Trie.insert_ordered hcidr ht.ordered
  · rw [habs, Trie.get_insert hcidr ht.ordered]

theorem lookup_spec (ht : t.Valid size) (hip : ip.length = size) (found : Option P) :
    t.lookup e ip found = some (t.abs.lookup bitAt (8 * size) ip found) := by
  induction t generalizing found with
  | nil => rfl
  | node cidr child bits peer byte shift ih =>
    obtain ⟨hbits, rfl, rfl, -⟩ := ht.shaped
    have hwidth : cidr ≤ 8 * size := ht.ordered.1
    have hcommon :=
      commonBits_eq e (a := bits) (b := ip) (hbits ▸ ht.size_ok) (hbits.trans hip.symm)
    rw [hbits] at hcommon
    simp only [lookup, hcommon, Option.bind_eq_bind, Option.bind_some, abs, Trie.lookup]
    by_cases hmatch : cidr ≤ common bitAt bits ip (8 * size)
    · rw [if_pos hmatch, if_pos hmatch]
      by_cases hfull : cidr = 8 * size
      · rw [if_pos (by omega), if_pos hfull]
        rfl
      · rw [if_neg (by omega), if_neg hfull, choose_eq (by omega), Option.bind_some]
        exact ih _ (ht.child _) _
    · rw [if_neg hmatch, if_neg hmatch]
      rfl

theorem lookup_longest (ht : t.Valid size) (hip : ip.length = size) :
    t.lookup e ip none = some (longest (t.abs.get bitAt) ip (8 * size)) := by
  rw [lookup_spec ht hip, Trie.lookup_eq_longest ht.ordered, Option.or_none]

end TrieEntry

/-! ### The table routes by longest prefix -/

/-- The arguments of a call of `Insert`: an address of either family and at most as
many bits as it has. Bits after the prefix may be set. -/
structure InsertCall (P : Type) where
  ip : Bytes
  cidr : Nat
  peer : P
  size_ok : ip.length = IPv4len ∨ ip.length = IPv6len
  cidr_le : cidr ≤ 8 * ip.length

section
variable {P : Type} {e : Endian}

def AllowedIPs.insertAll (e : Endian) (table : AllowedIPs P) (calls : List (InsertCall P)) :
    Option (AllowedIPs P) :=
  calls.foldlM (fun table c => table.Insert e c.ip c.cidr c.peer) table

/-- One call, on the prefixes of addresses of `size` bytes. -/
def InsertCall.write (size : Nat) (table : Table Bytes P) (c : InsertCall P) : Table Bytes P :=
  if c.ip.length = size then table.insert bitAt c.ip c.cidr c.peer else table

/-- What the calls leave for each prefix of addresses of `size` bytes: the peer of the
last of them. -/
def routes (size : Nat) (calls : List (InsertCall P)) : Table Bytes P :=
  calls.foldl (InsertCall.write size) fun _ _ => none

structure AllowedIPs.Refines (table : AllowedIPs P) (v4 v6 : Table Bytes P) : Prop where
  valid4 : table.IPv4.Valid IPv4len
  valid6 : table.IPv6.Valid IPv6len
  get4 : table.IPv4.abs.get bitAt = v4
  get6 : table.IPv6.abs.get bitAt = v6

theorem Reset_refines :
    (AllowedIPs.Reset : AllowedIPs P).Refines (fun _ _ => none) fun _ _ => none :=
  ⟨⟨.inl rfl, trivial, trivial⟩, ⟨.inr rfl, trivial, trivial⟩, rfl, rfl⟩

theorem Insert_refines {table : AllowedIPs P} {v4 v6 : Table Bytes P} (h : table.Refines v4 v6)
    (c : InsertCall P) : ∃ table', table.Insert e c.ip c.cidr c.peer = some table' ∧
      table'.Refines (c.write IPv4len v4) (c.write IPv6len v6) := by
  have hcidr := c.cidr_le
  rcases c.size_ok with hsize | hsize
  · have hne : c.ip.length ≠ IPv6len := by rw [hsize]; decide
    rw [hsize] at hcidr
    obtain ⟨t', ht', hvalid, hget⟩ := TrieEntry.insert_valid (e := e) h.valid4 hsize hcidr
    refine ⟨{ table with IPv4 := t' }, ?_, hvalid, h.valid6, ?_, ?_⟩
    · rw [AllowedIPs.Insert, if_neg hne, if_pos hsize, ht', Option.map_some]
    · rw [InsertCall.write, if_pos hsize, hget, h.get4]
    · rw [InsertCall.write, if_neg hne, h.get6]
  · have hne : c.ip.length ≠ IPv4len := by rw [hsize]; decide
    rw [hsize] at hcidr
    obtain ⟨t', ht', hvalid, hget⟩ := TrieEntry.insert_valid (e := e) h.valid6 hsize hcidr
    refine ⟨{ table with IPv6 := t' }, ?_, h.valid4, hvalid, ?_, ?_⟩
    · rw [AllowedIPs.Insert, if_pos hsize, ht', Option.map_some]
    · rw [InsertCall.write, if_neg hne, h.get4]
    · rw [InsertCall.write, if_pos hsize, hget, h.get6]

theorem insertAll_refines {table : AllowedIPs P} {v4 v6 : Table Bytes P} (h : table.Refines v4 v6)
    (calls : List (InsertCall P)) : ∃ table', table.insertAll e calls = some table' ∧
      table'.Refines (calls.foldl (InsertCall.write IPv4len) v4)
        (calls.foldl (InsertCall.write IPv6len) v6) := by
  induction calls generalizing table v4 v6 with
  | nil => exact ⟨table, rfl, h⟩
  | cons c calls ih =>
    obtain ⟨mid, hmid, href⟩ := Insert_refines (e := e) h c
    obtain ⟨table', htable', hfinal⟩ := ih href
    refine ⟨table', ?_, hfinal⟩
    rw [AllowedIPs.insertAll, List.foldlM_cons, hmid]
    exact htable'

theorem LookupIPv4_refines {table : AllowedIPs P} {v4 v6 : Table Bytes P} (h : table.Refines v4 v6)
    {address : Bytes} (ha : address.length = IPv4len) :
    table.LookupIPv4 e address = some (longest v4 address 32) := by
  rw [AllowedIPs.LookupIPv4, TrieEntry.lookup_longest h.valid4 ha, h.get4]
  rfl

theorem LookupIPv6_refines {table : AllowedIPs P} {v4 v6 : Table Bytes P} (h : table.Refines v4 v6)
    {address : Bytes} (ha : address.length = IPv6len) :
    table.LookupIPv6 e address = some (longest v6 address 128) := by
  rw [AllowedIPs.LookupIPv6, TrieEntry.lookup_longest h.valid6 ha, h.get6]
  rfl

/-- The calls all go through, no lookup fails, and each answers with the longest
prefix. -/
theorem lookup_after_inserts (e : Endian) (calls : List (InsertCall P)) :
    ∃ table : AllowedIPs P, AllowedIPs.Reset.insertAll e calls = some table ∧
      (∀ address, address.length = IPv4len →
        table.LookupIPv4 e address = some (longest (routes IPv4len calls) address 32)) ∧
      (∀ address, address.length = IPv6len →
        table.LookupIPv6 e address = some (longest (routes IPv6len calls) address 128)) := by
  obtain ⟨table, h, href⟩ := insertAll_refines (e := e) Reset_refines calls
  exact ⟨table, h, fun _ ha => LookupIPv4_refines href ha, fun _ ha => LookupIPv6_refines href ha⟩

/-- A default route, a network given with host bits, and a prefix written twice. -/
def officeRoutes : List (InsertCall Nat) :=
  [⟨[172, 16, 0, 0], 12, 1, by decide, by decide⟩, ⟨[0, 0, 0, 0], 0, 3, by decide, by decide⟩,
    ⟨[172, 17, 0, 5], 16, 1, by decide, by decide⟩, ⟨[172, 17, 9, 9], 16, 2, by decide, by decide⟩]

theorem officeRoutes_lookup : ∃ table : AllowedIPs Nat,
    AllowedIPs.Reset.insertAll .little officeRoutes = some table ∧
      table.LookupIPv4 .little [172, 17, 2, 3] = some (some 2) ∧
      table.LookupIPv4 .little [11, 1, 2, 3] = some (some 3) := by
  obtain ⟨table, h, h4, -⟩ := lookup_after_inserts .little officeRoutes
  refine ⟨table, h, ?_, ?_⟩
  · rw [h4 [172, 17, 2, 3] rfl]
    decide +kernel
  · rw [h4 [11, 1, 2, 3] rfl]
    decide +kernel

end

end Sewg.Go
