import Sewg.Go.Text

/-! The prefixes of a peer as `EntriesForPeer` lists them, and what becomes of them when
they are inserted again. -/

namespace Sewg.Go

open CString (Bytes)
open Words Routes

/-! ### The length of a mask -/

/-- "found non-ff byte; count 1 bits", and the byte that is left. -/
def countOnes : Nat → UInt8 → Nat × UInt8
  | 0, v => (0, v)
  | k + 1, v => if v &&& 0x80 ≠ 0 then ((countOnes k (v <<< 1)).1 + 1, (countOnes k (v <<< 1)).2)
      else (0, v)

/-- `net.simpleMaskLength`; `none` is -1. A byte has no more than eight bits to count. -/
def simpleMaskLength : Bytes → Option Nat
  | [] => some 0
  | v :: mask =>
    if v = 0xff then (simpleMaskLength mask).map (· + 8)
    else
      let (n, v) := countOnes 8 v
      if v ≠ 0 then none
      else if mask.any (· != 0) then none
      else some n

/-- The ones of `net.IPMask.Size`. -/
def maskOnes (mask : Bytes) : Nat := (simpleMaskLength mask).getD 0

/-! ### The list -/

structure IPNet where
  IP : Bytes
  Mask : Bytes
deriving DecidableEq

section
variable {P : Type} [DecidableEq P]

/-- The mask has the length of the node's key, which `net.IP.Mask` then masks byte by
byte. -/
def TrieEntry.entriesForPeer (p : P) : TrieEntry P → List IPNet → List IPNet
  | nil, results => results
  | node cidr child bits peer _ _, results =>
    let results :=
      if peer = some p then
        let mask := CIDRMask cidr bits.length
        results ++ [⟨Mask bits mask, mask⟩]
      else results
    let results := (child false).entriesForPeer p results
    (child true).entriesForPeer p results

def AllowedIPs.EntriesForPeer (table : AllowedIPs P) (peer : P) : List IPNet :=
  table.IPv6.entriesForPeer peer (table.IPv4.entriesForPeer peer [])

/-- `allowed_ip` of `ipcSetOperation`, for networks one after the other. -/
def AllowedIPs.insertNets (e : Endian) (table : AllowedIPs P) (peer : P) (nets : List IPNet) :
    Option (AllowedIPs P) :=
  nets.foldlM (fun table network => table.Insert e network.IP (maskOnes network.Mask) peer) table

end

/-! ### Facts about masks -/

theorem simpleMaskLength_CIDRMask {l n : Nat} (hn : n ≤ 8 * l) :
    simpleMaskLength (CIDRMask n l) = some n := by
  have hzero (l : Nat) : (CIDRMask 0 l).any (· != 0) = false := by
    induction l with
    | zero => rfl
    | succ l ih => rw [CIDRMask_succ, List.any_cons, ih]; rfl
  induction l generalizing n with
  | zero => rw [Nat.le_zero.mp hn]; rfl
  | succ l ih =>
    rw [CIDRMask_succ, simpleMaskLength]
    rcases Nat.lt_or_ge n 8 with h | h
    · have hbyte : topBits n ≠ 0xff ∧ countOnes 8 (topBits n) = (n, 0) := by
        interval_cases n <;> decide
      rw [if_neg hbyte.1, hbyte.2, Nat.sub_eq_zero_of_le (Nat.le_of_lt h)]
      simp only [hzero]
      rfl
    · rw [if_pos (topBits_of_le h), ih (by omega), Option.map_some, Nat.sub_add_cancel h]

theorem maskOnes_CIDRMask {size n : Nat} (hn : n ≤ 8 * size) : maskOnes (CIDRMask n size) = n := by
  rw [maskOnes, simpleMaskLength_CIDRMask hn, Option.getD_some]

/-! ### The list and the routes -/

section
variable {P : Type} [DecidableEq P] {size : Nat} {t : TrieEntry P} {p : P} {e : Endian}

/-- A prefix as `net` has it. -/
def toNet (size : Nat) (entry : Bytes × Nat) : IPNet := ⟨entry.1, CIDRMask entry.2 size⟩

omit [DecidableEq P] in
theorem TrieEntry.keysOf_abs (h : t.Shaped size) : t.abs.KeysOf size := by
  induction t with
  | nil => trivial
  | node cidr child bits peer byte shift ih => exact ⟨h.1, fun i => ih i (h.2.2.2 i)⟩

theorem TrieEntry.entriesForPeer_spec (ht : t.Valid size) (results : List IPNet) :
    t.entriesForPeer p results = results ++ (t.abs.listing false p).map (toNet size) := by
  induction t generalizing results with
  | nil => simp [entriesForPeer, abs, Trie.listing, Trie.entries]
  | node cidr child bits peer byte shift ih =>
    have hbits := ht.shaped.1
    rw [entriesForPeer, ih true (ht.child true), ih false (ht.child false)]
    simp only [abs, Trie.listing, Trie.entries, List.map_append, List.append_assoc, Bool.not_false]
    by_cases hp : peer = some p
    · rw [if_pos hp, if_pos hp, Mask_CIDRMask, hbits]
      simp [toNet]
    · rw [if_neg hp, if_neg hp]
      simp

/-- Of the prefixes that `table` has, those of `p` as networks. -/
def NetOf (size : Nat) (table : Table Bytes P) (p : P) (net : IPNet) : Prop :=
  ∃ n ≤ 8 * size, net.IP.length = size ∧ net.Mask = CIDRMask n size ∧
    (∀ i, n ≤ i → bitAt net.IP i = false) ∧ table net.IP n = some p

theorem TrieEntry.le_of_mem_listing (ht : t.Valid size) {first : Bool} {entry : Bytes × Nat}
    (h : entry ∈ t.abs.listing first p) : entry.2 ≤ 8 * size := by
  obtain ⟨inner, hmem, hentry⟩ := List.mem_map.mp h
  have hlen : inner.2 ≤ 8 * size := Trie.len_of_mem_entries ht.ordered hmem
  rw [← hentry]
  exact hlen

theorem TrieEntry.mem_nets_iff (ht : t.Valid size) {net : IPNet} :
    net ∈ (t.abs.listing false p).map (toNet size) ↔ NetOf size (t.abs.get bitAt) p net := by
  have hlist {x : Bytes} {n : Nat} : (x, n) ∈ t.abs.listing false p ↔ _ :=
    Trie.mem_listing_iff ht.ordered (TrieEntry.keysOf_abs ht.shaped)
  rw [List.mem_map]
  constructor
  · rintro ⟨⟨x, n⟩, hmem, rfl⟩
    obtain ⟨hlen, hmask, hget⟩ := hlist.mp hmem
    exact ⟨n, TrieEntry.le_of_mem_listing ht hmem, hlen, rfl, maskBits_eq_self_iff.mp hmask, hget⟩
  · rintro ⟨n, -, hlen, hmask, hzero, hget⟩
    refine ⟨(net.IP, n), hlist.mpr ⟨hlen, maskBits_eq_self_iff.mpr hzero, hget⟩, ?_⟩
    rw [toNet, ← hmask]

theorem TrieEntry.nodup_nets (ht : t.Valid size) :
    ((t.abs.listing false p).map (toNet size)).Nodup := by
  refine List.Nodup.map_on ?_ (Trie.nodup_listing ht.ordered)
  intro a ha b hb heq
  obtain ⟨hip, hmask⟩ := IPNet.mk.inj heq
  refine Prod.ext hip ?_
  rw [← maskOnes_CIDRMask (TrieEntry.le_of_mem_listing ht ha), hmask,
    maskOnes_CIDRMask (TrieEntry.le_of_mem_listing ht hb)]

variable {table : AllowedIPs P} {v4 v6 : Table Bytes P}

theorem mem_EntriesForPeer_iff (h : table.Refines v4 v6) {net : IPNet} :
    net ∈ table.EntriesForPeer p ↔ NetOf IPv4len v4 p net ∨ NetOf IPv6len v6 p net := by
  rw [AllowedIPs.EntriesForPeer, TrieEntry.entriesForPeer_spec h.valid4,
    TrieEntry.entriesForPeer_spec h.valid6, List.nil_append, List.mem_append,
    TrieEntry.mem_nets_iff h.valid4, TrieEntry.mem_nets_iff h.valid6, h.get4, h.get6]

theorem nodup_EntriesForPeer (h : table.Refines v4 v6) (p : P) :
    (table.EntriesForPeer p).Nodup := by
  rw [AllowedIPs.EntriesForPeer, TrieEntry.entriesForPeer_spec h.valid4,
    TrieEntry.entriesForPeer_spec h.valid6, List.nil_append]
  refine List.Nodup.append (TrieEntry.nodup_nets h.valid4) (TrieEntry.nodup_nets h.valid6) ?_
  -- the addresses of the two families differ in length
  intro net h4 h6
  obtain ⟨-, -, hlen4, -⟩ := (TrieEntry.mem_nets_iff h.valid4).mp h4
  obtain ⟨-, -, hlen6, -⟩ := (TrieEntry.mem_nets_iff h.valid6).mp h6
  exact absurd (hlen4.symm.trans hlen6) (by decide)

omit [DecidableEq P] in
theorem Insert_same (h : table.Refines v4 v6) {net : IPNet}
    (hnet : NetOf IPv4len v4 p net ∨ NetOf IPv6len v6 p net) :
    ∃ table', table.Insert e net.IP (maskOnes net.Mask) p = some table' ∧ table'.Refines v4 v6 := by
  have hcall (size : Nat) (hsize : size = IPv4len ∨ size = IPv6len) {v : Table Bytes P}
      (hnet : NetOf size v p net) : ∃ c : InsertCall P, c.ip = net.IP ∧ c.cidr = maskOnes net.Mask ∧
        c.peer = p ∧ c.ip.length = size ∧ v c.ip c.cidr = some p := by
    obtain ⟨n, hn, hlen, hmask, -, hget⟩ := hnet
    have hones : maskOnes net.Mask = n := by rw [hmask, maskOnes_CIDRMask hn]
    refine ⟨⟨net.IP, maskOnes net.Mask, p, hlen ▸ hsize, by rw [hones, hlen]; exact hn⟩, rfl,
      rfl, rfl, hlen, ?_⟩
    rw [← hget]
    exact congrArg (v net.IP) hones
  rcases hnet with hnet | hnet
  · obtain ⟨c, hip, hcidr, hpeer, hlen, hget⟩ := hcall IPv4len (.inl rfl) hnet
    obtain ⟨table', hinsert, href⟩ := Insert_refines (e := e) h c
    rw [hip, hcidr, hpeer] at hinsert
    refine ⟨table', hinsert, ?_⟩
    have hsame : v4.insert bitAt c.ip c.cidr p = v4 :=
      Table.insert_same (fun y hy => by rw [← h.get4]; exact Trie.get_congr hy) hget
    rwa [InsertCall.write, if_pos hlen, hpeer, hsame, InsertCall.write,
      if_neg (by rw [hlen]; decide)] at href
  · obtain ⟨c, hip, hcidr, hpeer, hlen, hget⟩ := hcall IPv6len (.inr rfl) hnet
    obtain ⟨table', hinsert, href⟩ := Insert_refines (e := e) h c
    rw [hip, hcidr, hpeer] at hinsert
    refine ⟨table', hinsert, ?_⟩
    have hsame : v6.insert bitAt c.ip c.cidr p = v6 :=
      Table.insert_same (fun y hy => by rw [← h.get6]; exact Trie.get_congr hy) hget
    rwa [InsertCall.write, if_neg (by rw [hlen]; decide), InsertCall.write, if_pos hlen,
      hpeer, hsame] at href

omit [DecidableEq P] in
theorem insertNets_same (h : table.Refines v4 v6) {nets : List IPNet}
    (hnets : ∀ net ∈ nets, NetOf IPv4len v4 p net ∨ NetOf IPv6len v6 p net) :
    ∃ table', table.insertNets e p nets = some table' ∧ table'.Refines v4 v6 := by
  induction nets generalizing table with
  | nil => exact ⟨table, rfl, h⟩
  | cons net nets ih =>
    obtain ⟨mid, hmid, href⟩ := Insert_same (e := e) h (hnets net List.mem_cons_self)
    obtain ⟨table', htable', hfinal⟩ :=
      ih href fun net hnet => hnets net (List.mem_cons_of_mem _ hnet)
    refine ⟨table', ?_, hfinal⟩
    rw [AllowedIPs.insertNets, List.foldlM_cons, hmid]
    exact htable'

/-- After any calls of `Insert` each prefix of a peer is listed once, with the mask of its
length, and inserting the list again changes no lookup. -/
theorem entries_for_peer_exact (e : Endian) (calls : List (InsertCall P)) (p : P) :
    ∃ table : AllowedIPs P, AllowedIPs.Reset.insertAll e calls = some table ∧
      (table.EntriesForPeer p).Nodup ∧
      (∀ net, net ∈ table.EntriesForPeer p ↔
        NetOf IPv4len (routes IPv4len calls) p net ∨ NetOf IPv6len (routes IPv6len calls) p net) ∧
      ∃ table', table.insertNets e p (table.EntriesForPeer p) = some table' ∧
        (∀ address, address.length = IPv4len →
          table'.LookupIPv4 e address = table.LookupIPv4 e address) ∧
        ∀ address, address.length = IPv6len →
          table'.LookupIPv6 e address = table.LookupIPv6 e address := by
  obtain ⟨table, hrun, href⟩ := insertAll_refines (e := e) Reset_refines calls
  have hmem {net : IPNet} : net ∈ table.EntriesForPeer p ↔ _ := mem_EntriesForPeer_iff href
  obtain ⟨table', hagain, href'⟩ := insertNets_same (e := e) href fun net hnet => hmem.mp hnet
  refine ⟨table, hrun, nodup_EntriesForPeer href p, fun net => hmem, table', hagain, ?_, ?_⟩
  · intro address ha
    rw [LookupIPv4_refines href ha, LookupIPv4_refines href' ha]
  · intro address ha
    rw [LookupIPv6_refines href ha, LookupIPv6_refines href' ha]

/-- The host bits of the call that wrote last do not show. -/
example :
    (AllowedIPs.Reset.insertAll .little officeRoutes).map (fun table => table.EntriesForPeer 2) =
    some [⟨[172, 17, 0, 0], [255, 255, 0, 0]⟩] := by
  decide +kernel

end

end Sewg.Go
