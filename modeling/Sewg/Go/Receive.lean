import Sewg.Go.AllowedIPs

/-! How `RoutineSequentialReceiver` strips the padding of a decrypted packet and checks
its source. The packet is a slice: what is cut off by `elem.packet[:length]` is still
behind it, and can be sliced again up to the slice's capacity. The length of an IPv6
packet is added up in 16 bits. -/

namespace Sewg.Go

open CString (Bytes)
open Words

/-- A Go slice: the bytes from its start on as far as the array behind it goes, and how
many of them are in the slice. -/
@[ext] structure Slice where
  mem : Bytes
  len : Nat
  len_le : len ≤ mem.length

def Slice.bytes (s : Slice) : Bytes := s.mem.take s.len

/-- `s[i]`, a panic outside of the slice. -/
def Slice.index (s : Slice) (i : Nat) : Option UInt8 := if i < s.len then s.mem[i]? else none

/-- `s[lo:hi]`, a panic beyond the capacity. -/
def Slice.sub (s : Slice) (lo hi : Nat) : Option Slice :=
  if h : lo ≤ hi ∧ hi ≤ s.mem.length then
    some ⟨s.mem.drop lo, hi - lo, by rw [List.length_drop]; omega⟩
  else none

/-- `binary.BigEndian.Uint16` -/
def uint16BE (field : Slice) : Option Nat :=
  if 2 ≤ field.len then some (readBE (field.mem.take 2)) else none

def ipv4Version : UInt8 := 4
def ipv4HeaderLen : Nat := 20
def ipv6Version : UInt8 := 6
def ipv6HeaderLen : Nat := 40

def IPv4offsetTotalLength : Nat := 2
def IPv4offsetSrc : Nat := 12
def IPv6offsetPayloadLength : Nat := 4
def IPv6offsetSrc : Nat := 8

section
variable {P : Type} [DecidableEq P] (e : Endian) (table : AllowedIPs P) (peer : P)

/-- The packet is cut to its length, and passed on if `lookup` gives the peer for its
source address. -/
def verifySource (lookup : Bytes → Option (Option P)) (packet : Slice) (length offset size : Nat) :
    Option (Option Slice) := do
  let packet ← packet.sub 0 length
  let src ← packet.sub offset (offset + size)
  let owner ← lookup src.bytes
  return if owner ≠ some peer then none else some packet

/-- The IPv4 case. -/
def checkIPv4 (packet : Slice) : Option (Option Slice) :=
  if packet.len < ipv4HeaderLen then some none
  else do
    let field ← packet.sub IPv4offsetTotalLength (IPv4offsetTotalLength + 2)
    let length ← uint16BE field
    if length > packet.len ∨ length < ipv4HeaderLen then return none
    else verifySource peer (table.LookupIPv4 e) packet length IPv4offsetSrc IPv4len

/-- The IPv6 case. -/
def checkIPv6 (packet : Slice) : Option (Option Slice) :=
  if packet.len < ipv6HeaderLen then some none
  else do
    let field ← packet.sub IPv6offsetPayloadLength (IPv6offsetPayloadLength + 2)
    let length ← uint16BE field
    let length := (length + ipv6HeaderLen) % 2 ^ 16
    if length > packet.len then return none
    else verifySource peer (table.LookupIPv6 e) packet length IPv6offsetSrc IPv6len

/-- From "check for keepalive" on: the packet that is written to the TUN device, if
one is. -/
def receivePacket (packet : Slice) : Option (Option Slice) :=
  if packet.len = 0 then some none
  else do
    let first ← packet.index 0
    if first >>> 4 = ipv4Version then checkIPv4 e table peer packet
    else if first >>> 4 = ipv6Version then checkIPv6 e table peer packet
    else return none

end

/-! ### What is written -/

/-- The bytes of a header field. -/
def headerField (packet : Bytes) (offset size : Nat) : Bytes := (packet.drop offset).take size

def declaredIPv4 (packet : Bytes) : Nat := readBE (headerField packet IPv4offsetTotalLength 2)

def declaredIPv6 (packet : Bytes) : Nat :=
  readBE (headerField packet IPv6offsetPayloadLength 2) + ipv6HeaderLen

def HasVersion (packet : Bytes) (version : UInt8) : Prop :=
  ∃ first : UInt8, packet[0]? = some first ∧ first >>> 4 = version

section
variable {P : Type} [DecidableEq P] (e : Endian) (table : AllowedIPs P) (peer : P)

/-- A whole IPv4 packet from an address of the peer. -/
structure RoutedIPv4 (packet : Bytes) : Prop where
  version : HasVersion packet ipv4Version
  header : ipv4HeaderLen ≤ packet.length
  length : packet.length = declaredIPv4 packet
  source : table.LookupIPv4 e (headerField packet IPv4offsetSrc IPv4len) = some (some peer)

/-- A whole IPv6 packet from an address of the peer. -/
structure RoutedIPv6 (packet : Bytes) : Prop where
  version : HasVersion packet ipv6Version
  header : ipv6HeaderLen ≤ packet.length
  length : packet.length = declaredIPv6 packet
  source : table.LookupIPv6 e (headerField packet IPv6offsetSrc IPv6len) = some (some peer)

/-- The plaintext starts with an IPv6 header that is from an address of the peer and
declares more than 16 bits can count. -/
structure LengthWraps (plaintext : Bytes) : Prop where
  version : HasVersion plaintext ipv6Version
  header : ipv6HeaderLen ≤ plaintext.length
  length : 2 ^ 16 ≤ declaredIPv6 plaintext
  source : table.LookupIPv6 e (headerField plaintext IPv6offsetSrc IPv6len) = some (some peer)

variable {e table peer} {packet out : Slice}

theorem Slice.sub_eq {s : Slice} {lo hi : Nat} (hlo : lo ≤ hi) (hhi : hi ≤ s.mem.length) :
    ∃ t, s.sub lo hi = some t ∧ t.mem = s.mem.drop lo ∧ t.len = hi - lo :=
  ⟨_, dif_pos ⟨hlo, hhi⟩, rfl, rfl⟩

theorem Slice.length_bytes (s : Slice) : s.bytes.length = s.len := by
  rw [Slice.bytes, List.length_take, Nat.min_eq_left s.len_le]

theorem Slice.headerField_bytes {s : Slice} {offset size : Nat} (h : offset + size ≤ s.len) :
    headerField s.bytes offset size = headerField s.mem offset size := by
  rw [headerField, Slice.bytes, List.drop_take, List.take_take,
    Nat.min_eq_left (by omega), headerField]

theorem Slice.hasVersion_bytes {s : Slice} {version : UInt8} (h : 0 < s.len) :
    HasVersion s.bytes version ↔ HasVersion s.mem version := by
  rw [HasVersion, Slice.bytes, List.getElem?_take_of_lt h, HasVersion]

theorem uint16BE_sub (packet : Slice) (offset : Nat) (h : offset + 2 ≤ packet.mem.length) :
    ∃ field, packet.sub offset (offset + 2) = some field ∧
      uint16BE field = some (readBE (headerField packet.mem offset 2)) := by
  obtain ⟨field, hsub, hmem, hlen⟩ := packet.sub_eq (Nat.le_add_right offset 2) h
  refine ⟨field, hsub, ?_⟩
  rw [uint16BE, if_pos (by omega), hmem, headerField]

theorem verifySource_iff {lookup : Bytes → Option (Option P)} {length offset size : Nat}
    (hlen : length ≤ packet.mem.length) (hcap : offset + size ≤ packet.mem.length) :
    verifySource peer lookup packet length offset size = some (some out) ↔
      out.mem = packet.mem ∧ out.len = length ∧
        lookup (headerField packet.mem offset size) = some (some peer) := by
  obtain ⟨cut, hcut, hmem, hcutlen⟩ := packet.sub_eq (Nat.zero_le length) hlen
  rw [List.drop_zero] at hmem
  obtain ⟨src, hsrc, hsrcmem, hsrclen⟩ := cut.sub_eq (Nat.le_add_right offset size) (by rwa [hmem])
  have hfield : src.bytes = headerField packet.mem offset size := by
    rw [Slice.bytes, hsrcmem, hsrclen, hmem, Nat.add_sub_cancel_left, headerField]
  simp only [verifySource, hcut, hsrc, hfield, Option.bind_eq_bind, Option.bind_some]
  cases hl : lookup (headerField packet.mem offset size) with
  | none => simp
  | some owner =>
    by_cases howner : owner = some peer
    · subst howner
      simp only [Option.bind_some, ne_eq, not_true, if_false, Option.pure_def,
        Option.some.injEq, and_true]
      rw [Slice.ext_iff, hmem, hcutlen, Nat.sub_zero]
      exact ⟨fun h => ⟨h.1.symm, h.2.symm⟩, fun h => ⟨h.1.symm, h.2.symm⟩⟩
    · simp [howner]

theorem checkIPv4_iff (hlen : ipv4HeaderLen ≤ packet.len) :
    checkIPv4 e table peer packet = some (some out) ↔
      (declaredIPv4 packet.mem ≤ packet.len ∧ ipv4HeaderLen ≤ declaredIPv4 packet.mem) ∧
      out.mem = packet.mem ∧ out.len = declaredIPv4 packet.mem ∧
      table.LookupIPv4 e (headerField packet.mem IPv4offsetSrc IPv4len) = some (some peer) := by
  have hle := packet.len_le
  have hcap : IPv4offsetSrc + IPv4len ≤ packet.mem.length :=
    Nat.le_trans (by decide) (Nat.le_trans hlen hle)
  obtain ⟨field, hfield, hlength⟩ := uint16BE_sub packet IPv4offsetTotalLength
    (Nat.le_trans (by decide) (Nat.le_trans hlen hle))
  rw [← declaredIPv4] at hlength
  simp only [checkIPv4, if_neg (Nat.not_lt.mpr hlen), hfield, hlength, Option.bind_eq_bind,
    Option.bind_some]
  by_cases hbad : declaredIPv4 packet.mem > packet.len ∨ declaredIPv4 packet.mem < ipv4HeaderLen
  · rw [if_pos hbad]
    refine ⟨nofun, fun h => ?_⟩
    omega
  · rw [if_neg hbad, verifySource_iff (by omega) hcap]
    refine ⟨fun h => ⟨⟨by omega, by omega⟩, h⟩, fun h => h.2⟩

/-- The IPv6 case; the length is the one in the header but for multiples of 2^16. -/
theorem checkIPv6_iff (hlen : ipv6HeaderLen ≤ packet.len) :
    checkIPv6 e table peer packet = some (some out) ↔
      declaredIPv6 packet.mem % 2 ^ 16 ≤ packet.len ∧
      out.mem = packet.mem ∧ out.len = declaredIPv6 packet.mem % 2 ^ 16 ∧
      table.LookupIPv6 e (headerField packet.mem IPv6offsetSrc IPv6len) = some (some peer) := by
  have hle := packet.len_le
  have hcap : IPv6offsetSrc + IPv6len ≤ packet.mem.length :=
    Nat.le_trans (by decide) (Nat.le_trans hlen hle)
  obtain ⟨field, hfield, hlength⟩ := uint16BE_sub packet IPv6offsetPayloadLength
    (Nat.le_trans (by decide) (Nat.le_trans hlen hle))
  simp only [checkIPv6, if_neg (Nat.not_lt.mpr hlen), hfield, hlength, Option.bind_eq_bind,
    Option.bind_some]
  rw [← declaredIPv6]
  by_cases hbad : declaredIPv6 packet.mem % 2 ^ 16 > packet.len
  · rw [if_pos hbad]
    refine ⟨nofun, fun h => ?_⟩
    omega
  · rw [if_neg hbad, verifySource_iff (by omega) hcap]
    exact ⟨fun h => ⟨Nat.not_lt.mp hbad, h⟩, fun h => h.2⟩

theorem receivePacket_iff :
    receivePacket e table peer packet = some (some out) ↔
      0 < packet.len ∧
      (HasVersion packet.mem ipv4Version ∧ ipv4HeaderLen ≤ packet.len ∧
          checkIPv4 e table peer packet = some (some out) ∨
        HasVersion packet.mem ipv6Version ∧ ipv6HeaderLen ≤ packet.len ∧
          checkIPv6 e table peer packet = some (some out)) := by
  rcases Nat.eq_zero_or_pos packet.len with hzero | hpos
  · rw [receivePacket, if_pos hzero]
    exact ⟨nofun, fun h => absurd hzero (Nat.ne_of_gt h.1)⟩
  · obtain ⟨first, hfirst⟩ : ∃ first, packet.mem[0]? = some first :=
      ⟨_, List.getElem?_eq_getElem (Nat.lt_of_lt_of_le hpos packet.len_le)⟩
    have hversion : ∀ v, HasVersion packet.mem v ↔ first >>> 4 = v := by
      intro v
      rw [HasVersion, hfirst]
      exact ⟨fun ⟨_, h, hv⟩ => Option.some.inj h ▸ hv, fun hv => ⟨first, rfl, hv⟩⟩
    have hshort4 :
        checkIPv4 e table peer packet = some (some out) → ipv4HeaderLen ≤ packet.len := by
      intro h
      by_contra hlt
      rw [checkIPv4, if_pos (Nat.not_le.mp hlt)] at h
      cases h
    have hshort6 :
        checkIPv6 e table peer packet = some (some out) → ipv6HeaderLen ≤ packet.len := by
      intro h
      by_contra hlt
      rw [checkIPv6, if_pos (Nat.not_le.mp hlt)] at h
      cases h
    rw [receivePacket, if_neg (Nat.ne_of_gt hpos), Slice.index, if_pos hpos, hfirst]
    simp only [hversion, Option.bind_eq_bind, Option.bind_some, hpos, true_and]
    by_cases h4 : first >>> 4 = ipv4Version
    · have h6 : first >>> 4 ≠ ipv6Version := by rw [h4]; decide
      rw [if_pos h4]
      exact ⟨fun h => .inl ⟨h4, hshort4 h, h⟩, fun h => h.elim (fun h => h.2.2) fun h =>
        absurd h.1 h6⟩
    · rw [if_neg h4]
      by_cases h6 : first >>> 4 = ipv6Version
      · rw [if_pos h6]
        exact ⟨fun h => .inr ⟨h6, hshort6 h, h⟩,
          fun h => h.elim (fun h => absurd h.1 h4) fun h => h.2.2⟩
      · rw [if_neg h6]
        exact ⟨nofun, fun h => h.elim (fun h => absurd h.1 h4) fun h => absurd h.1 h6⟩

theorem Slice.bytes_start (hmem : out.mem = packet.mem) (hlen : out.len ≤ packet.len) :
    out.bytes <+: packet.bytes := by
  rw [Slice.bytes, Slice.bytes, hmem]
  exact List.take_prefix_take_left hlen

theorem routedIPv4_of_check (hversion : HasVersion packet.mem ipv4Version)
    (hlen : ipv4HeaderLen ≤ packet.len) (h : checkIPv4 e table peer packet = some (some out)) :
    out.bytes <+: packet.bytes ∧ RoutedIPv4 e table peer out.bytes := by
  obtain ⟨⟨hle, hge⟩, hmem, hout, hsource⟩ := (checkIPv4_iff hlen).mp h
  have hheader : ipv4HeaderLen ≤ out.len := by rwa [hout]
  have hfield : declaredIPv4 out.bytes = declaredIPv4 packet.mem := by
    rw [declaredIPv4, Slice.headerField_bytes (Nat.le_trans (by decide) hheader),
      hmem, declaredIPv4]
  refine ⟨Slice.bytes_start hmem (by omega), ?_, ?_, ?_, ?_⟩
  · rwa [Slice.hasVersion_bytes (Nat.lt_of_lt_of_le (by decide) hheader), hmem]
  · rwa [Slice.length_bytes]
  · rw [Slice.length_bytes, hout, hfield]
  · rwa [Slice.headerField_bytes (Nat.le_trans (by decide) hheader), hmem]

theorem routedIPv6_of_check (hversion : HasVersion packet.mem ipv6Version)
    (hlen : ipv6HeaderLen ≤ packet.len) (h : checkIPv6 e table peer packet = some (some out))
    (hfits : declaredIPv6 packet.mem < 2 ^ 16) :
    out.bytes <+: packet.bytes ∧ RoutedIPv6 e table peer out.bytes := by
  obtain ⟨hle, hmem, hout, hsource⟩ := (checkIPv6_iff hlen).mp h
  rw [Nat.mod_eq_of_lt hfits] at hle hout
  have hheader : ipv6HeaderLen ≤ out.len := by
    rw [hout]
    exact Nat.le_add_left _ _
  have hfield : declaredIPv6 out.bytes = declaredIPv6 packet.mem := by
    rw [declaredIPv6, Slice.headerField_bytes (Nat.le_trans (by decide) hheader),
      hmem, declaredIPv6]
  refine ⟨Slice.bytes_start hmem (by omega), ?_, ?_, ?_, ?_⟩
  · rwa [Slice.hasVersion_bytes (Nat.lt_of_lt_of_le (by decide) hheader), hmem]
  · rwa [Slice.length_bytes]
  · rw [Slice.length_bytes, hout, hfield]
  · rwa [Slice.headerField_bytes (Nat.le_trans (by decide) hheader), hmem]

omit [DecidableEq P] in
/-- The plaintext's header, read in the memory behind the slice. -/
theorem lengthWraps_bytes : LengthWraps e table peer packet.bytes ↔
    HasVersion packet.mem ipv6Version ∧ ipv6HeaderLen ≤ packet.len ∧
      2 ^ 16 ≤ declaredIPv6 packet.mem ∧
      table.LookupIPv6 e (headerField packet.mem IPv6offsetSrc IPv6len) = some (some peer) := by
  have hmove : ipv6HeaderLen ≤ packet.len →
      (HasVersion packet.bytes ipv6Version ↔ HasVersion packet.mem ipv6Version) ∧
      declaredIPv6 packet.bytes = declaredIPv6 packet.mem ∧
      headerField packet.bytes IPv6offsetSrc IPv6len =
          headerField packet.mem IPv6offsetSrc IPv6len := by
    intro hlen
    refine ⟨Slice.hasVersion_bytes (Nat.lt_of_lt_of_le (by decide) hlen), ?_,
      Slice.headerField_bytes (Nat.le_trans (by decide) hlen)⟩
    rw [declaredIPv6, Slice.headerField_bytes (Nat.le_trans (by decide) hlen), declaredIPv6]
  constructor
  · rintro ⟨hversion, hheader, hlength, hsource⟩
    rw [Slice.length_bytes] at hheader
    obtain ⟨hv, hd, hf⟩ := hmove hheader
    exact ⟨hv.mp hversion, hheader, hd ▸ hlength, hf ▸ hsource⟩
  · rintro ⟨hversion, hheader, hlength, hsource⟩
    obtain ⟨hv, hd, hf⟩ := hmove hheader
    exact ⟨hv.mpr hversion, by rwa [Slice.length_bytes], hd ▸ hlength, hf ▸ hsource⟩

/-- A length that wraps is below that of a header, and passes the check. -/
theorem receivePacket_of_wraps (h : LengthWraps e table peer packet.bytes) :
    ∃ out, receivePacket e table peer packet = some (some out) ∧ out.mem = packet.mem ∧
      out.len < ipv6HeaderLen := by
  obtain ⟨hversion, hheader, hlength, hsource⟩ := lengthWraps_bytes.mp h
  have hfield : readBE (headerField packet.mem IPv6offsetPayloadLength 2) < 2 ^ 16 := by
    refine Nat.lt_of_lt_of_le (readBE_lt _) (Nat.pow_le_pow_right (by decide) ?_)
    have := List.length_take_le 2 (packet.mem.drop IPv6offsetPayloadLength)
    rw [headerField]
    omega
  have hsmall : declaredIPv6 packet.mem % 2 ^ 16 < ipv6HeaderLen := by
    have hdef : declaredIPv6 packet.mem =
        readBE (headerField packet.mem IPv6offsetPayloadLength 2) + ipv6HeaderLen := rfl
    simp only [ipv6HeaderLen] at hdef ⊢
    omega
  have hle := packet.len_le
  refine ⟨⟨packet.mem, declaredIPv6 packet.mem % 2 ^ 16, by omega⟩, ?_, rfl, hsmall⟩
  refine receivePacket_iff.mpr ⟨Nat.lt_of_lt_of_le (by decide) hheader,
    .inr ⟨hversion, hheader, ?_⟩⟩
  exact (checkIPv6_iff hheader).mpr ⟨by omega, rfl, rfl, hsource⟩

/-- Whatever is written is a whole packet from an address of the peer at the start of the
plaintext, exactly when the plaintext is no such packet whose length wraps. -/
theorem written_routed_iff (e : Endian) (table : AllowedIPs P) (peer : P) (packet : Slice) :
    (∀ out, receivePacket e table peer packet = some (some out) →
      out.bytes <+: packet.bytes ∧ out.bytes.length ≤ packet.bytes.length ∧
        (RoutedIPv4 e table peer out.bytes ∨ RoutedIPv6 e table peer out.bytes)) ↔
      ¬ LengthWraps e table peer packet.bytes := by
  constructor
  · intro hall hwraps
    obtain ⟨out, hout, hmem, hshort⟩ := receivePacket_of_wraps hwraps
    obtain ⟨-, -, h4 | h6⟩ := hall out hout
    · -- the same first byte has both versions
      have hpos : 0 < out.len := by
        rw [← Slice.length_bytes]
        exact Nat.lt_of_lt_of_le (by decide) h4.header
      obtain ⟨first, hfirst, hversion⟩ := (Slice.hasVersion_bytes hpos).mp h4.version
      obtain ⟨first', hfirst', hversion'⟩ := (lengthWraps_bytes.mp hwraps).1
      rw [hmem, hfirst'] at hfirst
      cases hfirst
      rw [hversion] at hversion'
      exact absurd hversion' (by decide)
    · have := h6.header
      rw [Slice.length_bytes] at this
      omega
  · intro hwraps out hout
    obtain ⟨-, ⟨hversion, hlen, hcheck⟩ | ⟨hversion, hlen, hcheck⟩⟩ := receivePacket_iff.mp hout
    · obtain ⟨hstart, hrouted⟩ := routedIPv4_of_check hversion hlen hcheck
      exact ⟨hstart, hstart.length_le, .inl hrouted⟩
    · have hfits : declaredIPv6 packet.mem < 2 ^ 16 := by
        by_contra hlarge
        exact hwraps (lengthWraps_bytes.mpr
          ⟨hversion, hlen, Nat.not_lt.mp hlarge, ((checkIPv6_iff hlen).mp hcheck).2.2.2⟩)
      obtain ⟨hstart, hrouted⟩ := routedIPv6_of_check hversion hlen hcheck hfits
      exact ⟨hstart, hstart.length_le, .inr hrouted⟩

/-- An IPv6 header with a payload of 65504 bytes, and nothing after it. -/
def longHeader : Slice := ⟨[0x60, 0, 0, 0, 0xff, 0xe0] ++ List.replicate 34 0, 40, by decide⟩

/-- The packet should have 65544 bytes; eight are written. -/
theorem longHeader_written : ∃ table out,
    AllowedIPs.Reset.Insert .little (List.replicate 16 0) 0 (7 : Nat) = some table ∧
      receivePacket .little table 7 longHeader = some (some out) ∧ out.bytes.length = 8 ∧
      declaredIPv6 longHeader.bytes = 65544 ∧
      ¬ (RoutedIPv4 .little table 7 out.bytes ∨ RoutedIPv6 .little table 7 out.bytes) := by
  refine ⟨_, ⟨longHeader.mem, 8, by decide⟩, rfl, rfl, rfl, rfl, ?_⟩
  rintro (h | h)
  · exact absurd h.header (by decide)
  · exact absurd h.header (by decide)

end

end Sewg.Go
