import Sewg.Kernel.AllowedTable

/-! `wg_packet_consume_data_done`: the checks a decrypted packet passes before it is given to
the network stack. What the function does is kept as a list of effects. -/

namespace Sewg.Kernel

open CString (Bytes)
open Words Routes Loop

/-- A `struct sk_buff` with a decrypted packet: the address of its head, the bytes from there
to the data, the data, of which the first `headlen` bytes are in the linear part, and where the
network header is, counted from the head. -/
structure DataSkb where
  head : Nat
  room : Bytes
  data : Bytes
  headlen : Nat
  networkHeader : Nat
  /-- `PACKET_CB(skb)->ds` -/
  ds : UInt8

/-- Of `wg_reset_packet`: `skb_reset_network_header`. -/
def wgResetPacket (skb : DataSkb) : DataSkb := { skb with networkHeader := skb.room.length }

/-- What the rest of the kernel does with the packet: whether the keypair was the next one,
whether `__pskb_pull_tail` gets memory for a linear part of some size, whether `pskb_trim`
fails, and whether the packet is dropped by `napi_gro_receive`. -/
structure Surroundings where
  receivedWithKeypair : Bool
  pullTail : Nat → Bool
  trimFails : Bool
  groDrops : Bool

/-- `IP_ECN_set_ce` and `IP6_ECN_set_ce` of the kernel, on the bytes from the header on. The
first may change the type of service and the checksum, the second the traffic class. -/
structure EcnMarks where
  setCe4 : Bytes → Bytes
  setCe6 : Bytes → Bytes
  others4 : ∀ header i, i ≠ 1 → i ≠ 10 → i ≠ 11 → (setCe4 header)[i]? = header[i]?
  others6 : ∀ header i, i ≠ 1 → (setCe6 header)[i]? = header[i]?

inductive Effect where
  | setPeerEndpoint
  | handshakeComplete
  | sendStagedPackets
  | keepKeyFresh
  | anyAuthenticatedPacketReceived
  | anyAuthenticatedPacketTraversal
  | dataReceived
  | updateRxStats (len : Nat)
  | rxErrors
  | rxFrameErrors
  | rxLengthErrors
  | rxDropped
  | napiGroReceive (packet : Bytes)
  | devKfreeSkb
deriving DecidableEq

def sizeofIphdr : Nat := 20
def sizeofIpv6hdr : Nat := 40

def messageDataLen (plainLen : Nat) : Nat := plainLen + 16 + 16

/-- Some bytes of a header. -/
def field (header : Bytes) (offset size : Nat) : Bytes := (header.drop offset).take size

/-- `IP_ECN_set_ce`: of a packet that may be marked, the type of service gets the mark and the
checksum what that takes from it. -/
def ipEcnSetCe (header : Bytes) : Bytes :=
  let tos := readBE (field header 1 1)
  let ecn := (tos + 1) % 4
  if ecn < 2 then header
  else
    let check := readBE (field header 10 2) + 0xfffb + ecn
    let check := check + if check ≥ 0xffff then 1 else 0
    ((header.set 1 (UInt8.ofNat tos ||| 3)).set 10 (UInt8.ofNat (check / 256))).set 11
      (UInt8.ofNat check)

/-- `IP6_ECN_set_ce`: the mark comes into the first word of the header. -/
def ip6EcnSetCe (header : Bytes) : Bytes :=
  let second := UInt8.ofNat (readBE (field header 1 1))
  if second &&& 0x30 = 0 then header else header.set 1 (second ||| 0x30)

def inetEcn : EcnMarks where
  setCe4 := ipEcnSetCe
  setCe6 := ip6EcnSetCe
  others4 header i h1 h10 h11 := by
    unfold ipEcnSetCe
    dsimp only
    split
    · rfl
    · rw [List.getElem?_set_ne h11.symm, List.getElem?_set_ne h10.symm,
        List.getElem?_set_ne h1.symm]
  others6 header i h1 := by
    unfold ip6EcnSetCe
    dsimp only
    split
    · rfl
    · rw [List.getElem?_set_ne h1.symm]

/-- The version field, at the same place in both headers. -/
def ipVersion (header : Bytes) : Nat := readBE (field header 0 1) / 16

namespace DataSkb

def skbNetworkHeader (skb : DataSkb) : Nat := skb.head + skb.networkHeader

def skbTailPointer (skb : DataSkb) : Nat := skb.head + skb.room.length + skb.headlen

/-- What `ip_hdr` and `ipv6_hdr` point at. -/
def ipHdr (skb : DataSkb) : Bytes := (skb.room ++ skb.data).drop skb.networkHeader

/-- A write through that pointer. -/
def setIpHdr (skb : DataSkb) (header : Bytes) : DataSkb :=
  let buffer := (skb.room ++ skb.data).take skb.networkHeader ++ header
  { skb with room := buffer.take skb.room.length, data := buffer.drop skb.room.length }

/-- `pskb_network_may_pull`. The length wanted is an `unsigned int`. -/
def pskbNetworkMayPull (k : Surroundings) (skb : DataSkb) (len : Nat) : Bool × DataSkb :=
  let offset : Int := skb.networkHeader - skb.room.length
  let len := ((offset + len) % 2 ^ 32).toNat
  if len ≤ skb.headlen then (true, skb)
  else if len > skb.data.length then (false, skb)
  else if k.pullTail len then (true, { skb with headlen := len })
  else (false, skb)

/-- What `pskb_trim` leaves when it does not fail. -/
def pskbTrim (skb : DataSkb) (len : Nat) : DataSkb :=
  { skb with data := skb.data.take len, headlen := min skb.headlen len }

end DataSkb

inductive Protocol where
  | ip
  | ipv6
deriving DecidableEq

def wgSkbExamineUntrustedIpHdr (skb : DataSkb) : Option Protocol :=
  if skb.skbNetworkHeader ≥ skb.head ∧ skb.skbNetworkHeader + sizeofIphdr ≤ skb.skbTailPointer ∧
      ipVersion skb.ipHdr = 4 then
    some .ip
  else if skb.skbNetworkHeader ≥ skb.head ∧
      skb.skbNetworkHeader + sizeofIpv6hdr ≤ skb.skbTailPointer ∧ ipVersion skb.ipHdr = 6 then
    some .ipv6
  else none

/-- The source address of a header. -/
def Protocol.saddr (header : Bytes) : Protocol → Bytes
  | .ip => field header 12 4
  | .ipv6 => field header 8 16

def wgAllowedipsLookupSrc {P : Type} (fuel : Nat) (e : Endian) (table : Allowedips P)
    (protocol : Protocol) (skb : DataSkb) : Option (Option P) :=
  match protocol with
  | .ip => lookup fuel e ⟨table.root4, table.cell⟩ 32 (protocol.saddr skb.ipHdr)
  | .ipv6 => lookup fuel e ⟨table.root6, table.cell⟩ 128 (protocol.saddr skb.ipHdr)

def packetProcessed : List Effect := [.devKfreeSkb]
def dishonestPacketPeer : List Effect := [.rxErrors, .rxFrameErrors] ++ packetProcessed
def dishonestPacketType : List Effect := [.rxErrors, .rxFrameErrors] ++ packetProcessed
def dishonestPacketSize : List Effect := [.rxErrors, .rxLengthErrors] ++ packetProcessed

section
variable {P : Type} [DecidableEq P] (k : Surroundings) (ecn : EcnMarks)

/-- From the comparison of the declared length on. -/
def trimAndRoute (fuel : Nat) (e : Endian) (table : Allowedips P) (peer : P) (protocol : Protocol)
    (len : Nat) (skb : DataSkb) : Option (List Effect) :=
  if len > skb.data.length then some dishonestPacketSize
  else
    let lenBeforeTrim := skb.data.length
    if len < skb.data.length ∧ k.trimFails then some packetProcessed
    else do
      let skb := skb.pskbTrim len
      let routedPeer ← wgAllowedipsLookupSrc fuel e table protocol skb
      if routedPeer ≠ some peer then return dishonestPacketPeer
      else
        return .napiGroReceive skb.data ::
          if k.groDrops then [.rxDropped] else [.updateRxStats (messageDataLen lenBeforeTrim)]

/-- From `wg_skb_examine_untrusted_ip_hdr` on. `len` is an `unsigned int`. -/
def examineAndRoute (fuel : Nat) (e : Endian) (table : Allowedips P) (peer : P) (skb : DataSkb) :
    Option (List Effect) :=
  let ce := skb.ds &&& 3 = 3
  match wgSkbExamineUntrustedIpHdr skb with
  | some .ip =>
    let len := readBE (field skb.ipHdr 2 2)
    if len < sizeofIphdr then some dishonestPacketSize
    else
      let skb := if ce then skb.setIpHdr (ecn.setCe4 skb.ipHdr) else skb
      trimAndRoute k fuel e table peer .ip len skb
  | some .ipv6 =>
    let len := (readBE (field skb.ipHdr 4 2) + sizeofIpv6hdr) % 2 ^ 32
    let skb := if ce then skb.setIpHdr (ecn.setCe6 skb.ipHdr) else skb
    trimAndRoute k fuel e table peer .ipv6 len skb
  | none => some dishonestPacketType

/-- From the comparison of the network header with the head on. -/
def checkAndRoute (fuel : Nat) (e : Endian) (table : Allowedips P) (peer : P) (skb : DataSkb) :
    Option (List Effect) :=
  if skb.skbNetworkHeader < skb.head then some dishonestPacketSize
  else
    let (pulled, skb) := skb.pskbNetworkMayPull k sizeofIphdr
    if !pulled then some dishonestPacketType
    else if ipVersion skb.ipHdr = 4 then examineAndRoute k ecn fuel e table peer skb
    else if ipVersion skb.ipHdr = 6 then
      let (pulled, skb) := skb.pskbNetworkMayPull k sizeofIpv6hdr
      if !pulled then some dishonestPacketType else examineAndRoute k ecn fuel e table peer skb
    else some dishonestPacketType

def wgPacketConsumeDataDone (fuel : Nat) (e : Endian) (table : Allowedips P) (peer : P)
    (skb : DataSkb) : Option (List Effect) := do
  let begun := [.setPeerEndpoint] ++
    (if k.receivedWithKeypair then [.handshakeComplete, .sendStagedPackets] else []) ++
    [.keepKeyFresh, .anyAuthenticatedPacketReceived, .anyAuthenticatedPacketTraversal]
  if skb.data.length = 0 then
    return begun ++ .updateRxStats (messageDataLen 0) :: packetProcessed
  else
    return begun ++ .dataReceived :: (← checkAndRoute k ecn fuel e table peer skb)

end

/-! What a packet given to the network stack has to be, said of its bytes alone. -/

namespace Protocol

def version : Protocol → Nat
  | .ip => 4
  | .ipv6 => 6

def headerSize : Protocol → Nat
  | .ip => 20
  | .ipv6 => 40

/-- The length a header declares. -/
def declared (packet : Bytes) : Protocol → Nat
  | .ip => readBE (field packet 2 2)
  | .ipv6 => readBE (field packet 4 2) + 40

/-- The peer an address is routed to. -/
def routed {P : Type} [DecidableEq P] (ops : List (Operation P)) (address : Bytes) :
    Protocol → Option P
  | .ip => longest (routes 4 ops) address 32
  | .ipv6 => longest (routes 16 ops) address 128

end Protocol

section
variable {P : Type} [DecidableEq P] {k : Surroundings} {ecn : EcnMarks} {e : Endian}
  {ops : List (Operation P)} {table : Allowedips P} {peer : P} {skb : DataSkb} {protocol : Protocol}

structure Genuine (ops : List (Operation P)) (peer : P) (packet : Bytes) (protocol : Protocol) :
    Prop where
  version : ipVersion packet = protocol.version
  header : protocol.headerSize ≤ packet.length
  length : packet.length = protocol.declared packet
  source : protocol.routed ops (protocol.saddr packet) = some peer

def Effect.given : Effect → Option Bytes
  | .napiGroReceive packet => some packet
  | _ => none

/-- One genuine packet is given away, or the packet is freed, once. -/
def Verdict (ops : List (Operation P)) (peer : P) (effects : List Effect) : Prop :=
  (∃ packet protocol, effects.filterMap Effect.given = [packet] ∧ effects.count .devKfreeSkb = 0 ∧
    Genuine ops peer packet protocol) ∨
  (effects.filterMap Effect.given = [] ∧ effects.count .devKfreeSkb = 1)

theorem Verdict.append {effects : List Effect} (begun : List Effect) (h : Verdict ops peer effects)
    (hgiven : begun.filterMap Effect.given = []) (hfree : begun.count .devKfreeSkb = 0) :
    Verdict ops peer (begun ++ effects) := by
  simpa only [Verdict, List.filterMap_append, List.count_append, hgiven, hfree, List.nil_append,
    Nat.zero_add] using h

theorem verdict_peer : Verdict ops peer dishonestPacketPeer := .inr (by decide)
theorem verdict_type : Verdict ops peer dishonestPacketType := .inr (by decide)
theorem verdict_size : Verdict ops peer dishonestPacketSize := .inr (by decide)
theorem verdict_processed : Verdict ops peer packetProcessed := .inr (by decide)

/-- With enough fuel there is a verdict. -/
def Judged (ops : List (Operation P)) (peer : P) (f : Nat → Option (List Effect)) : Prop :=
  ∃ effects, Eventually f effects ∧ Verdict ops peer effects

theorem Verdict.judged {effects : List Effect} (h : Verdict ops peer effects) :
    Judged ops peer fun _ => some effects :=
  ⟨effects, eventually_some effects, h⟩

/-- The network header is where the data starts. -/
def DataSkb.AtData (skb : DataSkb) : Prop := skb.networkHeader = skb.room.length

theorem DataSkb.AtData.ipHdr (h : skb.AtData) : skb.ipHdr = skb.data := by
  simp [DataSkb.ipHdr, show skb.networkHeader = skb.room.length from h]

theorem DataSkb.AtData.setIpHdr (h : skb.AtData) (header : Bytes) :
    (skb.setIpHdr header).AtData ∧ (skb.setIpHdr header).data = header := by
  have hat : skb.networkHeader = skb.room.length := h
  simp [DataSkb.setIpHdr, DataSkb.AtData, hat]

theorem DataSkb.AtData.pull (h : skb.AtData) (len : Nat) :
    (skb.pskbNetworkMayPull k len).2.AtData := by
  unfold DataSkb.pskbNetworkMayPull
  dsimp only
  split_ifs <;> exact h

theorem field_congr {header header' : Bytes} {offset size : Nat}
    (h : ∀ i, offset ≤ i → i < offset + size → header[i]? = header'[i]?) :
    field header offset size = field header' offset size := by
  refine List.ext_getElem? fun i => ?_
  simp only [field, List.getElem?_take, List.getElem?_drop]
  split
  · exact h _ (by omega) (by omega)
  · rfl

theorem field_take {header : Bytes} {offset size len : Nat} (h : offset + size ≤ len) :
    field (header.take len) offset size = field header offset size :=
  field_congr fun i _ hi => by rw [List.getElem?_take, if_pos (by omega)]

theorem length_field {header : Bytes} {offset size : Nat} (h : offset + size ≤ header.length) :
    (field header offset size).length = size := by
  simp only [field, List.length_take, List.length_drop]
  omega

theorem Protocol.read_take (header : Bytes) {len : Nat} (h : protocol.headerSize ≤ len) :
    ipVersion (header.take len) = ipVersion header ∧
      protocol.declared (header.take len) = protocol.declared header := by
  cases protocol <;> simp only [Protocol.headerSize] at h <;>
    simp only [ipVersion, Protocol.declared] <;>
    exact ⟨by rw [field_take (by omega)], by rw [field_take (by omega)]⟩

theorem ecn_keeps4 (ecn : EcnMarks) (header : Bytes) :
    ipVersion (ecn.setCe4 header) = ipVersion header ∧
      Protocol.ip.declared (ecn.setCe4 header) = Protocol.ip.declared header := by
  simp only [ipVersion, Protocol.declared]
  exact ⟨by rw [field_congr fun i _ _ => ecn.others4 header i (by omega) (by omega) (by omega)],
    by rw [field_congr fun i _ _ => ecn.others4 header i (by omega) (by omega) (by omega)]⟩

theorem ecn_keeps6 (ecn : EcnMarks) (header : Bytes) :
    ipVersion (ecn.setCe6 header) = ipVersion header ∧
      Protocol.ipv6.declared (ecn.setCe6 header) = Protocol.ipv6.declared header := by
  simp only [ipVersion, Protocol.declared]
  exact ⟨by rw [field_congr fun i _ _ => ecn.others6 header i (by omega)],
    by rw [field_congr fun i _ _ => ecn.others6 header i (by omega)]⟩

/-- The table answers every lookup as the operations on it say. -/
def Answers (e : Endian) (ops : List (Operation P)) (table : Allowedips P) : Prop :=
  (∀ address, address.length = 4 →
    Eventually (fun fuel => lookup fuel e ⟨table.root4, table.cell⟩ 32 address)
      (longest (routes 4 ops) address 32)) ∧
  (∀ address, address.length = 16 →
    Eventually (fun fuel => lookup fuel e ⟨table.root6, table.cell⟩ 128 address)
      (longest (routes 16 ops) address 128))

theorem lookupSrc_answers (htable : Answers e ops table) (protocol : Protocol) (skb : DataSkb)
    (h : protocol.headerSize ≤ skb.ipHdr.length) :
    Eventually (fun fuel => wgAllowedipsLookupSrc fuel e table protocol skb)
      (protocol.routed ops (protocol.saddr skb.ipHdr)) := by
  cases protocol <;> simp only [Protocol.headerSize] at h
  · exact htable.1 _ (length_field (by omega))
  · exact htable.2 _ (length_field (by omega))

theorem trimAndRoute_judged (k : Surroundings) (peer : P) (htable : Answers e ops table)
    (hat : skb.AtData) (hversion : ipVersion skb.data = protocol.version)
    (hheader : protocol.headerSize ≤ protocol.declared skb.data) :
    Judged ops peer fun fuel =>
      trimAndRoute k fuel e table peer protocol (protocol.declared skb.data) skb := by
  unfold trimAndRoute
  by_cases hlong : protocol.declared skb.data > skb.data.length
  · simp only [if_pos hlong]
    exact verdict_size.judged
  simp only [if_neg hlong]
  split
  · exact verdict_processed.judged
  have hcut : (skb.pskbTrim (protocol.declared skb.data)).AtData := hat
  have hdata : (skb.pskbTrim (protocol.declared skb.data)).data =
    skb.data.take (protocol.declared skb.data) := rfl
  generalize skb.pskbTrim (protocol.declared skb.data) = cut at hcut hdata ⊢
  have hlength : cut.data.length = protocol.declared skb.data := by
    rw [hdata, List.length_take]
    omega
  have hread := Protocol.read_take skb.data hheader
  rw [← hdata] at hread
  have hlookup := lookupSrc_answers htable protocol cut
    (by rw [hcut.ipHdr]; omega)
  rw [hcut.ipHdr] at hlookup
  by_cases hpeer : protocol.routed ops (protocol.saddr cut.data) = some peer
  · rw [hpeer] at hlookup
    refine ⟨.napiGroReceive cut.data ::
      if k.groDrops then [.rxDropped] else [.updateRxStats (messageDataLen skb.data.length)],
      hlookup.bind ?_, .inl ⟨cut.data, protocol, ?_, ?_, ?_⟩⟩
    · simp only [ne_eq, not_true_eq_false, if_false]
      exact eventually_some _
    · cases k.groDrops <;> rfl
    · cases k.groDrops <;> rfl
    · exact ⟨hread.1.trans hversion, by omega, by omega, hpeer⟩
  · refine ⟨dishonestPacketPeer, hlookup.bind ?_, verdict_peer⟩
    simp only [ne_eq, hpeer, not_false_eq_true, if_true]
    exact eventually_some _

theorem examine_version (h : wgSkbExamineUntrustedIpHdr skb = some protocol) :
    ipVersion skb.ipHdr = protocol.version := by
  unfold wgSkbExamineUntrustedIpHdr at h
  split_ifs at h with h4 h6
  · cases h
    exact h4.2.2
  · cases h
    exact h6.2.2

/-- The sum stays below `2 ^ 32`, as the field has sixteen bits. -/
theorem ipv6_length (packet : Bytes) :
    (readBE (field packet 4 2) + sizeofIpv6hdr) % 2 ^ 32 = Protocol.ipv6.declared packet := by
  have hlt := readBE_lt (field packet 4 2)
  have hsize : (field packet 4 2).length ≤ 2 := by
    simp only [field, List.length_take]
    omega
  have hpow : 2 ^ (8 * (field packet 4 2).length) ≤ 2 ^ 16 :=
    Nat.pow_le_pow_right (by omega) (by omega)
  simp only [Protocol.declared, sizeofIpv6hdr]
  omega

theorem examineAndRoute_judged (htable : Answers e ops table) (hat : skb.AtData) :
    Judged ops peer fun fuel => examineAndRoute k ecn fuel e table peer skb := by
  unfold examineAndRoute
  cases hp : wgSkbExamineUntrustedIpHdr skb with
  | none => exact verdict_type.judged
  | some protocol =>
    have hversion := examine_version hp
    rw [hat.ipHdr] at hversion
    simp only [hat.ipHdr]
    cases protocol with
    | ip =>
      by_cases hshort : readBE (field skb.data 2 2) < sizeofIphdr
      · simp only [if_pos hshort]
        exact verdict_size.judged
      have hheader : Protocol.ip.headerSize ≤ Protocol.ip.declared skb.data := not_lt.mp hshort
      simp only [if_neg hshort]
      split
      · obtain ⟨hat', hdata⟩ := hat.setIpHdr (ecn.setCe4 skb.data)
        obtain ⟨hkeeps, hdeclared⟩ := ecn_keeps4 ecn skb.data
        rw [← hdata] at hkeeps hdeclared
        have h := trimAndRoute_judged k peer htable hat' (hkeeps.trans hversion)
          (hheader.trans_eq hdeclared.symm)
        rwa [hdeclared] at h
      · exact trimAndRoute_judged k peer htable hat hversion hheader
    | ipv6 =>
      have hheader : Protocol.ipv6.headerSize ≤ Protocol.ipv6.declared skb.data :=
        Nat.le_add_left ..
      simp only [ipv6_length]
      split
      · obtain ⟨hat', hdata⟩ := hat.setIpHdr (ecn.setCe6 skb.data)
        obtain ⟨hkeeps, hdeclared⟩ := ecn_keeps6 ecn skb.data
        rw [← hdata] at hkeeps hdeclared
        have h := trimAndRoute_judged k peer htable hat' (hkeeps.trans hversion)
          (hheader.trans_eq hdeclared.symm)
        rwa [hdeclared] at h
      · exact trimAndRoute_judged k peer htable hat hversion hheader

theorem checkAndRoute_judged (k : Surroundings) (ecn : EcnMarks) (peer : P)
    (htable : Answers e ops table) (hat : skb.AtData) :
    Judged ops peer fun fuel => checkAndRoute k ecn fuel e table peer skb := by
  unfold checkAndRoute
  dsimp only
  have hpull := hat.pull (k := k) sizeofIphdr
  split_ifs
  · exact verdict_size.judged
  · exact verdict_type.judged
  · exact examineAndRoute_judged htable hpull
  · exact verdict_type.judged
  · exact examineAndRoute_judged htable (hpull.pull _)
  · exact verdict_type.judged

end

/-- After any operations on the table, whatever a decrypted packet holds, the function ends. It
gives one packet to the network stack, which is IPv4 or IPv6 by its version field, holds its
header, has the length the header declares and a source address that is routed to the sending
peer, or else it frees the packet, and it does that once. -/
theorem received_packet_genuine {P : Type} [DecidableEq P] (e : Endian) (ops : List (Operation P)) :
    ∃ table : Allowedips P, Eventually (fun fuel => wgAllowedipsInit.performAll fuel e ops) table ∧
      ∀ k ecn peer skb, ∃ effects,
        Eventually (fun fuel => wgPacketConsumeDataDone k ecn fuel e table peer (wgResetPacket skb))
          effects ∧
        Verdict ops peer effects := by
  obtain ⟨table, hrun, htable⟩ := lookup_after_operations e ops
  refine ⟨table, hrun, fun k ecn peer skb => ?_⟩
  have hat : (wgResetPacket skb).AtData := rfl
  generalize wgResetPacket skb = skb at hat
  unfold wgPacketConsumeDataDone
  by_cases hkeepalive : skb.data.length = 0
  · simp only [if_pos hkeepalive]
    refine ⟨_, eventually_some _, ?_⟩
    cases k.receivedWithKeypair <;> exact .inr (by decide)
  · simp only [if_neg hkeepalive]
    obtain ⟨effects, hends, hverdict⟩ := checkAndRoute_judged k ecn peer htable hat
    refine ⟨_, hends.bind (eventually_some _), ?_⟩
    have hdata : Verdict ops peer (.dataReceived :: effects) :=
      hverdict.append [.dataReceived] rfl rfl
    cases k.receivedWithKeypair <;> exact hdata.append _ rfl rfl

/-- The bytes of an IPv4 header from 10.1.2.3, with this type of service and checksum. -/
def headerFromTen (tos high low : UInt8) : Bytes :=
  [0x45, tos, 0, 20, 0, 0, 0, 0, 64, 17, high, low, 10, 1, 2, 3, 10, 0, 0, 9]

/-- A header and padding that came marked, of which the last bytes are not linear. -/
def markedSkb : DataSkb where
  head := 4096
  room := List.replicate 32 0
  data := headerFromTen 1 100 204 ++ List.replicate 12 0
  headlen := 12
  networkHeader := 0
  ds := 3

def delivering : Surroundings := ⟨true, fun _ => true, false, false⟩

/-- The packet is given away without its padding and with the mark in it. -/
theorem received_packet_genuine_marked : ∃ (table : Allowedips Nat) (effects : List Effect),
    Eventually (fun fuel => wgAllowedipsInit.performAll fuel .little splitNetworkOps) table ∧
      Eventually (fun fuel => wgPacketConsumeDataDone delivering inetEcn fuel .little table 2
        (wgResetPacket markedSkb)) effects ∧
      effects.filterMap Effect.given = [headerFromTen 3 100 202] ∧
      Verdict splitNetworkOps 2 effects := by
  obtain ⟨table, hrun, hjudged⟩ := received_packet_genuine .little splitNetworkOps
  obtain ⟨effects, hends, hverdict⟩ := hjudged delivering inetEcn 2 markedSkb
  refine ⟨table, effects, hrun, hends, ?_, hverdict⟩
  obtain ⟨table', hrun', hlookup, -⟩ := lookup_after_operations .little splitNetworkOps
  obtain rfl := hrun.unique hrun'
  have hfound := hlookup [10, 1, 2, 3] rfl
  rw [show longest (routes 4 splitNetworkOps) [10, 1, 2, 3] 32 = some 2 by decide +kernel] at hfound
  have hroute : Eventually (fun fuel => checkAndRoute delivering inetEcn fuel .little table 2
      (wgResetPacket markedSkb)) [.napiGroReceive (headerFromTen 3 100 202), .updateRxStats 64] :=
    Eventually.bind (g := fun _ routed => if routed ≠ some 2 then some dishonestPacketPeer
      else some [.napiGroReceive (headerFromTen 3 100 202), .updateRxStats 64]) hfound
      (eventually_some _)
  obtain rfl := hends.unique (hroute.bind (eventually_some _))
  rfl

end Sewg.Kernel
