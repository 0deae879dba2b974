import Sewg.Go.Transport

/-! Packets that go through the data path of one device and then of another come out as
they went in: the header is read back, the content decrypts to the padded packet, the
replay filter lets each counter through once, and the packet's own length tells where
the padding starts. -/

namespace Sewg.Go

open CString (Bytes)
open Words

/-- What ChaCha20-Poly1305 does: opening undoes sealing, which adds a tag. -/
structure Aead.Lawful (aead : Aead) : Prop where
  open_seal : ∀ key nonce text, aead.Open key nonce (aead.Seal key nonce text) = some text
  length_seal : ∀ key nonce text, (aead.Seal key nonce text).length = text.length + TagSize

variable {w : Nat} {aead : Aead} {e : Endian}

/-! ### Sending -/

theorem padContent_eq (mtu : Nat) (packet : Bytes) :
    ∃ k, padContent mtu packet = packet ++ List.replicate k 0 ∧
      packet.length + k ≤ max packet.length mtu := by
  refine ⟨_, rfl, ?_⟩
  split <;> omega

theorem length_transportHeader (receiver : UInt32) (nonce : Nat) :
    (transportHeader receiver nonce).length = MessageTransportHeaderSize := by
  simp only [transportHeader, List.length_append, length_writeLE]
  rfl

theorem length_encrypt (haead : aead.Lawful) (mtu : Nat) (keypair : SendKeypair) (nonce : Nat)
    (packet : Bytes) : (encrypt aead mtu keypair nonce packet).length =
      MessageTransportSize + (padContent mtu packet).length := by
  rw [encrypt, List.length_append, length_transportHeader, haead.length_seal, MessageTransportSize]
  omega

theorem length_encrypt_le (haead : aead.Lawful) {mtu : Nat} {packet : Bytes} (keypair : SendKeypair)
    (nonce : Nat) (hmtu : mtu ≤ MaxContentSize) (hpacket : packet.length ≤ MaxContentSize) :
    (encrypt aead mtu keypair nonce packet).length ≤ MaxMessageSize := by
  obtain ⟨k, hpad, hk⟩ := padContent_eq mtu packet
  have hmax : MessageTransportSize + MaxContentSize = MaxMessageSize := by decide
  rw [length_encrypt haead, hpad, List.length_append, List.length_replicate]
  omega

/-- The datagrams carry the nonces from `sendNonce` on. -/
theorem sendAll_spec (aead : Aead) (keypair : SendKeypair) {sends : List Outgoing}
    (htime : ∀ out ∈ sends, out.now - keypair.created < RejectAfterTime)
    (hcount : keypair.sendNonce + sends.length ≤ RejectAfterMessages) :
    ∃ datagrams, sendAll aead keypair sends = some datagrams ∧
      ∀ i, datagrams[i]? = (sends[i]?).map fun out =>
        encrypt aead out.mtu keypair (keypair.sendNonce + i) out.packet := by
  induction sends generalizing keypair with
  | nil => exact ⟨[], rfl, fun i => rfl⟩
  | cons out rest ih =>
    have hlimit : RejectAfterMessages < 2 ^ 64 := by decide
    rw [List.length_cons] at hcount
    have hnext : (keypair.sendNonce + 1) % 2 ^ 64 = keypair.sendNonce + 1 :=
      Nat.mod_eq_of_lt (by omega)
    have htake : keypair.takeNonce out.now =
        some (keypair.sendNonce, { keypair with sendNonce := keypair.sendNonce + 1 }) := by
      rw [SendKeypair.takeNonce, if_pos ⟨by omega, htime out List.mem_cons_self⟩, hnext]
      exact if_neg (by omega)
    obtain ⟨datagrams, hsend, hat⟩ := ih { keypair with sendNonce := keypair.sendNonce + 1 }
      (fun o ho => htime o (List.mem_cons_of_mem out ho)) (by dsimp only; omega)
    refine ⟨encrypt aead out.mtu keypair keypair.sendNonce out.packet :: datagrams, ?_, fun i => ?_⟩
    · simp only [sendAll, htake, hsend, Option.bind_eq_bind, Option.bind_some]
      rfl
    · cases i with
      | zero => rfl
      | succ i =>
        rw [List.getElem?_cons_succ, List.getElem?_cons_succ, hat i,
          Nat.add_right_comm, Nat.add_assoc]
        rfl

/-! ### Reading a datagram back -/

section
variable {mtu nonce : Nat} {packet : Bytes} {sender : SendKeypair} {s : Slice}

theorem encrypt_fields (aead : Aead) (mtu nonce : Nat) (packet : Bytes) (sender : SendKeypair) :
    (encrypt aead mtu sender nonce packet).take 4 = writeLE 4 MessageTransportType ∧
    headerField (encrypt aead mtu sender nonce packet) MessageTransportOffsetReceiver 4 =
      writeLE 4 sender.remoteIndex.toNat ∧
    headerField (encrypt aead mtu sender nonce packet) MessageTransportOffsetCounter 8 =
      writeLE 8 nonce ∧
    (encrypt aead mtu sender nonce packet).drop MessageTransportOffsetContent =
      aead.Seal sender.send (List.replicate 4 0 ++ writeLE 8 nonce) (padContent mtu packet) := by
  have hreceiver : (writeLE 4 MessageTransportType).length = MessageTransportOffsetReceiver :=
    length_writeLE _ _
  have hcounter : (writeLE 4 MessageTransportType ++ writeLE 4 sender.remoteIndex.toNat).length =
      MessageTransportOffsetCounter := by
    rw [List.length_append, length_writeLE, length_writeLE]
    rfl
  have hcontent :
      (transportHeader sender.remoteIndex nonce).length = MessageTransportOffsetContent :=
    length_transportHeader _ _
  refine ⟨?_, ?_, ?_, ?_⟩
  · rw [encrypt, transportHeader, List.append_assoc, List.append_assoc,
      List.take_left' (length_writeLE _ _)]
  · rw [encrypt, transportHeader, List.append_assoc, List.append_assoc, headerField,
      List.drop_left' hreceiver, List.take_left' (length_writeLE _ _)]
  · rw [encrypt, transportHeader, List.append_assoc, headerField, List.drop_left' hcounter,
      List.take_left' (length_writeLE _ _)]
  · rw [encrypt, List.drop_left' hcontent]

theorem read_bytes {a : Arrival} (h : a.datagram.length ≤ a.buffer.length) :
    a.read.bytes = a.datagram := by
  have hlen : (Arrival.read a).len = a.datagram.length := Nat.min_eq_left h
  rw [Slice.bytes, hlen]
  show (a.datagram.take (min a.datagram.length a.buffer.length) ++ _).take _ = _
  rw [Nat.min_eq_left h, List.take_of_length_le (Nat.le_refl _), List.take_left' rfl]

theorem decrypt_encrypt (haead : aead.Lawful) {keypair : Keypair}
    (hkey : sender.send = keypair.receive)
    (hnonce : nonce < 2 ^ 64) (hs : s.bytes = encrypt aead mtu sender nonce packet) :
    ∃ plain rest, decrypt aead keypair s = some (nonce, plain) ∧
      plain.mem = padContent mtu packet ++ rest ∧ plain.len = (padContent mtu packet).length := by
  obtain ⟨-, -, hcounter, hcontent⟩ := encrypt_fields aead mtu nonce packet sender
  let rest := s.mem.drop (MessageTransportOffsetContent + (padContent mtu packet).length)
  refine ⟨⟨padContent mtu packet ++ rest, (padContent mtu packet).length, ?_⟩, rest, ?_, rfl, rfl⟩
  · rw [List.length_append]
    omega
  · unfold decrypt
    simp only [hs, hcounter, hcontent, hkey, haead.open_seal, readLE_writeLE (n := 8) hnonce]
    rfl

theorem receivePacket_padded {table : AllowedIPs Nat} {peer : Nat} {rest : Bytes}
    (hpacket : RoutedIPv4 e table peer packet ∨ RoutedIPv6 e table peer packet)
    (hsize : packet.length < 2 ^ 16) (hmem : s.mem = packet ++ rest)
    (hlen : packet.length ≤ s.len) :
    ∃ out, receivePacket e table peer s = some (some out) ∧ out.bytes = packet := by
  let out : Slice := ⟨s.mem, packet.length, Nat.le_trans hlen s.len_le⟩
  have hbytes : out.bytes = packet := by
    show s.mem.take packet.length = packet
    rw [hmem, List.take_left' rfl]
  have hfield : ∀ offset size, offset + size ≤ packet.length →
      headerField s.mem offset size = headerField packet offset size := by
    intro offset size h
    rw [← hbytes]
    exact (Slice.headerField_bytes (s := out) h).symm
  have hversion : ∀ v, 0 < packet.length → HasVersion packet v → HasVersion s.mem v := by
    intro v hpos h
    rw [← hbytes] at h
    exact (Slice.hasVersion_bytes (s := out) hpos).mp h
  refine ⟨out, receivePacket_iff.mpr ?_, hbytes⟩
  rcases hpacket with h | h
  · have hheader := h.header
    have hpos : 0 < packet.length := Nat.lt_of_lt_of_le (by decide) hheader
    have hdeclared : declaredIPv4 s.mem = packet.length := by
      rw [declaredIPv4, hfield _ _ (Nat.le_trans (by decide) hheader), h.length, declaredIPv4]
    refine ⟨by omega, .inl ⟨hversion _ hpos h.version, by omega, (checkIPv4_iff (by omega)).mpr ?_⟩⟩
    rw [hdeclared, hfield _ _ (Nat.le_trans (by decide) hheader)]
    exact ⟨⟨hlen, hheader⟩, rfl, rfl, h.source⟩
  · have hheader := h.header
    have hpos : 0 < packet.length := Nat.lt_of_lt_of_le (by decide) hheader
    have hdeclared : declaredIPv6 s.mem = packet.length := by
      rw [declaredIPv6, hfield _ _ (Nat.le_trans (by decide) hheader), h.length, declaredIPv6]
    refine ⟨by omega, .inr ⟨hversion _ hpos h.version, by omega, (checkIPv6_iff (by omega)).mpr ?_⟩⟩
    rw [hdeclared, Nat.mod_eq_of_lt hsize, hfield _ _ (Nat.le_trans (by decide) hheader)]
    exact ⟨hlen, rfl, rfl, h.source⟩

end

/-! ### Receiving -/

/-- The receiver has the keypair in its table, and has let these counters through. -/
structure Receiver.Ready (r : Receiver w) (peer : Nat) (keypair : Keypair) (accepted : List Nat) :
    Prop where
  table : r.device.indexTable keypair.localIndex = some ⟨peer, some keypair⟩
  running : r.isRunning peer = true
  apart : (r.device.peers peer).keypairs.next.map (·.ptr) = some keypair.ptr →
    ∀ old, (r.device.peers peer).keypairs.previous = some old → old.localIndex ≠ keypair.localIndex
  follows : (r.replayFilter peer keypair.ptr).Follows accepted
  counter : (r.replayFilter peer keypair.ptr).counter = 0 ∨
    (r.replayFilter peer keypair.ptr).counter ∈ accepted

section
variable {r : Receiver w} {peer c : Nat} {keypair : Keypair} {accepted : List Nat}

theorem receivedWithKeypair_table {device : Device}
    (htable : device.indexTable keypair.localIndex = some ⟨peer, some keypair⟩)
    (hapart : (device.peers peer).keypairs.next.map (·.ptr) = some keypair.ptr →
      ∀ old, (device.peers peer).keypairs.previous = some old →
      old.localIndex ≠ keypair.localIndex) :
    (device.receivedWithKeypair peer keypair).indexTable keypair.localIndex =
      some ⟨peer, some keypair⟩ ∧
      ∀ old, ((device.receivedWithKeypair peer keypair).peers peer).keypairs.next.map (·.ptr) =
          some keypair.ptr →
        ((device.receivedWithKeypair peer keypair).peers peer).keypairs.previous = some old →
        old.localIndex ≠ keypair.localIndex := by
  unfold Device.receivedWithKeypair
  dsimp only
  by_cases hnext : (device.peers peer).keypairs.next.map (·.ptr) ≠ some keypair.ptr
  · rw [if_pos hnext]
    exact ⟨htable, fun old h => absurd h hnext⟩
  · rw [if_neg hnext]
    constructor
    · dsimp only
      cases hprevious : (device.peers peer).keypairs.previous with
      | none => exact htable
      | some old =>
        rw [IndexTable.deleteKeypair, IndexTable.delete,
          Function.update_of_ne (hapart (not_not.mp hnext) old hprevious).symm]
        exact htable
    · intro old h
      simp only [Function.update_self] at h
      cases h

/-- A new counter of the window is let through, and its packet written. -/
theorem sequential_spec (hw : ReplayFilter.IsWord w) (h : r.Ready peer keypair accepted)
    (hlimit : c < RejectAfterMessages) (hfresh : c ∉ accepted)
    (hwindow : ∀ a ∈ accepted, a ≤ c + CounterWindowSize w) {s out : Slice}
    (hpacket : receivePacket e r.allowedips peer s = some (some out)) :
    ∃ r', r.sequential e peer keypair c s = some (r', some out.bytes) ∧
      r'.Ready peer keypair (c :: accepted) ∧ r'.allowedips = r.allowedips ∧
      r'.created = r.created := by
  obtain ⟨hok, hcounter, hfollows⟩ :=
    ReplayFilter.ValidateCounter_spec hw h.follows c RejectAfterMessages
  have hle : (r.replayFilter peer keypair.ptr).counter ≤ c + CounterWindowSize w := by
    rcases h.counter with hzero | hmem
    · omega
    · exact hwindow _ hmem
  have htrue := hok.mpr ⟨hlimit, hfresh, hle⟩
  rw [htrue, if_pos rfl] at hfollows
  rw [if_pos hlimit] at hcounter
  obtain ⟨htable, hapart⟩ := receivedWithKeypair_table h.table h.apart
  unfold Receiver.sequential
  dsimp only
  rw [if_pos htrue, hpacket]
  refine ⟨_, rfl, ⟨htable, h.running, fun h old => hapart old h, ?_, ?_⟩, rfl, rfl⟩
  · simp only [Function.update_self]
    exact hfollows
  · simp only [Function.update_self]
    rw [hcounter, List.mem_cons]
    rcases Nat.le_total (r.replayFilter peer keypair.ptr).counter c with hlt | hge
    · exact .inr (.inl (Nat.max_eq_right hlt))
    · rw [Nat.max_eq_left hge]
      exact h.counter.imp id .inr

theorem receiveIncoming_encrypt (haead : aead.Lawful) (h : r.Ready peer keypair accepted)
    {sender : SendKeypair} (hindex : sender.remoteIndex = keypair.localIndex) {now : Int}
    (htime : now ≤ r.created peer keypair.ptr + RejectAfterTime) {s : Slice} {mtu nonce : Nat}
    {packet : Bytes} (hs : s.bytes = encrypt aead mtu sender nonce packet) :
    r.receiveIncoming now s = some (peer, keypair) := by
  obtain ⟨htype, hreceiver, -, -⟩ := encrypt_fields aead mtu nonce packet sender
  have hlen : ¬ (encrypt aead mtu sender nonce packet).length < MessageTransportSize := by
    rw [length_encrypt haead]
    omega
  have htype' : readLE (writeLE 4 MessageTransportType) = MessageTransportType := by decide
  have hindex' :
      UInt32.ofNat (readLE (writeLE 4 sender.remoteIndex.toNat)) = keypair.localIndex := by
    rw [readLE_writeLE (n := 4) sender.remoteIndex.toNat_lt, UInt32.ofNat_toNat, hindex]
  unfold Receiver.receiveIncoming
  simp only [hs, MinMessageSize, if_neg hlen, htype, htype', if_true, hreceiver, hindex', h.table,
    if_neg (Int.not_lt.mpr htime), h.running]

end

/-! ### The whole way -/

/-- The keypairs of the two ends: what one seals the other opens. The sender's has not been
used, and the receiver's replay filter is fresh. -/
structure Agreed (sender : SendKeypair) (r : Receiver w) (peer : Nat)
    (keypair : Keypair) : Prop where
  key : sender.send = keypair.receive
  index : sender.remoteIndex = keypair.localIndex
  nonce : sender.sendNonce = 0
  filter : ∃ used : ReplayFilter w, r.replayFilter peer keypair.ptr = used.Init
  table : r.device.indexTable keypair.localIndex = some ⟨peer, some keypair⟩
  running : r.isRunning peer = true
  apart : (r.device.peers peer).keypairs.next.map (·.ptr) = some keypair.ptr →
    ∀ old, (r.device.peers peer).keypairs.previous = some old → old.localIndex ≠ keypair.localIndex

/-- A whole packet from an address of the peer, that may be sent now. -/
structure Outgoing.Sendable (out : Outgoing) (e : Endian) (table : AllowedIPs Nat) (peer : Nat)
    (created : Int) : Prop where
  mtu_pos : 1 ≤ out.mtu
  mtu_le : out.mtu ≤ MaxContentSize
  size_le : out.packet.length ≤ MaxContentSize
  whole : RoutedIPv4 e table peer out.packet ∨ RoutedIPv6 e table peer out.packet
  valid : out.now - created < RejectAfterTime

/-- A datagram, by its place among those that were sent, as it is delivered. -/
structure Delivery where
  index : Nat
  now : Int
  buffer : Bytes
  buffer_ok : buffer.length = MaxMessageSize

def Delivery.arrival (datagrams : List Bytes) (d : Delivery) : Arrival :=
  ⟨d.now, d.buffer, datagrams[d.index]?.getD []⟩

section
variable {r : Receiver w} {peer c : Nat} {keypair : Keypair} {accepted : List Nat}
  {sender : SendKeypair}

theorem Agreed.ready (hw : ReplayFilter.IsWord w) (h : Agreed sender r peer keypair) :
    r.Ready peer keypair [] := by
  obtain ⟨used, hused⟩ := h.filter
  refine ⟨h.table, h.running, h.apart, ?_, ?_⟩
  · rw [hused]
    exact ReplayFilter.Init_follows hw used
  · rw [hused]
    exact .inl rfl

theorem receive_encrypt (hw : ReplayFilter.IsWord w) (haead : aead.Lawful)
    (h : r.Ready peer keypair accepted) (hkey : sender.send = keypair.receive)
    (hindex : sender.remoteIndex = keypair.localIndex) {out : Outgoing}
    (hout : out.Sendable e r.allowedips peer sender.created) (hlimit : c < RejectAfterMessages)
    (hfresh : c ∉ accepted) (hwindow : ∀ a ∈ accepted, a ≤ c + CounterWindowSize w) {a : Arrival}
    (hdatagram : a.datagram = encrypt aead out.mtu sender c out.packet)
    (hbuffer : a.buffer.length = MaxMessageSize)
    (htime : a.now ≤ r.created peer keypair.ptr + RejectAfterTime) :
    ∃ r', r.receive aead e a = some (r', some out.packet) ∧ r'.Ready peer keypair (c :: accepted) ∧
      r'.allowedips = r.allowedips ∧ r'.created = r.created := by
  have hread : a.read.bytes = encrypt aead out.mtu sender c out.packet := by
    rw [read_bytes, hdatagram]
    rw [hdatagram, hbuffer]
    exact length_encrypt_le haead sender c hout.mtu_le hout.size_le
  have hnonce : c < 2 ^ 64 := Nat.lt_trans hlimit (by decide)
  have hsize : out.packet.length < 2 ^ 16 := Nat.lt_of_le_of_lt hout.size_le (by decide)
  obtain ⟨plain, rest, hdecrypt, hmem, hlen⟩ := decrypt_encrypt haead hkey hnonce hread
  obtain ⟨k, hpad, -⟩ := padContent_eq out.mtu out.packet
  rw [hpad, List.append_assoc] at hmem
  rw [hpad, List.length_append] at hlen
  obtain ⟨stripped, hpacket, hbytes⟩ := receivePacket_padded hout.whole hsize hmem (by omega)
  obtain ⟨r', hr', hready, htable, hcreated⟩ := sequential_spec hw h hlimit hfresh hwindow hpacket
  refine ⟨r', ?_, hready, htable, hcreated⟩
  rw [Receiver.receive, receiveIncoming_encrypt haead h hindex htime hread]
  simp only [hdecrypt, hr', hbytes]

/-- The packet at a place among those that were sent. -/
def packetAt (sends : List Outgoing) (i : Nat) : Bytes := (sends[i]?.map Outgoing.packet).getD []

theorem map_packetAt (sends : List Outgoing) :
    (List.range sends.length).map (packetAt sends) = sends.map Outgoing.packet := by
  apply List.ext_getElem?
  intro i
  rw [List.getElem?_map, List.getElem?_map]
  by_cases hi : i < sends.length
  · simp [packetAt, hi]
  · rw [List.getElem?_eq_none (by simpa using hi), List.getElem?_eq_none (by simpa using hi)]
    rfl

/-- A run of deliveries. The invariant is that the counters let through are those of the
datagrams delivered so far. -/
theorem receiveAll_spec (hw : ReplayFilter.IsWord w) (haead : aead.Lawful)
    (h : r.Ready peer keypair accepted) (hkey : sender.send = keypair.receive)
    (hindex : sender.remoteIndex = keypair.localIndex) {sends : List Outgoing}
    {datagrams : List Bytes}
    (hsends : ∀ out ∈ sends, out.Sendable e r.allowedips peer sender.created)
    (hcount : sends.length ≤ RejectAfterMessages)
    (hdatagrams : ∀ i, datagrams[i]? = (sends[i]?).map fun out =>
      encrypt aead out.mtu sender i out.packet)
    {deliveries : List Delivery} (hsent : ∀ d ∈ deliveries, d.index < sends.length)
    (hnodup : (deliveries.map Delivery.index).Nodup) (hnew : ∀ d ∈ deliveries, d.index ∉ accepted)
    (horder : deliveries.Pairwise fun a b => a.index ≤ b.index + CounterWindowSize w)
    (hbehind : ∀ d ∈ deliveries, ∀ a ∈ accepted, a ≤ d.index + CounterWindowSize w)
    (htime : ∀ d ∈ deliveries, d.now ≤ r.created peer keypair.ptr + RejectAfterTime) :
    ∃ r', r.receiveAll aead e (deliveries.map (Delivery.arrival datagrams)) =
      some (r', deliveries.map fun d => packetAt sends d.index) := by
  induction deliveries generalizing r accepted with
  | nil => exact ⟨r, rfl⟩
  | cons d rest ih =>
    have hlt := hsent d List.mem_cons_self
    obtain ⟨out, hout⟩ : ∃ out, sends[d.index]? = some out := ⟨_, List.getElem?_eq_getElem hlt⟩
    have hdatagram : (Delivery.arrival datagrams d).datagram =
        encrypt aead out.mtu sender d.index out.packet := by
      rw [Delivery.arrival, hdatagrams, hout]
      rfl
    obtain ⟨r₁, hr₁, hready, htable, hcreated⟩ := receive_encrypt hw haead h hkey hindex
      (hsends out (List.mem_of_getElem? hout)) (Nat.lt_of_lt_of_le hlt hcount)
        (hnew d List.mem_cons_self)
      (hbehind d List.mem_cons_self) hdatagram d.buffer_ok (htime d List.mem_cons_self)
    rw [List.map_cons, List.nodup_cons] at hnodup
    rw [List.pairwise_cons] at horder
    have hrest : ∀ d' ∈ rest, d' ∈ d :: rest := fun d' hd => List.mem_cons_of_mem d hd
    obtain ⟨r', hr'⟩ := ih hready (by rwa [htable]) (fun d' hd => hsent d' (hrest d' hd)) hnodup.2
      (fun d' hd hmem => by
        rcases List.mem_cons.mp hmem with heq | hmem
        · exact hnodup.1 (heq ▸ List.mem_map_of_mem hd)
        · exact hnew d' (hrest d' hd) hmem)
      horder.2
      (fun d' hd a ha => by
        rcases List.mem_cons.mp ha with rfl | ha
        · exact horder.1 d' hd
        · exact hbehind d' (hrest d' hd) a ha)
      (fun d' hd => by rw [hcreated]; exact htime d' (hrest d' hd))
    refine ⟨r', ?_⟩
    have hpacket : packetAt sends d.index = out.packet := by
      rw [packetAt, hout]
      rfl
    simp only [List.map_cons, Receiver.receiveAll, hr₁, hr', hpacket, Option.bind_eq_bind,
      Option.bind_some]
    rfl

/-- Packets that are sent in order over an agreed pair of keypairs, and delivered once each,
none after one that was sent more than the window later, are written as they were sent. -/
theorem data_path_round_trip (hw : ReplayFilter.IsWord w) (haead : aead.Lawful) (e : Endian)
    (h : Agreed sender r peer keypair) (sends : List Outgoing)
    (hsends : ∀ out ∈ sends, out.Sendable e r.allowedips peer sender.created)
    (hcount : sends.length ≤ RejectAfterMessages) :
    ∃ datagrams, sendAll aead sender sends = some datagrams ∧
      ∀ deliveries : List Delivery,
        (deliveries.map Delivery.index).Perm (List.range sends.length) →
        (deliveries.Pairwise fun a b => a.index ≤ b.index + CounterWindowSize w) →
        (∀ d ∈ deliveries, d.now ≤ r.created peer keypair.ptr + RejectAfterTime) →
        ∃ r' written, r.receiveAll aead e (deliveries.map (Delivery.arrival datagrams)) =
            some (r', written) ∧
          written = deliveries.map (fun d => packetAt sends d.index) ∧
          written.Perm (sends.map Outgoing.packet) := by
  obtain ⟨datagrams, hsend, hat⟩ := sendAll_spec aead _ (fun out ho => (hsends out ho).valid)
    (by rw [h.nonce, Nat.zero_add]; exact hcount)
  simp only [h.nonce, Nat.zero_add] at hat
  refine ⟨datagrams, hsend, fun deliveries hperm horder htime => ?_⟩
  have hsent : ∀ d ∈ deliveries, d.index < sends.length := fun d hd =>
    List.mem_range.mp (hperm.mem_iff.mp (List.mem_map_of_mem hd))
  obtain ⟨r', hr'⟩ := receiveAll_spec hw haead (h.ready hw) h.key h.index hsends hcount hat hsent
    (hperm.nodup_iff.mpr List.nodup_range) (fun _ _ => nofun) horder (fun _ _ _ => nofun) htime
  refine ⟨r', _, hr', rfl, ?_⟩
  have hmap := hperm.map (packetAt sends)
  rwa [List.map_map, map_packetAt] at hmap

/-- Sealing that hides nothing and adds an empty tag. -/
def plainAead : Aead where
  Seal _ _ text := text ++ List.replicate TagSize 0
  Open _ _ text := some (text.take (text.length - TagSize))

theorem plainAead_lawful : plainAead.Lawful := by
  refine ⟨fun _ _ text => ?_, fun _ _ text => ?_⟩
  · simp [plainAead]
  · simp [plainAead]

def laptopKeypair : SendKeypair := ⟨⟨0, [1], [2], true, 5, 9⟩, 0, 0⟩
def serverKeypair : Keypair := ⟨0, [2], [1], false, 9, 5⟩

/-- A device with one session, whose peer 3 may use every IPv4 address. -/
def server : Receiver 64 where
  device :=
    { newDevice with
      indexTable := Function.update (fun _ => none) 9 (some ⟨3, some serverKeypair⟩) }
  isRunning _ := true
  created _ _ := 0
  replayFilter _ _ := ReplayFilter.usedFilter.Init
  allowedips := (AllowedIPs.Reset.Insert .little [0, 0, 0, 0] 0 3).getD .Reset

/-- An IPv4 header and some content. -/
def ipv4Packet (content : Bytes) : Bytes :=
  [0x45, 0, 0, UInt8.ofNat (20 + content.length), 0, 0, 0, 0, 64, 17, 0, 0, 10, 0, 0, 1, 10,
    0, 0, 2] ++ content

def zeroedBuffer (index : Nat) : Delivery :=
  ⟨index, 0, List.replicate MaxMessageSize 0, List.length_replicate⟩

theorem swapped_packets_written : ∃ datagrams r',
    sendAll plainAead laptopKeypair [⟨0, 1420, ipv4Packet [1, 2]⟩, ⟨0, 1420, ipv4Packet []⟩] =
      some datagrams ∧
      server.receiveAll plainAead .little ([zeroedBuffer 1, zeroedBuffer 0].map
        (Delivery.arrival datagrams)) = some (r', [ipv4Packet [], ipv4Packet [1, 2]]) := by
  have hagreed : Agreed laptopKeypair server 3 serverKeypair :=
    ⟨rfl, rfl, rfl, ⟨_, rfl⟩, rfl, rfl, nofun⟩
  have hwhole : ∀ content : Bytes, content = [1, 2] ∨ content = [] →
      RoutedIPv4 .little server.allowedips 3 (ipv4Packet content) := by
    rintro content (rfl | rfl)
    · exact ⟨⟨0x45, rfl, rfl⟩, by decide, by decide, by rfl⟩
    · exact ⟨⟨0x45, rfl, rfl⟩, by decide, by decide, by rfl⟩
  obtain ⟨datagrams, hsend, hreceive⟩ :=
    data_path_round_trip (.inr rfl) plainAead_lawful .little hagreed
    [⟨0, 1420, ipv4Packet [1, 2]⟩, ⟨0, 1420, ipv4Packet []⟩]
    (by
      intro out hout
      rcases List.mem_cons.mp hout with rfl | hout
      · exact ⟨by decide, by decide, by decide, .inl (hwhole _ (.inl rfl)), by decide⟩
      · rw [List.mem_singleton.mp hout]
        exact ⟨by decide, by decide, by decide, .inl (hwhole _ (.inr rfl)), by decide⟩)
    (by decide)
  have hwindow : 1 ≤ CounterWindowSize 64 := by decide
  obtain ⟨r', written, hr', hwritten, -⟩ := hreceive [zeroedBuffer 1, zeroedBuffer 0]
    (List.Perm.swap 0 1 []) (by simp [zeroedBuffer, hwindow])
      (by simp [zeroedBuffer, server, RejectAfterTime])
  rw [hwritten] at hr'
  exact ⟨datagrams, r', hsend, hr'⟩

end

end Sewg.Go
