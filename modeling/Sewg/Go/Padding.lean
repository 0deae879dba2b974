import Sewg.Go.RoundTrip

/-! The MTU as the TUN device reports it, the packets that are read from the device, and
the transport messages that are made of them. -/

namespace Sewg.Go

open CString (Bytes)
open Words

/-- `queueconstants.go` of one build. -/
structure QueueConstants where
  MaxSegmentSize : Nat

/-- "Reduce memory consumption for Android" -/
def androidConstants : QueueConstants := ⟨2200⟩

def QueueConstants.MaxMessageSize (c : QueueConstants) : Nat := c.MaxSegmentSize
def QueueConstants.MaxContentSize (c : QueueConstants) : Nat :=
  c.MaxSegmentSize - MessageTransportSize

/-! ### The MTU -/

def DefaultMTU : Int := 1420

/-- Conversion to `int32`. -/
def int32 (x : Int) : Int := x.bmod (2 ^ 32)

/-- What the device's `MTU` returned; `none` is an error. -/
abbrev Report := Option Int

/-- `NewDevice`. -/
def newMtu : Report → Int
  | none => int32 DefaultMTU
  | some mtu => int32 mtu

/-- `RoutineTUNEventReader` on an MTU event. A value that is too large is only logged. -/
def updateMtu (old : Int) : Report → Int
  | none => old
  | some mtu => if old ≠ mtu then int32 mtu else old

/-- `device.tun.mtu` after some MTU events. -/
def storedMtu (first : Report) (events : List Report) : Int := events.foldl updateMtu (newMtu first)

/-- The last value the device reported. -/
def lastMtu (first : Report) (events : List Report) : Int :=
  events.foldl (fun last report => report.getD last) (first.getD DefaultMTU)

/-! ### The routines -/

def IPv4offsetDst : Nat := IPv4offsetSrc + IPv4len
def IPv6offsetDst : Nat := IPv6offsetSrc + IPv6len

/-- `RoutineReadFromTUN` on a packet that was read: the peer whose nonce queue takes it, if
any. -/
def readFromTUN {P : Type} (c : QueueConstants) (e : Endian) (allowedips : AllowedIPs P)
    (isRunning : P → Bool) (packet : Bytes) : Option (Option P) :=
  if packet.length = 0 ∨ packet.length > c.MaxContentSize then some none
  else
    let version := packet.head?.map fun first => first >>> (4 : UInt8)
    let peer :=
      if version = some ipv4Version then
        if packet.length < ipv4HeaderLen then some none
        else allowedips.LookupIPv4 e (headerField packet IPv4offsetDst IPv4len)
      else if version = some ipv6Version then
        if packet.length < ipv6HeaderLen then some none
        else allowedips.LookupIPv6 e (headerField packet IPv6offsetDst IPv6len)
      else some none
    peer.map (Option.filter isRunning)

/-- "pad content to multiple of 16", for any MTU the device holds: the remainder has the
sign of the packet's length, and zero is "integer divide by zero". -/
def padPacket (mtu : Int) (packet : Bytes) : Option Bytes :=
  if mtu = 0 then none
  else
    let lastUnit := (packet.length : Int).tmod mtu
    let sum := lastUnit + PaddingMultiple - 1
    let paddedSize := sum - sum % PaddingMultiple
    let paddedSize := if paddedSize > mtu then mtu else paddedSize
    some (packet ++ List.replicate (paddedSize - packet.length).toNat 0)

/-- `RoutineEncryption` on one element. -/
def routineEncryption (aead : Aead) (mtu : Int) (keypair : SendKeypair) (nonce : Nat)
    (packet : Bytes) : Option Bytes :=
  (padPacket mtu packet).map fun content =>
    transportHeader keypair.remoteIndex nonce ++
      aead.Seal keypair.send (List.replicate 4 0 ++ writeLE 8 nonce) content

/-! ### Lengths -/

theorem int32_int32 (x : Int) : int32 (int32 x) = int32 x := Int.bmod_bmod

theorem storedMtu_eq (first : Report) (events : List Report) :
    storedMtu first events = int32 (lastMtu first events) := by
  have hfirst : newMtu first = int32 (first.getD DefaultMTU) := by cases first <;> rfl
  rw [storedMtu, lastMtu, hfirst]
  generalize first.getD DefaultMTU = last
  induction events generalizing last with
  | nil => rfl
  | cons report events ih =>
    have hstep : updateMtu (int32 last) report = int32 (report.getD last) := by
      cases report with
      | none => rfl
      | some mtu =>
        rw [updateMtu, Option.getD_some]
        split
        · rfl
        · rename_i heq
          rw [← Decidable.not_not.mp heq, int32_int32]
    rw [List.foldl_cons, List.foldl_cons, hstep, ih]

/-- The smallest multiple of 16 that is not below. -/
def roundUp (n : Nat) : Nat := (n + 15) / 16 * 16

theorem length_padContent (mtu : Nat) (packet : Bytes) : (padContent mtu packet).length =
    max packet.length (min mtu (roundUp (packet.length % mtu))) := by
  have hmask (x : Nat) : x &&& 15 = x % 16 := Nat.and_two_pow_sub_one_eq_mod x 4
  simp only [padContent, List.length_append, List.length_replicate, PaddingMultiple, roundUp, hmask]
  split <;> omega

theorem padPacket_pos {mtu : Nat} (hmtu : 0 < mtu) (packet : Bytes) :
    padPacket mtu packet = some (padContent mtu packet) := by
  have hmask (x : Nat) : x &&& 15 = x % 16 := Nat.and_two_pow_sub_one_eq_mod x 4
  have hunit : (packet.length : Int).tmod mtu = (packet.length % mtu : Nat) := rfl
  unfold padPacket padContent PaddingMultiple
  rw [if_neg (by omega), hunit]
  simp only [hmask]
  generalize packet.length % mtu = lastUnit
  congr 3
  split <;> split <;> omega

theorem padPacket_neg {mtu : Int} (hmtu : mtu < 0) (packet : Bytes) :
    padPacket mtu packet = some packet := by
  have hunit : 0 ≤ (packet.length : Int).tmod mtu := Int.tmod_nonneg _ (Int.natCast_nonneg _)
  unfold padPacket PaddingMultiple
  rw [if_neg (by omega)]
  generalize (packet.length : Int).tmod mtu = lastUnit at hunit
  dsimp only
  rw [if_pos (by omega), Int.toNat_of_nonpos (by omega), List.replicate_zero, List.append_nil]

/-! ### Messages -/

section

variable {P : Type} {c : QueueConstants} {e : Endian} {allowedips : AllowedIPs P}
  {isRunning : P → Bool} {peer : P} {packet : Bytes} {aead : Aead}

theorem length_readFromTUN (h : readFromTUN c e allowedips isRunning packet = some (some peer)) :
    0 < packet.length ∧ packet.length ≤ c.MaxContentSize := by
  unfold readFromTUN at h
  split at h
  · cases h
  · omega

theorem length_routineEncryption (haead : aead.Lawful) {mtu : Int} {content : Bytes}
    (hpad : padPacket mtu packet = some content) (keypair : SendKeypair) (nonce : Nat) :
    ∃ message, routineEncryption aead mtu keypair nonce packet = some message ∧
      message.length = MessageTransportSize + content.length := by
  rw [routineEncryption, hpad]
  refine ⟨_, rfl, ?_⟩
  rw [List.length_append, length_transportHeader, haead.length_seal, MessageTransportSize]
  omega

/-- The content grows beyond the largest one only if the MTU allows it and the next multiple
of 16 is beyond it. -/
theorem length_padContent_le_iff {mtu size : Nat} (hpacket : packet.length ≤ size) :
    (padContent mtu packet).length ≤ size ↔ mtu ≤ size ∨ packet.length ≤ size / 16 * 16 := by
  rw [length_padContent]
  by_cases hmtu : mtu ≤ size
  · omega
  · rw [Nat.mod_eq_of_lt (by omega), roundUp]
    omega

/-- A packet from the TUN device becomes a message that fits, unless the MTU is zero or it
is beyond the largest content and the packet is too near to that. -/
theorem message_fits_iff (haead : aead.Lawful) (first : Report) (events : List Report)
    (haccepted : readFromTUN c e allowedips isRunning packet = some (some peer))
    (keypair : SendKeypair) (nonce : Nat) :
    (∃ message, routineEncryption aead (storedMtu first events) keypair nonce packet =
        some message ∧ message.length ≤ c.MaxMessageSize) ↔
      int32 (lastMtu first events) ≠ 0 ∧
        (int32 (lastMtu first events) ≤ c.MaxContentSize ∨
          packet.length ≤ c.MaxContentSize / 16 * 16) := by
  obtain ⟨hpos, hlen⟩ := length_readFromTUN haccepted
  have hmax : MessageTransportSize + c.MaxContentSize = c.MaxMessageSize := by
    unfold QueueConstants.MaxContentSize at hlen ⊢
    unfold QueueConstants.MaxMessageSize
    omega
  have hfits {mtu : Int} {content : Bytes} (hpad : padPacket mtu packet = some content) :
      (∃ message, routineEncryption aead mtu keypair nonce packet = some message ∧
        message.length ≤ c.MaxMessageSize) ↔ content.length ≤ c.MaxContentSize := by
    obtain ⟨message, hmessage, hlength⟩ := length_routineEncryption haead hpad keypair nonce
    rw [hmessage]
    simp only [Option.some.injEq, exists_eq_left']
    omega
  rw [storedMtu_eq]
  generalize int32 (lastMtu first events) = mtu
  rcases Int.lt_trichotomy mtu 0 with hneg | rfl | hmtu
  · rw [hfits (padPacket_neg hneg packet)]
    omega
  · simp [routineEncryption, padPacket]
  · obtain ⟨mtu, rfl⟩ := Int.eq_ofNat_of_zero_le (Int.le_of_lt hmtu)
    rw [hfits (padPacket_pos (by omega) packet), length_padContent_le_iff hlen]
    omega

end

theorem default_mtu_fits : ∃ message,
    routineEncryption plainAead (storedMtu none [some 1500, none]) laptopKeypair 7
      (ipv4Packet [1, 2]) = some message ∧ message.length ≤ androidConstants.MaxMessageSize := by
  have haccepted : readFromTUN androidConstants .little server.allowedips server.isRunning
      (ipv4Packet [1, 2]) = some (some 3) := by decide +kernel
  exact (message_fits_iff plainAead_lawful none [some 1500, none] haccepted
    laptopKeypair 7).mpr (by decide)

/-- As long as the TUN reader takes them on Android. -/
def longestPacket : Bytes := ipv4Packet (List.replicate 2148 0)

/-- Eight bytes of padding are too many, and an MTU of zero stops the worker. -/
theorem message_beyond_buffer :
    readFromTUN androidConstants .little server.allowedips server.isRunning longestPacket =
      some (some 3) ∧
      (∃ message,
        routineEncryption plainAead (storedMtu (some 2200) []) laptopKeypair 7 longestPacket =
        some message ∧ message.length = androidConstants.MaxMessageSize + 8) ∧
      routineEncryption plainAead (storedMtu (some 0) []) laptopKeypair 7 longestPacket = none := by
  have hmtu : storedMtu (some 2200) [] = (2200 : Nat) := by decide
  have hlen : longestPacket.length = 2168 := by decide +kernel
  refine ⟨by decide +kernel, ?_, by rfl⟩
  obtain ⟨message, hmessage, hlength⟩ :=
    length_routineEncryption plainAead_lawful
      (padPacket_pos (by decide : 0 < 2200) longestPacket) laptopKeypair 7
  refine ⟨message, hmtu ▸ hmessage, ?_⟩
  rw [hlength, length_padContent, hlen]
  decide

end Sewg.Go
