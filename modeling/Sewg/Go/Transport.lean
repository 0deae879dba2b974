import Sewg.Go.Receive
import Sewg.Go.ReplayFilter
import Sewg.Go.Workers

/-! The data path: from a packet in the nonce queue to a datagram, and from a datagram to
a packet for the TUN device. Each packet goes through the routines one after the other;
their queues have room for it. -/

namespace Sewg.Go

open CString (Bytes)
open Words

/-- `cipher.AEAD`, by the key that is in it. The arguments are the key, the nonce and the
text; there is no additional data. -/
structure Aead where
  Seal : Bytes → Bytes → Bytes → Bytes
  Open : Bytes → Bytes → Bytes → Option Bytes

def RejectAfterMessages : Nat := 2 ^ 64 - 2 ^ 4 - 1

/-- Nanoseconds. -/
def RejectAfterTime : Int := 180 * 1000000000

def PaddingMultiple : Nat := 16
def MessageTransportType : Nat := 4
def TagSize : Nat := 16
def MessageTransportHeaderSize : Nat := 16
def MessageTransportSize : Nat := MessageTransportHeaderSize + TagSize
def MessageTransportOffsetReceiver : Nat := 4
def MessageTransportOffsetCounter : Nat := 8
def MessageTransportOffsetContent : Nat := 16
def MinMessageSize : Nat := MessageTransportSize
def MaxSegmentSize : Nat := 2 ^ 16 - 1
def MaxMessageSize : Nat := MaxSegmentSize
def MaxContentSize : Nat := MaxSegmentSize - MessageTransportSize

/-! ### Sending -/

/-- A keypair with what sending changes and looks at. -/
structure SendKeypair extends Keypair where
  sendNonce : Nat
  created : Int

/-- The middle of `RoutineNonce`: the keypair is used if it is valid, and counts on. Without
a valid keypair the packet waits, and nothing is sent. -/
def SendKeypair.takeNonce (keypair : SendKeypair) (now : Int) : Option (Nat × SendKeypair) :=
  if keypair.sendNonce < RejectAfterMessages ∧ now - keypair.created < RejectAfterTime then
    let nonce := keypair.sendNonce
    let keypair := { keypair with sendNonce := (keypair.sendNonce + 1) % 2 ^ 64 }
    if nonce ≥ RejectAfterMessages then none else some (nonce, keypair)
  else none

/-- "pad content to multiple of 16". The mask `^15` leaves what `& 15` takes away. -/
def padContent (mtu : Nat) (packet : Bytes) : Bytes :=
  let lastUnit := packet.length % mtu
  let sum := lastUnit + PaddingMultiple - 1
  let paddedSize := sum - (sum &&& (PaddingMultiple - 1))
  let paddedSize := if paddedSize > mtu then mtu else paddedSize
  packet ++ List.replicate (paddedSize - packet.length) 0

def transportHeader (receiver : UInt32) (nonce : Nat) : Bytes :=
  writeLE 4 MessageTransportType ++ writeLE 4 receiver.toNat ++ writeLE 8 nonce

/-- What `RoutineEncryption` makes of a packet, and the sender sends. -/
def encrypt (aead : Aead) (mtu : Nat) (keypair : SendKeypair) (nonce : Nat)
    (packet : Bytes) : Bytes :=
  transportHeader keypair.remoteIndex nonce ++
    aead.Seal keypair.send (List.replicate 4 0 ++ writeLE 8 nonce) (padContent mtu packet)

/-- A packet to be sent, with the time and the MTU at that moment. -/
structure Outgoing where
  now : Int
  mtu : Nat
  packet : Bytes

/-- The datagrams for packets that are sent in order. -/
def sendAll (aead : Aead) (keypair : SendKeypair) : List Outgoing → Option (List Bytes)
  | [] => some []
  | out :: rest => do
    let (nonce, next) ← keypair.takeNonce out.now
    return encrypt aead out.mtu next nonce out.packet :: (← sendAll aead next rest)

/-! ### Receiving -/

/-- A device that receives. Replay filters and times of creation belong to the objects
that keypairs are; here they go by the peer and the object's number. -/
structure Receiver (w : Nat) where
  device : Device
  isRunning : Nat → Bool
  created : Nat → Nat → Int
  replayFilter : Nat → Nat → ReplayFilter w
  allowedips : AllowedIPs Nat

variable {w : Nat}

/-- `RoutineReceiveIncoming` on a datagram that was read into `buffer`: the peer and the
keypair of a transport message. Other messages are not for the data path. -/
def Receiver.receiveIncoming (r : Receiver w) (now : Int) (buffer : Slice) :
    Option (Nat × Keypair) :=
  let packet := buffer.bytes
  if packet.length < MinMessageSize then none
  else if readLE (packet.take 4) = MessageTransportType then
    if packet.length < MessageTransportSize then none
    else
      let receiver := UInt32.ofNat (readLE (headerField packet MessageTransportOffsetReceiver 4))
      match r.device.indexTable receiver with
      | some ⟨peer, some keypair⟩ =>
        if r.created peer keypair.ptr + RejectAfterTime < now then none
        else if r.isRunning peer then some (peer, keypair) else none
      | _ => none
  else none

/-- `RoutineDecryption`: the counter, and the content decrypted in its place. -/
def decrypt (aead : Aead) (keypair : Keypair) (buffer : Slice) : Option (Nat × Slice) :=
  let packet := buffer.bytes
  let counter := headerField packet MessageTransportOffsetCounter 8
  let content := packet.drop MessageTransportOffsetContent
  match aead.Open keypair.receive (List.replicate 4 0 ++ counter) content with
  | none => none
  | some plaintext =>
    let mem := plaintext ++ buffer.mem.drop (MessageTransportOffsetContent + plaintext.length)
    some (readLE counter, ⟨mem, plaintext.length, by simp [mem]⟩)

/-- The rest of `RoutineSequentialReceiver` for a decrypted message: what is written to
the TUN device, if anything. -/
def Receiver.sequential (r : Receiver w) (e : Endian) (peer : Nat) (keypair : Keypair)
    (counter : Nat) (packet : Slice) : Option (Receiver w × Option Bytes) :=
  let (ok, filter) := (r.replayFilter peer keypair.ptr).ValidateCounter counter RejectAfterMessages
  let filters := Function.update (r.replayFilter peer) keypair.ptr filter
  let r := { r with replayFilter := Function.update r.replayFilter peer filters }
  if ok then do
    let r := { r with device := r.device.receivedWithKeypair peer keypair }
    let out ← receivePacket e r.allowedips peer packet
    return (r, out.map Slice.bytes)
  else some (r, none)

/-- A datagram as it comes in: at some time, into a buffer with old content. A longer one
is cut off. -/
structure Arrival where
  now : Int
  buffer : Bytes
  datagram : Bytes

def Arrival.read (a : Arrival) : Slice :=
  let size := min a.datagram.length a.buffer.length
  ⟨a.datagram.take size ++ a.buffer.drop size, size, by
    rw [List.length_append, List.length_take, List.length_drop]; omega⟩

/-- One datagram. -/
def Receiver.receive (r : Receiver w) (aead : Aead) (e : Endian) (a : Arrival) :
    Option (Receiver w × Option Bytes) :=
  match r.receiveIncoming a.now a.read with
  | none => some (r, none)
  | some (peer, keypair) =>
    match decrypt aead keypair a.read with
    | none => some (r, none)
    | some (counter, packet) => r.sequential e peer keypair counter packet

/-- Datagrams in the order of their arrival, and what is written for them. -/
def Receiver.receiveAll (r : Receiver w) (aead : Aead) (e : Endian) :
    List Arrival → Option (Receiver w × List Bytes)
  | [] => some (r, [])
  | a :: rest => do
    let (r, out) ← r.receive aead e a
    let (r, written) ← r.receiveAll aead e rest
    return (r, out.toList ++ written)

end Sewg.Go
