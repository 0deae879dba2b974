import Mathlib.Logic.Function.Basic
import Sewg.Go.Noise
import Sewg.Go.Wgtee

/-! The Go device: its identity, its peers, the index table, and the handshake
functions of `noise-protocol.go` put together from their sections. -/

namespace Sewg.Go
open CString Noise

/-- `ptr` tells the objects of one peer apart: they are numbered as they are made. -/
structure Keypair where
  ptr : Nat
  send : Bytes
  receive : Bytes
  isInitiator : Bool
  localIndex : UInt32
  remoteIndex : UInt32
  deriving DecidableEq

structure Keypairs where
  current : Option Keypair := none
  previous : Option Keypair := none
  next : Option Keypair := none
  deriving DecidableEq

/-- Without a keypair it is the entry of the peer's handshake. -/
structure IndexTableEntry where
  peer : Nat
  keypair : Option Keypair
  deriving DecidableEq

abbrev IndexTable := UInt32 → Option IndexTableEntry

/-- `sessions` has every keypair made so far, latest first. The code does not
keep it. -/
structure Peer where
  handshake : Handshake
  keypairs : Keypairs := {}
  sessions : List Keypair := []
  deriving DecidableEq

/-- Peers are objects that `keyMap` and the index table refer to. `asked` has
every call of the trusted app, latest first; the code does not keep it. -/
structure Device where
  isClosed : Bool
  privateKey : RootPrivateKey
  publicKey : Bytes
  peers : Nat → Peer
  nextPeer : Nat
  keyMap : List (Bytes × Nat)
  indexTable : IndexTable
  asked : List Asked

def NoisePublicKeySize : Nat := 32

def zeroKey : Bytes := List.replicate NoisePublicKeySize 0

/-- The zero `time.Time` lies long before anything that is compared with it. -/
def newHandshake (pk : Bytes) : Handshake where
  state := .zeroed
  hash := zeroKey
  chainKey := zeroKey
  presharedKey := zeroKey
  localEphemeral := zeroKey
  localIndex := 0
  remoteIndex := 0
  remoteStatic := pk
  remoteEphemeral := zeroKey
  precomputedStaticStatic := zeroKey
  lastTimestamp := List.replicate 12 0
  lastInitiationConsumption := -62135596800000000000

def newDevice : Device where
  isClosed := false
  privateKey := 0
  publicKey := zeroKey
  peers _ := { handshake := newHandshake zeroKey }
  nextPeer := 0
  keyMap := []
  indexTable _ := none
  asked := []

/-! ## The index table -/

def IndexTable.delete (table : IndexTable) (index : UInt32) : IndexTable :=
  Function.update table index none

def IndexTable.swapIndexForKeypair (table : IndexTable) (index : UInt32) (keypair : Keypair) :
    IndexTable :=
  match table index with
  | none => table
  | some entry => Function.update table index (some ⟨entry.peer, some keypair⟩)

/-- `draws` are the values of `randUint32` with their errors. `none` while all
of them were in use. -/
def IndexTable.newIndexForHandshake (table : IndexTable) (peer : Nat) :
    List (UInt32 × Option String) → Option (UInt32 × Option String × IndexTable)
  | [] => none
  | (index, some err) :: _ => some (index, some err, table)
  | (index, none) :: draws =>
    if (table index).isSome then newIndexForHandshake table peer draws
    else some (index, none, Function.update table index (some ⟨peer, none⟩))

def IndexTable.deleteKeypair (table : IndexTable) : Option Keypair → IndexTable
  | none => table
  | some keypair => table.delete keypair.localIndex

section
variable (p : Primitives)

/-! ## The sections that create something, with the index table -/

/-- `CreateMessageInitiation`, all under the write lock. -/
def createInitiation (peer : Nat) (static : Bytes) (h : Handshake) (table : IndexTable) (r : Rand)
    (draws : List (UInt32 × Option String)) (timestamp : Bytes) :
    Option (Except String MessageInitiation × Handshake × IndexTable) :=
  if Null h.precomputedStaticStatic then some (.error "static shared secret is zero", h, table)
  else
    let h := h.restart p r
    match r.err with
    | some err => some (.error err, h, table)
    | none =>
      match (table.delete h.localIndex).newIndexForHandshake peer draws with
      | none => none
      | some (index, some err, table) => some (.error err, { h with localIndex := index }, table)
      | some (index, none, table) =>
        let (h, msg) := writeInitiation p { h with localIndex := index } static timestamp
        some (.ok msg, h, table)

/-- `CreateMessageResponse`, all under the write lock. -/
def createResponse (peer : Nat) (h : Handshake) (table : IndexTable) (r : Rand)
    (draws : List (UInt32 × Option String)) :
    Option (Except String MessageResponse × Handshake × IndexTable) :=
  if h.state ≠ .initiationConsumed then
    some (.error "handshake initiation must be consumed first", h, table)
  else
    match (table.delete h.localIndex).newIndexForHandshake peer draws with
    | none => none
    | some (index, some err, table) => some (.error err, { h with localIndex := index }, table)
    | some (index, none, table) =>
      let h := { h with localIndex := index, localEphemeral := newPrivateKey r }
      match r.err with
      | some err => some (.error err, h, table)
      | none =>
        let (h, msg) := writeResponse p h
        some (.ok msg, h, table)

/-- The rotation at the end of `BeginSymmetricSession`. -/
def rotate (keypairs : Keypairs) (keypair : Keypair) (table : IndexTable) : Keypairs × IndexTable :=
  if keypair.isInitiator then
    let (previous, table) :=
      match keypairs.next with
      | some next => (some next, table.deleteKeypair keypairs.current)
      | none => (keypairs.current, table)
    ({ current := some keypair, previous, next := none }, table.deleteKeypair keypairs.previous)
  else
    ({ current := keypairs.current, previous := none, next := some keypair },
      (table.deleteKeypair keypairs.next).deleteKeypair keypairs.previous)

/-- `BeginSymmetricSession`, all under the write lock. -/
def beginSession (peer : Peer) (table : IndexTable) : Except String (Peer × IndexTable) :=
  let h := peer.handshake
  match sessionKeys p h with
  | none => .error "invalid state for keypair derivation"
  | some (send, receive, isInitiator) =>
    let keypair : Keypair :=
      ⟨peer.sessions.length, send, receive, isInitiator, h.localIndex, h.remoteIndex⟩
    let table := table.swapIndexForKeypair h.localIndex keypair
    let (keypairs, table) := rotate peer.keypairs keypair table
    .ok (⟨h.finish, keypairs, keypair :: peer.sessions⟩, table)

/-! ## The functions as they run alone -/

def Device.setHandshake (device : Device) (peer : Nat) (h : Handshake) : Device :=
  { device with
    peers := Function.update device.peers peer { device.peers peer with handshake := h } }

def createMessageInitiation (device : Device) (peer : Nat) (r : Rand)
    (draws : List (UInt32 × Option String)) (timestamp : Bytes) :
    Option (Except String MessageInitiation × Device) :=
  (createInitiation p peer device.publicKey (device.peers peer).handshake device.indexTable r draws
    timestamp).map fun (result, h, table) =>
      (result, { device.setHandshake peer h with indexTable := table })

def consumeMessageInitiation (device : Device) (msg : MessageInitiation) (call : TeeCall)
    (now later : Int) : Option Nat × Device :=
  if msg.type ≠ MessageInitiationType then (none, device)
  else
    let (ss, asked) := rootSharedSecret device.privateKey msg.ephemeral call
    let device := { device with asked := asked :: device.asked }
    match openStatic p device.publicKey ss msg with
    | none => (none, device)
    | some (peerPK, sym) =>
      match device.keyMap.lookup peerPK with
      | none => (none, device)
      | some peer =>
        let h := (device.peers peer).handshake
        match readInitiation p h msg sym now with
        | none => (none, device)
        | some (timestamp, sym) =>
          (some peer, device.setHandshake peer (writeConsumedInitiation h msg timestamp sym later))

def createMessageResponse (device : Device) (peer : Nat) (r : Rand)
    (draws : List (UInt32 × Option String)) : Option (Except String MessageResponse × Device) :=
  (createResponse p peer (device.peers peer).handshake device.indexTable r draws).map
    fun (result, h, table) => (result, { device.setHandshake peer h with indexTable := table })

def consumeMessageResponse (device : Device) (msg : MessageResponse) (call : TeeCall) :
    Option Nat × Device :=
  if msg.type ≠ MessageResponseType then (none, device)
  else match device.indexTable msg.receiver with
  | none => (none, device)
  | some ⟨_, some _⟩ => (none, device)
  | some ⟨peer, none⟩ =>
    let h := (device.peers peer).handshake
    if h.state ≠ .initiationCreated then (none, device)
    else
      let (ss, asked) := rootSharedSecret device.privateKey msg.ephemeral call
      let device := { device with asked := asked :: device.asked }
      match readResponse p h ss msg with
      | none => (none, device)
      | some sym => (some peer, device.setHandshake peer (writeConsumedResponse h msg sym))

def beginSymmetricSession (device : Device) (peer : Nat) : Except String Device :=
  (beginSession p (device.peers peer) device.indexTable).map fun (peer', table) =>
    { device with peers := Function.update device.peers peer peer', indexTable := table }

end

end Sewg.Go
