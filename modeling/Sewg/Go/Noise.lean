import Sewg.Lib.Noise

/-! `noise-helpers.go` and `noise-protocol.go`: the handshake of one peer, cut
into the sections in which its lock is held. -/

namespace Sewg.Go
open CString Noise

def NoiseConstruction : Bytes := label "Noise_IKpsk2_25519_ChaChaPoly_BLAKE2s"
def WGIdentifier : Bytes := label "WireGuard v1 zx2c4 Jason@zx2c4.com"

def MessageInitiationType : UInt32 := 1
def MessageResponseType : UInt32 := 2

/-- Nanoseconds. -/
def HandshakeInitationRate : Int := 1000000000 / 20

inductive HandshakeState
  | zeroed
  | initiationCreated
  | initiationConsumed
  | responseCreated
  | responseConsumed
  deriving DecidableEq

structure Handshake where
  state : HandshakeState
  hash : Bytes
  chainKey : Bytes
  presharedKey : Bytes
  localEphemeral : Bytes
  localIndex : UInt32
  remoteIndex : UInt32
  remoteStatic : Bytes
  remoteEphemeral : Bytes
  precomputedStaticStatic : Bytes
  lastTimestamp : Bytes
  lastInitiationConsumption : Int
  deriving DecidableEq

structure MessageInitiation where
  type : UInt32
  sender : UInt32
  ephemeral : Bytes
  static : Bytes
  timestamp : Bytes
  deriving DecidableEq

structure MessageResponse where
  type : UInt32
  sender : UInt32
  receiver : UInt32
  ephemeral : Bytes
  empty : Bytes
  deriving DecidableEq

/-- What `rand.Read` fills in, and its error. -/
structure Rand where
  bytes : Bytes
  err : Option String

def newPrivateKey (r : Rand) : Bytes :=
  (r.bytes.modify 0 (· &&& 248)).modify 31 fun b => b &&& 127 ||| 64

/-- `Timestamp.After`: `bytes.Compare` is the order of byte strings. -/
def After (t₁ t₂ : Bytes) : Prop := t₂ < t₁

instance (t₁ t₂ : Bytes) : Decidable (After t₁ t₂) := inferInstanceAs (Decidable (t₂ < t₁))

section
variable (p : Primitives)

def kdf1 (key input : Bytes) : Bytes := p.hmac (p.hmac key input) [1]

def kdf2 (key input : Bytes) : Bytes × Bytes :=
  let prk := p.hmac key input
  let t0 := p.hmac prk [1]
  let t1 := p.hmac prk (t0 ++ [2])
  (t0, t1)

def kdf3 (key input : Bytes) : Bytes × Bytes × Bytes :=
  let prk := p.hmac key input
  let t0 := p.hmac prk [1]
  let t1 := p.hmac prk (t0 ++ [2])
  let t2 := p.hmac prk (t1 ++ [3])
  (t0, t1, t2)

def mixKey (c data : Bytes) : Bytes := kdf1 p c data
def mixHash (h data : Bytes) : Bytes := p.hash (h ++ data)

def publicKey (sk : Bytes) : Bytes := p.dh sk p.base

def initialChainKey : Bytes := p.hash NoiseConstruction
def initialHash : Bytes := mixHash p (initialChainKey p) WGIdentifier

def Handshake.mixHash (h : Handshake) (data : Bytes) : Handshake :=
  { h with hash := Go.mixHash p h.hash data }

def Handshake.mixKey (h : Handshake) (data : Bytes) : Handshake :=
  { h with chainKey := Go.mixKey p h.chainKey data }

/-! ## The initiator's first message -/

/-- `CreateMessageInitiation` up to the new index. -/
def Handshake.restart (h : Handshake) (r : Rand) : Handshake :=
  { h with
    hash := initialHash p
    chainKey := initialChainKey p
    localEphemeral := newPrivateKey r }

/-- `CreateMessageInitiation` from the new index on. -/
def writeInitiation (h : Handshake) (static timestamp : Bytes) : Handshake × MessageInitiation :=
  let h := h.mixHash p h.remoteStatic
  let ephemeral := publicKey p h.localEphemeral
  let h := h.mixKey p ephemeral
  let h := h.mixHash p ephemeral
  let ss := p.dh h.localEphemeral h.remoteStatic
  let (chainKey, key) := kdf2 p h.chainKey ss
  let h := { h with chainKey }
  let msgStatic := p.aeadSeal key static h.hash
  let h := h.mixHash p msgStatic
  let (chainKey, key) := kdf2 p h.chainKey h.precomputedStaticStatic
  let h := { h with chainKey }
  let msgTimestamp := p.aeadSeal key timestamp h.hash
  let h := h.mixHash p msgTimestamp
  ({ h with state := .initiationCreated },
    ⟨MessageInitiationType, h.localIndex, ephemeral, msgStatic, msgTimestamp⟩)

/-! ## The responder takes it -/

/-- Hash and chaining key while a message is looked at. -/
structure Symmetric where
  hash : Bytes
  chainKey : Bytes
  deriving DecidableEq

/-- `ConsumeMessageInitiation` up to the peer lookup: who sent it. `ss` is what
`sharedSecret` returned for the ephemeral key. -/
def openStatic (static ss : Bytes) (msg : MessageInitiation) : Option (Bytes × Symmetric) :=
  let hash := mixHash p (initialHash p) static
  let hash := mixHash p hash msg.ephemeral
  let chainKey := mixKey p (initialChainKey p) msg.ephemeral
  let (chainKey, key) := kdf2 p chainKey ss
  (p.aeadOpen key msg.static hash).map fun peerPK => (peerPK, ⟨mixHash p hash msg.static, chainKey⟩)

/-- The section of `ConsumeMessageInitiation` under the read lock: the timestamp,
if it is fresh. -/
def readInitiation (h : Handshake) (msg : MessageInitiation) (sym : Symmetric) (now : Int) :
    Option (Bytes × Symmetric) :=
  if Null h.precomputedStaticStatic then none
  else
    let (chainKey, key) := kdf2 p sym.chainKey h.precomputedStaticStatic
    match p.aeadOpen key msg.timestamp sym.hash with
    | none => none
    | some timestamp =>
      if After timestamp h.lastTimestamp ∧
          now - h.lastInitiationConsumption > HandshakeInitationRate then
        some (timestamp, ⟨mixHash p sym.hash msg.timestamp, chainKey⟩)
      else none

/-- The section of `ConsumeMessageInitiation` under the write lock. -/
def writeConsumedInitiation (h : Handshake) (msg : MessageInitiation) (timestamp : Bytes)
    (sym : Symmetric) (now : Int) : Handshake :=
  { h with
    hash := sym.hash
    chainKey := sym.chainKey
    remoteIndex := msg.sender
    remoteEphemeral := msg.ephemeral
    lastTimestamp := timestamp
    lastInitiationConsumption := now
    state := .initiationConsumed }

/-! ## The response -/

/-- `CreateMessageResponse` from the new ephemeral key on. -/
def writeResponse (h : Handshake) : Handshake × MessageResponse :=
  let ephemeral := publicKey p h.localEphemeral
  let h := h.mixHash p ephemeral
  let h := h.mixKey p ephemeral
  let h := h.mixKey p (p.dh h.localEphemeral h.remoteEphemeral)
  let h := h.mixKey p (p.dh h.localEphemeral h.remoteStatic)
  let (chainKey, tau, key) := kdf3 p h.chainKey h.presharedKey
  let h := { h with chainKey }
  let h := h.mixHash p tau
  let empty := p.aeadSeal key [] h.hash
  let h := h.mixHash p empty
  ({ h with state := .responseCreated },
    ⟨MessageResponseType, h.localIndex, h.remoteIndex, ephemeral, empty⟩)

/-- The section of `ConsumeMessageResponse` under the read lock. -/
def readResponse (h : Handshake) (ss : Bytes) (msg : MessageResponse) : Option Symmetric :=
  if h.state ≠ .initiationCreated then none
  else
    let hash := mixHash p h.hash msg.ephemeral
    let chainKey := mixKey p h.chainKey msg.ephemeral
    let chainKey := mixKey p chainKey (p.dh h.localEphemeral msg.ephemeral)
    let chainKey := mixKey p chainKey ss
    let (chainKey, tau, key) := kdf3 p chainKey h.presharedKey
    let hash := mixHash p hash tau
    (p.aeadOpen key msg.empty hash).map fun _ => ⟨mixHash p hash msg.empty, chainKey⟩

/-- The section of `ConsumeMessageResponse` under the write lock. It does not
look at the state again. -/
def writeConsumedResponse (h : Handshake) (msg : MessageResponse) (sym : Symmetric) : Handshake :=
  { h with
    hash := sym.hash
    chainKey := sym.chainKey
    remoteIndex := msg.sender
    state := .responseConsumed }

/-! ## The session -/

/-- The keys of `BeginSymmetricSession`: send, receive, and whether this side
began the handshake. -/
def sessionKeys (h : Handshake) : Option (Bytes × Bytes × Bool) :=
  match h.state with
  | .responseConsumed =>
    let (sendKey, recvKey) := kdf2 p h.chainKey []
    some (sendKey, recvKey, true)
  | .responseCreated =>
    let (recvKey, sendKey) := kdf2 p h.chainKey []
    some (sendKey, recvKey, false)
  | _ => none

/-- A key overwritten with zeros. -/
def setZero (b : Bytes) : Bytes := List.replicate b.length 0

/-- `BeginSymmetricSession` zeroes the handshake. -/
def Handshake.finish (h : Handshake) : Handshake :=
  { h with
    chainKey := setZero h.chainKey
    hash := setZero h.hash
    localEphemeral := setZero h.localEphemeral
    state := .zeroed
    localIndex := 0 }

/-- `Handshake.Clear`. -/
def Handshake.clear (h : Handshake) : Handshake :=
  { h with
    localEphemeral := setZero h.localEphemeral
    remoteEphemeral := setZero h.remoteEphemeral
    chainKey := setZero h.chainKey
    hash := setZero h.hash
    localIndex := 0
    state := .zeroed }

end

end Sewg.Go
