import Sewg.Go.Agreement
import Sewg.Kernel.Sessions

/-! A kernel device begins a handshake with a Go device. -/

namespace Sewg.Kernel
open CString Noise

/-- The message as the other implementation has it. -/
def MessageInitiation.wire (m : MessageInitiation) : Go.MessageInitiation :=
  ⟨Go.MessageInitiationType, m.senderIndex, m.unencryptedEphemeral, m.encryptedStatic,
    m.encryptedTimestamp⟩

section
variable {p : Primitives}

/-- The handshake from which Go's `CreateMessageInitiation` would write the same message. -/
def Handshake.begun (p : Primitives) (h : Handshake) (secret : Bytes) (index : UInt32) :
    Go.Handshake :=
  { Go.newHandshake h.remoteStatic with
    hash := Go.initialHash p
    chainKey := Go.initialChainKey p
    localEphemeral := secret
    localIndex := index
    precomputedStaticStatic := h.precomputedStaticStatic }

theorem curve25519_eq_some {secret point result : Bytes}
    (h : curve25519 p secret point = some result) : result = p.dh secret point := by
  unfold curve25519 at h
  split at h
  · cases h
  · exact (Option.some.inj h).symm

theorem generatePublic_eq_some {secret result : Bytes}
    (h : curve25519GeneratePublic p secret = some result) : result = Go.publicKey p secret := by
  unfold curve25519GeneratePublic at h
  split at h
  · cases h
  · exact curve25519_eq_some h

variable {identity : StaticIdentity} {h h' : Handshake} {secret timestamp : Bytes} {index : UInt32}
  {m : MessageInitiation}

/-- What the kernel sends and keeps is what Go writes. -/
theorem createInitiation_writes
    (created : wgNoiseHandshakeCreateInitiation p identity h secret timestamp index =
      (h', some m)) :
    let w := Go.writeInitiation p (h.begun p secret index) identity.staticPublic timestamp
    m.wire = w.2 ∧ h'.hash = w.1.hash ∧ h'.chainingKey = w.1.chainKey := by
  cases known : identity.hasIdentity with
  | false => simp [wgNoiseHandshakeCreateInitiation, known] at created
  | true =>
    cases ephemeral : curve25519GeneratePublic p secret with
    | none => simp [wgNoiseHandshakeCreateInitiation, known, ephemeral] at created
    | some point =>
      cases shared : curve25519 p secret h.remoteStatic with
      | none => simp [wgNoiseHandshakeCreateInitiation, known, ephemeral, mixDh, shared] at created
      | some dh =>
        simp only [wgNoiseHandshakeCreateInitiation, known, ephemeral, mixDh, shared, Bool.not_true,
          Bool.false_eq_true, ↓reduceIte, Prod.mk.injEq, Option.some.injEq] at created
        obtain ⟨rfl, rfl⟩ := created
        rw [generatePublic_eq_some ephemeral, curve25519_eq_some shared]
        exact ⟨rfl, rfl, rfl⟩

/-- A Go device takes the initiation of a kernel device that it has as peer, and both go on
from one hash and one chaining key. -/
theorem initiation_taken_by_go (lawful : Go.Lawful p)
    (created : wgNoiseHandshakeCreateInitiation p identity h secret timestamp index = (h', some m))
    (B : Go.Device) (b : Nat) (sA sB psk : Bytes) (own : identity.staticPublic = Go.publicKey p sA)
    (remote : h.remoteStatic = Go.publicKey p sB)
    (static : h.precomputedStaticStatic = p.dh sA (Go.publicKey p sB))
    (paired : Go.Paired p B b sB (Go.publicKey p sA) psk)
    (nonzero : ¬Null (p.dh sA (Go.publicKey p sB))) (now later : Int)
    (newer : Go.After timestamp (B.peers b).handshake.lastTimestamp)
    (rate : now - (B.peers b).handshake.lastInitiationConsumption > Go.HandshakeInitationRate)
    (call : Go.TeeCall) (tee : Go.teeCurveMul call = p.dh sB (Go.publicKey p secret)) :
    ∃ B', Go.consumeMessageInitiation p B m.wire call now later = (some b, B') ∧
      (B'.peers b).handshake.state = .initiationConsumed ∧
      (B'.peers b).handshake.hash = h'.hash ∧ (B'.peers b).handshake.chainKey = h'.chainingKey ∧
      (B'.peers b).handshake.remoteIndex = index := by
  obtain ⟨sent, hash, chainingKey⟩ := createInitiation_writes created
  obtain ⟨sym, opened, fresh⟩ := Go.initiation_agrees lawful (h := h.begun p secret index) rfl rfl
    remote identity.staticPublic timestamp
  have secretB : (B.peers b).handshake.precomputedStaticStatic = h.precomputedStaticStatic := by
    rw [paired.secret, static, lawful.dh_comm sB sA]
  have nonzeroB : ¬Null (B.peers b).handshake.precomputedStaticStatic := by rwa [secretB, static]
  have read := fresh (B.peers b).handshake now secretB nonzeroB newer rate
  change Go.openStatic p _ (p.dh sB (Go.publicKey p secret)) _ = _ at opened
  rw [← tee, ← paired.identity] at opened
  obtain ⟨B', consumed, handshake, _⟩ :=
    Go.consumeMessageInitiation_accepts rfl opened (own ▸ paired.known) read later
  refine ⟨B', sent ▸ consumed, ?_⟩
  rw [handshake, hash, chainingKey]
  exact ⟨rfl, rfl, rfl, rfl⟩

end

def firstInitiation : Handshake × Option MessageInitiation :=
  wgNoiseHandshakeCreateInitiation plain ⟨true, List.replicate 32 1, 1⟩
    ⟨.zeroed, 0, [], List.replicate 32 2, [], List.replicate 32 3, [], [], [], [], 0, 0⟩
    (List.replicate 32 4) (List.replicate 12 1) 7

theorem first_initiation_taken :
    ∃ h m, firstInitiation = (h, some m) ∧
      ∃ B, Go.consumeMessageInitiation plain (Go.pairedDevice 2 1 3) m.wire
          (Go.answering fun _ => 6) 0 0 = (some 0, B) ∧ (B.peers 0).handshake.hash = h.hash := by
  refine ⟨_, _, rfl, ?_⟩
  obtain ⟨B, taken, -, hash, -⟩ :=
    initiation_taken_by_go Go.plain_lawful (show firstInitiation = _ from rfl)
    (Go.pairedDevice 2 1 3) 0 (List.replicate 32 1) (List.replicate 32 2) Go.zeroKey rfl rfl rfl
    ⟨by decide, by decide, by decide, by decide, rfl⟩ (by decide) 0 0 (by decide) (by decide)
    (Go.answering fun _ => 6) (by decide)
  exact ⟨B, taken, hash⟩

end Sewg.Kernel
