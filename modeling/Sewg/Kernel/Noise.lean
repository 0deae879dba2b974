import Sewg.Bridge.Core
import Sewg.Lib.Noise

/-! `noise.c`: the two functions that take a handshake message from a peer, and
what they make of the answers of the trusted app. -/

namespace Sewg.Kernel
open CString Bridge Noise

def handshakeName : Bytes := label "Noise_IKpsk2_25519_ChaChaPoly_BLAKE2s"
def identifierName : Bytes := label "WireGuard v1 zx2c4 Jason@zx2c4.com"

def NSEC_PER_SEC : Nat := 1000000000
def INITIATIONS_PER_SECOND : Nat := 50

inductive HandshakeState
  | zeroed
  | createdInitiation
  | consumedInitiation
  | createdResponse
  | consumedResponse
  deriving DecidableEq

structure StaticIdentity where
  hasIdentity : Bool
  staticPublic : Bytes
  staticPrivate : UInt32

structure Handshake where
  state : HandshakeState
  lastInitiationConsumption : Nat
  ephemeralPrivate : Bytes
  remoteStatic : Bytes
  remoteEphemeral : Bytes
  precomputedStaticStatic : Bytes
  presharedKey : Bytes
  hash : Bytes
  chainingKey : Bytes
  latestTimestamp : Bytes
  remoteIndex : UInt32
  /-- What `Core_CurveMul` returned for `precomputedStaticStatic`. The code does
  not keep it. -/
  precomputedRet : UInt32

/-- Peers are numbered. `indexHashtable` has the entries of handshakes only. -/
structure Device where
  staticIdentity : StaticIdentity
  handshake : Nat → Handshake
  peerHashtable : Bytes → Option Nat
  indexHashtable : UInt32 → Option Nat

def Device.setHandshake (wg : Device) (peer : Nat) (h : Handshake) : Device :=
  { wg with handshake := fun i => if i = peer then h else wg.handshake i }

structure MessageInitiation where
  senderIndex : UInt32
  unencryptedEphemeral : Bytes
  encryptedStatic : Bytes
  encryptedTimestamp : Bytes

structure MessageResponse where
  senderIndex : UInt32
  receiverIndex : UInt32
  unencryptedEphemeral : Bytes
  encryptedNothing : Bytes

section
variable (p : Primitives)

def handshakeInitChainingKey : Bytes := p.hash handshakeName
def handshakeInitHash : Bytes := p.hash (handshakeInitChainingKey p ++ identifierName)

/-- The three outputs; a caller takes as many as it has destinations for. -/
def kdf (chainingKey data : Bytes) : Bytes × Bytes × Bytes :=
  let secret := p.hmac chainingKey data
  let first := p.hmac secret [1]
  let second := p.hmac secret (first ++ [2])
  let third := p.hmac secret (second ++ [3])
  (first, second, third)

def curve25519 (secret point : Bytes) : Option Bytes :=
  if Null (p.dh secret point) then none else some (p.dh secret point)

def curve25519GeneratePublic (secret : Bytes) : Option Bytes :=
  if Null secret then none else curve25519 p secret p.base

/-- The new chaining key and the key. -/
def mixDh (chainingKey secret point : Bytes) : Option (Bytes × Bytes) :=
  match curve25519 p secret point with
  | none => none
  | some dhCalculation =>
    let (chainingKey, key, _) := kdf p chainingKey dhCalculation
    some (chainingKey, key)

/-- Beside the result, what `Core_CurveMul` returned. `dhCalculation` is not
initialised. -/
def mixDhTee (g : Globals) (chainingKey dhCalculation : Bytes) (secret : UInt32) (point : Bytes)
    (t : Transport) : UInt32 × Option (Bytes × Bytes) × Globals :=
  let ((ret, dhCalculation), g) := coreCurveMul g dhCalculation point secret.toInt32 t
  if ret = 0 then (ret, none, g)
  else
    let (chainingKey, key, _) := kdf p chainingKey dhCalculation
    (ret, some (chainingKey, key), g)

def mixHash (hash src : Bytes) : Bytes := p.hash (hash ++ src)

/-- Chaining key, hash and key. -/
def mixPsk (chainingKey hash psk : Bytes) : Bytes × Bytes × Bytes :=
  let (chainingKey, tempHash, key) := kdf p chainingKey psk
  (chainingKey, mixHash p hash tempHash, key)

/-- Chaining key and hash. -/
def handshakeInit (remoteStatic : Bytes) : Bytes × Bytes :=
  (handshakeInitChainingKey p, mixHash p (handshakeInitHash p) remoteStatic)

/-- The text, and the hash with the ciphertext mixed in. -/
def messageDecrypt (ciphertext key hash : Bytes) : Option (Bytes × Bytes) :=
  (p.aeadOpen key ciphertext hash).map fun plaintext => (plaintext, mixHash p hash ciphertext)

/-- Chaining key and hash. -/
def messageEphemeral (ephemeral chainingKey hash : Bytes) : Bytes × Bytes :=
  ((kdf p chainingKey ephemeral).1, mixHash p hash ephemeral)

/-- Where a consume function left. -/
inductive Exit
  | noIdentity
  | noHandshake
  | wrongState
  | ephemeralDh
  /-- On the result of `mix_dh_tee`. -/
  | staticDh
  | badStatic
  | unknownPeer
  | badTimestamp
  | replayOrFlood
  | badNothing
  | accepted (peer : Nat)
  deriving DecidableEq

/-- How a consume function ended: `call` is what `Core_CurveMul` returned to it,
and `mixed` has, for each static Diffie-Hellman value it mixed into the chaining
key, what `Core_CurveMul` returned for that value. -/
structure Consumed where
  exit : Exit
  call : Option UInt32 := none
  mixed : List UInt32 := []
  globals : Globals
  wg : Device

def wgNoiseHandshakeConsumeInitiation (wg : Device) (g : Globals) (src : MessageInitiation)
    (stack : Bytes) (t : Transport) (now later : Nat) : Consumed :=
  if !wg.staticIdentity.hasIdentity then { exit := .noIdentity, globals := g, wg }
  else
    let (chainingKey, hash) := handshakeInit p wg.staticIdentity.staticPublic
    let e := src.unencryptedEphemeral
    let (chainingKey, hash) := messageEphemeral p e chainingKey hash
    match mixDhTee p g chainingKey stack wg.staticIdentity.staticPrivate e t with
    | (ret, none, g) => { exit := .staticDh, call := some ret, globals := g, wg }
    | (ret, some (chainingKey, key), g) =>
      match messageDecrypt p src.encryptedStatic key hash with
      | none => { exit := .badStatic, call := some ret, mixed := [ret], globals := g, wg }
      | some (s, hash) =>
        match wg.peerHashtable s with
        | none => { exit := .unknownPeer, call := some ret, mixed := [ret], globals := g, wg }
        | some peer =>
          let handshake := wg.handshake peer
          let (chainingKey, key, _) := kdf p chainingKey handshake.precomputedStaticStatic
          let mixed := [ret, handshake.precomputedRet]
          match messageDecrypt p src.encryptedTimestamp key hash with
          | none => { exit := .badTimestamp, call := some ret, mixed, globals := g, wg }
          | some (timestamp, hash) =>
            let replayAttack := timestamp ≤ handshake.latestTimestamp
            let floodAttack :=
              (handshake.lastInitiationConsumption +
                NSEC_PER_SEC / INITIATIONS_PER_SECOND) % 2 ^ 64 > now
            if replayAttack ∨ floodAttack then
              { exit := .replayOrFlood, call := some ret, mixed, globals := g, wg }
            else
              let handshake := { handshake with
                remoteEphemeral := e
                latestTimestamp := timestamp
                hash
                chainingKey
                remoteIndex := src.senderIndex
                lastInitiationConsumption := later
                state := .consumedInitiation }
              { exit := .accepted peer, call := some ret, mixed, globals := g
                wg := wg.setHandshake peer handshake }

/-- The handshake is read in one critical section and written in another, where
its state must still be the one that was read; `changed` is the handshake as
the second one finds it. -/
def wgNoiseHandshakeConsumeResponse (wg : Device) (g : Globals) (src : MessageResponse)
    (stack : Bytes) (t : Transport) (changed : Handshake → Handshake) : Consumed :=
  if !wg.staticIdentity.hasIdentity then { exit := .noIdentity, globals := g, wg }
  else match wg.indexHashtable src.receiverIndex with
  | none => { exit := .noHandshake, globals := g, wg }
  | some peer =>
    let handshake := wg.handshake peer
    let state := handshake.state
    if state ≠ .createdInitiation then { exit := .wrongState, globals := g, wg }
    else
      let e := src.unencryptedEphemeral
      let (chainingKey, hash) := messageEphemeral p e handshake.chainingKey handshake.hash
      match mixDh p chainingKey handshake.ephemeralPrivate e with
      | none => { exit := .ephemeralDh, globals := g, wg }
      | some (chainingKey, _) =>
        match mixDhTee p g chainingKey stack wg.staticIdentity.staticPrivate e t with
        | (ret, none, g) => { exit := .staticDh, call := some ret, globals := g, wg }
        | (ret, some (chainingKey, _), g) =>
          let (chainingKey, hash, key) := mixPsk p chainingKey hash handshake.presharedKey
          match messageDecrypt p src.encryptedNothing key hash with
          | none => { exit := .badNothing, call := some ret, mixed := [ret], globals := g, wg }
          | some (_, hash) =>
            let handshake := changed handshake
            if handshake.state ≠ state then
              { exit := .wrongState, call := some ret, mixed := [ret], globals := g
                wg := wg.setHandshake peer handshake }
            else
              let handshake := { handshake with
                remoteEphemeral := e
                hash
                chainingKey
                remoteIndex := src.senderIndex
                state := .consumedResponse }
              { exit := .accepted peer, call := some ret, mixed := [ret], globals := g
                wg := wg.setHandshake peer handshake }

/-! ## The answers of the trusted app -/

/-- Only values that came with `SAR_OK` were mixed, and the function left on
the call to the trusted app exactly when that had failed. -/
structure TeeRespected (c : Consumed) : Prop where
  mixed : ∀ ret ∈ c.mixed, ret = SAR_OK
  left : ∀ ret, c.call = some ret → (c.exit = .staticDh ↔ ret ≠ SAR_OK)

/-- The message gets as far as the call to the trusted app. -/
def ResponseAsksTee (wg : Device) (src : MessageResponse) : Prop :=
  wg.staticIdentity.hasIdentity = true ∧ ∃ peer, wg.indexHashtable src.receiverIndex = some peer ∧
    (wg.handshake peer).state = .createdInitiation ∧
    ¬Null (p.dh (wg.handshake peer).ephemeralPrivate src.unencryptedEphemeral)

variable {p}

/-- `mix_dh_tee` reads the return value of `Core_CurveMul` the wrong way round:
it gives up on `SAR_OK`, and goes on with what a failed call left behind. -/
theorem mixDhTee_inverted (g : Globals) (chainingKey stack : Bytes) (secret : UInt32)
    (point : Bytes) (t : Transport) :
    (∃ g', mixDhTee p g chainingKey stack secret point t = (SAR_OK, none, g')) ∨
    ∃ ret keys g', ret ≠ SAR_OK ∧
      mixDhTee p g chainingKey stack secret point t = (ret, some keys, g') := by
  unfold mixDhTee
  generalize coreCurveMul g stack point secret.toInt32 t = answer
  obtain ⟨⟨ret, dhCalculation⟩, g'⟩ := answer
  by_cases hz : ret = 0
  · subst hz
    exact .inl ⟨g', rfl⟩
  · simp only [hz, ↓reduceIte]
    exact .inr ⟨ret, _, g', hz, rfl⟩

/-- Leaving on `SAR_OK`, or mixing the value of a failed call, is the end of
`TeeRespected`. -/
theorem not_respected_of_left {c : Consumed} (hc : c.call = some SAR_OK) (he : c.exit = .staticDh) :
    ¬TeeRespected c := fun h => (h.left SAR_OK hc).mp he rfl

theorem not_respected_of_mixed {c : Consumed} {ret : UInt32} (hr : ret ≠ SAR_OK)
    (hm : ret ∈ c.mixed) : ¬TeeRespected c := fun h => hr (h.mixed ret hm)

theorem respected_of_no_call {c : Consumed} (hc : c.call = none) (hm : c.mixed = []) :
    TeeRespected c := by
  constructor
  · intro ret h
    rw [hm] at h
    cases h
  · intro ret h
    rw [hc] at h
    cases h

theorem consumeInitiation_tee (wg : Device) (g : Globals) (src : MessageInitiation) (stack : Bytes)
    (t : Transport) (now later : Nat) :
    TeeRespected (wgNoiseHandshakeConsumeInitiation p wg g src stack t now later) ↔
      wg.staticIdentity.hasIdentity = false := by
  cases hi : wg.staticIdentity.hasIdentity with
  | false =>
    simp only [wgNoiseHandshakeConsumeInitiation, hi, Bool.not_false, ↓reduceIte, iff_true]
    exact respected_of_no_call rfl rfl
  | true =>
    simp only [Bool.true_eq_false, iff_false]
    simp only [wgNoiseHandshakeConsumeInitiation, hi, Bool.not_true, Bool.false_eq_true, ↓reduceIte]
    rcases mixDhTee_inverted (p := p) g _ stack wg.staticIdentity.staticPrivate
      src.unencryptedEphemeral t with ⟨g', h⟩ | ⟨ret, keys, g', failed, h⟩
    · rw [h]
      exact not_respected_of_left rfl rfl
    · -- whatever happens next, the value of the failed call is in the chaining key
      rw [h]
      apply not_respected_of_mixed failed
      dsimp only
      repeat' first | exact List.mem_cons_self | split

theorem consumeResponse_tee (wg : Device) (g : Globals) (src : MessageResponse) (stack : Bytes)
    (t : Transport) (changed : Handshake → Handshake) :
    TeeRespected (wgNoiseHandshakeConsumeResponse p wg g src stack t changed) ↔
      ¬ResponseAsksTee p wg src := by
  unfold ResponseAsksTee wgNoiseHandshakeConsumeResponse
  cases hi : wg.staticIdentity.hasIdentity with
  | false => simpa using respected_of_no_call rfl rfl
  | true =>
    cases hx : wg.indexHashtable src.receiverIndex with
    | none => simpa using respected_of_no_call rfl rfl
    | some peer =>
      by_cases hs : (wg.handshake peer).state = .createdInitiation
      · by_cases hn : Null (p.dh (wg.handshake peer).ephemeralPrivate src.unencryptedEphemeral)
        · simpa [hs, hn, mixDh, curve25519] using respected_of_no_call rfl rfl
        · rw [iff_false_right (not_not.mpr ⟨rfl, peer, rfl, hs, hn⟩)]
          simp only [hs, hn, mixDh, curve25519, Bool.not_true, Bool.false_eq_true,
            ↓reduceIte, ne_eq, not_true_eq_false]
          rcases mixDhTee_inverted (p := p) g _ stack wg.staticIdentity.staticPrivate
            src.unencryptedEphemeral t with ⟨g', h⟩ | ⟨ret, keys, g', failed, h⟩
          · rw [h]
            exact not_respected_of_left rfl rfl
          · rw [h]
            apply not_respected_of_mixed failed
            dsimp only
            repeat' first | exact List.mem_cons_self | split
      · simpa [hs] using respected_of_no_call rfl rfl

/-- The handshake respects the answers of the trusted app exactly as long as it
does not ask it. -/
theorem consume_respects_tee (wg : Device) (g : Globals) (stack : Bytes) (t : Transport) :
    (∀ src now later,
      TeeRespected (wgNoiseHandshakeConsumeInitiation p wg g src stack t now later) ↔
        wg.staticIdentity.hasIdentity = false) ∧
    ∀ src changed, TeeRespected (wgNoiseHandshakeConsumeResponse p wg g src stack t changed) ↔
      ¬ResponseAsksTee p wg src :=
  ⟨fun src now later => consumeInitiation_tee wg g src stack t now later,
    fun src changed => consumeResponse_tee wg g src stack t changed⟩

end

/-- No peers. -/
def deserted (hasIdentity : Bool) : Device where
  staticIdentity := ⟨hasIdentity, [], 1⟩
  handshake _ := ⟨.zeroed, 0, [], [], [], [], [], [], [], [], 0, 0⟩
  peerHashtable _ := none
  indexHashtable _ := none

theorem consume_respects_tee_without_identity :
    TeeRespected (wgNoiseHandshakeConsumeInitiation plain (deserted false)
      ⟨⟨0, fun _ => 0⟩, ⟨0, fun _ => 0⟩⟩ ⟨0, [], [], []⟩ [] ⟨0, 0, fun _ => 0⟩ 0 0) :=
  ((consume_respects_tee (p := plain) (deserted false) ⟨⟨0, fun _ => 0⟩, ⟨0, fun _ => 0⟩⟩ []
    ⟨0, 0, fun _ => 0⟩).1 ⟨0, [], [], []⟩ 0 0).mpr rfl

/-- With an identity, an initiation is turned away because the trusted app
multiplied, and goes on to the peer lookup when it could not. -/
theorem tee_answer_inverted :
    let run := fun t => wgNoiseHandshakeConsumeInitiation plain (deserted true)
      ⟨⟨0, fun _ => 0⟩, ⟨0, fun _ => 0⟩⟩ ⟨0, [], [], []⟩ [] t 0 0
    ((run ⟨0, 0, fun _ => 0⟩).call = some SAR_OK ∧ (run ⟨0, 0, fun _ => 0⟩).exit = .staticDh) ∧
    (run ⟨-1, 0, fun _ => 0⟩).call = some SAR_TEECOMMERR ∧
      (run ⟨-1, 0, fun _ => 0⟩).mixed = [SAR_TEECOMMERR] ∧
      (run ⟨-1, 0, fun _ => 0⟩).exit = .unknownPeer := by
  decide

end Sewg.Kernel
