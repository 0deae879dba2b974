import Sewg.Kernel.Noise
import Sewg.Lib.Accounts
import Sewg.Lib.Threads

/-! Handshake workers on the initiator's side: `wg_noise_handshake_create_initiation`,
`wg_noise_handshake_consume_response` and `wg_noise_handshake_begin_session`. Each section
in which the handshake's lock is held is one step. -/

namespace Sewg.Kernel
open CString Bridge Noise

/-- A `noise_keypair` with its two keys. -/
structure SessionKeys where
  sending : Bytes
  receiving : Bytes
  iAmTheInitiator : Bool
  remoteIndex : UInt32
  deriving DecidableEq

/-- What the read section of `wg_noise_handshake_consume_response` copies. -/
structure Snapshot where
  state : HandshakeState
  hash : Bytes
  chainingKey : Bytes
  ephemeralPrivate : Bytes
  deriving DecidableEq

def Handshake.snapshot (h : Handshake) : Snapshot :=
  ⟨h.state, h.hash, h.chainingKey, h.ephemeralPrivate⟩

def handshakeZero (h : Handshake) : Handshake :=
  { h with
    ephemeralPrivate := List.replicate 32 0
    remoteEphemeral := List.replicate 32 0
    hash := List.replicate 32 0
    chainingKey := List.replicate 32 0
    remoteIndex := 0
    state := .zeroed }

section
variable (p : Primitives)

/-- The ciphertext and the new hash. -/
def messageEncrypt (plaintext key hash : Bytes) : Bytes × Bytes :=
  let ciphertext := p.aeadSeal key plaintext hash
  (ciphertext, mixHash p hash ciphertext)

/-- `secret` is what `curve25519_generate_secret` makes, `index` what
`wg_index_hashtable_insert` returns. A failure leaves what was written before it. -/
def wgNoiseHandshakeCreateInitiation (identity : StaticIdentity) (h : Handshake)
    (secret timestamp : Bytes) (index : UInt32) : Handshake × Option MessageInitiation :=
  if !identity.hasIdentity then (h, none)
  else
    let (chainingKey, hash) := handshakeInit p h.remoteStatic
    let h := { h with chainingKey, hash, ephemeralPrivate := secret }
    match curve25519GeneratePublic p secret with
    | none => (h, none)
    | some ephemeral =>
      let (chainingKey, hash) := messageEphemeral p ephemeral chainingKey hash
      let h := { h with chainingKey, hash }
      match mixDh p chainingKey secret h.remoteStatic with
      | none => (h, none)
      | some (chainingKey, key) =>
        let (encryptedStatic, hash) := messageEncrypt p identity.staticPublic key hash
        let (chainingKey, key, _) := kdf p chainingKey h.precomputedStaticStatic
        let (encryptedTimestamp, hash) := messageEncrypt p timestamp key hash
        ({ h with chainingKey, hash, state := .createdInitiation },
          some ⟨index, ephemeral, encryptedStatic, encryptedTimestamp⟩)

/-- `wg_noise_handshake_consume_response` between its two sections: the chaining key and
the hash that it goes on with. -/
def computeResponse (identity : StaticIdentity) (g : Globals) (snapshot : Snapshot)
    (presharedKey : Bytes)
    (src : MessageResponse) (stack : Bytes) (t : Transport) : Option (Bytes × Bytes) :=
  if snapshot.state ≠ .createdInitiation then none
  else
    let e := src.unencryptedEphemeral
    let (chainingKey, hash) := messageEphemeral p e snapshot.chainingKey snapshot.hash
    match mixDh p chainingKey snapshot.ephemeralPrivate e with
    | none => none
    | some (chainingKey, _) =>
      match mixDhTee p g chainingKey stack identity.staticPrivate e t with
      | (_, none, _) => none
      | (_, some (chainingKey, _), _) =>
        let (chainingKey, hash, key) := mixPsk p chainingKey hash presharedKey
        (messageDecrypt p src.encryptedNothing key hash).map fun (_, hash) => (chainingKey, hash)

end

/-- The write section. -/
def writeResponse (h : Handshake) (state : HandshakeState) (src : MessageResponse)
    (chainingKey hash : Bytes) : Option Handshake :=
  if h.state ≠ state then none
  else
    some { h with
      remoteEphemeral := src.unencryptedEphemeral
      hash
      chainingKey
      remoteIndex := src.senderIndex
      state := .consumedResponse }

/-- The keypair of a session, and the handshake after it. -/
def wgNoiseHandshakeBeginSession (p : Primitives) (h : Handshake) :
    Option (SessionKeys × Handshake) :=
  if h.state ≠ .createdResponse ∧ h.state ≠ .consumedResponse then none
  else
    let iAmTheInitiator := decide (h.state = .consumedResponse)
    let (first, second, _) := kdf p h.chainingKey []
    let keypair : SessionKeys :=
      if iAmTheInitiator then ⟨first, second, iAmTheInitiator, h.remoteIndex⟩
      else ⟨second, first, iAmTheInitiator, h.remoteIndex⟩
    some (keypair, handshakeZero h)

/-- The sections one after the other, with `changed` between them, are the function. -/
theorem consumeResponse_sections (p : Primitives) (wg : Device) (g : Globals)
    (src : MessageResponse) (stack : Bytes)
    (t : Transport) (changed : Handshake → Handshake) (hid : wg.staticIdentity.hasIdentity = true)
    {peer : Nat} (hpeer : wg.indexHashtable src.receiverIndex = some peer) :
    (wgNoiseHandshakeConsumeResponse p wg g src stack t changed).wg =
      match computeResponse p wg.staticIdentity g (wg.handshake peer).snapshot
        (wg.handshake peer).presharedKey src stack t with
      | none => wg
      | some (chainingKey, hash) =>
        wg.setHandshake peer
          ((writeResponse (changed (wg.handshake peer)) (wg.handshake peer).state src
          chainingKey hash).getD (changed (wg.handshake peer))) := by
  unfold wgNoiseHandshakeConsumeResponse computeResponse writeResponse Handshake.snapshot
  simp only [hid, hpeer, Bool.not_true, Bool.false_eq_true, ↓reduceIte]
  split
  · rfl
  generalize mixDh p _ _ _ = dh
  obtain _ | ⟨chainingKey, key⟩ := dh
  · rfl
  dsimp only
  generalize mixDhTee p g _ _ _ _ _ = tee
  obtain ⟨ret, _ | ⟨chainingKey', key'⟩, g'⟩ := tee
  · rfl
  dsimp only
  cases messageDecrypt p src.encryptedNothing _ _ with
  | none => rfl
  | some result =>
    dsimp only [Option.map_some]
    split
    · rfl
    · rfl

/-! ### The workers -/

/-- `keypairs` has the keypairs of each peer that were created, latest first, and `drawn`
the public ephemeral keys of the initiations. The code keeps neither. -/
structure SessionDevice where
  wg : Device
  keypairs : Nat → List SessionKeys := fun _ => []
  drawn : List Bytes := []

inductive SessionWorker
  | idle
  /-- The read section is over. -/
  | read (peer : Nat) (src : MessageResponse) (snapshot : Snapshot)
  /-- The message was authenticated. The code has overwritten what it had read. -/
  | computed (peer : Nat) (src : MessageResponse) (snapshot : Snapshot) (chainingKey hash : Bytes)
  /-- The response was consumed. -/
  | consumed (peer : Nat)

inductive SessionEvent
  | createInitiation (peer : Nat) (secret timestamp : Bytes) (index : UInt32)
  | takeResponse (src : MessageResponse)
  /-- `g` is the bridge's buffers and `stack` the memory of `dh_calculation`. -/
  | compute (g : Globals) (stack : Bytes) (t : Transport)
  | write
  /-- `allocated` is whether `keypair_create` has memory. -/
  | beginSession (allocated : Bool)

namespace SessionDevice

def identity (d : SessionDevice) : StaticIdentity := d.wg.staticIdentity

def handshake (d : SessionDevice) (peer : Nat) : Handshake := d.wg.handshake peer

def setHandshake (d : SessionDevice) (peer : Nat) (h : Handshake) : SessionDevice :=
  { d with wg := d.wg.setHandshake peer h }

/-- The entry of the peer's handshake leaves the table. -/
def unindex (d : SessionDevice) (peer : Nat) : SessionDevice :=
  { d with wg := { d.wg with
      indexHashtable := fun index => (d.wg.indexHashtable index).filter (· ≠ peer) } }

/-- And comes in again. -/
def reindex (d : SessionDevice) (peer : Nat) (index : UInt32) : SessionDevice :=
  { d with wg := { d.wg with
      indexHashtable := Function.update (d.unindex peer).wg.indexHashtable index (some peer) } }

end SessionDevice

section
variable (p : Primitives)

def createInitiation (d : SessionDevice) (peer : Nat) (secret timestamp : Bytes) (index : UInt32) :
    SessionDevice :=
  match wgNoiseHandshakeCreateInitiation p d.identity (d.handshake peer) secret timestamp index with
  | (h, none) => d.setHandshake peer h
  | (h, some msg) =>
    { (d.setHandshake peer h).reindex peer index with drawn := msg.unencryptedEphemeral :: d.drawn }

/-- One section of one worker. An index is drawn until it is free. -/
def sessionAct (worker : SessionWorker) (d : SessionDevice) (event : SessionEvent) :
    Option (SessionWorker × SessionDevice) :=
  match worker, event with
  | .idle, .createInitiation peer secret timestamp index =>
    if (d.wg.indexHashtable index).isSome then none
    else some (.idle, createInitiation p d peer secret timestamp index)
  | .idle, .takeResponse src =>
    if !d.identity.hasIdentity then some (.idle, d)
    else match d.wg.indexHashtable src.receiverIndex with
    | none => some (.idle, d)
    | some peer => some (.read peer src (d.handshake peer).snapshot, d)
  | .read peer src snapshot, .compute g stack t =>
    match computeResponse p d.identity g snapshot (d.handshake peer).presharedKey src stack t with
    | none => some (.idle, d)
    | some (chainingKey, hash) => some (.computed peer src snapshot chainingKey hash, d)
  | .computed peer src snapshot chainingKey hash, .write =>
    match writeResponse (d.handshake peer) snapshot.state src chainingKey hash with
    | none => some (.idle, d)
    | some h => some (.consumed peer, d.setHandshake peer h)
  | .consumed peer, .beginSession allocated =>
    if !allocated then some (.idle, d)
    else match wgNoiseHandshakeBeginSession p (d.handshake peer) with
    | none => some (.idle, d)
    | some (keypair, h) =>
      some (.idle, { (d.setHandshake peer h).unindex peer with
        keypairs := Function.update d.keypairs peer (keypair :: d.keypairs peer) })
  | _, _ => none

end

abbrev SessionState := Threads.State SessionDevice SessionWorker

/-- Before the first session. -/
def noSessions (wg : Device) : SessionState := ⟨{ wg }, fun _ => .idle⟩

/-! ### The own ephemeral key in a chaining key -/

section
variable (p : Primitives) {calls : Set (Bytes × Bytes)}

/-- The calls of HMAC with which an initiation makes its chaining key. -/
def initiationCalls (h : Handshake) (secret ephemeral : Bytes) : List (Bytes × Bytes) :=
  p.chainCalls (handshakeInitChainingKey p)
    [ephemeral, p.dh secret h.remoteStatic, h.precomputedStaticStatic]

/-- Those between the two sections of `wg_noise_handshake_consume_response`. -/
def responseCalls (identity : StaticIdentity) (g : Globals) (snapshot : Snapshot)
    (presharedKey : Bytes) (src : MessageResponse) (stack : Bytes) (t : Transport) :
    List (Bytes × Bytes) :=
  let e := src.unencryptedEphemeral
  let dhCalculation := (coreCurveMul g stack e identity.staticPrivate.toInt32 t).1.2
  p.chainCalls snapshot.chainingKey
    [e, p.dh snapshot.ephemeralPrivate e, dhCalculation, presharedKey]

variable {p}

theorem mixDh_chained {chainingKey chainingKey' key secret point : Bytes}
    (h : mixDh p chainingKey secret point = some (chainingKey', key)) :
    chainingKey' = p.mix chainingKey (p.dh secret point) := by
  unfold mixDh curve25519 at h
  split at h
  · cases h
  · rename_i dhCalculation hdh
    split at hdh
    · cases hdh
    · cases hdh
      cases h
      rfl

theorem createInitiation_initiated {identity : StaticIdentity} {h h' : Handshake}
    {secret timestamp : Bytes} {index : UInt32} {msg : MessageInitiation}
    (hc : wgNoiseHandshakeCreateInitiation p identity h secret timestamp index = (h', some msg))
    (made : ∀ call ∈ initiationCalls p h secret msg.unencryptedEphemeral, call ∈ calls) :
    h'.state = .createdInitiation ∧
      Initiated p calls (handshakeInitChainingKey p) msg.unencryptedEphemeral h'.chainingKey := by
  unfold wgNoiseHandshakeCreateInitiation at hc
  split at hc
  · cases hc
  dsimp only at hc
  split at hc
  · cases hc
  split at hc
  · cases hc
  rename_i ephemeral _ _ chainingKey key hdh
  cases hc
  refine ⟨rfl, ?_⟩
  obtain rfl := mixDh_chained hdh
  exact ⟨_, _, rfl, made⟩

theorem computeResponse_answered {identity : StaticIdentity} {g : Globals} {snapshot : Snapshot}
    {presharedKey : Bytes} {src : MessageResponse} {stack : Bytes} {t : Transport}
    {chainingKey hash : Bytes}
    (hc : computeResponse p identity g snapshot presharedKey src stack t = some (chainingKey, hash))
    (made : ∀ call ∈ responseCalls p identity g snapshot presharedKey src stack t, call ∈ calls) :
    snapshot.state = .createdInitiation ∧ Answered p calls snapshot.chainingKey chainingKey := by
  unfold computeResponse at hc
  split at hc
  · cases hc
  rename_i hstate
  dsimp only at hc
  split at hc
  · cases hc
  rename_i ck₁ _ hdh
  split at hc
  · cases hc
  rename_i ck₂ _ _ htee
  obtain ⟨⟨_, _⟩, -, he⟩ := Option.map_eq_some_iff.mp hc
  cases he
  refine ⟨not_not.mp hstate, ?_⟩
  obtain rfl := mixDh_chained hdh
  unfold mixDhTee at htee
  dsimp only at htee
  split at htee
  · cases htee
  · cases htee
    exact ⟨_, _, _, _, rfl, made⟩

/-! ### Every session has an ephemeral key of its own -/

variable (p calls)

/-- A handshake under way has an ephemeral key that is one of `spare`. No worker here answers
initiations. -/
def Stands (h : Handshake) (spare : Bytes → Prop) : Prop :=
  match h.state with
  | .zeroed => True
  | .createdInitiation =>
    ∃ e, spare e ∧ Initiated p calls (handshakeInitChainingKey p) e h.chainingKey
  | .consumedResponse =>
    ∃ e, spare e ∧ InitiatorKey p calls (handshakeInitChainingKey p) e h.chainingKey
  | .consumedInitiation | .createdResponse => False

/-- The keypair's sending key comes from this ephemeral key. -/
def MadeFrom (ephemeral : Bytes) (keypair : SessionKeys) : Prop :=
  ∃ chainingKey, InitiatorKey p calls (handshakeInitChainingKey p) ephemeral chainingKey ∧
    (∀ call ∈ p.kdfCalls chainingKey [], call ∈ calls) ∧ keypair.sending = p.mix chainingKey []

/-- Every keypair has an ephemeral key of its own, and the handshake under way yet another. -/
abbrev Accounted (drawn : List Bytes) (keypairs : List SessionKeys) (h : Handshake) : Prop :=
  Accounts.Accounted (MadeFrom p calls) drawn keypairs (Stands p calls h)

variable {p calls} {drawn : List Bytes} {keypairs : List SessionKeys} {h h' : Handshake}

theorem MadeFrom.unique (free : p.CollisionFree calls) {e e' : Bytes} {k k' : SessionKeys}
    (hk : MadeFrom p calls e k) (hk' : MadeFrom p calls e' k') (same : k.sending = k'.sending) :
    e = e' := by
  obtain ⟨c, key, made, send⟩ := hk
  obtain ⟨c', key', made', send'⟩ := hk'
  rw [send, send'] at same
  simp only [Primitives.kdfCalls, List.forall_mem_cons] at made made'
  obtain ⟨rfl, -⟩ := mix_injective free ⟨made.1, made.2.1⟩ ⟨made'.1, made'.2.1⟩ same
  exact key.unique free key'

theorem Stands.mono (spare spare' : Bytes → Prop) (sub : ∀ e, spare e → spare' e)
    (hs : Stands p calls h spare) : Stands p calls h spare' := by
  unfold Stands at hs ⊢
  split at hs
  · trivial
  · obtain ⟨e, he, hk⟩ := hs
    exact ⟨e, sub e he, hk⟩
  · obtain ⟨e, he, hk⟩ := hs
    exact ⟨e, sub e he, hk⟩
  · exact hs
  · exact hs

theorem Accounted.answer (ha : Accounted p calls drawn keypairs h)
    (hstate : h.state = .createdInitiation)
    (hanswered : Answered p calls h.chainingKey h'.chainingKey)
    (hstate' : h'.state = .consumedResponse) : Accounted p calls drawn keypairs h' := by
  refine ha.imp fun spare stands => ?_
  simp only [Stands, hstate] at stands
  obtain ⟨e, he, hi⟩ := stands
  simp only [Stands, hstate']
  exact ⟨e, he, h.chainingKey, hi, hanswered⟩

theorem beginSession_madeFrom {keypair : SessionKeys} {spare : Bytes → Prop}
    (hb : wgNoiseHandshakeBeginSession p h = some (keypair, h'))
    (made : ∀ call ∈ p.kdfCalls h.chainingKey [], call ∈ calls) (hs : Stands p calls h spare) :
    ∃ e, spare e ∧ MadeFrom p calls e keypair := by
  unfold wgNoiseHandshakeBeginSession at hb
  split at hb
  · cases hb
  rename_i hstate
  have hconsumed : h.state = .consumedResponse := by
    by_contra hno
    have hresponse : h.state = .createdResponse := by
      by_contra hno'
      exact hstate ⟨hno', hno⟩
    simp only [Stands, hresponse] at hs
  simp only [Stands, hconsumed] at hs
  obtain ⟨e, he, key⟩ := hs
  simp only [hconsumed, decide_true, ↓reduceIte, Option.some.injEq, Prod.mk.injEq] at hb
  obtain ⟨rfl, -⟩ := hb
  exact ⟨e, he, h.chainingKey, key, made, rfl⟩

theorem Accounted.beginSession (ha : Accounted p calls drawn keypairs h) {keypair : SessionKeys}
    (hb : wgNoiseHandshakeBeginSession p h = some (keypair, h'))
    (made : ∀ call ∈ p.kdfCalls h.chainingKey [], call ∈ calls) :
    Accounted p calls drawn (keypair :: keypairs) h' := by
  refine ha.use (fun spare => beginSession_madeFrom hb made) ?_
  intro spare
  unfold wgNoiseHandshakeBeginSession at hb
  split at hb
  · cases hb
  · cases hb
    trivial

end

/-! ### Any order of the sections -/

section
variable (p : Primitives) (calls : Set (Bytes × Bytes))

/-- The calls of HMAC for the keys that a section makes. -/
def hmacCalls (worker : SessionWorker) (d : SessionDevice) (event : SessionEvent) :
    List (Bytes × Bytes) :=
  match worker, event with
  | .idle, .createInitiation peer secret timestamp index =>
    match wgNoiseHandshakeCreateInitiation p d.identity (d.handshake peer) secret
      timestamp index with
    | (_, some msg) => initiationCalls p (d.handshake peer) secret msg.unencryptedEphemeral
    | _ => []
  | .read peer src snapshot, .compute g stack t =>
    match computeResponse p d.identity g snapshot (d.handshake peer).presharedKey src stack t with
    | some _ => responseCalls p d.identity g snapshot (d.handshake peer).presharedKey src stack t
    | none => []
  | .consumed peer, .beginSession true =>
    match wgNoiseHandshakeBeginSession p (d.handshake peer) with
    | some _ => p.kdfCalls (d.handshake peer).chainingKey []
    | none => []
  | _, _ => []

/-- The calls of HMAC of the step are among `calls`. -/
def CallsAmong (s : SessionState) (e : Nat × SessionEvent) : Prop :=
  ∀ call ∈ hmacCalls p (s.threads e.1) s.shared e.2, call ∈ calls

/-- An initiation with this secret works, and its ephemeral key is a new one. -/
def DrawsNew (d : SessionDevice) (peer : Nat) (secret : Bytes) : Prop :=
  match curve25519GeneratePublic p secret with
  | none => False
  | some ephemeral =>
    ephemeral ∉ d.drawn ∧ (curve25519 p secret (d.handshake peer).remoteStatic).isSome

/-- A response is written over the initiation it was computed for, and a new initiation has
a new ephemeral key and does not fail half way. -/
def SessionGuard (s : SessionState) (e : Nat × SessionEvent) : Prop :=
  match s.threads e.1, e.2 with
  | .computed peer _ snapshot _ _, .write =>
    (s.shared.handshake peer).state = .createdInitiation →
      (s.shared.handshake peer).chainingKey = snapshot.chainingKey
  | .idle, .createInitiation peer secret _ _ =>
    s.shared.identity.hasIdentity = true → DrawsNew p s.shared peer secret
  | _, _ => True

instance (d : SessionDevice) (peer : Nat) (secret : Bytes) :
    Decidable (DrawsNew p d peer secret) := by
  unfold DrawsNew
  split <;> infer_instance

instance (s : SessionState) (e : Nat × SessionEvent) : Decidable (SessionGuard p s e) := by
  unfold SessionGuard
  split <;> infer_instance

/-- What a worker has computed is an answer to what it has read. -/
def SessionWorker.Sound : SessionWorker → Prop
  | .computed _ _ snapshot chainingKey _ =>
    snapshot.state = .createdInitiation ∧ Answered p calls snapshot.chainingKey chainingKey
  | _ => True

def AllAccounted (d : SessionDevice) : Prop :=
  ∀ k, Accounted p calls d.drawn (d.keypairs k) (d.handshake k)

variable {p calls} {d : SessionDevice}

@[simp] theorem handshake_setHandshake_self (d : SessionDevice) (peer : Nat) (h : Handshake) :
    (d.setHandshake peer h).handshake peer = h := by
  simp [SessionDevice.setHandshake, SessionDevice.handshake, Device.setHandshake]

theorem handshake_setHandshake_of_ne (d : SessionDevice) {peer k : Nat} (h : Handshake)
    (hk : k ≠ peer) : (d.setHandshake peer h).handshake k = d.handshake k := by
  simp [SessionDevice.setHandshake, SessionDevice.handshake, Device.setHandshake, hk]

theorem AllAccounted.set (ha : AllAccounted p calls d) {d' : SessionDevice} (peer : Nat)
    (h : Handshake) (hhandshake : d'.handshake = (d.setHandshake peer h).handshake)
    (hkeypairs : ∀ k, k ≠ peer → d'.keypairs k = d.keypairs k)
    (hdrawn : ∀ k, k ≠ peer → Accounted p calls d.drawn (d.keypairs k) (d.handshake k) →
      Accounted p calls d'.drawn (d.keypairs k) (d.handshake k))
    (hpeer : Accounted p calls d'.drawn (d'.keypairs peer) h) : AllAccounted p calls d' := by
  intro k
  rw [hhandshake]
  by_cases hk : k = peer
  · rw [hk, handshake_setHandshake_self]
    exact hpeer
  · rw [handshake_setHandshake_of_ne d h hk, hkeypairs k hk]
    exact hdrawn k hk (ha k)

theorem createInitiation_made {peer : Nat} {secret : Bytes} (hid : d.identity.hasIdentity = true)
    (hdraws : DrawsNew p d peer secret) (timestamp : Bytes) (index : UInt32) :
    ∃ e, e ∉ d.drawn ∧ ∃ h msg, wgNoiseHandshakeCreateInitiation p d.identity
      (d.handshake peer) secret timestamp index = (h, some msg) ∧ msg.unencryptedEphemeral = e := by
  unfold DrawsNew at hdraws
  split at hdraws
  · exact hdraws.elim
  · rename_i e hpublic
    obtain ⟨new, hdh⟩ := hdraws
    obtain ⟨value, hvalue⟩ := Option.isSome_iff_exists.mp hdh
    refine ⟨e, new, ?_⟩
    unfold wgNoiseHandshakeCreateInitiation mixDh
    rw [hid, hpublic]
    dsimp only
    rw [hvalue]
    exact ⟨_, _, rfl, rfl⟩

theorem createInitiation_accounted (ha : AllAccounted p calls d) {peer : Nat}
    {secret timestamp : Bytes} {index : UInt32}
    (hdraws : d.identity.hasIdentity = true → DrawsNew p d peer secret)
    (made : ∀ call ∈ hmacCalls p .idle d (.createInitiation peer secret timestamp index),
      call ∈ calls) :
    AllAccounted p calls (createInitiation p d peer secret timestamp index) := by
  unfold createInitiation
  cases hid : d.identity.hasIdentity with
  | false =>
    have hnone :
        wgNoiseHandshakeCreateInitiation p d.identity (d.handshake peer) secret timestamp index =
        (d.handshake peer, none) := by
      unfold wgNoiseHandshakeCreateInitiation
      rw [hid]
      rfl
    rw [hnone]
    exact ha.set peer (d.handshake peer) rfl (fun _ _ => rfl) (fun _ _ h => h) (ha peer)
  | true =>
    obtain ⟨_, new, h', msg, hmade, rfl⟩ := createInitiation_made hid (hdraws hid) timestamp index
    simp only [hmacCalls, hmade] at made
    obtain ⟨hstate, hinitiated⟩ := createInitiation_initiated hmade made
    rw [hmade]
    refine ha.set peer h' rfl (fun _ _ => rfl) (fun k _ hk => hk.draw _ Stands.mono) ?_
    refine (ha peer).renew new fun spare hspare => ?_
    simp only [Stands, hstate]
    exact ⟨_, hspare, hinitiated⟩

theorem sessionAct_accounted {worker worker' : SessionWorker} {d' : SessionDevice} {i : Nat}
    {event : SessionEvent}
    {threads : Nat → SessionWorker} (hworker : threads i = worker) (ha : AllAccounted p calls d)
    (hsound : worker.Sound p calls) (hg : SessionGuard p ⟨d, threads⟩ (i, event))
    (made : ∀ call ∈ hmacCalls p worker d event, call ∈ calls)
    (h : sessionAct p worker d event = some (worker', d')) :
    worker'.Sound p calls ∧ AllAccounted p calls d' := by
  unfold SessionGuard at hg
  dsimp only at hg
  rw [hworker] at hg
  unfold sessionAct at h
  split at h
  case h_1 peer secret timestamp index =>
    split at h
    · cases h
    · cases h
      exact ⟨trivial, createInitiation_accounted ha hg made⟩
  case h_2 src =>
    split at h
    · cases h
      exact ⟨trivial, ha⟩
    · split at h
      · cases h
        exact ⟨trivial, ha⟩
      · cases h
        exact ⟨trivial, ha⟩
  case h_3 peer src snapshot g stack t =>
    split at h
    · cases h
      exact ⟨trivial, ha⟩
    · rename_i computed
      cases h
      simp only [hmacCalls, computed] at made
      exact ⟨computeResponse_answered computed made, ha⟩
  case h_4 peer src snapshot chainingKey hash =>
    split at h
    · cases h
      exact ⟨trivial, ha⟩
    · rename_i written hw
      cases h
      unfold writeResponse at hw
      split at hw
      · cases hw
      · rename_i hstate
        cases hw
        obtain ⟨hcreated, hanswered⟩ := hsound
        have hstill : (d.handshake peer).state = .createdInitiation :=
          (not_not.mp hstate).trans hcreated
        refine ⟨trivial, ha.set peer _ rfl (fun _ _ => rfl) (fun _ _ h => h) ?_⟩
        refine Accounted.answer (ha peer) hstill ?_ rfl
        rw [hg hstill]
        exact hanswered
  case h_5 peer allocated =>
    split at h
    · cases h
      exact ⟨trivial, ha⟩
    · rename_i hallocated
      obtain rfl : allocated = true := by simpa using hallocated
      split at h
      · cases h
        exact ⟨trivial, ha⟩
      · rename_i keypair h' hb
        cases h
        simp only [hmacCalls, hb] at made
        refine ⟨trivial, ha.set peer h' rfl ?_ (fun _ _ h => h) ?_⟩
        · intro k hk
          exact Function.update_of_ne hk _ _
        · dsimp only
          rw [Function.update_self]
          exact Accounted.beginSession (ha peer) hb made
  case h_6 => cases h

end

/-- In every run whose steps meet `SessionGuard` and whose calls of HMAC do not collide, no two
keypairs of a peer have the same sending key. -/
theorem sending_keys_distinct {p : Primitives} {calls : Set (Bytes × Bytes)}
    (free : p.CollisionFree calls) (wg : Device) (hnew : ∀ k, (wg.handshake k).state = .zeroed)
    (events : List (Nat × SessionEvent)) (s : SessionState)
    (hmade : Run.Meets (Threads.step (sessionAct p)) (CallsAmong p calls) (noSessions wg) events)
    (hg : Run.Meets (Threads.step (sessionAct p)) (SessionGuard p) (noSessions wg) events)
    (h : Run.exec (Threads.step (sessionAct p)) (noSessions wg) events = some s) (k : Nat) :
    (s.shared.keypairs k).Pairwise fun a b => a.sending ≠ b.sending := by
  have hstart : AllAccounted p calls (noSessions wg).shared := by
    intro j
    refine Accounts.accounted_nil fun _ => ?_
    simp only [Stands, SessionDevice.handshake, noSessions, hnew j]
  have hidle : ∀ i, ((noSessions wg).threads i).Sound p calls := fun _ => trivial
  have hs := Run.exec_guarded _
    (P := fun s : SessionState => AllAccounted p calls s.shared ∧ ∀ i, (s.threads i).Sound p calls)
    (fun s e t hs hguard hst => by
      obtain ⟨worker, d, hact, rfl, hown, hothers⟩ := Threads.step_cases hst
      obtain ⟨hsound, haccounted⟩ := sessionAct_accounted rfl hs.1 (hs.2 e.1) hguard.2 hguard.1 hact
      refine ⟨haccounted, ?_⟩
      intro i
      by_cases hi : i = e.1
      · rw [hi, hown]
        exact hsound
      · rw [hothers i hi]
        exact hs.2 i)
    ⟨hstart, hidle⟩ (hmade.and hg) h
  exact (hs.1 k).apart (MadeFrom.unique free)

/-- A device with an identity and a peer at 0. -/
def initiator : Device where
  staticIdentity := ⟨true, List.replicate 32 1, 5⟩
  handshake _ := ⟨.zeroed, 0, [], List.replicate 32 2, [], List.replicate 32 3, List.replicate 32 0,
    [], [], [], 0, 0⟩
  peerHashtable _ := none
  indexHashtable _ := none

/-- A response to the initiation with index 7. -/
def responseToSeven : MessageResponse := ⟨9, 7, List.replicate 32 8, []⟩

/-- The trusted app does not answer, and `mix_dh_tee` goes on with what is on the stack. -/
def computeUnanswered : SessionEvent :=
  .compute ⟨⟨0, fun _ => 0⟩, ⟨0, fun _ => 0⟩⟩ (List.replicate 32 4) ⟨-1, ⟨0, fun _ => 0⟩⟩

/-- Two initiations, each with a session of its own. -/
def twoAnswers : List (Nat × SessionEvent) :=
  [(0, .createInitiation 0 (List.replicate 32 6) [] 7), (1, .takeResponse responseToSeven),
    (1, computeUnanswered),
    (1, .write), (1, .beginSession true), (0, .createInitiation 0 (List.replicate 32 7) [] 7),
    (1, .takeResponse responseToSeven), (1, computeUnanswered), (1, .write),
    (1, .beginSession true)]

theorem sending_keys_distinct_two :
    ∃ s, Run.exec (Threads.step (sessionAct plain)) (noSessions initiator) twoAnswers = some s ∧
      (s.shared.keypairs 0).length = 2 ∧
      (s.shared.keypairs 0).Pairwise fun a b => a.sending ≠ b.sending := by
  have hrun : (Run.exec (Threads.step (sessionAct plain)) (noSessions initiator) twoAnswers).map
      (fun s => (s.shared.keypairs 0).length) = some 2 := by decide +kernel
  obtain ⟨s, hs, hlength⟩ := Option.map_eq_some_iff.mp hrun
  exact ⟨s, hs, hlength, sending_keys_distinct (plain_collisionFree Set.univ) initiator
    (fun _ => rfl) twoAnswers s (Run.meets_of_always fun _ _ _ _ => trivial)
    (Run.meets_of_check (by decide +kernel)) hs 0⟩

/-- Two copies of one response: the second worker has read before the first one's session
begins, and writes after a new initiation has brought the state back. -/
def twoCopies : List (Nat × SessionEvent) :=
  [(0, .createInitiation 0 (List.replicate 32 6) [] 7), (1, .takeResponse responseToSeven),
    (2, .takeResponse responseToSeven), (1, computeUnanswered), (2, computeUnanswered), (1, .write),
    (1, .beginSession true), (0, .createInitiation 0 (List.replicate 32 7) [] 8), (2, .write),
    (2, .beginSession true)]

theorem sending_key_reused :
    ∃ s, Run.exec (Threads.step (sessionAct plain)) (noSessions initiator) twoCopies = some s ∧
      (s.shared.keypairs 0).length = 2 ∧
      ¬(s.shared.keypairs 0).Pairwise fun a b => a.sending ≠ b.sending := by
  have hrun : (Run.exec (Threads.step (sessionAct plain)) (noSessions initiator) twoCopies).map
      (fun s => ((s.shared.keypairs 0).length,
        decide ((s.shared.keypairs 0).Pairwise fun a b => a.sending ≠ b.sending))) =
      some (2, false) := by
    decide +kernel
  obtain ⟨s, hs, hkeys⟩ := Option.map_eq_some_iff.mp hrun
  obtain ⟨hlength, hreused⟩ := Prod.mk.inj hkeys
  exact ⟨s, hs, hlength, of_decide_eq_false hreused⟩

end Sewg.Kernel
