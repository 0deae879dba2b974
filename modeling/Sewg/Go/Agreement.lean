import Sewg.Go.Device

/-! The handshake between two devices, run without interference: both ends
derive the same keys. -/

namespace Sewg.Go
open CString Noise

/-- Diffie-Hellman commutes and the cipher opens what it sealed. -/
structure Lawful (p : Primitives) : Prop where
  dh_comm : ∀ a b, p.dh a (publicKey p b) = p.dh b (publicKey p a)
  open_seal : ∀ key text data, p.aeadOpen key (p.aeadSeal key text data) data = some text

section
variable {p : Primitives}

/-! ## The two messages -/

/-- The responder follows the first message: it learns the initiator's static
key and timestamp, and ends at the initiator's hash and chaining key. -/
theorem initiation_agrees (lawful : Lawful p) {h : Handshake} (hash : h.hash = initialHash p)
    (chainKey : h.chainKey = initialChainKey p) {sB : Bytes}
    (remote : h.remoteStatic = publicKey p sB) (static timestamp : Bytes) :
    ∃ sym, openStatic p (publicKey p sB) (p.dh sB (publicKey p h.localEphemeral))
        (writeInitiation p h static timestamp).2 = some (static, sym) ∧
      ∀ (hB : Handshake) (now : Int), hB.precomputedStaticStatic = h.precomputedStaticStatic →
        ¬Null hB.precomputedStaticStatic → After timestamp hB.lastTimestamp →
        now - hB.lastInitiationConsumption > HandshakeInitationRate →
        readInitiation p hB (writeInitiation p h static timestamp).2 sym now =
          some (timestamp, ⟨(writeInitiation p h static timestamp).1.hash,
            (writeInitiation p h static timestamp).1.chainKey⟩) := by
  have es : p.dh sB (publicKey p h.localEphemeral) = p.dh h.localEphemeral (publicKey p sB) :=
    lawful.dh_comm sB h.localEphemeral
  let ephemeral := publicKey p h.localEphemeral
  let transcript := mixHash p (mixHash p (initialHash p) (publicKey p sB)) ephemeral
  let keys := kdf2 p (mixKey p (initialChainKey p) ephemeral)
    (p.dh h.localEphemeral (publicKey p sB))
  refine ⟨⟨mixHash p transcript (p.aeadSeal keys.2 static transcript), keys.1⟩, ?_, ?_⟩
  · simp only [openStatic, writeInitiation, Handshake.mixHash, Handshake.mixKey, hash, chainKey,
      remote, es, lawful.open_seal, Option.map_some, transcript, keys, ephemeral]
  · intro hB now ss nonzero after rate
    rw [ss] at nonzero
    simp only [readInitiation, writeInitiation, Handshake.mixHash, Handshake.mixKey, hash, chainKey,
      remote, ss, nonzero, ↓reduceIte, lawful.open_seal, after, rate, and_self, transcript, keys,
      ephemeral]

theorem response_agrees (lawful : Lawful p) (hA hB : Handshake) {eA sA : Bytes}
    (state : hA.state = .initiationCreated) (hash : hA.hash = hB.hash)
    (chainKey : hA.chainKey = hB.chainKey) (psk : hA.presharedKey = hB.presharedKey)
    (localA : hA.localEphemeral = eA) (remoteE : hB.remoteEphemeral = publicKey p eA)
    (remoteS : hB.remoteStatic = publicKey p sA) :
    readResponse p hA (p.dh sA (publicKey p hB.localEphemeral)) (writeResponse p hB).2 =
      some ⟨(writeResponse p hB).1.hash, (writeResponse p hB).1.chainKey⟩ := by
  have ee : p.dh eA (publicKey p hB.localEphemeral) = p.dh hB.localEphemeral (publicKey p eA) :=
    lawful.dh_comm eA hB.localEphemeral
  have se : p.dh sA (publicKey p hB.localEphemeral) = p.dh hB.localEphemeral (publicKey p sA) :=
    lawful.dh_comm sA hB.localEphemeral
  simp only [readResponse, state, ne_eq, not_true_eq_false, ↓reduceIte, writeResponse,
    Handshake.mixHash, Handshake.mixKey, hash, chainKey, psk, localA, remoteE, remoteS, ee, se,
    lawful.open_seal, Option.map_some]

/-! ## The functions of the two devices -/

/-- The draws find the free index `i`, after any number of used ones. -/
def Draws (table : IndexTable) (draws : List (UInt32 × Option String)) (i : UInt32) : Prop :=
  ∃ used rest, draws = used ++ (i, none) :: rest ∧
    (∀ d ∈ used, d.2 = none ∧ (table d.1).isSome) ∧ table i = none

variable {draws : List (UInt32 × Option String)} {i : UInt32} {A B : Device} {a b : Nat}

theorem newIndex_draws {table : IndexTable} (h : Draws table draws i) (peer : Nat) :
    table.newIndexForHandshake peer draws =
      some (i, none, Function.update table i (some ⟨peer, none⟩)) := by
  obtain ⟨used, rest, rfl, taken, free⟩ := h
  induction used with
  | nil => simp [IndexTable.newIndexForHandshake, free]
  | cons d used ih =>
    obtain ⟨index, err⟩ := d
    obtain ⟨herr, hused⟩ := taken _ List.mem_cons_self
    cases herr
    simp only [List.cons_append, IndexTable.newIndexForHandshake, hused, ↓reduceIte]
    exact ih fun d hd => taken d (List.mem_cons_of_mem _ hd)

/-- The initiator's handshake when its first message is written. -/
def Handshake.drawn (p : Primitives) (h : Handshake) (r : Rand) (i : UInt32) : Handshake :=
  { h.restart p r with localIndex := i }

theorem createMessageInitiation_draws
    (nonzero : ¬Null (A.peers a).handshake.precomputedStaticStatic) {r : Rand} (hr : r.err = none)
    (hi : Draws (A.indexTable.delete (A.peers a).handshake.localIndex) draws i)
    (timestamp : Bytes) :
    let w := writeInitiation p ((A.peers a).handshake.drawn p r i) A.publicKey timestamp
    ∃ A', createMessageInitiation p A a r draws timestamp = some (.ok w.2, A') ∧
      (A'.peers a).handshake = w.1 ∧ A'.indexTable i = some ⟨a, none⟩ := by
  have kept :
      ((A.peers a).handshake.restart p r).localIndex = (A.peers a).handshake.localIndex := rfl
  simp only [createMessageInitiation, createInitiation, nonzero, ↓reduceIte, hr, kept,
    newIndex_draws hi, Option.map_some]
  refine ⟨_, rfl, ?_, Function.update_self ..⟩
  simp only [Device.setHandshake, Function.update_self]
  rfl

theorem createMessageResponse_draws (state : (B.peers b).handshake.state = .initiationConsumed)
    {r : Rand} (hr : r.err = none)
    (hi : Draws (B.indexTable.delete (B.peers b).handshake.localIndex) draws i) :
    let w := writeResponse p
      { (B.peers b).handshake with localIndex := i, localEphemeral := newPrivateKey r }
    ∃ B', createMessageResponse p B b r draws = some (.ok w.2, B') ∧
      (B'.peers b).handshake = w.1 := by
  simp only [createMessageResponse, createResponse, state, ne_eq, not_true_eq_false, ↓reduceIte,
    newIndex_draws hi, hr, Option.map_some]
  refine ⟨_, rfl, ?_⟩
  simp only [Device.setHandshake, Function.update_self]

/-- The device has the static key `s`, and `i` is its peer for `remote`. -/
structure Paired (p : Primitives) (device : Device) (i : Nat) (s remote psk : Bytes) : Prop where
  identity : device.publicKey = publicKey p s
  known : device.keyMap.lookup remote = some i
  remoteStatic : (device.peers i).handshake.remoteStatic = remote
  secret : (device.peers i).handshake.precomputedStaticStatic = p.dh s remote
  presharedKey : (device.peers i).handshake.presharedKey = psk

theorem consumeMessageInitiation_accepts {msg : MessageInitiation}
    (type : msg.type = MessageInitiationType) {call : TeeCall} {static : Bytes} {sym : Symmetric}
    (opened : openStatic p B.publicKey (teeCurveMul call) msg = some (static, sym))
    (known : B.keyMap.lookup static = some b) {now : Int} {timestamp : Bytes} {sym' : Symmetric}
    (fresh : readInitiation p (B.peers b).handshake msg sym now = some (timestamp, sym'))
    (later : Int) :
    ∃ B', consumeMessageInitiation p B msg call now later = (some b, B') ∧
      (B'.peers b).handshake =
        writeConsumedInitiation (B.peers b).handshake msg timestamp sym' later ∧
      B'.indexTable = B.indexTable := by
  simp only [consumeMessageInitiation, type, ne_eq, not_true_eq_false, ↓reduceIte, rootSharedSecret,
    opened, known, fresh]
  refine ⟨_, rfl, ?_, rfl⟩
  simp only [Device.setHandshake, Function.update_self]

theorem consumeMessageResponse_accepts {msg : MessageResponse}
    (type : msg.type = MessageResponseType) (found : A.indexTable msg.receiver = some ⟨a, none⟩)
    (state : (A.peers a).handshake.state = .initiationCreated) {call : TeeCall} {sym : Symmetric}
    (opened : readResponse p (A.peers a).handshake (teeCurveMul call) msg = some sym) :
    ∃ A', consumeMessageResponse p A msg call = (some a, A') ∧
      (A'.peers a).handshake = writeConsumedResponse (A.peers a).handshake msg sym := by
  simp only [consumeMessageResponse, type, ne_eq, not_true_eq_false, ↓reduceIte, found, state,
    rootSharedSecret, opened]
  refine ⟨_, rfl, ?_⟩
  simp only [Device.setHandshake, Function.update_self]

theorem beginSymmetricSession_initiator (state : (A.peers a).handshake.state = .responseConsumed) :
    ∃ A' k, beginSymmetricSession p A a = .ok A' ∧ (A'.peers a).keypairs.current = some k ∧
      (k.send, k.receive) = kdf2 p (A.peers a).handshake.chainKey [] ∧
      k.localIndex = (A.peers a).handshake.localIndex ∧
      k.remoteIndex = (A.peers a).handshake.remoteIndex := by
  simp only [beginSymmetricSession, beginSession, sessionKeys, state, Except.map]
  refine ⟨_, ⟨(A.peers a).sessions.length, (kdf2 p (A.peers a).handshake.chainKey []).1,
    (kdf2 p (A.peers a).handshake.chainKey []).2, true, (A.peers a).handshake.localIndex,
    (A.peers a).handshake.remoteIndex⟩, rfl, ?_, rfl, rfl, rfl⟩
  simp only [Function.update_self, rotate, ↓reduceIte]

theorem beginSymmetricSession_responder (state : (B.peers b).handshake.state = .responseCreated) :
    ∃ B' k, beginSymmetricSession p B b = .ok B' ∧ (B'.peers b).keypairs.next = some k ∧
      (k.receive, k.send) = kdf2 p (B.peers b).handshake.chainKey [] ∧
      k.localIndex = (B.peers b).handshake.localIndex ∧
      k.remoteIndex = (B.peers b).handshake.remoteIndex := by
  simp only [beginSymmetricSession, beginSession, sessionKeys, state, Except.map]
  refine ⟨_, ⟨(B.peers b).sessions.length, (kdf2 p (B.peers b).handshake.chainKey []).2,
    (kdf2 p (B.peers b).handshake.chainKey []).1, false, (B.peers b).handshake.localIndex,
    (B.peers b).handshake.remoteIndex⟩, rfl, ?_, rfl, rfl, rfl⟩
  simp only [Function.update_self, rotate, Bool.false_eq_true, ↓reduceIte]

end

/-- Both ends of a handshake in order: `A` initiates to its peer `a`, and each
derives its session at the end. -/
def runHandshake (p : Primitives) (A B : Device) (a : Nat)
    (rA : Rand) (drawsA : List (UInt32 × Option String)) (timestamp : Bytes)
    (callB : TeeCall) (now later : Int)
    (rB : Rand) (drawsB : List (UInt32 × Option String)) (callA : TeeCall) :
    Option (Device × Device) :=
  match createMessageInitiation p A a rA drawsA timestamp with
  | some (.ok m₁, A) =>
    match consumeMessageInitiation p B m₁ callB now later with
    | (some b, B) =>
      match createMessageResponse p B b rB drawsB with
      | some (.ok m₂, B) =>
        match consumeMessageResponse p A m₂ callA with
        | (some a, A) =>
          match beginSymmetricSession p A a, beginSymmetricSession p B b with
          | .ok A, .ok B => some (A, B)
          | _, _ => none
        | _ => none
      | _ => none
    | _ => none
  | _ => none

/-- Two devices that have each other as peer, with one preshared key, complete the
handshake and hold the same keys, crossed. -/
theorem handshake_agreement (p : Primitives) (lawful : Lawful p) (A B : Device) (a b : Nat)
    (sA sB psk : Bytes) (pairedA : Paired p A a sA (publicKey p sB) psk)
    (pairedB : Paired p B b sB (publicKey p sA) psk) (nonzero : ¬Null (p.dh sA (publicKey p sB)))
    (rA rB : Rand) (okA : rA.err = none) (okB : rB.err = none)
    (drawsA drawsB : List (UInt32 × Option String)) (iA iB : UInt32)
    (freshA : Draws (A.indexTable.delete (A.peers a).handshake.localIndex) drawsA iA)
    (freshB : Draws (B.indexTable.delete (B.peers b).handshake.localIndex) drawsB iB)
    (timestamp : Bytes) (newer : After timestamp (B.peers b).handshake.lastTimestamp)
    (now later : Int)
    (rate : now - (B.peers b).handshake.lastInitiationConsumption > HandshakeInitationRate)
    (callA callB : TeeCall)
    (teeA : teeCurveMul callA = p.dh sA (publicKey p (newPrivateKey rB)))
    (teeB : teeCurveMul callB = p.dh sB (publicKey p (newPrivateKey rA))) :
    ∃ A' B' kA kB,
      runHandshake p A B a rA drawsA timestamp callB now later rB drawsB callA = some (A', B') ∧
      (A'.peers a).keypairs.current = some kA ∧ (B'.peers b).keypairs.next = some kB ∧
      kA.send = kB.receive ∧ kA.receive = kB.send ∧
      kA.remoteIndex = kB.localIndex ∧ kB.remoteIndex = kA.localIndex := by
  -- both sides hold the same static secret
  have secretB : (B.peers b).handshake.precomputedStaticStatic =
      (A.peers a).handshake.precomputedStaticStatic := by
    rw [pairedA.secret, pairedB.secret, lawful.dh_comm sB sA]
  have nonzeroA : ¬Null (A.peers a).handshake.precomputedStaticStatic := by
    rw [pairedA.secret]
    exact nonzero
  have nonzeroB : ¬Null (B.peers b).handshake.precomputedStaticStatic := secretB ▸ nonzeroA
  -- the first message
  obtain ⟨sym, opened, fresh⟩ := initiation_agrees lawful
    (h := (A.peers a).handshake.drawn p rA iA) rfl rfl pairedA.remoteStatic A.publicKey timestamp
  obtain ⟨A₁, create₁, handshakeA₁, indexA₁⟩ :=
    createMessageInitiation_draws (p := p) nonzeroA okA freshA timestamp
  change openStatic p _ (p.dh sB (publicKey p (newPrivateKey rA))) _ = _ at opened
  rw [← teeB, ← pairedB.identity] at opened
  have known : B.keyMap.lookup A.publicKey = some b := pairedA.identity ▸ pairedB.known
  obtain ⟨B₁, consume₁, handshakeB₁, tableB₁⟩ := consumeMessageInitiation_accepts rfl opened known
    (fresh (B.peers b).handshake now secretB nonzeroB newer rate) later
  -- the response
  have stateB₁ : (B₁.peers b).handshake.state = .initiationConsumed := by rw [handshakeB₁]; rfl
  have freshB₁ : Draws (B₁.indexTable.delete (B₁.peers b).handshake.localIndex) drawsB iB := by
    rw [tableB₁, handshakeB₁]
    exact freshB
  obtain ⟨B₂, create₂, handshakeB₂⟩ := createMessageResponse_draws (p := p) stateB₁ okB freshB₁
  have stateA₁ : (A₁.peers a).handshake.state = .initiationCreated := by rw [handshakeA₁]; rfl
  have remoteB₁ : (B₁.peers b).handshake.remoteStatic = publicKey p sA := by
    rw [handshakeB₁]
    exact pairedB.remoteStatic
  have answered := response_agrees lawful (A₁.peers a).handshake
    { (B₁.peers b).handshake with localIndex := iB, localEphemeral := newPrivateKey rB } stateA₁
    (by rw [handshakeA₁, handshakeB₁]; rfl) (by rw [handshakeA₁, handshakeB₁]; rfl)
    (by rw [handshakeA₁, handshakeB₁]; exact pairedA.presharedKey.trans pairedB.presharedKey.symm)
    rfl (by rw [handshakeA₁, handshakeB₁]; rfl) remoteB₁
  change readResponse p _ (p.dh sA (publicKey p (newPrivateKey rB))) _ = _ at answered
  rw [← teeA] at answered
  have found : A₁.indexTable (B₁.peers b).handshake.remoteIndex = some ⟨a, none⟩ := by
    rw [handshakeB₁]
    exact indexA₁
  obtain ⟨A₂, consume₂, handshakeA₂⟩ := consumeMessageResponse_accepts rfl found stateA₁ answered
  -- the sessions
  obtain ⟨A₃, kA, beginA, currentA, keysA, localA, remoteA⟩ :=
    beginSymmetricSession_initiator (p := p) (A := A₂) (a := a) (by rw [handshakeA₂]; rfl)
  obtain ⟨B₃, kB, beginB, nextB, keysB, localB, remoteB⟩ :=
    beginSymmetricSession_responder (p := p) (B := B₂) (b := b) (by rw [handshakeB₂]; rfl)
  refine ⟨A₃, B₃, kA, kB, ?_, currentA, nextB, ?_⟩
  · simp only [runHandshake, create₁, consume₁, create₂, consume₂, beginA, beginB]
  have keys : (kA.send, kA.receive) = (kB.receive, kB.send) := by
    rw [keysA, keysB, handshakeA₂, handshakeB₂]
    rfl
  refine ⟨congrArg Prod.fst keys, congrArg Prod.snd keys, ?_, ?_⟩
  · rw [remoteA, localB, handshakeA₂, handshakeB₂]
    rfl
  · rw [remoteB, localA, handshakeA₂, handshakeB₂]
    show (B₁.peers b).handshake.remoteIndex = (A₁.peers a).handshake.localIndex
    rw [handshakeB₁, handshakeA₁]
    rfl

theorem zipWith_xor_comm (a b c : List UInt8) :
    List.zipWith (· ^^^ ·) a (List.zipWith (· ^^^ ·) b c) =
      List.zipWith (· ^^^ ·) b (List.zipWith (· ^^^ ·) a c) := by
  induction a generalizing b c with
  | nil => cases b <;> simp
  | cons x a ih =>
    cases b with
    | nil => simp
    | cons y b =>
      cases c with
      | nil => simp
      | cons z c =>
        simp only [List.zipWith_cons_cons, List.cons.injEq]
        exact ⟨by rw [← UInt8.xor_assoc, UInt8.xor_comm x y, UInt8.xor_assoc], ih b c⟩

theorem plain_lawful : Lawful plain :=
  ⟨fun a b => zipWith_xor_comm a b plain.base, fun _ _ _ => rfl⟩

/-- A device with one peer. -/
def pairedDevice (own remote secret : UInt8) : Device :=
  { newDevice with
    publicKey := List.replicate 32 own
    peers := fun _ => { handshake := { newHandshake (List.replicate 32 remote) with
      precomputedStaticStatic := List.replicate 32 secret } }
    nextPeer := 1
    keyMap := [(List.replicate 32 remote, 0)] }

theorem handshake_agreement_plain :
    ∃ A B kA kB,
      runHandshake plain (pairedDevice 1 2 3) (pairedDevice 2 1 3) 0
        ⟨List.replicate 32 0, none⟩ [(7, none)] (List.replicate 12 1)
        (answering fun i => (plain.dh (List.replicate 32 2)
          (publicKey plain (newPrivateKey ⟨List.replicate 32 0, none⟩))).getD i 0) 0 0
        ⟨List.replicate 32 8, none⟩ [(9, none)]
        (answering fun i => (plain.dh (List.replicate 32 1)
          (publicKey plain (newPrivateKey ⟨List.replicate 32 8, none⟩))).getD i 0) = some (A, B) ∧
      (A.peers 0).keypairs.current = some kA ∧ (B.peers 0).keypairs.next = some kB ∧
      kA.send = kB.receive ∧ kA.receive = kB.send ∧
      kA.remoteIndex = kB.localIndex ∧ kB.remoteIndex = kA.localIndex :=
  handshake_agreement plain plain_lawful (pairedDevice 1 2 3) (pairedDevice 2 1 3) 0 0
    (List.replicate 32 1) (List.replicate 32 2) zeroKey
    ⟨by decide, by decide, by decide, by decide, rfl⟩
    ⟨by decide, by decide, by decide, by decide, rfl⟩ (by decide) _ _ rfl rfl _ _ 7 9
    ⟨[], [], rfl, by simp, rfl⟩ ⟨[], [], rfl, by simp, rfl⟩ _
    (by decide) 0 0 (by decide) _ _ (by decide) (by decide)

end Sewg.Go
