import Sewg.Lib.Threads
import Sewg.Go.Device

/-! The handshake workers and the timers of a Go device. Each section in which a
handshake's lock is held is one step, and the threads take their steps in any
order. -/

namespace Sewg.Go
open CString Noise

/-- Where a thread stands between two sections, with what it has in hand. -/
inductive Worker
  | idle
  /-- `ConsumeMessageInitiation` knows the peer. -/
  | initiation (peer : Nat) (msg : MessageInitiation) (sym : Symmetric)
  /-- It has released the read lock. -/
  | initiationRead (peer : Nat) (msg : MessageInitiation) (timestamp : Bytes) (sym : Symmetric)
  /-- `SendHandshakeResponse`. -/
  | respond (peer : Nat)
  /-- `ConsumeMessageResponse` knows the handshake. -/
  | response (peer : Nat) (msg : MessageResponse)
  /-- It has released the read lock. -/
  | responseRead (peer : Nat) (msg : MessageResponse) (sym : Symmetric)
  | derive (peer : Nat)
  /-- `ZeroAndFlushAll` has dropped the keypairs. -/
  | clear (peer : Nat)
  deriving DecidableEq

/-- The next section of a thread, with what it takes from outside: a packet, the
trusted app's answer, the clock, random bytes. -/
inductive Event
  | takeInitiation (msg : MessageInitiation) (call : TeeCall)
  | readInitiation (now : Int)
  | writeInitiation (now : Int)
  | createResponse (r : Rand) (draws : List (UInt32 × Option String))
  | takeResponse (msg : MessageResponse)
  | readResponse (call : TeeCall)
  | writeResponse
  | beginSession
  | sendInitiation (peer : Nat) (r : Rand) (draws : List (UInt32 × Option String))
      (timestamp : Bytes)
  | zeroKeypairs (peer : Nat)
  | clearHandshake
  | receivedWithKeypair (peer : Nat) (keypair : Keypair)

/-- `drawn` has the public halves of the ephemeral keys offered so far, `accepted`
the timestamps of each peer's accepted initiations, latest first. The code keeps
neither. -/
structure Shared where
  device : Device
  drawn : List Bytes := []
  accepted : Nat → List Bytes := fun _ => []

def Shared.handshake (g : Shared) (peer : Nat) : Handshake := (g.device.peers peer).handshake

def Shared.setHandshake (g : Shared) (peer : Nat) (h : Handshake) : Shared :=
  { g with device := g.device.setHandshake peer h }

def Shared.ask (g : Shared) (asked : Asked) : Shared :=
  { g with device := { g.device with asked := asked :: g.device.asked } }

/-! ## Sections that belong to no message -/

/-- The first half of `ZeroAndFlushAll`. -/
def Device.zeroKeypairs (device : Device) (peer : Nat) : Device :=
  let keypairs := (device.peers peer).keypairs
  { device with
    peers := Function.update device.peers peer { device.peers peer with keypairs := {} }
    indexTable := ((device.indexTable.deleteKeypair keypairs.previous).deleteKeypair
      keypairs.current).deleteKeypair keypairs.next }

/-- The second half of `ZeroAndFlushAll`. -/
def Device.clearHandshake (device : Device) (peer : Nat) : Device :=
  let h := (device.peers peer).handshake
  { device.setHandshake peer h.clear with indexTable := device.indexTable.delete h.localIndex }

/-- `ReceivedWithKeypair`: the first packet under the next keypair makes it the
current one. -/
def Device.receivedWithKeypair (device : Device) (peer : Nat) (received : Keypair) : Device :=
  let keypairs := (device.peers peer).keypairs
  if keypairs.next.map (·.ptr) ≠ some received.ptr then device
  else
    { device with
      peers := Function.update device.peers peer { device.peers peer with
        keypairs := { current := keypairs.next, previous := keypairs.current, next := none } }
      indexTable := device.indexTable.deleteKeypair keypairs.previous }

section
variable (p : Primitives)

/-- `ConsumeMessageInitiation` up to the peer lookup. -/
def takeInitiation (g : Shared) (msg : MessageInitiation) (call : TeeCall) : Worker × Shared :=
  if msg.type ≠ MessageInitiationType then (.idle, g)
  else
    let (ss, asked) := rootSharedSecret g.device.privateKey msg.ephemeral call
    let g := g.ask asked
    match openStatic p g.device.publicKey ss msg with
    | none => (.idle, g)
    | some (peerPK, sym) =>
      match g.device.keyMap.lookup peerPK with
      | none => (.idle, g)
      | some peer => (.initiation peer msg sym, g)

/-- `ConsumeMessageResponse` up to the handshake lookup. -/
def takeResponse (g : Shared) (msg : MessageResponse) : Worker :=
  if msg.type ≠ MessageResponseType then .idle
  else match g.device.indexTable msg.receiver with
  | none => .idle
  | some ⟨_, some _⟩ => .idle
  | some ⟨peer, none⟩ => .response peer msg

/-- The read section of `ConsumeMessageResponse`. -/
def lookAtResponse (g : Shared) (peer : Nat) (msg : MessageResponse) (call : TeeCall) :
    Worker × Shared :=
  let h := g.handshake peer
  if h.state ≠ .initiationCreated then (.idle, g)
  else
    let (ss, asked) := rootSharedSecret g.device.privateKey msg.ephemeral call
    match readResponse p h ss msg with
    | none => (.idle, g.ask asked)
    | some sym => (.responseRead peer msg sym, g.ask asked)

/-- One section of one thread: a worker of `RoutineHandshake`, or whoever runs
`SendHandshakeInitiation`, `ZeroAndFlushAll` or `ReceivedWithKeypair`. -/
def act (w : Worker) (g : Shared) (e : Event) : Option (Worker × Shared) :=
  match w, e with
  | .idle, .takeInitiation msg call => some (takeInitiation p g msg call)
  | .initiation peer msg sym, .readInitiation now =>
    match readInitiation p (g.handshake peer) msg sym now with
    | none => some (.idle, g)
    | some (timestamp, sym) => some (.initiationRead peer msg timestamp sym, g)
  | .initiationRead peer msg timestamp sym, .writeInitiation now =>
    let h := writeConsumedInitiation (g.handshake peer) msg timestamp sym now
    some (.respond peer, { g.setHandshake peer h with
      accepted := Function.update g.accepted peer (timestamp :: g.accepted peer) })
  | .respond peer, .createResponse r draws =>
    (createMessageResponse p g.device peer r draws).map fun (result, device) =>
      (match result with | .ok _ => .derive peer | .error _ => .idle,
        { g with device, drawn := publicKey p (newPrivateKey r) :: g.drawn })
  | .idle, .takeResponse msg => some (takeResponse g msg, g)
  | .response peer msg, .readResponse call => some (lookAtResponse p g peer msg call)
  | .responseRead peer msg sym, .writeResponse =>
    some (.derive peer, g.setHandshake peer (writeConsumedResponse (g.handshake peer) msg sym))
  | .derive peer, .beginSession =>
    match beginSymmetricSession p g.device peer with
    | .error _ => some (.idle, g)
    | .ok device => some (.idle, { g with device })
  | .idle, .sendInitiation peer r draws timestamp =>
    (createMessageInitiation p g.device peer r draws timestamp).map fun (_, device) =>
      (.idle, { g with device, drawn := publicKey p (newPrivateKey r) :: g.drawn })
  | .idle, .zeroKeypairs peer =>
    some (.clear peer, { g with device := g.device.zeroKeypairs peer })
  | .clear peer, .clearHandshake =>
    some (.idle, { g with device := g.device.clearHandshake peer })
  | .idle, .receivedWithKeypair peer keypair =>
    some (.idle, { g with device := g.device.receivedWithKeypair peer keypair })
  | _, _ => none

abbrev workerStep := Threads.step (act p)

/-- Nobody is in the middle of anything, and nothing has been accepted yet. -/
def atRest (device : Device) : Threads.State Shared Worker := ⟨{ device }, fun _ => .idle⟩

/-! ## Sections that only look -/

/-- Nothing but the trusted app's calls was added. -/
def Shared.Same (g g' : Shared) : Prop :=
  g'.device.peers = g.device.peers ∧ g'.drawn = g.drawn ∧ g'.accepted = g.accepted

theorem takeInitiation_same (g : Shared) (msg : MessageInitiation) (call : TeeCall) :
    g.Same (takeInitiation p g msg call).2 := by
  unfold takeInitiation
  split
  · exact ⟨rfl, rfl, rfl⟩
  · dsimp only
    split
    · exact ⟨rfl, rfl, rfl⟩
    · split <;> exact ⟨rfl, rfl, rfl⟩

theorem lookAtResponse_same (g : Shared) (peer : Nat) (msg : MessageResponse) (call : TeeCall) :
    g.Same (lookAtResponse p g peer msg call).2 := by
  unfold lookAtResponse
  dsimp only
  split
  · exact ⟨rfl, rfl, rfl⟩
  · split <;> exact ⟨rfl, rfl, rfl⟩

/-! ## What a section can do -/

/-- `device` has another peer `k`, and the others as before. -/
def Shared.Sets (g : Shared) (k : Nat) (peer : Peer) (device : Device) : Prop :=
  device.peers = Function.update g.device.peers k peer

/-- What one section does to the peers: nothing, or one change to one of them. -/
inductive Effect (g : Shared) : Worker → Event → Shared → Prop
  | same {w e g'} (h : g.Same g') : Effect g w e g'
  | keypairs {w e} (k : Nat) (keypairs : Keypairs) (device : Device)
      (peers : g.Sets k { g.device.peers k with keypairs } device) : Effect g w e { g with device }
  | initiationConsumed (k : Nat) (msg : MessageInitiation) (timestamp : Bytes) (sym : Symmetric)
      (now : Int) (device : Device)
      (peers : g.Sets k { g.device.peers k with
        handshake := writeConsumedInitiation (g.handshake k) msg timestamp sym now } device) :
    Effect g (.initiationRead k msg timestamp sym) (.writeInitiation now)
      { g with device, accepted := Function.update g.accepted k (timestamp :: g.accepted k) }
  | responseSent {result h table'} (k : Nat) (r : Rand) (draws : List (UInt32 × Option String))
      (device : Device)
      (created : createResponse p k (g.handshake k) g.device.indexTable r draws =
        some (result, h, table'))
      (peers : g.Sets k { g.device.peers k with handshake := h } device) :
    Effect g (.respond k) (.createResponse r draws)
      { g with device, drawn := publicKey p (newPrivateKey r) :: g.drawn }
  | responseConsumed (k : Nat) (msg : MessageResponse) (sym : Symmetric) (device : Device)
      (peers : g.Sets k { g.device.peers k with
        handshake := writeConsumedResponse (g.handshake k) msg sym } device) :
    Effect g (.responseRead k msg sym) .writeResponse { g with device }
  | begun {peer table'} (k : Nat) (device : Device)
      (begun : beginSession p (g.device.peers k) g.device.indexTable = .ok (peer, table'))
      (peers : g.Sets k peer device) : Effect g (.derive k) .beginSession { g with device }
  | initiationSent {result h table'} (k : Nat) (r : Rand)
      (draws : List (UInt32 × Option String)) (timestamp : Bytes) (device : Device)
      (created : createInitiation p k g.device.publicKey (g.handshake k) g.device.indexTable r draws
        timestamp = some (result, h, table'))
      (peers : g.Sets k { g.device.peers k with handshake := h } device) :
    Effect g .idle (.sendInitiation k r draws timestamp)
      { g with device, drawn := publicKey p (newPrivateKey r) :: g.drawn }
  | cleared (k : Nat) (device : Device)
      (peers : g.Sets k { g.device.peers k with handshake := (g.handshake k).clear } device) :
    Effect g (.clear k) .clearHandshake { g with device }

theorem beginSymmetricSession_begun {device device' : Device} {k : Nat}
    (h : beginSymmetricSession p device k = .ok device') :
    ∃ peer table, beginSession p (device.peers k) device.indexTable = .ok (peer, table) ∧
      device'.peers = Function.update device.peers k peer := by
  unfold beginSymmetricSession at h
  cases begun : beginSession p (device.peers k) device.indexTable with
  | error err =>
    rw [begun] at h
    cases h
  | ok made =>
    rw [begun] at h
    cases h
    exact ⟨made.1, made.2, rfl, rfl⟩

theorem act_effect {w w' : Worker} {g g' : Shared} {e : Event}
    (ha : act p w g e = some (w', g')) : Effect p g w e g' := by
  unfold act at ha
  split at ha
  · rename_i msg call
    obtain rfl : (takeInitiation p g msg call).2 = g' := congrArg Prod.snd (Option.some.inj ha)
    exact .same (takeInitiation_same p g msg call)
  · split at ha <;> (cases ha; exact .same ⟨rfl, rfl, rfl⟩)
  · cases ha
    exact .initiationConsumed _ _ _ _ _ _ rfl
  · rename_i k r draws
    obtain ⟨⟨result, device⟩, made, ht⟩ := Option.map_eq_some_iff.mp ha
    cases ht
    obtain ⟨⟨_, h, table⟩, created, hd⟩ := Option.map_eq_some_iff.mp made
    cases hd
    exact .responseSent k r draws _ created rfl
  · cases ha
    exact .same ⟨rfl, rfl, rfl⟩
  · rename_i k msg call
    obtain rfl : (lookAtResponse p g k msg call).2 = g' :=
      congrArg Prod.snd (Option.some.inj ha)
    exact .same (lookAtResponse_same p g k msg call)
  · cases ha
    exact .responseConsumed _ _ _ _ rfl
  · rename_i k
    split at ha
    · cases ha
      exact .same ⟨rfl, rfl, rfl⟩
    · rename_i device begun
      cases ha
      obtain ⟨peer, table, hb, peers⟩ := beginSymmetricSession_begun p begun
      exact .begun k device hb peers
  · rename_i k r draws timestamp
    obtain ⟨⟨result, device⟩, made, ht⟩ := Option.map_eq_some_iff.mp ha
    cases ht
    obtain ⟨⟨_, h, table⟩, created, hd⟩ := Option.map_eq_some_iff.mp made
    cases hd
    exact .initiationSent k r draws timestamp _ created rfl
  · cases ha
    exact .keypairs _ _ _ rfl
  · cases ha
    exact .cleared _ _ rfl
  · rename_i k keypair
    cases ha
    by_cases hk : (g.device.peers k).keypairs.next.map (·.ptr) ≠ some keypair.ptr
    · rw [Device.receivedWithKeypair, if_pos hk]
      exact .same ⟨rfl, rfl, rfl⟩
    · rw [Device.receivedWithKeypair, if_neg hk]
      exact .keypairs k _ _ rfl
  · cases ha

/-! ## A worker that is not disturbed does what the function does -/

theorem initiation_alone {s : Threads.State Shared Worker} {i : Nat} (idle : s.threads i = .idle)
    {msg : MessageInitiation} {call : TeeCall} {now later : Int} {peer : Nat} {device : Device}
    (h : consumeMessageInitiation p s.shared.device msg call now later = (some peer, device)) :
    ∃ t, Run.exec (workerStep p) s ([.takeInitiation msg call, .readInitiation now,
        .writeInitiation later].map (Prod.mk i)) = some t ∧
      t.shared.device = device ∧ t.threads i = .respond peer := by
  unfold consumeMessageInitiation at h
  split at h
  · cases h
  · rename_i type
    dsimp only at h
    split at h
    · cases h
    · rename_i peerPK sym opened
      split at h
      · cases h
      · rename_i k known
        split at h
        · cases h
        · rename_i timestamp sym' read
          simp only [Prod.mk.injEq, Option.some.injEq] at h
          obtain ⟨rfl, rfl⟩ := h
          rw [Threads.exec_alone, idle]
          simp only [Threads.alone, Run.exec, act, takeInitiation, Shared.ask, Shared.handshake,
            if_neg type, opened, known, read, Option.bind_some,
            Option.map_some]
          exact ⟨_, rfl, rfl, Function.update_self ..⟩

theorem response_alone {s : Threads.State Shared Worker} {i : Nat} (idle : s.threads i = .idle)
    {msg : MessageResponse} {call : TeeCall} {peer : Nat} {device : Device}
    (h : consumeMessageResponse p s.shared.device msg call = (some peer, device)) :
    ∃ t, Run.exec (workerStep p) s ([.takeResponse msg, .readResponse call,
        .writeResponse].map (Prod.mk i)) = some t ∧
      t.shared.device = device ∧ t.threads i = .derive peer := by
  unfold consumeMessageResponse at h
  split at h
  · cases h
  · rename_i type
    split at h
    · cases h
    · cases h
    · rename_i k known
      dsimp only at h
      split at h
      · cases h
      · rename_i created
        split at h
        · cases h
        · rename_i sym read
          simp only [Prod.mk.injEq, Option.some.injEq] at h
          obtain ⟨rfl, rfl⟩ := h
          rw [Threads.exec_alone, idle]
          simp only [Threads.alone, Run.exec, act, takeResponse, lookAtResponse, Shared.ask,
            Shared.handshake, if_neg type, if_neg created, known, read, Option.bind_some,
            Option.map_some]
          exact ⟨_, rfl, rfl, Function.update_self ..⟩

end

end Sewg.Go
