import Sewg.Go.PeerQueues

/-! Where the inbound elements and the message buffers are: the routines that receive
datagrams take them from their pools, the decryption workers and the peers' sequential
receivers hand them back. The pools are channels of a fixed size, as on Android. -/

namespace Sewg.Go.InboundPools
open PeerQueues (QueueInboundSize)

def PreallocatedBuffersPerPool : Nat := 4096
def QueueHandshakeSize : Nat := 1024

/-- Elements and buffers are numbers; this is what an element holds. -/
structure QueueInboundElement where
  dropped : Bool := false
  /-- `mutex` -/
  locked : Bool := false
  buffer : Nat := 0
  deriving DecidableEq

/-- `RoutineSequentialReceiver`, before the operation named. -/
inductive SequentialReceiver where
  | selects
  /-- For the element's mutex. -/
  | waits (elem : Nat)
  /-- It is done with the packet, or the packet is dropped. -/
  | putsBuffer (elem : Nat)
  | putsElement (elem : Nat)
  deriving DecidableEq

structure Device where
  messageBufferReuseChan : Chan Nat
  inboundElementReuseChan : Chan Nat
  elements : Nat → QueueInboundElement := fun _ => {}
  decryption : Chan Nat := .make QueueInboundSize
  handshake : Chan Nat := .make QueueHandshakeSize
  peers : Nat → PeerQueues.Peer := fun _ => {}
  /-- The routine of each peer, until it returns. -/
  receivers : Nat → Option SequentialReceiver := fun _ => none

/-- `RoutineReceiveIncoming`, before the operation named. It has a buffer, and on the
way an element. -/
inductive ReceiveIncoming where
  | getsBuffer
  | reads (buffer : Nat)
  /-- A transport message for a keypair of this peer. -/
  | getsElement (buffer peer : Nat)
  | looks (buffer peer elem : Nat)
  | looksUp (buffer peer elem : Nat)
  | sendsInbound (buffer peer queue elem : Nat)
  | putsElement (buffer elem : Nat)
  | sendsDecryption (buffer elem : Nat)
  | unlocks (buffer elem : Nat)
  | sendsHandshake (buffer : Nat)
  | putsBuffer (buffer : Nat)
  deriving DecidableEq

/-- `RoutineDecryption` with an element. -/
inductive Decryption where
  | opens (elem : Nat)
  | putsBuffer (elem buffer : Nat)
  | unlocks (elem : Nat)
  deriving DecidableEq

inductive Party where
  | idle
  | receive (r : ReceiveIncoming)
  | decrypt (d : Decryption)
  /-- `RoutineHandshake` with the buffer of a message. -/
  | handshake (buffer : Nat)
  | stop (peer : Nat) (s : PeerQueues.Stopping)
  | start (peer : Nat) (s : PeerQueues.Starting)
  deriving DecidableEq

/-- What `RoutineReceiveIncoming` reads: something it passes over, a transport message
for a keypair of the peer, a handshake message of the right size, or an error. -/
inductive Datagram where
  | ignored
  | transport (peer : Nat)
  | handshake
  | error

inductive Event where
  | receiveIncoming
  | datagram (d : Datagram)
  | takeDecryption
  | opened (ok : Bool)
  | takeHandshake
  | start (peer : Nat)
  | stop (peer : Nat)
  /-- The next operation of whoever is on the way. -/
  | next
  /-- The sequential receiver of a peer takes the branch for `routines.stop`, or goes on. -/
  | receiverStops (peer : Nat)
  | receiver (peer : Nat)
  /-- Another of the peer's routines returns. -/
  | routineReturns (peer : Nat)

def Device.getMessageBuffer (g : Device) : Option (Nat × Device) :=
  g.messageBufferReuseChan.take.map fun (buffer, c) =>
    (buffer, { g with messageBufferReuseChan := c })

def Device.putMessageBuffer (g : Device) (buffer : Nat) : Option Device :=
  (g.messageBufferReuseChan.put buffer).map fun c => { g with messageBufferReuseChan := c }

def Device.getInboundElement (g : Device) : Option (Nat × Device) :=
  g.inboundElementReuseChan.take.map fun (elem, c) =>
    (elem, { g with inboundElementReuseChan := c })

def Device.putInboundElement (g : Device) (elem : Nat) : Option Device :=
  (g.inboundElementReuseChan.put elem).map fun c => { g with inboundElementReuseChan := c }

def Device.setElement (g : Device) (elem : Nat) (x : QueueInboundElement) : Device :=
  { g with elements := Function.update g.elements elem x }

def Device.drop (g : Device) (elem : Nat) : Device :=
  g.setElement elem { g.elements elem with dropped := true }

def Device.unlock (g : Device) (elem : Nat) : Device :=
  g.setElement elem { g.elements elem with locked := false }

def Device.setPeer (g : Device) (peer : Nat) (x : PeerQueues.Peer) : Device :=
  { g with peers := Function.update g.peers peer x }

def Device.setReceiver (g : Device) (peer : Nat) (r : Option SequentialReceiver) : Device :=
  { g with receivers := Function.update g.receivers peer r }

/-- The inbound queue that the peer has now. -/
def Device.inbound (g : Device) (peer : Nat) : Chan Nat :=
  (g.peers peer).inbound (g.peers peer).starts

def ReceiveIncoming.next (g : Device) : ReceiveIncoming → Option (Party × Device)
  | .getsBuffer => g.getMessageBuffer.map fun (buffer, g) => (.receive (.reads buffer), g)
  | .reads _ => none
  | .getsElement buffer peer => g.getInboundElement.map fun (elem, g) =>
    (.receive (.looks buffer peer elem),
      g.setElement elem { dropped := false, locked := true, buffer })
  | .looks buffer peer elem =>
    some (.receive (if (g.peers peer).isRunning then .looksUp buffer peer elem
      else .reads buffer), g)
  | .looksUp buffer peer elem =>
    some (.receive (.sendsInbound buffer peer (g.peers peer).starts elem), g)
  | .sendsInbound buffer peer queue elem =>
    match ((g.peers peer).inbound queue).send elem with
    | .sent c =>
      some (.receive (.sendsDecryption buffer elem),
        g.setPeer peer ((g.peers peer).setInbound queue c))
    | .full => some (.receive (.putsElement buffer elem), g)
    -- the program ends
    | .panics => none
  | .putsElement buffer elem => (g.putInboundElement elem).map fun g =>
    (.receive (.reads buffer), g)
  | .sendsDecryption buffer elem =>
    match g.decryption.send elem with
    | .sent c => some (.receive .getsBuffer, { g with decryption := c })
    | .full => some (.receive (.unlocks buffer elem), g.drop elem)
    | .panics => none
  | .unlocks buffer elem => some (.receive (.reads buffer), g.unlock elem)
  | .sendsHandshake buffer =>
    match g.handshake.send buffer with
    | .sent c => some (.receive .getsBuffer, { g with handshake := c })
    | .full => some (.receive (.reads buffer), g)
    | .panics => none
  | .putsBuffer buffer => (g.putMessageBuffer buffer).map fun g => (.idle, g)

def ReceiveIncoming.ofDatagram (buffer : Nat) : Datagram → ReceiveIncoming
  | .ignored => .reads buffer
  | .transport peer => .getsElement buffer peer
  | .handshake => .sendsHandshake buffer
  | .error => .putsBuffer buffer

def Decryption.next (g : Device) : Decryption → Option (Party × Device)
  | .opens _ => none
  | .putsBuffer elem buffer => (g.putMessageBuffer buffer).map fun g =>
    (.decrypt (.unlocks elem), g)
  | .unlocks elem => some (.idle, g.unlock elem)

/-- A packet that cannot be opened is dropped, and its buffer handed back. -/
def Decryption.open (g : Device) (elem : Nat) (ok : Bool) : Party × Device :=
  if ok then (.decrypt (.unlocks elem), g)
  else (.decrypt (.putsBuffer elem (g.elements elem).buffer), g.drop elem)

def Device.receiverReturns (g : Device) (peer : Nat) : Device :=
  (g.setPeer peer { g.peers peer with routines := (g.peers peer).routines - 1 }).setReceiver
    peer none

/-- The branch for the queue, and what follows. The checks of the packet all lead to the
next turn of the loop. -/
def SequentialReceiver.next (g : Device) (peer : Nat) : SequentialReceiver → Option Device
  | .selects =>
    match (g.inbound peer).receive with
    | .item elem c => some
      ((g.setPeer peer ((g.peers peer).setInbound (g.peers peer).starts c)).setReceiver peer
        (some (.waits elem)))
    | .zero => some (g.receiverReturns peer)
    | .empty => none
  | .waits elem =>
    if (g.elements elem).locked then none
    else some ((g.setElement elem { g.elements elem with locked := true }).setReceiver peer
      (some (.putsBuffer elem)))
  | .putsBuffer elem =>
    if (g.elements elem).dropped then some (g.setReceiver peer (some (.putsElement elem)))
    else (g.putMessageBuffer (g.elements elem).buffer).map
      (·.setReceiver peer (some (.putsElement elem)))
  | .putsElement elem => (g.putInboundElement elem).map (·.setReceiver peer (some .selects))

def Party.ofControl (peer : Nat) : PeerQueues.Party → Party
  | .sender _ => .idle
  | .stop s => .stop peer s
  | .start s => .start peer s

/-- `Start` and `Stop` go by the peer, and `Start` starts its receiver with the queues. -/
def control (g : Device) (peer : Nat) (p : PeerQueues.Party) (e : PeerQueues.Event) :
    Option (Party × Device) :=
  (PeerQueues.act p (g.peers peer) e).map fun (p', x) =>
    (.ofControl peer p',
      if p = .start .locked then (g.setPeer peer x).setReceiver peer (some .selects)
        else g.setPeer peer x)

def act (party : Party) (g : Device) (e : Event) : Option (Party × Device) :=
  match party, e with
  | .idle, .receiveIncoming => some (.receive .getsBuffer, g)
  | .receive (.reads buffer), .datagram d => some (.receive (.ofDatagram buffer d), g)
  | .receive r, .next => r.next g
  | .idle, .takeDecryption =>
    g.decryption.take.map fun (elem, c) =>
      (if (g.elements elem).dropped then .idle else .decrypt (.opens elem),
        { g with decryption := c })
  | .decrypt (.opens elem), .opened ok => some (Decryption.open g elem ok)
  | .decrypt d, .next => d.next g
  | .idle, .takeHandshake => g.handshake.take.map fun (buffer, c) =>
    (.handshake buffer, { g with handshake := c })
  | .handshake buffer, .next => (g.putMessageBuffer buffer).map fun g => (.idle, g)
  | .idle, .start peer => control g peer (.sender .idle) .start
  | .idle, .stop peer => control g peer (.sender .idle) .stop
  | .stop peer s, .next => control g peer (.stop s) .next
  | .start peer s, .next => control g peer (.start s) .next
  | .idle, .receiverStops peer =>
    if g.receivers peer = some .selects ∧ (g.peers peer).stop
      then some (.idle, g.receiverReturns peer) else none
  | .idle, .receiver peer => (g.receivers peer).bind fun r =>
    (r.next g peer).map fun g => (.idle, g)
  | .idle, .routineReturns peer =>
    -- one of those that the receiver is not
    if (g.peers peer).stop ∧ (g.receivers peer).toList.length < (g.peers peer).routines then
      some (.idle, g.setPeer peer { g.peers peer with routines := (g.peers peer).routines - 1 })
    else none
  | _, _ => none

abbrev step := Threads.step act

/-- The pools as `PopulatePools` fills them, and nobody at work. -/
def populated (size : Nat) : Threads.State Device Party where
  shared :=
    { messageBufferReuseChan := ⟨size, List.range' 0 size, false⟩
      inboundElementReuseChan := ⟨size, List.range' 0 size, false⟩ }
  threads _ := .idle

/-! ## What a step does -/

/-- The element that a goroutine has to itself. -/
def Party.element : Party → Option Nat
  | .receive (.looks _ _ elem) | .receive (.looksUp _ _ elem) | .receive (.sendsInbound _ _ _ elem)
  | .receive (.putsElement _ elem) => some elem
  | _ => none

/-- The element whose mutex it is to unlock. -/
def Party.key : Party → Option Nat
  | .receive (.sendsDecryption _ elem) | .receive (.unlocks _ elem) | .decrypt (.opens elem)
  | .decrypt (.putsBuffer elem _) | .decrypt (.unlocks elem) => some elem
  | _ => none

def Party.buffer : Party → Option Nat
  | .receive .getsBuffer => none
  | .receive (.reads buffer) | .receive (.getsElement buffer _) | .receive (.looks buffer _ _)
  | .receive (.looksUp buffer _ _) | .receive (.sendsInbound buffer _ _ _)
  | .receive (.putsElement buffer _)
  | .receive (.sendsDecryption buffer _) | .receive (.unlocks buffer _)
  | .receive (.sendsHandshake buffer)
  | .receive (.putsBuffer buffer) | .decrypt (.putsBuffer _ buffer) | .handshake buffer =>
    some buffer
  | .idle | .decrypt _ | .stop .. | .start .. => none

/-- What a goroutine knows of its element. -/
def Fits (elements : Nat → QueueInboundElement) : Party → Prop
  | .receive (.looks buffer _ elem) | .receive (.looksUp buffer _ elem)
  | .receive (.sendsInbound buffer _ _ elem)
  | .receive (.sendsDecryption buffer elem) =>
    elements elem = { dropped := false, locked := true, buffer }
  | _ => True

/-- A goroutine without element and buffer. -/
def Party.Bare (w : Party) : Prop := w.element = none ∧ w.key = none ∧ w.buffer = none

/-- What a step does, as far as elements and buffers are concerned. -/
inductive Effect (w : Party) (g : Device) (e : Event) : Party → Device → Prop
  | turns {w'} : w'.element = w.element → w'.key = w.key → w'.buffer = w.buffer →
      (∀ elements, Fits elements w → Fits elements w') → Effect w g e w' g
  /-- The peer does not run: the element is forgotten. -/
  | forgets {buffer peer elem} : w = .receive (.looks buffer peer elem) → e = .next →
      (g.peers peer).isRunning = false →
      Effect w g e (.receive (.reads buffer)) g
  | getsBuffer {buffer c} :
      w = .receive .getsBuffer → g.messageBufferReuseChan.items = buffer :: c.items →
      Effect w g e (.receive (.reads buffer)) { g with messageBufferReuseChan := c }
  | putsBuffer {w' buffer c} :
      w.element = none → w'.element = none → w'.key = w.key → w.buffer = some buffer →
      w'.buffer = none → (∀ elements, Fits elements w') →
      c.items = g.messageBufferReuseChan.items ++ [buffer] →
      Effect w g e w' { g with messageBufferReuseChan := c }
  | getsElement {buffer peer elem c} : w = .receive (.getsElement buffer peer) →
      g.inboundElementReuseChan.items = elem :: c.items →
      Effect w g e (.receive (.looks buffer peer elem))
        ({ g with inboundElementReuseChan := c }.setElement elem
        { dropped := false, locked := true, buffer })
  | putsElement {buffer elem c} : w = .receive (.putsElement buffer elem) →
      c.items = g.inboundElementReuseChan.items ++ [elem] →
      Effect w g e (.receive (.reads buffer)) { g with inboundElementReuseChan := c }
  | sendsInbound {buffer peer queue elem c} :
      w = .receive (.sendsInbound buffer peer queue elem) → e = .next →
      c.items = ((g.peers peer).inbound queue).items ++ [elem] →
      Effect w g e (.receive (.sendsDecryption buffer elem))
        (g.setPeer peer ((g.peers peer).setInbound queue c))
  | sendsDecryption {buffer elem c} : w = .receive (.sendsDecryption buffer elem) →
      c.items = g.decryption.items ++ [elem] →
      Effect w g e (.receive .getsBuffer) { g with decryption := c }
  /-- Of a packet that is not decrypted, and of one that cannot be. -/
  | drops {w' elem} :
      w.element = none → w'.element = none → w.key = some elem → w'.key = some elem →
      (Fits g.elements w → w'.buffer = some (g.elements elem).buffer) →
      (w.buffer = none ∨ w'.buffer = w.buffer) → (∀ elements, Fits elements w') →
      Effect w g e w' (g.drop elem)
  | unlocks {w' elem} : w.element = none → w'.element = none → w.key = some elem → w'.key = none →
      w'.buffer = w.buffer → (∀ elements, Fits elements w') → Effect w g e w' (g.unlock elem)
  | sendsHandshake {buffer c} :
      w = .receive (.sendsHandshake buffer) → c.items = g.handshake.items ++ [buffer] →
      Effect w g e (.receive .getsBuffer) { g with handshake := c }
  | takesHandshake {buffer c} : w = .idle → g.handshake.items = buffer :: c.items →
      Effect w g e (.handshake buffer) { g with handshake := c }
  | takesDecryption {elem c} : w = .idle → g.decryption.items = elem :: c.items →
      (g.elements elem).dropped = false →
      Effect w g e (.decrypt (.opens elem)) { g with decryption := c }
  | passesOver {elem c} : w = .idle → g.decryption.items = elem :: c.items →
      (g.elements elem).dropped = true → Effect w g e .idle { g with decryption := c }
  | receiverTakes {peer elem c} : w = .idle → g.receivers peer = some .selects →
      (g.inbound peer).items = elem :: c.items →
      Effect w g e .idle
        ((g.setPeer peer ((g.peers peer).setInbound (g.peers peer).starts c)).setReceiver peer
        (some (.waits elem)))
  | receiverLocks {peer elem} : w = .idle → g.receivers peer = some (.waits elem) →
      (g.elements elem).locked = false →
      Effect w g e .idle
        ((g.setElement elem { g.elements elem with locked := true }).setReceiver peer
        (some (.putsBuffer elem)))
  | receiverSkips {peer elem} : w = .idle → g.receivers peer = some (.putsBuffer elem) →
      (g.elements elem).dropped = true →
      Effect w g e .idle (g.setReceiver peer (some (.putsElement elem)))
  | receiverPutsBuffer {peer elem c} : w = .idle → g.receivers peer = some (.putsBuffer elem) →
      c.items = g.messageBufferReuseChan.items ++ [(g.elements elem).buffer] →
      Effect w g e .idle
        ({ g with messageBufferReuseChan := c }.setReceiver peer (some (.putsElement elem)))
  | receiverPutsElement {peer elem c} : w = .idle → g.receivers peer = some (.putsElement elem) →
      c.items = g.inboundElementReuseChan.items ++ [elem] →
      Effect w g e .idle ({ g with inboundElementReuseChan := c }.setReceiver peer (some .selects))
  | receiverReturns {peer} : w = .idle → g.receivers peer = some .selects →
      (g.inbound peer).items = [] ∨ e = .receiverStops peer →
      Effect w g e .idle (g.receiverReturns peer)
  /-- `Start` and `Stop` of a peer, and the return of a routine, leave the queues as they are. -/
  | controls {w' peer} {x : PeerQueues.Peer} : w.Bare → w'.Bare → (∀ elements, Fits elements w') →
      (∀ queue, (x.inbound queue).items = ((g.peers peer).inbound queue).items) →
      x.starts = (g.peers peer).starts →
      (g.receivers peer ≠ none → (g.peers peer).routines ≠ 0 → x.routines ≠ 0) →
      Effect w g e w' (g.setPeer peer x)
  /-- Only `Start` makes a new one, with a receiver, when the routines of the last time have
  returned. -/
  | starts {w' peer} {x : PeerQueues.Peer} : w.Bare → w'.Bare → (∀ elements, Fits elements w') →
      (g.peers peer).routines = 0 →
      (∀ queue, (x.inbound queue).items =
        if queue = (g.peers peer).starts + 1 then [] else ((g.peers peer).inbound queue).items) →
      x.starts = (g.peers peer).starts + 1 → x.routines ≠ 0 →
      Effect w g e w' ((g.setPeer peer x).setReceiver peer (some .selects))

section
variable {g g' : Device} {w w' : Party} {e : Event}

theorem putMessageBuffer_some {buffer : Nat} (h : g.putMessageBuffer buffer = some g') :
    ∃ c : Chan Nat, c.items = g.messageBufferReuseChan.items ++ [buffer] ∧
      g' = { g with messageBufferReuseChan := c } := by
  obtain ⟨c, hput, rfl⟩ := Option.map_eq_some_iff.mp h
  exact ⟨c, Chan.put_items hput, rfl⟩

theorem putInboundElement_some {elem : Nat} (h : g.putInboundElement elem = some g') :
    ∃ c : Chan Nat, c.items = g.inboundElementReuseChan.items ++ [elem] ∧
      g' = { g with inboundElementReuseChan := c } := by
  obtain ⟨c, hput, rfl⟩ := Option.map_eq_some_iff.mp h
  exact ⟨c, Chan.put_items hput, rfl⟩

theorem receive_effect {r : ReceiveIncoming} (h : r.next g = some (w', g')) :
    Effect (.receive r) g .next w' g' := by
  unfold ReceiveIncoming.next at h
  split at h
  · obtain ⟨⟨buffer, _⟩, hget, h⟩ := Option.map_eq_some_iff.mp h
    obtain ⟨⟨_, c⟩, htake, hg⟩ := Option.map_eq_some_iff.mp hget
    cases hg
    cases h
    exact .getsBuffer rfl (Chan.take_items htake)
  · cases h
  · obtain ⟨⟨elem, _⟩, hget, h⟩ := Option.map_eq_some_iff.mp h
    obtain ⟨⟨_, c⟩, htake, hg⟩ := Option.map_eq_some_iff.mp hget
    cases hg
    cases h
    exact .getsElement rfl (Chan.take_items htake)
  · cases h
    split
    · exact .turns rfl rfl rfl fun _ => id
    · rename_i hrunning
      exact .forgets rfl rfl (Bool.eq_false_iff.mpr hrunning)
  · cases h
    exact .turns rfl rfl rfl fun _ => id
  · split at h
    · rename_i hsent
      cases h
      exact .sendsInbound rfl rfl (Chan.send_items hsent)
    · cases h
      exact .turns rfl rfl rfl fun _ _ => trivial
    · cases h
  · obtain ⟨g'', hput, h⟩ := Option.map_eq_some_iff.mp h
    obtain ⟨c, hc, rfl⟩ := putInboundElement_some hput
    cases h
    exact .putsElement rfl hc
  · split at h
    · rename_i hsent
      cases h
      exact .sendsDecryption rfl (Chan.send_items hsent)
    · cases h
      refine .drops rfl rfl rfl rfl ?_ (.inr rfl) fun _ => trivial
      intro hfits
      rw [show g.elements _ = _ from hfits]
      rfl
    · cases h
  · cases h
    exact .unlocks rfl rfl rfl rfl rfl fun _ => trivial
  · split at h
    · rename_i hsent
      cases h
      exact .sendsHandshake rfl (Chan.send_items hsent)
    · cases h
      exact .turns rfl rfl rfl fun _ _ => trivial
    · cases h
  · obtain ⟨g'', hput, h⟩ := Option.map_eq_some_iff.mp h
    obtain ⟨c, hc, rfl⟩ := putMessageBuffer_some hput
    cases h
    exact .putsBuffer rfl rfl rfl rfl rfl (fun _ => trivial) hc

theorem decrypt_effect {d : Decryption} (h : d.next g = some (w', g')) :
    Effect (.decrypt d) g e w' g' := by
  unfold Decryption.next at h
  split at h
  · cases h
  · obtain ⟨g'', hput, h⟩ := Option.map_eq_some_iff.mp h
    obtain ⟨c, hc, rfl⟩ := putMessageBuffer_some hput
    cases h
    exact .putsBuffer rfl rfl rfl rfl rfl (fun _ => trivial) hc
  · cases h
    exact .unlocks rfl rfl rfl rfl rfl fun _ => trivial

theorem open_effect {elem : Nat} {ok : Bool} (h : Decryption.open g elem ok = (w', g')) :
    Effect (.decrypt (.opens elem)) g e w' g' := by
  cases ok with
  | false =>
    cases h
    exact .drops rfl rfl rfl rfl (fun _ => rfl) (.inl rfl) fun _ => trivial
  | true =>
    cases h
    exact .turns rfl rfl rfl fun _ _ => trivial

theorem receiver_effect {peer : Nat} {r : SequentialReceiver} (hr : g.receivers peer = some r)
    (h : r.next g peer = some g') : Effect .idle g e .idle g' := by
  unfold SequentialReceiver.next at h
  split at h
  · split at h
    · rename_i hitem
      cases h
      exact .receiverTakes rfl hr (Chan.receive_item hitem).1
    · rename_i hzero
      cases h
      exact .receiverReturns rfl hr (.inl (Chan.receive_zero hzero))
    · cases h
  · split at h
    · cases h
    · rename_i hlocked
      cases h
      exact .receiverLocks rfl hr (Bool.eq_false_iff.mpr hlocked)
  · split at h
    · rename_i hdropped
      cases h
      exact .receiverSkips rfl hr hdropped
    · obtain ⟨g'', hput, rfl⟩ := Option.map_eq_some_iff.mp h
      obtain ⟨c, hc, rfl⟩ := putMessageBuffer_some hput
      exact .receiverPutsBuffer rfl hr hc
  · obtain ⟨g'', hput, rfl⟩ := Option.map_eq_some_iff.mp h
    obtain ⟨c, hc, rfl⟩ := putInboundElement_some hput
    exact .receiverPutsElement rfl hr hc

theorem ofControl_bare (peer : Nat) (p : PeerQueues.Party) :
    (Party.ofControl peer p).Bare ∧ ∀ elements, Fits elements (Party.ofControl peer p) := by
  cases p <;> exact ⟨⟨rfl, rfl, rfl⟩, fun _ => trivial⟩

/-- What is in the queues, and which of them is the last. -/
def Same (x x' : PeerQueues.Peer) : Prop :=
  (∀ queue, (x'.inbound queue).items = (x.inbound queue).items) ∧ x'.starts = x.starts ∧
    x'.routines = x.routines

theorem close_items (x : PeerQueues.Peer) (queue : Nat) :
    (Function.update x.inbound x.starts (x.inbound x.starts).close queue).items =
      (x.inbound queue).items := by
  by_cases hq : queue = x.starts
  · rw [hq, Function.update_self]
    rfl
  · rw [Function.update_of_ne hq]

theorem stopping_same {x x' : PeerQueues.Peer} {s : PeerQueues.Stopping} {p : PeerQueues.Party}
    (h : s.next x = some (p, x')) : Same x x' := by
  cases s with
  | swapped =>
    rw [PeerQueues.Stopping.next] at h
    split at h <;> cases h
    exact ⟨fun _ => rfl, rfl, rfl⟩
  | signalled =>
    rw [PeerQueues.Stopping.next] at h
    split at h <;> cases h
    exact ⟨fun _ => rfl, rfl, rfl⟩
  | locked | joined | closedInbound =>
    cases h
    exact ⟨fun _ => rfl, rfl, rfl⟩
  | closedNonce =>
    cases h
    exact ⟨close_items x, rfl, rfl⟩

theorem control_effect {peer : Nat} {p : PeerQueues.Party} {call : PeerQueues.Event} (hw : w.Bare)
    (h : control g peer p call = some (w', g')) (hp : p ≠ .start .locked)
    (hsame : ∀ p' x, PeerQueues.act p (g.peers peer) call = some (p', x) → Same (g.peers peer) x) :
    Effect w g e w' g' := by
  obtain ⟨⟨p', x⟩, ha, h⟩ := Option.map_eq_some_iff.mp h
  dsimp only at h
  rw [if_neg hp] at h
  cases h
  obtain ⟨hitems, hstarts, hroutines⟩ := hsame p' x ha
  have hbare := ofControl_bare peer p'
  exact .controls hw hbare.1 hbare.2 hitems hstarts fun _ h => hroutines ▸ h

theorem start_effect {peer : Nat} {s : PeerQueues.Starting}
    (h : control g peer (.start s) .next = some (w', g')) : Effect (.start peer s) g e w' g' := by
  cases s with
  | locked =>
    obtain ⟨⟨p', x⟩, ha, h⟩ := Option.map_eq_some_iff.mp h
    cases h
    rw [if_pos rfl]
    change PeerQueues.Starting.next (g.peers peer) .locked = some (p', x) at ha
    rw [PeerQueues.Starting.next] at ha
    have hbare := ofControl_bare peer p'
    split at ha
    · rename_i hroutines
      cases ha
      refine .starts ⟨rfl, rfl, rfl⟩ hbare.1 hbare.2 hroutines ?_ rfl (Nat.succ_ne_zero _)
      intro queue
      dsimp only
      split
      · rename_i hq
        rw [hq, Function.update_self]
        rfl
      · rename_i hq
        rw [Function.update_of_ne hq]
    · cases ha
  | made | set =>
    refine control_effect ⟨rfl, rfl, rfl⟩ h (by decide) ?_
    intro p' x ha
    cases ha
    exact ⟨fun _ => rfl, rfl, rfl⟩

theorem call_effect {peer : Nat} {call : PeerQueues.Event} (hcall : call = .start ∨ call = .stop)
    (h : control g peer (.sender .idle) call = some (w', g')) : Effect .idle g e w' g' := by
  refine control_effect ⟨rfl, rfl, rfl⟩ h nofun ?_
  intro p' x ha
  rcases hcall with rfl | rfl
  · simp only [PeerQueues.act] at ha
    split at ha
    · cases ha
    · split at ha <;> (cases ha; exact ⟨fun _ => rfl, rfl, rfl⟩)
  · simp only [PeerQueues.act] at ha
    split at ha <;> (cases ha; exact ⟨fun _ => rfl, rfl, rfl⟩)

theorem act_effect (h : act w g e = some (w', g')) : Effect w g e w' g' := by
  unfold act at h
  split at h
  · cases h
    exact .turns rfl rfl rfl fun _ => id
  · rename_i buffer d
    cases h
    cases d <;> exact .turns rfl rfl rfl fun _ _ => trivial
  · exact receive_effect h
  · obtain ⟨⟨elem, c⟩, htake, h⟩ := Option.map_eq_some_iff.mp h
    cases h
    split
    · rename_i hdropped
      exact .passesOver rfl (Chan.take_items htake) hdropped
    · rename_i hdropped
      exact .takesDecryption rfl (Chan.take_items htake) (Bool.eq_false_iff.mpr hdropped)
  · exact open_effect (Option.some.inj h)
  · exact decrypt_effect h
  · obtain ⟨⟨buffer, c⟩, htake, h⟩ := Option.map_eq_some_iff.mp h
    cases h
    exact .takesHandshake rfl (Chan.take_items htake)
  · obtain ⟨g'', hput, h⟩ := Option.map_eq_some_iff.mp h
    obtain ⟨c, hc, rfl⟩ := putMessageBuffer_some hput
    cases h
    exact .putsBuffer rfl rfl rfl rfl rfl (fun _ => trivial) hc
  · exact call_effect (.inl rfl) h
  · exact call_effect (.inr rfl) h
  · exact control_effect ⟨rfl, rfl, rfl⟩ h nofun fun _ _ => stopping_same
  · exact start_effect h
  · split at h
    · rename_i hstop
      cases h
      exact .receiverReturns rfl hstop.1 (.inr rfl)
    · cases h
  · obtain ⟨r, hr, h⟩ := Option.bind_eq_some_iff.mp h
    obtain ⟨g'', hnext, h⟩ := Option.map_eq_some_iff.mp h
    cases h
    exact receiver_effect hr hnext
  · split at h
    · rename_i hstop
      cases h
      refine .controls ⟨rfl, rfl, rfl⟩ ⟨rfl, rfl, rfl⟩ (fun _ => trivial) (fun _ => rfl) rfl ?_
      intro hr _
      obtain ⟨r, hr⟩ := Option.ne_none_iff_exists'.mp hr
      have hothers := hstop.2
      rw [hr] at hothers
      exact Nat.sub_ne_zero_of_lt hothers
    · cases h
  · cases h

end

end Sewg.Go.InboundPools
