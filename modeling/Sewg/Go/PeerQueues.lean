import Sewg.Lib.Chan
import Sewg.Lib.Threads

/-! The queues of one peer: `Start` makes them, `Stop` closes them, and the readers of
the tunnel and of the sockets and the handshake workers send on them, after a look at
`isRunning`. -/

namespace Sewg.Go.PeerQueues

def QueueOutboundSize : Nat := 1024
def QueueInboundSize : Nat := 1024
def PeerRoutineNumber : Nat := 3

/-- The queues of the last `Start` are the current ones. Before the first there are none,
which no send gets through to. -/
structure Peer where
  isRunning : Bool := false
  /-- `routines.mutex` is held. -/
  locked : Bool := false
  /-- `routines.stop` is closed. -/
  stop : Bool := false
  /-- Those of the peer's routines that have not returned. -/
  routines : Nat := 0
  starts : Nat := 0
  nonce : Nat → Chan Nat := fun _ => .make 0
  inbound : Nat → Chan Nat := fun _ => .make 0
  packetInNonceQueueIsAwaitingKey : Bool := false

/-- Who sends an element, and how far it has come. In `addToNonceQueue` the queue is an
argument, and in a `select` it is looked up before the choice. -/
inductive Sender where
  | idle
  /-- `RoutineReadFromTUN` has seen the peer running. -/
  | tunChecked (elem : Nat)
  /-- It is in `addToNonceQueue`, before the send and, on a full queue, before it drops an
  element. -/
  | tunAdds (queue elem : Nat)
  | tunDrops (queue elem : Nat)
  /-- `SendKeepalive` after each of its tests. -/
  | keepaliveEmpty (elem : Nat)
  | keepaliveKeyed (elem : Nat)
  | keepaliveChecked (elem : Nat)
  | keepaliveSends (queue elem : Nat)
  /-- `RoutineReceiveIncoming` has seen the peer running. -/
  | incomingChecked (elem : Nat)
  | incomingAdds (queue elem : Nat)
  /-- The send was on a closed channel. -/
  | sentOnClosed
  /-- The element dropped was the `nil` of a closed channel. -/
  | droppedNil
  deriving DecidableEq

/-- `Stop`, after the operation named. -/
inductive Stopping where
  | swapped
  | locked
  | signalled
  | joined
  | closedNonce
  | closedInbound
  deriving DecidableEq

/-- `Start`, after the operation named. -/
inductive Starting where
  | locked
  | made
  | set
  deriving DecidableEq

inductive Party where
  | sender (s : Sender)
  | stop (s : Stopping)
  | start (s : Starting)
  deriving DecidableEq

inductive Event where
  | tun (elem : Nat)
  | keepalive (elem : Nat)
  | incoming (elem : Nat)
  | stop
  | start
  /-- The next operation of whoever is on the way. -/
  | next
  /-- The peer's routines take elements, say whether they wait for a key, and return. -/
  | takeNonce
  | takeInbound
  | awaitKey (waits : Bool)
  | routineReturns

def Peer.setNonce (g : Peer) (queue : Nat) (c : Chan Nat) : Peer :=
  { g with nonce := Function.update g.nonce queue c }

def Peer.setInbound (g : Peer) (queue : Nat) (c : Chan Nat) : Peer :=
  { g with inbound := Function.update g.inbound queue c }

/-- The senders. -/
def Sender.next (g : Peer) : Sender → Sender × Peer
  | .tunChecked elem => (.tunAdds g.starts elem, g)
  | .tunAdds queue elem =>
    match (g.nonce queue).send elem with
    | .sent c => (.idle, g.setNonce queue c)
    | .full => (.tunDrops queue elem, g)
    | .panics => (.sentOnClosed, g)
  | .tunDrops queue elem =>
    match (g.nonce queue).receive with
    | .item _ c => (.tunAdds queue elem, g.setNonce queue c)
    | .empty => (.tunAdds queue elem, g)
    | .zero => (.droppedNil, g)
  | .keepaliveEmpty elem =>
    (if g.packetInNonceQueueIsAwaitingKey then .idle else .keepaliveKeyed elem, g)
  | .keepaliveKeyed elem => (if g.isRunning then .keepaliveChecked elem else .idle, g)
  | .keepaliveChecked elem => (.keepaliveSends g.starts elem, g)
  | .keepaliveSends queue elem =>
    match (g.nonce queue).send elem with
    | .sent c => (.idle, g.setNonce queue c)
    | .full => (.idle, g)
    | .panics => (.sentOnClosed, g)
  | .incomingChecked elem => (.incomingAdds g.starts elem, g)
  | .incomingAdds queue elem =>
    match (g.inbound queue).send elem with
    | .sent c => (.idle, g.setInbound queue c)
    | .full => (.idle, g)
    | .panics => (.sentOnClosed, g)
  | s => (s, g)

/-- `Stop`. The closing of the outbound queue goes with that of the inbound queue, and
`ZeroAndFlushAll` with the release of the lock. -/
def Stopping.next (g : Peer) : Stopping → Option (Party × Peer)
  | .swapped => if g.locked then none else some (.stop .locked, { g with locked := true })
  | .locked => some (.stop .signalled, { g with stop := true })
  | .signalled => if g.routines = 0 then some (.stop .joined, g) else none
  | .joined => some (.stop .closedNonce, g.setNonce g.starts (g.nonce g.starts).close)
  | .closedNonce => some (.stop .closedInbound, g.setInbound g.starts (g.inbound g.starts).close)
  | .closedInbound => some (.sender .idle, { g with locked := false })

/-- `Start`, which waits for the routines of the last time. -/
def Starting.next (g : Peer) : Starting → Option (Party × Peer)
  | .locked =>
    if g.routines = 0 then
      some (.start .made, { g with
        stop := false
        routines := PeerRoutineNumber
        starts := g.starts + 1
        nonce := Function.update g.nonce (g.starts + 1) (.make QueueOutboundSize)
        inbound := Function.update g.inbound (g.starts + 1) (.make QueueInboundSize) })
    else none
  | .made => some (.start .set, { g with isRunning := true })
  | .set => some (.sender .idle, { g with locked := false })

def act (party : Party) (g : Peer) (e : Event) : Option (Party × Peer) :=
  match party, e with
  | .sender s, .next => some (.sender (s.next g).1, (s.next g).2)
  | .stop s, .next => s.next g
  | .start s, .next => s.next g
  | .sender .idle, .tun elem => some (.sender (if g.isRunning then .tunChecked elem else .idle), g)
  | .sender .idle, .keepalive elem =>
    some (.sender (if (g.nonce g.starts).items = [] then .keepaliveEmpty elem else .idle), g)
  | .sender .idle, .incoming elem =>
    some (.sender (if g.isRunning then .incomingChecked elem else .idle), g)
  | .sender .idle, .stop =>
    if g.isRunning then some (.stop .swapped, { g with isRunning := false })
      else some (.sender .idle, g)
  | .sender .idle, .start =>
    if g.locked then none
    else if g.isRunning then some (.sender .idle, g)
    else some (.start .locked, { g with locked := true })
  | .sender .idle, .takeNonce =>
    match (g.nonce g.starts).receive with
    | .item _ c => some (.sender .idle, g.setNonce g.starts c)
    | .zero | .empty => none
  | .sender .idle, .takeInbound =>
    match (g.inbound g.starts).receive with
    | .item _ c => some (.sender .idle, g.setInbound g.starts c)
    | .zero | .empty => none
  | .sender .idle, .awaitKey waits =>
    some (.sender .idle, { g with packetInNonceQueueIsAwaitingKey := waits })
  | .sender .idle, .routineReturns =>
    if g.stop ∧ g.routines ≠ 0 then some (.sender .idle, { g with routines := g.routines - 1 })
      else none
  | _, _ => none

abbrev step := Threads.step act

/-- A peer that has never been started. -/
def newPeer : Threads.State Peer Party := ⟨{}, fun _ => .sender .idle⟩

/-! ## Who stops and who starts -/

def Party.stops : Party → Bool
  | .stop _ => true
  | _ => false

def Party.holdsLock : Party → Bool
  | .stop s => s ≠ .swapped
  | .start _ => true
  | .sender _ => false

/-- The queues that senders find are open, and the routines that read from them run. -/
def Peer.Live (g : Peer) : Prop :=
  g.routines ≠ 0 ∧ g.stop = false ∧ (g.nonce g.starts).closed = false ∧
    (g.inbound g.starts).closed = false

/-- One `Stop` or `Start` at a time has the lock, one `Stop` at a time is on its way, and
none of them while the peer runs. -/
structure Orderly (s : Threads.State Peer Party) : Prop where
  locked : ∀ j, (s.threads j).holdsLock = true → s.shared.locked = true
  holder : ∀ i j, (s.threads i).holdsLock = true → (s.threads j).holdsLock = true → i = j
  stopper : ∀ i j, (s.threads i).stops = true → (s.threads j).stops = true → i = j
  live : s.shared.isRunning = true ∨ (∃ j, s.threads j = .start .made) →
    s.shared.Live ∧ ∀ j, (s.threads j).stops = false
  unsignalled : ∀ j, s.threads j = .stop .swapped ∨ s.threads j = .stop .locked →
    s.shared.routines ≠ 0 ∧ s.shared.stop = false
  halted : ∀ j, s.threads j = .start .locked ∨ s.threads j = .start .made →
    s.shared.isRunning = false

/-- Nothing that `Stop` and `Start` look at has changed, nor which queues are closed. -/
structure Peer.Alike (g g' : Peer) : Prop where
  isRunning : g'.isRunning = g.isRunning
  locked : g'.locked = g.locked
  stop : g'.stop = g.stop
  routines : g'.routines = g.routines
  starts : g'.starts = g.starts
  nonce : ∀ queue, (g'.nonce queue).closed = (g.nonce queue).closed
  inbound : ∀ queue, (g'.inbound queue).closed = (g.inbound queue).closed

section
variable {g g' : Peer} {c : Chan Nat} {queue elem : Nat}

theorem Peer.Alike.refl (g : Peer) : g.Alike g :=
  ⟨rfl, rfl, rfl, rfl, rfl, fun _ => rfl, fun _ => rfl⟩

theorem Peer.Alike.live (ha : g.Alike g') (hl : g.Live) : g'.Live := by
  unfold Peer.Live
  rw [ha.routines, ha.stop, ha.starts, ha.nonce, ha.inbound]
  exact hl

theorem update_closed {f : Nat → Chan Nat} (hc : c.closed = (f queue).closed) (q : Nat) :
    (Function.update f queue c q).closed = (f q).closed := by
  by_cases hq : q = queue
  · rw [hq, Function.update_self, hc]
  · rw [Function.update_of_ne hq]

theorem alike_setNonce (hc : c.closed = (g.nonce queue).closed) : g.Alike (g.setNonce queue c) :=
  ⟨rfl, rfl, rfl, rfl, rfl, update_closed hc, fun _ => rfl⟩

theorem alike_setInbound (hc : c.closed = (g.inbound queue).closed) :
    g.Alike (g.setInbound queue c) :=
  ⟨rfl, rfl, rfl, rfl, rfl, fun _ => rfl, update_closed hc⟩

theorem send_closed {c' : Chan Nat} (h : c.send elem = .sent c') : c'.closed = c.closed := by
  rw [(Chan.send_sent h).2]

theorem Sender.next_alike (g : Peer) (x : Sender) : g.Alike (x.next g).2 := by
  unfold Sender.next
  split
  · exact .refl g
  · split
    · rename_i hsent
      exact alike_setNonce (send_closed hsent)
    · exact .refl g
    · exact .refl g
  · split
    · rename_i hitem
      exact alike_setNonce (Chan.receive_item hitem).2.1
    · exact .refl g
    · exact .refl g
  · exact .refl g
  · exact .refl g
  · exact .refl g
  · split
    · rename_i hsent
      exact alike_setNonce (send_closed hsent)
    · exact .refl g
    · exact .refl g
  · exact .refl g
  · split
    · rename_i hsent
      exact alike_setInbound (send_closed hsent)
    · exact .refl g
    · exact .refl g
  · exact .refl g

/-- One operation: of a sender or of the peer's routines, or of a `Stop` or a `Start`. -/
inductive Effect (g : Peer) : Party → Event → Party → Peer → Prop
  | sender (x : Sender) : Effect g (.sender x) .next (.sender (x.next g).1) (x.next g).2
  | checked {e} (elem : Nat) (running : g.isRunning = true) (y : Sender)
      (y_eq : y = .tunChecked elem ∨ y = .incomingChecked elem) :
        Effect g (.sender .idle) e (.sender y) g
  | looked {e} (y : Sender) (y_eq : y = .idle ∨ ∃ elem, y = .keepaliveEmpty elem) :
    Effect g (.sender .idle) e (.sender y) g
  | routine {e g'} (alike : g.Alike g') : Effect g (.sender .idle) e (.sender .idle) g'
  | routineReturns (stopped : g.stop = true) :
    Effect g (.sender .idle) .routineReturns (.sender .idle) { g with routines := g.routines - 1 }
  | swap (running : g.isRunning = true) :
    Effect g (.sender .idle) .stop (.stop .swapped) { g with isRunning := false }
  | lockStop (unlocked : g.locked = false) :
    Effect g (.stop .swapped) .next (.stop .locked) { g with locked := true }
  | signal : Effect g (.stop .locked) .next (.stop .signalled) { g with stop := true }
  | join : Effect g (.stop .signalled) .next (.stop .joined) g
  | closeNonce :
    Effect g (.stop .joined) .next (.stop .closedNonce)
      (g.setNonce g.starts (g.nonce g.starts).close)
  | closeInbound :
    Effect g (.stop .closedNonce) .next (.stop .closedInbound)
      (g.setInbound g.starts (g.inbound g.starts).close)
  | stopped : Effect g (.stop .closedInbound) .next (.sender .idle) { g with locked := false }
  | lockStart (unlocked : g.locked = false) (halted : g.isRunning = false) :
    Effect g (.sender .idle) .start (.start .locked) { g with locked := true }
  | make (joined : g.routines = 0) :
    Effect g (.start .locked) .next (.start .made) { g with
      stop := false
      routines := PeerRoutineNumber
      starts := g.starts + 1
      nonce := Function.update g.nonce (g.starts + 1) (.make QueueOutboundSize)
      inbound := Function.update g.inbound (g.starts + 1) (.make QueueInboundSize) }
  | set : Effect g (.start .made) .next (.start .set) { g with isRunning := true }
  | started : Effect g (.start .set) .next (.sender .idle) { g with locked := false }

theorem Stopping.next_effect {x : Stopping} {party : Party} (h : x.next g = some (party, g')) :
    Effect g (.stop x) .next party g' := by
  cases x with
  | swapped =>
    rw [Stopping.next] at h
    split at h
    · cases h
    · rename_i hunlocked
      cases h
      exact .lockStop (Bool.eq_false_iff.mpr hunlocked)
  | locked =>
    cases h
    exact .signal
  | signalled =>
    rw [Stopping.next] at h
    split at h
    · cases h
      exact .join
    · cases h
  | joined =>
    cases h
    exact .closeNonce
  | closedNonce =>
    cases h
    exact .closeInbound
  | closedInbound =>
    cases h
    exact .stopped

theorem Starting.next_effect {x : Starting} {party : Party} (h : x.next g = some (party, g')) :
    Effect g (.start x) .next party g' := by
  cases x with
  | locked =>
    rw [Starting.next] at h
    split at h
    · rename_i hjoined
      cases h
      exact .make hjoined
    · cases h
  | made =>
    cases h
    exact .set
  | set =>
    cases h
    exact .started

theorem act_effect {party party' : Party} {e : Event} (ha : act party g e = some (party', g')) :
    Effect g party e party' g' := by
  unfold act at ha
  split at ha
  · cases ha
    exact .sender _
  · exact Stopping.next_effect ha
  · exact Starting.next_effect ha
  · rename_i elem
    cases ha
    split
    · rename_i hrunning
      exact .checked elem hrunning _ (.inl rfl)
    · exact .looked _ (.inl rfl)
  · rename_i elem
    cases ha
    split
    · exact .looked _ (.inr ⟨elem, rfl⟩)
    · exact .looked _ (.inl rfl)
  · rename_i elem
    cases ha
    split
    · rename_i hrunning
      exact .checked elem hrunning _ (.inr rfl)
    · exact .looked _ (.inl rfl)
  · split at ha
    · rename_i hrunning
      cases ha
      exact .swap hrunning
    · cases ha
      exact .looked _ (.inl rfl)
  · split at ha
    · cases ha
    · rename_i hunlocked
      split at ha
      · cases ha
        exact .looked _ (.inl rfl)
      · rename_i hhalted
        cases ha
        exact .lockStart (Bool.eq_false_iff.mpr hunlocked) (Bool.eq_false_iff.mpr hhalted)
  · split at ha
    · rename_i hitem
      cases ha
      exact .routine (alike_setNonce (Chan.receive_item hitem).2.1)
    · cases ha
    · cases ha
  · split at ha
    · rename_i hitem
      cases ha
      exact .routine (alike_setInbound (Chan.receive_item hitem).2.1)
    · cases ha
    · cases ha
  · cases ha
    exact .routine ⟨rfl, rfl, rfl, rfl, rfl, fun _ => rfl, fun _ => rfl⟩
  · split at ha
    · rename_i hstop
      cases ha
      exact .routineReturns hstop.1
    · cases ha
  · cases ha

end

section
variable {s t : Threads.State Peer Party} {i : Nat}

theorem Orderly.of_alike (ho : Orderly s) (ha : s.shared.Alike t.shared) {x y : Sender}
    (hi : s.threads i = .sender x) (hti : t.threads i = .sender y)
    (hothers : ∀ j, j ≠ i → t.threads j = s.threads j) : Orderly t := by
  have hholds : ∀ j, (t.threads j).holdsLock = (s.threads j).holdsLock := by
    intro j
    by_cases hj : j = i
    · rw [hj, hi, hti]
      rfl
    · rw [hothers j hj]
  have hstops : ∀ j, (t.threads j).stops = (s.threads j).stops := by
    intro j
    by_cases hj : j = i
    · rw [hj, hi, hti]
      rfl
    · rw [hothers j hj]
  have hsame : ∀ j, (∀ z, t.threads j ≠ .sender z) → s.threads j = t.threads j := by
    intro j hz
    by_cases hj : j = i
    · rw [hj] at hz
      exact absurd hti (hz y)
    · exact (hothers j hj).symm
  refine ⟨?_, ?_, ?_, ?_, ?_, ?_⟩
  · intro j hj
    rw [ha.locked]
    exact ho.locked j (hholds j ▸ hj)
  · intro j k hj hk
    exact ho.holder j k (hholds j ▸ hj) (hholds k ▸ hk)
  · intro j k hj hk
    exact ho.stopper j k (hstops j ▸ hj) (hstops k ▸ hk)
  · rw [ha.isRunning]
    intro hrun
    have hrun : s.shared.isRunning = true ∨ ∃ j, s.threads j = .start .made := by
      refine hrun.imp_right ?_
      rintro ⟨j, hj⟩
      exact ⟨j, (hsame j (by rw [hj]; nofun)).trans hj⟩
    obtain ⟨hlive, hnone⟩ := ho.live hrun
    exact ⟨ha.live hlive, fun j => (hstops j).trans (hnone j)⟩
  · intro j hj
    rw [ha.routines, ha.stop]
    have hs : s.threads j = t.threads j := hsame j (by rcases hj with hj | hj <;> (rw [hj]; nofun))
    exact ho.unsignalled j (hs ▸ hj)
  · intro j hj
    rw [ha.isRunning]
    have hs : s.threads j = t.threads j := hsame j (by rcases hj with hj | hj <;> (rw [hj]; nofun))
    exact ho.halted j (hs ▸ hj)

/-- Thread `i` moves, and the peer becomes `g'`. -/
structure Moves (s t : Threads.State Peer Party) (i : Nat) (party party' : Party)
    (g' : Peer) : Prop where
  before : s.threads i = party
  after : t.threads i = party'
  shared : t.shared = g'
  others : ∀ j, j ≠ i → t.threads j = s.threads j

/-- At most one thread is where `P` says. -/
def Sole (P : Party → Bool) (s : Threads.State Peer Party) : Prop :=
  ∀ i j, P (s.threads i) = true → P (s.threads j) = true → i = j

section
variable {party party' : Party} {g' : Peer} (hm : Moves s t i party party' g')
include hm

theorem Moves.forall {P : Party → Prop} (hnew : P party') (hold : ∀ j, P (s.threads j)) (j : Nat) :
    P (t.threads j) := by
  by_cases hj : j = i
  · rw [hj, hm.after]
    exact hnew
  · rw [hm.others j hj]
    exact hold j

theorem Moves.sole {P : Party → Bool} (hP : P party' = true → P party = true) (hs : Sole P s) :
    Sole P t := by
  have hback : ∀ j, P (t.threads j) = true → P (s.threads j) = true := by
    intro j hj
    by_cases hji : j = i
    · rw [hji, hm.before]
      exact hP (by rwa [hji, hm.after] at hj)
    · rwa [hm.others j hji] at hj
  exact fun j k hj hk => hs j k (hback j hj) (hback k hk)

theorem Moves.sole_of_none {P : Party → Bool} (hs : ∀ j, P (s.threads j) = false) : Sole P t := by
  have hat : ∀ j, P (t.threads j) = true → j = i := by
    intro j hj
    by_contra hji
    rw [hm.others j hji, hs j] at hj
    cases hj
  exact fun j k hj hk => (hat j hj).trans (hat k hk).symm

/-- A `Start` that is about to set `isRunning` was so before, but for the one that moved. -/
theorem Moves.made (hne : party' ≠ .start .made) (h : ∃ j, t.threads j = .start .made) :
    ∃ j, s.threads j = .start .made := by
  obtain ⟨j, hj⟩ := h
  by_cases hji : j = i
  · exact absurd (hm.after.symm.trans (hji ▸ hj)) hne
  · exact ⟨j, hm.others j hji ▸ hj⟩

end

/-- Who has the lock. -/
def Locks (s : Threads.State Peer Party) : Prop :=
  (∀ j, (s.threads j).holdsLock = true → s.shared.locked = true) ∧ Sole Party.holdsLock s

section
variable {party party' : Party} {g' : Peer} (ho : Orderly s) (hm : Moves s t i party party' g')
include ho hm

theorem Orderly.lock_kept (hlocked : g'.locked = s.shared.locked)
    (hholds : party'.holdsLock = party.holdsLock) : Locks t := by
  refine ⟨?_, hm.sole (fun h => hholds ▸ h) ho.holder⟩
  rw [hm.shared, hlocked]
  refine hm.forall (P := fun q => q.holdsLock = true → s.shared.locked = true) ?_ ho.locked
  rw [hholds, ← hm.before]
  exact ho.locked i

theorem Orderly.lock_taken (hfree : s.shared.locked = false) (hlocked : g'.locked = true) :
    Locks t := by
  refine ⟨fun _ _ => hm.shared ▸ hlocked, hm.sole_of_none ?_⟩
  intro j
  by_contra hj
  have hheld := ho.locked j (eq_true_of_ne_false hj)
  rw [hfree] at hheld
  cases hheld

theorem Orderly.lock_released (hheld : party.holdsLock = true) (hholds : party'.holdsLock = false) :
    Locks t := by
  have hnone : ∀ j, (t.threads j).holdsLock = false := by
    intro j
    by_cases hji : j = i
    · rw [hji, hm.after, hholds]
    · rw [hm.others j hji]
      by_contra hj
      exact hji (ho.holder j i (eq_true_of_ne_false hj) (hm.before ▸ hheld))
  refine ⟨?_, ?_⟩
  · intro j hj
    rw [hnone j] at hj
    cases hj
  · intro j k hj
    rw [hnone j] at hj
    cases hj

/-- What is said of a `Stop` that has not signalled is so while the signal and the routines
are as they were. -/
theorem Orderly.unsignalled_kept
    (hnew : party' = .stop .swapped ∨ party' = .stop .locked → g'.routines ≠ 0 ∧ g'.stop = false)
    (hroutines : g'.routines = s.shared.routines) (hstop : g'.stop = s.shared.stop) (j : Nat) :
    t.threads j = .stop .swapped ∨ t.threads j = .stop .locked →
      t.shared.routines ≠ 0 ∧ t.shared.stop = false := by
  rw [hm.shared]
  refine hm.forall (P := fun q => q = .stop .swapped ∨ q = .stop .locked →
    g'.routines ≠ 0 ∧ g'.stop = false) hnew ?_ j
  rw [hroutines, hstop]
  exact ho.unsignalled

theorem Orderly.halted_kept
    (hnew : party' = .start .locked ∨ party' = .start .made → g'.isRunning = false)
    (hrunning : g'.isRunning = s.shared.isRunning) (j : Nat) :
    t.threads j = .start .locked ∨ t.threads j = .start .made → t.shared.isRunning = false := by
  rw [hm.shared]
  refine hm.forall (P := fun q => q = .start .locked ∨ q = .start .made →
    g'.isRunning = false) hnew ?_ j
  rw [hrunning]
  exact ho.halted

end

/-- While a `Stop` is on its way the peer does not run, and no `Start` is about to change that. -/
theorem Orderly.not_live (ho : Orderly s) (hi : (s.threads i).stops = true) :
    ¬ (s.shared.isRunning = true ∨ ∃ j, s.threads j = .start .made) := by
  intro h
  have hnone := (ho.live h).2 i
  rw [hi] at hnone
  cases hnone

theorem Orderly.routineReturns (ho : Orderly s)
    (hm : Moves s t i (.sender .idle) (.sender .idle)
      { s.shared with routines := s.shared.routines - 1 })
    (hstopped : s.shared.stop = true) : Orderly t := by
  -- while the peer runs nobody has closed `stop`
  have hdead : ¬ (s.shared.isRunning = true ∨ ∃ j, s.threads j = .start .made) := by
    intro h
    have hopen := (ho.live h).1.2.1
    rw [hstopped] at hopen
    cases hopen
  obtain ⟨hlocked, hholder⟩ := ho.lock_kept hm rfl rfl
  refine ⟨hlocked, hholder, hm.sole id ho.stopper, ?_, ?_, ho.halted_kept hm (by simp) rfl⟩
  · rw [hm.shared]
    exact fun h => absurd (h.imp_right (hm.made (by simp))) hdead
  · refine hm.forall (P := fun q => q = .stop .swapped ∨ q = .stop .locked → _) (by simp) ?_
    intro j hj
    have hopen := (ho.unsignalled j hj).2
    rw [hstopped] at hopen
    cases hopen

/-! `Stop`. -/

theorem Orderly.swap (ho : Orderly s)
    (hm : Moves s t i (.sender .idle) (.stop .swapped) { s.shared with isRunning := false })
    (hrunning : s.shared.isRunning = true) : Orderly t := by
  obtain ⟨hlive, hnone⟩ := ho.live (.inl hrunning)
  obtain ⟨hlocked, hholder⟩ := ho.lock_kept hm rfl rfl
  refine ⟨hlocked, hholder, hm.sole_of_none hnone, ?_, ?_, fun _ _ => hm.shared ▸ rfl⟩
  · rw [hm.shared]
    rintro (hrun | hmade)
    · cases hrun
    · obtain ⟨j, hj⟩ := hm.made (by simp) hmade
      have hhalted := ho.halted j (.inr hj)
      rw [hrunning] at hhalted
      cases hhalted
  · exact ho.unsignalled_kept hm (fun _ => ⟨hlive.1, hlive.2.1⟩) rfl rfl

theorem Orderly.lockStop (ho : Orderly s)
    (hm : Moves s t i (.stop .swapped) (.stop .locked) { s.shared with locked := true })
    (hunlocked : s.shared.locked = false) : Orderly t := by
  obtain ⟨hlocked, hholder⟩ := ho.lock_taken hm hunlocked rfl
  have hstops : (s.threads i).stops = true := hm.before ▸ rfl
  have hdead := ho.not_live hstops
  refine ⟨hlocked, hholder, hm.sole (fun _ => rfl) ho.stopper, ?_, ?_,
    ho.halted_kept hm (by simp) rfl⟩
  · rw [hm.shared]
    exact fun h => absurd (h.imp_right (hm.made (by simp))) hdead
  · exact ho.unsignalled_kept hm (fun _ => ho.unsignalled i (.inl hm.before)) rfl rfl

/-- From the signal on: this is the only `Stop`, so none is left that has not signalled. -/
theorem Orderly.stop_on (ho : Orderly s) {x : Stopping} {party' : Party} {g' : Peer}
    (hm : Moves s t i (.stop x) party' g') (hlocks : Locks t)
    (hparty : party' ≠ .stop .swapped ∧ party' ≠ .stop .locked ∧ ∀ y, party' ≠ .start y)
    (hrunning : g'.isRunning = s.shared.isRunning) : Orderly t := by
  have hstops : (s.threads i).stops = true := hm.before ▸ rfl
  have hdead := ho.not_live hstops
  obtain ⟨hlocked, hholder⟩ := hlocks
  refine ⟨hlocked, hholder, hm.sole (fun _ => rfl) ho.stopper, ?_, ?_,
    ho.halted_kept hm (by simp [hparty]) hrunning⟩
  · rw [hm.shared, hrunning]
    exact fun h => absurd (h.imp_right (hm.made (hparty.2.2 _))) hdead
  · intro j hj
    by_cases hji : j = i
    · rw [hji, hm.after] at hj
      exact (hj.elim hparty.1 hparty.2.1).elim
    · rw [hm.others j hji] at hj
      exact absurd (ho.stopper j i (by rcases hj with hj | hj <;> (rw [hj]; rfl)) hstops) hji

/-! `Start`. -/

theorem Orderly.lockStart (ho : Orderly s)
    (hm : Moves s t i (.sender .idle) (.start .locked) { s.shared with locked := true })
    (hunlocked : s.shared.locked = false) (hidle : s.shared.isRunning = false) : Orderly t := by
  obtain ⟨hlocked, hholder⟩ := ho.lock_taken hm hunlocked rfl
  refine ⟨hlocked, hholder, hm.sole (by simp [Party.stops]) ho.stopper, ?_,
    ho.unsignalled_kept hm (by simp) rfl rfl, ho.halted_kept hm (fun _ => hidle) rfl⟩
  rw [hm.shared]
  rintro (hrun | hmade)
  · rw [hidle] at hrun
    cases hrun
  · obtain ⟨j, hj⟩ := hm.made (by simp) hmade
    have hheld := ho.locked j (hj ▸ rfl)
    rw [hunlocked] at hheld
    cases hheld

/-- A `Stop` that has not signalled has routines to wait for, and the others have the lock. -/
theorem Orderly.none_stops (ho : Orderly s) (hi : s.threads i = .start .locked)
    (hjoined : s.shared.routines = 0) (j : Nat) : (s.threads j).stops = false := by
  cases hj : s.threads j with
  | sender x | start x => rfl
  | stop x =>
    have hji : (Party.stop x).holdsLock = true → j = i := by
      intro hx
      exact ho.holder j i (hj ▸ hx) (hi ▸ rfl)
    have hx : x = .swapped := by
      by_contra hx
      obtain rfl := hji (by simpa [Party.holdsLock] using hx)
      rw [hi] at hj
      cases hj
    exact absurd hjoined (ho.unsignalled j (.inl (hx ▸ hj))).1

theorem Orderly.make (ho : Orderly s) {g' : Peer}
    (hm : Moves s t i (.start .locked) (.start .made) g')
    (hjoined : s.shared.routines = 0) (hlive : g'.Live) (hlock : g'.locked = s.shared.locked)
    (hrunning : g'.isRunning = s.shared.isRunning) : Orderly t := by
  have hnone := hm.forall (P := fun q => q.stops = false) rfl (ho.none_stops hm.before hjoined)
  obtain ⟨hlocked, hholder⟩ := ho.lock_kept hm hlock rfl
  refine ⟨hlocked, hholder, hm.sole id ho.stopper, fun _ => ⟨hm.shared ▸ hlive, hnone⟩, ?_,
    ho.halted_kept hm (fun _ => hrunning.trans (ho.halted i (.inl hm.before))) hrunning⟩
  intro j hj
  have hstops := hnone j
  rcases hj with hj | hj <;> (rw [hj] at hstops; cases hstops)

theorem Orderly.set (ho : Orderly s)
    (hm : Moves s t i (.start .made) (.start .set) { s.shared with isRunning := true }) :
    Orderly t := by
  obtain ⟨hlive, hnone⟩ := ho.live (.inr ⟨i, hm.before⟩)
  obtain ⟨hlocked, hholder⟩ := ho.lock_kept hm rfl rfl
  refine ⟨hlocked, hholder, hm.sole id ho.stopper, ?_, ho.unsignalled_kept hm (by simp) rfl rfl, ?_⟩
  · rw [hm.shared]
    exact fun _ => ⟨hlive, hm.forall (P := fun q => q.stops = false) rfl hnone⟩
  · intro j hj
    -- the lock keeps every other `Start` out
    by_cases hji : j = i
    · rw [hji, hm.after] at hj
      simp at hj
    · rw [hm.others j hji] at hj
      have hi : (s.threads i).holdsLock = true := hm.before ▸ rfl
      exact absurd (ho.holder j i (by rcases hj with hj | hj <;> (rw [hj]; rfl)) hi) hji

theorem Orderly.started (ho : Orderly s)
    (hm : Moves s t i (.start .set) (.sender .idle) { s.shared with locked := false }) :
    Orderly t := by
  obtain ⟨hlocked, hholder⟩ := ho.lock_released hm rfl rfl
  refine ⟨hlocked, hholder, hm.sole id ho.stopper, ?_, ho.unsignalled_kept hm (by simp) rfl rfl,
    ho.halted_kept hm (by simp) rfl⟩
  rw [hm.shared]
  intro h
  obtain ⟨hlive, hnone⟩ := ho.live (h.imp_right (hm.made (by simp)))
  exact ⟨hlive, hm.forall (P := fun q => q.stops = false) rfl hnone⟩

theorem Orderly.step {e : Nat × Event} (ho : Orderly s) (hst : step s e = some t) : Orderly t := by
  obtain ⟨i, e⟩ := e
  obtain ⟨party', g', ha, hg, hti, hothers⟩ := Threads.step_cases hst
  generalize hi : s.threads i = party at ha
  have hm : Moves s t i party party' g' := ⟨hi, hti, hg, hothers⟩
  cases act_effect ha with
  | sender x => exact ho.of_alike (hg ▸ x.next_alike s.shared) hi hti hothers
  | checked elem running y y_eq => exact ho.of_alike (hg ▸ .refl _) hi hti hothers
  | looked y y_eq => exact ho.of_alike (hg ▸ .refl _) hi hti hothers
  | routine alike => exact ho.of_alike (hg ▸ alike) hi hti hothers
  | routineReturns stopped => exact ho.routineReturns hm stopped
  | swap running => exact ho.swap hm running
  | lockStop unlocked => exact ho.lockStop hm unlocked
  | signal | join | closeNonce | closeInbound =>
    exact ho.stop_on hm (ho.lock_kept hm rfl rfl) (by simp) rfl
  | stopped => exact ho.stop_on hm (ho.lock_released hm rfl rfl) (by simp) rfl
  | lockStart unlocked halted => exact ho.lockStart hm unlocked halted
  | make joined => exact ho.make hm joined ⟨nofun, rfl, by simp, by simp⟩ rfl rfl
  | set => exact ho.set hm
  | started => exact ho.started hm

end

/-! ## Sends -/

def Sender.sendsNonce : Sender → Bool
  | .tunChecked _ | .tunAdds .. | .tunDrops .. | .keepaliveChecked _ | .keepaliveSends .. => true
  | _ => false

def Sender.sendsInbound : Sender → Bool
  | .incomingChecked _ | .incomingAdds .. => true
  | _ => false

/-- `Stop` closes a queue when no sender is between its look at `isRunning` and its send. -/
def CloseGuard (s : Threads.State Peer Party) (e : Nat × Event) : Prop :=
  match s.threads e.1, e.2 with
  | .stop .joined, .next => ∀ j x, s.threads j = .sender x → x.sendsNonce = false
  | .stop .closedNonce, .next => ∀ j x, s.threads j = .sender x → x.sendsInbound = false
  | _, _ => True

/-- The queue that a sender is going to send on is open. -/
def FindsOpen (g : Peer) : Party → Prop
  | .sender (.tunChecked _) | .sender (.keepaliveChecked _) => (g.nonce g.starts).closed = false
  | .sender (.tunAdds queue _) | .sender (.tunDrops queue _) | .sender (.keepaliveSends queue _) =>
    (g.nonce queue).closed = false
  | .sender (.incomingChecked _) => (g.inbound g.starts).closed = false
  | .sender (.incomingAdds queue _) => (g.inbound queue).closed = false
  | .sender .sentOnClosed => False
  | _ => True

section
variable {g g' : Peer} {s t : Threads.State Peer Party}

theorem FindsOpen.congr {party : Party} (hf : FindsOpen g party) (hstarts : g'.starts = g.starts)
    (hnonce : ∀ queue, (g'.nonce queue).closed = (g.nonce queue).closed)
    (hinbound : ∀ queue, (g'.inbound queue).closed = (g.inbound queue).closed) :
    FindsOpen g' party := by
  unfold FindsOpen at hf ⊢
  split at hf
  all_goals simp_all

theorem Sender.next_findsOpen {x : Sender} (hrun : g.isRunning = true → g.Live)
    (hf : FindsOpen g (.sender x)) : FindsOpen (x.next g).2 (.sender (x.next g).1) := by
  have halike := x.next_alike g
  refine FindsOpen.congr (g := g) ?_ halike.starts halike.nonce halike.inbound
  cases x with
  | idle => trivial
  | tunChecked elem => exact hf
  | tunAdds queue elem =>
    rw [Sender.next]
    split
    · trivial
    · exact hf
    · rename_i hpanics
      exact absurd hpanics (Chan.send_ne_panics hf)
  | tunDrops queue elem =>
    rw [Sender.next]
    split
    · exact hf
    · exact hf
    · trivial
  | keepaliveEmpty elem =>
    rw [Sender.next]
    split <;> trivial
  | keepaliveKeyed elem =>
    rw [Sender.next]
    split
    · rename_i hrunning
      exact (hrun hrunning).2.2.1
    · trivial
  | keepaliveChecked elem => exact hf
  | keepaliveSends queue elem =>
    rw [Sender.next]
    split
    · trivial
    · trivial
    · rename_i hpanics
      exact absurd hpanics (Chan.send_ne_panics hf)
  | incomingChecked elem => exact hf
  | incomingAdds queue elem =>
    rw [Sender.next]
    split
    · trivial
    · trivial
    · rename_i hpanics
      exact absurd hpanics (Chan.send_ne_panics hf)
  | sentOnClosed => exact hf
  | droppedNil => trivial

theorem FindsOpen.make {party : Party} (hf : FindsOpen g party) (hstarts : g'.starts = g.starts + 1)
    (hnonce : g'.nonce = Function.update g.nonce (g.starts + 1) (.make QueueOutboundSize))
    (hinbound : g'.inbound = Function.update g.inbound (g.starts + 1) (.make QueueInboundSize)) :
    FindsOpen g' party := by
  have hopen : ∀ (f : Nat → Chan Nat) size queue, (f queue).closed = false →
      (Function.update f (g.starts + 1) (.make size) queue).closed = false := by
    intro f size queue hq
    by_cases hs : queue = g.starts + 1
    · rw [hs, Function.update_self, Chan.make_closed]
    · rw [Function.update_of_ne hs, hq]
  unfold FindsOpen at hf ⊢
  split at hf
  all_goals simp_all

theorem FindsOpen.setNonce {party : Party} {queue : Nat} {c : Chan Nat} (hf : FindsOpen g party)
    (hx : ∀ x, party = .sender x → x.sendsNonce = false) :
    FindsOpen (g.setNonce queue c) party := by
  unfold FindsOpen at hf ⊢
  split at hf
  case h_8 => trivial
  all_goals first | exact hf | cases hx _ rfl

theorem FindsOpen.setInbound {party : Party} {queue : Nat} {c : Chan Nat} (hf : FindsOpen g party)
    (hx : ∀ x, party = .sender x → x.sendsInbound = false) :
    FindsOpen (g.setInbound queue c) party := by
  unfold FindsOpen at hf ⊢
  split at hf
  case h_8 => trivial
  all_goals first | exact hf | cases hx _ rfl

/-- A step closes only queues on which nobody is going to send. -/
theorem findsOpen_step {e : Nat × Event} (ho : Orderly s)
    (hf : ∀ j, FindsOpen s.shared (s.threads j))
    (hguard : CloseGuard s e) (hst : step s e = some t) :
    ∀ j, FindsOpen t.shared (t.threads j) := by
  obtain ⟨i, e⟩ := e
  have hrun : s.shared.isRunning = true → s.shared.Live := fun h => (ho.live (.inl h)).1
  refine Threads.step_forall hf hst ?_ ?_
  · intro party' g' ha
    have hown := hf i
    have heffect := act_effect ha
    generalize s.threads i = party at heffect hown
    cases heffect with
    | sender x => exact Sender.next_findsOpen hrun hown
    | checked elem running y y_eq =>
      rcases y_eq with rfl | rfl
      · exact (hrun running).2.2.1
      · exact (hrun running).2.2.2
    | looked y y_eq => rcases y_eq with rfl | ⟨elem, rfl⟩ <;> trivial
    | routine | routineReturns | swap | lockStop | signal | join | closeNonce
    | closeInbound | stopped
    | lockStart | make | set | started => trivial
  · intro party' g' j ha hj hother
    have heffect := act_effect ha
    unfold CloseGuard at hguard
    generalize s.threads i = party at heffect hguard
    cases heffect with
    | sender x =>
      have halike := x.next_alike s.shared
      exact hother.congr halike.starts halike.nonce halike.inbound
    | routine alike => exact hother.congr alike.starts alike.nonce alike.inbound
    | closeNonce => exact hother.setNonce (hguard j)
    | closeInbound => exact hother.setInbound (hguard j)
    | make joined => exact hother.make rfl rfl rfl
    | checked | looked | routineReturns | swap | lockStop | signal | join | stopped
    | lockStart | set
    | started => exact hother.congr rfl (fun _ => rfl) (fun _ => rfl)

end

theorem newPeer_orderly : Orderly newPeer :=
  ⟨nofun, nofun, nofun, by simp [newPeer], by simp [newPeer], by simp [newPeer]⟩

/-- In every guarded run nobody has sent on a closed queue. -/
theorem no_send_on_closed (events : List (Nat × Event))
    (hguard : Run.Meets step CloseGuard newPeer events)
    (t : Threads.State Peer Party) (run : Run.exec step newPeer events = some t) (j : Nat) :
    t.threads j ≠ .sender .sentOnClosed := by
  have hkept := Run.exec_guarded (P := fun s => Orderly s ∧ ∀ j, FindsOpen s.shared (s.threads j))
    CloseGuard (fun s e t hs hg hst => ⟨hs.1.step hst, findsOpen_step hs.1 hs.2 hg hst⟩)
    ⟨newPeer_orderly, fun _ => trivial⟩ hguard run
  intro hj
  have hopen := hkept.2 j
  rw [hj] at hopen
  exact hopen

/-- `Start` and `Stop` by thread 0. -/
def started : List (Nat × Event) := [.start, .next, .next, .next].map (Prod.mk 0)

def stopped : List (Nat × Event) :=
  [Event.stop, .next, .next].map (Prod.mk 0) ++
    [Event.routineReturns, .routineReturns, .routineReturns].map (Prod.mk 1) ++
    [Event.next, .next, .next, .next].map (Prod.mk 0)

/-- The reader of the tunnel has sent before the peer is stopped. -/
theorem no_send_on_closed_stopped :
    ∃ t, Run.exec step newPeer (started ++ [.tun 5, .next, .next].map (Prod.mk 2) ++ stopped) =
      some t ∧ (t.shared.nonce 1).closed = true ∧ (t.shared.nonce 1).items = [5] ∧
      ∀ j, t.threads j ≠ .sender .sentOnClosed := by
  refine ⟨_, rfl, rfl, rfl, ?_⟩
  refine no_send_on_closed (started ++ [.tun 5, .next, .next].map (Prod.mk 2) ++ stopped) ?_ _ rfl
  iterate 14 refine Run.meets_cons trivial rfl ?_
  refine Run.meets_cons ?_ rfl (Run.meets_cons ?_ rfl (Run.meets_cons trivial rfl trivial))
  all_goals
    intro j x hx
    rcases j with _ | _ | _ | j <;> cases hx <;> rfl

/-- All three have seen the peer running; the first two send when it has been stopped, and
the third, which has looked the queue up by then, when it has been started again. -/
theorem sends_on_closed :
    ∃ t, Run.exec step newPeer
      (started ++ [(2, .tun 5), (3, .incoming 6), (4, .keepalive 7), (4, .next),
        (4, .next), (4, .next)] ++ stopped ++ [(2, .next), (2, .next), (3, .next), (3, .next)] ++
          started ++
        [(4, .next)]) = some t ∧
      t.threads 2 = .sender .sentOnClosed ∧ t.threads 3 = .sender .sentOnClosed ∧
      t.threads 4 = .sender .sentOnClosed :=
  ⟨_, rfl, rfl, rfl, rfl⟩

end Sewg.Go.PeerQueues
