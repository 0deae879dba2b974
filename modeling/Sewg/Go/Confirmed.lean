import Mathlib.Data.List.Nodup
import Sewg.Go.Calls
import Sewg.Go.Replay
import Sewg.Go.RoundTrip

/-! Which keypair is used for sending. The initiator of a session has heard from the other
side when it derives the keys, the responder has not: its keypair waits in `next` until a
packet arrives under it. -/

namespace Sewg.Go
open CString Noise Words

/-- `Keypairs.Current`, which `RoutineNonce` asks for the keypair of a packet. -/
def Keypairs.Current (keypairs : Keypairs) : Option Keypair := keypairs.current

/-- What happens to the sessions, one thing after the other. -/
inductive SessionEvent where
  /-- A handshake or session function is called. -/
  | call (c : Call) (now : Int)
  /-- An element with this keypair and datagram comes to the peer's decryption and then to
  its sequential receiver. -/
  | data (peer : Nat) (keypair : Keypair) (buffer : Slice)

section
variable {w : Nat}

/-- `new(Keypair)` with its replay filter. -/
def newReplayFilter (w : Nat) : ReplayFilter w := ReplayFilter.Init ⟨0, Vector.replicate _ 0⟩

/-- The keypair numbered next gets its time of creation and its filter. -/
def Receiver.addKeypair (r : Receiver w) (peer : Nat) (device : Device) (now : Int) : Receiver w :=
  let ptr := (r.device.peers peer).sessions.length
  { r with
    device
    created := Function.update r.created peer (Function.update (r.created peer) ptr now)
    replayFilter := Function.update r.replayFilter peer
      (Function.update (r.replayFilter peer) ptr (newReplayFilter w)) }

variable (p : Primitives) (aead : Aead) (e : Endian)

/-- An element's keypair is one of the peer's. `ReceivedWithKeypair` is called by the
sequential receiver only. -/
def sessionStep (r : Receiver w) : SessionEvent → Option (Receiver w)
  | .call (.receivedWithKeypair ..) _ => none
  | .call (.beginSymmetricSession peer) now =>
    match beginSymmetricSession p r.device peer with
    | .error _ => some r
    | .ok device => some (r.addKeypair peer device now)
  | .call c _ => (callStep p r.device c).map fun device => { r with device }
  | .data peer keypair buffer =>
    if keypair ∈ (r.device.peers peer).sessions then
      match decrypt aead keypair buffer with
      | none => some r
      | some (counter, packet) => (r.sequential e peer keypair counter packet).map Prod.fst
    else none

end

/-! ### What one event does to a peer's keypairs -/

/-- What can happen to the slots and the sessions of a peer. -/
inductive Slots (peer : Peer) : Peer → Prop
  | same {peer'} (keypairs : peer'.keypairs = peer.keypairs)
      (sessions : peer'.sessions = peer.sessions) :
    Slots peer peer'
  | zeroed {peer'} (keypairs : peer'.keypairs = {}) (sessions : peer'.sessions = peer.sessions) :
    Slots peer peer'
  | begun {peer'} (x : Keypair) (table : IndexTable) (ptr : x.ptr = peer.sessions.length)
      (keypairs : peer'.keypairs = (rotate peer.keypairs x table).1)
      (sessions : peer'.sessions = x :: peer.sessions) : Slots peer peer'

section
variable {device device' : Device} {k : Nat}

theorem slots_set {peer' : Peer} (hpeers : device'.peers = Function.update device.peers k peer')
    (hk : Slots (device.peers k) peer') (j : Nat) : Slots (device.peers j) (device'.peers j) := by
  rw [hpeers]
  by_cases hj : j = k
  · rw [hj, Function.update_self]
    exact hk
  · rw [Function.update_of_ne hj]
    exact .same rfl rfl

theorem slots_setHandshake {h : Handshake}
    (hpeers : device'.peers = Function.update device.peers k { device.peers k with handshake := h })
    (j : Nat) :
    Slots (device.peers j) (device'.peers j) :=
  slots_set hpeers (.same rfl rfl) j

variable {p : Primitives}

theorem beginSession_slots {peer peer' : Peer} {table table' : IndexTable}
    (hb : beginSession p peer table = .ok (peer', table')) : Slots peer peer' := by
  unfold beginSession at hb
  dsimp only at hb
  split at hb
  · cases hb
  · cases hb
    exact .begun _ _ rfl rfl rfl

theorem callStep_slots {c : Call} (hr : ∀ peer keypair, c ≠ .receivedWithKeypair peer keypair)
    (hc : callStep p device c = some device') (j : Nat) :
    Slots (device.peers j) (device'.peers j) := by
  cases c with
  | createMessageInitiation peer r draws timestamp =>
    obtain ⟨⟨result, made⟩, created, rfl⟩ := Option.map_eq_some_iff.mp hc
    obtain ⟨⟨_, h, table⟩, -, he⟩ := Option.map_eq_some_iff.mp created
    cases he
    exact slots_setHandshake rfl j
  | consumeMessageInitiation msg call now later =>
    cases hc
    unfold consumeMessageInitiation
    split
    · exact .same rfl rfl
    · dsimp only
      split
      · exact .same rfl rfl
      · split
        · exact .same rfl rfl
        · split
          · exact .same rfl rfl
          · exact slots_setHandshake rfl j
  | createMessageResponse peer r draws =>
    obtain ⟨⟨result, made⟩, created, rfl⟩ := Option.map_eq_some_iff.mp hc
    obtain ⟨⟨_, h, table⟩, -, he⟩ := Option.map_eq_some_iff.mp created
    cases he
    exact slots_setHandshake rfl j
  | consumeMessageResponse msg call =>
    cases hc
    unfold consumeMessageResponse
    split
    · exact .same rfl rfl
    · split
      · exact .same rfl rfl
      · exact .same rfl rfl
      · dsimp only
        split
        · exact .same rfl rfl
        · split
          · exact .same rfl rfl
          · exact slots_setHandshake rfl j
  | beginSymmetricSession peer =>
    unfold callStep at hc
    dsimp only at hc
    split at hc
    · cases hc
      exact .same rfl rfl
    · rename_i begun
      cases hc
      obtain ⟨peer', table, hb, hpeers⟩ := beginSymmetricSession_begun p begun
      exact slots_set hpeers (beginSession_slots hb) j
  | receivedWithKeypair peer keypair => exact absurd rfl (hr peer keypair)
  | zeroAndFlushAll peer =>
    cases hc
    have hpeers :
        ((device.zeroKeypairs peer).clearHandshake peer).peers = Function.update device.peers peer
        { (device.peers peer) with
            keypairs := {}, handshake := (device.peers peer).handshake.clear } := by
      simp [Device.clearHandshake, Device.zeroKeypairs, Device.setHandshake]
    exact slots_set hpeers (.zeroed rfl rfl) j

end

section
variable {w : Nat} {p : Primitives} {aead : Aead} {e : Endian} {r r' : Receiver w}
  {event : SessionEvent} {k : Nat}

/-- The packet was authenticated and its counter was let through: what makes the next
keypair the current one. -/
structure Accepts (aead : Aead) (r : Receiver w) (k : Nat) (keypair : Keypair)
    (buffer : Slice) : Prop where
  derived : keypair ∈ (r.device.peers k).sessions
  passes : ∃ counter packet, decrypt aead keypair buffer = some (counter, packet) ∧
    ((r.replayFilter k keypair.ptr).ValidateCounter counter RejectAfterMessages).1 = true

/-- The next keypair was used by a packet. -/
structure Promotes (aead : Aead) (r : Receiver w) (event : SessionEvent) (k : Nat)
    (peer : Peer) : Prop where
  used : ∃ keypair buffer next, event = .data k keypair buffer ∧ Accepts aead r k keypair buffer ∧
    (r.device.peers k).keypairs.next = some next ∧ next.ptr = keypair.ptr
  keypairs : peer.keypairs = { current := (r.device.peers k).keypairs.next
                               previous := (r.device.peers k).keypairs.current, next := none }
  sessions : peer.sessions = (r.device.peers k).sessions

theorem receivedWithKeypair_slots {peer : Nat} {keypair : Keypair} {buffer : Slice}
    (ha : Accepts aead r peer keypair buffer) :
    Slots (r.device.peers k) ((r.device.receivedWithKeypair peer keypair).peers k) ∨
      Promotes aead r (.data peer keypair buffer) k
        ((r.device.receivedWithKeypair peer keypair).peers k) := by
  unfold Device.receivedWithKeypair
  dsimp only
  by_cases hnext : (r.device.peers peer).keypairs.next.map (·.ptr) ≠ some keypair.ptr
  · rw [if_pos hnext]
    exact .inl (.same rfl rfl)
  · rw [if_neg hnext]
    obtain ⟨next, hn, hptr⟩ := Option.map_eq_some_iff.mp (not_not.mp hnext)
    dsimp only
    by_cases hk : k = peer
    · subst hk
      rw [Function.update_self]
      exact .inr ⟨⟨keypair, buffer, next, rfl, ha, hn, hptr⟩, rfl, rfl⟩
    · rw [Function.update_of_ne hk]
      exact .inl (.same rfl rfl)

theorem sequential_slots {peer : Nat} {keypair : Keypair} {buffer packet : Slice} {counter : Nat}
    (hmem : keypair ∈ (r.device.peers peer).sessions)
    (hd : decrypt aead keypair buffer = some (counter, packet))
    {out : Option Bytes} (h : r.sequential e peer keypair counter packet = some (r', out)) :
    Slots (r.device.peers k) (r'.device.peers k) ∨
      Promotes aead r (.data peer keypair buffer) k (r'.device.peers k) := by
  unfold Receiver.sequential at h
  cases hv : (r.replayFilter peer keypair.ptr).ValidateCounter counter RejectAfterMessages with
  | mk ok filter =>
    rw [hv] at h
    dsimp only at h
    cases ok with
    | false =>
      cases h
      exact .inl (.same rfl rfl)
    | true =>
      obtain ⟨written, -, he⟩ := Option.bind_eq_some_iff.mp h
      cases he
      exact receivedWithKeypair_slots ⟨hmem, counter, packet, hd, by rw [hv]⟩

theorem sessionStep_slots (h : sessionStep p aead e r event = some r') (k : Nat) :
    Slots (r.device.peers k) (r'.device.peers k) ∨ Promotes aead r event k (r'.device.peers k) := by
  unfold sessionStep at h
  split at h
  · cases h
  · rename_i peer now
    split at h
    · cases h
      exact .inl (.same rfl rfl)
    · rename_i device begun
      cases h
      obtain ⟨peer', table, hb, hpeers⟩ := beginSymmetricSession_begun p begun
      exact .inl (slots_set hpeers (beginSession_slots hb) k)
  · rename_i c now hr _
    obtain ⟨device, hc, rfl⟩ := Option.map_eq_some_iff.mp h
    exact .inl (callStep_slots (fun peer keypair hc => hr peer keypair hc) hc k)
  · rename_i peer keypair buffer
    split at h
    · rename_i hmem
      split at h
      · cases h
        exact .inl (.same rfl rfl)
      · rename_i counter packet hd
        obtain ⟨⟨r₁, out⟩, hseq, rfl⟩ := Option.map_eq_some_iff.mp h
        exact sequential_slots hmem hd hseq
    · cases h

/-! ### Runs -/

/-- The keypairs of a peer are told apart by their numbers, and those in the slots are
different ones of them. -/
structure Peer.Derived (peer : Peer) : Prop where
  distinct : peer.keypairs.Distinct
  derived : ∀ x, peer.keypairs.Has x → x ∈ peer.sessions
  numbered : ∀ x ∈ peer.sessions, x.ptr < peer.sessions.length
  apart : (peer.sessions.map Keypair.ptr).Nodup

theorem Peer.Derived.eq_of_ptr {peer : Peer} (hp : peer.Derived) {x y : Keypair}
    (hx : x ∈ peer.sessions) (hy : y ∈ peer.sessions) (hptr : x.ptr = y.ptr) : x = y :=
  List.inj_on_of_nodup_map hp.apart hx hy hptr

theorem Slots.derived {peer peer' : Peer} (h : Slots peer peer') (hp : peer.Derived) :
    peer'.Derived := by
  cases h with
  | same keypairs sessions =>
    constructor
    · rw [keypairs]; exact hp.distinct
    · rw [keypairs, sessions]; exact hp.derived
    · rw [sessions]; exact hp.numbered
    · rw [sessions]; exact hp.apart
  | zeroed keypairs sessions =>
    constructor
    · rw [keypairs]; exact fun x => ⟨nofun, nofun⟩
    · rw [keypairs]; rintro x (h | h | h) <;> cases h
    · rw [sessions]; exact hp.numbered
    · rw [sessions]; exact hp.apart
  | begun x table ptr keypairs sessions =>
    have hnew : ¬ peer.keypairs.Has x := by
      intro hx
      exact Nat.ne_of_lt (hp.numbered x (hp.derived x hx)) ptr
    constructor
    · rw [keypairs]; exact rotate_distinct hnew
    · rw [keypairs, sessions]
      intro y hy
      rcases has_of_rotate hy with hy | rfl
      · exact List.mem_cons_of_mem _ (hp.derived y hy)
      · exact List.mem_cons_self
    · rw [sessions]
      intro y hy
      rw [List.length_cons]
      rcases List.mem_cons.mp hy with rfl | hy
      · omega
      · exact Nat.lt_succ_of_lt (hp.numbered y hy)
    · rw [sessions, List.map_cons, List.nodup_cons]
      refine ⟨?_, hp.apart⟩
      intro hx
      obtain ⟨y, hy, hptr⟩ := List.mem_map.mp hx
      have := hp.numbered y hy
      omega

theorem Promotes.derived {peer : Peer} (h : Promotes aead r event k peer)
    (hp : (r.device.peers k).Derived) :
    peer.Derived := by
  constructor
  · rw [h.keypairs]
    have := hp.distinct
    grind [Keypairs.Distinct]
  · rw [h.keypairs, h.sessions]
    intro x hx
    refine hp.derived x ?_
    grind [Keypairs.Has]
  · rw [h.sessions]; exact hp.numbered
  · rw [h.sessions]; exact hp.apart

theorem sessionStep_derived (hr : ∀ k, (r.device.peers k).Derived)
    (h : sessionStep p aead e r event = some r') (k : Nat) : (r'.device.peers k).Derived := by
  rcases sessionStep_slots h k with hs | hs
  · exact hs.derived (hr k)
  · exact hs.derived (hr k)

/-- A keypair that becomes the current one is the initiator's, or is used by a packet. -/
theorem sessionStep_current (hr : (r.device.peers k).Derived)
    (h : sessionStep p aead e r event = some r')
    {x : Keypair} (hx : (r'.device.peers k).keypairs.Current = some x) :
    (r.device.peers k).keypairs.Current = some x ∨ x.isInitiator = true ∨
      ∃ buffer, event = .data k x buffer ∧ Accepts aead r k x buffer := by
  rcases sessionStep_slots h k with hs | hs
  · cases hs with
    | same keypairs sessions => exact .inl (by rw [← keypairs]; exact hx)
    | zeroed keypairs sessions => rw [keypairs] at hx; cases hx
    | begun y table ptr keypairs sessions =>
      rw [keypairs, rotate] at hx
      cases hi : y.isInitiator with
      | true =>
        rw [hi] at hx
        cases hx
        exact .inr (.inl hi)
      | false =>
        rw [hi] at hx
        exact .inl hx
  · obtain ⟨keypair, buffer, next, rfl, ha, hn, hptr⟩ := hs.used
    rw [hs.keypairs] at hx
    have hsame : next = x := Option.some.inj (hn.symm.trans hx)
    subst hsame
    have heq := hr.eq_of_ptr (hr.derived next (.inr (.inr hn))) ha.derived hptr
    subst heq
    exact .inr (.inr ⟨buffer, rfl, ha⟩)

/-- The packet that took a keypair into use, in a run. -/
def Confirmed (p : Primitives) (aead : Aead) (e : Endian) (r : Receiver w)
    (events : List SessionEvent) (k : Nat) (x : Keypair) : Prop :=
  ∃ before buffer after u, events = before ++ .data k x buffer :: after ∧
    Run.exec (sessionStep p aead e) r before = some u ∧ Accepts aead u k x buffer

theorem run_current {events : List SessionEvent} (hr : ∀ k, (r.device.peers k).Derived)
    (h : Run.exec (sessionStep p aead e) r events = some r') {x : Keypair}
    (hx : (r'.device.peers k).keypairs.Current = some x) :
    (r.device.peers k).keypairs.Current = some x ∨ x.isInitiator = true ∨
      Confirmed p aead e r events k x := by
  induction events generalizing r with
  | nil =>
    cases h
    exact .inl hx
  | cons event events ih =>
    obtain ⟨u, hu, h⟩ := Run.exec_cons.mp h
    rcases ih (sessionStep_derived hr hu) h with hc | hi | ⟨before, buffer, after, v, rfl, hv, ha⟩
    · rcases sessionStep_current (hr k) hu hc with hc | hi | ⟨buffer, rfl, ha⟩
      · exact .inl hc
      · exact .inr (.inl hi)
      · exact .inr (.inr ⟨[], buffer, events, r, rfl, rfl, ha⟩)
    · exact .inr (.inl hi)
    · exact .inr (.inr ⟨event :: before, buffer, after, v, rfl, Run.exec_cons.mpr ⟨u, hu, hv⟩, ha⟩)

/-- The slots are different objects. -/
def Keypairs.Apart (keypairs : Keypairs) : Prop :=
  (∀ x y, keypairs.current = some x → keypairs.previous = some y → x.ptr ≠ y.ptr) ∧
  (∀ x y, keypairs.current = some x → keypairs.next = some y → x.ptr ≠ y.ptr) ∧
  ∀ x y, keypairs.previous = some x → keypairs.next = some y → x.ptr ≠ y.ptr

theorem Peer.Derived.keypairs_apart {peer : Peer} (hp : peer.Derived) : peer.keypairs.Apart := by
  have hne : ∀ x y, peer.keypairs.Has x → peer.keypairs.Has y → x ≠ y → x.ptr ≠ y.ptr :=
    fun x y hx hy hne hptr => hne (hp.eq_of_ptr (hp.derived x hx) (hp.derived y hy) hptr)
  refine ⟨?_, ?_, ?_⟩
  · intro x y hx hy
    refine hne x y (.inr (.inl hx)) (.inl hy) ?_
    rintro rfl
    exact ((hp.distinct x).1 hy).1 hx
  · intro x y hx hy
    refine hne x y (.inr (.inl hx)) (.inr (.inr hy)) ?_
    rintro rfl
    exact (hp.distinct x).2 hx hy
  · intro x y hx hy
    refine hne x y (.inl hx) (.inr (.inr hy)) ?_
    rintro rfl
    exact ((hp.distinct x).1 hx).2 hy

/-- Whatever sessions are derived and whatever data comes in, the keypair that is used for
sending is one this side has derived as initiator, or one that was used, after it was
derived, by an authenticated packet with a fresh counter. -/
theorem current_confirmed (p : Primitives) (aead : Aead) (e : Endian) (r : Receiver w)
    (hnew : ∀ k, (r.device.peers k).keypairs = {} ∧ (r.device.peers k).sessions = [])
    (events : List SessionEvent) (r' : Receiver w)
    (hrun : Run.exec (sessionStep p aead e) r events = some r') (k : Nat) :
    (r'.device.peers k).keypairs.Apart ∧
      ∀ x, (r'.device.peers k).keypairs.Current = some x →
        x ∈ (r'.device.peers k).sessions ∧
        (x.isInitiator = true ∨ Confirmed p aead e r events k x) := by
  have hstart : ∀ k, (r.device.peers k).Derived := by
    intro k
    obtain ⟨hkeypairs, hsessions⟩ := hnew k
    constructor
    · rw [hkeypairs]; exact fun x => ⟨nofun, nofun⟩
    · rw [hkeypairs]; rintro x (h | h | h) <;> cases h
    · rw [hsessions]; nofun
    · rw [hsessions]; exact List.nodup_nil
  have hderived : ∀ k, (r'.device.peers k).Derived :=
    Run.exec_invariant (P := fun r : Receiver w => ∀ k, (r.device.peers k).Derived)
      (fun _ _ _ hr h => sessionStep_derived hr h) hstart hrun
  refine ⟨(hderived k).keypairs_apart, ?_⟩
  intro x hx
  refine ⟨(hderived k).derived x (.inr (.inl hx)), ?_⟩
  rcases run_current hstart hrun hx with hc | h
  · rw [(hnew k).1] at hc
    cases hc
  · exact h

end

/-- A device with one peer and no session. -/
def listening : Receiver 64 where
  device := pairedDevice 2 1 3
  isRunning _ := true
  created _ _ := 0
  replayFilter _ _ := newReplayFilter 64
  allowedips := .Reset

/-- The peer's initiation is answered. -/
def answered : List SessionEvent :=
  [.call (.consumeMessageInitiation (initiationAt 1) (answering fun _ => 1) 0 0) 0,
    .call (.createMessageResponse 0 ⟨List.replicate 32 8, none⟩ [(9, none)]) 0,
    .call (.beginSymmetricSession 0) 0]

/-- A keepalive with counter 0. -/
def keepaliveDatagram : Slice := ⟨List.replicate 32 0, 32, by decide⟩

/-- The session of the answer. -/
def answeredKeypair : Keypair :=
  ((Run.exec (sessionStep plain plainAead .little) listening answered).bind
    fun r => (r.device.peers 0).keypairs.next).getD ⟨0, [], [], true, 0, 0⟩

/-- A keepalive under it makes it the current one. -/
theorem current_confirmed_answered :
    ∃ r, Run.exec (sessionStep plain plainAead .little) listening
        (answered ++ [.data 0 answeredKeypair keepaliveDatagram]) = some r ∧
      (r.device.peers 0).keypairs = { current := some answeredKeypair } ∧
      answeredKeypair.isInitiator = false ∧
      Confirmed plain plainAead .little listening
        (answered ++ [.data 0 answeredKeypair keepaliveDatagram]) 0 answeredKeypair := by
  have hkeypairs : (Run.exec (sessionStep plain plainAead .little) listening
      (answered ++ [.data 0 answeredKeypair keepaliveDatagram])).map (fun r =>
        (r.device.peers 0).keypairs) =
      some { current := some answeredKeypair } := by
    decide +kernel
  have hresponder : answeredKeypair.isInitiator = false := by decide +kernel
  obtain ⟨r, hr, hk⟩ := Option.map_eq_some_iff.mp hkeypairs
  have h := (current_confirmed plain plainAead .little listening (fun _ => ⟨rfl, rfl⟩) _ r hr 0).2
    answeredKeypair (by rw [hk]; rfl)
  refine ⟨r, hr, hk, hresponder, h.2.resolve_left ?_⟩
  rw [hresponder]
  nofun

end Sewg.Go
