import Mathlib.Logic.Function.Basic
import Sewg.Bridge.Core
import Sewg.Kernel.Counter

/-! `wg_packet_rx_poll`: from the queue of decrypted packets to
`wg_packet_consume_data_done`, with the package lookup and the authorisation by
the trusted app in between. -/

namespace Sewg.Kernel
open CString Bridge

inductive PacketState
  | uncrypted
  | crypted
  | dead
  deriving DecidableEq

/-- The outer network header, by `skb->protocol`. For IPv6 with what
`ipv6_iface_scope_id` gives for its source. -/
inductive NetworkHeader
  | ip (saddr daddr : UInt32)
  | ipv6 (saddr daddr : Bytes) (scopeId : UInt32)
  | other

structure Skb where
  /-- The address of the structure itself, as an `int`. -/
  self : Int32
  state : PacketState
  nonce : UInt64
  keypair : Nat
  header : NetworkHeader
  source : UInt16
  skbIif : Int32

inductive Endpoint
  | zeroed
  | inet (sinPort : UInt16) (sinAddr src4 : UInt32) (srcIf4 : Int32)
  | inet6 (sin6Port : UInt16) (sin6Addr : Bytes) (sin6ScopeId : UInt32) (src6 : Bytes)

def EINVAL : Int := 22

def wgSocketEndpointFromSkb (skb : Skb) : Int × Endpoint :=
  match skb.header with
  | .ip saddr daddr => (0, .inet skb.source saddr daddr skb.skbIif)
  | .ipv6 saddr daddr scopeId => (0, .inet6 skb.source saddr scopeId daddr)
  | .other => (-EINVAL, .zeroed)

section
variable (w : Nat)

/-- `sizeof(buff)` is the size of the pointer. -/
def runcmd (popen : String → Option Bytes) (cmd : String) (buff : Mem) : Int × Mem :=
  match popen cmd with
  | none => (-1, buff)
  | some output => (0, fgets buff (w / 8) output)

def pakgCmd (port : Int32) : String :=
  "pid=`lsof -i:" ++ toString port ++ " " ++
    "| awk '\x7bprint $2\x7d' | sed -n '2p'` && cat /proc/$pid/status " ++
    "|head -1 | awk '\x7bprint $2\x7d'"

def wgSocketPakgFromSkb (popen : String → Option Bytes) (pakg : Mem) (port : Int32) : Int × Mem :=
  let (ret, pakg) := runcmd w popen (pakgCmd port) pakg
  if ret ≠ 0 then (-1, pakg) else (0, pakg)

/-- A packet in the queue, with what the shell and the trusted app do when they
are asked about it. -/
structure Packet where
  skb : Skb
  popen : String → Option Bytes
  auth : Transport

/-- What the loop carries from packet to packet: the receive counter of each
keypair, the buffers of the bridge, and `pakg`. -/
structure Rx where
  counters : Nat → NoiseCounter w
  globals : Globals
  pakg : Mem

/-- The loop body. The endpoint when the packet goes to
`wg_packet_consume_data_done`, `none` for each `goto next`. -/
def rxPacket (rx : Rx w) (p : Packet) : Option Endpoint × Rx w :=
  if p.skb.state ≠ .crypted then (none, rx)
  else
    let (fresh, c) := counterValidate w (rx.counters p.skb.keypair) p.skb.nonce.toNat
    let rx := { rx with counters := Function.update rx.counters p.skb.keypair c }
    if !fresh then (none, rx)
    else
      let (ret, endpoint) := wgSocketEndpointFromSkb p.skb
      if ret ≠ 0 then (none, rx)
      else
        -- the function takes a port, the caller passes the skb
        let (ret, pakg) := wgSocketPakgFromSkb w p.popen rx.pakg p.skb.self
        let rx := { rx with pakg }
        if ret ≠ 0 then (none, rx)
        else
          let (ret, globals) := coreAuth rx.globals rx.pakg p.auth
          let rx := { rx with globals }
          if ret = 0 then (none, rx) else (some endpoint, rx)

/-- One packet taken from the ring: the receive counter it met, and the
endpoint it was delivered with. -/
structure Handled where
  packet : Packet
  counter : NoiseCounter w
  delivered : Option Endpoint

structure Polled where
  handled : List (Handled w)
  ring : List Packet
  workDone : Int
  completed : Bool
  rx : Rx w

/-- The `while` loop. It stops at a packet that is not decrypted yet, and after
`budget` packets. -/
def rxLoop (budget : Int) : Int → Rx w → List Packet → Polled w
  | workDone, rx, [] => ⟨[], [], workDone, false, rx⟩
  | workDone, rx, p :: ring =>
    if p.skb.state = .uncrypted then ⟨[], p :: ring, workDone, false, rx⟩
    else
      let (delivered, rx') := rxPacket w rx p
      let handled := ⟨p, rx.counters p.skb.keypair, delivered⟩
      if workDone + 1 ≥ budget then ⟨[handled], ring, workDone + 1, false, rx'⟩
      else
        let polled := rxLoop budget (workDone + 1) rx' ring
        { polled with handled := handled :: polled.handled }

def wgPacketRxPoll (rx : Rx w) (ring : List Packet) (budget : Int) : Polled w :=
  if budget ≤ 0 then ⟨[], ring, 0, false, rx⟩
  else
    let polled := rxLoop w budget 0 rx ring
    { polled with completed := polled.workDone < budget }

/-! ## Which packets are delivered -/

/-- The package lookup for the packet works. -/
def LookedUp (p : Packet) : Prop := (p.popen (pakgCmd p.skb.self)).isSome

variable {w}

/-- Decrypted, with a counter that is fresh against `c`, a valid endpoint and a
package. -/
structure Ready (p : Packet) (c : NoiseCounter w) : Prop where
  crypted : p.skb.state = .crypted
  fresh : (counterValidate w c p.skb.nonce.toNat).1 = true
  endpoint : (wgSocketEndpointFromSkb p.skb).1 = 0
  lookedUp : LookedUp p

theorem pakgFromSkb_ret (popen : String → Option Bytes) (pakg : Mem) (port : Int32) :
    (wgSocketPakgFromSkb w popen pakg port).1 = 0 ↔ (popen (pakgCmd port)).isSome := by
  unfold wgSocketPakgFromSkb runcmd
  cases popen (pakgCmd port) <;> simp

/-- The counters after one packet. -/
def advance (counters : Nat → NoiseCounter w) (p : Packet) : Nat → NoiseCounter w :=
  if p.skb.state = .crypted then
    Function.update counters p.skb.keypair
      (counterValidate w (counters p.skb.keypair) p.skb.nonce.toNat).2
  else counters

theorem rxPacket_counters (rx : Rx w) (p : Packet) :
    (rxPacket w rx p).2.counters = advance rx.counters p := by
  unfold rxPacket advance
  by_cases hs : p.skb.state = .crypted
  · simp only [hs, ne_eq, not_true_eq_false, ↓reduceIte]
    repeat' first | rfl | split
  · simp only [hs, ne_eq, not_false_eq_true, ↓reduceIte]

/-- Every ready packet is delivered: `Core_Auth` never returns 0, so its test
never drops one. -/
theorem rxPacket_delivers (rx : Rx w) (p : Packet) :
    (rxPacket w rx p).1.isSome ↔ Ready p (rx.counters p.skb.keypair) := by
  have unread : ∀ g pakg, ¬(coreAuth g pakg p.auth).1 = 0 := by
    intro g pakg
    rw [coreAuth_ret]
    decide
  unfold rxPacket
  by_cases hs : p.skb.state = .crypted
  · by_cases hf : (counterValidate w (rx.counters p.skb.keypair) p.skb.nonce.toNat).1 = true
    · by_cases he : (wgSocketEndpointFromSkb p.skb).1 = 0
      · by_cases hl : LookedUp p
        · have hp := (pakgFromSkb_ret (w := w) p.popen rx.pakg p.skb.self).mpr hl
          simp only [hs, hf, he, hp, unread, ne_eq, not_true_eq_false, Bool.not_true,
            Bool.false_eq_true, ↓reduceIte, Option.isSome_some, true_iff]
          exact ⟨hs, hf, he, hl⟩
        · have hp := mt (pakgFromSkb_ret (w := w) p.popen rx.pakg p.skb.self).mp hl
          simp only [hs, hf, he, hp, ne_eq, not_true_eq_false, not_false_eq_true, Bool.not_true,
            Bool.false_eq_true, ↓reduceIte, Option.isSome_none, false_iff]
          exact fun h => hl h.lookedUp
      · simp only [hs, hf, he, ne_eq, not_true_eq_false, not_false_eq_true, Bool.not_true,
          Bool.false_eq_true, ↓reduceIte, Option.isSome_none, false_iff]
        exact fun h => he h.endpoint
    · simp only [hs, hf, ne_eq, not_true_eq_false, Bool.not_false, Bool.false_eq_true,
        ↓reduceIte, Option.isSome_none, false_iff]
      exact fun h => hf h.fresh
  · simp only [hs, ne_eq, not_false_eq_true, ↓reduceIte, Option.isSome_none,
      Bool.false_eq_true, false_iff]
    exact fun h => hs h.crypted

/-! ## The whole poll -/

/-- The packets in order, each with the receive counter it meets. -/
def arrivals (counters : Nat → NoiseCounter w) : List Packet → List (Packet × NoiseCounter w)
  | [] => []
  | p :: ps => (p, counters p.skb.keypair) :: arrivals (advance counters p) ps

/-- The packets one poll takes: up to the first that is still to be decrypted,
and no more than the budget. -/
def polled (ring : List Packet) (budget : Int) : List Packet :=
  (ring.takeWhile fun p => p.skb.state ≠ .uncrypted).take budget.toNat

theorem rxLoop_handled (budget workDone : Int) (h : workDone < budget) (rx : Rx w)
    (ring : List Packet) :
    (rxLoop w budget workDone rx ring).handled.map (fun h => (h.packet, h.counter)) =
        arrivals rx.counters (polled ring (budget - workDone)) ∧
      ∀ h ∈ (rxLoop w budget workDone rx ring).handled,
        h.delivered.isSome ↔ Ready h.packet h.counter := by
  induction ring generalizing workDone rx with
  | nil => simp [rxLoop, polled, arrivals]
  | cons p ring ih =>
    obtain ⟨n, hn⟩ := Nat.exists_eq_succ_of_ne_zero (n := (budget - workDone).toNat) (by omega)
    by_cases hu : p.skb.state = .uncrypted
    · simp [rxLoop, polled, arrivals, hu]
    · have hp : polled (p :: ring) (budget - workDone) =
          p :: polled ring (budget - (workDone + 1)) := by
        have hm : (budget - (workDone + 1)).toNat = n := by omega
        simp [polled, hu, hn, hm]
      have delivers := rxPacket_delivers rx p
      have counters := rxPacket_counters rx p
      rw [hp, arrivals, ← counters]
      simp only [rxLoop, hu, ↓reduceIte]
      generalize rxPacket w rx p = out at delivers counters ⊢
      obtain ⟨delivered, rx'⟩ := out
      dsimp only at delivers ⊢
      by_cases hb : workDone + 1 ≥ budget
      · have hz : (budget - (workDone + 1)).toNat = 0 := by omega
        simp only [hb, ↓reduceIte, polled, hz, List.take_zero, arrivals, List.map_cons,
          List.map_nil, true_and, List.mem_singleton, forall_eq]
        exact delivers
      · obtain ⟨same, each⟩ := ih (workDone + 1) (by omega) rx'
        simp only [hb, ↓reduceIte, List.map_cons, same, List.mem_cons, forall_eq_or_imp, true_and]
        exact ⟨delivers, each⟩

theorem wgPacketRxPoll_handled (rx : Rx w) (ring : List Packet) (budget : Int) :
    (wgPacketRxPoll w rx ring budget).handled.map (fun h => (h.packet, h.counter)) =
        arrivals rx.counters (polled ring budget) ∧
      ∀ h ∈ (wgPacketRxPoll w rx ring budget).handled,
        h.delivered.isSome ↔ Ready h.packet h.counter := by
  unfold wgPacketRxPoll
  split
  · rename_i hb
    simp [polled, arrivals, Int.toNat_of_nonpos hb]
  · rename_i hb
    simpa using rxLoop_handled budget 0 (by omega) rx ring

/-- A packet was delivered only with a package and an authorisation, and was
delivered if it had both and was otherwise in order. -/
structure Authorised (h : Handled w) : Prop where
  only : h.delivered.isSome → LookedUp h.packet ∧ h.packet.auth.Ok
  every : Ready h.packet h.counter → h.packet.auth.Ok → h.delivered.isSome

/-- The answer of the trusted app plays no part in the poll, so delivery agrees
with it exactly when it allows every packet that is ready. -/
theorem poll_authorised (rx : Rx w) (ring : List Packet) (budget : Int) :
    (∀ h ∈ (wgPacketRxPoll w rx ring budget).handled, Authorised h) ↔
      ∀ a ∈ arrivals rx.counters (polled ring budget), Ready a.1 a.2 → a.1.auth.Ok := by
  obtain ⟨same, delivers⟩ := wgPacketRxPoll_handled rx ring budget
  rw [← same, List.forall_mem_map]
  constructor
  · intro sound h hh ready
    exact ((sound h hh).only ((delivers h hh).mpr ready)).2
  · intro allowed h hh
    constructor
    · intro delivered
      have ready := (delivers h hh).mp delivered
      exact ⟨ready.lookedUp, allowed h hh ready⟩
    · intro ready _
      exact (delivers h hh).mpr ready

end

/-- A first packet over IPv4, with an empty package name. -/
def firstPacket (auth : Transport) : Packet where
  skb := ⟨0, .crypted, 0, 0, .ip 0 0, 0, 0⟩
  popen := fun _ => some []
  auth := auth

def idle : Rx 64 :=
  ⟨fun _ => .zeroed 64, ⟨⟨0, fun _ => 0⟩, ⟨0, fun _ => 0⟩⟩, fun _ => 0⟩

theorem firstPacket_ready (auth : Transport) :
    Ready (firstPacket auth) (NoiseCounter.zeroed 64) :=
  ⟨rfl, show (counterValidate 64 (.zeroed 64) 0).1 = true by decide +kernel, rfl, rfl⟩

theorem poll_authorised_first :
    ∀ h ∈ (wgPacketRxPoll 64 idle [firstPacket ⟨0, 0, fun _ => 0⟩] 1).handled, Authorised h := by
  apply (poll_authorised idle [firstPacket ⟨0, 0, fun _ => 0⟩] 1).mpr
  intro a ha _
  rw [List.mem_singleton.mp ha]
  decide

/-- The trusted app cannot be reached, and the packet is delivered. -/
theorem unauthorised_delivery :
    ∃ h ∈ (wgPacketRxPoll 64 idle [firstPacket ⟨-1, 0, fun _ => 0⟩] 1).handled,
      h.delivered.isSome ∧ ¬h.packet.auth.Ok := by
  obtain ⟨same, delivers⟩ := wgPacketRxPoll_handled idle [firstPacket ⟨-1, 0, fun _ => 0⟩] 1
  have one : (firstPacket ⟨-1, 0, fun _ => 0⟩, NoiseCounter.zeroed 64) ∈
      (wgPacketRxPoll 64 idle [firstPacket ⟨-1, 0, fun _ => 0⟩] 1).handled.map
        fun h => (h.packet, h.counter) := by
    rw [same]
    exact List.mem_singleton_self _
  obtain ⟨h, hh, he⟩ := List.mem_map.mp one
  obtain ⟨hp, hc⟩ := Prod.mk.inj he
  refine ⟨h, hh, (delivers h hh).mpr ?_, ?_⟩
  · rw [hp, hc]
    exact firstPacket_ready _
  · rw [hp]
    decide

end Sewg.Kernel
