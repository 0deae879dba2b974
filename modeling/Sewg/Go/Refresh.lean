import Sewg.Go.Transport
import Sewg.Lib.Run

/-! How a keypair made as initiator is replaced before it expires: by its age when a packet is
sent, by its age when one is received, and by a timer that runs from a packet sent until one
is received. Times are in nanoseconds. -/

namespace Sewg.Go

open Run

def Second : Int := 1000000000
def RekeyAfterMessages : Nat := 2 ^ 64 - 2 ^ 16 - 1
def RekeyAfterTime : Int := 1200 * Second
def RekeyTimeout : Int := 50 * Second
def KeepaliveTimeout : Int := 100 * Second

/-- Of a peer, what these mechanisms use, and the calls of `SendHandshakeInitiation` so far. -/
structure FreshState where
  timersActive : Bool
  /-- when the timer `newHandshake` runs out, while it is pending -/
  newHandshake : Option Int
  sentLastMinuteHandshake : Bool
  initiations : List Int
deriving DecidableEq

namespace FreshState

def SendHandshakeInitiation (p : FreshState) (now : Int) : FreshState :=
  { p with initiations := p.initiations ++ [now] }

def keepKeyFreshSending (p : FreshState) (current : Option SendKeypair) (now : Int) : FreshState :=
  match current with
  | none => p
  | some keypair =>
    if keypair.sendNonce > RekeyAfterMessages ∨
        (keypair.isInitiator ∧ now - keypair.created > RekeyAfterTime) then
      p.SendHandshakeInitiation now
    else p

def keepKeyFreshReceiving (p : FreshState) (current : Option SendKeypair) (now : Int) :
    FreshState :=
  if p.sentLastMinuteHandshake then p
  else
    match current with
    | none => p
    | some keypair =>
      if keypair.isInitiator ∧
          now - keypair.created > RejectAfterTime - KeepaliveTimeout - RekeyTimeout then
        { p with sentLastMinuteHandshake := true }.SendHandshakeInitiation now
      else p

def timersDataSent (p : FreshState) (now : Int) : FreshState :=
  if p.timersActive ∧ p.newHandshake = none then
    { p with newHandshake := some (now + (KeepaliveTimeout + RekeyTimeout)) }
  else p

def timersAnyAuthenticatedPacketReceived (p : FreshState) : FreshState :=
  if p.timersActive then { p with newHandshake := none } else p

/-- With what `NewTimer` does before the function it was given. -/
def expiredNewHandshake (p : FreshState) (now : Int) : FreshState :=
  { p with newHandshake := none }.SendHandshakeInitiation now

end FreshState

/-- What the routines of the peer do while a keypair is the current one. `RoutineSequentialSender`
calls `timersDataSent` for each data packet and `keepKeyFreshSending` for each packet, with the
`sendNonce` there is by then. `RoutineSequentialReceiver` calls `keepKeyFreshReceiving` and then
`timersAnyAuthenticatedPacketReceived`, `RoutineHandshake` only the latter. The last event is a
call of `SendHandshakeInitiation` from elsewhere: from `RoutineNonce` without a usable keypair,
from `RoutineReadFromTUN` while a packet awaits a key, or from `expiredRetransmitHandshake`. -/
inductive FreshEvent where
  | timersDataSent
  | keepKeyFreshSending (sendNonce : Nat)
  | keepKeyFreshReceiving
  | timersAnyAuthenticatedPacketReceived
  | expiredNewHandshake
  | initiationElsewhere
deriving DecidableEq

def FreshState.perform (keypair : SendKeypair) (p : FreshState) (now : Int) :
    FreshEvent → FreshState
  | .timersDataSent => p.timersDataSent now
  | .keepKeyFreshSending sendNonce =>
    p.keepKeyFreshSending (some { keypair with sendNonce := sendNonce }) now
  | .keepKeyFreshReceiving => p.keepKeyFreshReceiving (some keypair) now
  | .timersAnyAuthenticatedPacketReceived => p.timersAnyAuthenticatedPacketReceived
  | .expiredNewHandshake => p.expiredNewHandshake now
  | .initiationElsewhere => p.SendHandshakeInitiation now

/-- A peer at some time. -/
structure Moment where
  now : Int
  peer : FreshState
deriving DecidableEq

/-- Time does not go back, and does not go past a pending timer, which fires when it is due. What
else happens at that very time may come before it or after it. -/
def Moment.step (keypair : SendKeypair) (s : Moment) (event : Int × FreshEvent) : Option Moment :=
  let (t, e) := event
  if s.now ≤ t ∧ (s.peer.newHandshake.all (t ≤ ·)) ∧
      (e = .expiredNewHandshake → s.peer.newHandshake = some t) then
    some ⟨t, s.peer.perform keypair t e⟩
  else none

/-- The keypair has just become the current one: `timersHandshakeComplete` has cleared the flag.
A packet sent with the keypair before may have started the timer. -/
structure Moment.AtCreation (keypair : SendKeypair) (s : Moment) : Prop where
  initiator : keypair.isInitiator = true
  now : s.now = keypair.created
  active : s.peer.timersActive = true
  flag : s.peer.sentLastMinuteHandshake = false
  pending : ∀ due, s.peer.newHandshake = some due → due ≤ s.now + (KeepaliveTimeout + RekeyTimeout)
  initiations : s.peer.initiations = []

/-- The events of the life of the keypair, from its creation until its age is
`RejectAfterTime`. -/
structure Life (keypair : SendKeypair) (s : Moment) (events : List (Int × FreshEvent))
    (last : Moment) : Prop where
  created : s.AtCreation keypair
  run : exec (Moment.step keypair) s events = some last
  within : ∀ event ∈ events, event.1 < keypair.created + RejectAfterTime
  /-- Nothing more is due in this time. -/
  ended : ∀ due, last.peer.newHandshake = some due → keypair.created + RejectAfterTime ≤ due

/-- No authenticated packet is received before a timer due at that time has run out. -/
def Undisturbed (due : Int) (events : List (Int × FreshEvent)) : Prop :=
  ∀ t, (t, .timersAnyAuthenticatedPacketReceived) ∈ events →
    due < t ∨ due = t ∧ (t, .expiredNewHandshake) ∈ events

/-- What makes the peer ask for a new keypair: a packet received when the keypair is old enough,
a timer that was pending at the start, or that a data packet started early enough, and that is
left to run out, the number of packets sent, or another routine. -/
inductive Refreshing (keypair : SendKeypair) (pending : Option Int)
    (events : List (Int × FreshEvent)) : Prop where
  | received (t : Int) : (t, .keepKeyFreshReceiving) ∈ events →
      RejectAfterTime - KeepaliveTimeout - RekeyTimeout < t - keypair.created →
      Refreshing keypair pending events
  | pending (due : Int) : pending = some due → due < keypair.created + RejectAfterTime →
      Undisturbed due events → Refreshing keypair pending events
  | sent (before : List (Int × FreshEvent)) (t : Int) (after : List (Int × FreshEvent)) :
      events = before ++ (t, .timersDataSent) :: after →
      t - keypair.created < RejectAfterTime - KeepaliveTimeout - RekeyTimeout →
      Undisturbed (t + (KeepaliveTimeout + RekeyTimeout)) after → Refreshing keypair pending events
  | exhausted (t : Int) (sendNonce : Nat) : (t, .keepKeyFreshSending sendNonce) ∈ events →
      RekeyAfterMessages < sendNonce → Refreshing keypair pending events
  | elsewhere (t : Int) : (t, .initiationElsewhere) ∈ events → Refreshing keypair pending events

section
variable {keypair : SendKeypair} {p : FreshState} {s u last : Moment} {t due : Int} {e : FreshEvent}
  {event : Int × FreshEvent} {events : List (Int × FreshEvent)}

theorem step_eq_some : s.step keypair (t, e) = some u ↔
    (s.now ≤ t ∧ (∀ due, s.peer.newHandshake = some due → t ≤ due) ∧
      (e = .expiredNewHandshake → s.peer.newHandshake = some t)) ∧
    u = ⟨t, s.peer.perform keypair t e⟩ := by
  unfold Moment.step
  cases h : s.peer.newHandshake with
  | none => simp [eq_comm]
  | some due => simp [eq_comm]

/-- What one event does to the calls: none is forgotten, and there is a new one exactly when
the event says so. -/
theorem perform_initiations (hinitiator : keypair.isInitiator = true)
    (hlife : t < keypair.created + RejectAfterTime) :
    (p.perform keypair t e).initiations ≠ [] ↔ p.initiations ≠ [] ∨
      (e = .keepKeyFreshReceiving ∧ p.sentLastMinuteHandshake = false ∧
        RejectAfterTime - KeepaliveTimeout - RekeyTimeout < t - keypair.created) ∨
      e = .expiredNewHandshake ∨
      (∃ sendNonce, e = .keepKeyFreshSending sendNonce ∧ RekeyAfterMessages < sendNonce) ∨
      e = .initiationElsewhere := by
  have hyoung : ¬ RekeyAfterTime < t - keypair.created := by
    unfold RejectAfterTime at hlife
    unfold RekeyAfterTime Second
    omega
  cases e with
  | timersDataSent =>
    simp only [FreshState.perform, FreshState.timersDataSent]
    split <;> simp
  | keepKeyFreshSending sendNonce =>
    by_cases hnonce : RekeyAfterMessages < sendNonce <;>
      simp [FreshState.perform, FreshState.keepKeyFreshSending,
        FreshState.SendHandshakeInitiation, hyoung, hnonce]
  | keepKeyFreshReceiving =>
    cases hflag : p.sentLastMinuteHandshake with
    | true => simp [FreshState.perform, FreshState.keepKeyFreshReceiving, hflag]
    | false =>
      by_cases hold : RejectAfterTime - KeepaliveTimeout - RekeyTimeout < t - keypair.created <;>
        simp [FreshState.perform, FreshState.keepKeyFreshReceiving,
          FreshState.SendHandshakeInitiation, hflag, hinitiator, hold]
  | timersAnyAuthenticatedPacketReceived =>
    simp only [FreshState.perform, FreshState.timersAnyAuthenticatedPacketReceived]
    split <;> simp
  | expiredNewHandshake =>
    simp [FreshState.perform, FreshState.expiredNewHandshake, FreshState.SendHandshakeInitiation]
  | initiationElsewhere =>
    simp [FreshState.perform, FreshState.SendHandshakeInitiation]

theorem perform_newHandshake (keypair : SendKeypair) (t : Int) (e : FreshEvent)
    (hactive : p.timersActive = true) :
    (p.perform keypair t e).newHandshake =
      match e with
      | .timersDataSent => p.newHandshake.or (some (t + (KeepaliveTimeout + RekeyTimeout)))
      | .timersAnyAuthenticatedPacketReceived | .expiredNewHandshake => none
      | _ => p.newHandshake := by
  cases e with
  | timersDataSent =>
    cases h : p.newHandshake <;> simp [FreshState.perform, FreshState.timersDataSent, hactive, h]
  | keepKeyFreshSending sendNonce =>
    simp only [FreshState.perform, FreshState.keepKeyFreshSending]
    split <;> rfl
  | keepKeyFreshReceiving =>
    simp only [FreshState.perform, FreshState.keepKeyFreshReceiving]
    split
    · rfl
    · split <;> rfl
  | timersAnyAuthenticatedPacketReceived =>
    simp [FreshState.perform, FreshState.timersAnyAuthenticatedPacketReceived, hactive]
  | expiredNewHandshake => rfl
  | initiationElsewhere => rfl

theorem perform_active : (p.perform keypair t e).timersActive = p.timersActive := by
  cases e <;> simp only [FreshState.perform, FreshState.timersDataSent,
    FreshState.keepKeyFreshSending, FreshState.keepKeyFreshReceiving,
    FreshState.timersAnyAuthenticatedPacketReceived] <;> (repeat' split) <;> rfl

theorem perform_flag (h : (p.perform keypair t e).sentLastMinuteHandshake = true) :
    p.sentLastMinuteHandshake = true ∧ (p.perform keypair t e).initiations = p.initiations ∨
      (p.perform keypair t e).initiations ≠ [] := by
  cases e <;> simp only [FreshState.perform, FreshState.timersDataSent,
    FreshState.keepKeyFreshSending, FreshState.keepKeyFreshReceiving,
    FreshState.timersAnyAuthenticatedPacketReceived] at h ⊢ <;> (repeat' split) <;>
    simp_all [FreshState.SendHandshakeInitiation, FreshState.expiredNewHandshake]

/-- The timers stay active, the flag is only set with a call, and the timer was started in the
past. -/
structure Moment.Steady (s : Moment) : Prop where
  active : s.peer.timersActive = true
  flag : s.peer.sentLastMinuteHandshake = true → s.peer.initiations ≠ []
  pending : ∀ due, s.peer.newHandshake = some due → due ≤ s.now + (KeepaliveTimeout + RekeyTimeout)

theorem Moment.AtCreation.steady (h : s.AtCreation keypair) : s.Steady :=
  ⟨h.active, fun hset => by simp [h.flag] at hset, h.pending⟩

theorem step_steady (h : s.Steady) (hstep : s.step keypair event = some u) : u.Steady := by
  obtain ⟨t, e⟩ := event
  obtain ⟨⟨hnow, -, -⟩, rfl⟩ := step_eq_some.mp hstep
  obtain ⟨hactive, hflag, hpending⟩ := h
  refine ⟨perform_active.trans hactive, fun hset => ?_, fun due hdue => ?_⟩
  · rcases perform_flag hset with ⟨hwas, hsame⟩ | hcalls
    · exact hsame.trans_ne (hflag hwas)
    · exact hcalls
  · have hkept : ∀ d, s.peer.newHandshake = some d → d ≤ t + (KeepaliveTimeout + RekeyTimeout) := by
      intro d hd
      have hbound := hpending d hd
      omega
    dsimp only at hdue ⊢
    rw [perform_newHandshake keypair t e hactive] at hdue
    cases e with
    | timersDataSent =>
      cases hwas : s.peer.newHandshake with
      | none =>
        simp only [hwas, Option.none_or, Option.some.injEq] at hdue
        omega
      | some d =>
        simp only [hwas, Option.some_or, Option.some.injEq] at hdue
        exact hdue ▸ hkept d hwas
    | keepKeyFreshSending => exact hkept due hdue
    | keepKeyFreshReceiving => exact hkept due hdue
    | initiationElsewhere => exact hkept due hdue
    | timersAnyAuthenticatedPacketReceived => cases hdue
    | expiredNewHandshake => cases hdue

section
variable (hinitiator : keypair.isInitiator = true)
  (hlife : ∀ event ∈ events, event.1 < keypair.created + RejectAfterTime)
  (hrun : exec (Moment.step keypair) s events = some last)
include hinitiator hlife hrun

theorem exec_initiations (h : s.peer.initiations ≠ []) : last.peer.initiations ≠ [] := by
  induction events generalizing s with
  | nil =>
    cases hrun
    exact h
  | cons event events ih =>
    obtain ⟨t, e⟩ := event
    obtain ⟨u, hstep, hrest⟩ := exec_cons.mp hrun
    obtain ⟨-, rfl⟩ := step_eq_some.mp hstep
    obtain ⟨hlt, hlife⟩ := List.forall_mem_cons.mp hlife
    exact ih hlife hrest ((perform_initiations hinitiator hlt).mpr (.inl h))

/-- An event that calls, anywhere in the life, and the call is there at its end. -/
theorem initiation_of_mem (hsteady : s.Steady) (hmem : (t, e) ∈ events)
    (h : ∀ p : FreshState, (p.sentLastMinuteHandshake = true → p.initiations ≠ []) →
      (p.perform keypair t e).initiations ≠ []) :
    last.peer.initiations ≠ [] := by
  obtain ⟨before, after, rfl⟩ := List.append_of_mem hmem
  obtain ⟨v, hv, hrest⟩ := exec_append.mp hrun
  obtain ⟨u, hstep, hrest⟩ := exec_cons.mp hrest
  have hsteady' := exec_invariant (P := Moment.Steady) (fun _ _ _ => step_steady) hsteady hv
  obtain ⟨-, rfl⟩ := step_eq_some.mp hstep
  refine exec_initiations hinitiator (fun event he => hlife event ?_) hrest (h v.peer hsteady'.flag)
  simp [he]

/-- The timer is pending and runs out by `due`. -/
def Moment.Waiting (due : Int) (s : Moment) : Prop := ∃ d ≤ due, s.peer.newHandshake = some d

/-- While nothing calls, an undisturbed timer stays pending. -/
theorem exec_waiting (hsteady : s.Steady) (hnone : last.peer.initiations = [])
    (hundisturbed : ∀ t, (t, .timersAnyAuthenticatedPacketReceived) ∈ events → due < t)
    (hwaiting : s.Waiting due) : last.Waiting due := by
  induction events generalizing s with
  | nil =>
    cases hrun
    exact hwaiting
  | cons event events ih =>
    obtain ⟨t, e⟩ := event
    obtain ⟨u, hstep, hrest⟩ := exec_cons.mp hrun
    obtain ⟨hlt, hlife⟩ := List.forall_mem_cons.mp hlife
    have hsteady' := step_steady hsteady hstep
    obtain ⟨⟨-, hurgent, -⟩, rfl⟩ := step_eq_some.mp hstep
    refine ih hlife hrest hsteady' (fun x hx => hundisturbed x (List.mem_cons_of_mem _ hx)) ?_
    obtain ⟨d, hd, hpending⟩ := hwaiting
    have hnew := perform_newHandshake keypair t e hsteady.active
    have hquiet : ¬ (s.peer.perform keypair t e).initiations ≠ [] :=
      fun h => exec_initiations hinitiator hlife hrest h hnone
    rw [perform_initiations hinitiator hlt] at hquiet
    refine ⟨d, hd, ?_⟩
    cases e with
    | timersDataSent => simp [hnew, hpending]
    | keepKeyFreshSending => exact hnew.trans hpending
    | keepKeyFreshReceiving => exact hnew.trans hpending
    | timersAnyAuthenticatedPacketReceived =>
      -- the timer would have run out before this packet came
      have hlate := hundisturbed t List.mem_cons_self
      have hearly := hurgent d hpending
      omega
    | expiredNewHandshake => simp at hquiet
    | initiationElsewhere => simp at hquiet

/-- A pending timer that is left to run out in the life of the keypair calls. -/
theorem initiation_of_waiting (hsteady : s.Steady)
    (hover : ∀ due, last.peer.newHandshake = some due → keypair.created + RejectAfterTime ≤ due)
    (hwaiting : s.Waiting due) (hdue : due < keypair.created + RejectAfterTime)
    (hundisturbed : Undisturbed due events) : last.peer.initiations ≠ [] := by
  intro hnone
  have hsilent : ∀ t, (t, .expiredNewHandshake) ∉ events := fun t hmem =>
    initiation_of_mem hinitiator hlife hrun hsteady hmem
      (fun p _ => (perform_initiations hinitiator (hlife _ hmem)).mpr (by simp)) hnone
  have hlate : ∀ t, (t, .timersAnyAuthenticatedPacketReceived) ∈ events → due < t := fun t hmem =>
    (hundisturbed t hmem).resolve_right fun h => hsilent t h.2
  obtain ⟨d, hd, hpending⟩ := exec_waiting hinitiator hlife hrun hsteady hnone hlate hwaiting
  have hnotDue := hover d hpending
  omega

end

theorem initiation_of_refreshing (hlife : Life keypair s events last)
    (h : Refreshing keypair s.peer.newHandshake events) : last.peer.initiations ≠ [] := by
  have hsteady := hlife.created.steady
  obtain ⟨⟨hinitiator, -⟩, hrun, hwithin, hover⟩ := hlife
  cases h with
  | received t hmem hold =>
    refine initiation_of_mem hinitiator hwithin hrun hsteady hmem fun p hp => ?_
    rw [perform_initiations hinitiator (hwithin _ hmem)]
    cases hset : p.sentLastMinuteHandshake with
    | true => exact .inl (hp hset)
    | false => exact .inr (.inl ⟨rfl, rfl, hold⟩)
  | pending due hpending hdue hundisturbed =>
    exact initiation_of_waiting hinitiator hwithin hrun hsteady hover
      ⟨due, Int.le_refl due, hpending⟩ hdue hundisturbed
  | sent before t after hevents hearly hundisturbed =>
    subst hevents
    obtain ⟨v, hv, hrest⟩ := exec_append.mp hrun
    obtain ⟨u, hstep, hrest⟩ := exec_cons.mp hrest
    have hsteady' := exec_invariant (P := Moment.Steady) (fun _ _ _ => step_steady) hsteady hv
    have hsteady'' := step_steady hsteady' hstep
    have hnew := perform_newHandshake keypair t .timersDataSent hsteady'.active
    obtain ⟨-, rfl⟩ := step_eq_some.mp hstep
    refine initiation_of_waiting hinitiator (fun event he => hwithin event (by simp [he])) hrest
      hsteady'' hover ?_ (by omega) hundisturbed
    -- the packet has started the timer, unless the timer was running
    obtain ⟨d, hd⟩ : ∃ d, (v.peer.perform keypair t .timersDataSent).newHandshake = some d := by
      cases hwas : v.peer.newHandshake <;> simp [hnew, hwas]
    exact ⟨d, hsteady''.pending d hd, hd⟩
  | exhausted t sendNonce hmem hnonce =>
    refine initiation_of_mem hinitiator hwithin hrun hsteady hmem fun p _ => ?_
    exact (perform_initiations hinitiator (hwithin _ hmem)).mpr (by simp [hnonce])
  | elsewhere t hmem =>
    refine initiation_of_mem hinitiator hwithin hrun hsteady hmem fun p _ => ?_
    exact (perform_initiations hinitiator (hwithin _ hmem)).mpr (by simp)

theorem exec_now (hrun : exec (Moment.step keypair) s events = some last) (hmem : (t, e) ∈ events) :
    s.now ≤ t := by
  induction events generalizing s with
  | nil => cases hmem
  | cons event events ih =>
    obtain ⟨t', e'⟩ := event
    obtain ⟨u, hstep, hrest⟩ := exec_cons.mp hrun
    obtain ⟨⟨hnow, -, -⟩, rfl⟩ := step_eq_some.mp hstep
    cases hmem with
    | head => exact hnow
    | tail _ hmem => exact Int.le_trans hnow (ih hrest hmem)

theorem Undisturbed.cons {event : Int × FreshEvent} (h : Undisturbed due events)
    (he : event.2 ≠ .timersAnyAuthenticatedPacketReceived) : Undisturbed due (event :: events) := by
  intro t hmem
  cases hmem with
  | head => exact absurd rfl he
  | tail _ hmem => exact (h t hmem).imp_right fun h => ⟨h.1, List.mem_cons_of_mem _ h.2⟩

/-- What makes the rest of a run ask for a new keypair makes the run ask for one, if an event
before it does not. -/
theorem Refreshing.cons (hsteady : s.Steady)
    (h : Refreshing keypair (s.peer.perform keypair t e).newHandshake events) :
    Refreshing keypair s.peer.newHandshake ((t, e) :: events) := by
  cases h with
  | received t' hmem hold => exact .received t' (List.mem_cons_of_mem _ hmem) hold
  | exhausted t' sendNonce hmem hnonce =>
    exact .exhausted t' sendNonce (List.mem_cons_of_mem _ hmem) hnonce
  | elsewhere t' hmem => exact .elsewhere t' (List.mem_cons_of_mem _ hmem)
  | sent before t' after hevents hearly hundisturbed =>
    exact .sent ((t, e) :: before) t' after (by rw [hevents, List.cons_append]) hearly hundisturbed
  | pending due hpending hdue hundisturbed =>
    rw [perform_newHandshake keypair t e hsteady.active] at hpending
    cases e with
    | timersDataSent =>
      cases hwas : s.peer.newHandshake with
      | none =>
        simp only [hwas, Option.none_or, Option.some.injEq] at hpending
        subst hpending
        exact .sent [] t events rfl (by omega) hundisturbed
      | some d =>
        simp only [hwas, Option.some_or] at hpending
        exact .pending due hpending hdue (hundisturbed.cons (by simp))
    | keepKeyFreshSending => exact .pending due hpending hdue (hundisturbed.cons (by simp))
    | keepKeyFreshReceiving => exact .pending due hpending hdue (hundisturbed.cons (by simp))
    | initiationElsewhere => exact .pending due hpending hdue (hundisturbed.cons (by simp))
    | timersAnyAuthenticatedPacketReceived => cases hpending
    | expiredNewHandshake => cases hpending

theorem refreshing_of_initiation (hsteady : s.Steady) (hinitiator : keypair.isInitiator = true)
    (hlife : ∀ event ∈ events, event.1 < keypair.created + RejectAfterTime)
    (hrun : exec (Moment.step keypair) s events = some last) (hnone : s.peer.initiations = [])
    (h : last.peer.initiations ≠ []) : Refreshing keypair s.peer.newHandshake events := by
  induction events generalizing s with
  | nil =>
    cases hrun
    exact absurd hnone h
  | cons event events ih =>
    obtain ⟨t, e⟩ := event
    obtain ⟨u, hstep, hrest⟩ := exec_cons.mp hrun
    obtain ⟨hlt, hlife⟩ := List.forall_mem_cons.mp hlife
    have hsteady' := step_steady hsteady hstep
    obtain ⟨⟨-, -, hexpired⟩, rfl⟩ := step_eq_some.mp hstep
    by_cases hcalled : (s.peer.perform keypair t e).initiations = []
    · exact (ih hsteady' hlife hrest hcalled).cons hsteady
    · -- the first call
      rw [← ne_eq, perform_initiations hinitiator hlt] at hcalled
      rcases hcalled with hwas | ⟨rfl, -, hold⟩ | rfl | ⟨sendNonce, rfl, hnonce⟩ | rfl
      · exact absurd hnone hwas
      · exact .received t List.mem_cons_self hold
      · refine .pending t (hexpired rfl) hlt fun t' hmem => ?_
        rcases Int.lt_or_eq_of_le
            (exec_now hrest (List.mem_of_ne_of_mem (by simp) hmem)) with hlt' | heq
        · exact .inl hlt'
        · exact .inr ⟨heq, by simp [← heq]⟩
      · exact .exhausted t sendNonce List.mem_cons_self hnonce
      · exact .elsewhere t List.mem_cons_self

end

/-- In the life of a keypair made as initiator, `SendHandshakeInitiation` is called exactly when
one of these comes about: a data packet is received when the keypair is more than 30 seconds old,
or a data packet is sent when it is less than 30 seconds old and no authenticated packet is
received for 150 seconds after that (or the timer ran already at the creation), or too many
packets have been sent, or another routine calls. -/
theorem keypair_refreshed_iff {keypair : SendKeypair} {s last : Moment}
    {events : List (Int × FreshEvent)} (hlife : Life keypair s events last) :
    last.peer.initiations ≠ [] ↔ Refreshing keypair s.peer.newHandshake events := by
  refine ⟨fun h => ?_, initiation_of_refreshing hlife⟩
  exact refreshing_of_initiation hlife.created.steady hlife.created.initiator hlife.within hlife.run
    hlife.created.initiations h

def freshKeypair : SendKeypair := ⟨⟨0, [], [], true, 1, 2⟩, 0, 0⟩

def freshStart : Moment := ⟨0, ⟨true, none, false, []⟩⟩

theorem freshStart_atCreation : freshStart.AtCreation freshKeypair :=
  ⟨rfl, rfl, rfl, rfl, nofun, rfl⟩

/-- A data packet is sent, and the answer comes at an age of 31 seconds. -/
def answeredLate : List (Int × FreshEvent) :=
  [(700000000, .timersDataSent), (31 * Second, .keepKeyFreshReceiving),
    (31 * Second, .timersAnyAuthenticatedPacketReceived)]

theorem answeredLate_refreshed :
    ∃ last, Life freshKeypair freshStart answeredLate last ∧ last.peer.initiations ≠ [] := by
  have hrun : exec (Moment.step freshKeypair) freshStart answeredLate =
      some ⟨31 * Second, true, none, true, [31 * Second]⟩ := by decide
  have hlife :
      Life freshKeypair freshStart answeredLate ⟨31 * Second, true, none, true, [31 * Second]⟩ :=
    ⟨freshStart_atCreation, hrun, by decide, nofun⟩
  exact ⟨_, hlife,
    (keypair_refreshed_iff hlife).mpr (.received (31 * Second) (by decide) (by decide))⟩

/-- A data packet is sent in every second of the life of the keypair. -/
def SentEverySecond (keypair : SendKeypair) (events : List (Int × FreshEvent)) : Prop :=
  ∀ t, keypair.created ≤ t → t + Second ≤ keypair.created + RejectAfterTime →
    ∃ t', t ≤ t' ∧ t' < t + Second ∧ (t', .timersDataSent) ∈ events

/-- A data packet 0.7 seconds into each of some seconds. -/
def sendings (first count : Nat) : List (Int × FreshEvent) :=
  (List.range' first count).flatMap fun n : Nat =>
    [(n * Second + 700000000, .timersDataSent), (n * Second + 700000000, .keepKeyFreshSending n)]

/-- The last packet from the other side is received at an age of 29.9 seconds. -/
def answeredEarly : List (Int × FreshEvent) :=
  sendings 0 30 ++ (29900000000, .keepKeyFreshReceiving) ::
    (29900000000, .timersAnyAuthenticatedPacketReceived) :: sendings 30 150

theorem mem_sendings {first count n : Nat} (h : first ≤ n) (h' : n < first + count) :
    ((n * Second + 700000000 : Int), .timersDataSent) ∈ sendings first count := by
  unfold sendings
  exact List.mem_flatMap.mpr ⟨n, List.mem_range'_1.mpr ⟨h, h'⟩, List.mem_cons_self⟩

/-- No call in the life of the keypair, though a packet is sent in each second: the packet sent
after the last one received starts the timer at an age of 30.7 seconds. -/
theorem keypair_expires : ∃ last, Life freshKeypair freshStart answeredEarly last ∧
    SentEverySecond freshKeypair answeredEarly ∧ last.peer.initiations = [] := by
  have hrun : exec (Moment.step freshKeypair) freshStart answeredEarly =
      some ⟨179700000000, true, some 180700000000, false, []⟩ := by decide +kernel
  refine ⟨_, ⟨freshStart_atCreation, hrun, by decide +kernel, ?_⟩, ?_, rfl⟩
  · intro due hdue
    cases hdue
    decide
  · intro t hfrom hto
    simp only [freshKeypair, RejectAfterTime, Second] at hfrom hto
    obtain ⟨n, hn⟩ := Int.eq_ofNat_of_zero_le (show 0 ≤ (t + 299999999) / 1000000000 by omega)
    refine ⟨n * Second + 700000000, ?_, ?_, ?_⟩
    · unfold Second
      omega
    · unfold Second
      omega
    · by_cases hearly : n < 30
      · exact List.mem_append_left _ (mem_sendings (by omega) (by omega))
      · have hmem : _ ∈ sendings 30 150 := mem_sendings (n := n) (by omega) (by omega)
        exact List.mem_append_right _ (List.mem_cons_of_mem _ (List.mem_cons_of_mem _ hmem))

end Sewg.Go
