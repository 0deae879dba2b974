import Sewg.Go.Transport

/-! `RoutineNonce` of one peer waiting for a keypair, while handshake workers make
keypairs, the sequential receiver takes one into use, and others ask for handshakes, put
packets in the queue or flush it. Whoever makes a keypair the current one signals
afterwards. `RoutineNonce` looks at the current keypair, then empties the channel of the
signals, and then waits for one. -/

namespace Sewg.Go.NonceWait

/-- `RoutineNonce`, before the operation named. From `validate` on it has a packet. -/
inductive Routine where
  | nextPacket
  | select
  | getCurrent
  | validate (keypair : Option Nat)
  | setAwaiting
  | drain
  | sendInitiation
  | wait
  | clearAwaiting (keypair : Nat)
  | count (keypair : Nat)
  | stopped
  deriving DecidableEq

/-- A worker of `RoutineHandshake`, before the section named. A response is read in one
section of the handshake's lock and written in another. The session begins with a signal
after it, or after a response of our own without one. -/
inductive Worker where
  | idle
  | writeResponse
  | begin
  | signal
  | createResponse
  | beginResponder
  deriving DecidableEq

/-- The keypairs are objects, numbered as they are made. The channels have room for one
signal each. -/
structure State where
  handshake : HandshakeState
  current : Option Nat
  previous : Option Nat
  next : Option Nat
  made : Nat
  created : Nat → Int
  sendNonce : Nat → Nat
  now : Int
  newKeypairArrived : Bool
  flushNonceQueue : Bool
  stop : Bool
  queue : Nat
  awaitingKey : Bool
  routine : Routine
  receiverSignals : Bool
  workers : Nat → Worker

/-- The cases of a `select`. -/
inductive Case where
  | packet
  | arrived
  | flush
  | stop

inductive Event where
  /-- The next operation of `RoutineNonce`; the case is that of a `select`. -/
  | routine (c : Case)
  /-- An idle worker takes a message, and the others go on. -/
  | takeInitiation (worker : Nat)
  | takeResponse (worker : Nat)
  | worker (worker : Nat)
  /-- The sequential receiver has a packet under a keypair, or signals. -/
  | receivedWithKeypair (keypair : Nat)
  | receiverSignal
  /-- A `SendHandshakeInitiation` that is not held back creates its message. -/
  | createInitiation
  | enqueue
  | flushQueue
  | stop
  /-- The two halves of `ZeroAndFlushAll`. -/
  | zeroKeypairs
  | clearHandshake
  | tick (nanoseconds : Nat)

/-- The test of `RoutineNonce`. -/
def State.Valid (s : State) (keypair : Nat) : Prop :=
  s.sendNonce keypair < RejectAfterMessages ∧ s.now - s.created keypair < RejectAfterTime

instance (s : State) (keypair : Nat) : Decidable (s.Valid keypair) :=
  inferInstanceAs (Decidable (_ ∧ _))

/-- The rotation of `BeginSymmetricSession`; without a handshake that is ready, an error. -/
def State.beginSession (s : State) : Option State :=
  let s' := { s with
    handshake := .zeroed
    made := s.made + 1
    created := Function.update s.created s.made s.now
    sendNonce := Function.update s.sendNonce s.made 0 }
  match s.handshake with
  | .responseConsumed =>
    some { s' with
      current := some s.made
      previous := if s.next ≠ none then s.next else s.current
      next := none }
  | .responseCreated => some { s' with next := some s.made, previous := none }
  | _ => none

def State.setWorker (s : State) (i : Nat) (w : Worker) : State :=
  { s with workers := Function.update s.workers i w }

/-- One operation of `RoutineNonce`. -/
def State.routineStep (s : State) (c : Case) : Option State :=
  match s.routine, c with
  | .nextPacket, _ => some { s with awaitingKey := false, routine := .select }
  | .select, .stop => if s.stop then some { s with routine := .stopped } else none
  | .select, .flush =>
    if s.flushNonceQueue
      then some { s with flushNonceQueue := false, queue := 0, routine := .nextPacket }
    else none
  | .select, .packet =>
    if 0 < s.queue then some { s with queue := s.queue - 1, routine := .getCurrent } else none
  | .getCurrent, _ => some { s with routine := .validate s.current }
  | .validate none, _ => some { s with routine := .setAwaiting }
  | .validate (some keypair), _ =>
    some { s with routine := if s.Valid keypair then .clearAwaiting keypair else .setAwaiting }
  | .setAwaiting, _ => some { s with awaitingKey := true, routine := .drain }
  | .drain, _ => some { s with newKeypairArrived := false, routine := .sendInitiation }
  -- what it sends is an event of its own
  | .sendInitiation, _ => some { s with routine := .wait }
  | .wait, .arrived =>
    if s.newKeypairArrived then some { s with newKeypairArrived := false, routine := .getCurrent }
      else none
  | .wait, .flush =>
    if s.flushNonceQueue
      then some { s with flushNonceQueue := false, queue := 0, routine := .nextPacket }
    else none
  | .wait, .stop => if s.stop then some { s with routine := .stopped } else none
  | .clearAwaiting keypair, _ => some { s with awaitingKey := false, routine := .count keypair }
  | .count keypair, _ =>
    let nonce := s.sendNonce keypair
    let left := if nonce ≥ RejectAfterMessages then RejectAfterMessages else (nonce + 1) % 2 ^ 64
    some { s with sendNonce := Function.update s.sendNonce keypair left, routine := .nextPacket }
  | _, _ => none

/-- The next section of a worker that has a message. -/
def State.workerStep (s : State) (i : Nat) : Option State :=
  match s.workers i with
  | .idle => none
  | .writeResponse => some ({ s with handshake := .responseConsumed }.setWorker i .begin)
  | .begin =>
    match s.beginSession with
    | none => some (s.setWorker i .idle)
    | some s => some (s.setWorker i .signal)
  | .signal => some ({ s with newKeypairArrived := true }.setWorker i .idle)
  | .createResponse =>
    if s.handshake = .initiationConsumed then
      some ({ s with handshake := .responseCreated }.setWorker i .beginResponder)
    else some (s.setWorker i .idle)
  | .beginResponder =>
    match s.beginSession with
    | none => some (s.setWorker i .idle)
    | some s => some (s.setWorker i .idle)

def step (s : State) : Event → Option State
  | .routine c => s.routineStep c
  | .takeInitiation i =>
    if s.workers i = .idle then
      some ({ s with handshake := .initiationConsumed }.setWorker i .createResponse)
    else none
  | .takeResponse i =>
    if s.workers i = .idle ∧ s.handshake = .initiationCreated
      then some (s.setWorker i .writeResponse)
    else none
  | .worker i => s.workerStep i
  | .receivedWithKeypair keypair =>
    if s.receiverSignals then none
    else if s.next = some keypair then
      some { s with
        current := s.next, previous := s.current, next := none, receiverSignals := true }
    else some s
  | .receiverSignal =>
    if s.receiverSignals then some { s with newKeypairArrived := true, receiverSignals := false }
      else none
  | .createInitiation => some { s with handshake := .initiationCreated }
  | .enqueue => some { s with queue := s.queue + 1 }
  | .flushQueue => some { s with flushNonceQueue := true }
  | .stop => some { s with stop := true }
  | .zeroKeypairs => some { s with current := none, previous := none, next := none }
  | .clearHandshake => some { s with handshake := .zeroed }
  | .tick d => some { s with now := s.now + d }

/-- A peer that has just been started. -/
def newState : State where
  handshake := .zeroed
  current := none
  previous := none
  next := none
  made := 0
  created _ := 0
  sendNonce _ := 0
  now := 0
  newKeypairArrived := false
  flushNonceQueue := false
  stop := false
  queue := 0
  awaitingKey := false
  routine := .nextPacket
  receiverSignals := false
  workers _ := .idle

/-! ### Signals that are there or will come -/

/-- The current keypair is one that `RoutineNonce` would use. -/
def State.Usable (s : State) : Prop := ∃ keypair, s.current = some keypair ∧ s.Valid keypair

/-- A goroutine is between making a keypair the current one and its signal. -/
def State.Installing (s : State) : Prop := s.receiverSignals = true ∨ ∃ i, s.workers i = .signal

def State.Pending (s : State) : Prop := s.newKeypairArrived = true ∨ s.Installing

/-- A keypair that came after `RoutineNonce` has looked is signalled, or will be. -/
def State.Covered (s : State) : Prop :=
  match s.routine with
  | .validate keypair => s.current ≠ keypair → s.Usable → s.Pending
  | .setAwaiting | .drain | .sendInitiation | .wait => s.Usable → s.Pending
  | _ => True

/-- Keypairs in use have been made. -/
def State.Numbered (s : State) : Prop :=
  ∀ keypair, s.current = some keypair ∨ s.next = some keypair → keypair < s.made

/-- What `RoutineNonce` sees of a step of another goroutine: a usable keypair that was not
there is signalled, or will be, and no signal goes away. -/
structure Heard (s t : State) : Prop where
  routine : t.routine = s.routine
  usable : t.Usable → t.Pending ∨ s.Usable ∧ t.current = s.current
  pending : s.Pending → t.Pending

variable {s t : State} {i : Nat} {e : Event}

theorem Heard.covered (h : Heard s t) (hs : s.Covered) : t.Covered := by
  unfold State.Covered at hs ⊢
  rw [h.routine]
  have hgoes : (s.Usable → s.Pending) → t.Usable → t.Pending := by
    intro himp hu
    rcases h.usable hu with hp | ⟨hu, -⟩
    · exact hp
    · exact h.pending (himp hu)
  cases hr : s.routine with
  | validate keypair =>
    rw [hr] at hs
    intro hne hu
    rcases h.usable hu with hp | ⟨hu, hsame⟩
    · exact hp
    · exact h.pending (hs (hsame ▸ hne) hu)
  | setAwaiting => rw [hr] at hs; exact hgoes hs
  | drain => rw [hr] at hs; exact hgoes hs
  | sendInitiation => rw [hr] at hs; exact hgoes hs
  | wait => rw [hr] at hs; exact hgoes hs
  | _ => trivial

/-- Nothing that `RoutineNonce` could look at changes but the workers. -/
theorem pending_setWorker {w : Worker} (hi : s.workers i ≠ .signal) (h : s.Pending) :
    (s.setWorker i w).Pending := by
  rcases h with h | h | ⟨j, hj⟩
  · exact .inl h
  · exact .inr (.inl h)
  · have hji : j ≠ i := fun hji => hi (hji ▸ hj)
    exact .inr (.inr ⟨j, (Function.update_of_ne hji _ _).trans hj⟩)

theorem heard_setWorker {w : Worker} (h : Heard s t) (hi : t.workers i ≠ .signal) :
    Heard s (t.setWorker i w) :=
  ⟨h.routine, fun hu => (h.usable hu).imp (pending_setWorker hi) id,
    fun hp => pending_setWorker hi (h.pending hp)⟩

theorem Heard.refl (s : State) : Heard s s := ⟨rfl, fun hu => .inr ⟨hu, rfl⟩, id⟩

/-! ### The other goroutines -/

theorem beginSession_cases (h : s.beginSession = some t) :
    (t.routine = s.routine ∧ t.workers = s.workers ∧ t.newKeypairArrived = s.newKeypairArrived ∧
      t.receiverSignals = s.receiverSignals ∧ t.now = s.now) ∧
    (t.made = s.made + 1 ∧ t.created = Function.update s.created s.made s.now ∧
      t.sendNonce = Function.update s.sendNonce s.made 0) ∧
    (s.handshake = .responseConsumed ∧ t.current = some s.made ∧ t.next = none ∨
      s.handshake = .responseCreated ∧ t.current = s.current ∧ t.next = some s.made) := by
  unfold State.beginSession at h
  dsimp only at h
  cases hh : s.handshake with
  | responseConsumed =>
    rw [hh] at h
    cases h
    exact ⟨⟨rfl, rfl, rfl, rfl, rfl⟩, ⟨rfl, rfl, rfl⟩, .inl ⟨rfl, rfl, rfl⟩⟩
  | responseCreated =>
    rw [hh] at h
    cases h
    exact ⟨⟨rfl, rfl, rfl, rfl, rfl⟩, ⟨rfl, rfl, rfl⟩, .inr ⟨rfl, rfl, rfl⟩⟩
  | _ => rw [hh] at h; cases h

theorem heard_beginSession (hn : s.Numbered) (h : s.beginSession = some t)
    (hresponder : s.handshake ≠ .responseConsumed) : Heard s t := by
  obtain ⟨⟨hroutine, hworkers, harrived, hreceiver, hnow⟩, ⟨-, hcreated, hnonce⟩, hkind⟩ :=
    beginSession_cases h
  have hcurrent : t.current = s.current := by
    rcases hkind with ⟨hh, -⟩ | ⟨-, hc, -⟩
    · exact absurd hh hresponder
    · exact hc
  refine ⟨hroutine, fun ⟨keypair, hc, hvalid⟩ => .inr ⟨⟨keypair, hcurrent ▸ hc, ?_⟩, hcurrent⟩, ?_⟩
  · have hne : keypair ≠ s.made := Nat.ne_of_lt (hn keypair (.inl (hcurrent ▸ hc)))
    unfold State.Valid at hvalid ⊢
    rwa [hcreated, hnonce, hnow, Function.update_of_ne hne, Function.update_of_ne hne] at hvalid
  · unfold State.Pending State.Installing
    rw [harrived, hreceiver, hworkers]
    exact id

/-- What keeps the wakeups: `RoutineNonce` empties the channel of a signal only while the
current keypair is of no use, and a worker that has created a response begins the session
of that response. -/
def Timely (s : State) : Event → Prop
  | .routine _ => s.routine = .drain → s.newKeypairArrived = true → ¬ s.Usable
  | .worker i => s.workers i = .beginResponder → s.handshake ≠ .responseConsumed
  | _ => True

theorem workerStep_heard (hn : s.Numbered) (hg : Timely s (.worker i))
    (h : s.workerStep i = some t) : Heard s t := by
  unfold State.workerStep at h
  cases hw : s.workers i with
  | idle => rw [hw] at h; cases h
  | writeResponse =>
    rw [hw] at h
    cases h
    exact heard_setWorker (t := { s with handshake := _ })
      ⟨rfl, fun hu => .inr ⟨hu, rfl⟩, id⟩ (by simp [hw])
  | begin =>
    rw [hw] at h
    dsimp only at h
    split at h
    · cases h
      exact heard_setWorker (Heard.refl s) (by simp [hw])
    · rename_i s₁ hbegin
      cases h
      -- the worker will signal
      have hsignal : (s₁.setWorker i .signal).Pending := .inr (.inr ⟨i, Function.update_self _ _ _⟩)
      exact ⟨(beginSession_cases hbegin).1.1, fun _ => .inl hsignal, fun _ => hsignal⟩
  | signal =>
    rw [hw] at h
    cases h
    exact ⟨rfl, fun _ => .inl (.inl rfl), fun _ => .inl rfl⟩
  | createResponse =>
    rw [hw] at h
    dsimp only at h
    split at h
    · cases h
      exact heard_setWorker (t := { s with handshake := _ })
        ⟨rfl, fun hu => .inr ⟨hu, rfl⟩, id⟩ (by simp [hw])
    · cases h
      exact heard_setWorker (Heard.refl s) (by simp [hw])
  | beginResponder =>
    rw [hw] at h
    dsimp only at h
    split at h
    · cases h
      exact heard_setWorker (Heard.refl s) (by simp [hw])
    · rename_i s₁ hbegin
      cases h
      refine heard_setWorker (heard_beginSession hn hbegin (hg hw)) ?_
      rw [(beginSession_cases hbegin).1.2.1, hw]
      nofun

theorem step_heard (hn : s.Numbered) (hg : Timely s e) (h : step s e = some t)
    (hother : ∀ c, e ≠ .routine c) : Heard s t := by
  cases e with
  | routine c => exact absurd rfl (hother c)
  | takeInitiation i =>
    simp only [step] at h
    split at h
    · rename_i hidle
      cases h
      exact heard_setWorker (t := { s with handshake := _ }) ⟨rfl, fun hu => .inr ⟨hu, rfl⟩, id⟩
        (by simp [hidle])
    · cases h
  | takeResponse i =>
    simp only [step] at h
    split at h
    · rename_i hidle
      cases h
      exact heard_setWorker (Heard.refl s) (by simp [hidle.1])
    · cases h
  | worker i => exact workerStep_heard hn hg h
  | receivedWithKeypair keypair =>
    simp only [step] at h
    split at h
    · cases h
    · split at h
      · cases h
        exact ⟨rfl, fun _ => .inl (.inr (.inl rfl)), fun _ => .inr (.inl rfl)⟩
      · cases h
        exact Heard.refl s
  | receiverSignal =>
    simp only [step] at h
    split at h
    · cases h
      exact ⟨rfl, fun _ => .inl (.inl rfl), fun _ => .inl rfl⟩
    · cases h
  | zeroKeypairs =>
    cases h
    exact ⟨rfl, fun ⟨_, hc, _⟩ => (nomatch hc), id⟩
  | tick d =>
    cases h
    refine ⟨rfl, fun ⟨keypair, hc, hvalid⟩ => .inr ⟨⟨keypair, hc, hvalid.1, ?_⟩, rfl⟩, id⟩
    have := hvalid.2
    dsimp only at this
    omega
  | _ => cases h; exact ⟨rfl, fun hu => .inr ⟨hu, rfl⟩, id⟩

/-! ### `RoutineNonce` itself -/

theorem routineStep_keypairs {c : Case} (h : s.routineStep c = some t) :
    t.current = s.current ∧ t.next = s.next ∧ t.made = s.made := by
  unfold State.routineStep at h
  split at h
  all_goals first
    | (split at h <;> cases h <;> exact ⟨rfl, rfl, rfl⟩)
    | (cases h; try exact ⟨rfl, rfl, rfl⟩)

theorem routineStep_covered {c : Case} (hs : s.Covered) (hg : Timely s (.routine c))
    (h : s.routineStep c = some t) : t.Covered := by
  unfold State.Covered at hs
  unfold State.routineStep at h
  cases hr : s.routine with
  | getCurrent =>
    rw [hr] at h
    cases h
    exact fun hne => absurd rfl hne
  | validate keypair =>
    rw [hr] at hs h
    cases keypair with
    | none =>
      cases h
      intro hu
      obtain ⟨keypair, hc, -⟩ := id hu
      exact hs (by rw [show s.current = some keypair from hc]; nofun) hu
    | some keypair =>
      cases h
      by_cases hvalid : s.Valid keypair
      · simp only [State.Covered, if_pos hvalid]
      · simp only [State.Covered, if_neg hvalid]
        -- the keypair that was looked at is of no use, so a usable one came later
        intro hu
        refine hs (fun hsame => hvalid ?_) hu
        obtain ⟨keypair', hc, hvalid'⟩ := hu
        have hc' : s.current = some keypair' := hc
        rw [hsame] at hc'
        exact Option.some.inj hc' ▸ hvalid'
  | setAwaiting => rw [hr] at hs h; cases h; exact hs
  | drain =>
    rw [hr] at hs h
    cases h
    intro hu
    rcases hs hu with harrived | hinstalling
    · exact absurd hu (hg hr harrived)
    · exact .inr hinstalling
  | sendInitiation => rw [hr] at hs h; cases h; exact hs
  | nextPacket => rw [hr] at h; cases h; trivial
  | clearAwaiting keypair => rw [hr] at h; cases h; trivial
  | count keypair => rw [hr] at h; cases h; trivial
  | stopped => rw [hr] at h; cases h
  | select =>
    rw [hr] at h
    cases c with
    | arrived => cases h
    | packet | flush | stop =>
      dsimp only at h
      split at h
      · cases h; trivial
      · cases h
  | wait =>
    rw [hr] at h
    cases c with
    | packet => cases h
    | arrived | flush | stop =>
      dsimp only at h
      split at h
      · cases h; trivial
      · cases h

/-! ### Runs -/

theorem workerStep_numbered (hn : s.Numbered) (h : s.workerStep i = some t) :
    t.Numbered := by
  have hbegin : ∀ s₁, s.beginSession = some s₁ → s₁.Numbered := by
    intro s₁ hs₁ keypair hk
    obtain ⟨-, ⟨hmade, -⟩, ⟨-, hc, hnext⟩ | ⟨-, hc, hnext⟩⟩ := beginSession_cases hs₁
    · rw [hc, hnext] at hk
      rcases hk with hk | hk
      · cases hk
        omega
      · cases hk
    · rw [hc, hnext] at hk
      rcases hk with hk | hk
      · have := hn keypair (.inl hk)
        omega
      · cases hk
        omega
  unfold State.workerStep at h
  split at h
  case h_1 => cases h
  case h_3 =>
    split at h
    · cases h; exact hn
    · rename_i s₁ hs₁; cases h; exact hbegin s₁ hs₁
  case h_5 => split at h <;> (cases h; exact hn)
  case h_6 =>
    split at h
    · cases h; exact hn
    · rename_i s₁ hs₁; cases h; exact hbegin s₁ hs₁
  all_goals cases h; exact hn

theorem step_numbered (hn : s.Numbered) (h : step s e = some t) :
    t.Numbered := by
  cases e with
  | routine c =>
    obtain ⟨hc, hnext, hmade⟩ := routineStep_keypairs h
    unfold State.Numbered
    rw [hc, hnext, hmade]
    exact hn
  | worker i => exact workerStep_numbered hn h
  | takeInitiation i | takeResponse i | receiverSignal =>
    simp only [step] at h
    split at h
    · cases h; exact hn
    · cases h
  | receivedWithKeypair keypair =>
    simp only [step] at h
    split at h
    · cases h
    · split at h
      · cases h
        intro k hk
        exact hn k (hk.elim .inr fun hk => (nomatch hk))
      · cases h; exact hn
  | zeroKeypairs =>
    cases h
    intro k hk
    exact hk.elim (fun hk => (nomatch hk)) fun hk => (nomatch hk)
  | _ => cases h; exact hn

theorem step_covered (hs : s.Numbered ∧ s.Covered) (hg : Timely s e) (h : step s e = some t) :
    t.Numbered ∧ t.Covered := by
  refine ⟨step_numbered hs.1 h, ?_⟩
  cases e with
  | routine c => exact routineStep_covered hs.2 hg h
  | _ => exact (step_heard hs.1 hg h nofun).covered hs.2

/-- `RoutineNonce` waits with a packet, and none of the channels it waits for has anything. -/
structure State.Blocked (s : State) : Prop where
  waits : s.routine = .wait
  arrived : s.newKeypairArrived = false
  flush : s.flushNonceQueue = false
  stop : s.stop = false

/-- In a timely run no wakeup is lost: `RoutineNonce` is not blocked with a keypair that it
could use, unless the signal is still to come. -/
theorem no_lost_wakeup {events : List Event} {s : State}
    (hguard : Run.Meets step Timely newState events) (hrun : Run.exec step newState events = some s)
    (hblocked : s.Blocked) (hinstalling : ¬ s.Installing) : ¬ s.Usable := by
  have hstart : newState.Numbered ∧ newState.Covered :=
    ⟨fun k hk => hk.elim (fun hk => (nomatch hk)) fun hk => (nomatch hk), trivial⟩
  have hcovered := (Run.exec_guarded Timely (fun _ _ _ hs hg hst => step_covered hs hg hst)
    hstart hguard hrun).2
  rw [State.Covered, hblocked.waits] at hcovered
  intro hu
  rcases hcovered hu with harrived | h
  · rw [hblocked.arrived] at harrived
    cases harrived
  · exact hinstalling h

instance (s : State) : Decidable s.Usable :=
  match h : s.current with
  | none => .isFalse fun ⟨_, hc, _⟩ => by rw [h] at hc; cases hc
  | some keypair =>
    decidable_of_iff (s.Valid keypair)
      ⟨fun hv => ⟨keypair, h, hv⟩, fun ⟨k, hc, hv⟩ => by rw [h] at hc; cases hc; exact hv⟩

instance (s : State) (e : Event) : Decidable (Timely s e) := by
  cases e <;> simp only [Timely] <;> infer_instance

/-- A worker takes a response and begins the session. -/
def handshakeDone (worker : Nat) : List Event :=
  [.takeResponse worker, .worker worker, .worker worker, .worker worker]

/-- `RoutineNonce` takes a packet and finds no keypair for it. -/
def packetTaken : List Event :=
  [.enqueue, .routine .packet, .routine .packet, .routine .packet, .routine .packet,
    .routine .packet]

/-- A keypair that is too old by the time of the next packet. -/
def oldKeypair : List Event :=
  [Event.createInitiation] ++ handshakeDone 0 ++ [Event.tick 180000000000] ++ packetTaken ++
    [Event.routine .packet, .routine .packet]

theorem old_keypair_waits : ∃ s, Run.exec step newState oldKeypair = some s ∧
    s.Blocked ∧ s.current = some 0 ∧ ¬ s.Usable := by
  refine ⟨_, rfl, ⟨rfl, rfl, rfl, rfl⟩, rfl,
    @no_lost_wakeup oldKeypair _ (Run.meets_of_check ?_) rfl ⟨rfl, rfl, rfl, rfl⟩ ?_⟩
  · decide
  · rintro (h | ⟨i, h⟩)
    · cases h
    · simp [State.setWorker, newState] at h

/-- The keypair comes after `RoutineNonce` has looked, and its signal before the channel is
emptied. -/
theorem wakeup_lost : ∃ s, Run.exec step newState
      ([.createInitiation] ++ packetTaken ++ handshakeDone 0 ++
        [.routine .packet, .routine .packet]) = some s ∧
    s.Blocked ∧ ¬ s.Installing ∧ s.Usable := by
  refine ⟨_, rfl, ⟨rfl, rfl, rfl, rfl⟩, ?_, ?_⟩
  · rintro (h | ⟨i, h⟩)
    · cases h
    · simp [State.setWorker, newState] at h
  · decide

end Sewg.Go.NonceWait
