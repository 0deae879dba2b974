import Mathlib.Algebra.Group.Int.Defs
import Sewg.Go.Refresh
import Sewg.Lib.RWMutex

/-! How often a handshake is initiated. Calls of `SendHandshakeInitiation` and
`SendHandshakeResponse` share `handshake.mutex` and `lastSentHandshake`, which `Start` sets without
the mutex. Whoever else takes the mutex only delays them. Times are in nanoseconds. -/

namespace Sewg.Go.HandshakeRate
open RWMutex

/-- `Time.Sub`, which stays within the durations there are. -/
def Sub (t u : Int) : Int := max (-2 ^ 63) (min (2 ^ 63 - 1) (t - u))

theorem sub_lt_iff {t u : Int} : Sub t u < RekeyTimeout ↔ t < u + RekeyTimeout := by
  unfold Sub RekeyTimeout Second
  omega

/-- What was sent: an initiation, with the time that the second check has read and the time at which
it is behind that check, or a response, with the time that it leaves in `lastSentHandshake`. -/
inductive Sent
  | initiation (checked passed : Int)
  | response (time : Int)
  deriving DecidableEq

def Sent.time : Sent → Int
  | .initiation _ passed => passed
  | .response time => time

structure Peer where
  now : Int
  lastSentHandshake : Int
  isRunning : Bool := false
  /-- Since `lastSentHandshake` was set by `Start`, the last one first. -/
  sent : List Sent := []

inductive LockId
  | handshake
  | routines
  deriving DecidableEq

/-- What a goroutine does next. -/
inductive Goroutine
  | idle
  /-- `SendHandshakeInitiation` -/
  | rlocks
  | reads
  | compares (now : Int)
  | runlocks (early : Bool)
  | locks (announced : Bool)
  | readsAgain
  | comparesAgain (now : Int)
  | passed
  /-- `SendHandshakeResponse` -/
  | respondLocks (announced : Bool)
  | responds
  /-- Both. -/
  | stamps (response : Bool) (time : Int)
  | unlocks
  /-- `Start` -/
  | startLocks (announced : Bool)
  | tests
  | readsStart
  | resets (time : Int)
  | runs
  /-- `Stop` -/
  | stopLocks (announced : Bool)
  /-- Both. -/
  | unlocksRoutines
  deriving DecidableEq

inductive Choice
  | next
  | sendHandshakeInitiation
  | sendHandshakeResponse
  | start
  | stop
  /-- Time passes. -/
  | advance (nanoseconds : Nat)

namespace Goroutine

def op : Goroutine → Op LockId Empty
  | .rlocks => .rlock .handshake
  | .runlocks _ => .runlock .handshake
  | .locks announced | .respondLocks announced => .write .handshake announced
  | .unlocks => .unlock .handshake
  | .startLocks announced | .stopLocks announced => .write .routines announced
  | .unlocksRoutines => .unlock .routines
  | .idle | .reads | .compares _ | .readsAgain | .comparesAgain _ | .passed | .responds
  | .stamps _ _ | .tests | .readsStart | .resets _ | .runs => .skip

def footprint : Goroutine → Footprint LockId
  | .reads | .compares _ | .runlocks _ => { reads := [.handshake] }
  | .locks announced | .respondLocks announced => { announces := announcing .handshake announced }
  | .readsAgain | .comparesAgain _ | .passed | .responds | .stamps _ _ | .unlocks =>
    { writes := [.handshake] }
  | .startLocks announced | .stopLocks announced => { announces := announcing .routines announced }
  | .tests | .readsStart | .resets _ | .runs | .unlocksRoutines => { writes := [.routines] }
  | .idle | .rlocks => {}

def next (x : Goroutine) (p : Peer) (e : Choice) : Option (Goroutine × Peer) :=
  match x, e with
  | .idle, .advance nanoseconds => some (.idle, { p with now := p.now + nanoseconds })
  | .idle, .sendHandshakeInitiation => some (.rlocks, p)
  | .rlocks, .next => some (.reads, p)
  | .reads, .next => some (.compares p.now, p)
  | .compares now, .next => some (.runlocks (Sub now p.lastSentHandshake < RekeyTimeout), p)
  | .runlocks true, .next => some (.idle, p)
  | .runlocks false, .next => some (.locks false, p)
  | .locks false, .next => some (.locks true, p)
  | .locks true, .next => some (.readsAgain, p)
  | .readsAgain, .next => some (.comparesAgain p.now, p)
  | .comparesAgain now, .next =>
    if Sub now p.lastSentHandshake < RekeyTimeout then some (.unlocks, p)
    else some (.passed, { p with sent := .initiation now p.now :: p.sent })
  | .passed, .next => some (.stamps false p.now, p)
  | .idle, .sendHandshakeResponse => some (.respondLocks false, p)
  | .respondLocks false, .next => some (.respondLocks true, p)
  | .respondLocks true, .next => some (.responds, p)
  | .responds, .next => some (.stamps true p.now, p)
  | .stamps response time, .next =>
    some (.unlocks, { p with
      lastSentHandshake := time
      sent := if response then .response time :: p.sent else p.sent })
  | .unlocks, .next => some (.idle, p)
  | .idle, .start => some (.startLocks false, p)
  | .startLocks false, .next => some (.startLocks true, p)
  | .startLocks true, .next => some (.tests, p)
  | .tests, .next => some (if p.isRunning then .unlocksRoutines else .readsStart, p)
  | .readsStart, .next => some (.resets p.now, p)
  | .resets time, .next =>
    some (.runs, { p with lastSentHandshake := time + -(RekeyTimeout + Second), sent := [] })
  | .runs, .next => some (.unlocksRoutines, { p with isRunning := true })
  | .idle, .stop =>
    some (if p.isRunning then .stopLocks false else .idle, { p with isRunning := false })
  | .stopLocks false, .next => some (.stopLocks true, p)
  | .stopLocks true, .next => some (.unlocksRoutines, p)
  | .unlocksRoutines, .next => some (.idle, p)
  | _, _ => none

end Goroutine

def handshakes : Program Peer Goroutine Choice LockId Empty where
  op := Goroutine.op
  next := Goroutine.next
  footprint := Goroutine.footprint
  routine _ := none
  joined _ _ := true

/-- A new peer, before any call. -/
def created (now lastSentHandshake : Int) : State Peer Goroutine LockId where
  data := { now, lastSentHandshake }
  table _ := {}
  threads _ := .idle

/-! ### What a step does -/

namespace Goroutine

/-- It is behind the second check and has not set `lastSentHandshake`. -/
def Stamping : Goroutine → Prop
  | .passed | .stamps false _ => True
  | _ => False

/-- What is known where a goroutine goes on with a time. -/
def Holds (p : Peer) : Goroutine → Prop
  | .comparesAgain now => now ≤ p.now
  | .stamps _ time => time ≤ p.now ∧ ∀ x ∈ p.sent, x.time ≤ time
  | _ => True

/-- Only with `handshake.mutex` is there something to be known. -/
theorem of_free {x : Goroutine} (hfree : .handshake ∉ x.footprint.writes) :
    ¬x.Stamping ∧ ∀ p, x.Holds p := by
  cases x with
  | comparesAgain | passed | stamps => exact absurd List.mem_cons_self hfree
  | _ => exact ⟨id, fun _ => trivial⟩

/-- A step: one that reads or writes none of the times, or one of those that do. -/
inductive Effect (p : Peer) : Goroutine → Goroutine → Peer → Prop
  | other {x x' p'} :
      p'.sent = p.sent → p'.lastSentHandshake = p.lastSentHandshake → p.now ≤ p'.now →
    ¬x.Stamping → ¬x'.Stamping → (∀ p, x'.Holds p) → Effect p x x' p'
  | readsAgain : Effect p .readsAgain (.comparesAgain p.now) p
  | passes {now} : p.lastSentHandshake + RekeyTimeout ≤ now →
    Effect p (.comparesAgain now) .passed { p with sent := .initiation now p.now :: p.sent }
  | reads {x} {response} : x = .passed ∧ response = false ∨ x = .responds ∧ response = true →
    Effect p x (.stamps response p.now) p
  | stamps {response time} : Effect p (.stamps response time) .unlocks { p with
      lastSentHandshake := time
      sent := if response then .response time :: p.sent else p.sent }
  | resets {time} : Effect p (.resets time) .runs { p with
      lastSentHandshake := time + -(RekeyTimeout + Second)
      sent := [] }

theorem next_effect {x x' : Goroutine} {p p' : Peer} {e : Choice} (h : x.next p e = some (x', p')) :
    Effect p x x' p' := by
  unfold next at h
  split at h
  all_goals try (cases h; exact .other rfl rfl (Int.le_refl _) id id fun _ => trivial)
  · cases h
    exact .other rfl rfl (by dsimp only; omega) id id fun _ => trivial
  · cases h
    exact .readsAgain
  · split at h
    · cases h
      exact .other rfl rfl (Int.le_refl _) id id fun _ => trivial
    · rename_i hcheck
      cases h
      exact .passes (Int.not_lt.mp (mt sub_lt_iff.mpr hcheck))
  · cases h
    exact .reads (.inl ⟨rfl, rfl⟩)
  · cases h
    exact .reads (.inr ⟨rfl, rfl⟩)
  · cases h
    exact .stamps
  · cases h
    split <;> exact .other rfl rfl (Int.le_refl _) id id fun _ => trivial
  · cases h
    exact .resets
  · cases h
    split <;> exact .other rfl rfl (Int.le_refl _) id id fun _ => trivial
  · cases h

theorem next_moves {x x' : Goroutine} {p p' : Peer} {e : Choice} (h : x.next p e = some (x', p')) :
    Moves x.op x.footprint x'.footprint := by
  unfold next at h
  split at h
  all_goals try (cases h; constructor)
  · split at h <;> (cases h; constructor)
  · cases h
    split <;> constructor
  · cases h
    split <;> constructor
  · cases h

end Goroutine

theorem handshakes_faithful : Faithful handshakes where
  moves _ _ _ _ _ h := Goroutine.next_moves h
  locks x l h := by
    cases x <;> first | exact Op.write_eq_lock h | cases h

/-! ### What is kept -/

/-- An initiation comes late enough after what was sent before. -/
def Sent.After (later earlier : Sent) : Prop :=
  match later with
  | .initiation checked _ => earlier.time + RekeyTimeout ≤ checked
  | .response _ => True

structure Spaced (p : Peer) : Prop where
  past : ∀ x ∈ p.sent, x.time ≤ p.now
  after : p.sent.Pairwise Sent.After
  inOrder : ∀ checked passed, .initiation checked passed ∈ p.sent → checked ≤ passed

/-- `lastSentHandshake` is not before anything that was sent. -/
def Settled (p : Peer) : Prop := ∀ x ∈ p.sent, x.time ≤ p.lastSentHandshake

namespace Goroutine
variable {x x' : Goroutine} {p p' : Peer}

theorem Holds.later (h : x.Holds p) (hnow : p.now ≤ p'.now) (hsent : p'.sent ⊆ p.sent) :
    x.Holds p' := by
  cases x with
  | comparesAgain now => exact Int.le_trans h hnow
  | stamps response time => exact ⟨Int.le_trans h.1 hnow, fun x hx => h.2 x (hsent hx)⟩
  | _ => trivial

/-- Something is sent only with `handshake.mutex`. -/
theorem Effect.frame (h : Effect p x x' p') :
    p.now ≤ p'.now ∧ (.handshake ∈ x.footprint.writes ∨ p'.sent ⊆ p.sent) := by
  cases h with
  | other hsent _ hnow => exact ⟨hnow, .inr (hsent ▸ List.Subset.refl _)⟩
  | resets => exact ⟨Int.le_refl _, .inr (List.nil_subset _)⟩
  | readsAgain | passes | stamps => exact ⟨Int.le_refl _, .inl List.mem_cons_self⟩
  | reads hx =>
    rcases hx with ⟨rfl, -⟩ | ⟨rfl, -⟩ <;> exact ⟨Int.le_refl _, .inl List.mem_cons_self⟩

theorem Effect.holds (h : Effect p x x' p') (hs : Spaced p) : x'.Holds p' := by
  cases h with
  | other _ _ _ _ _ hholds => exact hholds p'
  | readsAgain => exact Int.le_refl _
  | reads => exact ⟨Int.le_refl _, hs.past⟩
  | passes | stamps | resets => trivial

/-- What is behind the second check sets `lastSentHandshake` before it leaves the mutex. -/
theorem Effect.settled (h : Effect p x x' p') (hx : x.Holds p) (hx' : ¬x'.Stamping)
    (hs : ¬x.Stamping → Settled p) : Settled p' := by
  cases h with
  | other hsent hlast _ hstamping =>
    unfold Settled
    rw [hsent, hlast]
    exact hs hstamping
  | readsAgain => exact hs id
  | passes => exact absurd trivial hx'
  | reads hfrom =>
    rcases hfrom with ⟨-, rfl⟩ | ⟨rfl, -⟩
    · exact absurd trivial hx'
    · exact hs id
  | @stamps response time =>
    cases response with
    | false => exact hx.2
    | true => exact List.forall_mem_cons.mpr ⟨Int.le_refl time, hx.2⟩
  | resets => exact fun _ hmem => absurd hmem List.not_mem_nil

theorem Effect.spaced (h : Effect p x x' p') (hx : x.Holds p) (hs : Spaced p)
    (hsettled : .handshake ∈ x.footprint.writes → ¬x.Stamping → Settled p) : Spaced p' := by
  cases h with
  | other hsent _ hnow =>
    constructor <;> rw [hsent]
    · exact fun y hy => Int.le_trans (hs.past y hy) hnow
    · exact hs.after
    · exact hs.inOrder
  | readsAgain | reads => exact hs
  | @passes now hcheck =>
    have hlast : Settled p := hsettled List.mem_cons_self id
    refine ⟨List.forall_mem_cons.mpr ⟨Int.le_refl _, hs.past⟩, hs.after.cons fun y hy => ?_, ?_⟩
    · calc y.time + RekeyTimeout ≤ p.lastSentHandshake + RekeyTimeout :=
          Int.add_le_add_right (hlast y hy) _
        _ ≤ now := hcheck
    · intro checked passed hmem
      rcases List.mem_cons.mp hmem with heq | hmem
      · cases heq
        exact hx
      · exact hs.inOrder checked passed hmem
  | @stamps response time =>
    cases response with
    | false => exact ⟨hs.past, hs.after, hs.inOrder⟩
    | true =>
      refine ⟨List.forall_mem_cons.mpr ⟨hx.1, hs.past⟩, hs.after.cons fun _ _ => trivial, ?_⟩
      intro checked passed hmem
      rcases List.mem_cons.mp hmem with heq | hmem
      · cases heq
      · exact hs.inOrder checked passed hmem
  | resets => exact ⟨nofun, .nil, nofun⟩

end Goroutine

structure Kept (s : State Peer Goroutine LockId) : Prop where
  linked : Linked handshakes s
  spaced : Spaced s.data
  holds : ∀ i, (s.threads i).Holds s.data
  settled : (∀ i, ¬(s.threads i).Stamping) → Settled s.data

theorem created_kept (now lastSentHandshake : Int) : Kept (created now lastSentHandshake) where
  linked := Matches.free fun _ => rfl
  spaced := ⟨nofun, .nil, nofun⟩
  holds _ := trivial
  settled _ := nofun

theorem Kept.step {s t : State Peer Goroutine LockId} {e : Nat × Choice} (hs : Kept s)
    (hst : RWMutex.step handshakes s e = some t) : Kept t := by
  have hlinked := hs.linked.step handshakes_faithful hst
  obtain ⟨i, e⟩ := e
  obtain ⟨x, hnext, -, rfl, hothers⟩ := step_cases handshakes hst
  have heffect := Goroutine.next_effect hnext
  have hfree : .handshake ∈ (s.threads i).footprint.writes → ∀ j, j ≠ i →
      ¬(s.threads j).Stamping ∧ ∀ p, (s.threads j).Holds p := by
    intro hi j hj
    exact Goroutine.of_free fun hj' => hj (hs.linked.writes_unique hj' hi)
  refine ⟨hlinked, heffect.spaced (hs.holds i) hs.spaced ?_, fun j => ?_, fun hnone => ?_⟩
  · intro hi hstamping
    refine hs.settled fun j => ?_
    by_cases hj : j = i
    · rw [hj]
      exact hstamping
    · exact (hfree hi j hj).1
  · by_cases hj : j = i
    · rw [hj]
      exact heffect.holds hs.spaced
    · rw [hothers j hj]
      obtain ⟨hnow, hi | hsent⟩ := heffect.frame
      · exact (hfree hi j hj).2 t.data
      · exact (hs.holds j).later hnow hsent
  · refine heffect.settled (hs.holds i) (hnone i) fun hstamping => hs.settled fun j => ?_
    by_cases hj : j = i
    · rw [hj]
      exact hstamping
    · rw [← hothers j hj]
      exact hnone j

/-- Since the last `Start`, whatever the calls and their order, every initiation has read a time in
its second check that is at least `RekeyTimeout` after each earlier one was behind its own, and
after the times that earlier responses have left. -/
theorem initiations_apart {now lastSentHandshake : Int} {events : List (Nat × Choice)}
    {s : State Peer Goroutine LockId}
    (hrun : Run.exec (RWMutex.step handshakes) (created now lastSentHandshake) events = some s) :
    s.data.sent.Pairwise Sent.After ∧
      ∀ checked passed, .initiation checked passed ∈ s.data.sent → checked ≤ passed := by
  have hkept : Kept s :=
    Run.exec_invariant (fun _ _ _ h hst => h.step hst) (created_kept now lastSentHandshake) hrun
  exact ⟨hkept.spaced.after, hkept.spaced.inOrder⟩

/-- Goroutine `i` goes on for some steps. -/
def goesOn (i steps : Nat) : List (Nat × Choice) := List.replicate steps (i, .next)

def calls (i : Nat) (call : Choice) (steps : Nat) : List (Nat × Choice) :=
  (i, call) :: goesOn i steps

/-- Goroutine 0 starts the peer. 1 and 2 are both behind the first check when 1 initiates a
handshake, so that 2 gives up. 1 initiates the next one 50 seconds later. -/
def twoInitiations : List (Nat × Choice) :=
  calls 0 .start 7 ++ calls 1 .sendHandshakeInitiation 4 ++ calls 2 .sendHandshakeInitiation 4 ++
    goesOn 1 7 ++
    goesOn 2 5 ++ calls 0 (.advance 50000000000) 0 ++ calls 1 .sendHandshakeInitiation 11

theorem twoInitiations_apart :
    ∃ s, Run.exec (RWMutex.step handshakes) (created 0 0) twoInitiations = some s ∧
    s.data.sent = [.initiation 50000000000 50000000000, .initiation 0 0] ∧
    s.data.sent.Pairwise Sent.After := by
  have hrun : (Run.exec (RWMutex.step handshakes) (created 0 0) twoInitiations).map (·.data.sent) =
      some [.initiation 50000000000 50000000000, .initiation 0 0] := by decide +kernel
  obtain ⟨s, hs, hsent⟩ := Option.map_eq_some_iff.mp hrun
  exact ⟨s, hs, hsent, (initiations_apart hs).1⟩

end Sewg.Go.HandshakeRate
