import Sewg.Go.NonceWait

/-! The nonces `RoutineNonce` gives to the elements it puts in the encryption queue. The
counter of a keypair is a `uint64` that is counted up first and looked at afterwards. -/

namespace Sewg.Go.NonceWait

/-- An element in the encryption queue. -/
structure Element where
  keypair : Nat
  nonce : Nat
  deriving DecidableEq

/-- What `addToOutboundAndEncryptionQueues` finds. -/
inductive Room where
  | outboundFull
  | encryptionFull
  | both

/-- `encryption` has every element that was put in the encryption queue, in order. Workers
take them out again; the code does not keep them. -/
structure Sending where
  state : State
  encryption : List Element

/-- The element the routine is about to queue: before its last operation, and with a nonce
below the limit. -/
def State.element (s : State) : Option Element :=
  match s.routine with
  | .count keypair =>
    if s.sendNonce keypair ≥ RejectAfterMessages then none else some ⟨keypair, s.sendNonce keypair⟩
  | _ => none

def addToOutboundAndEncryptionQueues (room : Room) (encryption : List Element) (element : Element) :
    List Element :=
  match room with
  | .outboundFull => encryption
  | .encryptionFull => encryption
  | .both => encryption ++ [element]

def Sending.queue (g : Sending) (room : Room) : Event → List Element
  | .routine _ =>
    match g.state.element with
    | none => g.encryption
    | some element => addToOutboundAndEncryptionQueues room g.encryption element
  | _ => g.encryption

def sendStep (g : Sending) (e : Event × Room) : Option Sending :=
  (step g.state e.1).map fun s => ⟨s, g.queue e.2 e.1⟩

/-! ### What one step does to the counters -/

/-- The routine has looked the keypair up. -/
def Routine.Has : Routine → Nat → Prop
  | .validate (some keypair), k => k = keypair
  | .clearAwaiting keypair, k => k = keypair
  | .count keypair, k => k = keypair
  | _, _ => False

/-- Everything in use has been made. -/
structure State.Started (s : State) : Prop where
  slots : s.Numbered
  routine : ∀ keypair, s.routine.Has keypair → keypair < s.made

section
variable {s t : State}

/-- What a step of another goroutine does to the counters: nothing, or one more keypair. -/
structure Counters (s t : State) : Prop where
  routine : t.routine = s.routine
  made : s.made ≤ t.made
  sendNonce : ∀ keypair < s.made, t.sendNonce keypair = s.sendNonce keypair

theorem Counters.of_eq (hroutine : t.routine = s.routine) (hmade : t.made = s.made)
    (hnonce : t.sendNonce = s.sendNonce) : Counters s t :=
  ⟨hroutine, Nat.le_of_eq hmade.symm, fun _ _ => by rw [hnonce]⟩

theorem counters_beginSession (h : s.beginSession = some t) : Counters s t := by
  obtain ⟨⟨hroutine, -⟩, ⟨hmade, -, hnonce⟩, -⟩ := beginSession_cases h
  refine ⟨hroutine, by omega, ?_⟩
  intro keypair hk
  rw [hnonce, Function.update_of_ne (Nat.ne_of_lt hk)]

theorem counters_workerStep {i : Nat} (h : s.workerStep i = some t) : Counters s t := by
  have hbegin : ∀ s₁ w, s.beginSession = some s₁ → Counters s (s₁.setWorker i w) := by
    intro s₁ w hs₁
    have hc := counters_beginSession hs₁
    exact ⟨hc.routine, hc.made, hc.sendNonce⟩
  unfold State.workerStep at h
  cases hw : s.workers i with
  | idle => rw [hw] at h; cases h
  | writeResponse => rw [hw] at h; cases h; exact Counters.of_eq rfl rfl rfl
  | «begin» | beginResponder =>
    rw [hw] at h
    dsimp only at h
    split at h
    · cases h; exact Counters.of_eq rfl rfl rfl
    · cases h; exact hbegin _ _ (by assumption)
  | signal => rw [hw] at h; cases h; exact Counters.of_eq rfl rfl rfl
  | createResponse =>
    rw [hw] at h
    dsimp only at h
    split at h <;> (cases h; exact Counters.of_eq rfl rfl rfl)

theorem counters_step {e : Event} (h : step s e = some t) (hother : ∀ c, e ≠ .routine c) :
    Counters s t := by
  cases e with
  | routine c => exact absurd rfl (hother c)
  | worker i => exact counters_workerStep h
  | takeInitiation i | takeResponse i | receiverSignal =>
    simp only [step] at h
    split at h
    · cases h; exact Counters.of_eq rfl rfl rfl
    · cases h
  | receivedWithKeypair keypair =>
    simp only [step] at h
    split at h
    · cases h
    · split at h <;> (cases h; exact Counters.of_eq rfl rfl rfl)
  | _ => cases h; exact Counters.of_eq rfl rfl rfl

/-- The counter after an element has taken its nonce. -/
def counted (nonce : Nat) : Nat :=
  if nonce ≥ RejectAfterMessages then RejectAfterMessages else (nonce + 1) % 2 ^ 64

/-- The routine counts in its last operation, and keeps to keypairs that are there. -/
theorem routineStep_counts {c : Case} (hs : s.Started) (h : s.routineStep c = some t) :
    t.Started ∧ t.made = s.made ∧
      ((∃ keypair, s.routine = .count keypair ∧
        t.sendNonce = Function.update s.sendNonce keypair (counted (s.sendNonce keypair))) ∨
      ((∀ keypair, s.routine ≠ .count keypair) ∧ t.sendNonce = s.sendNonce)) := by
  obtain ⟨hc, hnext, hmade⟩ := routineStep_keypairs h
  have hslots : t.Numbered := by
    unfold State.Numbered
    rw [hc, hnext, hmade]
    exact hs.slots
  -- but for the look at the current keypair, the routine goes on with what it has
  have hgoes : (∀ keypair, s.routine ≠ .count keypair) → t.sendNonce = s.sendNonce →
      (∀ keypair, t.routine.Has keypair → keypair < s.made) → t.Started ∧ t.made = s.made ∧
      ((∃ keypair, s.routine = .count keypair ∧
        t.sendNonce = Function.update s.sendNonce keypair (counted (s.sendNonce keypair))) ∨
      ((∀ keypair, s.routine ≠ .count keypair) ∧ t.sendNonce = s.sendNonce)) :=
    fun hne hn hr => ⟨⟨hslots, hmade ▸ hr⟩, hmade, .inr ⟨hne, hn⟩⟩
  have hroutine := hs.routine
  unfold State.routineStep at h
  cases hr : s.routine with
  | getCurrent =>
    rw [hr] at h hgoes
    cases h
    refine hgoes nofun rfl ?_
    intro keypair hk
    cases hcurrent : s.current with
    | none => rw [hcurrent] at hk; exact hk.elim
    | some current =>
      rw [hcurrent] at hk
      exact hs.slots keypair (.inl (by rw [hcurrent, show keypair = current from hk]))
  | validate keypair =>
    rw [hr] at h hgoes hroutine
    cases keypair with
    | none => cases h; exact hgoes nofun rfl nofun
    | some keypair =>
      cases h
      refine hgoes nofun rfl ?_
      intro k hk
      dsimp only at hk
      split at hk
      · exact hroutine k hk
      · exact hk.elim
  | clearAwaiting keypair =>
    rw [hr] at h hgoes hroutine
    cases h
    exact hgoes nofun rfl hroutine
  | count keypair =>
    rw [hr] at h
    cases h
    exact ⟨⟨hslots, nofun⟩, rfl, .inl ⟨keypair, rfl, rfl⟩⟩
  | nextPacket | setAwaiting | drain | sendInitiation =>
    rw [hr] at h hgoes
    cases h
    exact hgoes nofun rfl nofun
  | stopped => rw [hr] at h; cases h
  | select =>
    rw [hr] at h hgoes
    cases c with
    | arrived => cases h
    | packet | flush | stop =>
      dsimp only at h
      split at h
      · cases h; exact hgoes nofun rfl nofun
      · cases h
  | wait =>
    rw [hr] at h hgoes
    cases c with
    | packet => cases h
    | arrived | flush | stop =>
      dsimp only at h
      split at h
      · cases h; exact hgoes nofun rfl nofun
      · cases h

theorem step_started {e : Event} (hs : s.Started) (h : step s e = some t) : t.Started := by
  cases e with
  | routine c => exact (routineStep_counts hs h).1
  | _ =>
    have hc := counters_step h nofun
    refine ⟨step_numbered hs.slots h, ?_⟩
    intro keypair hk
    rw [hc.routine] at hk
    exact Nat.lt_of_lt_of_le (hs.routine keypair hk) hc.made

end

/-! ### Runs -/

/-- The nonces given out are those below the counters, each once and in order. -/
structure Sending.Counted (g : Sending) : Prop where
  started : g.state.Started
  made : ∀ element ∈ g.encryption, element.keypair < g.state.made
  below : ∀ element ∈ g.encryption, element.nonce < g.state.sendNonce element.keypair
  limit : ∀ element ∈ g.encryption, element.nonce < RejectAfterMessages
  increasing : g.encryption.Pairwise fun a b => a.keypair = b.keypair → a.nonce < b.nonce

theorem counted_below {nonce : Nat} (h : nonce < RejectAfterMessages) :
    counted nonce = nonce + 1 := by
  unfold counted
  rw [if_neg (Nat.not_le.mpr h), Nat.mod_eq_of_lt]
  exact Nat.lt_of_le_of_lt h (by decide)

theorem lt_counted {n nonce : Nat} (hn : n < RejectAfterMessages) (h : n < nonce) :
    n < counted nonce := by
  by_cases hlimit : nonce < RejectAfterMessages
  · rw [counted_below hlimit]
    omega
  · rw [counted, if_pos (Nat.not_lt.mp hlimit)]
    exact hn

section
variable {g : Sending} {s : State}

theorem Sending.Counted.keeps (hg : g.Counted) (hs : s.Started) (hmade : g.state.made ≤ s.made)
    (hbelow : ∀ element ∈ g.encryption, element.nonce < s.sendNonce element.keypair) :
    Sending.Counted ⟨s, g.encryption⟩ :=
  ⟨hs, fun element he => Nat.lt_of_lt_of_le (hg.made element he) hmade, hbelow,
    hg.limit, hg.increasing⟩

/-- The element that is queued has the counter's value, which is above all before it. -/
theorem Sending.Counted.append (hg : g.Counted) (hs : s.Started) (hmade : s.made = g.state.made)
    {keypair : Nat} (hr : g.state.routine = .count keypair)
    (hlimit : g.state.sendNonce keypair < RejectAfterMessages)
    (hbelow : ∀ element ∈ g.encryption, element.nonce < s.sendNonce element.keypair)
    (hcount : s.sendNonce keypair = g.state.sendNonce keypair + 1) :
    Sending.Counted ⟨s, g.encryption ++ [⟨keypair, g.state.sendNonce keypair⟩]⟩ := by
  have hk : keypair < g.state.made := hg.started.routine keypair (by rw [hr]; rfl)
  refine ⟨hs, ?_, ?_, ?_, ?_⟩
  · intro element he
    rw [hmade]
    rcases List.mem_append.mp he with he | he
    · exact hg.made element he
    · rw [List.mem_singleton.mp he]
      exact hk
  · intro element he
    rcases List.mem_append.mp he with he | he
    · exact hbelow element he
    · rw [List.mem_singleton.mp he]
      dsimp only
      omega
  · intro element he
    rcases List.mem_append.mp he with he | he
    · exact hg.limit element he
    · rw [List.mem_singleton.mp he]
      exact hlimit
  · rw [List.pairwise_append]
    refine ⟨hg.increasing, List.pairwise_singleton _ _, ?_⟩
    intro element he last hlast hsame
    rw [List.mem_singleton.mp hlast] at hsame ⊢
    have := hg.below element he
    rwa [hsame] at this

end

theorem sendStep_counted {g g' : Sending} {e : Event × Room} (hg : g.Counted)
    (h : sendStep g e = some g') : g'.Counted := by
  obtain ⟨s, hs, rfl⟩ := Option.map_eq_some_iff.mp h
  obtain ⟨e, room⟩ := e
  have hstarted := step_started hg.started hs
  cases e with
  | routine c =>
    obtain ⟨-, hmade, ⟨keypair, hr, hnonce⟩ | ⟨hne, hnonce⟩⟩ := routineStep_counts hg.started hs
    · have hbelow : ∀ element ∈ g.encryption, element.nonce < s.sendNonce element.keypair := by
        intro element he
        have hlt := hg.below element he
        rw [hnonce]
        by_cases hsame : element.keypair = keypair
        · rw [hsame] at hlt ⊢
          rw [Function.update_self]
          exact lt_counted (hg.limit element he) hlt
        · rwa [Function.update_of_ne hsame]
      have hkeeps := hg.keeps hstarted (Nat.le_of_eq hmade.symm) hbelow
      dsimp only [Sending.queue]
      by_cases hlimit : g.state.sendNonce keypair < RejectAfterMessages
      · have helement : g.state.element = some ⟨keypair, g.state.sendNonce keypair⟩ := by
          rw [State.element, hr]
          exact if_neg (Nat.not_le.mpr hlimit)
        rw [helement]
        cases room with
        | outboundFull | encryptionFull => exact hkeeps
        | both =>
          refine hg.append hstarted hmade hr hlimit hbelow ?_
          rw [hnonce, Function.update_self, counted_below hlimit]
      · have helement : g.state.element = none := by
          rw [State.element, hr]
          exact if_pos (Nat.not_lt.mp hlimit)
        rw [helement]
        exact hkeeps
    · have helement : g.state.element = none := by
        unfold State.element
        split
        · rename_i keypair hr
          exact absurd hr (hne keypair)
        · rfl
      dsimp only [Sending.queue]
      rw [helement]
      exact hg.keeps hstarted (Nat.le_of_eq hmade.symm) (by rw [hnonce]; exact hg.below)
  | _ =>
    have hc := counters_step hs nofun
    refine hg.keeps hstarted hc.made ?_
    intro element he
    rw [hc.sendNonce _ (hg.made element he)]
    exact hg.below element he

/-- The nonces queued under a keypair. -/
def Sending.nonces (g : Sending) (keypair : Nat) : List Nat :=
  (g.encryption.filter fun element => element.keypair = keypair).map Element.nonce

/-- However far the counters have come, the nonces queued under one keypair increase, so
that none is used twice, and stay below the limit. -/
theorem send_nonces_unique {s : State} (hs : s.Started) {events : List (Event × Room)} {g : Sending}
    (hrun : Run.exec sendStep ⟨s, []⟩ events = some g) (keypair : Nat) :
    (g.nonces keypair).Nodup ∧ (g.nonces keypair).Pairwise (· < ·) ∧
      ∀ nonce ∈ g.nonces keypair, nonce < RejectAfterMessages := by
  have hstart : Sending.Counted ⟨s, []⟩ := ⟨hs, nofun, nofun, nofun, .nil⟩
  have hg := Run.exec_invariant (fun _ _ _ hg h => sendStep_counted hg h) hstart hrun
  have hincreasing : (g.nonces keypair).Pairwise (· < ·) := by
    rw [Sending.nonces, List.pairwise_map, List.pairwise_filter]
    refine hg.increasing.imp ?_
    intro a b hab ha hb
    exact hab ((of_decide_eq_true ha).trans (of_decide_eq_true hb).symm)
  refine ⟨hincreasing.imp Nat.ne_of_lt, hincreasing, ?_⟩
  intro nonce hn
  obtain ⟨element, he, rfl⟩ := List.mem_map.mp hn
  exact hg.limit element (List.mem_filter.mp he).1

/-- A started peer with one keypair that has one nonce left. -/
def oneLeft : State :=
  { newState with current := some 0, made := 1, sendNonce := fun _ => RejectAfterMessages - 1 }

def twoPackets : List (Event × Room) :=
  ([Event.enqueue, .enqueue] ++ List.replicate 10 (Event.routine .packet)).map (·, .both)

/-- The second packet gets no nonce. -/
theorem send_nonces_oneLeft :
    ∃ g, Run.exec sendStep ⟨oneLeft, []⟩ twoPackets = some g ∧ g.state.routine = .setAwaiting ∧
      g.nonces 0 = [RejectAfterMessages - 1] ∧ (g.nonces 0).Nodup := by
  refine ⟨_, rfl, rfl, rfl, (@send_nonces_unique oneLeft ⟨?_, nofun⟩ twoPackets _ rfl 0).1⟩
  rintro keypair (h | h)
  · cases h
    exact Nat.zero_lt_one
  · cases h

end Sewg.Go.NonceWait
