import Sewg.Go.Entries
import Sewg.Go.Replay

/-! `RemovePeer` among handshake workers. A worker looks its peer up once and goes on
with what it found; nothing on the peer says that it has been removed. -/

namespace Sewg.Go
open CString Noise

/-! ## RemovePeer among the workers -/

/-- A handshake worker, or where `RemovePeer` stands. -/
inductive Party
  | worker (w : Worker)
  /-- `Stop` has taken `isRunning`; timers and routines are being stopped. -/
  | stopping (key : Bytes) (peer : Nat)
  /-- `ZeroAndFlushAll` has dropped the keypairs. -/
  | zeroed (key : Bytes) (peer : Nat)
  /-- `Stop` has returned. -/
  | stopped (key : Bytes) (peer : Nat)
  deriving DecidableEq

/-- `peersLocked` is `peers.mutex`, which `RemovePeer` holds from its lookup to its end. -/
structure Removing where
  shared : Shared
  isRunning : Nat → Bool
  peersLocked : Bool := false

inductive RemovalEvent
  | work (e : Event)
  | removePeer (key : Bytes)
  | zeroKeypairs
  | clearHandshake
  | delete

/-- The sections of `RoutineHandshake`. -/
def Event.ofMessage : Event → Bool
  | .takeInitiation .. | .readInitiation _ | .writeInitiation _ | .createResponse ..
  | .takeResponse _
  | .readResponse _ | .writeResponse | .beginSession => true
  | .sendInitiation .. | .zeroKeypairs _ | .clearHandshake | .receivedWithKeypair .. => false

def Removing.device (g : Removing) : Device := g.shared.device

def Removing.setDevice (g : Removing) (device : Device) : Removing :=
  { g with shared := { g.shared with device } }

section
variable (p : Primitives)

/-- Whether a section gets as far as `LookupPeer`, which waits for `peers.mutex`. -/
def looksUp (device : Device) : Event → Bool
  | .takeInitiation msg call =>
    msg.type = MessageInitiationType ∧
      (openStatic p device.publicKey
        (rootSharedSecret device.privateKey msg.ephemeral call).1 msg).isSome
  | _ => false

/-- `RemovePeer`, with `unsafeRemovePeer` and `Stop`: a peer that is not running is only
taken from the map. -/
def removalAct (party : Party) (g : Removing) (e : RemovalEvent) : Option (Party × Removing) :=
  match party, e with
  | .worker w, .work e =>
    if ¬e.ofMessage ∨ g.peersLocked ∧ looksUp p g.device e then none
    else (act p w g.shared e).map fun (w, shared) => (.worker w, { g with shared })
  | .worker .idle, .removePeer key =>
    if g.peersLocked then none
    else match g.device.keyMap.lookup key with
    | none => some (.worker .idle, g)
    | some peer =>
      if g.isRunning peer then
        some (.stopping key peer,
          { g with isRunning := Function.update g.isRunning peer false, peersLocked := true })
      else some (.stopped key peer, { g with peersLocked := true })
  | .stopping key peer, .zeroKeypairs =>
    some (.zeroed key peer, g.setDevice (g.device.zeroKeypairs peer))
  | .zeroed key peer, .clearHandshake =>
    some (.stopped key peer, g.setDevice (g.device.clearHandshake peer))
  | .stopped key _, .delete =>
    some (.worker .idle,
      { g.setDevice { g.device with keyMap := g.device.keyMap.filter (·.1 ≠ key) } with
        peersLocked := false })
  | _, _ => none

abbrev removalStep := Threads.step (removalAct p)

end

/-- The peer a worker has in hand. -/
def Worker.peer : Worker → Option Nat
  | .idle => none
  | .initiation k _ _ | .initiationRead k _ _ _ | .respond k | .response k _ | .responseRead k _ _
  | .derive k | .clear k => some k

/-- No worker has the peer in hand. -/
def NotInHand (s : Threads.State Removing Party) (k : Nat) : Prop :=
  ∀ j w, s.threads j = .worker w → w.peer ≠ some k

/-- Nothing of the peer is left. -/
structure Device.Forgets (device : Device) (k : Nat) : Prop where
  entries : ∀ i, ¬ HasEntry device.indexTable k i
  slots : (device.peers k).keypairs = {}

/-- The peer runs when its removal begins, or nothing of it is left and no worker has it
in hand; and no worker has it in hand when its keypairs are dropped, or takes it up
before its handshake is cleared. -/
def RemovalGuard (s : Threads.State Removing Party) (e : Nat × RemovalEvent) : Prop :=
  match s.threads e.1, e.2 with
  | .worker _, .removePeer key =>
    ∀ k, s.shared.device.keyMap.lookup key = some k →
      s.shared.isRunning k = true ∨ s.shared.device.Forgets k ∧ NotInHand s k
  | .stopping _ k, .zeroKeypairs => NotInHand s k
  | .worker _, .work (.takeResponse msg) =>
    ∀ j key k, s.threads j = .zeroed key k → ¬ HasEntry s.shared.device.indexTable k msg.receiver
  | _, _ => True

/-! ## What a section takes up and leaves alone -/

section
variable {p : Primitives} {g g' : Shared} {w w' : Worker} {e : Event} {k n : Nat}

theorem operand_peer (hm : e.ofMessage = true) (ho : operand w e = some n) : w.peer = some n := by
  cases w <;> cases e <;> cases hm <;> cases ho <;> rfl

/-- A section is about the peer that the worker has in hand. -/
theorem act_leaves (ha : act p w g e = some (w', g')) (hm : e.ofMessage = true)
    (hw : w.peer ≠ some k) : g'.device.peers k = g.device.peers k ∧
      ∀ i, HasEntry g'.device.indexTable k i → HasEntry g.device.indexTable k i := by
  rcases act_operation ha with hsame | ⟨n, hn, ho⟩
  · rw [hsame.peers, hsame.table]
    exact ⟨rfl, fun _ => id⟩
  · have hkn : k ≠ n := by
      rintro rfl
      exact hw (operand_peer hm hn)
    exact ⟨ho.touches.others k hkn, ho.touches.entries k hkn⟩

theorem takeInitiation_peer {msg : MessageInitiation} {call : TeeCall}
    (hp : (takeInitiation p g msg call).1.peer = some k) :
    looksUp p g.device (.takeInitiation msg call) = true ∧
      ∃ key, g.device.keyMap.lookup key = some k := by
  unfold takeInitiation at hp
  split at hp
  · cases hp
  · rename_i htype
    dsimp only at hp
    split at hp
    · cases hp
    · rename_i key sym hopen
      split at hp
      · cases hp
      · rename_i peer hlookup
        cases hp
        have hopens : (openStatic p g.device.publicKey
            (rootSharedSecret g.device.privateKey msg.ephemeral call).1 msg).isSome := by
          rw [Option.isSome_iff_exists]
          exact ⟨_, hopen⟩
        exact ⟨decide_eq_true ⟨not_not.mp htype, hopens⟩, key, hlookup⟩

theorem takeResponse_peer {msg : MessageResponse} (hp : (takeResponse g msg).peer = some k) :
    HasEntry g.device.indexTable k msg.receiver := by
  unfold takeResponse at hp
  split at hp
  · cases hp
  · split at hp
    · cases hp
    · cases hp
    · rename_i hentry
      cases hp
      exact ⟨none, hentry⟩

/-- A worker has a peer in hand that it had before, or that it has just looked up. -/
theorem act_peer (ha : act p w g e = some (w', g')) (hm : e.ofMessage = true)
    (hp : w'.peer = some k) :
    w.peer = some k ∨ (looksUp p g.device e = true ∧ ∃ key, g.device.keyMap.lookup key = some k) ∨
      ∃ msg, e = .takeResponse msg ∧ HasEntry g.device.indexTable k msg.receiver := by
  unfold act at ha
  split at ha
  · rename_i msg call
    obtain rfl : (takeInitiation p g msg call).1 = w' := congrArg Prod.fst (Option.some.inj ha)
    exact .inr (.inl (takeInitiation_peer hp))
  · split at ha <;> cases ha
    · cases hp
    · exact .inl hp
  · cases ha
    exact .inl hp
  · obtain ⟨⟨result, device⟩, made, ht⟩ := Option.map_eq_some_iff.mp ha
    cases ht
    cases result with
    | error err => cases hp
    | ok msg => exact .inl hp
  · rename_i msg
    cases ha
    exact .inr (.inr ⟨msg, rfl, takeResponse_peer hp⟩)
  · rename_i n msg call
    obtain rfl : (lookAtResponse p g n msg call).1 = w' := congrArg Prod.fst (Option.some.inj ha)
    unfold lookAtResponse at hp
    dsimp only at hp
    split at hp
    · cases hp
    · split at hp
      · cases hp
      · exact .inl hp
  · cases ha
    exact .inl hp
  · split at ha <;> (cases ha; cases hp)
  · cases hm
  · cases hm
  · cases hm
  · cases hm
  · cases ha

end

/-! ## The removal of one peer -/

/-- One step of a run with what it does. -/
inductive RemovalEffect (p : Primitives) (g : Removing) :
    Party → RemovalEvent → Party → Removing → Prop
  | work {w w' e shared} (message : e.ofMessage = true)
      (free : g.peersLocked = true → looksUp p g.device e = false)
      (acted : act p w g.shared e = some (w', shared)) :
    RemovalEffect p g (.worker w) (.work e) (.worker w') { g with shared }
  | missing {key} (unlocked : g.peersLocked = false) :
    RemovalEffect p g (.worker .idle) (.removePeer key) (.worker .idle) g
  | stop {key n} (unlocked : g.peersLocked = false) (found : g.device.keyMap.lookup key = some n) :
    RemovalEffect p g (.worker .idle) (.removePeer key) (.stopping key n)
      { g with isRunning := Function.update g.isRunning n false, peersLocked := true }
  | notRunning {key n} (unlocked : g.peersLocked = false)
      (found : g.device.keyMap.lookup key = some n) (halted : g.isRunning n = false) :
    RemovalEffect p g (.worker .idle) (.removePeer key) (.stopped key n)
      { g with peersLocked := true }
  | zeroKeypairs {key n} :
    RemovalEffect p g (.stopping key n) .zeroKeypairs (.zeroed key n)
      (g.setDevice (g.device.zeroKeypairs n))
  | clearHandshake {key n} :
    RemovalEffect p g (.zeroed key n) .clearHandshake (.stopped key n)
      (g.setDevice (g.device.clearHandshake n))
  | delete {key n} :
    RemovalEffect p g (.stopped key n) .delete (.worker .idle)
      { g.setDevice { g.device with keyMap := g.device.keyMap.filter (·.1 ≠ key) } with
        peersLocked := false }

theorem removalAct_effect {p : Primitives} {party party' : Party} {g g' : Removing}
    {e : RemovalEvent}
    (ha : removalAct p party g e = some (party', g')) : RemovalEffect p g party e party' g' := by
  unfold removalAct at ha
  split at ha
  · rename_i w e
    split at ha
    · cases ha
    · rename_i hfree
      obtain ⟨⟨w', shared⟩, hacted, ht⟩ := Option.map_eq_some_iff.mp ha
      cases ht
      rw [not_or, not_not, not_and] at hfree
      exact .work hfree.1 (fun hl => Bool.eq_false_iff.mpr (hfree.2 hl)) hacted
  · rename_i key
    split at ha
    · cases ha
    · rename_i hunlocked
      have hunlocked : g.peersLocked = false := Bool.eq_false_iff.mpr hunlocked
      split at ha
      · cases ha
        exact .missing hunlocked
      · rename_i hfound
        split at ha
        · cases ha
          exact .stop hunlocked hfound
        · rename_i hhalted
          cases ha
          exact .notRunning hunlocked hfound (Bool.eq_false_iff.mpr hhalted)
  · cases ha
    exact .zeroKeypairs
  · cases ha
    exact .clearHandshake
  · cases ha
    exact .delete
  · cases ha

/-- The key and the peer that `RemovePeer` is at. -/
def Party.removes : Party → Option (Bytes × Nat)
  | .worker _ => none
  | .stopping key k | .zeroed key k | .stopped key k => some (key, k)

/-- What is left of the peer once its removal has come this far. -/
def Reached (s : Threads.State Removing Party) (k : Nat) : Party → Prop
  | .worker _ | .stopping .. => True
  | .zeroed _ n => n = k → (s.shared.device.peers k).keypairs = {} ∧ NotInHand s k
  | .stopped _ n => n = k → s.shared.device.Forgets k ∧ NotInHand s k

/-- The removal of peer `k`, which has this key and no other. -/
structure Follows (key : Bytes) (k : Nat) (s : Threads.State Removing Party) : Prop where
  traces : s.shared.device.Traces k
  only : ∀ key', s.shared.device.keyMap.lookup key' = some k → key' = key
  same : ∀ n, s.shared.device.keyMap.lookup key = some n → n = k
  locked : ∀ j x, (s.threads j).removes = some x →
    s.shared.peersLocked = true ∧ s.shared.device.keyMap.lookup x.1 = some x.2
  alone : ∀ i j x y, (s.threads i).removes = some x → (s.threads j).removes = some y → i = j
  reached : ∀ j, Reached s k (s.threads j)
  gone : s.shared.device.keyMap.lookup key = none → s.shared.device.Forgets k ∧ NotInHand s k

/-- A step that has nothing to do with the peer. -/
structure Leaves (k : Nat) (s t : Threads.State Removing Party) : Prop where
  notInHand : NotInHand s k → NotInHand t k
  peer : t.shared.device.peers k = s.shared.device.peers k
  entries : ∀ i, HasEntry t.shared.device.indexTable k i → HasEntry s.shared.device.indexTable k i

section
variable {p : Primitives} {key : Bytes} {k : Nat} {s t : Threads.State Removing Party} {i : Nat}

theorem Leaves.forgets (hl : Leaves k s t) (hf : s.shared.device.Forgets k) :
    t.shared.device.Forgets k := by
  refine ⟨fun i he => hf.entries i (hl.entries i he), ?_⟩
  rw [hl.peer]
  exact hf.slots

theorem Leaves.reached (hl : Leaves k s t) {q : Party} (hr : Reached s k q) : Reached t k q := by
  cases q with
  | worker w => trivial
  | stopping key n => trivial
  | zeroed key n =>
    intro hn
    rw [hl.peer]
    exact ⟨(hr hn).1, hl.notInHand (hr hn).2⟩
  | stopped key n =>
    intro hn
    exact ⟨hl.forgets (hr hn).1, hl.notInHand (hr hn).2⟩

theorem NotInHand.moved (hq : NotInHand s k) (hothers : ∀ j, j ≠ i → t.threads j = s.threads j)
    (hi : ∀ w, t.threads i = .worker w → w.peer ≠ some k) : NotInHand t k := by
  intro j w hw
  by_cases hj : j = i
  · subst hj
    exact hi w hw
  · rw [hothers j hj] at hw
    exact hq j w hw

theorem work_leaves {w w' : Worker} {e : Event} {shared : Shared} (hm : e.ofMessage = true)
    (ha : act p w s.shared.shared e = some (w', shared)) (hi : s.threads i = .worker w)
    (ht : t.shared.device = shared.device) (hti : t.threads i = .worker w')
    (hothers : ∀ j, j ≠ i → t.threads j = s.threads j) (hq : NotInHand s k)
    (hlook : looksUp p s.shared.device e = true →
      ∀ key', s.shared.device.keyMap.lookup key' ≠ some k)
    (hresponse : ∀ msg, e = .takeResponse msg →
      ¬ HasEntry s.shared.device.indexTable k msg.receiver) :
    Leaves k s t := by
  have hw : w.peer ≠ some k := hq i w hi
  obtain ⟨hpeer, hentries⟩ := act_leaves ha hm hw
  refine ⟨fun hq => hq.moved hothers ?_, ?_, ?_⟩
  · intro v hv hvk
    rw [hti] at hv
    cases hv
    rcases act_peer ha hm hvk with hold | ⟨hl, key', hkey⟩ | ⟨msg, rfl, he⟩
    · exact hw hold
    · exact hlook hl key' hkey
    · exact hresponse msg rfl he
  · rw [ht]
    exact hpeer
  · rw [ht]
    exact hentries

theorem Touches.leaves {n : Nat} (htouches : Touches n s.shared.device t.shared.device)
    (hkn : k ≠ n)
    (hothers : ∀ j, j ≠ i → t.threads j = s.threads j) (hi : ∀ w, t.threads i ≠ .worker w) :
    Leaves k s t :=
  ⟨fun hq => hq.moved hothers fun w hw => absurd hw (hi w), htouches.others k hkn,
    htouches.entries k hkn⟩

theorem lookup_filter_ne (keyMap : List (Bytes × Nat)) (key key' : Bytes) :
    (keyMap.filter (·.1 ≠ key)).lookup key' = if key' = key then none else keyMap.lookup key' := by
  induction keyMap with
  | nil => simp
  | cons x keyMap ih =>
    obtain ⟨a, n⟩ := x
    by_cases ha : a = key
    · rw [List.filter_cons_of_neg (by simpa using ha), ih]
      split
      · rfl
      · rename_i hne
        rw [List.lookup_cons, beq_false_of_ne (fun h => hne (h.trans ha))]
    · rw [List.filter_cons_of_pos (by simpa using ha), List.lookup_cons, List.lookup_cons, ih]
      by_cases hkey : key' = a
      · subst hkey
        simp [ha]
      · rw [beq_false_of_ne hkey]

theorem Follows.of_keeps (hs : Follows key k s)
    (hkeys : t.shared.device.keyMap = s.shared.device.keyMap)
    (hlocked : t.shared.peersLocked = s.shared.peersLocked)
    (hremoves : ∀ j, (t.threads j).removes = (s.threads j).removes)
    (htraces : t.shared.device.Traces k) (hreached : ∀ j, Reached t k (t.threads j))
    (hgone : s.shared.device.keyMap.lookup key = none → t.shared.device.Forgets k ∧ NotInHand t k) :
    Follows key k t := by
  refine ⟨htraces, ?_, ?_, ?_, ?_, hreached, ?_⟩
  · rw [hkeys]
    exact hs.only
  · rw [hkeys]
    exact hs.same
  · intro j x hx
    rw [hkeys, hlocked]
    exact hs.locked j x (hremoves j ▸ hx)
  · intro i j x y hx hy
    exact hs.alone i j x y (hremoves i ▸ hx) (hremoves j ▸ hy)
  · rw [hkeys]
    exact hgone

theorem Follows.work {w w' : Worker} {e : Event} {shared : Shared} (hs : Follows key k s)
    (hguard : RemovalGuard s (i, .work e)) (hm : e.ofMessage = true)
    (hfree : s.shared.peersLocked = true → looksUp p s.shared.device e = false)
    (ha : act p w s.shared.shared e = some (w', shared)) (hi : s.threads i = .worker w)
    (ht : t.shared = { s.shared with shared }) (hti : t.threads i = .worker w')
    (hothers : ∀ j, j ≠ i → t.threads j = s.threads j) : Follows key k t := by
  have hdevice : t.shared.device = shared.device := by
    rw [ht]
    rfl
  have hleaves := work_leaves (t := t) (k := k) hm ha hi hdevice hti hothers
  have hresponse : ∀ msg, e = .takeResponse msg → ∀ j key' n, s.threads j = .zeroed key' n →
      ¬ HasEntry s.shared.device.indexTable n msg.receiver := by
    rintro msg rfl
    simpa [RemovalGuard, hi] using hguard
  refine hs.of_keeps ?_ ?_ ?_ ?_ ?_ ?_
  · rw [hdevice]
    exact act_keyMap ha
  · rw [ht]
  · intro j
    by_cases hj : j = i
    · rw [hj, hti, hi]
      rfl
    · rw [hothers j hj]
  · rw [hdevice]
    exact act_traces ha hs.traces
  · intro j
    by_cases hj : j = i
    · rw [hj, hti]
      trivial
    · rw [hothers j hj]
      have hr := hs.reached j
      have hl := hs.locked j
      cases hq : s.threads j with
      | worker v => trivial
      | stopping key' n => trivial
      | zeroed key' n =>
        rw [hq] at hr hl
        intro hn
        have hlook := hfree (hl _ rfl).1
        have hleft := hleaves (hr hn).2 (fun h => by rw [hlook] at h; cases h)
          (fun msg hmsg => hn ▸ hresponse msg hmsg j key' n hq)
        exact hleft.reached hr hn
      | stopped key' n =>
        rw [hq] at hr hl
        intro hn
        have hlook := hfree (hl _ rfl).1
        have hleft := hleaves (hr hn).2 (fun h => by rw [hlook] at h; cases h)
          (fun msg _ => (hr hn).1.entries _)
        exact hleft.reached hr hn
  · intro hnone
    obtain ⟨hforgets, hq⟩ := hs.gone hnone
    have hleft := hleaves hq
      (fun _ key' hkey => by
        rw [hs.only key' hkey, hnone] at hkey
        cases hkey)
      (fun msg _ => hforgets.entries _)
    exact ⟨hleft.forgets hforgets, hleft.notInHand hq⟩

/-- `RemovePeer` has found its peer; nobody else is removing one. -/
theorem Follows.begins {key' : Bytes} {n : Nat} (hs : Follows key k s)
    (hunlocked : s.shared.peersLocked = false)
    (hfound : s.shared.device.keyMap.lookup key' = some n)
    (hdevice : t.shared.device = s.shared.device) (hlocked : t.shared.peersLocked = true)
    (hremoves : (t.threads i).removes = some (key', n))
    (hothers : ∀ j, j ≠ i → t.threads j = s.threads j) (hreached : Reached t k (t.threads i)) :
    Follows key k t := by
  have hnobody : ∀ j, (s.threads j).removes = none := by
    intro j
    rw [Option.eq_none_iff_forall_ne_some]
    intro x hx
    have := (hs.locked j x hx).1
    rw [hunlocked] at this
    cases this
  have honly : ∀ j x, (t.threads j).removes = some x → j = i ∧ x = (key', n) := by
    intro j x hx
    by_cases hj : j = i
    · rw [hj, hremoves] at hx
      cases hx
      exact ⟨hj, rfl⟩
    · rw [hothers j hj, hnobody j] at hx
      cases hx
  have hworker : ∀ w, t.threads i ≠ .worker w := by
    intro w hw
    rw [hw] at hremoves
    cases hremoves
  have hleaves : Leaves k s t := by
    refine ⟨fun hq => hq.moved hothers fun w hw => absurd hw (hworker w), ?_, ?_⟩ <;> rw [hdevice]
    exact fun _ => id
  refine ⟨hdevice ▸ hs.traces, hdevice ▸ hs.only, hdevice ▸ hs.same, ?_, ?_, ?_, ?_⟩
  · intro j x hx
    obtain ⟨-, rfl⟩ := honly j x hx
    rw [hdevice]
    exact ⟨hlocked, hfound⟩
  · intro i' j x y hx hy
    rw [(honly i' x hx).1, (honly j y hy).1]
  · intro j
    by_cases hj : j = i
    · subst hj
      exact hreached
    · rw [hothers j hj]
      exact hleaves.reached (hs.reached j)
  · rw [hdevice]
    intro hnone
    obtain ⟨hforgets, hq⟩ := hs.gone hnone
    exact ⟨hdevice ▸ hleaves.forgets hforgets, hleaves.notInHand hq⟩

theorem Follows.goesOn {key' : Bytes} {n : Nat} (hs : Follows key k s)
    (hi : (s.threads i).removes = some (key', n)) (hti : (t.threads i).removes = some (key', n))
    (htouches : Touches n s.shared.device t.shared.device)
    (hlocked : t.shared.peersLocked = s.shared.peersLocked)
    (hothers : ∀ j, j ≠ i → t.threads j = s.threads j)
    (hreached : n = k → Reached t k (t.threads i)) :
    Follows key k t := by
  have hworker : ∀ w, t.threads i ≠ .worker w := by
    intro w hw
    rw [hw] at hti
    cases hti
  have hfound := (hs.locked i _ hi).2
  refine hs.of_keeps htouches.keyMap hlocked ?_ ?_ ?_ ?_
  · intro j
    by_cases hj : j = i
    · rw [hj, hti, hi]
    · rw [hothers j hj]
  · by_cases hkn : k = n
    · subst hkn
      exact htouches.traces hs.traces
    · intro j he
      rw [htouches.others k hkn]
      exact hs.traces j (htouches.entries k hkn j he)
  · intro j
    by_cases hj : j = i
    · subst hj
      by_cases hn : n = k
      · exact hreached hn
      · cases hq : t.threads j with
        | worker w => trivial
        | stopping key'' m => trivial
        | zeroed key'' m | stopped key'' m =>
          rw [hq] at hti
          cases hti
          exact fun h => absurd h hn
    · -- nobody else is removing a peer
      rw [hothers j hj]
      cases hq : s.threads j with
      | worker w => trivial
      | stopping key'' m => trivial
      | zeroed key'' m | stopped key'' m =>
        exact absurd (hs.alone j i (key'', m) _ (by rw [hq]; rfl) hi) hj
  · intro hnone
    have hkn : k ≠ n := by
      rintro rfl
      rw [hs.only key' hfound, hnone] at hfound
      cases hfound
    have hleaves := htouches.leaves hkn hothers hworker
    obtain ⟨hforgets, hq⟩ := hs.gone hnone
    exact ⟨hleaves.forgets hforgets, hleaves.notInHand hq⟩

theorem Follows.delete {key' : Bytes} {n : Nat} (hs : Follows key k s)
    (hi : s.threads i = .stopped key' n) (hdevice : t.shared.device =
      { s.shared.device with keyMap := s.shared.device.keyMap.filter (·.1 ≠ key') })
    (hti : t.threads i = .worker .idle) (hothers : ∀ j, j ≠ i → t.threads j = s.threads j) :
    Follows key k t := by
  have hremoves : (s.threads i).removes = some (key', n) := by
    rw [hi]
    rfl
  have hnobody : ∀ j, ∃ w, t.threads j = .worker w := by
    intro j
    by_cases hj : j = i
    · exact ⟨.idle, hj ▸ hti⟩
    · rw [hothers j hj]
      cases hq : s.threads j with
      | worker w => exact ⟨w, rfl⟩
      | stopping key'' m | zeroed key'' m | stopped key'' m =>
        exact absurd (hs.alone j i (key'', m) _ (by rw [hq]; rfl) hremoves) hj
  have hlookup : ∀ key'', t.shared.device.keyMap.lookup key'' =
      if key'' = key' then none else s.shared.device.keyMap.lookup key'' := by
    intro key''
    rw [hdevice]
    exact lookup_filter_ne _ _ _
  have hleaves : Leaves k s t := by
    refine ⟨fun hq => hq.moved hothers ?_, ?_, ?_⟩
    · intro w hw
      rw [hti] at hw
      cases hw
      nofun
    · rw [hdevice]
    · rw [hdevice]
      exact fun _ => id
  refine ⟨?_, ?_, ?_, ?_, ?_, ?_, ?_⟩
  · rw [hdevice]
    exact hs.traces
  · intro key'' hk
    rw [hlookup] at hk
    split at hk
    · cases hk
    · exact hs.only key'' hk
  · intro m hm
    rw [hlookup] at hm
    split at hm
    · cases hm
    · exact hs.same m hm
  · intro j x hx
    obtain ⟨w, hw⟩ := hnobody j
    rw [hw] at hx
    cases hx
  · intro i' j x y hx
    obtain ⟨w, hw⟩ := hnobody i'
    rw [hw] at hx
    cases hx
  · intro j
    obtain ⟨w, hw⟩ := hnobody j
    rw [hw]
    trivial
  · intro hnone
    rw [hlookup] at hnone
    have hleft : s.shared.device.Forgets k ∧ NotInHand s k := by
      split at hnone
      · rename_i hkey
        have hfound := (hs.locked i _ hremoves).2
        have hr := hs.reached i
        rw [hi] at hr
        exact hr (hs.same n (hkey ▸ hfound))
      · exact hs.gone hnone
    exact ⟨hleaves.forgets hleft.1, hleaves.notInHand hleft.2⟩

theorem Follows.step {e : Nat × RemovalEvent} (hs : Follows key k s) (hguard : RemovalGuard s e)
    (hst : removalStep p s e = some t) : Follows key k t := by
  obtain ⟨i, e⟩ := e
  obtain ⟨q, g, ha, hg, hti, hothers⟩ := Threads.step_cases hst
  have heffect := removalAct_effect ha
  unfold RemovalGuard at hguard
  generalize hi : s.threads i = party at heffect hguard
  cases heffect with
  | work message free acted =>
    refine hs.work ?_ message free acted hi hg hti hothers
    unfold RemovalGuard
    rw [hi]
    exact hguard
  | missing unlocked => exact Threads.State.eq_of_same hg (hti.trans hi.symm) hothers ▸ hs
  | @stop key' n unlocked found =>
    exact hs.begins unlocked found (by rw [hg]; rfl) (by rw [hg]) (by rw [hti]; rfl) hothers
      (by rw [hti]; trivial)
  | @notRunning key' n unlocked found halted =>
    refine hs.begins unlocked found (by rw [hg]; rfl) (by rw [hg]) (by rw [hti]; rfl) hothers ?_
    rw [hti]
    rintro rfl
    rcases hguard n found with hrunning | ⟨hforgets, hq⟩
    · rw [halted] at hrunning
      cases hrunning
    · refine ⟨by rw [hg]; exact hforgets, hq.moved hothers ?_⟩
      rw [hti]
      nofun
  | @zeroKeypairs key' n =>
    refine hs.goesOn (n := n) (by rw [hi]; rfl) (by rw [hti]; rfl)
      (by rw [hg]; exact zeroKeypairs_touches _ n) (by rw [hg]; rfl) hothers ?_
    rintro rfl
    rw [hti]
    refine fun _ => ⟨?_, NotInHand.moved hguard hothers (by rw [hti]; nofun)⟩
    rw [hg]
    simp [Removing.setDevice, Removing.device, Device.zeroKeypairs]
  | @clearHandshake key' n =>
    refine hs.goesOn (n := n) (by rw [hi]; rfl) (by rw [hti]; rfl)
      (by rw [hg]; exact clearHandshake_touches _ n) (by rw [hg]; rfl) hothers ?_
    rintro rfl
    rw [hti]
    have hr := hs.reached i
    rw [hi] at hr
    obtain ⟨hslots, hq⟩ := hr rfl
    refine fun _ => ⟨⟨?_, ?_⟩, hq.moved hothers (by rw [hti]; nofun)⟩
    · rw [hg]
      intro j he
      obtain ⟨hne, he⟩ := hasEntry_delete.mp he
      rcases hs.traces j he with hj | ⟨x, hx, -⟩
      · exact hne hj.symm
      · rw [hslots] at hx
        simp [Keypairs.Has] at hx
    · rw [hg]
      simpa [Removing.setDevice, Removing.device, Device.clearHandshake,
        Device.setHandshake] using hslots
  | @delete key' n => exact hs.delete hi (by rw [hg]; rfl) hti hothers

end

/-- Nobody is in the middle of anything. -/
def beforeRemoval (device : Device) (isRunning : Nat → Bool) : Threads.State Removing Party :=
  ⟨{ shared := { device }, isRunning }, fun _ => .worker .idle⟩

/-- In every guarded run in which a peer has been removed, nothing is left of it. -/
theorem removed_peer_forgotten (p : Primitives) (device : Device) (isRunning : Nat → Bool)
    (key : Bytes) (k : Nat) (hk : device.keyMap.lookup key = some k)
    (honly : ∀ key', device.keyMap.lookup key' = some k → key' = key) (htraces : device.Traces k)
    (events : List (Nat × RemovalEvent))
    (hguard : Run.Meets (removalStep p) RemovalGuard (beforeRemoval device isRunning) events)
    (t : Threads.State Removing Party)
    (run : Run.exec (removalStep p) (beforeRemoval device isRunning) events = some t)
    (hremoved : t.shared.device.keyMap.lookup key = none) :
    (∀ i what, t.shared.device.indexTable i ≠ some ⟨k, what⟩) ∧
      (t.shared.device.peers k).keypairs = {} := by
  have hstart : Follows key k (beforeRemoval device isRunning) := by
    refine ⟨htraces, honly, ?_, nofun, nofun, fun _ => trivial, ?_⟩
    · intro n hn
      exact (Option.some.inj (hk.symm.trans hn)).symm
    · intro hnone
      cases hk.symm.trans hnone
  have hend :=
    Run.exec_guarded RemovalGuard (fun _ _ _ hs hg hst => hs.step hg hst) hstart hguard run
  obtain ⟨hforgets, -⟩ := hend.gone hremoved
  exact ⟨fun i what he => hforgets.entries i ⟨what, he⟩, hforgets.slots⟩

/-- A worker's way through an initiation of peer 0, up to its lookup and from there on. -/
def initiationTaken : List (Nat × RemovalEvent) :=
  [(0, .work (.takeInitiation (initiationAt 1) (answering fun _ => 1)))]

def initiationAnswered : List (Nat × RemovalEvent) :=
  [.readInitiation 0, .writeInitiation 0, .createResponse ⟨List.replicate 32 8, none⟩ [(9, none)],
    .beginSession].map fun e => (0, .work e)

def removal : List (Nat × RemovalEvent) :=
  [.removePeer (List.replicate 32 1), .zeroKeypairs, .clearHandshake, .delete].map (Prod.mk 1)

/-- The worker is done before the peer is removed. -/
theorem removed_peer_forgotten_answered :
    ∃ s t, Run.exec (removalStep plain) (beforeRemoval (pairedDevice 2 1 3) fun _ => true)
        (initiationTaken ++ initiationAnswered) = some s ∧
      HasEntry s.shared.device.indexTable 0 9 ∧
      Run.exec (removalStep plain) (beforeRemoval (pairedDevice 2 1 3) fun _ => true)
        (initiationTaken ++ initiationAnswered ++ removal) = some t ∧
      (∀ i what, t.shared.device.indexTable i ≠ some ⟨0, what⟩) ∧
      (t.shared.device.peers 0).keypairs = {} := by
  refine ⟨_, _, rfl, ⟨_, rfl⟩, rfl, ?_⟩
  refine removed_peer_forgotten plain (pairedDevice 2 1 3) (fun _ => true)
    (List.replicate 32 1) 0 rfl ?_
    (fun i ⟨what, he⟩ => nomatch he) (initiationTaken ++ initiationAnswered ++ removal) ?_ _ rfl rfl
  · intro key' hk
    by_contra hne
    rw [show (pairedDevice 2 1 3).keyMap = [(List.replicate 32 1, 0)] from rfl, List.lookup_cons,
      beq_false_of_ne hne] at hk
    cases hk
  · iterate 5 refine Run.meets_cons trivial rfl ?_
    refine Run.meets_cons (fun k _ => .inl rfl) rfl ?_
    refine Run.meets_cons ?_ rfl (Run.meets_cons trivial rfl (Run.meets_cons trivial rfl trivial))
    intro j w hw
    rcases j with _ | _ | j <;> cases hw <;> nofun

/-- The worker has looked the peer up before it is removed, and answers afterwards. -/
theorem removed_peer_keypair :
    ∃ t keypair, Run.exec (removalStep plain) (beforeRemoval (pairedDevice 2 1 3) fun _ => true)
        (initiationTaken ++ removal ++ initiationAnswered) = some t ∧
      (∀ j, t.threads j = .worker .idle) ∧
      t.shared.device.keyMap.lookup (List.replicate 32 1) = none ∧
      t.shared.device.indexTable 9 = some ⟨0, some keypair⟩ ∧
      (t.shared.device.peers 0).keypairs.next = some keypair := by
  refine ⟨_, _, rfl, ?_, rfl, rfl, rfl⟩
  intro j
  rcases j with _ | _ | j <;> rfl

end Sewg.Go
