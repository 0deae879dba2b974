import Sewg.Lib.RWMutex

/-! `SetPrivateKey`, `NewPeer`, `RemovePeer`, the initiations of the peers' own routines and
the handshake workers, by the locks they take: those of the static identity, of the
peers and of each handshake. Other locks are taken last and released at once. -/

namespace Sewg.Go.LockOrder
open RWMutex

inductive LockId where
  | staticIdentity
  | peers
  | handshake (peer : Nat)
  deriving DecidableEq

def PeerRoutineNumber : Nat := 3

/-- The device as far as it decides who takes which lock. -/
structure Config where
  keyMap : List Nat
  nextPeer : Nat
  isUp : Bool
  isRunning : Nat → Bool
  /-- `routines.stop` is closed. -/
  stop : Nat → Bool
  /-- `routines.stopping`, and those of them that have not begun. -/
  stopping : Nat → Nat
  starting : Nat → Nat

/-- A goroutine before the operation named; `announced` is whether a writer is past the
first half of its `Lock`. -/
inductive Goroutine where
  | idle
  /-- `SetPrivateKey` -/
  | setStatic (announced : Bool)
  | setPeers (announced : Bool)
  | setRange
  | setHandshakes (held todo : List Nat)
  | setReleases (held : List Nat)
  | setReleasesStatic
  /-- `NewPeer` -/
  | newStatic
  | newPeers (announced : Bool)
  | newFinds
  | newHandshake (peer : Nat) (announced : Bool)
  | newComputes (peer : Nat)
  | newStarts (peer : Nat)
  | newReleasesPeers
  | newReleasesStatic
  /-- `RemovePeer` -/
  | removePeers (peer : Nat) (announced : Bool)
  | removeFinds (peer : Nat)
  | removeJoins (peer : Nat)
  | removeHandshake (peer : Nat) (announced : Bool)
  | removeClears (peer : Nat)
  | removeReleases
  /-- A routine of a peer, which creates initiations. -/
  | routine (peer : Nat)
  | initiationStatic (peer : Nat)
  | initiationHandshake (peer : Nat) (announced : Bool)
  | initiationCreates (peer : Nat)
  | initiationReleases (peer : Nat)
  /-- `ConsumeMessageResponse` of a worker -/
  | responseRead (peer : Nat)
  | responseLooks (peer : Nat)
  | responseStatic (peer : Nat)
  | responseOpens (peer : Nat)
  | responseReleases (peer : Nat) (ok : Bool)
  | responseWrite (peer : Nat) (announced : Bool)
  | responseWrites (peer : Nat)
  deriving DecidableEq

/-- What a goroutine is set to do, and how it goes on where the code has a choice. -/
inductive Choice where
  | setPrivateKey
  | newPeer
  | removePeer (peer : Nat)
  | consumeResponse (peer : Nat)
  | beginRoutine (peer : Nat)
  | next
  | leave
  /-- The order in which Go visits the map. -/
  | order (peers : List Nat)

def Goroutine.op : Goroutine → Op LockId Nat
  | .setStatic announced => Op.write .staticIdentity announced
  | .setPeers announced | .newPeers announced | .removePeers _ announced =>
    Op.write .peers announced
  | .setHandshakes _ (peer :: _) | .responseRead peer => .rlock (.handshake peer)
  | .setReleases (peer :: _) | .responseReleases peer _ => .runlock (.handshake peer)
  | .setReleases [] | .newReleasesPeers | .removeReleases => .unlock .peers
  | .setReleasesStatic => .unlock .staticIdentity
  | .newStatic | .initiationStatic _ | .responseStatic _ => .rlock .staticIdentity
  | .newHandshake peer announced | .removeHandshake peer announced
  | .initiationHandshake peer announced
  | .responseWrite peer announced => Op.write (.handshake peer) announced
  | .newComputes peer | .removeClears peer | .initiationCreates peer | .responseWrites peer =>
    .unlock (.handshake peer)
  | .newReleasesStatic | .initiationReleases _ | .responseOpens _ => .runlock .staticIdentity
  | .removeJoins peer => .join peer
  | .idle | .setRange | .setHandshakes _ [] | .newFinds | .newStarts _ | .removeFinds _ | .routine _
  | .responseLooks _ => .skip

def Goroutine.footprint : Goroutine → Footprint LockId
  | .setStatic announced => { announces := announcing .staticIdentity announced }
  | .setPeers announced => { writes := [.staticIdentity], announces := announcing .peers announced }
  | .setRange => { writes := [.peers, .staticIdentity] }
  | .setHandshakes held _ | .setReleases held =>
    { writes := [.peers, .staticIdentity], reads := held.map .handshake }
  | .setReleasesStatic => { writes := [.staticIdentity] }
  | .newPeers announced => { reads := [.staticIdentity], announces := announcing .peers announced }
  | .newFinds | .newStarts _ | .newReleasesPeers =>
    { writes := [.peers], reads := [.staticIdentity] }
  | .newHandshake peer announced =>
    { writes := [.peers], reads := [.staticIdentity],
      announces := announcing (.handshake peer) announced }
  | .newComputes peer => { writes := [.handshake peer, .peers], reads := [.staticIdentity] }
  | .newReleasesStatic | .initiationReleases _ => { reads := [.staticIdentity] }
  | .removePeers _ announced => { announces := announcing .peers announced }
  | .removeFinds _ | .removeJoins _ | .removeReleases => { writes := [.peers] }
  | .removeHandshake peer announced =>
    { writes := [.peers], announces := announcing (.handshake peer) announced }
  | .removeClears peer => { writes := [.handshake peer, .peers] }
  | .initiationHandshake peer announced =>
    { reads := [.staticIdentity], announces := announcing (.handshake peer) announced }
  | .initiationCreates peer => { writes := [.handshake peer], reads := [.staticIdentity] }
  | .responseLooks peer | .responseStatic peer | .responseReleases peer _ =>
    { reads := [.handshake peer] }
  | .responseOpens peer => { reads := [.staticIdentity, .handshake peer] }
  | .responseWrite peer announced => { announces := announcing (.handshake peer) announced }
  | .responseWrites peer => { writes := [.handshake peer] }
  | .idle | .newStatic | .routine _ | .initiationStatic _ | .responseRead _ => {}

/-- `Start`, for a peer that is new. -/
def Config.start (c : Config) (peer : Nat) : Config :=
  { c with
    isRunning := Function.update c.isRunning peer true
    stop := Function.update c.stop peer false
    stopping := Function.update c.stopping peer PeerRoutineNumber
    starting := Function.update c.starting peer PeerRoutineNumber }

def Goroutine.next (x : Goroutine) (c : Config) (e : Choice) : Option (Goroutine × Config) :=
  match x, e with
  | .idle, .setPrivateKey => some (.setStatic false, c)
  | .setStatic false, .next => some (.setStatic true, c)
  | .setStatic true, .next => some (.setPeers false, c)
  | .setPeers false, .next => some (.setPeers true, c)
  | .setPeers true, .next => some (.setRange, c)
  | .setRange, .order peers =>
    if peers.isPerm c.keyMap then some (.setHandshakes [] peers, c) else none
  | .setHandshakes held (peer :: todo), .next => some (.setHandshakes (peer :: held) todo, c)
  | .setHandshakes held [], .next => some (.setReleases held, c)
  | .setReleases (_ :: held), .next => some (.setReleases held, c)
  | .setReleases [], .next => some (.setReleasesStatic, c)
  | .setReleasesStatic, .next => some (.idle, c)
  | .idle, .newPeer => some (.newStatic, c)
  | .newStatic, .next => some (.newPeers false, c)
  | .newPeers false, .next => some (.newPeers true, c)
  | .newPeers true, .next => some (.newFinds, c)
  | .newFinds, .leave => some (.newReleasesPeers, c)
  | .newFinds, .next =>
    some (.newHandshake c.nextPeer false,
      { c with keyMap := c.nextPeer :: c.keyMap, nextPeer := c.nextPeer + 1 })
  | .newHandshake peer false, .next => some (.newHandshake peer true, c)
  | .newHandshake peer true, .next => some (.newComputes peer, c)
  | .newComputes peer, .next => some (.newStarts peer, c)
  | .newStarts peer, .next => some (.newReleasesPeers, if c.isUp then c.start peer else c)
  | .newReleasesPeers, .next => some (.newReleasesStatic, c)
  | .newReleasesStatic, .next => some (.idle, c)
  | .idle, .removePeer peer => some (.removePeers peer false, c)
  | .removePeers peer false, .next => some (.removePeers peer true, c)
  | .removePeers peer true, .next => some (.removeFinds peer, c)
  | .removeFinds peer, .next =>
    if peer ∉ c.keyMap then some (.removeReleases, c)
    else if c.isRunning peer then
      some (.removeJoins peer, { c with
        isRunning := Function.update c.isRunning peer false
        stop := Function.update c.stop peer true })
    else some (.removeReleases, { c with keyMap := c.keyMap.erase peer })
  | .removeJoins peer, .next => some (.removeHandshake peer false, c)
  | .removeHandshake peer false, .next => some (.removeHandshake peer true, c)
  | .removeHandshake peer true, .next => some (.removeClears peer, c)
  | .removeClears peer, .next => some (.removeReleases, { c with keyMap := c.keyMap.erase peer })
  | .removeReleases, .next => some (.idle, c)
  | .idle, .beginRoutine peer =>
    if c.starting peer = 0 then none
    else some
      (.routine peer, { c with starting := Function.update c.starting peer (c.starting peer - 1) })
  | .routine peer, .next => some (.initiationStatic peer, c)
  | .routine peer, .leave =>
    if c.stop peer then
      some (.idle, { c with stopping := Function.update c.stopping peer (c.stopping peer - 1) })
    else none
  | .initiationStatic peer, .next => some (.initiationHandshake peer false, c)
  | .initiationHandshake peer false, .next => some (.initiationHandshake peer true, c)
  | .initiationHandshake peer true, .next => some (.initiationCreates peer, c)
  | .initiationCreates peer, .next => some (.initiationReleases peer, c)
  | .initiationReleases peer, .next => some (.routine peer, c)
  | .idle, .consumeResponse peer => some (.responseRead peer, c)
  | .responseRead peer, .next => some (.responseLooks peer, c)
  | .responseLooks peer, .next => some (.responseStatic peer, c)
  | .responseLooks peer, .leave => some (.responseReleases peer false, c)
  | .responseStatic peer, .next => some (.responseOpens peer, c)
  | .responseOpens peer, .next => some (.responseReleases peer true, c)
  | .responseOpens peer, .leave => some (.responseReleases peer false, c)
  | .responseReleases peer true, .next => some (.responseWrite peer false, c)
  | .responseReleases _ false, .next => some (.idle, c)
  | .responseWrite peer false, .next => some (.responseWrite peer true, c)
  | .responseWrite peer true, .next => some (.responseWrites peer, c)
  | .responseWrites _, .next => some (.idle, c)
  | _, _ => none

/-- The routine that a goroutine is until it returns. -/
def Goroutine.isRoutine : Goroutine → Option Nat
  | .routine peer | .initiationStatic peer | .initiationHandshake peer _ | .initiationCreates peer
  | .initiationReleases peer => some peer
  | _ => none

def device : Program Config Goroutine Choice LockId Nat where
  op := Goroutine.op
  next := Goroutine.next
  footprint := Goroutine.footprint
  routine := Goroutine.isRoutine
  joined c peer := c.stopping peer = 0

theorem next_moves {x x' : Goroutine} {c c' : Config} {e : Choice}
    (h : x.next c e = some (x', c')) : Moves x.op x.footprint x'.footprint := by
  unfold Goroutine.next at h
  split at h
  all_goals try (cases h; constructor)
  -- those that look at the device
  · split at h
    · cases h
      exact .skip
    · cases h
  · split at h
    · cases h
      exact .skip
    · split at h <;> (cases h; exact .skip)
  · split at h
    · cases h
    · cases h
      exact .skip
  · split at h
    · cases h
      exact .skip
    · cases h
  · cases h

theorem device_faithful : Faithful device where
  moves _ _ _ _ _ h := next_moves h
  locks x l h := by
    cases x
    case setStatic | setPeers | newPeers | newHandshake | removePeers | removeHandshake
        | initiationHandshake
        | responseWrite => exact Op.write_eq_lock h
    all_goals cases h

/-! ## SetPrivateKey and the others -/

/-- `SetPrivateKey`, from the moment its first lock is announced. -/
def Goroutine.setting : Goroutine → Bool
  | .setStatic true | .setPeers _ | .setRange | .setHandshakes .. | .setReleases _
  | .setReleasesStatic => true
  | _ => false

/-- `ConsumeMessageResponse` has the handshake to read, and may come to want the static
identity. -/
def Goroutine.opening : Goroutine → Bool
  | .responseLooks _ | .responseStatic _ => true
  | _ => false

/-- `RemovePeer` has the peers, and may come to wait for a routine or a handshake. -/
def Goroutine.removing : Goroutine → Bool
  | .removeFinds _ | .removeJoins _ | .removeHandshake .. => true
  | _ => false

/-- `SetPrivateKey` does not begin while a worker reads a response or a peer is removed,
and they do not begin while it is under way. -/
def OrderGuard (s : State Config Goroutine LockId) (e : Nat × Choice) : Prop :=
  match s.threads e.1 with
  | .setStatic false => ∀ j, (s.threads j).opening = false ∧ (s.threads j).removing = false
  | .responseRead _ | .removePeers _ true => ∀ j, (s.threads j).setting = false
  | _ => True

/-- What the guard keeps, and what the map keeps. -/
structure Ordered (s : State Config Goroutine LockId) : Prop where
  linked : Linked device s
  apart : ∀ i j, (s.threads i).setting = true → (s.threads j).opening = false ∧
    (s.threads j).removing = false
  nodup : s.data.keyMap.Nodup
  fresh : ∀ peer ∈ s.data.keyMap, peer < s.data.nextPeer
  ranges : ∀ i held todo, s.threads i = .setHandshakes held todo → (held ++ todo).Nodup

theorem next_kinds {x x' : Goroutine} {c c' : Config} {e : Choice}
    (h : x.next c e = some (x', c')) :
    (x'.setting = true → x.setting = true ∨ x = .setStatic false) ∧
    (x'.opening = true → x.opening = true ∨ ∃ peer, x = .responseRead peer) ∧
    (x'.removing = true → x.removing = true ∨ ∃ peer, x = .removePeers peer true) := by
  unfold Goroutine.next at h
  split at h
  all_goals try (cases h; simp [Goroutine.setting, Goroutine.opening, Goroutine.removing])
  · split at h <;> cases h
    simp [Goroutine.setting, Goroutine.opening, Goroutine.removing]
  · split at h
    · cases h
      simp [Goroutine.setting, Goroutine.opening, Goroutine.removing]
    · split at h <;> (cases h; simp [Goroutine.setting, Goroutine.opening, Goroutine.removing])
  · split at h <;> cases h
    simp [Goroutine.setting, Goroutine.opening, Goroutine.removing]
  · split at h <;> cases h
    simp [Goroutine.setting, Goroutine.opening, Goroutine.removing]
  · cases h

theorem next_keyMap {x x' : Goroutine} {c c' : Config} {e : Choice} (h : x.next c e = some (x', c'))
    (hnodup : c.keyMap.Nodup) (hfresh : ∀ peer ∈ c.keyMap, peer < c.nextPeer) :
    c'.keyMap.Nodup ∧ ∀ peer ∈ c'.keyMap, peer < c'.nextPeer := by
  have herase : ∀ peer, (c.keyMap.erase peer).Nodup ∧ ∀ k ∈ c.keyMap.erase peer, k < c.nextPeer :=
    fun peer => ⟨hnodup.erase peer, fun k hk => hfresh k (List.mem_of_mem_erase hk)⟩
  unfold Goroutine.next at h
  split at h
  all_goals try (cases h; exact ⟨hnodup, hfresh⟩)
  · split at h <;> cases h
    exact ⟨hnodup, hfresh⟩
  · cases h
    refine ⟨List.nodup_cons.mpr ⟨fun hmem => Nat.lt_irrefl _ (hfresh _ hmem), hnodup⟩, ?_⟩
    intro peer hmem
    rcases List.mem_cons.mp hmem with rfl | hmem
    · exact Nat.lt_succ_self _
    · exact Nat.lt_succ_of_lt (hfresh peer hmem)
  · cases h
    split <;> exact ⟨hnodup, hfresh⟩
  · split at h
    · cases h
      exact ⟨hnodup, hfresh⟩
    · split at h
      · cases h
        exact ⟨hnodup, hfresh⟩
      · cases h
        exact herase _
  · cases h
    exact herase _
  · split at h <;> cases h
    exact ⟨hnodup, hfresh⟩
  · split at h <;> cases h
    exact ⟨hnodup, hfresh⟩
  · cases h

theorem next_ranges {x : Goroutine} {c c' : Config} {e : Choice} {held todo : List Nat}
    (h : x.next c e = some (.setHandshakes held todo, c')) :
    (held = [] ∧ todo.Perm c.keyMap) ∨
      ∃ peer held', held = peer :: held' ∧ x = .setHandshakes held' (peer :: todo) := by
  unfold Goroutine.next at h
  split at h
  all_goals try (cases h; done)
  · split at h
    · rename_i hperm
      cases h
      exact .inl ⟨rfl, List.isPerm_iff.mp hperm⟩
    · cases h
  · cases h
    exact .inr ⟨_, _, rfl, rfl⟩
  · split at h
    · cases h
    · split at h <;> cases h
  · split at h <;> cases h
  · split at h <;> cases h

theorem setting_alone {x : Goroutine} (hx : x.setting = true) :
    x.opening = false ∧ x.removing = false := by
  cases x
  case setStatic | setPeers | setRange | setHandshakes | setReleases | setReleasesStatic =>
    exact ⟨rfl, rfl⟩
  all_goals cases hx

section
variable {s t : State Config Goroutine LockId}

theorem Ordered.step {e : Nat × Choice} (hs : Ordered s) (hguard : OrderGuard s e)
    (hst : step device s e = some t) : Ordered t := by
  have hlinked := hs.linked.step device_faithful hst
  obtain ⟨i, e⟩ := e
  obtain ⟨x, hnext, -, hti, hothers⟩ := step_cases device hst
  have hnext : (s.threads i).next s.data e = some (x, t.data) := hnext
  obtain ⟨hsetting, hopening, hremoving⟩ := next_kinds hnext
  obtain ⟨hnodup, hfresh⟩ := next_keyMap hnext hs.nodup hs.fresh
  refine ⟨hlinked, ?_, hnodup, hfresh, ?_⟩
  · intro a b ha
    by_cases hb : b = i
    · subst hb
      rw [hti]
      by_cases hab : a = b
      · subst hab
        rw [hti] at ha
        exact setting_alone ha
      · -- who begins to read a response or to remove a peer finds nobody setting the key
        rw [hothers a hab] at ha
        have hapart := hs.apart a b ha
        rw [← Bool.not_eq_true, ← Bool.not_eq_true]
        refine ⟨fun ho => ?_, fun hr => ?_⟩
        · rcases hopening ho with ho | ⟨peer, hx⟩
          · rw [hapart.1] at ho
            cases ho
          · rw [OrderGuard, hx] at hguard
            rw [hguard a] at ha
            cases ha
        · rcases hremoving hr with hr | ⟨peer, hx⟩
          · rw [hapart.2] at hr
            cases hr
          · rw [OrderGuard, hx] at hguard
            rw [hguard a] at ha
            cases ha
    · rw [hothers b hb]
      by_cases hai : a = i
      · rw [hai, hti] at ha
        rcases hsetting ha with ha | hx
        · exact hs.apart i b ha
        · rw [OrderGuard, hx] at hguard
          exact hguard b
      · exact hs.apart a b (hothers a hai ▸ ha)
  · intro j held todo hj
    by_cases hji : j = i
    · subst hji
      rw [hti] at hj
      subst hj
      rcases next_ranges hnext with ⟨rfl, hperm⟩ | ⟨peer, held', rfl, hbefore⟩
      · exact hperm.nodup_iff.mpr hs.nodup
      · have hnodup := hs.ranges j _ _ hbefore
        exact (List.perm_middle.nodup_iff.mp hnodup :)
    · exact hs.ranges j held todo (hothers j hji ▸ hj)

end

/-! ## Nobody waits in a circle -/

section
variable {x : Goroutine} {peer : Nat}

theorem writes_handshake (h : LockId.handshake peer ∈ x.footprint.writes) : x.op.Rests := by
  cases x
  case newComputes | removeClears | initiationCreates | responseWrites => trivial
  all_goals simp [Goroutine.footprint] at h

theorem reads_handshake (h : LockId.handshake peer ∈ x.footprint.reads) :
    .staticIdentity ∈ x.footprint.writes ∨ x.opening = true ∨ x.op.Rests := by
  cases x
  case setHandshakes | setReleases => exact .inl (by simp [Goroutine.footprint])
  case responseLooks | responseStatic => exact .inr (.inl rfl)
  case responseOpens | responseReleases => exact .inr (.inr trivial)
  all_goals simp [Goroutine.footprint] at h

theorem writes_peers (h : LockId.peers ∈ x.footprint.writes) :
    .staticIdentity ∈ x.footprint.writes ∨ x.removing = true ∨ x.op.Rests ∨
      .staticIdentity ∈ x.footprint.reads ∧ ∃ peer, x.op.On (.handshake peer) := by
  cases x
  case setRange | setHandshakes | setReleases => exact .inl (by simp [Goroutine.footprint])
  case removeFinds | removeJoins | removeHandshake => exact .inr (.inl rfl)
  case newFinds | newComputes | newStarts | newReleasesPeers | removeClears | removeReleases =>
    exact .inr (.inr (.inl trivial))
  case newHandshake peer announced =>
    exact .inr (.inr (.inr ⟨by simp [Goroutine.footprint], peer, by cases announced <;> rfl⟩))
  all_goals simp [Goroutine.footprint] at h

theorem reads_peers : LockId.peers ∉ x.footprint.reads := by
  cases x <;> simp [Goroutine.footprint]

theorem writes_static (h : LockId.staticIdentity ∈ x.footprint.writes) : x.setting = true := by
  cases x
  case setPeers | setRange | setHandshakes | setReleases | setReleasesStatic => rfl
  all_goals simp [Goroutine.footprint] at h

theorem reads_static (h : LockId.staticIdentity ∈ x.footprint.reads) :
    x.op.Rests ∨ x.op.On .peers ∨ ∃ peer, x.op.On (.handshake peer) := by
  cases x
  case newPeers announced => exact .inr (.inl (by cases announced <;> rfl))
  case newHandshake peer announced | initiationHandshake peer announced =>
    exact .inr (.inr ⟨peer, by cases announced <;> rfl⟩)
  case newFinds | newComputes | newStarts | newReleasesPeers | newReleasesStatic | initiationCreates
      | initiationReleases | responseOpens => exact .inl trivial
  all_goals simp [Goroutine.footprint] at h

theorem lock_static (h : x.op = .lock .staticIdentity) : x.setting = true := by
  cases x
  case setStatic announced =>
    cases announced with
    | false => cases h
    | true => rfl
  case setPeers announced | newPeers announced | removePeers _ announced | newHandshake _ announced
      | removeHandshake _ announced | initiationHandshake _ announced | responseWrite _ announced =>
    cases announced <;> cases h
  case setHandshakes held todo => cases todo <;> cases h
  case setReleases held => cases held <;> cases h
  all_goals cases h

theorem op_opening (h : x.opening = true) : x.op.Rests ∨ x.op.On .staticIdentity := by
  cases x
  case responseLooks => exact .inl trivial
  case responseStatic => exact .inr rfl
  all_goals cases h

theorem op_removing (h : x.removing = true) :
    x.op.Rests ∨ (∃ peer, x.op = .join peer) ∨ ∃ peer, x.op.On (.handshake peer) := by
  cases x
  case removeFinds => exact .inl trivial
  case removeJoins peer => exact .inr (.inl ⟨peer, rfl⟩)
  case removeHandshake peer announced => exact .inr (.inr ⟨peer, by cases announced <;> rfl⟩)
  all_goals cases h

theorem op_join (h : x.op = .join peer) : x.removing = true := by
  cases x
  case removeJoins => rfl
  case setStatic announced | setPeers announced | newPeers announced | removePeers _ announced
      | newHandshake _ announced | removeHandshake _ announced | initiationHandshake _ announced
      | responseWrite _ announced =>
    cases announced <;> cases h
  case setHandshakes held todo => cases todo <;> cases h
  case setReleases held => cases held <;> cases h
  all_goals cases h

theorem op_routine (h : x.isRoutine = some peer) :
    x.op.Rests ∨ x.op.On .staticIdentity ∨ ∃ peer, x.op.On (.handshake peer) := by
  cases x
  case routine | initiationCreates | initiationReleases => exact .inl trivial
  case initiationStatic => exact .inr (.inl rfl)
  case initiationHandshake peer announced => exact .inr (.inr ⟨peer, by cases announced <;> rfl⟩)
  all_goals cases h

theorem op_cases (x : Goroutine) :
    x.op.Rests ∨ x.op.On .staticIdentity ∨ x.op.On .peers ∨ (∃ peer, x.op.On (.handshake peer)) ∨
      ∃ peer, x.op = .join peer := by
  cases x
  case setStatic announced => exact .inr (.inl (by cases announced <;> rfl))
  case newStatic | initiationStatic | responseStatic => exact .inr (.inl rfl)
  case setPeers announced | newPeers announced | removePeers _ announced =>
    exact .inr (.inr (.inl (by cases announced <;> rfl)))
  case newHandshake peer announced | removeHandshake peer announced
      | initiationHandshake peer announced
      | responseWrite peer announced =>
    exact .inr (.inr (.inr (.inl ⟨peer, by cases announced <;> rfl⟩)))
  case responseRead peer => exact .inr (.inr (.inr (.inl ⟨peer, rfl⟩)))
  case removeJoins peer => exact .inr (.inr (.inr (.inr ⟨peer, rfl⟩)))
  case setHandshakes held todo =>
    cases todo with
    | nil => exact .inl trivial
    | cons peer todo => exact .inr (.inr (.inr (.inl ⟨peer, rfl⟩)))
  case setReleases held => cases held <;> exact .inl trivial
  all_goals exact .inl trivial

end

section
variable {s : State Config Goroutine LockId}

theorem Ordered.free_handshake (hs : Ordered s) {i peer : Nat}
    (hop : (s.threads i).op.On (.handshake peer))
    (hreads : ∀ j, .handshake peer ∈ (s.threads j).footprint.reads → Free device s j) :
    Free device s i :=
  free_on hs.linked device_faithful hop (fun _ hj => free_of_rests (writes_handshake hj)) hreads

theorem Ordered.free_peers (hs : Ordered s) {i : Nat} (hop : (s.threads i).op.On .peers)
    (hwrites : ∀ j, .peers ∈ (s.threads j).footprint.writes → Free device s j) : Free device s i :=
  free_on hs.linked device_faithful hop hwrites fun _ hj => absurd hj reads_peers

/-- Without `SetPrivateKey` nobody keeps readers of the static identity out. -/
theorem Ordered.free_unset (hs : Ordered s) (hunset : ∀ j, ¬ (s.threads j).setting = true)
    (i : Nat) : Free device s i := by
  have hstatic : ∀ i, (s.threads i).op.On .staticIdentity → Free device s i := by
    intro i hop
    refine free_of_announced hs.linked (l := .staticIdentity) ?_ ?_ ?_
    · rcases hop.cases with hop | hop | hop
      · exact .inl hop
      · exact .inr hop
      · exact absurd (lock_static hop) (hunset i)
    · intro j hj
      exact absurd (writes_static hj) (hunset j)
    · intro j hj
      exact absurd (lock_static (device_faithful.locks _ _ hj)) (hunset j)
  have hhandshake : ∀ peer i, (s.threads i).op.On (.handshake peer) → Free device s i := by
    intro peer i hop
    refine hs.free_handshake hop fun j hj => ?_
    rcases reads_handshake hj with hj | hj | hj
    · exact absurd (writes_static hj) (hunset j)
    · rcases op_opening hj with hj | hj
      · exact free_of_rests hj
      · exact hstatic j hj
    · exact free_of_rests hj
  have hjoin : ∀ peer i, (s.threads i).op = .join peer → Free device s i := by
    intro peer i hop
    refine free_of_join (P := device) hop fun j hj => ?_
    rcases op_routine hj with hj | hj | ⟨k, hj⟩
    · exact free_of_rests hj
    · exact hstatic j hj
    · exact hhandshake k j hj
  have hpeers : ∀ i, (s.threads i).op.On .peers → Free device s i := by
    intro i hop
    refine hs.free_peers hop fun j hj => ?_
    rcases writes_peers hj with hj | hj | hj | ⟨-, k, hj⟩
    · exact absurd (writes_static hj) (hunset j)
    · rcases op_removing hj with hj | ⟨k, hj⟩ | ⟨k, hj⟩
      · exact free_of_rests hj
      · exact hjoin k j hj
      · exact hhandshake k j hj
    · exact free_of_rests hj
    · exact hhandshake k j hj
  rcases op_cases (s.threads i) with hi | hi | hi | ⟨k, hi⟩ | ⟨k, hi⟩
  · exact free_of_rests hi
  · exact hstatic i hi
  · exact hpeers i hi
  · exact hhandshake k i hi
  · exact hjoin k i hi

/-- `SetPrivateKey` gets the peers from those that release them, and a handshake from its
writers, who have nothing left to wait for. -/
theorem Ordered.free_writer (hs : Ordered s) {p : Nat}
    (hp : .staticIdentity ∈ (s.threads p).footprint.writes) : Free device s p := by
  have hapart := fun j => hs.apart p j (writes_static hp)
  have hunread := hs.linked.not_reads hp
  cases hx : s.threads p
  case setPeers announced =>
    refine hs.free_peers (by rw [hx]; cases announced <;> rfl) fun j hj => ?_
    rcases writes_peers hj with hw | hw | hw | ⟨hw, -⟩
    · cases hs.linked.writes_unique hp hw
      rw [hx] at hj
      simp [Goroutine.footprint] at hj
    · simp [hapart j] at hw
    · exact free_of_rests hw
    · exact absurd hw (hunread j)
  case setHandshakes held todo =>
    cases todo with
    | nil => exact free_of_rests (P := device) (by rw [hx]; trivial)
    | cons k todo =>
      have hwrites : ∀ j, .handshake k ∈ (s.threads j).footprint.writes → Free device s j :=
        fun j hj => free_of_rests (writes_handshake hj)
      refine free_of_announced hs.linked (.inr (by rw [hx]; rfl)) hwrites fun j hj => ?_
      -- an announced writer of the next handshake waits for readers, and this goroutine is
      -- not one of them: it has not been at this peer before
      refine free_of_lock hs.linked (device_faithful.locks _ _ hj) hwrites fun r hr => ?_
      rcases reads_handshake hr with hw | hw | hw
      · cases hs.linked.writes_unique hp hw
        rw [hx] at hr
        obtain ⟨k', hheld, hk⟩ := List.mem_map.mp hr
        cases hk
        exact absurd rfl
          ((List.nodup_append.mp (hs.ranges p held (k :: todo) hx)).2.2 k hheld k
          List.mem_cons_self)
      · simp [hapart r] at hw
      · exact free_of_rests hw
  case setRange | setReleasesStatic => exact free_of_rests (P := device) (by rw [hx]; trivial)
  case setReleases held => exact free_of_rests (P := device) (by rw [hx]; cases held <;> trivial)
  all_goals
    rw [hx] at hp
    simp [Goroutine.footprint] at hp

theorem Ordered.free_set (hs : Ordered s) {q : Nat} (hq : (s.threads q).setting = true) (i : Nat) :
    Free device s i := by
  have hapart := fun j => hs.apart q j hq
  have hhandshake : ∀ peer i, (s.threads i).op.On (.handshake peer) → Free device s i := by
    intro peer i hop
    refine hs.free_handshake hop fun j hj => ?_
    rcases reads_handshake hj with hj | hj | hj
    · exact hs.free_writer hj
    · simp [hapart j] at hj
    · exact free_of_rests hj
  have hpeers : ∀ i, (s.threads i).op.On .peers → Free device s i := by
    intro i hop
    refine hs.free_peers hop fun j hj => ?_
    rcases writes_peers hj with hj | hj | hj | ⟨-, k, hj⟩
    · exact hs.free_writer hj
    · simp [hapart j] at hj
    · exact free_of_rests hj
    · exact hhandshake k j hj
  rcases op_cases (s.threads i) with hi | hi | hi | ⟨k, hi⟩ | ⟨k, hi⟩
  · exact free_of_rests hi
  · refine free_on hs.linked device_faithful hi (fun j hj => hs.free_writer hj) fun j hj => ?_
    rcases reads_static hj with hj | hj | ⟨k, hj⟩
    · exact free_of_rests hj
    · exact hpeers j hj
    · exact hhandshake k j hj
  · exact hpeers i hi
  · exact hhandshake k i hi
  · have := op_join hi
    simp [hapart i] at this

end

/-- Everybody is idle and every lock is free. -/
def atRest (c : Config) : State Config Goroutine LockId := ⟨c, fun _ => {}, fun _ => .idle⟩

theorem ordered_atRest {c : Config} (hnodup : c.keyMap.Nodup)
    (hfresh : ∀ peer ∈ c.keyMap, peer < c.nextPeer) : Ordered (atRest c) where
  linked := .free fun _ => rfl
  apart i j h := by cases h
  nodup := hnodup
  fresh := hfresh
  ranges i held todo h := by cases h

/-- Nobody waits in a circle, if `SetPrivateKey` does not come in between a worker that
reads a response or `RemovePeer`. -/
theorem no_circular_wait {c : Config} (hnodup : c.keyMap.Nodup)
    (hfresh : ∀ peer ∈ c.keyMap, peer < c.nextPeer) {es : List (Nat × Choice)}
    (hguard : Run.Meets (step device) OrderGuard (atRest c) es) {t : State Config Goroutine LockId}
    (hrun : Run.exec (step device) (atRest c) es = some t) (i : Nat) :
    ¬ Relation.TransGen (WaitsFor device t) i i := by
  have ht : Ordered t :=
    Run.exec_guarded OrderGuard (fun _ _ _ hs he hst => hs.step he hst)
      (ordered_atRest hnodup hfresh) hguard hrun
  by_cases hset : ∃ j, (t.threads j).setting = true
  · obtain ⟨j, hj⟩ := hset
    exact (ht.free_set hj i).not_cycle
  · exact (ht.free_unset (fun j hj => hset ⟨j, hj⟩) i).not_cycle

/-- One peer, which runs. -/
def oneRunning : Config where
  keyMap := [0]
  nextPeer := 1
  isUp := true
  isRunning := fun _ => true
  stop := fun _ => false
  stopping := fun _ => PeerRoutineNumber
  starting := fun _ => PeerRoutineNumber

/-- A worker has the handshake of a peer, and a routine of the peer, which has the static
identity, has announced itself for the handshake. -/
def crossing : List (Nat × Choice) :=
  [(0, .consumeResponse 0), (0, .next), (0, .next), (1, .beginRoutine 0), (1, .next),
    (1, .next), (1, .next)]

/-- `SetPrivateKey` once the worker has the static identity, too. -/
theorem no_circular_wait_crossing : ∃ t,
    Run.exec (step device) (atRest oneRunning) (crossing ++
      [(0, .next), (2, .setPrivateKey), (2, .next)]) =
      some t ∧ ∀ i, ¬ Relation.TransGen (WaitsFor device t) i i := by
  have hguard : Run.Meets (step device) OrderGuard (atRest oneRunning)
      (crossing ++ [(0, .next), (2, .setPrivateKey), (2, .next)]) := by
    refine Run.meets_cons trivial rfl (Run.meets_cons ?_ rfl ?_)
    · -- the worker begins
      intro j
      rcases j with _ | j <;> rfl
    refine Run.meets_cons trivial rfl (Run.meets_cons trivial rfl (Run.meets_cons trivial rfl ?_))
    refine Run.meets_cons trivial rfl (Run.meets_cons trivial rfl (Run.meets_cons trivial rfl ?_))
    refine Run.meets_cons trivial rfl (Run.meets_cons ?_ rfl trivial)
    -- `SetPrivateKey` begins
    intro j
    rcases j with _ | _ | _ | j <;> exact ⟨rfl, rfl⟩
  obtain ⟨t, ht⟩ := Option.isSome_iff_exists.mp (rfl : (Run.exec (step device) (atRest oneRunning)
    (crossing ++ [(0, .next), (2, .setPrivateKey), (2, .next)])).isSome = true)
  exact ⟨t, ht, no_circular_wait (by decide) (by decide) hguard ht⟩

/-- The worker waits for `SetPrivateKey`, which waits for the routine, which waits for
the worker. -/
theorem circular_wait : ∃ t,
    Run.exec (step device) (atRest oneRunning) (crossing ++ [(2, .setPrivateKey), (2, .next)]) =
      some t ∧ Relation.TransGen (WaitsFor device t) 0 0 := by
  refine ⟨_, rfl, ?_⟩
  refine .tail (b := 1) (.tail (b := 2) (.single ?_) ?_) ?_
  · exact .inr rfl
  · exact .inr (by decide)
  · exact .inr (by decide)

end Sewg.Go.LockOrder
