import Sewg.Go.Agreement
import Sewg.Go.Workers

/-! Timestamps of initiations, while any number of workers take initiations. -/

namespace Sewg.Go
open CString Noise

def Shared.lastTimestamp (g : Shared) (peer : Nat) : Bytes := (g.handshake peer).lastTimestamp

section
variable {p : Primitives}

/-! ## One section -/

variable {table table' : IndexTable} {timestamp : Bytes} {device : Device} {g g' : Shared}
  {w : Worker} {now : Int} {sym : Symmetric} {t s : Threads.State Shared Worker}

theorem createInitiation_lastTimestamp {peer : Nat} {static : Bytes} {h h' : Handshake} {r : Rand}
    {draws : List (UInt32 × Option String)} {result : Except String MessageInitiation}
    (he : createInitiation p peer static h table r draws timestamp = some (result, h', table')) :
    h'.lastTimestamp = h.lastTimestamp := by
  unfold createInitiation at he
  split at he
  · cases he
    rfl
  · dsimp only at he
    split at he
    · cases he
      rfl
    · split at he
      · cases he
      · cases he
        rfl
      · cases he
        rfl

theorem createResponse_lastTimestamp {peer : Nat} {h h' : Handshake} {r : Rand}
    {draws : List (UInt32 × Option String)} {result : Except String MessageResponse}
    (he : createResponse p peer h table r draws = some (result, h', table')) :
    h'.lastTimestamp = h.lastTimestamp := by
  unfold createResponse at he
  split at he
  · cases he
    rfl
  · split at he
    · cases he
    · cases he
      rfl
    · dsimp only at he
      split at he
      · cases he
        rfl
      · cases he
        rfl

theorem beginSession_lastTimestamp {peer peer' : Peer}
    (hb : beginSession p peer table = .ok (peer', table')) :
    peer'.handshake.lastTimestamp = peer.handshake.lastTimestamp := by
  unfold beginSession at hb
  dsimp only at hb
  split at hb
  · cases hb
  · simp only [Except.ok.injEq, Prod.mk.injEq] at hb
    rw [← hb.1]
    rfl

/-- Neither a timestamp nor the accepted ones have changed. -/
def Shared.SameTimes (g g' : Shared) : Prop :=
  g'.lastTimestamp = g.lastTimestamp ∧ g'.accepted = g.accepted

/-- The write section of `ConsumeMessageInitiation`. -/
def Shared.Accepts (g g' : Shared) (peer : Nat) (timestamp : Bytes) : Prop :=
  g'.lastTimestamp = Function.update g.lastTimestamp peer timestamp ∧
    g'.accepted = Function.update g.accepted peer (timestamp :: g.accepted peer)

theorem Shared.Sets.lastTimestamp {k : Nat} {peer : Peer} (h : g.Sets k peer device) :
    (fun j => (device.peers j).handshake.lastTimestamp) =
      Function.update g.lastTimestamp k peer.handshake.lastTimestamp := by
  funext j
  rw [h]
  by_cases hj : j = k
  · rw [hj, Function.update_self, Function.update_self]
  · rw [Function.update_of_ne hj, Function.update_of_ne hj]
    rfl

theorem Shared.Sets.sameTimes {k : Nat} {peer : Peer} (h : g.Sets k peer device)
    (hk : peer.handshake.lastTimestamp = g.lastTimestamp k) (drawn : List Bytes) :
    g.SameTimes { g with device, drawn } := by
  refine ⟨h.lastTimestamp.trans ?_, rfl⟩
  rw [hk, Function.update_eq_self]

theorem Effect.times {e : Event} (he : Effect p g w e g') :
    g.SameTimes g' ∨ ∃ peer msg timestamp sym now, w = .initiationRead peer msg timestamp sym ∧
      e = .writeInitiation now ∧ g.Accepts g' peer timestamp := by
  cases he with
  | same hs =>
    refine .inl ⟨?_, hs.2.2⟩
    funext k
    rw [Shared.lastTimestamp, Shared.handshake, hs.1]
    rfl
  | keypairs k keypairs device peers => exact .inl (peers.sameTimes (by rfl) _)
  | initiationConsumed k msg timestamp sym now device peers =>
    exact .inr ⟨k, msg, timestamp, sym, now, rfl, rfl, peers.lastTimestamp, rfl⟩
  | responseSent k r draws device created peers =>
    exact .inl (peers.sameTimes (createResponse_lastTimestamp created) _)
  | responseConsumed k msg sym device peers => exact .inl (peers.sameTimes (by rfl) _)
  | begun k device begun peers =>
    exact .inl (peers.sameTimes (beginSession_lastTimestamp begun) _)
  | initiationSent k r draws timestamp device created peers =>
    exact .inl (peers.sameTimes (createInitiation_lastTimestamp created) _)
  | cleared k device peers => exact .inl (peers.sameTimes (by rfl) _)

theorem readInitiation_after {h : Handshake} {msg : MessageInitiation} {sym' : Symmetric}
    (hr : readInitiation p h msg sym now = some (timestamp, sym')) :
    After timestamp h.lastTimestamp := by
  unfold readInitiation at hr
  split at hr
  · cases hr
  · dsimp only at hr
    split at hr
    · cases hr
    · split at hr
      · rename_i fresh
        cases hr
        exact fresh.1
      · cases hr

/-! ## A worker that waits to write -/

/-- Its timestamp is still fresh, or the one it would replace has been accepted. -/
def Pending (g : Shared) : Worker → Prop
  | .initiationRead peer _ timestamp _ =>
    After timestamp (g.lastTimestamp peer) ∨ g.lastTimestamp peer ∈ g.accepted peer
  | _ => True

theorem takeInitiation_pending (g g' : Shared) (msg : MessageInitiation) (call : TeeCall) :
    Pending g' (takeInitiation p g msg call).1 := by
  unfold takeInitiation
  split
  · trivial
  · dsimp only
    split
    · trivial
    · split <;> trivial

theorem takeResponse_pending (g g' : Shared) (msg : MessageResponse) :
    Pending g' (takeResponse g msg) := by
  unfold takeResponse
  split
  · trivial
  · split <;> trivial

theorem lookAtResponse_pending (g g' : Shared) (peer : Nat) (msg : MessageResponse)
    (call : TeeCall) : Pending g' (lookAtResponse p g peer msg call).1 := by
  unfold lookAtResponse
  dsimp only
  split
  · trivial
  · split <;> trivial

theorem pending_own {w' : Worker} {e : Event} (ha : act p w g e = some (w', g')) :
    Pending g' w' := by
  unfold act at ha
  split at ha
  · rename_i msg call
    rw [← show _ = w' from congrArg Prod.fst (Option.some.inj ha)]
    exact takeInitiation_pending g g' msg call
  · split at ha
    · cases ha
      trivial
    · rename_i read
      cases ha
      exact .inl (readInitiation_after read)
  · cases ha
    trivial
  · obtain ⟨⟨result, device⟩, -, ht⟩ := Option.map_eq_some_iff.mp ha
    cases ht
    cases result <;> trivial
  · cases ha
    exact takeResponse_pending g g _
  · rename_i peer msg call
    rw [← show _ = w' from congrArg Prod.fst (Option.some.inj ha)]
    exact lookAtResponse_pending g g' peer msg call
  · cases ha
    trivial
  · split at ha <;> (cases ha; trivial)
  · obtain ⟨⟨result, device⟩, -, ht⟩ := Option.map_eq_some_iff.mp ha
    cases ht
    trivial
  all_goals cases ha
  all_goals trivial

theorem pending_others (times : g.SameTimes g' ∨ ∃ peer timestamp, g.Accepts g' peer timestamp)
    (h : Pending g w) : Pending g' w := by
  cases w with
  | initiationRead k msg timestamp sym =>
    rcases times with ⟨last, accepted⟩ | ⟨peer, written, last, accepted⟩
    · simp only [Pending, last, accepted]
      exact h
    · simp only [Pending, last, accepted]
      by_cases hk : k = peer
      · rw [hk, Function.update_self, Function.update_self]
        exact .inr List.mem_cons_self
      · rw [Function.update_of_ne hk, Function.update_of_ne hk]
        exact h
  | _ => trivial

theorem pending_run {events : List (Nat × Event)}
    (run : Run.exec (workerStep p) (atRest device) events = some t) :
    ∀ i, Pending t.shared (t.threads i) := by
  refine Run.exec_invariant (P := fun s => ∀ i, Pending s.shared (s.threads i)) ?_ ?_ run
  · rintro s ⟨i, e⟩ t hs h
    refine Threads.step_forall hs h (fun _ _ ha => pending_own ha) ?_
    intro w g j ha _ hj
    refine pending_others ?_ hj
    rcases (act_effect p ha).times with same | ⟨peer, _, timestamp, _, _, -, -, accepts⟩
    · exact .inl same
    · exact .inr ⟨peer, timestamp, accepts⟩
  · intro i
    trivial

/-! ## Whole runs -/

/-- The write section of `ConsumeMessageInitiation` runs when its timestamp is
still after the last one. -/
def FreshWrite (s : Threads.State Shared Worker) (e : Nat × Event) : Prop :=
  match s.threads e.1, e.2 with
  | .initiationRead peer _ timestamp _, .writeInitiation _ =>
    After timestamp (s.shared.lastTimestamp peer)
  | _, _ => True

variable (p) in
/-- Between any two points of the run no timestamp goes back, and at every point
no timestamp has been accepted twice. -/
def ReplayProtected (s : Threads.State Shared Worker) (events : List (Nat × Event)) : Prop :=
  ∀ as bs cs u v, events = as ++ bs ++ cs → Run.exec (workerStep p) s as = some u →
    Run.exec (workerStep p) u bs = some v → ∀ k,
      ¬After (u.shared.lastTimestamp k) (v.shared.lastTimestamp k) ∧ (v.shared.accepted k).Nodup

/-- No accepted timestamp is newer than the last one, and none is there twice. -/
def Recorded (g : Shared) : Prop :=
  ∀ k, (∀ timestamp ∈ g.accepted k, ¬After timestamp (g.lastTimestamp k)) ∧ (g.accepted k).Nodup

theorem freshWrite_step {e : Nat × Event} (fresh : FreshWrite s e) (h : workerStep p s e = some t) :
    s.shared.SameTimes t.shared ∨ ∃ peer timestamp,
      After timestamp (s.shared.lastTimestamp peer) ∧ s.shared.Accepts t.shared peer timestamp := by
  obtain ⟨i, e⟩ := e
  obtain ⟨w, g, ha, rfl, -⟩ := Threads.step_cases h
  rcases (act_effect p ha).times with same | ⟨peer, msg, timestamp, sym, now, hw, he, accepts⟩
  · exact .inl same
  · simp only [FreshWrite, hw, he] at fresh
    exact .inr ⟨peer, timestamp, fresh, accepts⟩

theorem lastTimestamp_step {e : Nat × Event} (fresh : FreshWrite s e)
    (h : workerStep p s e = some t) (k : Nat) :
    ¬After (s.shared.lastTimestamp k) (t.shared.lastTimestamp k) := by
  rcases freshWrite_step fresh h with ⟨last, -⟩ | ⟨peer, timestamp, after, last, -⟩
  · rw [last]
    exact List.lt_irrefl _
  · rw [last]
    by_cases hk : k = peer
    · rw [hk, Function.update_self]
      exact List.lt_asymm after
    · rw [Function.update_of_ne hk]
      exact List.lt_irrefl _

theorem recorded_step {e : Nat × Event} (hs : Recorded s.shared) (fresh : FreshWrite s e)
    (h : workerStep p s e = some t) :
    Recorded t.shared := by
  intro k
  rcases freshWrite_step fresh h with ⟨last, accepted⟩ | ⟨peer, timestamp, after, last, accepted⟩
  · rw [last, accepted]
    exact hs k
  · rw [last, accepted]
    by_cases hk : k = peer
    · rw [hk, Function.update_self, Function.update_self]
      obtain ⟨older, nodup⟩ := hs peer
      refine ⟨?_, List.nodup_cons.mpr ⟨fun mem => older timestamp mem after, nodup⟩⟩
      intro earlier mem
      rcases List.mem_cons.mp mem with rfl | mem
      · exact List.lt_irrefl earlier
      · exact List.le_trans (older earlier mem) (List.lt_asymm after)
    · rw [Function.update_of_ne hk, Function.update_of_ne hk]
      exact hs k

theorem protected_of_fresh {events : List (Nat × Event)}
    (fresh : Run.Meets (workerStep p) FreshWrite (atRest device) events) :
    ReplayProtected p (atRest device) events := by
  rintro as bs cs u v rfl hu hv k
  obtain ⟨first, second⟩ := fresh.split hu
  have start : Recorded (atRest device).shared := by
    intro j
    simp [atRest]
  have atU : Recorded u.shared :=
    Run.exec_guarded FreshWrite (P := fun s => Recorded s.shared)
      (fun _ _ _ hs hg h => recorded_step hs hg h) start first hu
  have atV : Recorded v.shared :=
    Run.exec_guarded FreshWrite (P := fun s => Recorded s.shared)
      (fun _ _ _ hs hg h => recorded_step hs hg h) atU second hv
  refine ⟨?_, (atV k).2⟩
  refine Run.exec_guarded FreshWrite
    (P := fun s => ¬After (u.shared.lastTimestamp k) (s.shared.lastTimestamp k)) ?_
    (List.lt_irrefl _) second hv
  intro s e t hs hg h
  exact List.le_trans hs (lastTimestamp_step hg h k)

theorem write_accepts {peer : Nat} {msg : MessageInitiation}
    (ha : act p (.initiationRead peer msg timestamp sym) g (.writeInitiation now) = some (w, g')) :
    g.Accepts g' peer timestamp := by
  cases ha
  have sets : g.Sets peer { g.device.peers peer with
      handshake := writeConsumedInitiation (g.handshake peer) msg timestamp sym now }
      (g.setHandshake peer
        (writeConsumedInitiation (g.handshake peer) msg timestamp sym now)).device :=
    rfl
  exact ⟨sets.lastTimestamp, rfl⟩

/-- A write that is no longer fresh takes the timestamp back, or accepts it a
second time. -/
theorem stale_write {i : Nat} {peer : Nat} {msg : MessageInitiation}
    (hw : s.threads i = .initiationRead peer msg timestamp sym)
    (pending : Pending s.shared (s.threads i))
    (stale : ¬After timestamp (s.shared.lastTimestamp peer))
    (h : workerStep p s (i, .writeInitiation now) = some t) :
    After (s.shared.lastTimestamp peer) (t.shared.lastTimestamp peer) ∨
      ¬(t.shared.accepted peer).Nodup := by
  obtain ⟨w, g, ha, rfl, -⟩ := Threads.step_cases h
  rw [hw] at ha pending
  have before := pending.resolve_left stale
  obtain ⟨last, accepted⟩ := write_accepts ha
  rw [last, accepted, Function.update_self, Function.update_self]
  by_cases back : After (s.shared.lastTimestamp peer) timestamp
  · exact .inl back
  · have same : timestamp = s.shared.lastTimestamp peer := List.le_antisymm stale back
    refine .inr ?_
    intro nodup
    exact (List.nodup_cons.mp nodup).1 (same ▸ before)

/-- A run is protected against replays exactly when each write section found its
timestamp still fresh. -/
theorem initiation_replay (device : Device) (events : List (Nat × Event))
    (t : Threads.State Shared Worker)
    (run : Run.exec (workerStep p) (atRest device) events = some t) :
    ReplayProtected p (atRest device) events ↔
      Run.Meets (workerStep p) FreshWrite (atRest device) events := by
  refine ⟨?_, protected_of_fresh⟩
  intro safe
  rw [Run.meets_iff]
  rintro as ⟨i, e⟩ bs u rfl hu
  obtain ⟨u', hu', rest⟩ := Run.exec_append.mp run
  rw [hu] at hu'
  cases hu'
  obtain ⟨v, hv, -⟩ := Run.exec_cons.mp rest
  have between := safe as [(i, e)] bs u v (by simp) hu
    (Run.exec_cons.mpr ⟨v, hv, rfl⟩)
  unfold FreshWrite
  split
  · rename_i peer msg timestamp sym now hw he
    dsimp only at hw he
    subst he
    by_contra stale
    rcases stale_write hw (pending_run hu i) stale hv with back | twice
    · exact (between peer).1 back
    · exact twice (between peer).2
  · trivial

end

/-- The initiation that the peer sends at this time. -/
def initiationAt (timestamp : UInt8) : MessageInitiation :=
  ⟨MessageInitiationType, 7, publicKey plain (newPrivateKey ⟨List.replicate 32 0, none⟩),
    List.replicate 32 1, List.replicate 12 timestamp⟩

/-- A worker on its way to the write section. -/
def taken (worker : Nat) (timestamp : UInt8) : List (Nat × Event) :=
  [.takeInitiation (initiationAt timestamp) (answering fun _ => 1), .readInitiation 0].map
    (Prod.mk worker)

/-- Two workers that have both read, and write in the order of their timestamps. Then a third
one takes a copy of the first initiation. -/
def inOrder : List (Nat × Event) :=
  taken 0 1 ++ taken 1 2 ++ [(0, .writeInitiation 0), (1, .writeInitiation 0),
    (2, .takeInitiation (initiationAt 1) (answering fun _ => 1)), (2, .readInitiation 1000000000)]

theorem inOrder_fresh :
    Run.Meets (workerStep plain) FreshWrite (atRest (pairedDevice 2 1 3)) inOrder := by
  refine Run.meets_cons trivial rfl ?_
  refine Run.meets_cons trivial rfl ?_
  refine Run.meets_cons trivial rfl ?_
  refine Run.meets_cons trivial rfl ?_
  refine Run.meets_cons (show After (List.replicate 12 1) (List.replicate 12 0) by decide) rfl ?_
  refine Run.meets_cons (show After (List.replicate 12 2) (List.replicate 12 1) by decide) rfl ?_
  refine Run.meets_cons trivial rfl ?_
  exact Run.meets_cons trivial rfl trivial

theorem initiation_replay_inOrder :
    ∃ t, Run.exec (workerStep plain) (atRest (pairedDevice 2 1 3)) inOrder = some t ∧
      t.shared.accepted 0 = [List.replicate 12 2, List.replicate 12 1] ∧ t.threads 2 = .idle ∧
      ReplayProtected plain (atRest (pairedDevice 2 1 3)) inOrder :=
  ⟨_, rfl, rfl, rfl, (initiation_replay _ inOrder _ rfl).mpr inOrder_fresh⟩

/-- Two workers that have both read before one of them writes: copies of one
initiation are both accepted, and an older one takes the timestamp back. -/
theorem initiation_replayed :
    (∃ t, Run.exec (workerStep plain) (atRest (pairedDevice 2 1 3))
        (taken 0 1 ++ taken 1 1 ++ [(0, .writeInitiation 0), (1, .writeInitiation 0)]) = some t ∧
      t.shared.accepted 0 = [List.replicate 12 1, List.replicate 12 1]) ∧
    ∃ u v, Run.exec (workerStep plain) (atRest (pairedDevice 2 1 3))
        (taken 0 1 ++ taken 1 2 ++ [(1, .writeInitiation 0)]) = some u ∧
      Run.exec (workerStep plain) u [(0, .writeInitiation 0)] = some v ∧
      After (u.shared.lastTimestamp 0) (v.shared.lastTimestamp 0) :=
  ⟨⟨_, rfl, rfl⟩, _, _, rfl, rfl,
    show After (List.replicate 12 2) (List.replicate 12 1) by decide⟩

end Sewg.Go
