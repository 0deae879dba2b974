import Sewg.Go.Agreement
import Sewg.Go.Workers
import Sewg.Lib.Accounts

/-! Which ephemeral key a session comes from, and that no two sessions of a peer
send under the same key. -/

namespace Sewg.Go
open CString Noise

section
variable (p : Primitives) (calls : Set (Bytes × Bytes))

/-! ## The own ephemeral key in a session -/

inductive MadeFrom (ephemeral : Bytes) (keypair : Keypair) : Prop
  | initiator (chainKey : Bytes) (key : InitiatorKey p calls (initialChainKey p) ephemeral chainKey)
      (made : ∀ call ∈ p.kdfCalls chainKey [], call ∈ calls)
      (send : keypair.send = p.mix chainKey [])
  | responder (chainKey : Bytes) (key : ResponderKey p calls ephemeral chainKey)
      (made : ∀ call ∈ p.kdfCalls chainKey [], call ∈ calls)
      (send : keypair.send = p.second chainKey [])

variable {p calls}

/-- Equal send keys come from one ephemeral key. -/
theorem MadeFrom.unique (free : p.CollisionFree calls) {e e' : Bytes} {k k' : Keypair}
    (h : MadeFrom p calls e k) (h' : MadeFrom p calls e' k') (same : k.send = k'.send) :
    e = e' := by
  cases h with
  | initiator c key made send =>
    cases h' with
    | initiator c' key' made' send' =>
      rw [send, send'] at same
      simp only [Primitives.kdfCalls, List.forall_mem_cons] at made made'
      obtain ⟨rfl, -⟩ := mix_injective free ⟨made.1, made.2.1⟩ ⟨made'.1, made'.2.1⟩ same
      exact key.unique free key'
    | responder c' key' made' send' =>
      rw [send, send'] at same
      exact absurd same (mix_ne_second free made made')
  | responder c key made send =>
    cases h' with
    | initiator c' key' made' send' =>
      rw [send, send'] at same
      exact absurd same.symm (mix_ne_second free made' made)
    | responder c' key' made' send' =>
      rw [send, send'] at same
      obtain ⟨rfl, -⟩ := second_injective free made made' same
      exact key.unique free key'

/-! ## Where the handshake stands -/

variable (p calls)

/-- Outside `zeroed` and `initiationConsumed` the chaining key has an ephemeral
key in it that is one of `spare`. -/
def Stands (h : Handshake) (spare : Bytes → Prop) : Prop :=
  match h.state with
  | .zeroed => True
  | .initiationCreated => ∃ e, spare e ∧ Initiated p calls (initialChainKey p) e h.chainKey
  | .initiationConsumed => True
  | .responseCreated => ∃ e, spare e ∧ ResponderKey p calls e h.chainKey
  | .responseConsumed => ∃ e, spare e ∧ InitiatorKey p calls (initialChainKey p) e h.chainKey

/-- Every session has an ephemeral key of its own, and the handshake under way
has yet another. -/
abbrev Accounted (drawn : List Bytes) (peer : Peer) : Prop :=
  Accounts.Accounted (MadeFrom p calls) drawn peer.sessions (Stands p calls peer.handshake)

variable {p calls}

theorem Stands.mono {h : Handshake} (spare spare' : Bytes → Prop) (sub : ∀ e, spare e → spare' e)
    (hs : Stands p calls h spare) : Stands p calls h spare' := by
  unfold Stands at hs ⊢
  split at hs
  · trivial
  · obtain ⟨e, he, hk⟩ := hs
    exact ⟨e, sub e he, hk⟩
  · trivial
  · obtain ⟨e, he, hk⟩ := hs
    exact ⟨e, sub e he, hk⟩
  · obtain ⟨e, he, hk⟩ := hs
    exact ⟨e, sub e he, hk⟩

/-! ## What each section does to it -/

variable {draws : List (UInt32 × Option String)} {table table' : IndexTable} {g : Shared}

theorem newIndexForHandshake_noError {peer : Nat} {index : UInt32} {err : Option String}
    (ok : ∀ d ∈ draws, d.2 = none)
    (h : table.newIndexForHandshake peer draws = some (index, err, table')) : err = none := by
  induction draws with
  | nil => cases h
  | cons d draws ih =>
    obtain ⟨i, e⟩ := d
    obtain rfl : e = none := ok _ List.mem_cons_self
    simp only [IndexTable.newIndexForHandshake] at h
    split at h
    · exact ih (fun d hd => ok d (List.mem_cons_of_mem _ hd)) h
    · cases h
      rfl

variable (p)

/-- The calls of HMAC with which an initiation makes its chaining key. -/
def initiationCalls (h : Handshake) (r : Rand) : List (Bytes × Bytes) :=
  p.chainCalls (initialChainKey p) [publicKey p (newPrivateKey r),
    p.dh (newPrivateKey r) h.remoteStatic, h.precomputedStaticStatic]

/-- Those of a response. -/
def responseCalls (h : Handshake) (r : Rand) : List (Bytes × Bytes) :=
  p.chainCalls h.chainKey [publicKey p (newPrivateKey r),
    p.dh (newPrivateKey r) h.remoteEphemeral, p.dh (newPrivateKey r) h.remoteStatic, h.presharedKey]

/-- Those of the read section of `ConsumeMessageResponse`. -/
def readCalls (h : Handshake) (ss : Bytes) (msg : MessageResponse) : List (Bytes × Bytes) :=
  p.chainCalls h.chainKey [msg.ephemeral, p.dh h.localEphemeral msg.ephemeral, ss, h.presharedKey]

variable {p}

theorem createInitiation_stands {peer : Nat} {static timestamp : Bytes} {h h' : Handshake}
    {r : Rand} {result : Except String MessageInitiation} (random : r.err = none)
    (ok : ∀ d ∈ draws, d.2 = none)
    (he : createInitiation p peer static h table r draws timestamp = some (result, h', table'))
    (made : ∀ msg, result = .ok msg → ∀ call ∈ initiationCalls p h r, call ∈ calls) :
    h' = h ∨
      ∀ spare : Bytes → Prop, spare (publicKey p (newPrivateKey r)) → Stands p calls h' spare := by
  unfold createInitiation at he
  split at he
  · cases he
    exact .inl rfl
  · rw [random] at he
    dsimp only at he
    split at he
    · cases he
    · rename_i drew
      cases newIndexForHandshake_noError ok drew
    · cases he
      exact .inr fun spare hs => ⟨_, hs, _, _, rfl, made _ rfl⟩

theorem createResponse_stands {peer : Nat} {h h' : Handshake} {r : Rand}
    {result : Except String MessageResponse}
    (he : createResponse p peer h table r draws = some (result, h', table'))
    (made : ∀ msg, result = .ok msg → ∀ call ∈ responseCalls p h r, call ∈ calls) :
    h' = h ∨
      ∀ spare : Bytes → Prop, spare (publicKey p (newPrivateKey r)) → Stands p calls h' spare := by
  unfold createResponse at he
  split at he
  · cases he
    exact .inl rfl
  · rename_i consumed
    have state : h.state = .initiationConsumed := not_not.mp consumed
    right
    intro spare hs
    split at he
    · cases he
    · cases he
      simp only [Stands, state]
    · dsimp only at he
      split at he
      · cases he
        simp only [Stands, state]
      · cases he
        exact ⟨_, hs, _, _, _, _, rfl, made _ rfl⟩

theorem writeConsumedResponse_stands {h : Handshake} {ss : Bytes} {msg : MessageResponse}
    {sym : Symmetric} (read : readResponse p h ss msg = some sym)
    (made : ∀ call ∈ readCalls p h ss msg, call ∈ calls) {spare : Bytes → Prop}
    (hs : Stands p calls h spare) : Stands p calls (writeConsumedResponse h msg sym) spare := by
  unfold readResponse at read
  split at read
  · cases read
  · rename_i created
    have state : h.state = .initiationCreated := not_not.mp created
    simp only [Stands, state] at hs
    obtain ⟨e, he, initiated⟩ := hs
    obtain ⟨_, -, rfl⟩ := Option.map_eq_some_iff.mp read
    exact ⟨e, he, _, initiated, _, _, _, _, rfl, made⟩

theorem sessionKeys_madeFrom {h : Handshake} (keypair : Keypair) {receive : Bytes}
    {isInitiator : Bool} (keys : sessionKeys p h = some (keypair.send, receive, isInitiator))
    (made : ∀ call ∈ p.kdfCalls h.chainKey [], call ∈ calls) {spare : Bytes → Prop}
    (hs : Stands p calls h spare) : ∃ e, spare e ∧ MadeFrom p calls e keypair := by
  unfold sessionKeys at keys
  cases state : h.state with
  | responseConsumed =>
    simp only [Stands, state] at hs
    obtain ⟨e, he, key⟩ := hs
    simp only [state, Option.some.injEq, Prod.mk.injEq] at keys
    exact ⟨e, he, .initiator _ key made keys.1.symm⟩
  | responseCreated =>
    simp only [Stands, state] at hs
    obtain ⟨e, he, key⟩ := hs
    simp only [state, Option.some.injEq, Prod.mk.injEq] at keys
    exact ⟨e, he, .responder _ key made keys.1.symm⟩
  | _ => simp [state] at keys

theorem Accounted.beginSession {drawn : List Bytes} {peer peer' : Peer}
    (h : Accounted p calls drawn peer) (hb : beginSession p peer table = .ok (peer', table'))
    (made : (sessionKeys p peer.handshake).isSome →
      ∀ call ∈ p.kdfCalls peer.handshake.chainKey [], call ∈ calls) :
    Accounted p calls drawn peer' := by
  unfold Go.beginSession at hb
  dsimp only at hb
  split at hb
  · cases hb
  · rename_i send receive isInitiator keys
    simp only [Except.ok.injEq, Prod.mk.injEq] at hb
    obtain ⟨rfl, -⟩ := hb
    have calls := made (by rw [keys]; rfl)
    exact h.use (fun spare hs => sessionKeys_madeFrom _ keys calls hs) fun _ => trivial

/-! ## Any order of the sections -/

variable (p calls)

/-- The calls of HMAC for the keys that a section makes. -/
def hmacCalls (w : Worker) (g : Shared) (e : Event) : List (Bytes × Bytes) :=
  match w, e with
  | .idle, .sendInitiation k r draws timestamp =>
    match createInitiation p k g.device.publicKey (g.handshake k)
      g.device.indexTable r draws timestamp with
    | some (.ok _, _) => initiationCalls p (g.handshake k) r
    | _ => []
  | .respond k, .createResponse r draws =>
    match createResponse p k (g.handshake k) g.device.indexTable r draws with
    | some (.ok _, _) => responseCalls p (g.handshake k) r
    | _ => []
  | .derive k, .beginSession =>
    if (sessionKeys p (g.handshake k)).isSome then p.kdfCalls (g.handshake k).chainKey [] else []
  | _, _ => []

/-- The write section of `ConsumeMessageResponse` runs when its read section, with
calls of HMAC that are among `calls`, would still give what it gave. -/
def Rechecked (w : Worker) (g : Shared) (e : Event) : Prop :=
  match w, e with
  | .responseRead peer msg sym, .writeResponse =>
    ∃ ss, readResponse p (g.handshake peer) ss msg = some sym ∧
      ∀ call ∈ readCalls p (g.handshake peer) ss msg, call ∈ calls
  | _, _ => True

/-- The random source does not repeat an ephemeral key, and does not fail
`CreateMessageInitiation`. -/
def RandomOk (g : Shared) : Event → Prop
  | .sendInitiation _ r draws _ =>
    r.err = none ∧ (∀ d ∈ draws, d.2 = none) ∧ publicKey p (newPrivateKey r) ∉ g.drawn
  | .createResponse r _ => publicKey p (newPrivateKey r) ∉ g.drawn
  | _ => True

def SessionGuard (s : Threads.State Shared Worker) (e : Nat × Event) : Prop :=
  Rechecked p calls (s.threads e.1) s.shared e.2 ∧ RandomOk p s.shared e.2

/-- The calls of HMAC of the step are among `calls`. -/
def CallsAmong (s : Threads.State Shared Worker) (e : Nat × Event) : Prop :=
  ∀ call ∈ hmacCalls p (s.threads e.1) s.shared e.2, call ∈ calls

def AllAccounted (g : Shared) : Prop := ∀ k, Accounted p calls g.drawn (g.device.peers k)

variable {p calls}

theorem AllAccounted.sets (h : AllAccounted p calls g) {device : Device} {k : Nat} {peer : Peer}
    (peers : g.Sets k peer device) (hk : Accounted p calls g.drawn peer) :
    AllAccounted p calls { g with device } := by
  intro j
  show Accounted p calls g.drawn (device.peers j)
  rw [peers]
  by_cases hj : j = k
  · rw [hj, Function.update_self]
    exact hk
  · rw [Function.update_of_ne hj]
    exact h j

/-- The drawn key is in the handshake now, or was not needed. -/
theorem AllAccounted.sets_drawn (h : AllAccounted p calls g) {device : Device} {k : Nat} {e : Bytes}
    (new : e ∉ g.drawn) {h' : Handshake}
    (peers : g.Sets k { g.device.peers k with handshake := h' } device)
    (hs : h' = g.handshake k ∨ ∀ spare : Bytes → Prop, spare e → Stands p calls h' spare) :
    AllAccounted p calls { g with device, drawn := e :: g.drawn } := by
  have drew : AllAccounted p calls { g with drawn := e :: g.drawn } :=
    fun j => (h j).draw e Stands.mono
  refine drew.sets peers ?_
  rcases hs with rfl | stands
  · exact drew k
  · exact (h k).renew new stands

theorem AllAccounted.effect {w : Worker} {g' : Shared} {e : Event} (h : AllAccounted p calls g)
    (rechecked : Rechecked p calls w g e) (random : RandomOk p g e)
    (made : ∀ call ∈ hmacCalls p w g e, call ∈ calls) (he : Effect p g w e g') :
    AllAccounted p calls g' := by
  cases he with
  | same hs =>
    intro k
    rw [hs.1, hs.2.1]
    exact h k
  | keypairs k keypairs device peers => exact h.sets peers (h k)
  | initiationConsumed k msg timestamp sym now device peers =>
    exact h.sets peers ((h k).imp fun _ _ => trivial)
  | responseSent k r draws device created peers =>
    refine h.sets_drawn random peers (createResponse_stands created ?_)
    rintro msg rfl
    simpa only [hmacCalls, created] using made
  | responseConsumed k msg sym device peers =>
    obtain ⟨ss, read, reread⟩ := rechecked
    exact h.sets peers ((h k).imp fun _ => writeConsumedResponse_stands read reread)
  | begun k device begun peers =>
    refine h.sets peers (Accounted.beginSession (h k) begun ?_)
    intro keys
    simpa only [hmacCalls, Shared.handshake, keys, if_true] using made
  | initiationSent k r draws timestamp device created peers =>
    obtain ⟨noFailure, noError, new⟩ := random
    refine h.sets_drawn new peers (createInitiation_stands noFailure noError created ?_)
    rintro msg rfl
    simpa only [hmacCalls, created] using made
  | cleared k device peers => exact h.sets peers ((h k).imp fun _ _ => trivial)

/-- In every run whose steps meet `SessionGuard` and whose calls of HMAC do not
collide, no two sessions of a peer send under one key. -/
theorem session_keys_distinct (free : p.CollisionFree calls) (device : Device)
    (unused : ∀ k, (device.peers k).sessions = [] ∧ (device.peers k).handshake.state = .zeroed)
    (events : List (Nat × Event)) (t : Threads.State Shared Worker)
    (made : Run.Meets (workerStep p) (CallsAmong p calls) (atRest device) events)
    (guard : Run.Meets (workerStep p) (SessionGuard p calls) (atRest device) events)
    (run : Run.exec (workerStep p) (atRest device) events = some t) (k : Nat) :
    (t.shared.device.peers k).sessions.Pairwise fun a b => a.send ≠ b.send := by
  have start : AllAccounted p calls (atRest device).shared := by
    intro j
    show Accounts.Accounted _ _ (device.peers j).sessions _
    rw [(unused j).1]
    refine Accounts.accounted_nil fun _ => ?_
    simp only [Stands, atRest, (unused j).2]
  have step : ∀ s e u, AllAccounted p calls s.shared →
      CallsAmong p calls s e ∧ SessionGuard p calls s e → workerStep p s e = some u →
      AllAccounted p calls u.shared := by
    intro s e u hs hg he
    obtain ⟨w, g, ha, rfl, -⟩ := Threads.step_cases he
    exact hs.effect hg.2.1 hg.2.2 hg.1 (act_effect p ha)
  have reached : AllAccounted p calls t.shared :=
    Run.exec_guarded _ (P := fun s => AllAccounted p calls s.shared) step start (made.and guard) run
  exact (reached k).apart (MadeFrom.unique free)

end

def initiationWith (byte : UInt8) (index : UInt32) : Event :=
  .sendInitiation 0 ⟨List.replicate 32 byte, none⟩ [(index, none)] (List.replicate 12 1)

/-- A response to the initiation with this index. -/
def responseTo (index : UInt32) : MessageResponse :=
  ⟨MessageResponseType, 9, index, publicKey plain (newPrivateKey ⟨List.replicate 32 8, none⟩), []⟩

/-- Two handshakes, each with a session. A copy of the first response comes after its session
has begun. -/
def twoSessions : List (Nat × Event) :=
  [(0, initiationWith 0 7), (1, .takeResponse (responseTo 7)),
    (1, .readResponse (answering fun _ => 1)), (1, .writeResponse), (1, .beginSession),
    (2, .takeResponse (responseTo 7)), (0, initiationWith 16 8), (2, .takeResponse (responseTo 8)),
    (2, .readResponse (answering fun _ => 1)), (2, .writeResponse), (2, .beginSession)]

theorem twoSessions_guarded :
    Run.Meets (workerStep plain) (SessionGuard plain Set.univ) (atRest (pairedDevice 1 2 3))
      twoSessions := by
  refine Run.meets_cons ⟨trivial, rfl, by simp, by simp [atRest]⟩ rfl ?_
  refine Run.meets_cons ⟨trivial, trivial⟩ rfl ?_
  refine Run.meets_cons ⟨trivial, trivial⟩ rfl ?_
  refine Run.meets_cons ⟨⟨List.replicate 32 1, rfl, fun _ _ => trivial⟩, trivial⟩ rfl ?_
  refine Run.meets_cons ⟨trivial, trivial⟩ rfl ?_
  refine Run.meets_cons ⟨trivial, trivial⟩ rfl ?_
  refine Run.meets_cons ⟨trivial, rfl, by simp, by decide +kernel⟩ rfl ?_
  refine Run.meets_cons ⟨trivial, trivial⟩ rfl ?_
  refine Run.meets_cons ⟨trivial, trivial⟩ rfl ?_
  refine Run.meets_cons ⟨⟨List.replicate 32 1, rfl, fun _ _ => trivial⟩, trivial⟩ rfl ?_
  exact Run.meets_cons ⟨trivial, trivial⟩ rfl trivial

theorem session_keys_distinct_two :
    ∃ t, Run.exec (workerStep plain) (atRest (pairedDevice 1 2 3)) twoSessions = some t ∧
      (t.shared.device.peers 0).sessions.length = 2 ∧
      (t.shared.device.peers 0).sessions.Pairwise fun a b => a.send ≠ b.send :=
  ⟨_, rfl, rfl, session_keys_distinct (plain_collisionFree Set.univ) (pairedDevice 1 2 3)
    (fun _ => ⟨rfl, rfl⟩) twoSessions _ (Run.meets_of_always fun _ _ _ _ => trivial)
    twoSessions_guarded rfl 0⟩

/-- Two copies of one response: the second worker has read before the first one
writes, and writes after the first one's session has begun. -/
theorem session_key_reused :
    ∃ t a b, Run.exec (workerStep plain) (atRest (pairedDevice 1 2 3))
        [(0, initiationWith 0 7), (1, .takeResponse (responseTo 7)),
          (2, .takeResponse (responseTo 7)), (1, .readResponse (answering fun _ => 1)),
          (2, .readResponse (answering fun _ => 1)), (1, .writeResponse), (1, .beginSession),
          (2, .writeResponse), (2, .beginSession)] = some t ∧
      (t.shared.device.peers 0).sessions = [b, a] ∧ a.ptr ≠ b.ptr ∧ a.send = b.send :=
  ⟨_, _, _, rfl, rfl, by decide, rfl⟩

end Sewg.Go
