import Sewg.Go.Indices

/-! The handshake and session functions called one after the other: the index table
is exactly what the peers have. -/

namespace Sewg.Go
open CString Noise

/-- A call of one of the functions, with what it takes from outside. -/
inductive Call
  | createMessageInitiation (peer : Nat) (r : Rand) (draws : List (UInt32 × Option String))
      (timestamp : Bytes)
  | consumeMessageInitiation (msg : MessageInitiation) (call : TeeCall) (now later : Int)
  | createMessageResponse (peer : Nat) (r : Rand) (draws : List (UInt32 × Option String))
  | consumeMessageResponse (msg : MessageResponse) (call : TeeCall)
  | beginSymmetricSession (peer : Nat)
  | receivedWithKeypair (peer : Nat) (keypair : Keypair)
  | zeroAndFlushAll (peer : Nat)

section
variable (p : Primitives)

/-- `none` while the drawn indices are all in use. -/
def callStep (device : Device) : Call → Option Device
  | .createMessageInitiation peer r draws timestamp =>
    (createMessageInitiation p device peer r draws timestamp).map Prod.snd
  | .consumeMessageInitiation msg call now later =>
    some (consumeMessageInitiation p device msg call now later).2
  | .createMessageResponse peer r draws =>
    (createMessageResponse p device peer r draws).map Prod.snd
  | .consumeMessageResponse msg call => some (consumeMessageResponse p device msg call).2
  | .beginSymmetricSession peer =>
    match beginSymmetricSession p device peer with
    | .error _ => some device
    | .ok device => some device
  | .receivedWithKeypair peer keypair => some (device.receivedWithKeypair peer keypair)
  | .zeroAndFlushAll peer => some ((device.zeroKeypairs peer).clearHandshake peer)

end

/-- The random source does not fail, and draws no index 0. -/
def Call.DrawsIndices : Call → Prop
  | .createMessageInitiation _ r draws _ => r.err = none ∧ ∀ d ∈ draws, d.1 ≠ 0 ∧ d.2 = none
  | .createMessageResponse _ r draws => r.err = none ∧ ∀ d ∈ draws, d.1 ≠ 0 ∧ d.2 = none
  | _ => True

instance (c : Call) : Decidable c.DrawsIndices :=
  match c with
  | .createMessageInitiation _ r draws _ =>
    inferInstanceAs (Decidable (r.err = none ∧ ∀ d ∈ draws, d.1 ≠ 0 ∧ d.2 = none))
  | .createMessageResponse _ r draws =>
    inferInstanceAs (Decidable (r.err = none ∧ ∀ d ∈ draws, d.1 ≠ 0 ∧ d.2 = none))
  | .consumeMessageInitiation .. | .consumeMessageResponse .. | .beginSymmetricSession _
  | .receivedWithKeypair .. | .zeroAndFlushAll _ => inferInstanceAs (Decidable True)

/-- A handshake that can still become a session has an index, and so has every keypair
in a slot. -/
structure Peer.Indexed (peer : Peer) : Prop where
  handshake : peer.handshake.state = .initiationCreated ∨ peer.handshake.state = .responseCreated ∨
    peer.handshake.state = .responseConsumed → peer.handshake.localIndex ≠ 0
  keypairs : ∀ x, peer.keypairs.Has x → x.localIndex ≠ 0

section
variable {p : Primitives} {device device' : Device} {k : Nat}

theorem indexed_set (hi : ∀ j, (device.peers j).Indexed) {peer : Peer}
    (hpeers : device'.peers = Function.update device.peers k peer) (hk : peer.Indexed) :
    ∀ j, (device'.peers j).Indexed := by
  intro j
  rw [hpeers]
  by_cases hj : j = k
  · rw [hj, Function.update_self]
    exact hk
  · rw [Function.update_of_ne hj]
    exact hi j

theorem Peer.Indexed.setHandshake {peer : Peer} (hi : peer.Indexed) {h : Handshake}
    (hh : h.localIndex ≠ 0 ∨ h.localIndex = peer.handshake.localIndex ∧
      h.state = peer.handshake.state) :
    { peer with handshake := h }.Indexed := by
  refine ⟨fun hs => ?_, hi.keypairs⟩
  rcases hh with hne | ⟨hindex, hstate⟩
  · exact hne
  · have hne := hi.handshake (hstate ▸ hs)
    exact hindex ▸ hne

theorem sessionKeys_state {h : Handshake} {keys : Bytes × Bytes × Bool}
    (hk : sessionKeys p h = some keys) :
    h.state = .responseCreated ∨ h.state = .responseConsumed := by
  unfold sessionKeys at hk
  split at hk
  · rename_i hs
    exact .inr hs
  · rename_i hs
    exact .inl hs
  · cases hk

theorem beginSession_indexed {peer peer' : Peer} {table table' : IndexTable} (hi : peer.Indexed)
    (hb : beginSession p peer table = .ok (peer', table')) : peer'.Indexed := by
  unfold beginSession at hb
  dsimp only at hb
  split at hb
  · cases hb
  · rename_i send receive isInitiator keys
    cases hb
    refine ⟨fun hs => ?_, fun y hy => ?_⟩
    · have hzeroed : peer.handshake.finish.state = .zeroed := rfl
      rw [hzeroed] at hs
      rcases hs with hs | hs | hs <;> cases hs
    · rcases has_of_rotate hy with hy | rfl
      · exact hi.keypairs y hy
      · exact hi.handshake (.inr (sessionKeys_state keys))

theorem callStep_matches {c : Call} (hm : Matches device) (hi : ∀ j, (device.peers j).Indexed)
    (hdraws : c.DrawsIndices) (hc : callStep p device c = some device') :
    Matches device' ∧ ∀ j, (device'.peers j).Indexed := by
  cases c with
  | createMessageInitiation peer r draws timestamp =>
    obtain ⟨⟨result, made⟩, created, rfl⟩ := Option.map_eq_some_iff.mp hc
    refine ⟨(createMessageInitiation_ownEntries hm hdraws.2 created).right, ?_⟩
    obtain ⟨⟨_, h, table⟩, made, he⟩ := Option.map_eq_some_iff.mp created
    cases he
    exact indexed_set hi rfl
      ((hi peer).setHandshake (createInitiation_kept (hm.kept peer) hdraws.2 made).2)
  | consumeMessageInitiation msg call now later =>
    cases hc
    unfold consumeMessageInitiation
    split
    · exact ⟨hm, hi⟩
    · dsimp only
      split
      · exact ⟨hm.same rfl rfl, hi⟩
      · split
        · exact ⟨hm.same rfl rfl, hi⟩
        · rename_i peer _
          split
          · exact ⟨hm.same rfl rfl, hi⟩
          · refine ⟨OwnEntries.right (hm.sameIndex rfl rfl rfl),
              indexed_set hi rfl ⟨?_, (hi peer).keypairs⟩⟩
            rintro (hs | hs | hs) <;> cases hs
  | createMessageResponse peer r draws =>
    obtain ⟨⟨result, made⟩, created, rfl⟩ := Option.map_eq_some_iff.mp hc
    refine ⟨(createMessageResponse_ownEntries hm hdraws.2 created).right, ?_⟩
    obtain ⟨⟨_, h, table⟩, made, he⟩ := Option.map_eq_some_iff.mp created
    cases he
    exact indexed_set hi rfl
      ((hi peer).setHandshake (createResponse_kept (hm.kept peer) hdraws.2 made).2)
  | consumeMessageResponse msg call =>
    cases hc
    unfold consumeMessageResponse
    split
    · exact ⟨hm, hi⟩
    · split
      · exact ⟨hm, hi⟩
      · exact ⟨hm, hi⟩
      · rename_i peer _
        dsimp only
        split
        · exact ⟨hm, hi⟩
        · rename_i hstate
          split
          · exact ⟨hm.same rfl rfl, hi⟩
          · have hne := (hi peer).handshake (.inl (not_not.mp hstate))
            exact ⟨OwnEntries.right (hm.sameIndex rfl rfl rfl),
              indexed_set hi rfl ((hi peer).setHandshake (.inl hne))⟩
  | beginSymmetricSession peer =>
    unfold callStep at hc
    dsimp only at hc
    split at hc
    · cases hc
      exact ⟨hm, hi⟩
    · rename_i begun
      cases hc
      obtain ⟨peer', table, hb, hpeers⟩ := beginSymmetricSession_begun p begun
      exact ⟨(beginSymmetricSession_ownEntries hm begun).right,
        indexed_set hi hpeers (beginSession_indexed (hi peer) hb)⟩
  | receivedWithKeypair peer keypair =>
    cases hc
    refine ⟨(receivedWithKeypair_ownEntries hm peer keypair).right, ?_⟩
    unfold Device.receivedWithKeypair
    dsimp only
    split
    · exact hi
    · refine indexed_set hi rfl ⟨(hi peer).handshake, fun y hy => (hi peer).keypairs y ?_⟩
      grind [Keypairs.Has]
  | zeroAndFlushAll peer =>
    cases hc
    have hzeroed := (zeroKeypairs_ownEntries hm peer).right
    refine ⟨(clearHandshake_ownEntries hzeroed peer).right, ?_⟩
    have hmid : ∀ j, ((device.zeroKeypairs peer).peers j).Indexed :=
      indexed_set hi rfl ⟨(hi peer).handshake, fun y hy => by simp [Keypairs.Has] at hy⟩
    refine indexed_set hmid rfl ⟨?_, (hmid peer).keypairs⟩
    rintro (hs | hs | hs) <;> cases hs

theorem calls_match (hu : Unused device) (hz : ∀ k, (device.peers k).handshake.state = .zeroed)
    {calls : List Call} (hdraws : ∀ c ∈ calls, c.DrawsIndices)
    (run : Run.exec (callStep p) device calls = some device') :
    Matches device' ∧ ∀ j, (device'.peers j).Indexed := by
  have hstart : Matches device ∧ ∀ j, (device.peers j).Indexed := by
    refine ⟨hu.right, fun j => ⟨?_, ?_⟩⟩
    · rw [hz]
      rintro (hs | hs | hs) <;> cases hs
    · simp [hu.keypairs, Keypairs.Has]
  exact Run.exec_guarded (P := fun d => Matches d ∧ ∀ j, (d.peers j).Indexed)
    (fun _ c => c.DrawsIndices)
    (fun _ _ _ hd hc hst => callStep_matches hd.1 hd.2 hc hst) hstart
      (Run.meets_of_forall hdraws) run

end

/-- After any calls, the table has the indices of the handshakes that have one and those
of the keypairs in the slots, and nothing else. -/
theorem table_exact (p : Primitives) (device : Device) (hu : Unused device)
    (hz : ∀ k, (device.peers k).handshake.state = .zeroed) (calls : List Call)
    (hdraws : ∀ c ∈ calls, c.DrawsIndices) (device' : Device)
    (run : Run.exec (callStep p) device calls = some device') (i : UInt32)
    (entry : IndexTableEntry) :
    device'.indexTable i = some entry ↔
      (entry.keypair = none ∧ (device'.peers entry.peer).handshake.localIndex ≠ 0 ∧
        (device'.peers entry.peer).handshake.localIndex = i) ∨
      ∃ x, entry.keypair = some x ∧ (device'.peers entry.peer).keypairs.Has x ∧
        x.localIndex = i := by
  obtain ⟨hm, hi⟩ := calls_match hu hz hdraws run
  obtain ⟨k, what⟩ := entry
  rw [hm.fits k i what]
  cases what with
  | none =>
    constructor
    · rintro ⟨h0, hh⟩
      exact .inl ⟨rfl, hh ▸ h0, hh⟩
    · rintro (⟨-, h0, hh⟩ | ⟨x, hx, -⟩)
      · exact ⟨hh ▸ h0, hh⟩
      · cases hx
  | some x =>
    constructor
    · rintro ⟨-, hx⟩
      exact .inr ⟨x, rfl, hx⟩
    · rintro (⟨hn, -⟩ | ⟨y, hy, hx⟩)
      · cases hn
      · cases hy
        exact ⟨hx.2 ▸ (hi k).keypairs x hx.1, hx⟩

/-- The response to the initiation with index 7, from index 9. -/
def replyToSeven : MessageResponse :=
  ⟨MessageResponseType, 9, 7, publicKey plain (newPrivateKey ⟨List.replicate 32 8, none⟩), []⟩

def sessionCalls : List Call :=
  [.createMessageInitiation 0 ⟨List.replicate 32 0, none⟩ [(7, none)] (List.replicate 12 1),
    .consumeMessageResponse replyToSeven (answering fun _ => 1), .beginSymmetricSession 0]

theorem table_exact_session :
    ∃ device' x, Run.exec (callStep plain) (pairedDevice 1 2 3) sessionCalls = some device' ∧
      (device'.peers 0).keypairs.current = some x ∧ device'.indexTable 7 = some ⟨0, some x⟩ := by
  refine ⟨_, _, rfl, rfl, ?_⟩
  exact (table_exact plain (pairedDevice 1 2 3) (pairedDevice_unused 1 2 3)
    (fun _ => rfl) sessionCalls (by decide) _ rfl 7 _).mpr (.inr ⟨_, rfl, .inr (.inl rfl), rfl⟩)

end Sewg.Go
