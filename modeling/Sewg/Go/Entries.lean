import Sewg.Go.Indices

/-! The entries of a peer in the index table, in any run: whatever is drawn, they are at
the indices that the peer itself still knows. -/

namespace Sewg.Go
open CString Noise

def HasEntry (table : IndexTable) (k : Nat) (i : UInt32) : Prop := ∃ what, table i = some ⟨k, what⟩

/-- Every entry of peer `k` is at the index of its handshake or of a keypair in `S`. -/
def Traced (k : Nat) (table : IndexTable) (h : UInt32) (S : Keypair → Prop) : Prop :=
  ∀ i, HasEntry table k i → h = i ∨ ∃ x, S x ∧ x.localIndex = i

section
variable {table table' : IndexTable} {k n : Nat} {h i j : UInt32} {S T : Keypair → Prop}

theorem hasEntry_delete : HasEntry (table.delete j) k i ↔ i ≠ j ∧ HasEntry table k i := by
  unfold HasEntry IndexTable.delete
  by_cases hi : i = j
  · rw [hi, Function.update_self]
    simp
  · rw [Function.update_of_ne hi]
    simp [hi]

theorem hasEntry_deleteKeypair {slot : Option Keypair}
    (he : HasEntry (table.deleteKeypair slot) k i) :
    HasEntry table k i ∧ ∀ x, slot = some x → x.localIndex ≠ i := by
  cases slot with
  | none => exact ⟨he, nofun⟩
  | some x =>
    obtain ⟨hne, he⟩ := hasEntry_delete.mp he
    refine ⟨he, ?_⟩
    rintro y ⟨⟩
    exact hne.symm

theorem hasEntry_swapIndexForKeypair {x : Keypair}
    (he : HasEntry (table.swapIndexForKeypair j x) k i) : HasEntry table k i := by
  cases hj : table j with
  | none => rwa [swapIndexForKeypair_none hj] at he
  | some entry =>
    rw [swapIndexForKeypair_some hj] at he
    by_cases hi : i = j
    · obtain ⟨what, he⟩ := he
      rw [hi, Function.update_self] at he
      cases he
      exact ⟨entry.keypair, hi ▸ hj⟩
    · rwa [HasEntry, Function.update_of_ne hi] at he

theorem hasEntry_newIndexForHandshake {draws : List (UInt32 × Option String)} {index : UInt32}
    {err : Option String} (hn : table.newIndexForHandshake n draws = some (index, err, table'))
    (he : HasEntry table' k i) : HasEntry table k i ∨ k = n ∧ index = i := by
  induction draws with
  | nil => cases hn
  | cons d draws ih =>
    obtain ⟨drawn, failed⟩ := d
    cases failed with
    | some failed =>
      cases hn
      exact .inl he
    | none =>
      rw [IndexTable.newIndexForHandshake] at hn
      split at hn
      · exact ih hn
      · cases hn
        by_cases hi : i = index
        · obtain ⟨what, he⟩ := he
          rw [hi, Function.update_self] at he
          cases he
          exact .inr ⟨rfl, hi.symm⟩
        · rw [HasEntry, Function.update_of_ne hi] at he
          exact .inl he

theorem hasEntry_redraw {draws : List (UInt32 × Option String)} {old index : UInt32}
    {err : Option String}
    (hn : (table.delete old).newIndexForHandshake n draws = some (index, err, table'))
    (he : HasEntry table' k i) :
    HasEntry table k i ∧ (old = i → index = i) ∨ k = n ∧ index = i := by
  rcases hasEntry_newIndexForHandshake hn he with he | he
  · obtain ⟨hne, he⟩ := hasEntry_delete.mp he
    exact .inl ⟨he, fun hi => absurd hi.symm hne⟩
  · exact .inr he

theorem hasEntry_rotate {keypairs : Keypairs} {x : Keypair}
    (he : HasEntry (rotate keypairs x table).2 k i) :
    HasEntry table k i ∧ ∀ y, keypairs.Has y → y.localIndex = i →
      (rotate keypairs x table).1.Has y := by
  unfold rotate at he ⊢
  cases hx : x.isInitiator with
  | true =>
    cases hnext : keypairs.next with
    | none =>
      simp only [hx, hnext, if_true] at he ⊢
      obtain ⟨he, hprevious⟩ := hasEntry_deleteKeypair he
      exact ⟨he, by grind [Keypairs.Has]⟩
    | some next =>
      simp only [hx, hnext, if_true] at he ⊢
      obtain ⟨he, hprevious⟩ := hasEntry_deleteKeypair he
      obtain ⟨he, hcurrent⟩ := hasEntry_deleteKeypair he
      exact ⟨he, by grind [Keypairs.Has]⟩
  | false =>
    simp only [hx, Bool.false_eq_true, if_false] at he ⊢
    obtain ⟨he, hprevious⟩ := hasEntry_deleteKeypair he
    obtain ⟨he, hnext⟩ := hasEntry_deleteKeypair he
    exact ⟨he, by grind [Keypairs.Has]⟩

end

/-- The peer's entries, by the state of the peer. -/
def Device.Traces (device : Device) (k : Nat) : Prop :=
  Traced k device.indexTable (device.peers k).handshake.localIndex (device.peers k).keypairs.Has

/-- What an operation on peer `n` leaves alone and keeps. -/
structure Touches (n : Nat) (device device' : Device) : Prop where
  others : ∀ k, k ≠ n → device'.peers k = device.peers k
  entries : ∀ k, k ≠ n → ∀ i, HasEntry device'.indexTable k i → HasEntry device.indexTable k i
  traces : device.Traces n → device'.Traces n
  keyMap : device'.keyMap = device.keyMap

section
variable {p : Primitives} {device device' : Device} {n : Nat} {r : Rand}
  {draws : List (UInt32 × Option String)}

theorem createInitiation_hasEntry {static timestamp : Bytes} {h h' : Handshake}
    {table table' : IndexTable} {result : Except String MessageInitiation}
    (hc : createInitiation p n static h table r draws timestamp = some (result, h', table'))
    {k : Nat} {i : UInt32} (he : HasEntry table' k i) :
    HasEntry table k i ∧ (h.localIndex = i → h'.localIndex = i) ∨ k = n ∧ h'.localIndex = i := by
  unfold createInitiation at hc
  split at hc
  · cases hc
    exact .inl ⟨he, id⟩
  · dsimp only at hc
    split at hc
    · cases hc
      exact .inl ⟨he, id⟩
    · split at hc
      · cases hc
      all_goals
        rename_i hn
        cases hc
        exact hasEntry_redraw hn he

theorem createResponse_hasEntry {h h' : Handshake} {table table' : IndexTable}
    {result : Except String MessageResponse}
    (hc : createResponse p n h table r draws = some (result, h', table')) {k : Nat} {i : UInt32}
    (he : HasEntry table' k i) :
    HasEntry table k i ∧ (h.localIndex = i → h'.localIndex = i) ∨ k = n ∧ h'.localIndex = i := by
  unfold createResponse at hc
  split at hc
  · cases hc
    exact .inl ⟨he, id⟩
  · split at hc
    · cases hc
    · rename_i hn
      cases hc
      exact hasEntry_redraw hn he
    · rename_i hn
      dsimp only at hc
      split at hc <;> (cases hc; exact hasEntry_redraw hn he)

theorem beginSession_hasEntry {peer peer' : Peer} {table table' : IndexTable}
    (hb : beginSession p peer table = .ok (peer', table')) {k : Nat} {i : UInt32}
    (he : HasEntry table' k i) :
    HasEntry table k i ∧
      (peer.handshake.localIndex = i ∨ (∃ x, peer.keypairs.Has x ∧ x.localIndex = i) →
        ∃ x, peer'.keypairs.Has x ∧ x.localIndex = i) := by
  unfold beginSession at hb
  dsimp only at hb
  split at hb
  · cases hb
  · cases hb
    obtain ⟨he, hstays⟩ := hasEntry_rotate he
    refine ⟨hasEntry_swapIndexForKeypair he, ?_⟩
    rintro (hi | ⟨x, hx, hi⟩)
    · exact ⟨_, rotate_has _ _, hi⟩
    · exact ⟨x, hstays x hx hi, hi⟩

theorem Touches.of_update {peer : Peer}
    (hpeers : device'.peers = Function.update device.peers n peer)
    (hkeys : device'.keyMap = device.keyMap)
    (hothers : ∀ k, k ≠ n → ∀ i, HasEntry device'.indexTable k i → HasEntry device.indexTable k i)
    (htraced : device.Traces n →
      Traced n device'.indexTable peer.handshake.localIndex peer.keypairs.Has) :
    Touches n device device' := by
  refine ⟨?_, hothers, ?_, hkeys⟩
  · intro k hk
    rw [hpeers, Function.update_of_ne hk]
  · intro ht
    rw [Device.Traces, hpeers, Function.update_self]
    exact htraced ht

theorem Touches.of_setHandshake {h : Handshake} {table : IndexTable}
    (hentry : ∀ k i, HasEntry table k i →
      HasEntry device.indexTable k i ∧
        ((device.peers n).handshake.localIndex = i → h.localIndex = i) ∨ k = n ∧ h.localIndex = i) :
    Touches n device { device.setHandshake n h with indexTable := table } := by
  refine .of_update rfl rfl ?_ ?_
  · intro k hk i he
    rcases hentry k i he with ⟨he, -⟩ | ⟨rfl, -⟩
    · exact he
    · exact absurd rfl hk
  · intro ht i he
    rcases hentry n i he with ⟨he, hi⟩ | ⟨-, hi⟩
    · exact (ht i he).imp_left hi
    · exact .inl hi

theorem zeroKeypairs_hasEntry {k : Nat} {i : UInt32}
    (he : HasEntry (device.zeroKeypairs n).indexTable k i) :
    HasEntry device.indexTable k i ∧ ∀ x, (device.peers n).keypairs.Has x → x.localIndex ≠ i := by
  obtain ⟨he, hnext⟩ := hasEntry_deleteKeypair he
  obtain ⟨he, hcurrent⟩ := hasEntry_deleteKeypair he
  obtain ⟨he, hprevious⟩ := hasEntry_deleteKeypair he
  refine ⟨he, ?_⟩
  rintro x (hx | hx | hx)
  · exact hprevious x hx
  · exact hcurrent x hx
  · exact hnext x hx

theorem zeroKeypairs_touches (device : Device) (n : Nat) :
    Touches n device (device.zeroKeypairs n) := by
  refine .of_update rfl rfl (fun k _ i he => (zeroKeypairs_hasEntry he).1) ?_
  intro ht i he
  obtain ⟨he, hne⟩ := zeroKeypairs_hasEntry he
  rcases ht i he with hi | ⟨x, hx, hi⟩
  · exact .inl hi
  · exact absurd hi (hne x hx)

theorem clearHandshake_touches (device : Device) (n : Nat) :
    Touches n device (device.clearHandshake n) := by
  refine .of_setHandshake ?_
  intro k i he
  obtain ⟨hne, he⟩ := hasEntry_delete.mp he
  exact .inl ⟨he, fun hi => absurd hi.symm hne⟩

theorem receivedWithKeypair_touches (device : Device) (n : Nat) (x : Keypair) :
    Touches n device (device.receivedWithKeypair n x) := by
  unfold Device.receivedWithKeypair
  dsimp only
  split
  · exact ⟨fun _ _ => rfl, fun _ _ _ he => he, id, rfl⟩
  · refine .of_update rfl rfl (fun k _ i he => (hasEntry_deleteKeypair he).1) ?_
    intro ht i he
    obtain ⟨he, hprevious⟩ := hasEntry_deleteKeypair he
    refine (ht i he).imp_right ?_
    rintro ⟨y, hy, hi⟩
    refine ⟨y, ?_, hi⟩
    grind [Keypairs.Has]

theorem Operation.touches {e : Event} (ho : Operation p n device e device') :
    Touches n device device' := by
  cases ho with
  | handshake h index => exact .of_setHandshake fun k i he => .inl ⟨he, index.trans⟩
  | initiation made =>
    obtain ⟨⟨_, h, table⟩, created, hd⟩ := Option.map_eq_some_iff.mp made
    cases hd
    exact .of_setHandshake fun k i he => createInitiation_hasEntry created he
  | response made =>
    obtain ⟨⟨_, h, table⟩, created, hd⟩ := Option.map_eq_some_iff.mp made
    cases hd
    exact .of_setHandshake fun k i he => createResponse_hasEntry created he
  | session begun =>
    unfold beginSymmetricSession at begun
    cases hs : beginSession p (device.peers n) device.indexTable with
    | error err =>
      rw [hs] at begun
      cases begun
    | ok made =>
      rw [hs] at begun
      cases begun
      refine .of_update rfl rfl (fun k _ i he => (beginSession_hasEntry hs he).1) ?_
      intro ht i he
      obtain ⟨he, hi⟩ := beginSession_hasEntry hs he
      exact .inr (hi (ht i he))
  | zeroKeypairs => exact zeroKeypairs_touches device n
  | clearHandshake => exact clearHandshake_touches device n
  | receivedWithKeypair x => exact receivedWithKeypair_touches device n x

end

section
variable {p : Primitives} {g g' : Shared} {w w' : Worker} {e : Event} {k : Nat}

theorem act_traces (ha : act p w g e = some (w', g')) (ht : g.device.Traces k) :
    g'.device.Traces k := by
  rcases act_operation ha with hsame | ⟨n, -, ho⟩
  · rw [Device.Traces, hsame.peers, hsame.table]
    exact ht
  · by_cases hkn : k = n
    · subst hkn
      exact ho.touches.traces ht
    · intro i he
      rw [ho.touches.others k hkn]
      exact ht i (ho.touches.entries k hkn i he)

theorem act_keyMap (ha : act p w g e = some (w', g')) : g'.device.keyMap = g.device.keyMap := by
  rcases act_operation ha with hsame | ⟨n, -, ho⟩
  · exact hsame.keyMap
  · exact ho.touches.keyMap

end

end Sewg.Go
