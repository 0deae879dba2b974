import Sewg.Go.Agreement
import Sewg.Go.Workers

/-! The index table against the peers: which index belongs to whom, and that the
operations on one peer leave the indices of the others alone. Index 0 stands for
none, though nothing keeps `randUint32` from drawing it. -/

namespace Sewg.Go
open CString Noise

/-! ## Entries and what they refer to -/

/-- The entries of peer `k` are those of a handshake with index `h` and of the keypairs
in `S`. -/
def Fits (table : IndexTable) (k : Nat) (h : UInt32) (S : Keypair → Prop) : Prop :=
  ∀ i what, table i = some ⟨k, what⟩ ↔ i ≠ 0 ∧ match what with
    | none => h = i
    | some keypair => S keypair ∧ keypair.localIndex = i

/-- The entries of all peers but `k` are the same in both. -/
def Spares (k : Nat) (table table' : IndexTable) : Prop :=
  ∀ i entry, entry.peer ≠ k → (table' i = some entry ↔ table i = some entry)

section
variable {table table' table'' : IndexTable} {k : Nat} {h : UInt32} {S T : Keypair → Prop}

theorem swapIndexForKeypair_none {i : UInt32} {x : Keypair} (hi : table i = none) :
    table.swapIndexForKeypair i x = table := by
  rw [IndexTable.swapIndexForKeypair, hi]

theorem swapIndexForKeypair_some {i : UInt32} {x : Keypair} {entry : IndexTableEntry}
    (hi : table i = some entry) :
    table.swapIndexForKeypair i x = Function.update table i (some ⟨entry.peer, some x⟩) := by
  rw [IndexTable.swapIndexForKeypair, hi]

theorem Spares.refl (k : Nat) (table : IndexTable) : Spares k table table := fun _ _ _ => Iff.rfl

theorem Spares.trans (h : Spares k table table') (h' : Spares k table' table'') :
    Spares k table table'' :=
  fun i entry he => (h' i entry he).trans (h i entry he)

theorem Fits.congr (hf : Fits table k h S) (hST : ∀ x, S x ↔ T x) : Fits table k h T := by
  have : S = T := funext fun x => propext (hST x)
  exact this ▸ hf

theorem Fits.of_spares {j : Nat} (hf : Fits table j h S) (hs : Spares k table table')
    (hjk : j ≠ k) : Fits table' j h S :=
  fun i what => (hs i ⟨j, what⟩ hjk).trans (hf i what)

theorem Fits.handshake (hf : Fits table k h S) (hh : h ≠ 0) : table h = some ⟨k, none⟩ :=
  (hf h none).mpr ⟨hh, rfl⟩

theorem Fits.keypair (hf : Fits table k h S) {x : Keypair} (hx : S x) (hi : x.localIndex ≠ 0) :
    table x.localIndex = some ⟨k, some x⟩ :=
  (hf x.localIndex (some x)).mpr ⟨hi, hx, rfl⟩

/-- Index 0 has no entry, or the entry at `i` is one of the peer's. -/
theorem spares_delete (h0 : table 0 = none) {i : UInt32}
    (hi : i = 0 ∨ ∃ what, table i = some ⟨k, what⟩) : Spares k table (table.delete i) := by
  intro j entry hj
  by_cases hji : j = i
  · subst hji
    rw [IndexTable.delete, Function.update_self]
    rcases hi with rfl | ⟨what, hw⟩
    · rw [h0]
    · rw [hw]
      constructor
      · nofun
      · rintro ⟨⟩
        exact absurd rfl hj
  · rw [IndexTable.delete, Function.update_of_ne hji]

theorem delete_zero (h0 : table 0 = none) (i : UInt32) : table.delete i 0 = none := by
  unfold IndexTable.delete
  by_cases hi : (0 : UInt32) = i
  · rw [← hi, Function.update_self]
  · rw [Function.update_of_ne hi, h0]

theorem Fits.delete_handshake (hf : Fits table k h S) : Fits (table.delete h) k 0 S := by
  intro i what
  by_cases hi : i = h
  · subst hi
    rw [IndexTable.delete, Function.update_self]
    constructor
    · nofun
    · rintro ⟨h0, hw⟩
      exfalso
      cases what with
      | none => exact h0 hw.symm
      | some x => exact absurd ((hf i (some x)).mpr ⟨h0, hw⟩) (by rw [hf.handshake h0]; nofun)
  · rw [IndexTable.delete, Function.update_of_ne hi, hf i what]
    cases what with
    | none => exact and_congr_right fun h0 => ⟨fun e => absurd e.symm hi, fun e => absurd e.symm h0⟩
    | some x => exact Iff.rfl

theorem Fits.delete_keypair (hf : Fits table k h S) {x : Keypair} (hx : S x) :
    Fits (table.delete x.localIndex) k h fun y => S y ∧ y ≠ x := by
  intro i what
  by_cases hi : i = x.localIndex
  · subst hi
    rw [IndexTable.delete, Function.update_self]
    constructor
    · nofun
    · rintro ⟨h0, hw⟩
      exfalso
      have hentry := hf.keypair hx h0
      cases what with
      | none => exact absurd ((hf _ none).mpr ⟨h0, hw⟩) (by rw [hentry]; nofun)
      | some y =>
        have hy := (hf _ (some y)).mpr ⟨h0, hw.1.1, hw.2⟩
        rw [hentry] at hy
        cases hy
        exact hw.1.2 rfl
  · rw [IndexTable.delete, Function.update_of_ne hi, hf i what]
    cases what with
    | none => exact Iff.rfl
    | some y =>
      refine and_congr_right fun _ => ⟨fun hy => ⟨⟨hy.1, ?_⟩, hy.2⟩, fun hy => ⟨hy.1.1, hy.2⟩⟩
      rintro rfl
      exact hi hy.2.symm

theorem Fits.insert (hf : Fits table k 0 S) {i : UInt32} (hi : i ≠ 0) (hfree : table i = none) :
    Fits (Function.update table i (some ⟨k, none⟩)) k i S := by
  intro j what
  by_cases hj : j = i
  · subst hj
    rw [Function.update_self]
    cases what with
    | none => exact iff_of_true rfl ⟨hi, rfl⟩
    | some x =>
      refine iff_of_false nofun fun hx => ?_
      exact absurd ((hf j (some x)).mpr hx) (by rw [hfree]; nofun)
  · rw [Function.update_of_ne hj, hf j what]
    cases what with
    | none => exact and_congr_right fun h0 => ⟨fun e => absurd e.symm h0, fun e => absurd e.symm hj⟩
    | some x => exact Iff.rfl

theorem Fits.swap (hf : Fits table k h S) (h0 : table 0 = none) {x : Keypair}
    (hx : x.localIndex = h) : Fits (table.swapIndexForKeypair h x) k 0 fun y => S y ∨ y = x := by
  by_cases hh : h = 0
  · subst hh
    rw [swapIndexForKeypair_none h0]
    intro i what
    rw [hf i what]
    cases what with
    | none => exact Iff.rfl
    | some y =>
      refine and_congr_right fun hi => ⟨fun hy => ⟨.inl hy.1, hy.2⟩, ?_⟩
      rintro ⟨hy | rfl, hyi⟩
      · exact ⟨hy, hyi⟩
      · exact absurd (hyi.symm.trans hx) hi
  · rw [swapIndexForKeypair_some (hf.handshake hh)]
    intro i what
    by_cases hi : i = h
    · subst hi
      rw [Function.update_self]
      cases what with
      | none => exact iff_of_false nofun fun e => hh e.2.symm
      | some y =>
        constructor
        · rintro ⟨⟩
          exact ⟨hh, .inr rfl, hx⟩
        · rintro ⟨-, hy | rfl, hyi⟩
          · exact absurd ((hf i (some y)).mpr ⟨hh, hy, hyi⟩) (by rw [hf.handshake hh]; nofun)
          · rfl
    · rw [Function.update_of_ne hi, hf i what]
      cases what with
      | none => exact and_congr_right fun h0 =>
        ⟨fun e => absurd e.symm hi, fun e => absurd e.symm h0⟩
      | some y =>
        refine and_congr_right fun _ => ⟨fun hy => ⟨.inl hy.1, hy.2⟩, ?_⟩
        rintro ⟨hy | rfl, hyi⟩
        · exact ⟨hy, hyi⟩
        · exact absurd (hyi.symm.trans hx) hi

end

/-- What an operation on peer `k` may have done to the table so far: it fits the peer,
the other peers' entries are as before, and there is still none at 0. -/
structure Kept (k : Nat) (before table : IndexTable) (h : UInt32) (S : Keypair → Prop) : Prop where
  fits : Fits table k h S
  spares : Spares k before table
  zero : table 0 = none

namespace Kept
variable {before table : IndexTable} {k : Nat} {h : UInt32} {S T : Keypair → Prop}

theorem congr (hk : Kept k before table h S) (hST : ∀ x, S x ↔ T x) : Kept k before table h T :=
  ⟨hk.fits.congr hST, hk.spares, hk.zero⟩

theorem deleteHandshake (hk : Kept k before table h S) : Kept k before (table.delete h) 0 S := by
  refine ⟨hk.fits.delete_handshake, hk.spares.trans (spares_delete hk.zero ?_),
    delete_zero hk.zero h⟩
  by_cases hh : h = 0
  · exact .inl hh
  · exact .inr ⟨none, hk.fits.handshake hh⟩

theorem deleteKeypair (hk : Kept k before table h S) {slot : Option Keypair}
    (hs : ∀ x, slot = some x → S x) :
    Kept k before (table.deleteKeypair slot) h fun y => S y ∧ slot ≠ some y := by
  cases slot with
  | none => exact hk.congr fun x => (and_iff_left nofun).symm
  | some x =>
    have hx := hs x rfl
    have hkept : Kept k before (table.delete x.localIndex) h fun y => S y ∧ y ≠ x := by
      refine ⟨hk.fits.delete_keypair hx, hk.spares.trans (spares_delete hk.zero ?_),
        delete_zero hk.zero _⟩
      by_cases hi : x.localIndex = 0
      · exact .inl hi
      · exact .inr ⟨some x, hk.fits.keypair hx hi⟩
    exact hkept.congr fun y => and_congr_right fun _ => ⟨fun hne e => hne (Option.some.inj e).symm,
      fun hne e => hne (congrArg some e.symm)⟩

theorem newIndexForHandshake (hk : Kept k before table 0 S) {draws : List (UInt32 × Option String)}
    (hdraws : ∀ d ∈ draws, d.1 ≠ 0 ∧ d.2 = none) {index : UInt32} {err : Option String}
    {table' : IndexTable} (hn : table.newIndexForHandshake k draws = some (index, err, table')) :
    err = none ∧ Kept k before table' index S ∧ index ≠ 0 := by
  induction draws with
  | nil => cases hn
  | cons d draws ih =>
    obtain ⟨i, e⟩ := d
    obtain ⟨hi, rfl⟩ := hdraws _ List.mem_cons_self
    rw [IndexTable.newIndexForHandshake] at hn
    split at hn
    · exact ih (fun d hd => hdraws d (List.mem_cons_of_mem _ hd)) hn
    · rename_i hfree
      have hfree : table i = none := Option.not_isSome_iff_eq_none.mp hfree
      cases hn
      refine ⟨rfl, ⟨hk.fits.insert hi hfree, hk.spares.trans ?_, ?_⟩, hi⟩
      · intro j entry hj
        by_cases hji : j = index
        · subst hji
          rw [Function.update_self, hfree]
          constructor
          · rintro ⟨⟩
            exact absurd rfl hj
          · rintro ⟨⟩
        · rw [Function.update_of_ne hji]
      · rw [Function.update_of_ne hi.symm, hk.zero]

theorem swapIndexForKeypair (hk : Kept k before table h S) {x : Keypair} (hx : x.localIndex = h) :
    Kept k before (table.swapIndexForKeypair h x) 0 fun y => S y ∨ y = x := by
  have hfits := hk.fits.swap hk.zero hx
  by_cases hh : h = 0
  · subst hh
    rw [swapIndexForKeypair_none hk.zero] at hfits ⊢
    exact ⟨hfits, hk.spares, hk.zero⟩
  · rw [swapIndexForKeypair_some (hk.fits.handshake hh)] at hfits ⊢
    refine ⟨hfits, hk.spares.trans ?_, ?_⟩
    · intro j entry hj
      by_cases hjh : j = h
      · subst hjh
        rw [Function.update_self, hk.fits.handshake hh]
        constructor
        · rintro ⟨⟩
          exact absurd rfl hj
        · rintro ⟨⟩
          exact absurd rfl hj
      · rw [Function.update_of_ne hjh]
    · exact (Function.update_of_ne (Ne.symm hh) _ _).trans hk.zero

end Kept

/-! ## The operations on one peer -/

/-- The keypair is in one of the slots. -/
def Keypairs.Has (keypairs : Keypairs) (x : Keypair) : Prop :=
  keypairs.previous = some x ∨ keypairs.current = some x ∨ keypairs.next = some x

/-- No keypair is in two slots. -/
def Keypairs.Distinct (keypairs : Keypairs) : Prop :=
  ∀ x, (keypairs.previous = some x → keypairs.current ≠ some x ∧ keypairs.next ≠ some x) ∧
    (keypairs.current = some x → keypairs.next ≠ some x)

section
variable {keypairs : Keypairs} {x : Keypair} {before table : IndexTable} {k : Nat} {h : UInt32}

theorem has_of_rotate {y : Keypair} (hy : (rotate keypairs x table).1.Has y) :
    keypairs.Has y ∨ y = x := by
  unfold rotate at hy
  cases hi : x.isInitiator with
  | true => cases hnext : keypairs.next <;> grind [Keypairs.Has]
  | false => grind [Keypairs.Has]

theorem rotate_has (keypairs : Keypairs) (table : IndexTable) :
    (rotate keypairs x table).1.Has x := by
  unfold rotate
  cases x.isInitiator with
  | true => exact .inr (.inl rfl)
  | false => exact .inr (.inr rfl)

theorem rotate_distinct (hx : ¬ keypairs.Has x) : (rotate keypairs x table).1.Distinct := by
  unfold rotate
  cases x.isInitiator with
  | true => cases hnext : keypairs.next <;> grind [Keypairs.Has, Keypairs.Distinct]
  | false => grind [Keypairs.Has, Keypairs.Distinct]

/-- The rotation deletes the entries of the keypairs that lose their slots: what is true
of the table and the keypairs in it, and stays true when one is deleted, is true of the
new slots. -/
theorem rotate_deletes {K : IndexTable → (Keypair → Prop) → Prop}
    (hdelete : ∀ table S slot, K table S → (∀ y, slot = some y → S y) →
      K (table.deleteKeypair slot) fun y => S y ∧ slot ≠ some y)
    (hk : K table fun y => keypairs.Has y ∨ y = x) (hd : keypairs.Distinct)
    (hx : ¬ keypairs.Has x) :
    K (rotate keypairs x table).2 (rotate keypairs x table).1.Has := by
  unfold rotate
  cases x.isInitiator with
  | true =>
    cases hnext : keypairs.next with
    | none =>
      have hprevious := hdelete _ _ keypairs.previous hk fun y hy => .inl (.inl hy)
      refine Eq.mp (congrArg (K _) (funext fun y => propext ?_)) hprevious
      grind [Keypairs.Has, Keypairs.Distinct]
    | some next =>
      have hcurrent := hdelete _ _ keypairs.current hk fun y hy => .inl (.inr (.inl hy))
      have hprevious := hdelete _ _ keypairs.previous hcurrent fun y hy =>
        ⟨.inl (.inl hy), ((hd y).1 hy).1⟩
      refine Eq.mp (congrArg (K _) (funext fun y => propext ?_)) hprevious
      grind [Keypairs.Has, Keypairs.Distinct]
  | false =>
    have hnext := hdelete _ _ keypairs.next hk fun y hy => .inl (.inr (.inr hy))
    have hprevious :=
      hdelete _ _ keypairs.previous hnext fun y hy => ⟨.inl (.inl hy), ((hd y).1 hy).2⟩
    refine Eq.mp (congrArg (K _) (funext fun y => propext ?_)) hprevious
    grind [Keypairs.Has, Keypairs.Distinct]

/-- The same for `ZeroAndFlushAll`, which deletes all of them. -/
theorem slots_deleted {K : IndexTable → (Keypair → Prop) → Prop}
    (hdelete : ∀ table S slot, K table S → (∀ y, slot = some y → S y) →
      K (table.deleteKeypair slot) fun y => S y ∧ slot ≠ some y)
    (hk : K table keypairs.Has) (hd : keypairs.Distinct) :
    K (((table.deleteKeypair keypairs.previous).deleteKeypair keypairs.current).deleteKeypair
      keypairs.next) ({} : Keypairs).Has := by
  have hprevious := hdelete _ _ keypairs.previous hk fun y hy => .inl hy
  have hcurrent := hdelete _ _ keypairs.current hprevious fun y hy =>
    ⟨.inr (.inl hy), fun he => ((hd y).1 he).1 hy⟩
  have hnext := hdelete _ _ keypairs.next hcurrent fun y hy =>
    ⟨⟨.inr (.inr hy), fun he => ((hd y).1 he).2 hy⟩, fun he => (hd y).2 he hy⟩
  refine Eq.mp (congrArg (K _) (funext fun y => propext ?_)) hnext
  grind [Keypairs.Has]

theorem rotate_kept (hk : Kept k before table h fun y => keypairs.Has y ∨ y = x)
    (hd : keypairs.Distinct) (hx : ¬ keypairs.Has x) :
    Kept k before (rotate keypairs x table).2 h (rotate keypairs x table).1.Has :=
  rotate_deletes (K := fun table S => Kept k before table h S)
    (fun _ _ _ hk hs => hk.deleteKeypair hs) hk hd hx

end

/-- The keypairs in the slots are different, and have been made. -/
structure Peer.Sound (peer : Peer) : Prop where
  distinct : peer.keypairs.Distinct
  numbered : ∀ x, peer.keypairs.Has x → x.ptr < peer.sessions.length

section
variable {p : Primitives} {before table table' : IndexTable} {k : Nat} {h h' : Handshake}
  {S : Keypair → Prop} {r : Rand} {draws : List (UInt32 × Option String)}

theorem createInitiation_kept (hk : Kept k before table h.localIndex S)
    (hdraws : ∀ d ∈ draws, d.1 ≠ 0 ∧ d.2 = none) {static timestamp : Bytes}
    {result : Except String MessageInitiation}
    (hc : createInitiation p k static h table r draws timestamp = some (result, h', table')) :
    Kept k before table' h'.localIndex S ∧
      (h'.localIndex ≠ 0 ∨ h'.localIndex = h.localIndex ∧ h'.state = h.state) := by
  unfold createInitiation at hc
  split at hc
  · cases hc
    exact ⟨hk, .inr ⟨rfl, rfl⟩⟩
  · dsimp only at hc
    split at hc
    · cases hc
      exact ⟨hk, .inr ⟨rfl, rfl⟩⟩
    · split at hc
      · cases hc
      · rename_i hn
        cases (hk.deleteHandshake.newIndexForHandshake hdraws hn).1
      · rename_i hn
        obtain ⟨-, hkept, hne⟩ := hk.deleteHandshake.newIndexForHandshake hdraws hn
        cases hc
        exact ⟨hkept, .inl hne⟩

theorem createResponse_kept (hk : Kept k before table h.localIndex S)
    (hdraws : ∀ d ∈ draws, d.1 ≠ 0 ∧ d.2 = none) {result : Except String MessageResponse}
    (hc : createResponse p k h table r draws = some (result, h', table')) :
    Kept k before table' h'.localIndex S ∧
      (h'.localIndex ≠ 0 ∨ h'.localIndex = h.localIndex ∧ h'.state = h.state) := by
  unfold createResponse at hc
  split at hc
  · cases hc
    exact ⟨hk, .inr ⟨rfl, rfl⟩⟩
  · split at hc
    · cases hc
    · rename_i hn
      cases (hk.deleteHandshake.newIndexForHandshake hdraws hn).1
    · rename_i hn
      obtain ⟨-, hkept, hne⟩ := hk.deleteHandshake.newIndexForHandshake hdraws hn
      dsimp only at hc
      split at hc
      · cases hc
        exact ⟨hkept, .inl hne⟩
      · cases hc
        exact ⟨hkept, .inl hne⟩

theorem beginSession_kept {peer peer' : Peer}
    (hk : Kept k before table peer.handshake.localIndex peer.keypairs.Has)
    (hs : peer.Sound) (hb : beginSession p peer table = .ok (peer', table')) :
    Kept k before table' peer'.handshake.localIndex peer'.keypairs.Has ∧ peer'.Sound := by
  unfold beginSession at hb
  dsimp only at hb
  split at hb
  · cases hb
  · rename_i send receive isInitiator keys
    cases hb
    have hnew : ¬ peer.keypairs.Has ⟨peer.sessions.length, send, receive, isInitiator,
        peer.handshake.localIndex, peer.handshake.remoteIndex⟩ :=
      fun hx => Nat.lt_irrefl _ (hs.numbered _ hx)
    refine ⟨rotate_kept (hk.swapIndexForKeypair rfl) hs.distinct hnew, rotate_distinct hnew, ?_⟩
    intro y hy
    rw [List.length_cons]
    rcases has_of_rotate hy with hy | rfl
    · exact Nat.lt_succ_of_lt (hs.numbered y hy)
    · exact Nat.lt_succ_self _

end

/-! ## All peers -/

/-- The table has the indices of the handshakes and of the keypairs in the slots, but
for index 0. -/
structure Matches (device : Device) : Prop where
  fits : ∀ k, Fits device.indexTable k (device.peers k).handshake.localIndex
    (device.peers k).keypairs.Has
  sound : ∀ k, (device.peers k).Sound

section
variable {device device' : Device} {k : Nat}

theorem Matches.zero (hm : Matches device) : device.indexTable 0 = none := by
  rw [Option.eq_none_iff_forall_ne_some]
  rintro ⟨k, what⟩ he
  exact ((hm.fits k 0 what).mp he).1 rfl

theorem Matches.kept (hm : Matches device) (k : Nat) :
    Kept k device.indexTable device.indexTable (device.peers k).handshake.localIndex
      (device.peers k).keypairs.Has :=
  ⟨hm.fits k, .refl k _, hm.zero⟩

/-- An operation on peer `k` leaves the table right, and the other peers' entries alone. -/
structure OwnEntries (k : Nat) (device device' : Device) : Prop where
  right : Matches device'
  spares : Spares k device.indexTable device'.indexTable

theorem Matches.set (hm : Matches device) {peer : Peer}
    (hpeers : device'.peers = Function.update device.peers k peer)
    (hk : Kept k device.indexTable device'.indexTable peer.handshake.localIndex peer.keypairs.Has)
    (hs : peer.Sound) : OwnEntries k device device' := by
  refine ⟨⟨?_, ?_⟩, hk.spares⟩
  · intro j
    rw [hpeers]
    by_cases hj : j = k
    · subst hj
      rw [Function.update_self]
      exact hk.fits
    · rw [Function.update_of_ne hj]
      exact (hm.fits j).of_spares hk.spares hj
  · intro j
    rw [hpeers]
    by_cases hj : j = k
    · subst hj
      rw [Function.update_self]
      exact hs
    · rw [Function.update_of_ne hj]
      exact hm.sound j

theorem Matches.setHandshake (hm : Matches device) {h : Handshake}
    (hpeers : device'.peers = Function.update device.peers k { device.peers k with handshake := h })
    (hk : Kept k device.indexTable device'.indexTable h.localIndex (device.peers k).keypairs.Has) :
    OwnEntries k device device' :=
  hm.set hpeers hk ⟨(hm.sound k).distinct, (hm.sound k).numbered⟩

theorem Matches.sameIndex (hm : Matches device) {h : Handshake}
    (hpeers : device'.peers = Function.update device.peers k { device.peers k with handshake := h })
    (ht : device'.indexTable = device.indexTable)
    (hh : h.localIndex = (device.peers k).handshake.localIndex) :
    OwnEntries k device device' := by
  refine hm.setHandshake hpeers ?_
  rw [ht, hh]
  exact hm.kept k

theorem zeroKeypairs_ownEntries (hm : Matches device) (k : Nat) :
    OwnEntries k device (device.zeroKeypairs k) := by
  have hkept := slots_deleted
    (K := fun table S => Kept k device.indexTable table (device.peers k).handshake.localIndex S)
    (fun _ _ _ hk hs => hk.deleteKeypair hs) (hm.kept k) (hm.sound k).distinct
  exact hm.set rfl hkept ⟨by simp [Keypairs.Distinct], by simp [Keypairs.Has]⟩

theorem clearHandshake_ownEntries (hm : Matches device) (k : Nat) :
    OwnEntries k device (device.clearHandshake k) :=
  hm.setHandshake rfl (hm.kept k).deleteHandshake

theorem receivedWithKeypair_ownEntries (hm : Matches device) (k : Nat) (x : Keypair) :
    OwnEntries k device (device.receivedWithKeypair k x) := by
  unfold Device.receivedWithKeypair
  dsimp only
  split
  · exact ⟨hm, .refl k _⟩
  · have hd := (hm.sound k).distinct
    have hprevious := (hm.kept k).deleteKeypair fun y
      (hy : (device.peers k).keypairs.previous = some y) => .inl hy
    refine hm.set rfl (hprevious.congr fun y => ?_) ⟨?_, fun y hy => (hm.sound k).numbered y ?_⟩
    · grind [Keypairs.Has, Keypairs.Distinct]
    · grind [Keypairs.Distinct]
    · grind [Keypairs.Has]

variable {p : Primitives} {r : Rand} {draws : List (UInt32 × Option String)}

theorem createMessageInitiation_ownEntries (hm : Matches device)
    (hdraws : ∀ d ∈ draws, d.1 ≠ 0 ∧ d.2 = none)
    {timestamp : Bytes} {result : Except String MessageInitiation}
    (hc : createMessageInitiation p device k r draws timestamp = some (result, device')) :
    OwnEntries k device device' := by
  obtain ⟨⟨_, h, table⟩, created, he⟩ := Option.map_eq_some_iff.mp hc
  cases he
  exact hm.setHandshake rfl (createInitiation_kept (hm.kept k) hdraws created).1

theorem createMessageResponse_ownEntries (hm : Matches device)
    (hdraws : ∀ d ∈ draws, d.1 ≠ 0 ∧ d.2 = none) {result : Except String MessageResponse}
    (hc : createMessageResponse p device k r draws = some (result, device')) :
    OwnEntries k device device' := by
  obtain ⟨⟨_, h, table⟩, created, he⟩ := Option.map_eq_some_iff.mp hc
  cases he
  exact hm.setHandshake rfl (createResponse_kept (hm.kept k) hdraws created).1

theorem beginSymmetricSession_ownEntries (hm : Matches device)
    (hb : beginSymmetricSession p device k = .ok device') : OwnEntries k device device' := by
  unfold beginSymmetricSession at hb
  cases hs : beginSession p (device.peers k) device.indexTable with
  | error err =>
    rw [hs] at hb
    cases hb
  | ok made =>
    rw [hs] at hb
    cases hb
    obtain ⟨hkept, hsound⟩ := beginSession_kept (hm.kept k) (hm.sound k) hs
    exact hm.set rfl hkept hsound

end

/-! ## Any order of the sections -/

/-- The peer that a section is about. -/
def operand : Worker → Event → Option Nat
  | .initiation k _ _, .readInitiation _ => some k
  | .initiationRead k _ _ _, .writeInitiation _ => some k
  | .respond k, .createResponse _ _ => some k
  | .response k _, .readResponse _ => some k
  | .responseRead k _ _, .writeResponse => some k
  | .derive k, .beginSession => some k
  | .idle, .sendInitiation k _ _ _ => some k
  | .idle, .zeroKeypairs k => some k
  | .clear k, .clearHandshake => some k
  | .idle, .receivedWithKeypair k _ => some k
  | _, _ => none

/-- `randUint32` does not fail, and does not draw the index that stands for none. -/
def DrawsIndices : Event → Prop
  | .sendInitiation _ _ draws _ => ∀ d ∈ draws, d.1 ≠ 0 ∧ d.2 = none
  | .createResponse _ draws => ∀ d ∈ draws, d.1 ≠ 0 ∧ d.2 = none
  | _ => True

instance (e : Event) : Decidable (DrawsIndices e) :=
  match e with
  | .sendInitiation _ _ draws _ => inferInstanceAs (Decidable (∀ d ∈ draws, d.1 ≠ 0 ∧ d.2 = none))
  | .createResponse _ draws => inferInstanceAs (Decidable (∀ d ∈ draws, d.1 ≠ 0 ∧ d.2 = none))
  | .takeInitiation .. | .readInitiation _ | .writeInitiation _ | .takeResponse _ | .readResponse _
  | .writeResponse | .beginSession | .zeroKeypairs _ | .clearHandshake | .receivedWithKeypair .. =>
    inferInstanceAs (Decidable True)

/-- What a section about peer `k` does to the device. -/
inductive Operation (p : Primitives) (k : Nat) (device : Device) : Event → Device → Prop
  | handshake {e} (h : Handshake) (index : h.localIndex = (device.peers k).handshake.localIndex) :
    Operation p k device e (device.setHandshake k h)
  | initiation {r draws timestamp result device'}
      (made : createMessageInitiation p device k r draws timestamp = some (result, device')) :
    Operation p k device (.sendInitiation k r draws timestamp) device'
  | response {r draws result device'}
      (made : createMessageResponse p device k r draws = some (result, device')) :
    Operation p k device (.createResponse r draws) device'
  | session {e device'} (begun : beginSymmetricSession p device k = .ok device') :
    Operation p k device e device'
  | zeroKeypairs {e} : Operation p k device e (device.zeroKeypairs k)
  | clearHandshake {e} : Operation p k device e (device.clearHandshake k)
  | receivedWithKeypair {e} (x : Keypair) : Operation p k device e (device.receivedWithKeypair k x)

/-- A section about no peer, or one that only looks, leaves all of this as it is. -/
structure Device.Alike (device device' : Device) : Prop where
  peers : device'.peers = device.peers
  table : device'.indexTable = device.indexTable
  keyMap : device'.keyMap = device.keyMap

section
variable {p : Primitives} {g g' : Shared} {w w' : Worker} {e : Event}

theorem Matches.same {device device' : Device} (hm : Matches device)
    (hp : device'.peers = device.peers)
    (ht : device'.indexTable = device.indexTable) : Matches device' := by
  constructor
  · rw [hp, ht]
    exact hm.fits
  · rw [hp]
    exact hm.sound

theorem takeInitiation_alike (g : Shared) (msg : MessageInitiation) (call : TeeCall) :
    g.device.Alike (takeInitiation p g msg call).2.device := by
  unfold takeInitiation
  split
  · exact ⟨rfl, rfl, rfl⟩
  · dsimp only
    split
    · exact ⟨rfl, rfl, rfl⟩
    · split <;> exact ⟨rfl, rfl, rfl⟩

theorem lookAtResponse_alike (g : Shared) (k : Nat) (msg : MessageResponse) (call : TeeCall) :
    g.device.Alike (lookAtResponse p g k msg call).2.device := by
  unfold lookAtResponse
  dsimp only
  split
  · exact ⟨rfl, rfl, rfl⟩
  · split <;> exact ⟨rfl, rfl, rfl⟩

theorem act_operation (ha : act p w g e = some (w', g')) :
    g.device.Alike g'.device ∨ ∃ k, operand w e = some k ∧ Operation p k g.device e g'.device := by
  unfold act at ha
  split at ha
  · rename_i msg call
    obtain rfl : (takeInitiation p g msg call).2 = g' := congrArg Prod.snd (Option.some.inj ha)
    exact .inl (takeInitiation_alike g msg call)
  · split at ha <;> (cases ha; exact .inl ⟨rfl, rfl, rfl⟩)
  · rename_i k msg timestamp sym now
    cases ha
    exact .inr ⟨k, rfl, .handshake _ rfl⟩
  · rename_i k r draws
    obtain ⟨⟨result, device⟩, made, ht⟩ := Option.map_eq_some_iff.mp ha
    cases ht
    exact .inr ⟨k, rfl, .response made⟩
  · cases ha
    exact .inl ⟨rfl, rfl, rfl⟩
  · rename_i k msg call
    obtain rfl : (lookAtResponse p g k msg call).2 = g' := congrArg Prod.snd (Option.some.inj ha)
    exact .inl (lookAtResponse_alike g k msg call)
  · rename_i k msg sym
    cases ha
    exact .inr ⟨k, rfl, .handshake _ rfl⟩
  · rename_i k
    split at ha
    · cases ha
      exact .inl ⟨rfl, rfl, rfl⟩
    · rename_i device begun
      cases ha
      exact .inr ⟨k, rfl, .session begun⟩
  · rename_i k r draws timestamp
    obtain ⟨⟨result, device⟩, made, ht⟩ := Option.map_eq_some_iff.mp ha
    cases ht
    exact .inr ⟨k, rfl, .initiation made⟩
  · rename_i k
    cases ha
    exact .inr ⟨k, rfl, .zeroKeypairs⟩
  · rename_i k
    cases ha
    exact .inr ⟨k, rfl, .clearHandshake⟩
  · rename_i k keypair
    cases ha
    exact .inr ⟨k, rfl, .receivedWithKeypair keypair⟩
  · cases ha

theorem Operation.ownEntries {device device' : Device} {k : Nat}
    (ho : Operation p k device e device')
    (hm : Matches device) (hdraws : DrawsIndices e) : OwnEntries k device device' := by
  cases ho with
  | handshake h index => exact hm.sameIndex rfl rfl index
  | initiation made => exact createMessageInitiation_ownEntries hm hdraws made
  | response made => exact createMessageResponse_ownEntries hm hdraws made
  | session begun => exact beginSymmetricSession_ownEntries hm begun
  | zeroKeypairs => exact zeroKeypairs_ownEntries hm k
  | clearHandshake => exact clearHandshake_ownEntries hm k
  | receivedWithKeypair x => exact receivedWithKeypair_ownEntries hm k x

theorem newIndexForHandshake_free {table table' : IndexTable} {peer : Nat} {index : UInt32}
    {draws : List (UInt32 × Option String)}
    (hn : table.newIndexForHandshake peer draws = some (index, none, table')) :
    table index = none := by
  induction draws with
  | nil => cases hn
  | cons d draws ih =>
    obtain ⟨i, err⟩ := d
    cases err with
    | some err => cases hn
    | none =>
      rw [IndexTable.newIndexForHandshake] at hn
      split at hn
      · exact ih hn
      · rename_i hfree
        cases hn
        exact Option.not_isSome_iff_eq_none.mp hfree

/-- Nobody has an index. -/
structure Unused (device : Device) : Prop where
  table : ∀ i, device.indexTable i = none
  handshakes : ∀ k, (device.peers k).handshake.localIndex = 0
  keypairs : ∀ k, (device.peers k).keypairs = {}

theorem Unused.right {device : Device} (hu : Unused device) : Matches device := by
  have hempty : ∀ k y, ¬ (device.peers k).keypairs.Has y := by simp [hu.keypairs, Keypairs.Has]
  constructor
  · intro k i what
    rw [hu.table]
    refine iff_of_false nofun ?_
    rintro ⟨hi, hw⟩
    cases what with
    | none => exact hi ((hu.handshakes k).symm.trans hw).symm
    | some y => exact hempty k y hw.1
  · intro k
    refine ⟨?_, fun y hy => absurd hy (hempty k y)⟩
    intro y
    simp [hu.keypairs]

theorem run_matches {device : Device} (hu : Unused device) {events : List (Nat × Event)}
    (hdraws : ∀ e ∈ events, DrawsIndices e.2) {s : Threads.State Shared Worker}
    (run : Run.exec (workerStep p) (atRest device) events = some s) : Matches s.shared.device := by
  refine Run.exec_guarded (P := fun s => Matches s.shared.device)
    (fun _ e => DrawsIndices e.2) ?_ hu.right (Run.meets_of_forall hdraws) run
  rintro s ⟨i, e⟩ t hm he hst
  obtain ⟨w, g, ha, rfl, -⟩ := Threads.step_cases hst
  rcases act_operation ha with hsame | ⟨k, -, ho⟩
  · exact hm.same hsame.peers hsame.table
  · exact (ho.ownEntries hm he).right

/-- In every run that draws neither a failure nor index 0, a step that deletes or
replaces an entry is about the entry's peer; and a new index was free in any case. -/
theorem entries_own (device : Device) (hu : Unused device) (events : List (Nat × Event))
    (thread : Nat) (e : Event) (hdraws : ∀ x ∈ events ++ [(thread, e)], DrawsIndices x.2)
    (s t : Threads.State Shared Worker)
    (run : Run.exec (workerStep p) (atRest device) events = some s)
    (step : workerStep p s (thread, e) = some t) :
    (∀ i entry, s.shared.device.indexTable i = some entry →
      t.shared.device.indexTable i ≠ some entry → operand (s.threads thread) e = some entry.peer) ∧
    ∀ (table table' : IndexTable) peer draws index,
      table.newIndexForHandshake peer draws = some (index, none, table') → table index = none := by
  have hm : Matches s.shared.device :=
    run_matches hu (fun x hx => hdraws x (List.mem_append_left _ hx)) run
  have he : DrawsIndices e := hdraws (thread, e) (List.mem_append_right _ List.mem_cons_self)
  refine ⟨?_, fun _ _ _ _ _ => newIndexForHandshake_free⟩
  intro i entry hbefore hafter
  obtain ⟨w, g, ha, rfl, -⟩ := Threads.step_cases step
  rcases act_operation ha with hsame | ⟨k, hk, ho⟩
  · rw [hsame.table] at hafter
    exact absurd hbefore hafter
  · by_cases hpeer : entry.peer = k
    · rw [hk, hpeer]
    · exact absurd (((ho.ownEntries hm he).spares i entry hpeer).mpr hbefore) hafter

end

theorem pairedDevice_unused (own remote secret : UInt8) : Unused (pairedDevice own remote secret) :=
  ⟨fun _ => rfl, fun _ => rfl, fun _ => rfl⟩

/-- An initiation to peer 0 with the index that is drawn. -/
def initiationDrawing (index : UInt32) : Nat × Event :=
  (0, .sendInitiation 0 ⟨List.replicate 32 0, none⟩ [(index, none)] (List.replicate 12 1))

theorem entries_own_initiation :
    ∃ s t, Run.exec (workerStep plain) (atRest (pairedDevice 1 2 3))
        [initiationDrawing 7, (1, .zeroKeypairs 0)] = some s ∧
      workerStep plain s (1, .clearHandshake) = some t ∧
      s.shared.device.indexTable 7 = some ⟨0, none⟩ ∧ t.shared.device.indexTable 7 = none ∧
      operand (s.threads 1) .clearHandshake = some 0 := by
  refine ⟨_, _, rfl, rfl, rfl, rfl, ?_⟩
  exact (entries_own (p := plain) (pairedDevice 1 2 3) (pairedDevice_unused 1 2 3)
    [initiationDrawing 7, (1, .zeroKeypairs 0)] 1 .clearHandshake (by decide) _ _
      rfl rfl).1 7 ⟨0, none⟩ rfl
    nofun

/-- Peer 0 has drawn index 0, and loses its entry when peer 1, which has no index, is
cleared. -/
theorem entry_zero_lost :
    ∃ s t, Run.exec (workerStep plain) (atRest (pairedDevice 1 2 3))
        [initiationDrawing 0, (1, .zeroKeypairs 1)] = some s ∧
      workerStep plain s (1, .clearHandshake) = some t ∧
      s.shared.device.indexTable 0 = some ⟨0, none⟩ ∧ t.shared.device.indexTable 0 = none ∧
      operand (s.threads 1) .clearHandshake = some 1 :=
  ⟨_, _, rfl, rfl, rfl, rfl, rfl⟩

end Sewg.Go
