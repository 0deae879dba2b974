import Sewg.Go.Uapi

/-! The map of the peers along any series of set operations. A peer is in the map under its
own key, never under the device's, and nothing is routed to a peer that is not in the map. -/

namespace Sewg.Go
open CString (Bytes)
open Words

/-! ## The peers that a table holds -/

namespace TrieEntry
variable {P : Type}

def Holds (p : P) : TrieEntry P → Prop
  | nil => False
  | node _ child _ peer _ _ => peer = some p ∨ ∃ i, (child i).Holds p

variable {p : P} {t : TrieEntry P}

theorem holds_of_lookup {e : Endian} {ip : Bytes} {found : Option P}
    (h : t.lookup e ip found = some (some p)) : t.Holds p ∨ found = some p := by
  induction t generalizing found with
  | nil => exact .inr (Option.some.inj h)
  | node cidr child bits peer byte shift ih =>
    have here : peer.or found = some p → peer = some p ∨ found = some p := by
      cases peer with
      | none => exact .inr
      | some _ => exact .inl
    simp only [lookup, Option.bind_eq_bind, Option.bind_eq_some_iff] at h
    obtain ⟨common, -, h⟩ := h
    split at h
    · split at h
      · exact (here (Option.some.inj h)).imp_left .inl
      · obtain ⟨bit, -, h⟩ := Option.bind_eq_some_iff.mp h
        rcases ih bit h with below | found
        · exact .inl (.inr ⟨bit, below⟩)
        · exact (here found).imp_left .inl
    · exact .inr (Option.some.inj h)

theorem holds_update {child : Bool → TrieEntry P} {bit i : Bool}
    (h : (Function.update child bit t i).Holds p) : t.Holds p ∨ (child i).Holds p := by
  by_cases hi : i = bit
  · subst hi
    rw [Function.update_self] at h
    exact .inl h
  · rw [Function.update_of_ne hi] at h
    exact .inr h

theorem holds_of_insert {e : Endian} {ip : Bytes} {cidr : Nat} {t' : TrieEntry P} {q : P}
    (h : t.insert e ip cidr q = some t') (hp : t'.Holds p) : t.Holds p ∨ p = q := by
  induction t generalizing t' with
  | nil =>
    cases h
    rcases hp with here | ⟨_, below⟩
    · exact .inr (Option.some.inj here).symm
    · cases below
  | node cidr' child bits peer byte shift ih =>
    simp only [insert, Option.bind_eq_bind, Option.bind_eq_some_iff] at h
    obtain ⟨common, -, h⟩ := h
    split at h
    · split at h
      · cases h
        rcases hp with here | below
        · exact .inr (Option.some.inj here).symm
        · exact .inl (.inr below)
      · obtain ⟨bit, -, h⟩ := Option.bind_eq_some_iff.mp h
        obtain ⟨below, inserted, h⟩ := Option.bind_eq_some_iff.mp h
        cases h
        rcases hp with here | ⟨i, hp⟩
        · exact .inl (.inl here)
        · rcases holds_update hp with hp | hp
          · exact (ih bit inserted hp).imp_left fun h => .inr ⟨bit, h⟩
          · exact .inl (.inr ⟨i, hp⟩)
    · split at h
      · obtain ⟨bit, -, h⟩ := Option.bind_eq_some_iff.mp h
        cases h
        rcases hp with here | ⟨i, hp⟩
        · exact .inr (Option.some.inj here).symm
        · rcases holds_update hp with hp | hp
          · exact .inl hp
          · cases hp
      · obtain ⟨bit, -, h⟩ := Option.bind_eq_some_iff.mp h
        cases h
        rcases hp with here | ⟨i, hp⟩
        · cases here
        · rcases holds_update hp with hp | hp
          · exact .inl hp
          · rcases holds_update hp with (here | ⟨_, hp⟩) | hp
            · exact .inr (Option.some.inj here).symm
            · cases hp
            · cases hp

/-- Nothing of the peer is left, whatever else is lost. -/
theorem holds_of_removeByPeer [DecidableEq P] {q : P} (h : (t.removeByPeer q).Holds p) :
    t.Holds p ∧ p ≠ q := by
  induction t with
  | nil => cases h
  | node cidr child bits peer byte shift ih =>
    have below : ∀ i, ((child i).removeByPeer q).Holds p →
        (node cidr child bits peer byte shift).Holds p ∧ p ≠ q :=
      fun i h => ⟨.inr ⟨i, (ih i h).1⟩, (ih i h).2⟩
    unfold removeByPeer at h
    dsimp only at h
    split at h
    · rename_i other
      rcases h with here | ⟨i, h⟩
      · exact ⟨.inl here, fun same => other (same ▸ here)⟩
      · exact below i h
    · split at h
      · exact below true h
      · exact below false h

end TrieEntry

namespace AllowedIPs
variable {P : Type}

def Holds (table : AllowedIPs P) (p : P) : Prop := table.IPv4.Holds p ∨ table.IPv6.Holds p

/-- Some address is routed to the peer. -/
def RoutesTo (e : Endian) (table : AllowedIPs P) (p : P) : Prop :=
  ∃ address, table.LookupIPv4 e address = some (some p) ∨ table.LookupIPv6 e address = some (some p)

variable {p : P} {table : AllowedIPs P}

theorem RoutesTo.holds {e : Endian} (h : table.RoutesTo e p) :
    table.Holds p := by
  obtain ⟨address, h | h⟩ := h
  · exact .inl ((TrieEntry.holds_of_lookup h).resolve_right (Option.some_ne_none p).symm)
  · exact .inr ((TrieEntry.holds_of_lookup h).resolve_right (Option.some_ne_none p).symm)

theorem holds_of_Insert {e : Endian} {table' : AllowedIPs P} {ip : Bytes} {cidr : Nat} {q : P}
    (h : table.Insert e ip cidr q = some table') (hp : table'.Holds p) : table.Holds p ∨ p = q := by
  unfold Insert at h
  split at h
  · obtain ⟨t, inserted, rfl⟩ := Option.map_eq_some_iff.mp h
    rcases hp with hp | hp
    · exact .inl (.inl hp)
    · exact (TrieEntry.holds_of_insert inserted hp).imp_left .inr
  · split at h
    · obtain ⟨t, inserted, rfl⟩ := Option.map_eq_some_iff.mp h
      rcases hp with hp | hp
      · exact (TrieEntry.holds_of_insert inserted hp).imp_left .inl
      · exact .inl (.inr hp)
    · cases h

theorem holds_of_RemoveByPeer [DecidableEq P] {q : P} (h : (table.RemoveByPeer q).Holds p) :
    table.Holds p ∧ p ≠ q := by
  rcases h with h | h
  · exact ⟨.inl (TrieEntry.holds_of_removeByPeer h).1, (TrieEntry.holds_of_removeByPeer h).2⟩
  · exact ⟨.inr (TrieEntry.holds_of_removeByPeer h).1, (TrieEntry.holds_of_removeByPeer h).2⟩

theorem holds_of_removals [DecidableEq P] {peers : List P}
    (h : (peers.foldl RemoveByPeer table).Holds p) : table.Holds p ∧ p ∉ peers := by
  induction peers generalizing table with
  | nil => exact ⟨h, List.not_mem_nil⟩
  | cons q peers ih =>
    obtain ⟨h, rest⟩ := ih h
    obtain ⟨h, hq⟩ := holds_of_RemoveByPeer h
    exact ⟨h, by simp [hq, rest]⟩

end AllowedIPs

/-! ## What the operations on the device keep -/

/-- The map has one peer for a key, each under its own key and none under the device's. What
is routed goes to a peer of the map. -/
structure PeerMap (d : UapiDevice) : Prop where
  keys : (d.device.keyMap.map Prod.fst).Nodup
  allocated : ∀ entry ∈ d.device.keyMap, entry.2 < d.device.nextPeer
  remoteStatic : ∀ entry ∈ d.device.keyMap,
    (d.device.peers entry.2).handshake.remoteStatic = entry.1
  others : ∀ entry ∈ d.device.keyMap, entry.1 ≠ d.device.publicKey
  routed : ∀ p, d.allowedips.Holds p → ∃ key, (key, p) ∈ d.device.keyMap

theorem newUapiDevice_peerMap : PeerMap newUapiDevice where
  keys := List.nodup_nil
  allocated _ h := by cases h
  remoteStatic _ h := by cases h
  others _ h := by cases h
  routed _ h := h.elim False.elim False.elim

theorem mem_of_LookupPeer {d : UapiDevice} {key : Bytes} {peer : Nat}
    (h : d.LookupPeer key = some peer) : (key, peer) ∈ d.device.keyMap := by
  obtain ⟨before, after, h, -⟩ := List.lookup_eq_some_iff.mp h
  rw [h]
  exact List.mem_append_right _ List.mem_cons_self

namespace PeerMap
variable {d : UapiDevice} (h : PeerMap d) {env : LineEnv}
include h

theorem of_eq {d' : UapiDevice} (hd : d'.device = d.device) (ht : d'.allowedips = d.allowedips) :
    PeerMap d' := by
  obtain ⟨device, _, _, allowedips, _, _, _⟩ := d'
  subst hd ht
  exact ⟨h.keys, h.allocated, h.remoteStatic, h.others, h.routed⟩

/-- Entries leave the map, and with them their peers the table. -/
theorem narrowed {keyMap : List (Bytes × Nat)} {allowedips : AllowedIPs Nat}
    (hk : keyMap.Sublist d.device.keyMap)
    (hr : ∀ key p, allowedips.Holds p → (key, p) ∈ d.device.keyMap → (key, p) ∈ keyMap)
    (ht : ∀ p, allowedips.Holds p → d.allowedips.Holds p) :
    PeerMap { d with device := { d.device with keyMap }, allowedips } where
  keys := h.keys.sublist (hk.map _)
  allocated entry he := h.allocated entry (hk.mem he)
  remoteStatic entry he := h.remoteStatic entry (hk.mem he)
  others entry he := h.others entry (hk.mem he)
  routed p hp := by
    obtain ⟨key, hm⟩ := h.routed p (ht p hp)
    exact ⟨key, hr key p hp hm⟩

theorem stopRouting (peers : List Nat) : PeerMap (d.stopRouting peers) :=
  h.narrowed (List.Sublist.refl _) (fun _ _ _ hm => hm) fun _ hp =>
    (AllowedIPs.holds_of_removals hp).1

theorem RemoveAllPeers : PeerMap d.RemoveAllPeers := by
  refine h.narrowed (List.nil_sublist _) ?_ fun _ hp => (AllowedIPs.holds_of_removals hp).1
  intro key p hp hm
  exact absurd (List.mem_map_of_mem hm) (AllowedIPs.holds_of_removals hp).2

theorem RemovePeer (key : Bytes) : PeerMap (d.RemovePeer key) := by
  unfold UapiDevice.RemovePeer
  cases hl : d.LookupPeer key with
  | none => exact h
  | some peer =>
    refine h.narrowed List.filter_sublist ?_ fun _ hp => (AllowedIPs.holds_of_removals hp).1
    intro key' p hp hm
    refine List.mem_filter.mpr ⟨hm, decide_eq_true ?_⟩
    rintro rfl
    have same := List.inj_on_of_nodup_map h.keys hm (mem_of_LookupPeer hl) rfl
    cases same
    exact (AllowedIPs.holds_of_removals hp).2 List.mem_cons_self

theorem SetPrivateKey (sk : RootPrivateKey) : PeerMap (d.SetPrivateKey sk env) := by
  have kept : (d.SetPrivateKey sk env).device.keyMap.Sublist
      (otherPeers d.device (d.SetPrivateKey sk env).device.publicKey) := List.filter_sublist
  have narrow := kept.trans List.filter_sublist
  have static : ∀ i, ((d.SetPrivateKey sk env).device.peers i).handshake.remoteStatic =
      (d.device.peers i).handshake.remoteStatic := by
    intro i
    unfold UapiDevice.SetPrivateKey setPrivateKey
    dsimp only
    split
    · unfold precompute
      split <;> rfl
    · rfl
  have remote : ∀ entry ∈ (d.SetPrivateKey sk env).device.keyMap,
      (d.device.peers entry.2).handshake.remoteStatic = entry.1 :=
    fun entry he => h.remoteStatic entry (narrow.mem he)
  constructor
  · exact h.keys.sublist (narrow.map _)
  · exact fun entry he => h.allocated entry (narrow.mem he)
  · exact fun entry he => (static entry.2).trans (remote entry he)
  · intro entry he
    rw [← remote entry he]
    exact of_decide_eq_true (List.mem_filter.mp (kept.mem he)).2
  · intro p hp
    obtain ⟨held, stays⟩ := AllowedIPs.holds_of_removals hp
    obtain ⟨key, hm⟩ := h.routed p held
    refine ⟨key, ?_⟩
    by_contra gone
    exact stays (List.mem_map.mpr ⟨(key, p), List.mem_filter.mpr ⟨hm, decide_eq_true gone⟩, rfl⟩)

theorem NewPeer {pk : Bytes} {d' : UapiDevice} {peer : Nat} (other : d.device.publicKey ≠ pk)
    (unknown : d.LookupPeer pk = none) (ran : d.NewPeer pk env = .ok (d', peer)) :
    PeerMap d' ∧ (pk, peer) ∈ d'.device.keyMap := by
  unfold UapiDevice.NewPeer at ran
  cases hn : newPeer d.device pk env.product with
  | error _ =>
    rw [hn] at ran
    cases ran
  | ok device =>
    rw [hn] at ran
    obtain ⟨-, -, rfl⟩ := newPeer_ok hn
    cases ran
    have older : ∀ entry ∈ d.device.keyMap, entry.2 ≠ d.device.nextPeer :=
      fun entry he => Nat.ne_of_lt (h.allocated entry he)
    refine ⟨⟨?_, ?_, ?_, ?_, ?_⟩, List.mem_cons_self⟩
    · refine List.nodup_cons.mpr ⟨?_, h.keys⟩
      intro hm
      obtain ⟨entry, he, rfl⟩ := List.mem_map.mp hm
      simpa using List.lookup_eq_none_iff.mp unknown entry he
    · intro entry he
      rcases List.mem_cons.mp he with rfl | he
      · exact Nat.lt_succ_self _
      · exact Nat.lt_succ_of_lt (h.allocated entry he)
    · intro entry he
      rcases List.mem_cons.mp he with rfl | he
      · dsimp only
        rw [Function.update_self]
        rfl
      · dsimp only
        rw [Function.update_of_ne (older entry he)]
        exact h.remoteStatic entry he
    · intro entry he
      rcases List.mem_cons.mp he with rfl | he
      · exact other.symm
      · exact h.others entry he
    · intro p hp
      obtain ⟨key, hm⟩ := h.routed p hp
      exact ⟨key, List.mem_cons_of_mem _ hm⟩

theorem setPresharedKey (peer : Nat) (psk : Bytes) : PeerMap (d.setPresharedKey peer psk) := by
  refine ⟨h.keys, h.allocated, ?_, h.others, h.routed⟩
  intro entry he
  refine Eq.trans ?_ (h.remoteStatic entry he)
  unfold UapiDevice.setPresharedKey Device.setHandshake
  dsimp only
  by_cases hp : entry.2 = peer
  · rw [hp, Function.update_self]
  · rw [Function.update_of_ne hp]

theorem Insert {e : Endian} {ip : Bytes} {cidr peer : Nat} {allowedips : AllowedIPs Nat}
    (hp : ∃ key, (key, peer) ∈ d.device.keyMap)
    (ran : d.allowedips.Insert e ip cidr peer = some allowedips) :
    PeerMap { d with allowedips } := by
  refine ⟨h.keys, h.allocated, h.remoteStatic, h.others, ?_⟩
  intro p held
  rcases AllowedIPs.holds_of_Insert ran held with held | rfl
  · exact h.routed p held
  · exact hp

end PeerMap

/-! ## What the loop keeps -/

/-- The selected peer is one of the map, and there is none while the device is configured. -/
structure SetState.Sound (s : SetState) : Prop where
  peerMap : PeerMap s.device
  selected : ∀ peer, s.peer = some peer → ∃ key, (key, peer) ∈ s.device.device.keyMap
  unselected : s.deviceConfig = true → s.peer = none

theorem SetState.Sound.of_none {d : UapiDevice} {dummy deviceConfig : Bool} (h : PeerMap d) :
    Sound ⟨d, none, dummy, deviceConfig⟩ where
  peerMap := h
  selected _ hp := by cases hp
  unselected _ := rfl

namespace SetState.Sound
variable {s : SetState} (h : s.Sound) {e : Endian} {env : LineEnv}
include h

theorem updatePeer {f : UapiDevice → Nat → UapiDevice}
    (hf : ∀ peer, PeerMap (f s.device peer))
    (hk : ∀ peer, (f s.device peer).device.keyMap = s.device.device.keyMap) :
    (s.updatePeer f).Sound := by
  obtain ⟨device, peer, dummy, deviceConfig⟩ := s
  cases peer with
  | none => exact h
  | some peer =>
    refine ⟨hf peer, ?_, h.unselected⟩
    intro p hp
    obtain ⟨key, hm⟩ := h.selected p hp
    exact ⟨key, (hk peer).symm ▸ hm⟩

theorem deviceLine (hc : s.deviceConfig = true) (key : Option SettingKey) (value : Bytes) :
    (s.deviceLine env key value).1.Sound := by
  have none_selected : ∀ d : UapiDevice, PeerMap d → Sound { s with device := d } := by
    intro d hd
    refine ⟨hd, ?_, h.unselected⟩
    intro peer hp
    rw [h.unselected hc] at hp
    cases hp
  unfold SetState.deviceLine
  split
  · split
    · exact h
    · exact none_selected _ (h.peerMap.SetPrivateKey _)
  · split
    · exact h
    · refine none_selected _ (h.peerMap.of_eq ?_ ?_)
      all_goals
        unfold UapiDevice.BindUpdate
        dsimp only
        split
        · rfl
        · split
          · rfl
          · split <;> rfl
  · split
    · exact h
    · refine none_selected _ (h.peerMap.of_eq ?_ ?_)
      all_goals
        unfold UapiDevice.BindSetMark
        split <;> rfl
  · exact ⟨h.peerMap, h.selected, fun h => by cases h⟩
  · split
    · exact h
    · exact none_selected _ h.peerMap.RemoveAllPeers
  · exact h

theorem selectPeer (hc : s.deviceConfig = false) (publicKey : Bytes) :
    (s.selectPeer env publicKey).1.Sound := by
  have later : ¬s.deviceConfig = true := by simp [hc]
  unfold SetState.selectPeer
  split
  · exact .of_none h.peerMap
  rename_i other
  cases hl : s.device.LookupPeer publicKey with
  | some peer =>
    refine ⟨h.peerMap, ?_, fun hd => absurd hd later⟩
    intro p hp
    cases hp
    exact ⟨publicKey, mem_of_LookupPeer hl⟩
  | none =>
    cases hn : s.device.NewPeer publicKey env with
    | error _ => exact .of_none h.peerMap
    | ok made =>
      obtain ⟨d, peer⟩ := made
      obtain ⟨hd, hm⟩ := h.peerMap.NewPeer other hl hn
      refine ⟨hd, ?_, fun hd => absurd hd later⟩
      intro p hp
      cases hp
      exact ⟨publicKey, hm⟩

theorem peerLine (hc : s.deviceConfig = false) (key : Option SettingKey) (value : Bytes) :
    (s.peerLine e env key value).1.Sound := by
  unfold SetState.peerLine
  split
  · split
    · exact h
    · exact h.selectPeer hc _
  · split
    · exact h
    · refine .of_none ?_
      split
      · exact h.peerMap
      · unfold SetState.updatePeer
        split
        · exact h.peerMap
        · exact h.peerMap.RemovePeer _
  · split
    · exact h
    · dsimp only
      refine h.updatePeer ?_ ?_
      · exact fun peer => h.peerMap.setPresharedKey peer _
      · exact fun _ => rfl
  · split
    · exact h
    · dsimp only
      refine h.updatePeer ?_ ?_
      · exact fun _ => h.peerMap.of_eq rfl rfl
      · exact fun _ => rfl
  · split
    · exact h
    · dsimp only
      refine h.updatePeer ?_ ?_
      · exact fun _ => h.peerMap.of_eq rfl rfl
      · exact fun _ => rfl
  · split
    · exact h
    · split
      · exact h
      · dsimp only
        refine h.updatePeer ?_ ?_
        · exact fun peer => h.peerMap.stopRouting [peer]
        · exact fun _ => rfl
  · split
    · exact h
    · split
      · exact h
      · split
        · exact h
        · rename_i selected
          split
          · exact h
          · rename_i inserted
            exact ⟨h.peerMap.Insert (h.selected _ selected) inserted, h.selected, h.unselected⟩
  · exact h
  · exact h

theorem settingLine (key : Option SettingKey) (value : Bytes) :
    (s.settingLine e env key value).1.Sound := by
  unfold SetState.settingLine
  split
  · rename_i hc
    have hd : (s.deviceLine env key value).1.Sound := h.deviceLine hc key value
    generalize s.deviceLine env key value = w at hd
    obtain ⟨s', failure⟩ := w
    cases failure with
    | some _ => exact hd
    | none =>
      dsimp only
      split
      · exact hd
      · rename_i hc'
        exact hd.peerLine (by simpa using hc') key value
  · rename_i hc
    exact h.peerLine (by simpa using hc) key value

theorem line (text : Bytes) : (s.line e env text).1.Sound := by
  unfold SetState.line
  split
  · exact h.settingLine _ _
  · exact h

theorem lines {envs : Nat → LineEnv} (n : Nat) (texts : List Bytes) :
    (s.lines e envs n texts).1.Sound := by
  induction texts generalizing n s with
  | nil => exact h
  | cons text rest ih =>
    cases text with
    | nil => exact h
    | cons byte text =>
      have hl : (s.line e (envs n) (byte :: text)).1.Sound := h.line _
      unfold SetState.lines
      generalize s.line e (envs n) (byte :: text) = w at hl
      obtain ⟨s', failure⟩ := w
      cases failure with
      | some _ => exact hl
      | none => exact ih hl (n + 1)

end SetState.Sound

theorem ipcSetOperation_peerMap {d : UapiDevice} (h : PeerMap d) (e : Endian)
    (envs : Nat → LineEnv) (text : Bytes) : PeerMap (ipcSetOperation e envs d text).1 :=
  (SetState.Sound.lines (.of_none h) 0 (scanLines text)).peerMap

/-- A device without a key has no peers. -/
theorem SetPrivateKey_zero (d : UapiDevice) (env : LineEnv) :
    (d.SetPrivateKey 0 env).device.keyMap = [] := by
  refine List.filter_eq_nil_iff.mpr ?_
  intro entry he
  have mem : (otherPeers d.device (teeGetPubKeyByID env.pubKey)).any (·.2 = entry.2) = true :=
    List.any_eq_true.mpr ⟨entry, he, decide_eq_true rfl⟩
  simp [mem, precompute, zeroKey, Noise.Null]

/-- The device after the operations, each with what it meets. -/
def configured (e : Endian) (operations : List ((Nat → LineEnv) × Bytes)) : UapiDevice :=
  operations.foldl (fun d op => (ipcSetOperation e op.1 d op.2).1) newUapiDevice

theorem configured_peerMap (e : Endian) (operations : List ((Nat → LineEnv) × Bytes)) :
    PeerMap (configured e operations) := by
  refine List.foldlRecOn operations _ newUapiDevice_peerMap ?_
  intro d hd op _
  exact ipcSetOperation_peerMap hd e op.1 op.2

theorem keyMap_of_private_key_zero {e : Endian} {env : LineEnv} {s s' : SetState}
    {text value : Bytes}
    (hl : text.splitOn 61 = [ascii "private_key", value]) (hz : Atoi value = some 0)
    (ran : s.line e env text = (s', none)) : s'.device.device.keyMap = [] := by
  have key : SettingKey.ofText (ascii "private_key") = some .privateKey :=
    SettingKey.ofText_name .privateKey
  unfold SetState.line at ran
  rw [hl] at ran
  dsimp only at ran
  rw [key] at ran
  unfold SetState.settingLine at ran
  split at ran
  · rename_i hc
    unfold SetState.deviceLine at ran
    dsimp only at ran
    rw [hz] at ran
    dsimp only at ran
    rw [if_pos hc] at ran
    cases ran
    exact SetPrivateKey_zero s.device env
  · cases ran

/-- After any operations a peer of the map is there under its own key, which is not the
device's, and what is routed goes to a peer of the map. A line that takes the device's key away
leaves no peer. -/
theorem configured_peers (e : Endian) (operations : List ((Nat → LineEnv) × Bytes)) :
    let d := configured e operations
    (d.device.keyMap.map Prod.fst).Nodup ∧
    (∀ key peer, (key, peer) ∈ d.device.keyMap →
      (d.device.peers peer).handshake.remoteStatic = key ∧ key ≠ d.device.publicKey) ∧
    (∀ peer, d.allowedips.RoutesTo e peer → ∃ key, (key, peer) ∈ d.device.keyMap) ∧
    ∀ envs texts env s text value s',
      SetState.lines e envs 0 ⟨d, none, false, true⟩ texts = (s, none) →
      text.splitOn 61 = [ascii "private_key", value] → Atoi value = some 0 →
      s.line e env text = (s', none) → s'.device.device.keyMap = [] := by
  have h := configured_peerMap e operations
  refine ⟨h.keys, ?_, ?_, ?_⟩
  · exact fun key peer hm => ⟨h.remoteStatic _ hm, h.others _ hm⟩
  · exact fun peer hr => h.routed peer hr.holds
  · exact fun _ _ _ _ _ _ _ _ hl hz ran => keyMap_of_private_key_zero hl hz ran

/-- Of the trusted app and the system, each time. -/
def officeEnvs : Nat → LineEnv := fun _ =>
  { pubKey := answering fun _ => 9,
    products := fun _ => (answering fun _ => 3, answering fun _ => 3),
    product := answering fun _ => 3, closeBind := true, createBind := some, setMark := true,
    services := fun _ => none }

def officeKeyLine : Bytes :=
  ascii "public_key=" ++ (List.replicate 4 (ascii "0123456789abcdef")).flatten

def officeKey : Bytes :=
  (List.replicate 4 [0x01, 0x23, 0x45, 0x67, 0x89, 0xab, 0xcd, 0xef]).flatten

def unlines (lines : List Bytes) : Bytes := lines.flatMap (· ++ [10])

/-- A device with a key, and one peer with a route. -/
def officeSettings : Bytes :=
  unlines [ascii "private_key=5", ascii "listen_port=51820", ascii "replace_peers=true",
    officeKeyLine, ascii "endpoint=192.0.2.1:51820", ascii "allowed_ip=10.0.0.0/8"]

def officeDevice : UapiDevice := configured .little [(officeEnvs, officeSettings)]

/-- The peer is there under its key and routed to, until the device's key is taken away. -/
theorem configured_peers_office :
    (officeDevice.device.keyMap = [(officeKey, 0)] ∧
      officeDevice.device.publicKey = List.replicate 32 9) ∧
      (∀ peer, officeDevice.allowedips.RoutesTo .little peer →
        ∃ key, (key, peer) ∈ officeDevice.device.keyMap) ∧
      (SetState.line .little (officeEnvs 0) ⟨officeDevice, none, false, true⟩
        (ascii "private_key=0")).1.device.device.keyMap = [] := by
  obtain ⟨-, -, hrouted, hzero⟩ := configured_peers .little [(officeEnvs, officeSettings)]
  refine ⟨by decide +kernel, hrouted, ?_⟩
  exact hzero officeEnvs [] (officeEnvs 0) _ (ascii "private_key=0") [48] _ rfl (by decide +kernel)
    (by decide +kernel) (Prod.ext rfl (by decide +kernel))

end Sewg.Go
