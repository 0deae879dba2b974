import Sewg.Go.Device
import Sewg.Lib.Run

/-! The identity of the device and the static secrets of its peers:
`SetPrivateKey`, `NewPeer`, and the two settings of `ipcSetOperation` that lead
to them. -/

namespace Sewg.Go
open CString Bridge Noise

def MaxPeers : Nat := 2 ^ 16

/-- One peer in the second loop of `SetPrivateKey`, with the calls it takes: the
product is computed twice and the second result stays. -/
def precompute (sk : RootPrivateKey) (calls : TeeCall × TeeCall) (h : Handshake) :
    Handshake × List Asked :=
  if sk = 0 then ({ h with precomputedStaticStatic := zeroKey }, [])
  else
    let (ss, asked) := rootSharedSecret sk h.remoteStatic calls.1
    let h := { h with precomputedStaticStatic := ss }
    let (ss, asked') := rootSharedSecret sk h.remoteStatic calls.2
    ({ h with precomputedStaticStatic := ss }, [asked', asked])

/-- The map after the first loop of `SetPrivateKey`. -/
def otherPeers (device : Device) (publicKey : Bytes) : List (Bytes × Nat) :=
  device.keyMap.filter fun (_, i) => (device.peers i).handshake.remoteStatic ≠ publicKey

/-- Go visits a map in any order, so the calls for a peer go by the peer. -/
def setPrivateKey (device : Device) (sk : RootPrivateKey) (pubCall : TeeCall)
    (calls : Nat → TeeCall × TeeCall) : Device :=
  let (publicKey, asked) := rootPublicKey sk pubCall
  let keyMap := otherPeers device publicKey
  let computed := fun i => precompute sk (calls i) (device.peers i).handshake
  let peers := fun i =>
    if keyMap.any (·.2 = i) then { device.peers i with handshake := (computed i).1 }
    else device.peers i
  { device with
    privateKey := sk
    publicKey
    peers
    keyMap := keyMap.filter fun (_, i) => ¬Null (peers i).handshake.precomputedStaticStatic
    asked := keyMap.flatMap (fun (_, i) => (computed i).2) ++ asked :: device.asked }

def newPeer (device : Device) (pk : Bytes) (call : TeeCall) : Except String Device :=
  if device.isClosed then .error "device closed"
  else if device.keyMap.length ≥ MaxPeers then .error "too many peers"
  else if (device.keyMap.lookup pk).isSome then .error "adding existing peer"
  else
    let (ss, asked) := rootSharedSecret device.privateKey pk call
    let peer : Peer := { handshake := { newHandshake pk with precomputedStaticStatic := ss } }
    .ok { device with
      peers := Function.update device.peers device.nextPeer peer
      nextPeer := device.nextPeer + 1
      keyMap := (pk, device.nextPeer) :: device.keyMap
      asked := asked :: device.asked }

inductive Setting
  | privateKey (sk : RootPrivateKey) (pubCall : TeeCall) (calls : Nat → TeeCall × TeeCall)
  | publicKey (pk : Bytes) (call : TeeCall)

/-- One line of `ipcSetOperation`. A peer with the device's own key is a dummy. -/
def applySetting (device : Device) : Setting → Device
  | .privateKey sk pubCall calls => setPrivateKey device sk pubCall calls
  | .publicKey pk call =>
    if device.publicKey = pk then device
    else if (device.keyMap.lookup pk).isSome then device
    else match newPeer device pk call with
    | .ok device => device
    | .error _ => device

/-! ## Where the secrets come from -/

/-- The static secret is zero, or was given for the peer's key under the current id. -/
def SecretFromTee (device : Device) (h : Handshake) : Prop :=
  Null h.precomputedStaticStatic ∨
    ∃ a ∈ device.asked, a.id = device.privateKey.toInt32 ∧ a.point = some h.remoteStatic ∧
      a.Gave h.precomputedStaticStatic

/-- Every peer's static secret is `SecretFromTee`, and the public key was given
for the current id as soon as one was asked for. The last part says that
`keyMap` refers to peers that exist. -/
structure FromTee (device : Device) : Prop where
  secrets : ∀ entry ∈ device.keyMap, SecretFromTee device (device.peers entry.2).handshake
  identity : (∃ a ∈ device.asked, a.point = none) →
    ∃ a ∈ device.asked, a.id = device.privateKey.toInt32 ∧ a.point = none ∧
      a.Gave device.publicKey
  allocated : ∀ entry ∈ device.keyMap, entry.2 < device.nextPeer

/-- The call works, or leaves zeros behind. -/
def Harmless (call : TeeCall) : Prop :=
  call.transport.Ok ∨ Null (call.fresh.read CUR25519_PUB_KEY_LENGTH)

/-- What a setting may meet: the public key is answered, and so is the last
call for each secret that is stored, unless it leaves zeros. -/
def Answered (device : Device) : Setting → Prop
  | .privateKey sk pubCall calls =>
    pubCall.transport.Ok ∧ (sk ≠ 0 → ∀ entry ∈ device.keyMap,
      (device.peers entry.2).handshake.remoteStatic ≠
          pubCall.transport.mrsp.data.read CUR25519_PUB_KEY_LENGTH →
        Harmless (calls entry.2).2)
  | .publicKey pk call =>
    device.publicKey ≠ pk → device.keyMap.lookup pk = none → device.isClosed = false →
      device.keyMap.length < MaxPeers → Harmless call

variable {call : TeeCall} {device : Device}

theorem teeCurveMul_harmless (h : Harmless call) (id : Int32) (point : Option Bytes) :
    Null (teeCurveMul call) ∨ (⟨id, point, call.transport⟩ : Asked).Gave (teeCurveMul call) := by
  rcases teeCurveMul_cases call with ⟨ok, given⟩ | ⟨nok, kept⟩
  · exact .inr ⟨ok, given⟩
  · rcases h with ok | null
    · exact absurd ok nok
    · exact .inl (kept ▸ null)

theorem precompute_given {sk : RootPrivateKey} (calls : TeeCall × TeeCall) (h : Handshake)
    (harmless : sk ≠ 0 → Harmless calls.2) :
    (precompute sk calls h).1.remoteStatic = h.remoteStatic ∧
    (Null (precompute sk calls h).1.precomputedStaticStatic ∨
      ∃ a ∈ (precompute sk calls h).2, a.id = sk.toInt32 ∧ a.point = some h.remoteStatic ∧
        a.Gave (precompute sk calls h).1.precomputedStaticStatic) := by
  unfold precompute
  split
  · refine ⟨rfl, .inl ?_⟩
    intro x hx
    exact List.eq_of_mem_replicate hx
  · rename_i hsk
    refine ⟨rfl, ?_⟩
    rcases teeCurveMul_harmless (harmless hsk) sk.toInt32 (some h.remoteStatic) with null | gave
    · exact .inl null
    · exact .inr ⟨_, List.mem_cons_self, rfl, rfl, gave⟩

theorem setPrivateKey_fromTee (hd : FromTee device) {sk : RootPrivateKey} {pubCall : TeeCall}
    {calls : Nat → TeeCall × TeeCall} (h : Answered device (.privateKey sk pubCall calls)) :
    FromTee (setPrivateKey device sk pubCall calls) := by
  obtain ⟨ok, harmless⟩ := h
  have pub := teeGetPubKeyByID_ok ok
  have kept : ∀ entry ∈ (setPrivateKey device sk pubCall calls).keyMap,
      entry ∈ otherPeers device (teeGetPubKeyByID pubCall) := by
    intro entry he
    exact (List.mem_filter.mp he).1
  constructor
  · intro entry he
    have hk := kept entry he
    obtain ⟨hm, hne⟩ := List.mem_filter.mp hk
    have apart := of_decide_eq_true hne
    obtain ⟨same, given⟩ := precompute_given (calls entry.2)
      (device.peers entry.2).handshake fun hsk => harmless hsk entry hm (pub ▸ apart)
    have peer : ((setPrivateKey device sk pubCall calls).peers entry.2).handshake =
        (precompute sk (calls entry.2) (device.peers entry.2).handshake).1 := by
      have mem : (otherPeers device (teeGetPubKeyByID pubCall)).any (·.2 = entry.2) = true :=
        List.any_eq_true.mpr ⟨entry, hk, decide_eq_true rfl⟩
      exact congrArg Peer.handshake (if_pos mem)
    unfold SecretFromTee
    rw [peer]
    refine given.imp_right ?_
    rintro ⟨a, ha, hid, hpoint, gave⟩
    refine ⟨a, ?_, hid, same ▸ hpoint, gave⟩
    exact List.mem_append_left _ (List.mem_flatMap.mpr ⟨entry, hk, ha⟩)
  · intro _
    exact ⟨⟨sk.toInt32, none, pubCall.transport⟩,
      List.mem_append_right _ List.mem_cons_self, rfl, rfl, ok, pub⟩
  · intro entry he
    exact hd.allocated entry (List.mem_filter.mp (kept entry he)).1

/-- The failures of `NewPeer` come before the call. -/
theorem newPeer_ok {device' : Device} {pk : Bytes} (h : newPeer device pk call = .ok device') :
    device.isClosed = false ∧ device.keyMap.length < MaxPeers ∧
    device' = { device with
      peers := Function.update device.peers device.nextPeer
        { handshake := { newHandshake pk with precomputedStaticStatic := teeCurveMul call } }
      nextPeer := device.nextPeer + 1
      keyMap := (pk, device.nextPeer) :: device.keyMap
      asked := ⟨device.privateKey.toInt32, some pk, call.transport⟩ :: device.asked } := by
  unfold newPeer at h
  split at h
  · cases h
  rename_i closed
  split at h
  · cases h
  rename_i full
  split at h
  · cases h
  cases h
  exact ⟨by simpa using closed, by omega, rfl⟩

theorem newPeer_fromTee {device' : Device} {pk : Bytes} (hd : FromTee device) (h : Harmless call)
    (hn : newPeer device pk call = .ok device') :
    FromTee device' := by
  obtain ⟨-, -, rfl⟩ := newPeer_ok hn
  constructor
  · intro entry he
    unfold SecretFromTee
    rcases List.mem_cons.mp he with rfl | he
    · simp only [Function.update_self]
      refine (teeCurveMul_harmless h device.privateKey.toInt32 (some pk)).imp_right fun gave => ?_
      exact ⟨_, List.mem_cons_self, rfl, rfl, gave⟩
    · -- an older peer is another object
      have older : entry.2 ≠ device.nextPeer := Nat.ne_of_lt (hd.allocated entry he)
      simp only [Function.update_of_ne older]
      refine (hd.secrets entry he).imp_right ?_
      rintro ⟨a, ha, given⟩
      exact ⟨a, List.mem_cons_of_mem _ ha, given⟩
  · rintro ⟨a, ha, hp⟩
    rcases List.mem_cons.mp ha with rfl | ha
    · cases hp
    · obtain ⟨b, hb, given⟩ := hd.identity ⟨a, ha, hp⟩
      exact ⟨b, List.mem_cons_of_mem _ hb, given⟩
  · intro entry he
    rcases List.mem_cons.mp he with rfl | he
    · exact Nat.lt_succ_self _
    · exact Nat.lt_succ_of_lt (hd.allocated entry he)

theorem applySetting_fromTee {s : Setting} (hd : FromTee device) (h : Answered device s) :
    FromTee (applySetting device s) := by
  cases s with
  | privateKey sk pubCall calls => exact setPrivateKey_fromTee hd h
  | publicKey pk call =>
    simp only [applySetting]
    split
    · exact hd
    rename_i own
    split
    · exact hd
    rename_i known
    cases hn : newPeer device pk call with
    | error _ => exact hd
    | ok device' =>
      obtain ⟨opened, room, -⟩ := newPeer_ok hn
      exact newPeer_fromTee hd (h own (Option.not_isSome_iff_eq_none.mp known) opened room) hn

/-- A device that is given settings one after the other. -/
def settingStep (device : Device) (s : Setting) : Option Device := some (applySetting device s)

/-- As long as every setting is `Answered`, nothing in the device comes from
anywhere but the trusted app. -/
theorem identity_from_tee (settings : List Setting) (device : Device)
    (answered : Run.Meets settingStep Answered newDevice settings)
    (run : Run.exec settingStep newDevice settings = some device) : FromTee device := by
  refine Run.exec_guarded Answered ?_ ⟨?_, ?_, ?_⟩ answered run
  · intro d s d' hd hs hst
    cases hst
    exact applySetting_fromTee hd hs
  · intro entry he
    cases he
  · rintro ⟨a, ha, -⟩
    cases ha
  · intro entry he
    cases he

/-- A call that fails and leaves its fresh memory, here all ones. -/
def failing : TeeCall := ⟨fun _ => 1, ⟨0, 0xffffffff, fun _ => 0⟩⟩

theorem identity_from_tee_answered :
    ∃ device, Run.exec settingStep newDevice
        [.privateKey 5 (answering fun _ => 2) (fun _ => (failing, failing)),
          .publicKey [3] (answering fun _ => 4)] = some device ∧
      device.keyMap = [([3], 0)] ∧
      (device.peers 0).handshake.precomputedStaticStatic = List.replicate 32 4 ∧
      FromTee device := by
  refine ⟨_, rfl, by decide, by decide, ?_⟩
  refine identity_from_tee
    [.privateKey 5 (answering fun _ => 2) (fun _ => (failing, failing)),
      .publicKey [3] (answering fun _ => 4)] _ ?_ rfl
  refine ⟨⟨⟨rfl, rfl⟩, fun _ entry he => by cases he⟩, fun d _ => ?_⟩
  exact ⟨fun _ _ _ _ => .inl ⟨rfl, rfl⟩, fun _ _ => trivial⟩

/-- The wrong PIN for a new peer: the secret is whatever `malloc` returned. -/
theorem secret_from_malloc :
    ∃ device, Run.exec settingStep newDevice
        [.privateKey 5 (answering fun _ => 2) (fun _ => (failing, failing)),
          .publicKey [3] failing] = some device ∧
      device.keyMap = [([3], 0)] ∧
      (device.peers 0).handshake.precomputedStaticStatic = List.replicate 32 1 ∧
      ¬FromTee device := by
  refine ⟨_, rfl, by decide, by decide, ?_⟩
  intro h
  rcases h.secrets ([3], 0) (by decide) with null | ⟨a, ha, -, hp, ok, -⟩
  · exact absurd null (by decide)
  · rcases List.mem_cons.mp ha with rfl | ha
    · exact absurd ok.2 (by decide)
    · rcases List.mem_cons.mp ha with rfl | ha
      · cases hp
      · cases ha

end Sewg.Go
