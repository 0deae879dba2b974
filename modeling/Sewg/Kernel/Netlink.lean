import Sewg.Kernel.Noise
import Sewg.Kernel.Receive
import Sewg.Lib.Run

/-! `wg_set_device` of `netlink.c`, with the functions of `peer.c` and `noise.c` that it
changes peers and identity by. Left out are the settings nothing here depends on: the
mark, endpoints, the routing table, keepalives and the cookie keys. -/

namespace Sewg.Kernel
open CString Bridge Noise

def EPFNOSUPPORT : Int := 96
def ENODEV : Int := 19
def ENOMEM : Int := 12

def NOISE_PUBLIC_KEY_LEN : Nat := 32
def NOISE_SYMMETRIC_KEY_LEN : Nat := 32
def MAX_PEERS_PER_DEVICE : Nat := 2 ^ 20

def WGDEVICE_F_REPLACE_PEERS : UInt32 := 1
def WGPEER_F_REMOVE_ME : UInt32 := 1

def AF_INET : Nat := 2
def AF_INET6 : Nat := 10

/-- A device as `wg_set_device` sees it. Peers are numbered as they are created, and
`peerHashtable` has them latest first. -/
structure WgDevice where
  staticIdentity : StaticIdentity
  handshake : Nat → Handshake
  peerList : List Nat
  peerHashtable : List Nat
  numPeers : Nat
  created : Nat
  /-- The buffers of the bridge. -/
  globals : Globals
  /-- The answer for the private key that was set last. The code does not keep it. -/
  keyAnswer : Option Transport

namespace WgDevice

def setHandshake (wg : WgDevice) (peer : Nat) (h : Handshake) : WgDevice :=
  { wg with handshake := Function.update wg.handshake peer h }

@[simp] theorem handshake_setHandshake_self (wg : WgDevice) (peer : Nat) (h : Handshake) :
    (wg.setHandshake peer h).handshake peer = h :=
  Function.update_self ..

theorem handshake_setHandshake_of_ne (wg : WgDevice) {peer other : Nat} (h : Handshake)
    (hne : other ≠ peer) : (wg.setHandshake peer h).handshake other = wg.handshake other :=
  Function.update_of_ne hne ..

def remoteStatic (wg : WgDevice) (peer : Nat) : Bytes := (wg.handshake peer).remoteStatic

/-- `wg_pubkey_hashtable_lookup`. -/
def lookup (wg : WgDevice) (pubkey : Bytes) : Option Nat :=
  wg.peerHashtable.find? fun peer => wg.remoteStatic peer = pubkey

end WgDevice

/-- As `wg_newlink` leaves it. -/
def freshDevice (globals : Globals) : WgDevice where
  staticIdentity := ⟨false, List.replicate NOISE_PUBLIC_KEY_LEN 0, 0⟩
  handshake _ := ⟨.zeroed, 0, [], [], [], [], [], [], [], [], 0, 0⟩
  peerList := []
  peerHashtable := []
  numPeers := 0
  created := 0
  globals
  keyAnswer := none

/-! ### `peer.c` and `noise.c` -/

/-- The `int` of `Core_CurveMul` becomes the `bool` that is returned. -/
def wgNoisePrecomputeStaticStatic (wg : WgDevice) (peer : Nat) (t : Transport) : Bool × WgDevice :=
  let h := wg.handshake peer
  if wg.staticIdentity.hasIdentity then
    let ((ret, value), globals) := coreCurveMul wg.globals h.precomputedStaticStatic h.remoteStatic
      wg.staticIdentity.staticPrivate.toInt32 t
    (ret ≠ 0,
      { wg.setHandshake peer { h with precomputedStaticStatic := value, precomputedRet := ret }
      with globals })
  else
    (true, wg.setHandshake peer
      { h with precomputedStaticStatic := List.replicate NOISE_PUBLIC_KEY_LEN 0 })

def wgNoiseHandshakeInit (wg : WgDevice) (peer : Nat) (peerPublicKey : Bytes)
    (peerPresharedKey : Option Bytes) (t : Transport) : Bool × WgDevice :=
  let zeros := List.replicate NOISE_PUBLIC_KEY_LEN 0
  wgNoisePrecomputeStaticStatic (wg.setHandshake peer
    { state := .zeroed, lastInitiationConsumption := 0, ephemeralPrivate := zeros,
      remoteStatic := peerPublicKey,
      remoteEphemeral := zeros, precomputedStaticStatic := zeros,
      presharedKey := peerPresharedKey.getD (List.replicate NOISE_SYMMETRIC_KEY_LEN 0),
      hash := zeros,
      chainingKey := zeros, latestTimestamp := List.replicate 12 0, remoteIndex := 0,
      precomputedRet := 0 }) peer t

/-- What the system and the trusted app answer while one peer is set. -/
structure PeerEnv where
  kzalloc : Bool
  curveMul : Transport
  dstCacheInit : Bool
  txQueueInit : Bool
  rxQueueInit : Bool
  /-- Whether the address number `n` can be inserted. -/
  insert : Nat → Bool

/-- The peer, if it was created. -/
def wgPeerCreate (wg : WgDevice) (publicKey : Bytes) (presharedKey : Option Bytes) (env : PeerEnv) :
    Option Nat × WgDevice :=
  if wg.numPeers ≥ MAX_PEERS_PER_DEVICE then (none, wg)
  else if ¬env.kzalloc then (none, wg)
  else
    let peer := wg.created
    let (initialised, wg) := wgNoiseHandshakeInit wg peer publicKey presharedKey env.curveMul
    if ¬initialised then (none, wg)
    else if ¬env.dstCacheInit then (none, wg)
    else if ¬env.txQueueInit then (none, wg)
    else if ¬env.rxQueueInit then (none, wg)
    else
      (some peer, { wg with
        peerList := wg.peerList ++ [peer]
        peerHashtable := peer :: wg.peerHashtable
        numPeers := wg.numPeers + 1
        created := wg.created + 1 })

def wgPeerRemove (wg : WgDevice) (peer : Nat) : WgDevice :=
  { wg with
    peerList := wg.peerList.filter (· ≠ peer)
    peerHashtable := wg.peerHashtable.filter (· ≠ peer)
    numPeers := wg.numPeers - 1 }

def wgPeerRemoveAll (wg : WgDevice) : WgDevice := wg.peerList.foldl wgPeerRemove wg

/-- The `int` of `Core_GetPublickeyByID` becomes the `bool` that is stored. -/
def wgNoiseSetStaticIdentityPrivateKey (wg : WgDevice) (privateKey : UInt32)
    (t : Transport) : WgDevice :=
  let ((ret, staticPublic), globals) :=
    coreGetPublickeyByID wg.globals wg.staticIdentity.staticPublic privateKey.toInt32 t
  { wg with staticIdentity := ⟨ret ≠ 0, staticPublic, privateKey⟩, globals, keyAnswer := some t }

/-! ### `netlink.c` -/

structure AllowedIpAttrs where
  family : Option Nat
  ipaddr : Option Bytes
  cidrMask : Option Nat

/-- A nested attribute is `none` if it cannot be parsed. -/
structure PeerAttrs where
  publicKey : Option Bytes
  presharedKey : Option Bytes := none
  flags : Option UInt32 := none
  protocolVersion : Option UInt32 := none
  allowedips : List (Option AllowedIpAttrs) := []

structure DeviceAttrs where
  listenPort : Option UInt16 := none
  flags : Option UInt32 := none
  privateKey : Option Bytes := none
  peers : List (Option PeerAttrs) := []

/-- What the system and the trusted app answer while a request is handled. -/
structure SetEnv where
  /-- What `set_port` returns. -/
  setPort : Int
  /-- Where the bytes of the private key lie in the request. -/
  privateKeyAddress : UInt64
  getPublickey : Transport
  /-- The answers for the peers that are there when the private key is set. -/
  curveMul : Nat → Transport
  peers : Nat → PeerEnv

def setAllowedip (attrs : AllowedIpAttrs) (insert : Bool) : Int :=
  match attrs.family, attrs.ipaddr, attrs.cidrMask with
  | some family, some ipaddr, some cidr =>
    if (family = AF_INET ∧ cidr ≤ 32 ∧ ipaddr.length = 4) ∨
        (family = AF_INET6 ∧ cidr ≤ 128 ∧ ipaddr.length = 16) then
      if insert then 0 else -ENOMEM
    else -EINVAL
  | _, _, _ => -EINVAL

/-- The loop over the addresses, from number `n` on. -/
def setAllowedips (insert : Nat → Bool) : Nat → List (Option AllowedIpAttrs) → Int
  | _, [] => 0
  | _, none :: _ => -EINVAL
  | n, some attrs :: rest =>
    let ret := setAllowedip attrs (insert n)
    if ret < 0 then ret else setAllowedips insert (n + 1) rest

/-- An attribute of the right length. -/
def ofLength (n : Nat) (attr : Option Bytes) : Option Bytes := attr.filter (·.length = n)

def PeerAttrs.removeMe (attrs : PeerAttrs) : Bool := attrs.flags.getD 0 &&& WGPEER_F_REMOVE_ME ≠ 0

/-- The end of `set_peer`: the peer is removed or changed. -/
def changePeer (wg : WgDevice) (attrs : PeerAttrs) (peer : Nat) (env : PeerEnv) : Int × WgDevice :=
  if attrs.removeMe then (0, wgPeerRemove wg peer)
  else
    let h := wg.handshake peer
    let wg := match ofLength NOISE_SYMMETRIC_KEY_LEN attrs.presharedKey with
      | none => wg
      | some presharedKey => wg.setHandshake peer { h with presharedKey }
    (setAllowedips env.insert 0 attrs.allowedips, wg)

def setPeer (wg : WgDevice) (attrs : PeerAttrs) (env : PeerEnv) : Int × WgDevice :=
  match ofLength NOISE_PUBLIC_KEY_LEN attrs.publicKey with
  | none => (-EINVAL, wg)
  | some publicKey =>
    if attrs.protocolVersion.getD 1 ≠ 1 then (-EPFNOSUPPORT, wg)
    else match wg.lookup publicKey with
    | some peer => changePeer wg attrs peer env
    | none =>
      if attrs.removeMe then (-ENODEV, wg)
      -- A peer with the device's own key is ignored.
      else if wg.staticIdentity.hasIdentity ∧ publicKey = wg.staticIdentity.staticPublic
        then (0, wg)
      else match wgPeerCreate wg publicKey (ofLength NOISE_SYMMETRIC_KEY_LEN attrs.presharedKey)
        env with
        | (none, wg) => (-ENOMEM, wg)
        | (some peer, wg) => changePeer wg attrs peer env

/-- The loop over the peers, from number `n` on. -/
def setPeers (env : Nat → PeerEnv) : Nat → WgDevice → List (Option PeerAttrs) → Int × WgDevice
  | _, wg, [] => (0, wg)
  | _, wg, none :: _ => (-EINVAL, wg)
  | n, wg, some attrs :: rest =>
    let (ret, wg) := setPeer wg attrs (env n)
    if ret < 0 then (ret, wg) else setPeers env (n + 1) wg rest

section
variable (p : Primitives)

/-- The peer with the public key of these bytes goes. -/
def removeOwn (wg : WgDevice) (privateKey : Bytes) : WgDevice :=
  match (curve25519GeneratePublic p privateKey).bind wg.lookup with
  | none => wg
  | some peer => wgPeerRemove wg peer

/-- One peer of the walk over all peers. -/
def precomputeOrRemove (curveMul : Nat → Transport) (wg : WgDevice) (peer : Nat) : WgDevice :=
  let (kept, wg) := wgNoisePrecomputeStaticStatic wg peer (curveMul peer)
  if kept then wg else wgPeerRemove wg peer

/-- The part of `wg_set_device` for a private key. `wg_noise_set_static_identity_private_key`
takes an id and is given the pointer to the bytes. -/
def setDeviceKey (wg : WgDevice) (privateKey : Bytes) (env : SetEnv) : WgDevice :=
  let wg := removeOwn p wg privateKey
  let wg := wgNoiseSetStaticIdentityPrivateKey wg env.privateKeyAddress.toUInt32 env.getPublickey
  wg.peerList.foldl (precomputeOrRemove env.curveMul) wg

def wgSetDevice (wg : WgDevice) (attrs : DeviceAttrs) (env : SetEnv) : Int × WgDevice :=
  if attrs.listenPort.isSome ∧ env.setPort ≠ 0 then (env.setPort, wg)
  else
    let wg := if attrs.flags.getD 0 &&& WGDEVICE_F_REPLACE_PEERS ≠ 0 then wgPeerRemoveAll wg else wg
    let wg := match ofLength NOISE_PUBLIC_KEY_LEN attrs.privateKey with
      | none => wg
      | some privateKey => setDeviceKey p wg privateKey env
    setPeers env.peers 0 wg attrs.peers

end

/-! ### What the functions keep -/

/-- The keys of the peers in the hashtable. -/
def WgDevice.HasKeys (P : Bytes → Prop) (wg : WgDevice) : Prop :=
  ∀ peer ∈ wg.peerHashtable, P (wg.remoteStatic peer) ∧ peer < wg.created

/-- The identity stays, and so do the keys of the peers, but for new ones with `P`. -/
structure PeersChange (P : Bytes → Prop) (wg wg' : WgDevice) : Prop where
  identity : wg'.staticIdentity = wg.staticIdentity
  answer : wg'.keyAnswer = wg.keyAnswer
  keys : wg.HasKeys P → wg'.HasKeys P

section
variable {P : Bytes → Prop} {wg wg₁ wg₂ : WgDevice}

theorem precompute_eq (wg : WgDevice) (peer : Nat) (t : Transport) :
    ∃ h globals, (wgNoisePrecomputeStaticStatic wg peer t).2 =
      { wg.setHandshake peer h with globals } ∧ h.remoteStatic = wg.remoteStatic peer := by
  unfold wgNoisePrecomputeStaticStatic
  dsimp only
  split
  · exact ⟨_, _, rfl, rfl⟩
  · exact ⟨_, wg.globals, rfl, rfl⟩

theorem PeersChange.refl (wg : WgDevice) : PeersChange P wg wg := ⟨rfl, rfl, id⟩

theorem PeersChange.trans (h : PeersChange P wg wg₁) (h' : PeersChange P wg₁ wg₂) :
    PeersChange P wg wg₂ :=
  ⟨h'.identity.trans h.identity, h'.answer.trans h.answer, h'.keys ∘ h.keys⟩

theorem PeersChange.withGlobals (h : PeersChange P wg wg₁) (globals : Globals) :
    PeersChange P wg { wg₁ with globals } :=
  ⟨h.identity, h.answer, h.keys⟩

theorem PeersChange.foldl {f : WgDevice → Nat → WgDevice}
    (hf : ∀ wg peer, PeersChange P wg (f wg peer))
    (wg : WgDevice) (peers : List Nat) : PeersChange P wg (peers.foldl f wg) := by
  induction peers generalizing wg with
  | nil => exact .refl wg
  | cons peer peers ih => exact (hf wg peer).trans (ih (f wg peer))

theorem setHandshake_change {peer : Nat} {h : Handshake}
    (hkey : h.remoteStatic = wg.remoteStatic peer) : PeersChange P wg (wg.setHandshake peer h) := by
  refine ⟨rfl, rfl, ?_⟩
  intro keys other hother
  have hsame : (wg.setHandshake peer h).remoteStatic other = wg.remoteStatic other := by
    unfold WgDevice.remoteStatic
    by_cases ho : other = peer
    · rw [ho, WgDevice.handshake_setHandshake_self]
      exact hkey
    · rw [WgDevice.handshake_setHandshake_of_ne wg h ho]
  rw [hsame]
  exact keys other hother

theorem precompute_change (wg : WgDevice) (peer : Nat) (t : Transport) :
    PeersChange P wg (wgNoisePrecomputeStaticStatic wg peer t).2 := by
  obtain ⟨h, globals, heq, hkey⟩ := precompute_eq wg peer t
  rw [heq]
  exact (setHandshake_change hkey).withGlobals globals

theorem wgPeerRemove_change (wg : WgDevice) (peer : Nat) :
    PeersChange P wg (wgPeerRemove wg peer) :=
  ⟨rfl, rfl, fun keys other hother => keys other (List.mem_of_mem_filter hother)⟩

theorem wgPeerRemoveAll_change (wg : WgDevice) : PeersChange P wg (wgPeerRemoveAll wg) :=
  .foldl wgPeerRemove_change wg wg.peerList

theorem precomputeOrRemove_change (curveMul : Nat → Transport) (wg : WgDevice) (peer : Nat) :
    PeersChange P wg (precomputeOrRemove curveMul wg peer) := by
  unfold precomputeOrRemove
  have h := precompute_change (P := P) wg peer (curveMul peer)
  dsimp only
  split
  · exact h
  · exact h.trans (wgPeerRemove_change _ peer)

theorem handshakeInit_change (wg : WgDevice) (publicKey : Bytes) (presharedKey : Option Bytes)
    (t : Transport) :
    PeersChange P wg (wgNoiseHandshakeInit wg wg.created publicKey presharedKey t).2 := by
  refine PeersChange.trans ?_ (precompute_change _ _ t)
  refine ⟨rfl, rfl, ?_⟩
  intro keys other hother
  obtain ⟨hkey, hlt⟩ := keys other hother
  refine ⟨?_, hlt⟩
  unfold WgDevice.remoteStatic
  rw [WgDevice.handshake_setHandshake_of_ne wg _ (Nat.ne_of_lt hlt)]
  exact hkey

theorem precompute_remoteStatic (wg : WgDevice) (peer : Nat) (t : Transport) :
    (wgNoisePrecomputeStaticStatic wg peer t).2.remoteStatic peer = wg.remoteStatic peer := by
  obtain ⟨h, globals, heq, hkey⟩ := precompute_eq wg peer t
  rw [heq, ← hkey]
  exact congrArg Handshake.remoteStatic (WgDevice.handshake_setHandshake_self wg peer h)

theorem precompute_created (wg : WgDevice) (peer : Nat) (t : Transport) :
    (wgNoisePrecomputeStaticStatic wg peer t).2.created = wg.created := by
  obtain ⟨h, globals, heq, -⟩ := precompute_eq wg peer t
  rw [heq]
  rfl

theorem handshakeInit_remoteStatic (wg : WgDevice) (peer : Nat) (publicKey : Bytes)
    (presharedKey : Option Bytes)
    (t : Transport) : (wgNoiseHandshakeInit wg peer publicKey presharedKey t).2.remoteStatic peer =
    publicKey := by
  unfold wgNoiseHandshakeInit
  rw [precompute_remoteStatic]
  exact congrArg Handshake.remoteStatic (WgDevice.handshake_setHandshake_self ..)

theorem wgPeerCreate_change {publicKey : Bytes} (hP : P publicKey) (wg : WgDevice)
    (presharedKey : Option Bytes)
    (env : PeerEnv) : PeersChange P wg (wgPeerCreate wg publicKey presharedKey env).2 := by
  have hinit := handshakeInit_change (P := P) wg publicKey presharedKey env.curveMul
  have hkey := handshakeInit_remoteStatic wg wg.created publicKey presharedKey env.curveMul
  have hcreated :
      (wgNoiseHandshakeInit wg wg.created publicKey presharedKey env.curveMul).2.created =
    wg.created := precompute_created ..
  unfold wgPeerCreate
  split
  · exact .refl wg
  split
  · exact .refl wg
  dsimp only
  generalize wgNoiseHandshakeInit wg wg.created publicKey presharedKey env.curveMul =
    made at hinit hkey hcreated ⊢
  split
  · exact hinit
  split
  · exact hinit
  split
  · exact hinit
  split
  · exact hinit
  refine ⟨hinit.identity, hinit.answer, ?_⟩
  intro keys peer hpeer
  rcases List.mem_cons.mp hpeer with rfl | hpeer
  · exact ⟨(congrArg P hkey).mpr hP, by rw [hcreated]; exact Nat.lt_succ_self _⟩
  · obtain ⟨hold, hlt⟩ := hinit.keys keys peer hpeer
    exact ⟨hold, Nat.lt_succ_of_lt hlt⟩

theorem changePeer_change (wg : WgDevice) (attrs : PeerAttrs) (peer : Nat) (env : PeerEnv) :
    PeersChange P wg (changePeer wg attrs peer env).2 := by
  unfold changePeer
  split
  · exact wgPeerRemove_change wg peer
  · dsimp only
    split
    · exact .refl wg
    · exact setHandshake_change rfl

/-- A peer that the attributes may create has `P`. -/
def PeerAttrs.Creates (P : Bytes → Prop) (attrs : PeerAttrs) : Prop :=
  ∀ key, ofLength NOISE_PUBLIC_KEY_LEN attrs.publicKey = some key → attrs.removeMe = false → P key

theorem setPeer_change {attrs : PeerAttrs} (hP : attrs.Creates P) (wg : WgDevice) (env : PeerEnv) :
    PeersChange P wg (setPeer wg attrs env).2 := by
  unfold setPeer
  split
  · exact .refl wg
  rename_i publicKey hkey
  split
  · exact .refl wg
  split
  · exact changePeer_change wg attrs _ env
  split
  · exact .refl wg
  rename_i hkeep
  split
  · exact .refl wg
  have hcreate := wgPeerCreate_change (hP publicKey hkey (by simpa using hkeep)) wg
    (ofLength NOISE_SYMMETRIC_KEY_LEN attrs.presharedKey) env
  generalize wgPeerCreate wg publicKey (ofLength NOISE_SYMMETRIC_KEY_LEN attrs.presharedKey) env =
    made at hcreate ⊢
  obtain ⟨_ | peer, wg'⟩ := made
  · exact hcreate
  · exact hcreate.trans (changePeer_change wg' attrs peer env)

theorem setPeers_change (env : Nat → PeerEnv) (n : Nat) (wg : WgDevice)
    {entries : List (Option PeerAttrs)} (hP : ∀ attrs, some attrs ∈ entries → attrs.Creates P) :
    PeersChange P wg (setPeers env n wg entries).2 := by
  induction entries generalizing n wg with
  | nil => exact .refl wg
  | cons entry entries ih =>
    cases entry with
    | none => exact .refl wg
    | some attrs =>
      have hfirst := setPeer_change (hP attrs List.mem_cons_self) wg (env n)
      rw [setPeers]
      generalize setPeer wg attrs (env n) = result at hfirst ⊢
      dsimp only
      split
      · exact hfirst
      · exact hfirst.trans (ih (n + 1) result.2 fun attrs h => hP attrs (List.mem_cons_of_mem _ h))

end

end Sewg.Kernel
