import Sewg.Kernel.Netlink

/-! What `wg_set_device` makes of the answers of the trusted app. Both `Core_GetPublickeyByID`
and `Core_CurveMul` return 0 for success, and both results are used as truth values. -/

namespace Sewg.Kernel
open CString Bridge Noise

abbrev Request := DeviceAttrs × SetEnv

/-- The request gets as far as its private key. -/
def SetsKey (r : Request) : Prop :=
  (r.1.listenPort.isSome → r.2.setPort = 0) ∧ (ofLength NOISE_PUBLIC_KEY_LEN r.1.privateKey).isSome

instance (r : Request) : Decidable (SetsKey r) := inferInstanceAs (Decidable (_ ∧ _))

/-- The identity is the answer for the last private key, and no peer has its key. -/
structure WgDevice.Consistent (wg : WgDevice) : Prop where
  identity : wg.staticIdentity.hasIdentity = true ↔ ∃ t, wg.keyAnswer = some t ∧ t.Ok
  answer : ∀ t, wg.keyAnswer = some t → t.Ok →
    wg.staticIdentity.staticPublic = t.mrsp.data.read CUR25519_PUB_KEY_LENGTH
  peers : ∀ peer ∈ wg.peerHashtable, wg.remoteStatic peer ≠ wg.staticIdentity.staticPublic

section
variable (p : Primitives)

def setDevices (wg : WgDevice) (requests : List Request) : WgDevice :=
  requests.foldl (fun wg r => (wgSetDevice p wg r.1 r.2).2) wg

variable {p} {P : Bytes → Prop}

/-- A request that sets no key only changes peers. -/
theorem wgSetDevice_keyless {r : Request} (hkey : ¬SetsKey r)
    (hP : ∀ attrs, some attrs ∈ r.1.peers → attrs.Creates P) (wg : WgDevice) :
    PeersChange P wg (wgSetDevice p wg r.1 r.2).2 := by
  unfold wgSetDevice
  by_cases hport : r.1.listenPort.isSome ∧ r.2.setPort ≠ 0
  · rw [if_pos hport]
    exact .refl wg
  · rw [if_neg hport]
    have hnone : ofLength NOISE_PUBLIC_KEY_LEN r.1.privateKey = none := by
      rw [← Option.not_isSome_iff_eq_none]
      intro hsome
      exact hkey ⟨fun hlisten => not_not.mp fun hset => hport ⟨hlisten, hset⟩, hsome⟩
    rw [hnone]
    dsimp only
    refine PeersChange.trans ?_ (setPeers_change r.2.peers 0 _ hP)
    split
    · exact wgPeerRemoveAll_change wg
    · exact .refl wg

theorem setDeviceKey_identity (wg : WgDevice) (privateKey : Bytes) (env : SetEnv) :
    (setDeviceKey p wg privateKey env).keyAnswer = some env.getPublickey ∧
      ((setDeviceKey p wg privateKey env).staticIdentity.hasIdentity = true ↔
        ¬env.getPublickey.Ok) := by
  unfold setDeviceKey
  dsimp only
  have hwalk := PeersChange.foldl (P := fun _ => True) (precomputeOrRemove_change env.curveMul)
    (wgNoiseSetStaticIdentityPrivateKey (removeOwn p wg privateKey) env.privateKeyAddress.toUInt32
      env.getPublickey)
    (wgNoiseSetStaticIdentityPrivateKey (removeOwn p wg privateKey) env.privateKeyAddress.toUInt32
      env.getPublickey).peerList
  rw [hwalk.identity, hwalk.answer]
  refine ⟨rfl, ?_⟩
  unfold wgNoiseSetStaticIdentityPrivateKey coreGetPublickeyByID
  dsimp only
  rw [decide_eq_true_iff]
  rcases takeAnswer_eq (removeOwn p wg privateKey).staticIdentity.staticPublic env.getPublickey with
    ⟨hok, hret⟩ | ⟨hno, hret, -⟩
  · rw [hret]
    exact ⟨fun h => absurd rfl h, fun h => absurd hok h⟩
  · exact ⟨fun _ => hno, fun _ => hret⟩

theorem wgSetDevice_key {r : Request} (hkey : SetsKey r) (wg : WgDevice) :
    (wgSetDevice p wg r.1 r.2).2.keyAnswer = some r.2.getPublickey ∧
      ((wgSetDevice p wg r.1 r.2).2.staticIdentity.hasIdentity = true ↔ ¬r.2.getPublickey.Ok) := by
  obtain ⟨hport, hsome⟩ := hkey
  obtain ⟨privateKey, hprivate⟩ := Option.isSome_iff_exists.mp hsome
  unfold wgSetDevice
  rw [if_neg (fun h => h.2 (hport h.1)), hprivate]
  dsimp only
  have hpeers : ∀ wg, PeersChange (fun _ => True) wg (setPeers r.2.peers 0 wg r.1.peers).2 :=
    fun wg => setPeers_change r.2.peers 0 wg (fun _ _ _ _ _ => trivial)
  rw [(hpeers _).identity, (hpeers _).answer]
  exact setDeviceKey_identity _ privateKey r.2

/-- No key was set, or the last one left the identity the wrong way round. -/
def WgDevice.Inverted (wg : WgDevice) : Prop :=
  ∀ t, wg.keyAnswer = some t → (wg.staticIdentity.hasIdentity = true ↔ ¬t.Ok)

theorem setDevices_inverted (wg : WgDevice) (requests : List Request) (h : wg.Inverted)
    (hset : wg.keyAnswer.isSome ∨ ∃ r ∈ requests, SetsKey r) :
    (setDevices p wg requests).keyAnswer.isSome ∧ (setDevices p wg requests).Inverted := by
  induction requests generalizing wg with
  | nil =>
    rcases hset with hset | ⟨r, hr, -⟩
    · exact ⟨hset, h⟩
    · cases hr
  | cons r requests ih =>
    by_cases hkey : SetsKey r
    · obtain ⟨hanswer, hidentity⟩ := wgSetDevice_key (p := p) hkey wg
      refine ih _ ?_ (.inl (by rw [hanswer]; rfl))
      intro t ht
      rw [hanswer] at ht
      cases ht
      exact hidentity
    · have hpeers :=
        wgSetDevice_keyless (p := p) (P := fun _ => True) hkey (fun _ _ _ _ _ => trivial) wg
      refine ih _ ?_ ?_
      · intro t ht
        rw [hpeers.identity]
        exact h t (hpeers.answer ▸ ht)
      · rw [hpeers.answer]
        rcases hset with hset | ⟨r', hr', hkey'⟩
        · exact .inl hset
        · rcases List.mem_cons.mp hr' with rfl | hr'
          · exact absurd hkey' hkey
          · exact .inr ⟨r', hr', hkey'⟩

theorem setDevices_keyless (wg : WgDevice) {requests : List Request}
    (h : ∀ r ∈ requests, ¬SetsKey r ∧ ∀ attrs, some attrs ∈ r.1.peers → attrs.Creates P) :
    PeersChange P wg (setDevices p wg requests) := by
  induction requests generalizing wg with
  | nil => exact .refl wg
  | cons r requests ih =>
    obtain ⟨hkey, hP⟩ := h r List.mem_cons_self
    exact (wgSetDevice_keyless hkey hP wg).trans
      (ih _ fun r' hr' => h r' (List.mem_cons_of_mem r hr'))

/-- Identity and peers stay consistent as long as no private key is set and no peer is
created with the key of zeros a new device has; and once a private key was set they are
not. -/
theorem identity_consistent (p : Primitives) (globals : Globals) (requests : List Request) :
    ((∀ r ∈ requests, ¬SetsKey r ∧ ∀ attrs, some attrs ∈ r.1.peers →
        attrs.Creates (· ≠ List.replicate NOISE_PUBLIC_KEY_LEN 0)) →
      (setDevices p (freshDevice globals) requests).Consistent) ∧
    ((setDevices p (freshDevice globals) requests).Consistent → ∀ r ∈ requests, ¬SetsKey r) := by
  constructor
  · intro h
    have hkept := setDevices_keyless (p := p) (freshDevice globals) h
    constructor
    · rw [hkept.identity, hkept.answer]
      simp [freshDevice]
    · rw [hkept.answer]
      nofun
    · intro peer hpeer
      rw [hkept.identity]
      exact (hkept.keys nofun peer hpeer).1
  · intro hc r hr hkey
    obtain ⟨hsome, hinv⟩ := setDevices_inverted (p := p) (freshDevice globals) requests nofun
      (.inr ⟨r, hr, hkey⟩)
    obtain ⟨t, ht⟩ := Option.isSome_iff_exists.mp hsome
    have hsame := hc.identity.symm.trans (hinv t ht)
    by_cases hok : t.Ok
    · exact hsame.mp ⟨t, ht, hok⟩ hok
    · obtain ⟨t', ht', hok'⟩ := hsame.mpr hok
      rw [ht] at ht'
      cases ht'
      exact hok hok'

end

/-- A request without a private key, for a peer with the key of ones. -/
def addsOne (env : SetEnv) : Request :=
  ({ peers := [some { publicKey := some (List.replicate 32 1) }] }, env)

/-- The trusted app answers every call with `ret` and a response of zeros. -/
def answersAll (ret : UInt32) : SetEnv :=
  let t : Transport := ⟨0, ⟨ret, fun _ => 0⟩⟩
  ⟨0, 0, t, fun _ => t, fun _ => ⟨true, t, true, true, true, fun _ => true⟩⟩

/-- Empty buffers. -/
def noGlobals : Globals := ⟨⟨0, fun _ => 0⟩, ⟨0, fun _ => 0⟩⟩

theorem identity_consistent_addsOne :
    (setDevices plain (freshDevice noGlobals) [addsOne (answersAll 0)]).peerHashtable = [0] ∧
      (setDevices plain (freshDevice noGlobals) [addsOne (answersAll 0)]).Consistent := by
  refine ⟨by decide +kernel, (identity_consistent plain noGlobals [addsOne (answersAll 0)]).1 ?_⟩
  intro r hr
  obtain rfl := List.mem_singleton.mp hr
  refine ⟨by decide, ?_⟩
  intro attrs hattrs key hkey _
  obtain rfl := Option.some.inj (List.mem_singleton.mp hattrs)
  rw [show ofLength NOISE_PUBLIC_KEY_LEN (some (List.replicate 32 (1 : UInt8))) =
    some (List.replicate 32 1) from rfl] at hkey
  cases hkey
  decide

/-- The trusted app answers for the private key, and the device has no identity. -/
theorem answered_key_no_identity :
    ¬(setDevices plain (freshDevice noGlobals)
      [({ privateKey := some (List.replicate 32 1) }, answersAll 0)]).Consistent := by
  intro h
  have hidentity : (setDevices plain (freshDevice noGlobals)
      [({ privateKey := some (List.replicate 32 1) }, answersAll 0)]).staticIdentity.hasIdentity =
          false := by
    decide +kernel
  rw [h.identity.mpr ⟨(answersAll 0).getPublickey, rfl, by decide⟩] at hidentity
  cases hidentity

/-! ### Which peers stay -/

section
variable (wg : WgDevice) (peer : Nat)

theorem precompute_kept_iff (t : Transport) :
    (wgNoisePrecomputeStaticStatic wg peer t).1 = true ↔
      wg.staticIdentity.hasIdentity = false ∨ ¬t.Ok := by
  unfold wgNoisePrecomputeStaticStatic coreCurveMul
  dsimp only
  cases wg.staticIdentity.hasIdentity with
  | false => simp
  | true =>
    simp only [↓reduceIte, decide_eq_true_iff, Bool.true_eq_false, false_or]
    rcases takeAnswer_eq (wg.handshake peer).precomputedStaticStatic
        t with ⟨hok, hret⟩ | ⟨hno, hret, -⟩
    · rw [hret]
      exact ⟨fun h => absurd rfl h, fun h => absurd hok h⟩
    · exact ⟨fun _ => hno, fun _ => hret⟩

theorem precompute_peerList (t : Transport) :
    (wgNoisePrecomputeStaticStatic wg peer t).2.peerList = wg.peerList := by
  obtain ⟨h, globals, heq, -⟩ := precompute_eq wg peer t
  rw [heq]
  rfl

theorem mem_precomputeOrRemove (curveMul : Nat → Transport) {q : Nat} :
    q ∈ (precomputeOrRemove curveMul wg peer).peerList ↔
      q ∈ wg.peerList ∧ (q = peer → wg.staticIdentity.hasIdentity = false ∨ ¬(curveMul q).Ok) := by
  have hkept := precompute_kept_iff wg peer (curveMul peer)
  have hlist := precompute_peerList wg peer (curveMul peer)
  unfold precomputeOrRemove
  dsimp only
  by_cases hk : (wgNoisePrecomputeStaticStatic wg peer (curveMul peer)).1 = true
  · rw [if_pos hk, hlist]
    refine ⟨fun hq => ⟨hq, ?_⟩, And.left⟩
    rintro rfl
    exact hkept.mp hk
  · rw [if_neg hk]
    simp only [wgPeerRemove, hlist, List.mem_filter, decide_not, Bool.not_eq_true',
      decide_eq_false_iff_not]
    refine and_congr_right fun _ => ⟨fun hne heq => absurd heq hne, ?_⟩
    rintro h rfl
    exact hk (hkept.mpr (h rfl))

end

/-- The walk keeps a peer exactly if nothing was computed for it. -/
theorem mem_walk (curveMul : Nat → Transport) (peers : List Nat) (wg : WgDevice) {q : Nat} :
    q ∈ (peers.foldl (precomputeOrRemove curveMul) wg).peerList ↔
      q ∈ wg.peerList ∧ (q ∈ peers → wg.staticIdentity.hasIdentity = false ∨ ¬(curveMul q).Ok) := by
  induction peers generalizing wg with
  | nil => simp
  | cons peer peers ih =>
    have hsame := (precomputeOrRemove_change (P := fun _ => True) curveMul wg peer).identity
    rw [List.foldl_cons, ih, mem_precomputeOrRemove, hsame, List.mem_cons]
    constructor
    · rintro ⟨⟨hq, hown⟩, hrest⟩
      exact ⟨hq, fun h => h.elim hown hrest⟩
    · rintro ⟨hq, h⟩
      exact ⟨⟨hq, fun hown => h (.inl hown)⟩, fun hrest => h (.inr hrest)⟩

/-- The peers that stayed are those among `walked` whose static secret was computed, and
they have it. -/
structure WgDevice.KeptByTee (wg : WgDevice) (walked : List Nat) (curveMul : Nat → Transport) :
    Prop where
  kept : ∀ peer, peer ∈ wg.peerList ↔
    peer ∈ walked ∧ wg.staticIdentity.hasIdentity = true ∧ (curveMul peer).Ok
  secret : ∀ peer ∈ wg.peerList,
    (wg.handshake peer).precomputedStaticStatic =
      (curveMul peer).mrsp.data.read CUR25519_PUB_KEY_LENGTH

theorem setDeviceKey_kept_iff (p : Primitives) (wg : WgDevice) (privateKey : Bytes) (env : SetEnv) :
    (setDeviceKey p wg privateKey env).KeptByTee (removeOwn p wg privateKey).peerList env.curveMul ↔
      (removeOwn p wg privateKey).peerList = [] := by
  have hidentity : (setDeviceKey p wg privateKey env).staticIdentity =
      (wgNoiseSetStaticIdentityPrivateKey (removeOwn p wg privateKey) env.privateKeyAddress.toUInt32
        env.getPublickey).staticIdentity :=
    (PeersChange.foldl (P := fun _ => True) (precomputeOrRemove_change env.curveMul) _ _).identity
  have hmem : ∀ q, q ∈ (setDeviceKey p wg privateKey env).peerList ↔
      q ∈ (removeOwn p wg privateKey).peerList ∧
      ((setDeviceKey p wg privateKey env).staticIdentity.hasIdentity = false ∨
          ¬(env.curveMul q).Ok) := by
    intro q
    rw [hidentity]
    refine (mem_walk env.curveMul _ _).trans (and_congr_right fun hq => ?_)
    exact ⟨fun h => h hq, fun h _ => h⟩
  constructor
  · intro h
    rw [List.eq_nil_iff_forall_not_mem]
    intro q hq
    have hboth := (h.kept q).symm.trans (hmem q)
    cases hid : (setDeviceKey p wg privateKey env).staticIdentity.hasIdentity with
    | false => simp [hid, hq] at hboth
    | true => simp [hid, hq] at hboth
  · intro hnil
    rw [hnil] at hmem ⊢
    constructor
    · intro q
      rw [hmem]
      simp
    · intro q hq
      cases ((hmem q).mp hq).1

/-- What can keep a peer from being created, apart from its static secret. -/
def CreateFails (wg : WgDevice) (env : PeerEnv) : Prop :=
  MAX_PEERS_PER_DEVICE ≤ wg.numPeers ∨ env.kzalloc = false ∨ env.dstCacheInit = false ∨
    env.txQueueInit = false ∨ env.rxQueueInit = false

theorem wgPeerCreate_isSome_iff (wg : WgDevice) (publicKey : Bytes) (presharedKey : Option Bytes)
    (env : PeerEnv) : (wgPeerCreate wg publicKey presharedKey env).1.isSome ↔
      ¬CreateFails wg env ∧ (wg.staticIdentity.hasIdentity = false ∨ ¬env.curveMul.Ok) := by
  have hinit : (wgNoiseHandshakeInit wg wg.created publicKey presharedKey env.curveMul).1 = true ↔
      wg.staticIdentity.hasIdentity = false ∨ ¬env.curveMul.Ok := precompute_kept_iff ..
  rw [← hinit]
  unfold wgPeerCreate CreateFails
  split
  · rename_i hmax
    simp [hmax]
  split
  · rename_i hmax halloc
    simp_all
  dsimp only
  cases (wgNoiseHandshakeInit wg wg.created publicKey presharedKey env.curveMul).1 with
  | false => simp
  | true =>
    rename_i hmax halloc
    cases env.dstCacheInit <;> cases env.txQueueInit <;> cases env.rxQueueInit <;> simp_all

/-- Peers have their secrets only where there are none to have them. After a private key is
set, those that stay are those whose secret was computed exactly if there is no peer; and
a new peer of a device with an identity comes with its secret exactly if it is not created:
because the trusted app computed the secret, or because something else failed. -/
theorem kept_peers_iff (p : Primitives) (wg : WgDevice) (privateKey : Bytes) (env : SetEnv)
    (wg' : WgDevice) (publicKey : Bytes) (presharedKey : Option Bytes) (env' : PeerEnv)
    (hidentity : wg'.staticIdentity.hasIdentity = true) :
    ((setDeviceKey p wg privateKey env).KeptByTee (removeOwn p wg
      privateKey).peerList env.curveMul ↔ (removeOwn p wg privateKey).peerList = []) ∧
    (((wgPeerCreate wg' publicKey presharedKey env').1.isSome → env'.curveMul.Ok) ↔
      env'.curveMul.Ok ∨ CreateFails wg' env') := by
  refine ⟨setDeviceKey_kept_iff p wg privateKey env, ?_⟩
  rw [wgPeerCreate_isSome_iff, hidentity]
  constructor
  · intro h
    by_cases hok : env'.curveMul.Ok
    · exact .inl hok
    · refine .inr (not_not.mp fun hfine => hok (h ⟨hfine, .inr hok⟩))
  · rintro (hok | hfails) ⟨hfine, -⟩
    · exact hok
    · exact absurd hfails hfine

/-- A device that got its identity because the trusted app refused the key. -/
def refused : WgDevice :=
  setDevices plain (freshDevice noGlobals)
    [({ privateKey := some (List.replicate 32 1) }, answersAll 1)]

theorem kept_peers_refused :
    (setDeviceKey plain refused (List.replicate 32 1) (answersAll 0)).KeptByTee
        (removeOwn plain refused (List.replicate 32 1)).peerList (answersAll 0).curveMul ∧
      ((wgPeerCreate refused (List.replicate 32 1) none ((answersAll 0).peers 0)).1.isSome →
        ((answersAll 0).peers 0).curveMul.Ok) := by
  have h := kept_peers_iff plain refused (List.replicate 32 1) (answersAll 0) refused
    (List.replicate 32 1) none ((answersAll 0).peers 0) (by decide +kernel)
  exact ⟨h.1.mpr (by decide +kernel), h.2.mpr (.inl (by decide))⟩

/-- With a peer there, a new private key keeps it although nothing was computed; and a peer
is created although its secret was not computed. -/
theorem kept_without_secret :
    ¬(setDeviceKey plain (setDevices plain (freshDevice noGlobals) [addsOne (answersAll 0)])
        (List.replicate 32 2) (answersAll 0)).KeptByTee
        (removeOwn plain (setDevices plain (freshDevice noGlobals) [addsOne (answersAll 0)])
          (List.replicate 32 2)).peerList (answersAll 0).curveMul ∧
      refused.staticIdentity.hasIdentity = true ∧
      (wgPeerCreate refused (List.replicate 32 1) none ((answersAll 1).peers 0)).1 = some 0 ∧
      ¬((answersAll 1).peers 0).curveMul.Ok := by
  refine ⟨?_, by decide +kernel, by decide +kernel, by decide⟩
  rw [setDeviceKey_kept_iff]
  decide +kernel

end Sewg.Kernel
