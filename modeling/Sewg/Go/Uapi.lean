import Sewg.Go.Identity
import Sewg.Go.Text

/-! `ipcSetOperation` of `uapi.go`: a device is configured by lines `key=value`, and a
line about a peer belongs to the last `public_key` before it. Logging is left out. -/

namespace Sewg.Go

open CString (Bytes)
open Words

/-- Why a set operation ends early. `panic` is an index out of range. -/
inductive SetFailure
  | ipcErrorProtocol
  | ipcErrorInvalid
  | ipcErrorPortInUse
  | panic
  deriving DecidableEq

structure Net where
  port : Nat
  fwmark : Nat
  /-- Whether `bind` is not `nil`. -/
  bound : Bool
  deriving DecidableEq

/-- The device with what else a set operation changes. `endpoint` and
`persistentKeepaliveInterval` are fields of the peers, and `keepalives` has the peers
that `SendKeepalive` was called for, latest first. -/
structure UapiDevice where
  device : Device
  isUp : Bool
  net : Net
  allowedips : AllowedIPs Nat
  endpoint : Nat → Option Endpoint
  persistentKeepaliveInterval : Nat → Nat
  keepalives : List Nat

/-- As `NewDevice` leaves it. -/
def newUapiDevice : UapiDevice where
  device := newDevice
  isUp := false
  net := ⟨0, 0, false⟩
  allowedips := .Reset
  endpoint _ := none
  persistentKeepaliveInterval _ := 0
  keepalives := []

/-- What the trusted app and the system answer while one line is handled. -/
structure LineEnv where
  pubKey : TeeCall
  products : Nat → TeeCall × TeeCall
  product : TeeCall
  /-- Whether the old sockets close without an error. -/
  closeBind : Bool
  /-- The port that is bound for the wanted one, or an error. -/
  createBind : Nat → Option Nat
  /-- Whether the mark can be set on the sockets. -/
  setMark : Bool
  services : Bytes → Option Nat

namespace UapiDevice

/-- The peers leave the routing table and, by the caller, the map. -/
def stopRouting (d : UapiDevice) (peers : List Nat) : UapiDevice :=
  { d with allowedips := peers.foldl AllowedIPs.RemoveByPeer d.allowedips }

def SetPrivateKey (d : UapiDevice) (sk : RootPrivateKey) (env : LineEnv) : UapiDevice :=
  let device := setPrivateKey d.device sk env.pubKey env.products
  let removed := d.device.keyMap.filter fun entry => entry ∉ device.keyMap
  { d.stopRouting (removed.map Prod.snd) with device }

def LookupPeer (d : UapiDevice) (pk : Bytes) : Option Nat := d.device.keyMap.lookup pk

def NewPeer (d : UapiDevice) (pk : Bytes) (env : LineEnv) : Except String (UapiDevice × Nat) :=
  (newPeer d.device pk env.product).map fun device =>
    let peer := d.device.nextPeer
    ({ d with
      device
      endpoint := Function.update d.endpoint peer none
      persistentKeepaliveInterval := Function.update d.persistentKeepaliveInterval peer 0 }, peer)

def RemovePeer (d : UapiDevice) (key : Bytes) : UapiDevice :=
  match d.LookupPeer key with
  | none => d
  | some peer =>
    { d.stopRouting [peer] with
      device := { d.device with keyMap := d.device.keyMap.filter (·.1 ≠ key) } }

def RemoveAllPeers (d : UapiDevice) : UapiDevice :=
  { d.stopRouting (d.device.keyMap.map Prod.snd) with device := { d.device with keyMap := [] } }

/-- Whether it went well comes second. -/
def BindUpdate (d : UapiDevice) (env : LineEnv) : UapiDevice × Bool :=
  let closed := { d.net with bound := false }
  if d.net.bound ∧ ¬env.closeBind then ({ d with net := closed }, false)
  else if ¬d.isUp then ({ d with net := closed }, true)
  else match env.createBind d.net.port with
  | none => ({ d with net := { closed with port := 0 } }, false)
  | some port =>
    ({ d with net := { closed with port, bound := true } }, d.net.fwmark = 0 ∨ env.setMark)

def BindSetMark (d : UapiDevice) (mark : Nat) (env : LineEnv) : UapiDevice × Bool :=
  if d.net.fwmark = mark then (d, true)
  else ({ d with net := { d.net with fwmark := mark } }, ¬(d.isUp ∧ d.net.bound) ∨ env.setMark)

def setPresharedKey (d : UapiDevice) (peer : Nat) (psk : Bytes) : UapiDevice :=
  { d with device :=
    d.device.setHandshake peer { (d.device.peers peer).handshake with presharedKey := psk } }

def setEndpoint (d : UapiDevice) (peer : Nat) (endpoint : Endpoint) : UapiDevice :=
  { d with endpoint := Function.update d.endpoint peer (some endpoint) }

/-- A keepalive is sent at once when it is turned on. -/
def setKeepalive (d : UapiDevice) (peer secs : Nat) : UapiDevice :=
  let old := d.persistentKeepaliveInterval peer
  { d with
    persistentKeepaliveInterval := Function.update d.persistentKeepaliveInterval peer secs
    keepalives := if old = 0 ∧ secs ≠ 0 ∧ d.isUp then peer :: d.keepalives else d.keepalives }

end UapiDevice

/-- The keys of the two switches. -/
inductive SettingKey
  | privateKey
  | listenPort
  | fwmark
  | publicKey
  | replacePeers
  | remove
  | presharedKey
  | endpoint
  | persistentKeepaliveInterval
  | replaceAllowedIps
  | allowedIp
  | protocolVersion
  deriving DecidableEq

namespace SettingKey

def name : SettingKey → String
  | privateKey => "private_key"
  | listenPort => "listen_port"
  | fwmark => "fwmark"
  | publicKey => "public_key"
  | replacePeers => "replace_peers"
  | remove => "remove"
  | presharedKey => "preshared_key"
  | endpoint => "endpoint"
  | persistentKeepaliveInterval => "persistent_keepalive_interval"
  | replaceAllowedIps => "replace_allowed_ips"
  | allowedIp => "allowed_ip"
  | protocolVersion => "protocol_version"

def all : List SettingKey :=
  [privateKey, listenPort, fwmark, publicKey, replacePeers, remove, presharedKey, endpoint,
    persistentKeepaliveInterval, replaceAllowedIps, allowedIp, protocolVersion]

def ofText (text : Bytes) : Option SettingKey := all.find? fun key => ascii key.name = text

theorem ofText_name (key : SettingKey) : ofText (ascii key.name) = some key := by
  cases key <;> decide

end SettingKey

/-- The variables of the loop. `peer` is `none` before the first peer, and for a `Peer`
that belongs to no device. -/
structure SetState where
  device : UapiDevice
  peer : Option Nat
  dummy : Bool
  deviceConfig : Bool

namespace SetState

/-- Change the selected peer, if it is one of the device's. -/
def updatePeer (s : SetState) (f : UapiDevice → Nat → UapiDevice) : SetState :=
  match s.peer with
  | none => s
  | some peer => { s with device := f s.device peer }

def deviceLine (env : LineEnv) (s : SetState) (key : Option SettingKey) (value : Bytes) :
    SetState × Option SetFailure :=
  match key with
  | some .privateKey =>
    match Atoi value with
    | none => (s, some .ipcErrorInvalid)
    | some sk => ({ s with device := s.device.SetPrivateKey sk env }, none)
  | some .listenPort =>
    match ParseUint value 16 with
    | none => (s, some .ipcErrorInvalid)
    | some port =>
      let (device, ok) := { s.device with net := { s.device.net with port } }.BindUpdate env
      ({ s with device }, if ok then none else some .ipcErrorPortInUse)
  | some .fwmark =>
    match if value = [] then some 0 else ParseUint value 32 with
    | none => (s, some .ipcErrorInvalid)
    | some mark =>
      let (device, ok) := s.device.BindSetMark mark env
      ({ s with device }, if ok then none else some .ipcErrorPortInUse)
  | some .publicKey => ({ s with deviceConfig := false }, none)
  | some .replacePeers =>
    if value ≠ ascii "true" then (s, some .ipcErrorInvalid)
    else ({ s with device := s.device.RemoveAllPeers }, none)
  | _ => (s, some .ipcErrorInvalid)

/-- A peer with the device's own key is ignored. -/
def selectPeer (env : LineEnv) (s : SetState) (publicKey : Bytes) : SetState × Option SetFailure :=
  if s.device.device.publicKey = publicKey then ({ s with peer := none, dummy := true }, none)
  else match s.device.LookupPeer publicKey with
  | some peer => ({ s with peer := some peer, dummy := false }, none)
  | none =>
    match s.device.NewPeer publicKey env with
    | .error _ => ({ s with peer := none, dummy := false }, some .ipcErrorInvalid)
    | .ok (device, peer) => ({ s with device, peer := some peer, dummy := false }, none)

def peerLine (e : Endian) (env : LineEnv) (s : SetState) (key : Option SettingKey) (value : Bytes) :
    SetState × Option SetFailure :=
  match key with
  | some .publicKey =>
    match loadExactHex NoisePublicKeySize value with
    | none => (s, some .ipcErrorInvalid)
    | some publicKey => s.selectPeer env publicKey
  | some .remove =>
    if value ≠ ascii "true" then (s, some .ipcErrorInvalid)
    else
      let s := if s.dummy then s else s.updatePeer fun d peer =>
        d.RemovePeer (d.device.peers peer).handshake.remoteStatic
      ({ s with peer := none, dummy := true }, none)
  | some .presharedKey =>
    match loadExactHex NoisePublicKeySize value with
    | none => (s, some .ipcErrorInvalid)
    | some psk => (s.updatePeer (·.setPresharedKey · psk), none)
  | some .endpoint =>
    match parseEndpoint env.services value with
    | none => (s, some .ipcErrorInvalid)
    | some endpoint => (s.updatePeer (·.setEndpoint · endpoint), none)
  | some .persistentKeepaliveInterval =>
    match ParseUint value 16 with
    | none => (s, some .ipcErrorInvalid)
    | some secs => (s.updatePeer (·.setKeepalive · secs), none)
  | some .replaceAllowedIps =>
    if value ≠ ascii "true" then (s, some .ipcErrorInvalid)
    else if s.dummy then (s, none)
    else (s.updatePeer fun d peer => d.stopRouting [peer], none)
  | some .allowedIp =>
    match ParseCIDR value with
    | none => (s, some .ipcErrorInvalid)
    | some (ip, ones) =>
      if s.dummy then (s, none)
      else match s.peer with
      | none => (s, some .panic)
      | some peer =>
        match s.device.allowedips.Insert e ip ones peer with
        | none => (s, some .panic)
        | some allowedips => ({ s with device := { s.device with allowedips } }, none)
  | some .protocolVersion => (s, if value ≠ [49] then some .ipcErrorInvalid else none)
  | _ => (s, some .ipcErrorInvalid)

/-- A `public_key` line is looked at twice when it is the first. -/
def settingLine (e : Endian) (env : LineEnv) (s : SetState) (key : Option SettingKey)
    (value : Bytes) : SetState × Option SetFailure :=
  if s.deviceConfig then
    match s.deviceLine env key value with
    | (s, some failure) => (s, some failure)
    | (s, none) => if s.deviceConfig then (s, none) else s.peerLine e env key value
  else s.peerLine e env key value

def line (e : Endian) (env : LineEnv) (s : SetState) (line : Bytes) :
    SetState × Option SetFailure :=
  match line.splitOn 61 with
  | [key, value] => s.settingLine e env (SettingKey.ofText key) value
  | _ => (s, some .ipcErrorProtocol)

/-- The loop. An empty line ends it. `envs` goes by the lines handled so far. -/
def lines (e : Endian) (envs : Nat → LineEnv) :
    Nat → SetState → List Bytes → SetState × Option SetFailure
  | _, s, [] => (s, none)
  | _, s, [] :: _ => (s, none)
  | n, s, text :: rest =>
    match s.line e (envs n) text with
    | (s, some failure) => (s, some failure)
    | (s, none) => s.lines e envs (n + 1) rest

end SetState

def ipcSetOperation (e : Endian) (envs : Nat → LineEnv) (device : UapiDevice) (text : Bytes) :
    UapiDevice × Option SetFailure :=
  let (s, failure) := SetState.lines e envs 0 ⟨device, none, false, true⟩ (scanLines text)
  (s.device, failure)

end Sewg.Go
