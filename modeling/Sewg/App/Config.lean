import Sewg.App.Inet
import Sewg.App.KeyEncoding

/-! Reading a configuration: `Attribute`, `Interface`, `Peer` and `Config.from`. -/

namespace Sewg.App

open CString (Bytes)

inductive Attribute
  | address
  | allowedIPs
  | dns
  | excludedApplications
  | endpoint
  | listenPort
  | mtu
  | persistentKeepalive
  | presharedKey
  | privateKey
  | publicKey
  deriving DecidableEq

namespace Attribute

def token : Attribute → String
  | address => "Address"
  | allowedIPs => "AllowedIPs"
  | dns => "DNS"
  | excludedApplications => "ExcludedApplications"
  | endpoint => "Endpoint"
  | listenPort => "ListenPort"
  | mtu => "MTU"
  | persistentKeepalive => "PersistentKeepalive"
  | presharedKey => "PresharedKey"
  | privateKey => "PrivateKey"
  | publicKey => "PublicKey"

def values : List Attribute :=
  [address, allowedIPs, dns, excludedApplications, endpoint, listenPort, mtu, persistentKeepalive,
    presharedKey, privateKey, publicKey]

variable (p : Platform)

/-- The name of a line is what stands before the first blank or equals sign, in any
case. Splitting a line of nothing but separators leaves no first piece. -/
def ofLine (line : JString) : Except ConfigError (Option Attribute) :=
  match splitResult (line.splitOnP fun c => p.isSpace c || c == 61) with
  | [] => .error .arrayIndexOutOfBounds
  | name :: _ =>
    -- of two tokens with one lower-case form the map would keep the later
    .ok (values.reverse.find? fun a =>
      p.locale.toLowerCase (lit a.token) = p.locale.toLowerCase name)

/-- Characters that `.` does not match. -/
def isLineTerminator (c : UInt16) : Bool :=
  c == 10 || c == 13 || c == 0x85 || c == 0x2028 || c == 0x2029

/-- A match of `token\s*=\s*(\S.*)` against the whole line, the token in its own case. -/
def parse (a : Attribute) (line : JString) : Option JString :=
  let token := lit a.token
  if line.take token.length ≠ token then none
  else match (line.drop token.length).dropWhile p.isSpace with
  | 61 :: rest =>
    match rest.dropWhile p.isSpace with
    | [] => none
    | c :: value => if value.any isLineTerminator then none else some (c :: value)
  | _ => none

def trimStart (s : JString) : JString := s.dropWhile p.isSpace

def trimEnd (s : JString) : JString := (s.reverse.dropWhile p.isSpace).reverse

/-- The pieces between commas lose the blanks around the commas. -/
def stringToList (string : JString) : List JString :=
  if string = [] then []
  else
    let pieces := (trim string).splitOn 44
    splitResult (pieces.mapIdx fun i piece =>
      let piece := if i = 0 then piece else trimStart p piece
      if i + 1 = pieces.length then piece else trimEnd p piece)

def parseList (a : Attribute) (line : JString) : Option (List JString) :=
  (a.parse p line).map (stringToList p)

end Attribute

/-- A key in base64 that was found to be one when it was set. -/
structure KeyText where
  text : JString
  key : Bytes
  valid : keyFromBase64 text = some key
  deriving DecidableEq

/-- `setPublicKey` and `setPreSharedKey`: no text, or an empty one, is no key. -/
def KeyText.parse : Option JString → Except ConfigError (Option KeyText)
  | none => .ok none
  | some [] => .ok none
  | some text =>
    match h : keyFromBase64 text with
    | none => .error .keyLengthBase64
    | some key => .ok (some ⟨text, key, h⟩)

/-- A setter that takes the text of a number; no text, or an empty one, is 0. -/
def intOrZero (p : Platform) : Option JString → Except ConfigError Int32
  | none => .ok 0
  | some [] => .ok 0
  | some text =>
    match parseInt p.digit text with
    | none => .error .numberFormat
    | some n => .ok n

/-- `privateKey` is the `Keypair`, of which only the number of its key is read. -/
structure Interface where
  addresses : List InetNetwork := []
  dnses : List InetAddress := []
  excludedApplications : List JString := []
  privateKey : Option Int32 := none
  listenPort : Int32 := 0
  mtu : Int32 := 0
  deriving DecidableEq

structure Peer where
  allowedIPs : List InetNetwork := []
  endpoint : Option InetEndpoint := none
  persistentKeepalive : Int32 := 0
  preSharedKey : Option KeyText := none
  publicKey : Option KeyText := none
  deriving DecidableEq

structure Config where
  interfaceSection : Interface
  peers : List Peer
  deriving DecidableEq

section
variable (p : Platform)

def parseInterfaceAddress (addr : JString) : Except ConfigError InetNetwork :=
  if addr = [] then .error .emptyInterfaceAddress else InetNetwork.parse p addr

/-- A `PrivateKey` is the number of a key of the trusted app. -/
def parsePrivateKey : Option JString → Except ConfigError (Option Int32)
  | none => .ok none
  | some [] => .ok none
  | some text =>
    match parseInt p.digit text with
    | none => .error .numberFormat
    | some n => .ok (some n)

def Interface.parse (iface : Interface) (line : JString) : Except ConfigError Interface := do
  match ← Attribute.ofLine p line with
  | none => .error (.parseFailed line)
  | some .address =>
    let networks ← ((Attribute.address.parseList p line).getD []).mapM (parseInterfaceAddress p)
    return { iface with addresses := iface.addresses ++ networks }
  | some .dns =>
    let dnses ← ((Attribute.dns.parseList p line).getD []).mapM (parseAddress p)
    return { iface with dnses := iface.dnses ++ dnses }
  | some .excludedApplications =>
    let applications := (Attribute.excludedApplications.parseList p line).getD []
    return { iface with excludedApplications := iface.excludedApplications ++ applications }
  | some .listenPort =>
    return { iface with listenPort := ← intOrZero p (Attribute.listenPort.parse p line) }
  | some .mtu => return { iface with mtu := ← intOrZero p (Attribute.mtu.parse p line) }
  | some .privateKey =>
    return { iface with privateKey := ← parsePrivateKey p (Attribute.privateKey.parse p line) }
  | some _ => .error (.illegalLine line)

def Peer.parse (peer : Peer) (line : JString) : Except ConfigError Peer := do
  match ← Attribute.ofLine p line with
  | none => .error (.parseFailed line)
  | some .allowedIPs =>
    let networks ← ((Attribute.allowedIPs.parseList p line).getD []).mapM (InetNetwork.parse p)
    return { peer with allowedIPs := peer.allowedIPs ++ networks }
  | some .endpoint =>
    match Attribute.endpoint.parse p line with
    | none => return { peer with endpoint := none }
    | some [] => return { peer with endpoint := none }
    | some text => return { peer with endpoint := some (← InetEndpoint.parse p text) }
  | some .persistentKeepalive =>
    return { peer with
      persistentKeepalive := ← intOrZero p (Attribute.persistentKeepalive.parse p line) }
  | some .presharedKey =>
    return { peer with preSharedKey := ← KeyText.parse (Attribute.presharedKey.parse p line) }
  | some .publicKey =>
    return { peer with publicKey := ← KeyText.parse (Attribute.publicKey.parse p line) }
  | some _ => .error (.illegalLine line)

/-- Which section the next line belongs to. -/
inductive Section
  | outside
  | interface
  | peer
  deriving DecidableEq

/-- The variables of the loop. The latest peer comes first. -/
structure Reader where
  interfaceSection : Interface := {}
  peers : List Peer := []
  current : Section := .outside

/-- One line. Before any section only comments and blank lines are allowed. -/
def Reader.line (r : Reader) (line : JString) : Except ConfigError Reader := do
  let line := trim (line.takeWhile (· ≠ 35))
  if line = [] then return r
  else if p.locale.toLowerCase (lit "[Interface]") = p.locale.toLowerCase line then
    return { r with current := .interface }
  else if p.locale.toLowerCase (lit "[Peer]") = p.locale.toLowerCase line then
    return { r with peers := {} :: r.peers, current := .peer }
  else match r.current, r.peers with
  | .interface, _ => return { r with interfaceSection := ← r.interfaceSection.parse p line }
  | .peer, peer :: peers => return { r with peers := (← peer.parse p line) :: peers }
  | _, _ => .error (.invalidConfigLine line)

/-- `Config.from` on a string. -/
def Config.parse (string : JString) : Except ConfigError Config := do
  let r ← (readLines false [] string).foldlM (Reader.line p) {}
  if r.current = .outside then .error .noConfigInformation
  else return ⟨r.interfaceSection, r.peers.reverse⟩

end

end Sewg.App
