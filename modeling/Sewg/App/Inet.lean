import Sewg.App.Java

/-! Addresses, networks and endpoints in a configuration: `InetAddresses`,
`InetNetwork` and `InetEndpoint`, and what they take from the runtime. -/

namespace Sewg.App

/-- The exceptions of reading a configuration, by their messages. -/
inductive ConfigError
  | invalidConfigLine (line : JString)
  | noConfigInformation
  | parseFailed (line : JString)
  /-- The attribute is one of the other kind of section. -/
  | illegalLine (line : JString)
  | emptyInterfaceAddress
  | emptyInetAddress
  | forbiddenEndpointChars
  | uriSyntax
  | keyLengthBase64
  | numberFormat
  | addressFormat
  | arrayIndexOutOfBounds
  deriving DecidableEq

/-- The scope of an IPv6 address is the name or the number of an interface. -/
inductive InetAddress
  | inet4 (a b c d : UInt8)
  | inet6 (bytes : Vector UInt8 16) (scope : Option JString)
  deriving DecidableEq

def InetAddress.maxMask : InetAddress → Nat
  | inet4 .. => 32
  | inet6 .. => 128

/-! ### The runtime -/

/-- What the code takes from Android: the locale, the white space of regular
expressions, the digits of all scripts, and the parsers for addresses and URIs. A URI
gives its host, if it has one, and its port. -/
structure Platform where
  locale : Locale
  isSpace : UInt16 → Bool
  isSpace_separators : isSpace 61 = false ∧ isSpace 44 = false
  digit : UInt16 → Option Nat
  parseNumericAddress : JString → Option InetAddress
  parseURI : JString → Option (Option JString × Int32)

section
variable (p : Platform)

/-- `InetAddresses.parse`. -/
def parseAddress (address : JString) : Except ConfigError InetAddress :=
  if address = [] then .error .emptyInetAddress
  else match p.parseNumericAddress address with
  | none => .error .addressFormat
  | some address => .ok address

structure InetNetwork where
  address : InetAddress
  mask : Nat
  mask_le : mask ≤ address.maxMask
  deriving DecidableEq

/-- A mask that the address cannot have is taken for the longest one. -/
def InetNetwork.ofMask (address : InetAddress) (rawMask : Int) : InetNetwork :=
  if h : 0 ≤ rawMask ∧ rawMask.toNat ≤ address.maxMask then ⟨address, rawMask.toNat, h.2⟩
  else ⟨address, address.maxMask, Nat.le_refl _⟩

def InetNetwork.parse (input : JString) : Except ConfigError InetNetwork :=
  match lastIndexOf input 47 with
  | none => do return .ofMask (← parseAddress p input) (-1)
  | some slash =>
    match parseInt p.digit (input.drop (slash + 1)) with
    | none => .error .numberFormat
    | some rawMask => do return .ofMask (← parseAddress p (input.take slash)) rawMask.toInt

structure InetEndpoint where
  host : Option JString
  port : Int32
  deriving DecidableEq

def InetEndpoint.parse (endpoint : JString) : Except ConfigError InetEndpoint :=
  if 47 ∈ endpoint ∨ 63 ∈ endpoint ∨ 35 ∈ endpoint then .error .forbiddenEndpointChars
  else match p.parseURI (lit "wg://" ++ endpoint) with
  | none => .error .uriSyntax
  | some (host, port) => .ok ⟨host, port⟩

end

end Sewg.App
