import Mathlib.Data.List.TakeWhile
import Sewg.Lib.Numeral
import Sewg.Lib.Prefixes
import Sewg.Go.AllowedIPs

/-! What reading a configuration needs of Go's library: `bufio`, `strings`, `strconv`,
`encoding/hex` and `net`, with `parseEndpoint` of `conn.go`. A Go string is its
bytes. -/

namespace Sewg.Go

open CString (Bytes)
open Words Routes

def ascii (s : String) : Bytes := s.toList.map fun c => UInt8.ofNat c.toNat

/-! ### bufio -/

def MaxScanTokenSize : Nat := 64 * 1024

def dropCR (line : Bytes) : Bytes := if line.getLast? = some 13 then line.dropLast else line

/-- The lines that `Scan` returns, each without its newline. At a line that does not
fit the buffer the scanner stops, which looks like the end of the text. -/
def scanLines (text : Bytes) : List Bytes :=
  let lines := text.splitOn 10
  -- what follows the last newline is a line only when there is something
  let lines := if lines.getLast? = some [] then lines.dropLast else lines
  (lines.takeWhile fun line => line.length < MaxScanTokenSize).map dropCR

/-! ### strconv and encoding/hex -/

def decimalDigit (c : UInt8) : Option Nat :=
  if 48 ≤ c ∧ c ≤ 57 then some (c.toNat - 48) else none

def hexDigit (c : UInt8) : Option Nat :=
  if 48 ≤ c ∧ c ≤ 57 then some (c.toNat - 48)
  else if 97 ≤ c ∧ c ≤ 102 then some (c.toNat - 87)
  else if 65 ≤ c ∧ c ≤ 70 then some (c.toNat - 55)
  else none

/-- In base 10. -/
def ParseUint (s : Bytes) (bitSize : Nat) : Option Nat := do
  if s = [] then none
  else
    let n := Numeral.value 10 0 (← s.mapM decimalDigit)
    if n < 2 ^ bitSize then return n else none

/-- A Go `int` has 64 bits. -/
def Atoi (s : Bytes) : Option Int64 := do
  let (negative, digits) := match s with
    | 43 :: rest => (false, rest)
    | 45 :: rest => (true, rest)
    | s => (false, s)
  if digits = [] then none
  else
    let n := Numeral.value 10 0 (← digits.mapM decimalDigit)
    if negative then if n ≤ 2 ^ 63 then return Int64.ofInt (-n) else none
    else if n < 2 ^ 63 then return Int64.ofInt n else none

def DecodeString : Bytes → Option Bytes
  | [] => some []
  | [_] => none
  | hi :: lo :: rest => do
    let hi ← hexDigit hi
    let lo ← hexDigit lo
    return UInt8.ofNat (hi * 16 + lo) :: (← DecodeString rest)

def loadExactHex (size : Nat) (src : Bytes) : Option Bytes := do
  let slice ← DecodeString src
  if slice.length ≠ size then none else return slice

/-! ### net -/

def big : Nat := 0xFFFFFF

/-- The loop of `dtoi` and `xtoi`: the number so far and what follows its digits. -/
def scanDigits (base : Nat) (digit : UInt8 → Option Nat) : Nat → Bytes → Option (Nat × Bytes)
  | n, [] => some (n, [])
  | n, c :: s =>
    match digit c with
    | none => some (n, c :: s)
    | some d => if n * base + d ≥ big then none else scanDigits base digit (n * base + d) s

/-- A number has a digit. -/
def scanNumber (base : Nat) (digit : UInt8 → Option Nat) (s : Bytes) : Option (Nat × Bytes) :=
  match s.head?.bind digit with
  | none => none
  | some _ => scanDigits base digit 0 s

def dtoi : Bytes → Option (Nat × Bytes) := scanNumber 10 decimalDigit

def xtoi : Bytes → Option (Nat × Bytes) := scanNumber 16 hexDigit

/-- The octets after the first. -/
def parseOctets : Nat → Bytes → Option (Bytes × Bytes)
  | 0, s => some ([], s)
  | _ + 1, [] => none
  | n + 1, c :: s =>
    if c ≠ 46 then none
    else do
      let (octet, s) ← dtoi s
      if octet > 0xFF then none
      else
        let (octets, s) ← parseOctets n s
        return (UInt8.ofNat octet :: octets, s)

/-- The four bytes, which Go keeps behind the prefix `::ffff:0:0`. -/
def parseIPv4 (s : Bytes) : Option Bytes := do
  let (octet, s) ← dtoi s
  if octet > 0xFF then none
  else
    let (octets, s) ← parseOctets (IPv4len - 1) s
    if s = [] then return UInt8.ofNat octet :: octets else none

/-- The loop of `parseIPv6`, for at most so many 16-bit chunks: what is left of the
text, the bytes so far, and how many of them stand before the ellipsis. -/
def parseChunks : Nat → Bytes → Bytes → Option Nat → Option (Bytes × Bytes × Option Nat)
  | 0, s, ip, ellipsis => some (s, ip, ellipsis)
  | chunks + 1, s, ip, ellipsis =>
    match xtoi s with
    | none => none
    | some (n, rest) =>
      if n > 0xFFFF then none
      else if rest.head? = some 46 then
        if ellipsis = none ∧ ip.length ≠ IPv6len - IPv4len then none
        else if ip.length + IPv4len > IPv6len then none
        else (parseIPv4 s).map fun ip4 => ([], ip ++ ip4, ellipsis)
      else
        let ip := ip ++ [UInt8.ofNat (n / 256), UInt8.ofNat n]
        match rest with
        | [] => some ([], ip, ellipsis)
        | [_] => none
        | c :: c' :: s =>
          if c ≠ 58 then none
          else if c' = 58 then
            if ellipsis.isSome then none
            else if s = [] then some ([], ip, some ip.length)
            else parseChunks chunks s ip (some ip.length)
          else parseChunks chunks (c' :: s) ip ellipsis

/-- The bytes after the loop, with the ellipsis filled in. -/
def expandEllipsis (ip : Bytes) : Option Nat → Option Bytes
  | none => if ip.length < IPv6len then none else some ip
  | some pos =>
    if ip.length < IPv6len then
      some (ip.take pos ++ List.replicate (IPv6len - ip.length) 0 ++ ip.drop pos)
    else none

/-- `parseIPv6` from its loop on. -/
def parseAddress (s : Bytes) (ellipsis : Option Nat) : Option Bytes := do
  let (s, ip, ellipsis) ← parseChunks (IPv6len / 2) s [] ellipsis
  if s ≠ [] then none else expandEllipsis ip ellipsis

/-- Without a zone. -/
def parseIPv6 (s : Bytes) : Option Bytes :=
  if s.take 2 = [58, 58] then
    if s.drop 2 = [] then some (List.replicate IPv6len 0) else parseAddress (s.drop 2) (some 0)
  else parseAddress s none

def ParseIP (s : Bytes) : Option Bytes :=
  match s.find? fun c => c = 46 ∨ c = 58 with
  | some 46 => parseIPv4 s
  | some _ => parseIPv6 s
  | none => none

/-- For `l` bytes. -/
def CIDRMask : Nat → Nat → Bytes
  | _, 0 => []
  | ones, l + 1 =>
    if ones ≥ 8 then 0xff :: CIDRMask (ones - 8) l
    else ~~~(0xff >>> UInt8.ofNat ones) :: CIDRMask 0 l

def Mask (ip mask : Bytes) : Bytes := List.zipWith (· &&& ·) ip mask

/-- The address of the network and the ones of its mask. -/
def ParseCIDR (s : Bytes) : Option (Bytes × Nat) := do
  match s.idxOf? 47 with
  | none => none
  | some i =>
    let ip ← (parseIPv4 (s.take i)).or (parseIPv6 (s.take i))
    let (n, rest) ← dtoi (s.drop (i + 1))
    if rest ≠ [] ∨ n > 8 * ip.length then none
    else return (Mask ip (CIDRMask n ip.length), n)

def lastIndex (s : Bytes) (c : UInt8) : Option Nat :=
  (s.reverse.idxOf? c).map (s.length - 1 - ·)

/-- The host and the port. -/
def SplitHostPort (hostport : Bytes) : Option (Bytes × Bytes) := do
  let i ← lastIndex hostport 58
  let port := hostport.drop (i + 1)
  if hostport.head? = some 91 then
    let close ← hostport.idxOf? 93
    if close + 1 ≠ i then none
    else if 91 ∈ hostport.drop 1 ∨ 93 ∈ hostport.drop (close + 1) then none
    else return ((hostport.take close).drop 1, port)
  else
    let host := hostport.take i
    if 58 ∈ host ∨ 91 ∈ hostport ∨ 93 ∈ hostport then none else return (host, port)

/-- What is not a number is looked up as the name of a service. -/
def LookupPort (services : Bytes → Option Nat) (service : Bytes) : Option Nat := do
  let (negative, digits) := match service with
    | 43 :: rest => (false, rest)
    | 45 :: rest => (true, rest)
    | s => (false, s)
  match digits.mapM decimalDigit with
  | some ds =>
    let n := Numeral.value 10 0 ds
    if n = 0 ∨ (¬negative ∧ n ≤ 65535) then return n else none
  | none =>
    let port ← services service
    if port ≤ 65535 then return port else none

/-- A `net.UDPAddr` of a numeric address, which has no zone. -/
structure Endpoint where
  IP : Bytes
  Port : Nat
  deriving DecidableEq

def To4 (ip : Bytes) : Option Bytes :=
  if ip.length = IPv4len then some ip
  else if ip.length = IPv6len ∧ ip.take 12 = List.replicate 10 0 ++ [0xff, 0xff]
    then some (ip.drop 12)
  else none

def parseEndpoint (services : Bytes → Option Nat) (s : Bytes) : Option Endpoint := do
  let (host, port) ← SplitHostPort s
  let ip ← ParseIP host
  let port ← LookupPort services port
  return ⟨(To4 ip).getD ip, port⟩

/-! ### Masks -/

theorem CIDRMask_succ (ones l : Nat) :
    CIDRMask ones (l + 1) = topBits ones :: CIDRMask (ones - 8) l := by
  rw [CIDRMask]
  split
  · rename_i h
    rw [topBits_of_le h]
  · rename_i h
    rw [Nat.sub_eq_zero_of_le (by omega : ones ≤ 8)]
    congr 1
    interval_cases ones <;> rfl

theorem Mask_CIDRMask (n : Nat) (ip : Bytes) : Mask ip (CIDRMask n ip.length) = maskBits n ip := by
  induction ip generalizing n with
  | nil => rfl
  | cons b ip ih =>
    rw [List.length_cons, CIDRMask_succ, Mask, List.zipWith_cons_cons, ← Mask, ih, maskBits]

end Sewg.Go
