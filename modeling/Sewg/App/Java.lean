import Sewg.Lib.CString
import Sewg.Lib.Numeral

/-! Java strings and numbers as the app uses them. A string is its UTF-16 code
units. -/

namespace Sewg.App

abbrev JString := List UInt16

instance : LawfulBEq JString := inferInstance

/-- A literal of the source, which has ASCII characters only. -/
def lit (s : String) : JString := s.toList.map fun c => UInt16.ofNat c.toNat

/-- `String.trim`: a blank is any unit up to a space. -/
def trim (s : JString) : JString :=
  ((s.dropWhile (· ≤ 32)).reverse.dropWhile (· ≤ 32)).reverse

/-- What `BufferedReader.readLine` returns until it returns `null`. It has read `line`,
backwards, and skips a newline that follows a carriage return. -/
def readLines : Bool → JString → JString → List JString
  | _, line, [] => if line = [] then [] else [line.reverse]
  | skipLF, line, c :: rest =>
    if c = 10 then
      if skipLF then readLines false line rest else line.reverse :: readLines false [] rest
    else if c = 13 then line.reverse :: readLines true [] rest
    else readLines false (c :: line) rest

/-- `String.split`: trailing empty strings are dropped, unless nothing was split. -/
def splitResult : List JString → List JString
  | [piece] => [piece]
  | pieces => (pieces.reverse.dropWhile (· = [])).reverse

def lastIndexOf (s : JString) (c : UInt16) : Option Nat :=
  (s.reverse.idxOf? c).map (s.length - 1 - ·)

/-- The part of a locale that case mapping depends on. -/
structure Locale where
  toLowerCase : JString → JString

/-- `Integer.parseInt(s, 10)`, which fails outside the range of an `int`. `digit` is
`Character.digit(c, 10)`, which knows the digits of all scripts. -/
def parseInt (digit : UInt16 → Option Nat) (s : JString) : Option Int32 := do
  let (negative, digits) := match s with
    | 43 :: rest => (false, rest)
    | 45 :: rest => (true, rest)
    | s => (false, s)
  if digits = [] then none
  else
    let n := Numeral.value 10 0 (← digits.mapM digit)
    if negative then if n ≤ 2 ^ 31 then return Int32.ofInt (-n) else none
    else if n < 2 ^ 31 then return Int32.ofInt n else none

end Sewg.App
