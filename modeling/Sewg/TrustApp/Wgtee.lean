import Sewg.TrustApp.Curve25519
import Sewg.TrustApp.File

/-! `wgtee.c`: the three key commands of the trusted app. What the C code reads
before writing it (uninitialised locals, the memory behind a buffer) is an
argument. -/

namespace Sewg.TrustApp
open CString

abbrev PATH_MAX : Nat := 4096

/-- `"/persist"` -/
def USER_DIR : Bytes := [47, 112, 101, 114, 115, 105, 115, 116]

/-- One digit of `int2char`. C's remainder keeps the sign of `id`, so a
negative `id` gives characters below `'0'`, down to `'\''`. -/
def digitChar (id : Int) : UInt8 := UInt8.ofNat (id.tmod 10 + 48).toNat

/-- Fill `name` from the right, one decimal digit each time round. -/
def int2charLoop : Nat → Int → Bytes → Bytes
  | 0, _, name => name
  | i + 1, id, name => int2charLoop i (id.tdiv 10) (digitChar id :: name)

/-- The last three digits; the others are dropped. -/
def int2char (id : Int32) : Bytes := int2charLoop 3 id.toInt []

/-- `vsnprintf` keeps `length - 1` characters. -/
def makePath (length : Nat) (text : Bytes) : Bytes := text.take (length - 1)

/-- `configfullpath` for `id`: `"%s/%s"` of the user directory and the name. -/
def configfullpath (id : Int32) : Bytes := makePath PATH_MAX (USER_DIR ++ SPLIT :: int2char id)

/-- The do-while loop of `GenerateKeyPair`, over the values `*id` takes. The
source casts the address of `random` instead of its contents, so `ids` is not
assumed to be random: any values, repetitions included. `none` while every
value so far names an existing path. -/
def drawId (s : Sfs) : List Int32 → Option (Int32 × Sfs)
  | [] => none
  | id :: ids =>
    match isFileOrDirExist s (configfullpath id) with
    | (ret, s) => if ret = 0 then drawId s ids else some (id, s)

/-- Return value, `*id`, and `pubKey` when the call wrote it. -/
structure GenerateKeyPairRsp where
  ret : Int
  id : Int32
  pubKey : Option Key
  deriving DecidableEq

/-- What `GenerateKeyPair` takes from outside: the values of `*id`, the random
secret, and the uninitialised `public`. -/
structure GenerateEnv where
  ids : List Int32
  secret : Key
  pub : Key

section
variable (ladder : Key → Key → Key)

/-- The three writes of a record, from the file that was found not to exist. -/
def writeRecord (s : Sfs) (pin : CStr) (id : Int32) (env : GenerateEnv) :
    GenerateKeyPairRsp × Sfs :=
  let path := configfullpath id
  match createFile s path (keyToHex env.secret) (WG_KEY_LEN_HEX - 1) with
  | (ret, s) =>
    if ret ≠ 0 then (⟨-1, id, none⟩, s)
    else
      let secret := curve25519GenerateSecret env.secret
      let pub := (curve25519GeneratePublic ladder env.pub secret).1
      match writeFile s path ↑(WG_KEY_LEN_HEX - 1) (keyToHex pub) (WG_KEY_LEN_HEX - 1) with
      | (ret, s) =>
        if ret ≠ 0 then (⟨-1, id, none⟩, s)
        else
          match writeFile s path ↑(2 * (WG_KEY_LEN_HEX - 1)) pin.text pin.strlen with
          | (ret, s) => if ret ≠ 0 then (⟨-1, id, none⟩, s) else (⟨0, id, some pub⟩, s)

def generateKeyPair (s : Sfs) (pin : CStr) (env : GenerateEnv) :
    Option (GenerateKeyPairRsp × Sfs) :=
  match drawId s env.ids with
  | none => none
  | some (id, s) => some (writeRecord ladder s pin id env)

end

/-- The uninitialised locals of `GetPublickeyByID`. -/
structure GetPublickeyStack where
  hex : Mem
  pub : Key

/-- Return value, and `pubKey` when the call wrote it. -/
structure GetPublickeyRsp where
  ret : Int
  pubKey : Option Key
  deriving DecidableEq

/-- Read 64 characters at `offset`, terminate them and decode them into `key`,
whose return value the callers ignore. `none` when the read fails. -/
def readHexKey (s : Sfs) (path : Bytes) (offset : Int) (hex : Mem) (key : Key) :
    Option Key × Sfs :=
  match readFile s path offset hex (WG_KEY_LEN_HEX - 1) with
  | (r, s) =>
    if r.ret ≠ 0 then (none, s)
    else (some (keyFromHex key (r.buffer.read (WG_KEY_LEN_HEX - 1))).1, s)

def getPublickeyByID (s : Sfs) (id : Int32) (stack : GetPublickeyStack) : GetPublickeyRsp × Sfs :=
  match isFileOrDirExist s (configfullpath id) with
  | (ret, s) =>
    if ret ≠ 0 then (⟨-1, none⟩, s)
    else match readHexKey s (configfullpath id) ↑(WG_KEY_LEN_HEX - 1) stack.hex stack.pub with
    | (none, s) => (⟨-1, none⟩, s)
    | (some pub, s) => (⟨0, some pub⟩, s)

/-- The uninitialised locals of `CurveMul`. The first `strlen(pin)` bytes of
`rpin` are the buffer, the others whatever lies behind it. -/
structure CurveMulStack where
  rpin : Mem
  hex : Mem
  secret : Key

/-- Return value, and `rst` when the product was computed. -/
structure CurveMulRsp where
  ret : Int
  rst : Option Key
  deriving DecidableEq

def curveMul (ladder : Key → Key → Key) (s : Sfs) (pin : CStr) (point : Key) (id : Int32)
    (stack : CurveMulStack) : CurveMulRsp × Sfs :=
  match isFileOrDirExist s (configfullpath id) with
  | (ret, s) =>
    if ret ≠ 0 then (⟨-1, none⟩, s)
    else match readFile s (configfullpath id) ↑(2 * (WG_KEY_LEN_HEX - 1)) stack.rpin pin.strlen with
    | (r, s) =>
      if r.ret ≠ 0 then (⟨-1, none⟩, s)
      else if strcmp pin.text r.buffer ≠ 0 then (⟨-1, none⟩, s)
      else match readHexKey s (configfullpath id) 0 stack.hex stack.secret with
      | (none, s) => (⟨-1, none⟩, s)
      | (some secret, s) =>
        let (rst, ok) := curve25519 ladder secret point
        (⟨if ok then 0 else 1, some rst⟩, s)

end Sewg.TrustApp
