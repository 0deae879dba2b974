import Sewg.Bridge.Core

/-! `wgtee.go` and the methods of `RootPrivateKey`, which is only the id of a key
that the trusted app keeps. -/

namespace Sewg.Go
open CString Bridge

/-- One call of the trusted app: the memory `malloc` returns for the result, and
what the transport does. -/
structure TeeCall where
  fresh : Mem
  transport : Transport

/-- The return code of the bridge is not looked at. -/
def teeGetPubKeyByID (call : TeeCall) : Bytes :=
  let (_, pubkey) := takeAnswer (call.fresh.read CUR25519_PUB_KEY_LENGTH) call.transport
  pubkey

def teeCurveMul (call : TeeCall) : Bytes :=
  let (_, rst) := takeAnswer (call.fresh.read CUR25519_PUB_KEY_LENGTH) call.transport
  rst

/-- A Go `int`, of which the trusted app gets the low 32 bits. -/
abbrev RootPrivateKey := Int64

/-- A call that was made. Only `Core_CurveMul` has a point. -/
structure Asked where
  id : Int32
  point : Option Bytes
  transport : Transport

def rootPublicKey (rk : RootPrivateKey) (call : TeeCall) : Bytes × Asked :=
  (teeGetPubKeyByID call, ⟨rk.toInt32, none, call.transport⟩)

def rootSharedSecret (rk : RootPrivateKey) (pk : Bytes) (call : TeeCall) : Bytes × Asked :=
  (teeCurveMul call, ⟨rk.toInt32, some pk, call.transport⟩)

/-- The trusted app answered the call with `SAR_OK` and these bytes. -/
def Asked.Gave (a : Asked) (bytes : Bytes) : Prop :=
  a.transport.Ok ∧ bytes = a.transport.mrsp.data.read CUR25519_PUB_KEY_LENGTH

theorem teeCurveMul_cases (call : TeeCall) :
    (call.transport.Ok ∧
      teeCurveMul call = call.transport.mrsp.data.read CUR25519_PUB_KEY_LENGTH) ∨
    (¬call.transport.Ok ∧ teeCurveMul call = call.fresh.read CUR25519_PUB_KEY_LENGTH) := by
  rcases takeAnswer_eq (call.fresh.read CUR25519_PUB_KEY_LENGTH) call.transport with
    ⟨ok, h⟩ | ⟨nok, -, h⟩
  · exact .inl ⟨ok, congrArg Prod.snd h⟩
  · exact .inr ⟨nok, h⟩

theorem teeGetPubKeyByID_ok {call : TeeCall} (h : call.transport.Ok) :
    teeGetPubKeyByID call = call.transport.mrsp.data.read CUR25519_PUB_KEY_LENGTH := by
  rcases takeAnswer_eq (call.fresh.read CUR25519_PUB_KEY_LENGTH) call.transport with
    ⟨-, h'⟩ | ⟨nok, -, -⟩
  · exact congrArg Prod.snd h'
  · exact absurd h nok

/-- A call that is answered with these bytes. -/
def answering (bytes : Mem) : TeeCall := ⟨fun _ => 0, ⟨0, SAR_OK, bytes⟩⟩

end Sewg.Go
