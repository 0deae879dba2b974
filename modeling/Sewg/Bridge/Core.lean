import Sewg.Lib.CString

/-! The C bridge to the trusted app, `wgtee.c` of the kernel and the C part of
`wgtee.go`: one request and one response buffer for all calls. -/

namespace Sewg.Bridge
open CString

def SAR_OK : UInt32 := 0
def SAR_TEECOMMERR : UInt32 := 0x0A000034

def GetPublickeyByID_CMD : UInt32 := 3
def CurveMul_CMD : UInt32 := 4
def Auth_CMD : UInt32 := 5

def CUR25519_PUB_KEY_LENGTH : Nat := 32

structure TsSend where
  cmd : UInt32
  data : Mem

structure TsRsp where
  ret : UInt32
  data : Mem

/-- `mreq` and `mrsp`. -/
structure Globals where
  mreq : TsSend
  mrsp : TsRsp

/-- One `ts_ca_send` or `ts_ca_ui`: its return value, and the response buffer as
it leaves it. -/
structure Transport where
  rc : Int32
  mrsp : TsRsp

/-- An `int` as it lies in the request. -/
def le32 (i : Int32) : Bytes :=
  let n := i.toUInt32.toNat
  [.ofNat n, .ofNat (n / 2 ^ 8), .ofNat (n / 2 ^ 16), .ofNat (n / 2 ^ 24)]

def sendGetPublickeyByID (mreq : TsSend) (ID : Int32) : TsSend :=
  { cmd := GetPublickeyByID_CMD, data := mreq.data.write (le32 ID) }

def sendCurveMul (mreq : TsSend) (ID : Int32) (point : Bytes) : TsSend :=
  { cmd := CurveMul_CMD, data := mreq.data.write (le32 ID ++ point) }

/-- `send` is declared as a `CurveMul_send_t`, which has no `pakg`; the cast names `Auth_send_t`. -/
def sendAuth (mreq : TsSend) (pakg : Mem) : TsSend :=
  { cmd := Auth_CMD, data := mreq.data.write (pakg.read 512) }

/-- What `mrsp.ret` is preset to, so that a call the app does not answer fails. -/
def preset (mrsp : TsRsp) : TsRsp := { mrsp with ret := SAR_TEECOMMERR }

/-- The end of a call: the return value, and the destination buffer, which is
written only on `SAR_OK`. -/
def takeAnswer (dst : Bytes) (t : Transport) : UInt32 × Bytes :=
  if t.rc = 0 then
    if t.mrsp.ret = SAR_OK then (t.mrsp.ret, t.mrsp.data.read CUR25519_PUB_KEY_LENGTH)
    else (t.mrsp.ret, dst)
  else (SAR_TEECOMMERR, dst)

def coreGetPublickeyByID (g : Globals) (pubkey : Bytes) (ID : Int32) (t : Transport) :
    (UInt32 × Bytes) × Globals :=
  (takeAnswer pubkey t, ⟨sendGetPublickeyByID g.mreq ID, t.mrsp⟩)

def coreCurveMul (g : Globals) (rst point : Bytes) (ID : Int32) (t : Transport) :
    (UInt32 × Bytes) × Globals :=
  (takeAnswer rst t, ⟨sendCurveMul g.mreq ID point, t.mrsp⟩)

/-- The answer is never looked at. -/
def coreAuth (g : Globals) (pakg : Mem) (t : Transport) : UInt32 × Globals :=
  let ret := SAR_TEECOMMERR
  (if t.rc = 0 then ret else ret, ⟨sendAuth g.mreq pakg, t.mrsp⟩)

/-- The trusted app answered, and with `SAR_OK`. -/
def Transport.Ok (t : Transport) : Prop := t.rc = 0 ∧ t.mrsp.ret = SAR_OK

instance (t : Transport) : Decidable t.Ok := inferInstanceAs (Decidable (_ ∧ _))

theorem takeAnswer_eq (dst : Bytes) (t : Transport) :
    (t.Ok ∧ takeAnswer dst t = (SAR_OK, t.mrsp.data.read CUR25519_PUB_KEY_LENGTH)) ∨
    (¬t.Ok ∧ (takeAnswer dst t).1 ≠ SAR_OK ∧ (takeAnswer dst t).2 = dst) := by
  unfold takeAnswer Transport.Ok
  split
  · rename_i hrc
    split
    · rename_i hret
      exact .inl ⟨⟨hrc, hret⟩, by rw [hret]⟩
    · rename_i hret
      exact .inr ⟨fun h => hret h.2, hret, rfl⟩
  · rename_i hrc
    exact .inr ⟨fun h => hrc h.1, show SAR_TEECOMMERR ≠ SAR_OK by decide, rfl⟩

theorem coreAuth_ret (g : Globals) (pakg : Mem) (t : Transport) :
    (coreAuth g pakg t).1 = SAR_TEECOMMERR := by
  simp only [coreAuth, ite_self]

end Sewg.Bridge
