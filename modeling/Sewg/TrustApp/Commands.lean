import Sewg.Lib.Run
import Sewg.TrustApp.Record

/-! `demo.c`: the three entry points of the trusted app, and runs of commands
through them. -/

namespace Sewg.TrustApp
open CString

/-- The entry points: requests without a PIN, with a new one, with an entered one. -/
inductive Channel
  | tstaComm
  | setPinComm
  | getPinComm
  deriving DecidableEq

@[match_pattern] abbrev Initialize_CMD : Nat := 1
@[match_pattern] abbrev GenerateKeyPair_CMD : Nat := 2
@[match_pattern] abbrev GetPublickeyByID_CMD : Nat := 3
@[match_pattern] abbrev CurveMul_CMD : Nat := 4

/-- A request: what `mreq` and the PIN dialog carry, and what the handler takes
from outside. -/
structure Request where
  channel : Channel
  cmd : Nat
  pin : CStr
  id : Int32
  point : Key
  env : GenerateEnv
  getStack : GetPublickeyStack
  mulStack : CurveMulStack

inductive Reply
  | initialized (ret : Int)
  | generateKeyPair (rsp : GenerateKeyPairRsp)
  | getPublickeyByID (rsp : GetPublickeyRsp)
  | curveMul (rsp : CurveMulRsp)
  /-- The `default` branch, and the cases whose body is commented out. -/
  | untouched

def Initialize : Int := 0

section
variable (ladder : Key → Key → Key)

/-- `none` while `GenerateKeyPair` is still looking for a free id. -/
def dispatch (s : Sfs) (r : Request) : Option (Reply × Sfs) :=
  match r.channel, r.cmd with
  | .tstaComm, Initialize_CMD => some (.initialized Initialize, s)
  | .tstaComm, GetPublickeyByID_CMD =>
    let (rsp, s) := getPublickeyByID s r.id r.getStack
    some (.getPublickeyByID rsp, s)
  | .setPinComm, GenerateKeyPair_CMD =>
    (generateKeyPair ladder s r.pin r.env).map fun (rsp, s) => (.generateKeyPair rsp, s)
  | .getPinComm, CurveMul_CMD =>
    let (rsp, s) := curveMul ladder s r.pin r.point r.id r.mulStack
    some (.curveMul rsp, s)
  | _, _ => some (.untouched, s)

/-- The store, and everything answered so far, latest first. -/
structure Ta where
  store : Sfs
  history : List (Request × Reply) := []

def step (a : Ta) (r : Request) : Option Ta :=
  (dispatch ladder a.store r).map fun (reply, s) => ⟨s, (r, reply) :: a.history⟩

end

/-- The store as `makeDir("/persist")` leaves it, with no key in it. -/
def provisioned : Sfs := { files := AList.insert (USER_DIR ++ [SPLIT]) [] ∅ }

/-- A request for a new key, in which the id loop sees `id` first. -/
def newKey (pin : CStr) (id : Int32) : Request where
  channel := .setPinComm
  cmd := GenerateKeyPair_CMD
  pin := pin
  id := 0
  point := nullPoint
  env := ⟨[id], nullPoint, nullPoint⟩
  getStack := ⟨fun _ => 0, nullPoint⟩
  mulStack := ⟨fun _ => 0, fun _ => 0, nullPoint⟩

def asksKey (id : Int32) : Request :=
  { newKey ⟨[], by decide⟩ 0 with channel := .tstaComm, cmd := GetPublickeyByID_CMD, id }

/-- `GenerateKeyPair` returned 0 with this id and this public key. -/
def Issues (e : Request × Reply) (id : Int32) (pk : Key) : Prop :=
  e.2 = .generateKeyPair ⟨0, id, some pk⟩

/-- Everything a command can do: look without touching, or work on the one
path that `GenerateKeyPair` found free. -/
theorem step_cases {ladder : Key → Key → Key} {a b : Ta} {r : Request}
    (hl : a.store.faults.lists = []) (h : step ladder a r = some b) :
    ∃ reply, b.history = (r, reply) :: a.history ∧
      ((Keeps a.store b.store ∧ ∀ rsp, reply ≠ .generateKeyPair rsp) ∨
       ∃ rsp, reply = .generateKeyPair rsp ∧ r.channel = .setPinComm ∧ r.cmd = GenerateKeyPair_CMD ∧
         generateKeyPair ladder a.store r.pin r.env = some (rsp, b.store)) := by
  obtain ⟨⟨reply, s⟩, hd, rfl⟩ := Option.map_eq_some_iff.mp h
  refine ⟨reply, rfl, ?_⟩
  unfold dispatch at hd
  split at hd
  · cases hd; exact .inl ⟨Keeps.refl _, by intro _ e; cases e⟩
  · cases hd; exact .inl ⟨getPublickeyByID_keeps hl _ _, by intro _ e; cases e⟩
  · obtain ⟨⟨rsp, t⟩, hg, he⟩ := Option.map_eq_some_iff.mp hd
    cases he
    exact .inr ⟨rsp, rfl, by assumption, by assumption, hg⟩
  · cases hd; exact .inl ⟨curveMul_keeps hl _ _ _ _, by intro _ e; cases e⟩
  · cases hd; exact .inl ⟨Keeps.refl _, by intro _ e; cases e⟩

theorem newKey_issued (ladder : Key → Key → Key) (pin : CStr) (hp : pin.text ≠ []) :
    ∃ b e, Run.exec (step ladder) ⟨provisioned, []⟩ [newKey pin 5] = some b ∧
      b.history = [e] ∧ e.1.pin = pin ∧
      Issues e 5 (ladder (normalizeSecret nullPoint) basepoint) := by
  obtain ⟨t, ht⟩ := generateKeyPair_issues ladder (s := provisioned) rfl hp (newKey pin 5).env rfl
    (by decide +kernel) (by decide +kernel)
  refine ⟨⟨t, _⟩, (newKey pin 5, .generateKeyPair ⟨0, 5, _⟩), ?_, rfl, rfl, rfl⟩
  simp only [Run.exec, step, dispatch, newKey, Option.bind_eq_some_iff, Option.map_eq_some_iff]
  exact ⟨_, ⟨_, ⟨_, ht, rfl⟩, rfl⟩, rfl⟩

end Sewg.TrustApp
