import Sewg.Go.Text

/-! `cookie.go`: the two MACs at the end of a handshake message, and the cookie that the
second one needs. Times are nanoseconds; `Sub` saturates far above what it is compared
with. -/

namespace Sewg.Go.Cookie
open CString (Bytes)

/-- `blake2s.Size128` -/
def Size128 : Nat := 16

abbrev Mac := Vector UInt8 Size128

/-- Unkeyed BLAKE2s-256, keyed BLAKE2s-128 (key, then input), and XChaCha20-Poly1305 (nonce,
text, associated data, key). -/
structure Primitives where
  hash : Bytes → Bytes
  mac : Bytes → Bytes → Mac
  encrypt : Bytes → Bytes → Bytes → Bytes → Bytes
  decrypt : Bytes → Bytes → Bytes → Bytes → Option Bytes

/-- Decryption undoes encryption. -/
def Primitives.Inverse (p : Primitives) : Prop :=
  ∀ nonce text additionalData key,
    p.decrypt nonce (p.encrypt nonce text additionalData key) additionalData key = some text

def CookieRefreshTime : Int := 120000000000

def expired (set now : Int) : Bool := now - set > CookieRefreshTime

/-- The zero `time.Time`. -/
def never : Int := -62135596800000000000

structure CookieChecker where
  mac1Key : Bytes
  secret : Bytes
  secretSet : Int
  encryptionKey : Bytes

structure CookieGenerator where
  mac1Key : Bytes
  cookie : Bytes
  cookieSet : Int
  hasLastMAC1 : Bool
  lastMAC1 : Bytes
  encryptionKey : Bytes

def MessageCookieReplyType : UInt32 := 3

structure MessageCookieReply where
  type : UInt32
  receiver : UInt32
  nonce : Bytes
  cookie : Bytes

section
variable (p : Primitives)

def mac1KeyOf (pk : Bytes) : Bytes := p.hash (ascii "mac1----" ++ pk)

def encryptionKeyOf (pk : Bytes) : Bytes := p.hash (ascii "cookie--" ++ pk)

/-! ## The checker -/

namespace CookieChecker

def Init (st : CookieChecker) (pk : Bytes) : CookieChecker :=
  { st with mac1Key := mac1KeyOf p pk, encryptionKey := encryptionKeyOf p pk, secretSet := never }

/-- `none` is a panic: the message has no room for two MACs. -/
def CheckMAC1 (st : CookieChecker) (msg : Bytes) : Option Bool :=
  if msg.length < 2 * Size128 then none
  else
    let smac2 := msg.length - Size128
    let smac1 := smac2 - Size128
    let mac1 := p.mac st.mac1Key (msg.take smac1)
    some (mac1.toList = (msg.take smac2).drop smac1)

def CheckMAC2 (st : CookieChecker) (msg src : Bytes) (now : Int) : Option Bool :=
  if expired st.secretSet now then some false
  else if msg.length < Size128 then none
  else
    let cookie := p.mac st.secret src
    let smac2 := msg.length - Size128
    let mac2 := p.mac cookie.toList (msg.take smac2)
    some (mac2.toList = msg.drop smac2)

/-- What a `rand.Read` leaves in its buffer, and its error. -/
structure Rand where
  bytes : Bytes
  err : Option String

/-- What `CreateReply` takes from outside. The clock is read again when the secret is set. -/
structure ReplyEnv where
  now : Int
  later : Int
  secret : Rand
  nonce : Rand

/-- The secret is made anew when it is too old. After an error it is changed all the same,
with its old time. -/
def refresh (st : CookieChecker) (env : ReplyEnv) : Option String × CookieChecker :=
  if expired st.secretSet env.now then
    match env.secret.err with
    | some err => (some err, { st with secret := env.secret.bytes })
    | none => (none, { st with secret := env.secret.bytes, secretSet := env.later })
  else (none, st)

def CreateReply (st : CookieChecker) (msg : Bytes) (recv : UInt32) (src : Bytes) (env : ReplyEnv) :
    Option (Except String MessageCookieReply × CookieChecker) :=
  match st.refresh env with
  | (some err, st) => some (.error err, st)
  | (none, st) =>
    let cookie := p.mac st.secret src
    match env.nonce.err with
    | some err => some (.error err, st)
    | none =>
      if msg.length < 2 * Size128 then none
      else
        let smac2 := msg.length - Size128
        let smac1 := smac2 - Size128
        let sealed := p.encrypt env.nonce.bytes cookie.toList ((msg.take smac2).drop smac1)
          st.encryptionKey
        some (.ok ⟨MessageCookieReplyType, recv, env.nonce.bytes, sealed⟩, st)

end CookieChecker

/-! ## The generator -/

namespace CookieGenerator

def Init (st : CookieGenerator) (pk : Bytes) : CookieGenerator :=
  { st with mac1Key := mac1KeyOf p pk, encryptionKey := encryptionKeyOf p pk, cookieSet := never }

def ConsumeReply (st : CookieGenerator) (msg : MessageCookieReply) (now : Int) :
    Bool × CookieGenerator :=
  if ¬st.hasLastMAC1 then (false, st)
  else match p.decrypt msg.nonce msg.cookie st.lastMAC1 st.encryptionKey with
  | none => (false, st)
  | some cookie => (true, { st with cookieSet := now, cookie })

/-- The message is written to in place: the first MAC is there when the second is computed. -/
def AddMacs (st : CookieGenerator) (msg : Bytes) (now : Int) : Option (CookieGenerator × Bytes) :=
  if msg.length < 2 * Size128 then none
  else
    let smac2 := msg.length - Size128
    let smac1 := smac2 - Size128
    let mac1 := p.mac st.mac1Key (msg.take smac1)
    let msg := msg.take smac1 ++ mac1.toList ++ msg.drop smac2
    let st := { st with lastMAC1 := mac1.toList, hasLastMAC1 := true }
    if expired st.cookieSet now then some (st, msg)
    else
      let mac2 := p.mac st.cookie (msg.take smac2)
      some (st, msg.take smac2 ++ mac2.toList)

end CookieGenerator

/-! ## Messages with their MACs -/

/-- What comes before the two MACs. -/
def bodyOf (msg : Bytes) : Bytes := msg.take (msg.length - Size128 - Size128)

/-- A message with two MACs. -/
def framed (body mac1 mac2 : Bytes) : Bytes := body ++ mac1 ++ mac2

section
variable (body : Bytes) {mac1 mac2 : Bytes} (h1 : mac1.length = Size128)
  (h2 : mac2.length = Size128)
include h1 h2

theorem framed_length : (framed body mac1 mac2).length = body.length + 2 * Size128 := by
  rw [framed, List.length_append, List.length_append, h1, h2]
  omega

theorem framed_slices :
    let msg := framed body mac1 mac2
    let smac2 := msg.length - Size128
    let smac1 := smac2 - Size128
    msg.take smac1 = body ∧ msg.take smac2 = body ++ mac1 ∧ (msg.take smac2).drop smac1 = mac1 ∧
      msg.drop smac2 = mac2 := by
  have hlen := framed_length body h1 h2
  have smac2 : (framed body mac1 mac2).length - Size128 = (body ++ mac1).length := by
    rw [List.length_append]
    omega
  have smac1 : (framed body mac1 mac2).length - Size128 - Size128 = body.length := by omega
  dsimp only
  rw [smac1, smac2]
  refine ⟨?_, List.take_left, ?_, List.drop_left⟩
  · rw [framed, List.append_assoc, List.take_left]
  · rw [framed, List.take_left, List.drop_left]

theorem CheckMAC1_framed (st : CookieChecker) :
    st.CheckMAC1 p (framed body mac1 mac2) =
      some (decide ((p.mac st.mac1Key body).toList = mac1)) := by
  have hlen := framed_length body h1 h2
  obtain ⟨hbody, -, hmac1, -⟩ := framed_slices body h1 h2
  unfold CookieChecker.CheckMAC1
  rw [if_neg (by omega)]
  dsimp only
  rw [hmac1, hbody]

theorem CheckMAC2_framed (st : CookieChecker) (src : Bytes) {now : Int}
    (fresh : now - st.secretSet ≤ CookieRefreshTime) :
    st.CheckMAC2 p (framed body mac1 mac2) src now =
      some (decide ((p.mac (p.mac st.secret src).toList (body ++ mac1)).toList = mac2)) := by
  have hlen := framed_length body h1 h2
  obtain ⟨-, hsigned, -, hmac2⟩ := framed_slices body h1 h2
  unfold CookieChecker.CheckMAC2
  rw [if_neg (by simpa [expired] using fresh), if_neg (by omega)]
  dsimp only
  rw [hsigned, hmac2]

/-- The reply carries the cookie of the source under the secret that the checker then has,
bound to the first MAC. -/
theorem CreateReply_framed (st : CookieChecker) (recv : UInt32) (src : Bytes)
    {env : CookieChecker.ReplyEnv} (hs : env.secret.err = none) (hn : env.nonce.err = none) :
    let st' := (st.refresh env).2
    st.CreateReply p (framed body mac1 mac2) recv src env =
      some (.ok ⟨MessageCookieReplyType, recv, env.nonce.bytes,
        p.encrypt env.nonce.bytes (p.mac st'.secret src).toList mac1 st'.encryptionKey⟩, st') := by
  have hlen := framed_length body h1 h2
  obtain ⟨-, -, hmac1, -⟩ := framed_slices body h1 h2
  have drawn : (st.refresh env).1 = none := by
    unfold CookieChecker.refresh
    split
    · rw [hs]
    · rfl
  dsimp only
  unfold CookieChecker.CreateReply
  generalize st.refresh env = w at drawn ⊢
  obtain ⟨err, st'⟩ := w
  cases drawn
  dsimp only
  rw [hn]
  dsimp only
  rw [if_neg (by omega), hmac1]

end

/-- What `AddMacs` leaves: the body as it was, its MAC, and the second MAC unless the cookie
is too old. -/
theorem AddMacs_eq (st : CookieGenerator) {msg : Bytes} (now : Int)
    (h : 2 * Size128 ≤ msg.length) :
    let mac1 := (p.mac st.mac1Key (bodyOf msg)).toList
    let mac2 := if expired st.cookieSet now then msg.drop (msg.length - Size128)
      else (p.mac st.cookie (bodyOf msg ++ mac1)).toList
    st.AddMacs p msg now =
      some ({ st with lastMAC1 := mac1, hasLastMAC1 := true }, framed (bodyOf msg) mac1 mac2) := by
  have cut : (bodyOf msg ++ (p.mac st.mac1Key (bodyOf msg)).toList).length =
      msg.length - Size128 := by
    rw [List.length_append, bodyOf, List.length_take, Vector.length_toList]
    omega
  unfold bodyOf at cut
  unfold CookieGenerator.AddMacs bodyOf
  rw [if_neg (by omega)]
  dsimp only
  split
  · rfl
  · rw [List.take_left' cut]
    rfl

theorem AddMacs_panics (st : CookieGenerator) {msg : Bytes} (now : Int)
    (h : msg.length < 2 * Size128) : st.AddMacs p msg now = none :=
  if_pos h

section
variable {p} {st st' : CookieGenerator} {msg msg' : Bytes} {now : Int}
  (h : st.AddMacs p msg now = some (st', msg'))
include h

theorem AddMacs_room : 2 * Size128 ≤ msg.length := by
  by_contra short
  rw [AddMacs_panics p st now (by omega)] at h
  cases h

theorem AddMacs_state :
    st' = { st with lastMAC1 := (p.mac st.mac1Key (bodyOf msg)).toList, hasLastMAC1 := true } := by
  rw [AddMacs_eq p st now (AddMacs_room h)] at h
  cases h
  rfl

theorem AddMacs_framed :
    ∃ mac2, mac2.length = Size128 ∧
      msg' = framed (bodyOf msg) (p.mac st.mac1Key (bodyOf msg)).toList mac2 := by
  have room := AddMacs_room h
  rw [AddMacs_eq p st now room] at h
  cases h
  refine ⟨_, ?_, rfl⟩
  split
  · rw [List.length_drop]
    omega
  · exact Vector.length_toList

theorem AddMacs_framed_fresh (fresh : now - st.cookieSet ≤ CookieRefreshTime) :
    msg' = framed (bodyOf msg) (p.mac st.mac1Key (bodyOf msg)).toList
      (p.mac st.cookie (bodyOf msg ++ (p.mac st.mac1Key (bodyOf msg)).toList)).toList := by
  rw [AddMacs_eq p st now (AddMacs_room h), if_neg (by simpa [expired] using fresh)] at h
  cases h
  rfl

end

/-- The two messages differ in their last 32 bytes only. -/
def SameBody (msg msg' : Bytes) : Prop :=
  msg'.length = msg.length ∧
    ∀ i, i + 2 * Size128 < msg.length → msg'[i]? = msg[i]?

theorem AddMacs_sameBody {st st' : CookieGenerator} {msg msg' : Bytes} {now : Int}
    (h : st.AddMacs p msg now = some (st', msg')) : SameBody msg msg' := by
  have room := AddMacs_room h
  obtain ⟨mac2, h2, rfl⟩ := AddMacs_framed h
  have hbody : (bodyOf msg).length = msg.length - Size128 - Size128 := by
    rw [bodyOf, List.length_take]
    omega
  refine ⟨?_, ?_⟩
  · rw [framed_length _ Vector.length_toList h2]
    omega
  · intro i hi
    rw [framed, List.append_assoc, List.getElem?_append_left (by omega), bodyOf,
      List.getElem?_take_of_lt (by omega)]

/-! ## An exchange -/

/-- The checker has the keys of `pk`. -/
structure CookieChecker.Keyed (st : CookieChecker) (pk : Bytes) : Prop where
  mac1Key : st.mac1Key = mac1KeyOf p pk
  encryptionKey : st.encryptionKey = encryptionKeyOf p pk

/-- The generator has the keys of `pk`. -/
structure CookieGenerator.Keyed (st : CookieGenerator) (pk : Bytes) : Prop where
  mac1Key : st.mac1Key = mac1KeyOf p pk
  encryptionKey : st.encryptionKey = encryptionKeyOf p pk

section
variable {p} {pk : Bytes}

theorem CookieChecker.Init_keyed (st : CookieChecker) : (st.Init p pk).Keyed p pk := ⟨rfl, rfl⟩

theorem CookieGenerator.Init_keyed (st : CookieGenerator) : (st.Init p pk).Keyed p pk := ⟨rfl, rfl⟩

theorem CookieChecker.Keyed.refresh {st : CookieChecker} (h : st.Keyed p pk)
    (env : CookieChecker.ReplyEnv) : (st.refresh env).2.Keyed p pk := by
  unfold CookieChecker.refresh
  split
  · split
    · exact ⟨h.mac1Key, h.encryptionKey⟩
    · exact ⟨h.mac1Key, h.encryptionKey⟩
  · exact h

theorem CookieGenerator.Keyed.AddMacs {st st' : CookieGenerator} (h : st.Keyed p pk)
    {msg msg' : Bytes} {now : Int} (ran : st.AddMacs p msg now = some (st', msg')) :
    st'.Keyed p pk := by
  rw [AddMacs_state ran]
  exact ⟨h.mac1Key, h.encryptionKey⟩

theorem ConsumeReply_last {st : CookieGenerator} (inverse : p.Inverse) (sent : st.hasLastMAC1)
    (type recv : UInt32) (nonce cookie : Bytes) (now : Int) :
    st.ConsumeReply p ⟨type, recv, nonce, p.encrypt nonce cookie st.lastMAC1 st.encryptionKey⟩ now =
      (true, { st with cookieSet := now, cookie }) := by
  unfold CookieGenerator.ConsumeReply
  rw [if_neg (by simp [sent]), inverse]

end

/-- When the calls of an exchange happen, and what is drawn in them. -/
structure Course where
  add1 : Int
  reply : Int
  refreshed : Int
  consume : Int
  add2 : Int
  secret : Bytes
  nonce : Bytes
  recv : UInt32

def Course.env (c : Course) : CookieChecker.ReplyEnv :=
  ⟨c.reply, c.refreshed, ⟨c.secret, none⟩, ⟨c.nonce, none⟩⟩

structure Exchanged where
  msg1 : Bytes
  msg2 : Bytes
  consumed : Bool
  generator : CookieGenerator
  checker : CookieChecker

/-- The first message gets its MACs and a reply, the reply is consumed, and the second message
gets its MACs. -/
def exchange (gen : CookieGenerator) (chk : CookieChecker) (c : Course) (msg1 msg2 src : Bytes) :
    Option Exchanged := do
  let (gen, msg1) ← gen.AddMacs p msg1 c.add1
  match ← chk.CreateReply p msg1 c.recv src c.env with
  | (.error _, _) => none
  | (.ok reply, chk) =>
    let (consumed, gen) := gen.ConsumeReply p reply c.consume
    let (gen, msg2) ← gen.AddMacs p msg2 c.add2
    some { msg1, msg2, consumed, generator := gen, checker := chk }

/-- The checker still has the secret it had. -/
structure Unrefreshed (st later : CookieChecker) : Prop where
  mac1Key : later.mac1Key = st.mac1Key
  secret : later.secret = st.secret
  secretSet : later.secretSet = st.secretSet

section
variable {p} {pk : Bytes} {gen : CookieGenerator} {chk : CookieChecker} {c : Course}
  {msg1 msg2 src : Bytes}

theorem exchange_steps (inverse : p.Inverse) (hg : gen.Keyed p pk) (hc : chk.Keyed p pk)
    (room : 2 * Size128 ≤ msg1.length) :
    ∃ gen1 msg1', gen.AddMacs p msg1 c.add1 = some (gen1, msg1') ∧
      let checker := (chk.refresh c.env).2
      let gen2 := { gen1 with
        cookieSet := c.consume, cookie := (p.mac checker.secret src).toList }
      gen2.Keyed p pk ∧
      exchange p gen chk c msg1 msg2 src = (gen2.AddMacs p msg2 c.add2).map fun (gen3, msg2') =>
        { msg1 := msg1', msg2 := msg2', consumed := true, generator := gen3, checker } := by
  obtain ⟨⟨gen1, msg1'⟩, ran⟩ : ∃ w, gen.AddMacs p msg1 c.add1 = some w :=
    ⟨_, AddMacs_eq p gen c.add1 room⟩
  have hg1 := hg.AddMacs ran
  have hc' := hc.refresh c.env
  refine ⟨gen1, msg1', ran, ⟨hg1.mac1Key, hg1.encryptionKey⟩, ?_⟩
  obtain ⟨mac2, h2, rfl⟩ := AddMacs_framed ran
  have sent : gen1.hasLastMAC1 ∧ gen1.lastMAC1 = (p.mac gen.mac1Key (bodyOf msg1)).toList := by
    rw [AddMacs_state ran]
    exact ⟨rfl, rfl⟩
  have key : (chk.refresh c.env).2.encryptionKey = gen1.encryptionKey := by
    rw [hc'.encryptionKey, hg1.encryptionKey]
  unfold exchange
  rw [ran]
  dsimp only [Option.bind_eq_bind, Option.bind_some]
  rw [CreateReply_framed p _ Vector.length_toList h2 chk c.recv src rfl rfl]
  dsimp only [Option.bind_some]
  rw [key, ← sent.2, ConsumeReply_last inverse sent.1]
  dsimp only
  generalize CookieGenerator.AddMacs p _ msg2 c.add2 = w
  cases w with
  | none => rfl
  | some w => rfl

theorem CheckMAC1_AddMacs {st st' : CookieGenerator} {later : CookieChecker} {msg msg' : Bytes}
    {now : Int} (hg : st.Keyed p pk) (key : later.mac1Key = mac1KeyOf p pk)
    (ran : st.AddMacs p msg now = some (st', msg')) : later.CheckMAC1 p msg' = some true := by
  obtain ⟨mac2, h2, rfl⟩ := AddMacs_framed ran
  rw [CheckMAC1_framed p _ Vector.length_toList h2, key, hg.mac1Key, decide_eq_true rfl]

/-- The message passes the second check if the generator has the cookie of the source. -/
theorem CheckMAC2_AddMacs {st st' : CookieGenerator} {later : CookieChecker} {msg msg' : Bytes}
    {now now' : Int} (cookie : st.cookie = (p.mac later.secret src).toList)
    (ran : st.AddMacs p msg now = some (st', msg'))
    (fresh : now - st.cookieSet ≤ CookieRefreshTime)
    (fresh' : now' - later.secretSet ≤ CookieRefreshTime) :
    later.CheckMAC2 p msg' src now' = some true := by
  rw [AddMacs_framed_fresh ran fresh,
    CheckMAC2_framed p _ Vector.length_toList Vector.length_toList later src fresh', cookie,
    decide_eq_true rfl]

/-- After an exchange both messages pass the first check and the second message passes the
second, as long as neither the secret nor the cookie is too old and the checker has not made a
new secret. -/
theorem exchange_accepted (inverse : p.Inverse) (hg : gen.Keyed p pk) (hc : chk.Keyed p pk)
    (room : 2 * Size128 ≤ msg1.length) :
    ((exchange p gen chk c msg1 msg2 src).isSome ↔ 2 * Size128 ≤ msg2.length) ∧
    (∀ r, exchange p gen chk c msg1 msg2 src = some r →
      r.consumed = true ∧
      ∀ later, Unrefreshed r.checker later →
        later.CheckMAC1 p r.msg1 = some true ∧ later.CheckMAC1 p r.msg2 = some true ∧
        ∀ now, now - later.secretSet ≤ CookieRefreshTime →
          c.add2 - c.consume ≤ CookieRefreshTime →
          later.CheckMAC2 p r.msg2 src now = some true) ∧
    ∀ (st : CookieGenerator) msg now st' msg',
      st.AddMacs p msg now = some (st', msg') → SameBody msg msg' := by
  obtain ⟨gen1, msg1', ran1, hg2, steps⟩ := exchange_steps inverse hg hc room
  rw [steps]
  refine ⟨?_, ?_, fun _ _ _ _ _ => AddMacs_sameBody p⟩
  · rw [Option.isSome_map]
    constructor
    · intro returns
      obtain ⟨w, ran2⟩ := Option.isSome_iff_exists.mp returns
      exact AddMacs_room ran2
    · intro room2
      rw [AddMacs_eq p _ c.add2 room2]
      rfl
  · intro r hr
    obtain ⟨⟨gen3, msg2'⟩, ran2, rfl⟩ := Option.map_eq_some_iff.mp hr
    refine ⟨rfl, ?_⟩
    intro later same
    have key : later.mac1Key = mac1KeyOf p pk := same.mac1Key.trans (hc.refresh c.env).mac1Key
    refine ⟨CheckMAC1_AddMacs hg key ran1, CheckMAC1_AddMacs hg2 key ran2, ?_⟩
    intro now freshSecret freshCookie
    refine CheckMAC2_AddMacs ?_ ran2 freshCookie freshSecret
    rw [same.secret]

end

end

/-- Primitives that hide nothing. -/
def plain : Primitives where
  hash := id
  mac key input := Vector.ofFn fun i => (key ++ input).getD i 0
  encrypt _ text _ _ := text
  decrypt _ text _ _ := some text

theorem exchange_accepted_plain :
    let pk := List.replicate 32 7
    let gen := CookieGenerator.Init plain ⟨[], [], 0, false, [], []⟩ pk
    let chk := CookieChecker.Init plain ⟨[], [], 0, []⟩ pk
    let c : Course := ⟨0, 1, 2, 3, 4, List.replicate 32 9, List.replicate 24 5, 8⟩
    let msg := List.replicate 40 1
    ∃ r, exchange plain gen chk c msg msg [10, 0, 0, 1] = some r ∧
      r.checker.CheckMAC2 plain r.msg2 [10, 0, 0, 1] 5 = some true := by
  intro pk gen chk c msg
  obtain ⟨returns, accepted, -⟩ := @exchange_accepted plain pk gen chk c msg msg [10, 0, 0, 1]
    (fun _ _ _ _ => rfl) (CookieGenerator.Init_keyed _) (CookieChecker.Init_keyed _) (by decide)
  obtain ⟨r, hr⟩ := Option.isSome_iff_exists.mp (returns.mpr (by decide))
  have set :
      (exchange plain gen chk c msg msg [10, 0, 0, 1]).map (·.checker.secretSet) = some 2 := by
    decide +kernel
  rw [hr] at set
  have set : r.checker.secretSet = 2 := Option.some.inj set
  obtain ⟨-, checked⟩ := accepted r hr
  refine ⟨r, hr, (checked r.checker ⟨rfl, rfl, rfl⟩).2.2 5 ?_ (by decide)⟩
  rw [set]
  decide

end Sewg.Go.Cookie
