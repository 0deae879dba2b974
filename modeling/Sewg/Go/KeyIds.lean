import Sewg.Go.Identity
import Sewg.Go.Text

/-! Key ids on their way from a `private_key` line to the trusted app: a decimal string, a
Go `int` of 64 bits, and the `int32` of every call. -/

namespace Sewg.Go
open CString (Bytes)

/-- On an error the key is still assigned, but no caller goes on with it. -/
def RootPrivateKey.FromString (src : Bytes) : Option RootPrivateKey := Atoi src

def RootPrivateKey.IsZero (key : RootPrivateKey) : Bool := key = 0

/-- Whether there is a minus sign, and what follows the sign. -/
def sign : Bytes → Bool × Bytes
  | 43 :: rest => (false, rest)
  | 45 :: rest => (true, rest)
  | src => (false, src)

/-- The number a decimal string stands for, however large. -/
def denoted (src : Bytes) : Option Int :=
  let (negative, digits) := sign src
  if digits = [] then none
  else do
    let n := Numeral.value 10 0 (← digits.mapM decimalDigit)
    return if negative then -n else n

theorem Atoi_sign (src : Bytes) : Atoi src = (do
    if (sign src).2 = [] then none
    else
      let n := Numeral.value 10 0 (← (sign src).2.mapM decimalDigit)
      if (sign src).1 then if n ≤ 2 ^ 63 then return Int64.ofInt (-n) else none
      else if n < 2 ^ 63 then return Int64.ofInt n else none) := by
  rfl

theorem FromString_denoted {src : Bytes} {sk : RootPrivateKey}
    (h : RootPrivateKey.FromString src = some sk) : denoted src = some sk.toInt := by
  rw [RootPrivateKey.FromString, Atoi_sign] at h
  unfold denoted
  generalize sign src = signed at h ⊢
  obtain ⟨negative, digits⟩ := signed
  dsimp only at h ⊢
  split at h
  · cases h
  · rename_i hne
    obtain ⟨ds, hds, h⟩ := Option.bind_eq_some_iff.mp h
    rw [if_neg hne, hds]
    cases negative with
    | true =>
      simp only [↓reduceIte] at h
      split at h
      · cases h
        rw [Int64.toInt_ofInt_of_le (by omega) (by omega)]
        rfl
      · cases h
    | false =>
      simp only [Bool.false_eq_true, ↓reduceIte] at h
      split at h
      · cases h
        rw [Int64.toInt_ofInt_of_le (by omega) (by omega)]
        rfl
      · cases h

/-- The number fits the `int32` of the calls. -/
def FitsInt32 (n : Int) : Prop := -2 ^ 31 ≤ n ∧ n < 2 ^ 31

theorem toInt32_of_fits {sk : RootPrivateKey} (h : FitsInt32 sk.toInt) :
    sk.toInt32.toInt = sk.toInt := by
  obtain ⟨lo, hi⟩ := h
  rw [Int64.toInt_toInt32]
  exact Int.bmod_eq_of_le (by omega) (by omega)

/-! ## The calls made for a key -/

/-- What makes a device call the trusted app while it has a key. -/
inductive KeyUse
  | publicKeyLine (pk : Bytes) (call : TeeCall)
  | initiation (msg : MessageInitiation) (call : TeeCall) (now later : Int)
  | response (msg : MessageResponse) (call : TeeCall)

variable (p : Noise.Primitives)

def useKey (device : Device) : KeyUse → Device
  | .publicKeyLine pk call => applySetting device (.publicKey pk call)
  | .initiation msg call now later => (consumeMessageInitiation p device msg call now later).2
  | .response msg call => (consumeMessageResponse p device msg call).2

/-- `private_key`, and whatever uses the key from then on. -/
def keyRun (device : Device) (sk : RootPrivateKey) (pubCall : TeeCall)
    (calls : Nat → TeeCall × TeeCall) (uses : List KeyUse) : Device :=
  uses.foldl (useKey p) (setPrivateKey device sk pubCall calls)

/-- From `device` on, every call was for the key that `device'` still has. -/
structure AsksOwn (device device' : Device) : Prop where
  key : device'.privateKey = device.privateKey
  calls : ∃ new, device'.asked = new ++ device.asked ∧ ∀ a ∈ new, a.id = device.privateKey.toInt32

theorem AsksOwn.none {device device' : Device} (key : device'.privateKey = device.privateKey)
    (asked : device'.asked = device.asked) : AsksOwn device device' :=
  ⟨key, [], asked, by simp⟩

theorem AsksOwn.one {device device' : Device} {point : Option Bytes} {transport : Bridge.Transport}
    (key : device'.privateKey = device.privateKey)
    (asked : device'.asked = ⟨device.privateKey.toInt32, point, transport⟩ :: device.asked) :
    AsksOwn device device' :=
  ⟨key, [_], asked, by simp⟩

theorem AsksOwn.trans {a b c : Device} (h : AsksOwn a b) (k : AsksOwn b c) : AsksOwn a c := by
  obtain ⟨key, new, asked, ids⟩ := h
  obtain ⟨key', new', asked', ids'⟩ := k
  refine ⟨key'.trans key, new' ++ new, by rw [asked', asked, List.append_assoc], ?_⟩
  intro x hx
  rcases List.mem_append.mp hx with hx | hx
  · rw [ids' x hx, key]
  · exact ids x hx

theorem publicKeyLine_asksOwn (device : Device) (pk : Bytes) (call : TeeCall) :
    AsksOwn device (applySetting device (.publicKey pk call)) := by
  unfold applySetting
  dsimp only
  split
  · exact .none rfl rfl
  · split
    · exact .none rfl rfl
    · split
      · rename_i device' h
        obtain ⟨-, -, rfl⟩ := newPeer_ok h
        exact .one rfl rfl
      · exact .none rfl rfl

theorem consumeMessageInitiation_asksOwn (device : Device) (msg : MessageInitiation)
    (call : TeeCall) (now later : Int) :
    AsksOwn device (consumeMessageInitiation p device msg call now later).2 := by
  unfold consumeMessageInitiation
  split
  · exact .none rfl rfl
  · dsimp only
    split
    · exact .one rfl rfl
    · split
      · exact .one rfl rfl
      · split <;> exact .one rfl rfl

theorem consumeMessageResponse_asksOwn (device : Device) (msg : MessageResponse) (call : TeeCall) :
    AsksOwn device (consumeMessageResponse p device msg call).2 := by
  unfold consumeMessageResponse
  split
  · exact .none rfl rfl
  · split
    · exact .none rfl rfl
    · exact .none rfl rfl
    · dsimp only
      split
      · exact .none rfl rfl
      · split <;> exact .one rfl rfl

theorem useKey_asksOwn (device : Device) (use : KeyUse) : AsksOwn device (useKey p device use) := by
  cases use with
  | publicKeyLine pk call => exact publicKeyLine_asksOwn device pk call
  | initiation msg call now later =>
    exact consumeMessageInitiation_asksOwn p device msg call now later
  | response msg call => exact consumeMessageResponse_asksOwn p device msg call

theorem uses_asksOwn (device : Device) (uses : List KeyUse) :
    AsksOwn device (uses.foldl (useKey p) device) := by
  induction uses generalizing device with
  | nil => exact .none rfl rfl
  | cons use uses ih => exact (useKey_asksOwn p device use).trans (ih _)

theorem precompute_asks (sk : RootPrivateKey) (calls : TeeCall × TeeCall) (h : Handshake) :
    ∀ a ∈ (precompute sk calls h).2, a.id = sk.toInt32 := by
  unfold precompute
  split
  · simp
  · simp [rootSharedSecret]

theorem setPrivateKey_asks (device : Device) (sk : RootPrivateKey) (pubCall : TeeCall)
    (calls : Nat → TeeCall × TeeCall) :
    ∃ new, (setPrivateKey device sk pubCall calls).asked = new ++ device.asked ∧
      ∀ a ∈ new, a.id = sk.toInt32 := by
  let products := (otherPeers device (rootPublicKey sk pubCall).1).flatMap fun entry =>
    (precompute sk (calls entry.2) (device.peers entry.2).handshake).2
  refine ⟨products ++ [(rootPublicKey sk pubCall).2], ?_, ?_⟩
  · rw [List.append_assoc]
    rfl
  · intro a ha
    rcases List.mem_append.mp ha with ha | ha
    · obtain ⟨entry, -, ha⟩ := List.mem_flatMap.mp ha
      exact precompute_asks sk _ _ a ha
    · rw [List.mem_singleton.mp ha]
      rfl

/-- Every call from the `private_key` line on has the id of its key. -/
theorem keyRun_asks (device : Device) (sk : RootPrivateKey) (pubCall : TeeCall)
    (calls : Nat → TeeCall × TeeCall) (uses : List KeyUse) :
    ∃ new, (keyRun p device sk pubCall calls uses).asked = new ++ device.asked ∧
      ∀ a ∈ new, a.id = sk.toInt32 := by
  obtain ⟨-, later, asked, ids⟩ := uses_asksOwn p (setPrivateKey device sk pubCall calls) uses
  obtain ⟨first, asked', ids'⟩ := setPrivateKey_asks device sk pubCall calls
  refine ⟨later ++ first, by rw [keyRun, asked, asked', List.append_assoc], ?_⟩
  intro a ha
  rcases List.mem_append.mp ha with ha | ha
  · exact ids a ha
  · exact ids' a ha

/-- The key of an accepted string is used as the string says: every call has the number as
its id, and the key counts as absent exactly when the id is 0. -/
structure UsedAsDenoted (value : Bytes) (sk : RootPrivateKey) : Prop where
  calls : ∀ n, denoted value = some n → ∀ device pubCall calls uses,
    ∃ new, (keyRun p device sk pubCall calls uses).asked = new ++ device.asked ∧
      ∀ a ∈ new, a.id.toInt = n
  absent : sk.IsZero = true ↔ sk.toInt32 = 0

/-- That is so exactly when the number fits an `int32`. Two such strings for one id denote
one number. -/
theorem usedAsDenoted_iff {value : Bytes} {sk : RootPrivateKey}
    (accepted : RootPrivateKey.FromString value = some sk) :
    (UsedAsDenoted p value sk ↔ ∃ n, denoted value = some n ∧ FitsInt32 n) ∧
      ∀ value' sk', RootPrivateKey.FromString value' = some sk' →
        UsedAsDenoted p value sk → UsedAsDenoted p value' sk' → sk.toInt32 = sk'.toInt32 →
          denoted value = denoted value' := by
  have narrow {value : Bytes} {sk : RootPrivateKey}
      (accepted : RootPrivateKey.FromString value = some sk) (h : UsedAsDenoted p value sk) :
      sk.toInt32.toInt = sk.toInt := by
    let silent : TeeCall := ⟨fun _ => 0, 0, 0, fun _ => 0⟩
    obtain ⟨new, asked, ids⟩ := h.calls _ (FromString_denoted accepted) newDevice silent
      (fun _ => (silent, silent)) []
    have called : ⟨sk.toInt32, none, silent.transport⟩ ∈ new := by
      rw [show newDevice.asked = [] from rfl, List.append_nil] at asked
      rw [← asked]
      exact List.mem_append_right _ List.mem_cons_self
    exact ids _ called
  have hn := FromString_denoted accepted
  refine ⟨⟨fun h => ⟨_, hn, ?_⟩, ?_⟩, ?_⟩
  · rw [← narrow accepted h]
    exact ⟨Int32.le_toInt _, Int32.toInt_lt _⟩
  · rintro ⟨n, hd, fits⟩
    cases hn.symm.trans hd
    have same := toInt32_of_fits fits
    constructor
    · intro n hd' device pubCall calls uses
      cases hn.symm.trans hd'
      obtain ⟨new, asked, ids⟩ := keyRun_asks p device sk pubCall calls uses
      exact ⟨new, asked, fun a ha => by rw [ids a ha, same]⟩
    · rw [RootPrivateKey.IsZero, decide_eq_true_iff, ← Int64.toInt_inj, ← Int32.toInt_inj, same]
      rfl
  · intro value' sk' accepted' h h' hid
    rw [hn, FromString_denoted accepted', ← narrow accepted h, ← narrow accepted' h', hid]

theorem usedAsDenoted_seven :
    (UsedAsDenoted Noise.plain (ascii "7") 7 ↔ ∃ n, denoted (ascii "7") = some n ∧ FitsInt32 n) ∧
      ∀ value' sk', RootPrivateKey.FromString value' = some sk' →
        UsedAsDenoted Noise.plain (ascii "7") 7 → UsedAsDenoted Noise.plain value' sk' →
          Int64.toInt32 7 = sk'.toInt32 → denoted (ascii "7") = denoted value' :=
  usedAsDenoted_iff Noise.plain
    (show RootPrivateKey.FromString (ascii "7") = some 7 by decide +kernel)

/-- `4294967297` uses the key with id 1, like `1`, and `4294967296` uses the key with id 0
without being treated as absent. -/
theorem key_ids_confused :
    RootPrivateKey.FromString (ascii "4294967297") = some 4294967297 ∧
      RootPrivateKey.FromString (ascii "1") = some 1 ∧
      denoted (ascii "4294967297") ≠ denoted (ascii "1") ∧
    RootPrivateKey.FromString (ascii "4294967296") = some 4294967296 ∧
      RootPrivateKey.IsZero 4294967296 = false ∧
    ∀ pubCall calls,
      (setPrivateKey newDevice 4294967297 pubCall calls).asked.map (·.id) = [1] ∧
      (setPrivateKey newDevice 1 pubCall calls).asked.map (·.id) = [1] ∧
      (setPrivateKey newDevice 4294967296 pubCall calls).asked.map (·.id) = [0] := by
  refine ⟨by decide +kernel, by decide +kernel, by decide +kernel, by decide +kernel, by decide, ?_⟩
  intro pubCall calls
  exact ⟨rfl, rfl, rfl⟩

end Sewg.Go
