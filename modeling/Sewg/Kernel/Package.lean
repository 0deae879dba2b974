import Sewg.Kernel.Receive

/-! What `Core_Auth` is given: the buffer `pakg` of `wg_packet_rx_poll`. It is one buffer
for all packets of a poll, it is not cleared, and the output of the lookup fills only its
first bytes. Behind them is what earlier packets and the stack left there. -/

namespace Sewg.Kernel
open CString Bridge

section
variable {w : Nat}

instance (p : Packet) (c : NoiseCounter w) : Decidable (Ready p c) :=
  decidable_of_iff (p.skb.state = .crypted ∧ (counterValidate w c p.skb.nonce.toNat).1 = true ∧
      (wgSocketEndpointFromSkb p.skb).1 = 0 ∧ (p.popen (pakgCmd p.skb.self)).isSome = true)
    ⟨fun ⟨crypted, fresh, endpoint, lookedUp⟩ => ⟨crypted, fresh, endpoint, lookedUp⟩,
      fun ⟨crypted, fresh, endpoint, lookedUp⟩ => ⟨crypted, fresh, endpoint, lookedUp⟩⟩

/-- What the lookup prints for the packet. -/
def Packet.output (p : Packet) : Bytes := (p.popen (pakgCmd p.skb.self)).getD []

variable (w) in
/-- The loop body as far as the call of `Core_Auth`, and the 512 bytes it is given. -/
def authArgument (rx : Rx w) (p : Packet) : Option Bytes :=
  if p.skb.state ≠ .crypted then none
  else
    let (fresh, _) := counterValidate w (rx.counters p.skb.keypair) p.skb.nonce.toNat
    if !fresh then none
    else
      let (ret, _) := wgSocketEndpointFromSkb p.skb
      if ret ≠ 0 then none
      else
        let (ret, pakg) := wgSocketPakgFromSkb w p.popen rx.pakg p.skb.self
        if ret ≠ 0 then none else some (pakg.read 512)

theorem pakgFromSkb_eq (p : Packet) (pakg : Mem) (h : LookedUp p) :
    wgSocketPakgFromSkb w p.popen pakg p.skb.self = (0, fgets pakg (w / 8) p.output) := by
  obtain ⟨output, ho⟩ := Option.isSome_iff_exists.mp h
  simp [wgSocketPakgFromSkb, runcmd, Packet.output, ho]

/-- `Core_Auth` is called for the packets that are ready, with the output over what was in
the buffer; other packets leave the buffer and the requests alone. -/
theorem rxPacket_cases (rx : Rx w) (p : Packet) :
    (Ready p (rx.counters p.skb.keypair) ∧
      authArgument w rx p = some ((fgets rx.pakg (w / 8) p.output).read 512) ∧
      (rxPacket w rx p).2.pakg = fgets rx.pakg (w / 8) p.output ∧
      (rxPacket w rx p).2.globals =
        (coreAuth rx.globals (fgets rx.pakg (w / 8) p.output) p.auth).2) ∨
    (¬Ready p (rx.counters p.skb.keypair) ∧ authArgument w rx p = none ∧
      (rxPacket w rx p).2.pakg = rx.pakg) := by
  unfold rxPacket authArgument
  by_cases hs : p.skb.state = .crypted
  · by_cases hf : (counterValidate w (rx.counters p.skb.keypair) p.skb.nonce.toNat).1 = true
    · by_cases he : (wgSocketEndpointFromSkb p.skb).1 = 0
      · by_cases hl : LookedUp p
        · simp only [hs, hf, he, pakgFromSkb_eq p rx.pakg hl, ne_eq, not_true_eq_false,
            Bool.not_true, Bool.false_eq_true, ↓reduceIte]
          refine .inl ⟨⟨hs, hf, he, hl⟩, trivial, ?_⟩
          split <;> exact ⟨rfl, rfl⟩
        · have hn : p.popen (pakgCmd p.skb.self) = none := Option.not_isSome_iff_eq_none.mp hl
          simp only [hs, hf, he, wgSocketPakgFromSkb, runcmd, hn, ne_eq, not_true_eq_false,
            Bool.not_true, Bool.false_eq_true, ↓reduceIte]
          exact .inr ⟨fun h => hl h.lookedUp, rfl, rfl⟩
      · simp only [hs, hf, he, ne_eq, not_true_eq_false, not_false_eq_true, Bool.not_true,
          Bool.false_eq_true, ↓reduceIte]
        exact .inr ⟨fun h => he h.endpoint, trivial, trivial⟩
    · simp only [hs, hf, ne_eq, not_true_eq_false, Bool.not_false, ↓reduceIte]
      exact .inr ⟨fun h => hf h.fresh, trivial, trivial⟩
  · simp only [hs, ne_eq, not_false_eq_true, ↓reduceIte]
    exact .inr ⟨fun h => hs h.crypted, trivial, trivial⟩

theorem authArgument_some {rx : Rx w} {p : Packet} {bytes : Bytes}
    (h : authArgument w rx p = some bytes) : bytes = (fgets rx.pakg (w / 8) p.output).read 512 := by
  obtain ⟨-, harg, -⟩ | ⟨-, harg, -⟩ := rxPacket_cases rx p
  · exact Option.some.inj (h.symm.trans harg)
  · cases harg.symm.trans h

/-! ## The buffer along a poll -/

variable (w) in
/-- The state after some packets. -/
def rxAfter (rx : Rx w) (packets : List Packet) : Rx w :=
  packets.foldl (fun rx p => (rxPacket w rx p).2) rx

/-- The outputs the packets write to the buffer, given the receive counters before. -/
def outputs (counters : Nat → NoiseCounter w) (packets : List Packet) : List Bytes :=
  ((arrivals counters packets).filter fun a => Ready a.1 a.2).map fun a => a.1.output

variable (w) in
/-- The buffer with outputs written to its start, one over the other. -/
def overwritten (pakg : Mem) (outputs : List Bytes) : Mem :=
  outputs.foldl (fun pakg output => fgets pakg (w / 8) output) pakg

theorem rxAfter_pakg (rx : Rx w) (packets : List Packet) :
    (rxAfter w rx packets).pakg = overwritten w rx.pakg (outputs rx.counters packets) := by
  induction packets generalizing rx with
  | nil => rfl
  | cons p packets ih =>
    rw [rxAfter, List.foldl_cons, ← rxAfter, ih, rxPacket_counters, outputs, outputs, arrivals]
    obtain ⟨ready, -, hpakg, -⟩ | ⟨ready, -, hpakg⟩ := rxPacket_cases rx p
    · rw [hpakg, List.filter_cons_of_pos (by simpa using ready)]
      rfl
    · rw [hpakg, List.filter_cons_of_neg (by simpa using ready)]

/-- From the size of a pointer on the buffer is the stack's. -/
theorem overwritten_above (pakg : Mem) (outputs : List Bytes) {i : Nat} (h : w / 8 ≤ i) :
    overwritten w pakg outputs i = pakg i := by
  induction outputs generalizing pakg with
  | nil => rfl
  | cons output outputs ih =>
    rw [overwritten, List.foldl_cons, ← overwritten, ih]
    exact fgets_above pakg (Nat.le_trans (fgetsCount_le _ _) h)

/-- The bytes `Core_Auth` is given for the packet number `k` of a poll. -/
def authBytes (rx : Rx w) (ring : List Packet) (budget : Int) (k : Nat) : Option Bytes :=
  ((polled ring budget)[k]?).bind (authArgument w (rxAfter w rx ((polled ring budget).take k)))

/-- Two polls that leave the same bytes in the buffer from position `start` on, the outputs
of their first `k` packets over the stack: behind the outputs the stacks must agree, and
before that what is left of the last outputs. -/
structure SameStale (rx rx' : Rx w) (before before' : List Packet) (start : Nat) : Prop where
  stack : ∀ i, w / 8 ≤ i → i < 512 → rx.pakg i = rx'.pakg i
  outputs : ∀ i, start ≤ i → i < w / 8 → i < 512 →
    overwritten w rx.pakg (outputs rx.counters before) i =
      overwritten w rx'.pakg (outputs rx'.counters before') i

/-- For a packet with the same output in two polls `Core_Auth` is given the same bytes
exactly when the polls left the same bytes behind that output. -/
theorem authBytes_eq_iff {rx rx' : Rx w} {ring ring' : List Packet} {budget budget' : Int} {k : Nat}
    {p p' : Packet} (hp : (polled ring budget)[k]? = some p)
    (hp' : (polled ring' budget')[k]? = some p')
    (hskb : p.skb = p'.skb) (hout : p.popen (pakgCmd p.skb.self) = p'.popen (pakgCmd p.skb.self))
    {bytes bytes' : Bytes} (h : authBytes rx ring budget k = some bytes)
    (h' : authBytes rx' ring' budget' k = some bytes') :
    bytes = bytes' ↔
      SameStale rx rx' ((polled ring budget).take k) ((polled ring' budget').take k)
        (fgetsCount (w / 8) p.output) := by
  have same : p.output = p'.output := by
    rw [Packet.output, Packet.output, hout, hskb]
  rw [authBytes, hp, Option.bind_some] at h
  rw [authBytes, hp', Option.bind_some] at h'
  rw [authArgument_some h, authArgument_some h', ← same, Mem.read_eq_iff,
    rxAfter_pakg, rxAfter_pakg]
  constructor
  · intro equal
    constructor
    · intro i hw hi
      have := equal i hi
      have hcount := Nat.le_trans (fgetsCount_le (w / 8) p.output) hw
      rwa [fgets_above _ hcount, fgets_above _ hcount, overwritten_above _ _ hw,
        overwritten_above _ _ hw] at this
    · intro i hcount _ hi
      have := equal i hi
      rwa [fgets_above _ hcount, fgets_above _ hcount] at this
  · intro stale i hi
    by_cases hcount : i < fgetsCount (w / 8) p.output
    · exact fgets_below _ _ hcount
    · rw [fgets_above _ (Nat.not_lt.mp hcount), fgets_above _ (Nat.not_lt.mp hcount)]
      by_cases hw : i < w / 8
      · exact stale.outputs i (Nat.not_lt.mp hcount) hw hi
      · rw [overwritten_above _ _ (Nat.not_lt.mp hw), overwritten_above _ _ (Nat.not_lt.mp hw)]
        exact stale.stack i (Nat.not_lt.mp hw) hi

end

/-- A packet over IPv4 with this counter, for which the lookup prints `output`. -/
def printing (nonce : UInt64) (output : Bytes) : Packet where
  skb := ⟨0, .crypted, nonce, 0, .ip 0 0, 0, 0⟩
  popen := fun _ => some output
  auth := ⟨0, 0, fun _ => 0⟩

/-- The second output is longer than the first ones. -/
theorem authBytes_eq_longer :
    authBytes idle [printing 0 [97, 98], printing 1 [120, 121, 122]] 2 1 =
      authBytes idle [printing 0 [99, 100], printing 1 [120, 121, 122]] 2 1 := by
  obtain ⟨bytes, h⟩ := Option.isSome_iff_exists.mp
    (show (authBytes idle [printing 0 [97, 98], printing 1 [120, 121, 122]] 2 1).isSome =
      true by decide +kernel)
  obtain ⟨bytes', h'⟩ := Option.isSome_iff_exists.mp
    (show (authBytes idle [printing 0 [99, 100], printing 1 [120, 121, 122]] 2 1).isSome =
      true by decide +kernel)
  rw [h, h', (authBytes_eq_iff rfl rfl rfl rfl h h').mpr]
  constructor
  · intro i _ _
    rfl
  · intro i hstart hw _
    have : ∀ i < 8, 4 ≤ i →
        overwritten 64 idle.pakg (outputs idle.counters [printing 0 [97, 98]]) i =
          overwritten 64 idle.pakg (outputs idle.counters [printing 0 [99, 100]]) i := by
      decide +kernel
    exact this i hw hstart

/-- Nothing is printed for the second packet, and what is asked about it is the name of
the first one's package. -/
theorem stale_package :
    (authBytes idle [printing 0 [97], printing 1 []] 2 1).isSome ∧
    (authBytes idle [printing 0 [98], printing 1 []] 2 1).isSome ∧
    authBytes idle [printing 0 [97], printing 1 []] 2 1 ≠
      authBytes idle [printing 0 [98], printing 1 []] 2 1 := by
  decide +kernel

end Sewg.Kernel
