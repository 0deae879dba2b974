import Mathlib.Data.List.Induction
import Mathlib.Data.Set.Defs
import Sewg.Lib.CString

/-! The primitives of a Noise handshake as pure functions on byte strings. -/

namespace Noise
open CString

structure Primitives where
  hash : Bytes → Bytes
  /-- Key, then input. -/
  hmac : Bytes → Bytes → Bytes
  /-- Scalar, then point. -/
  dh : Bytes → Bytes → Bytes
  base : Bytes
  /-- Key, text and associated data, with the nonce zero. -/
  aeadSeal : Bytes → Bytes → Bytes → Bytes
  aeadOpen : Bytes → Bytes → Bytes → Option Bytes

/-- The text of a label. -/
def label (s : String) : Bytes := s.toUTF8.data.toList

/-- Nothing but zero bytes. -/
def Null (b : Bytes) : Prop := ∀ x ∈ b, x = 0

instance (b : Bytes) : Decidable (Null b) := inferInstanceAs (Decidable (∀ x ∈ b, x = 0))

/-- Primitives that hide nothing: they meet every law asked of primitives here,
and can be computed with. -/
def plain : Primitives where
  hash := id
  hmac key input := key ++ 0 :: input.flatMap fun b => [b, 1]
  dh scalar point := List.zipWith (· ^^^ ·) scalar point
  base := List.replicate 32 0
  aeadSeal _ text _ := text
  aeadOpen _ text _ := some text

theorem plain_hmac_nil (key : Bytes) : plain.hmac key [] = key ++ [0] := rfl

theorem plain_hmac_concat (key xs : Bytes) (b : UInt8) :
    plain.hmac key (xs ++ [b]) = plain.hmac key xs ++ [b, 1] := by
  simp [plain]

/-- The input can be read off from the end: it stops at the first byte there that
is not a one. -/
theorem plain_hmac_injective {key input key' input' : Bytes}
    (h : plain.hmac key input = plain.hmac key' input') : key = key' ∧ input = input' := by
  induction input using List.reverseRecOn generalizing input' with
  | nil =>
    cases input' using List.reverseRecOn with
    | nil => exact ⟨(List.append_inj' h rfl).1, rfl⟩
    | append_singleton ys c =>
      rw [plain_hmac_nil, plain_hmac_concat] at h
      have last := congrArg List.getLast? h
      simp at last
  | append_singleton xs b ih =>
    cases input' using List.reverseRecOn with
    | nil =>
      rw [plain_hmac_nil, plain_hmac_concat] at h
      have last := congrArg List.getLast? h
      simp at last
    | append_singleton ys c =>
      rw [plain_hmac_concat, plain_hmac_concat] at h
      obtain ⟨front, back⟩ := List.append_inj' h rfl
      obtain ⟨rfl, rfl⟩ := ih front
      obtain rfl : b = c := (List.cons.inj back).1
      exact ⟨rfl, rfl⟩

/-! ### Chaining keys -/

section
variable (p : Primitives)

/-- No two of these calls of HMAC, each a key and an input, have the same output. -/
def Primitives.CollisionFree (calls : Set (Bytes × Bytes)) : Prop :=
  ∀ a ∈ calls, ∀ b ∈ calls, p.hmac a.1 a.2 = p.hmac b.1 b.2 → a = b

theorem plain_collisionFree (calls : Set (Bytes × Bytes)) : plain.CollisionFree calls := by
  intro a _ b _ same
  obtain ⟨key, input⟩ := plain_hmac_injective same
  exact Prod.ext key input

/-- The first output of the key derivation, which is the next chaining key. -/
def Primitives.mix (c d : Bytes) : Bytes := p.hmac (p.hmac c d) [1]

/-- The second output. -/
def Primitives.second (c d : Bytes) : Bytes := p.hmac (p.hmac c d) (p.mix c d ++ [2])

/-- The calls of HMAC for both. -/
def Primitives.kdfCalls (c d : Bytes) : List (Bytes × Bytes) :=
  [(c, d), (p.hmac c d, [1]), (p.hmac c d, p.mix c d ++ [2])]

/-- The chaining key after the inputs `ds`. -/
def Primitives.chain (c : Bytes) (ds : List Bytes) : Bytes := ds.foldl p.mix c

/-- The calls of HMAC on the way. -/
def Primitives.chainCalls : Bytes → List Bytes → List (Bytes × Bytes)
  | _, [] => []
  | c, d :: ds => (c, d) :: (p.hmac c d, [1]) :: chainCalls (p.mix c d) ds

variable (calls : Set (Bytes × Bytes))

/-- `key` is the chaining key after `ds`, and the way there is among the `calls`. -/
structure Chained (c : Bytes) (ds : List Bytes) (key : Bytes) : Prop where
  eq : key = p.chain c ds
  made : ∀ call ∈ p.chainCalls c ds, call ∈ calls

/-- The chaining key of an initiation with this ephemeral key, from the chaining key `start`. -/
def Initiated (start ephemeral key : Bytes) : Prop :=
  ∃ es ss, Chained p calls start [ephemeral, es, ss] key

/-- The chaining key after a response to it. -/
def Answered (sent key : Bytes) : Prop :=
  ∃ remote ee se psk, Chained p calls sent [remote, ee, se, psk] key

/-- The chaining key a session of the initiator comes from. -/
def InitiatorKey (start ephemeral key : Bytes) : Prop :=
  ∃ sent, Initiated p calls start ephemeral sent ∧ Answered p calls sent key

/-- The chaining key a session of the responder comes from. -/
def ResponderKey (ephemeral key : Bytes) : Prop :=
  ∃ received ee se psk, Chained p calls received [ephemeral, ee, se, psk] key

variable {p calls} (free : p.CollisionFree calls) {c c' d d' e e' start key : Bytes}
include free

theorem mix_injective (h : (c, d) ∈ calls ∧ (p.hmac c d, [1]) ∈ calls)
    (h' : (c', d') ∈ calls ∧ (p.hmac c' d', [1]) ∈ calls) (same : p.mix c d = p.mix c' d') :
    c = c' ∧ d = d' := by
  have inner := (Prod.mk.inj (free _ h.2 _ h'.2 same)).1
  exact Prod.mk.inj (free _ h.1 _ h'.1 inner)

theorem second_injective (h : ∀ call ∈ p.kdfCalls c d, call ∈ calls)
    (h' : ∀ call ∈ p.kdfCalls c' d', call ∈ calls) (same : p.second c d = p.second c' d') :
    c = c' ∧ d = d' := by
  simp only [Primitives.kdfCalls, List.forall_mem_cons] at h h'
  have inner := (Prod.mk.inj (free _ h.2.2.1 _ h'.2.2.1 same)).1
  exact Prod.mk.inj (free _ h.1 _ h'.1 inner)

/-- The two outputs come from different inputs, `[1]` and one that ends in `2`. -/
theorem mix_ne_second (h : ∀ call ∈ p.kdfCalls c d, call ∈ calls)
    (h' : ∀ call ∈ p.kdfCalls c' d', call ∈ calls) : p.mix c d ≠ p.second c' d' := by
  intro same
  simp only [Primitives.kdfCalls, List.forall_mem_cons] at h h'
  have inputs := (Prod.mk.inj (free _ h.2.1 _ h'.2.2.1 same)).2
  have last := congrArg List.getLast? inputs
  rw [List.getLast?_concat] at last
  exact absurd last (by decide)

theorem Chained.unique {ds ds' : List Bytes} (h : Chained p calls c ds key)
    (h' : Chained p calls c' ds' key) (length : ds.length = ds'.length) : c = c' ∧ ds = ds' := by
  induction ds generalizing c c' ds' with
  | nil =>
    obtain rfl := List.length_eq_zero_iff.mp length.symm
    exact ⟨h.eq.symm.trans h'.eq, rfl⟩
  | cons d ds ih =>
    cases ds' with
    | nil => cases length
    | cons d' ds' =>
      obtain ⟨eq, made⟩ := h
      obtain ⟨eq', made'⟩ := h'
      simp only [Primitives.chainCalls, List.forall_mem_cons] at made made'
      have rest : Chained p calls (p.mix c d) ds key := ⟨eq, made.2.2⟩
      have rest' : Chained p calls (p.mix c' d') ds' key := ⟨eq', made'.2.2⟩
      obtain ⟨mixed, rfl⟩ := ih rest rest' (Nat.succ.inj length)
      obtain ⟨rfl, rfl⟩ := mix_injective free ⟨made.1, made.2.1⟩ ⟨made'.1, made'.2.1⟩ mixed
      exact ⟨rfl, rfl⟩

theorem InitiatorKey.unique (h : InitiatorKey p calls start e key)
    (h' : InitiatorKey p calls start e' key) : e = e' := by
  obtain ⟨sent, ⟨es, ss, initiated⟩, remote, ee, se, psk, answered⟩ := h
  obtain ⟨sent', ⟨es', ss', initiated'⟩, remote', ee', se', psk', answered'⟩ := h'
  obtain ⟨rfl, -⟩ := answered.unique free answered' rfl
  exact (List.cons.inj (initiated.unique free initiated' rfl).2).1

theorem ResponderKey.unique (h : ResponderKey p calls e key) (h' : ResponderKey p calls e' key) :
    e = e' := by
  obtain ⟨received, ee, se, psk, chained⟩ := h
  obtain ⟨received', ee', se', psk', chained'⟩ := h'
  exact (List.cons.inj (chained.unique free chained' rfl).2).1

end

end Noise
