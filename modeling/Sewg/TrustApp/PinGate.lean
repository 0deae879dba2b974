import Sewg.TrustApp.Lifecycle

/-! The PIN comparison of `CurveMul`. The buffer has room for as many characters
as were entered and none for a terminator, and the read fills only as much of
it as the record holds, so the result depends on bytes nobody wrote. -/

namespace Sewg.TrustApp
open CString

/-- The bytes of the buffer that a PIN of length `p` leaves as they were. -/
def stale (rpin : Mem) (p q : Nat) : Bytes := (rpin.read q).drop p

/-- The comparison succeeds on a prefix of the stored PIN, and on the stored
PIN extended by the stale bytes, when the byte behind the buffer is zero. -/
theorem strcmp_rpin (p q : Bytes) (rpin : Mem) :
    strcmp q (rpin.write (p.take q.length)) = 0 ↔
      rpin q.length = 0 ∧ (q <+: p ∨ q = p ++ stale rpin p.length q.length) := by
  have behind : rpin.write (p.take q.length) q.length = rpin q.length :=
    Mem.write_above rpin _ (List.length_take_le _ _)
  have buffer := Mem.read_write_short rpin (p.take q.length) (n := q.length)
    (List.length_take_le _ _)
  rw [strcmp_eq_zero, behind, buffer, and_comm]
  apply and_congr_right
  intro _
  by_cases hlen : q.length ≤ p.length
  · have all : (rpin.read q.length).drop (p.take q.length).length = [] :=
      List.drop_of_length_le (by simp [hlen])
    have none_stale : stale rpin p.length q.length = [] :=
      List.drop_of_length_le (by simpa using hlen)
    rw [all, none_stale, List.append_nil, List.append_nil]
    constructor
    · intro h; exact .inl (h ▸ List.take_prefix _ _)
    · rintro (h | h)
      · exact (List.prefix_iff_eq_take.mp h).symm
      · rw [h, List.take_length]
  · have whole : p.take q.length = p := List.take_of_length_le (by omega)
    rw [whole]
    constructor
    · intro h; exact .inr h.symm
    · rintro (h | h)
      · exact absurd h.length_le hlen
      · exact h.symm

/-- When the comparison of `q` with the stored `p` is the equality of the two:
a zero byte lies behind the buffer and `q` is neither a proper prefix of `p` nor
`p` with the stale bytes; or a non-zero byte lies there and `q` is not `p`. -/
def PinGateSound (p q : Bytes) (rpin : Mem) : Prop :=
  if rpin q.length = 0 then q <+: p ∨ q = p ++ stale rpin p.length q.length → q = p else q ≠ p

theorem strcmp_sound (p q : Bytes) (rpin : Mem) :
    (strcmp q (rpin.write (p.take q.length)) = 0 ↔ q = p) ↔ PinGateSound p q rpin := by
  rw [strcmp_rpin, PinGateSound]
  split
  · rename_i hz
    simp only [hz, true_and]
    constructor
    · exact Iff.mp
    · intro h
      refine ⟨h, ?_⟩
      rintro rfl
      exact .inl List.prefix_rfl
  · rename_i hz
    simp only [hz, false_and, false_iff, ne_eq]

/-- For a key in any store the commands reach, with any faults in the writes on
the way: the gate lets exactly the stored PIN through if and only if
`PinGateSound`. -/
theorem pin_gate (ladder : Key → Key → Key) (s : Sfs) (hl : s.faults.lists = [])
    (rs : List Request) (b : Ta) (run : Run.exec (step ladder) ⟨s, []⟩ rs = some b)
    (e : Request × Reply) (he : e ∈ b.history) (id : Int32) (pk : Key) (hi : Issues e id pk)
    (entered : CStr) (hne : entered.text ≠ []) (point : Key) (stack : CurveMulStack) :
    ((curveMul ladder { b.store with faults := {} } entered point id stack).1.rst.isSome ↔
      entered = e.1.pin) ↔ PinGateSound e.1.pin.text entered.text stack.rpin := by
  obtain ⟨-, secret, -, stored⟩ := (recorded_run hl run).issued e he id pk hi
  rw [curveMul_record (s := { b.store with faults := {} }) rfl stored entered hne, ← strcmp_sound]
  have same : entered = e.1.pin ↔ entered.text = e.1.pin.text :=
    ⟨congrArg CStr.text, CStr.ext_text⟩
  rw [same]
  apply iff_congr _ Iff.rfl
  by_cases hc : strcmp entered.text (stack.rpin.write (e.1.pin.text.take entered.text.length)) = 0
  · simp only [CStr.strlen, hc, ↓reduceIte, Option.isSome_some]
  · simp only [CStr.strlen, hc, ↓reduceIte, Option.isSome_none, Bool.false_eq_true]

theorem pin_gate_one_digit :
    ∃ b e, Run.exec (step fun _ point => point) ⟨provisioned, []⟩ [newKey ⟨[49], by decide⟩ 5] =
        some b ∧ Issues e 5 basepoint ∧ PinGateSound [49] [49] (fun _ => 0) ∧
      ((curveMul (fun _ point => point) { b.store with faults := {} } ⟨[49], by decide⟩ basepoint 5
        ⟨fun _ => 0, fun _ => 0, nullPoint⟩).1.rst.isSome ↔ ⟨[49], by decide⟩ = e.1.pin) := by
  obtain ⟨b, e, run, hist, pin, issues⟩ :=
    newKey_issued (fun _ point => point) ⟨[49], by decide⟩ (by decide)
  have last : e ∈ b.history := by rw [hist]; exact List.mem_singleton_self e
  have sound : PinGateSound [49] [49] (fun _ => 0) := by simp [PinGateSound]
  refine ⟨b, e, run, issues, sound, ?_⟩
  apply (pin_gate _ provisioned rfl _ b run e last 5 basepoint issues ⟨[49], by decide⟩ (by decide)
    basepoint ⟨fun _ => 0, fun _ => 0, nullPoint⟩).mpr
  rw [pin]
  exact sound

/-- A key protected by the PIN 12 multiplies for whoever enters 1. -/
theorem prefix_passes_pin_gate :
    ∃ b e, Run.exec (step fun _ point => point) ⟨provisioned, []⟩
        [newKey ⟨[49, 50], by decide⟩ 5] = some b ∧
      e ∈ b.history ∧ Issues e 5 basepoint ∧ e.1.pin = ⟨[49, 50], by decide⟩ ∧
      (curveMul (fun _ point => point) b.store ⟨[49], by decide⟩ basepoint 5
        ⟨fun _ => 0, fun _ => 0, nullPoint⟩).1.rst = some basepoint := by
  obtain ⟨b, e, run, hist, pin, issues⟩ :=
    newKey_issued (fun _ point => point) ⟨[49, 50], by decide⟩ (by decide)
  have last : e ∈ b.history := by rw [hist]; exact List.mem_singleton_self e
  obtain ⟨-, secret, -, stored⟩ := (recorded_run rfl run).issued e last 5 basepoint issues
  refine ⟨b, e, run, last, issues, pin, ?_⟩
  have passes : strcmp [49] (Mem.write (fun _ => 0) (e.1.pin.text.take 1)) = 0 := by
    rw [pin]
    exact (strcmp_rpin [49, 50] [49] fun _ => 0).mpr ⟨rfl, .inl (by decide)⟩
  rw [curveMul_record (clean_run rfl run) stored _ (by decide)]
  simp only [CStr.strlen, List.length_singleton, passes, ↓reduceIte]
  rfl

end Sewg.TrustApp
