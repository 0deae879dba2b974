import Mathlib.Algebra.Group.Nat.Defs
import Mathlib.Data.List.Basic

/-! Bytes as C sees them: strings without their terminator, and raw memory
that a short write leaves partly as it was. -/

namespace CString

abbrev Bytes := List UInt8

/-- A fact about every byte is checked on the 256 of them. -/
theorem forall_byte {P : UInt8 → Prop} (h : ∀ n : Fin 256, P (UInt8.ofFin n)) : ∀ b, P b := by
  intro b
  simpa using h b.toFin

theorem byte_or_eq_zero_iff (x y : UInt8) : x ||| y = 0 ↔ x = 0 ∧ y = 0 := by
  simp only [← UInt8.toNat_inj, UInt8.toNat_or]
  exact Nat.or_eq_zero_iff

theorem foldl_byte_or_eq_zero_iff {α : Type} (f : α → UInt8) (xs : List α) (ret : UInt8) :
    xs.foldl (fun ret x => ret ||| f x) ret = 0 ↔ ret = 0 ∧ ∀ x ∈ xs, f x = 0 := by
  induction xs generalizing ret with
  | nil => simp
  | cons x xs ih => rw [List.foldl_cons, ih, byte_or_eq_zero_iff, List.forall_mem_cons, and_assoc]

/-- Memory from some address on. Nothing marks where an object ends. -/
abbrev Mem := Nat → UInt8

/-- The text of a NUL-terminated string. The terminator itself is not kept. -/
structure CStr where
  text : Bytes
  nulFree : (0 : UInt8) ∉ text
  deriving DecidableEq

def CStr.strlen (s : CStr) : Nat := s.text.length

theorem CStr.ext_text {a b : CStr} (h : a.text = b.text) : a = b := by
  cases a; cases b; cases h; rfl

/-- Copy `data` to the start of `m`. -/
def Mem.write (m : Mem) (data : Bytes) : Mem := fun i => (data[i]?).getD (m i)

/-- The first `n` bytes of `m`. -/
def Mem.read (m : Mem) (n : Nat) : Bytes := (List.range n).map m

@[simp] theorem Mem.read_length (m : Mem) (n : Nat) : (m.read n).length = n := by
  simp [Mem.read]

theorem Mem.write_below (m : Mem) (data : Bytes) {i : Nat} (h : i < data.length) :
    m.write data i = data[i] := by
  simp [Mem.write, h]

theorem Mem.write_above (m : Mem) (data : Bytes) {i : Nat} (h : data.length ≤ i) :
    m.write data i = m i := by
  simp [Mem.write, List.getElem?_eq_none h]

/-- Behind a short write the old bytes show. -/
theorem Mem.read_write_short (m : Mem) (data : Bytes) {n : Nat} (h : data.length ≤ n) :
    (m.write data).read n = data ++ (m.read n).drop data.length := by
  apply List.ext_getElem
  · simp [h]
  · intro i hi _
    simp only [Mem.read, List.getElem_map, List.getElem_range]
    by_cases hd : i < data.length
    · rw [Mem.write_below m data hd, List.getElem_append_left hd]
    · rw [Mem.write_above m data (by omega), List.getElem_append_right (by omega)]
      simp only [List.getElem_drop, List.getElem_map, List.getElem_range]
      congr 1
      omega

theorem Mem.read_eq_iff {a b : Mem} {n : Nat} : a.read n = b.read n ↔ ∀ i, i < n → a i = b i := by
  simp [Mem.read, List.map_inj_left]

theorem Mem.read_write (m : Mem) (data : Bytes) : (m.write data).read data.length = data := by
  rw [Mem.read_write_short m data (Nat.le_refl _), List.drop_of_length_le (by simp),
    List.append_nil]

/-- At most `n` bytes of a stream, up to and including the first newline. -/
def line : Nat → Bytes → Bytes
  | 0, _ => []
  | _, [] => []
  | n + 1, c :: cs => if c = 10 then [c] else c :: line n cs

/-- `fgets` into a buffer of `size` bytes. At the end of the stream it leaves
the buffer as it was. -/
def fgets (buff : Mem) (size : Nat) (stream : Bytes) : Mem :=
  match line (size - 1) stream with
  | [] => buff
  | text => buff.write (text ++ [0])

/-- How many bytes `fgets` writes. -/
def fgetsCount (size : Nat) (stream : Bytes) : Nat :=
  match line (size - 1) stream with
  | [] => 0
  | text => text.length + 1

theorem line_length_le (n : Nat) (stream : Bytes) : (line n stream).length ≤ n := by
  induction n, stream using line.induct with
  | case1 => simp [line]
  | case2 => simp [line]
  | case3 => simp [line]
  | case4 n c cs hc ih => simpa [line, hc] using ih

theorem fgetsCount_le (size : Nat) (stream : Bytes) : fgetsCount size stream ≤ size := by
  have hle := line_length_le (size - 1) stream
  unfold fgetsCount
  cases hl : line (size - 1) stream with
  | nil => exact Nat.zero_le size
  | cons c text =>
    rw [hl, List.length_cons] at hle
    dsimp only [List.length_cons]
    omega

/-- Where `fgets` writes, the old bytes do not matter. -/
theorem fgets_below (a b : Mem) {size i : Nat} {stream : Bytes} (h : i < fgetsCount size stream) :
    fgets a size stream i = fgets b size stream i := by
  unfold fgetsCount at h
  unfold fgets
  cases hl : line (size - 1) stream with
  | nil => simp [hl] at h
  | cons c text =>
    rw [hl] at h
    have hi : i < (c :: text ++ [0]).length := by simpa using h
    change a.write (c :: text ++ [0]) i = b.write (c :: text ++ [0]) i
    rw [Mem.write_below a _ hi, Mem.write_below b _ hi]

theorem fgets_above (m : Mem) {size i : Nat} {stream : Bytes} (h : fgetsCount size stream ≤ i) :
    fgets m size stream i = m i := by
  unfold fgetsCount at h
  unfold fgets
  cases hl : line (size - 1) stream with
  | nil => rfl
  | cons c text =>
    rw [hl] at h
    exact Mem.write_above m _ (by simpa using h)

/-- Compare `s` with the bytes at `m`, as `strcmp` does: up to the first
difference, or to the terminator of `s`. -/
def strcmp : Bytes → Mem → Int
  | [], m => 0 - (m 0).toNat
  | c :: cs, m => if m 0 = c then strcmp cs (fun i => m (i + 1)) else c.toNat - (m 0).toNat

/-- Equality needs every character of `s` and its terminator, which lies one
byte past them. -/
theorem strcmp_eq_zero (s : Bytes) (m : Mem) :
    strcmp s m = 0 ↔ m.read s.length = s ∧ m s.length = 0 := by
  induction s generalizing m with
  | nil =>
    have e : strcmp [] m = 0 - ((m 0).toNat : Int) := rfl
    rw [e]
    simp only [List.length_nil, Mem.read, List.range_zero, List.map_nil, true_and,
      ← UInt8.toNat_inj, UInt8.toNat_zero]
    omega
  | cons c cs ih =>
    simp only [strcmp, List.length_cons, Mem.read, List.range_succ_eq_map, List.map_cons,
      List.map_map, List.cons.injEq]
    by_cases h : m 0 = c
    · rw [if_pos h, ih]
      simp only [h, true_and, Mem.read]
      rfl
    · have hn : (c.toNat : Int) - (m 0).toNat ≠ 0 := by
        intro e
        exact h (UInt8.toNat_inj.mp (by omega))
      rw [if_neg h]
      simp only [hn, h, false_and]

end CString
