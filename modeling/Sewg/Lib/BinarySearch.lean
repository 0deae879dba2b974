import Mathlib.Order.Lattice

/-! Binary search in a list that is in strict order, with the place where a missing key belongs. -/

namespace BinarySearch

variable {α : Type} [LinearOrder α]

/-- The position of `k` from `low` up to `high`, or `-(p + 1)` with the position `p` at which it is
missing. -/
def search (xs : List α) (k : α) (low high : Nat) : Int :=
  if low < high then
    let mid := (low + (high - 1)) / 2
    match xs[mid]? with
    | none => -(low + 1)
    | some x =>
      if x < k then search xs k (mid + 1) high
      else if k < x then search xs k low mid
      else mid
  else -(low + 1)
termination_by high - low

/-- `r` tells where `k` is, or between which elements it is missing. -/
inductive Located (xs : List α) (k : α) : Int → Prop
  | found (i : Nat) (h : xs[i]? = some k) : Located xs k i
  | missing (p : Nat) (hp : p ≤ xs.length) (below : ∀ x ∈ xs.take p, x < k)
      (above : ∀ x ∈ xs.drop p, k < x) : Located xs k (-(p + 1))

/-- An element is above those before it and below those behind it. -/
theorem around {xs : List α} (sorted : xs.Pairwise (· < ·)) {i : Nat} {x : α}
    (hx : xs[i]? = some x) : (∀ y ∈ xs.take i, y < x) ∧ ∀ y ∈ xs.drop (i + 1), x < y := by
  obtain ⟨hi, rfl⟩ := List.getElem?_eq_some_iff.mp hx
  have parts : (xs.take i ++ xs[i] :: xs.drop (i + 1)).Pairwise (· < ·) := by
    rwa [← List.drop_eq_getElem_cons hi, List.take_append_drop]
  obtain ⟨-, behind, before⟩ := List.pairwise_append.mp parts
  exact ⟨fun y hy => before y hy _ List.mem_cons_self, (List.pairwise_cons.mp behind).1⟩

theorem search_located {xs : List α} (sorted : xs.Pairwise (· < ·)) (k : α) (low high : Nat)
    (hlow : low ≤ high) (hhigh : high ≤ xs.length) (below : ∀ x ∈ xs.take low, x < k)
    (above : ∀ x ∈ xs.drop high, k < x) :
    Located xs k (search xs k low high) := by
  fun_induction search xs k low high with
  | case1 low high h mid hnone =>
    have := List.getElem?_eq_none_iff.mp hnone
    omega
  | case2 low high h mid x hx hlt ih =>
    apply ih (by omega) hhigh _ above
    intro y hy
    rw [List.take_add_one, hx, Option.toList_some, List.mem_append, List.mem_singleton] at hy
    rcases hy with hy | rfl
    · exact lt_trans ((around sorted hx).1 y hy) hlt
    · exact hlt
  | case3 low high h mid x hx hge hgt ih =>
    apply ih (by omega) (by omega) below
    obtain ⟨hi, rfl⟩ := List.getElem?_eq_some_iff.mp hx
    rw [List.drop_eq_getElem_cons hi]
    intro y hy
    rcases List.mem_cons.mp hy with rfl | hy
    · exact hgt
    · exact lt_trans hgt ((around sorted hx).2 y hy)
  | case4 low high h mid x hx hge hle =>
    exact .found mid (le_antisymm (not_lt.mp hle) (not_lt.mp hge) ▸ hx)
  | case5 low high h =>
    obtain rfl : low = high := by omega
    exact .missing low hhigh below above

theorem located {xs : List α} (sorted : xs.Pairwise (· < ·)) (k : α) :
    Located xs k (search xs k 0 xs.length) :=
  search_located sorted k 0 xs.length (Nat.zero_le _) (Nat.le_refl _) (by simp) (by simp)

end BinarySearch
