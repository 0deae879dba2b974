import Mathlib.Data.List.Basic
import Sewg.Lib.BinarySearch

/-! `ObservableSortedKeyedArrayList`, a list that is in the order of its keys and has every key
once. The elements are objects that keep their keys. -/

namespace Sewg.App.SortedList
open BinarySearch

inductive Thrown
  | illegalArgument
  | indexOutOfBounds

/-- What a call returns or throws, and the list after it. -/
structure Out (E α : Type) where
  result : Except Thrown α
  list : List E

section
variable {K E : Type} [LinearOrder K] (key : E → K)

/-- `ArrayList.get` -/
def get? (list : List E) (index : Int) : Option E := if 0 ≤ index then list[index.toNat]? else none

/-- `ArrayList.add`, which a call returns `value` from. -/
def superAdd {α : Type} (list : List E) (index : Int) (e : E) (value : α) : Out E α :=
  if 0 ≤ index ∧ index ≤ list.length then ⟨.ok value, list.insertIdx index.toNat e⟩
  else ⟨.error .indexOutOfBounds, list⟩

/-- `Collections.binarySearch` on the keys. -/
def binarySearch (list : List E) (k : K) : Int := search (list.map key) k 0 (list.map key).length

def getInsertionPoint (list : List E) (e : E) : Int := -binarySearch key list (key e) - 1

def indexOfKey (list : List E) (k : K) : Int :=
  let index := binarySearch key list k
  if index ≥ 0 then index else -1

def add [DecidableEq E] (list : List E) (e : E) : Out E Bool :=
  let insertionPoint := getInsertionPoint key list e
  if insertionPoint < 0 then
    -- the same object
    if get? list (-insertionPoint - 1) = some e then ⟨.ok false, list⟩
      else ⟨.error .illegalArgument, list⟩
  else superAdd list insertionPoint e true

def addAt (list : List E) (index : Int) (e : E) : Out E Unit :=
  let insertionPoint := getInsertionPoint key list e
  if insertionPoint < 0 then ⟨.error .illegalArgument, list⟩
  else if insertionPoint ≠ index then ⟨.error .indexOutOfBounds, list⟩
  else superAdd list index e ()

/-- With `didChange`. -/
def addAll [DecidableEq E] : List E → List E → Bool → Out E Bool
  | list, [], didChange => ⟨.ok didChange, list⟩
  | list, e :: c, didChange =>
    match add key list e with
    | ⟨.error thrown, list⟩ => ⟨.error thrown, list⟩
    | ⟨.ok added, list⟩ => addAll list c (added || didChange)

def addAllAt : List E → Int → List E → Out E Bool
  | list, _, [] => ⟨.ok true, list⟩
  | list, index, e :: c =>
    match addAt key list index e with
    | ⟨.error thrown, list⟩ => ⟨.error thrown, list⟩
    | ⟨.ok _, list⟩ => addAllAt list (index + 1) c

/-- Returns what was replaced. -/
def set (list : List E) (index : Int) (e : E) : Out E E :=
  match get? list index with
  | none => ⟨.error .indexOutOfBounds, list⟩
  | some old =>
    let insertionPoint := getInsertionPoint key list e
    if key e ≠ key old ∧ (insertionPoint < index ∨ insertionPoint > index + 1) then
      ⟨.error .indexOutOfBounds, list⟩
    else ⟨.ok old, list.set index.toNat e⟩

/-- `ArrayList.remove` of an index. -/
def removeAt (list : List E) (index : Int) : Out E E :=
  match get? list index with
  | none => ⟨.error .indexOutOfBounds, list⟩
  | some old => ⟨.ok old, list.eraseIdx index.toNat⟩

/-- `ArrayList.remove` of an object, given by the elements that are equal to it. -/
def remove (list : List E) (equals : E → Bool) : Out E Bool :=
  ⟨.ok (list.any equals), list.eraseP equals⟩

inductive Call (E : Type)
  | add (e : E)
  | addAt (index : Int) (e : E)
  | addAll (c : List E)
  | addAllAt (index : Int) (c : List E)
  | set (index : Int) (e : E)
  | removeAt (index : Int)
  | remove (equals : E → Bool)

/-- About one element, not a collection. -/
def Call.Single : Call E → Prop
  | .addAll _ | .addAllAt .. => False
  | _ => True

/-- Whether the call throws, and the list after it. -/
def Call.perform [DecidableEq E] (list : List E) : Call E → Out E Unit
  | .add e => let out := SortedList.add key list e; ⟨out.result.map fun _ => (), out.list⟩
  | .addAt index e => SortedList.addAt key list index e
  | .addAll c =>
    let out := SortedList.addAll key list c false; ⟨out.result.map fun _ => (), out.list⟩
  | .addAllAt index c =>
    let out := SortedList.addAllAt key list index c; ⟨out.result.map fun _ => (), out.list⟩
  | .set index e =>
    let out := SortedList.set key list index e; ⟨out.result.map fun _ => (), out.list⟩
  | .removeAt index =>
    let out := SortedList.removeAt list index; ⟨out.result.map fun _ => (), out.list⟩
  | .remove equals =>
    let out := SortedList.remove list equals; ⟨out.result.map fun _ => (), out.list⟩

/-- The keys are strictly increasing. -/
def Sorted (list : List E) : Prop := (list.map key).Pairwise (· < ·)

/-- What `indexOfKey` is for. -/
def IsIndexOf (list : List E) (k : K) (index : Int) : Prop :=
  (∃ (i : Nat) (e : E), index = i ∧ list[i]? = some e ∧ key e = k) ∨
    (index = -1 ∧ ∀ e ∈ list, key e ≠ k)

/-! ## Where an element belongs -/

variable {key} {list : List E} {e : E}

/-- `e` can be put at `p`. -/
structure Fits (key : E → K) (list : List E) (e : E) (p : Nat) : Prop where
  le : p ≤ list.length
  below : ∀ x ∈ list.take p, key x < key e
  above : ∀ x ∈ list.drop p, key e < key x

/-- What the search finds: an element with the key, or the place for one. -/
theorem Sorted.binarySearch (h : Sorted key list) (k : K) :
    (∃ (i : Nat) (e : E), SortedList.binarySearch key list k = i ∧ list[i]? = some e ∧ key e = k) ∨
      ∃ p : Nat, SortedList.binarySearch key list k = -(p + 1) ∧ ∀ e, key e = k →
        Fits key list e p := by
  have here : Located (list.map key) k (SortedList.binarySearch key list k) := located h k
  generalize SortedList.binarySearch key list k = r at here
  cases here with
  | found i hi =>
    rw [List.getElem?_map, Option.map_eq_some_iff] at hi
    obtain ⟨e, he, hk⟩ := hi
    exact .inl ⟨i, e, rfl, he, hk⟩
  | missing p hp below above =>
    rw [← List.map_take, List.forall_mem_map] at below
    rw [← List.map_drop, List.forall_mem_map] at above
    refine .inr ⟨p, rfl, ?_⟩
    rintro e rfl
    exact ⟨by simpa using hp, below, above⟩

theorem Sorted.insertionPoint (h : Sorted key list) (e : E) :
    getInsertionPoint key list e < 0 ∨ ∃ p : Nat, getInsertionPoint key list e = p ∧
      Fits key list e p := by
  unfold getInsertionPoint
  rcases h.binarySearch (key e) with ⟨i, old, hi, -, -⟩ | ⟨p, hp, fits⟩
  · exact .inl (by omega)
  · exact .inr ⟨p, by omega, fits e rfl⟩

theorem Sorted.indexOfKey (h : Sorted key list) (k : K) :
    IsIndexOf key list k (indexOfKey key list k) := by
  unfold SortedList.indexOfKey
  rcases h.binarySearch k with ⟨i, e, hi, he, hk⟩ | ⟨p, hp, fits⟩
  · exact .inl ⟨i, e, by simp [hi], he, hk⟩
  · refine .inr ⟨by rw [hp, if_neg (by omega)], ?_⟩
    intro e he hk
    have := fits e hk
    rw [← List.take_append_drop p list, List.mem_append] at he
    rcases he with he | he
    · exact lt_irrefl _ (this.below e he)
    · exact lt_irrefl _ (this.above e he)

theorem sorted_split {before behind : List E} :
    Sorted key (before ++ e :: behind) ↔ Sorted key (before ++ behind) ∧
      (∀ x ∈ before, key x < key e) ∧ ∀ x ∈ behind, key e < key x := by
  simp only [Sorted, List.map_append, List.map_cons, List.pairwise_append,
    List.pairwise_cons, List.mem_map, List.mem_cons]
  grind

theorem Sorted.sublist (h : Sorted key list) {list' : List E} (hs : list'.Sublist list) :
    Sorted key list' :=
  List.Pairwise.sublist (hs.map key) h

theorem insertIdx_eq {p : Nat} (hp : p ≤ list.length) (e : E) :
    list.insertIdx p e = list.take p ++ e :: list.drop p := by
  induction p generalizing list with
  | zero => simp
  | succ p ih =>
    cases list with
    | nil => simp at hp
    | cons x list => simp [ih (Nat.le_of_succ_le_succ hp)]

/-! ## The calls -/

theorem Sorted.superAdd {α : Type} (h : Sorted key list) {p : Nat} (fits : Fits key list e p)
    (value : α) :
    (superAdd list p e value).result = .ok value ∧ Sorted key (superAdd list p e value).list := by
  have hp : (0 : Int) ≤ p ∧ (p : Int) ≤ list.length := ⟨by omega, by have := fits.le; omega⟩
  rw [SortedList.superAdd, if_pos hp]
  refine ⟨rfl, ?_⟩
  dsimp only
  rw [Int.toNat_natCast, insertIdx_eq fits.le, sorted_split, List.take_append_drop]
  exact ⟨h, fits.below, fits.above⟩

/-- A call keeps the order, and changes nothing when it throws. -/
structure Keeps {α : Type} (key : E → K) (list : List E) (out : Out E α) : Prop where
  sorted : Sorted key out.list
  thrown : ∀ thrown, out.result = .error thrown → out.list = list

theorem Sorted.keeps_self {α : Type} (h : Sorted key list) (result : Except Thrown α) :
    Keeps key list ⟨result, list⟩ := ⟨h, fun _ _ => rfl⟩

theorem Sorted.keeps_add [DecidableEq E] (h : Sorted key list) (e : E) :
    Keeps key list (add key list e) := by
  unfold SortedList.add
  rcases h.insertionPoint e with found | ⟨p, hp, fits⟩
  · dsimp only
    rw [if_pos found]
    split <;> exact h.keeps_self _
  · obtain ⟨ok, sorted⟩ := h.superAdd fits true
    simp only [hp]
    rw [if_neg (by omega)]
    exact ⟨sorted, by simp [ok]⟩

theorem Sorted.keeps_addAt (h : Sorted key list) (index : Int) (e : E) :
    Keeps key list (addAt key list index e) := by
  unfold SortedList.addAt
  rcases h.insertionPoint e with found | ⟨p, hp, fits⟩
  · dsimp only
    rw [if_pos found]
    exact h.keeps_self _
  · obtain ⟨ok, sorted⟩ := h.superAdd fits ()
    simp only [hp]
    rw [if_neg (by omega)]
    split
    · exact h.keeps_self _
    · rename_i here
      rw [← not_not.mp here]
      exact ⟨sorted, by simp [ok]⟩

theorem Sorted.set_at (h : Sorted key list) {i : Nat} (hi : i < list.length)
    (below : ∀ x ∈ list.take i, key x < key e) (above : ∀ x ∈ list.drop (i + 1), key e < key x) :
    Sorted key (list.set i e) := by
  rw [List.set_eq_take_append_cons_drop, if_pos hi, sorted_split]
  refine ⟨?_, below, above⟩
  rw [← List.eraseIdx_eq_take_drop_succ]
  exact h.sublist (List.eraseIdx_sublist list i)

theorem get?_eq_some {index : Int} {old : E} (h : get? list index = some old) :
    ∃ i : Nat, index = i ∧ list[i]? = some old := by
  unfold get? at h
  split at h
  · exact ⟨index.toNat, by omega, h⟩
  · cases h

/-- The old element may be replaced by one with its key, or by one that belongs before or behind
it. -/
theorem Sorted.keeps_set (h : Sorted key list) (index : Int) (e : E) :
    Keeps key list (set key list index e) := by
  unfold SortedList.set
  cases hg : get? list index with
  | none => exact h.keeps_self _
  | some old =>
    obtain ⟨i, rfl, hold⟩ := get?_eq_some hg
    obtain ⟨hi, rfl⟩ := List.getElem?_eq_some_iff.mp hold
    dsimp only
    split
    · exact h.keeps_self _
    · rename_i allowed
      refine ⟨?_, fun _ hthrown => by cases hthrown⟩
      rw [Int.toNat_natCast]
      by_cases same : key e = key list[i]
      · have parts : Sorted key (list.take i ++ list[i] :: list.drop (i + 1)) := by
          rwa [← List.drop_eq_getElem_cons hi, List.take_append_drop]
        obtain ⟨-, below, above⟩ := sorted_split.mp parts
        exact h.set_at hi (same ▸ below) (same ▸ above)
      · rcases h.insertionPoint e with found | ⟨p, hp, fits⟩
        · exact absurd ⟨same, .inl (by omega)⟩ allowed
        · have near : p = i ∨ p = i + 1 := by
            by_contra far
            exact allowed ⟨same, by omega⟩
          apply h.set_at hi
          · intro x hx
            exact fits.below x ((List.take_prefix_take_left (by omega)).subset hx)
          · intro x hx
            exact fits.above x ((List.drop_suffix_drop_left list (by omega)).subset hx)

theorem Sorted.keeps_removeAt (h : Sorted key list) (index : Int) :
    Keeps key list (removeAt list index) := by
  unfold removeAt
  split
  · exact h.keeps_self _
  · exact ⟨h.sublist (List.eraseIdx_sublist ..), fun _ hthrown => by cases hthrown⟩

theorem Sorted.keeps_remove (h : Sorted key list) (equals : E → Bool) :
    Keeps key list (remove list equals) :=
  ⟨h.sublist List.eraseP_sublist, fun _ hthrown => by cases hthrown⟩

theorem Sorted.addAll [DecidableEq E] (h : Sorted key list) (c : List E) (didChange : Bool) :
    Sorted key (addAll key list c didChange).list := by
  induction c generalizing list didChange with
  | nil => exact h
  | cons e c ih =>
    have kept := (h.keeps_add e).sorted
    rw [SortedList.addAll]
    cases hadd : add key list e with
    | mk result list' =>
      rw [hadd] at kept
      cases result with
      | error => exact kept
      | ok added => exact ih kept (added || didChange)

theorem Sorted.addAllAt (h : Sorted key list) (index : Int) (c : List E) :
    Sorted key (addAllAt key list index c).list := by
  induction c generalizing list index with
  | nil => exact h
  | cons e c ih =>
    have kept := (h.keeps_addAt index e).sorted
    rw [SortedList.addAllAt]
    cases hadd : addAt key list index e with
    | mk result list' =>
      rw [hadd] at kept
      cases result with
      | error => exact kept
      | ok => exact ih kept (index + 1)

/-! ## Sequences of calls -/

theorem Keeps.forget {α : Type} {out : Out E α} (h : Keeps key list out) :
    Keeps key list ⟨out.result.map fun _ => (), out.list⟩ := by
  refine ⟨h.sorted, ?_⟩
  intro thrown hthrown
  cases hr : out.result with
  | error => exact h.thrown _ hr
  | ok => simp [hr, Except.map] at hthrown

theorem Sorted.perform_single [DecidableEq E] (h : Sorted key list) {call : Call E}
    (single : call.Single) : Keeps key list (call.perform key list) := by
  cases call with
  | add e => exact (h.keeps_add e).forget
  | addAt index e => exact h.keeps_addAt index e
  | addAll c => exact single.elim
  | addAllAt index c => exact single.elim
  | set index e => exact (h.keeps_set index e).forget
  | removeAt index => exact (h.keeps_removeAt index).forget
  | remove equals => exact (h.keeps_remove equals).forget

theorem Sorted.perform [DecidableEq E] (h : Sorted key list) (call : Call E) :
    Sorted key (call.perform key list).list := by
  cases call with
  | add e => exact (h.keeps_add e).sorted
  | addAt index e => exact (h.keeps_addAt index e).sorted
  | addAll c => exact h.addAll c false
  | addAllAt index c => exact h.addAllAt index c
  | set index e => exact (h.keeps_set index e).sorted
  | removeAt index => exact (h.keeps_removeAt index).sorted
  | remove equals => exact (h.keeps_remove equals).sorted

/-- The list after calls on a new one, whether they throw or not. -/
def run [DecidableEq E] (key : E → K) (calls : List (Call E)) : List E :=
  calls.foldl (fun list call => (call.perform key list).list) []

theorem run_sorted [DecidableEq E] (key : E → K) (calls : List (Call E)) :
    Sorted key (run key calls) := by
  have all : ∀ list, Sorted key list →
      Sorted key (calls.foldl (fun list call => (call.perform key list).list) list) := by
    induction calls with
    | nil => exact fun _ h => h
    | cons call calls ih => exact fun list h => ih _ (h.perform call)
  exact all [] .nil

/-- After any calls the keys are strictly increasing, a key is found exactly where it is, and a call
for one element that throws changes nothing. -/
theorem sortedList_invariant [DecidableEq E] (key : E → K) (calls : List (Call E)) :
    Sorted key (run key calls) ∧
    (∀ k, IsIndexOf key (run key calls) k (indexOfKey key (run key calls) k)) ∧
    ∀ call : Call E, call.Single → ∀ thrown,
      (call.perform key (run key calls)).result = .error thrown →
      (call.perform key (run key calls)).list = run key calls := by
  have h := run_sorted key calls
  exact ⟨h, h.indexOfKey, fun call single => (h.perform_single single).thrown⟩

end

end Sewg.App.SortedList
