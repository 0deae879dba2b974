import Mathlib.Order.Basic
import Sewg.Lib.PtrTree

/-! Walks of trees in memory with a stack of pointers: the top one is taken away and the
two pointers in its cell are put there instead, those that are not NULL. The stack stands
for trees that are still to be walked, and its height is bounded by the tree's depth. -/

namespace PtrTree

variable {D : Type}

namespace PTree

/-- How many cells the longest path has. -/
def depth : PTree D → Nat
  | nil => 0
  | node _ _ child => max (child false).depth (child true).depth + 1

/-- A cell, what is below its second pointer and what is below its first. -/
def preorder : PTree D → List D
  | nil => []
  | node _ d child => d :: ((child true).preorder ++ (child false).preorder)

end PTree

/-- A path of `k` cells starts at the pointer. -/
def HasPath (m : Cells D) : Nat → Option Nat → Prop
  | 0, _ => True
  | _ + 1, none => False
  | k + 1, some q => ∃ c, m q = some c ∧ ∃ i, HasPath m k (c.bit i)

/-- The pointer on top of the stack, unless it is NULL. -/
def push (q : Option Nat) (stack : List Nat) : List Nat := q.toList ++ stack

/-- The stack for some trees, the next one first. -/
def roots (ts : List (PTree D)) : List Nat := ts.flatMap fun t => t.root.toList

/-- What is still to be walked. -/
def todo (ts : List (PTree D)) : List D := ts.flatMap PTree.preorder

/-- Every tree has room above those behind it. -/
def Room (height : Nat) : List (PTree D) → Prop
  | [] => True
  | t :: ts => t.depth + (roots ts).length ≤ height ∧ Room height ts

/-- The stack stands for trees in memory. -/
structure Pending (m : Cells D) (height : Nat) (stack : List Nat) (ts : List (PTree D)) : Prop where
  rep : ∀ t ∈ ts, t.Rep m
  distinct : ∀ t ∈ ts, t.Distinct
  apart : ts.Pairwise fun t u => ∀ q, t.Mem q → ¬u.Mem q
  room : Room height ts
  stack : stack = roots ts

section
variable {m : Cells D} {height ptr : Nat} {d : D} {child : Bool → PTree D} {t : PTree D}
  {stack : List Nat} {ts : List (PTree D)}

theorem hasPath_iff (hr : t.Rep m) (k : Nat) : HasPath m k t.root ↔ k ≤ t.depth := by
  induction t generalizing k with
  | nil => cases k <;> simp [HasPath, PTree.root, PTree.depth]
  | node ptr d child ih =>
    cases k with
    | zero => simp [HasPath]
    | succ k =>
      rw [PTree.root, HasPath, hr.1, PTree.depth]
      constructor
      · rintro ⟨c, hc, i, hi⟩
        cases hc
        have := (ih i (hr.2 i) k).mp hi
        cases i <;> omega
      · intro hk
        rcases Nat.le_total (child false).depth (child true).depth with h | h
        · exact ⟨_, rfl, true, (ih true (hr.2 true) k).mpr (by omega)⟩
        · exact ⟨_, rfl, false, (ih false (hr.2 false) k).mpr (by omega)⟩

theorem PTree.depth_child_lt (ptr : Nat) (d : D) (child : Bool → PTree D) (i : Bool) :
    (child i).depth < (PTree.node ptr d child).depth := by
  rw [PTree.depth]
  cases i <;> omega

theorem PTree.depth_node_le {ptr' : Nat} {d' : D} {child' : Bool → PTree D}
    (h : ∀ i, (child' i).depth ≤ (child i).depth) :
    (PTree.node ptr' d' child').depth ≤ (PTree.node ptr d child).depth := by
  have hfalse := h false
  have htrue := h true
  rw [PTree.depth, PTree.depth]
  omega

theorem roots_cons (t : PTree D) (ts : List (PTree D)) :
    roots (t :: ts) = push t.root (roots ts) := rfl

theorem length_push (t : PTree D) (stack : List Nat) :
    (push t.root stack).length ≤ stack.length + 1 := by
  cases t <;> simp [push, PTree.root]

theorem Room.length_le (h : Room height ts) : (roots ts).length ≤ height := by
  induction ts with
  | nil => exact Nat.zero_le height
  | cons t ts ih =>
    cases t with
    | nil => exact ih h.2
    | node ptr d child =>
      have hdepth : 1 ≤ (PTree.node ptr d child).depth := Nat.succ_pos _
      have hroom := h.1
      rw [roots_cons]
      have := length_push (PTree.node ptr d child) (roots ts)
      omega

theorem Room.branches (h : Room height (.node ptr d child :: ts)) :
    Room height (child true :: child false :: ts) := by
  obtain ⟨hnode, hrest⟩ := h
  rw [PTree.depth] at hnode
  have := length_push (child false) (roots ts)
  refine ⟨?_, ?_, hrest⟩
  · rw [roots_cons]
    omega
  · omega

theorem Pending.length_le (h : Pending m height stack ts) : stack.length ≤ height := by
  rw [h.stack]
  exact h.room.length_le

theorem Pending.single (hr : t.Rep m) (hd : t.Distinct) (hheight : t.depth ≤ height) :
    Pending m height t.root.toList [t] := by
  refine ⟨?_, ?_, List.pairwise_singleton _ _, ⟨hheight, trivial⟩, by simp [roots]⟩
  · intro u hu
    rwa [List.mem_singleton.mp hu]
  · intro u hu
    rwa [List.mem_singleton.mp hu]

theorem todo_branches (ptr : Nat) (d : D) (child : Bool → PTree D) (ts : List (PTree D)) :
    todo (.node ptr d child :: ts) = d :: todo (child true :: child false :: ts) := by
  simp [todo, PTree.preorder]

/-- A tree without cells is not on the stack. -/
theorem Pending.skip (h : Pending m height stack (.nil :: ts)) : Pending m height stack ts :=
  ⟨fun t ht => h.rep t (List.mem_cons_of_mem _ ht),
    fun t ht => h.distinct t (List.mem_cons_of_mem _ ht),
    (List.pairwise_cons.mp h.apart).2, h.room.2, h.stack⟩

/-- The next cell is in memory, and its branches take its place. -/
theorem Pending.next (h : Pending m height stack (.node ptr d child :: ts)) :
    ∃ rest, stack = ptr :: rest ∧ m ptr = some ⟨d, fun i => (child i).root⟩ ∧
      Pending m height (push (child true).root (push (child false).root rest))
        (child true :: child false :: ts) := by
  have hr := h.rep _ List.mem_cons_self
  have hd := h.distinct _ List.mem_cons_self
  obtain ⟨hhead, htail⟩ := List.pairwise_cons.mp h.apart
  refine ⟨roots ts, h.stack, hr.1, ?_, ?_, ?_, h.room.branches, rfl⟩
  · simp only [List.forall_mem_cons]
    exact ⟨hr.2 true, hr.2 false, fun t ht => h.rep t (List.mem_cons_of_mem _ ht)⟩
  · simp only [List.forall_mem_cons]
    exact ⟨(hd.1 true).2, (hd.1 false).2, fun t ht => h.distinct t (List.mem_cons_of_mem _ ht)⟩
  · simp only [List.pairwise_cons, List.forall_mem_cons]
    refine ⟨⟨fun q hq hq' => hd.2 q hq' hq, ?_⟩, ?_, htail⟩
    · exact fun t ht q hq => hhead t ht q (.inr ⟨true, hq⟩)
    · exact fun t ht q hq => hhead t ht q (.inr ⟨false, hq⟩)

/-- The cell that was taken from the stack is in none of the trees that are left. -/
theorem Pending.not_mem_branches (h : Pending m height stack (.node ptr d child :: ts))
    {t : PTree D} (ht : t ∈ child true :: child false :: ts) : ¬t.Mem ptr := by
  have hd := h.distinct _ List.mem_cons_self
  rcases List.mem_cons.mp ht with rfl | ht
  · exact (hd.1 true).1
  · rcases List.mem_cons.mp ht with rfl | ht
    · exact (hd.1 false).1
    · exact (List.pairwise_cons.mp h.apart).1 t ht ptr (.inl rfl)

/-- Either nothing is left to be walked, or the cell on top is in memory and the stack that
it leaves stands for the rest, which does not have it any more. -/
theorem Pending.step (h : Pending m height stack ts) :
    (stack = [] ∧ todo ts = []) ∨
      ∃ n rest c ts', stack = n :: rest ∧ m n = some c ∧ todo ts = c.data :: todo ts' ∧
        Pending m height (push (c.bit true) (push (c.bit false) rest)) ts' ∧
        ∀ t ∈ ts', ¬t.Mem n := by
  induction ts with
  | nil => exact .inl ⟨h.stack, rfl⟩
  | cons t ts ih =>
    cases t with
    | nil => exact ih h.skip
    | node ptr d child =>
      obtain ⟨rest, hstack, hcell, hnext⟩ := h.next
      exact .inr ⟨ptr, rest, _, _, hstack, hcell, todo_branches ptr d child ts, hnext,
        fun t ht => h.not_mem_branches ht⟩

/-- The cell on top may be freed when its pointers have been read. -/
theorem Pending.free (h : Pending m height stack ts) {n : Nat} (hn : ∀ t ∈ ts, ¬t.Mem n) :
    Pending (Function.update m n none) height stack ts := by
  refine ⟨fun t ht => (h.rep t ht).congr fun q hq => ?_, h.distinct, h.apart, h.room, h.stack⟩
  have hne : q ≠ n := fun heq => hn t ht (heq ▸ hq)
  exact Function.update_of_ne hne _ _

end

end PtrTree
