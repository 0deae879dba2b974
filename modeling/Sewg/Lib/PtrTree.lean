import Mathlib.Logic.Function.Basic

/-! Binary trees in memory. A cell holds its data and two pointers, a store maps
addresses to the cells that are allocated, and a slot is a place that holds a
pointer: the one to the whole tree, or one of the two in a cell. A tree that is
represented in a store is changed by writing slots; what is not part of it stays. -/

namespace PtrTree

variable {D : Type}

structure Cell (D : Type) where
  data : D
  bit : Bool → Option Nat

/-- Allocated cells; a pointer to anything else is dangling. -/
abbrev Cells (D : Type) := Nat → Option (Cell D)

inductive Slot where
  | top
  | kid (ptr : Nat) (i : Bool)

structure Store (D : Type) where
  top : Option Nat
  cell : Cells D

/-- The pointer in a slot. Fails on a slot of a cell that is not allocated. -/
def Store.read (s : Store D) : Slot → Option (Option Nat)
  | .top => some s.top
  | .kid ptr i => (s.cell ptr).map fun c => c.bit i

def Store.setCell (s : Store D) (ptr : Nat) (c : Option (Cell D)) : Store D :=
  { s with cell := Function.update s.cell ptr c }

def Store.write (s : Store D) : Slot → Option Nat → Option (Store D)
  | .top, q => some { s with top := q }
  | .kid ptr i, q =>
    (s.cell ptr).map fun c => s.setCell ptr (some { c with bit := Function.update c.bit i q })

/-- A tree together with the addresses of its cells. -/
inductive PTree (D : Type) where
  | nil
  | node (ptr : Nat) (data : D) (child : Bool → PTree D)

namespace PTree

def root : PTree D → Option Nat
  | nil => none
  | node ptr _ _ => some ptr

def Mem (q : Nat) : PTree D → Prop
  | nil => False
  | node ptr _ child => q = ptr ∨ ∃ i, (child i).Mem q

def size : PTree D → Nat
  | nil => 0
  | node _ _ child => (child false).size + (child true).size + 1

/-- The cells of the tree are in memory, and point to each other as in the tree. -/
def Rep (m : Cells D) : PTree D → Prop
  | nil => True
  | node ptr data child => m ptr = some ⟨data, fun i => (child i).root⟩ ∧ ∀ i, (child i).Rep m

/-- No cell is used twice. -/
def Distinct : PTree D → Prop
  | nil => True
  | node ptr _ child =>
    (∀ i, ¬ (child i).Mem ptr ∧ (child i).Distinct) ∧ ∀ q, (child false).Mem q →
      ¬ (child true).Mem q

variable {t u : PTree D} {m m' : Cells D} {ptr q : Nat} {d : D} {child : Bool → PTree D}
  {i j : Bool}

theorem root_eq_none : t.root = none ↔ t = nil := by
  cases t <;> simp [root]

theorem mem_root (h : t.root = some q) : t.Mem q := by
  cases t with
  | nil => cases h
  | node ptr d child => cases h; exact .inl rfl

theorem Rep.congr (h : t.Rep m) (hm : ∀ q, t.Mem q → m' q = m q) : t.Rep m' := by
  induction t with
  | nil => trivial
  | node ptr d child ih =>
    refine ⟨(hm ptr (.inl rfl)).trans h.1, fun i => ih i (h.2 i) ?_⟩
    exact fun q hq => hm q (.inr ⟨i, hq⟩)

/-- The cells of a tree point below its root. -/
theorem Rep.points_below (h : (node ptr d child).Rep m) (hq : (node ptr d child).Mem q) :
    ∃ c, m q = some c ∧ ∀ i r, c.bit i = some r → ∃ j, (child j).Mem r := by
  have key : ∀ t : PTree D, t.Rep m → t.Mem q →
      ∃ c, m q = some c ∧ ∀ i r, c.bit i = some r → t.Mem r := by
    intro t
    induction t with
    | nil => exact fun _ hq => hq.elim
    | node ptr d child ih =>
      rintro h (rfl | ⟨j, hq⟩)
      · exact ⟨_, h.1, fun i r hr => .inr ⟨i, mem_root hr⟩⟩
      · obtain ⟨c, hc, hbit⟩ := ih j (h.2 j) hq
        exact ⟨c, hc, fun i r hr => .inr ⟨j, hbit i r hr⟩⟩
  rcases hq with rfl | ⟨j, hq⟩
  · exact ⟨_, h.1, fun i r hr => ⟨i, mem_root hr⟩⟩
  · obtain ⟨c, hc, hbit⟩ := key (child j) (h.2 j) hq
    exact ⟨c, hc, fun i r hr => ⟨j, hbit i r hr⟩⟩

theorem Distinct.disjoint (h : (node ptr d child).Distinct) (hij : i ≠ j) (hq : (child i).Mem q) :
    ¬ (child j).Mem q := by
  cases i <;> cases j
  · exact absurd rfl hij
  · exact h.2 q hq
  · exact fun hq' => h.2 q hq' hq
  · exact absurd rfl hij

theorem mem_update (hu : ∀ q, u.Mem q → (child i).Mem q)
    (h : ∃ j, (Function.update child i u j).Mem q) : ∃ j, (child j).Mem q := by
  obtain ⟨j, hj⟩ := h
  by_cases hji : j = i
  · rw [hji, Function.update_self] at hj
    exact ⟨i, hu q hj⟩
  · rw [Function.update_of_ne hji] at hj
    exact ⟨j, hj⟩

/-- A child may be replaced by a tree of some of its cells. -/
theorem Distinct.update (h : (node ptr d child).Distinct) (hu : u.Distinct)
    (hmem : ∀ q, u.Mem q → (child i).Mem q) :
    (node ptr d (Function.update child i u)).Distinct := by
  have hcase : ∀ j q, (Function.update child i u j).Mem q → (child j).Mem q := by
    intro j q hq
    by_cases hji : j = i
    · rw [hji, Function.update_self] at hq
      exact hji ▸ hmem q hq
    · rwa [Function.update_of_ne hji] at hq
  refine ⟨fun j => ⟨fun hq => (h.1 j).1 (hcase j ptr hq), ?_⟩, ?_⟩
  · by_cases hji : j = i
    · rw [hji, Function.update_self]
      exact hu
    · rw [Function.update_of_ne hji]
      exact (h.1 j).2
  · exact fun q hf ht => h.2 q (hcase false q hf) (hcase true q ht)

end PTree

section
variable {s s' s'' : Store D} {t t' t'' u : PTree D} {slot : Slot} {ptr q : Nat} {d : D}
  {child : Bool → PTree D} {i : Bool}

/-- The slot is not in a cell of the tree. -/
def Slot.Outside (t : PTree D) : Slot → Prop
  | .top => True
  | .kid ptr _ => ¬ t.Mem ptr

theorem write_read {r : Option Nat} (h : s.read slot = some r) : s.write slot r = some s := by
  cases slot with
  | top => cases h; rfl
  | kid ptr i =>
    obtain ⟨c, hc, rfl⟩ := Option.map_eq_some_iff.mp h
    have hsame : Function.update s.cell ptr (some c) = s.cell := by
      rw [← hc, Function.update_eq_self]
    rw [Store.write, hc, Option.map_some, Function.update_eq_self, Store.setCell, hsame]

/-- The tree was changed in place: its root is the same cell, and nothing outside it
moved. -/
structure Updated (s : Store D) (t : PTree D) (s' : Store D) (t' : PTree D) : Prop where
  top : s'.top = s.top
  frame : ∀ q, ¬ t.Mem q → s'.cell q = s.cell q
  rep : t'.Rep s'.cell
  sub : ∀ q, t'.Mem q → t.Mem q
  distinct : t'.Distinct
  root : t'.root = t.root

/-- Outside the tree, `r` was written to the slot and nothing else changed. -/
def Framed (s : Store D) (slot : Slot) (t : PTree D) (s' : Store D) (r : Option Nat) : Prop :=
  ∃ w, s.write slot r = some w ∧ s'.top = w.top ∧ ∀ q, ¬ t.Mem q → s'.cell q = w.cell q

/-- The tree in `slot` was changed and its new root written there. -/
structure Replaced (s : Store D) (slot : Slot) (t : PTree D) (s' : Store D)
    (t' : PTree D) : Prop where
  frame : Framed s slot t s' t'.root
  rep : t'.Rep s'.cell
  sub : ∀ q, t'.Mem q → t.Mem q
  distinct : t'.Distinct

theorem Updated.refl (hr : t.Rep s.cell) (hd : t.Distinct) : Updated s t s t :=
  ⟨rfl, fun _ _ => rfl, hr, fun _ h => h, hd, rfl⟩

theorem Updated.read (h : Updated s t s' t') (ho : slot.Outside t) :
    s'.read slot = s.read slot := by
  cases slot with
  | top => exact congrArg some h.top
  | kid ptr i => rw [Store.read, Store.read, h.frame ptr ho]

theorem Slot.Outside.sub (ho : slot.Outside t) (h : ∀ q, t'.Mem q → t.Mem q) : slot.Outside t' := by
  cases slot with
  | top => trivial
  | kid ptr i => exact fun hq => ho (h ptr hq)

/-- A change in place, then a replacement. -/
theorem Updated.replaced (h : Updated s t s' t') (ho : slot.Outside t)
    (h' : Replaced s' slot t' s'' t'') : Replaced s slot t s'' t'' := by
  obtain ⟨w, hw, htop, hcell⟩ := h'.frame
  refine ⟨?_, h'.rep, fun q hq => h.sub q (h'.sub q hq), h'.distinct⟩
  cases slot with
  | top =>
    cases hw
    refine ⟨_, rfl, htop, fun q hq => ?_⟩
    exact (hcell q fun hq' => hq (h.sub q hq')).trans (h.frame q hq)
  | kid ptr i =>
    obtain ⟨c, hc, rfl⟩ := Option.map_eq_some_iff.mp hw
    rw [h.frame ptr ho] at hc
    have hwrite : s.write (.kid ptr i) t''.root =
        some (s.setCell ptr (some { c with bit := Function.update c.bit i t''.root })) := by
      rw [Store.write, hc, Option.map_some]
    refine ⟨_, hwrite, htop.trans h.top, fun q hq => ?_⟩
    rw [hcell q fun hq' => hq (h.sub q hq')]
    by_cases hqp : q = ptr
    · simp [Store.setCell, hqp]
    · simp [Store.setCell, hqp, h.frame q hq]

theorem Replaced.refl (hread : s.read slot = some t.root) (hr : t.Rep s.cell) (hd : t.Distinct) :
    Replaced s slot t s t :=
  ⟨⟨s, write_read hread, rfl, fun _ _ => rfl⟩, hr, fun _ h => h, hd⟩

theorem Replaced.of_updated (h : Updated s t s' t') (ho : slot.Outside t)
    (hread : s.read slot = some t.root) : Replaced s slot t s' t' := by
  refine h.replaced ho (Replaced.refl ?_ h.rep h.distinct)
  rw [h.read ho, h.root]
  exact hread

theorem Updated.setData (hr : (PTree.node ptr d child).Rep s.cell)
    (hd : (PTree.node ptr d child).Distinct) (d' : D) : Updated s (.node ptr d child)
      (s.setCell ptr (some ⟨d', fun i => (child i).root⟩)) (.node ptr d' child) := by
  refine ⟨rfl, fun q hq => ?_, ⟨?_, fun i => ?_⟩, fun _ h => h, hd, rfl⟩
  · exact Function.update_of_ne (fun hqp => hq (.inl hqp)) _ _
  · exact Function.update_self _ _ _
  · refine (hr.2 i).congr fun q hq => ?_
    have hqp : q ≠ ptr := fun hqp => (hd.1 i).1 (hqp ▸ hq)
    exact Function.update_of_ne hqp _ _

/-- A child takes its parent's place, whose cell is freed after some last change. -/
theorem Replaced.splice (hr : (PTree.node ptr d child).Rep s.cell)
    (hd : (PTree.node ptr d child).Distinct)
    (ho : slot.Outside (.node ptr d child)) (hread : s.read slot = some (some ptr)) (c : Cell D)
    (i : Bool) :
    ∃ w, (s.setCell ptr (some c)).write slot (child i).root = some w ∧
      (w.setCell ptr none).read slot = some (child i).root ∧
      Replaced s slot (.node ptr d child) (w.setCell ptr none) (child i) := by
  have hne : ∀ q, (child i).Mem q → q ≠ ptr := fun q hq hqp => (hd.1 i).1 (hqp ▸ hq)
  have hrep : ∀ w : Store D, (∀ q, (child i).Mem q → w.cell q = s.cell q) →
      (child i).Rep (w.setCell ptr none).cell := by
    intro w hw
    refine (hr.2 i).congr fun q hq => ?_
    rw [← hw q hq]
    exact Function.update_of_ne (hne q hq) _ _
  have hsub : ∀ q, (child i).Mem q → (PTree.node ptr d child).Mem q := fun q hq => .inr ⟨i, hq⟩
  cases slot with
  | top =>
    refine ⟨_, rfl, rfl, ⟨⟨_, rfl, rfl, fun q hq => ?_⟩, ?_, hsub, (hd.1 i).2⟩⟩
    · have hqp : q ≠ ptr := fun hqp => hq (.inl hqp)
      simp [Store.setCell, hqp]
    · exact hrep _ fun q hq => Function.update_of_ne (hne q hq) _ _
  | kid r j =>
    obtain ⟨cr, hcr, -⟩ := Option.map_eq_some_iff.mp hread
    have hrp : r ≠ ptr := fun hrp => ho (.inl hrp)
    have hcr' : (s.setCell ptr (some c)).cell r = some cr :=
      (Function.update_of_ne hrp _ _).trans hcr
    have hwrite : s.write (.kid r j) (child i).root =
        some (s.setCell r (some { cr with bit := Function.update cr.bit j (child i).root })) := by
      rw [Store.write, hcr, Option.map_some]
    refine ⟨_, by rw [Store.write, hcr', Option.map_some], ?_, ?_⟩
    · simp [Store.read, Store.setCell, hrp]
    · refine ⟨⟨_, hwrite, rfl, fun q hq => ?_⟩, ?_, hsub, (hd.1 i).2⟩
      · have hqp : q ≠ ptr := fun hqp => hq (.inl hqp)
        by_cases hqr : q = r
        · simp [Store.setCell, hqr, hrp]
        · simp [Store.setCell, hqr, hqp]
      · refine hrep _ fun q hq => ?_
        have hqr : q ≠ r := fun hqr => ho (hqr ▸ hsub q hq)
        simp [Store.setCell, hqr, hne q hq]

/-- Below a cell only the slot that was written is seen to change. -/
theorem Framed.parent (hr : (PTree.node ptr d child).Rep s.cell)
    (hd : (PTree.node ptr d child).Distinct)
    (h : Framed s (.kid ptr i) (child i) s' u.root) (hu : u.Rep s'.cell) :
    s'.top = s.top ∧ (∀ q, ¬ (PTree.node ptr d child).Mem q → s'.cell q = s.cell q) ∧
      (PTree.node ptr d (Function.update child i u)).Rep s'.cell := by
  obtain ⟨w, hw, htop, hcell⟩ := h
  rw [Store.write, hr.1] at hw
  obtain rfl := Option.some.inj hw
  refine ⟨htop, fun q hq => ?_, ?_, fun j => ?_⟩
  · rw [hcell q fun hq' => hq (.inr ⟨i, hq'⟩)]
    exact Function.update_of_ne (fun hqp => hq (.inl hqp)) _ _
  · rw [hcell ptr (hd.1 i).1]
    simp only [Store.setCell, Function.update_self, Option.some.injEq, Cell.mk.injEq, true_and]
    funext j
    exact (Function.apply_update (fun _ => PTree.root) child i u j).symm
  · by_cases hji : j = i
    · rw [hji, Function.update_self]
      exact hu
    · rw [Function.update_of_ne hji]
      refine (hr.2 j).congr fun q hq => ?_
      have hqp : q ≠ ptr := fun hqp => (hd.1 j).1 (hqp ▸ hq)
      rw [hcell q (hd.disjoint hji hq)]
      exact Function.update_of_ne hqp _ _

/-- Replacing a child is a change in place of its parent. -/
theorem Replaced.updated (hr : (PTree.node ptr d child).Rep s.cell)
    (hd : (PTree.node ptr d child).Distinct) (h : Replaced s (.kid ptr i) (child i) s' u) :
    Updated s (.node ptr d child) s' (.node ptr d (Function.update child i u)) := by
  obtain ⟨htop, hcell, hrep⟩ := h.frame.parent hr hd h.rep
  refine ⟨htop, hcell, hrep, ?_, hd.update h.distinct h.sub, rfl⟩
  rintro q (hq | hq)
  · exact .inl hq
  · exact .inr (PTree.mem_update h.sub hq)

end

/-! ### Going down a path -/

namespace PTree

/-- The subtree where a descent stops that leaves each cell by `sel`. -/
def focus (sel : D → Option Bool) : PTree D → PTree D
  | nil => nil
  | node ptr d child =>
    match sel d with
    | none => node ptr d child
    | some i => (child i).focus sel

/-- The tree with another one where the descent stops. -/
def plug (sel : D → Option Bool) : PTree D → PTree D → PTree D
  | nil, u => u
  | node ptr d child, u =>
    match sel d with
    | none => u
    | some i => node ptr d (Function.update child i ((child i).plug sel u))

/-- The slot the descent stops at, from the tree's own. -/
def focusSlot (sel : D → Option Bool) : Slot → PTree D → Slot
  | slot, nil => slot
  | slot, node ptr d child =>
    match sel d with
    | none => slot
    | some i => (child i).focusSlot sel (.kid ptr i)

variable {sel : D → Option Bool} {t u : PTree D} {m m' : Cells D} {q : Nat}

theorem mem_of_mem_focus (h : (t.focus sel).Mem q) : t.Mem q := by
  induction t with
  | nil => exact h
  | node ptr d child ih =>
    unfold focus at h
    split at h
    · exact h
    · rename_i i _
      exact .inr ⟨i, ih i h⟩

theorem Rep.focus (h : t.Rep m) : (t.focus sel).Rep m := by
  induction t with
  | nil => trivial
  | node ptr d child ih =>
    rw [PTree.focus]
    cases sel d with
    | none => exact h
    | some i => exact ih i (h.2 i)

theorem Distinct.focus (h : t.Distinct) : (t.focus sel).Distinct := by
  induction t with
  | nil => trivial
  | node ptr d child ih =>
    rw [PTree.focus]
    cases sel d with
    | none => exact h
    | some i => exact ih i (h.1 i).2

theorem read_focusSlot {s : Store D} (sel : D → Option Bool) (slot : Slot) (h : t.Rep s.cell)
    (hread : s.read slot = some t.root) :
    s.read (t.focusSlot sel slot) = some (t.focus sel).root := by
  induction t generalizing slot with
  | nil => exact hread
  | node ptr d child ih =>
    rw [PTree.focusSlot, PTree.focus]
    cases sel d with
    | none => exact hread
    | some i => exact ih i _ (h.2 i) (by rw [Store.read, h.1, Option.map_some])

theorem mem_plug (h : (t.plug sel u).Mem q) : t.Mem q ∨ u.Mem q := by
  induction t with
  | nil => exact .inr h
  | node ptr d child ih =>
    unfold plug at h
    split at h
    · exact .inr h
    · rename_i i _
      rcases h with h | ⟨j, h⟩
      · exact .inl (.inl h)
      · by_cases hji : j = i
        · rw [hji, Function.update_self] at h
          exact (ih i h).imp (fun h => .inr ⟨i, h⟩) id
        · rw [Function.update_of_ne hji] at h
          exact .inl (.inr ⟨j, h⟩)

theorem distinct_plug (ht : t.Distinct) (hu : u.Distinct)
    (hmem : ∀ q, t.Mem q → u.Mem q → (t.focus sel).Mem q) : (t.plug sel u).Distinct := by
  induction t with
  | nil => exact hu
  | node ptr d child ih =>
    unfold plug
    split
    · exact hu
    · rename_i i hi
      rw [PTree.focus, hi] at hmem
      have hsub : ∀ q, u.Mem q → (node ptr d child).Mem q → (child i).Mem q :=
        fun q hq hq' => mem_of_mem_focus (hmem q hq' hq)
      have hplug := ih i (ht.1 i).2 fun q hq hq' => hmem q (.inr ⟨i, hq⟩) hq'
      have hcase : ∀ j q, (Function.update child i ((child i).plug sel u) j).Mem q →
          (node ptr d child).Mem q → (child j).Mem q := by
        intro j q hq hq'
        by_cases hji : j = i
        · rw [hji, Function.update_self] at hq
          rw [hji]
          exact (mem_plug hq).elim id fun h => hsub q h hq'
        · rwa [Function.update_of_ne hji] at hq
      have hcross : ∀ q, (Function.update child i ((child i).plug sel u) false).Mem q →
          ¬ (Function.update child i ((child i).plug sel u) true).Mem q := by
        intro q hf ht'
        have hin : (node ptr d child).Mem q := by
          cases i
          · rw [Function.update_of_ne (by decide)] at ht'
            exact .inr ⟨true, ht'⟩
          · rw [Function.update_of_ne (by decide)] at hf
            exact .inr ⟨false, hf⟩
        exact ht.2 q (hcase false q hf hin) (hcase true q ht' hin)
      refine ⟨fun j => ⟨fun h => (ht.1 j).1 (hcase j ptr h (.inl rfl)), ?_⟩, hcross⟩
      by_cases hji : j = i
      · rw [hji, Function.update_self]
        exact hplug
      · rw [Function.update_of_ne hji]
        exact (ht.1 j).2

theorem Rep.plug_same (h : t.Rep m) (hu : u.Rep m') (hroot : u.root = (t.focus sel).root)
    (hm : ∀ q, t.Mem q → ¬ (t.focus sel).Mem q → m' q = m q) (hd : t.Distinct) :
    (t.plug sel u).Rep m' ∧ (t.plug sel u).root = t.root := by
  induction t with
  | nil => exact ⟨hu, hroot⟩
  | node ptr d child ih =>
    rw [plug]
    cases hi : sel d with
    | none =>
      rw [PTree.focus, hi] at hroot
      exact ⟨hu, hroot⟩
    | some i =>
      rw [PTree.focus, hi] at hroot hm
      obtain ⟨hrep, hsame⟩ := ih i (h.2 i) hroot (fun q hq hf => hm q (.inr ⟨i, hq⟩) hf) (hd.1 i).2
      refine ⟨⟨?_, fun j => ?_⟩, rfl⟩
      · rw [hm ptr (.inl rfl) fun hf => (hd.1 i).1 (mem_of_mem_focus hf), h.1]
        congr 2
        funext j
        by_cases hji : j = i
        · rw [hji, Function.update_self, hsame]
        · rw [Function.update_of_ne hji]
      · by_cases hji : j = i
        · rw [hji, Function.update_self]
          exact hrep
        · rw [Function.update_of_ne hji]
          refine (h.2 j).congr fun q hq => hm q (.inr ⟨j, hq⟩) fun hf => ?_
          exact hd.disjoint hji hq (mem_of_mem_focus hf)

end PTree

theorem write_focusSlot {sel : D → Option Bool} {s : Store D} (slot : Slot) {t u : PTree D}
    (hr : t.Rep s.cell) (hd : t.Distinct) (hu : u.Rep s.cell)
    (hmem : ∀ q, t.Mem q → u.Mem q → (t.focus sel).Mem q) (ht : slot.Outside t)
    (ho : slot.Outside u) (hread : s.read slot = some t.root) :
    ∃ w, s.write (t.focusSlot sel slot) u.root = some w ∧ (t.plug sel u).Rep w.cell ∧
      Framed s slot t w (t.plug sel u).root := by
  have hhere : ∃ w, s.write slot u.root = some w ∧ u.Rep w.cell := by
    cases slot with
    | top => exact ⟨_, rfl, hu⟩
    | kid ptr i =>
      obtain ⟨c, hc, -⟩ := Option.map_eq_some_iff.mp hread
      refine ⟨_, by rw [Store.write, hc, Option.map_some], hu.congr fun q hq => ?_⟩
      have hqp : q ≠ ptr := fun hqp => ho (hqp ▸ hq)
      exact Function.update_of_ne hqp _ _
  induction t generalizing slot with
  | nil =>
    obtain ⟨w, hw, hrep⟩ := hhere
    exact ⟨w, hw, hrep, w, hw, rfl, fun _ _ => rfl⟩
  | node ptr d child ih =>
    rw [PTree.focusSlot, PTree.plug]
    cases hi : sel d with
    | none =>
      obtain ⟨w, hw, hrep⟩ := hhere
      exact ⟨w, hw, hrep, w, hw, rfl, fun _ _ => rfl⟩
    | some i =>
      rw [PTree.focus, hi] at hmem
      have hptr : ¬ u.Mem ptr :=
        fun h => (hd.1 i).1 (PTree.mem_of_mem_focus (hmem ptr (.inl rfl) h))
      have hkid : s.read (.kid ptr i) = some (child i).root := by
        rw [Store.read, hr.1, Option.map_some]
      have hwrite : ∃ w, s.write (.kid ptr i) u.root = some w ∧ u.Rep w.cell := by
        refine ⟨_, by rw [Store.write, hr.1, Option.map_some], hu.congr fun q hq => ?_⟩
        have hqp : q ≠ ptr := fun hqp => hptr (hqp ▸ hq)
        exact Function.update_of_ne hqp _ _
      have hkidt : Slot.Outside (child i) (.kid ptr i) := (hd.1 i).1
      have hkidu : Slot.Outside u (.kid ptr i) := hptr
      obtain ⟨w, hw, hrep, hframe⟩ := ih i _ (hr.2 i) (hd.1 i).2
        (fun q hq hq' => hmem q (.inr ⟨i, hq⟩) hq') hkidt hkidu hkid hwrite
      obtain ⟨htop, hcell, hnode⟩ := hframe.parent hr hd hrep
      exact ⟨w, hw, hnode, s, write_read hread, htop, hcell⟩

end PtrTree
