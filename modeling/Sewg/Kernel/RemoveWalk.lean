import Sewg.Lib.TreeWalk
import Sewg.Kernel.AllowedIPs

/-! The walk of `walk_remove_by_peer`. It follows `prev` instead of keeping marks, and
after a leaf is freed `prev` is NULL, so that a node looks as if it were entered from
above and its first branch is walked a second time. The walk of a tree in some place
still ends, with the tree that a recursive removal gives there: by induction on the
number of nodes, since what is walked again is a branch that was cleaned before. -/

namespace Sewg.Kernel

open PtrTree Loop

variable {P : Type} [DecidableEq P] {p : P}

/-- What is left of a node when its branches have been dealt with. -/
def settle (p : P) (ptr : Nat) (d : NodeData P) (child : Bool → PTree (NodeData P)) :
    PTree (NodeData P) :=
  if d.peer = some p then
    match child false, child true with
    | .nil, t => t
    | t, .nil => t
    | _, _ => .node ptr { d with peer := none } child
  else .node ptr d child

def removeTree (p : P) : PTree (NodeData P) → PTree (NodeData P)
  | .nil => .nil
  | .node ptr d child => settle p ptr d fun i => removeTree p (child i)

section
variable {ptr q : Nat} {d : NodeData P} {child : Bool → PTree (NodeData P)} {t : PTree (NodeData P)}
  {s : Store (NodeData P)} {slot : Slot} {rest : List Slot} {prev : Option Nat}

theorem settle_cases (p : P) (ptr : Nat) (d : NodeData P) (child : Bool → PTree (NodeData P)) :
    (d.peer ≠ some p ∧ settle p ptr d child = .node ptr d child) ∨
    (d.peer = some p ∧ child false ≠ .nil ∧ child true ≠ .nil ∧
      settle p ptr d child = .node ptr { d with peer := none } child) ∨
    (d.peer = some p ∧ ∃ i, child (!i) = .nil ∧ i = !(child false).root.isSome ∧
      settle p ptr d child = child i) := by
  by_cases hp : d.peer = some p
  · cases hf : child false with
    | nil => exact .inr (.inr ⟨hp, true, hf, rfl, by rw [settle, if_pos hp, hf]⟩)
    | node =>
      cases ht : child true with
      | nil => exact .inr (.inr ⟨hp, false, ht, rfl, by rw [settle, if_pos hp, hf, ht]⟩)
      | node =>
        refine .inr (.inl ⟨hp, nofun, nofun, ?_⟩)
        rw [settle, if_pos hp, hf, ht]
  · exact .inl ⟨hp, by rw [settle, if_neg hp]⟩

theorem size_removeTree (p : P) (t : PTree (NodeData P)) : (removeTree p t).size ≤ t.size := by
  induction t with
  | nil => exact Nat.le_refl 0
  | node ptr d child ih =>
    have hf := ih false
    have ht := ih true
    rw [removeTree]
    obtain ⟨-, h⟩ | ⟨-, -, -, h⟩ | ⟨-, i, -, -, h⟩ :=
      settle_cases p ptr d fun i => removeTree p (child i)
    · simp only [h, PTree.size]; omega
    · simp only [h, PTree.size]; omega
    · have hi := ih i
      simp only [h, PTree.size]
      cases i <;> omega

theorem depth_removeTree (p : P) (t : PTree (NodeData P)) : (removeTree p t).depth ≤ t.depth := by
  induction t with
  | nil => exact Nat.le_refl 0
  | node ptr d child ih =>
    rw [removeTree]
    obtain ⟨-, h⟩ | ⟨-, -, -, h⟩ | ⟨-, i, -, -, h⟩ :=
      settle_cases p ptr d fun i => removeTree p (child i)
    · rw [h]
      exact PTree.depth_node_le ih
    · rw [h]
      exact PTree.depth_node_le ih
    · rw [h]
      exact Nat.le_trans (ih i) (Nat.le_of_lt (PTree.depth_child_lt ptr d child i))

theorem depth_update_removeTree (p : P) (ptr : Nat) (d : NodeData P)
    (child : Bool → PTree (NodeData P))
    (i : Bool) : (PTree.node ptr d (Function.update child i (removeTree p (child i)))).depth ≤
      (PTree.node ptr d child).depth := by
  apply PTree.depth_node_le
  intro j
  by_cases hj : j = i
  · rw [hj, Function.update_self]
    exact depth_removeTree p (child i)
  · exact Nat.le_of_eq (congrArg PTree.depth (Function.update_of_ne hj _ _))

theorem removeTree_removeTree (p : P) (t : PTree (NodeData P)) :
    removeTree p (removeTree p t) = removeTree p t := by
  induction t with
  | nil => rfl
  | node ptr d child ih =>
    rw [removeTree]
    obtain ⟨hp, h⟩ | ⟨-, -, -, h⟩ | ⟨-, i, -, -, h⟩ :=
      settle_cases p ptr d fun i => removeTree p (child i)
    · rw [h, removeTree, funext ih, settle, if_neg hp]
    · rw [h, removeTree, funext ih, settle, if_neg (by simp)]
    · rw [h]; exact ih i

/-- A place points to a node, whose tree is in memory and apart from the place. -/
structure Placed (s : Store (NodeData P)) (slot : Slot) (ptr : Nat) (d : NodeData P)
    (child : Bool → PTree (NodeData P)) : Prop where
  read : s.read slot = some (some ptr)
  rep : (PTree.node ptr d child).Rep s.cell
  distinct : (PTree.node ptr d child).Distinct
  outside : slot.Outside (.node ptr d child)

omit [DecidableEq P] in
theorem Placed.updated {s' : Store (NodeData P)} {child' : Bool → PTree (NodeData P)}
    (h : Placed s slot ptr d child) (hup : Updated s (.node ptr d child) s' (.node ptr d child')) :
    Placed s' slot ptr d child' :=
  ⟨(hup.read h.outside).trans h.read, hup.rep, hup.distinct, h.outside.sub hup.sub⟩

theorem removeHere_spec (h : Placed s slot ptr d child) :
    ∃ s', removeHere p s slot ptr ⟨d, fun i => (child i).root⟩ =
        some (s', (settle p ptr d child).root) ∧
      Replaced s slot (.node ptr d child) s' (settle p ptr d child) := by
  obtain ⟨hread, hr, hd, ho⟩ := h
  obtain ⟨hp, h⟩ | ⟨hp, hf, ht, h⟩ | ⟨hp, i, hnil, hi, h⟩ := settle_cases p ptr d child
  · rw [h]
    refine ⟨s, ?_, Replaced.refl hread hr hd⟩
    rw [removeHere, if_neg hp]
    rfl
  · rw [h]
    have hup := Updated.setData hr hd { d with peer := none }
    refine ⟨_, ?_, Replaced.of_updated hup ho hread⟩
    have hboth : ¬ ((child false).root = none ∨ (child true).root = none) := by
      rw [PTree.root_eq_none, PTree.root_eq_none]
      exact not_or.mpr ⟨hf, ht⟩
    simp only [removeHere, if_pos hp, if_neg hboth]
    rfl
  · rw [h]
    have hone : (child false).root = none ∨ (child true).root = none := by
      rw [PTree.root_eq_none, PTree.root_eq_none]
      cases i
      · exact .inr hnil
      · exact .inl hnil
    obtain ⟨w, hw, hread', hrepl⟩ :=
      Replaced.splice hr hd ho hread ⟨{ d with peer := none }, fun i => (child i).root⟩ i
    refine ⟨_, ?_, hrepl⟩
    simp only [removeHere, if_pos hp, if_pos hone, ← hi, hw, hread', Option.bind_eq_bind,
      Option.bind_some]
    rfl

/-! ### One turn of the loop -/

omit [DecidableEq P] in
/-- No cell of a tree points to its root, so coming back to it is told from entering
it. -/
theorem cameFromAbove_of_mem (hr : (PTree.node ptr d child).Rep s.cell)
    (hd : (PTree.node ptr d child).Distinct) (hq : (PTree.node ptr d child).Mem q) :
    cameFromAbove s (some q) ptr = some false := by
  obtain ⟨c, hc, hbit⟩ := hr.points_below hq
  have hne : ∀ i, c.bit i ≠ some ptr := by
    intro i hi
    obtain ⟨j, hj⟩ := hbit i ptr hi
    exact (hd.1 j).1 hj
  have hb : ∀ i, (c.bit i == some ptr) = false := fun i => beq_eq_false_iff_ne.mpr (hne i)
  rw [cameFromAbove, hc, Option.map_some, hb, hb]
  rfl

omit [DecidableEq P] in
theorem cameFromAbove_kid (i : Bool) (hr : (PTree.node ptr d child).Rep s.cell)
    (hi : (child i).root = some q) : cameFromAbove s (some ptr) q = some true := by
  rw [cameFromAbove, hr.1, Option.map_some]
  cases i <;> simp [hi]

/-- The stack after the branch `i` of `ptr` is pushed, if there is one. -/
def pushKid (ptr : Nat) (child : Bool → PTree (NodeData P)) (i : Bool) (stack : List Slot) :
    List Slot :=
  if (child i).root = none then stack else .kid ptr i :: stack

theorem walkStep_above (p : P) (rest : List Slot) (h : Placed s slot ptr d child)
    (hprev : cameFromAbove s prev ptr = some true) :
    walkStep p ⟨s, slot :: rest, prev⟩ = some (.inl ⟨s,
      if (child false).root = none then pushKid ptr child true (slot :: rest)
      else .kid ptr false :: slot :: rest, some ptr⟩) := by
  simp only [walkStep, h.read, h.rep.1, hprev, Option.bind_eq_bind, Option.bind_some,
    if_true, pushKid]
  simp only [ne_eq, ite_not]
  split
  · split <;> rfl
  · rfl

theorem walkStep_first (p : P) (rest : List Slot) (h : Placed s slot ptr d child)
    (hq : (child false).root = some q) :
    walkStep p ⟨s, slot :: rest, some q⟩ =
      some (.inl ⟨s, pushKid ptr child true (slot :: rest), some ptr⟩) := by
  have hmem : (PTree.node ptr d child).Mem q := .inr ⟨false, PTree.mem_root hq⟩
  simp only [walkStep, h.read, h.rep.1, cameFromAbove_of_mem h.rep h.distinct hmem,
    Option.bind_eq_bind, Option.bind_some, Bool.false_eq_true, if_false, hq, if_true,
    pushKid, ne_eq, ite_not]
  split <;> rfl

theorem walkStep_last (p : P) (rest : List Slot) (h : Placed s slot ptr d child)
    (hmem : (PTree.node ptr d child).Mem q) (hq : (child false).root ≠ some q) :
    ∃ s', walkStep p ⟨s, slot :: rest, some q⟩ =
        some (.inl ⟨s', rest, (settle p ptr d child).root⟩) ∧
      Replaced s slot (.node ptr d child) s' (settle p ptr d child) := by
  obtain ⟨s', hs', hrepl⟩ := removeHere_spec (p := p) h
  refine ⟨s', ?_, hrepl⟩
  simp only [walkStep, h.read, h.rep.1, cameFromAbove_of_mem h.rep h.distinct hmem,
    Option.bind_eq_bind, Option.bind_some, Bool.false_eq_true, if_false, if_neg hq, hs']
  rfl

/-! ### The walk of a tree -/

/-- Entered from above, the walk of the tree in a place ends with what is left of it
there. -/
def Walks (p : P) (t : PTree (NodeData P)) : Prop :=
  ∀ (s : Store (NodeData P)) (slot : Slot) (rest : List Slot) (prev : Option Nat) (ptr : Nat),
    t.root = some ptr → s.read slot = some (some ptr) → t.Rep s.cell → t.Distinct →
    slot.Outside t → cameFromAbove s prev ptr = some true →
    ∃ s', Reaches (walkStep p) ⟨s, slot :: rest, prev⟩ ⟨s', rest, (removeTree p t).root⟩ ∧
      Replaced s slot t s' (removeTree p t)

/-- At most `height` places are on the stack. -/
def Fits (height : Nat) (w : WalkState P) : Prop := w.stack.length ≤ height

/-- The same, and there is room for the tree on the stack. -/
def WalksWithin (height : Nat) (p : P) (t : PTree (NodeData P)) : Prop :=
  ∀ (s : Store (NodeData P)) (slot : Slot) (rest : List Slot) (prev : Option Nat) (ptr : Nat),
    t.root = some ptr → s.read slot = some (some ptr) → t.Rep s.cell → t.Distinct →
    slot.Outside t → cameFromAbove s prev ptr = some true → rest.length + t.depth ≤ height →
    ∃ s', Within (walkStep p) (Fits height) ⟨s, slot :: rest, prev⟩ ⟨s', rest,
      (removeTree p t).root⟩ ∧ Replaced s slot t s' (removeTree p t)

variable {height : Nat}

omit [DecidableEq P] in
theorem room_kid (i : Bool) (hroom : rest.length + (PTree.node ptr d child).depth ≤ height) :
    (slot :: rest).length + (child i).depth ≤ height := by
  have := PTree.depth_child_lt ptr d child i
  rw [List.length_cons]
  omega

omit [DecidableEq P] in
theorem fits_here (hroom : rest.length + (PTree.node ptr d child).depth ≤ height) :
    Fits height ⟨s, slot :: rest, prev⟩ := by
  have hpos : 0 < (PTree.node ptr d child).depth := Nat.succ_pos _
  unfold Fits
  rw [List.length_cons]
  omega

theorem walk_kid (i : Bool) (hw : WalksWithin height p (child i))
    (hr : (PTree.node ptr d child).Rep s.cell)
    (hd : (PTree.node ptr d child).Distinct) (hne : (child i).root ≠ none) (rest : List Slot)
    (hroom : rest.length + (child i).depth ≤ height) :
    ∃ s', Within (walkStep p) (Fits height) ⟨s, .kid ptr i :: rest, some ptr⟩
        ⟨s', rest, (removeTree p (child i)).root⟩ ∧
      Updated s (.node ptr d child) s'
        (.node ptr d (Function.update child i (removeTree p (child i)))) := by
  obtain ⟨q, hq⟩ := Option.ne_none_iff_exists'.mp hne
  have hread : s.read (.kid ptr i) = some (some q) := by
    rw [Store.read, hr.1, Option.map_some]
    exact congrArg some hq
  obtain ⟨s', hreach, hrepl⟩ := hw s (.kid ptr i) rest (some ptr) q hq hread (hr.2 i) (hd.1 i).2
    (hd.1 i).1 (cameFromAbove_kid i hr hq) hroom
  exact ⟨s', hreach, hrepl.updated hr hd⟩

/-- Both branches are done. If the second one is gone `prev` is NULL, and the first is
walked once more before the node has its last visit. -/
theorem walk_settle (rest : List Slot) (hclean : removeTree p (child false) = child false)
    (hw : WalksWithin height p (child false)) (h : Placed s slot ptr d child)
    (hprev : prev = (child true).root ∨ prev = some ptr)
    (hroom : rest.length + (PTree.node ptr d child).depth ≤ height) :
    ∃ s', Within (walkStep p) (Fits height) ⟨s, slot :: rest, prev⟩
        ⟨s', rest, (settle p ptr d child).root⟩ ∧
      Replaced s slot (.node ptr d child) s' (settle p ptr d child) := by
  have hself : (child false).root ≠ some ptr := fun hroot =>
    (h.distinct.1 false).1 (PTree.mem_root hroot)
  cases prev with
  | some q =>
    have hq : (PTree.node ptr d child).Mem q ∧ (child false).root ≠ some q := by
      rcases hprev with hq | hq
      · have hmem := PTree.mem_root hq.symm
        exact ⟨.inr ⟨true, hmem⟩, fun hroot => h.distinct.2 q (PTree.mem_root hroot) hmem⟩
      · exact ⟨.inl (Option.some.inj hq), fun hroot => hself (hroot.trans hq)⟩
    obtain ⟨s', hs', hrepl⟩ := walkStep_last p rest h hq.1 hq.2
    exact ⟨s', within_step hs' (fits_here hroom), hrepl⟩
  | none =>
    have htrue : (child true).root = none := by
      rcases hprev with hprev | hprev
      · exact hprev.symm
      · cases hprev
    have hstep := walkStep_above p rest h (rfl : cameFromAbove s none ptr = some true)
    by_cases hfalse : (child false).root = none
    · obtain ⟨s', hs', hrepl⟩ := walkStep_last p rest h (.inl rfl) hself
      rw [if_pos hfalse, pushKid, if_pos htrue] at hstep
      exact ⟨s', (within_step hstep (fits_here hroom)).trans
        (within_step hs' (fits_here hroom)), hrepl⟩
    · rw [if_neg hfalse] at hstep
      obtain ⟨s1, hreach, hup⟩ :=
        walk_kid false hw h.rep h.distinct hfalse (slot :: rest) (room_kid false hroom)
      rw [hclean, Function.update_eq_self] at hup
      rw [hclean] at hreach
      obtain ⟨q, hq⟩ := Option.ne_none_iff_exists'.mp hfalse
      have hback := walkStep_first p rest (h.updated hup) hq
      rw [pushKid, if_pos htrue] at hback
      obtain ⟨s', hs', hrepl⟩ := walkStep_last p rest (h.updated hup) (.inl rfl) hself
      refine ⟨s', ?_, hup.replaced h.outside hrepl⟩
      rw [hq] at hreach
      exact (within_step hstep (fits_here hroom)).trans (hreach.trans
        ((within_step hback (fits_here hroom)).trans (within_step hs' (fits_here hroom))))

theorem walk_second (rest : List Slot) (hclean : removeTree p (child false) = child false)
    (hwf : WalksWithin height p (child false)) (hwt : WalksWithin height p (child true))
    (h : Placed s slot ptr d child)
    (hroom : rest.length + (PTree.node ptr d child).depth ≤ height) :
    ∃ s', Within (walkStep p) (Fits height) ⟨s, pushKid ptr child true (slot :: rest), some ptr⟩
        ⟨s', rest, (settle p ptr d (Function.update child true (removeTree p (child true)))).root⟩ ∧
      Replaced s slot (.node ptr d child) s'
        (settle p ptr d (Function.update child true (removeTree p (child true)))) := by
  by_cases htrue : (child true).root = none
  · have hnil := PTree.root_eq_none.mp htrue
    have hsame : Function.update child true (removeTree p (child true)) = child := by
      rw [hnil, removeTree, ← hnil, Function.update_eq_self]
    rw [hsame, pushKid, if_pos htrue]
    exact walk_settle rest hclean hwf h (.inr rfl) hroom
  · rw [pushKid, if_neg htrue]
    obtain ⟨s1, hreach, hup⟩ :=
      walk_kid true hwt h.rep h.distinct htrue (slot :: rest) (room_kid true hroom)
    have hroom' := depth_update_removeTree p ptr d child true
    have hfalse : Function.update child true (removeTree p (child true)) false = child false :=
      Function.update_of_ne (by decide) _ _
    obtain ⟨s', hreach', hrepl⟩ := walk_settle (p := p) rest (by rw [hfalse]; exact hclean)
      (by rw [hfalse]; exact hwf) (h.updated hup) (.inl (by rw [Function.update_self])) (by omega)
    exact ⟨s', hreach.trans hreach', hup.replaced h.outside hrepl⟩

theorem walk_first (rest : List Slot) (hwf : WalksWithin height p (child false))
    (h : Placed s slot ptr d child) (hprev : cameFromAbove s prev ptr = some true)
    (hroom : rest.length + (PTree.node ptr d child).depth ≤ height) :
    ∃ s', Within (walkStep p) (Fits height) ⟨s, slot :: rest, prev⟩
        ⟨s', pushKid ptr child true (slot :: rest), some ptr⟩ ∧
      Updated s (.node ptr d child) s'
        (.node ptr d (Function.update child false (removeTree p (child false)))) := by
  have hstep := walkStep_above p rest h hprev
  by_cases hfalse : (child false).root = none
  · have hnil := PTree.root_eq_none.mp hfalse
    have hsame : Function.update child false (removeTree p (child false)) = child := by
      rw [hnil, removeTree, ← hnil, Function.update_eq_self]
    rw [if_pos hfalse] at hstep
    rw [hsame]
    exact ⟨s, within_step hstep (fits_here hroom), Updated.refl h.rep h.distinct⟩
  · rw [if_neg hfalse] at hstep
    obtain ⟨s1, hreach, hup⟩ :=
      walk_kid false hwf h.rep h.distinct hfalse (slot :: rest) (room_kid false hroom)
    refine ⟨s1, (within_step hstep (fits_here hroom)).trans
      (hreach.trans (within_step ?_ (fits_here hroom))), hup⟩
    -- what is left of the first branch tells that it is done; if nothing is, the node looks as
    -- if it were entered from above
    cases hleft : (removeTree p (child false)).root with
    | none =>
      rw [walkStep_above p rest (h.updated hup) rfl, Function.update_self, if_pos hleft]
      rfl
    | some q =>
      rw [walkStep_first p rest (h.updated hup) (by rw [Function.update_self]; exact hleft)]
      rfl

theorem walksWithin (height : Nat) (p : P) (t : PTree (NodeData P)) : WalksWithin height p t := by
  suffices h : ∀ n (t : PTree (NodeData P)), t.size ≤ n → WalksWithin height p t from
    h t.size t (Nat.le_refl _)
  intro n
  induction n with
  | zero =>
    intro t hn s slot rest prev ptr hroot
    cases t with
    | nil => cases hroot
    | node => exact absurd hn (Nat.not_succ_le_zero _)
  | succ n ih =>
    intro t hn s slot rest prev ptr hroot hread hr hd ho hprev hroom
    cases t with
    | nil => cases hroot
    | node ptr' d child =>
      obtain rfl : ptr' = ptr := Option.some.inj hroot
      have h : Placed s slot ptr' d child := ⟨hread, hr, hd, ho⟩
      have hsize : (child false).size ≤ n ∧ (child true).size ≤ n := by
        simp only [PTree.size] at hn
        omega
      obtain ⟨s1, hfirst, hup⟩ := walk_first rest (ih _ hsize.1) h hprev hroom
      have hself : Function.update child false (removeTree p (child false)) false =
          removeTree p (child false) := Function.update_self _ _ _
      have hother : Function.update child false (removeTree p (child false)) true = child true :=
        Function.update_of_ne (by decide) _ _
      have hboth : (fun i => removeTree p (child i)) = Function.update
          (Function.update child false (removeTree p (child false))) true
              (removeTree p (child true)) := by
        funext i
        cases i <;> rfl
      -- the removed first branch is clean, and no larger than it was
      have hwclean := ih _ (Nat.le_trans (size_removeTree p (child false)) hsize.1)
      have hroom' := depth_update_removeTree p ptr' d child false
      obtain ⟨s', hsecond, hrepl⟩ := walk_second (p := p) rest
        (by rw [hself]; exact removeTree_removeTree p (child false)) (by rw [hself]; exact hwclean)
        (by rw [hother]; exact ih _ hsize.2) (h.updated hup) (by omega)
      rw [hother] at hsecond hrepl
      rw [removeTree, hboth]
      exact ⟨s', hfirst.trans hsecond, hup.replaced ho hrepl⟩

theorem walks (p : P) (t : PTree (NodeData P)) : Walks p t := by
  intro s slot rest prev ptr hroot hread hr hd ho hprev
  obtain ⟨s', hreach, hrepl⟩ :=
    walksWithin (rest.length + t.depth) p t s slot rest prev ptr hroot hread hr
      hd ho hprev (Nat.le_refl _)
  exact ⟨s', hreach.reaches, hrepl⟩

end

end Sewg.Kernel
