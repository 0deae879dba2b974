import Sewg.Kernel.Walks

/-! How high the stacks of the walks become. Each of them has 128 places, and a place is
written when an entry is pushed, so a walk stays inside if there are never more than 128
entries. A trie of IPv6 prefixes can have a node for every length from 0 to 128 on one
path, and these are 129. -/

namespace Sewg.Kernel

open CString (Bytes)
open Words Routes PtrTree Loop

/-- `*stack[128]` -/
def stackSize : Nat := 128

section
variable {P : Type} [DecidableEq P]

/-- The loop of `root_free_rcu` stays inside its stack. -/
def FreeInside (m : Cells (NodeData P)) (root : Option Nat) : Prop :=
  ∀ r, root = some r → ∀ w, Reaches rootFreeStep (m, [r]) w → w.2.length ≤ stackSize

/-- The stacks of `walk_by_peer` in any number of calls with one cursor: a call that fails
leaves the stack for the next one, which may have another callback. -/
inductive WalkStack (e : Endian) (m : Cells (NodeData P)) (root : Option Nat) (bits : Nat) :
    List Nat → Prop
  | start (r : Nat) (root_eq : root = some r) : WalkStack e m root bits [r]
  | turn {σ : Type} (func : Callback σ) (peer : Option P) {stack stack' : List Nat} {ctx ctx' : σ}
      (before : WalkStack e m root bits stack)
      (step : walkByPeerStep func e m bits peer (stack, ctx) = some (.inl (stack', ctx'))) :
      WalkStack e m root bits stack'

def ListInside (e : Endian) (m : Cells (NodeData P)) (root : Option Nat) (bits : Nat) : Prop :=
  ∀ stack, WalkStack e m root bits stack → stack.length ≤ stackSize

/-- The loop of `walk_remove_by_peer` stays inside its stack. -/
def RemoveInside (p : P) (s : Store (NodeData P)) : Prop :=
  ∀ r, s.top = some r → ∀ w, Reaches (walkStep p) ⟨s, [.top], none⟩ w → w.stack.length ≤ stackSize

/-- The three walks of the two tries of a table. `wg_allowedips_remove_by_peer` walks the
second after the first. -/
structure Allowedips.Inside (e : Endian) (table : Allowedips P) (p : P) : Prop where
  free4 : FreeInside table.cell table.root4
  free6 : FreeInside table.cell table.root6
  list4 : ListInside e table.cell table.root4 32
  list6 : ListInside e table.cell table.root6 128
  remove4 : RemoveInside p ⟨table.root4, table.cell⟩
  remove6 :
    ∀ s, Eventually (fun fuel => walkRemoveByPeer fuel ⟨table.root4, table.cell⟩ (some p)) s →
    RemoveInside p ⟨table.root6, s.cell⟩

/-! ### The depth of a trie -/

variable {e : Endian} {size : Nat} {p : P} {t : PTree (NodeData P)} {m : Cells (NodeData P)}
  {s : Store (NodeData P)}

omit [DecidableEq P] in
theorem depth_below {b : Bytes} {c : Nat} {i : Bool} (h : Valid e size t)
    (hbelow : (abs e size t).Below bitAt b c i) (hc : c ≤ 8 * size) : t.depth + c ≤ 8 * size := by
  induction t generalizing b c i with
  | nil =>
    rw [PTree.depth]
    omega
  | node ptr d child ih =>
    have hlt : c < d.cidr := hbelow.1
    have hfalse := ih false (h.child false) (h.ordered.2 false).1 h.ordered.1
    have htrue := ih true (h.child true) (h.ordered.2 true).1 h.ordered.1
    rw [PTree.depth]
    omega

omit [DecidableEq P] in
theorem depth_le (h : Valid e size t) : t.depth ≤ 8 * size + 1 := by
  cases t with
  | nil => exact Nat.zero_le _
  | node ptr d child =>
    have hfalse := depth_below (h.child false) (h.ordered.2 false).1 h.ordered.1
    have htrue := depth_below (h.child true) (h.ordered.2 true).1 h.ordered.1
    rw [PTree.depth]
    omega

/-! ### Tries that fit -/

omit [DecidableEq P] in
theorem freeInside_of_depth (hr : t.Rep m) (hd : t.Distinct) (hdepth : t.depth ≤ stackSize) :
    FreeInside m t.root := by
  intro r hroot w hw
  have hpending : ∃ ts, Pending w.1 stackSize w.2 ts := by
    induction hw with
    | refl =>
      have hstart := Pending.single hr hd hdepth
      rw [hroot] at hstart
      exact ⟨[t], hstart⟩
    | tail _ hstep ih =>
      rename_i v w _
      obtain ⟨ts, h⟩ := ih
      obtain ⟨m', stack⟩ := v
      rcases h.step with ⟨hnil, -⟩ | ⟨n, rest, c, ts', hcons, hcell, -, hnext, hnot⟩
      · obtain rfl : stack = [] := hnil
        cases hstep
      · obtain rfl : stack = n :: rest := hcons
        have hcell : m' n = some c := hcell
        simp only [rootFreeStep, hcell, Option.bind_eq_bind, Option.bind_some] at hstep
        cases hstep
        exact ⟨ts', hnext.free hnot⟩
  obtain ⟨ts, h⟩ := hpending
  exact h.length_le

theorem listInside_of_depth {bits : Nat} (hr : t.Rep m) (hd : t.Distinct)
    (hdepth : t.depth ≤ stackSize) : ListInside e m t.root bits := by
  intro stack hstack
  have hpending : ∃ ts, Pending m stackSize stack ts := by
    induction hstack with
    | start r hroot =>
      have hstart := Pending.single hr hd hdepth
      rw [hroot] at hstart
      exact ⟨[t], hstart⟩
    | turn func peer before hstep ih =>
      obtain ⟨ts, h⟩ := ih
      rcases h.step with ⟨rfl, -⟩ | ⟨n, rest, c, ts', rfl, hcell, -, hnext, -⟩
      · cases hstep
      · simp only [walkByPeerStep, hcell, Option.bind_eq_bind, Option.bind_some] at hstep
        split at hstep
        · cases hstep
          exact ⟨ts', hnext⟩
        · split at hstep
          · cases hstep
          · cases hstep
            exact ⟨ts', hnext⟩
  obtain ⟨ts, h⟩ := hpending
  exact h.length_le

theorem removeInside_of_depth (hr : t.Rep s.cell) (htop : s.top = t.root) (hd : t.Distinct)
    (hdepth : t.depth ≤ stackSize) : RemoveInside p s := by
  intro r hroot w hw
  have hptr : t.root = some r := htop.symm.trans hroot
  obtain ⟨s', hwithin, -⟩ :=
    walksWithin stackSize p t s .top [] none r hptr (congrArg some hroot) hr hd
    trivial rfl (by rw [List.length_nil, Nat.zero_add]; exact hdepth)
  rcases hwithin.or_reaches hw with hfits | hend
  · exact hfits
  · -- the walk has left the loop
    rcases Relation.ReflTransGen.cases_head hend with rfl | ⟨v, hv, -⟩
    · exact Nat.zero_le _
    · cases hv

/-! ### Tries that do not -/

/-- Somewhere in the walk of a tree there is a place on the stack for each node of its longest
path: a node is only taken away when its branches are done. -/
theorem walk_peaks (p : P) (t : PTree (NodeData P)) (s : Store (NodeData P)) (slot : Slot)
    (rest : List Slot) (prev : Option Nat) (ptr : Nat) (hroot : t.root = some ptr)
    (hread : s.read slot = some (some ptr))
    (hr : t.Rep s.cell) (hd : t.Distinct) (ho : slot.Outside t)
    (hprev : cameFromAbove s prev ptr = some true) :
    ∃ w, Reaches (walkStep p) ⟨s, slot :: rest, prev⟩ w ∧
      w.stack.length = rest.length + t.depth := by
  induction t generalizing s slot rest prev ptr with
  | nil => cases hroot
  | node ptr' d child ih =>
    obtain rfl : ptr' = ptr := Option.some.inj hroot
    -- from the moment a branch is pushed its own walk peaks
    have hkid (i : Bool) {s' : Store (NodeData P)} {child' : Bool → PTree (NodeData P)}
        (hsame : child' i = child i) (hr' : (PTree.node ptr' d child').Rep s'.cell)
        (hd' : (PTree.node ptr' d child').Distinct) (hne : (child i).root ≠ none)
        (hreach : Reaches (walkStep p) ⟨s, slot :: rest, prev⟩
          ⟨s', .kid ptr' i :: slot :: rest, some ptr'⟩)
        (hdeep : (PTree.node ptr' d child).depth = (child i).depth + 1) :
        ∃ w, Reaches (walkStep p) ⟨s, slot :: rest, prev⟩ w ∧
          w.stack.length = rest.length + (PTree.node ptr' d child).depth := by
      obtain ⟨q, hq⟩ := Option.ne_none_iff_exists'.mp hne
      have hq' : (child' i).root = some q := by rw [hsame, hq]
      have hqread : s'.read (.kid ptr' i) = some (some q) := by
        rw [Store.read, hr'.1, Option.map_some]
        exact congrArg some hq'
      obtain ⟨w, hw, hlen⟩ := ih i s' (.kid ptr' i) (slot :: rest) (some ptr') q hq hqread
        (hsame ▸ hr'.2 i) (hd.1 i).2 (hd.1 i).1 (cameFromAbove_kid i hr' hq')
      refine ⟨w, hreach.trans hw, ?_⟩
      rw [hlen, List.length_cons, hdeep]
      omega
    have h : Placed s slot ptr' d child := ⟨hread, hr, hd, ho⟩
    have hstep := walkStep_above p rest h hprev
    obtain ⟨s', hfirst, hup⟩ :=
      walk_first rest (walksWithin _ p (child false)) h hprev (Nat.le_refl _)
    have hother : Function.update child false (removeTree p (child false)) true = child true :=
      Function.update_of_ne (by decide) _ _
    by_cases hdeeper : (child false).depth < (child true).depth
    · have hne : (child true).root ≠ none := by
        intro hnone
        rw [PTree.root_eq_none.mp hnone, PTree.depth] at hdeeper
        exact Nat.not_lt_zero _ hdeeper
      have hreach := hfirst.reaches
      rw [pushKid, if_neg hne] at hreach
      exact hkid true hother hup.rep hup.distinct hne hreach (by rw [PTree.depth]; omega)
    · by_cases hne : (child false).root = none
      · have hnil := PTree.root_eq_none.mp hne
        refine ⟨_, .refl, ?_⟩
        rw [hnil, PTree.depth] at hdeeper
        rw [PTree.depth, hnil, List.length_cons]
        simp only [PTree.depth]
        omega
      · rw [if_neg hne] at hstep
        exact hkid false rfl hr hd hne (reaches_step hstep) (by rw [PTree.depth]; omega)

theorem depth_of_removeInside (hr : t.Rep s.cell) (htop : s.top = t.root) (hd : t.Distinct)
    (h : RemoveInside p s) : t.depth ≤ stackSize := by
  cases t with
  | nil => exact Nat.zero_le _
  | node ptr d child =>
    obtain ⟨w, hw, hlen⟩ :=
      walk_peaks p (.node ptr d child) s .top [] none ptr rfl (congrArg some htop) hr hd trivial rfl
    have := h ptr htop w hw
    rw [hlen, List.length_nil] at this
    omega

/-! ### Tables -/

/-- After any operations, the walks stay inside their stacks exactly if the nodes of IPv6
prefixes are not nested 129 deep. -/
theorem walks_inside_iff (e : Endian) (ops : List (Operation P)) (p : P) :
    ∃ table : Allowedips P, Eventually (fun fuel => wgAllowedipsInit.performAll fuel e ops) table ∧
      (table.Inside e p ↔ ¬HasPath table.cell (stackSize + 1) table.root6) := by
  obtain ⟨table, hrun, t4, t6, h4, h6, hdisj⟩ := performAll_refines (e := e) init_refines ops
  have htop4 : table.root4 = t4.root := h4.top
  have htop6 : table.root6 = t6.root := h6.top
  have hdepth4 : t4.depth ≤ stackSize := Nat.le_trans (depth_le h4.valid) (by decide)
  -- the second walk of a removal finds its nodes as they were
  obtain ⟨s4, t4', hrun4, -, hlocal⟩ := walk_holds h4 (some p)
  obtain ⟨h6', -⟩ := hlocal.other h6 hdisj
  refine ⟨table, hrun, ?_⟩
  rw [htop6, hasPath_iff h6.rep, Nat.not_le, Nat.lt_succ_iff]
  constructor
  · intro hinside
    exact depth_of_removeInside h6'.rep htop6 h6.distinct (hinside.remove6 s4 hrun4)
  · intro hdepth6
    refine ⟨?_, ?_, ?_, ?_, removeInside_of_depth h4.rep htop4 h4.distinct hdepth4, ?_⟩
    · rw [htop4]
      exact freeInside_of_depth h4.rep h4.distinct hdepth4
    · rw [htop6]
      exact freeInside_of_depth h6.rep h6.distinct hdepth6
    · rw [htop4]
      exact listInside_of_depth h4.rep h4.distinct hdepth4
    · rw [htop6]
      exact listInside_of_depth h6.rep h6.distinct hdepth6
    · intro s hs
      obtain rfl := hrun4.unique hs
      exact removeInside_of_depth h6'.rep htop6 h6.distinct hdepth6

omit [DecidableEq P] in
/-- Prefixes of one address, one of each length from `n` on, are on one path. -/
theorem le_depth_of_get {x : Bytes} {n width : Nat}
    (h : ∀ m, n ≤ m → m ≤ width → (abs e size t).get bitAt x m ≠ none) :
    width + 1 ≤ t.depth + n := by
  induction t generalizing n with
  | nil =>
    by_contra hlt
    exact h n (Nat.le_refl n) (by rw [PTree.depth] at hlt; omega) rfl
  | node ptr d child ih =>
    by_cases hn : width < n
    · omega
    · have hcidr : d.cidr ≤ n := by
        by_contra hlt
        exact h n (Nat.le_refl n) (by omega) (Trie.get_short (by omega))
      have hkid := ih (bitAt x d.cidr) (n := n + 1) fun m hm hwidth => by
        have hget := h m (by omega) hwidth
        rw [abs, Trie.get_child (by omega)] at hget
        exact hget
      have := PTree.depth_child_lt ptr d child (bitAt x d.cidr)
      omega

end

/-- One prefix of each length for the address `::`. -/
def nestedOps (k : Nat) : List (Operation Nat) :=
  (List.range k).map fun n => .insertV6 (List.replicate 16 0) rfl n (some 1)

theorem routes_nestedOps {k n : Nat} (hk : k ≤ 129) (hn : n < k) :
    routes 16 (nestedOps k) (List.replicate 16 0) n = some 1 := by
  induction k with
  | zero => omega
  | succ k ih =>
    have hstep : routes 16 (nestedOps (k + 1)) =
        (routes 16 (nestedOps k)).insert bitAt (List.replicate 16 0) k 1 := by
      rw [routes, nestedOps, List.range_succ, List.map_append, List.foldl_append]
      exact if_pos (by omega)
    rw [hstep, Table.insert]
    split
    · rfl
    · rename_i hne
      exact ih (by omega) (by
        by_contra hlt
        exact hne ⟨by omega, fun _ _ => rfl⟩)

/-- After 129 insertions removing the peer writes behind the end of the stack. -/
theorem nested_prefixes_overflow : ∃ table : Allowedips Nat,
    Eventually (fun fuel => wgAllowedipsInit.performAll fuel .little (nestedOps 129)) table ∧
      ¬table.Inside .little 1 := by
  obtain ⟨table, hrun, t4, t6, h4, h6, hdisj⟩ :=
    performAll_refines (e := .little) init_refines (nestedOps 129)
  refine ⟨table, hrun, fun hinside => ?_⟩
  obtain ⟨s4, t4', hrun4, -, hlocal⟩ := walk_holds h4 (some 1)
  obtain ⟨h6', -⟩ := hlocal.other h6 hdisj
  have hfits : t6.depth ≤ stackSize :=
    depth_of_removeInside h6'.rep h6'.top h6.distinct (hinside.remove6 s4 hrun4)
  have hget (m : Nat) (_ : 0 ≤ m) (hm : m ≤ 128) :
      (abs .little 16 t6).get bitAt (List.replicate 16 0) m ≠ none := by
    have hroute := routes_nestedOps (Nat.le_refl 129) (Nat.lt_succ_of_le hm)
    rw [h6.get]
    exact fun hnone => nomatch hnone.symm.trans hroute
  have hdeep := le_depth_of_get hget
  unfold stackSize at hfits
  omega

end Sewg.Kernel
