import Sewg.Kernel.AllowedTrie

/-! Adding a prefix with `add`: the descent of `node_placement`, and the new nodes
wired into the place where it stops. -/

namespace Sewg.Kernel

open CString (Bytes)
open Words Routes PtrTree Loop

variable {P : Type} {e : Endian} {size : Nat} {x key : Bytes} {n : Nat} {p : P}
  {t u : PTree (NodeData P)} {s : Store (NodeData P)}

/-- The branch by which the descent to `x / n` leaves a node, if it does. -/
def descent (e : Endian) (size : Nat) (x : Bytes) (n : Nat) (d : NodeData P) : Option Bool :=
  if (d.cidr ≤ n ∧ d.cidr ≤ common bitAt (d.key e size) x (8 * size)) ∧ d.cidr ≠ n then
    some (bitAt x d.cidr)
  else none

theorem descent_eq_some {d : NodeData P} {i : Bool} (h : descent e size x n d = some i) :
    (d.cidr ≤ n ∧ d.cidr ≤ common bitAt (d.key e size) x (8 * size)) ∧ d.cidr ≠ n ∧
      i = bitAt x d.cidr := by
  unfold descent at h
  split at h
  · rename_i hc
    exact ⟨hc.1, hc.2, (Option.some.inj h).symm⟩
  · cases h

theorem descent_focus {ptr : Nat} {d : NodeData P} {child : Bool → PTree (NodeData P)}
    {sel : NodeData P → Option Bool} (h : t.focus sel = .node ptr d child) : sel d = none := by
  induction t with
  | nil => cases h
  | node ptr' d' child' ih =>
    rw [PTree.focus] at h
    cases hsel : sel d' with
    | none =>
      rw [hsel] at h
      cases h
      exact hsel
    | some i =>
      rw [hsel] at h
      exact ih i h

theorem descent_eq_none {d : NodeData P} (h : descent e size x n d = none)
    (hm : d.cidr ≤ n ∧ d.cidr ≤ common bitAt (d.key e size) x (8 * size)) : d.cidr = n := by
  unfold descent at h
  split at h
  · cases h
  · rename_i hc
    by_contra hne
    exact hc ⟨hm, hne⟩

/-- The node above the place where the descent stops. -/
def parentOf (sel : NodeData P → Option Bool) (parent : Option Nat) :
    PTree (NodeData P) → Option Nat
  | .nil => parent
  | .node ptr d child =>
    match sel d with
    | none => parent
    | some i => parentOf sel (some ptr) (child i)

/-- The node where the descent stops is the prefix itself. -/
def IsExact (e : Endian) (size : Nat) (x : Bytes) (n : Nat) : PTree (NodeData P) → Prop
  | .nil => False
  | .node _ d _ => d.cidr ≤ common bitAt (d.key e size) x (8 * size) ∧ d.cidr = n

theorem nodePlacement_spec (parent : Option Nat) (hr : t.Rep s.cell) (hv : Valid e size t)
    (hx : x.length = size) (hn : n ≤ 8 * size) :
    (∃ ptr d child, t.focus (descent e size x n) = .node ptr d child ∧
      IsExact e size x n (.node ptr d child) ∧
      Returns (nodePlacementStep e s.cell (8 * size) (toHost e x) n) (t.root, parent)
        (true, some ptr)) ∨
    (¬ IsExact e size x n (t.focus (descent e size x n)) ∧
      Returns (nodePlacementStep e s.cell (8 * size) (toHost e x) n) (t.root, parent)
        (false, parentOf (descent e size x n) parent t)) := by
  induction t generalizing parent with
  | nil => exact .inr ⟨id, returns_done rfl⟩
  | node ptr d child ih =>
    have hcommon := commonBits_spec hv.size_ok hv.shaped.1 hx
    have hstep : nodePlacementStep e s.cell (8 * size) (toHost e x) n (some ptr, parent) =
        if d.cidr ≤ n then
          if common bitAt (d.key e size) x (8 * size) ≥ d.cidr then
            if d.cidr = n then some (.inr (true, some ptr))
            else (chooseNode d (toHost e x)).bind fun i => some (.inl ((child i).root, some ptr))
          else some (.inr (false, parent))
        else some (.inr (false, parent)) := by
      simp only [nodePlacementStep, hr.1, hcommon, Option.bind_eq_bind, Option.bind_some]
      rfl
    simp only [PTree.focus, parentOf]
    cases hsel : descent e size x n d with
    | none =>
      by_cases hexact : IsExact e size x n (.node ptr d child)
      · refine .inl ⟨ptr, d, child, rfl, hexact, returns_done (hstep.trans ?_)⟩
        rw [if_pos (Nat.le_of_eq hexact.2), if_pos hexact.1, if_pos hexact.2]
      · refine .inr ⟨hexact, returns_done (hstep.trans ?_)⟩
        have hstop : ¬ (d.cidr ≤ n ∧ d.cidr ≤ common bitAt (d.key e size) x (8 * size)) :=
          fun hm => hexact ⟨hm.2, descent_eq_none hsel hm⟩
        by_cases hle : d.cidr ≤ n
        · rw [if_pos hle, if_neg fun hc => hstop ⟨hle, hc⟩]
        · rw [if_neg hle]
    | some i =>
      obtain ⟨hm, hne, rfl⟩ := descent_eq_some hsel
      have hchoose := chooseNode_spec (toHost e x) hv.size_ok hv.shaped.1 hx
        (List.take_of_length_le (by rw [length_toHost, hx])) (by omega)
      rw [if_pos hm.1, if_pos hm.2, if_neg hne, hchoose, Option.bind_some] at hstep
      obtain ⟨ptr', d', child', hf, hexact, hret⟩ | ⟨hexact, hret⟩ :=
        ih (bitAt x d.cidr) (some ptr) (hr.2 _) (hv.child _)
      · exact .inl ⟨ptr', d', child', hf, hexact, returns_next hstep hret⟩
      · exact .inr ⟨hexact, returns_next hstep hret⟩

theorem placeBelow_spec {parent : Option Nat} {slot : Slot} (hr : t.Rep s.cell)
    (hv : Valid e size t)
    (hx : x.length = size) (hn : n ≤ 8 * size) (hkey : key.take size = toHost e x)
    (hparent : placeBelow s parent key = some slot) :
    placeBelow s (parentOf (descent e size x n) parent t) key =
      some (t.focusSlot (descent e size x n) slot) := by
  induction t generalizing parent slot with
  | nil => exact hparent
  | node ptr d child ih =>
    simp only [parentOf, PTree.focusSlot]
    cases hsel : descent e size x n d with
    | none => exact hparent
    | some i =>
      obtain ⟨hm, hne, rfl⟩ := descent_eq_some hsel
      have hchoose := chooseNode_spec key hv.size_ok hv.shaped.1 hx hkey (by omega)
      refine ih _ (hr.2 _) (hv.child _) ?_
      simp only [placeBelow, hr.1, hchoose, Option.bind_eq_bind, Option.bind_some]
      rfl

/-- Inserting where the descent stops is inserting. -/
theorem abs_plug
    (h : abs e size u = (abs e size (t.focus (descent e size x n))).insert bitAt (8 * size) x n p) :
    abs e size (t.plug (descent e size x n) u) = (abs e size t).insert bitAt (8 * size) x n p := by
  induction t with
  | nil => exact h
  | node ptr d child ih =>
    rw [PTree.focus] at h
    rw [PTree.plug]
    cases hsel : descent e size x n d with
    | none =>
      rw [hsel] at h
      exact h
    | some i =>
      rw [hsel] at h
      obtain ⟨hm, hne, rfl⟩ := descent_eq_some hsel
      rw [abs, abs, Trie.insert, if_pos hm, if_neg hne, ← ih _ h]
      congr 1
      funext j
      exact Function.apply_update (fun _ => abs e size) child _ _ j

theorem allShaped_plug {sel : NodeData P → Option Bool} (ht : AllShaped e size t)
    (hu : AllShaped e size u) : AllShaped e size (t.plug sel u) := by
  induction t with
  | nil => exact hu
  | node ptr d child ih =>
    rw [PTree.plug]
    cases sel d with
    | none => exact hu
    | some i =>
      refine ⟨ht.1, fun j => ?_⟩
      by_cases hj : j = i
      · rw [hj, Function.update_self]
        exact ih i (ht.2 i)
      · rw [Function.update_of_ne hj]
        exact ht.2 j

/-! ### The new nodes -/

/-- The fields of a node that was allocated for `x / n`. -/
structure IsNew (e : Endian) (size : Nat) (x : Bytes) (n : Nat) (peer : Option P) (d : NodeData P) :
    Prop where
  peer : d.peer = peer
  cidr : d.cidr = n
  bits : d.bits.take size = toHost e x
  shaped : d.Shaped e size

theorem IsNew.key_eq {peer : Option P} {d : NodeData P} (h : IsNew e size x n peer d) :
    d.key e size = x := by
  rw [NodeData.key, h.bits, toHost_toHost]

theorem newNode_isNew (peer : Option P) {src : Bytes} (hsize : AddressSize size)
    (hx : x.length = size) (hsrc : src.take size = toHost e x) :
    IsNew e size x n peer (newNode e peer src n (8 * size)) := by
  have hlen : (src.take size).length = size := by rw [hsrc, length_toHost, hx]
  have hdiv : 8 * size / 8 = size := Nat.mul_div_cancel_left size (by decide)
  have hbits : (newNode e peer src n (8 * size)).bits =
      src.take size ++ (List.replicate 16 0).drop size := by
    show src.take (8 * size / 8) ++ (List.replicate 16 0).drop (8 * size / 8) = _
    rw [hdiv]
  refine ⟨rfl, rfl, ?_, ?_, ?_, rfl⟩
  · rw [hbits, List.take_left' hlen, hsrc]
  · rw [hbits, List.length_append, hlen, List.length_drop, List.length_replicate]
    rcases hsize with rfl | rfl <;> rfl
  · cases e with
    | big => rfl
    | little =>
      show n / 8 ^^^ (8 * size / 8 - 1) % 8 = _
      rw [hdiv]
      rfl

/-- `s'` has the tree `t'`, which is `t` with `x / n` inserted, in place of `t`; the
addresses from `next` to `next'` were free before. -/
structure Added (e : Endian) (size : Nat) (x : Bytes) (n : Nat) (p : P) (s : Store (NodeData P))
    (next : Nat) (t : PTree (NodeData P)) (s' : Store (NodeData P)) (next' : Nat)
    (t' : PTree (NodeData P)) : Prop where
  rep : t'.Rep s'.cell
  top : s'.top = t'.root
  distinct : t'.Distinct
  valid : Valid e size t'
  get : (abs e size t').get bitAt = ((abs e size t).get bitAt).insert bitAt x n p
  frame : ∀ q, ¬ t.Mem q → q < next → s'.cell q = s.cell q
  mem : ∀ q, t'.Mem q → t.Mem q ∨ (next ≤ q ∧ q < next')
  le : next ≤ next'

theorem valid_plug (hv : Valid e size t) (hn : n ≤ 8 * size) (hu : AllShaped e size u)
    (habs : abs e size u =
      (abs e size (t.focus (descent e size x n))).insert bitAt (8 * size) x n p) :
    Valid e size (t.plug (descent e size x n) u) ∧
      (abs e size (t.plug (descent e size x n) u)).get bitAt =
        ((abs e size t).get bitAt).insert bitAt x n p := by
  rw [abs_plug habs]
  refine ⟨⟨hv.size_ok, allShaped_plug hv.shaped hu, ?_⟩, Trie.get_insert hn hv.ordered⟩
  rw [abs_plug habs]
  exact Trie.insert_ordered hn hv.ordered

/-- New nodes are wired up in `s₂` and their root is written where the descent stops. -/
theorem added_of_write {s₂ : Store (NodeData P)} {next : Nat} (next' : Nat) (hr : t.Rep s.cell)
    (htop : s.top = t.root) (hd : t.Distinct) (hv : Valid e size t) (hn : n ≤ 8 * size)
    (hlt : ∀ q, t.Mem q → q < next) (htop₂ : s₂.top = s.top)
    (hcell : ∀ q, q < next → s₂.cell q = s.cell q) (hu : u.Rep s₂.cell) (hud : u.Distinct)
    (hus : AllShaped e size u)
    (habs : abs e size u =
      (abs e size (t.focus (descent e size x n))).insert bitAt (8 * size) x n p)
    (hmem : ∀ q, u.Mem q → (t.focus (descent e size x n)).Mem q ∨ (next ≤ q ∧ q < next'))
    (hle : next ≤ next') :
    ∃ s', s₂.write (t.focusSlot (descent e size x n) .top) u.root = some s' ∧
      Added e size x n p s next t s' next' (t.plug (descent e size x n) u) := by
  have hmem' : ∀ q, t.Mem q → u.Mem q → (t.focus (descent e size x n)).Mem q := by
    intro q hq hq'
    rcases hmem q hq' with h | h
    · exact h
    · exact absurd (hlt q hq) (Nat.not_lt.mpr h.1)
  have hr₂ : t.Rep s₂.cell := hr.congr fun q hq => hcell q (hlt q hq)
  obtain ⟨s', hs', hrep, w, hw, htop', hframe⟩ := write_focusSlot .top hr₂ hd hu hmem' trivial
    trivial (congrArg some (htop₂.trans htop))
  cases hw
  obtain ⟨hvalid, hget⟩ := valid_plug hv hn hus habs
  refine ⟨s', hs', hrep, htop', PTree.distinct_plug hd hud hmem', hvalid, hget, ?_, ?_, hle⟩
  · exact fun q hq hqn => (hframe q hq).trans (hcell q hqn)
  · intro q hq
    rcases PTree.mem_plug hq with h | h
    · exact .inl h
    · exact (hmem q h).imp PTree.mem_of_mem_focus id

section
variable {next : Nat}

theorem cell_setCell_of_lt {c : Option (AllowedipsNode P)} {q : Nat} (hq : q < next) :
    (s.setCell next c).cell q = s.cell q :=
  Function.update_of_ne (Nat.ne_of_lt hq) _ _

theorem IsNew.leaf {data : NodeData P} (h : IsNew e size x n (some p) data) (next : Nat) :
    AllShaped e size (.node next data fun _ => .nil) ∧
      abs e size (.node next data fun _ => .nil) = Trie.leaf x n p := by
  refine ⟨⟨h.shaped, fun _ => trivial⟩, ?_⟩
  rw [abs, h.key_eq, h.cidr, h.peer]
  rfl

theorem Valid.focus {sel : NodeData P → Option Bool} (hv : Valid e size t) :
    Valid e size (t.focus sel) := by
  induction t with
  | nil => exact hv
  | node ptr d child ih =>
    rw [PTree.focus]
    cases sel d with
    | none => exact hv
    | some i => exact ih i (hv.child i)

section
variable {ptr : Nat} {d data joint : NodeData P} {child : Bool → PTree (NodeData P)}

theorem IsNew.above (h : IsNew e size x n (some p) data) (hv : Valid e size (.node ptr d child))
    (hstop : ¬ (d.cidr ≤ n ∧ d.cidr ≤ common bitAt (d.key e size) x (8 * size)))
    (hleast : n = min n (common bitAt (d.key e size) x (8 * size))) (next : Nat) :
    AllShaped e size (.node next data
        (Function.update (fun _ => .nil) (bitAt (d.key e size) n) (.node ptr d child))) ∧
      abs e size (.node next data
        (Function.update (fun _ => .nil) (bitAt (d.key e size) n) (.node ptr d child))) =
        (abs e size (.node ptr d child)).insert bitAt (8 * size) x n p := by
  refine ⟨⟨h.shaped, fun j => ?_⟩, ?_⟩
  · by_cases hj : j = bitAt (d.key e size) n
    · rw [hj, Function.update_self]
      exact hv.shaped
    · rw [Function.update_of_ne hj]
      trivial
  · rw [abs, abs, h.key_eq, h.cidr, h.peer, Trie.insert, if_neg hstop]
    dsimp only
    rw [if_pos hleast]
    congr 1
    funext j
    exact Function.apply_update (fun _ => abs e size) (fun _ => .nil) _ (.node ptr d child) j

/-- The new node and the one where the descent stops, under a joint. -/
theorem IsNew.beside {m : Nat} (h : IsNew e size x n (some p) data)
    (hj : IsNew e size x m none joint) (hv : Valid e size (.node ptr d child)) (hn : n ≤ 8 * size)
    (hstop : ¬ (d.cidr ≤ n ∧ d.cidr ≤ common bitAt (d.key e size) x (8 * size)))
    (hm : m = min n (common bitAt (d.key e size) x (8 * size))) (hleast : n ≠ m) (next : Nat) :
    bitAt (d.key e size) m = !bitAt x m ∧
      AllShaped e size (.node (next + 1) joint
        (Function.update (Function.update (fun _ => .nil) (bitAt (d.key e size) m)
          (.node ptr d child)) (bitAt x m) (.node next data fun _ => .nil))) ∧
      abs e size (.node (next + 1) joint
        (Function.update (Function.update (fun _ => .nil) (bitAt (d.key e size) m)
          (.node ptr d child)) (bitAt x m) (.node next data fun _ => .nil))) =
        (abs e size (.node ptr d child)).insert bitAt (8 * size) x n p := by
  have hleaf := h.leaf next
  have hcommon : m = common bitAt (d.key e size) x (8 * size) := by omega
  have hbit : bitAt (d.key e size) m = !bitAt x m := by
    rw [hcommon]
    exact Bool.eq_not_of_ne (bit_common_ne (by omega))
  refine ⟨hbit, ⟨hj.shaped, fun j => ?_⟩, ?_⟩
  · by_cases hj : j = bitAt x m
    · rw [hj, Function.update_self]
      exact hleaf.1
    · rw [Function.update_of_ne hj, hbit, ← Bool.eq_not_of_ne hj, Function.update_self]
      exact hv.shaped
  · rw [abs, hj.key_eq, hj.cidr, hj.peer, abs, Trie.insert, if_neg hstop]
    dsimp only
    rw [← hm, if_neg hleast]
    congr 1
    funext j
    by_cases hj : j = bitAt x m
    · have hne : bitAt x m ≠ !bitAt x m := fun h => (Bool.eq_not_self _).mp h
      rw [hj, Function.update_self, hleaf.2, Function.update_of_ne hne]
    · rw [Function.update_of_ne hj, hbit, ← Bool.eq_not_of_ne hj, Function.update_self,
        Function.update_self, abs]

end

theorem write_kid {q : Nat} {c : AllowedipsNode P} (hc : s.cell q = some c) (i : Bool)
    (r : Option Nat) :
    s.write (.kid q i) r =
      some (s.setCell q (some { c with bit := Function.update c.bit i r })) := by
  rw [Store.write, hc, Option.map_some]

/-- A cell is allocated and its two places are written. -/
theorem wire_joint (s : Store (NodeData P)) (q : Nat) (joint : NodeData P) (i j : Bool)
    (a b : Option Nat) :
    ∃ w s', (s.setCell q (some ⟨joint, fun _ => none⟩)).write (.kid q i) a = some w ∧
      w.write (.kid q j) b = some s' ∧
      s'.cell q = some ⟨joint, Function.update (Function.update (fun _ => none) i a) j b⟩ ∧
      s'.top = s.top ∧ ∀ r, r ≠ q → s'.cell r = s.cell r := by
  refine ⟨_, _, write_kid (c := ⟨joint, fun _ => none⟩) (Function.update_self _ _ _) i a,
    write_kid (c := ⟨joint, Function.update (fun _ => none) i a⟩) (Function.update_self _ _ _) j b,
    Function.update_self _ _ _, rfl, fun r hr => ?_⟩
  simp [Store.setCell, hr]

theorem root_update (child : Bool → PTree (NodeData P)) (i : Bool) (u : PTree (NodeData P)) :
    (fun j => (Function.update child i u j).root) =
      Function.update (fun j => (child j).root) i u.root := by
  funext j
  exact Function.apply_update (fun _ => PTree.root) child i u j

theorem rep_above {F : PTree (NodeData P)} {q : Nat} (data : NodeData P) (i : Bool)
    (hF : F.Rep s.cell) (hd : F.Distinct) (hlt : ∀ r, F.Mem r → r < q)
    (hq : s.cell q = some ⟨data, Function.update (fun _ => none) i F.root⟩) :
    (PTree.node q data (Function.update (fun _ => .nil) i F)).Rep s.cell ∧
      (PTree.node q data (Function.update (fun _ => .nil) i F)).Distinct ∧
      ∀ r, (PTree.node q data (Function.update (fun _ => .nil) i F)).Mem r → r = q ∨ F.Mem r := by
  have hcase : ∀ j r, (Function.update (fun _ => PTree.nil) i F j).Mem r → j = i ∧ F.Mem r := by
    intro j r hr
    by_cases hj : j = i
    · rw [hj, Function.update_self] at hr
      exact ⟨hj, hr⟩
    · rw [Function.update_of_ne hj] at hr
      exact hr.elim
  refine ⟨⟨?_, fun j => ?_⟩, ⟨fun j => ⟨fun h => ?_, ?_⟩, fun r hf ht => ?_⟩, ?_⟩
  · rw [hq, root_update]
    rfl
  · by_cases hj : j = i
    · rw [hj, Function.update_self]
      exact hF
    · rw [Function.update_of_ne hj]
      trivial
  · exact Nat.lt_irrefl q (hlt q (hcase j q h).2)
  · by_cases hj : j = i
    · rw [hj, Function.update_self]
      exact hd
    · rw [Function.update_of_ne hj]
      trivial
  · exact absurd ((hcase false r hf).1.trans (hcase true r ht).1.symm) (by decide)
  · rintro r (hr | ⟨j, hr⟩)
    · exact .inl hr
    · exact .inr (hcase j r hr).2

theorem rep_joint {F G : PTree (NodeData P)} {q : Nat} {data : NodeData P}
    {i j : Bool} (hij : i ≠ j)
    (hF : F.Rep s.cell) (hG : G.Rep s.cell) (hdF : F.Distinct) (hdG : G.Distinct)
    (hltF : ∀ r, F.Mem r → r < q) (hltG : ∀ r, G.Mem r → r < q) (hsep : ∀ r, F.Mem r → ¬ G.Mem r)
    (hq : s.cell q =
      some ⟨data, Function.update (Function.update (fun _ => none) i F.root) j G.root⟩) :
    (PTree.node q data (Function.update (Function.update (fun _ => .nil) i F) j G)).Rep s.cell ∧
      (PTree.node q data (Function.update (Function.update (fun _ => .nil) i F) j G)).Distinct ∧
      ∀ r, (PTree.node q data (Function.update (Function.update (fun _ => .nil) i F) j G)).Mem r →
        r = q ∨ F.Mem r ∨ G.Mem r := by
  have hi : Function.update (Function.update (fun _ => PTree.nil) i F) j G i = F := by
    rw [Function.update_of_ne hij, Function.update_self]
  have hj : Function.update (Function.update (fun _ => PTree.nil) i F) j G j = G :=
    Function.update_self _ _ _
  have hall : ∀ k, k = i ∨ k = j := by
    intro k
    cases i <;> cases j <;> cases k <;> simp at hij ⊢
  refine ⟨⟨?_, fun k => ?_⟩, ⟨fun k => ⟨fun h => ?_, ?_⟩, fun r hf ht => ?_⟩, ?_⟩
  · rw [hq, root_update, root_update]
    rfl
  · rcases hall k with rfl | rfl
    · rw [hi]; exact hF
    · rw [hj]; exact hG
  · rcases hall k with rfl | rfl
    · rw [hi] at h; exact Nat.lt_irrefl q (hltF q h)
    · rw [hj] at h; exact Nat.lt_irrefl q (hltG q h)
  · rcases hall k with rfl | rfl
    · rw [hi]; exact hdF
    · rw [hj]; exact hdG
  · cases i <;> cases j <;> first | exact hij rfl | skip
    · rw [hi] at hf; rw [hj] at ht; exact hsep r hf ht
    · rw [hj] at hf; rw [hi] at ht; exact hsep r ht hf
  · rintro r (hr | ⟨k, hr⟩)
    · exact .inl hr
    · rcases hall k with rfl | rfl
      · rw [hi] at hr; exact .inr (.inl hr)
      · rw [hj] at hr; exact .inr (.inr hr)

/-- Allocated nodes were written, and nothing that was there before. -/
def Fresh (s : Store (NodeData P)) (next : Nat) (s₂ : Store (NodeData P)) : Prop :=
  s₂.top = s.top ∧ ∀ q, q < next → s₂.cell q = s.cell q

theorem Fresh.setCell {s₂ : Store (NodeData P)} (h : Fresh s next s₂) {q : Nat} (hq : next ≤ q)
    (c : Option (AllowedipsNode P)) : Fresh s next (s₂.setCell q c) :=
  ⟨h.1, fun r hr => (cell_setCell_of_lt (Nat.lt_of_lt_of_le hr hq)).trans (h.2 r hr)⟩

theorem Fresh.refl (s : Store (NodeData P)) (next : Nat) : Fresh s next s := ⟨rfl, fun _ _ => rfl⟩

section
variable {s₂ : Store (NodeData P)} (hr : t.Rep s.cell) (htop : s.top = t.root) (hd : t.Distinct)
  (hv : Valid e size t) (hx : x.length = size) (hn : n ≤ 8 * size) (hlt : ∀ q, t.Mem q → q < next)
include hr hlt

theorem Fresh.rep (h : Fresh s next s₂) : t.Rep s₂.cell := hr.congr fun q hq => h.2 q (hlt q hq)

include hv hx hn in
theorem Fresh.placeBelow (h : Fresh s next s₂) (hkey : key.take size = toHost e x) :
    placeBelow s₂ (parentOf (descent e size x n) none t) key =
      some (t.focusSlot (descent e size x n) .top) :=
  placeBelow_spec (h.rep hr hlt) hv hx hn hkey rfl

variable {ptr m : Nat} {d data : NodeData P} {child : Bool → PTree (NodeData P)}
  (hdata : IsNew e size x n (some p) data) (hfresh : Fresh s next s₂)
  (hnew : s₂.cell next = some ⟨data, fun _ => none⟩)
include htop hd hv hn hdata hfresh hnew

theorem write_leaf_spec (hfocus : t.focus (descent e size x n) = .nil) :
    ∃ s' t', s₂.write (t.focusSlot (descent e size x n) .top) (some next) = some s' ∧
      Added e size x n p s next t s' (next + 1) t' := by
  obtain ⟨hshape, habs⟩ := hdata.leaf next
  obtain ⟨s', hs', hadded⟩ := added_of_write (u := .node next data fun _ => .nil)
    (next + 1) hr htop hd hv hn hlt hfresh.1 hfresh.2 ⟨hnew, fun _ => trivial⟩
      ⟨fun _ => ⟨id, trivial⟩, fun _ h => h.elim⟩ hshape
    (by rw [hfocus, habs]; rfl)
    (by rintro q (rfl | ⟨_, h⟩); exacts [.inr ⟨Nat.le_refl _, Nat.lt_succ_self _⟩, h.elim])
    (Nat.le_succ _)
  exact ⟨s', _, hs', hadded⟩

variable (hfocus : t.focus (descent e size x n) = .node ptr d child)
  (hstop : ¬ (d.cidr ≤ n ∧ d.cidr ≤ common bitAt (d.key e size) x (8 * size)))
include hx hfocus hstop

theorem addAbove_spec (hleast : n = min n (common bitAt (d.key e size) x (8 * size))) :
    ∃ s' t', addAbove s₂ (next + 1) (parentOf (descent e size x n) none t) next ptr data d =
        some (0, s', next + 1) ∧
      Added e size x n p s next t s' (next + 1) t' := by
  have hvF : Valid e size (.node ptr d child) := hfocus ▸ hv.focus
  have hdF : (PTree.node ptr d child).Distinct := hfocus ▸ hd.focus
  have hltF : ∀ q, (PTree.node ptr d child).Mem q → q < next :=
    fun q hq => hlt q (PTree.mem_of_mem_focus (hfocus ▸ hq))
  have hwidth : d.cidr ≤ 8 * size := hvF.ordered.1
  have hchoose := chooseNode_spec (d := data) _ hvF.size_ok hdata.shaped
    (length_key hvF.size_ok hvF.shaped.1) (toHost_toHost e (d.bits.take size)).symm
    (by have := hdata.cidr; omega)
  rw [hdata.cidr] at hchoose
  have hfresh₂ := hfresh.setCell (Nat.le_refl next)
    (some ⟨data, Function.update (fun _ => none) (bitAt (d.key e size) n) (some ptr)⟩)
  have hrF : (PTree.node ptr d child).Rep _ := hfocus ▸ (hfresh₂.rep hr hlt).focus
  obtain ⟨hrep, hdist, hmem⟩ := rep_above data (bitAt (d.key e size) n) hrF hdF hltF
    (Function.update_self _ _ _)
  obtain ⟨hshape, habs⟩ := hdata.above hvF hstop hleast next
  obtain ⟨s', hs', hadded⟩ := added_of_write (next + 1) hr htop hd hv hn hlt hfresh₂.1
    hfresh₂.2 hrep hdist hshape (by rw [hfocus]; exact habs)
    (fun q hq => by
      rw [hfocus]
      exact (hmem q hq).symm.imp_right fun h => ⟨Nat.le_of_eq h.symm, by omega⟩)
    (Nat.le_succ _)
  refine ⟨s', _, ?_, hadded⟩
  simp only [PTree.root] at hs'
  simp only [addAbove, hchoose, write_kid hnew, hfresh₂.placeBelow hr hv hx hn hlt hdata.bits, hs',
    Option.bind_eq_bind, Option.bind_some]
  rfl

theorem addBeside_spec (hm : m = min n (common bitAt (d.key e size) x (8 * size)))
    (hleast : n ≠ m) :
    ∃ s' t', addBeside e s₂ (next + 1) (8 * size) (parentOf (descent e size x n) none t) next ptr m
        data d = some (0, s', next + 1 + 1) ∧
      Added e size x n p s next t s' (next + 1 + 1) t' := by
  have hvF : Valid e size (.node ptr d child) := hfocus ▸ hv.focus
  have hdF : (PTree.node ptr d child).Distinct := hfocus ▸ hd.focus
  have hltF : ∀ q, (PTree.node ptr d child).Mem q → q < next :=
    fun q hq => hlt q (PTree.mem_of_mem_focus (hfocus ▸ hq))
  have hwidth : d.cidr ≤ 8 * size := hvF.ordered.1
  have hjoint : IsNew e size x m none (newNode e (none : Option P) data.bits m (8 * size)) :=
    newNode_isNew none hv.size_ok hx hdata.bits
  obtain ⟨hbit, hshape, habs⟩ := hdata.beside hjoint hvF hn hstop hm hleast next
  generalize hdef : newNode e (none : Option P) data.bits m (8 * size) = joint at hjoint hshape habs
  have hchoose := chooseNode_spec (d := joint) _ hvF.size_ok hjoint.shaped
    (length_key hvF.size_ok hvF.shaped.1) (toHost_toHost e (d.bits.take size)).symm
    (by have := hjoint.cidr; omega)
  have hchoose' := chooseNode_spec (d := joint) _ hvF.size_ok hjoint.shaped hx hdata.bits
    (by have := hjoint.cidr; omega)
  rw [hjoint.cidr] at hchoose hchoose'
  obtain ⟨w, s₃, hw, hw', hjcell, htop₃, hother⟩ :=
    wire_joint s₂ (next + 1) joint (bitAt (d.key e size) m) (bitAt x m) (some ptr) (some next)
  have hncell : s₃.cell next = some ⟨data, fun _ => none⟩ :=
    (hother next (Nat.ne_of_lt (Nat.lt_succ_self next))).trans hnew
  have hfresh₃ : Fresh s next s₃ :=
    ⟨htop₃.trans hfresh.1, fun q hq => (hother q (by omega)).trans (hfresh.2 q hq)⟩
  have hrF : (PTree.node ptr d child).Rep s₃.cell := hfocus ▸ (hfresh₃.rep hr hlt).focus
  have hrep :=
    rep_joint (G := .node next data fun _ => .nil) (hbit ▸ Bool.not_ne_self (bitAt x m)) hrF
    ⟨hncell, fun _ => trivial⟩ hdF ⟨fun _ => ⟨id, trivial⟩, fun _ h => h.elim⟩
    (fun r hr => Nat.lt_succ_of_lt (hltF r hr))
    (by rintro r (rfl | ⟨_, h⟩); exacts [Nat.lt_succ_self _, h.elim])
    (by rintro r hr (rfl | ⟨_, h⟩); exacts [Nat.lt_irrefl _ (hltF _ hr), h.elim]) hjcell
  obtain ⟨s', hs', hadded⟩ := added_of_write (next + 1 + 1) hr htop hd hv hn hlt hfresh₃.1
    hfresh₃.2 hrep.1 hrep.2.1 hshape (by rw [hfocus]; exact habs)
    (fun q hq => by
      rw [hfocus]
      rcases hrep.2.2 q hq with rfl | h | (rfl | ⟨_, h⟩)
      · exact .inr ⟨Nat.le_succ next, Nat.lt_succ_self _⟩
      · exact .inl h
      · exact .inr ⟨Nat.le_refl _, by omega⟩
      · exact h.elim)
    (by omega)
  refine ⟨s', _, ?_, hadded⟩
  simp only [PTree.root] at hs'
  simp only [addBeside, hdef, hchoose, hchoose', hw, hw',
    hfresh₃.placeBelow hr hv hx hn hlt hjoint.bits, hs', Option.bind_eq_bind, Option.bind_some]
  rfl

omit hlt hdata hfresh hnew hstop hx in
theorem setPeer_spec (hexact : IsExact e size x n (.node ptr d child)) :
    ∃ t', Added e size x n p s next t
      (s.setCell ptr (some ⟨{ d with peer := some p }, fun i => (child i).root⟩)) next t' := by
  have hrF : (PTree.node ptr d child).Rep s.cell := hfocus ▸ hr.focus
  have hdF : (PTree.node ptr d child).Distinct := hfocus ▸ hd.focus
  have hvF : Valid e size (.node ptr d child) := hfocus ▸ hv.focus
  have hin : ∀ q, (PTree.node ptr d child).Mem q → t.Mem q := fun q hq =>
    PTree.mem_of_mem_focus (hfocus ▸ hq)
  have hup := Updated.setData hrF hdF { d with peer := some p }
  have habs : abs e size (.node ptr { d with peer := some p } child) =
      (abs e size (t.focus (descent e size x n))).insert bitAt (8 * size) x n p := by
    rw [hfocus, abs, abs, Trie.insert, if_pos ⟨Nat.le_of_eq hexact.2, hexact.1⟩, if_pos hexact.2]
    rfl
  have hshape : AllShaped e size (.node ptr { d with peer := some p } child) :=
    ⟨⟨hvF.shaped.1.bits, hvF.shaped.1.at_a, hvF.shaped.1.at_b⟩, hvF.shaped.2⟩
  obtain ⟨hvalid, hget⟩ := valid_plug hv hn hshape habs
  obtain ⟨hrep, hroot⟩ := PTree.Rep.plug_same hr hup.rep (by rw [hfocus]; rfl)
    (fun q _ hq => hup.frame q (by rwa [hfocus] at hq)) hd
  refine ⟨_, hrep, htop.trans hroot.symm, ?_, hvalid, hget, ?_, ?_, Nat.le_refl next⟩
  · exact PTree.distinct_plug hd hup.distinct fun q _ hq => by rw [hfocus]; exact hup.sub q hq
  · exact fun q hq _ => hup.frame q fun hq' => hq (hin q hq')
  · exact fun q hq => .inl ((PTree.mem_plug hq).elim id fun h => hin q (hup.sub q h))

omit hdata hfresh hnew hfocus hstop in
include hx in
theorem addNew_spec (hexact : ¬ IsExact e size x n (t.focus (descent e size x n))) :
    ∃ s' next' t', addNew e s next (8 * size) (parentOf (descent e size x n) none t) (toHost e x) n
        (some p) = some (0, s', next') ∧ Added e size x n p s next t s' next' t' := by
  have htake : (toHost e x).take size = toHost e x :=
    List.take_of_length_le (by rw [length_toHost, hx])
  have hdata : IsNew e size x n (some p) (newNode e (some p) (toHost e x) n (8 * size)) :=
    newNode_isNew (some p) hv.size_ok hx htake
  have hcidr : (newNode e (some p) (toHost e x) n (8 * size)).cidr = n := rfl
  unfold addNew
  generalize newNode e (some p) (toHost e x) n (8 * size) = data at hdata hcidr
  have hfresh := (Fresh.refl s next).setCell (Nat.le_refl next) (some ⟨data, fun _ => none⟩)
  have hnew :
      (s.setCell next (some ⟨data, fun _ => none⟩)).cell next = some ⟨data, fun _ => none⟩ :=
    Function.update_self _ _ _
  have hread := PTree.read_focusSlot (descent e size x n) .top (hfresh.rep hr hlt)
    (congrArg some htop)
  simp only [hfresh.placeBelow hr hv hx hn hlt htake, hread, hcidr, Option.bind_eq_bind,
    Option.bind_some]
  cases hfocus : t.focus (descent e size x n) with
  | nil =>
    obtain ⟨s', t', hs', hadded⟩ := write_leaf_spec hr htop hd hv hn hlt hdata hfresh hnew hfocus
    refine ⟨s', next + 1, t', ?_, hadded⟩
    simp only [PTree.root, hs', Option.bind_some]
    rfl
  | node ptr d child =>
    rw [hfocus] at hexact
    have hstop : ¬ (d.cidr ≤ n ∧ d.cidr ≤ common bitAt (d.key e size) x (8 * size)) := fun hm =>
      hexact ⟨hm.2, descent_eq_none (descent_focus hfocus) hm⟩
    have hvF : Valid e size (.node ptr d child) := hfocus ▸ hv.focus
    have hrF : (PTree.node ptr d child).Rep _ := hfocus ▸ (hfresh.rep hr hlt).focus
    simp only [PTree.root, hrF.1, commonBits_spec hvF.size_ok hvF.shaped.1 hx, Option.bind_some]
    by_cases hleast : n = min n (common bitAt (d.key e size) x (8 * size))
    · rw [if_pos hleast]
      obtain ⟨s', t', hs', hadded⟩ :=
        addAbove_spec hr htop hd hv hx hn hlt hdata hfresh hnew hfocus hstop hleast
      exact ⟨s', _, t', hs', hadded⟩
    · rw [if_neg hleast]
      obtain ⟨s', t', hs', hadded⟩ :=
        addBeside_spec hr htop hd hv hx hn hlt hdata hfresh hnew hfocus hstop rfl hleast
      exact ⟨s', _, t', hs', hadded⟩

omit hdata hfresh hnew hfocus hstop in
include hx in
/-- Adding a prefix ends, without a fault, with the prefix inserted. -/
theorem add_spec :
    ∃ s' next' t', Eventually (fun fuel => add fuel e s next (8 * size) (toHost e x) n (some p))
        (0, s', next') ∧ Added e size x n p s next t s' next' t' := by
  have hok : ¬ (n > 8 * size ∨ some p = none) := by
    rintro (h | h)
    · omega
    · cases h
  simp only [add, if_neg hok]
  cases htree : t with
  | nil =>
    subst htree
    have hempty : s.top = none := htop
    have htake : (toHost e x).take size = toHost e x :=
      List.take_of_length_le (by rw [length_toHost, hx])
    obtain ⟨s', t', hs', hadded⟩ := write_leaf_spec hr htop hd hv hn hlt
      (newNode_isNew (some p) hv.size_ok hx htake)
      ((Fresh.refl s next).setCell (Nat.le_refl next) _) (Function.update_self _ _ _) rfl
    obtain rfl := Option.some.inj hs'
    refine ⟨_, _, t', ?_, hadded⟩
    simp only [if_pos hempty]
    exact eventually_some _
  | node ptr d child =>
    have hsome : s.top ≠ none := by rw [htop, htree]; nofun
    rw [← htree]
    simp only [if_neg hsome]
    obtain ⟨ptr', d', child', hfocus, hexact, hret⟩ | ⟨hexact, hret⟩ :=
      nodePlacement_spec none hr hv hx hn
    · obtain ⟨t', hadded⟩ := setPeer_spec (p := p) hr htop hd hv hn hfocus hexact
      have hrF : (PTree.node ptr' d' child').Rep s.cell := hfocus ▸ hr.focus
      refine ⟨_, next, t', Eventually.bind (a := (true, some ptr')) (htop ▸ hret) ?_, hadded⟩
      refine ⟨0, fun _ _ => ?_⟩
      simp only [if_pos, Option.bind_eq_bind, Option.bind_some, hrF.1]
      rfl
    · obtain ⟨s', next', t', hs', hadded⟩ := addNew_spec (p := p) hr htop hd hv hx hn hlt hexact
      refine ⟨s', next', t', Eventually.bind (a := (false, _)) (htop ▸ hret) ?_, hadded⟩
      refine ⟨0, fun _ _ => ?_⟩
      simp only [Bool.false_eq_true, if_false]
      exact hs'

end

end

end Sewg.Kernel
