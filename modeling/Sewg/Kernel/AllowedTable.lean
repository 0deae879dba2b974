import Sewg.Kernel.AllowedAdd
import Sewg.Kernel.RemoveWalk

/-! The whole table: two tries whose nodes come from one memory. Each operation works on
the nodes of one trie, or of one after the other, and on new ones, so that the trie it
does not work on keeps its routes. -/

namespace Sewg.Kernel

open CString (Bytes)
open Words Routes PtrTree Loop

section
variable {P : Type} {e : Endian} {size : Nat} {x : Bytes} {p : P}
  {s s' : Store (NodeData P)} {t t' u : PTree (NodeData P)} {next next' : Nat}
  {table rest : Table Bytes P} {top : Option Nat}

/-- The nodes below `top` are the tree `t`, which has the routes of `table`. -/
structure Holds (e : Endian) (size : Nat) (s : Store (NodeData P)) (next : Nat)
    (table : Table Bytes P) (t : PTree (NodeData P)) : Prop where
  rep : t.Rep s.cell
  top : s.top = t.root
  distinct : t.Distinct
  valid : Valid e size t
  below : ∀ q, t.Mem q → q < next
  get : (abs e size t).get bitAt = table

/-- Of the nodes that were there, only those of `t` may have changed; `t'` has some of
these and some new ones. -/
structure Local (s : Store (NodeData P)) (next : Nat) (t : PTree (NodeData P))
    (s' : Store (NodeData P)) (next' : Nat) (t' : PTree (NodeData P)) : Prop where
  frame : ∀ q, ¬ t.Mem q → q < next → s'.cell q = s.cell q
  mem : ∀ q, t'.Mem q → t.Mem q ∨ next ≤ q
  le : next ≤ next'

theorem Local.refl : Local s next t s next t :=
  ⟨fun _ _ _ => rfl, fun _ h => .inl h, Nat.le_refl next⟩

/-- A tree that has no node in common with `t` keeps its routes, and still has none in
common with `t'`. -/
theorem Local.other (h : Local s next t s' next' t') (hu : Holds e size ⟨top, s.cell⟩ next rest u)
    (hdisj : ∀ q, t.Mem q → ¬ u.Mem q) :
    Holds e size ⟨top, s'.cell⟩ next' rest u ∧ ∀ q, t'.Mem q → ¬ u.Mem q := by
  refine ⟨⟨hu.rep.congr fun q hq => ?_, hu.top, hu.distinct, hu.valid, fun q hq => ?_, hu.get⟩,
    fun q hq hq' => ?_⟩
  · exact h.frame q (fun hq' => hdisj q hq' hq) (hu.below q hq)
  · exact Nat.lt_of_lt_of_le (hu.below q hq) h.le
  · rcases h.mem q hq with hq | hq
    · exact hdisj q hq hq'
    · exact absurd (hu.below q hq') (Nat.not_lt.mpr hq)

/-- An insertion as the table takes it: one that `add` refuses changes nothing. -/
def insertMaybe (size : Nat) (table : Table Bytes P) (x : Bytes) (n : Nat) (peer : Option P) :
    Table Bytes P :=
  match peer with
  | some p => if n ≤ 8 * size then table.insert bitAt x n p else table
  | none => table

theorem add_holds (h : Holds e size s next table t) (hx : x.length = size) (n : Nat)
    (peer : Option P) :
    ∃ ret s' next' t', Eventually (fun fuel => add fuel e s next (8 * size) (toHost e x) n peer)
        (ret, s', next') ∧ Holds e size s' next' (insertMaybe size table x n peer) t' ∧
      Local s next t s' next' t' := by
  by_cases hok : n > 8 * size ∨ peer = none
  · have hsame : insertMaybe size table x n peer = table := by
      rcases hok with hn | rfl
      · cases peer with
        | none => rfl
        | some p => exact if_neg (Nat.not_le.mpr hn)
      · rfl
    refine ⟨-EINVAL, s, next, t, ?_, hsame.symm ▸ h, .refl⟩
    simp only [add, if_pos hok]
    exact eventually_some _
  · obtain ⟨hn, hp⟩ := not_or.mp hok
    obtain ⟨p, rfl⟩ := Option.ne_none_iff_exists'.mp hp
    have hn' := Nat.not_lt.mp hn
    obtain ⟨s', next', t', hrun, ha⟩ :=
      add_spec (p := p) h.rep h.top h.distinct h.valid hx hn' h.below
    refine ⟨0, s', next', t', hrun, ⟨ha.rep, ha.top, ha.distinct, ha.valid, fun q hq => ?_, ?_⟩,
      ha.frame, fun q hq => (ha.mem q hq).imp id And.left, ha.le⟩
    · rcases ha.mem q hq with hq | hq
      · exact Nat.lt_of_lt_of_le (h.below q hq) ha.le
      · exact hq.2
    · rw [ha.get, h.get, insertMaybe, if_pos hn']

/-! ### Removal -/

variable [DecidableEq P]

theorem abs_removeTree (p : P) (t : PTree (NodeData P)) :
    abs e size (removeTree p t) = (abs e size t).remove p := by
  induction t with
  | nil => rfl
  | node ptr d child ih =>
    rw [removeTree, settle, abs, Trie.remove]
    by_cases hp : d.peer = some p
    · rw [if_pos hp, if_pos hp, ← ih false, ← ih true, ← funext ih]
      cases hf : removeTree p (child false) with
      | nil => rfl
      | node => cases ht : removeTree p (child true) <;> rfl
    · rw [if_neg hp, if_neg hp, abs, funext ih]

theorem allShaped_removeTree (h : AllShaped e size t) : AllShaped e size (removeTree p t) := by
  induction t with
  | nil => trivial
  | node ptr d child ih =>
    rw [removeTree]
    obtain ⟨-, heq⟩ | ⟨-, -, -, heq⟩ | ⟨-, i, -, -, heq⟩ :=
      settle_cases p ptr d fun i => removeTree p (child i)
    · rw [heq]
      exact ⟨h.1, fun i => ih i (h.2 i)⟩
    · rw [heq]
      exact ⟨⟨h.1.bits, h.1.at_a, h.1.at_b⟩, fun i => ih i (h.2 i)⟩
    · rw [heq]
      exact ih i (h.2 i)

theorem valid_removeTree (h : Valid e size t) : Valid e size (removeTree p t) := by
  refine ⟨h.size_ok, allShaped_removeTree h.shaped, ?_⟩
  rw [abs_removeTree]
  exact Trie.remove_ordered h.ordered

theorem walk_top (hr : t.Rep s.cell) (htop : s.top = t.root) (hd : t.Distinct) :
    ∃ s', Eventually (fun fuel => walkRemoveByPeer fuel s (some p)) s' ∧
      Replaced s .top t s' (removeTree p t) := by
  cases t with
  | nil =>
    refine ⟨s, ?_, Replaced.refl (congrArg some htop) hr hd⟩
    simp only [walkRemoveByPeer, show s.top = none from htop]
    exact eventually_some s
  | node ptr d child =>
    have htop' : s.top = some ptr := htop
    obtain ⟨s', hreach, hrepl⟩ :=
      walks p (.node ptr d child) s .top [] none ptr rfl (congrArg some htop) hr hd trivial rfl
    refine ⟨s', ?_, hrepl⟩
    simp only [walkRemoveByPeer, htop']
    exact hreach.returns (returns_done rfl)

/-- A removal as the table takes it. -/
def removeMaybe (table : Table Bytes P) : Option P → Table Bytes P
  | some p => table.remove p
  | none => table

theorem walk_holds (h : Holds e size s next table t) (peer : Option P) :
    ∃ s' t', Eventually (fun fuel => walkRemoveByPeer fuel s peer) s' ∧
      Holds e size s' next (removeMaybe table peer) t' ∧ Local s next t s' next t' := by
  cases peer with
  | none => exact ⟨s, t, eventually_some s, h, .refl⟩
  | some p =>
    obtain ⟨s', hrun, hrepl⟩ := walk_top (p := p) h.rep h.top h.distinct
    obtain ⟨w, hw, htop, hframe⟩ := hrepl.frame
    cases hw
    refine ⟨s', _, hrun, ⟨hrepl.rep, htop, hrepl.distinct, valid_removeTree h.valid,
      fun q hq => h.below q (hrepl.sub q hq), ?_⟩,
      fun q hq _ => hframe q hq, fun q hq => .inl (hrepl.sub q hq), Nat.le_refl next⟩
    rw [abs_removeTree, Trie.get_remove h.valid.ordered, h.get]
    rfl

end

/-! ### Runs of operations -/

section
variable {P : Type} {e : Endian} {table : Allowedips P} {v4 v6 : Table Bytes P} {ip : Bytes}

/-- The two tries of a table have the routes `v4` and `v6`, on nodes of their own. -/
def Allowedips.Refines (e : Endian) (table : Allowedips P) (v4 v6 : Table Bytes P) : Prop :=
  ∃ t4 t6, Holds e 4 ⟨table.root4, table.cell⟩ table.next v4 t4 ∧
    Holds e 16 ⟨table.root6, table.cell⟩ table.next v6 t6 ∧ ∀ q, t4.Mem q → ¬ t6.Mem q

theorem init_refines :
    (wgAllowedipsInit : Allowedips P).Refines e (fun _ _ => none) fun _ _ => none :=
  ⟨.nil, .nil, ⟨trivial, rfl, trivial, ⟨.inl rfl, trivial, trivial⟩, fun _ h => h.elim, rfl⟩,
    ⟨trivial, rfl, trivial, ⟨.inr rfl, trivial, trivial⟩, fun _ h => h.elim, rfl⟩,
    fun _ h => h.elim⟩

theorem insertV4_refines (h : table.Refines e v4 v6) (hip : ip.length = 4) (cidr : Nat)
    (peer : Option P) :
    ∃ ret table', Eventually (fun fuel => wgAllowedipsInsertV4 fuel e table ip cidr peer)
      (ret, table') ∧ table'.Refines e (insertMaybe 4 v4 ip cidr peer) v6 := by
  obtain ⟨t4, t6, h4, h6, hdisj⟩ := h
  obtain ⟨ret, s', next', t', hrun, hholds, hlocal⟩ := add_holds h4 hip cidr peer
  obtain ⟨h6', hdisj'⟩ := hlocal.other h6 hdisj
  refine ⟨ret, { table.bumpSeq with root4 := s'.top, cell := s'.cell, next := next' }, ?_,
    t', t6, hholds, h6', hdisj'⟩
  unfold wgAllowedipsInsertV4
  simp only [swapEndian_32 hip]
  exact hrun.bind (eventually_some _)

theorem insertV6_refines (h : table.Refines e v4 v6) (hip : ip.length = 16) (cidr : Nat)
    (peer : Option P) :
    ∃ ret table', Eventually (fun fuel => wgAllowedipsInsertV6 fuel e table ip cidr peer)
      (ret, table') ∧ table'.Refines e v4 (insertMaybe 16 v6 ip cidr peer) := by
  obtain ⟨t4, t6, h4, h6, hdisj⟩ := h
  obtain ⟨ret, s', next', t', hrun, hholds, hlocal⟩ := add_holds h6 hip cidr peer
  obtain ⟨h4', hdisj'⟩ := hlocal.other h4 fun q hq hq' => hdisj q hq' hq
  refine ⟨ret, { table.bumpSeq with root6 := s'.top, cell := s'.cell, next := next' }, ?_,
    t4, t', h4', hholds, fun q hq hq' => hdisj' q hq' hq⟩
  unfold wgAllowedipsInsertV6
  simp only [swapEndian_128 hip]
  exact hrun.bind (eventually_some _)

variable [DecidableEq P]

theorem removeByPeer_refines (h : table.Refines e v4 v6) (peer : Option P) :
    ∃ table', Eventually (fun fuel => wgAllowedipsRemoveByPeer fuel table peer) table' ∧
      table'.Refines e (removeMaybe v4 peer) (removeMaybe v6 peer) := by
  obtain ⟨t4, t6, h4, h6, hdisj⟩ := h
  obtain ⟨s4, t4', hrun4, h4', hlocal4⟩ := walk_holds h4 peer
  obtain ⟨h6', hdisj'⟩ := hlocal4.other h6 hdisj
  obtain ⟨s6, t6', hrun6, h6'', hlocal6⟩ := walk_holds h6' peer
  obtain ⟨h4'', hdisj''⟩ :=
    hlocal6.other (h4' : Holds e _ ⟨s4.top, s4.cell⟩ _ _ _) fun q hq hq' => hdisj' q hq' hq
  refine ⟨{ table.bumpSeq with root4 := s4.top, root6 := s6.top, cell := s6.cell }, ?_,
    t4', t6', h4'', h6'', fun q hq hq' => hdisj'' q hq' hq⟩
  exact hrun4.bind (hrun6.bind (eventually_some _))

/-- A call that changes the table. The lengths are those of `struct in_addr` and
`struct in6_addr`. -/
inductive Operation (P : Type) where
  | insertV4 (ip : Bytes) (size_ok : ip.length = 4) (cidr : Nat) (peer : Option P)
  | insertV6 (ip : Bytes) (size_ok : ip.length = 16) (cidr : Nat) (peer : Option P)
  | removeByPeer (peer : Option P)

def Operation.perform (fuel : Nat) (e : Endian) (table : Allowedips P) :
    Operation P → Option (Allowedips P)
  | insertV4 ip _ cidr peer => (wgAllowedipsInsertV4 fuel e table ip cidr peer).map Prod.snd
  | insertV6 ip _ cidr peer => (wgAllowedipsInsertV6 fuel e table ip cidr peer).map Prod.snd
  | removeByPeer peer => wgAllowedipsRemoveByPeer fuel table peer

def Allowedips.performAll (fuel : Nat) (e : Endian) (table : Allowedips P)
    (ops : List (Operation P)) : Option (Allowedips P) :=
  ops.foldlM (Operation.perform fuel e) table

/-- One call, on the prefixes of addresses of `size` bytes. -/
def Operation.write (size : Nat) (table : Table Bytes P) : Operation P → Table Bytes P
  | insertV4 ip _ cidr peer | insertV6 ip _ cidr peer =>
    if ip.length = size then insertMaybe size table ip cidr peer else table
  | removeByPeer peer => removeMaybe table peer

/-- What the calls leave for each prefix of addresses of `size` bytes. -/
def routes (size : Nat) (ops : List (Operation P)) : Table Bytes P :=
  ops.foldl (Operation.write size) fun _ _ => none

theorem perform_refines (h : table.Refines e v4 v6) (op : Operation P) :
    ∃ table', Eventually (fun fuel => op.perform fuel e table) table' ∧
      table'.Refines e (op.write 4 v4) (op.write 16 v6) := by
  cases op with
  | insertV4 ip hip cidr peer =>
    have hne : ip.length ≠ 16 := by omega
    obtain ⟨ret, table', hrun, href⟩ := insertV4_refines h hip cidr peer
    refine ⟨table', ?_, ?_⟩
    · simp only [Operation.perform, Option.map_eq_bind]
      exact hrun.bind (eventually_some _)
    · rwa [Operation.write, if_pos hip, Operation.write, if_neg hne]
  | insertV6 ip hip cidr peer =>
    have hne : ip.length ≠ 4 := by omega
    obtain ⟨ret, table', hrun, href⟩ := insertV6_refines h hip cidr peer
    refine ⟨table', ?_, ?_⟩
    · simp only [Operation.perform, Option.map_eq_bind]
      exact hrun.bind (eventually_some _)
    · rwa [Operation.write, if_neg hne, Operation.write, if_pos hip]
  | removeByPeer peer => exact removeByPeer_refines h peer

theorem performAll_refines (h : table.Refines e v4 v6) (ops : List (Operation P)) :
    ∃ table', Eventually (fun fuel => table.performAll fuel e ops) table' ∧
      table'.Refines e (ops.foldl (Operation.write 4) v4) (ops.foldl (Operation.write 16) v6) := by
  induction ops generalizing table v4 v6 with
  | nil => exact ⟨table, eventually_some table, h⟩
  | cons op ops ih =>
    obtain ⟨mid, hmid, href⟩ := perform_refines h op
    obtain ⟨table', htable', hfinal⟩ := ih href
    refine ⟨table', ?_, hfinal⟩
    simp only [Allowedips.performAll, List.foldlM_cons]
    exact hmid.bind htable'

/-- Every run of operations ends, the removal walks in it included, and afterwards every
lookup ends with the longest prefix. -/
theorem lookup_after_operations (e : Endian) (ops : List (Operation P)) :
    ∃ table : Allowedips P, Eventually (fun fuel => wgAllowedipsInit.performAll fuel e ops) table ∧
      (∀ address, address.length = 4 →
        Eventually (fun fuel => lookup fuel e ⟨table.root4, table.cell⟩ 32 address)
          (longest (routes 4 ops) address 32)) ∧
      (∀ address, address.length = 16 →
        Eventually (fun fuel => lookup fuel e ⟨table.root6, table.cell⟩ 128 address)
          (longest (routes 16 ops) address 128)) := by
  obtain ⟨table, hrun, t4, t6, h4, h6, -⟩ := performAll_refines (e := e) init_refines ops
  refine ⟨table, hrun, fun address ha => ?_, fun address ha => ?_⟩
  · have hlookup := lookup_spec h4.rep h4.top h4.valid ha (swapEndian_32 ha)
    rwa [h4.get] at hlookup
  · have hlookup := lookup_spec h6.rep h6.top h6.valid ha (swapEndian_128 ha)
    rwa [h6.get] at hlookup

/-- A network and its two halves; then the network's peer goes, and one half is given to
another peer. -/
def splitNetworkOps : List (Operation Nat) :=
  [.insertV4 [10, 0, 0, 0] rfl 8 (some 1), .insertV4 [10, 0, 0, 0] rfl 9 (some 2),
    .insertV4 [10, 128, 0, 0] rfl 9 (some 3), .removeByPeer (some 1),
    .insertV4 [10, 128, 0, 7] rfl 9 (some 4)]

theorem splitNetworkOps_lookup : ∃ table : Allowedips Nat,
    Eventually (fun fuel => wgAllowedipsInit.performAll fuel .little splitNetworkOps) table ∧
      Eventually (fun fuel => lookup fuel .little ⟨table.root4, table.cell⟩ 32 [10, 1, 2, 3])
        (some 2) ∧
      Eventually
        (fun fuel => lookup fuel .little ⟨table.root4, table.cell⟩ 32 [10, 200, 2, 3])
        (some 4) := by
  obtain ⟨table, hrun, h4, -⟩ := lookup_after_operations .little splitNetworkOps
  have hroutes : longest (routes 4 splitNetworkOps) [10, 1, 2, 3] 32 = some 2 ∧
      longest (routes 4 splitNetworkOps) [10, 200, 2, 3] 32 = some 4 := by
    decide +kernel
  have h := h4 [10, 1, 2, 3] rfl
  have h' := h4 [10, 200, 2, 3] rfl
  rw [hroutes.1] at h
  rw [hroutes.2] at h'
  exact ⟨table, hrun, h, h'⟩

end

end Sewg.Kernel
