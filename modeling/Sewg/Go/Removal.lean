import Sewg.Go.AllowedIPs

/-! What `removeByPeer` leaves in the table. A node of the peer with two branches
left gives its place to the first of them, and the second is dropped. So an
address keeps its route exactly when no branch is dropped on its way, or what the
branch had for it goes where the shorter prefixes go. -/

namespace Sewg.Go

open CString (Bytes)
open Words Routes

namespace TrieEntry

variable {P : Type} [DecidableEq P]

/-- Every node, joints included, belongs to `p`. -/
def allOf (p : P) : TrieEntry P → Bool
  | nil => true
  | node _ child _ peer _ _ =>
    decide (peer = some p) && (child false).allOf p && (child true).allOf p

/-- The length of the first prefix of `ip` where a removal of `p` drops the branch
that `ip` goes to: a node of `p`, `ip` on its second side, and on the first side a node
that is not `p`'s. -/
def cutAt (p : P) (ip : Bytes) : TrieEntry P → Option Nat
  | nil => none
  | node cidr child bits peer _ _ =>
    if Agree bitAt cidr bits ip then
      if peer = some p ∧ bitAt ip cidr = true ∧ (child false).allOf p = false then some cidr
      else (child (bitAt ip cidr)).cutAt p ip
    else none

variable {p : P} {t : TrieEntry P} {size : Nat}

theorem removeByPeer_eq_nil : t.removeByPeer p = nil ↔ t.allOf p = true := by
  induction t with
  | nil => simp [removeByPeer, allOf]
  | node cidr child bits peer byte shift ih =>
    simp only [removeByPeer, allOf, Bool.and_eq_true, decide_eq_true_eq, ← ih]
    by_cases hp : peer = some p
    · rw [if_neg (not_not.mpr hp)]
      cases h : (child false).removeByPeer p <;> simp [hp]
    · rw [if_pos hp]
      simp [hp]

/-- A removal keeps a node of another peer and gives a node of `p` the place to one
of its branches. -/
theorem removeByPeer_cases (p : P) (cidr : Nat) (child : Bool → TrieEntry P) (bits : Bytes)
    (peer : Option P) (byte shift : Nat) :
    (peer ≠ some p ∧
      (node cidr child bits peer byte shift).removeByPeer p =
        node cidr (fun i => (child i).removeByPeer p) bits peer byte shift) ∨
    (peer = some p ∧ (child false).allOf p = true ∧
      (node cidr child bits peer byte shift).removeByPeer p = (child true).removeByPeer p) ∨
    (peer = some p ∧ (child false).allOf p = false ∧
      (node cidr child bits peer byte shift).removeByPeer p = (child false).removeByPeer p) := by
  by_cases hp : peer = some p
  · cases hall : (child false).allOf p with
    | true =>
      refine .inr (.inl ⟨hp, rfl, ?_⟩)
      rw [removeByPeer, if_neg (not_not.mpr hp)]
      dsimp only
      rw [removeByPeer_eq_nil.mpr hall]
    | false =>
      refine .inr (.inr ⟨hp, rfl, ?_⟩)
      rw [removeByPeer, if_neg (not_not.mpr hp)]
      dsimp only
      split
      · rename_i hnil
        rw [removeByPeer_eq_nil.mp hnil] at hall
        cases hall
      · rfl
  · exact .inl ⟨hp, by rw [removeByPeer, if_pos hp]⟩

theorem removeByPeer_below {b : Bytes} {c : Nat} {i : Bool} (ht : t.abs.Ordered bitAt (8 * size))
    (h : t.abs.Below bitAt b c i) : (t.removeByPeer p).abs.Below bitAt b c i := by
  induction t generalizing b c i with
  | nil => trivial
  | node cidr child bits peer byte shift ih =>
    obtain ⟨hlen, hkey, hbit⟩ := h
    obtain ⟨-, h⟩ | ⟨-, -, h⟩ | ⟨-, -, h⟩ := removeByPeer_cases p cidr child bits peer byte shift
    · rw [h]; exact ⟨hlen, hkey, hbit⟩
    · rw [h]; exact ih _ (ht.2 _).2 (Trie.Below.trans hlen hkey hbit (ht.2 _).1)
    · rw [h]; exact ih _ (ht.2 _).2 (Trie.Below.trans hlen hkey hbit (ht.2 _).1)

theorem removeByPeer_valid (ht : t.Valid size) : (t.removeByPeer p).Valid size := by
  induction t with
  | nil => exact ht
  | node cidr child bits peer byte shift ih =>
    obtain ⟨-, h⟩ | ⟨-, -, h⟩ | ⟨-, -, h⟩ := removeByPeer_cases p cidr child bits peer byte shift
    · rw [h]
      refine ⟨ht.size_ok, ⟨ht.shaped.1, ht.shaped.2.1, ht.shaped.2.2.1, ?_⟩, ht.ordered.1, ?_⟩
      · exact fun i => (ih i (ht.child i)).shaped
      · exact fun i => ⟨removeByPeer_below (ht.child i).ordered (ht.ordered.2 i).1,
          (ih i (ht.child i)).ordered⟩
    · rw [h]; exact ih _ (ht.child _)
    · rw [h]; exact ih _ (ht.child _)

theorem cutAt_gt {b ip : Bytes} {c d : Nat} {i : Bool} (ht : t.abs.Ordered bitAt (8 * size))
    (hb : t.abs.Below bitAt b c i) (h : t.cutAt p ip = some d) : c < d := by
  induction t generalizing b c i with
  | nil => cases h
  | node cidr child bits peer byte shift ih =>
    obtain ⟨hlen, -, -⟩ := hb
    unfold cutAt at h
    split at h
    · split at h
      · cases h; exact hlen
      · exact Nat.lt_trans hlen (ih _ (ht.2 _).2 (ht.2 _).1 h)
    · cases h

/-- At a node of `p` itself nothing is left of what the table had. -/
theorem remove_get_eq_none {cidr n : Nat} {child : Bool → TrieEntry P} {bits x : Bytes}
    {byte shift : Nat} (hn : n ≤ cidr) :
    Table.remove ((node cidr child bits (some p) byte shift).abs.get bitAt) p x n = none := by
  rw [Table.remove]
  rcases Nat.lt_or_eq_of_le hn with hn | rfl
  · rw [abs, Trie.get_short hn, ite_self]
  · rw [abs, Trie.get_self]
    by_cases hx : Agree bitAt n bits x
    · rw [if_pos hx, if_pos rfl]
    · rw [if_neg hx, ite_self]

section
variable {cidr n byte shift : Nat} {child : Bool → TrieEntry P} {bits x : Bytes} {peer : Option P}

theorem cutAt_here (hx : Agree bitAt cidr bits x) (hbit : bitAt x cidr = true)
    (hall : (child false).allOf p = false) :
    (node cidr child bits (some p) byte shift).cutAt p x = some cidr := by
  rw [cutAt, if_pos hx, if_pos ⟨rfl, hbit, hall⟩]

theorem cutAt_down (hx : Agree bitAt cidr bits x)
    (h : peer = some p → bitAt x cidr = true → (child false).allOf p = true) :
    (node cidr child bits peer byte shift).cutAt p x = (child (bitAt x cidr)).cutAt p x := by
  rw [cutAt, if_pos hx, if_neg]
  rintro ⟨hp, hbit, hall⟩
  rw [h hp hbit] at hall
  cases hall

theorem remove_get_child (hn : cidr < n) :
    Table.remove ((node cidr child bits peer byte shift).abs.get bitAt) p x n =
      Table.remove ((child (bitAt x cidr)).abs.get bitAt) p x n := by
  rw [Table.remove, Table.remove, abs, Trie.get_child hn]

/-- A branch that has taken its parent's place has nothing for prefixes that are not
below it. -/
theorem get_removeByPeer_child (ht : (node cidr child bits peer byte shift).Valid size) (i : Bool)
    (hi : cidr < n → Agree bitAt cidr bits x → bitAt x cidr ≠ i) :
    ((child i).removeByPeer p).abs.get bitAt x n = none :=
  Trie.get_eq_none (removeByPeer_valid (ht.child i)).ordered
    (removeByPeer_below (ht.child i).ordered (ht.ordered.2 i).1) hi

/-- The value the trie has for `x / n` after the removal: up to the cut what the table
should have, and nothing longer. -/
def Left (p : P) (x : Bytes) (n : Nat) (t : TrieEntry P) : Option P :=
  if (t.cutAt p x).all (n ≤ ·) then Table.remove (t.abs.get bitAt) p x n else none

theorem left_eq_none (h : Table.remove (t.abs.get bitAt) p x n = none) : t.Left p x n = none := by
  rw [Left, h, ite_self]

theorem left_down (hn : cidr < n) (hx : Agree bitAt cidr bits x)
    (h : peer = some p → bitAt x cidr = true → (child false).allOf p = true) :
    (node cidr child bits peer byte shift).Left p x n = (child (bitAt x cidr)).Left p x n := by
  rw [Left, Left, cutAt_down hx h, remove_get_child hn]

theorem get_removeByPeer_kept (ht : (node cidr child bits peer byte shift).Valid size)
    (hp : peer ≠ some p) (hx : Agree bitAt cidr bits x)
    (ih : ∀ i, ((child i).removeByPeer p).abs.get bitAt x n = (child i).Left p x n) :
    (node cidr (fun i => (child i).removeByPeer p) bits peer byte shift).abs.get bitAt x n =
      (node cidr child bits peer byte shift).Left p x n := by
  rcases Nat.lt_trichotomy n cidr with hn | rfl | hn
  · rw [abs, Trie.get_short hn, left_eq_none]
    rw [Table.remove, abs, Trie.get_short hn, ite_self]
  · have hcut : ((node n child bits peer byte shift).cutAt p x).all (n ≤ ·) = true := by
      rw [cutAt_down hx fun h => absurd h hp, Option.all_eq_true]
      intro d hd
      exact decide_eq_true (Nat.le_of_lt (cutAt_gt (ht.child _).ordered (ht.ordered.2 _).1 hd))
    rw [Left, if_pos hcut, Table.remove, abs, abs, Trie.get_self, Trie.get_self,
      if_pos hx, if_neg hp]
  · rw [abs, Trie.get_child hn, left_down hn hx fun h => absurd h hp]
    exact ih _

end

theorem get_removeByPeer (ht : t.Valid size) (x : Bytes) (n : Nat) :
    (t.removeByPeer p).abs.get bitAt x n = t.Left p x n := by
  induction t with
  | nil => exact (left_eq_none rfl).symm
  | node cidr child bits peer byte shift ih =>
    have ih : ∀ i, ((child i).removeByPeer p).abs.get bitAt x n = (child i).Left p x n :=
      fun i => ih i (ht.child i)
    by_cases hx : Agree bitAt cidr bits x
    · obtain ⟨hp, h⟩ | ⟨rfl, hall, h⟩ | ⟨rfl, hall, h⟩ :=
        removeByPeer_cases p cidr child bits peer byte shift
      · rw [h]
        exact get_removeByPeer_kept ht hp hx ih
      · -- the first side was all `p`'s, so nothing is dropped
        rw [h]
        rcases Nat.lt_or_ge cidr n with hn | hn
        · rw [left_down hn hx fun _ _ => hall]
          cases hbit : bitAt x cidr with
          | true => exact ih _
          | false =>
            rw [get_removeByPeer_child ht true fun _ _ => by rw [hbit]; decide, ← ih false,
              removeByPeer_eq_nil.mpr hall]
            rfl
        · rw [get_removeByPeer_child ht true fun hlt => absurd hlt (Nat.not_lt.mpr hn),
            left_eq_none (remove_get_eq_none hn)]
      · rw [h]
        rcases Nat.lt_or_ge cidr n with hn | hn
        · cases hbit : bitAt x cidr with
          | true =>
            rw [get_removeByPeer_child ht false fun _ _ => by rw [hbit]; decide, Left,
              cutAt_here hx hbit hall, if_neg]
            simpa using hn
          | false =>
            have hne : bitAt x cidr = true → (child false).allOf p = true :=
              fun h => absurd (hbit.symm.trans h) (by decide)
            rw [left_down hn hx fun _ => hne, hbit]
            exact ih _
        · rw [get_removeByPeer_child ht false fun hlt => absurd hlt (Nat.not_lt.mpr hn),
            left_eq_none (remove_get_eq_none hn)]
    · have hremove :
          Table.remove ((node cidr child bits peer byte shift).abs.get bitAt) p x n = none := by
        rw [Table.remove, abs, Trie.get_eq_none_of_not_agree ht.ordered hx, ite_self]
      rw [left_eq_none hremove]
      have hvalid := removeByPeer_valid (p := p) ht
      obtain ⟨-, h⟩ | ⟨-, -, h⟩ | ⟨-, -, h⟩ := removeByPeer_cases p cidr child bits peer byte shift
      · rw [h] at hvalid ⊢
        exact Trie.get_eq_none_of_not_agree hvalid.ordered hx
      · rw [h]; exact get_removeByPeer_child ht true fun _ hagree => absurd hagree hx
      · rw [h]; exact get_removeByPeer_child ht false fun _ hagree => absurd hagree hx

theorem cutAt_le {ip : Bytes} {d : Nat} (ht : t.abs.Ordered bitAt (8 * size))
    (h : t.cutAt p ip = some d) : d ≤ 8 * size := by
  induction t with
  | nil => cases h
  | node cidr child bits peer byte shift ih =>
    unfold cutAt at h
    split at h
    · split at h
      · cases h; exact ht.1
      · exact ih _ (ht.2 _).2 h
    · cases h

theorem lookup_removeByPeer {e : Endian} {ip : Bytes} (ht : t.Valid size) (hip : ip.length = size) :
    (t.removeByPeer p).lookup e ip none =
      some (longest (Table.remove (t.abs.get bitAt) p) ip ((t.cutAt p ip).getD (8 * size))) := by
  rw [lookup_longest (removeByPeer_valid ht) hip]
  congr 1
  cases hcut : t.cutAt p ip with
  | none =>
    apply longest_congr
    intro n _
    rw [get_removeByPeer ht, Left, hcut, Option.all_none, if_pos rfl]
  | some d =>
    rw [Option.getD_some, longest_eq_of_le (cutAt_le ht.ordered hcut)]
    · apply longest_congr
      intro n hn
      rw [get_removeByPeer ht, Left, hcut, Option.all_some, if_pos (decide_eq_true hn)]
    · intro n hn _
      rw [get_removeByPeer ht, Left, hcut, Option.all_some, if_neg]
      simpa using hn

/-- The longest prefix of another peer is found exactly when what lies past the cut
makes no difference. -/
theorem lookup_removeByPeer_iff {e : Endian} {ip : Bytes} {table : Table Bytes P}
    (ht : t.Valid size) (hget : t.abs.get bitAt = table) (hip : ip.length = size) :
    (t.removeByPeer p).lookup e ip none = some (longest (table.remove p) ip (8 * size)) ↔
      ∀ d, t.cutAt p ip = some d →
        longest (table.remove p) ip (8 * size) = longest (table.remove p) ip d := by
  rw [lookup_removeByPeer ht hip, hget, Option.some.injEq]
  cases hcut : t.cutAt p ip with
  | none => simp
  | some d =>
    simp only [Option.getD_some, Option.some.injEq, forall_eq']
    exact eq_comm

end TrieEntry

section
variable {P : Type} [DecidableEq P]

/-- After `RemoveByPeer(p)` an address has the route of the longest prefix of another
peer exactly when no branch with a longer one is dropped on its way, or the prefixes
that are left give the same peer. -/
theorem lookup_after_removal_iff (e : Endian) (calls : List (InsertCall P)) (p : P) :
    ∃ table : AllowedIPs P, AllowedIPs.Reset.insertAll e calls = some table ∧
      (∀ address, address.length = IPv4len →
        ((table.RemoveByPeer p).LookupIPv4 e address =
            some (longest ((routes IPv4len calls).remove p) address 32) ↔
          ∀ d, table.IPv4.cutAt p address = some d →
            longest ((routes IPv4len calls).remove p) address 32 =
              longest ((routes IPv4len calls).remove p) address d)) ∧
      (∀ address, address.length = IPv6len →
        ((table.RemoveByPeer p).LookupIPv6 e address =
            some (longest ((routes IPv6len calls).remove p) address 128) ↔
          ∀ d, table.IPv6.cutAt p address = some d →
            longest ((routes IPv6len calls).remove p) address 128 =
              longest ((routes IPv6len calls).remove p) address d)) := by
  obtain ⟨table, h, href⟩ := insertAll_refines (e := e) Reset_refines calls
  refine ⟨table, h, fun address ha => ?_, fun address ha => ?_⟩
  · exact TrieEntry.lookup_removeByPeer_iff href.valid4 href.get4 ha
  · exact TrieEntry.lookup_removeByPeer_iff href.valid6 href.get6 ha

end

/-- A network of the removed peer, split in two by the others. -/
def splitNetwork : List (InsertCall Nat) :=
  [⟨[10, 0, 0, 0], 8, 1, by decide, by decide⟩, ⟨[10, 0, 0, 0], 9, 2, by decide, by decide⟩,
    ⟨[10, 128, 0, 0], 9, 3, by decide, by decide⟩]

/-- The first half keeps its route. -/
theorem splitNetwork_first_half : ∃ table : AllowedIPs Nat,
    AllowedIPs.Reset.insertAll .little splitNetwork = some table ∧
      (table.RemoveByPeer 1).LookupIPv4 .little [10, 0, 0, 1] = some (some 2) := by
  obtain ⟨table, h, h4, -⟩ := lookup_after_removal_iff .little splitNetwork 1
  refine ⟨table, h, ?_⟩
  have hcut : ∀ d, table.IPv4.cutAt 1 [10, 0, 0, 1] = some d →
      longest ((routes IPv4len splitNetwork).remove 1) [10, 0, 0, 1] 32 =
        longest ((routes IPv4len splitNetwork).remove 1) [10, 0, 0, 1] d := by
    obtain rfl := Option.some.inj (h.symm.trans rfl)
    intro d hd
    cases hd
  rw [(h4 [10, 0, 0, 1] rfl).mpr hcut]
  decide +kernel

/-- The second half has lost it, though nobody removed peer 3. -/
theorem splitNetwork_second_half_lost : ∃ table : AllowedIPs Nat,
    AllowedIPs.Reset.insertAll .little splitNetwork = some table ∧
      (table.RemoveByPeer 1).LookupIPv4 .little [10, 128, 0, 1] = some none ∧
      longest ((routes IPv4len splitNetwork).remove 1) [10, 128, 0, 1] 32 = some 3 :=
  ⟨_, rfl, by decide +kernel, by decide +kernel⟩

end Sewg.Go
