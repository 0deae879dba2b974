import Mathlib.Logic.Function.Basic
import Sewg.Lib.Routes

/-! Compressed binary tries over bit strings. A node stands for the prefix of its
key's first `len` bits, the bits after them are not looked at; it has a value when
the prefix is in the table, and none when it only joins two branches. A trie in
order refines a routing table: looking up is the longest match in it, inserting and
removing are the table's. -/

namespace Routes

inductive Trie (A P : Type) where
  | nil
  | node (key : A) (len : Nat) (val : Option P) (child : Bool → Trie A P)

namespace Trie

variable {A P : Type} (bit : A → Nat → Bool) (w : Nat)

/-- The value the trie has for the prefix `x / n`. -/
def get : Trie A P → Table A P
  | nil, _, _ => none
  | node key len val child, x, n =>
    if n ≤ len then if n = len ∧ Agree bit n key x then val else none
    else (child (bit x len)).get x n

/-- The walk towards `a`, with the last value passed on the way. -/
def lookup (a : A) : Trie A P → Option P → Option P
  | nil, found => found
  | node key len val child, found =>
    if len ≤ common bit key a w then
      if len = w then val.or found else (child (bit a len)).lookup a (val.or found)
    else found

def leaf (x : A) (n : Nat) (p : P) : Trie A P := node x n (some p) fun _ => nil

/-- Goes down as long as the nodes are prefixes of `x / n`; where one is not, the new
entry goes above it, or beside it under a joint that has no value. -/
def insert (x : A) (n : Nat) (p : P) : Trie A P → Trie A P
  | nil => leaf x n p
  | node key len val child =>
    if len ≤ n ∧ len ≤ common bit key x w then
      if len = n then node key len (some p) child
      else node key len val (Function.update child (bit x len) ((child (bit x len)).insert x n p))
    else
      let m := min n (common bit key x w)
      if n = m then
        node x n (some p) (Function.update (fun _ => nil) (bit key n) (node key len val child))
      else
        node x m none (Function.update (fun _ => leaf x n p) (!bit x m) (node key len val child))

/-- Empties the nodes of `p` and gives those with one branch, or none, the place to it. -/
def remove [DecidableEq P] (p : P) : Trie A P → Trie A P
  | nil => nil
  | node key len val child =>
    if val = some p then
      match (child false).remove p, (child true).remove p with
      | nil, t => t
      | t, nil => t
      | _, _ => node key len none fun i => (child i).remove p
    else node key len val fun i => (child i).remove p

/-- The keys of `p`, each node before its branches and the branch `first` before the
other. -/
def entries [DecidableEq P] (first : Bool) (p : P) : Trie A P → List (A × Nat)
  | nil => []
  | node key len val child =>
    (if val = some p then [(key, len)] else []) ++
      ((child first).entries first p ++ (child (!first)).entries first p)

/-- The root of `t` lies on side `i` of the prefix `b / c`. -/
def Below (b : A) (c : Nat) (i : Bool) : Trie A P → Prop
  | nil => True
  | node key len _ _ => c < len ∧ Agree bit c b key ∧ bit key c = i

/-- Each child lies on its side of its parent, and no prefix is longer than an address. -/
def Ordered : Trie A P → Prop
  | nil => True
  | node key len _ child =>
    len ≤ w ∧ ∀ i, (child i).Below bit key len i ∧ (child i).Ordered

section
variable {bit} {w} {t : Trie A P} {b x a key : A} {c n len : Nat} {i : Bool} {p : P}
  {val : Option P} {child : Bool → Trie A P}

theorem Below.trans (hlen : c < len) (hkey : Agree bit c b key) (hbit : bit key c = i) {j : Bool}
    (h : t.Below bit key len j) : t.Below bit b c i := by
  cases t with
  | nil => trivial
  | node key' len' val child =>
    obtain ⟨hl, hk, -⟩ := h
    refine ⟨Nat.lt_trans hlen hl, hkey.trans (hk.mono (Nat.le_of_lt hlen)), ?_⟩
    rw [← hk c hlen]
    exact hbit

theorem get_eq_none (ho : t.Ordered bit w) (hb : t.Below bit b c i)
    (h : c < n → Agree bit c b x → bit x c ≠ i) : t.get bit x n = none := by
  induction t generalizing b c i with
  | nil => rfl
  | node key len val child ih =>
    obtain ⟨hl, hk, hi⟩ := hb
    unfold get
    split
    · split
      · rename_i _ hx
        obtain ⟨rfl, hx⟩ := hx
        exact absurd ((hx c hl).symm.trans hi) (h hl (hk.trans (hx.mono (Nat.le_of_lt hl))))
      · rfl
    · exact ih _ (ho.2 _).2 (Below.trans hl hk hi (ho.2 _).1) h

theorem get_child (hn : len < n) :
    (node key len val child).get bit x n = (child (bit x len)).get bit x n := by
  rw [get, if_neg (Nat.not_le.mpr hn)]

theorem get_self :
    (node key len val child).get bit x len = if Agree bit len key x then val else none := by
  rw [get, if_pos (Nat.le_refl len)]
  simp only [true_and]

theorem get_short (hn : n < len) : (node key len val child).get bit x n = none := by
  rw [get, if_pos (Nat.le_of_lt hn), if_neg fun h => Nat.ne_of_lt hn h.1]

/-- Only prefixes of the node's key are found under it. -/
theorem get_eq_none_of_not_agree (ho : (node key len val child).Ordered bit w)
    (hx : ¬ Agree bit len key x) : (node key len val child).get bit x n = none := by
  rcases Nat.lt_trichotomy n len with hn | rfl | hn
  · exact get_short hn
  · rw [get_self, if_neg hx]
  · rw [get_child hn]
    exact get_eq_none (ho.2 _).2 (ho.2 _).1 fun _ h => absurd h hx

theorem get_child_eq_none (ho : (node key len val child).Ordered bit w) (i : Bool) (hn : n ≤ len) :
    (child i).get bit x n = none :=
  get_eq_none (ho.2 i).2 (ho.2 i).1 fun h => absurd h (Nat.not_lt.mpr hn)

theorem lookup_eq_longest (ho : t.Ordered bit w) (found : Option P) :
    t.lookup bit w a found = (longest (t.get bit) a w).or found := by
  induction t generalizing found with
  | nil => rw [lookup, longest_eq_none fun _ _ => rfl, Option.none_or]
  | node key len val child ih =>
    by_cases hx : Agree bit len key a
    · rw [lookup, if_pos ((le_common_iff ho.1).mpr hx)]
      have hlong : longest ((node key len val child).get bit) a w =
          (longest ((child (bit a len)).get bit) a w).or val :=
        longest_or ho.1 (fun m hm => get_short hm) (by rw [get_self, if_pos hx])
          (fun m hm _ => get_child hm) (fun m hm => get_child_eq_none ho _ hm)
      rw [hlong]
      split
      · rename_i hw
        -- below a full-width node there is nothing
        rw [longest_eq_none fun m hm => get_child_eq_none ho _ (hw ▸ hm), Option.none_or]
      · rw [ih _ (ho.2 _).2, Option.or_assoc]
    · rw [lookup, if_neg fun h => hx ((le_common_iff ho.1).mp h),
        longest_eq_none fun m _ => get_eq_none_of_not_agree ho hx, Option.none_or]

theorem ordered_leaf (hn : n ≤ w) : (leaf x n p).Ordered bit w := ⟨hn, fun _ => ⟨trivial, trivial⟩⟩

/-- The four things inserting does at a node: overwrite it, go on below it, put the
new entry above it, or join the two where they part. -/
theorem insert_cases (bit : A → Nat → Bool) (key x : A) (val : Option P) (child : Bool → Trie A P)
    (p : P) (hn : n ≤ w) (hlen : len ≤ w) :
    (len = n ∧ Agree bit n key x ∧
      (node key len val child).insert bit w x n p = node key len (some p) child) ∨
    (len < n ∧ Agree bit len key x ∧
      (node key len val child).insert bit w x n p = node key len val
        (Function.update child (bit x len) ((child (bit x len)).insert bit w x n p))) ∨
    (n < len ∧ Agree bit n x key ∧
      (node key len val child).insert bit w x n p = node x n (some p)
        (Function.update (fun _ => nil) (bit key n) (node key len val child))) ∨
    (∃ m, m < n ∧ m < len ∧ Agree bit m x key ∧ bit x m = !bit key m ∧
      (node key len val child).insert bit w x n p =
        node x m none (Function.update (fun _ => leaf x n p) (bit key m)
          (node key len val child))) := by
  have hcommon := (le_common_iff (common_le bit key x w)).mp (Nat.le_refl (common bit key x w))
  by_cases hdown : len ≤ n ∧ len ≤ common bit key x w
  · have hkey := (le_common_iff hlen).mp hdown.2
    by_cases heq : len = n
    · exact .inl ⟨heq, heq ▸ hkey, by rw [insert, if_pos hdown, if_pos heq]⟩
    · exact .inr (.inl ⟨by omega, hkey, by rw [insert, if_pos hdown, if_neg heq]⟩)
  · by_cases hc : n ≤ common bit key x w
    · refine .inr (.inr (.inl ⟨by omega, (hcommon.mono hc).symm, ?_⟩))
      rw [insert, if_neg hdown, Nat.min_eq_left hc, if_pos rfl]
    · have hlt : common bit key x w < n := Nat.not_le.mp hc
      have hbit : bit key (common bit key x w) = !bit x (common bit key x w) :=
        Bool.eq_not_of_ne (bit_common_ne (Nat.lt_of_lt_of_le hlt hn))
      refine .inr (.inr (.inr ⟨_, hlt, by omega, hcommon.symm, by rw [hbit, Bool.not_not], ?_⟩))
      rw [insert, if_neg hdown, Nat.min_eq_right (Nat.le_of_lt hlt),
        if_neg (Nat.ne_of_gt hlt), hbit]

theorem insert_below (hn : n ≤ w) (ho : t.Ordered bit w) (hb : t.Below bit b c i) (hc : c < n)
    (hx : Agree bit c b x) (hi : bit x c = i) : (t.insert bit w x n p).Below bit b c i := by
  cases t with
  | nil => exact ⟨hc, hx, hi⟩
  | node key len val child =>
    obtain ⟨hl, hk, hki⟩ := hb
    obtain ⟨rfl, -, h⟩ | ⟨-, -, h⟩ | ⟨-, -, h⟩ | ⟨m, hm, hml, -, hbit, h⟩ :=
      insert_cases bit key x val child p hn ho.1
    · rw [h]; exact ⟨hc, hk, hki⟩
    · rw [h]; exact ⟨hl, hk, hki⟩
    · rw [h]; exact ⟨hc, hx, hi⟩
    · rw [h]
      -- both keys share the bits up to `c`, so they part after it
      have hcm : c < m := by
        by_contra hmc
        rcases Nat.lt_or_eq_of_le (Nat.not_lt.mp hmc) with hmc | rfl
        · have heq : bit key m = bit x m := (hk m hmc).symm.trans (hx m hmc)
          exact (Bool.eq_not_self _).mp (heq ▸ hbit)
        · rw [hki, hi] at hbit
          exact (Bool.eq_not_self _).mp hbit
      exact ⟨hcm, hx, hi⟩

theorem insert_ordered (hn : n ≤ w) (ho : t.Ordered bit w) :
    (t.insert bit w x n p).Ordered bit w := by
  induction t with
  | nil => exact ordered_leaf hn
  | node key len val child ih =>
    obtain ⟨rfl, -, h⟩ | ⟨hlt, hkey, h⟩ | ⟨hlt, hkey, h⟩ | ⟨m, hm, hml, hkey, hbit, h⟩ :=
      insert_cases bit key x val child p hn ho.1
    · rw [h]; exact ho
    · rw [h]
      refine ⟨ho.1, fun i => ?_⟩
      by_cases hi : i = bit x len
      · rw [hi, Function.update_self]
        exact ⟨insert_below hn (ho.2 _).2 (ho.2 _).1 hlt hkey rfl, ih _ (ho.2 _).2⟩
      · rw [Function.update_of_ne hi]
        exact ho.2 i
    · rw [h]
      refine ⟨hn, fun i => ?_⟩
      by_cases hi : i = bit key n
      · rw [hi, Function.update_self]
        exact ⟨⟨hlt, hkey, rfl⟩, ho⟩
      · rw [Function.update_of_ne hi]
        exact ⟨trivial, trivial⟩
    · rw [h]
      refine ⟨by omega, fun i => ?_⟩
      by_cases hi : i = bit key m
      · rw [hi, Function.update_self]
        exact ⟨⟨hml, hkey, rfl⟩, ho⟩
      · rw [Function.update_of_ne hi]
        have hside : bit x m = i := by rw [hbit, Bool.eq_not_of_ne hi]
        exact ⟨⟨hm, fun _ _ => rfl, hside⟩, ordered_leaf hn⟩

theorem get_leaf (y : A) (m : Nat) :
    (leaf x n p).get bit y m = if m = n ∧ Agree bit n x y then some p else none := by
  rcases Nat.lt_trichotomy m n with hm | rfl | hm
  · rw [leaf, get_short hm, if_neg fun h => Nat.ne_of_lt hm h.1]
  · simp only [leaf, get_self, true_and]
  · rw [leaf, get_child hm, if_neg fun h => Nat.ne_of_gt hm h.1]
    rfl

theorem get_insert (hn : n ≤ w) (ho : t.Ordered bit w) :
    (t.insert bit w x n p).get bit = (t.get bit).insert bit x n p := by
  funext y m
  induction t with
  | nil => exact get_leaf y m
  | node key len val child ih =>
    unfold Table.insert
    obtain ⟨rfl, hkey, h⟩ | ⟨hlt, hkey, h⟩ | ⟨hlt, hkey, h⟩ | ⟨c, hc, hcl, hkey, hbit, h⟩ :=
      insert_cases bit key x val child p hn ho.1
    · rw [h]
      rcases Nat.lt_trichotomy m len with hm | rfl | hm
      · rw [get_short hm, get_short hm, if_neg fun h => Nat.ne_of_lt hm h.1]
      · have hiff : Agree bit m key y ↔ Agree bit m x y := ⟨hkey.symm.trans, hkey.trans⟩
        simp only [get_self, hiff, true_and]
        split <;> rfl
      · rw [get_child hm, get_child hm, if_neg fun h => Nat.ne_of_gt hm h.1]
    · rw [h]
      rcases Nat.lt_trichotomy m len with hm | rfl | hm
      · rw [get_short hm, get_short hm, if_neg fun h => by omega]
      · have hne : ¬ (m = n ∧ Agree bit n x y) := fun h => Nat.ne_of_lt hlt h.1
        rw [get_self, get_self, if_neg hne]
      · rw [get_child hm, get_child hm]
        by_cases hy : bit y len = bit x len
        · rw [hy, Function.update_self]
          exact ih _ (ho.2 _).2
        · rw [Function.update_of_ne hy, if_neg fun h => hy (h.2 len hlt).symm]
    · rw [h]
      rcases Nat.lt_trichotomy m n with hm | rfl | hm
      · rw [get_short hm, get_short (by omega), if_neg fun h => Nat.ne_of_lt hm h.1]
      · rw [get_self, get_short hlt]
        simp only [true_and]
      · rw [get_child hm, if_neg fun h => Nat.ne_of_gt hm h.1]
        by_cases hy : bit y n = bit key n
        · rw [hy, Function.update_self]
        · -- the old node is on the other side of the new one
          rw [Function.update_of_ne hy]
          refine (get_eq_none_of_not_agree ho fun hk => hy ?_).symm
          exact (hk n hlt).symm
    · rw [h]
      rcases Nat.lt_or_ge c m with hm | hm
      · rw [get_child hm]
        by_cases hy : bit y c = bit key c
        · rw [hy, Function.update_self, if_neg]
          rintro ⟨rfl, hxy⟩
          rw [← hxy c hc, hbit] at hy
          exact (Bool.eq_not_self _).mp hy.symm
        · rw [Function.update_of_ne hy, get_leaf]
          have hnone : (node key len val child).get bit y m = none :=
            get_eq_none_of_not_agree ho fun hk => hy (hk c hcl).symm
          rw [hnone]
      · have hne : ¬ (m = n ∧ Agree bit n x y) := fun h => by omega
        rw [if_neg hne, get_short (Nat.lt_of_le_of_lt hm hcl)]
        rcases Nat.lt_or_eq_of_le hm with hm | rfl
        · exact get_short hm
        · rw [get_self, ite_self]

theorem get_congr {y : A} (h : Agree bit n x y) : t.get bit x n = t.get bit y n := by
  induction t with
  | nil => rfl
  | node key len val child ih =>
    rcases Nat.lt_or_ge len n with hn | hn
    · rw [get_child hn, get_child hn, h len hn]
      exact ih _
    · have hiff : Agree bit n key x ↔ Agree bit n key y :=
        ⟨fun hx => hx.trans h, fun hy => hy.trans h.symm⟩
      simp only [get, if_pos hn, hiff]

theorem below_of_get (ho : t.Ordered bit w) (hb : t.Below bit b c i) (h : t.get bit x n = some p) :
    c < n ∧ Agree bit c b x ∧ bit x c = i := by
  by_contra hnot
  have hnone : t.get bit x n = none :=
    get_eq_none ho hb fun hlt hagree hbit => hnot ⟨hlt, hagree, hbit⟩
  rw [hnone] at h
  cases h

/-! ### Listing -/

section
variable [DecidableEq P] {first : Bool}

theorem mem_entries_node {e : A × Nat} : e ∈ (node key len val child).entries first p ↔
    (val = some p ∧ e = (key, len)) ∨ ∃ i, e ∈ (child i).entries first p := by
  have hbranch : e ∈ (child first).entries first p ∨ e ∈ (child (!first)).entries first p ↔
      ∃ i, e ∈ (child i).entries first p := by
    cases first <;> simp [Bool.exists_bool, or_comm]
  rw [entries, List.mem_append, List.mem_append, hbranch]
  apply or_congr_left
  split <;> simp_all

theorem get_of_mem_entries (ho : t.Ordered bit w) (h : (x, n) ∈ t.entries first p) :
    t.get bit x n = some p := by
  induction t with
  | nil => cases h
  | node key len val child ih =>
    rcases mem_entries_node.mp h with ⟨hval, he⟩ | ⟨i, hi⟩
    · cases he
      have hself : Agree bit n x x := fun _ _ => rfl
      rw [get_self, if_pos hself, hval]
    · have hget := ih i (ho.2 i).2 hi
      obtain ⟨hlt, -, hbit⟩ := below_of_get (ho.2 i).2 (ho.2 i).1 hget
      rw [get_child hlt, hbit, hget]

theorem exists_mem_entries (first : Bool) (h : t.get bit x n = some p) :
    ∃ y, (y, n) ∈ t.entries first p ∧ Agree bit n y x := by
  induction t with
  | nil => cases h
  | node key len val child ih =>
    rcases Nat.lt_trichotomy n len with hn | rfl | hn
    · rw [get_short hn] at h
      cases h
    · rw [get_self] at h
      split at h
      · rename_i hkey
        exact ⟨key, mem_entries_node.mpr (.inl ⟨h, rfl⟩), hkey⟩
      · cases h
    · rw [get_child hn] at h
      obtain ⟨y, hy, hagree⟩ := ih _ h
      exact ⟨y, mem_entries_node.mpr (.inr ⟨_, hy⟩), hagree⟩

theorem len_of_mem_entries (ho : t.Ordered bit w) {e : A × Nat} (h : e ∈ t.entries first p) :
    e.2 ≤ w := by
  induction t with
  | nil => cases h
  | node key len val child ih =>
    rcases mem_entries_node.mp h with ⟨-, rfl⟩ | ⟨i, hi⟩
    · exact ho.1
    · exact ih i (ho.2 i).2 hi

/-- No prefix is listed twice. -/
theorem pairwise_entries (ho : t.Ordered bit w) : (t.entries first p).Pairwise fun e f =>
    ¬(e.2 = f.2 ∧ Agree bit e.2 e.1 f.1) := by
  induction t with
  | nil => exact List.Pairwise.nil
  | node key len val child ih =>
    have hside (i : Bool) : ∀ e ∈ (child i).entries first p, len < e.2 ∧ bit e.1 len = i := by
      intro e he
      obtain ⟨hlt, -, hbit⟩ := below_of_get (ho.2 i).2 (ho.2 i).1 (get_of_mem_entries (ho.2 i).2 he)
      exact ⟨hlt, hbit⟩
    rw [entries, List.pairwise_append, List.pairwise_append]
    refine ⟨?_, ⟨ih _ (ho.2 _).2, ih _ (ho.2 _).2, ?_⟩, ?_⟩
    · split
      · exact List.pairwise_singleton _ _
      · exact List.Pairwise.nil
    · rintro e he f hf ⟨heq, hagree⟩
      obtain ⟨hlt, hbit⟩ := hside _ e he
      have hother := (hside _ f hf).2
      rw [← hagree len hlt, hbit] at hother
      exact (Bool.eq_not_self _).mp hother
    · rintro e he f hf ⟨heq, -⟩
      have hself : e = (key, len) := by
        split at he
        · exact List.mem_singleton.mp he
        · cases he
      have hlt : len < f.2 := by
        rcases List.mem_append.mp hf with hf | hf
        · exact (hside _ f hf).1
        · exact (hside _ f hf).1
      rw [hself] at heq
      exact Nat.ne_of_lt hlt heq

end

section
variable [DecidableEq P]

/-- Removing keeps the node, without its value if that was `p`'s, or one of its
branches takes its place. -/
theorem remove_cases (key : A) (len : Nat) (val : Option P) (child : Bool → Trie A P) (p : P) :
    (∃ v, v = (if val = some p then none else val) ∧
      (node key len val child).remove p = node key len v fun i => (child i).remove p) ∨
    (∃ i, val = some p ∧ (child (!i)).remove p = nil ∧
      (node key len val child).remove p = (child i).remove p) := by
  by_cases hp : val = some p
  · cases hf : (child false).remove p with
    | nil => exact .inr ⟨true, hp, hf, by rw [remove, if_pos hp, hf]⟩
    | node =>
      cases ht : (child true).remove p with
      | nil => exact .inr ⟨false, hp, ht, by rw [remove, if_pos hp, hf, ht]⟩
      | node => exact .inl ⟨none, (if_pos hp).symm, by rw [remove, if_pos hp, hf, ht]⟩
  · exact .inl ⟨val, (if_neg hp).symm, by rw [remove, if_neg hp]⟩

theorem remove_below (ho : t.Ordered bit w) (h : t.Below bit b c i) :
    (t.remove p).Below bit b c i := by
  induction t generalizing b c i with
  | nil => trivial
  | node key len val child ih =>
    obtain ⟨hlen, hkey, hbit⟩ := h
    obtain ⟨v, -, h⟩ | ⟨j, -, -, h⟩ := remove_cases key len val child p
    · rw [h]; exact ⟨hlen, hkey, hbit⟩
    · rw [h]; exact ih j (ho.2 j).2 (Below.trans hlen hkey hbit (ho.2 j).1)

theorem remove_ordered (ho : t.Ordered bit w) : (t.remove p).Ordered bit w := by
  induction t with
  | nil => trivial
  | node key len val child ih =>
    obtain ⟨v, -, h⟩ | ⟨j, -, -, h⟩ := remove_cases key len val child p
    · rw [h]
      exact ⟨ho.1, fun i => ⟨remove_below (ho.2 i).2 (ho.2 i).1, ih i (ho.2 i).2⟩⟩
    · rw [h]; exact ih j (ho.2 j).2

theorem get_remove (ho : t.Ordered bit w) : (t.remove p).get bit = (t.get bit).remove p := by
  funext x n
  induction t with
  | nil => rfl
  | node key len val child ih =>
    unfold Table.remove
    obtain ⟨v, hv, h⟩ | ⟨j, rfl, hnil, h⟩ := remove_cases key len val child p
    · rw [h]
      rcases Nat.lt_trichotomy n len with hn | rfl | hn
      · rw [get_short hn, get_short hn, ite_self]
      · rw [get_self, get_self, hv]
        by_cases hx : Agree bit n key x
        · rw [if_pos hx, if_pos hx]
        · rw [if_neg hx, if_neg hx, ite_self]
      · rw [get_child hn, get_child hn]
        exact ih _ (ho.2 _).2
    · rw [h]
      have hbelow := remove_below (p := p) (ho.2 j).2 (ho.2 j).1
      rcases Nat.lt_or_ge len n with hn | hn
      · rw [get_child hn]
        by_cases hj : bit x len = j
        · rw [hj]
          exact ih j (ho.2 j).2
        · -- the branch that `x` goes to has lost all it had
          have hother := ih (!j) (ho.2 _).2
          rw [hnil] at hother
          rw [get_eq_none (remove_ordered (ho.2 j).2) hbelow fun _ _ => hj, Bool.eq_not_of_ne hj]
          exact hother
      · rw [get_eq_none (remove_ordered (ho.2 j).2) hbelow fun hlt =>
          absurd hlt (Nat.not_lt.mpr hn)]
        rcases Nat.lt_or_eq_of_le hn with hn | rfl
        · rw [get_short hn, ite_self]
        · rw [get_self]
          by_cases hx : Agree bit n key x
          · rw [if_pos hx, if_pos rfl]
          · rw [if_neg hx, ite_self]

end

end

end Trie

end Routes
