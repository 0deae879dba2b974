import Sewg.Lib.Hlist
import Sewg.Lib.Threads

/-! The table of receiver indices in `hashtables.c`, down to the links of its lists. Threads take
their steps in any order. A section under the spinlock is one step, and so is the test for an
unhashed entry outside of it. What a search outside of the lock sees is left open. -/

namespace Sewg.Kernel.IndexTable

/-- `index_bucket` -/
def bucketOf (index : UInt32) : UInt32 := index &&& 0x1fff

/-- Where `wg_index_hashtable_insert` is. -/
inductive Stage
  /-- At `search_unused_slot`. -/
  | search
  /-- `entry->index` has been drawn. -/
  | drawn
  /-- The search outside of the lock has found no other entry with that index. -/
  | unused
  /-- The entry was hashed, under this index. -/
  | hashed (index : UInt32)
  deriving DecidableEq

inductive Call
  | idle
  | insert (entry : Nat) (stage : Stage)
  /-- `wg_index_hashtable_replace` has seen that the old entry is hashed. -/
  | replace (old new : Nat)
  deriving DecidableEq

inductive Event
  | remove (entry : Nat)
  | insert (entry : Nat)
  | draw (index : UInt32)
  | search (used : Bool)
  /-- The locked section of an insertion, with the entries that its loop goes through. -/
  | lock (visited : List Nat)
  | finish
  | replace (old new : Nat)
  | swap

/-- Entries are the numbers of their objects. -/
structure Table where
  links : Hlist.Links Nat UInt32
  index : Nat → UInt32
  /-- Something was written through a null pointer, with the lock held. -/
  oops : Bool := false
  /-- The insertions that have returned: the entry, its index when it was hashed, and the returned
  one. -/
  inserted : List (Nat × UInt32 × UInt32) := []
  /-- The replacements that have returned, with their results. -/
  replaced : List (Nat × Nat × Bool) := []

/-- `wg_index_hashtable_remove`, and the first section of `wg_index_hashtable_insert`. -/
def Table.remove (g : Table) (entry : Nat) : Table := { g with links := g.links.delInit entry }

def Table.lockedInsert (g : Table) (entry : Nat) (visited : List Nat) : Option (Call × Table) :=
  let index := g.index entry
  if ¬ g.links.walks (g.links.first (bucketOf index)) visited then none
  else if visited.any (g.index · = index) then some (.insert entry .search, g)
  else some (.insert entry (.hashed index),
    { g with links := g.links.addHead entry (bucketOf index) })

def Table.lockedReplace (g : Table) (old new : Nat) : Call × Table :=
  let g := { g with index := Function.update g.index new (g.index old) }
  match g.links.replaceInit old new with
  | none => (.replace old new, { g with oops := true })
  | some links => (.idle, { g with links, replaced := (old, new, true) :: g.replaced })

def act (call : Call) (g : Table) (event : Event) : Option (Call × Table) :=
  if g.oops then none
  else match call, event with
  | .idle, .remove entry => some (.idle, g.remove entry)
  | .idle, .insert entry => some (.insert entry .search, g.remove entry)
  | .insert entry .search, .draw index =>
    some (.insert entry .drawn, { g with index := Function.update g.index entry index })
  | .insert entry .drawn, .search used =>
    some (.insert entry (if used then .search else .unused), g)
  | .insert entry .unused, .lock visited => g.lockedInsert entry visited
  | .insert entry (.hashed index), .finish =>
    some (.idle, { g with inserted := (entry, index, g.index entry) :: g.inserted })
  | .idle, .replace old new =>
    if g.links.unhashed old
      then some (.idle, { g with replaced := (old, new, false) :: g.replaced })
    else some (.replace old new, g)
  | .replace old new, .swap => some (g.lockedReplace old new)
  | _, _ => none

abbrev State := Threads.State Table Call

/-- As `wg_index_hashtable_init` leaves the table, with no calls in progress and no entry hashed. -/
def start : State :=
  ⟨{ links := ⟨fun _ => none, fun _ => none, fun _ => none⟩, index := fun _ => 0 }, fun _ => .idle⟩

/-- The entries that a call in progress works on. -/
def Call.entries : Call → List Nat
  | .idle => []
  | .insert entry _ => [entry]
  | .replace old new => [old, new]

/-- No call in progress works on the entry. -/
def Unused (s : State) (entry : Nat) : Prop := ∀ i, entry ∉ (s.threads i).entries

/-- Calls in progress work on distinct entries, and the entry that replaces another one is not
hashed. Any entry may be removed at any time. -/
def Scope (s : State) (event : Nat × Event) : Prop :=
  match event.2 with
  | .insert entry => Unused s entry
  | .replace old new => old ≠ new ∧ s.shared.links.unhashed new ∧ Unused s old ∧ Unused s new
  | _ => True

/-- No entry is removed between the test and the locked section of its replacement. -/
def KeepsOld (s : State) (event : Nat × Event) : Prop :=
  ∀ entry, event.2 = .remove entry → ∀ i new, s.threads i ≠ .replace entry new

/-! ### What is kept -/

def Hashed (g : Table) (entry : Nat) : Prop := g.links.pprev entry ≠ none

/-- The lists of a table, with every entry in the list of its index and no index twice. -/
structure Layout (g : Table) (lists : UInt32 → List Nat) : Prop where
  rep : Hlist.Rep g.links lists
  placed : ∀ b, ∀ entry ∈ lists b, bucketOf (g.index entry) = b
  unique : ∀ a b, ∀ entry ∈ lists a, ∀ other ∈ lists b,
    g.index entry = g.index other → entry = other

namespace Layout
variable {g : Table} {lists : UInt32 → List Nat}

theorem hashed_iff (h : Layout g lists) {entry : Nat} : Hashed g entry ↔ ∃ b, entry ∈ lists b := by
  rw [Hashed, ne_eq, h.rep.unhashed_iff]
  simp

theorem of_eq {g' : Table} (h : Layout g lists) (hlinks : g'.links = g.links)
    (hindex : ∀ entry, Hashed g entry → g'.index entry = g.index entry) : Layout g' lists where
  rep := hlinks ▸ h.rep
  placed b entry he := by
    rw [hindex entry (h.hashed_iff.mpr ⟨b, he⟩)]
    exact h.placed b entry he
  unique a b entry he other ho heq := by
    rw [hindex entry (h.hashed_iff.mpr ⟨a, he⟩), hindex other (h.hashed_iff.mpr ⟨b, ho⟩)] at heq
    exact h.unique a b entry he other ho heq

theorem remove (h : Layout g lists) (entry : Nat) :
    Layout (g.remove entry) (fun b => (lists b).filter (· ≠ entry)) ∧
      ∀ x, Hashed (g.remove entry) x ↔ Hashed g x ∧ x ≠ entry := by
  have hlayout : Layout (g.remove entry) fun b => (lists b).filter (· ≠ entry) :=
    { rep := h.rep.delInit entry
      placed := fun b x hx => h.placed b x (List.mem_filter.mp hx).1
      unique := fun a b x hx y hy => h.unique a b x (List.mem_filter.mp hx).1 y
        (List.mem_filter.mp hy).1 }
  refine ⟨hlayout, fun x => ?_⟩
  rw [hlayout.hashed_iff, h.hashed_iff]
  simp

theorem insert (h : Layout g lists) {entry : Nat} (hentry : ¬ Hashed g entry)
    (hfree : ∀ other ∈ lists (bucketOf (g.index entry)), g.index other ≠ g.index entry) :
    let g' : Table := { g with links := g.links.addHead entry (bucketOf (g.index entry)) }
    Layout g' (Function.update lists (bucketOf (g.index entry))
      (entry :: lists (bucketOf (g.index entry)))) ∧ ∀ x, Hashed g' x ↔ Hashed g x ∨ x = entry := by
  intro g'
  let index := g.index entry
  have hmem (b : UInt32) (x : Nat) :
      x ∈ Function.update lists (bucketOf index) (entry :: lists (bucketOf index)) b ↔
      x ∈ lists b ∨ x = entry ∧ b = bucketOf index := by
    by_cases hb : b = bucketOf index
    · subst hb
      rw [Function.update_self, List.mem_cons]
      tauto
    · rw [Function.update_of_ne hb]
      tauto
  -- an entry with the same index would be in the same list
  have hother (b : UInt32) (x : Nat) (hx : x ∈ lists b) : g.index x ≠ index := by
    intro heq
    have hb := h.placed b x hx
    rw [heq] at hb
    exact hfree x (hb ▸ hx) heq
  have hlayout :
      Layout g' (Function.update lists (bucketOf index) (entry :: lists (bucketOf index))) :=
    { rep := h.rep.addHead (not_not.mp hentry) _
      placed := by
        intro b x hx
        rcases (hmem b x).mp hx with hx | ⟨rfl, rfl⟩
        · exact h.placed b x hx
        · rfl
      unique := by
        intro a b x hx y hy heq
        rcases (hmem a x).mp hx with hold | ⟨hnew, -⟩
        · rcases (hmem b y).mp hy with hold' | ⟨hnew', -⟩
          · exact h.unique a b x hold y hold' heq
          · rw [hnew'] at heq
            exact absurd heq (hother a x hold)
        · rcases (hmem b y).mp hy with hold' | ⟨hnew', -⟩
          · rw [hnew] at heq
            exact absurd heq.symm (hother b y hold')
          · rw [hnew, hnew'] }
  refine ⟨hlayout, fun x => ?_⟩
  rw [hlayout.hashed_iff, h.hashed_iff]
  simp only [hmem, exists_or]
  simp

theorem replace (h : Layout g lists) {old new : Nat} (hold : Hashed g old) (hnew : ¬ Hashed g new) :
    ∃ g', g.lockedReplace old new = (.idle, g') ∧
      Layout g' (fun b => (lists b).map (Hlist.Rep.swap old new)) ∧
      (∀ x, Hashed g' x ↔ x = new ∨ Hashed g x ∧ x ≠ old) ∧
      g'.index = Function.update g.index new (g.index old) ∧ g'.oops = g.oops ∧
      g'.inserted = g.inserted ∧
      g'.replaced = (old, new, true) :: g.replaced := by
  obtain ⟨links, hlinks, hrep⟩ := h.rep.replaceInit hold (not_not.mp hnew)
  have hnot (b : UInt32) (x : Nat) (hx : x ∈ lists b) : x ≠ new := by
    rintro rfl
    exact hnew (h.hashed_iff.mpr ⟨b, hx⟩)
  let index := Function.update g.index new (g.index old)
  let g' : Table := { g with links, index, replaced := (old, new, true) :: g.replaced }
  -- an entry and the one that it was before
  have hbefore {b : UInt32} {x : Nat} (hx : x ∈ (lists b).map (Hlist.Rep.swap old new)) :
      ∃ y ∈ lists b, Hlist.Rep.swap old new y = x ∧ index x = g.index y := by
    obtain ⟨y, hy, rfl⟩ := List.mem_map.mp hx
    refine ⟨y, hy, rfl, ?_⟩
    unfold Hlist.Rep.swap
    split
    · rename_i heq
      rw [heq]
      exact Function.update_self ..
    · exact Function.update_of_ne (hnot b y hy) ..
  have hlayout : Layout g' fun b => (lists b).map (Hlist.Rep.swap old new) :=
    { rep := hrep
      placed := by
        intro b x hx
        obtain ⟨y, hy, -, hindex⟩ := hbefore hx
        change bucketOf (index x) = b
        rw [hindex]
        exact h.placed b y hy
      unique := by
        intro a b x hx y hy heq
        obtain ⟨x', hx', rfl, hindex⟩ := hbefore hx
        obtain ⟨y', hy', rfl, hindex'⟩ := hbefore hy
        have hsame : g.index x' = g.index y' := hindex.symm.trans (heq.trans hindex')
        rw [h.unique a b x' hx' y' hy' hsame] }
  refine ⟨g', ?_, hlayout, fun x => ?_, rfl, rfl, rfl, rfl⟩
  · simp only [Table.lockedReplace, hlinks]
    rfl
  · rw [hlayout.hashed_iff, h.hashed_iff]
    simp only [Hlist.Rep.mem_map_swap]
    obtain ⟨b, hb⟩ := h.hashed_iff.mp hold
    constructor
    · rintro ⟨b', ⟨rfl, -⟩ | ⟨hne, hx⟩⟩
      · exact .inl rfl
      · exact .inr ⟨⟨b', hx⟩, hne⟩
    · rintro (rfl | ⟨⟨b', hx⟩, hne⟩)
      · exact ⟨b, .inl ⟨rfl, hb⟩⟩
      · exact ⟨b', .inr ⟨hne, hx⟩⟩

end Layout

/-- What a call in progress can count on. -/
def Holds (g : Table) : Call → Prop
  | .idle => True
  | .insert entry (.hashed index) => g.index entry = index
  | .insert entry _ => ¬ Hashed g entry
  | .replace old new => Hashed g old ∧ ¬ Hashed g new

/-- A call does not notice that other entries are hashed, or given another index. -/
theorem Holds.frame {g g' : Table} {call : Call} (h : Holds g call)
    (hindex : ∀ x ∈ call.entries, g'.index x = g.index x)
    (hless : ∀ x ∈ call.entries, Hashed g' x → Hashed g x)
    (hold : ∀ old new, call = .replace old new → Hashed g old → Hashed g' old) : Holds g' call := by
  cases call with
  | idle => trivial
  | insert entry stage =>
    have hsame := hindex entry (List.mem_singleton_self entry)
    have hfewer := hless entry (List.mem_singleton_self entry)
    cases stage with
    | hashed index => exact hsame.trans h
    | search => exact fun hhashed => h (hfewer hhashed)
    | drawn => exact fun hhashed => h (hfewer hhashed)
    | unused => exact fun hhashed => h (hfewer hhashed)
  | replace old new =>
    exact ⟨hold old new rfl h.1, fun hhashed => h.2 (hless new (by simp [Call.entries]) hhashed)⟩

structure Invariant (s : State) : Prop where
  layout : ∃ lists, Layout s.shared lists
  oops : s.shared.oops = false
  holds : ∀ i, Holds s.shared (s.threads i)
  apart : ∀ i j, i ≠ j → ∀ x ∈ (s.threads i).entries, x ∉ (s.threads j).entries
  returned : ∀ entry index ret, (entry, index, ret) ∈ s.shared.inserted → ret = index

theorem start_invariant : Invariant start where
  layout := by
    refine ⟨fun _ => [], ⟨fun b => rfl, ⟨fun _ => .nil, fun _ _ _ => List.disjoint_nil_left _⟩,
      fun _ _ => rfl⟩, ?_, ?_⟩
    · exact fun _ _ h => nomatch h
    · exact fun _ _ _ h => nomatch h
  oops := rfl
  holds _ := trivial
  apart _ _ _ _ h := nomatch h
  returned _ _ _ h := nomatch h

/-- What one step of thread `i` has to leave for the invariant. -/
structure Kept (s : State) (i : Nat) (call : Call) (g : Table) : Prop where
  layout : ∃ lists, Layout g lists
  oops : g.oops = false
  own : Holds g call
  entries : ∀ x ∈ call.entries, ∀ j, j ≠ i → x ∉ (s.threads j).entries
  others : ∀ j, j ≠ i → Holds g (s.threads j)
  returned : ∀ entry index ret, (entry, index, ret) ∈ g.inserted → ret = index

section
variable {s : State} {i : Nat} {call : Call} {g : Table}

theorem Invariant.kept_same (h : Invariant s) (hlinks : g.links = s.shared.links)
    (hindex : g.index = s.shared.index) (hoops : g.oops = false) (hown : Holds s.shared call)
    (hentries : ∀ x ∈ call.entries, ∀ j, j ≠ i → x ∉ (s.threads j).entries)
    (hreturned : ∀ entry index ret, (entry, index, ret) ∈ g.inserted → ret = index) :
    Kept s i call g := by
  obtain ⟨lists, hlayout⟩ := h.layout
  have hhashed (x : Nat) : Hashed g x ↔ Hashed s.shared x := by rw [Hashed, hlinks, Hashed]
  have hframe (c : Call) (hc : Holds s.shared c) : Holds g c :=
    hc.frame (fun x _ => by rw [hindex]) (fun x _ => (hhashed x).mp) fun old _ _ =>
      (hhashed old).mpr
  exact ⟨⟨lists, hlayout.of_eq hlinks fun x _ => by rw [hindex]⟩, hoops, hframe call hown, hentries,
    fun j _ => hframe _ (h.holds j), hreturned⟩

theorem Invariant.kept_remove (h : Invariant s) {entry : Nat}
    (hold : ∀ j new, s.threads j ≠ .replace entry new) (hown : ∀ g, ¬ Hashed g entry → Holds g call)
    (hentries : ∀ x ∈ call.entries, ∀ j, j ≠ i → x ∉ (s.threads j).entries) :
    Kept s i call (s.shared.remove entry) := by
  obtain ⟨lists, hlayout⟩ := h.layout
  obtain ⟨hafter, hhashed⟩ := hlayout.remove entry
  refine ⟨⟨_, hafter⟩, h.oops, hown _ fun hmem => ((hhashed entry).mp hmem).2 rfl, hentries,
    fun j _ => ?_, h.returned⟩
  refine (h.holds j).frame (fun _ _ => rfl) (fun x _ hx => ((hhashed x).mp hx).1)
    fun old new hcall hx => ?_
  refine (hhashed old).mpr ⟨hx, ?_⟩
  rintro rfl
  exact hold j new hcall

theorem Invariant.kept_draw (h : Invariant s) {entry : Nat}
    (hcall : s.threads i = .insert entry .search) (index : UInt32) :
    Kept s i (.insert entry .drawn)
      { s.shared with index := Function.update s.shared.index entry index } := by
  obtain ⟨lists, hlayout⟩ := h.layout
  have hunhashed : ¬ Hashed s.shared entry := by
    have hholds := h.holds i
    rw [hcall] at hholds
    exact hholds
  have hentry (j : Nat) (hj : j ≠ i) : entry ∉ (s.threads j).entries :=
    h.apart i j hj.symm entry (by rw [hcall]; exact List.mem_singleton_self entry)
  refine ⟨⟨lists, hlayout.of_eq rfl fun x hx => ?_⟩, h.oops, hunhashed, ?_,
    fun j hj => ?_, h.returned⟩
  · refine Function.update_of_ne ?_ ..
    rintro rfl
    exact hunhashed hx
  · intro x hx j hj
    rw [List.mem_singleton.mp hx]
    exact hentry j hj
  · refine (h.holds j).frame (fun x hx => Function.update_of_ne ?_ ..)
      (fun _ _ => id) fun _ _ _ => id
    rintro rfl
    exact hentry j hj hx

/-- What a call has not yet hashed is not touched by the others. -/
theorem Invariant.entries_apart (h : Invariant s) {c : Call} (hcall : s.threads i = c) :
    ∀ x ∈ c.entries, ∀ j, j ≠ i → x ∉ (s.threads j).entries := by
  subst hcall
  exact fun x hx j hj => h.apart i j hj.symm x hx

theorem Invariant.kept_lock (h : Invariant s) {entry : Nat}
    (hcall : s.threads i = .insert entry .unused)
    {visited : List Nat} (hact : s.shared.lockedInsert entry visited = some (call, g)) :
    Kept s i call g := by
  obtain ⟨lists, hlayout⟩ := h.layout
  have hentries := h.entries_apart hcall
  have hunhashed : ¬ Hashed s.shared entry := by
    have hholds := h.holds i
    rw [hcall] at hholds
    exact hholds
  unfold Table.lockedInsert at hact
  dsimp only at hact
  split at hact
  · cases hact
  · rename_i hwalk
    have hvisited := (hlayout.rep.walks_iff visited).mp (not_not.mp hwalk)
    split at hact
    · obtain ⟨rfl, rfl⟩ := Prod.mk.inj (Option.some.inj hact)
      exact h.kept_same rfl rfl h.oops hunhashed hentries h.returned
    · rename_i hfree
      obtain ⟨rfl, rfl⟩ := Prod.mk.inj (Option.some.inj hact)
      have hnone : ∀ other ∈ lists (bucketOf (s.shared.index entry)), s.shared.index other ≠
          s.shared.index entry := by
        intro other hother heq
        exact hfree (List.any_eq_true.mpr ⟨other, hvisited ▸ hother, decide_eq_true heq⟩)
      obtain ⟨hafter, hhashed⟩ := hlayout.insert hunhashed hnone
      refine ⟨⟨_, hafter⟩, h.oops, rfl, hentries, fun j hj => ?_, h.returned⟩
      refine (h.holds j).frame (fun _ _ => rfl) (fun x hx hx' => ?_) fun old _ _ hx =>
        (hhashed old).mpr (.inl hx)
      refine ((hhashed x).mp hx').resolve_right ?_
      rintro rfl
      exact hentries x (List.mem_singleton_self x) j hj hx

theorem Invariant.kept_swap (h : Invariant s) {old new : Nat}
    (hcall : s.threads i = .replace old new)
    (hact : s.shared.lockedReplace old new = (call, g)) : Kept s i call g := by
  obtain ⟨lists, hlayout⟩ := h.layout
  have hentries := h.entries_apart hcall
  have hholds : Hashed s.shared old ∧ ¬ Hashed s.shared new := by
    have hholds := h.holds i
    rw [hcall] at hholds
    exact hholds
  obtain ⟨g', heq, hafter, hhashed, hindex, hoops, hinserted, -⟩ :=
    hlayout.replace hholds.1 hholds.2
  obtain ⟨rfl, rfl⟩ := Prod.mk.inj (heq.symm.trans hact)
  refine ⟨⟨_, hafter⟩, hoops.trans h.oops, trivial, nofun, fun j hj => ?_, fun e n r hmem => ?_⟩
  · have hne {x : Nat} (hx : x ∈ (s.threads j).entries) : x ≠ new ∧ x ≠ old := by
      constructor
      · rintro rfl
        exact hentries x (by simp [Call.entries]) j hj hx
      · rintro rfl
        exact hentries x (by simp [Call.entries]) j hj hx
    refine (h.holds j).frame (fun x hx => ?_) (fun x hx hx' => ?_) fun other new' hcall' hx => ?_
    · rw [hindex, Function.update_of_ne (hne hx).1]
    · exact (((hhashed x).mp hx').resolve_left (hne hx).1).1
    · exact (hhashed other).mpr (.inr ⟨hx, (hne (by rw [hcall']; simp [Call.entries])).2⟩)
  · rw [hinserted] at hmem
    exact h.returned e n r hmem

theorem Invariant.kept (h : Invariant s) {event : Event} (hscope : Scope s (i, event))
    (hkeeps : KeepsOld s (i, event))
    (hact : act (s.threads i) s.shared event = some (call, g)) : Kept s i call g := by
  unfold act at hact
  rw [if_neg (by simp [h.oops])] at hact
  split at hact
  · rename_i entry hcall
    obtain ⟨rfl, rfl⟩ := Prod.mk.inj (Option.some.inj hact)
    exact h.kept_remove (hkeeps entry rfl) (fun _ _ => trivial) nofun
  · rename_i entry hcall
    obtain ⟨rfl, rfl⟩ := Prod.mk.inj (Option.some.inj hact)
    have hunused : Unused s entry := hscope
    refine h.kept_remove (fun j new hj => hunused j ?_) (fun g hg => hg) fun x hx j _ => ?_
    · rw [hj]
      simp [Call.entries]
    · rw [List.mem_singleton.mp hx]
      exact hunused j
  · rename_i entry index hcall
    obtain ⟨rfl, rfl⟩ := Prod.mk.inj (Option.some.inj hact)
    exact h.kept_draw hcall index
  · rename_i entry used hcall
    obtain ⟨rfl, rfl⟩ := Prod.mk.inj (Option.some.inj hact)
    have hholds := h.holds i
    rw [hcall] at hholds
    refine h.kept_same rfl rfl h.oops ?_ (fun x hx => h.entries_apart hcall x hx) h.returned
    cases used <;> exact hholds
  · rename_i entry visited hcall
    exact h.kept_lock hcall hact
  · rename_i entry index hcall
    obtain ⟨rfl, rfl⟩ := Prod.mk.inj (Option.some.inj hact)
    have hholds := h.holds i
    rw [hcall] at hholds
    refine h.kept_same rfl rfl h.oops trivial nofun fun e n r hmem => ?_
    rcases List.mem_cons.mp hmem with heq | hmem
    · cases heq
      exact hholds
    · exact h.returned e n r hmem
  · rename_i old new hcall
    obtain ⟨hne, hnew, hold, hnew'⟩ : old ≠ new ∧ s.shared.links.unhashed new ∧ Unused s old ∧
        Unused s new := hscope
    split at hact
    · obtain ⟨rfl, rfl⟩ := Prod.mk.inj (Option.some.inj hact)
      exact h.kept_same rfl rfl h.oops trivial nofun h.returned
    · rename_i hhashed
      obtain ⟨rfl, rfl⟩ := Prod.mk.inj (Option.some.inj hact)
      refine h.kept_same rfl rfl h.oops ⟨?_, ?_⟩ (fun x hx j _ => ?_) h.returned
      · exact fun hnone => hhashed (by rw [Hlist.Links.unhashed, hnone]; rfl)
      · exact not_not.mpr (Option.isNone_iff_eq_none.mp hnew)
      · rcases List.mem_pair.mp hx with rfl | rfl
        · exact hold j
        · exact hnew' j
  · rename_i old new hcall
    exact h.kept_swap hcall (Option.some.inj hact)
  · cases hact

theorem step_invariant {t : State} {event : Nat × Event} (h : Invariant s) (hscope : Scope s event)
    (hkeeps : KeepsOld s event) (hst : Threads.step act s event = some t) : Invariant t := by
  obtain ⟨i, event⟩ := event
  obtain ⟨call, g, hact, rfl, rfl, hothers⟩ := Threads.step_cases hst
  have hkept := h.kept hscope hkeeps hact
  refine ⟨hkept.layout, hkept.oops, fun j => ?_, fun j k hjk x hx hx' => ?_, hkept.returned⟩
  · by_cases hj : j = i
    · rw [hj]
      exact hkept.own
    · rw [hothers j hj]
      exact hkept.others j hj
  · by_cases hj : j = i
    · subst hj
      rw [hothers k (Ne.symm hjk)] at hx'
      exact hkept.entries x hx k (Ne.symm hjk) hx'
    · rw [hothers j hj] at hx
      by_cases hk : k = i
      · subst hk
        exact hkept.entries x hx' j hj hx
      · rw [hothers k hk] at hx'
        exact h.apart j k hjk x hx hx'

end

/-! ### Replacements -/

/-- The new entry is in the place of the old one, under its index, and the old one is not hashed any
more. -/
structure Swapped (g g' : Table) (old new : Nat) : Prop where
  lists : ∃ lists, Layout g lists ∧ Layout g' fun b => (lists b).map (Hlist.Rep.swap old new)
  before : Hashed g old ∧ ¬ Hashed g new
  after : Hashed g' new ∧ ¬ Hashed g' old
  index : g'.index new = g.index old

theorem act_replaced {call call' : Call} {g g' : Table} {event : Event} {old new : Nat} {ret : Bool}
    (hact : act call g event = some (call', g')) (h : g'.replaced = (old, new, ret) :: g.replaced) :
    ret = false ∧ g'.links = g.links ∧ g'.index = g.index ∨
      ret = true ∧ call = .replace old new ∧ g.lockedReplace old new = (call', g') := by
  have hsame {c : Call} {u : Table} (hact : (c, u) = (call', g'))
      (heq : u.replaced = g.replaced) : False := by
    cases hact
    rw [heq] at h
    exact List.cons_ne_self _ _ h.symm
  unfold act at hact
  split at hact
  · cases hact
  · split at hact
    · exact (hsame (Option.some.inj hact) rfl).elim
    · exact (hsame (Option.some.inj hact) rfl).elim
    · exact (hsame (Option.some.inj hact) rfl).elim
    · exact (hsame (Option.some.inj hact) rfl).elim
    · unfold Table.lockedInsert at hact
      dsimp only at hact
      split at hact
      · cases hact
      · split at hact
        · exact (hsame (Option.some.inj hact) rfl).elim
        · exact (hsame (Option.some.inj hact) rfl).elim
    · exact (hsame (Option.some.inj hact) rfl).elim
    · split at hact
      · obtain ⟨rfl, rfl⟩ := Prod.mk.inj (Option.some.inj hact)
        obtain ⟨hentry, -⟩ := List.cons.inj h
        cases hentry
        exact .inl ⟨rfl, rfl, rfl⟩
      · exact (hsame (Option.some.inj hact) rfl).elim
    · rename_i old' new'
      have hact := Option.some.inj hact
      have hresult := hact
      unfold Table.lockedReplace at hact
      dsimp only at hact
      split at hact
      · exact (hsame hact rfl).elim
      · obtain ⟨rfl, rfl⟩ := Prod.mk.inj hact
        obtain ⟨hentry, -⟩ := List.cons.inj h
        cases hentry
        exact .inr ⟨rfl, rfl, hresult⟩
    · cases hact

/-- While no entry is removed between the test and the locked section of its replacement: the links
are those of lists, and nothing is written through a null pointer. A replacement that returns true
has put the new entry in the place of the old one, which was hashed until then, and one that returns
false has changed nothing. -/
theorem replacement_safe {events : List (Nat × Event)} {s : State}
    (hmeets : Run.Meets (Threads.step act) (fun s event => Scope s event ∧
      KeepsOld s event) start events)
    (hrun : Run.exec (Threads.step act) start events = some s) :
    (∃ lists, Hlist.Rep s.shared.links lists) ∧ s.shared.oops = false ∧
      ∀ event t, Scope s event → KeepsOld s event → Threads.step act s event = some t →
        ∀ old new ret, t.shared.replaced = (old, new, ret) :: s.shared.replaced →
          (ret = true → Swapped s.shared t.shared old new) ∧
          (ret = false → t.shared.links = s.shared.links ∧ t.shared.index = s.shared.index) := by
  have hinv : Invariant s := Run.exec_guarded (fun s event => Scope s event ∧ KeepsOld s event)
    (fun s event t h hguard => step_invariant h hguard.1 hguard.2) start_invariant hmeets hrun
  obtain ⟨lists, hlayout⟩ := hinv.layout
  refine ⟨⟨lists, hlayout.rep⟩, hinv.oops, ?_⟩
  rintro ⟨i, event⟩ t hscope hkeeps hst old new ret hreplaced
  obtain ⟨call, g, hact, rfl, -, -⟩ := Threads.step_cases hst
  rcases act_replaced hact hreplaced with ⟨rfl, hlinks, hindex⟩ | ⟨rfl, hcall, hlocked⟩
  · exact ⟨nofun, fun _ => ⟨hlinks, hindex⟩⟩
  · refine ⟨fun _ => ?_, nofun⟩
    have hholds := hinv.holds i
    rw [hcall] at hholds
    obtain ⟨g', heq, hafter, hhashed, hindex, -⟩ := hlayout.replace hholds.1 hholds.2
    obtain ⟨-, hg⟩ := Prod.mk.inj (heq.symm.trans hlocked)
    subst hg
    have hne : new ≠ old := by
      rintro rfl
      exact hholds.2 hholds.1
    refine ⟨⟨lists, hlayout, hafter⟩, hholds, ⟨(hhashed new).mpr (.inl rfl), fun hold => ?_⟩, ?_⟩
    · rcases (hhashed old).mp hold with heq | ⟨-, hne'⟩
      · exact hne heq.symm
      · exact hne' rfl
    · rw [hindex, Function.update_self]

/-- Thread 0 inserts entry 1, under index 7. -/
def insertOne : List (Nat × Event) :=
  [(0, .insert 1), (0, .draw 7), (0, .search false), (0, .lock []), (0, .finish)]

/-- Thread 1 has inserted entry 3 into the same list, and removes it and inserts it again while
thread 0 replaces entry 1 by entry 2. -/
def replaceOne : List (Nat × Event) :=
  insertOne ++ [(1, .insert 3), (1, .draw 8199), (1, .search false), (1, .lock [1]), (1, .finish),
    (0, .replace 1 2), (1, .remove 3), (1, .insert 3), (1, .draw 16391), (1, .search false),
    (1, .lock [1]), (0, .swap), (1, .finish)]

/-- Thread 0 replaces entry 1, but the handshake is cleared when the entry has just been tested. -/
def clearedMeanwhile : List (Nat × Event) :=
  insertOne ++ [(0, .replace 1 2), (1, .remove 1), (0, .swap)]

/-- `Scope`, at the first two threads. -/
def scopeFirst (s : State) (event : Nat × Event) : Bool :=
  let unused entry := (List.range 2).all fun i => entry ∉ (s.threads i).entries
  match event.2 with
  | .insert entry => unused entry
  | .replace old new => old ≠ new ∧ s.shared.links.unhashed new ∧ unused old ∧ unused new
  | _ => true

/-- `KeepsOld`, at the first two threads. -/
def keepsOldFirst (s : State) (event : Nat × Event) : Bool :=
  match event.2 with
  | .remove entry => (List.range 2).all fun i =>
    match s.threads i with
    | .replace old _ => old ≠ entry
    | _ => true
  | _ => true

theorem unused_of_first {s : State} (hidle : ∀ j, 2 ≤ j → s.threads j = .idle) {entry : Nat}
    (h : ((List.range 2).all fun i => entry ∉ (s.threads i).entries) = true) : Unused s entry := by
  intro i
  by_cases hi : i < 2
  · simpa using List.all_eq_true.mp h i (List.mem_range.mpr hi)
  · rw [hidle i (by omega)]
    exact List.not_mem_nil

theorem scope_of_first {s : State} (hidle : ∀ j, 2 ≤ j → s.threads j = .idle) {event : Nat × Event}
    (h : scopeFirst s event = true) : Scope s event := by
  obtain ⟨i, event⟩ := event
  cases event with
  | insert entry => exact unused_of_first hidle h
  | replace old new =>
    obtain ⟨hne, hnew, hold, hunused⟩ := of_decide_eq_true h
    exact ⟨hne, hnew, unused_of_first hidle hold, unused_of_first hidle hunused⟩
  | remove | draw | search | lock | finish | swap => trivial

theorem keepsOld_of_first {s : State} (hidle : ∀ j, 2 ≤ j → s.threads j = .idle)
    {event : Nat × Event} (h : keepsOldFirst s event = true) : KeepsOld s event := by
  rintro entry hevent i new hi
  rw [keepsOldFirst, hevent] at h
  by_cases hlt : i < 2
  · have hkeeps := List.all_eq_true.mp h i (List.mem_range.mpr hlt)
    rw [hi] at hkeeps
    exact of_decide_eq_true hkeeps rfl
  · rw [hidle i (by omega)] at hi
    cases hi

theorem replaceOne_meets :
    Run.Meets (Threads.step act) (fun s event => Scope s event ∧ KeepsOld s event)
      start replaceOne := by
  refine Threads.meets_of_first (fun s event => scopeFirst s event && keepsOldFirst s event) 2
    (by decide) (fun s hidle event _ h => ?_) (by decide +kernel)
  obtain ⟨hscope, hkeeps⟩ := Bool.and_eq_true_iff.mp h
  exact ⟨scope_of_first hidle hscope, keepsOld_of_first hidle hkeeps⟩

theorem replaceOne_safe : ∃ s, Run.exec (Threads.step act) start replaceOne = some s ∧
    s.shared.replaced = [(1, 2, true)] ∧
    s.shared.inserted = [(3, 16391, 16391), (3, 8199, 8199), (1, 7, 7)] ∧
    (∃ lists, Hlist.Rep s.shared.links lists) ∧ s.shared.oops = false := by
  obtain ⟨s, hs, hreplaced, hinserted⟩ :
      ∃ s, Run.exec (Threads.step act) start replaceOne = some s ∧
      s.shared.replaced = [(1, 2, true)] ∧
      s.shared.inserted = [(3, 16391, 16391), (3, 8199, 8199), (1, 7, 7)] := ⟨_, rfl, rfl, rfl⟩
  have hsafe := replacement_safe replaceOne_meets hs
  exact ⟨s, hs, hreplaced, hinserted, hsafe.1, hsafe.2.1⟩

/-- The new entry is written through the null pointer of the entry that was removed. -/
theorem cleared_meanwhile_faults : Run.Meets (Threads.step act) Scope start clearedMeanwhile ∧
    ∃ s, Run.exec (Threads.step act) start clearedMeanwhile = some s ∧ s.shared.oops = true :=
  ⟨Threads.meets_of_first scopeFirst 2 (by decide) (fun _ hidle _ _ h => scope_of_first hidle h)
    (by decide +kernel), _, rfl, rfl⟩

/-! ### Insertions -/

/-- Only insertions, of distinct entries, and removals. -/
def InsertsAndRemoves (s : State) (event : Nat × Event) : Prop :=
  match event.2 with
  | .insert entry => Unused s entry
  | .replace _ _ => False
  | _ => True

/-- No thread is replacing an entry. -/
def NoReplacement (s : State) : Prop := ∀ i old new, s.threads i ≠ .replace old new

theorem InsertsAndRemoves.guards {s : State} {event : Nat × Event} (h : InsertsAndRemoves s event)
    (hnone : NoReplacement s) : Scope s event ∧ KeepsOld s event := by
  refine ⟨?_, fun entry _ i new => hnone i entry new⟩
  obtain ⟨i, event⟩ := event
  cases event with
  | insert entry => exact h
  | replace old new => exact h.elim
  | remove | draw | search | lock | finish | swap => trivial

theorem act_replacing {call : Call} {g g' : Table} {event : Event} {old new : Nat}
    (hact : act call g event = some (.replace old new, g')) :
    call = .replace old new ∨ event = .replace old new := by
  unfold act at hact
  split at hact
  · cases hact
  · split at hact
    · cases hact
    · cases hact
    · cases hact
    · cases hact
    · unfold Table.lockedInsert at hact
      dsimp only at hact
      split at hact
      · cases hact
      · split at hact <;> cases hact
    · cases hact
    · split at hact
      · cases hact
      · cases hact
        exact .inr rfl
    · unfold Table.lockedReplace at hact
      dsimp only at hact
      split at hact
      · cases hact
        exact .inl rfl
      · cases hact
    · cases hact

theorem NoReplacement.step {s t : State} {event : Nat × Event} (hnone : NoReplacement s)
    (h : InsertsAndRemoves s event) (hst : Threads.step act s event = some t) :
    NoReplacement t := by
  obtain ⟨i, event⟩ := event
  obtain ⟨call, g, hact, -, rfl, hothers⟩ := Threads.step_cases hst
  intro j old new hj
  by_cases hji : j = i
  · rw [hji] at hj
    rw [hj] at hact
    rcases act_replacing hact with hcall | rfl
    · exact hnone i old new hcall
    · exact h
  · rw [hothers j hji] at hj
    exact hnone j old new hj

/-- No two entries that are hashed have the same index, and an insertion returns the index under
which it has hashed its entry. -/
theorem indices_unique {events : List (Nat × Event)} {s : State}
    (hmeets : Run.Meets (Threads.step act) InsertsAndRemoves start events)
    (hrun : Run.exec (Threads.step act) start events = some s) :
    (∀ entry other, Hashed s.shared entry → Hashed s.shared other →
      s.shared.index entry = s.shared.index other → entry = other) ∧
    ∀ entry index ret, (entry, index, ret) ∈ s.shared.inserted → ret = index := by
  have hinv : Invariant s ∧ NoReplacement s :=
    Run.exec_guarded (P := fun s => Invariant s ∧ NoReplacement s)
    InsertsAndRemoves (fun s event t h hguard hst =>
      have hguards := hguard.guards h.2
      ⟨step_invariant h.1 hguards.1 hguards.2 hst, h.2.step hguard hst⟩)
    ⟨start_invariant, fun _ _ _ => nofun⟩ hmeets hrun
  obtain ⟨lists, hlayout⟩ := hinv.1.layout
  refine ⟨fun entry other hentry hother hindex => ?_, hinv.1.returned⟩
  obtain ⟨a, ha⟩ := hlayout.hashed_iff.mp hentry
  obtain ⟨b, hb⟩ := hlayout.hashed_iff.mp hother
  exact hlayout.unique a b entry ha other hb hindex

/-- Two insertions draw the same index. Thread 1 finds it taken when it has the lock, and draws one
of the same list; then the first entry is removed and another one gets its index. -/
def collidingInserts : List (Nat × Event) :=
  [(0, .insert 1), (1, .insert 2), (0, .draw 7), (1, .draw 7), (0, .search false),
    (1, .search false),
    (0, .lock []), (1, .lock [1]), (1, .draw 8199), (1, .search false), (0, .finish),
    (1, .lock [1]), (1, .finish), (0, .remove 1), (0, .insert 3), (0, .draw 7), (0, .search false),
    (0, .lock [2]), (0, .finish)]

theorem collidingInserts_meets :
    Run.Meets (Threads.step act) InsertsAndRemoves start collidingInserts := by
  refine Threads.meets_of_first scopeFirst 2 (by decide) ?_ (by decide +kernel)
  rintro s hidle ⟨i, event⟩ hevent h
  cases event with
  | insert entry => exact unused_of_first hidle h
  | replace old new => simp [collidingInserts] at hevent
  | remove | draw | search | lock | finish | swap => trivial

theorem collidingInserts_unique :
    ∃ s, Run.exec (Threads.step act) start collidingInserts = some s ∧
      s.shared.inserted = [(3, 7, 7), (2, 8199, 8199), (1, 7, 7)] ∧
      (Hashed s.shared 2 ∧ Hashed s.shared 3 ∧ ¬ Hashed s.shared 1) ∧
      ∀ entry other, Hashed s.shared entry → Hashed s.shared other →
        s.shared.index entry = s.shared.index other → entry = other := by
  obtain ⟨s, hs, hinserted, hhashed⟩ : ∃ s,
      Run.exec (Threads.step act) start collidingInserts = some s ∧
      s.shared.inserted = [(3, 7, 7), (2, 8199, 8199), (1, 7, 7)] ∧
      Hashed s.shared 2 ∧ Hashed s.shared 3 ∧ ¬ Hashed s.shared 1 :=
    ⟨_, rfl, rfl, nofun, nofun, fun h => h rfl⟩
  exact ⟨s, hs, hinserted, hhashed, (indices_unique collidingInserts_meets hs).1⟩

end Sewg.Kernel.IndexTable
