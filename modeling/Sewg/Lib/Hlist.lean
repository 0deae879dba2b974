import Mathlib.Logic.Function.Basic
import Sewg.Lib.Apart

/-! Linked lists in memory whose nodes know the pointer that points to them, as Linux has them for
its hash tables. A slot is a place for a pointer: the `first` of a list, or the `next` of a node. A
node that is in no list has a null `pprev`. -/

namespace Hlist

inductive Slot (α β : Type)
  | first (list : β)
  | next (node : α)
  deriving DecidableEq

/-- `none` is a null pointer. -/
structure Links (α β : Type) where
  first : β → Option α
  next : α → Option α
  pprev : α → Option (Slot α β)

variable {α β : Type} [DecidableEq α] [DecidableEq β]

namespace Links

def read (h : Links α β) : Slot α β → Option α
  | .first b => h.first b
  | .next a => h.next a

def write (h : Links α β) (slot : Slot α β) (ptr : Option α) : Links α β :=
  match slot with
  | .first b => { h with first := Function.update h.first b ptr }
  | .next a => { h with next := Function.update h.next a ptr }

def setPprev (h : Links α β) (a : α) (pprev : Option (Slot α β)) : Links α β :=
  { h with pprev := Function.update h.pprev a pprev }

/-- The node behind a pointer, if it is one, is told where the pointer is. -/
def tell (h : Links α β) (ptr : Option α) (slot : Slot α β) : Links α β :=
  match ptr with
  | none => h
  | some a => h.setPprev a (some slot)

def unhashed (h : Links α β) (a : α) : Bool := (h.pprev a).isNone

/-- `hlist_del_init_rcu` -/
def delInit (h : Links α β) (a : α) : Links α β :=
  match h.pprev a with
  | none => h
  | some slot => ((h.write slot (h.next a)).tell (h.next a) slot).setPprev a none

/-- `hlist_add_head_rcu` -/
def addHead (h : Links α β) (a : α) (b : β) : Links α β :=
  let first := h.first b
  (((h.write (.next a) first).setPprev a (some (.first b))).write (.first b) (some a)).tell
    first (.next a)

/-- `hlist_replace_rcu`, and then `INIT_HLIST_NODE` on the old node. It does not look whether the
old node is in a list: `none` is a write through a null pointer. -/
def replaceInit (h : Links α β) (old new : α) : Option (Links α β) :=
  let next := h.next old
  (h.pprev old).map fun slot =>
    ((((((h.write (.next new) next).setPprev new (some slot)).write slot (some new)).tell next
      (.next new)).write (.next old) none).setPprev old none)

/-- The nodes that a walk from a pointer meets, until a null pointer. -/
def walks (h : Links α β) : Option α → List α → Bool
  | none, [] => true
  | some a, b :: nodes => a = b && h.walks (h.next a) nodes
  | _, _ => false

/-! ### Reading what was written -/

section
variable (h : Links α β) (slot slot' : Slot α β) (ptr : Option α) (a a' : α) (v : Option (Slot α β))

@[simp] theorem read_write :
    (h.write slot ptr).read slot' = if slot' = slot then ptr else h.read slot' := by
  cases slot <;> cases slot' <;> simp [write, read, Function.update_apply]

@[simp] theorem pprev_write : (h.write slot ptr).pprev = h.pprev := by
  cases slot <;> rfl

omit [DecidableEq β]

@[simp] theorem read_setPprev : (h.setPprev a v).read = h.read := by
  funext slot
  cases slot <;> rfl

@[simp] theorem pprev_setPprev : (h.setPprev a v).pprev a' = if a' = a then v else h.pprev a' :=
  Function.update_apply ..

@[simp] theorem read_tell : (h.tell ptr slot).read = h.read := by
  cases ptr with
  | none => rfl
  | some a => exact read_setPprev ..

@[simp] theorem pprev_tell :
    (h.tell ptr slot).pprev a = if ptr = some a then some slot else h.pprev a := by
  cases ptr with
  | none => simp [tell]
  | some a' => simp [tell, eq_comm]

end

theorem read_delInit {h : Links α β} {a : α} {slot : Slot α β} (hslot : h.pprev a = some slot)
    (s : Slot α β) : (h.delInit a).read s = if s = slot then h.next a else h.read s := by
  simp [delInit, hslot]

theorem pprev_delInit {h : Links α β} {a : α} {slot : Slot α β}
    (hslot : h.pprev a = some slot) (x : α) :
    (h.delInit a).pprev x = if x = a then none else if h.next a = some x then some slot
      else h.pprev x := by
  simp [delInit, hslot]

theorem read_addHead (h : Links α β) (a : α) (b : β) (s : Slot α β) : (h.addHead a b).read s =
    if s = .first b then some a else if s = .next a then h.first b else h.read s := by
  simp [addHead]

theorem pprev_addHead (h : Links α β) (a : α) (b : β) (x : α) : (h.addHead a b).pprev x =
    if h.first b = some x then some (.next a) else if x = a then some (.first b)
      else h.pprev x := by
  simp [addHead]

theorem replaceInit_eq_some {h : Links α β} {old : α} {slot : Slot α β}
    (hslot : h.pprev old = some slot) (new : α) : ∃ h', h.replaceInit old new = some h' ∧
      (∀ s, h'.read s = if s = .next old then none else if s = slot then some new
        else if s = .next new then h.next old else h.read s) ∧
      ∀ x, h'.pprev x = if x = old then none else if h.next old = some x then some (.next new)
        else if x = new then some slot else h.pprev x := by
  refine ⟨_, by rw [replaceInit, hslot]; rfl, fun s => ?_, fun x => ?_⟩
  · simp
  · simp

end Links

/-! ### Lists that are represented -/

/-- The nodes from a slot on, linked forth and back. -/
def Chain (h : Links α β) : Slot α β → List α → Prop
  | slot, [] => h.read slot = none
  | slot, a :: nodes => h.read slot = some a ∧ h.pprev a = some slot ∧ Chain h (.next a) nodes

/-- Some nodes from a slot on, whatever follows. -/
def Segment (h : Links α β) : Slot α β → List α → Prop
  | _, [] => True
  | slot, a :: nodes => h.read slot = some a ∧ h.pprev a = some slot ∧ Segment h (.next a) nodes

/-- The slot behind some nodes. -/
def behind : Slot α β → List α → Slot α β
  | slot, [] => slot
  | _, a :: nodes => behind (.next a) nodes

section
omit [DecidableEq α] [DecidableEq β]
variable {h h' : Links α β} {slot : Slot α β} {pre nodes : List α}

theorem chain_append :
    Chain h slot (pre ++ nodes) ↔ Segment h slot pre ∧ Chain h (behind slot pre) nodes := by
  induction pre generalizing slot with
  | nil => simp [Segment, behind]
  | cons a pre ih => simp only [List.cons_append, Chain, Segment, behind, ih, and_assoc]

theorem behind_cases (slot : Slot α β) (pre : List α) :
    pre = [] ∧ behind slot pre = slot ∨ ∃ a ∈ pre, behind slot pre = .next a := by
  induction pre generalizing slot with
  | nil => exact .inl ⟨rfl, rfl⟩
  | cons a pre ih =>
    right
    rcases ih (.next a) with ⟨-, hbehind⟩ | ⟨x, hx, hbehind⟩
    · exact ⟨a, List.mem_cons_self, hbehind⟩
    · exact ⟨x, List.mem_cons_of_mem a hx, hbehind⟩

theorem Chain.congr (hc : Chain h slot nodes) (hslot : h'.read slot = h.read slot)
    (hnodes : ∀ a ∈ nodes, h'.read (.next a) = h.read (.next a) ∧ h'.pprev a = h.pprev a) :
    Chain h' slot nodes := by
  induction nodes generalizing slot with
  | nil => exact hslot.trans hc
  | cons a nodes ih =>
    obtain ⟨hfirst, hback, hrest⟩ := hc
    obtain ⟨hnext, hpprev⟩ := hnodes a List.mem_cons_self
    exact ⟨hslot.trans hfirst, hpprev.trans hback, ih hrest hnext fun x hx =>
      hnodes x (List.mem_cons_of_mem a hx)⟩

/-- A segment does not depend on the slot behind it. -/
theorem Segment.congr (hs : Segment h slot pre) (hnodup : pre.Nodup)
    (hslot : ∀ a ∈ pre, slot ≠ .next a)
    (hread : ∀ s, s = slot ∨ (∃ a ∈ pre, s = .next a) → s ≠ behind slot pre → h'.read s = h.read s)
    (hpprev : ∀ a ∈ pre, h'.pprev a = h.pprev a) : Segment h' slot pre := by
  induction pre generalizing slot with
  | nil => trivial
  | cons a pre ih =>
    obtain ⟨hfirst, hback, hrest⟩ := hs
    obtain ⟨ha, hnodup⟩ := List.nodup_cons.mp hnodup
    refine ⟨?_, (hpprev a List.mem_cons_self).trans hback, ih hrest hnodup ?_ ?_ ?_⟩
    · refine (hread slot (.inl rfl) fun heq => ?_).trans hfirst
      rcases behind_cases (Slot.next a : Slot α β) pre with ⟨-, hbehind⟩ | ⟨x, hx, hbehind⟩
      · exact hslot a List.mem_cons_self (heq.trans hbehind)
      · exact hslot x (List.mem_cons_of_mem a hx) (heq.trans hbehind)
    · rintro x hx heq
      cases heq
      exact ha hx
    · rintro s (rfl | ⟨x, hx, rfl⟩)
      · exact hread (.next a) (.inr ⟨a, List.mem_cons_self, rfl⟩)
      · exact hread (.next x) (.inr ⟨x, List.mem_cons_of_mem a hx, rfl⟩)
    · exact fun x hx => hpprev x (List.mem_cons_of_mem a hx)

theorem Chain.hashed (hc : Chain h slot nodes) {a : α} (ha : a ∈ nodes) :
    ∃ s, h.pprev a = some s := by
  induction nodes generalizing slot with
  | nil => cases ha
  | cons x nodes ih =>
    obtain ⟨-, hback, hrest⟩ := hc
    rcases List.mem_cons.mp ha with rfl | ha
    · exact ⟨slot, hback⟩
    · exact ih hrest ha

end

/-- The links are those of the lists, and a node in none of them is unhashed. -/
structure Rep (h : Links α β) (lists : β → List α) : Prop where
  chain : ∀ b, Chain h (.first b) (lists b)
  apart : Apart lists
  unhashed : ∀ a, (∀ b, a ∉ lists b) → h.pprev a = none

namespace Rep
variable {h : Links α β} {lists : β → List α} {a : α} {b : β}

omit [DecidableEq α] [DecidableEq β]

theorem unhashed_iff (hr : Rep h lists) : h.pprev a = none ↔ ∀ b, a ∉ lists b := by
  refine ⟨fun hnone b hmem => ?_, hr.unhashed a⟩
  obtain ⟨slot, hslot⟩ := (hr.chain b).hashed hmem
  rw [hslot] at hnone
  cases hnone

theorem exists_mem (hr : Rep h lists) {slot : Slot α β} (hslot : h.pprev a = some slot) :
    ∃ b, a ∈ lists b := by
  by_contra hnot
  have hnone := hr.unhashed a fun b hmem => hnot ⟨b, hmem⟩
  rw [hslot] at hnone
  cases hnone

theorem split (hr : Rep h lists) (ha : a ∈ lists b) : ∃ pre post, lists b = pre ++ a :: post ∧
    Segment h (.first b) pre ∧ h.read (behind (.first b) pre) = some a ∧
      h.pprev a = some (behind (.first b) pre) ∧ Chain h (.next a) post := by
  obtain ⟨pre, post, heq⟩ := List.append_of_mem ha
  have hc := hr.chain b
  rw [heq, chain_append] at hc
  exact ⟨pre, post, heq, hc.1, hc.2⟩

/-- A list that a node is not in has nothing to do with the node's slot. -/
theorem behind_ne (hr : Rep h lists) {pre post : List α} (heq : lists b = pre ++ a :: post)
    {b' : β} (hb : b' ≠ b) :
    behind (.first b) pre ≠ .first b' ∧ ∀ x ∈ lists b', behind (.first b) pre ≠ .next x := by
  rcases behind_cases (Slot.first b : Slot α β) pre with ⟨-, hbehind⟩ | ⟨y, hy, hbehind⟩
  · rw [hbehind]
    exact ⟨fun hsame => hb (Slot.first.inj hsame).symm, fun x _ => nofun⟩
  · rw [hbehind]
    refine ⟨nofun, fun x hx hsame => ?_⟩
    rw [← Slot.next.inj hsame] at hx
    exact hr.apart.disjoint b' b hb hx (by rw [heq]; exact List.mem_append_left _ hy)

end Rep

section
variable {h : Links α β} {a : α} {b : β} {pre post : List α}

omit [DecidableEq α] [DecidableEq β] in
/-- The node that comes next is the first of those behind. -/
theorem Chain.next_mem (hc : Chain h (.next a) post) {x : α} (hx : h.next a = some x) :
    ∃ post', post = x :: post' := by
  cases post with
  | nil =>
    have hnone : h.next a = none := hc
    rw [hx] at hnone
    cases hnone
  | cons y post =>
    have hfirst : h.next a = some y := hc.1
    rw [hx] at hfirst
    exact ⟨post, by rw [Option.some.inj hfirst]⟩

omit [DecidableEq α] [DecidableEq β] in
/-- The slot behind some nodes is in one of them, or it is the first. -/
theorem behind_ne_next {x : α} (hx : x ∉ pre) : behind (.first b) pre ≠ (.next x : Slot α β) := by
  rcases behind_cases (Slot.first b : Slot α β) pre with ⟨-, hbehind⟩ | ⟨y, hy, hbehind⟩
  · rw [hbehind]
    exact nofun
  · rw [hbehind]
    intro hsame
    rw [Slot.next.inj hsame] at hy
    exact hx hy

/-- The nodes before it and those behind it are linked to each other. -/
theorem chain_delInit (hnodup : (pre ++ a :: post).Nodup)
    (hc : Chain h (.first b) (pre ++ a :: post)) :
    Chain (h.delInit a) (.first b) (pre ++ post) := by
  obtain ⟨hseg, -, hback, hrest⟩ := chain_append.mp hc
  have hread := Links.read_delInit hback
  have hpprev := Links.pprev_delInit hback
  obtain ⟨hpre, hpost, hdisjoint⟩ := List.nodup_append'.mp hnodup
  have hbehind {x : α} (hx : x ∈ a :: post) : behind (.first b) pre ≠ (.next x : Slot α β) :=
    behind_ne_next fun hmem => hdisjoint hmem hx
  obtain ⟨ha, hpost⟩ := List.nodup_cons.mp hpost
  refine chain_append.mpr
    ⟨hseg.congr hpre (fun _ _ => nofun) (fun s _ hs => by rw [hread, if_neg hs]) ?_, ?_⟩
  · intro x hx
    have hxa : x ≠ a := fun heq => hdisjoint hx (heq ▸ List.mem_cons_self)
    have hnext : h.next a ≠ some x := by
      intro hnext
      obtain ⟨post', rfl⟩ := hrest.next_mem hnext
      exact hdisjoint hx (by simp)
    rw [hpprev, if_neg hxa, if_neg hnext]
  · cases post with
    | nil =>
      change (h.delInit a).read _ = none
      rw [hread, if_pos rfl]
      exact hrest
    | cons n post =>
      obtain ⟨hnext, -, hrest⟩ := hrest
      have hnext : h.next a = some n := hnext
      obtain ⟨hn, hpost⟩ := List.nodup_cons.mp hpost
      have hna : n ≠ a := fun heq => ha (heq ▸ List.mem_cons_self)
      refine ⟨by rw [hread, if_pos rfl, hnext], by rw [hpprev, if_neg hna, if_pos hnext],
        hrest.congr (by rw [hread, if_neg fun heq => hbehind (by simp) heq.symm]) fun x hx =>
          ⟨?_, ?_⟩⟩
      · rw [hread, if_neg fun heq => hbehind (by simp [hx]) heq.symm]
      · have hxa : x ≠ a := fun heq => ha (heq ▸ List.mem_cons_of_mem n hx)
        have hxn : some n ≠ some x := fun heq => hn (Option.some.inj heq ▸ hx)
        rw [hpprev, if_neg hxa, hnext, if_neg hxn]

theorem chain_addHead {nodes : List α} (hc : Chain h (.first b) nodes) (hnodup : nodes.Nodup)
    (ha : a ∉ nodes) : Chain (h.addHead a b) (.first b) (a :: nodes) := by
  have hread := h.read_addHead a b
  have hpprev := h.pprev_addHead a b
  cases nodes with
  | nil =>
    have hnone : h.first b = none := hc
    refine ⟨by rw [hread, if_pos rfl], by rw [hpprev, hnone]; simp, ?_⟩
    change (h.addHead a b).read (.next a) = none
    rw [hread, hnone]
    simp
  | cons f nodes =>
    obtain ⟨hfirst, -, hrest⟩ := hc
    have hfirst : h.first b = some f := hfirst
    obtain ⟨hf, hnodup⟩ := List.nodup_cons.mp hnodup
    have hfa : some f ≠ some a := fun heq => ha (Option.some.inj heq ▸ List.mem_cons_self)
    have hnext (x : α) (hx : x ∈ f :: nodes) :
        (h.addHead a b).read (.next x) = h.read (.next x) := by
      have hxa : x ≠ a := fun heq => ha (heq ▸ hx)
      rw [hread]
      simp [hxa]
    refine ⟨by rw [hread, if_pos rfl], by rw [hpprev, hfirst, if_neg hfa, if_pos rfl], ?_, ?_, ?_⟩
    · rw [hread, hfirst]
      simp
    · rw [hpprev, if_pos hfirst]
    · refine hrest.congr (hnext f List.mem_cons_self) fun x hx =>
        ⟨hnext x (List.mem_cons_of_mem f hx), ?_⟩
      have hxf : some f ≠ some x := fun heq => hf (Option.some.inj heq ▸ hx)
      have hxa : x ≠ a := fun heq => ha (heq ▸ List.mem_cons_of_mem f hx)
      rw [hpprev, hfirst, if_neg hxf, if_neg hxa]

theorem chain_replaceInit {h' : Links α β} {new : α} (hnodup : (pre ++ a :: post).Nodup)
    (hnew : new ∉ pre ++ a :: post)
    (hc : Chain h (.first b) (pre ++ a :: post)) (hh' : h.replaceInit a new = some h') :
    Chain h' (.first b) (pre ++ new :: post) := by
  obtain ⟨hseg, -, hback, hrest⟩ := chain_append.mp hc
  obtain ⟨h'', heq, hread, hpprev⟩ := Links.replaceInit_eq_some hback new
  obtain rfl : h'' = h' := Option.some.inj (heq.symm.trans hh')
  obtain ⟨hpre, hpost, hdisjoint⟩ := List.nodup_append'.mp hnodup
  obtain ⟨ha, hpost⟩ := List.nodup_cons.mp hpost
  have hnewPre : new ∉ pre := fun hmem => hnew (List.mem_append_left _ hmem)
  have hnewa : new ≠ a := fun heq => hnew (by simp [heq])
  have hapre : a ∉ pre := fun hmem => hdisjoint hmem List.mem_cons_self
  have hbehindNew : (.next new : Slot α β) ≠ behind (.first b) pre := (behind_ne_next hnewPre).symm
  have hnextNew : h.next a ≠ some new := by
    intro hnext
    obtain ⟨post', rfl⟩ := hrest.next_mem hnext
    exact hnew (by simp)
  -- nodes around it keep their own pointers
  have hkept (x : α) (hx : x ∈ post) : h''.read (.next x) = h.read (.next x) := by
    have hxa : x ≠ a := fun heq => ha (heq ▸ hx)
    have hxn : x ≠ new := fun heq => hnew (by simp [← heq, hx])
    have hxb : (.next x : Slot α β) ≠ behind (.first b) pre :=
      (behind_ne_next fun hmem => hdisjoint hmem (List.mem_cons_of_mem a hx)).symm
    rw [hread, if_neg (by simp [hxa]), if_neg hxb, if_neg (by simp [hxn])]
  refine chain_append.mpr ⟨hseg.congr hpre (fun _ _ => nofun) ?_ ?_, ?_, ?_, ?_⟩
  · intro s hs hne
    have hsa : s ≠ .next a ∧ s ≠ .next new := by
      rcases hs with rfl | ⟨x, hx, rfl⟩
      · exact ⟨nofun, nofun⟩
      · constructor
        · rintro ⟨⟩
          exact hapre hx
        · rintro ⟨⟩
          exact hnewPre hx
    rw [hread, if_neg hsa.1, if_neg hne, if_neg hsa.2]
  · intro x hx
    have hxa : x ≠ a := fun heq => hapre (heq ▸ hx)
    have hxn : x ≠ new := fun heq => hnewPre (heq ▸ hx)
    have hnext : h.next a ≠ some x := by
      intro hnext
      obtain ⟨post', rfl⟩ := hrest.next_mem hnext
      exact hdisjoint hx (by simp)
    rw [hpprev, if_neg hxa, if_neg hnext, if_neg hxn]
  · rw [hread, if_neg (behind_ne_next hapre), if_pos rfl]
  · rw [hpprev, if_neg hnewa, if_neg hnextNew, if_pos rfl]
  · have hnewNext : h''.read (.next new) = h.next a := by
      rw [hread, if_neg (by simp [hnewa]), if_neg hbehindNew, if_pos rfl]
    cases post with
    | nil => exact hnewNext.trans hrest
    | cons n post =>
      obtain ⟨hnext, -, hrest⟩ := hrest
      have hnext : h.next a = some n := hnext
      obtain ⟨hn, hpost⟩ := List.nodup_cons.mp hpost
      have hna : n ≠ a := fun heq => ha (heq ▸ List.mem_cons_self)
      refine ⟨hnewNext.trans hnext, by rw [hpprev, if_neg hna, if_pos hnext], ?_⟩
      refine hrest.congr (hkept n List.mem_cons_self) fun x hx =>
        ⟨hkept x (List.mem_cons_of_mem n hx), ?_⟩
      have hxa : x ≠ a := fun heq => ha (heq ▸ List.mem_cons_of_mem n hx)
      have hxn : some n ≠ some x := fun heq => hn (Option.some.inj heq ▸ hx)
      have hxnew : x ≠ new := fun heq => hnew (by simp [← heq, hx])
      rw [hpprev, if_neg hxa, hnext, if_neg hxn, if_neg hxnew]

end

namespace Rep
variable {h : Links α β} {lists : β → List α} {a : α} {b : β}

omit [DecidableEq α] [DecidableEq β] in
theorem eq_of_mem (hr : Rep h lists) {b' : β} (ha : a ∈ lists b) (ha' : a ∈ lists b') : b' = b := by
  by_contra hne
  exact hr.apart.disjoint b' b hne ha' ha

omit [DecidableEq α] [DecidableEq β] in
/-- The node behind a node of a list is in that list. -/
theorem next_mem (hr : Rep h lists) (ha : a ∈ lists b) {x : α} (hx : h.next a = some x) :
    x ∈ lists b := by
  obtain ⟨pre, post, heq, -, -, -, hrest⟩ := hr.split ha
  obtain ⟨post', rfl⟩ := hrest.next_mem hx
  rw [heq]
  simp

theorem delInit (hr : Rep h lists) (a : α) :
    Rep (h.delInit a) fun b => (lists b).filter (· ≠ a) := by
  have hfilter {nodes : List α} (ha : a ∉ nodes) : nodes.filter (· ≠ a) = nodes :=
    List.filter_eq_self.mpr fun x hx => decide_eq_true fun heq => ha (heq ▸ hx)
  cases hslot : h.pprev a with
  | none =>
    have hsame : (fun b => (lists b).filter (· ≠ a)) = lists :=
      funext fun b => hfilter (hr.unhashed_iff.mp hslot b)
    rw [hsame, Links.delInit, hslot]
    exact hr
  | some slot =>
    obtain ⟨b, hmem⟩ := hr.exists_mem hslot
    obtain ⟨pre, post, heq, -, -, hback, -⟩ := hr.split hmem
    have hread := Links.read_delInit hback
    have hpprev := Links.pprev_delInit hback
    -- the nodes of other lists, and those in none
    have hother (x : α) (hx : x ∉ lists b) : (h.delInit a).pprev x = h.pprev x := by
      have hxa : x ≠ a := fun heq => hx (heq ▸ hmem)
      rw [hpprev, if_neg hxa, if_neg fun hnext => hx (hr.next_mem hmem hnext)]
    refine ⟨fun b' => ?_, hr.apart.shrink fun b' => List.filter_sublist, fun x hx => ?_⟩
    · by_cases hb : b' = b
      · subst hb
        have hnodup := hr.apart.nodup b'
        have hc := hr.chain b'
        rw [heq] at hnodup hc
        obtain ⟨-, hpost, hdisjoint⟩ := List.nodup_append'.mp hnodup
        rw [heq, List.filter_append, List.filter_cons_of_neg (by simp),
          hfilter fun hpre => hdisjoint hpre List.mem_cons_self,
          hfilter (List.nodup_cons.mp hpost).1]
        exact chain_delInit hnodup hc
      · obtain ⟨hfirst, hnext⟩ := hr.behind_ne heq hb
        have ha : a ∉ lists b' := fun ha => hb (hr.eq_of_mem hmem ha)
        rw [hfilter ha]
        refine (hr.chain b').congr (by rw [hread, if_neg hfirst.symm]) fun x hx =>
          ⟨?_, hother x fun hmem' => ?_⟩
        · rw [hread, if_neg (hnext x hx).symm]
        · exact hb (hr.eq_of_mem hmem' hx)
    · by_cases hxa : x = a
      · rw [hpprev, if_pos hxa]
      · have hnot (b' : β) : x ∉ lists b' :=
          fun hmem' => hx b' (List.mem_filter.mpr ⟨hmem', decide_eq_true hxa⟩)
        rw [hother x (hnot b)]
        exact hr.unhashed x hnot

theorem addHead (hr : Rep h lists) (ha : h.pprev a = none) (b : β) :
    Rep (h.addHead a b) (Function.update lists b (a :: lists b)) := by
  have hnot := hr.unhashed_iff.mp ha
  have hread := h.read_addHead a b
  have hpprev := h.pprev_addHead a b
  have hfirst (x : α) (hx : h.first b = some x) : x ∈ lists b := by
    have hc := hr.chain b
    cases hl : lists b with
    | nil =>
      rw [hl] at hc
      rw [show h.first b = none from hc] at hx
      cases hx
    | cons f nodes =>
      rw [hl] at hc
      rw [show h.first b = some f from hc.1] at hx
      rw [← Option.some.inj hx]
      exact List.mem_cons_self
  have hother (x : α) (hxa : x ≠ a) (hx : x ∉ lists b) : (h.addHead a b).pprev x = h.pprev x := by
    rw [hpprev, if_neg fun hf => hx (hfirst x hf), if_neg hxa]
  refine ⟨fun b' => ?_, ?_, fun x hx => ?_⟩
  · by_cases hb : b' = b
    · subst hb
      rw [Function.update_self]
      exact chain_addHead (hr.chain b') (hr.apart.nodup b') (hnot b')
    · rw [Function.update_of_ne hb]
      refine (hr.chain b').congr ?_ fun x hx => ?_
      · rw [hread]
        simp [hb]
      · have hxa : x ≠ a := fun heq => hnot b' (heq ▸ hx)
        refine ⟨?_, hother x hxa fun hmem => hb (hr.eq_of_mem hmem hx)⟩
        rw [hread]
        simp [hxa]
  · exact hr.apart.add (List.nodup_singleton a) (fun x hx => List.mem_singleton.mp hx ▸ hnot)
      (by rw [Function.update_self]; rfl) fun j hj => Function.update_of_ne hj ..
  · have hxa : x ≠ a := by
      rintro rfl
      exact hx b (by simp)
    have hnotx (b' : β) : x ∉ lists b' := by
      intro hmem
      apply hx b'
      by_cases hb : b' = b
      · rw [hb, Function.update_self]
        exact List.mem_cons_of_mem a (hb ▸ hmem)
      · rwa [Function.update_of_ne hb]
    rw [hother x hxa (hnotx b)]
    exact hr.unhashed x hnotx

/-- A node for another. -/
def swap (old new x : α) : α := if x = old then new else x

omit [DecidableEq β] in
theorem map_swap {old new : α} {nodes : List α} (hold : old ∉ nodes) :
    nodes.map (swap old new) = nodes := by
  conv_rhs => rw [← List.map_id nodes]
  refine List.map_congr_left fun x hx => ?_
  have hne : x ≠ old := fun heq => hold (heq ▸ hx)
  exact if_neg hne

omit [DecidableEq β] in
theorem mem_map_swap {old new x : α} {nodes : List α} :
    x ∈ nodes.map (swap old new) ↔ (x = new ∧ old ∈ nodes) ∨ (x ≠ old ∧ x ∈ nodes) := by
  rw [List.mem_map]
  constructor
  · rintro ⟨y, hy, rfl⟩
    by_cases heq : y = old
    · exact .inl ⟨if_pos heq, heq ▸ hy⟩
    · rw [show swap old new y = y from if_neg heq]
      exact .inr ⟨heq, hy⟩
  · rintro (⟨rfl, hold⟩ | ⟨hne, hx⟩)
    · exact ⟨old, hold, if_pos rfl⟩
    · exact ⟨x, hx, if_neg hne⟩

omit [DecidableEq β] in
theorem apart_swap (ha : Apart lists) {old new : α} (hnew : ∀ b, new ∉ lists b) :
    Apart fun b => (lists b).map (swap old new) where
  nodup b := by
    refine (ha.nodup b).map_on ?_
    intro x hx y hy hsame
    unfold swap at hsame
    have hxn : x ≠ new := fun heq => hnew b (heq ▸ hx)
    have hyn : y ≠ new := fun heq => hnew b (heq ▸ hy)
    split at hsame <;> split at hsame <;> simp_all
  disjoint i j hij x hi hj := by
    rcases mem_map_swap.mp hi with ⟨rfl, hold⟩ | ⟨-, hx⟩
    · rcases mem_map_swap.mp hj with ⟨-, hold'⟩ | ⟨-, hx'⟩
      · exact ha.disjoint i j hij hold hold'
      · exact hnew j hx'
    · rcases mem_map_swap.mp hj with ⟨rfl, -⟩ | ⟨-, hx'⟩
      · exact hnew i hx
      · exact ha.disjoint i j hij hx hx'

theorem replaceInit (hr : Rep h lists) {old new : α} (hold : h.pprev old ≠ none)
    (hnew : h.pprev new = none) :
    ∃ h', h.replaceInit old new = some h' ∧ Rep h' fun b => (lists b).map (swap old new) := by
  have hnot := hr.unhashed_iff.mp hnew
  obtain ⟨slot, hslot⟩ := Option.ne_none_iff_exists'.mp hold
  obtain ⟨b, hmem⟩ := hr.exists_mem hslot
  obtain ⟨pre, post, heq, -, -, hback, -⟩ := hr.split hmem
  obtain ⟨h', hh', hread, hpprev⟩ := Links.replaceInit_eq_some hback new
  have hother (x : α) (hxn : x ≠ new) (hx : x ∉ lists b) : h'.pprev x = h.pprev x := by
    have hxo : x ≠ old := fun heq => hx (heq ▸ hmem)
    rw [hpprev, if_neg hxo, if_neg fun hnext => hx (hr.next_mem hmem hnext), if_neg hxn]
  refine ⟨h', hh', fun b' => ?_, apart_swap hr.apart hnot, fun x hx => ?_⟩
  · by_cases hb : b' = b
    · subst hb
      have hnodup := hr.apart.nodup b'
      have hc := hr.chain b'
      have hnotb := hnot b'
      rw [heq] at hnodup hc hnotb
      obtain ⟨-, hpost, hdisjoint⟩ := List.nodup_append'.mp hnodup
      rw [heq, List.map_append, List.map_cons, map_swap fun hpre =>
        hdisjoint hpre List.mem_cons_self,
        map_swap (List.nodup_cons.mp hpost).1, show swap old new old = new from if_pos rfl]
      exact chain_replaceInit hnodup hnotb hc hh'
    · obtain ⟨hfirst, hnext⟩ := hr.behind_ne heq hb
      have hold' : old ∉ lists b' := fun hold' => hb (hr.eq_of_mem hmem hold')
      rw [map_swap hold']
      refine (hr.chain b').congr ?_ fun x hx => ?_
      · rw [hread, if_neg nofun, if_neg hfirst.symm, if_neg nofun]
      · have hxo : x ≠ old := fun heq => hold' (heq ▸ hx)
        have hxn : x ≠ new := fun heq => hnot b' (heq ▸ hx)
        refine ⟨?_, hother x hxn fun hmem' => hb (hr.eq_of_mem hmem' hx)⟩
        rw [hread, if_neg (by simp [hxo]), if_neg (hnext x hx).symm, if_neg (by simp [hxn])]
  · have hxn : x ≠ new := by
      rintro rfl
      exact hx b (mem_map_swap.mpr (.inl ⟨rfl, hmem⟩))
    by_cases hxo : x = old
    · rw [hpprev, if_pos hxo]
    · have hnotx (b' : β) : x ∉ lists b' :=
        fun hmem' => hx b' (mem_map_swap.mpr (.inr ⟨hxo, hmem'⟩))
      rw [hother x hxn (hnotx b)]
      exact hr.unhashed x hnotx

omit [DecidableEq β] in
/-- A walk meets the nodes of the list. -/
theorem walks_iff (hr : Rep h lists) (nodes : List α) :
    h.walks (h.first b) nodes = true ↔ nodes = lists b := by
  have hwalks (slot : Slot α β) (l : List α) (hc : Chain h slot l) :
      h.walks (h.read slot) nodes = true ↔ nodes = l := by
    induction l generalizing slot nodes with
    | nil =>
      rw [show h.read slot = none from hc]
      cases nodes <;> simp [Links.walks]
    | cons a l ih =>
      obtain ⟨hfirst, -, hrest⟩ := hc
      rw [hfirst]
      cases nodes with
      | nil => simp [Links.walks]
      | cons x nodes =>
        rw [Links.walks, Bool.and_eq_true, decide_eq_true_iff]
        have hih := ih nodes (.next a) hrest
        rw [show h.read (.next a) = h.next a from rfl] at hih
        rw [hih, List.cons.injEq, eq_comm]
  exact hwalks (.first b) (lists b) (hr.chain b)

end Rep

end Hlist
