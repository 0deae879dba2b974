import Sewg.Lib.Custody

/-! Elements that go from hand to hand. A goroutine takes an element from a pool, puts it
into a queue for another goroutine and at the same time gives it to the workers; the
other one waits for the element's mutex, which the worker unlocks when it is done. -/

namespace Handover

/-- What a goroutine has: elements of its own, elements whose mutex it waits for, and
elements whose mutex it is to unlock. -/
structure Local where
  hand : List Nat := []
  waiting : List Nat := []
  key : List Nat := []

/-- `ordered` are the queues whose elements have to be waited for. -/
structure Table (η κ : Type) where
  pool : List Nat
  locals : η → Local
  queue : κ → List Nat
  ordered : κ → Bool
  work : List Nat
  locked : Nat → Bool
  dropped : Nat → Bool

inductive Slot (η κ : Type) where
  | pool
  | hand (h : η)
  | queue (q : κ)
  | waiting (h : η)
  | key (h : η)
  | work

inductive Place (η κ : Type) where
  | queue (q : κ)
  | waiting (h : η)

/-- Who is to unlock an element. -/
inductive Holder (η : Type) where
  | key (h : η)
  | work

inductive Custody (η κ : Type) where
  | nowhere
  | pool
  | hand (h : η)
  | filed (place : Place η κ) (holder : Option (Holder η))

section
variable {η κ : Type}

def within : Custody η κ → Slot η κ → Prop
  | .pool, .pool => True
  | .hand h, .hand h' => h = h'
  | .filed (.queue q) _, .queue q' => q = q'
  | .filed (.waiting h) _, .waiting h' => h = h'
  | .filed _ (some (.key h)), .key h' => h = h'
  | .filed _ (some .work), .work => True
  | _, _ => False

def Table.places (v : Table η κ) : Slot η κ → List Nat
  | .pool => v.pool
  | .hand h => (v.locals h).hand
  | .queue q => v.queue q
  | .waiting h => (v.locals h).waiting
  | .key h => (v.locals h).key
  | .work => v.work

/-- Who is to unlock an element finds it locked, and the workers find it undropped. -/
def Table.Sound (v : Table η κ) (x : Nat) : Custody η κ → Prop
  | .filed place (some holder) => v.locked x = true ∧ (∀ q, place = .queue q → v.ordered q = true) ∧
      (holder = .work → v.dropped x = false)
  | _ => True

structure Table.Kept (v : Table η κ) (custody : Nat → Custody η κ) : Prop where
  tracks : Tracks within v.places custody
  sound : ∀ x, v.Sound x (custody x)

variable {c : Custody η κ}

theorem within_iff (c : Custody η κ) (slot : Slot η κ) : within c slot ↔
    match slot with
    | .pool => c = .pool
    | .hand h => c = .hand h
    | .queue q => ∃ holder, c = .filed (.queue q) holder
    | .waiting h => ∃ holder, c = .filed (.waiting h) holder
    | .key h => ∃ place, c = .filed place (some (.key h))
    | .work => ∃ place, c = .filed place (some .work) := by
  rcases c with _ | _ | _ | ⟨_ | _, _ | _ | _⟩ <;> cases slot <;> simp [within]

theorem within_pool (h : within c .pool) : c = .pool := (within_iff c .pool).mp h

theorem within_hand {i : η} (h : within c (.hand i)) : c = .hand i := (within_iff c (.hand i)).mp h

theorem within_queue {q : κ} (h : within c (.queue q)) : ∃ holder, c = .filed (.queue q) holder :=
  (within_iff c (.queue q)).mp h

theorem within_waiting {i : η} (h : within c (.waiting i)) :
    ∃ holder, c = .filed (.waiting i) holder :=
  (within_iff c (.waiting i)).mp h

theorem within_key {i : η} (h : within c (.key i)) : ∃ place, c = .filed place (some (.key i)) :=
  (within_iff c (.key i)).mp h

theorem within_work (h : within c .work) : ∃ place, c = .filed place (some .work) :=
  (within_iff c .work).mp h

/-- Nobody is to unlock the element. -/
def Custody.Free : Custody η κ → Prop
  | .filed _ (some _) => False
  | _ => True

theorem Custody.Free.not_within (hc : c.Free) : (∀ j, ¬ within c (.key j)) ∧ ¬ within c .work := by
  cases c with
  | nowhere | pool | hand => simp [within_iff]
  | filed place holder =>
    cases holder with
    | none => simp [within_iff]
    | some => exact hc.elim

theorem Custody.Free.sound (hc : c.Free) (v : Table η κ) (x : Nat) : v.Sound x c := by
  cases c with
  | nowhere | pool | hand => trivial
  | filed place holder =>
    cases holder with
    | none => trivial
    | some => exact hc.elim

variable {v v' : Table η κ} {custody : Nat → Custody η κ} {x : Nat}

/-- An element that can be had without waiting is to be unlocked by nobody. -/
theorem Table.Kept.unlocked (hv : v.Kept custody) {place : Place η κ} {holder : Option (Holder η)}
    (hx : custody x = .filed place holder)
    (hfree : (∃ q, place = .queue q ∧ v.ordered q = false) ∨ v.locked x = false) :
    holder = none := by
  cases holder with
  | none => rfl
  | some holder =>
    have hsound := hv.sound x
    rw [hx] at hsound
    obtain ⟨hlocked, hordered, -⟩ := hsound
    rcases hfree with ⟨q, hq, hfree⟩ | hfree
    · rw [hordered q hq] at hfree
      cases hfree
    · rw [hlocked] at hfree
      cases hfree

/-- What is in the pool is in nobody's hands. -/
theorem Table.Kept.ne_of_pool (hv : v.Kept custody) (hx : x ∈ v.pool) {j : η} {y : Nat}
    (hy : y ∈ (v.locals j).hand ∨ y ∈ (v.locals j).key) : y ≠ x := by
  rintro rfl
  have hpool := within_pool ((hv.tracks.mem .pool y).mp hx)
  rcases hy with hy | hy
  · have hhand := within_hand ((hv.tracks.mem (.hand j) y).mp hy)
    rw [hpool] at hhand
    cases hhand
  · obtain ⟨place, hkey⟩ := within_key ((hv.tracks.mem (.key j) y).mp hy)
    rw [hpool] at hkey
    cases hkey

/-- What one is to unlock, no other has. -/
theorem Table.Kept.ne_of_key (hv : v.Kept custody) {h j : η} (hx : x ∈ (v.locals h).key)
    (hj : j ≠ h) {y : Nat} (hy : y ∈ (v.locals j).hand ∨ y ∈ (v.locals j).key) : y ≠ x := by
  rintro rfl
  obtain ⟨place, hkey⟩ := within_key ((hv.tracks.mem (.key h) y).mp hx)
  rcases hy with hy | hy
  · have hhand := within_hand ((hv.tracks.mem (.hand j) y).mp hy)
    rw [hkey] at hhand
    cases hhand
  · obtain ⟨place', hkey'⟩ := within_key ((hv.tracks.mem (.key j) y).mp hy)
    rw [hkey] at hkey'
    cases hkey'
    exact hj rfl

/-- Nor what one waits for without need. -/
theorem Table.Kept.ne_of_waiting (hv : v.Kept custody) {h j : η} (hx : x ∈ (v.locals h).waiting)
    (hlocked : v.locked x = false) {y : Nat} (hy : y ∈ (v.locals j).hand ∨ y ∈ (v.locals j).key) :
    y ≠ x := by
  rintro rfl
  obtain ⟨holder, hwaiting⟩ := within_waiting ((hv.tracks.mem (.waiting h) y).mp hx)
  cases hv.unlocked hwaiting (.inr hlocked)
  rcases hy with hy | hy
  · have hhand := within_hand ((hv.tracks.mem (.hand j) y).mp hy)
    rw [hwaiting] at hhand
    cases hhand
  · obtain ⟨place, hkey⟩ := within_key ((hv.tracks.mem (.key j) y).mp hy)
    rw [hwaiting] at hkey
    cases hkey

/-- At first all there is is in the pool. -/
theorem Table.kept_pooled (hnodup : v.pool.Nodup) (hlocals : ∀ h, v.locals h = {})
    (hqueue : ∀ q, v.queue q = [])
    (hwork : v.work = []) : v.Kept fun x => if x ∈ v.pool then .pool else .nowhere where
  tracks := by
    constructor
    · intro slot x
      by_cases hx : x ∈ v.pool
      · cases slot <;> simp [Table.places, within_iff, hlocals, hqueue, hwork, hx]
      · cases slot <;> simp [Table.places, within_iff, hlocals, hqueue, hwork, hx]
    · intro slot
      cases slot <;> simp [Table.places, hlocals, hqueue, hwork, hnodup]
  sound x := by
    split <;> trivial

theorem change_queue [DecidableEq κ] {c c' : Custody η κ} {q : κ} {items : List Nat}
    (hq : Change x (within c (.queue q)) (within c' (.queue q)) (v.queue q) items)
    (hqueue : v'.queue = Function.update v.queue q items)
    (hothers : ∀ q', q' ≠ q → (within c (.queue q') ↔ within c' (.queue q'))) (q' : κ) :
    Change x (within c (.queue q')) (within c' (.queue q')) (v.queue q') (v'.queue q') := by
  rw [hqueue]
  by_cases hqq : q' = q
  · rw [hqq, Function.update_self]
    exact hq
  · exact .same (Function.update_of_ne hqq ..) (hothers q' hqq)

end

/-- Goroutine `h` has `l` afterwards, and of the elements at most `x` has changed. -/
structure Acts {η κ : Type} [DecidableEq η] (v v' : Table η κ) (h : η) (x : Nat)
    (l : Local) : Prop where
  locals : v'.locals = Function.update v.locals h l
  ordered : v'.ordered = v.ordered
  record : ∀ y, y ≠ x → v'.locked y = v.locked y ∧ v'.dropped y = v.dropped y

/-- What a goroutine may do. -/
inductive Step {η κ : Type} [DecidableEq η] [DecidableEq κ] (v v' : Table η κ) : Prop
  | stay : v' = v → Step v v'
  /-- Take an element from the pool, and give it back. -/
  | take {h x l} : Acts v v' h x l → v.pool = x :: v'.pool →
      l = { v.locals h with hand := x :: (v.locals h).hand } → v'.queue = v.queue →
      v'.work = v.work → Step v v'
  | give {h x l} : Acts v v' h x l → v'.pool = v.pool ++ [x] →
      v.locals h = { l with hand := x :: l.hand } → v'.queue = v.queue →
      v'.work = v.work → Step v v'
  /-- Change an element of one's own. -/
  | write {h x l} : Acts v v' h x l → x ∈ l.hand → l = v.locals h → v'.pool = v.pool →
      v'.queue = v.queue → v'.work = v.work → Step v v'
  /-- Put it into a queue, or into one in which it has to be waited for. -/
  | put {h x l q} : Acts v v' h x l → v.locals h = { l with hand := x :: l.hand } →
      v'.pool = v.pool →
      v'.queue = Function.update v.queue q (v.queue q ++ [x]) → v'.work = v.work → Step v v'
  | file {h x q} {l : Local} : Acts v v' h x { l with key := x :: l.key } →
      v.locals h = { l with hand := x :: l.hand } →
      v'.pool = v.pool → v'.queue = Function.update v.queue q (v.queue q ++ [x]) →
      v'.work = v.work →
      v.ordered q = true → v'.locked x = true → Step v v'
  /-- Leave it to the workers, and be the worker. -/
  | pass {h x l} : Acts v v' h x l → v.locals h = { l with key := x :: l.key } → v'.pool = v.pool →
      v'.queue = v.queue → v'.work = v.work ++ [x] → v'.locked x = v.locked x →
      v'.dropped x = false → Step v v'
  | pick {h x l} : Acts v v' h x l → l = { v.locals h with key := x :: (v.locals h).key } →
      v'.pool = v.pool →
      v'.queue = v.queue → v.work = x :: v'.work → v'.locked x = v.locked x → Step v v'
  /-- Drop an element whose mutex one is to unlock, and unlock it. -/
  | mark {h x l} :
      Acts v v' h x l → x ∈ l.key → l = v.locals h → v'.pool = v.pool → v'.queue = v.queue →
      v'.work = v.work → v'.locked x = v.locked x → Step v v'
  | release {h x l} : Acts v v' h x l → v.locals h = { l with key := x :: l.key } →
      v'.pool = v.pool → v'.queue = v.queue → v'.work = v.work → Step v v'
  /-- Take an element from a queue to wait for its mutex, and get it. -/
  | await {h x l q rest} : Acts v v' h x l →
      l = { v.locals h with waiting := x :: (v.locals h).waiting } →
      v'.pool = v.pool → v.queue q = x :: rest → v'.queue = Function.update v.queue q rest →
      v'.work = v.work →
      v'.locked x = v.locked x → v'.dropped x = v.dropped x → Step v v'
  | lock {h x} {l : Local} : Acts v v' h x { l with hand := x :: l.hand } →
      v.locals h = { l with waiting := x :: l.waiting } → v'.pool = v.pool → v'.queue = v.queue →
      v'.work = v.work → v.locked x = false → Step v v'
  /-- Take one for which nobody has to be waited. -/
  | claim {h x l q rest} : Acts v v' h x l →
      l = { v.locals h with hand := x :: (v.locals h).hand } →
      v'.pool = v.pool → v.queue q = x :: rest → v'.queue = Function.update v.queue q rest →
      v'.work = v.work →
      v.ordered q = false ∨ v.locked x = false → Step v v'

section
variable {η κ : Type} [DecidableEq η] {v v' : Table η κ} {custody : Nat → Custody η κ}
  {x : Nat} {h : η} {l : Local} {c : Custody η κ}

theorem Acts.changes {c c' : Custody η κ} (ha : Acts v v' h x l)
    (hpool : Change x (within c .pool) (within c' .pool) v.pool v'.pool)
    (hhand : Change x (within c (.hand h)) (within c' (.hand h)) (v.locals h).hand l.hand)
    (hqueue : ∀ q, Change x (within c (.queue q)) (within c' (.queue q)) (v.queue q) (v'.queue q))
    (hwaiting : Change x (within c (.waiting h)) (within c' (.waiting h))
      (v.locals h).waiting l.waiting)
    (hkey : Change x (within c (.key h)) (within c' (.key h)) (v.locals h).key l.key)
    (hwork : Change x (within c .work) (within c' .work) v.work v'.work)
    (hothers : ∀ j, j ≠ h → (within c (.hand j) ↔ within c' (.hand j)) ∧
      (within c (.waiting j) ↔ within c' (.waiting j)) ∧ (within c (.key j) ↔ within c' (.key j)))
    (slot : Slot η κ) :
    Change x (within c slot) (within c' slot) (v.places slot) (v'.places slot) := by
  have hlocals : ∀ j, j ≠ h → v'.locals j = v.locals j := fun j hj => by
    rw [ha.locals, Function.update_of_ne hj]
  have hself : v'.locals h = l := by rw [ha.locals, Function.update_self]
  cases slot with
  | pool => exact hpool
  | queue q => exact hqueue q
  | work => exact hwork
  | hand j =>
    by_cases hj : j = h
    · rw [hj, Table.places, Table.places, hself]
      exact hhand
    · exact .same (congrArg Local.hand (hlocals j hj)) (hothers j hj).1
  | waiting j =>
    by_cases hj : j = h
    · rw [hj, Table.places, Table.places, hself]
      exact hwaiting
    · exact .same (congrArg Local.waiting (hlocals j hj)) (hothers j hj).2.1
  | key j =>
    by_cases hj : j = h
    · rw [hj, Table.places, Table.places, hself]
      exact hkey
    · exact .same (congrArg Local.key (hlocals j hj)) (hothers j hj).2.2

theorem Table.Kept.hand (hv : v.Kept custody) (ha : Acts v v' h x l)
    (hchange : ∀ slot, Change x (within (custody x) slot) (within c slot) (v.places slot)
      (v'.places slot))
    (hsound : v'.Sound x c) : v'.Kept (Function.update custody x c) where
  tracks := hv.tracks.hand hchange
  sound y := by
    by_cases hy : y = x
    · rw [hy, Function.update_self]
      exact hsound
    · have hsame := hv.sound y
      obtain ⟨hlocked, hdropped⟩ := ha.record y hy
      rw [Function.update_of_ne hy]
      unfold Table.Sound at hsame ⊢
      rw [hlocked, hdropped, ha.ordered]
      exact hsame

/-- The mutex passes from one to another. -/
theorem Table.Kept.passes (hv : v.Kept custody) (ha : Acts v v' h x l) {place : Place η κ}
    {holder : Option (Holder η)} (holder' : Option (Holder η))
    (hx : custody x = .filed place holder) (hpool : v'.pool = v.pool)
    (hhand : l.hand = (v.locals h).hand) (hwaiting : l.waiting = (v.locals h).waiting)
    (hqueue : v'.queue = v.queue) (hkey : Change x (within (.filed place holder) (.key h))
      (within (.filed place holder') (.key h)) (v.locals h).key l.key)
    (hwork : Change x (within (.filed place holder) .work)
      (within (.filed place holder') .work) v.work v'.work)
    (hkeys : ∀ j, j ≠ h →
      (within (.filed place holder) (.key j) ↔ within (.filed place holder') (.key j)))
    (hsound : v'.Sound x (.filed place holder')) :
    v'.Kept (Function.update custody x (.filed place holder')) := by
  refine hv.hand ha (ha.changes (.same hpool ?_) (.same hhand ?_) ?_ (.same hwaiting ?_) (hx ▸ hkey)
    (hx ▸ hwork) ?_) hsound
  · cases place <;> simp [hx, within_iff]
  · cases place <;> simp [hx, within_iff]
  · intro q
    refine .same (congrFun hqueue q) ?_
    cases place <;> simp [hx, within_iff]
  · cases place <;> simp [hx, within_iff]
  · intro j hj
    refine ⟨?_, ?_, hx ▸ hkeys j hj⟩
    · cases place <;> simp [hx, within_iff]
    · cases place <;> simp [hx, within_iff]

/-- The element moves on, and whoever is to unlock it stays the same. -/
theorem Table.Kept.moves (hv : v.Kept custody) (ha : Acts v v' h x l) {place : Place η κ}
    (place' : Place η κ)
    {holder : Option (Holder η)} (hx : custody x = .filed place holder) (hpool : v'.pool = v.pool)
    (hhand : l.hand = (v.locals h).hand) (hkey : l.key = (v.locals h).key)
    (hwork : v'.work = v.work) (hqueue : ∀ q, Change x (within (.filed place holder) (.queue q))
      (within (.filed place' holder) (.queue q)) (v.queue q) (v'.queue q))
    (hwaiting : Change x (within (.filed place holder) (.waiting h))
      (within (.filed place' holder) (.waiting h)) (v.locals h).waiting l.waiting)
    (hothers : ∀ j, j ≠ h →
      (within (.filed place holder) (.waiting j) ↔ within (.filed place' holder) (.waiting j)))
    (hsound : v'.Sound x (.filed place' holder)) :
    v'.Kept (Function.update custody x (.filed place' holder)) := by
  have hsame :
      ∀ j, (within (.filed place holder) (.key j) ↔ within (.filed place' holder) (.key j)) := by
    intro j
    rcases holder with _ | _ | _ <;> simp [within_iff]
  refine hv.hand ha (ha.changes (.same hpool ?_) (.same hhand ?_) (hx ▸ hqueue) (hx ▸ hwaiting)
    (.same hkey (hx ▸ hsame h)) (.same hwork ?_) ?_) hsound
  · simp [hx, within_iff]
  · simp [hx, within_iff]
  · rcases holder with _ | _ | _ <;> simp [hx, within_iff]
  · intro j hj
    rw [hx]
    exact ⟨by simp [within_iff], hothers j hj, hsame j⟩

theorem Table.Kept.free (hv : v.Kept custody) (ha : Acts v v' h x l) (hfree : (custody x).Free)
    (hfree' : c.Free) (hkey : l.key = (v.locals h).key) (hwork : v'.work = v.work)
    (hpool : Change x (within (custody x) .pool) (within c .pool) v.pool v'.pool)
    (hhand : Change x (within (custody x) (.hand h)) (within c (.hand h)) (v.locals h).hand l.hand)
    (hqueue : ∀ q, Change x (within (custody x) (.queue q)) (within c (.queue q))
      (v.queue q) (v'.queue q))
    (hwaiting : Change x (within (custody x) (.waiting h)) (within c (.waiting h))
      (v.locals h).waiting l.waiting)
    (hothers : ∀ j, j ≠ h → (within (custody x) (.hand j) ↔ within c (.hand j)) ∧
      (within (custody x) (.waiting j) ↔ within c (.waiting j))) : v'.Kept
        (Function.update custody x c) := by
  obtain ⟨hkeys, hworks⟩ := hfree.not_within
  obtain ⟨hkeys', hworks'⟩ := hfree'.not_within
  have hsame : ∀ j, within (custody x) (.key j) ↔ within c (.key j) :=
    fun j => ⟨fun h => absurd h (hkeys j), fun h => absurd h (hkeys' j)⟩
  refine hv.hand ha
    (ha.changes hpool hhand hqueue hwaiting (.same hkey (hsame h)) (.same hwork ?_) ?_)
    (hfree'.sound v' x)
  · exact ⟨fun h => absurd h hworks, fun h => absurd h hworks'⟩
  · intro j hj
    exact ⟨(hothers j hj).1, (hothers j hj).2, hsame j⟩

variable [DecidableEq κ]

/-- After every step the custody can be told, and what was somewhere still is. -/
theorem Step.kept (hst : Step v v') (hv : v.Kept custody) :
    ∃ custody', v'.Kept custody' ∧ ∀ x, custody x ≠ .nowhere → custody' x ≠ .nowhere := by
  have hmoved :
      ∀ {x : Nat} {c : Custody η κ}, v'.Kept (Function.update custody x c) → c ≠ .nowhere →
      ∃ custody', v'.Kept custody' ∧ ∀ x, custody x ≠ .nowhere → custody' x ≠ .nowhere := by
    intro x c hkept hc
    refine ⟨_, hkept, ?_⟩
    intro y hy
    by_cases hyx : y = x
    · rw [hyx, Function.update_self]
      exact hc
    · rw [Function.update_of_ne hyx]
      exact hy
  cases hst with
  | stay heq => exact ⟨custody, heq ▸ hv, fun _ => id⟩
  | @take h x l ha hpool hl hqueue hwork =>
    have hx : custody x = .pool :=
      within_pool ((hv.tracks.mem .pool x).mp (by simp [Table.places, hpool]))
    refine hmoved
      (hv.free (c := .hand h) ha (hx ▸ trivial) trivial (hl ▸ rfl) hwork ?_ ?_ ?_ ?_ ?_) nofun
    · exact .taken (.of_eq hpool) (by simp [within_iff])
    · exact .added (.of_eq (hl ▸ rfl)) (by simp [hx, within_iff]) rfl
    · intro q
      exact .same (congrFun hqueue q) (by simp [hx, within_iff])
    · exact .same (hl ▸ rfl) (by simp [hx, within_iff])
    · intro j hj
      simp [hx, within_iff, Ne.symm hj]
  | @give h x l ha hpool hl hqueue hwork =>
    have hx : custody x = .hand h :=
      within_hand ((hv.tracks.mem (.hand h) x).mp (by simp [Table.places, hl]))
    refine hmoved
      (hv.free (c := .pool) ha (hx ▸ trivial) trivial (hl ▸ rfl) hwork ?_ ?_ ?_ ?_ ?_) nofun
    · exact .added (hpool ▸ List.perm_append_singleton x v.pool) (by simp [hx, within_iff]) trivial
    · exact .taken (.of_eq (hl ▸ rfl)) (by simp [within_iff])
    · intro q
      exact .same (congrFun hqueue q) (by simp [hx, within_iff])
    · exact .same (hl ▸ rfl) (by simp [hx, within_iff])
    · intro j hj
      simp [hx, within_iff, Ne.symm hj]
  | @write h x l ha hmem hl hpool hqueue hwork =>
    have hx : custody x = .hand h :=
      within_hand ((hv.tracks.mem (.hand h) x).mp (by rwa [hl] at hmem))
    refine hmoved
      (hv.free (c := .hand h) ha (hx ▸ trivial) trivial (hl ▸ rfl) hwork (.same hpool ?_)
      (.same (hl ▸ rfl) ?_) ?_ (.same (hl ▸ rfl) ?_) ?_) nofun
    · simp [hx, within_iff]
    · simp [hx, within_iff]
    · intro q
      exact .same (congrFun hqueue q) (by simp [hx, within_iff])
    · simp [hx, within_iff]
    · intro j _
      simp [hx, within_iff]
  | @put h x l q ha hl hpool hqueue hwork =>
    have hx : custody x = .hand h :=
      within_hand ((hv.tracks.mem (.hand h) x).mp (by simp [Table.places, hl]))
    refine hmoved (hv.free (c := .filed (.queue q) none) ha (hx ▸ trivial) trivial (hl ▸ rfl) hwork
      (.same hpool ?_) ?_ (change_queue ?_ hqueue ?_) (.same (hl ▸ rfl) ?_) ?_) nofun
    · simp [hx, within_iff]
    · exact .taken (.of_eq (hl ▸ rfl)) (by simp [within_iff])
    · exact .added (List.perm_append_singleton x _) (by simp [hx, within_iff])
        (by simp [within_iff])
    · intro q' hq
      simp [hx, within_iff, Ne.symm hq]
    · simp [hx, within_iff]
    · intro j hj
      simp [hx, within_iff, Ne.symm hj]
  | @file h x q l ha hl hpool hqueue hwork hordered hlocked =>
    have hx : custody x = .hand h :=
      within_hand ((hv.tracks.mem (.hand h) x).mp (by simp [Table.places, hl]))
    refine hmoved
      (hv.hand (c := .filed (.queue q) (some (.key h))) ha (ha.changes (.same hpool ?_) ?_
      (change_queue ?_ hqueue ?_) (.same (hl ▸ rfl) ?_) ?_ (.same hwork ?_) ?_) ?_) nofun
    · simp [hx, within_iff]
    · exact .taken (.of_eq (hl ▸ rfl)) (by simp [within_iff])
    · exact .added (List.perm_append_singleton x _) (by simp [hx, within_iff])
        (by simp [within_iff])
    · intro q' hq
      simp [hx, within_iff, Ne.symm hq]
    · simp [hx, within_iff]
    · exact .added (.of_eq (hl ▸ rfl)) (by simp [hx, within_iff]) (by simp [within_iff])
    · simp [hx, within_iff]
    · intro j hj
      simp [hx, within_iff, Ne.symm hj]
    · refine ⟨hlocked, ?_, nofun⟩
      rintro q' ⟨⟩
      rw [ha.ordered]
      exact hordered
  | @pass h x l ha hl hpool hqueue hwork hlocked hdropped =>
    obtain ⟨place, hx⟩ := within_key ((hv.tracks.mem (.key h) x).mp (by simp [Table.places, hl]))
    have hsound := hv.sound x
    rw [hx] at hsound
    refine hmoved
      (hv.passes ha (some .work) hx hpool (hl ▸ rfl) (hl ▸ rfl) hqueue ?_ ?_ ?_ ?_) nofun
    · exact .taken (.of_eq (hl ▸ rfl)) (by simp [within_iff])
    · exact .added (hwork ▸ List.perm_append_singleton x v.work) (by simp [within_iff])
        (by simp [within_iff])
    · intro j hj
      simp [within_iff, Ne.symm hj]
    · exact ⟨hlocked.trans hsound.1, ha.ordered ▸ hsound.2.1, fun _ => hdropped⟩
  | @pick h x l ha hl hpool hqueue hwork hlocked =>
    obtain ⟨place, hx⟩ := within_work ((hv.tracks.mem .work x).mp (by simp [Table.places, hwork]))
    have hsound := hv.sound x
    rw [hx] at hsound
    refine hmoved
      (hv.passes ha (some (.key h)) hx hpool (hl ▸ rfl) (hl ▸ rfl) hqueue ?_ ?_ ?_ ?_) nofun
    · exact .added (.of_eq (hl ▸ rfl)) (by simp [within_iff]) (by simp [within_iff])
    · exact .taken (.of_eq hwork) (by simp [within_iff])
    · intro j hj
      simp [within_iff, Ne.symm hj]
    · exact ⟨hlocked.trans hsound.1, ha.ordered ▸ hsound.2.1, nofun⟩
  | @mark h x l ha hmem hl hpool hqueue hwork hlocked =>
    obtain ⟨place, hx⟩ := within_key ((hv.tracks.mem (.key h) x).mp (by rwa [hl] at hmem))
    have hsound := hv.sound x
    rw [hx] at hsound
    refine hmoved (hv.passes ha (some (.key h)) hx hpool (hl ▸ rfl) (hl ▸ rfl) hqueue
      (.same (hl ▸ rfl) Iff.rfl) (.same hwork Iff.rfl) (fun _ _ => Iff.rfl) ?_) nofun
    exact ⟨hlocked.trans hsound.1, ha.ordered ▸ hsound.2.1, nofun⟩
  | @release h x l ha hl hpool hqueue hwork =>
    obtain ⟨place, hx⟩ := within_key ((hv.tracks.mem (.key h) x).mp (by simp [Table.places, hl]))
    refine hmoved
      (hv.passes ha none hx hpool (hl ▸ rfl) (hl ▸ rfl) hqueue ?_ (.same hwork ?_) ?_ trivial) nofun
    · exact .taken (.of_eq (hl ▸ rfl)) (by simp [within_iff])
    · simp [within_iff]
    · intro j hj
      simp [within_iff, Ne.symm hj]
  | @await h x l q rest ha hl hpool hitems hqueue hwork hlocked hdropped =>
    obtain ⟨holder, hx⟩ :=
      within_queue ((hv.tracks.mem (.queue q) x).mp (by simp [Table.places, hitems]))
    refine hmoved
      (hv.moves ha (.waiting h) hx hpool (hl ▸ rfl) (hl ▸ rfl) hwork (change_queue ?_ hqueue ?_)
      ?_ ?_ ?_) nofun
    · exact .taken (.of_eq hitems) (by simp [within_iff])
    · intro q' hq
      simp [within_iff, Ne.symm hq]
    · exact .added (.of_eq (hl ▸ rfl)) (by simp [within_iff]) (by simp [within_iff])
    · intro j hj
      simp [within_iff, Ne.symm hj]
    · have hsound := hv.sound x
      rw [hx] at hsound
      cases holder with
      | none => trivial
      | some holder =>
        exact ⟨hlocked.trans hsound.1, nofun, fun hw => hdropped.trans (hsound.2.2 hw)⟩
  | @lock h x l ha hl hpool hqueue hwork hlocked =>
    obtain ⟨holder, hx⟩ :=
      within_waiting ((hv.tracks.mem (.waiting h) x).mp (by simp [Table.places, hl]))
    cases hv.unlocked hx (.inr hlocked)
    refine hmoved (hv.free (c := .hand h) ha (hx ▸ trivial) trivial (hl ▸ rfl) hwork
      (.same hpool ?_) ?_ ?_ ?_ ?_) nofun
    · simp [hx, within_iff]
    · exact .added (.of_eq (hl ▸ rfl)) (by simp [hx, within_iff]) rfl
    · intro q
      exact .same (congrFun hqueue q) (by simp [hx, within_iff])
    · exact .taken (.of_eq (hl ▸ rfl)) (by simp [within_iff])
    · intro j hj
      simp [hx, within_iff, Ne.symm hj]
  | @claim h x l q rest ha hl hpool hitems hqueue hwork hfree =>
    obtain ⟨holder, hx⟩ :=
      within_queue ((hv.tracks.mem (.queue q) x).mp (by simp [Table.places, hitems]))
    cases hv.unlocked hx (hfree.imp_left fun h => ⟨q, rfl, h⟩)
    refine hmoved (hv.free (c := .hand h) ha (hx ▸ trivial) trivial (hl ▸ rfl) hwork
      (.same hpool ?_) ?_ (change_queue ?_ hqueue ?_) (.same (hl ▸ rfl) ?_) ?_) nofun
    · simp [hx, within_iff]
    · exact .added (.of_eq (hl ▸ rfl)) (by simp [hx, within_iff]) rfl
    · exact .taken (.of_eq hitems) (by simp [within_iff])
    · intro q' hq
      simp [hx, within_iff, Ne.symm hq]
    · simp [hx, within_iff]
    · intro j hj
      simp [hx, within_iff, Ne.symm hj]

end

end Handover
