import Mathlib.Logic.Relation
import Mathlib.Logic.Function.Basic
import Sewg.Lib.Run

/-! Goroutines that share reader/writer locks. A writer first announces itself, which
keeps new readers and writers out, and then waits for the readers there are. Who waits
for whom is a relation between goroutines, and what matters of a goroutine is what it does
next and which locks it has. -/

namespace RWMutex

/-- Goroutines are numbers; a reader is listed as often as it has the lock. -/
structure Mutex where
  writer : Option Nat := none
  announced : Option Nat := none
  readers : List Nat := []

inductive Op (κ ρ : Type) where
  | announce (l : κ)
  | lock (l : κ)
  | unlock (l : κ)
  | rlock (l : κ)
  | runlock (l : κ)
  /-- Wait until a routine has returned. -/
  | join (r : ρ)
  | skip

/-- The operation never waits. -/
def Op.Rests {κ ρ : Type} : Op κ ρ → Prop
  | .unlock _ | .runlock _ | .skip => True
  | .announce _ | .lock _ | .rlock _ | .join _ => False

/-- The operation may wait for this lock. -/
def Op.On {κ ρ : Type} (l : κ) : Op κ ρ → Prop
  | .announce l' | .lock l' | .rlock l' => l' = l
  | .unlock _ | .runlock _ | .join _ | .skip => False

theorem Op.On.cases {κ ρ : Type} {l : κ} {op : Op κ ρ} (h : op.On l) :
    op = .announce l ∨ op = .rlock l ∨ op = .lock l := by
  cases op with
  | announce l' => exact .inl (congrArg _ h)
  | rlock l' => exact .inr (.inl (congrArg _ h))
  | lock l' => exact .inr (.inr (congrArg _ h))
  | unlock l' | runlock l' | join r | skip => exact h.elim

/-- The locks that a goroutine has, the last one first, and the one it has announced
itself for. -/
structure Footprint (κ : Type) where
  writes : List κ := []
  reads : List κ := []
  announces : Option κ := none

/-- A `Lock` in two halves. -/
def Op.write {κ ρ : Type} (l : κ) : Bool → Op κ ρ
  | false => .announce l
  | true => .lock l

/-- What is announced before the one half and before the other. -/
def announcing {κ : Type} (l : κ) : Bool → Option κ
  | false => none
  | true => some l

theorem Op.write_eq_lock {κ ρ : Type} {l l' : κ} {announced : Bool}
    (h : announcing l announced = some l') : (Op.write l announced : Op κ ρ) = .lock l' := by
  cases announced with
  | false => cases h
  | true =>
    cases h
    rfl

/-- What an operation does to the footprint. -/
inductive Moves {κ ρ : Type} : Op κ ρ → Footprint κ → Footprint κ → Prop
  | announce {l w r} : Moves (.announce l) ⟨w, r, none⟩ ⟨w, r, some l⟩
  | lock {l w r} : Moves (.lock l) ⟨w, r, some l⟩ ⟨l :: w, r, none⟩
  | unlock {l w r a} : Moves (.unlock l) ⟨l :: w, r, a⟩ ⟨w, r, a⟩
  | rlock {l w r a} : Moves (.rlock l) ⟨w, r, a⟩ ⟨w, l :: r, a⟩
  | runlock {l w r a} : Moves (.runlock l) ⟨w, l :: r, a⟩ ⟨w, r, a⟩
  | join {r f} : Moves (.join r) f f
  | skip {f} : Moves .skip f f

structure State (σ τ κ : Type) where
  data : σ
  table : κ → Mutex
  threads : Nat → τ

/-- A kind of goroutine: what it does next, where that takes it, which locks it has, and
the routine it is until it returns. -/
structure Program (σ τ ε κ ρ : Type) where
  op : τ → Op κ ρ
  next : τ → σ → ε → Option (τ × σ)
  footprint : τ → Footprint κ
  routine : τ → Option ρ
  /-- Everybody that is waited for has returned. -/
  joined : σ → ρ → Bool

section
variable {σ τ ε κ ρ : Type} [DecidableEq κ]

def perform (joined : ρ → Bool) (table : κ → Mutex) (i : Nat) : Op κ ρ → Option (κ → Mutex)
  | .announce l =>
    if (table l).writer = none ∧ (table l).announced = none then
      some (Function.update table l { table l with announced := some i })
    else none
  | .lock l =>
    if (table l).announced = some i ∧ (table l).writer = none ∧ (table l).readers = [] then
      some (Function.update table l { table l with writer := some i, announced := none })
    else none
  | .unlock l => some (Function.update table l { table l with writer := none })
  | .rlock l =>
    if (table l).writer = none ∧ (table l).announced = none then
      some (Function.update table l { table l with readers := i :: (table l).readers })
    else none
  | .runlock l =>
    some (Function.update table l { table l with readers := (table l).readers.erase i })
  | .join r => if joined r then some table else none
  | .skip => some table

variable (P : Program σ τ ε κ ρ)

/-- Event `(i, e)`: goroutine `i` does what it does next, with the choice `e`. -/
def step (s : State σ τ κ) (e : Nat × ε) : Option (State σ τ κ) :=
  (P.next (s.threads e.1) s.data e.2).bind fun (x, data) =>
    (perform (P.joined s.data) s.table e.1 (P.op (s.threads e.1))).map fun table =>
      ⟨data, table, Function.update s.threads e.1 x⟩

theorem step_cases {s t : State σ τ κ} {i : Nat} {e : ε} (h : step P s (i, e) = some t) :
    ∃ x, P.next (s.threads i) s.data e = some (x, t.data) ∧
      perform (P.joined s.data) s.table i (P.op (s.threads i)) = some t.table ∧
      t.threads i = x ∧ ∀ j, j ≠ i → t.threads j = s.threads j := by
  obtain ⟨⟨x, data⟩, hnext, h⟩ := Option.bind_eq_some_iff.mp h
  obtain ⟨table, hperform, rfl⟩ := Option.map_eq_some_iff.mp h
  refine ⟨x, hnext, hperform, Function.update_self .., ?_⟩
  intro j hj
  exact Function.update_of_ne hj ..

/-- Goroutine `i` cannot go on before `j` has done something. -/
def WaitsFor (s : State σ τ κ) (i j : Nat) : Prop :=
  match P.op (s.threads i) with
  | .announce l | .rlock l => (s.table l).writer = some j ∨ (s.table l).announced = some j
  | .lock l => (s.table l).writer = some j ∨ j ∈ (s.table l).readers
  | .join r => P.routine (s.threads j) = some r
  | .unlock _ | .runlock _ | .skip => False

end

/-! ## The locks and the footprints -/

section
variable {κ ρ : Type} [DecidableEq κ]

/-- The locks are held by those who think they hold them, and a writer holds its lock
alone. -/
structure Matches (table : κ → Mutex) (footprint : Nat → Footprint κ) : Prop where
  writer : ∀ l i, (table l).writer = some i ↔ l ∈ (footprint i).writes
  announced : ∀ l i, (table l).announced = some i ↔ (footprint i).announces = some l
  readers : ∀ l i, (table l).readers.count i = (footprint i).reads.count l
  nodup : ∀ i, (footprint i).writes.Nodup
  alone : ∀ l, (table l).writer ≠ none → (table l).readers = []

theorem Matches.free {footprint : Nat → Footprint κ} (hfree : ∀ i, footprint i = {}) :
    Matches (fun _ => {}) footprint := by
  constructor
  all_goals simp [hfree]

theorem Matches.perform {table table' : κ → Mutex} {footprint footprint' : Nat → Footprint κ}
    {i : Nat} {op : Op κ ρ} {joined : ρ → Bool} (hm : Matches table footprint)
    (hmoves : Moves op (footprint i) (footprint' i))
    (hothers : ∀ j, j ≠ i → footprint' j = footprint j)
    (hp : perform joined table i op = some table') : Matches table' footprint' := by
  obtain ⟨hwriter, hannounced, hreaders, hnodup, halone⟩ := id hm
  generalize hf : footprint i = f at hmoves
  generalize hf' : footprint' i = f' at hmoves
  -- the lock of the operation, and goroutine `i`, are the only ones that change
  cases hmoves with
  | announce | lock | rlock =>
    rw [RWMutex.perform] at hp
    split at hp
    · cases hp
      constructor
      all_goals grind
    · cases hp
  | @unlock l w =>
    have hheld : (table l).writer = some i :=
      (hwriter l i).mpr (by rw [hf]; exact List.mem_cons_self)
    have honce : l ∉ w := by
      have := hnodup i
      rw [hf] at this
      exact (List.nodup_cons.mp this).1
    cases hp
    constructor
    all_goals grind
  | runlock =>
    cases hp
    constructor
    all_goals grind
  | join | skip =>
    have hsame : footprint' = footprint := by
      funext j
      by_cases hj : j = i
      · rw [hj, hf, hf']
      · exact hothers j hj
    rw [hsame]
    rw [RWMutex.perform] at hp
    first
    | cases hp
      exact hm
    | split at hp
      · cases hp
        exact hm
      · cases hp

end

/-! ## Who waits -/

section
variable {σ τ ε κ ρ : Type} {P : Program σ τ ε κ ρ} {s t : State σ τ κ}

variable (P) in
/-- Whoever the goroutine waits for, and whoever that one waits for, and so on, there is
an end to it. -/
def Free (s : State σ τ κ) (i : Nat) : Prop := Acc (fun j i => WaitsFor P s i j) i

variable {i : Nat} {l : κ}

theorem Free.not_cycle (hi : Free P s i) : ¬ Relation.TransGen (WaitsFor P s) i i := by
  induction hi with
  | intro i _ ih =>
    intro hcycle
    obtain ⟨j, hij, hji⟩ := Relation.TransGen.head'_iff.mp hcycle
    exact ih j hij (Relation.TransGen.tail' hji hij)

theorem free_of_rests (hop : (P.op (s.threads i)).Rests) : Free P s i := by
  refine ⟨_, fun j hj => ?_⟩
  unfold WaitsFor at hj
  generalize P.op (s.threads i) = op at hop hj
  cases op with
  | unlock l | runlock l | skip => exact hj.elim
  | announce l | lock l | rlock l | join r => exact hop.elim

theorem free_of_join {r : ρ} (hop : P.op (s.threads i) = .join r)
    (hroutines : ∀ j, P.routine (s.threads j) = some r → Free P s j) : Free P s i := by
  refine ⟨_, fun j hj => ?_⟩
  simp only [WaitsFor, hop] at hj
  exact hroutines j hj

variable (P) in
/-- Every step moves the footprint as its operation says, and who has announced itself
locks next. -/
structure Faithful : Prop where
  moves : ∀ x data e x' data', P.next x data e = some (x', data') →
    Moves (P.op x) (P.footprint x) (P.footprint x')
  locks : ∀ x l, (P.footprint x).announces = some l → P.op x = .lock l

variable [DecidableEq κ]

variable (P) in
def Linked (s : State σ τ κ) : Prop := Matches s.table fun i => P.footprint (s.threads i)

theorem Linked.step {e : Nat × ε} (hl : Linked P s) (hf : Faithful P) (hst : step P s e = some t) :
    Linked P t := by
  obtain ⟨i, e⟩ := e
  obtain ⟨x, hnext, hperform, hti, hothers⟩ := step_cases P hst
  refine Matches.perform hl (hti ▸ hf.moves _ _ _ _ _ hnext) ?_ hperform
  intro j hj
  rw [hothers j hj]

/-- The announced writer waits for those who have the lock. -/
theorem free_of_lock (hl : Linked P s) (hop : P.op (s.threads i) = .lock l)
    (hwrites : ∀ j, l ∈ (P.footprint (s.threads j)).writes → Free P s j)
    (hreads : ∀ j, l ∈ (P.footprint (s.threads j)).reads → Free P s j) : Free P s i := by
  refine ⟨_, fun j hj => ?_⟩
  simp only [WaitsFor, hop] at hj
  rcases hj with hj | hj
  · exact hwrites j ((hl.writer l j).mp hj)
  · refine hreads j (List.count_pos_iff.mp ?_)
    rw [← hl.readers l j]
    exact List.count_pos_iff.mpr hj

/-- Everybody else waits for the writer or for the announced one. -/
theorem free_of_announced (hl : Linked P s)
    (hop : P.op (s.threads i) = .announce l ∨ P.op (s.threads i) = .rlock l)
    (hwrites : ∀ j, l ∈ (P.footprint (s.threads j)).writes → Free P s j)
    (hannounced : ∀ j, (P.footprint (s.threads j)).announces = some l → Free P s j) :
    Free P s i := by
  refine ⟨_, fun j hj => ?_⟩
  have hj : (s.table l).writer = some j ∨ (s.table l).announced = some j := by
    rcases hop with hop | hop <;> simpa only [WaitsFor, hop] using hj
  rcases hj with hj | hj
  · exact hwrites j ((hl.writer l j).mp hj)
  · exact hannounced j ((hl.announced l j).mp hj)

/-- Nobody waits for ever for a lock whose holders do not. -/
theorem free_on (hl : Linked P s) (hf : Faithful P) (hop : (P.op (s.threads i)).On l)
    (hwrites : ∀ j, l ∈ (P.footprint (s.threads j)).writes → Free P s j)
    (hreads : ∀ j, l ∈ (P.footprint (s.threads j)).reads → Free P s j) : Free P s i := by
  have hlock : ∀ j, P.op (s.threads j) = .lock l → Free P s j :=
    fun j hj => free_of_lock hl hj hwrites hreads
  have hannounced : ∀ j, (P.footprint (s.threads j)).announces = some l → Free P s j :=
    fun j hj => hlock j (hf.locks _ _ hj)
  rcases hop.cases with hop | hop | hop
  · exact free_of_announced hl (.inl hop) hwrites hannounced
  · exact free_of_announced hl (.inr hop) hwrites hannounced
  · exact hlock i hop

/-- Two who write to a lock are one, and nobody reads what another one writes to. -/
theorem Linked.writes_unique (hl : Linked P s) {j : Nat}
    (hi : l ∈ (P.footprint (s.threads i)).writes) (hj : l ∈ (P.footprint (s.threads j)).writes) :
    i = j :=
  Option.some.inj (((hl.writer l i).mpr hi).symm.trans ((hl.writer l j).mpr hj))

theorem Linked.not_reads (hl : Linked P s) (hi : l ∈ (P.footprint (s.threads i)).writes) (j : Nat) :
    l ∉ (P.footprint (s.threads j)).reads := by
  have hempty := hl.alone l (by rw [(hl.writer l i).mpr hi]; nofun)
  have hcount := hl.readers l j
  rw [hempty, List.count_nil] at hcount
  exact List.count_eq_zero.mp hcount.symm

end

end RWMutex
