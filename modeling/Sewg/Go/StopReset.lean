import Sewg.Go.Ratelimiter
import Sewg.Lib.RWMutex

/-! `ratelimiter.go` with its goroutines: any number of `Allow` calls and the one that
collects garbage. They share the mutex of the tables, those of the entries, the unbuffered
channel `stopReset`, and a ticker. -/

namespace Sewg.Go.Ratelimiter
open CString (Bytes)
open RWMutex

inductive LockId where
  | rate
  | entry (entry : Nat)
  deriving DecidableEq

/-- `pending` is a tick in the channel, which has room for one. `Stop` does not take it out. -/
structure Ticker where
  running : Bool
  pending : Bool
  deadline : Int

def second : Int := 1000000000

def newTicker (now : Int) : Ticker := ⟨true, false, now + second⟩

def Ticker.Stop (ticker : Ticker) : Ticker := { ticker with running := false }

/-- A send waits until its value is taken. -/
inductive StopReset where
  | quiet
  | offered
  | taken
  deriving DecidableEq

/-- `table` has the entries of both tables, by their addresses in `entries`. -/
structure Limiter where
  now : Int
  table : List (Key × Nat)
  entries : Nat → RatelimiterEntry
  nextEntry : Nat
  ticker : Ticker
  stopReset : StopReset

/-- A call of `Allow`, before the operation named. -/
inductive Caller where
  | idle
  | rlocks (key : Key)
  | looks (key : Key)
  | creates (key : Key)
  | locks (key : Key) (entry : Nat) (announced : Bool)
  | inserts (key : Key) (entry : Nat)
  | sends
  | unlocks
  | locksEntry (entry : Nat) (announced : Bool)
  | pays (entry : Nat)
  deriving DecidableEq

/-- The goroutine of `Init`. In the loops `todo` is what is left of the tables. -/
inductive Collector where
  | starts
  | stops
  | selects
  | stopsOld
  | renews
  | locks (announced : Bool)
  | ranges
  | locksEntry (key : Key) (entry : Nat) (todo : List (Key × Nat)) (announced : Bool)
  | checks (key : Key) (entry : Nat) (todo : List (Key × Nat))
  | unlocks
  deriving DecidableEq

/-- `clock` is not a goroutine of the program: it lets time pass and the ticker tick. -/
inductive Goroutine where
  | caller (x : Caller)
  | collector (x : Collector)
  | clock
  deriving DecidableEq

inductive Choice where
  | next
  | call (ip : Bytes)
  /-- What `select` takes. -/
  | receiveReset
  | receiveTick
  /-- The order in which Go visits the maps. -/
  | order (todo : List (Key × Nat))
  | advance (nanoseconds : Nat)
  | tick

def Caller.op : Caller → Op LockId Unit
  | .rlocks _ => .rlock .rate
  | .looks _ => .runlock .rate
  | .locks _ _ announced => Op.write .rate announced
  | .unlocks => .unlock .rate
  | .locksEntry entry announced => Op.write (.entry entry) announced
  | .pays entry => .unlock (.entry entry)
  | .idle | .creates _ | .inserts _ _ | .sends => .skip

def Collector.op : Collector → Op LockId Unit
  | .locks announced => Op.write .rate announced
  | .locksEntry _ entry _ announced => Op.write (.entry entry) announced
  | .checks _ entry _ => .unlock (.entry entry)
  | .unlocks => .unlock .rate
  | .starts | .stops | .selects | .stopsOld | .renews | .ranges => .skip

def Goroutine.op : Goroutine → Op LockId Unit
  | .caller x => x.op
  | .collector x => x.op
  | .clock => .skip

def Caller.footprint : Caller → Footprint LockId
  | .looks _ => { reads := [.rate] }
  | .locks _ _ announced => { announces := announcing .rate announced }
  | .inserts _ _ | .sends | .unlocks => { writes := [.rate] }
  | .locksEntry entry announced => { announces := announcing (.entry entry) announced }
  | .pays entry => { writes := [.entry entry] }
  | .idle | .rlocks _ | .creates _ => {}

def Collector.footprint : Collector → Footprint LockId
  | .locks announced => { announces := announcing .rate announced }
  | .ranges | .unlocks => { writes := [.rate] }
  | .locksEntry _ entry _ announced =>
    { writes := [.rate], announces := announcing (.entry entry) announced }
  | .checks _ entry _ => { writes := [.entry entry, .rate] }
  | .starts | .stops | .selects | .stopsOld | .renews => {}

def Goroutine.footprint : Goroutine → Footprint LockId
  | .caller x => x.footprint
  | .collector x => x.footprint
  | .clock => {}

/-- `rate.tableIPv4[keyIPv4] = entry`, or the same for IPv6. -/
def insert (table : List (Key × Nat)) (key : Key) (entry : Nat) : List (Key × Nat) :=
  (key, entry) :: table.filter (·.1 ≠ key)

def Caller.next (x : Caller) (d : Limiter) (e : Choice) : Option (Caller × Limiter) :=
  match x, e with
  | .idle, .call ip => some (.rlocks (keyOf ip), d)
  | .rlocks key, .next => some (.looks key, d)
  | .looks key, .next =>
    match d.table.lookup key with
    | none => some (.creates key, d)
    | some entry => some (.locksEntry entry false, d)
  | .creates key, .next =>
    some (.locks key d.nextEntry false, { d with
      entries := Function.update d.entries d.nextEntry (newEntry d.now)
      nextEntry := d.nextEntry + 1 })
  | .locks key entry false, .next => some (.locks key entry true, d)
  | .locks key entry true, .next => some (.inserts key entry, d)
  | .inserts key entry, .next =>
    let d := { d with table := insert d.table key entry }
    -- one entry in this table and none in the other
    if d.table.length = 1 then some (.sends, { d with stopReset := .offered })
      else some (.unlocks, d)
  | .sends, .next =>
    if d.stopReset = .taken then some (.unlocks, { d with stopReset := .quiet }) else none
  | .unlocks, .next => some (.idle, d)
  | .locksEntry entry false, .next => some (.locksEntry entry true, d)
  | .locksEntry entry true, .next => some (.pays entry, d)
  | .pays entry, .next =>
    some (.idle,
      { d with entries := Function.update d.entries entry (pay (d.entries entry) d.now).2 })
  | _, _ => none

def Collector.visit : List (Key × Nat) → Collector
  | [] => .unlocks
  | (key, entry) :: todo => .locksEntry key entry todo false

def Collector.next (x : Collector) (d : Limiter) (e : Choice) : Option (Collector × Limiter) :=
  match x, e with
  | .starts, .next => some (.stops, { d with ticker := newTicker d.now })
  | .stops, .next => some (.selects, { d with ticker := d.ticker.Stop })
  | .selects, .receiveReset =>
    if d.stopReset = .offered then some (.stopsOld, { d with stopReset := .taken }) else none
  | .selects, .receiveTick =>
    if d.ticker.pending
      then some (.locks false, { d with ticker := { d.ticker with pending := false } })
    else none
  | .stopsOld, .next => some (.renews, { d with ticker := d.ticker.Stop })
  | .renews, .next => some (.selects, { d with ticker := newTicker d.now })
  | .locks false, .next => some (.locks true, d)
  | .locks true, .next => some (.ranges, d)
  | .ranges, .order todo => if todo.isPerm d.table then some (.visit todo, d) else none
  | .locksEntry key entry todo false, .next => some (.locksEntry key entry todo true, d)
  | .locksEntry key entry todo true, .next => some (.checks key entry todo, d)
  | .checks key entry todo, .next =>
    some (.visit todo,
      if idle (d.entries entry) d.now then { d with table := d.table.filter (·.1 ≠ key) } else d)
  | .unlocks, .next =>
    some (.selects, if d.table = [] then { d with ticker := d.ticker.Stop } else d)
  | _, _ => none

def clockNext (d : Limiter) : Choice → Option Limiter
  | .advance nanoseconds => some { d with now := d.now + nanoseconds }
  | .tick =>
    if d.ticker.running ∧ d.ticker.deadline ≤ d.now then
      some { d with
        ticker := { d.ticker with pending := true, deadline := d.ticker.deadline + second } }
    else none
  | _ => none

def Goroutine.next (x : Goroutine) (d : Limiter) (e : Choice) : Option (Goroutine × Limiter) :=
  match x with
  | .caller x => (x.next d e).map fun (x, d) => (.caller x, d)
  | .collector x => (x.next d e).map fun (x, d) => (.collector x, d)
  | .clock => (clockNext d e).map fun d => (.clock, d)

def limiter : Program Limiter Goroutine Choice LockId Unit where
  op := Goroutine.op
  next := Goroutine.next
  footprint := Goroutine.footprint
  routine _ := none
  joined _ _ := true

/-- After `Init`: goroutine 0 collects, 1 is the clock, the others call. -/
def started : State Limiter Goroutine LockId where
  data := ⟨0, [], fun _ => newEntry 0, 0, ⟨false, false, 0⟩, .quiet⟩
  table _ := {}
  threads
    | 0 => .collector .starts
    | 1 => .clock
    | _ => .caller .idle

/-- A call holds the tables and waits for its value to be taken, and the collector waits for
the tables. -/
def Deadlocked (s : State Limiter Goroutine LockId) : Prop :=
  ∃ i j announced, s.threads i = .caller .sends ∧ (s.table .rate).writer = some i ∧
    s.data.stopReset = .offered ∧ s.threads j = .collector (.locks announced)

/-! ## When it cannot -/

/-- The collector starts, or has taken a tick and is not done with it. -/
def Collector.busy : Collector → Bool
  | .stops | .locks _ | .ranges | .locksEntry .. | .checks .. | .unlocks => true
  | .starts | .selects | .stopsOld | .renews => false

def Goroutine.busy : Goroutine → Bool
  | .collector x => x.busy
  | .caller _ | .clock => false

/-- The tables have this key and no other. -/
def HasOnly (table : List (Key × Nat)) (key : Key) : Prop := table ≠ [] ∧ ∀ x ∈ table, x.1 = key

/-- The ticker does not tick while the collector is busy, and no call inserts what another
one for the same address has just inserted into empty tables. -/
def TickGuard (s : State Limiter Goroutine LockId) (e : Nat × Choice) : Prop :=
  match s.threads e.1, e.2 with
  | .clock, .tick => (s.threads 0).busy = false
  | .caller (.inserts key _), _ => ¬HasOnly s.data.table key
  | _, _ => True

instance (s : State Limiter Goroutine LockId) (e : Nat × Choice) : Decidable (TickGuard s e) := by
  unfold TickGuard HasOnly
  split <;> infer_instance

variable {d d' : Limiter}

theorem next_moves {x x' : Goroutine} {e : Choice} (h : x.next d e = some (x', d')) :
    Moves x.op x.footprint x'.footprint := by
  cases x with
  | caller x =>
    obtain ⟨⟨y, _⟩, h, heq⟩ := Option.map_eq_some_iff.mp h
    cases heq
    unfold Caller.next at h
    split at h
    all_goals try (cases h; constructor)
    · split at h <;> (cases h; constructor)
    · dsimp only at h
      split at h <;> (cases h; constructor)
    · split at h <;> cases h
      constructor
    · cases h
  | collector x =>
    obtain ⟨⟨y, _⟩, h, heq⟩ := Option.map_eq_some_iff.mp h
    cases heq
    have visit : ∀ todo, (Collector.visit todo).footprint = { writes := [.rate] } := by
      intro todo
      cases todo <;> rfl
    unfold Collector.next at h
    split at h
    all_goals try (cases h; constructor)
    · split at h <;> cases h
      constructor
    · split at h <;> cases h
      constructor
    · split at h <;> cases h
      simp only [Goroutine.footprint, visit]
      constructor
    · cases h
      simp only [Goroutine.footprint, visit]
      constructor
    · cases h
  | clock =>
    obtain ⟨_, -, heq⟩ := Option.map_eq_some_iff.mp h
    cases heq
    constructor

theorem limiter_faithful : Faithful limiter where
  moves _ _ _ _ _ h := next_moves h
  locks x l h := by
    cases x with
    | clock => cases h
    | caller x => cases x <;> first | exact Op.write_eq_lock h | cases h
    | collector x => cases x <;> first | exact Op.write_eq_lock h | cases h

/-- What holds when the collector is before the operation named. While the tables are empty,
or a call waits for its value to be taken, no tick is to be had. -/
def Calm (d : Limiter) : Collector → Prop
  | .starts => d.ticker.running = false ∧ d.ticker.pending = false
  | .stops => d.ticker.pending = false
  | .selects =>
    d.table = [] ∨ d.stopReset = .offered → d.ticker.running = false ∧ d.ticker.pending = false
  | .stopsOld | .renews => d.table ≠ [] ∧ d.stopReset ≠ .offered
  | .locks _ => d.table ≠ [] ∧ d.stopReset ≠ .offered ∧ d.ticker.pending = false
  | .ranges | .locksEntry .. | .checks .. | .unlocks =>
    d.stopReset ≠ .offered ∧ d.ticker.pending = false

/-- A call that waits has inserted something. -/
def Offers (d : Limiter) : Prop := d.stopReset = .offered → d.table ≠ []

theorem calm_visit (todo : List (Key × Nat)) :
    Calm d (.visit todo) ↔ d.stopReset ≠ .offered ∧ d.ticker.pending = false := by
  cases todo <;> exact Iff.rfl

theorem Collector.next_calm {x x' : Collector} {e : Choice} (h : x.next d e = some (x', d'))
    (hc : Calm d x) (ho : Offers d) : Calm d' x' ∧ Offers d' := by
  unfold Collector.next at h
  split at h
  · cases h
    exact ⟨rfl, ho⟩
  · cases h
    exact ⟨fun _ => ⟨rfl, hc⟩, ho⟩
  · split at h
    · rename_i offered
      cases h
      exact ⟨⟨ho offered, by simp⟩, by simp [Offers]⟩
    · cases h
  · split at h
    · rename_i pending
      cases h
      -- there is a tick, so there are entries and nobody waits
      have idle : ¬(d.table = [] ∨ d.stopReset = .offered) := by
        intro quiet
        exact absurd (hc quiet).2 (by simp [pending])
      exact ⟨⟨fun empty => idle (.inl empty), fun offered => idle (.inr offered), rfl⟩, ho⟩
    · cases h
  · cases h
    exact ⟨hc, ho⟩
  · cases h
    exact ⟨fun quiet => (quiet.elim hc.1 hc.2).elim, ho⟩
  · cases h
    exact ⟨hc, ho⟩
  · cases h
    exact ⟨hc.2, ho⟩
  · split at h <;> cases h
    exact ⟨(calm_visit _).mpr hc, ho⟩
  · cases h
    exact ⟨hc, ho⟩
  · cases h
    exact ⟨hc, ho⟩
  · cases h
    refine ⟨(calm_visit _).mpr ?_, ?_⟩
    · split <;> exact hc
    · intro offered
      exact absurd offered (by split <;> exact hc.1)
  · cases h
    constructor
    · intro quiet
      split at quiet
      · rename_i empty
        rw [if_pos empty]
        exact ⟨rfl, hc.2⟩
      · rename_i full
        exact (quiet.elim full hc.1).elim
    · intro offered
      exact absurd offered (by split <;> exact hc.1)
  · cases h

/-- Whether the goroutine has the tables to write. -/
def Collector.holdsRate (x : Collector) : Prop := LockId.rate ∈ x.footprint.writes

/-- What a collector can meet when the first entry is put into the tables. -/
theorem Calm.first {x : Collector} (hc : Calm d x) (hfree : ¬x.holdsRate) (empty : d.table = [])
    (table : List (Key × Nat)) :
    Calm { d with table, stopReset := .offered } x := by
  cases x with
  | starts => exact hc
  | stops => exact hc
  | selects => exact fun _ => hc (.inl empty)
  | stopsOld | renews => exact absurd empty hc.1
  | locks => exact absurd empty hc.1
  | ranges | locksEntry | checks | unlocks =>
    exact absurd (by simp [Collector.holdsRate, Collector.footprint]) hfree

theorem Calm.more {x : Collector} (hc : Calm d x) {table : List (Key × Nat)} (hne : table ≠ []) :
    Calm { d with table } x := by
  cases x with
  | starts => exact hc
  | stops => exact hc
  | selects => exact fun quiet => hc (.inr (quiet.resolve_left hne))
  | stopsOld | renews => exact ⟨hne, hc.2⟩
  | locks => exact ⟨hne, hc.2⟩
  | ranges | locksEntry | checks | unlocks => exact hc

theorem Calm.quiet {x : Collector} (hc : Calm d x) : Calm { d with stopReset := .quiet } x := by
  have apart : StopReset.quiet ≠ .offered := by decide
  cases x with
  | starts => exact hc
  | stops => exact hc
  | selects => exact fun quiet => hc (.inl (quiet.resolve_right apart))
  | stopsOld | renews => exact ⟨hc.1, apart⟩
  | locks => exact ⟨hc.1, apart, hc.2.2⟩
  | ranges | locksEntry | checks | unlocks => exact ⟨apart, hc.2⟩

theorem Calm.congr {x : Collector} (hc : Calm d x) (table : d'.table = d.table)
    (ticker : d'.ticker = d.ticker) (stopReset : d'.stopReset = d.stopReset) : Calm d' x := by
  cases x <;> simpa only [Calm, table, ticker, stopReset] using hc

theorem Caller.next_calm {x x' : Caller} {e : Choice} {c : Collector}
    (h : x.next d e = some (x', d')) (hc : Calm d c) (ho : Offers d)
    (hfree : LockId.rate ∈ x.footprint.writes → ¬c.holdsRate)
    (hguard : ∀ key entry, x = .inserts key entry → ¬HasOnly d.table key) :
    Calm d' c ∧ Offers d' := by
  unfold Caller.next at h
  split at h
  · cases h
    exact ⟨hc, ho⟩
  · cases h
    exact ⟨hc, ho⟩
  · split at h <;> (cases h; exact ⟨hc, ho⟩)
  · cases h
    exact ⟨hc.congr rfl rfl rfl, ho⟩
  · cases h
    exact ⟨hc, ho⟩
  · cases h
    exact ⟨hc, ho⟩
  · rename_i key entry
    have hfree := hfree List.mem_cons_self
    dsimp only at h
    split at h
    · rename_i one
      cases h
      refine ⟨?_, by simp [Offers, insert]⟩
      -- the only entry: the tables were empty, or had this key alone
      have alone : ∀ x ∈ d.table, x.1 = key := by
        simpa [insert, List.filter_eq_nil_iff] using one
      apply hc.first hfree
      by_contra hne
      exact hguard key entry rfl ⟨hne, alone⟩
    · cases h
      exact ⟨hc.more (by simp [insert]), by simp [Offers, insert]⟩
  · split at h
    · cases h
      exact ⟨hc.quiet, by simp [Offers]⟩
    · cases h
  · cases h
    exact ⟨hc, ho⟩
  · cases h
    exact ⟨hc, ho⟩
  · cases h
    exact ⟨hc, ho⟩
  · cases h
    exact ⟨hc.congr rfl rfl rfl, ho⟩
  · cases h

theorem clockNext_calm {e : Choice} {c : Collector} (h : clockNext d e = some d') (hc : Calm d c)
    (ho : Offers d) (hguard : e = .tick → c.busy = false) : Calm d' c ∧ Offers d' := by
  unfold clockNext at h
  split at h
  · cases h
    exact ⟨hc.congr rfl rfl rfl, ho⟩
  · split at h
    · rename_i runs
      cases h
      refine ⟨?_, ho⟩
      cases c with
      | starts => exact absurd runs.1 (by simp [hc.1])
      | selects => exact fun quiet => absurd runs.1 (by simp [(hc quiet).1])
      | stopsOld | renews => exact hc
      | stops | locks | ranges | locksEntry | checks | unlocks =>
        exact absurd (hguard rfl) (by simp [Collector.busy])
    · cases h
  · cases h

/-- What every step keeps. -/
structure Orderly (s : State Limiter Goroutine LockId) : Prop where
  linked : Linked limiter s
  collects : ∃ x, s.threads 0 = .collector x ∧ Calm s.data x
  others : ∀ i x, s.threads i = .collector x → i = 0
  offers : Offers s.data

theorem next_collector {x x' : Goroutine} {e : Choice} {y : Collector}
    (h : x.next d e = some (x', d')) (hx' : x' = .collector y) : ∃ y, x = .collector y := by
  subst hx'
  cases x with
  | collector x => exact ⟨x, rfl⟩
  | caller x =>
    obtain ⟨_, -, heq⟩ := Option.map_eq_some_iff.mp h
    cases heq
  | clock =>
    obtain ⟨_, -, heq⟩ := Option.map_eq_some_iff.mp h
    cases heq

theorem Orderly.step {s t : State Limiter Goroutine LockId} {e : Nat × Choice} (hs : Orderly s)
    (hg : TickGuard s e) (hst : step limiter s e = some t) : Orderly t := by
  obtain ⟨i, e⟩ := e
  have linked := hs.linked.step limiter_faithful hst
  obtain ⟨x', hnext, -, rfl, hothers⟩ := step_cases limiter hst
  obtain ⟨c, h0, hc⟩ := hs.collects
  have others : ∀ j x, t.threads j = .collector x → j = 0 := by
    intro j x hj
    by_cases hji : j = i
    · subst hji
      obtain ⟨y, hy⟩ := next_collector hnext hj
      exact hs.others j y hy
    · rw [hothers j hji] at hj
      exact hs.others j x hj
  -- a step of somebody else leaves the collector where it is
  have elsewhere (hi : 0 ≠ i) (h : Calm t.data c ∧ Offers t.data) : Orderly t :=
    ⟨linked, ⟨c, (hothers 0 hi).trans h0, h.1⟩, others, h.2⟩
  unfold TickGuard at hg
  dsimp only at hg
  change (s.threads i).next s.data e = _ at hnext
  cases hx : s.threads i with
  | collector x =>
    have hi := hs.others i x hx
    subst hi
    cases h0.symm.trans hx
    rw [hx] at hnext
    obtain ⟨⟨y, d⟩, hy, heq⟩ := Option.map_eq_some_iff.mp hnext
    obtain ⟨hthread, hdata⟩ := Prod.mk.inj heq
    obtain ⟨calm, offers⟩ := Collector.next_calm hy hc hs.offers
    rw [hdata] at calm offers
    exact ⟨linked, ⟨y, hthread.symm, calm⟩, others, offers⟩
  | caller x =>
    have hi : 0 ≠ i := by
      intro h
      subst h
      cases h0.symm.trans hx
    rw [hx] at hnext hg
    obtain ⟨⟨y, d⟩, hy, heq⟩ := Option.map_eq_some_iff.mp hnext
    obtain ⟨-, hdata⟩ := Prod.mk.inj heq
    apply elsewhere hi
    rw [← hdata]
    refine Caller.next_calm hy hc hs.offers ?_ ?_
    · intro holds held
      refine hi (hs.linked.writes_unique (l := .rate) ?_ ?_)
      · exact h0 ▸ held
      · exact hx ▸ holds
    · rintro key entry rfl
      exact hg
  | clock =>
    have hi : 0 ≠ i := by
      intro h
      subst h
      cases h0.symm.trans hx
    rw [hx] at hnext hg
    obtain ⟨d, hd, heq⟩ := Option.map_eq_some_iff.mp hnext
    obtain ⟨-, hdata⟩ := Prod.mk.inj heq
    apply elsewhere hi
    rw [← hdata]
    refine clockNext_calm hd hc hs.offers ?_
    rintro rfl
    exact (congrArg Goroutine.busy h0).symm.trans hg

theorem orderly_started : Orderly started where
  linked := by
    apply Matches.free
    rintro (_ | _ | i) <;> rfl
  collects := ⟨.starts, rfl, rfl, rfl⟩
  others i x h := by
    rcases i with _ | _ | i
    · rfl
    · cases h
    · cases h
  offers h := by cases h

/-- With ticks only while the collector is not busy, and no entry inserted twice as the only
one, no call waits under the lock for a collector that waits for the lock. -/
theorem no_deadlock {events : List (Nat × Choice)} {s : State Limiter Goroutine LockId}
    (guarded : Run.Meets (step limiter) TickGuard started events)
    (run : Run.exec (step limiter) started events = some s) : ¬Deadlocked s := by
  have orderly : Orderly s :=
    Run.exec_guarded TickGuard (fun _ _ _ hs hg hst => hs.step hg hst) orderly_started guarded run
  rintro ⟨-, j, announced, -, -, offered, hj⟩
  obtain ⟨x, h0, calm⟩ := orderly.collects
  have hj0 := orderly.others j _ hj
  subst hj0
  cases h0.symm.trans hj
  exact calm.2.1 offered

/-! ## Runs -/

/-- Goroutine `i` calls, finds no entry, makes one and puts it into the tables. -/
def misses (i : Nat) (ip : Bytes) : List (Nat × Choice) :=
  (i, .call ip) :: [Choice.next, .next, .next].map (Prod.mk i)

def inserts (i : Nat) : List (Nat × Choice) := [Choice.next, .next, .next].map (Prod.mk i)

/-- The collector takes the value of goroutine 2 and makes a ticker. -/
def resets : List (Nat × Choice) :=
  [Choice.receiveReset, .next, .next].map (Prod.mk 0) ++ [Choice.next, .next].map (Prod.mk 2)

def ticks (nanoseconds : Nat) : List (Nat × Choice) :=
  [Choice.advance nanoseconds, .tick].map (Prod.mk 1)

/-- The collector finds the entry of 10.0.0.1 idle and stops the ticker. -/
def sweeps : List (Nat × Choice) :=
  [Choice.next, .next, .order [(.v4 [10, 0, 0, 1], 0)], .next, .next, .next, .next].map (Prod.mk 0)

def begins : List (Nat × Choice) := [Choice.next, .next].map (Prod.mk 0)

/-- A tick is handled before the next one comes. -/
def inTime : List (Nat × Choice) :=
  begins ++ misses 2 [10, 0, 0, 1] ++ inserts 2 ++ resets ++ ticks 1500000000 ++
    [(0, Choice.receiveTick)] ++ sweeps ++ misses 2 [10, 0, 0, 1] ++ inserts 2

theorem inTime_no_deadlock :
    ∃ s, Run.exec (step limiter) started inTime = some s ∧ ¬Deadlocked s := by
  have run : (Run.exec (step limiter) started inTime).isSome := by decide +kernel
  obtain ⟨s, hs⟩ := Option.isSome_iff_exists.mp run
  exact ⟨s, hs, no_deadlock (Run.meets_of_check (by decide +kernel)) hs⟩

/-- The second tick comes while the first is handled, and is in the channel when the ticker
is stopped. The next call finds the tables empty. -/
def lateTick : List (Nat × Choice) :=
  begins ++ misses 2 [10, 0, 0, 1] ++ inserts 2 ++ resets ++ ticks 1500000000 ++
    [(0, Choice.receiveTick)] ++ ticks 1000000000 ++ sweeps ++ misses 2 [10, 0, 0, 1] ++
      inserts 2 ++
    [(0, Choice.receiveTick)]

/-- Two calls for one address miss it. The second one inserts after the first tick. -/
def secondInsert : List (Nat × Choice) :=
  begins ++ misses 2 [10, 0, 0, 1] ++ misses 3 [10, 0, 0, 1] ++ inserts 2 ++ resets ++
    ticks 1500000000 ++ [(0, Choice.receiveTick)] ++ inserts 3

def collectorWaits (i : Nat) (s : State Limiter Goroutine LockId) : Bool :=
  s.threads i = .caller .sends ∧ (s.table .rate).writer = some i ∧ s.data.stopReset = .offered ∧
    s.threads 0 = .collector (.locks false)

theorem deadlocked_of_run {events : List (Nat × Choice)} (i : Nat)
    (h : (Run.exec (step limiter) started events).any (collectorWaits i) = true) :
    ∃ s, Run.exec (step limiter) started events = some s ∧ Deadlocked s := by
  cases hs : Run.exec (step limiter) started events with
  | none => simp [hs] at h
  | some s =>
    rw [hs] at h
    obtain ⟨sends, holds, offered, waiting⟩ := of_decide_eq_true h
    exact ⟨s, rfl, i, 0, false, sends, holds, offered, waiting⟩

theorem deadlocks :
    (∃ s, Run.exec (step limiter) started lateTick = some s ∧ Deadlocked s) ∧
      ∃ s, Run.exec (step limiter) started secondInsert = some s ∧ Deadlocked s :=
  ⟨deadlocked_of_run 2 (by decide +kernel), deadlocked_of_run 3 (by decide +kernel)⟩

end Sewg.Go.Ratelimiter
