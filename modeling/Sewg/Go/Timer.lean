import Sewg.Lib.Threads

/-! `Timer` of `timers.go`: two locks and a flag around a timer of the runtime. The runtime starts
a goroutine of its own for every expiry, and `Stop` does not wait for those. -/

namespace Sewg.Go.Timers

structure Timer where
  isPending : Bool := false
  /-- The timer of the runtime is going to expire. -/
  armed : Bool := false
  modifyingLock : Bool := false
  runningLock : Bool := false

/-- The calls that take `modifyingLock` around the flag and the timer. -/
inductive Call
  | mod
  | del
  deriving DecidableEq

/-- What `Mod` or `Del` does next. -/
inductive Stage
  | locks
  | flag
  | timer
  | unlocks
  deriving DecidableEq

/-- What the function that `NewTimer` gives to the runtime does next. -/
inductive Callback
  | locksRunning
  | locksModifying
  | checks
  /-- `isPending` is not set: unlock, and return. -/
  | skips
  | clears
  | unlocksModifying
  /-- In the expiration function, or in a call that it makes. -/
  | expires (inner : Option (Call × Stage))
  | unlocksRunning
  deriving DecidableEq

/-- Where a goroutine is. -/
inductive Party
  | idle
  | call (call : Call) (stage : Stage)
  /-- In the first or the last `Del` of `DelSync`. -/
  | delSync (last : Bool) (stage : Stage)
  | delSyncLocks
  | delSyncUnlocks
  | callback (next : Callback)
  deriving DecidableEq

inductive Event
  | call (call : Call)
  | delSync
  | expire
  | next
  deriving DecidableEq

/-- A step of `Mod` or `Del`, with the stage after it. -/
def Call.step (call : Call) (stage : Stage) (g : Timer) : Option (Option Stage × Timer) :=
  match stage with
  | .locks => if g.modifyingLock then none else some (some .flag, { g with modifyingLock := true })
  | .flag => some (some .timer, { g with isPending := call = .mod })
  | .timer => some (some .unlocks, { g with armed := call = .mod })
  | .unlocks => some (none, { g with modifyingLock := false })

def Callback.act (c : Callback) (g : Timer) : Event → Option (Party × Timer)
  | .call inner =>
    if c = .expires none then some (.callback (.expires (some (inner, .locks))), g) else none
  | .next =>
    match c with
    | .locksRunning =>
      if g.runningLock then none
        else some (.callback .locksModifying, { g with runningLock := true })
    | .locksModifying =>
      if g.modifyingLock then none else some (.callback .checks, { g with modifyingLock := true })
    | .checks => some (.callback (if g.isPending then .clears else .skips), g)
    | .skips => some (.callback .unlocksRunning, { g with modifyingLock := false })
    | .clears => some (.callback .unlocksModifying, { g with isPending := false })
    | .unlocksModifying => some (.callback (.expires none), { g with modifyingLock := false })
    | .expires none => some (.callback .unlocksRunning, g)
    | .expires (some (call, stage)) =>
      (call.step stage g).map fun (next, g) => (.callback (.expires (next.map (call, ·))), g)
    | .unlocksRunning => some (.idle, { g with runningLock := false })
  | _ => none

def act (w : Party) (g : Timer) (e : Event) : Option (Party × Timer) :=
  match w, e with
  | .idle, .call c => some (.call c .locks, g)
  | .idle, .delSync => some (.delSync false .locks, g)
  -- the goroutine that the runtime starts
  | .idle, .expire =>
    if g.armed then some (.callback .locksRunning, { g with armed := false }) else none
  | .call c stage, .next => (c.step stage g).map fun (next, g) =>
    ((next.map (.call c)).getD .idle, g)
  | .delSync last stage, .next =>
    (Call.del.step stage g).map fun (next, g) =>
      ((next.map (.delSync last)).getD (if last then .delSyncUnlocks else .delSyncLocks), g)
  | .delSyncLocks, .next =>
    if g.runningLock then none else some (.delSync true .locks, { g with runningLock := true })
  | .delSyncUnlocks, .next => some (.idle, { g with runningLock := false })
  | .callback c, e => c.act g e
  | _, _ => none

abbrev State := Threads.State Timer Party

def step : State → Nat × Event → Option State := Threads.step act

/-- After `NewTimer`. -/
def Start (s : State) : Prop :=
  (s.shared.isPending = false ∧ s.shared.modifyingLock = false ∧ s.shared.runningLock = false) ∧
    ∀ j, s.threads j = .idle

/-! ## Who holds what -/

/-- The call and the stage that a goroutine is at. -/
@[simp] def Party.section : Party → Option (Call × Stage)
  | .call c stage => some (c, stage)
  | .delSync _ stage => some (.del, stage)
  | .callback (.expires inner) => inner
  | _ => none

@[simp] def Party.holdsModifying : Party → Bool
  | .callback .checks | .callback .skips | .callback .clears | .callback .unlocksModifying => true
  | w => w.section.any (·.2 ≠ .locks)

@[simp] def Party.holdsRunning : Party → Bool
  | .delSync true _ | .delSyncUnlocks => true
  | .callback c => c ≠ .locksRunning
  | _ => false

/-- `Mod` has been called, and has not returned. -/
@[simp] def Party.InMod (w : Party) : Prop := ∃ stage, w.section = some (.mod, stage)

/-- `isPending` was set when the callback looked, and the expiration function has not returned. -/
@[simp] def Party.Expiring : Party → Prop
  | .callback .clears | .callback .unlocksModifying | .callback (.expires _) => True
  | _ => False

/-- A `Del` has cleared the flag, and still has the lock. -/
@[simp] def Party.Cleared (w : Party) : Prop :=
  w.section = some (.del, .timer) ∨ w.section = some (.del, .unlocks)

/-- Whoever holds the lock has locked it, and nobody else holds it. -/
structure Held (holds : Party → Bool) (lock : Timer → Bool) (s : State) : Prop where
  locked : ∀ j, holds (s.threads j) = true → lock s.shared = true
  alone : ∀ i j, holds (s.threads i) = true → holds (s.threads j) = true → i = j

/-- What a step does to a lock: nothing, or take it when it is free, or give it back. -/
@[simp] def LockStep (holds : Party → Bool) (lock : Timer → Bool) (w w' : Party)
    (g g' : Timer) : Prop :=
  (holds w' = holds w ∧ lock g' = lock g) ∨ (lock g = false ∧ lock g' = true) ∨
    (holds w = true ∧ holds w' = false)

variable {s t : State} {g g' : Timer} {w : Party}

theorem Held.step {holds : Party → Bool} {lock : Timer → Bool} {i : Nat} (h : Held holds lock s)
    (same : ∀ j, j ≠ i → t.threads j = s.threads j)
    (hst : LockStep holds lock (s.threads i) (t.threads i) s.shared t.shared) :
    Held holds lock t := by
  have others : ∀ j, holds (t.threads j) = true → j = i ∨ holds (s.threads j) = true := by
    intro j hj
    by_cases hi : j = i
    · exact .inl hi
    · exact .inr (same j hi ▸ hj)
  rcases hst with ⟨hw, hg⟩ | ⟨free, taken⟩ | ⟨hw, hw'⟩
  · have all : ∀ j, holds (t.threads j) = true → holds (s.threads j) = true := by
      intro j hj
      rcases others j hj with rfl | hj
      · rwa [hw] at hj
      · exact hj
    exact ⟨fun j hj => hg.trans (h.locked j (all j hj)),
      fun j k hj hk => h.alone j k (all j hj) (all k hk)⟩
  · have nobody : ∀ j, holds (t.threads j) = true → j = i := fun j hj =>
      (others j hj).resolve_right fun hold => by simp [h.locked j hold] at free
    exact ⟨fun _ _ => taken, fun j k hj hk => (nobody j hj).trans (nobody k hk).symm⟩
  · have nobody : ∀ j, holds (t.threads j) ≠ true := by
      intro j hj
      rcases others j hj with rfl | hold
      · simp [hj] at hw'
      · obtain rfl := h.alone j i hold hw
        simp [hj] at hw'
    exact ⟨fun j hj => absurd hj (nobody j), fun j _ hj => absurd hj (nobody j)⟩

/-- What a step can do. -/
structure Effect (w w' : Party) (g g' : Timer) (e : Event) : Prop where
  modifying : LockStep Party.holdsModifying Timer.modifyingLock w w' g g'
  running : LockStep Party.holdsRunning Timer.runningLock w w' g g'
  /-- Only with the lock, and only `Mod` sets the flag. -/
  flag : g'.isPending = g.isPending ∨
    w.holdsModifying = true ∧ (g'.isPending = true → w.InMod)
  cleared : w'.Cleared → g'.isPending = false ∨ w.Cleared ∧ g'.isPending = g.isPending
  inMod : w'.InMod → w.InMod ∨ e = .call .mod
  expiring : w'.Expiring → w.Expiring ∨ g.isPending = true

/-- The steps of `Mod` and `Del`. -/
inductive Call.Steps (c : Call) (g : Timer) : Stage → Option Stage → Timer → Prop
  | locks (free : g.modifyingLock = false) :
      Steps c g .locks (some .flag) { g with modifyingLock := true }
  | flag : Steps c g .flag (some .timer) { g with isPending := c = .mod }
  | timer : Steps c g .timer (some .unlocks) { g with armed := c = .mod }
  | unlocks : Steps c g .unlocks none { g with modifyingLock := false }

theorem Call.steps {c : Call} {stage : Stage} {next : Option Stage}
    (h : c.step stage g = some (next, g')) : c.Steps g stage next g' := by
  cases stage with
  | locks =>
    simp only [Call.step, Option.ite_none_left_eq_some, Bool.not_eq_true, Option.some.injEq,
      Prod.mk.injEq] at h
    obtain ⟨free, rfl, rfl⟩ := h
    exact .locks free
  | flag => cases h; exact .flag
  | timer => cases h; exact .timer
  | unlocks => cases h; exact .unlocks

theorem callback_effect {c : Callback} {w' : Party}
    (h : act (.callback c) g .next = some (w', g')) : Effect (.callback c) w' g g' .next := by
  cases c with
  | expires inner =>
    cases inner with
    | none => cases h; constructor <;> simp
    | some inner =>
      obtain ⟨c, stage⟩ := inner
      obtain ⟨⟨next, g₁⟩, hs, hw⟩ := Option.map_eq_some_iff.mp h
      cases hw
      cases Call.steps hs <;> cases c <;> constructor <;> simp [*]
  | checks =>
    cases h
    cases hp : g.isPending <;> constructor <;> simp [hp]
  | locksRunning | locksModifying =>
    simp only [act, Callback.act, Option.ite_none_left_eq_some, Option.some.injEq,
      Prod.mk.injEq] at h
    obtain ⟨free, rfl, rfl⟩ := h
    constructor <;> simp [free]
  | skips | clears | unlocksModifying | unlocksRunning => cases h; constructor <;> simp

theorem act_effect {w' : Party} {e : Event} (h : act w g e = some (w', g')) :
    Effect w w' g g' e := by
  cases w with
  | idle =>
    cases e with
    | next => cases h
    | expire =>
      simp only [act, Option.ite_none_right_eq_some, Option.some.injEq, Prod.mk.injEq] at h
      obtain ⟨-, rfl, rfl⟩ := h
      constructor <;> simp
    | call | delSync => cases h; constructor <;> simp
  | call c stage =>
    cases e with
    | next =>
      obtain ⟨⟨next, g₁⟩, hs, hw⟩ := Option.map_eq_some_iff.mp h
      cases hw
      cases Call.steps hs <;> cases c <;> constructor <;> simp [*]
    | call | delSync | expire => cases h
  | delSync last stage =>
    cases e with
    | next =>
      obtain ⟨⟨next, g₁⟩, hs, hw⟩ := Option.map_eq_some_iff.mp h
      cases hw
      cases Call.steps hs <;> cases last <;> constructor <;> simp [*]
    | call | delSync | expire => cases h
  | delSyncLocks =>
    cases e with
    | next =>
      simp only [act, Option.ite_none_left_eq_some, Option.some.injEq, Prod.mk.injEq] at h
      obtain ⟨free, rfl, rfl⟩ := h
      constructor <;> simp [free]
    | call | delSync | expire => cases h
  | delSyncUnlocks =>
    cases e with
    | next => cases h; constructor <;> simp
    | call | delSync | expire => cases h
  | callback c =>
    cases e with
    | next => exact callback_effect h
    | delSync | expire => cases h
    | call inner =>
      simp only [act, Callback.act, Option.ite_none_right_eq_some, Option.some.injEq,
        Prod.mk.injEq] at h
      obtain ⟨rfl, rfl, rfl⟩ := h
      constructor <;> simp

/-! ## Stopping -/

/-- Holds in every state. -/
structure Sound (s : State) : Prop where
  modifying : Held Party.holdsModifying Timer.modifyingLock s
  running : Held Party.holdsRunning Timer.runningLock s
  cleared : ∀ j, (s.threads j).Cleared → s.shared.isPending = false

theorem Party.Cleared.holds (h : w.Cleared) : w.holdsModifying = true := by
  unfold Party.holdsModifying
  split
  case h_5 => rcases h with h | h <;> rw [h] <;> rfl
  all_goals rfl

theorem Party.Expiring.holds (h : w.Expiring) : w.holdsRunning = true := by
  unfold Party.Expiring at h
  split at h
  case h_4 => exact h.elim
  all_goals rfl

theorem Sound.step {e : Nat × Event} (h : Sound s) (hst : step s e = some t) : Sound t := by
  obtain ⟨i, e⟩ := e
  obtain ⟨w, g, ha, hg, hw, same⟩ := Threads.step_cases hst
  subst hg hw
  have he := act_effect ha
  refine ⟨h.modifying.step same he.modifying, h.running.step same he.running, ?_⟩
  intro j hj
  by_cases hi : j = i
  · subst hi
    rcases he.cleared hj with done | ⟨hc, kept⟩
    · exact done
    · exact kept.trans (h.cleared j hc)
  · rw [same j hi] at hj
    rcases he.flag with kept | ⟨hold, -⟩
    · exact kept.trans (h.cleared j hj)
    · exact absurd (h.modifying.alone j i hj.holds hold) hi

theorem sound_of_start (h : Start s) : Sound s :=
  ⟨⟨by simp [h.2], by simp [h.2]⟩, ⟨by simp [h.2], by simp [h.2]⟩, by simp [h.2]⟩

/-- No callback is past its check, and none will get past it. -/
structure Stopped (s : State) : Prop where
  pending : s.shared.isPending = false
  inMod : ∀ j, ¬ (s.threads j).InMod
  expiring : ∀ j, ¬ (s.threads j).Expiring

theorem Stopped.step {e : Nat × Event} (h : Stopped s) (hmod : e.2 ≠ .call .mod)
    (hst : step s e = some t) : Stopped t := by
  obtain ⟨i, e⟩ := e
  obtain ⟨w, g, ha, hg, hw, same⟩ := Threads.step_cases hst
  subst hg hw
  have he := act_effect ha
  refine ⟨?_, ?_, ?_⟩
  · rcases he.flag with kept | ⟨-, set⟩
    · exact kept.trans h.pending
    · cases hp : t.shared.isPending with
      | false => rfl
      | true => exact absurd (set hp) (h.inMod i)
  · intro j hj
    by_cases hi : j = i
    · subst hi
      exact (he.inMod hj).elim (h.inMod j) hmod
    · exact h.inMod j (same j hi ▸ hj)
  · intro j hj
    by_cases hi : j = i
    · subst hi
      rcases he.expiring hj with hj | pending
      · exact h.expiring j hj
      · simp [h.pending] at pending
    · exact h.expiring j (same j hi ▸ hj)

/-- The last `Del` of a `DelSync` stops the timer: the callbacks need the lock that `DelSync`
has. -/
theorem Sound.stopped {d : Nat} (h : Sound s) (last : s.threads d = .delSync true .unlocks)
    (hst : Timers.step s (d, .next) = some t) (noMod : ∀ j, ¬ (t.threads j).InMod) : Stopped t := by
  obtain ⟨w, g, ha, hg, hw, same⟩ := Threads.step_cases hst
  rw [last] at ha
  cases ha
  refine ⟨by rw [hg]; exact h.cleared d (by simp [last]), noMod, ?_⟩
  intro j hj
  by_cases hi : j = d
  · rw [hi, hw] at hj
    exact hj
  · rw [same j hi] at hj
    exact hi (h.running.alone j d hj.holds (by simp [last]))

/-- `DelSync` stops the timer. Its last `Del` ends with the step from `s₁` to `s₂`; a `Mod` that is
not in progress then, and does not begin later, cannot start the expiration function again. Before
it returns `DelSync` has waited for the one that was running. -/
theorem delSync_stops {s₀ s₁ s₂ t : State} {before after : List (Nat × Event)} {d : Nat}
    (start : Start s₀)
    (run : Run.exec step s₀ before = some s₁) (last : s₁.threads d = .delSync true .unlocks)
    (deleted : step s₁ (d, .next) = some s₂) (noMod : ∀ j, ¬ (s₂.threads j).InMod)
    (noLaterMod : ∀ e ∈ after, e.2 ≠ .call .mod) (later : Run.exec step s₂ after = some t) :
    ∀ j, ¬ (t.threads j).Expiring := by
  have sound : Sound s₁ :=
    Run.exec_invariant (fun _ _ _ h hst => h.step hst) (sound_of_start start) run
  have stopped : Stopped t :=
    Run.exec_guarded (fun _ e => e.2 ≠ .call .mod) (fun _ _ _ h hmod hst => h.step hmod hst)
      (sound.stopped last deleted noMod) (Run.meets_of_forall noLaterMod) later
  exact stopped.expiring

def goesOn (i n : Nat) : List (Nat × Event) := .replicate n (i, .next)

def begins (i : Nat) (e : Event) (n : Nat) : List (Nat × Event) := (i, e) :: goesOn i n

/-- Goroutine 0 calls `Mod`, 1 is in the expiration function and calls it again, 2 is in `DelSync`,
and 3 is started by the second expiry. -/
def rearming : List (Nat × Event) :=
  begins 0 (.call .mod) 4 ++ begins 1 .expire 5 ++ begins 2 .delSync 4 ++ begins 1 (.call .mod) 4 ++
    begins 3 .expire 0 ++ goesOn 1 2 ++ goesOn 2 4

/-- `DelSync` returns, and goroutine 3 finds the flag cleared. -/
def returning : List (Nat × Event) := goesOn 2 1 ++ goesOn 3 5

def fresh : State := ⟨{}, fun _ => .idle⟩

theorem rearming_stopped : ∃ t, Run.exec step fresh (rearming ++ (2, .next) :: returning) = some t ∧
    ∀ j, ¬ (t.threads j).Expiring := by
  have runs : (Run.exec step fresh (rearming ++ (2, .next) :: returning)).isSome = true := by
    decide +kernel
  have last : (Run.exec step fresh rearming).map (·.threads 2) = some (.delSync true .unlocks) := by
    decide +kernel
  have quiet : (Run.exec step fresh (rearming ++ [(2, .next)])).map (fun s =>
      (List.range 4).all fun j => (s.threads j).section.isNone) = some true := by decide +kernel
  obtain ⟨t, run⟩ := Option.isSome_iff_exists.mp runs
  obtain ⟨s₁, before, rest⟩ := Run.exec_append.mp run
  obtain ⟨s₂, deleted, later⟩ := Run.exec_cons.mp rest
  rw [before] at last
  have deletes : Run.exec step fresh (rearming ++ [(2, .next)]) = some s₂ :=
    Run.exec_append.mpr ⟨s₁, before, Run.exec_cons.mpr ⟨s₂, deleted, rfl⟩⟩
  have noMod : ∀ j, ¬ (s₂.threads j).InMod := by
    rintro j ⟨stage, hj⟩
    by_cases small : j < 4
    · rw [deletes, Option.map_some, Option.some.injEq, List.all_eq_true] at quiet
      have none := quiet j (List.mem_range.mpr small)
      rw [hj] at none
      cases none
    · have moved : ∀ e ∈ rearming ++ [(2, .next)], e.1 < 4 := by decide
      have still : s₂.threads j = .idle :=
        Threads.exec_still (fun e he => Nat.ne_of_lt (by have := moved e he; omega)) deletes
      rw [still] at hj
      cases hj
  exact ⟨t, run, delSync_stops ⟨⟨rfl, rfl, rfl⟩, fun _ => rfl⟩ before
    (Option.some.inj last) deleted noMod (by decide) later⟩

end Sewg.Go.Timers
