import Sewg.Lib.Threads

/-! `Up`, `Down` and `deviceUpdateState`, called by any number of goroutines at once. A call
that finds the flag `changing` set leaves its request to the call that set it. That
one looks again after it has changed the device, but not after it has found nothing to
change. -/

namespace Sewg.Go.UpDown

/-- `isUp` is what was asked for, `current` what the device is. -/
structure Flags where
  isUp : Bool
  changing : Bool
  current : Bool
  locked : Bool
  deriving DecidableEq

/-- Where a goroutine is: before the operation named. -/
inductive Caller where
  | idle
  | setIsUp (up : Bool)
  | swapChanging
  | lock
  | getIsUp
  | clearChanging
  | unlock
  | change (newIsUp : Bool)
  | clearChanged
  | unlockChanged
  deriving DecidableEq

inductive Event where
  /-- The device is not closed, so that `Up` goes on. -/
  | up
  | down
  | next

/-- The next operation of a goroutine. `none` while the mutex is taken. -/
def act : Caller → Flags → Event → Option (Caller × Flags)
  | .idle, g, .up => some (.setIsUp true, g)
  | .idle, g, .down => some (.setIsUp false, g)
  | .setIsUp up, g, .next => some (.swapChanging, { g with isUp := up })
  | .swapChanging, g, .next =>
    some (if g.changing then .idle else .lock, { g with changing := true })
  | .lock, g, .next => if g.locked then none else some (.getIsUp, { g with locked := true })
  | .getIsUp, g, .next =>
    some (if g.isUp = g.current then .clearChanging else .change g.isUp, g)
  | .clearChanging, g, .next => some (.unlock, { g with changing := false })
  | .unlock, g, .next => some (.idle, { g with locked := false })
  -- the bind is updated or closed, the peers are started or stopped
  | .change newIsUp, g, .next => some (.clearChanged, { g with current := newIsUp })
  | .clearChanged, g, .next => some (.unlockChanged, { g with changing := false })
  | .unlockChanged, g, .next => some (.swapChanging, { g with locked := false })
  | _, _, _ => none

abbrev step := Threads.step act

/-- A new device. -/
def newState : Threads.State Flags Caller := ⟨⟨false, false, false, false⟩, fun _ => .idle⟩

/-- The goroutine has set `changing` and will clear it. -/
def Caller.Holds : Caller → Prop
  | .lock | .getIsUp | .clearChanging | .change _ | .clearChanged => True
  | _ => False

/-- The goroutine has nothing more to look at. -/
def Caller.Done (c : Caller) : Prop := c = .idle ∨ c = .unlock

/-- What holds between the steps: `changing` is some goroutine's, and once all are done the
device is what was asked for. -/
structure Settles (s : Threads.State Flags Caller) : Prop where
  held : s.shared.changing = true → ∃ i, (s.threads i).Holds
  same : (∀ i, (s.threads i).Done) → s.shared.current = s.shared.isUp

/-- A call that found nothing to change clears the flag only while that is still so. -/
def ClearsUnchanged (s : Threads.State Flags Caller) (e : Nat × Event) : Prop :=
  s.threads e.1 = .clearChanging → s.shared.isUp = s.shared.current

instance (s : Threads.State Flags Caller) (e : Nat × Event) : Decidable (ClearsUnchanged s e) :=
  inferInstanceAs (Decidable (_ → _))

theorem Caller.Holds.not_done {c : Caller} (h : c.Holds) : ¬ c.Done := by
  rintro (rfl | rfl) <;> exact h

/-- What a step of one goroutine can do. -/
inductive Effect : Caller → Flags → Caller → Flags → Prop
  /-- It goes on, and has the flag, or leaves it as it is. -/
  | goesOn {c c' : Caller} {g g' : Flags} (more : ¬ c'.Done)
      (flag : g'.changing = true → c'.Holds ∨ ¬ c.Holds ∧ g.changing = true) : Effect c g c' g'
  /-- It leaves its request to the goroutine that has the flag. -/
  | leaves {g : Flags} (flag : g.changing = true) : Effect .swapChanging g .idle g
  | clears (g : Flags) : Effect .clearChanging g .unlock { g with changing := false }
  | unlocks (g : Flags) : Effect .unlock g .idle { g with locked := false }

theorem act_effect {c c' : Caller} {g g' : Flags} {e : Event} (h : act c g e = some (c', g')) :
    Effect c g c' g' := by
  unfold act at h
  split at h
  case h_4 =>
    -- the swap
    by_cases hflag : g.changing = true
    · obtain ⟨rfl, rfl⟩ := Prod.mk.inj (Option.some.inj h)
      rw [if_pos hflag, ← hflag]
      exact .leaves hflag
    · obtain ⟨rfl, rfl⟩ := Prod.mk.inj (Option.some.inj h)
      rw [if_neg hflag]
      exact .goesOn (by simp [Caller.Done]) fun _ => .inl trivial
  case h_5 =>
    split at h
    · cases h
    · cases h
      exact .goesOn (by simp [Caller.Done]) fun _ => .inl trivial
  case h_6 =>
    obtain ⟨rfl, rfl⟩ := Prod.mk.inj (Option.some.inj h)
    split
    · exact .goesOn (by simp [Caller.Done]) fun _ => .inl trivial
    · exact .goesOn (by simp [Caller.Done]) fun _ => .inl trivial
  case h_7 => cases h; exact .clears _
  case h_8 => cases h; exact .unlocks _
  case h_9 => cases h; exact .goesOn (by simp [Caller.Done]) fun _ => .inl trivial
  case h_10 => cases h; exact .goesOn (by simp [Caller.Done]) nofun
  case h_12 => cases h
  -- the others do not have the flag and do not touch it
  all_goals cases h; exact .goesOn (by simp [Caller.Done]) fun hflag => .inr ⟨id, hflag⟩

theorem settles_step {s t : Threads.State Flags Caller} {e : Nat × Event} (hs : Settles s)
    (hguard : ClearsUnchanged s e) (h : step s e = some t) : Settles t := by
  obtain ⟨i, e⟩ := e
  obtain ⟨c', g', hact, hg, hc, hothers⟩ := Threads.step_cases h
  have hkeeps : ¬ (s.threads i).Holds → s.shared.changing = true → ∃ j, j ≠ i ∧
      (t.threads j).Holds := by
    intro hi hflag
    obtain ⟨j, hj⟩ := hs.held hflag
    have hji : j ≠ i := fun hji => hi (hji ▸ hj)
    exact ⟨j, hji, by rwa [hothers j hji]⟩
  have heffect := act_effect hact
  generalize hci : s.threads i = c at heffect hkeeps
  generalize hgi : s.shared = g at heffect hkeeps
  cases heffect with
  | goesOn more flag =>
    refine ⟨fun hflag => ?_, fun hall => absurd (hc ▸ hall i) more⟩
    rw [hg] at hflag
    rcases flag hflag with hholds | ⟨hfree, hold⟩
    · exact ⟨i, hc ▸ hholds⟩
    · obtain ⟨j, -, hj⟩ := hkeeps hfree hold
      exact ⟨j, hj⟩
  | leaves flag =>
    obtain ⟨j, -, hj⟩ := hkeeps id flag
    exact ⟨fun _ => ⟨j, hj⟩, fun hall => absurd (hall j) hj.not_done⟩
  | clears =>
    refine ⟨fun hflag => ?_, fun _ => ?_⟩
    · rw [hg] at hflag
      cases hflag
    · have hsame := hguard hci
      rw [hgi] at hsame
      rw [hg]
      exact hsame.symm
  | unlocks =>
    refine ⟨fun hflag => ?_, fun hall => ?_⟩
    · rw [hg] at hflag
      obtain ⟨j, -, hj⟩ := hkeeps id hflag
      exact ⟨j, hj⟩
    · have hsame := hs.same fun j => by
        by_cases hji : j = i
        · rw [hji, hci]
          exact .inr rfl
        · rw [← hothers j hji]
          exact hall j
      rw [hgi] at hsame
      rw [hg]
      exact hsame

/-- In a run where no call that found nothing to change clears the flag after the request has
changed, the device is what was asked for whenever no call is in progress. -/
theorem current_eq_isUp {events : List (Nat × Event)} {s : Threads.State Flags Caller}
    (hguard : Run.Meets step ClearsUnchanged newState events)
    (hrun : Run.exec step newState events = some s) (hidle : ∀ i, s.threads i = .idle) :
    s.shared.current = s.shared.isUp := by
  have hsettles : Settles s := Run.exec_guarded ClearsUnchanged
    (fun _ _ _ hs hg hst => settles_step hs hg hst) ⟨fun h => absurd h (by decide),
      fun _ => rfl⟩ hguard hrun
  exact hsettles.same fun i => .inl (hidle i)

/-- One goroutine, from a call to its end. -/
def call (i : Nat) (request : Event) (steps : Nat) : List (Nat × Event) :=
  (i, request) :: List.replicate steps (i, .next)

theorem idle_of_two {events : List (Nat × Event)} {s : Threads.State Flags Caller}
    (hevents : ∀ e ∈ events, e.1 = 0 ∨ e.1 = 1) (hrun : Run.exec step newState events = some s)
    (h0 : s.threads 0 = .idle) (h1 : s.threads 1 = .idle) (i : Nat) : s.threads i = .idle := by
  by_cases hi : i = 0 ∨ i = 1
  · rcases hi with rfl | rfl
    · exact h0
    · exact h1
  · have hstill : ∀ e ∈ events, e.1 ≠ i := fun e he heq => hi (heq ▸ hevents e he)
    exact Threads.exec_still hstill hrun

/-- A `Down` that leaves its request to an `Up`, which brings the device up, looks again and
takes it down. -/
def downMeanwhile : List (Nat × Event) :=
  call 0 .up 4 ++ call 1 .down 2 ++ List.replicate 14 (0, .next)

theorem downMeanwhile_current : ∃ s, Run.exec step newState downMeanwhile = some s ∧
    (∀ i, s.threads i = .idle) ∧ s.shared.isUp = false ∧ s.shared.current = s.shared.isUp := by
  have hidle := @idle_of_two downMeanwhile _ (by decide) rfl rfl rfl
  exact ⟨_, rfl, hidle, rfl, @current_eq_isUp downMeanwhile _ (Run.meets_of_check rfl) rfl hidle⟩

/-- The second goroutine asks for the device to be up after the first one has read that it
should be down, and before it has cleared the flag. -/
theorem up_lost : ∃ s, Run.exec step newState
      (call 0 .down 4 ++ call 1 .up 2 ++ List.replicate 2 (0, .next)) = some s ∧
    (∀ i, s.threads i = .idle) ∧ s.shared.current ≠ s.shared.isUp :=
  ⟨_, rfl, @idle_of_two (call 0 .down 4 ++ call 1 .up 2 ++ List.replicate 2 (0, .next)) _
    (by decide) rfl rfl rfl, by decide⟩

end Sewg.Go.UpDown
