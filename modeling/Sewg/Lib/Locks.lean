import Mathlib.Data.List.Basic
import Sewg.Lib.Run

/-! What a goroutine does with locks that are not reentrant, and whether it gets through
when nobody else takes one. -/

namespace Locks

inductive Mode where
  | read
  | write
  deriving DecidableEq

/-- `wait` is for a routine to return. -/
inductive Op (κ ρ : Type) where
  | lock (m : Mode) (l : κ)
  | unlock (m : Mode) (l : κ)
  | wait (r : ρ)

section
variable {κ ρ : Type}

/-- Somebody who holds these locks keeps the lock from being taken. -/
def Blocks (held : List (Mode × κ)) (m : Mode) (l : κ) : Prop :=
  ∃ x ∈ held, x.2 = l ∧ (x.1 = .write ∨ m = .write)

variable {l : κ} {m : Mode}

theorem not_blocks_of_new {held : List (Mode × κ)} (h : ∀ m', (m', l) ∉ held) :
    ¬ Blocks held m l := by
  rintro ⟨⟨m', l'⟩, hx, rfl, -⟩
  exact h m' hx

variable [DecidableEq κ]

instance (held : List (Mode × κ)) (m : Mode) (l : κ) : Decidable (Blocks held m l) :=
  inferInstanceAs (Decidable (∃ x ∈ held, x.2 = l ∧ (x.1 = .write ∨ m = .write)))

/-- One operation; `none` when it waits for a lock that the goroutine itself holds, or for
a routine that `needs` one. -/
def alone (needs : ρ → List (Mode × κ)) (held : List (Mode × κ)) : Op κ ρ → Option (List (Mode × κ))
  | .lock m l => if Blocks held m l then none else some ((m, l) :: held)
  | .unlock m l => some (held.erase (m, l))
  | .wait r => if ∃ n ∈ needs r, Blocks held n.1 n.2 then none else some held

variable {needs : ρ → List (Mode × κ)} {held : List (Mode × κ)}

theorem alone_lock (h : ¬ Blocks held m l) :
    alone needs held (.lock m l) = some ((m, l) :: held) := if_neg h

/-- A lock that is not held, taken and released. -/
theorem exec_section (h : ∀ m', (m', l) ∉ held) :
    Run.exec (alone needs) held [.lock m l, .unlock m l] = some held := by
  rw [Run.exec, alone_lock (not_blocks_of_new h)]
  simp [Run.exec, alone]

/-- One part after the other, each of which releases what it takes. -/
theorem exec_flatMap {α : Type} {xs : List α} {f : α → List (Op κ ρ)}
    (h : ∀ x ∈ xs, Run.exec (alone needs) held (f x) = some held) :
    Run.exec (alone needs) held (xs.flatMap f) = some held := by
  induction xs with
  | nil => rfl
  | cons x xs ih =>
    rw [List.flatMap_cons, Run.exec_append]
    exact ⟨held, h x List.mem_cons_self, ih fun y hy => h y (List.mem_cons_of_mem x hy)⟩

theorem exec_rlocks {ls : List κ} (h : ∀ l ∈ ls, (.write, l) ∉ held) :
    Run.exec (alone needs) held (ls.map (.lock .read)) =
      some (ls.reverse.map (Prod.mk .read) ++ held) := by
  induction ls generalizing held with
  | nil => rfl
  | cons l ls ih =>
    have hfree : ¬ Blocks held .read l := by
      rintro ⟨⟨m, l'⟩, hx, rfl, hm⟩
      rcases hm with rfl | hm
      · exact h _ List.mem_cons_self hx
      · cases hm
    rw [List.map_cons, Run.exec, alone_lock hfree, Option.bind_some, ih]
    · simp
    · intro l' hl' hmem
      rcases List.mem_cons.mp hmem with heq | hmem
      · cases heq
      · exact h l' (List.mem_cons_of_mem l hl') hmem

theorem exec_runlocks (ls : List κ) :
    Run.exec (alone needs) (ls.map (Prod.mk .read) ++ held)
      (ls.map (.unlock .read)) = some held := by
  induction ls with
  | nil => rfl
  | cons l ls ih => simpa [Run.exec, alone] using ih

/-- A lock that is held stays held until it is released. -/
theorem exec_holds {ops : List (Op κ ρ)} {held' : List (Mode × κ)} (hl : (m, l) ∈ held)
    (hops : Op.unlock m l ∉ ops) (h : Run.exec (alone needs) held ops = some held') :
    (m, l) ∈ held' := by
  induction ops generalizing held with
  | nil =>
    cases h
    exact hl
  | cons op ops ih =>
    obtain ⟨next, hop, h⟩ := Run.exec_cons.mp h
    refine ih ?_ (fun hmem => hops (List.mem_cons_of_mem op hmem)) h
    cases op with
    | lock m' l' =>
      rw [alone] at hop
      split at hop
      · cases hop
      · cases hop
        exact List.mem_cons_of_mem _ hl
    | unlock m' l' =>
      cases hop
      have hne : (m, l) ≠ (m', l') := by
        rintro ⟨⟩
        exact hops List.mem_cons_self
      exact (List.mem_erase_of_ne hne).mpr hl
    | wait r =>
      rw [alone] at hop
      split at hop
      · cases hop
      · cases hop
        exact hl

/-- A goroutine that wants to write to what it still holds waits for itself. -/
theorem exec_stuck {ops rest : List (Op κ ρ)} (hl : (m, l) ∈ held) (hops : Op.unlock m l ∉ ops) :
    Run.exec (alone needs) held (ops ++ .lock .write l :: rest) = none := by
  rw [Option.eq_none_iff_forall_ne_some]
  intro after h
  obtain ⟨held', hheld, h⟩ := Run.exec_append.mp h
  obtain ⟨next, hlock, -⟩ := Run.exec_cons.mp h
  rw [alone, if_pos ⟨(m, l), exec_holds hl hops hheld, rfl, .inr rfl⟩] at hlock
  cases hlock

end

end Locks
