import Mathlib.Data.List.Basic

/-! Bounded channels that can be closed. `send` and `receive` are those of a `select` with
a default, which never wait; `put` and `take` wait, and give nothing while they do. -/

structure Chan (α : Type) where
  capacity : Nat
  items : List α
  closed : Bool

/-- What comes of a send that does not wait. -/
inductive Sent (α : Type) where
  | sent (c : Chan α)
  | full
  | panics

/-- What comes of a receive that does not wait; from a closed channel without items it is
`zero`. -/
inductive Received (α : Type) where
  | item (x : α) (c : Chan α)
  | zero
  | empty

namespace Chan
variable {α : Type}

def make (capacity : Nat) : Chan α := ⟨capacity, [], false⟩

def close (c : Chan α) : Chan α := { c with closed := true }

def send (c : Chan α) (x : α) : Sent α :=
  if c.closed then .panics
  else if c.items.length < c.capacity then .sent { c with items := c.items ++ [x] }
  else .full

def receive (c : Chan α) : Received α :=
  match c.items with
  | x :: items => .item x { c with items }
  | [] => if c.closed then .zero else .empty

def put (c : Chan α) (x : α) : Option (Chan α) :=
  match c.send x with
  | .sent c => some c
  | .full | .panics => none

def take (c : Chan α) : Option (α × Chan α) :=
  match c.receive with
  | .item x c => some (x, c)
  | .zero | .empty => none

@[simp] theorem make_closed (capacity : Nat) : (make capacity : Chan α).closed = false := rfl

variable {c c' : Chan α} {x : α}

theorem send_sent (h : c.send x = .sent c') :
    c.closed = false ∧ c' = { c with items := c.items ++ [x] } := by
  unfold send at h
  split at h
  · cases h
  · rename_i hopen
    split at h
    · cases h
      exact ⟨Bool.eq_false_iff.mpr hopen, rfl⟩
    · cases h

theorem send_ne_panics (h : c.closed = false) : c.send x ≠ .panics := by
  unfold send
  rw [h, if_neg nofun]
  split <;> nofun

theorem receive_item (h : c.receive = .item x c') :
    c.items = x :: c'.items ∧ c'.closed = c.closed ∧ c'.capacity = c.capacity := by
  unfold receive at h
  split at h
  · rename_i hitems
    cases h
    exact ⟨hitems, rfl, rfl⟩
  · split at h <;> cases h

theorem receive_zero (h : c.receive = .zero) : c.items = [] := by
  unfold receive at h
  split at h
  · cases h
  · assumption

theorem send_items (h : c.send x = .sent c') : c'.items = c.items ++ [x] := by
  rw [(send_sent h).2]

theorem put_items (h : c.put x = some c') : c'.items = c.items ++ [x] := by
  unfold put at h
  split at h
  · rename_i hsent
    cases h
    exact send_items hsent
  · cases h
  · cases h

theorem take_items (h : c.take = some (x, c')) : c.items = x :: c'.items := by
  unfold take at h
  split at h
  · rename_i hitem
    cases h
    exact (receive_item hitem).1
  · cases h
  · cases h

end Chan
