import Sewg.Bridge.Core
import Sewg.Lib.Threads

/-! Several calls of the bridge at once. They share `mreq` and `mrsp`, and no
lock is held around a call. -/

namespace Sewg.Bridge
open CString

/-- What a caller asks for. -/
inductive Request
  | getPublickeyByID (ID : Int32)
  | curveMul (ID : Int32) (point : Vector UInt8 32)
  deriving DecidableEq

def Request.write (mreq : TsSend) : Request → TsSend
  | .getPublickeyByID ID => sendGetPublickeyByID mreq ID
  | .curveMul ID point => sendCurveMul mreq ID point.toList

/-- The `int` that lies at the start of the data. -/
def ofLe32 (data : Mem) : Int32 :=
  (UInt32.ofNat ((data 0).toNat + 2 ^ 8 * (data 1).toNat + 2 ^ 16 * (data 2).toNat +
    2 ^ 24 * (data 3).toNat)).toInt32

/-- The request as the trusted app reads it. -/
def TsSend.request (mreq : TsSend) : Option Request :=
  if mreq.cmd = GetPublickeyByID_CMD then some (.getPublickeyByID (ofLe32 mreq.data))
  else if mreq.cmd = CurveMul_CMD then
    some (.curveMul (ofLe32 mreq.data) (.ofFn fun i => mreq.data (i + 4)))
  else none

theorem ofLe32_write (data : Mem) (ID : Int32) (tail : Bytes) :
    ofLe32 (data.write (le32 ID ++ tail)) = ID := by
  have digits (n : Nat) (h : n < 2 ^ 32) :
      n % 2 ^ 8 + 2 ^ 8 * (n / 2 ^ 8 % 2 ^ 8) + 2 ^ 16 * (n / 2 ^ 16 % 2 ^ 8) +
        2 ^ 24 * (n / 2 ^ 24 % 2 ^ 8) = n := by
    omega
  have h := digits ID.toUInt32.toNat ID.toUInt32.toNat_lt
  simp only [ofLe32, Mem.write, le32, List.cons_append, List.nil_append, List.getElem?_cons_zero,
    List.getElem?_cons_succ, Option.getD_some, UInt8.toNat_ofNat']
  rw [h, UInt32.ofNat_toNat]
  rfl

theorem request_write (mreq : TsSend) (r : Request) : (r.write mreq).request = some r := by
  cases r with
  | getPublickeyByID ID =>
    have hid := ofLe32_write mreq.data ID []
    rw [List.append_nil] at hid
    simp only [Request.write, sendGetPublickeyByID, TsSend.request, ↓reduceIte, hid]
  | curveMul ID point =>
    have hid := ofLe32_write mreq.data ID point.toList
    have other : CurveMul_CMD ≠ GetPublickeyByID_CMD := by decide
    have hpoint : (Vector.ofFn fun i : Fin 32 =>
        mreq.data.write (le32 ID ++ point.toList) (i + 4)) = point := by
      ext i hi
      simp [Mem.write, le32]
    simp only [Request.write, sendCurveMul, TsSend.request, other, ↓reduceIte, hid, hpoint]

/-! ## The steps of a call -/

inductive Pc
  | start
  | written
  | ready
  | served (rc : Int32)
  | returned (ret : UInt32) (bytes : Bytes)

/-- A call with its request and the memory it got for the result. -/
structure Call where
  request : Request
  fresh : Bytes
  pc : Pc

section
variable (tee : Nat → Request → Transport)

/-- The transport serves what `mreq` holds, as the `k`-th answer the trusted app
has for it. When it fails it leaves `mrsp` alone. -/
def serve (g : Globals) (k : Nat) : Int32 × Globals :=
  match g.mreq.request with
  | none => (-1, g)
  | some r =>
    let t := tee k r
    (t.rc, if t.rc = 0 then { g with mrsp := t.mrsp } else g)

/-- The next step of a call: write `mreq`, preset `mrsp`, have it served, read it. -/
def callStep (c : Call) (g : Globals) (k : Nat) : Option (Call × Globals) :=
  match c.pc with
  | .start => some ({ c with pc := .written }, { g with mreq := c.request.write g.mreq })
  | .written => some ({ c with pc := .ready }, { g with mrsp := preset g.mrsp })
  | .ready =>
    let (rc, g) := serve tee g k
    some ({ c with pc := .served rc }, g)
  | .served rc =>
    let (ret, bytes) := takeAnswer c.fresh ⟨rc, g.mrsp⟩
    some ({ c with pc := .returned ret bytes }, g)
  | .returned _ _ => none

/-- Any number of calls, none of which has begun. -/
def beginning (g : Globals) (calls : Nat → Request × Bytes) : Threads.State Globals Call :=
  ⟨g, fun i => ⟨(calls i).1, (calls i).2, .start⟩⟩

/-- The trusted app has this answer to the request. -/
def Answers (r : Request) (bytes : Bytes) : Prop :=
  ∃ k, (tee k r).Ok ∧ bytes = (tee k r).mrsp.data.read CUR25519_PUB_KEY_LENGTH

/-- What a call relies on in the shared buffers, by how far it is. -/
def Held (g : Globals) (c : Call) : Prop :=
  match c.pc with
  | .start => True
  | .written | .ready => g.mreq.request = some c.request
  | .served rc => rc = 0 → g.mrsp.ret = SAR_OK →
    Answers tee c.request (g.mrsp.data.read CUR25519_PUB_KEY_LENGTH)
  | .returned ret bytes => ret = SAR_OK → Answers tee c.request bytes

/-- Before a call writes `mreq`, no other call with another request has written
it and waits to be served; before it is served, no other call with another
request was served and still has to read. -/
def Undisturbed (s : Threads.State Globals Call) (e : Nat × Nat) : Prop :=
  match (s.threads e.1).pc with
  | .start => ∀ j, j ≠ e.1 → (s.threads j).pc = .written ∨ (s.threads j).pc = .ready →
      (s.threads j).request = (s.threads e.1).request
  | .ready => ∀ j rc, j ≠ e.1 → (s.threads j).pc = .served rc →
      (s.threads j).request = (s.threads e.1).request
  | _ => True

variable {tee}

theorem serve_mreq (g : Globals) (k : Nat) : (serve tee g k).2.mreq = g.mreq := by
  unfold serve
  split
  · rfl
  · dsimp only
    split <;> rfl

variable {g : Globals} {r : Request} {k : Nat} {c : Call}

theorem serve_request (h : g.mreq.request = some r) (k : Nat) :
    serve tee g k =
      ((tee k r).rc, if (tee k r).rc = 0 then { g with mrsp := (tee k r).mrsp } else g) := by
  simp only [serve, h]

/-- After a request was served, what `mrsp` says with `SAR_OK` is an answer to it. -/
theorem serve_answers (h : g.mreq.request = some r) (hrc : (serve tee g k).1 = 0)
    (hret : (serve tee g k).2.mrsp.ret = SAR_OK) :
    Answers tee r ((serve tee g k).2.mrsp.data.read CUR25519_PUB_KEY_LENGTH) := by
  rw [serve_request h] at hrc hret ⊢
  dsimp only at hrc
  simp only [hrc, ↓reduceIte] at hret ⊢
  exact ⟨k, ⟨hrc, hret⟩, rfl⟩

/-- On its own a call returns what the sequential functions return. -/
theorem call_alone (c : Call) (hc : c.pc = .start) (g : Globals) (k : Nat) :
    (Threads.alone (callStep tee) (c, g) [k, k, k, k]).map (fun s => s.1.pc) =
      some (.returned (takeAnswer c.fresh (tee k c.request)).1
        (takeAnswer c.fresh (tee k c.request)).2) := by
  obtain ⟨request, fresh, pc⟩ := c
  cases hc
  simp only [Threads.alone, Run.exec, callStep, Option.bind_some, Option.map_some,
    serve_request (g := ⟨request.write g.mreq, preset g.mrsp⟩) (request_write g.mreq request)]
  by_cases hrc : (tee k request).rc = 0
  · simp only [hrc, ↓reduceIte, takeAnswer]
  · simp only [hrc, ↓reduceIte, takeAnswer]

theorem held_own {c' : Call} {g' : Globals} (h : Held tee g c)
    (hs : callStep tee c g k = some (c', g')) : Held tee g' c' := by
  obtain ⟨request, fresh, pc⟩ := c
  cases pc with
  | start =>
    cases hs
    exact request_write g.mreq request
  | written =>
    cases hs
    exact h
  | ready =>
    cases hs
    intro hrc hret
    exact serve_answers h hrc hret
  | served rc =>
    simp only [callStep, Option.some.injEq, Prod.mk.injEq] at hs
    obtain ⟨rfl, rfl⟩ := hs
    intro hret
    rcases takeAnswer_eq fresh ⟨rc, g.mrsp⟩ with ⟨ok, ht⟩ | ⟨-, nok, -⟩
    · rw [ht]
      exact h ok.1 ok.2
    · exact absurd hret nok
  | returned ret bytes => cases hs

/-- A write by another call, with the request of whoever waits to be served. -/
theorem held_write (h : Held tee g c) (waits : c.pc = .written ∨ c.pc = .ready → c.request = r) :
    Held tee { g with mreq := r.write g.mreq } c := by
  unfold Held at h ⊢
  cases hp : c.pc with
  | start => trivial
  | written =>
    rw [waits (.inl hp)]
    exact request_write g.mreq r
  | ready =>
    rw [waits (.inr hp)]
    exact request_write g.mreq r
  | served rc => simpa only [hp] using h
  | returned ret bytes => simpa only [hp] using h

/-- A preset by another call: who has not read yet will not see `SAR_OK`. -/
theorem held_preset (h : Held tee g c) :
    Held tee { g with mrsp := preset g.mrsp } c := by
  unfold Held at h ⊢
  cases hp : c.pc with
  | start => trivial
  | written => simpa only [hp] using h
  | ready => simpa only [hp] using h
  | served rc =>
    intro _ hret
    exact absurd hret (show SAR_TEECOMMERR ≠ SAR_OK by decide)
  | returned ret bytes => simpa only [hp] using h

/-- An answer to another call, with the request of whoever has not read yet. -/
theorem held_serve (h : Held tee g c) (request : g.mreq.request = some r)
    (waits : ∀ rc, c.pc = .served rc → c.request = r) (k : Nat) : Held tee (serve tee g k).2 c := by
  unfold Held at h ⊢
  cases hp : c.pc with
  | start => trivial
  | written => simpa only [hp, serve_mreq] using h
  | ready => simpa only [hp, serve_mreq] using h
  | served rc =>
    simp only [hp] at h
    intro hrc hret
    have same := waits rc hp
    by_cases hok : (serve tee g k).1 = 0
    · rw [same]
      exact serve_answers request hok hret
    · rw [serve_request request] at hok hret ⊢
      simp only [hok, ↓reduceIte] at hret ⊢
      exact h hrc hret
  | returned ret bytes => simpa only [hp] using h

/-- The steps of the others leave a call what it relies on, if they are
`Undisturbed`. -/
theorem held_other {s : Threads.State Globals Call} {i j : Nat} {c' : Call} {g' : Globals}
    (hall : ∀ j, Held tee s.shared (s.threads j)) (guard : Undisturbed s (i, k)) (hj : j ≠ i)
    (hs : callStep tee (s.threads i) s.shared k = some (c', g')) : Held tee g' (s.threads j) := by
  have mine := hall i
  unfold Undisturbed at guard
  unfold callStep at hs
  unfold Held at mine
  split at hs
  · rename_i hpc
    simp only [hpc] at guard
    cases hs
    exact held_write (hall j) (guard j hj)
  · cases hs
    exact held_preset (hall j)
  · rename_i hpc
    simp only [hpc] at guard mine
    simp only [Option.some.injEq, Prod.mk.injEq] at hs
    obtain ⟨-, rfl⟩ := hs
    exact held_serve (hall j) mine (fun rc => guard j rc hj) k
  · cases hs
    exact hall j
  · cases hs

/-- In every run whose writes and servings are `Undisturbed`, a call that returns
`SAR_OK` returns an answer to its own request. -/
theorem own_answer (g : Globals) (calls : Nat → Request × Bytes) (es : List (Nat × Nat))
    (undisturbed : Run.Meets (Threads.step (callStep tee)) Undisturbed (beginning g calls) es)
    (s : Threads.State Globals Call)
    (run : Run.exec (Threads.step (callStep tee)) (beginning g calls) es = some s) (i : Nat)
    (bytes : Bytes) (returned : (s.threads i).pc = .returned SAR_OK bytes) :
    Answers tee (s.threads i).request bytes := by
  have all : ∀ j, Held tee s.shared (s.threads j) := by
    refine Run.exec_guarded (P := fun s => ∀ j, Held tee s.shared (s.threads j))
      Undisturbed ?_ ?_ undisturbed run
    · intro s e t hs guard hst
      exact Threads.step_forall hs hst (fun l g' ha => held_own (hs e.1) ha)
        fun l g' j ha hj _ => held_other hs guard hj ha
    · intro j
      trivial
  have mine := all i
  unfold Held at mine
  simp only [returned] at mine
  exact mine trivial

end

/-- A trusted app that answers with the id it was asked about. -/
def echo (_ : Nat) : Request → Transport
  | .getPublickeyByID ID => ⟨0, SAR_OK, fun _ => (ID.toUInt32.toUInt8)⟩
  | .curveMul ID _ => ⟨0, SAR_OK, fun _ => (ID.toUInt32.toUInt8)⟩

/-- Two handshakes, under the ids 1 and 2. -/
def twoCalls : Threads.State Globals Call :=
  beginning ⟨⟨0, fun _ => 0⟩, ⟨0, fun _ => 0⟩⟩
    fun i => (.curveMul (if i = 0 then 1 else 2) (.replicate 32 0), [])

/-- `Undisturbed`, at the two calls. -/
def undisturbedFirst (s : Threads.State Globals Call) (e : Nat × Nat) : Bool :=
  (List.range 2).all fun j => j = e.1 ||
    match (s.threads e.1).pc, (s.threads j).pc with
    | .start, .written | .start, .ready | .ready, .served _ =>
      (s.threads j).request = (s.threads e.1).request
    | _, _ => true

theorem undisturbed_of_first {s : Threads.State Globals Call} {e : Nat × Nat}
    (hstart : ∀ j, 2 ≤ j → s.threads j = twoCalls.threads j) (h : undisturbedFirst s e = true) :
    Undisturbed s e := by
  have hfirst : ∀ j, j ≠ e.1 → (s.threads j).pc ≠ .start → _ := fun j hj hpc =>
    List.all_eq_true.mp h j (List.mem_range.mpr (Nat.lt_of_not_le fun hlarge =>
      hpc (by rw [hstart j hlarge]; rfl)))
  unfold Undisturbed
  split
  · rename_i hown
    rintro j hj (hpc | hpc) <;> simpa [hown, hpc, hj] using hfirst j hj (by simp [hpc])
  · rename_i hown
    intro j rc hj hpc
    simpa [hown, hpc, hj] using hfirst j hj (by simp [hpc])
  · trivial

/-- The second call begins when the first one was served and has not read yet. -/
def overlapping : List (Nat × Nat) := [0, 0, 0, 1, 0, 1, 1, 1].map fun i => (i, 0)

theorem overlapping_undisturbed :
    Run.Meets (Threads.step (callStep echo)) Undisturbed twoCalls overlapping :=
  Threads.meets_of_first undisturbedFirst 2 (by decide)
    (fun _ hstart _ _ h => undisturbed_of_first hstart h) (by decide +kernel)

theorem own_answer_overlapping :
    ∃ s, Run.exec (Threads.step (callStep echo)) twoCalls overlapping = some s ∧
      (s.threads 0).pc = .returned SAR_OK (List.replicate 32 1) ∧
      (s.threads 1).pc = .returned SAR_OK (List.replicate 32 2) ∧
      Answers echo (s.threads 0).request (List.replicate 32 1) ∧
      Answers echo (s.threads 1).request (List.replicate 32 2) :=
  ⟨_, rfl, rfl, rfl, own_answer _ _ _ overlapping_undisturbed _ rfl 0 _ rfl,
    own_answer _ _ _ overlapping_undisturbed _ rfl 1 _ rfl⟩

/-- The second call writes its request before the first is served: the first
returns `SAR_OK` with the other id's answer. -/
theorem foreign_answer :
    ∃ s, Run.exec (Threads.step (callStep echo)) twoCalls
        ([0, 1, 0, 0, 0].map fun i => (i, 0)) = some s ∧
      (s.threads 0).pc = .returned SAR_OK (List.replicate 32 2) ∧
      (s.threads 0).request = .curveMul 1 (.replicate 32 0) ∧
      ¬Answers echo (.curveMul 1 (.replicate 32 0)) (List.replicate 32 2) := by
  refine ⟨_, rfl, rfl, rfl, ?_⟩
  rintro ⟨k, -, h⟩
  exact absurd (show List.replicate 32 2 = List.replicate 32 (1 : UInt8) from h) (by decide)

end Sewg.Bridge
