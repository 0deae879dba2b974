import Sewg.TrustApp.Failures
import Sewg.TrustApp.Lookup

/-! The id loop of `GenerateKeyPair`, with the draws it makes. The loop can only
leave through a path that does not exist, and the path it looks at comes from
`*id=(int)random`: a cast of the array, so of its address. -/

namespace Sewg.TrustApp

/-- The four bytes `qsee_prng_getdata` puts in `random`. -/
abbrev Random := Vector UInt8 4

/-- The bytes of `random` read as an `int`, least significant first. -/
def Random.toInt (random : Random) : Int32 :=
  (random[0].toUInt32 ||| random[1].toUInt32 <<< 8 ||| random[2].toUInt32 <<< 16 |||
    random[3].toUInt32 <<< 24).toInt32

/-- `(int)random`. The array decays to a pointer: its contents are not read. -/
def castRandom (address : Int32) (_random : Random) : Int32 := address

/-- The first `n` rounds of the loop, for a call whose `random` lies at `address`.
`none` while it is still going. -/
def idLoop (s : Sfs) (address : Int32) (draws : Nat → Random) (n : Nat) : Option (Int32 × Sfs) :=
  drawId s ((List.range n).map fun i => castRandom address (draws i))

/-- Every round looks at the same id. -/
theorem idLoop_eq (s : Sfs) (address : Int32) (draws : Nat → Random) (n : Nat) :
    idLoop s address draws n = drawId s (List.replicate n address) := by
  unfold idLoop castRandom
  rw [List.map_const', List.length_range]

/-- The file list cannot be read, or nothing is stored at the path or below it. -/
def LooksFree (s : Sfs) (id : Int32) (round : Nat) : Prop :=
  s.faults.lists.getD round false = true ∨
    s.files.keys.any (underPath (configfullpath id)) = false

/-- One id again and again is left in the first round that finds it free. -/
theorem drawId_replicate_iff (id : Int32) (s : Sfs) (n : Nat) :
    (drawId s (List.replicate n id)).isSome ↔ ∃ i < n, LooksFree s id i := by
  induction n generalizing s with
  | zero => simp [drawId]
  | succ n ih =>
    have first : LooksFree s id 0 ↔ (isPathExist s (configfullpath id)).1 ≠ 0 := by
      have head : s.faults.lists.getD 0 false = s.faults.lists.headD false := by
        cases s.faults.lists <;> rfl
      rw [isPathExist_eq, LooksFree, head]
      cases s.faults.lists.headD false <;>
        cases s.files.keys.any (underPath (configfullpath id)) <;> simp [ENOENT]
    have later :
        ∀ i, LooksFree s id (i + 1) ↔ LooksFree (isPathExist s (configfullpath id)).2 id i := by
      intro i
      rw [isPathExist_eq, LooksFree, LooksFree]
      cases s.faults.lists <;> simp
    rw [List.replicate_succ, drawId, isFileOrDirExist]
    dsimp only
    split
    · rename_i taken
      rw [ih]
      constructor
      · rintro ⟨i, hi, free⟩
        exact ⟨i + 1, by omega, (later i).mpr free⟩
      · rintro ⟨i, hi, free⟩
        cases i with
        | zero => exact absurd taken (first.mp free)
        | succ i => exact ⟨i, by omega, (later i).mp free⟩
    · rename_i free
      exact ⟨fun _ => ⟨0, by omega, first.mpr free⟩, fun _ => rfl⟩

/-- The loop stops within `k` rounds exactly when one of them finds the path of the array's
own address free. The draws do not come into it. -/
theorem idLoop_stops_iff (s : Sfs) (address : Int32) (draws : Nat → Random) (k : Nat) :
    (idLoop s address draws k).isSome ↔ ∃ i < k, LooksFree s address i := by
  rw [idLoop_eq]
  exact drawId_replicate_iff address s k

/-- The array lies where the stored key's id points. Every draw names a free path, the
first one included, and the loop never looks at any of them. -/
theorem idLoop_ignores_draws : ∃ (s : Sfs) (address : Int32) (draws : Nat → Random),
    s.faults.lists = [] ∧ (∀ k, Free s (draws k).toInt = true) ∧
      (∀ k, s.files.lookup (configfullpath (draws k).toInt) = none) ∧
      ∀ n, idLoop s address draws n = none := by
  have free : Free (holding 5 []) (Random.toInt #v[6, 0, 0, 0]) = true := by decide +kernel
  have absent :
      (holding 5 []).files.lookup (configfullpath (Random.toInt #v[6, 0, 0, 0])) = none := by
    decide +kernel
  refine ⟨holding 5 [], 5, fun _ => #v[6, 0, 0, 0], rfl, fun _ => free, fun _ => absent, ?_⟩
  intro n
  rw [← Option.not_isSome_iff_eq_none, idLoop_eq, drawId_replicate_iff]
  rintro ⟨i, -, hlist | hfree⟩
  · exact absurd hlist (by simp [holding])
  · exact absurd hfree (by decide +kernel)

end Sewg.TrustApp
