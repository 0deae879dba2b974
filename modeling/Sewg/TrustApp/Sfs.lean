import Mathlib.Data.List.AList
import Sewg.Lib.CString

/-! The secure file system under the trusted app: a map from names to bytes.
Each call can be scripted to fail. -/

namespace Sewg.TrustApp
open CString

abbrev EIO : Int := 5
abbrev ENOENT : Int := 2
abbrev EINVAL : Int := 22
/-- `SPLIT_OLD` and `SPLIT_NEW` are both `'/'`. -/
abbrev SPLIT : UInt8 := 47

/-- The outcomes of the coming SFS calls, call kind by call kind. A call past
the end of its list succeeds; a write entry is the number of bytes stored. -/
structure Faults where
  opens : List Bool := []
  seeks : List Bool := []
  reads : List Bool := []
  writes : List (Option Nat) := []
  lists : List Bool := []
  rms : List Bool := []

structure Sfs where
  files : AList (fun _ : Bytes => Bytes)
  faults : Faults := {}

structure Flags where
  creat : Bool
  trunc : Bool

def O_RDONLY : Flags := ⟨false, false⟩
def O_RDWR_CREAT : Flags := ⟨true, false⟩
def O_RDWR_CREAT_TRUNC : Flags := ⟨true, true⟩

structure Fd where
  name : Bytes
  pos : Nat

def Sfs.put (s : Sfs) (name data : Bytes) : Sfs := { s with files := s.files.insert name data }

/-- `none` is the descriptor 0 of a failed open. -/
def qseeSfsOpen (s : Sfs) (name : Bytes) (flags : Flags) : Option Fd × Sfs :=
  let t := { s with faults := { s.faults with opens := s.faults.opens.tail } }
  if s.faults.opens.headD false then (none, t)
  else match s.files.lookup name with
  | some _ => (some ⟨name, 0⟩, if flags.trunc then t.put name [] else t)
  | none => if flags.creat then (some ⟨name, 0⟩, t.put name []) else (none, t)

/-- `none` is the return value -1. -/
def qseeSfsSeek (s : Sfs) (fd : Fd) (offset : Nat) : Option Fd × Sfs :=
  let t := { s with faults := { s.faults with seeks := s.faults.seeks.tail } }
  if s.faults.seeks.headD false then (none, t) else (some { fd with pos := offset }, t)

/-- The stored bytes up to end of file, at most `length` of them. -/
def qseeSfsRead (s : Sfs) (fd : Fd) (length : Nat) : Option Bytes × Sfs :=
  let t := { s with faults := { s.faults with reads := s.faults.reads.tail } }
  if s.faults.reads.headD false then (none, t)
  else (some ((((s.files.lookup fd.name).getD []).drop fd.pos).take length), t)

def overwrite (old : Bytes) (pos : Nat) (data : Bytes) : Bytes :=
  if data = [] then old
  else old.take pos ++ List.replicate (pos - old.length) 0 ++ data ++ old.drop (pos + data.length)

theorem overwrite_end (old data : Bytes) : overwrite old old.length data = old ++ data := by
  unfold overwrite
  split
  · simp [*]
  · simp

/-- The number of bytes stored, which a short write leaves below `data.length`. -/
def qseeSfsWrite (s : Sfs) (fd : Fd) (data : Bytes) : Nat × Sfs :=
  let t := { s with faults := { s.faults with writes := s.faults.writes.tail } }
  let stored := match s.faults.writes.headD none with
    | none => data
    | some n => data.take n
  (stored.length, t.put fd.name (overwrite ((s.files.lookup fd.name).getD []) fd.pos stored))

def qseeSfsGetFileList (s : Sfs) : Option (List Bytes) × Sfs :=
  let t := { s with faults := { s.faults with lists := s.faults.lists.tail } }
  if s.faults.lists.headD false then (none, t) else (some s.files.keys, t)

/-- 0 when there was such a file to remove. -/
def qseeSfsRm (s : Sfs) (name : Bytes) : Int × Sfs :=
  let t := { s with faults := { s.faults with rms := s.faults.rms.tail } }
  if s.faults.rms.headD false ∨ (s.files.lookup name).isNone then (-1, t)
  else (0, { t with files := t.files.erase name })

/-! ## What a call can change -/

/-- Only the file `name` differs, it is never removed, and a working file list
stays working. -/
structure Touches (name : Bytes) (s t : Sfs) : Prop where
  other : ∀ n, n ≠ name → t.files.lookup n = s.files.lookup n
  kept : (s.files.lookup name).isSome → (t.files.lookup name).isSome
  lists : s.faults.lists = [] → t.faults.lists = []
  clean : s.faults = {} → t.faults = {}

theorem Touches.refl (name : Bytes) (s : Sfs) : Touches name s s :=
  ⟨fun _ _ => rfl, id, id, id⟩

theorem Touches.trans {name : Bytes} {s t u : Sfs} (h : Touches name s t) (k : Touches name t u) :
    Touches name s u :=
  ⟨fun n hn => (k.other n hn).trans (h.other n hn), fun x => k.kept (h.kept x),
    fun x => k.lists (h.lists x), fun x => k.clean (h.clean x)⟩

@[simp] theorem put_lookup (s : Sfs) (name data : Bytes) :
    (s.put name data).files.lookup name = some data := by
  simp [Sfs.put]

theorem put_touches (s : Sfs) (name data : Bytes) : Touches name s (s.put name data) :=
  ⟨fun _ hn => AList.lookup_insert_ne hn, fun _ => by simp, id, id⟩

theorem pop_touches (name : Bytes) (s : Sfs) (f : Faults)
    (lists : s.faults.lists = [] → f.lists = [])
    (clean : s.faults = {} → f = {}) : Touches name s { s with faults := f } :=
  ⟨fun _ _ => rfl, id, lists, clean⟩

theorem open_touches (s : Sfs) (name : Bytes) (flags : Flags) :
    Touches name s (qseeSfsOpen s name flags).2 := by
  have pop : Touches name s { s with faults := { s.faults with opens := s.faults.opens.tail } } :=
    pop_touches name s _ id (fun h => by rw [h]; rfl)
  unfold qseeSfsOpen
  dsimp only
  split
  · exact pop
  · split
    · split
      · exact pop.trans (put_touches _ _ _)
      · exact pop
    · split
      · exact pop.trans (put_touches _ _ _)
      · exact pop

/-- A successful open starts at offset 0 of a file that is there: empty when
truncated or new. -/
theorem open_some {s t : Sfs} {name : Bytes} {flags : Flags} {fd : Fd}
    (h : qseeSfsOpen s name flags = (some fd, t)) :
    fd = ⟨name, 0⟩ ∧
      t.files.lookup name = some (if flags.trunc then [] else (s.files.lookup name).getD []) := by
  unfold qseeSfsOpen at h
  dsimp only at h
  split at h
  · cases h
  · cases hl : s.files.lookup name with
    | none =>
      simp only [hl] at h
      split at h
      · cases h; simp
      · cases h
    | some data =>
      simp only [hl, Prod.mk.injEq, Option.some.injEq] at h
      obtain ⟨rfl, rfl⟩ := h
      cases flags.trunc <;> simp [hl]

/-- Without faults a creating open always gives a descriptor. -/
theorem open_creat_clean {s : Sfs} (hs : s.faults = {}) (name : Bytes) (flags : Flags)
    (hf : flags.creat = true) :
    ∃ t, qseeSfsOpen s name flags = (some ⟨name, 0⟩, t) ∧ t.faults = {} := by
  have ht := (open_touches s name flags).clean hs
  refine ⟨_, ?_, ht⟩
  cases hl : s.files.lookup name <;> simp [qseeSfsOpen, hs, hl, hf]

theorem seek_touches (name : Bytes) (s : Sfs) (fd : Fd) (offset : Nat) :
    Touches name s (qseeSfsSeek s fd offset).2 := by
  have pop : Touches name s { s with faults := { s.faults with seeks := s.faults.seeks.tail } } :=
    pop_touches name s _ id (fun h => by rw [h]; rfl)
  unfold qseeSfsSeek
  dsimp only
  split <;> exact pop

theorem seek_some {s t : Sfs} {fd fd' : Fd} {offset : Nat}
    (h : qseeSfsSeek s fd offset = (some fd', t)) :
    fd' = { fd with pos := offset } ∧ t.files = s.files := by
  unfold qseeSfsSeek at h
  dsimp only at h
  split at h
  · cases h
  · cases h; exact ⟨rfl, rfl⟩

theorem read_touches (name : Bytes) (s : Sfs) (fd : Fd) (length : Nat) :
    Touches name s (qseeSfsRead s fd length).2 := by
  have pop : Touches name s { s with faults := { s.faults with reads := s.faults.reads.tail } } :=
    pop_touches name s _ id (fun h => by rw [h]; rfl)
  unfold qseeSfsRead
  dsimp only
  split <;> exact pop

theorem write_touches (s : Sfs) (fd : Fd) (data : Bytes) :
    Touches fd.name s (qseeSfsWrite s fd data).2 :=
  (pop_touches fd.name s { s.faults with writes := s.faults.writes.tail } id
    (fun h => by rw [h]; rfl)).trans (put_touches _ _ _)

theorem write_full (s : Sfs) (fd : Fd) (data : Bytes)
    (h : (qseeSfsWrite s fd data).1 = data.length) :
    (qseeSfsWrite s fd data).2.files.lookup fd.name =
      some (overwrite ((s.files.lookup fd.name).getD []) fd.pos data) := by
  unfold qseeSfsWrite at h ⊢
  dsimp only at h ⊢
  rw [put_lookup]
  cases hw : s.faults.writes.headD none with
  | none => rfl
  | some n =>
    simp only [hw, List.length_take] at h ⊢
    rw [List.take_of_length_le (by omega)]

theorem write_clean {s : Sfs} (hs : s.faults = {}) (fd : Fd) (data : Bytes) :
    (qseeSfsWrite s fd data).1 = data.length := by
  simp [qseeSfsWrite, hs]

end Sewg.TrustApp
