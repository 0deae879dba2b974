import Sewg.TrustApp.Sfs

/-! `file.c` and `file_helper.c`: files and directories over SFS names. -/

namespace Sewg.TrustApp
open CString

/-- The splitting of paths is commented out in the source: names are paths. -/
def path2file (path : Bytes) : Bytes := path

/-- `name` is `reg`, or lies below the directory `reg`. -/
def underPath (reg name : Bytes) : Bool :=
  reg.isPrefixOf name && (name.getD reg.length 0 = 0 || name.getD reg.length 0 = SPLIT)

def isPathExist (s : Sfs) (path : Bytes) : Int × Sfs :=
  match qseeSfsGetFileList s with
  | (none, t) => (ENOENT, t)
  | (some names, t) =>
    if names.isEmpty then (ENOENT, t)
    else if names.any (underPath (path2file path)) then (0, t) else (ENOENT, t)

def isFileOrDirExist (s : Sfs) (path : Bytes) : Int × Sfs := isPathExist s path

/-- Return value, buffer and `*length` after the call. -/
structure ReadFileOut where
  ret : Int
  buffer : Mem
  length : Nat

def readFile (s : Sfs) (fileName : Bytes) (offset : Int) (buffer : Mem) (length : Nat) :
    ReadFileOut × Sfs :=
  if offset < 0 ∨ length = 0 then (⟨EINVAL, buffer, length⟩, s)
  else match qseeSfsOpen s (path2file fileName) O_RDONLY with
  | (none, s) => (⟨ENOENT, buffer, length⟩, s)
  | (some fd, s) =>
    match qseeSfsSeek s fd offset.toNat with
    | (none, s) => ({ ret := EIO, buffer, length }, s)
    | (some fd, s) =>
      match qseeSfsRead s fd length with
      | (none, s) => ({ ret := EIO, buffer, length := 2 ^ 32 - 1 }, s)
      | (some data, s) => (⟨0, buffer.write data, data.length⟩, s)

def writeFile (s : Sfs) (fileName : Bytes) (offset : Int) (buffer : Bytes) (length : Nat) :
    Int × Sfs :=
  if offset < 0 ∨ length = 0 then (EINVAL, s)
  else match qseeSfsOpen s (path2file fileName) O_RDWR_CREAT with
  | (none, s) => (ENOENT, s)
  | (some fd, s) =>
    match qseeSfsSeek s fd offset.toNat with
    | (none, s) => ( EIO, s)
    | (some fd, s) =>
      let (ret, s) := qseeSfsWrite s fd (buffer.take length)
      (if ret ≠ length then EIO else 0, s)

/-- The path cut at its last separator, looking back from position `i`; a path
without one is its own directory. -/
def dirSplit (path : Bytes) : Nat → Bytes
  | 0 => path
  | i + 1 => if path.getD i 0 = SPLIT then path.take i else dirSplit path i

def createFile (s : Sfs) (filePath : Bytes) (buffer : Bytes) (length : Nat) : Int × Sfs :=
  match isPathExist s (dirSplit filePath filePath.length) with
  | (ret, s) =>
    if ret ≠ 0 then (ENOENT, s)
    else match qseeSfsOpen s (path2file filePath) O_RDWR_CREAT_TRUNC with
    | (none, s) => (ENOENT, s)
    | (some fd, s) =>
      if length = 0 then (0, s)
      else
        let (ret, s) := qseeSfsWrite s fd (buffer.take length)
        (if ret ≠ length then EIO else 0, s)

/-! ## The existence test -/

theorem list_touches (name : Bytes) (s : Sfs) : Touches name s (qseeSfsGetFileList s).2 := by
  have pop : Touches name s { s with faults := { s.faults with lists := s.faults.lists.tail } } :=
    pop_touches name s _ (fun h => by simp [h]) (fun h => by rw [h]; rfl)
  unfold qseeSfsGetFileList
  dsimp only
  split <;> exact pop

theorem isPathExist_touches (name : Bytes) (s : Sfs) (path : Bytes) :
    Touches name s (isPathExist s path).2 := by
  have h := list_touches name s
  unfold isPathExist
  cases hl : qseeSfsGetFileList s with
  | mk names t =>
    rw [hl] at h
    cases names with
    | none => exact h
    | some names =>
      dsimp only
      split
      · exact h
      · split <;> exact h

variable {s : Sfs} {length : Nat}

/-- With a working file list the test is exact and leaves the store alone. -/
theorem isPathExist_lists (hl : s.faults.lists = []) (path : Bytes) :
    isPathExist s path = (if s.files.keys.any (underPath path) then 0 else ENOENT, s) := by
  have ht : ({ s with faults := { s.faults with lists := s.faults.lists.tail } } : Sfs) = s := by
    obtain ⟨files, opens, seeks, reads, writes, lists⟩ := s
    cases hl
    rfl
  have hg : qseeSfsGetFileList s = (some s.files.keys, s) := by
    simp only [qseeSfsGetFileList, hl, List.headD_nil, Bool.false_eq_true, ↓reduceIte] at ht ⊢
    rw [ht]
  unfold isPathExist path2file
  rw [hg]
  dsimp only
  cases hk : s.files.keys with
  | nil => simp
  | cons k ks =>
    by_cases ha : (k :: ks).any (underPath path) = true
    · rw [if_neg (by simp), if_pos ha, if_pos ha]
    · rw [if_neg (by simp), if_neg ha, if_neg ha]

theorem isPathExist_state (hl : s.faults.lists = []) (path : Bytes) :
    ∃ ret, isPathExist s path = (ret, s) :=
  ⟨_, isPathExist_lists hl path⟩

theorem underPath_self (name : Bytes) : underPath name name = true := by
  simp [underPath]

theorem mem_keys_iff {name : Bytes} :
    name ∈ s.files.keys ↔ (s.files.lookup name).isSome := by
  rw [AList.lookup_isSome, AList.mem_keys]

theorem stored_underPath {path : Bytes} (hp : (s.files.lookup path).isSome) :
    s.files.keys.any (underPath path) = true :=
  List.any_eq_true.mpr ⟨path, mem_keys_iff.mpr hp, underPath_self path⟩

theorem isPathExist_stored (hl : s.faults.lists = []) (path : Bytes)
    (hp : (s.files.lookup path).isSome) : isPathExist s path = (0, s) := by
  rw [isPathExist_lists hl, stored_underPath hp, if_pos rfl]

/-! ## Writing -/

theorem writeFile_touches (s : Sfs) (fileName : Bytes) (offset : Int) (buffer : Bytes)
    (length : Nat) : Touches fileName s (writeFile s fileName offset buffer length).2 := by
  unfold writeFile path2file
  split
  · exact Touches.refl _ _
  · have ho := open_touches s fileName O_RDWR_CREAT
    cases hopen : qseeSfsOpen s fileName O_RDWR_CREAT with
    | mk fd s₁ =>
      rw [hopen] at ho
      cases fd with
      | none => exact ho
      | some fd =>
        have hk := seek_touches fileName s₁ fd offset.toNat
        cases hseek : qseeSfsSeek s₁ fd offset.toNat with
        | mk fd' s₂ =>
          rw [hseek] at hk
          cases fd' with
          | none => simp only [hseek]; exact ho.trans hk
          | some fd' =>
            have hname : fd'.name = fileName := by
              rw [(seek_some hseek).1, (open_some hopen).1]
            have hw := write_touches s₂ fd' (buffer.take length)
            rw [hname] at hw
            simp only [hseek]
            exact (ho.trans hk).trans hw

/-- A write that reports success stored all its bytes at `offset`. -/
theorem writeFile_ok (s : Sfs) (fileName : Bytes) (offset : Int) {buffer : Bytes}
    (hb : length ≤ buffer.length) (h : (writeFile s fileName offset buffer length).1 = 0) :
    (writeFile s fileName offset buffer length).2.files.lookup fileName =
      some (overwrite ((s.files.lookup fileName).getD []) offset.toNat (buffer.take length)) := by
  unfold writeFile path2file at h ⊢
  split at h
  · cases h
  · rename_i hlen
    rw [if_neg hlen]
    cases hopen : qseeSfsOpen s fileName O_RDWR_CREAT with
    | mk fd s₁ =>
      cases fd with
      | none => simp only [hopen] at h; exact absurd h (by decide)
      | some fd =>
        obtain ⟨rfl, hc⟩ := open_some hopen
        cases hseek : qseeSfsSeek s₁ ⟨fileName, 0⟩ offset.toNat with
        | mk fd' s₂ =>
          cases fd' with
          | none => simp only [hopen, hseek] at h; exact absurd h (by decide)
          | some fd' =>
            obtain ⟨rfl, hf⟩ := seek_some hseek
            simp only [hopen, hseek, ne_eq, ite_not, ite_eq_left_iff] at h ⊢
            have full := write_full s₂ ⟨fileName, offset.toNat⟩ (buffer.take length) (by
                by_contra hne
                exact absurd (h (by simpa [Nat.min_eq_left hb] using hne)) (by decide))
            rw [full, hf, hc]
            rfl

theorem writeFile_clean (hs : s.faults = {}) (fileName : Bytes) {buffer : Bytes} {offset : Int}
    (ho : 0 ≤ offset) (hl : length ≠ 0) (hb : length ≤ buffer.length) :
    (writeFile s fileName offset buffer length).1 = 0 := by
  obtain ⟨t, ht, hc⟩ := open_creat_clean hs fileName O_RDWR_CREAT rfl
  have hseek : qseeSfsSeek t ⟨fileName, 0⟩ offset.toNat = (some ⟨fileName, offset.toNat⟩,
      (qseeSfsSeek t ⟨fileName, 0⟩ offset.toNat).2) := by
    simp [qseeSfsSeek, hc]
  have hc' := (seek_touches fileName t ⟨fileName, 0⟩ offset.toNat).clean hc
  have hw := write_clean hc' ⟨fileName, offset.toNat⟩ (buffer.take length)
  rw [List.length_take, Nat.min_eq_left hb] at hw
  unfold writeFile path2file
  rw [if_neg (by omega)]
  simp only [ht]
  rw [hseek]
  simp only [hw, ne_eq, not_true_eq_false, ↓reduceIte]

theorem createFile_touches (s : Sfs) (filePath buffer : Bytes) (length : Nat) :
    Touches filePath s (createFile s filePath buffer length).2 := by
  unfold createFile path2file
  have he := isPathExist_touches filePath s (dirSplit filePath filePath.length)
  cases hexist : isPathExist s (dirSplit filePath filePath.length) with
  | mk ret s₁ =>
    rw [hexist] at he
    dsimp only
    split
    · exact he
    · have ho := open_touches s₁ filePath O_RDWR_CREAT_TRUNC
      cases hopen : qseeSfsOpen s₁ filePath O_RDWR_CREAT_TRUNC with
      | mk fd s₂ =>
        rw [hopen] at ho
        cases fd with
        | none => exact he.trans ho
        | some fd =>
          dsimp only
          split
          · exact he.trans ho
          · have hw := write_touches s₂ fd (buffer.take length)
            rw [(open_some hopen).1] at hw ⊢
            exact (he.trans ho).trans hw

/-- A file that was created holds exactly the bytes it was created with. -/
theorem createFile_ok (s : Sfs) (filePath : Bytes) {buffer : Bytes} (hl : length ≠ 0)
    (hb : length ≤ buffer.length) (h : (createFile s filePath buffer length).1 = 0) :
    (createFile s filePath buffer length).2.files.lookup filePath = some (buffer.take length) := by
  unfold createFile path2file at h ⊢
  cases hexist : isPathExist s (dirSplit filePath filePath.length) with
  | mk ret s₁ =>
    simp only [hexist] at h ⊢
    split at h
    · exact absurd (show ENOENT = 0 from h) (by decide)
    · rename_i hret
      rw [if_neg hret]
      cases hopen : qseeSfsOpen s₁ filePath O_RDWR_CREAT_TRUNC with
      | mk fd s₂ =>
        cases fd with
        | none => simp only [hopen] at h; exact absurd h (by decide)
        | some fd =>
          obtain ⟨rfl, hc⟩ := open_some hopen
          simp only [hopen, hl, ↓reduceIte, ne_eq, ite_not, ite_eq_left_iff] at h ⊢
          have full := write_full s₂ ⟨filePath, 0⟩ (buffer.take length) (by
            by_contra hne
            exact absurd (h (by simpa [Nat.min_eq_left hb] using hne)) (by decide))
          have hne : buffer.take length ≠ [] := by
            intro e
            have := congrArg List.length e
            simp only [List.length_take, List.length_nil] at this
            omega
          rw [full, hc]
          simp [overwrite, hne, O_RDWR_CREAT_TRUNC]

/-- Creation fails only when the directory does not exist. -/
theorem createFile_clean (hs : s.faults = {}) {filePath buffer : Bytes}
    (hb : length ≤ buffer.length) (hd : (isPathExist s (dirSplit filePath filePath.length)).1 = 0) :
    (createFile s filePath buffer length).1 = 0 := by
  have hlists : s.faults.lists = [] := by rw [hs]
  have he : isPathExist s (dirSplit filePath filePath.length) = (0, s) := by
    rw [isPathExist_lists hlists] at hd ⊢
    rw [show (if s.files.keys.any _ = true then (0 : Int) else ENOENT) = 0 from hd]
  obtain ⟨t, ht, hc⟩ := open_creat_clean hs filePath O_RDWR_CREAT_TRUNC rfl
  have hw := write_clean hc ⟨filePath, 0⟩ (buffer.take length)
  rw [List.length_take, Nat.min_eq_left hb] at hw
  simp only [createFile, path2file, he, ht, ne_eq, not_true_eq_false, ↓reduceIte, hw]
  split <;> rfl

/-! ## Reading -/

/-- No file differs, and what worked still works. -/
structure Keeps (s t : Sfs) : Prop where
  files : t.files = s.files
  lists : s.faults.lists = [] → t.faults.lists = []
  clean : s.faults = {} → t.faults = {}

theorem Keeps.refl (s : Sfs) : Keeps s s := ⟨rfl, id, id⟩

theorem Keeps.trans {t u : Sfs} (h : Keeps s t) (k : Keeps t u) : Keeps s u :=
  ⟨k.files.trans h.files, fun x => k.lists (h.lists x), fun x => k.clean (h.clean x)⟩

/-- Opening for reading creates nothing. -/
theorem open_keeps (s : Sfs) (name : Bytes) : Keeps s (qseeSfsOpen s name O_RDONLY).2 := by
  have ht := open_touches s name O_RDONLY
  refine ⟨?_, ht.lists, ht.clean⟩
  unfold qseeSfsOpen
  dsimp only
  split
  · rfl
  · split <;> rfl

theorem seek_keeps (s : Sfs) (fd : Fd) (offset : Nat) : Keeps s (qseeSfsSeek s fd offset).2 := by
  have ht := seek_touches fd.name s fd offset
  refine ⟨?_, ht.lists, ht.clean⟩
  unfold qseeSfsSeek
  dsimp only
  split <;> rfl

theorem read_keeps (s : Sfs) (fd : Fd) (length : Nat) : Keeps s (qseeSfsRead s fd length).2 := by
  have ht := read_touches fd.name s fd length
  refine ⟨?_, ht.lists, ht.clean⟩
  unfold qseeSfsRead
  dsimp only
  split <;> rfl

theorem readFile_keeps (s : Sfs) (fileName : Bytes) (offset : Int) (buffer : Mem) (length : Nat) :
    Keeps s (readFile s fileName offset buffer length).2 := by
  unfold readFile path2file
  split
  · exact Keeps.refl s
  · have ho := open_keeps s fileName
    generalize qseeSfsOpen s fileName O_RDONLY = w at ho ⊢
    obtain ⟨fd, s₁⟩ := w
    cases fd with
    | none => exact ho
    | some fd =>
      have hk := seek_keeps s₁ fd offset.toNat
      dsimp only
      generalize qseeSfsSeek s₁ fd offset.toNat = w at hk ⊢
      obtain ⟨fd', s₂⟩ := w
      cases fd' with
      | none => exact ho.trans hk
      | some fd' =>
        have hr := read_keeps s₂ fd' length
        dsimp only
        generalize qseeSfsRead s₂ fd' length = w at hr ⊢
        obtain ⟨data, s₃⟩ := w
        cases data <;> exact (ho.trans hk).trans hr

/-- Only a stored file can be read: a directory name passes the existence test
but cannot be opened. -/
theorem readFile_stored {fileName : Bytes} (offset : Int) (buffer : Mem) (length : Nat)
    (h : (readFile s fileName offset buffer length).1.ret = 0) :
    (s.files.lookup fileName).isSome := by
  cases hl : s.files.lookup fileName with
  | some data => rfl
  | none =>
    have hopen : (qseeSfsOpen s fileName O_RDONLY).1 = none := by
      unfold qseeSfsOpen
      split
      · rfl
      · simp [hl, O_RDONLY]
    unfold readFile path2file at h
    split at h
    · exact absurd (show EINVAL = 0 from h) (by decide)
    · generalize qseeSfsOpen s fileName O_RDONLY = w at h hopen
      obtain ⟨fd, t⟩ := w
      cases hopen
      exact absurd (show ENOENT = 0 from h) (by decide)

/-- A read of a stored file gives its bytes from `offset` on, as far as they
go, and leaves the store alone. -/
theorem readFile_clean (hs : s.faults = {}) {fileName content : Bytes} {offset : Int}
    (ho : 0 ≤ offset) (hl : length ≠ 0) (hc : s.files.lookup fileName = some content)
    (buffer : Mem) :
    readFile s fileName offset buffer length =
      (⟨0, buffer.write ((content.drop offset.toNat).take length),
        ((content.drop offset.toNat).take length).length⟩, s) := by
  obtain ⟨files, faults⟩ := s
  cases hs
  unfold readFile path2file
  rw [if_neg (by omega)]
  simp only [qseeSfsOpen, qseeSfsSeek, qseeSfsRead, O_RDONLY] at hc ⊢
  simp [hc]

end Sewg.TrustApp
