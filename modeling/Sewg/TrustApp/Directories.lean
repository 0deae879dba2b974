import Mathlib.Data.List.GetD
import Sewg.TrustApp.File

/-! Directories over the flat list of SFS names. A directory is a marker, its name with a
separator behind it, or just that names below it are there. -/

namespace Sewg.TrustApp
open CString

/-- The loop of `deleteDir` over the file list. -/
def deleteNames (reg : Bytes) : List Bytes → Int → Sfs → Int × Sfs
  | [], ret, s => (ret, s)
  | name :: names, ret, s =>
    if reg.isPrefixOf name then
      match qseeSfsRm s name with
      | (ret, s) => if ret ≠ 0 then (ENOENT, s) else deleteNames reg names ret s
    else deleteNames reg names ret s

def deleteDir (s : Sfs) (dir : Bytes) : Int × Sfs :=
  match qseeSfsGetFileList s with
  | (none, s) => (ENOENT, s)
  | (some names, s) => deleteNames (path2file dir ++ [SPLIT]) names 0 s

def deleteDirectory (s : Sfs) (dir : Bytes) : Int × Sfs := deleteDir s dir

def deleteFile (s : Sfs) (filePath : Bytes) : Int × Sfs :=
  match qseeSfsRm s (path2file filePath) with
  | (ret, s) => (if ret ≠ 0 then ENOENT else 0, s)

def makeDir (s : Sfs) (path : Bytes) : Int × Sfs :=
  match qseeSfsOpen s (path2file path ++ [SPLIT]) O_RDWR_CREAT with
  | (none, s) => (ENOENT, s)
  | (some _, s) => (0, s)

/-- One call of the file layer. The buffer of `createFile` has `length` bytes. -/
inductive FileCall
  | makeDir (path : CStr)
  | createFile (filePath : CStr) (buffer : Bytes)
  | deleteFile (filePath : CStr)
  | deleteDirectory (dir : CStr)

def FileCall.perform (s : Sfs) : FileCall → Sfs
  | .makeDir path => (TrustApp.makeDir s path.text).2
  | .createFile path buffer => (TrustApp.createFile s path.text buffer buffer.length).2
  | .deleteFile path => (TrustApp.deleteFile s path.text).2
  | .deleteDirectory dir => (TrustApp.deleteDirectory s dir.text).2

/-- `path` is the name of a file or of a directory. -/
def Present (s : Sfs) (path : Bytes) : Prop :=
  ∃ name ∈ s.files.keys, name = path ∨ path ++ [SPLIT] <+: name

/-- The SFS works, and its names are C strings. -/
structure Working (s : Sfs) : Prop where
  clean : s.faults = {}
  names : ∀ name ∈ s.files.keys, 0 ∉ name

/-! ## Names below a path -/

variable {path : Bytes} {s : Sfs}

/-- The look-ahead by one character tells a path from a sibling that begins with it. -/
theorem underPath_iff {name : Bytes} (hname : 0 ∉ name) :
    underPath path name = true ↔ name = path ∨ path ++ [SPLIT] <+: name := by
  simp only [underPath, Bool.and_eq_true, List.isPrefixOf_iff_prefix, Bool.or_eq_true,
    decide_eq_true_eq]
  constructor
  · rintro ⟨⟨rest, rfl⟩, ahead⟩
    cases rest with
    | nil => simp
    | cons c rest =>
      have hc : c ≠ 0 := by
        rintro rfl
        simp at hname
      simp_all
  · rintro (rfl | ⟨rest, rfl⟩)
    · simp
    · simp [List.append_assoc]

theorem dirSplit_file (dir file : Bytes) (hfile : SPLIT ∉ file) :
    dirSplit (dir ++ SPLIT :: file) (dir ++ SPLIT :: file).length = dir := by
  have back : ∀ k ≤ file.length, dirSplit (dir ++ SPLIT :: file) (dir.length + 1 + k) = dir := by
    intro k hk
    induction k with
    | zero => simp [dirSplit]
    | succ k ih =>
      have hlt : dir.length < dir.length + 1 + k := by omega
      have hne : (dir ++ SPLIT :: file).getD (dir.length + 1 + k) 0 ≠ SPLIT := by
        rw [List.getD_append_right _ _ _ _ (by omega), show dir.length + 1 + k - dir.length =
          k + 1 by omega, List.getD_cons_succ, List.getD_eq_getElem _ _ (by omega)]
        exact fun h => hfile (h ▸ List.getElem_mem _)
      rw [← Nat.add_assoc, dirSplit, if_neg hne]
      exact ih (by omega)
  have h := back file.length le_rfl
  rwa [show dir.length + 1 + file.length = (dir ++ SPLIT :: file).length by simp; omega] at h

theorem isFileOrDirExist_iff (h : Working s) (path : Bytes) :
    isFileOrDirExist s path = (0, s) ∧ Present s path ∨
      isFileOrDirExist s path = (ENOENT, s) ∧ ¬ Present s path := by
  have any : s.files.keys.any (underPath path) = true ↔ Present s path := by
    rw [List.any_eq_true]
    exact exists_congr fun name => and_congr_right fun hn => underPath_iff (h.names name hn)
  rw [isFileOrDirExist, isPathExist_lists (by rw [h.clean]), ← any]
  by_cases hp : s.files.keys.any (underPath path) = true
  · exact .inl ⟨by rw [if_pos hp], hp⟩
  · exact .inr ⟨by rw [if_neg hp], hp⟩

theorem createFile_iff (h : Working s) (dir : Bytes) {file : Bytes} (hfile : SPLIT ∉ file)
    (buffer : Bytes) :
    (createFile s (dir ++ SPLIT :: file) buffer buffer.length).1 = 0 ↔ Present s dir := by
  have hd := dirSplit_file dir file hfile
  rcases isFileOrDirExist_iff h dir with ⟨hex, hp⟩ | ⟨hex, hp⟩
  · simp only [hp, iff_true]
    apply createFile_clean h.clean le_rfl
    rw [hd, show isPathExist s dir = (0, s) from hex]
  · have hret : isPathExist s dir = (ENOENT, s) := hex
    have missing : ENOENT ≠ 0 := by decide
    simpa only [hp, iff_false, createFile, hd, hret, if_pos missing] using missing

/-! ## Removing -/

theorem rm_clean (hs : s.faults = {}) (name : Bytes) :
    qseeSfsRm s name =
      if name ∈ s.files then (0, { s with files := s.files.erase name }) else (-1, s) := by
  obtain ⟨files, faults⟩ := s
  cases hs
  by_cases hn : name ∈ files <;> simp [qseeSfsRm, hn, AList.lookup_eq_none]

/-- The loop removes the names with the prefix, and only them. -/
theorem deleteNames_clean {reg : Bytes} {names : List Bytes} (hnodup : names.Nodup)
    (hs : s.faults = {}) (hnames : ∀ name ∈ names, name ∈ s.files) :
    (deleteNames reg names 0 s).1 = 0 ∧ (deleteNames reg names 0 s).2.faults = {} ∧
      ∀ name, (deleteNames reg names 0 s).2.files.lookup name =
        if name ∈ names ∧ reg <+: name then none else s.files.lookup name := by
  induction names generalizing s with
  | nil => simp [deleteNames, hs]
  | cons first names ih =>
    obtain ⟨hfirst, hnodup⟩ := List.nodup_cons.mp hnodup
    obtain ⟨hin, hrest⟩ := List.forall_mem_cons.mp hnames
    by_cases hp : reg.isPrefixOf first = true
    · have kept : ∀ name ∈ names, name ∈ s.files.erase first := fun name hn =>
        AList.mem_erase.mpr ⟨ne_of_mem_of_not_mem hn hfirst, hrest name hn⟩
      obtain ⟨ret, clean, lookup⟩ :=
        ih hnodup (s := { s with files := s.files.erase first }) hs kept
      rw [deleteNames, if_pos hp, rm_clean hs, if_pos hin]
      refine ⟨ret, clean, ?_⟩
      intro name
      refine (lookup name).trans ?_
      by_cases he : name = first
      · subst he
        simp [List.isPrefixOf_iff_prefix.mp hp, AList.lookup_erase]
      · simp [he, AList.lookup_erase_ne he]
    · obtain ⟨ret, clean, lookup⟩ := ih hnodup hs hrest
      rw [deleteNames, if_neg hp]
      refine ⟨ret, clean, ?_⟩
      intro name
      rw [lookup name]
      by_cases he : name = first
      · subst he
        have hnot : ¬ reg <+: name := fun h => hp (List.isPrefixOf_iff_prefix.mpr h)
        simp [hfirst, hnot]
      · simp [he]

/-- A directory can always be deleted, even one that is not there. -/
theorem deleteDirectory_clean (hs : s.faults = {}) (dir : Bytes) :
    (deleteDirectory s dir).1 = 0 ∧ (deleteDirectory s dir).2.faults = {} ∧
      ∀ name, (deleteDirectory s dir).2.files.lookup name =
        if dir ++ [SPLIT] <+: name then none else s.files.lookup name := by
  obtain ⟨files, faults⟩ := s
  cases hs
  have h := @deleteNames_clean ⟨files, {}⟩ (dir ++ [SPLIT]) files.keys files.keys_nodup rfl
    fun _ hn => AList.mem_keys.mpr hn
  refine ⟨h.1, h.2.1, ?_⟩
  intro name
  refine (h.2.2 name).trans ?_
  by_cases hn : name ∈ files
  · have listed := AList.mem_keys.mp hn
    simp only [listed, true_and]
  · have gone := AList.lookup_eq_none.mpr hn
    simp [gone]

/-! ## Sequences of calls -/

theorem Working.of_lookup {t : Sfs} (h : Working s) (hpath : 0 ∉ path) (clean : t.faults = {})
    (other : ∀ name, name ≠ path → (t.files.lookup name).isSome → (s.files.lookup name).isSome) :
    Working t := by
  refine ⟨clean, ?_⟩
  intro name hn
  by_cases he : name = path
  · exact he ▸ hpath
  · exact h.names name (mem_keys_iff.mpr (other name he (mem_keys_iff.mp hn)))

theorem Working.touched {t : Sfs} (h : Working s) (hpath : 0 ∉ path) (ht : Touches path s t) :
    Working t :=
  h.of_lookup hpath (ht.clean h.clean) fun name hn => by simp [ht.other name hn]

theorem Working.perform (h : Working s) (call : FileCall) : Working (call.perform s) := by
  cases call with
  | makeDir path =>
    have marker : 0 ∉ path.text ++ [SPLIT] := by simp [path.nulFree, SPLIT]
    have ht := open_touches s (path.text ++ [SPLIT]) O_RDWR_CREAT
    obtain ⟨t, hopen, -⟩ := open_creat_clean h.clean (path.text ++ [SPLIT]) O_RDWR_CREAT rfl
    rw [hopen] at ht
    simp only [FileCall.perform, makeDir, path2file, hopen]
    exact h.touched marker ht
  | createFile path buffer => exact h.touched path.nulFree (createFile_touches s path.text buffer _)
  | deleteFile path =>
    simp only [FileCall.perform, deleteFile, path2file, rm_clean h.clean]
    split
    · apply h.of_lookup path.nulFree (t := { s with files := s.files.erase path.text }) h.clean
      intro name hn
      simp [AList.lookup_erase_ne hn]
    · exact h
  | deleteDirectory dir =>
    obtain ⟨-, clean, lookup⟩ := deleteDirectory_clean h.clean dir.text
    apply h.of_lookup dir.nulFree clean
    intro name _
    rw [lookup name]
    split <;> simp

theorem Working.run (h : Working s) (calls : List FileCall) :
    Working (calls.foldl FileCall.perform s) := by
  induction calls generalizing s with
  | nil => exact h
  | cons call calls ih => exact ih (h.perform call)

/-- After any calls the file layer behaves like a file system with directories. -/
theorem directories_emulated {s₀ : Sfs} (h₀ : Working s₀) (calls : List FileCall) :
    let s := calls.foldl FileCall.perform s₀
    (∀ path : CStr, (isFileOrDirExist s path.text).1 = 0 ↔ Present s path.text) ∧
    (∀ dir file : CStr, SPLIT ∉ file.text → ∀ buffer,
      (createFile s (dir.text ++ SPLIT :: file.text) buffer buffer.length).1 = 0 ↔
        Present s dir.text) ∧
    ∀ dir : CStr, (deleteDirectory s dir.text).1 = 0 ∧
      ∀ name, (deleteDirectory s dir.text).2.files.lookup name =
        if dir.text ++ [SPLIT] <+: name then none else s.files.lookup name := by
  have h := h₀.run calls
  refine ⟨?_, ?_, ?_⟩
  · intro path
    rcases isFileOrDirExist_iff h path.text with ⟨he, hp⟩ | ⟨he, hp⟩
    · simp [he, hp]
    · simp [he, hp, ENOENT]
  · intro dir file hfile buffer
    exact createFile_iff h dir.text hfile buffer
  · intro dir
    obtain ⟨ret, -, lookup⟩ := deleteDirectory_clean h.clean dir.text
    exact ⟨ret, lookup⟩

/-- `a/f` goes with `a`, and `ab/f` stays. -/
theorem sibling_stays :
    let s := [FileCall.makeDir ⟨[97], by decide⟩, .makeDir ⟨[97, 98], by decide⟩,
      .createFile ⟨[97, 47, 102], by decide⟩ [1],
        .createFile ⟨[97, 98, 47, 102], by decide⟩ [2]].foldl FileCall.perform ⟨∅, {}⟩
    (deleteDirectory s [97]).2.files.lookup [97, 47, 102] = none ∧
      (deleteDirectory s [97]).2.files.lookup [97, 98, 47, 102] =
          s.files.lookup [97, 98, 47, 102] := by
  have empty : Working ⟨∅, {}⟩ := ⟨rfl, by simp⟩
  have h := directories_emulated empty
    [.makeDir ⟨[97], by decide⟩, .makeDir ⟨[97, 98], by decide⟩,
      .createFile ⟨[97, 47, 102], by decide⟩ [1], .createFile ⟨[97, 98, 47, 102], by decide⟩ [2]]
  have gone := (h.2.2 ⟨[97], by decide⟩).2
  exact ⟨(gone _).trans (if_pos (by decide)), (gone _).trans (if_neg (by decide))⟩

end Sewg.TrustApp
