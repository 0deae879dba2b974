import Sewg.Lib.Numeral
import Sewg.TrustApp.Lookup

/-! `CurveMul` and the functions it calls, each with the messages it gives to `LOGI`. -/

namespace Sewg.TrustApp
open CString

/-- The text of a format, outside its directives. -/
def lit (format : String) : Bytes := format.toList.map fun c => UInt8.ofNat c.toNat

/-- `%d` -/
def decimal (n : Int) : Bytes :=
  (if n < 0 then [45] else []) ++
    (Numeral.digits 10 n.natAbs).map fun d => UInt8.ofNat (48 + d)

/-- `%s`, as far as a log that cuts a string after `limit` characters shows it. -/
def shown (limit : Nat) (m : Mem) : Bytes := (m.read limit).takeWhile (· ≠ 0)

/-- What a call of `readFile` logs besides its arguments: the new memory it has not written
yet, the buffer's address, the descriptor and `qsee_sfs_error`. -/
structure ReadFileEnv where
  qseeFilename : Bytes
  buffer : Int
  fd : Int
  error : Int

/-- The same for `CurveMul`, with the number of characters at which the log cuts a string. -/
structure CurveMulEnv where
  reg : Bytes
  rpin : ReadFileEnv
  hex : ReadFileEnv
  limit : Nat

/-- `file` is shown before anything is copied to it. -/
def path2fileLog (path file : Bytes) : List Bytes :=
  [lit "path2file start, path:" ++ path ++ lit ", file:" ++ file,
   lit "path2file end, path:" ++ path ++ lit ", file:" ++ path2file path]

def makePathLog (path : Bytes) : List Bytes := [lit "makePath start", lit "makePath, path:" ++ path]

/-- The loop of `isPathExist`: every name up to the one that matches. -/
def lookThrough (reg : Bytes) : List Bytes → Int × List Bytes
  | [] => (ENOENT, [])
  | name :: names =>
    let shown := lit "isPathExist, name:" ++ name
    if underPath reg name then (0, [shown])
    else
      let (ret, log) := lookThrough reg names
      (ret, shown :: log)

def isPathExistLog (reg : Bytes) (s : Sfs) (path : Bytes) : (Int × Sfs) × List Bytes :=
  let start := lit "isPathExist start, path:" ++ path
  match qseeSfsGetFileList s with
  | (none, t) => ((ENOENT, t), [start])
  | (some names, t) =>
    if names.isEmpty then ((ENOENT, t), [start])
    else
      let (ret, log) := lookThrough (path2file path) names
      ((ret, t), start :: path2fileLog path reg ++
        (lit "isPathExist, reg:" ++ path2file path) :: log ++
        [lit "isPathExist end, ret:" ++ decimal ret ++ lit ", path:" ++ path])

def isFileOrDirExistLog (reg : Bytes) (s : Sfs) (path : Bytes) : (Int × Sfs) × List Bytes :=
  let (r, log) := isPathExistLog reg s path
  (r, (lit "isFileOrDirExist start, path: " ++ path) :: log)

/-- The arguments as the first and last message of `readFile` show them. -/
def readFileArgs (env : ReadFileEnv) (fileName : Bytes) (offset length : Int) : Bytes :=
  lit "fileName: " ++ fileName ++ lit ", offset:" ++ decimal offset ++
    lit ", buffer:" ++ decimal env.buffer ++ lit ", length:" ++ decimal length

def readFileLog (env : ReadFileEnv) (s : Sfs) (fileName : Bytes) (offset : Int) (buffer : Mem)
    (length : Nat) : (ReadFileOut × Sfs) × List Bytes :=
  let start := lit "readFile start, " ++ readFileArgs env fileName offset length
  if offset < 0 ∨ length = 0 then ((⟨EINVAL, buffer, length⟩, s), [start])
  else
    let opened := start :: path2fileLog fileName env.qseeFilename ++
      [lit "readFile path2file end, filename:" ++ fileName ++ lit ", qsee_filename:" ++
          path2file fileName,
       lit "readFile qsee_sfs_open end"]
    match qseeSfsOpen s (path2file fileName) O_RDONLY with
    | (none, s) =>
      ((⟨ENOENT, buffer, length⟩, s),
        opened ++ [lit "readFile qsee_sfs_open failed, error:" ++ decimal env.error])
    | (some fd, s) =>
      match qseeSfsSeek s fd offset.toNat with
      | (none, s) =>
        (({ ret := EIO, buffer, length }, s),
          opened ++ [lit "readFile qsee_sfs_seek failed, fd: " ++ decimal env.fd ++
            lit ", offset:" ++ decimal offset ++ lit ", SEEK_SET:0, error:" ++ decimal env.error])
      | (some fd, s) =>
        let sought := opened ++ [lit "readFile qsee_sfs_seek end"]
        match qseeSfsRead s fd length with
        | (none, s) =>
          (({ ret := EIO, buffer, length := 2 ^ 32 - 1 }, s),
            sought ++ [lit "readFile qsee_sfs_read end length: -1",
              lit "readFile qsee_sfs_read FAILED, error:" ++ decimal env.error,
              lit "readFile end, ret:" ++ decimal EIO ++ lit ", " ++
                readFileArgs env fileName offset (-1)])
        | (some data, s) =>
          ((⟨0, buffer.write data, data.length⟩, s),
            sought ++ [lit "readFile qsee_sfs_read end length: " ++ decimal data.length,
              lit "readFile end, ret:0, " ++ readFileArgs env fileName offset data.length])

/-- The read of the secret, of which the log shows every digit. -/
def readSecretLog (env : ReadFileEnv) (s : Sfs) (path : Bytes) (hex : Mem) (key : Key) :
    (Option Key × Sfs) × List Bytes :=
  match readFileLog env s path 0 hex (WG_KEY_LEN_HEX - 1) with
  | ((r, s), log) =>
    if r.ret ≠ 0 then ((none, s), log)
    else
      let text := r.buffer.read (WG_KEY_LEN_HEX - 1)
      ((some (keyFromHex key text).1, s),
        log ++ [lit "curmul_get_secret hex:" ++ text.takeWhile (· ≠ 0)])

def curveMulLog (ladder : Key → Key → Key) (env : CurveMulEnv) (s : Sfs) (pin : CStr) (point : Key)
    (id : Int32) (stack : CurveMulStack) : (CurveMulRsp × Sfs) × List Bytes :=
  let path := configfullpath id
  let start :=
    [lit "curmul__secret_id:" ++ decimal id.toInt, lit "curmul_filename:" ++ int2char id] ++
    makePathLog path ++ [lit "curmul_configfullpath:" ++ path]
  match isFileOrDirExistLog env.reg s path with
  | ((ret, s), exist) =>
    if ret ≠ 0 then ((⟨-1, none⟩, s), start ++ exist ++ [lit "curmul_nofile:" ++ path])
    else match readFileLog env.rpin s path ↑(2 * (WG_KEY_LEN_HEX - 1)) stack.rpin pin.strlen with
    | ((r, s), read) =>
      if r.ret ≠ 0 then ((⟨-1, none⟩, s), start ++ exist ++ read)
      else if strcmp pin.text r.buffer ≠ 0 then
        ((⟨-1, none⟩, s), start ++ exist ++ read ++
          [lit "curmul_pinerr:r_pin:" ++ shown env.limit r.buffer ++ lit ",pin:" ++ pin.text])
      else match readSecretLog env.hex s path stack.hex stack.secret with
      | ((none, s), secret) => ((⟨-1, none⟩, s), start ++ exist ++ read ++ secret)
      | ((some key, s), secret) =>
        let (rst, ok) := curve25519 ladder key point
        ((⟨if ok then 0 else 1, some rst⟩, s), start ++ exist ++ read ++ secret)

/-! ## Without its log, each is the function it was -/

theorem lookThrough_fst (reg : Bytes) (names : List Bytes) :
    (lookThrough reg names).1 = if names.any (underPath reg) = true then 0 else ENOENT := by
  induction names with
  | nil => rfl
  | cons name names ih =>
    rw [lookThrough, List.any_cons]
    cases underPath reg name with
    | true => rfl
    | false => simpa using ih

theorem isFileOrDirExistLog_fst (reg : Bytes) (s : Sfs) (path : Bytes) :
    (isFileOrDirExistLog reg s path).1 = isFileOrDirExist s path := by
  unfold isFileOrDirExistLog isPathExistLog isFileOrDirExist isPathExist
  cases qseeSfsGetFileList s with
  | mk names t =>
    cases names with
    | none => rfl
    | some names =>
      dsimp only
      by_cases he : names.isEmpty = true
      · rw [if_pos he, if_pos he]
      · rw [if_neg he, if_neg he]
        dsimp only
        rw [lookThrough_fst]
        split <;> rfl

theorem readFileLog_fst (env : ReadFileEnv) (s : Sfs) (fileName : Bytes) (offset : Int)
    (buffer : Mem) (length : Nat) :
    (readFileLog env s fileName offset buffer length).1 =
      readFile s fileName offset buffer length := by
  unfold readFileLog readFile
  split
  · rfl
  · cases qseeSfsOpen s (path2file fileName) O_RDONLY with
    | mk fd s₁ =>
      cases fd with
      | none => rfl
      | some fd =>
        dsimp only
        cases qseeSfsSeek s₁ fd offset.toNat with
        | mk fd' s₂ =>
          cases fd' with
          | none => rfl
          | some fd' =>
            dsimp only
            cases qseeSfsRead s₂ fd' length with
            | mk data s₃ => cases data <;> rfl

theorem readSecretLog_fst (env : ReadFileEnv) (s : Sfs) (path : Bytes) (hex : Mem) (key : Key) :
    (readSecretLog env s path hex key).1 = readHexKey s path 0 hex key := by
  have h := readFileLog_fst env s path 0 hex (WG_KEY_LEN_HEX - 1)
  unfold readSecretLog readHexKey
  rw [← h]
  generalize readFileLog env s path 0 hex (WG_KEY_LEN_HEX - 1) = w
  dsimp only
  split <;> rfl

/-- The response and the store are those of `CurveMul`. -/
theorem curveMulLog_fst (ladder : Key → Key → Key) (env : CurveMulEnv) (s : Sfs) (pin : CStr)
    (point : Key) (id : Int32) (stack : CurveMulStack) :
    (curveMulLog ladder env s pin point id stack).1 = curveMul ladder s pin point id stack := by
  unfold curveMulLog curveMul
  rw [← isFileOrDirExistLog_fst env.reg]
  dsimp only
  generalize isFileOrDirExistLog env.reg s (configfullpath id) = w
  obtain ⟨⟨ret, s₁⟩, exist⟩ := w
  dsimp only
  split
  · rfl
  · rw [← readFileLog_fst env.rpin]
    generalize readFileLog env.rpin s₁ (configfullpath id) _ stack.rpin pin.strlen = w
    obtain ⟨⟨r, s₂⟩, read⟩ := w
    dsimp only
    split
    · rfl
    · split
      · rfl
      · rw [← readSecretLog_fst env.hex]
        generalize readSecretLog env.hex s₂ (configfullpath id) stack.hex stack.secret = w
        obtain ⟨⟨key, s₃⟩, secret⟩ := w
        cases key <;> rfl

/-! ## Two stores, one request -/

/-- Two stores with the same file names in the same order and the same public keys. Secrets
and PINs may differ, also in length. -/
structure SameButSecrets (s t : Sfs) : Prop extends SamePublic s t where
  keys : s.files.keys = t.files.keys

/-- The first `n` bytes of the PIN stored for `id`, or as many as there are. -/
def pinBytes (s : Sfs) (id : Int32) (n : Nat) : Bytes :=
  (((s.files.lookup (configfullpath id)).getD []).drop (2 * (WG_KEY_LEN_HEX - 1))).take n

/-- The call finds the file, reads a PIN from it and rejects the one that was entered. -/
def FailsPin (s : Sfs) (pin : CStr) (id : Int32) (stack : CurveMulStack) : Prop :=
  let e := isFileOrDirExist s (configfullpath id)
  let r := readFile e.2 (configfullpath id) ↑(2 * (WG_KEY_LEN_HEX - 1)) stack.rpin pin.strlen
  e.1 = 0 ∧ r.1.ret = 0 ∧ strcmp pin.text r.1.buffer ≠ 0

instance (s : Sfs) (pin : CStr) (id : Int32) (stack : CurveMulStack) :
    Decidable (FailsPin s pin id stack) :=
  inferInstanceAs (Decidable (_ ∧ _ ∧ _))

section
variable {s t : Sfs}

theorem isFileOrDirExistLog_agree (faults : s.faults = t.faults)
    (keys : s.files.keys = t.files.keys) (reg path : Bytes) :
    (isFileOrDirExistLog reg s path).1.1 = (isFileOrDirExistLog reg t path).1.1 ∧
      (isFileOrDirExistLog reg s path).2 = (isFileOrDirExistLog reg t path).2 := by
  unfold isFileOrDirExistLog isPathExistLog qseeSfsGetFileList
  rw [faults, keys]
  cases t.faults.lists.headD false with
  | true => exact ⟨rfl, rfl⟩
  | false => cases t.files.keys <;> exact ⟨rfl, rfl⟩

end

theorem decimal_inj {a b : Nat} (h : decimal a = decimal b) : a = b := by
  let undo (text : Bytes) : List Nat := text.map fun c => c.toNat - 48
  have digit : ∀ d < 10, (UInt8.ofNat (48 + d)).toNat - 48 = d := by decide
  have back (n : Nat) : undo (decimal n) = Numeral.digits 10 n := by
    have positive : ¬(n : Int) < 0 := by omega
    simp only [undo, decimal, positive, ↓reduceIte, List.nil_append,
      Int.natAbs_natCast, List.map_map]
    apply Eq.trans (List.map_congr_left _) (List.map_id _)
    intro d hd
    exact digit d (Numeral.lt_of_mem_digits (by decide) hd)
  have digits : Numeral.digits 10 a = Numeral.digits 10 b := by rw [← back a, ← back b, h]
  rw [← Numeral.value_digits 10 a, digits, Numeral.value_digits]

theorem Mem.read_write_take (m : Mem) (data : Bytes) (n : Nat) :
    (Mem.write m data).read n = data.take n ++ (m.read n).drop data.length := by
  by_cases h : data.length ≤ n
  · rw [Mem.read_write_short m data h, List.take_of_length_le h]
  · rw [List.drop_of_length_le (by simp; omega), List.append_nil]
    apply List.ext_getElem
    · simp; omega
    · intro i hi _
      have below : i < data.length := by simp at hi; omega
      simp [Mem.read, Mem.write, below]

/-- The text in `data` up to its first zero. -/
def printed (limit : Nat) (data : Bytes) : Bytes := (data.take limit).takeWhile (· ≠ 0)

/-- What is printed of a buffer is what is printed of the data in it, and then, if that has
no zero, whatever lies behind. -/
theorem printed_eq_take (limit : Nat) (m : Mem) (data : Bytes) :
    printed limit data = (shown limit (m.write data)).take (data.take limit).length := by
  rw [shown, Mem.read_write_take, List.takeWhile_append, printed]
  split
  · rename_i full
    rw [List.take_left, (List.takeWhile_prefix _).eq_of_length full]
  · rw [List.take_of_length_le (List.takeWhile_prefix _).length_le]

theorem shown_write_iff (limit : Nat) (m : Mem) {data data' : Bytes}
    (hlen : data.length = data'.length) :
    shown limit (m.write data) = shown limit (m.write data') ↔
      printed limit data = printed limit data' := by
  have htake : (data.take limit).length = (data'.take limit).length := by simp [hlen]
  constructor
  · intro h
    rw [printed_eq_take limit m, printed_eq_take limit m, h, htake]
  · intro h
    unfold printed at h
    rw [shown, shown, Mem.read_write_take, Mem.read_write_take, List.takeWhile_append,
      List.takeWhile_append, hlen, h, htake]
    split
    · rename_i full
      have right := (List.takeWhile_prefix _).eq_of_length full
      rw [← h, ← htake] at full
      rw [← right, ← h, (List.takeWhile_prefix _).eq_of_length full]
    · rfl

/-- The messages of a read that goes well, by the number of bytes it gets. -/
def readLog (env : ReadFileEnv) (fileName : Bytes) (offset : Int) (length count : Nat) :
    List Bytes :=
  (lit "readFile start, " ++ readFileArgs env fileName offset length) ::
    path2fileLog fileName env.qseeFilename ++
    [lit "readFile path2file end, filename:" ++ fileName ++ lit ", qsee_filename:" ++
        path2file fileName,
      lit "readFile qsee_sfs_open end"] ++
    [lit "readFile qsee_sfs_seek end"] ++
    [lit "readFile qsee_sfs_read end length: " ++ decimal count,
      lit "readFile end, ret:0, " ++ readFileArgs env fileName offset count]

theorem readFileLog_readable (env : ReadFileEnv) {s : Sfs} {fileName content : Bytes}
    (h : Readable s fileName) (hc : s.files.lookup fileName = some content) {offset : Int}
    (ho : 0 ≤ offset) {length : Nat} (hl : length ≠ 0) (buffer : Mem) :
    (readFileLog env s fileName offset buffer length).2 =
      readLog env fileName offset length ((content.drop offset.toNat).take length).length := by
  unfold readFileLog
  rw [if_neg (by omega)]
  simp only [qseeSfsOpen, qseeSfsSeek, qseeSfsRead, O_RDONLY, path2file, h.opens, h.seeks, h.reads,
    hc, Bool.false_eq_true, ↓reduceIte, Option.getD_some, readLog]

/-- The number of bytes can be told from the messages. -/
theorem readLog_inj {env : ReadFileEnv} {fileName : Bytes} {offset : Int} {length a b : Nat} :
    readLog env fileName offset length a = readLog env fileName offset length b ↔ a = b := by
  constructor
  · intro h
    have ends := List.append_cancel_left h
    exact decimal_inj (List.append_cancel_left (List.cons.inj ends).1)
  · intro h
    rw [h]

/-- Before it rejects a PIN, `CurveMul` has read from the file. -/
theorem FailsPin.looksUp {s : Sfs} {pin : CStr} {id : Int32} {stack : CurveMulStack}
    (h : FailsPin s pin id stack) : LooksUp s id ∧ pin.strlen ≠ 0 := by
  obtain ⟨found, read, -⟩ := h
  rw [isFileOrDirExist, isPathExist_eq] at found read
  dsimp only at found read
  have lists : s.faults.lists.headD false = false := by
    by_contra hl
    rw [if_neg (fun e => hl e.1)] at found
    exact absurd found (by decide)
  have readable := not_imp_comm.mp (readFile_unreadable · _ _ _) (not_not_intro read)
  refine ⟨⟨⟨readable.stored, readable.opens, readable.seeks, readable.reads⟩, lists⟩, ?_⟩
  intro hz
  rw [hz, readFile, if_pos (.inr rfl)] at read
  exact absurd (show EINVAL = 0 from read) (by decide)

/-- What `CurveMul` logs until it has found the file. -/
def foundLog (env : CurveMulEnv) (s : Sfs) (id : Int32) : List Bytes :=
  [lit "curmul__secret_id:" ++ decimal id.toInt, lit "curmul_filename:" ++ int2char id] ++
    makePathLog (configfullpath id) ++ [lit "curmul_configfullpath:" ++ configfullpath id] ++
    (isFileOrDirExistLog env.reg s (configfullpath id)).2

/-- The messages of a rejected PIN. -/
theorem curveMulLog_rejected (ladder : Key → Key → Key) (env : CurveMulEnv) {s : Sfs} {pin : CStr}
    (point : Key) {id : Int32} {stack : CurveMulStack} (fails : FailsPin s pin id stack) :
    (curveMulLog ladder env s pin point id stack).2 = foundLog env s id ++
      readLog env.rpin (configfullpath id) ↑(2 * (WG_KEY_LEN_HEX - 1)) pin.strlen
        (pinBytes s id pin.strlen).length ++
      [lit "curmul_pinerr:r_pin:" ++
        shown env.limit (stack.rpin.write (pinBytes s id pin.strlen)) ++
        lit ",pin:" ++ pin.text] := by
  obtain ⟨up, hlen⟩ := fails.looksUp
  obtain ⟨found, stored, rejected⟩ := fails
  obtain ⟨content, hc⟩ := Option.isSome_iff_exists.mp up.stored
  have offset := Int.natCast_nonneg (2 * (WG_KEY_LEN_HEX - 1))
  have readable : Readable { s with faults := { s.faults with lists := s.faults.lists.tail } }
      (configfullpath id) := ⟨up.stored, up.opens, up.seeks, up.reads⟩
  have out := readFile_readable readable hc offset hlen stack.rpin
  have log := readFileLog_readable env.rpin readable hc offset hlen stack.rpin
  have bytes : (content.drop (2 * (WG_KEY_LEN_HEX - 1))).take pin.strlen =
      pinBytes s id pin.strlen := by
    rw [pinBytes, hc, Option.getD_some]
  rw [Int.toNat_natCast, bytes] at out log
  rw [up.found, out] at rejected
  have exist := (isFileOrDirExistLog_fst env.reg s (configfullpath id)).trans up.found
  rw [← readFileLog_fst env.rpin] at out
  unfold curveMulLog foundLog
  dsimp only
  generalize isFileOrDirExistLog env.reg s (configfullpath id) = x at exist ⊢
  obtain ⟨_, names⟩ := x
  cases exist
  dsimp only
  generalize readFileLog env.rpin _ (configfullpath id) _ stack.rpin pin.strlen = y at out log ⊢
  obtain ⟨⟨r, u⟩, shown⟩ := y
  dsimp only at out log
  subst out log
  rw [if_neg (not_not_intro rfl), if_neg (not_not_intro rfl), if_pos rejected]

/-- A rejected PIN leaves the same messages over two stores exactly when the stored PINs give
the same number of bytes, as far as the entered one is long, and the same text in them.
Secrets, other files and the rest of the PINs do not show. -/
theorem rejected_pin_log_iff {s t : Sfs} (same : SameButSecrets s t) (ladder : Key → Key → Key)
    (env : CurveMulEnv) (pin : CStr) (point : Key) (id : Int32) (stack : CurveMulStack)
    (left : FailsPin s pin id stack) (right : FailsPin t pin id stack) :
    (curveMulLog ladder env s pin point id stack).2 =
        (curveMulLog ladder env t pin point id stack).2 ↔
      (pinBytes s id pin.strlen).length = (pinBytes t id pin.strlen).length ∧
        printed env.limit (pinBytes s id pin.strlen) =
          printed env.limit (pinBytes t id pin.strlen) := by
  have found : foundLog env s id = foundLog env t id := by
    rw [foundLog, foundLog,
      (isFileOrDirExistLog_agree same.faults same.keys env.reg (configfullpath id)).2]
  rw [curveMulLog_rejected ladder env point left,
    curveMulLog_rejected ladder env point right, found,
    ← List.concat_eq_append, ← List.concat_eq_append, List.concat_inj, List.append_cancel_left_eq,
    readLog_inj, List.append_cancel_right_eq, List.append_cancel_right_eq,
    List.append_cancel_left_eq]
  constructor
  · rintro ⟨hlen, text⟩
    exact ⟨hlen, (shown_write_iff env.limit stack.rpin hlen).mp text⟩
  · rintro ⟨hlen, text⟩
    exact ⟨hlen, (shown_write_iff env.limit stack.rpin hlen).mpr text⟩

theorem keyed_sameButSecrets (secret pin secret' pin' : UInt8) :
    SameButSecrets (keyed secret pin) (keyed secret' pin') :=
  ⟨keyed_samePublic secret pin secret' pin', rfl⟩

/-- Nothing but zeros in memory, an entered PIN of `"3"`. -/
def quietEnv : CurveMulEnv := ⟨[], ⟨[], 0, 1, 0⟩, ⟨[], 0, 1, 0⟩, 100⟩
def enteredPin : CStr := ⟨[51], by decide⟩
def zeroStack : CurveMulStack := ⟨fun _ => 0, fun _ => 0, nullPoint⟩

theorem rejected_pin_log_keyed :
    (curveMulLog (fun _ point => point) quietEnv (keyed 48 49) enteredPin nullPoint 5 zeroStack).2 =
        (curveMulLog (fun _ point => point) quietEnv (keyed 57 49) enteredPin nullPoint
          5 zeroStack).2 ↔
      (pinBytes (keyed 48 49) 5 1).length = (pinBytes (keyed 57 49) 5 1).length ∧
        printed 100 (pinBytes (keyed 48 49) 5 1) = printed 100 (pinBytes (keyed 57 49) 5 1) :=
  rejected_pin_log_iff (keyed_sameButSecrets 48 49 57 49) (fun _ point => point) quietEnv enteredPin
    nullPoint 5 zeroStack (by decide +kernel) (by decide +kernel)

/-- The last message of a rejected PIN shows the one that is stored. -/
theorem rejected_pin_shown : ∃ s t pin id stack env, SameButSecrets s t ∧ FailsPin s pin id stack ∧
    FailsPin t pin id stack ∧ ∀ ladder point,
      (curveMulLog ladder env s pin point id stack).2 ≠
        (curveMulLog ladder env t pin point id stack).2 := by
  have left : FailsPin (keyed 48 49) enteredPin 5 zeroStack := by decide +kernel
  have right : FailsPin (keyed 48 50) enteredPin 5 zeroStack := by decide +kernel
  refine ⟨keyed 48 49, keyed 48 50, enteredPin, 5, zeroStack, quietEnv,
    keyed_sameButSecrets 48 49 48 50, left, right, ?_⟩
  intro ladder point h
  rw [curveMulLog_rejected ladder quietEnv point left,
    curveMulLog_rejected ladder quietEnv point right] at h
  have last := List.cons.inj (List.append_inj' h rfl).2
  exact absurd last.1 (by decide +kernel)

end Sewg.TrustApp
