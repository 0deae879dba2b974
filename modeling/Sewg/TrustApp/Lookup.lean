import Sewg.TrustApp.Pinless

/-! What the return value of `GetPublickeyByID` says about the file. The length that
`readFile` gives back and the return value of `key_from_hex` are both dropped, so a file
that is too short shows the stack and a bad digit is decoded all the same. -/

namespace Sewg.TrustApp
open CString

/-! ## The lookup -/

/-- What a call finds at offset 64 of a file. -/
def publicHex (content : Bytes) : Bytes :=
  (content.drop (WG_KEY_LEN_HEX - 1)).take (WG_KEY_LEN_HEX - 1)

theorem publicHex_length_le (content : Bytes) : (publicHex content).length ≤ WG_KEY_LEN_HEX - 1 :=
  List.length_take_le _ _

/-- The next read of a file finds it, and none of its calls fails. -/
structure Readable (s : Sfs) (fileName : Bytes) : Prop where
  stored : (s.files.lookup fileName).isSome
  opens : s.faults.opens.headD false = false
  seeks : s.faults.seeks.headD false = false
  reads : s.faults.reads.headD false = false

variable {s : Sfs} {id : Int32}

theorem readFile_readable {fileName content : Bytes} (h : Readable s fileName)
    (hc : s.files.lookup fileName = some content) {offset : Int} (ho : 0 ≤ offset) {length : Nat}
    (hl : length ≠ 0) (buffer : Mem) :
    (readFile s fileName offset buffer length).1 =
      ⟨0, buffer.write ((content.drop offset.toNat).take length),
        ((content.drop offset.toNat).take length).length⟩ := by
  unfold readFile path2file
  rw [if_neg (by omega)]
  simp only [qseeSfsOpen, qseeSfsSeek, qseeSfsRead, O_RDONLY, h.opens, h.seeks, h.reads, hc,
    Bool.false_eq_true, ↓reduceIte, Option.getD_some]

theorem readFile_unreadable {fileName : Bytes} (h : ¬Readable s fileName) (offset : Int)
    (buffer : Mem) (length : Nat) : (readFile s fileName offset buffer length).1.ret ≠ 0 := by
  intro hz
  have stored := readFile_stored offset buffer length hz
  obtain ⟨content, hc⟩ := Option.isSome_iff_exists.mp stored
  apply h
  unfold readFile path2file at hz
  split at hz
  · exact absurd (show EINVAL = 0 from hz) (by decide)
  · simp only [qseeSfsOpen, qseeSfsSeek, qseeSfsRead, O_RDONLY, hc] at hz
    cases ho : s.faults.opens.headD false with
    | true => simp only [ho, ↓reduceIte] at hz; exact absurd hz (by decide)
    | false =>
      cases hk : s.faults.seeks.headD false with
      | true =>
        simp only [ho, hk, Bool.false_eq_true, ↓reduceIte] at hz; exact absurd hz (by decide)
      | false =>
        cases hr : s.faults.reads.headD false with
        | true =>
          simp only [ho, hk, hr, Bool.false_eq_true, ↓reduceIte] at hz
          exact absurd hz (by decide)
        | false => exact ⟨stored, ho, hk, hr⟩

/-- A lookup gets as far as the decoding: the file list works and has the path, and the file
can be read. -/
structure LooksUp (s : Sfs) (id : Int32) : Prop extends Readable s (configfullpath id) where
  lists : s.faults.lists.headD false = false

theorem LooksUp.found (h : LooksUp s id) :
    isFileOrDirExist s (configfullpath id) =
      (0, { s with faults := { s.faults with lists := s.faults.lists.tail } }) := by
  rw [isFileOrDirExist, isPathExist_eq, if_pos ⟨h.lists, stored_underPath h.stored⟩]

/-- What is decoded: the file from offset 64 on and, behind its end, what the stack held. -/
theorem getPublickeyByID_eq (h : LooksUp s id) {content : Bytes}
    (hc : s.files.lookup (configfullpath id) = some content) (stack : GetPublickeyStack) :
    (getPublickeyByID s id stack).1 = ⟨0, some (keyFromHex stack.pub (publicHex content ++
        (stack.hex.read (WG_KEY_LEN_HEX - 1)).drop (publicHex content).length)).1⟩ := by
  have read := readFile_readable
    (s := { s with faults := { s.faults with lists := s.faults.lists.tail } })
    ⟨h.stored, h.opens, h.seeks, h.reads⟩ hc (Int.natCast_nonneg (WG_KEY_LEN_HEX - 1))
    (show WG_KEY_LEN_HEX - 1 ≠ 0 by decide) stack.hex
  rw [← Mem.read_write_short stack.hex (publicHex content) (publicHex_length_le content)]
  unfold getPublickeyByID readHexKey
  rw [h.found]
  dsimp only
  rw [if_neg (not_not_intro rfl), read]
  rfl

theorem getPublickeyByID_fails (h : ¬LooksUp s id) (stack : GetPublickeyStack) :
    (getPublickeyByID s id stack).1.ret ≠ 0 := by
  have failed : (-1 : Int) ≠ 0 := by decide
  unfold getPublickeyByID readHexKey isFileOrDirExist
  rw [isPathExist_eq]
  dsimp only
  by_cases found : s.faults.lists.headD false = false ∧
      s.files.keys.any (underPath (configfullpath id)) = true
  · have unreadable := readFile_unreadable
      (s := { s with faults := { s.faults with lists := s.faults.lists.tail } })
      (fun r => h ⟨⟨r.stored, r.opens, r.seeks, r.reads⟩, found.1⟩) ↑(WG_KEY_LEN_HEX - 1) stack.hex
      (WG_KEY_LEN_HEX - 1)
    rw [if_pos found, if_neg (not_not_intro rfl), if_pos unreadable]
    exact failed
  · rw [if_neg found, if_pos (show ENOENT ≠ 0 by decide)]
    exact failed

/-- The file holds 64 hexadecimal digits at offset 64. -/
def WellFormed (content : Bytes) : Prop :=
  (publicHex content).length = WG_KEY_LEN * 2 ∧ ∀ c ∈ publicHex content, isHexDigit c = true

/-- A return value of 0 is to be trusted: there is a file for `id`, it is well formed, and
the output is the key that its digits denote. -/
def Trustworthy (s : Sfs) (id : Int32) (rsp : GetPublickeyRsp) : Prop :=
  rsp.ret = 0 → ∃ content, s.files.lookup (configfullpath id) = some content ∧
    WellFormed content ∧ rsp.pubKey = some (decodeHex (publicHex content))

/-- That is so exactly when the lookup does not get as far as the decoding, or gets there with
a well-formed file. Nothing the call does with a file tells the two kinds apart. -/
theorem getPublickeyByID_trustworthy_iff (s : Sfs) (id : Int32) (stack : GetPublickeyStack) :
    Trustworthy s id (getPublickeyByID s id stack).1 ↔
      (LooksUp s id → ∀ content, s.files.lookup (configfullpath id) = some content →
        WellFormed content) := by
  constructor
  · intro trust up content hc
    obtain ⟨content', hc', formed, -⟩ := trust (by rw [getPublickeyByID_eq up hc])
    cases hc.symm.trans hc'
    exact formed
  · intro formed hz
    by_cases up : LooksUp s id
    · obtain ⟨content, hc⟩ := Option.isSome_iff_exists.mp up.stored
      obtain ⟨len, digits⟩ := formed up content hc
      refine ⟨content, hc, ⟨len, digits⟩, ?_⟩
      have full : (stack.hex.read (WG_KEY_LEN_HEX - 1)).drop (publicHex content).length = [] :=
        List.drop_of_length_le (by rw [len, Mem.read_length]; decide)
      have decoded :=
        (keyFromHex_eq stack.pub len fun c hc => (hexDigit_hexValue c (digits c hc)).1).2 digits
      rw [getPublickeyByID_eq up hc, full, List.append_nil, decoded]
    · exact absurd hz (getPublickeyByID_fails up stack)

/-- `provisioned`, with one file that has this content. -/
def holding (id : Int32) (content : Bytes) : Sfs where
  files := provisioned.files.insert (configfullpath id) content

theorem holding_lookup (id : Int32) (content : Bytes) :
    (holding id content).files.lookup (configfullpath id) = some content :=
  AList.lookup_insert _

/-- From an empty file the call decodes 64 characters of its stack and returns 0. From the
other file it returns 0 although none of the 64 bytes is a digit. -/
theorem getPublickeyByID_bad_record :
    ((getPublickeyByID (holding 5 []) 5 ⟨fun _ => 49, nullPoint⟩).1 = ⟨0, some (.replicate 32 17)⟩ ∧
      ¬Trustworthy (holding 5 []) 5 ⟨0, some (.replicate 32 17)⟩) ∧
    (getPublickeyByID (holding 5 (.replicate 128 90)) 5 ⟨fun _ => 0, nullPoint⟩).1.ret = 0 ∧
      ∀ pubKey, ¬Trustworthy (holding 5 (.replicate 128 90)) 5 ⟨0, pubKey⟩ := by
  refine ⟨⟨by decide +kernel, ?_⟩, by decide +kernel, ?_⟩
  · intro trust
    obtain ⟨content, hc, formed, -⟩ := trust rfl
    cases Option.some.inj (hc.symm.trans (holding_lookup 5 []))
    exact absurd formed.1 (by decide)
  · intro pubKey trust
    obtain ⟨content, hc, formed, -⟩ := trust rfl
    cases Option.some.inj (hc.symm.trans (holding_lookup 5 _))
    exact absurd (formed.2 90 (by decide +kernel)) (by decide)

end Sewg.TrustApp
