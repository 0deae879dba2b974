import Sewg.TrustApp.Wgtee

/-! The key record: what a successful `GenerateKeyPair` leaves in the store, and
what the other two commands make of it. -/

namespace Sewg.TrustApp
open CString

/-- Secret as drawn, public key, PIN. -/
def record (secret pub : Key) (pin : Bytes) : Bytes := hexDigits secret ++ (hexDigits pub ++ pin)

theorem configfullpath_eq (id : Int32) : configfullpath id = USER_DIR ++ SPLIT :: int2char id := by
  have h : (USER_DIR ++ SPLIT :: int2char id).length = 12 := by
    simp [USER_DIR, int2char, int2charLoop]
  exact List.take_of_length_le (by rw [h]; decide)

theorem configfullpath_length (id : Int32) : (configfullpath id).length = 12 := by
  rw [configfullpath_eq]
  simp [USER_DIR, int2char, int2charLoop]

/-- Two ids share a file exactly when they share their three characters. -/
theorem configfullpath_inj {a b : Int32} :
    configfullpath a = configfullpath b ↔ int2char a = int2char b := by
  rw [configfullpath_eq, configfullpath_eq]
  simp

/-- The loop stops at a value whose path does not exist. -/
theorem drawId_spec {s t : Sfs} (hl : s.faults.lists = []) {ids : List Int32} {id : Int32}
    (h : drawId s ids = some (id, t)) :
    t = s ∧ id ∈ ids ∧ s.files.lookup (configfullpath id) = none := by
  induction ids with
  | nil => cases h
  | cons i ids ih =>
    simp only [drawId, isFileOrDirExist, isPathExist_lists hl] at h
    split at h
    · obtain ⟨ht, hm, hn⟩ := ih h
      exact ⟨ht, List.mem_cons_of_mem i hm, hn⟩
    · rename_i hnone
      cases h
      refine ⟨rfl, List.mem_cons_self, ?_⟩
      by_contra hs
      exact hnone (stored_underPath (Option.isSome_iff_ne_none.mpr hs))

section
variable (ladder : Key → Key → Key)

/-! ## The three writes -/

def writeSecret (s : Sfs) (id : Int32) (env : GenerateEnv) : Int × Sfs :=
  createFile s (configfullpath id) (keyToHex env.secret) (WG_KEY_LEN_HEX - 1)

def writePublic (s : Sfs) (id : Int32) (pub : Key) : Int × Sfs :=
  writeFile s (configfullpath id) ↑(WG_KEY_LEN_HEX - 1) (keyToHex pub) (WG_KEY_LEN_HEX - 1)

def writePin (s : Sfs) (id : Int32) (pin : CStr) : Int × Sfs :=
  writeFile s (configfullpath id) ↑(2 * (WG_KEY_LEN_HEX - 1)) pin.text pin.strlen

theorem writeRecord_eq (s : Sfs) (pin : CStr) (id : Int32) (env : GenerateEnv) :
    writeRecord ladder s pin id env =
      let pub := ladder (normalizeSecret env.secret) basepoint
      let w₁ := writeSecret s id env
      let w₂ := writePublic w₁.2 id pub
      let w₃ := writePin w₂.2 id pin
      if w₁.1 ≠ 0 then (⟨-1, id, none⟩, w₁.2)
      else if w₂.1 ≠ 0 then (⟨-1, id, none⟩, w₂.2)
      else if w₃.1 ≠ 0 then (⟨-1, id, none⟩, w₃.2)
      else (⟨0, id, some pub⟩, w₃.2) := by
  rw [← generatePublic_clamped ladder env.pub env.secret]
  rfl

theorem keyToHex_fits (key : Key) : WG_KEY_LEN_HEX - 1 ≤ (keyToHex key).length := by
  simp [keyToHex]

/-- Each write starts where the previous one ended. -/
theorem record_written {s : Sfs} {pin : CStr} {id : Int32} {env : GenerateEnv} {pub : Key}
    (z₁ : (writeSecret s id env).1 = 0) (z₂ : (writePublic (writeSecret s id env).2 id pub).1 = 0)
    (z₃ : (writePin (writePublic (writeSecret s id env).2 id pub).2 id pin).1 = 0) :
    (writePin (writePublic (writeSecret s id env).2 id pub).2 id pin).2.files.lookup
      (configfullpath id) = some (record env.secret pub pin.text) := by
  have len₁ : (hexDigits env.secret).length = WG_KEY_LEN_HEX - 1 := hexDigits_length _
  have len₂ : (hexDigits env.secret ++ hexDigits pub).length = 2 * (WG_KEY_LEN_HEX - 1) := by
    rw [List.length_append, hexDigits_length, hexDigits_length]
    rfl
  have c₁ := createFile_ok s (configfullpath id) (by decide) (keyToHex_fits env.secret) z₁
  have c₂ := writeFile_ok _ (configfullpath id) _ (keyToHex_fits pub) z₂
  have c₃ := writeFile_ok _ (configfullpath id) _ (Nat.le_refl pin.text.length) z₃
  change (writeSecret s id env).2.files.lookup _ = _ at c₁
  change (writePublic (writeSecret s id env).2 id pub).2.files.lookup _ = _ at c₂
  rw [keyToHex_take] at c₁ c₂
  rw [c₁, Option.getD_some, Int.toNat_natCast, ← len₁, overwrite_end] at c₂
  rw [c₂, Option.getD_some, Int.toNat_natCast, ← len₂, overwrite_end, List.take_length,
    List.append_assoc] at c₃
  exact c₃

theorem writePin_nonempty {s : Sfs} {id : Int32} {pin : CStr} (h : (writePin s id pin).1 = 0) :
    pin.text ≠ [] := by
  intro he
  simp only [writePin, writeFile, CStr.strlen, he, List.length_nil, or_true, ↓reduceIte] at h
  exact absurd h (by decide)

theorem writeRecord_touches (s : Sfs) (pin : CStr) (id : Int32) (env : GenerateEnv) :
    Touches (configfullpath id) s (writeRecord ladder s pin id env).2 := by
  have h₁ : Touches (configfullpath id) s (writeSecret s id env).2 := createFile_touches s _ _ _
  have h₂ (s : Sfs) (pub : Key) : Touches (configfullpath id) s (writePublic s id pub).2 :=
    writeFile_touches s _ _ _ _
  have h₃ (s : Sfs) : Touches (configfullpath id) s (writePin s id pin).2 :=
    writeFile_touches s _ _ _ _
  rw [writeRecord_eq]
  dsimp only
  split
  · exact h₁
  · split
    · exact h₁.trans (h₂ _ _)
    · split <;> exact (h₁.trans (h₂ _ _)).trans (h₃ _)

/-- A record that reports success is complete. -/
theorem writeRecord_ok {s : Sfs} {pin : CStr} {id : Int32} {env : GenerateEnv}
    (h : (writeRecord ladder s pin id env).1.ret = 0) :
    let pub := ladder (normalizeSecret env.secret) basepoint
    (writeRecord ladder s pin id env).1 = ⟨0, id, some pub⟩ ∧ pin.text ≠ [] ∧
    (writeRecord ladder s pin id env).2.files.lookup (configfullpath id) =
      some (record env.secret pub pin.text) := by
  have failed : (-1 : Int) ≠ 0 := by decide
  rw [writeRecord_eq] at h ⊢
  dsimp only at h ⊢
  split at h
  · exact absurd h failed
  · rename_i z₁
    split at h
    · exact absurd h failed
    · rename_i z₂
      split at h
      · exact absurd h failed
      · rename_i z₃
        rw [if_neg z₁, if_neg z₂, if_neg z₃]
        exact ⟨rfl, writePin_nonempty (not_not.mp z₃),
          record_written (not_not.mp z₁) (not_not.mp z₂) (not_not.mp z₃)⟩

theorem writeRecord_clean {s : Sfs} (hs : s.faults = {}) {pin : CStr} (hp : pin.text ≠ [])
    {id : Int32} (env : GenerateEnv)
    (hd : (isPathExist s (dirSplit (configfullpath id) (configfullpath id).length)).1 = 0) :
    (writeRecord ladder s pin id env).1.ret = 0 := by
  have hlen : pin.strlen ≠ 0 := by simpa [CStr.strlen] using hp
  let pub := ladder (normalizeSecret env.secret) basepoint
  have z₁ : (writeSecret s id env).1 = 0 := createFile_clean hs (keyToHex_fits env.secret) hd
  have s₁ : (writeSecret s id env).2.faults = {} := (createFile_touches s _ _ _).clean hs
  have z₂ : (writePublic (writeSecret s id env).2 id pub).1 = 0 :=
    writeFile_clean s₁ _ (Int.natCast_nonneg _) (by decide) (keyToHex_fits pub)
  have s₂ : (writePublic (writeSecret s id env).2 id pub).2.faults = {} :=
    (writeFile_touches _ _ _ _ _).clean s₁
  have z₃ : (writePin (writePublic (writeSecret s id env).2 id pub).2 id pin).1 = 0 :=
    writeFile_clean s₂ _ (Int.natCast_nonneg _) hlen (Nat.le_refl _)
  rw [writeRecord_eq]
  dsimp only
  rw [if_neg (not_not.mpr z₁), if_neg (not_not.mpr z₂), if_neg (not_not.mpr z₃)]

theorem writeRecord_nodir {s : Sfs} (hl : s.faults.lists = []) (pin : CStr) {id : Int32}
    (env : GenerateEnv)
    (hd : (isPathExist s (dirSplit (configfullpath id) (configfullpath id).length)).1 ≠ 0) :
    writeRecord ladder s pin id env = (⟨-1, id, none⟩, s) := by
  obtain ⟨ret, he⟩ := isPathExist_state hl (dirSplit (configfullpath id) (configfullpath id).length)
  rw [he] at hd
  have hc : createFile s (configfullpath id) (keyToHex env.secret) (WG_KEY_LEN_HEX - 1) =
      (ENOENT, s) := by
    simp only [createFile, he]
    rw [if_pos hd]
  simp only [writeRecord, hc]
  rw [if_pos (by decide)]

/-- A first draw that is free is issued, given its directory and a PIN. -/
theorem generateKeyPair_issues {s : Sfs} (hs : s.faults = {}) {pin : CStr} (hp : pin.text ≠ [])
    (env : GenerateEnv) {id : Int32} {ids : List Int32} (hids : env.ids = id :: ids)
    (free : (isPathExist s (configfullpath id)).1 ≠ 0)
    (dir : (isPathExist s (dirSplit (configfullpath id) (configfullpath id).length)).1 = 0) :
    ∃ t, generateKeyPair ladder s pin env =
      some (⟨0, id, some (ladder (normalizeSecret env.secret) basepoint)⟩, t) := by
  obtain ⟨ret, he⟩ := isPathExist_state (s := s) (by rw [hs]) (configfullpath id)
  rw [he] at free
  have hd : drawId s env.ids = some (id, s) := by
    simp only [hids, drawId, isFileOrDirExist, he]
    rw [if_neg free]
  have hok := writeRecord_ok ladder (writeRecord_clean ladder hs hp env dir)
  refine ⟨(writeRecord ladder s pin id env).2, ?_⟩
  simp only [generateKeyPair, hd]
  rw [← hok.1]

/-- One call: it stops at a fresh path, touches only that, and when it returns
0 the complete record is there. -/
theorem generateKeyPair_spec {ladder : Key → Key → Key} {s t : Sfs} (hl : s.faults.lists = [])
    {pin : CStr} {env : GenerateEnv} {rsp : GenerateKeyPairRsp}
    (h : generateKeyPair ladder s pin env = some (rsp, t)) :
    ∃ id, id ∈ env.ids ∧ s.files.lookup (configfullpath id) = none ∧
      Touches (configfullpath id) s t ∧
      (rsp.ret = 0 → pin.text ≠ [] ∧
        rsp = ⟨0, id, some (ladder (normalizeSecret env.secret) basepoint)⟩ ∧
        t.files.lookup (configfullpath id) =
          some (record env.secret (ladder (normalizeSecret env.secret) basepoint) pin.text)) := by
  unfold generateKeyPair at h
  cases hd : drawId s env.ids with
  | none => rw [hd] at h; cases h
  | some drawn =>
    obtain ⟨id, u⟩ := drawn
    obtain ⟨rfl, hm, hn⟩ := drawId_spec hl hd
    simp only [hd, Option.some.injEq] at h
    have ht := writeRecord_touches ladder u pin id env
    have hok := @writeRecord_ok ladder u pin id env
    rw [h] at ht hok
    exact ⟨id, hm, hn, ht, fun hz => ⟨(hok hz).2.1, (hok hz).1, (hok hz).2.2⟩⟩

theorem generateKeyPair_failed {ladder : Key → Key → Key} {s t : Sfs} (hs : s.faults = {})
    {pin : CStr} (hp : pin.text ≠ []) {env : GenerateEnv} {rsp : GenerateKeyPairRsp}
    (h : generateKeyPair ladder s pin env = some (rsp, t)) (hz : rsp.ret ≠ 0) : t = s := by
  have hl : s.faults.lists = [] := by rw [hs]
  unfold generateKeyPair at h
  cases hd : drawId s env.ids with
  | none => rw [hd] at h; cases h
  | some drawn =>
    obtain ⟨id, u⟩ := drawn
    obtain ⟨rfl, -, -⟩ := drawId_spec hl hd
    simp only [hd, Option.some.injEq] at h
    have nodir :
        (isPathExist u (dirSplit (configfullpath id) (configfullpath id).length)).1 ≠ 0 := by
      intro dir
      have ok := writeRecord_clean ladder hs hp env dir
      rw [h] at ok
      exact hz ok
    rw [writeRecord_nodir ladder hl pin env nodir] at h
    exact (congrArg Prod.snd h).symm

end

/-! ## Reading a record -/

theorem readHexKey_keeps (s : Sfs) (path : Bytes) (offset : Int) (hex : Mem) (key : Key) :
    Keeps s (readHexKey s path offset hex key).2 := by
  have h := readFile_keeps s path offset hex (WG_KEY_LEN_HEX - 1)
  unfold readHexKey
  generalize readFile s path offset hex (WG_KEY_LEN_HEX - 1) = w at h ⊢
  obtain ⟨r, t⟩ := w
  dsimp only at h ⊢
  split <;> exact h

/-- Sixty-four digits at `offset` decode to the key they were made from. -/
theorem readHexKey_clean {s : Sfs} (hs : s.faults = {}) {path content : Bytes} {offset : Int}
    (ho : 0 ≤ offset) (hc : s.files.lookup path = some content) {key : Key}
    (hk : (content.drop offset.toNat).take (WG_KEY_LEN_HEX - 1) = hexDigits key) (hex : Mem)
    (old : Key) : readHexKey s path offset hex old = (some key, s) := by
  have hr := readFile_clean hs ho (show WG_KEY_LEN_HEX - 1 ≠ 0 by decide) hc hex
  rw [hk] at hr
  have hb : (hex.write (hexDigits key)).read (WG_KEY_LEN_HEX - 1) = hexDigits key := by
    have := Mem.read_write hex (hexDigits key)
    rwa [hexDigits_length] at this
  simp only [readHexKey, hr, ne_eq, not_true_eq_false, ↓reduceIte, hb, keyFromHex_hexDigits]

theorem record_secret (secret pub : Key) (pin : Bytes) :
    ((record secret pub pin).drop 0).take (WG_KEY_LEN_HEX - 1) = hexDigits secret := by
  have h : WG_KEY_LEN_HEX - 1 = (hexDigits secret).length := (hexDigits_length _).symm
  rw [List.drop_zero, record, h, List.take_left]

theorem record_pub (secret pub : Key) (pin : Bytes) :
    ((record secret pub pin).drop (WG_KEY_LEN_HEX - 1)).take (WG_KEY_LEN_HEX - 1) =
      hexDigits pub := by
  have h : WG_KEY_LEN_HEX - 1 = (hexDigits secret).length := (hexDigits_length _).symm
  have h' : WG_KEY_LEN_HEX - 1 = (hexDigits pub).length := (hexDigits_length _).symm
  rw [record, h, List.drop_left, ← h, h', List.take_left]

theorem record_pin (secret pub : Key) (pin : Bytes) :
    (record secret pub pin).drop (2 * (WG_KEY_LEN_HEX - 1)) = pin := by
  have h : 2 * (WG_KEY_LEN_HEX - 1) = (hexDigits secret ++ hexDigits pub).length := by
    rw [List.length_append, hexDigits_length, hexDigits_length]; rfl
  rw [record, ← List.append_assoc, h, List.drop_left]

theorem getPublickeyByID_record {s : Sfs} (hs : s.faults = {}) {id : Int32} {secret pub : Key}
    {pin : Bytes} (hr : s.files.lookup (configfullpath id) = some (record secret pub pin))
    (stack : GetPublickeyStack) : getPublickeyByID s id stack = (⟨0, some pub⟩, s) := by
  have he := isPathExist_stored (s := s) (by rw [hs]) (configfullpath id) (by simp [hr])
  have hk := readHexKey_clean hs (Int.natCast_nonneg (WG_KEY_LEN_HEX - 1)) hr
    (record_pub secret pub pin) stack.hex stack.pub
  simp only [getPublickeyByID, isFileOrDirExist, he, ne_eq, not_true_eq_false, ↓reduceIte, hk]

theorem getPublickeyByID_keeps {s : Sfs} (hl : s.faults.lists = []) (id : Int32)
    (stack : GetPublickeyStack) :
    Keeps s (getPublickeyByID s id stack).2 := by
  have h := readHexKey_keeps s (configfullpath id) ↑(WG_KEY_LEN_HEX - 1) stack.hex stack.pub
  obtain ⟨ret, he⟩ := isPathExist_state hl (configfullpath id)
  simp only [getPublickeyByID, isFileOrDirExist, he]
  generalize readHexKey s (configfullpath id) ↑(WG_KEY_LEN_HEX - 1) stack.hex stack.pub = w at h ⊢
  obtain ⟨key, t⟩ := w
  split
  · exact Keeps.refl s
  · cases key <;> exact h

/-- The PIN check. `none` when it rejects, or when the record cannot be read. -/
theorem curveMul_record {ladder : Key → Key → Key} {s : Sfs} (hs : s.faults = {}) {id : Int32}
    {secret pub : Key} {pin : Bytes}
    (hr : s.files.lookup (configfullpath id) = some (record secret pub pin)) (entered : CStr)
    (he : entered.text ≠ []) (point : Key) (stack : CurveMulStack) :
    curveMul ladder s entered point id stack =
      (if strcmp entered.text (stack.rpin.write (pin.take entered.strlen)) = 0 then
        ⟨if (curve25519 ladder secret point).2 then 0 else 1,
          some (curve25519 ladder secret point).1⟩
      else ⟨-1, none⟩, s) := by
  have hx := isPathExist_stored (s := s) (by rw [hs]) (configfullpath id) (by simp [hr])
  have hlen : entered.strlen ≠ 0 := by simpa [CStr.strlen] using he
  have hp := readFile_clean hs (Int.natCast_nonneg (2 * (WG_KEY_LEN_HEX - 1))) hlen hr stack.rpin
  rw [Int.toNat_natCast, record_pin] at hp
  have hk :=
    readHexKey_clean hs (Int.le_refl 0) hr (record_secret secret pub pin) stack.hex stack.secret
  simp only [curveMul, isFileOrDirExist, hx, hp, ne_eq, not_true_eq_false, ↓reduceIte, hk]
  by_cases hc : strcmp entered.text (stack.rpin.write (pin.take entered.strlen)) = 0
  · simp only [hc, not_true_eq_false, ↓reduceIte]
  · simp only [hc, not_false_eq_true, ↓reduceIte]

theorem curveMul_keeps {ladder : Key → Key → Key} {s : Sfs} (hl : s.faults.lists = [])
    (pin : CStr) (point : Key) (id : Int32) (stack : CurveMulStack) :
    Keeps s (curveMul ladder s pin point id stack).2 := by
  have h₁ := readFile_keeps s (configfullpath id) ↑(2 * (WG_KEY_LEN_HEX - 1)) stack.rpin pin.strlen
  obtain ⟨ret, he⟩ := isPathExist_state hl (configfullpath id)
  simp only [curveMul, isFileOrDirExist, he]
  generalize readFile s (configfullpath id) ↑(2 * (WG_KEY_LEN_HEX - 1)) stack.rpin pin.strlen = w
    at h₁ ⊢
  obtain ⟨r, t⟩ := w
  have h₂ := readHexKey_keeps t (configfullpath id) 0 stack.hex stack.secret
  generalize readHexKey t (configfullpath id) 0 stack.hex stack.secret = w at h₂ ⊢
  obtain ⟨key, u⟩ := w
  dsimp only at h₁ h₂ ⊢
  split
  · exact Keeps.refl s
  · split
    · exact h₁
    · split
      · exact h₁
      · cases key <;> exact h₁.trans h₂

/-- A read of no bytes is an error, so an empty PIN is refused. -/
theorem curveMul_empty {ladder : Key → Key → Key} {s : Sfs} (hl : s.faults.lists = []) {pin : CStr}
    (hp : pin.text = []) (point : Key) (id : Int32) (stack : CurveMulStack) :
    (curveMul ladder s pin point id stack).1 = ⟨-1, none⟩ := by
  obtain ⟨ret, he⟩ := isPathExist_state hl (configfullpath id)
  have hr : readFile s (configfullpath id) ↑(2 * (WG_KEY_LEN_HEX - 1)) stack.rpin pin.strlen =
      (⟨EINVAL, stack.rpin, pin.strlen⟩, s) := by
    simp [readFile, CStr.strlen, hp]
  simp only [curveMul, isFileOrDirExist, he, hr]
  split
  · rfl
  · rw [if_pos (by decide)]

/-! ## Only a stored file answers -/

theorem getPublickeyByID_stored {s : Sfs} (hl : s.faults.lists = []) {id : Int32}
    {stack : GetPublickeyStack} (h : (getPublickeyByID s id stack).1.ret = 0) :
    (s.files.lookup (configfullpath id)).isSome := by
  obtain ⟨ret, he⟩ := isPathExist_state hl (configfullpath id)
  simp only [getPublickeyByID, isFileOrDirExist, he, readHexKey] at h
  split at h
  · exact absurd (show (-1 : Int) = 0 from h) (by decide)
  · apply readFile_stored ↑(WG_KEY_LEN_HEX - 1) stack.hex (WG_KEY_LEN_HEX - 1)
    by_contra hne
    rw [if_pos hne] at h
    exact absurd (show (-1 : Int) = 0 from h) (by decide)

theorem curveMul_stored {ladder : Key → Key → Key} {s : Sfs} (hl : s.faults.lists = [])
    {pin : CStr} {point : Key} {id : Int32} {stack : CurveMulStack}
    (h : (curveMul ladder s pin point id stack).1.ret ≠ -1) :
    (s.files.lookup (configfullpath id)).isSome := by
  obtain ⟨ret, he⟩ := isPathExist_state hl (configfullpath id)
  simp only [curveMul, isFileOrDirExist, he] at h
  split at h
  · exact absurd rfl h
  · apply readFile_stored ↑(2 * (WG_KEY_LEN_HEX - 1)) stack.rpin pin.strlen
    by_contra hne
    rw [if_pos hne] at h
    exact absurd rfl h

end Sewg.TrustApp
