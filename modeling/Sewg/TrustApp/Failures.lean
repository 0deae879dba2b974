import Sewg.TrustApp.Commands

/-! What `GenerateKeyPair` leaves behind when it fails. The record is written in three
calls, and nothing takes it away again. -/

namespace Sewg.TrustApp
open CString

/-- A write with this outcome stores `length` bytes. -/
def Stores (outcome : Option Nat) (length : Nat) : Prop := ∀ n, outcome = some n → length ≤ n

instance (outcome : Option Nat) (length : Nat) : Decidable (Stores outcome length) :=
  match outcome with
  | none => isTrue nofun
  | some n => decidable_of_iff (length ≤ n) ⟨fun h _ e => Option.some.inj e ▸ h, fun h => h n rfl⟩

/-! ## When a call succeeds -/

section
variable {s : Sfs}

theorem write_count (fd : Fd) (data : Bytes) :
    (qseeSfsWrite s fd data).1 = data.length ↔ Stores (s.faults.writes.headD none) data.length := by
  unfold qseeSfsWrite Stores
  cases s.faults.writes.headD none with
  | none => simp
  | some n =>
    simp only [List.length_take, Option.some.injEq, forall_eq']
    omega

/-- What an open for writing uses up, and whether it gives a descriptor. -/
theorem open_creat (s : Sfs) (name : Bytes) {flags : Flags} (hf : flags.creat = true) :
    (qseeSfsOpen s name flags).2.faults = { s.faults with opens := s.faults.opens.tail } ∧
      (qseeSfsOpen s name flags).1 =
        if s.faults.opens.headD false = true then none else some ⟨name, 0⟩ := by
  unfold qseeSfsOpen
  split
  · exact ⟨rfl, rfl⟩
  · cases s.files.lookup name with
    | none => exact ⟨rfl, rfl⟩
    | some _ => cases flags.trunc <;> exact ⟨rfl, rfl⟩

/-- The calls of `writeFile` work, and it has something to write. -/
structure Faults.Writes (f : Faults) (length : Nat) : Prop where
  some : length ≠ 0
  opens : f.opens.headD false = false
  seeks : f.seeks.headD false = false
  writes : Stores (f.writes.headD none) length

/-- What the calls of `writeFile` use up. -/
def Faults.written (f : Faults) : Faults :=
  { f with opens := f.opens.tail, seeks := f.seeks.tail, writes := f.writes.tail }

theorem writeFile_cases (s : Sfs) (fileName : Bytes) {buffer : Bytes} {offset : Int} {length : Nat}
    (ho : 0 ≤ offset) (hb : length ≤ buffer.length) :
    (s.faults.Writes length ∧ (writeFile s fileName offset buffer length).1 = 0 ∧
      (writeFile s fileName offset buffer length).2.faults = s.faults.written) ∨
    (¬s.faults.Writes length ∧ (writeFile s fileName offset buffer length).1 ≠ 0) := by
  unfold writeFile path2file
  by_cases hlen : length = 0
  · rw [if_pos (.inr hlen)]
    exact .inr ⟨fun h => h.some hlen, (by decide : EINVAL ≠ 0)⟩
  rw [if_neg (by omega)]
  obtain ⟨hfaults, hopen⟩ := open_creat s fileName (rfl : O_RDWR_CREAT.creat = true)
  generalize qseeSfsOpen s fileName O_RDWR_CREAT = opened at hfaults hopen ⊢
  obtain ⟨fd, t⟩ := opened
  by_cases hnone : s.faults.opens.headD false = true
  · rw [if_pos hnone] at hopen
    cases hopen
    exact .inr ⟨fun h => absurd hnone (Bool.eq_false_iff.mp h.opens), (by decide : ENOENT ≠ 0)⟩
  rw [if_neg hnone] at hopen
  cases hopen
  dsimp only at hfaults ⊢
  by_cases hseek : s.faults.seeks.headD false = true
  · simp only [qseeSfsSeek, hfaults, hseek, ↓reduceIte]
    exact .inr ⟨fun h => absurd hseek (Bool.eq_false_iff.mp h.seeks), (by decide : EIO ≠ 0)⟩
  simp only [qseeSfsSeek, hfaults, if_neg hseek]
  have hcount :=
    write_count (s := { t with faults := { t.faults with seeks := t.faults.seeks.tail } })
    ⟨fileName, offset.toNat⟩ (buffer.take length)
  rw [List.length_take, Nat.min_eq_left hb] at hcount
  simp only [hfaults] at hcount
  by_cases hstored : Stores (s.faults.writes.headD none) length
  · rw [if_neg (not_not.mpr (hcount.mpr hstored))]
    exact .inl ⟨⟨hlen, Bool.eq_false_iff.mpr hnone, Bool.eq_false_iff.mpr hseek, hstored⟩, rfl, rfl⟩
  · rw [if_pos (mt hcount.mp hstored)]
    exact .inr ⟨fun h => hstored h.writes, (by decide : EIO ≠ 0)⟩

/-- What the calls of `createFile` use up. -/
def Faults.created (f : Faults) : Faults :=
  { f with opens := f.opens.tail, writes := f.writes.tail }

/-- `createFile` stores nothing when the directory is missing or the open fails. Else the
file is there, however many bytes the write then stores. -/
theorem createFile_cases {s : Sfs} (hl : s.faults.lists = []) (filePath : Bytes) {buffer : Bytes}
    {length : Nat} (hlen : length ≠ 0) (hb : length ≤ buffer.length)
    (hd : (isPathExist s (dirSplit filePath filePath.length)).1 = 0) :
    (s.faults.opens.headD false = true ∧ (createFile s filePath buffer length).1 ≠ 0 ∧
      (createFile s filePath buffer length).2.files = s.files) ∨
    (s.faults.opens.headD false = false ∧
      ((createFile s filePath buffer length).2.files.lookup filePath).isSome ∧
      ((Stores (s.faults.writes.headD none) length ∧ (createFile s filePath buffer length).1 = 0 ∧
          (createFile s filePath buffer length).2.faults = s.faults.created) ∨
        (¬Stores (s.faults.writes.headD none) length ∧
          (createFile s filePath buffer length).1 ≠ 0))) := by
  obtain ⟨ret, he⟩ := isPathExist_state hl (dirSplit filePath filePath.length)
  rw [he] at hd
  cases hd
  unfold createFile path2file
  simp only [he, ne_eq]
  by_cases hnone : s.faults.opens.headD false = true
  · simp only [qseeSfsOpen, hnone, ↓reduceIte]
    exact .inl ⟨trivial, (by decide : ENOENT ≠ 0), rfl⟩
  obtain ⟨hfaults, hopen⟩ := open_creat s filePath (rfl : O_RDWR_CREAT_TRUNC.creat = true)
  generalize qseeSfsOpen s filePath O_RDWR_CREAT_TRUNC = opened at hfaults hopen ⊢
  obtain ⟨fd, t⟩ := opened
  rw [if_neg hnone] at hopen
  cases hopen
  dsimp only at hfaults ⊢
  rw [if_neg hlen]
  have hcount := write_count (s := t) ⟨filePath, 0⟩ (buffer.take length)
  rw [List.length_take, Nat.min_eq_left hb] at hcount
  simp only [hfaults] at hcount
  refine .inr ⟨Bool.eq_false_iff.mpr hnone, ?_, ?_⟩
  · simp [qseeSfsWrite]
  · by_cases hstored : Stores (s.faults.writes.headD none) length
    · rw [if_neg (not_not.mpr (hcount.mpr hstored))]
      refine .inl ⟨hstored, rfl, ?_⟩
      change { t.faults with writes := t.faults.writes.tail } = s.faults.created
      rw [hfaults]
      rfl
    · rw [if_pos (mt hcount.mp hstored)]
      exact .inr ⟨hstored, (by decide : EIO ≠ 0)⟩

end

/-! ## The record -/

/-- The path of the id is not taken. -/
def Free (s : Sfs) (id : Int32) : Bool := (isPathExist s (configfullpath id)).1 ≠ 0

/-- The directory of the id's path is there. -/
def HasDir (s : Sfs) (id : Int32) : Prop :=
  (isPathExist s (dirSplit (configfullpath id) (configfullpath id).length)).1 = 0

/-- No call of the three writes fails, and there is a PIN to write. -/
structure Completes (f : Faults) (pin : CStr) : Prop where
  opens : f.opens.headD false = false
  secret : Stores (f.writes.headD none) (WG_KEY_LEN_HEX - 1)
  pub : f.created.Writes (WG_KEY_LEN_HEX - 1)
  pin : f.created.written.Writes pin.strlen

section
variable (ladder : Key → Key → Key) {s : Sfs} {id : Int32} (pin : CStr) (env : GenerateEnv)

theorem drawId_eq (hl : s.faults.lists = []) (ids : List Int32) :
    drawId s ids = (ids.find? (Free s)).map (·, s) := by
  induction ids with
  | nil => rfl
  | cons id ids ih =>
    obtain ⟨ret, he⟩ := isPathExist_state hl (configfullpath id)
    rw [drawId, isFileOrDirExist, List.find?_cons, Free, he]
    dsimp only
    by_cases hz : ret = 0
    · simpa [hz] using ih
    · simp [hz]

/-- The record is written whole, or the call fails. -/
theorem writeRecord_zero_iff (hl : s.faults.lists = []) (hd : HasDir s id) :
    (writeRecord ladder s pin id env).1.ret = 0 ↔ Completes s.faults pin := by
  let pub := ladder (normalizeSecret env.secret) basepoint
  have failed : (-1 : Int) ≠ 0 := by decide
  rw [writeRecord_eq]
  dsimp only
  obtain ⟨hopen, hz, -⟩ | ⟨hopen, -, ⟨hstored, hz, hf₁⟩ | ⟨hstored, hz⟩⟩ := createFile_cases hl
    (configfullpath id) (by decide) (keyToHex_fits env.secret) hd
  · rw [writeSecret, if_pos hz]
    exact ⟨fun h => absurd h failed, fun h => absurd hopen (Bool.eq_false_iff.mp h.opens)⟩
  · change (writeSecret s id env).1 = 0 at hz
    rw [if_neg (not_not.mpr hz)]
    have hcases₂ := writeFile_cases (writeSecret s id env).2 (configfullpath id)
      (Int.natCast_nonneg (WG_KEY_LEN_HEX - 1)) (keyToHex_fits pub)
    rw [show (writeSecret s id env).2.faults = s.faults.created from hf₁] at hcases₂
    obtain ⟨hw₂, hz₂, hf₂⟩ | ⟨hw₂, hz₂⟩ := hcases₂
    · change (writePublic (writeSecret s id env).2 id pub).1 = 0 at hz₂
      rw [if_neg (not_not.mpr hz₂)]
      have hcases₃ :=
        writeFile_cases (writePublic (writeSecret s id env).2 id pub).2 (configfullpath id)
        (Int.natCast_nonneg (2 * (WG_KEY_LEN_HEX - 1))) (Nat.le_refl pin.text.length)
      rw [show (writePublic (writeSecret s id env).2 id pub).2.faults =
        s.faults.created.written from hf₂]
        at hcases₃
      obtain ⟨hw₃, hz₃, -⟩ | ⟨hw₃, hz₃⟩ := hcases₃
      · change (writePin (writePublic (writeSecret s id env).2 id pub).2 id pin).1 = 0 at hz₃
        rw [if_neg (not_not.mpr hz₃)]
        exact ⟨fun _ => ⟨hopen, hstored, hw₂, hw₃⟩, fun _ => rfl⟩
      · change (writePin (writePublic (writeSecret s id env).2 id pub).2 id pin).1 ≠ 0 at hz₃
        rw [if_pos hz₃]
        exact ⟨fun h => absurd h failed, fun h => absurd h.pin hw₃⟩
    · change (writePublic (writeSecret s id env).2 id pub).1 ≠ 0 at hz₂
      rw [if_pos hz₂]
      exact ⟨fun h => absurd h failed, fun h => absurd h.pub hw₂⟩
  · change (writeSecret s id env).1 ≠ 0 at hz
    rw [if_pos hz]
    exact ⟨fun h => absurd h failed, fun h => absurd h.secret hstored⟩

/-- Once the file is created it stays, whatever the writes do. -/
theorem writeRecord_leaves (hl : s.faults.lists = []) (hd : HasDir s id)
    (hopen : s.faults.opens.headD false = false) :
    ((writeRecord ladder s pin id env).2.files.lookup (configfullpath id)).isSome := by
  have hc := createFile_cases hl (configfullpath id) (by decide) (keyToHex_fits env.secret) hd
  rw [hopen] at hc
  obtain ⟨h, -, -⟩ | ⟨-, hthere, -⟩ := hc
  · cases h
  · have h₂ (t : Sfs) (pub : Key) := (writeFile_touches t (configfullpath id) ↑(WG_KEY_LEN_HEX - 1)
      (keyToHex pub) (WG_KEY_LEN_HEX - 1)).kept
    have h₃ (t : Sfs) := (writeFile_touches t (configfullpath id) ↑(2 * (WG_KEY_LEN_HEX - 1))
      pin.text pin.strlen).kept
    rw [writeRecord_eq]
    dsimp only
    split
    · exact hthere
    · split
      · exact h₂ _ _ hthere
      · split <;> exact h₃ _ (h₂ _ _ hthere)

/-- Without a descriptor nothing is created. -/
theorem writeRecord_unopened (hl : s.faults.lists = []) (hd : HasDir s id)
    (hopen : s.faults.opens.headD false = true) :
    (writeRecord ladder s pin id env).2.files = s.files := by
  have hc := createFile_cases hl (configfullpath id) (by decide) (keyToHex_fits env.secret) hd
  rw [hopen] at hc
  obtain ⟨-, hz, hfiles⟩ | ⟨h, -⟩ := hc
  · rw [writeRecord_eq]
    dsimp only
    rw [writeSecret, if_pos hz]
    exact hfiles
  · cases h

/-- A failed `GenerateKeyPair` leaves the store as it was exactly when it does not get to
create the file. -/
theorem failed_generation_traceless_iff (hl : s.faults.lists = []) :
    (∀ rsp t, generateKeyPair ladder s pin env = some (rsp, t) → rsp.ret ≠ 0 →
      ∀ name, t.files.lookup name = s.files.lookup name) ↔
    ∀ id, env.ids.find? (Free s) = some id → HasDir s id →
      s.faults.opens.headD false = true ∨ Completes s.faults pin := by
  unfold generateKeyPair
  rw [drawId_eq hl]
  cases hfind : env.ids.find? (Free s) with
  | none => simp
  | some id =>
    have free : s.files.lookup (configfullpath id) = none :=
      (drawId_spec hl (by rw [drawId_eq hl, hfind]; rfl)).2.2
    simp only [Option.map_some, Option.some.injEq, forall_eq']
    constructor
    · intro traceless hd
      by_contra hno
      rw [not_or, Bool.not_eq_true] at hno
      have hthere := writeRecord_leaves ladder pin env hl hd hno.1
      have same :=
        traceless (writeRecord ladder s pin id env).1 (writeRecord ladder s pin id env).2 rfl
        (mt (writeRecord_zero_iff ladder pin env hl hd).mp hno.2) (configfullpath id)
      rw [same, free] at hthere
      cases hthere
    · intro h rsp t ht hz name
      by_cases hd : HasDir s id
      · rcases h hd with hopen | hdone
        · have hfiles := writeRecord_unopened ladder pin env hl hd hopen
          rw [ht] at hfiles
          rw [hfiles]
        · have hok := (writeRecord_zero_iff ladder pin env hl hd).mpr hdone
          rw [ht] at hok
          exact absurd hok hz
      · rw [writeRecord_nodir ladder hl pin env hd] at ht
        cases ht
        rfl

end

/-- One draw, of the id 5. -/
def drawsFive : GenerateEnv := ⟨[5], nullPoint, nullPoint⟩

/-- The first file cannot be opened. -/
def unopenable : Sfs := { provisioned with faults := { opens := [true] } }

theorem failed_generation_traceless_unopenable :
    ∃ rsp t, generateKeyPair (fun _ point => point) unopenable ⟨[49], by decide⟩ drawsFive =
      some (rsp, t) ∧ rsp.ret ≠ 0 ∧ ∀ name, t.files.lookup name = unopenable.files.lookup name := by
  refine ⟨_, _, rfl, by decide +kernel, ?_⟩
  exact (failed_generation_traceless_iff (fun _ point => point) ⟨[49], by decide⟩ drawsFive
    (s := unopenable) rfl).mpr (fun _ _ _ => .inl rfl) _ _ rfl (by decide +kernel)

/-- With an empty PIN the last write is refused, and the two keys stay. -/
theorem emptyPin_leaves_keys :
    ∃ rsp t, generateKeyPair (fun _ point => point) provisioned ⟨[], by decide⟩ drawsFive =
      some (rsp, t) ∧ rsp.ret ≠ 0 ∧ provisioned.files.lookup (configfullpath 5) = none ∧
      (t.files.lookup (configfullpath 5)).isSome :=
  ⟨_, _, rfl, by decide +kernel, by decide +kernel, by decide +kernel⟩

end Sewg.TrustApp
