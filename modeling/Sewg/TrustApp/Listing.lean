import Sewg.TrustApp.File

/-! Listing a directory: `getSubObject` copies the matching names into an array that its
callers allocate, and `getDirSubObjectList` is called once for the size of the list and once
for the list. -/

namespace Sewg.TrustApp
open CString

abbrev ENOMEM : Int := 12
abbrev MAX_FILE_NUM : Nat := 1024

/-- What `getSubObject` copies for an entry of the file list. `reg` is the directory with a
separator and the prefix behind it. -/
def subObject (dir : Bytes) (type : UInt8) (reg name : Bytes) : Option Bytes :=
  if ¬ reg.isPrefixOf name then none
  else if name.length = dir.length + 1 then none
  else if type = 1 then
    -- the first separator behind `reg` has to be the last character
    if ((name.drop reg.length).findIdx? (· = SPLIT)).map (reg.length + ·) = some (name.length - 1)
      then
      some (name.dropLast.drop (dir.length + 1))
    else none
  else if ((name.drop reg.length).findIdx? (· = SPLIT)).isNone
    then some (name.drop (dir.length + 1))
  else none

/-- Return value and `*sub_object_list_len`, and the copies with the indices they went to. -/
structure SubObjects where
  ret : Int
  len : Nat
  stores : List (Bytes × Nat) := []

def subObjectReg (dir : Bytes) (namePrefix : Option Bytes) : Bytes :=
  path2file dir ++ SPLIT :: namePrefix.getD []

/-- The loop of `getSubObject`. Nothing stops it at the end of the array. -/
def subObjectLoop (dir : Bytes) (type : UInt8) (reg : Bytes) : List Bytes → SubObjects → SubObjects
  | [], out => out
  | name :: names, out =>
    match subObject dir type reg name with
    | none => subObjectLoop dir type reg names out
    | some copied => subObjectLoop dir type reg names
        { out with len := out.len + 1, stores := out.stores ++ [(copied, out.len)] }

def getSubObject (s : Sfs) (dir : Bytes) (type : UInt8) (namePrefix : Option Bytes) (len : Nat) :
    SubObjects × Sfs :=
  if 1 < type then (⟨EINVAL, len, []⟩, s)
  else match qseeSfsGetFileList s with
  | (none, s) => (⟨ENOENT, len, []⟩, s)
  | (some names, s) => (subObjectLoop dir type (subObjectReg dir namePrefix) names ⟨0, 0, []⟩, s)

/-- Return value and `*length`, and what was written to `list`. -/
structure ListOut where
  ret : Int
  length : UInt32
  written : Bytes := []

/-- What a name needs in the list: its terminator, but not the prefix. -/
def listLen (prefixLength : Nat) (name : Bytes) : Int := (name.length : Int) + 1 - prefixLength

/-- The loop that adds up `*length` when `list` is null. -/
def listSize (prefixLength : Nat) (names : List Bytes) (length : UInt32) : UInt32 :=
  names.foldl (fun length name => length + UInt32.ofNat name.length + 1 -
    UInt32.ofNat prefixLength) length

/-- The loop that copies to `list`, with `actualLen` and `remainLen`. The names begin with the
prefix, so each copy starts where the one before it has ended. -/
def listNames (prefixLength : Nat) : List Bytes → Int → Int → Bytes → ListOut
  | [], actualLen, _, written => ⟨0, UInt32.ofInt actualLen, written⟩
  | name :: names, actualLen, remainLen, written =>
    let len := listLen prefixLength name
    if remainLen < len then ⟨ENOMEM, UInt32.ofInt actualLen, written⟩
    else listNames prefixLength names (actualLen + len) (remainLen - len)
      (written ++ (name.drop prefixLength ++ [0]))

/-- `list` is null when it is `false`. -/
def getDirSubObjectList (s : Sfs) (dir : Bytes) (type : UInt8) (namePrefix : Option Bytes)
    (list : Bool) (length : UInt32) : ListOut × Sfs :=
  let prefixLength := (namePrefix.getD []).length
  if 1 < type then (⟨EINVAL, length, []⟩, s)
  else match getSubObject s dir type namePrefix 0 with
  | (out, s) =>
    if out.ret ≠ 0 then (⟨out.ret, length, []⟩, s)
    else
      let names := out.stores.map (·.1)
      if ¬ list then
        -- the sizes are added to what the caller had in `*length`
        (⟨0, listSize prefixLength names length, []⟩, s)
      else (listNames prefixLength names 0 length.toInt32.toInt [], s)

/-- What matches, in the order of the file list. -/
def matching (s : Sfs) (dir : Bytes) (type : UInt8) (namePrefix : Option Bytes) : List Bytes :=
  s.files.keys.filterMap (subObject dir type (subObjectReg dir namePrefix))

/-! ## The array -/

theorem subObjectLoop_eq (dir : Bytes) (type : UInt8) (reg : Bytes) (names : List Bytes)
    (out : SubObjects) : subObjectLoop dir type reg names out =
      { out with
        len := out.len + (names.filterMap (subObject dir type reg)).length
        stores := out.stores ++ (names.filterMap (subObject dir type reg)).zipIdx out.len } := by
  induction names generalizing out with
  | nil => simp [subObjectLoop]
  | cons name names ih =>
    cases h : subObject dir type reg name with
    | none => simp [subObjectLoop, h, ih]
    | some copied => simp [subObjectLoop, h, ih, List.zipIdx_cons]; omega

theorem getSubObject_eq {s : Sfs} (hlists : s.faults.lists.headD false = false)
    {dir : Bytes} {type : UInt8} (htype : type ≤ 1) (namePrefix : Option Bytes) (len : Nat) :
    (getSubObject s dir type namePrefix len).1 =
      ⟨0, (matching s dir type namePrefix).length, (matching s dir type namePrefix).zipIdx⟩ := by
  simp only [getSubObject, if_neg (UInt8.not_lt.mpr htype), qseeSfsGetFileList, hlists,
    Bool.false_eq_true, ↓reduceIte, subObjectLoop_eq, Nat.zero_add, List.nil_append, matching]

/-- Nothing is stored behind the array, and the count that is reported is right. -/
def SubObjects.Within (out : SubObjects) : Prop :=
  (∀ e ∈ out.stores, e.2 < MAX_FILE_NUM) ∧ (out.ret = 0 → out.len = out.stores.length)

theorem getSubObject_within {s : Sfs} (hlists : s.faults.lists.headD false = false)
    {dir : Bytes} {type : UInt8} (htype : type ≤ 1) (namePrefix : Option Bytes) (len : Nat) :
    (getSubObject s dir type namePrefix len).1.Within ↔
      (matching s dir type namePrefix).length ≤ MAX_FILE_NUM := by
  have stored : (∀ e ∈ (matching s dir type namePrefix).zipIdx, e.2 < MAX_FILE_NUM) ↔
      ∀ i ∈ List.range' 0 (matching s dir type namePrefix).length, i < MAX_FILE_NUM := by
    rw [← List.zipIdx_map_snd, List.forall_mem_map]
  simp only [getSubObject_eq hlists htype, SubObjects.Within, stored, List.length_zipIdx,
    List.mem_range'_1, and_true, implies_true]
  constructor
  · intro h
    by_contra more
    exact absurd (h MAX_FILE_NUM ⟨Nat.zero_le _, by omega⟩) (Nat.lt_irrefl _)
  · intro h i hi
    omega

/-- The array is large enough exactly when at most `MAX_FILE_NUM` names match. -/
theorem getSubObject_within_iff (s : Sfs) (dir : Bytes) (type : UInt8) (namePrefix : Option Bytes)
    (len : Nat) : (getSubObject s dir type namePrefix len).1.Within ↔
      (type ≤ 1 → s.faults.lists.headD false = false →
        (matching s dir type namePrefix).length ≤ MAX_FILE_NUM) := by
  by_cases htype : type ≤ 1
  · cases hlists : s.faults.lists.headD false with
    | true =>
      simp only [getSubObject, if_neg (UInt8.not_lt.mpr htype), qseeSfsGetFileList,
        hlists, ↓reduceIte]
      simp [SubObjects.Within, ENOENT]
    | false => simp [getSubObject_within hlists htype, htype]
  · simp [getSubObject, UInt8.not_le.mp htype, SubObjects.Within, htype, EINVAL]

/-- The names of `crowded`: `d/` and two characters. -/
def crowdedName (i : Nat) : Bytes :=
  [100, SPLIT, UInt8.ofNat (65 + i / 64), UInt8.ofNat (65 + i % 64)]

theorem crowdedName_inj {i j : Nat} (hi : i < MAX_FILE_NUM + 1) (hj : j < MAX_FILE_NUM + 1)
    (h : crowdedName i = crowdedName j) : i = j := by
  simp only [crowdedName, List.cons.injEq, true_and, and_true, ← UInt8.toNat_inj,
    UInt8.toNat_ofNat', MAX_FILE_NUM] at h hi hj
  omega

/-- A directory `d` with one file more than the array has room for. -/
def crowded : Sfs where
  files := ⟨(List.range (MAX_FILE_NUM + 1)).map fun i => ⟨crowdedName i, []⟩, by
    rw [List.NodupKeys, List.keys, List.map_map]
    apply List.Nodup.map_on _ List.nodup_range
    intro i hi j hj h
    exact crowdedName_inj (List.mem_range.mp hi) (List.mem_range.mp hj) h⟩

theorem crowded_matching : (matching crowded [100] 0 none).length = MAX_FILE_NUM + 1 := by
  have keys : crowded.files.keys = (List.range (MAX_FILE_NUM + 1)).map crowdedName := by
    simp [crowded, AList.keys, List.keys, Function.comp_def]
  have hit : ∀ i ∈ List.range (MAX_FILE_NUM + 1),
      (subObject [100] 0 (subObjectReg [100] none) ∘ crowdedName) i =
          some ((crowdedName i).drop 2) := by
    intro i hi
    have file : UInt8.ofNat (65 + i / 64) ≠ SPLIT ∧ UInt8.ofNat (65 + i % 64) ≠ SPLIT := by
      simp only [ne_eq, ← UInt8.toNat_inj, UInt8.toNat_ofNat', SPLIT,
        UInt8.toNat_ofNat, MAX_FILE_NUM, List.mem_range] at hi ⊢
      omega
    simp [subObject, subObjectReg, path2file, crowdedName, List.findIdx?_cons, file,
      -UInt8.ofNat_add]
  rw [matching, keys, List.filterMap_map, List.filterMap_congr hit, List.filterMap_eq_map']
  simp

/-- The last of them is stored behind the array. -/
theorem getSubObject_overruns : ¬ (getSubObject crowded [100] 0 none 0).1.Within := by
  rw [getSubObject_within rfl (by decide), crowded_matching]
  decide

/-! ## The two calls -/

/-- The names without the prefix, each with its terminator. -/
def listText (prefixLength : Nat) (names : List Bytes) : Bytes :=
  names.flatMap fun name => name.drop prefixLength ++ [0]

@[simp] theorem listText_cons (prefixLength : Nat) (name : Bytes) (names : List Bytes) :
    listText prefixLength (name :: names) = name.drop prefixLength ++
      [0] ++ listText prefixLength names :=
  List.flatMap_cons

theorem listLen_eq {prefixLength : Nat} {name : Bytes} (h : prefixLength ≤ name.length) :
    listLen prefixLength name = ((name.drop prefixLength ++ [0]).length : Nat) := by
  simp only [listLen, List.length_append, List.length_drop, List.length_singleton]
  omega

theorem subObject_length {dir : Bytes} {type : UInt8} {namePrefix : Option Bytes}
    {name copied : Bytes}
    (h : subObject dir type (subObjectReg dir namePrefix) name = some copied) :
    (namePrefix.getD []).length ≤ copied.length ∧ copied.length < name.length := by
  unfold subObject subObjectReg path2file at h
  split at h
  · cases h
  · rename_i hp
    obtain ⟨rest, rfl⟩ := List.isPrefixOf_iff_prefix.mp (not_not.mp hp)
    split at h
    · cases h
    · split at h
      · split at h
        · rename_i last
          cases rest with
          | nil => simp at last
          | cons c rest =>
            cases h
            simp
            omega
        · cases h
      · split at h
        · cases h
          simp
          omega
        · cases h

theorem listSize_eq {prefixLength : Nat} {names : List Bytes}
    (h : ∀ name ∈ names, prefixLength ≤ name.length) (length : UInt32) :
    listSize prefixLength names length =
      length + UInt32.ofNat (listText prefixLength names).length := by
  unfold listSize
  induction names generalizing length with
  | nil => simp [listText]
  | cons name names ih =>
    obtain ⟨hname, hnames⟩ := List.forall_mem_cons.mp h
    have split : name.length = (name.drop prefixLength).length + prefixLength := by
      rw [List.length_drop]
      omega
    rw [List.foldl_cons, ih hnames, split]
    simp only [listText_cons, List.length_append, UInt32.ofNat_add, List.length_singleton]
    grind

/-- The loop copies everything when there is room, and else gives up. -/
theorem listNames_eq {prefixLength : Nat} {names : List Bytes}
    (h : ∀ name ∈ names, prefixLength ≤ name.length)
    (actualLen remainLen : Int) (hr : 0 ≤ remainLen) (written : Bytes) :
    if (listText prefixLength names).length ≤ remainLen then
      listNames prefixLength names actualLen remainLen written =
        ⟨0, UInt32.ofInt (actualLen + (listText prefixLength names).length),
          written ++ listText prefixLength names⟩
    else (listNames prefixLength names actualLen remainLen written).ret = ENOMEM := by
  induction names generalizing actualLen remainLen written with
  | nil => simp [listText, listNames, hr]
  | cons name names ih =>
    obtain ⟨hname, hnames⟩ := List.forall_mem_cons.mp h
    have len := listLen_eq hname
    have total : ((listText prefixLength (name :: names)).length : Int) =
        listLen prefixLength name + (listText prefixLength names).length := by
      rw [listText_cons, List.length_append, Int.natCast_add, len]
    by_cases room : remainLen < listLen prefixLength name
    · rw [if_neg (by omega), listNames, if_pos room]
    · have rest :=
        ih hnames (actualLen + listLen prefixLength name) (remainLen - listLen prefixLength name)
        (by omega) (written ++ (name.drop prefixLength ++ [0]))
      rw [listNames, if_neg room]
      split at rest
      · rw [if_pos (by omega), rest, total, listText_cons, List.append_assoc, Int.add_assoc]
      · rw [if_neg (by omega)]
        exact rest

theorem listText_length_le {k : Nat} (prefixLength : Nat) (names : List Bytes)
    (h : ∀ name ∈ names, name.length < k) :
    (listText prefixLength names).length ≤ names.length * k := by
  induction names with
  | nil => simp [listText]
  | cons name names ih =>
    obtain ⟨hname, hnames⟩ := List.forall_mem_cons.mp h
    have := ih hnames
    simp only [listText_cons, List.length_append, List.length_drop, List.length_cons,
      List.length_nil, Nat.succ_mul]
    omega

theorem toInt32_toInt {n : UInt32} (h : n.toNat < 2 ^ 31) : n.toInt32.toInt = n.toNat :=
  BitVec.toInt_eq_toNat_of_lt (by simpa using (by omega : 2 * n.toNat < 2 ^ 32))

section
variable {s : Sfs} {dir : Bytes} {type : UInt8} {namePrefix : Option Bytes}

/-- The list that is asked for. -/
def listing (s : Sfs) (dir : Bytes) (type : UInt8) (namePrefix : Option Bytes) : Bytes :=
  listText (namePrefix.getD []).length (matching s dir type namePrefix)

theorem matching_length (s : Sfs) (dir : Bytes) (type : UInt8) (namePrefix : Option Bytes) :
    ∀ name ∈ matching s dir type namePrefix, (namePrefix.getD []).length ≤ name.length := by
  intro copied hc
  obtain ⟨name, -, hn⟩ := List.mem_filterMap.mp hc
  exact (subObject_length hn).1

theorem getDirSubObjectList_eq (hlists : s.faults.lists = []) (htype : type ≤ 1) (list : Bool)
    (length : UInt32) : getDirSubObjectList s dir type namePrefix list length =
      (if list then listNames (namePrefix.getD []).length (matching s dir type
        namePrefix) 0 length.toInt32.toInt []
        else ⟨0, length + UInt32.ofNat (listing s dir type namePrefix).length, []⟩, s) := by
  have same : (qseeSfsGetFileList s).2 = s ∧ s.faults.lists.headD false = false := by
    obtain ⟨files, opens, seeks, reads, writes, lists⟩ := s
    cases hlists
    exact ⟨rfl, rfl⟩
  have sub : (getSubObject s dir type namePrefix 0).1 = _ :=
    getSubObject_eq same.2 htype namePrefix 0
  have rest : (getSubObject s dir type namePrefix 0).2 = s := by
    unfold getSubObject
    rw [if_neg (UInt8.not_lt.mpr htype)]
    split <;> simp_all
  unfold getDirSubObjectList
  dsimp only
  rw [if_neg (UInt8.not_lt.mpr htype), sub, rest]
  cases list <;> simp [listSize_eq (matching_length s dir type namePrefix), listing]

theorem second_call (hlists : s.faults.lists = []) (htype : type ≤ 1) {n : UInt32}
    (hn : n.toNat < 2 ^ 31) :
    let out := (getDirSubObjectList s dir type namePrefix true n).1
    if (listing s dir type namePrefix).length ≤ n.toNat then
      out.ret = 0 ∧ out.written = listing s dir type namePrefix
    else out.ret = ENOMEM := by
  have copied :=
    listNames_eq (matching_length s dir type namePrefix) 0 n.toNat (Int.natCast_nonneg _) []
  rw [← listing] at copied
  simp only [getDirSubObjectList_eq hlists htype, ↓reduceIte, toInt32_toInt hn]
  by_cases room : (listing s dir type namePrefix).length ≤ n.toNat
  · rw [if_pos (Int.ofNat_le.mpr room)] at copied
    simp [room, copied]
  · rw [if_neg fun h => room (Int.ofNat_le.mp h)] at copied
    rw [if_neg room, copied]

/-- The call without a buffer announces what the call with one delivers, and no less will do. -/
def TwoCalls (s : Sfs) (dir : Bytes) (type : UInt8) (namePrefix : Option Bytes)
    (length : UInt32) : Prop :=
  let first := getDirSubObjectList s dir type namePrefix false length
  let second := fun n => (getDirSubObjectList first.2 dir type namePrefix true n).1
  first.1.ret = 0 ∧ (second first.1.length).ret = 0 ∧
    (second first.1.length).written.length = first.1.length.toNat ∧
    (second first.1.length).written = listing s dir type namePrefix ∧
    ∀ n < first.1.length, (second n).ret = ENOMEM

/-- `SFS_MAX_FILENAME_SIZE` bounds the names, and the list is not too long for an `int`. -/
structure Bounded (s : Sfs) (maxName : Nat) : Prop where
  names : ∀ name ∈ s.files.keys, name.length ≤ maxName
  total : MAX_FILE_NUM * maxName < 2 ^ 31

theorem listing_lt {maxName : Nat} (hs : Bounded s maxName)
    (hfit : (matching s dir type namePrefix).length ≤ MAX_FILE_NUM) :
    (listing s dir type namePrefix).length < 2 ^ 31 := by
  have short : ∀ copied ∈ matching s dir type namePrefix, copied.length < maxName := by
    intro copied hc
    obtain ⟨name, hn, hsub⟩ := List.mem_filterMap.mp hc
    exact Nat.lt_of_lt_of_le (subObject_length hsub).2 (hs.names name hn)
  calc (listing s dir type namePrefix).length
      ≤ (matching s dir type namePrefix).length * maxName := listText_length_le _ _ short
    _ ≤ MAX_FILE_NUM * maxName := Nat.mul_le_mul_right _ hfit
    _ < 2 ^ 31 := hs.total

/-- They agree exactly when the caller has cleared `*length`, which the first call adds to. -/
theorem twoCalls_iff (hlists : s.faults.lists = []) (htype : type ≤ 1) {maxName : Nat}
    (hs : Bounded s maxName)
    (hfit : (matching s dir type namePrefix).length ≤ MAX_FILE_NUM) (length : UInt32) :
    TwoCalls s dir type namePrefix length ↔ length = 0 := by
  have bound := listing_lt hs hfit
  have back : (UInt32.ofNat (listing s dir type namePrefix).length).toNat =
      (listing s dir type namePrefix).length := by
    rw [UInt32.toNat_ofNat']
    omega
  have first : getDirSubObjectList s dir type namePrefix false length = _ :=
    getDirSubObjectList_eq hlists htype false length
  simp only [TwoCalls, first, Bool.false_eq_true, ↓reduceIte, true_and]
  constructor
  · rintro ⟨-, count, text, -⟩
    rw [text] at count
    have total : length + UInt32.ofNat (listing s dir type namePrefix).length =
        UInt32.ofNat (listing s dir type namePrefix).length := by
      rw [← UInt32.toNat_inj, ← count, back]
    simpa using total
  · rintro rfl
    rw [UInt32.zero_add]
    generalize UInt32.ofNat (listing s dir type namePrefix).length = L at back
    have whole := @second_call s dir type namePrefix hlists htype L (by omega)
    rw [if_pos (Nat.le_of_eq back.symm)] at whole
    refine ⟨whole.1, by rw [whole.2, back], whole.2, ?_⟩
    intro n hn
    have fewer : n.toNat < L.toNat := hn
    have less := @second_call s dir type namePrefix hlists htype n (by omega)
    rwa [if_neg (by omega)] at less

/-- A directory with the files `d/x` and `d/yz`. -/
def twoFiles : Sfs where
  files := (AList.singleton [100, 47, 121, 122] []).insert [100, 47, 120] []

/-- With 7 in `*length` the first call announces 12 bytes, and the second one writes 5. -/
theorem twoCalls_uncleared :
    ((getDirSubObjectList twoFiles [100] 0 none false 7).1.length = 12 ∧
      (getDirSubObjectList twoFiles [100] 0 none true 12).1.written = [120, 0, 121, 122, 0]) ∧
    ¬ TwoCalls twoFiles [100] 0 none 7 := by
  refine ⟨by decide +kernel, ?_⟩
  intro h
  exact absurd h.2.2.1 (by decide +kernel)

theorem twoCalls_cleared : TwoCalls twoFiles [100] 0 none 0 :=
  have bounded : Bounded twoFiles 256 := ⟨by decide, by decide⟩
  (twoCalls_iff rfl (by decide) bounded (by decide +kernel) 0).mpr rfl

end

end Sewg.TrustApp
