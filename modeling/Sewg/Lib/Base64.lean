import Mathlib.Data.List.GetD
import Mathlib.Tactic.SplitIfs
import Sewg.Lib.Fields

/-! Base64 over any characters: six bits a character, regrouped to bytes. A text of a fixed number
of bytes ends in one padding character, and the bits that are too many are zero. -/

namespace Base64

/-! ### Six bits and eight bits -/

/-- The sextet `i` of a sequence of bytes. -/
def sextet (b : Nat → Nat) (i : Nat) : Nat :=
  let j := i / 4 * 3
  match i % 4 with
  | 0 => b j / 4
  | 1 => b j % 4 * 16 + b (j + 1) / 16
  | 2 => b (j + 1) % 16 * 4 + b (j + 2) / 64
  | _ => b (j + 2) % 64

/-- The byte `j` of a sequence of sextets. -/
def octet (d : Nat → Nat) (j : Nat) : Nat :=
  let i := j / 3 * 4
  match j % 3 with
  | 0 => d i * 4 + d (i + 1) / 16
  | 1 => d (i + 1) % 16 * 16 + d (i + 2) / 4
  | _ => d (i + 2) % 4 * 64 + d (i + 3)

section
variable {b d : Nat → Nat} {i j m : Nat}

theorem sextet_lt (hb : ∀ j, b j < 256) (i : Nat) : sextet b i < 64 := by
  have h₀ := hb (i / 4 * 3)
  have h₁ := hb (i / 4 * 3 + 1)
  have h₂ := hb (i / 4 * 3 + 2)
  unfold sextet
  dsimp only
  split <;> omega

theorem octet_lt (hd : ∀ i, d i < 64) (j : Nat) : octet d j < 256 := by
  have h₀ := hd (j / 3 * 4)
  have h₁ := hd (j / 3 * 4 + 1)
  have h₂ := hd (j / 3 * 4 + 2)
  have h₃ := hd (j / 3 * 4 + 3)
  unfold octet
  dsimp only
  split <;> omega

theorem sextet_four (b : Nat → Nat) (k : Nat) :
    sextet b (4 * k) = b (3 * k) / 4 ∧
    sextet b (4 * k + 1) = b (3 * k) % 4 * 16 + b (3 * k + 1) / 16 ∧
    sextet b (4 * k + 2) = b (3 * k + 1) % 16 * 4 + b (3 * k + 2) / 64 ∧
    sextet b (4 * k + 3) = b (3 * k + 2) % 64 := by
  refine ⟨?_, ?_, ?_, ?_⟩ <;> unfold sextet <;>
    simp [Nat.mul_add_div, Nat.mul_comm k 3]

theorem octet_three (d : Nat → Nat) (k : Nat) :
    octet d (3 * k) = d (4 * k) * 4 + d (4 * k + 1) / 16 ∧
    octet d (3 * k + 1) = d (4 * k + 1) % 16 * 16 + d (4 * k + 2) / 4 ∧
    octet d (3 * k + 2) = d (4 * k + 2) % 4 * 64 + d (4 * k + 3) := by
  refine ⟨?_, ?_, ?_⟩ <;> unfold octet <;>
    simp [Nat.mul_add_div, Nat.mul_comm k 4]

/-- Bytes are found again in their sextets. -/
theorem octet_sextet (hb : ∀ j, b j < 256) (j : Nat) : octet (sextet b) j = b j := by
  obtain ⟨h₀, h₁, h₂, h₃⟩ := sextet_four b (j / 3)
  obtain ⟨g₀, g₁, g₂⟩ := octet_three (sextet b) (j / 3)
  have := hb (3 * (j / 3))
  have := hb (3 * (j / 3) + 1)
  have := hb (3 * (j / 3) + 2)
  have hj : j = 3 * (j / 3) ∨ j = 3 * (j / 3) + 1 ∨ j = 3 * (j / 3) + 2 := by omega
  rcases hj with hj | hj | hj <;> rw [hj]
  · rw [g₀, h₀, h₁]
    omega
  · rw [g₁, h₁, h₂]
    omega
  · rw [g₂, h₂, h₃]
    omega

/-- Sextets are found again in their bytes. -/
theorem sextet_octet (hd : ∀ i, d i < 64) (i : Nat) : sextet (octet d) i = d i := by
  obtain ⟨h₀, h₁, h₂, h₃⟩ := sextet_four (octet d) (i / 4)
  obtain ⟨g₀, g₁, g₂⟩ := octet_three d (i / 4)
  have := hd (4 * (i / 4))
  have := hd (4 * (i / 4) + 1)
  have := hd (4 * (i / 4) + 2)
  have := hd (4 * (i / 4) + 3)
  have hi : i = 4 * (i / 4) ∨ i = 4 * (i / 4) + 1 ∨ i = 4 * (i / 4) + 2 ∨
      i = 4 * (i / 4) + 3 := by omega
  rcases hi with hi | hi | hi | hi <;> rw [hi]
  · rw [h₀, g₀]
    omega
  · rw [h₁, g₀, g₁]
    omega
  · rw [h₂, g₁, g₂]
    omega
  · rw [h₃, g₂]
    omega

theorem sextet_eq_zero (hb : ∀ j ≥ 3 * m + 2, b j = 0) (hi : 4 * m + 3 ≤ i) : sextet b i = 0 := by
  obtain ⟨h₀, h₁, h₂, h₃⟩ := sextet_four b (i / 4)
  have hcases : i = 4 * (i / 4) ∨ i = 4 * (i / 4) + 1 ∨ i = 4 * (i / 4) + 2 ∨
      i = 4 * (i / 4) + 3 := by omega
  rcases hcases with hi' | hi' | hi' | hi' <;> rw [hi']
  · rw [h₀, hb _ (by omega)]
  · rw [h₁, hb _ (by omega), hb _ (by omega)]
  · rw [h₂, hb _ (by omega), hb _ (by omega)]
  · rw [h₃, hb _ (by omega)]

theorem octet_eq_zero (hd : ∀ i ≥ 4 * m + 3, d i = 0) (hlast : octet d (3 * m + 2) = 0)
    (hj : 3 * m + 2 ≤ j) : octet d j = 0 := by
  by_cases hj' : j = 3 * m + 2
  · rw [hj', hlast]
  obtain ⟨g₀, g₁, g₂⟩ := octet_three d (j / 3)
  have hcases : j = 3 * (j / 3) ∨ j = 3 * (j / 3) + 1 ∨ j = 3 * (j / 3) + 2 := by omega
  rcases hcases with heq | heq | heq <;> rw [heq]
  · rw [g₀, hd _ (by omega), hd _ (by omega)]
  · rw [g₁, hd _ (by omega), hd _ (by omega)]
  · rw [g₂, hd _ (by omega), hd _ (by omega)]

end

/-! ### The alphabet -/

/-- The character of a value, by its number in ASCII. -/
def symbol (v : Nat) : Nat :=
  if v < 26 then v + 65 else if v < 52 then v + 71 else if v < 62 then v - 4 else if v = 62
    then 43 else 47

/-- The value of a character. -/
def value? (c : Nat) : Option Nat :=
  if 65 ≤ c ∧ c ≤ 90 then some (c - 65)
  else if 97 ≤ c ∧ c ≤ 122 then some (c - 71)
  else if 48 ≤ c ∧ c ≤ 57 then some (c + 4)
  else if c = 43 then some 62
  else if c = 47 then some 63
  else none

theorem value?_eq_some_iff {c v : Nat} : value? c = some v ↔ v < 64 ∧ symbol v = c := by
  unfold value? symbol
  split
  · rw [Option.some.injEq]
    split_ifs <;> omega
  split
  · rw [Option.some.injEq]
    split_ifs <;> omega
  split
  · rw [Option.some.injEq]
    split_ifs <;> omega
  split
  · rw [Option.some.injEq]
    split_ifs <;> omega
  split
  · rw [Option.some.injEq]
    split_ifs <;> omega
  · refine iff_of_false nofun ?_
    split_ifs <;> omega

theorem symbol_lt (v : Nat) (h : v < 64) : symbol v < 128 := by
  unfold symbol
  split_ifs <;> omega

/-! ### Groups -/

section
variable {α : Type} (f : Nat → α)

theorem map_range_four (n : Nat) : (List.range (4 * n)).map f =
    (List.range n).flatMap fun i => [f (4 * i), f (4 * i + 1), f (4 * i + 2), f (4 * i + 3)] := by
  induction n with
  | zero => rfl
  | succ n ih =>
    rw [Nat.mul_succ, List.range_succ (n := 4 * n + 3), List.range_succ (n := 4 * n + 2),
      List.range_succ (n := 4 * n + 1), List.range_succ (n := 4 * n), List.range_succ (n := n)]
    simp [ih]

theorem map_range_three (n : Nat) : (List.range (3 * n)).map f =
    (List.range n).flatMap fun i => [f (3 * i), f (3 * i + 1), f (3 * i + 2)] := by
  induction n with
  | zero => rfl
  | succ n ih =>
    rw [Nat.mul_succ, List.range_succ (n := 3 * n + 2), List.range_succ (n := 3 * n + 1),
      List.range_succ (n := 3 * n), List.range_succ (n := n)]
    simp [ih]

/-- Characters in groups of four, and three more. -/
theorem map_range_chars (m : Nat) : (List.range (4 * m + 3)).map f =
    (List.range m).flatMap (fun i => [f (4 * i), f (4 * i + 1), f (4 * i + 2), f (4 * i + 3)]) ++
      [f (4 * m), f (4 * m + 1), f (4 * m + 2)] := by
  rw [List.range_succ, List.range_succ, List.range_succ, ← map_range_four]
  simp

/-- Bytes in groups of three, and two more. -/
theorem map_range_bytes (m : Nat) : (List.range (3 * m + 2)).map f =
    (List.range m).flatMap (fun i => [f (3 * i), f (3 * i + 1), f (3 * i + 2)]) ++
      [f (3 * m), f (3 * m + 1)] := by
  rw [List.range_succ, List.range_succ, ← map_range_three]
  simp

end

/-! ### Texts of `3 * m + 2` bytes -/

section
variable {α : Type}

/-- The bytes of a text, by the values of its characters. -/
def decode [DecidableEq α] (val : α → Option Nat) (pad : α) (m : Nat) (s : List α) :
    Option (List UInt8) :=
  if s.length ≠ 4 * m + 4 ∨ s[4 * m + 3]? ≠ some pad then none
  else ((s.take (4 * m + 3)).mapM val).bind fun ds =>
    if octet (ds.getD · 0) (3 * m + 2) ≠ 0 then none
    else some ((List.range (3 * m + 2)).map fun j => UInt8.ofNat (octet (ds.getD · 0) j))

/-- The text of some bytes, by the characters of values. -/
def encode (sym : Nat → α) (pad : α) (m : Nat) (key : List UInt8) : List α :=
  (List.range (4 * m + 3)).map (fun i => sym (sextet (fun j => (key.getD j 0).toNat) i)) ++ [pad]

variable {val val' : α → Option Nat} {sym : Nat → α} {pad : α} {m : Nat} {s : List α}
  {key : List UInt8} {ds : List Nat}

theorem mapM_val_eq_some (h : s.mapM val = some ds) :
    ds.length = s.length ∧ ∀ i c, s[i]? = some c → val c = some (ds.getD i 0) := by
  induction s generalizing ds with
  | nil =>
    obtain rfl := Option.some.inj h
    exact ⟨rfl, nofun⟩
  | cons c s ih =>
    rw [List.mapM_cons, Option.bind_eq_bind, Option.bind_eq_some_iff] at h
    obtain ⟨d, hd, h⟩ := h
    rw [Option.bind_eq_bind, Option.bind_eq_some_iff] at h
    obtain ⟨ds', hds', h⟩ := h
    obtain rfl := Option.some.inj h
    obtain ⟨hlen, hval⟩ := ih hds'
    refine ⟨by simp [hlen], fun i c' hc' => ?_⟩
    cases i with
    | zero =>
      obtain rfl : c = c' := by simpa using hc'
      simpa using hd
    | succ i => simpa using hval i c' (by simpa using hc')

theorem mapM_val_map_sym (hval : ∀ v < 64, val (sym v) = some v) (hds : ∀ d ∈ ds, d < 64) :
    (ds.map sym).mapM val = some ds := by
  induction ds with
  | nil => rfl
  | cons d ds ih =>
    obtain ⟨hd, hds⟩ := List.forall_mem_cons.mp hds
    rw [List.map_cons, List.mapM_cons, hval d hd, ih hds]
    rfl

theorem getD_lt (hval : ∀ c v, val c = some v → v < 64) (h : s.mapM val = some ds) (i : Nat) :
    ds.getD i 0 < 64 := by
  obtain ⟨hlen, hds⟩ := mapM_val_eq_some h
  by_cases hi : i < s.length
  · exact hval s[i] _ (hds i s[i] (List.getElem?_eq_getElem hi))
  · rw [List.getD_eq_default _ _ (by omega)]
    exact Nat.succ_pos 63

/-- The bytes as a sequence, with zeros after them. -/
theorem getD_octets (hds : ∀ i, ds.getD i 0 < 64) (hlen : ds.length = 4 * m + 3)
    (hlast : octet (ds.getD · 0) (3 * m + 2) = 0) (j : Nat) :
    (((List.range (3 * m + 2)).map fun j => UInt8.ofNat (octet (ds.getD · 0) j)).getD j 0).toNat =
      octet (ds.getD · 0) j := by
  by_cases hj : j < 3 * m + 2
  · rw [List.getD_eq_getElem _ _ (by simpa using hj)]
    simp only [List.getElem_map, List.getElem_range, UInt8.toNat_ofNat']
    exact Nat.mod_eq_of_lt (octet_lt hds j)
  · have hzero : octet (ds.getD · 0) j = 0 :=
      octet_eq_zero (fun i hi => List.getD_eq_default _ _ (by omega)) hlast (by omega)
    rw [List.getD_eq_default _ _ (by simpa using hj), hzero]
    rfl

theorem length_encode : (encode sym pad m key).length = 4 * m + 4 := by
  simp [encode]

section
variable [DecidableEq α]

theorem encode_of_decode (hval : ∀ c v, val c = some v → v < 64 ∧ sym v = c)
    (h : decode val pad m s = some key) : key.length = 3 * m + 2 ∧ s = encode sym pad m key := by
  unfold decode at h
  split at h
  · cases h
  rename_i hshape
  rw [not_or, not_not, not_not] at hshape
  obtain ⟨hlength, hpad⟩ := hshape
  obtain ⟨ds, hds, h⟩ := Option.bind_eq_some_iff.mp h
  split at h
  · cases h
  rename_i hlast
  rw [not_not] at hlast
  obtain rfl := Option.some.inj h
  obtain ⟨hlen, hvals⟩ := mapM_val_eq_some hds
  have hlt := getD_lt (fun c v h => (hval c v h).1) hds
  rw [List.length_take, hlength, Nat.min_eq_left (by omega)] at hlen
  refine ⟨by simp, ?_⟩
  have hbytes := funext (getD_octets hlt hlen hlast)
  rw [encode, hbytes]
  simp only [sextet_octet hlt]
  refine List.ext_getElem? fun i => ?_
  by_cases hi : i < 4 * m + 3
  · have hc := hvals i s[i] (by rw [List.getElem?_take_of_lt hi, List.getElem?_eq_getElem])
    rw [List.getElem?_append_left (by simpa using hi), List.getElem?_map, List.getElem?_range hi,
      Option.map_some, (hval _ _ hc).2, List.getElem?_eq_getElem]
  · by_cases hi' : i = 4 * m + 3
    · rw [hi', hpad, List.getElem?_append_right (by simp)]
      simp
    · rw [List.getElem?_eq_none (by omega), List.getElem?_eq_none]
      simp
      omega

theorem decode_encode (hval : ∀ v < 64, val (sym v) = some v) (hkey : key.length = 3 * m + 2) :
    decode val pad m (encode sym pad m key) = some key := by
  have hlt : ∀ j, (key.getD j 0).toNat < 256 := fun j => (key.getD j 0).toNat_lt
  have hzero : ∀ j ≥ 3 * m + 2, (key.getD j 0).toNat = 0 := fun j hj => by
    rw [List.getD_eq_default _ _ (by omega)]
    rfl
  have hmap : ((encode sym pad m key).take (4 * m + 3)).mapM val =
      some ((List.range (4 * m + 3)).map (sextet fun j => (key.getD j 0).toNat)) := by
    rw [encode, List.take_left' (by simp)]
    change ((List.range (4 * m + 3)).map (sym ∘ sextet fun j => (key.getD j 0).toNat)).mapM val = _
    rw [← List.map_map]
    refine mapM_val_map_sym hval fun d hd => ?_
    obtain ⟨i, -, rfl⟩ := List.mem_map.mp hd
    exact sextet_lt hlt i
  have hdigits (i : Nat) :
      ((List.range (4 * m + 3)).map (sextet fun j => (key.getD j 0).toNat)).getD i 0 =
      sextet (fun j => (key.getD j 0).toNat) i := by
    by_cases hi : i < 4 * m + 3
    · rw [List.getD_eq_getElem _ _ (by simpa using hi)]
      simp
    · rw [List.getD_eq_default _ _ (by simpa using hi), sextet_eq_zero hzero (by omega)]
  have hpad : (encode sym pad m key)[4 * m + 3]? = some pad := by
    rw [encode, List.getElem?_append_right (by simp)]
    simp
  rw [decode, if_neg (by rw [length_encode, hpad]; simp), hmap, Option.bind_some]
  simp only [hdigits, octet_sextet hlt]
  rw [if_neg (by rw [hzero _ (Nat.le_refl _)]; simp)]
  refine congrArg some (List.ext_getElem (by simp [hkey]) fun j _ hj => ?_)
  simp only [List.getElem_map, List.getElem_range, UInt8.ofNat_toNat]
  exact List.getD_eq_getElem _ _ hj

theorem decode_eq_some_iff (hval : ∀ c v, val c = some v ↔ v < 64 ∧ sym v = c) :
    decode val pad m s = some key ↔ key.length = 3 * m + 2 ∧ s = encode sym pad m key := by
  constructor
  · exact encode_of_decode fun c v => (hval c v).mp
  · rintro ⟨hkey, rfl⟩
    exact decode_encode (fun v hv => (hval _ v).mpr ⟨hv, rfl⟩) hkey

/-- A text is decoded when each character before the padding has a value and the unused bits of the
last are zero. -/
theorem decode_isSome_iff : (decode val pad m s).isSome ↔
    s.length = 4 * m + 4 ∧ s[4 * m + 3]? = some pad ∧ (∀ c ∈ s.take (4 * m + 3), (val c).isSome) ∧
      (s[4 * m + 2]?.bind val).getD 0 % 4 = 0 := by
  by_cases hshape : s.length ≠ 4 * m + 4 ∨ s[4 * m + 3]? ≠ some pad
  · rw [decode, if_pos hshape]
    simp only [Option.isSome_none, Bool.false_eq_true, false_iff]
    rintro ⟨hlen, hpad, -⟩
    exact hshape.elim (fun h => h hlen) fun h => h hpad
  · obtain ⟨hlen, hpad⟩ := not_or.mp hshape
    rw [decode, if_neg hshape]
    simp only [not_not.mp hlen, not_not.mp hpad, true_and]
    cases hds : (s.take (4 * m + 3)).mapM val with
    | none =>
      simp only [Option.bind_none, Option.isSome_none, Bool.false_eq_true, false_iff]
      intro h
      have hsome := (Fields.mapM_eq_some_iff val).mpr ⟨h.1, rfl⟩
      rw [hds] at hsome
      cases hsome
    | some ds =>
      obtain ⟨hlength, hvalues⟩ := mapM_val_eq_some hds
      rw [List.length_take] at hlength
      have hlast : ds.getD (4 * m + 3) 0 = 0 := List.getD_eq_default _ _ (by omega)
      have hunused : s[4 * m + 2]?.bind val = some (ds.getD (4 * m + 2) 0) := by
        have hget := List.getElem?_eq_getElem (by omega : 4 * m + 2 < s.length)
        rw [hget, Option.bind_some]
        exact hvalues _ _ (by rw [List.getElem?_take_of_lt (by omega), hget])
      have hall := ((Fields.mapM_eq_some_iff val).mp hds).1
      rw [Option.bind_some, hunused, (octet_three _ m).2.2, hlast]
      rw [iff_true_intro hall, true_and]
      simp only [Nat.add_zero, Option.getD_some, ne_eq, Nat.mul_eq_zero, ite_not]
      split <;> simp_all

/-- Only the values of the characters before the padding matter. -/
theorem decode_congr (h : ∀ c ∈ s.take (4 * m + 3), val c = val' c) :
    decode val pad m s = decode val' pad m s := by
  have hmap : (s.take (4 * m + 3)).mapM val = (s.take (4 * m + 3)).mapM val' := by
    generalize s.take (4 * m + 3) = cs at h
    induction cs with
    | nil => rfl
    | cons c cs ih =>
      obtain ⟨hc, hcs⟩ := List.forall_mem_cons.mp h
      rw [List.mapM_cons, List.mapM_cons, hc, ih hcs]
  rw [decode, decode, hmap]

end

end

end Base64
