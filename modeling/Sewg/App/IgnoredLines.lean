import Sewg.App.ConfigSections

/-! Which lines of an accepted configuration have an effect. A line is recognised by its name in
any case, but its value is only found by a pattern with the name in its own case: a line that
the pattern does not match is taken for one without a value, and there is no error. -/

namespace Sewg.App

open Fields

section
variable (p : Platform)

/-! ### A reader that ignores nothing -/

/-- The value of a line `name = value`, whatever the name: what comes after the first equals sign,
if only blanks stand between the name and that. -/
def referenceValue (line : JString) : Option JString :=
  match (line.dropWhile fun c => !(p.isSpace c || c == 61)).dropWhile p.isSpace with
  | 61 :: rest =>
    match rest.dropWhile p.isSpace with
    | [] => none
    | value => some value
  | _ => none

/-- What a line says, if it has a name of this kind of section and a value for it. -/
def InterfaceEntry.reference (line : JString) : Option InterfaceEntry :=
  (referenceValue p line).bind fun value =>
    (attributeOf p line).bind fun a => InterfaceEntry.read p a (some value)

def PeerEntry.reference (line : JString) : Option PeerEntry :=
  (referenceValue p line).bind fun value =>
    (attributeOf p line).bind fun a => PeerEntry.read p a (some value)

/-- The configuration in which every line of a section has been put in, in order. A line without
a name or without a value is an error. -/
def Config.reference (text : JString) : Option Config :=
  (sections p text).bind (Sections.read
    (·.foldlM (fun iface line => (InterfaceEntry.reference p line).map iface.put) {})
    (·.foldlM (fun peer line => (PeerEntry.reference p line).map peer.put) {}))

/-! ### The lines that have an effect -/

/-- A later line with this attribute replaces what an earlier one has set. -/
def Attribute.single : Attribute → Bool
  | .address | .allowedIPs | .dns | .excludedApplications => false
  | _ => true

/-- The value is what the attribute has without a line: a list of nothing, or 0. -/
def Blank (a : Attribute) (value : JString) : Prop :=
  match a with
  | .address | .allowedIPs | .dns | .excludedApplications => Attribute.stringToList p value = []
  | .listenPort | .mtu | .persistentKeepalive => parseInt p.digit value = some 0
  | _ => False

/-- A line has a value that its section takes, and this value has its effect: the pattern finds
it, or it is the default, or a line after it in its section sets the attribute once more. -/
def Effective (takes : Attribute → Option JString → Bool) (line : JString)
    (after : List JString) : Prop :=
  ∃ a value, attributeOf p line = some a ∧ referenceValue p line = some value ∧
    takes a (some value) = true ∧
    ((a.parse p line).isSome ∨ Blank p a value ∨
      a.single = true ∧ ∃ later ∈ after, attributeOf p later = some a)

/-- All lines of a section. -/
def AllEffective (takes : Attribute → Option JString → Bool) (lines : List JString) : Prop :=
  ∀ before line after, lines = before ++ line :: after → Effective p takes line after

/-- All lines of all sections. -/
def NothingIgnored (text : JString) : Prop :=
  ∀ s, sections p text = some s →
    AllEffective p (fun a value => (InterfaceEntry.read p a value).isSome) s.interface ∧
    ∀ lines ∈ s.peers, AllEffective p (fun a value => (PeerEntry.read p a value).isSome) lines

end

section
variable {p : Platform} {a : Attribute} {line value : JString} {lines : List JString}

theorem referenceValue_ne_nil (h : referenceValue p line = some value) : value ≠ [] := by
  unfold referenceValue at h
  split at h
  · split at h
    · cases h
    · rename_i hne
      obtain rfl := Option.some.inj h
      exact hne
  · cases h

/-- Where the pattern finds a value, it is the value of the line. -/
theorem referenceValue_of_parse (hspace : ∀ c, 32 < c → c < 127 → p.isSpace c = false)
    (h : a.parse p line = some value) : referenceValue p line = some value := by
  unfold Attribute.parse at h
  dsimp only at h
  split at h
  · cases h
  rename_i htoken
  have hline := (List.take_append_drop (lit a.token).length line).symm
  rw [not_not.mp htoken] at hline
  generalize line.drop (lit a.token).length = rest at h hline
  split at h
  · rename_i afterSign hsign
    split at h
    · cases h
    · rename_i c tail hvalue
      split at h
      · cases h
      obtain rfl := Option.some.inj h
      -- the name ends where the token does: a blank or the equals sign comes next
      have hname : (line.dropWhile fun c => !(p.isSpace c || c == 61)) = rest := by
        rw [hline, dropWhile_append_of_all]
        · cases rest with
          | nil => cases hsign
          | cons d rest =>
            refine List.dropWhile_cons_of_neg ?_
            by_cases hd : p.isSpace d = true
            · simp [hd]
            · rw [List.dropWhile_cons_of_neg (by simpa using hd)] at hsign
              simp [(List.cons.inj hsign).1]
        · intro d hd
          obtain ⟨hlow, hhigh, -, hne, -⟩ := token_graphic a d hd
          simp [hspace d hlow hhigh, hne]
      unfold referenceValue
      simp only [hname, hsign, hvalue]
  · cases h

/-! ### What the default says -/

variable {α β : Type}

theorem mapM_eq_nil_iff {ε : Type} {f : α → Except ε β} {xs : List α} {ys : List β}
    (h : xs.mapM f = .ok ys) : ys = [] ↔ xs = [] := by
  cases xs with
  | nil =>
    cases h
    simp
  | cons x xs =>
    rw [List.mapM_cons] at h
    cases hx : f x with
    | error => simp [hx, bind, Except.bind] at h
    | ok y =>
      cases hxs : xs.mapM f with
      | error => simp [hx, hxs, bind, Except.bind] at h
      | ok zs =>
        simp only [hx, hxs, bind, Except.bind, pure, Except.pure, Except.ok.injEq] at h
        simp [← h]

theorem list_default_iff {f : JString → Except ConfigError α} {entry : List α → β} {v : β}
    (hinj : Function.Injective entry)
    (hv : ((items p (some value)).mapM f).toOption.map entry = some v) :
    some (entry []) = some v ↔ Attribute.stringToList p value = [] := by
  cases hread : (items p (some value)).mapM f with
  | error => simp [hread, Except.toOption] at hv
  | ok ys =>
    simp only [hread, Except.toOption, Option.map_some, Option.some.injEq] at hv
    rw [← hv, Option.some.injEq, hinj.eq_iff, eq_comm]
    exact mapM_eq_nil_iff hread

theorem int_default_iff {entry : Int32 → β} {v : β} (hinj : Function.Injective entry)
    (hne : value ≠ []) (hv : (intOrZero p (some value)).toOption.map entry = some v) :
    some (entry 0) = some v ↔ parseInt p.digit value = some 0 := by
  obtain ⟨c, t, rfl⟩ := List.exists_cons_of_ne_nil hne
  cases hread : parseInt p.digit (c :: t) with
  | none => simp [intOrZero, hread, Except.toOption] at hv
  | some n =>
    simp only [intOrZero, hread, Except.toOption, Option.map_some, Option.some.injEq] at hv
    rw [← hv, Option.some.injEq, hinj.eq_iff, Option.some.injEq, eq_comm]

/-- A value for a key or an endpoint is never the default. -/
theorem none_default_iff {read : Except ConfigError (Option α)} {entry : Option α → β} {v : β}
    (hinj : Function.Injective entry) (hsome : read ≠ .ok none)
    (hv : read.toOption.map entry = some v) : some (entry none) = some v ↔ False := by
  cases read with
  | error => simp [Except.toOption] at hv
  | ok x =>
    simp only [Except.toOption, Option.map_some, Option.some.injEq] at hv
    rw [← hv, Option.some.injEq, hinj.eq_iff, iff_false]
    rintro rfl
    exact hsome rfl

theorem parsePrivateKey_ne (hne : value ≠ []) : parsePrivateKey p (some value) ≠ .ok none := by
  obtain ⟨c, t, rfl⟩ := List.exists_cons_of_ne_nil hne
  simp only [parsePrivateKey]
  split <;> simp

theorem readEndpoint_ne (hne : value ≠ []) : readEndpoint p (some value) ≠ .ok none := by
  obtain ⟨c, t, rfl⟩ := List.exists_cons_of_ne_nil hne
  simp only [readEndpoint]
  cases InetEndpoint.parse p (c :: t) <;> simp [Except.map]

theorem KeyText.parse_ne (hne : value ≠ []) : KeyText.parse (some value) ≠ .ok none := by
  obtain ⟨c, t, rfl⟩ := List.exists_cons_of_ne_nil hne
  simp only [KeyText.parse]
  split <;> simp

theorem InterfaceEntry.read_none_iff {v : InterfaceEntry} (hne : value ≠ [])
    (hv : InterfaceEntry.read p a (some value) = some v) :
    InterfaceEntry.read p a none = some v ↔ Blank p a value := by
  cases a with
  | address => exact list_default_iff (fun _ _ h => InterfaceEntry.addresses.inj h) hv
  | dns => exact list_default_iff (fun _ _ h => InterfaceEntry.dnses.inj h) hv
  | excludedApplications =>
    cases hv
    simp only [InterfaceEntry.read, Option.some.injEq, InterfaceEntry.excludedApplications.injEq]
    exact eq_comm
  | listenPort => exact int_default_iff (fun _ _ h => InterfaceEntry.listenPort.inj h) hne hv
  | mtu => exact int_default_iff (fun _ _ h => InterfaceEntry.mtu.inj h) hne hv
  | privateKey =>
    exact none_default_iff (fun _ _ h => InterfaceEntry.privateKey.inj h)
      (parsePrivateKey_ne hne) hv
  | allowedIPs | endpoint | persistentKeepalive | presharedKey | publicKey => cases hv

theorem PeerEntry.read_none_iff {v : PeerEntry} (hne : value ≠ [])
    (hv : PeerEntry.read p a (some value) = some v) :
    PeerEntry.read p a none = some v ↔ Blank p a value := by
  cases a with
  | allowedIPs => exact list_default_iff (fun _ _ h => PeerEntry.allowedIPs.inj h) hv
  | endpoint =>
    exact none_default_iff (fun _ _ h => PeerEntry.endpoint.inj h) (readEndpoint_ne hne) hv
  | persistentKeepalive =>
    exact int_default_iff (fun _ _ h => PeerEntry.persistentKeepalive.inj h) hne hv
  | presharedKey =>
    exact none_default_iff (fun _ _ h => PeerEntry.preSharedKey.inj h) (KeyText.parse_ne hne) hv
  | publicKey =>
    exact none_default_iff (fun _ _ h => PeerEntry.publicKey.inj h) (KeyText.parse_ne hne) hv
  | address | dns | excludedApplications | listenPort | mtu | privateKey => cases hv

/-! ### The two readings of a line -/

def InterfaceEntry.kind : InterfaceEntry → Attribute
  | addresses _ => .address
  | dnses _ => .dns
  | excludedApplications _ => .excludedApplications
  | listenPort _ => .listenPort
  | mtu _ => .mtu
  | privateKey _ => .privateKey

def PeerEntry.kind : PeerEntry → Attribute
  | allowedIPs _ => .allowedIPs
  | endpoint _ => .endpoint
  | persistentKeepalive _ => .persistentKeepalive
  | preSharedKey _ => .presharedKey
  | publicKey _ => .publicKey

theorem InterfaceEntry.kind_of_read {value : Option JString} {u : InterfaceEntry}
    (h : InterfaceEntry.read p a value = some u) : u.kind = a := by
  cases a <;> simp only [InterfaceEntry.read, Option.map_eq_some_iff, Option.some.injEq,
    reduceCtorEq] at h
  case excludedApplications =>
    subst h
    rfl
  all_goals
    obtain ⟨_, -, rfl⟩ := h
    rfl

theorem PeerEntry.kind_of_read {value : Option JString} {u : PeerEntry}
    (h : PeerEntry.read p a value = some u) : u.kind = a := by
  cases a <;> simp only [PeerEntry.read, Option.map_eq_some_iff, reduceCtorEq] at h
  all_goals
    obtain ⟨_, -, rfl⟩ := h
    rfl

/-- A line read in both ways: `u` is what the code takes from it and `v` what it says. -/
structure Compared {E : Type} (read : Attribute → Option JString → Option E) (kind : E → Attribute)
    (p : Platform) (line : JString) (u v : E) : Prop where
  named : attributeOf p line = some (kind v)
  same_kind : kind u = kind v
  missed : u = v ∨ read (kind v) none = some u
  agree_iff : u = v ↔ ∃ value, referenceValue p line = some value ∧
    ((kind v).parse p line ≠ none ∨ Blank p (kind v) value)

theorem compared {E : Type} {read : Attribute → Option JString → Option E} {kind : E → Attribute}
    (hspace : ∀ c, 32 < c → c < 127 → p.isSpace c = false)
    (hkind : ∀ {a value u}, read a value = some u → kind u = a)
    (hblank : ∀ {a value v}, value ≠ [] → read a (some value) = some v →
      (read a none = some v ↔ Blank p a value)) {u v : E}
    (hu : ((attributeOf p line).bind fun a => read a (a.parse p line)) = some u)
    (hv : ((referenceValue p line).bind fun value =>
      (attributeOf p line).bind fun a => read a (some value)) = some v) :
    Compared read kind p line u v := by
  obtain ⟨a, ha, hread⟩ := Option.bind_eq_some_iff.mp hu
  obtain ⟨value, hvalue, hv⟩ := Option.bind_eq_some_iff.mp hv
  rw [ha, Option.bind_some] at hv
  have hva := hkind hv
  have hua := hkind hread
  have hne := referenceValue_ne_nil hvalue
  subst hva
  cases hparse : (kind v).parse p line with
  | some w =>
    -- the pattern finds the value
    have hw := referenceValue_of_parse hspace hparse
    rw [hvalue, Option.some.injEq] at hw
    subst hw
    rw [hparse, hv, Option.some.injEq] at hread
    subst hread
    exact ⟨ha, rfl, .inl rfl, by simp [hvalue, hparse]⟩
  | none =>
    rw [hparse] at hread
    refine ⟨ha, hua, .inr hread, ?_⟩
    simp only [hvalue, hparse, ne_eq, not_true_eq_false, false_or, Option.some.injEq,
      exists_eq_left']
    rw [← hblank hne hv, hread, Option.some.injEq]

/-- Each line is taken for what it says, or is one of several that set the same value. -/
def Agreeing {E : Type} (kind : E → Attribute) (p : Platform) (c r : JString → Option E)
    (lines : List JString) : Prop :=
  ∀ before line after, lines = before ++ line :: after → ∀ u v, c line = some u → r line = some v →
    u = v ∨ (kind v).single = true ∧ ∃ later ∈ after, attributeOf p later = some (kind v)

section
variable {E : Type} {read : Attribute → Option JString → Option E} {kind : E → Attribute}
  {c r : JString → Option E}

/-- A list that the entries of one kind add to. -/
structure ListField {α : Type} (read : Attribute → Option JString → Option E) (kind : E → Attribute)
    (f : E → List α) (k : Attribute) : Prop where
  other : ∀ u, kind u ≠ k → f u = []
  default : ∀ u, read k none = some u → f u = []
  inj : ∀ u v, kind u = k → kind v = k → f u = f v → u = v

/-- A value that the entries of one kind set. -/
structure SingleField {α : Type} (kind : E → Attribute) (g : E → Option α)
    (k : Attribute) : Prop where
  isSome_iff : ∀ u, (g u).isSome ↔ kind u = k
  inj : ∀ u v, kind u = k → kind v = k → g u = g v → u = v

variable {k : Attribute} {α : Type}

theorem ListField.of_constructor {f : E → List α} (mk : List α → E)
    (hmk : ∀ xs, kind (mk xs) = k ∧ f (mk xs) = xs)
    (hother : ∀ u, (∃ xs, u = mk xs) ∨ kind u ≠ k ∧ f u = [])
    (hdefault : read k none = some (mk [])) : ListField read kind f k where
  other u hu := by
    rcases hother u with ⟨xs, rfl⟩ | ⟨-, hf⟩
    · exact absurd (hmk xs).1 hu
    · exact hf
  default u hu := by
    cases hdefault.symm.trans hu
    exact (hmk []).2
  inj u v hu hv h := by
    obtain ⟨xs, rfl⟩ := (hother u).resolve_right fun hno => hno.1 hu
    obtain ⟨ys, rfl⟩ := (hother v).resolve_right fun hno => hno.1 hv
    rw [(hmk xs).2, (hmk ys).2] at h
    rw [h]

theorem SingleField.of_constructor {g : E → Option α} (mk : α → E)
    (hmk : ∀ x, kind (mk x) = k ∧ g (mk x) = some x)
    (hother : ∀ u, (∃ x, u = mk x) ∨ kind u ≠ k ∧ g u = none) : SingleField kind g k where
  isSome_iff u := by
    rcases hother u with ⟨x, rfl⟩ | ⟨hkind, hg⟩
    · simp [hmk x]
    · simp [hkind, hg]
  inj u v hu hv h := by
    obtain ⟨x, rfl⟩ := (hother u).resolve_right fun hno => hno.1 hu
    obtain ⟨y, rfl⟩ := (hother v).resolve_right fun hno => hno.1 hv
    rw [(hmk x).2, (hmk y).2] at h
    rw [Option.some.inj h]

theorem ListField.eq_iff {f : E → List α} (hf : ListField read kind f k)
    (hlines : ∀ line ∈ lines, ∃ u v, c line = some u ∧ r line = some v ∧
      Compared read kind p line u v) :
    (lines.filterMap c).flatMap f = (lines.filterMap r).flatMap f ↔
      ∀ line ∈ lines, ∀ u v, c line = some u → r line = some v → kind v = k → u = v := by
  rw [gathered_eq_iff]
  · refine forall₂_congr fun line hmem => ?_
    obtain ⟨u, v, hu, hv, hcompared⟩ := hlines line hmem
    simp only [hu, hv, Option.map_some, Option.some.injEq]
    constructor
    · rintro heq _ _ rfl rfl hk
      exact hf.inj _ _ (hcompared.same_kind.trans hk) hk heq
    · intro h
      by_cases hk : kind v = k
      · rw [h u v rfl rfl hk]
      · rw [hf.other v hk, hf.other u (hcompared.same_kind ▸ hk)]
  · intro line hmem
    obtain ⟨u, v, hu, hv, hcompared⟩ := hlines line hmem
    refine ⟨u, v, hu, hv, ?_⟩
    by_cases hk : kind v = k
    · rcases hcompared.missed with rfl | hdef
      · exact .inl rfl
      · exact .inr (hf.default u (hk ▸ hdef))
    · exact .inr (hf.other u (hcompared.same_kind ▸ hk))

theorem SingleField.eq_iff {g : E → Option α} {start : α} (hg : SingleField kind g k)
    (hlines : ∀ line ∈ lines, ∃ u v, c line = some u ∧ r line = some v ∧
      Compared read kind p line u v) :
    latest g start (lines.filterMap c) = latest g start (lines.filterMap r) ↔
      ∀ before line after, lines = before ++ line :: after → ∀ u v, c line = some u →
        r line = some v → kind v = k →
        u = v ∨ ∃ later ∈ after, attributeOf p later = some k := by
  rw [settled_eq_iff]
  · refine forall₃_congr fun before line after => forall_congr' fun hsplit => ?_
    have hlater : (∃ later ∈ after, ((r later).bind g).isSome) ↔
        ∃ later ∈ after, attributeOf p later = some k := by
      refine exists_congr fun later => and_congr_right fun hmem => ?_
      obtain ⟨u, v, -, hv, hcompared⟩ := hlines later (by simp [hsplit, hmem])
      rw [hv, Option.bind_some, hg.isSome_iff, hcompared.named, Option.some.injEq]
    obtain ⟨u, v, hu, hv, hcompared⟩ := hlines line (by simp [hsplit])
    simp only [hlater, hu, hv, Option.bind_some, Option.some.injEq]
    constructor
    · rintro h _ _ rfl rfl hk
      exact (h.imp_right (hg.inj _ _ (hcompared.same_kind.trans hk) hk)).symm
    · intro h
      by_cases hk : kind v = k
      · exact (h u v rfl rfl hk).symm.imp_right fun h => by rw [h]
      · have hnone : ∀ w, kind w ≠ k → g w = none := fun w hw =>
          Option.not_isSome_iff_eq_none.mp fun hsome => hw ((hg.isSome_iff w).mp hsome)
        exact .inr (by rw [hnone v hk, hnone u (hcompared.same_kind ▸ hk)])
  · intro line hmem
    obtain ⟨u, v, hu, hv, hcompared⟩ := hlines line hmem
    refine ⟨u, v, hu, hv, Bool.eq_iff_iff.mpr ?_⟩
    rw [hg.isSome_iff, hg.isSome_iff, hcompared.same_kind]

end

theorem Agreeing.list {E : Type} {kind : E → Attribute} {c r : JString → Option E} {k : Attribute}
    (h : Agreeing kind p c r lines) (hk : k.single = false) :
    ∀ line ∈ lines, ∀ u v, c line = some u → r line = some v → kind v = k → u = v := by
  rintro line hmem u v hu hv rfl
  obtain ⟨before, after, hsplit⟩ := List.append_of_mem hmem
  refine (h before line after hsplit u v hu hv).resolve_right fun hsingle => ?_
  simp [hk] at hsingle

theorem Agreeing.single {E : Type} {kind : E → Attribute} {c r : JString → Option E} {k : Attribute}
    (h : Agreeing kind p c r lines) : ∀ before line after, lines = before ++ line :: after → ∀ u v,
      c line = some u → r line = some v → kind v = k →
      u = v ∨ ∃ later ∈ after, attributeOf p later = some k := by
  rintro before line after hsplit u v hu hv rfl
  exact (h before line after hsplit u v hu hv).imp_right And.right

theorem InterfaceEntry.addressList_field :
    ListField (InterfaceEntry.read p) InterfaceEntry.kind InterfaceEntry.addressList .address :=
  .of_constructor .addresses (fun _ => ⟨rfl, rfl⟩)
    (fun u => by cases u <;> simp [kind, addressList]) rfl

theorem InterfaceEntry.dnsList_field :
    ListField (InterfaceEntry.read p) InterfaceEntry.kind InterfaceEntry.dnsList .dns :=
  .of_constructor .dnses (fun _ => ⟨rfl, rfl⟩) (fun u => by cases u <;> simp [kind, dnsList]) rfl

theorem InterfaceEntry.applicationList_field :
    ListField (InterfaceEntry.read p) InterfaceEntry.kind InterfaceEntry.applicationList
      .excludedApplications :=
  .of_constructor .excludedApplications (fun _ => ⟨rfl, rfl⟩)
    (fun u => by cases u <;> simp [kind, applicationList]) rfl

theorem PeerEntry.allowedIPList_field :
    ListField (PeerEntry.read p) PeerEntry.kind PeerEntry.allowedIPList .allowedIPs :=
  .of_constructor .allowedIPs (fun _ => ⟨rfl, rfl⟩)
    (fun u => by cases u <;> simp [kind, allowedIPList]) rfl

theorem InterfaceEntry.privateKey_field :
    SingleField InterfaceEntry.kind InterfaceEntry.privateKey? .privateKey :=
  .of_constructor .privateKey (fun _ => ⟨rfl, rfl⟩) fun u => by cases u <;> simp [kind, privateKey?]

theorem InterfaceEntry.listenPort_field :
    SingleField InterfaceEntry.kind InterfaceEntry.listenPort? .listenPort :=
  .of_constructor .listenPort (fun _ => ⟨rfl, rfl⟩) fun u => by cases u <;> simp [kind, listenPort?]

theorem InterfaceEntry.mtu_field :
    SingleField InterfaceEntry.kind InterfaceEntry.mtu? .mtu :=
  .of_constructor .mtu (fun _ => ⟨rfl, rfl⟩) fun u => by cases u <;> simp [kind, mtu?]

theorem PeerEntry.endpoint_field :
    SingleField PeerEntry.kind PeerEntry.endpoint? .endpoint :=
  .of_constructor .endpoint (fun _ => ⟨rfl, rfl⟩) fun u => by cases u <;> simp [kind, endpoint?]

theorem PeerEntry.persistentKeepalive_field :
    SingleField PeerEntry.kind PeerEntry.persistentKeepalive? .persistentKeepalive :=
  .of_constructor .persistentKeepalive (fun _ => ⟨rfl, rfl⟩)
    fun u => by cases u <;> simp [kind, persistentKeepalive?]

theorem PeerEntry.preSharedKey_field :
    SingleField PeerEntry.kind PeerEntry.preSharedKey? .presharedKey :=
  .of_constructor .preSharedKey (fun _ => ⟨rfl, rfl⟩) fun u => by
    cases u <;> simp [kind, preSharedKey?]

theorem PeerEntry.publicKey_field :
    SingleField PeerEntry.kind PeerEntry.publicKey? .publicKey :=
  .of_constructor .publicKey (fun _ => ⟨rfl, rfl⟩) fun u => by cases u <;> simp [kind, publicKey?]

theorem interface_eq_iff {c r : JString → Option InterfaceEntry}
    (hlines : ∀ line ∈ lines, ∃ u v, c line = some u ∧ r line = some v ∧
      Compared (InterfaceEntry.read p) InterfaceEntry.kind p line u v) :
    (lines.filterMap c).foldl Interface.put {} = (lines.filterMap r).foldl Interface.put {} ↔
      Agreeing InterfaceEntry.kind p c r lines := by
  rw [Interface.foldl_put, Interface.foldl_put, Interface.mk.injEq,
    InterfaceEntry.addressList_field.eq_iff hlines, InterfaceEntry.dnsList_field.eq_iff hlines,
    InterfaceEntry.applicationList_field.eq_iff hlines,
    InterfaceEntry.privateKey_field.eq_iff hlines, InterfaceEntry.listenPort_field.eq_iff hlines,
    InterfaceEntry.mtu_field.eq_iff hlines]
  constructor
  · rintro ⟨haddress, hdns, happlications, hkey, hport, hmtu⟩ before line after hsplit u v hu hv
    have hmem : line ∈ lines := by simp [hsplit]
    cases v with
    | addresses => exact .inl (haddress line hmem u _ hu hv rfl)
    | dnses => exact .inl (hdns line hmem u _ hu hv rfl)
    | excludedApplications => exact .inl (happlications line hmem u _ hu hv rfl)
    | privateKey => exact (hkey before line after hsplit u _ hu hv rfl).imp_right fun h => ⟨rfl, h⟩
    | listenPort => exact (hport before line after hsplit u _ hu hv rfl).imp_right fun h => ⟨rfl, h⟩
    | mtu => exact (hmtu before line after hsplit u _ hu hv rfl).imp_right fun h => ⟨rfl, h⟩
  · intro h
    exact ⟨h.list rfl, h.list rfl, h.list rfl, h.single, h.single, h.single⟩

theorem peer_eq_iff {c r : JString → Option PeerEntry}
    (hlines : ∀ line ∈ lines, ∃ u v, c line = some u ∧ r line = some v ∧
      Compared (PeerEntry.read p) PeerEntry.kind p line u v) :
    (lines.filterMap c).foldl Peer.put {} = (lines.filterMap r).foldl Peer.put {} ↔
      Agreeing PeerEntry.kind p c r lines := by
  rw [Peer.foldl_put, Peer.foldl_put, Peer.mk.injEq, PeerEntry.allowedIPList_field.eq_iff hlines,
    PeerEntry.endpoint_field.eq_iff hlines, PeerEntry.persistentKeepalive_field.eq_iff hlines,
    PeerEntry.preSharedKey_field.eq_iff hlines, PeerEntry.publicKey_field.eq_iff hlines]
  constructor
  · rintro ⟨hips, hendpoint, hkeepalive, hshared, hpublic⟩ before line after hsplit u v hu hv
    cases v with
    | allowedIPs => exact .inl (hips line (by simp [hsplit]) u _ hu hv rfl)
    | endpoint =>
      exact (hendpoint before line after hsplit u _ hu hv rfl).imp_right fun h => ⟨rfl, h⟩
    | persistentKeepalive =>
      exact (hkeepalive before line after hsplit u _ hu hv rfl).imp_right fun h => ⟨rfl, h⟩
    | preSharedKey =>
      exact (hshared before line after hsplit u _ hu hv rfl).imp_right fun h => ⟨rfl, h⟩
    | publicKey =>
      exact (hpublic before line after hsplit u _ hu hv rfl).imp_right fun h => ⟨rfl, h⟩
  · intro h
    exact ⟨h.list rfl, h.single, h.single, h.single, h.single⟩

/-! ### Sections and configurations -/

/-- The lines of a section, of which the code has accepted each, all have their effect if and only
if each says something and both readings agree. -/
theorem allEffective_iff {E : Type} {read : Attribute → Option JString → Option E}
    {kind : E → Attribute} {c r : JString → Option E}
    (hr : ∀ line, r line = (referenceValue p line).bind fun value =>
      (attributeOf p line).bind fun a => read a (some value))
    (hc : ∀ line ∈ lines, (c line).isSome)
    (hlines : ∀ line ∈ lines, ∀ u v, c line = some u → r line = some v →
      Compared read kind p line u v) :
    AllEffective p (fun a value => (read a value).isSome) lines ↔
      (∀ line ∈ lines, (r line).isSome) ∧ Agreeing kind p c r lines := by
  constructor
  · intro h
    constructor
    · intro line hmem
      obtain ⟨before, after, hsplit⟩ := List.append_of_mem hmem
      obtain ⟨a, value, ha, hvalue, htakes, -⟩ := h before line after hsplit
      simpa [hr, ha, hvalue] using htakes
    · intro before line after hsplit u v hu hv
      have hcompared := hlines line (by simp [hsplit]) u v hu hv
      obtain ⟨a, value, ha, hvalue, -, heffect⟩ := h before line after hsplit
      rw [hcompared.named, Option.some.injEq] at ha
      subst ha
      rcases heffect with hparse | hblank | hlater
      · exact .inl
          (hcompared.agree_iff.mpr ⟨value, hvalue, .inl (Option.isSome_iff_ne_none.mp hparse)⟩)
      · exact .inl (hcompared.agree_iff.mpr ⟨value, hvalue, .inr hblank⟩)
      · exact .inr hlater
  · rintro ⟨hsome, hagree⟩ before line after hsplit
    have hmem : line ∈ lines := by simp [hsplit]
    obtain ⟨u, hu⟩ := Option.isSome_iff_exists.mp (hc line hmem)
    obtain ⟨v, hv⟩ := Option.isSome_iff_exists.mp (hsome line hmem)
    have hcompared := hlines line hmem u v hu hv
    rw [hr, Option.bind_eq_some_iff] at hv
    obtain ⟨value, hvalue, hread⟩ := hv
    rw [hcompared.named, Option.bind_some] at hread
    refine ⟨kind v, value, hcompared.named, hvalue, by simp [hread], ?_⟩
    rcases hagree before line after hsplit u v hu (by simp [hr, hvalue, hcompared.named, hread])
      with heq | hlater
    · obtain ⟨value', hvalue', heffect⟩ := hcompared.agree_iff.mp heq
      rw [hvalue, Option.some.injEq] at hvalue'
      subst hvalue'
      exact heffect.imp Option.isSome_iff_ne_none.mpr .inl
    · exact .inr (.inr hlater)

theorem interface_reference_iff (hspace : ∀ c, 32 < c → c < 127 → p.isSpace c = false)
    {iface : Interface} (h : Interface.ofLines p lines = some iface) :
    lines.foldlM (fun iface line =>
      (InterfaceEntry.reference p line).map iface.put) {} = some iface ↔
      AllEffective p (fun a value => (InterfaceEntry.read p a value).isSome) lines := by
  obtain ⟨hc, rfl⟩ := Interface.ofLines_eq_some_iff.mp h
  have hcompared :
      ∀ line ∈ lines, ∀ u v, InterfaceEntry.ofLine p (Attribute.parse p) line = some u →
      InterfaceEntry.reference p line = some v →
      Compared (InterfaceEntry.read p) InterfaceEntry.kind p line u v := fun line _ u v hu hv =>
    compared hspace InterfaceEntry.kind_of_read InterfaceEntry.read_none_iff hu hv
  rw [allEffective_iff (fun _ => rfl) hc hcompared, foldlM_put_eq_some_iff]
  refine and_congr_right fun hr => eq_comm.trans (interface_eq_iff fun line hmem => ?_)
  obtain ⟨u, hu⟩ := Option.isSome_iff_exists.mp (hc line hmem)
  obtain ⟨v, hv⟩ := Option.isSome_iff_exists.mp (hr line hmem)
  exact ⟨u, v, hu, hv, hcompared line hmem u v hu hv⟩

theorem peer_reference_iff (hspace : ∀ c, 32 < c → c < 127 → p.isSpace c = false)
    {peer : Peer} (h : Peer.ofLines p lines = some peer) :
    lines.foldlM (fun peer line => (PeerEntry.reference p line).map peer.put) {} = some peer ↔
      AllEffective p (fun a value => (PeerEntry.read p a value).isSome) lines := by
  obtain ⟨hc, rfl⟩ := Peer.ofLines_eq_some_iff.mp h
  have hcompared : ∀ line ∈ lines, ∀ u v, PeerEntry.ofLine p (Attribute.parse p) line = some u →
      PeerEntry.reference p line = some v →
      Compared (PeerEntry.read p) PeerEntry.kind p line u v := fun line _ u v hu hv =>
    compared hspace PeerEntry.kind_of_read PeerEntry.read_none_iff hu hv
  rw [allEffective_iff (fun _ => rfl) hc hcompared, foldlM_put_eq_some_iff]
  refine and_congr_right fun hr => eq_comm.trans (peer_eq_iff fun line hmem => ?_)
  obtain ⟨u, hu⟩ := Option.isSome_iff_exists.mp (hc line hmem)
  obtain ⟨v, hv⟩ := Option.isSome_iff_exists.mp (hr line hmem)
  exact ⟨u, v, hu, hv, hcompared line hmem u v hu hv⟩

end

/-- The text is accepted. The configuration is the one that the reference reader makes of it if
and only if every line of a section has a value that its attribute takes, and has its effect: its
name is spelt as in the documentation (and the rest matches the pattern), or its value is the
default, or a line after it in its section sets the same attribute. -/
theorem accepted_as_written_iff {p : Platform}
    (hspace : ∀ c, 32 < c → c < 127 → p.isSpace c = false)
    {text : JString} {config : Config} (h : Config.parse p text = .ok config) :
    Config.reference p text = some config ↔ NothingIgnored p text := by
  obtain ⟨s, hs, hiface, hpeers⟩ := parse_eq_ok_iff.mp h
  have hthese : NothingIgnored p text ↔
      AllEffective p (fun a value => (InterfaceEntry.read p a value).isSome) s.interface ∧
      ∀ lines ∈ s.peers, AllEffective p
          (fun a value => (PeerEntry.read p a value).isSome) lines := by
    simp only [NothingIgnored, hs, Option.some.injEq, forall_eq']
  rw [hthese, Config.reference, hs, Option.bind_some, Sections.read_eq_some_iff,
    interface_reference_iff hspace hiface, mapM_eq_iff hpeers]
  refine and_congr_right fun _ => forall₂_congr fun lines hmem => ?_
  obtain ⟨peer, hpeer⟩ :=
    Option.isSome_iff_exists.mp (((mapM_eq_some_iff _).mp hpeers).1 lines hmem)
  rw [hpeer]
  exact peer_reference_iff hspace hpeer

/-! ### A platform for ASCII texts -/

/-- URIs with the host `vpn`. Any other authority is not one of a server. -/
def plainURI (s : JString) : Option (Option JString × Int32) :=
  if s.take 8 = lit "wg://vpn" then
    match s.drop 8 with
    | [] => some (some (lit "vpn"), -1)
    | 58 :: port =>
      let value := Numeral.value 10 0 (port.map fun c => c.toNat - 48)
      if port = [] then some (some (lit "vpn"), -1)
      else if port.all (fun c => 48 ≤ c ∧ c ≤ 57) ∧ value < 2 ^ 31 then
        some (some (lit "vpn"), Int32.ofInt value)
      else some (none, -1)
    | _ => some (none, -1)
  else some (none, -1)

/-- English case mapping and ASCII digits; one address and one host are known. -/
def plainPlatform : Platform where
  locale := ⟨fun s => s.map fun c => if 65 ≤ c ∧ c ≤ 90 then c + 32 else c⟩
  isSpace c := c ∈ ([9, 10, 11, 12, 13, 32] : List UInt16)
  isSpace_separators := by decide
  digit c := if 48 ≤ c ∧ c ≤ 57 then some (c.toNat - 48) else none
  parseNumericAddress s := if s = lit "10.0.0.1" then some (.inet4 10 0 0 1) else none
  parseURI := plainURI

theorem plainPlatform_isSpace (c : UInt16) (h : 32 < c) : plainPlatform.isSpace c = false := by
  simp only [plainPlatform, decide_eq_false_iff_not, List.mem_cons, List.not_mem_nil, or_false]
  rintro (rfl | rfl | rfl | rfl | rfl | rfl) <;> exact absurd h (by decide)

/-- Every line is spelt as documented, but for one that is replaced after it. -/
def wellSpelt : JString :=
  lit "[Interface]\nAddress = 10.0.0.1/24\nmtu = 1280\nMTU=1400\n[Peer]\nEndpoint = vpn:51820\n"

def wellSpeltConfig : Config :=
  ⟨{ addresses := [⟨.inet4 10 0 0 1, 24, by decide⟩], mtu := 1400 },
    [{ endpoint := some ⟨some (lit "vpn"), 51820⟩ }]⟩

theorem wellSpelt_accepted : Config.parse plainPlatform wellSpelt = .ok wellSpeltConfig ∧
    NothingIgnored plainPlatform wellSpelt := by
  have hparse : Config.parse plainPlatform wellSpelt = .ok wellSpeltConfig := by decide +kernel
  have hreference : Config.reference plainPlatform wellSpelt = some wellSpeltConfig := by
    decide +kernel
  have hspace : ∀ c, 32 < c → c < 127 → plainPlatform.isSpace c = false := fun c h _ =>
    plainPlatform_isSpace c h
  exact ⟨hparse, (accepted_as_written_iff hspace hparse).mp hreference⟩

/-- An address under a name in lower case is left out without an error, and so is an attribute
without a value. -/
theorem misspelt_ignored :
    (Config.parse plainPlatform (lit "[Interface]\naddress = 10.0.0.1/24\n") = .ok ⟨{}, []⟩ ∧
      Config.reference plainPlatform (lit "[Interface]\naddress = 10.0.0.1/24\n") =
        some ⟨{ addresses := [⟨.inet4 10 0 0 1, 24, by decide⟩] }, []⟩) ∧
    Config.parse plainPlatform (lit "[Interface]\nMTU =\n") = .ok ⟨{}, []⟩ ∧
      Config.reference plainPlatform (lit "[Interface]\nMTU =\n") = none := by
  decide +kernel

end Sewg.App
