import Sewg.App.IgnoredLines

/-! Importing a zip archive: the loop of `importTunnel` in `TunnelListFragment`. All entries are
read through one reader, which goes on where the last call of `Config.from` stopped. -/

namespace Sewg.App

structure ZipEntry where
  name : JString
  isDirectory : Bool
  text : JString

/-- What `readLine` returns from here on: the lines of an entry and, as `none`, its end. -/
abbrev Input := List (Option JString)

section
variable (p : Platform)

/-- The loop of `Config.from` on a reader, and what is left to read. -/
def Reader.readAll (r : Reader) : Input → Except ConfigError Reader × Input
  | [] => (.ok r, [])
  | none :: rest => (.ok r, rest)
  | some line :: rest =>
    match r.line p line with
    | .error e => (.error e, rest)
    | .ok r => r.readAll rest

/-- What the variables of the loop of `Config.from` are returned as. -/
def Reader.config (r : Reader) : Except ConfigError Config :=
  if r.current = .outside then .error .noConfigInformation
  else .ok ⟨r.interfaceSection, r.peers.reverse⟩

/-- `Config.from` on a reader. -/
def Config.fromReader (input : Input) : Except ConfigError Config × Input :=
  let (r, rest) := Reader.readAll p {} input
  (r.bind Reader.config, rest)

/-- The name of the tunnel, if the entry is one to import. -/
def ZipEntry.tunnelName (entry : ZipEntry) : Option JString :=
  let cut (name : JString) : Option JString :=
    if lit ".conf" <:+ p.locale.toLowerCase name then some (name.take (name.length - 5)) else none
  if entry.isDirectory then none
  else match lastIndexOf entry.name 47 with
  | none => cut entry.name
  | some idx => if entry.name.length - 1 ≤ idx then none else cut (entry.name.drop (idx + 1))

/-- The variables of the loop. What each call of `Config.from` returned or threw is kept, to tell
the entries apart. -/
structure Import where
  input : Input
  futureTunnels : List (JString × Config) := []
  throwables : List ConfigError := []
  outcomes : List (Except ConfigError Config) := []

/-- The body of the loop, for an entry to import. -/
def Import.conf (s : Import) (name : JString) : Import :=
  let (outcome, input) := Config.fromReader p s.input
  let s := { s with input, outcomes := s.outcomes ++ [outcome] }
  match outcome with
  | .error e => { s with throwables := s.throwables ++ [e] }
  | .ok config => { s with futureTunnels := s.futureTunnels ++ [(name, config)] }

def Import.entry (s : Import) (entry : ZipEntry) : Import :=
  match entry.tunnelName p with
  | none => s
  | some name => s.conf p name

/-- The entries to import, with the names of their tunnels. -/
def confs (entries : List ZipEntry) : List (JString × JString) :=
  entries.filterMap fun entry => (entry.tunnelName p).map (·, entry.text)

/-- The reader is taken to return all lines of an entry, then its end, then the lines of the next
entry. `BufferedReader` has no end before the next entry when `Config.from` has thrown. -/
def entryInput (text : JString) : Input := (readLines false [] text).map some ++ [none]

def importZip (entries : List ZipEntry) : Import :=
  entries.foldl (Import.entry p)
    { input := (confs p entries).flatMap fun conf => entryInput conf.2 }

end

section
variable {p : Platform}

theorem parse_eq_config (text : JString) : Config.parse p text =
    ((readLines false [] text).foldlM (Reader.line p) {}).bind Reader.config := rfl

theorem foldl_entry (entries : List ZipEntry) (s : Import) :
    entries.foldl (Import.entry p) s =
      ((confs p entries).map Prod.fst).foldl (Import.conf p) s := by
  induction entries generalizing s with
  | nil => rfl
  | cons entry entries ih =>
    rw [List.foldl_cons, ih]
    cases hname : entry.tunnelName p <;> simp [Import.entry, confs, hname]

/-! ### One call -/

/-- `Config.from` throws at one of the lines, and not only at their end. -/
def ThrowsAtLine (p : Platform) (text : JString) : Prop :=
  ∃ e, (readLines false [] text).foldlM (Reader.line p) {} = .error e

/-- A call that meets only good lines stops at the end of the entry. -/
theorem readAll_ok {r r' : Reader} {lines : List JString}
    (h : lines.foldlM (Reader.line p) r = .ok r')
    (rest : Input) : r.readAll p (lines.map some ++ none :: rest) = (.ok r', rest) := by
  induction lines generalizing r with
  | nil =>
    cases h
    rfl
  | cons line lines ih =>
    rw [List.foldlM_cons] at h
    cases hline : r.line p line with
    | error e =>
      rw [hline] at h
      cases h
    | ok r₁ =>
      rw [hline] at h
      rw [List.map_cons, List.cons_append, Reader.readAll]
      simp only [hline]
      exact ih h

/-- A call that throws at a line leaves the lines after it. -/
theorem readAll_error {r : Reader} {lines : List JString} {e : ConfigError}
    (h : lines.foldlM (Reader.line p) r = .error e) :
    ∃ left : List JString, ∀ rest, r.readAll p (lines.map some ++ none :: rest) =
      (.error e, left.map some ++ none :: rest) := by
  induction lines generalizing r with
  | nil => cases h
  | cons line lines ih =>
    rw [List.foldlM_cons] at h
    cases hline : r.line p line with
    | error e' =>
      rw [hline] at h
      cases h
      refine ⟨lines, fun rest => ?_⟩
      rw [List.map_cons, List.cons_append, Reader.readAll]
      simp only [hline]
    | ok r₁ =>
      rw [hline] at h
      obtain ⟨left, hleft⟩ := ih h
      refine ⟨left, fun rest => ?_⟩
      rw [List.map_cons, List.cons_append, Reader.readAll]
      simp only [hline]
      exact hleft rest

/-- A call does not read past the end of an entry. -/
theorem readAll_behind (r : Reader) (before : Input) : ∃ outcome left, ∀ rest,
    r.readAll p (before ++ none :: rest) = (outcome, left ++ rest) := by
  induction before generalizing r with
  | nil => exact ⟨.ok r, [], fun rest => rfl⟩
  | cons next before ih =>
    cases next with
    | none => exact ⟨.ok r, before ++ [none], fun rest => by simp [Reader.readAll]⟩
    | some line =>
      cases hline : r.line p line with
      | error e => exact ⟨.error e, before ++ [none], fun rest => by simp [Reader.readAll, hline]⟩
      | ok r₁ =>
        obtain ⟨outcome, left, h⟩ := ih r₁
        exact ⟨outcome, left, fun rest => by simp [Reader.readAll, hline, h rest]⟩

/-! ### All calls -/

/-- What the reader has for some entries. -/
def inputOf (cs : List (JString × JString)) : Input := cs.flatMap fun conf => entryInput conf.2

section
variable {s : Import} {cs : List (JString × JString)} {text : JString}

theorem Import.conf_input (s : Import) (name : JString) :
    (s.conf p name).input = (Config.fromReader p s.input).2 := by
  unfold Import.conf
  cases h : (Config.fromReader p s.input).1 <;> simp [h]

theorem Import.conf_outcomes (s : Import) (name : JString) :
    (s.conf p name).outcomes = s.outcomes ++ [(Config.fromReader p s.input).1] := by
  unfold Import.conf
  cases h : (Config.fromReader p s.input).1 <;> simp [h]

theorem entryInput_append (text : JString) (rest : Input) :
    entryInput text ++ rest = (readLines false [] text).map some ++ none :: rest := by
  simp [entryInput]

theorem inputOf_cons (conf : JString × JString) (cs : List (JString × JString)) (rest : Input) :
    inputOf (conf :: cs) ++ rest = entryInput conf.2 ++ (inputOf cs ++ rest) := by
  simp [inputOf]

/-- A call on an entry with good lines reads all of it and nothing more. -/
theorem fromReader_good (h : ¬ ThrowsAtLine p text) (rest : Input) :
    Config.fromReader p (entryInput text ++ rest) = (Config.parse p text, rest) := by
  cases hfold : (readLines false [] text).foldlM (Reader.line p) {} with
  | error e => exact absurd ⟨e, hfold⟩ h
  | ok r =>
    rw [entryInput_append, Config.fromReader, readAll_ok hfold, parse_eq_config, hfold]

/-- While no line is rejected, each call reads its own entry. -/
theorem foldl_conf_aligned (h : ∀ conf ∈ cs, ¬ ThrowsAtLine p conf.2) {rest : Input}
    (hinput : s.input = inputOf cs ++ rest) :
    ((cs.map Prod.fst).foldl (Import.conf p) s).input = rest ∧
    ((cs.map Prod.fst).foldl (Import.conf p) s).outcomes =
      s.outcomes ++ cs.map fun conf => Config.parse p conf.2 := by
  induction cs generalizing s with
  | nil => exact ⟨hinput, (List.append_nil _).symm⟩
  | cons conf cs ih =>
    obtain ⟨hconf, hcs⟩ := List.forall_mem_cons.mp h
    have hcall : Config.fromReader p s.input = (Config.parse p conf.2, inputOf cs ++ rest) := by
      rw [hinput, inputOf_cons, fromReader_good hconf]
    have hnext : (s.conf p conf.1).input = inputOf cs ++ rest := by rw [Import.conf_input, hcall]
    obtain ⟨hrest, houtcomes⟩ := ih hcs hnext
    refine ⟨hrest, ?_⟩
    rw [List.map_cons, List.foldl_cons, houtcomes, Import.conf_outcomes, hcall]
    simp

/-- Once a call has left something, no later call gets to its own entry, and none depends on the
entries that follow. -/
theorem foldl_conf_behind (before : Input) (cs : List (JString × JString)) :
    ∃ before' found, ∀ (s : Import) (rest : Input),
      s.input = before ++ none :: (inputOf cs ++ rest) →
      ((cs.map Prod.fst).foldl (Import.conf p) s).input = before' ++ none :: rest ∧
      ((cs.map Prod.fst).foldl (Import.conf p) s).outcomes = s.outcomes ++ found := by
  induction cs generalizing before with
  | nil => exact ⟨before, [], fun s rest hinput => ⟨hinput, (List.append_nil _).symm⟩⟩
  | cons conf cs ih =>
    obtain ⟨outcome, left, hcall⟩ := readAll_behind (p := p) {} before
    obtain ⟨before', found, h⟩ := ih (left ++ (readLines false [] conf.2).map some)
    refine ⟨before', outcome.bind Reader.config :: found, fun s rest hinput => ?_⟩
    have hread : Config.fromReader p s.input = (outcome.bind Reader.config,
        left ++ (readLines false [] conf.2).map some ++ none :: (inputOf cs ++ rest)) := by
      rw [hinput, inputOf_cons, Config.fromReader, hcall, entryInput_append, List.append_assoc]
    obtain ⟨hrest, houtcomes⟩ := h (s.conf p conf.1) rest (by rw [Import.conf_input, hread])
    refine ⟨hrest, ?_⟩
    rw [List.map_cons, List.foldl_cons, houtcomes, Import.conf_outcomes, hread]
    simp

/-- After an entry that is rejected at a line, something is left. -/
theorem foldl_conf_bad (h : ∃ conf ∈ cs, ThrowsAtLine p conf.2) :
    ∃ before found, ∀ (s : Import) (rest : Input), s.input = inputOf cs ++ rest →
      ((cs.map Prod.fst).foldl (Import.conf p) s).input = before ++ none :: rest ∧
      ((cs.map Prod.fst).foldl (Import.conf p) s).outcomes = s.outcomes ++ found := by
  induction cs with
  | nil =>
    obtain ⟨conf, hmem, -⟩ := h
    cases hmem
  | cons conf cs ih =>
    by_cases hconf : ThrowsAtLine p conf.2
    · obtain ⟨e, hfold⟩ := hconf
      obtain ⟨left, hleft⟩ := readAll_error hfold
      obtain ⟨before, found, hbehind⟩ := foldl_conf_behind (p := p) (left.map some) cs
      refine ⟨before, .error e :: found, fun s rest hinput => ?_⟩
      have hcall : Config.fromReader p s.input =
          (.error e, left.map some ++ none :: (inputOf cs ++ rest)) := by
        rw [hinput, inputOf_cons, entryInput_append, Config.fromReader, hleft]
        rfl
      obtain ⟨hrest, houtcomes⟩ := hbehind (s.conf p conf.1) rest (by rw [Import.conf_input, hcall])
      refine ⟨hrest, ?_⟩
      rw [List.map_cons, List.foldl_cons, houtcomes, Import.conf_outcomes, hcall]
      simp
    · have hlater : ∃ conf ∈ cs, ThrowsAtLine p conf.2 := by
        obtain ⟨other, hmem, hother⟩ := h
        rcases List.mem_cons.mp hmem with rfl | hmem
        · exact absurd hother hconf
        · exact ⟨other, hmem, hother⟩
      obtain ⟨before, found, hbad⟩ := ih hlater
      refine ⟨before, Config.parse p conf.2 :: found, fun s rest hinput => ?_⟩
      have hcall : Config.fromReader p s.input = (Config.parse p conf.2, inputOf cs ++ rest) := by
        rw [hinput, inputOf_cons, fromReader_good hconf]
      obtain ⟨hrest, houtcomes⟩ := hbad (s.conf p conf.1) rest (by rw [Import.conf_input, hcall])
      refine ⟨hrest, ?_⟩
      rw [List.map_cons, List.foldl_cons, houtcomes, Import.conf_outcomes, hcall]
      simp

end

/-! ### Entries that do not mix -/

/-- For each entry to import, the tunnel is created with what `Config.from` returns on its text
alone, and the entry is reported as failed if that throws. -/
def Unmixed (p : Platform) (entries : List ZipEntry) : Prop :=
  (importZip p entries).outcomes.map Except.toOption =
    (confs p entries).map fun conf => (Config.parse p conf.2).toOption

theorem importZip_outcomes (entries : List ZipEntry) : (importZip p entries).outcomes =
    (((confs p entries).map Prod.fst).foldl (Import.conf p)
      { input := inputOf (confs p entries) }).outcomes := by
  rw [importZip, foldl_entry]
  rfl

theorem confs_concat (entries : List ZipEntry) (last : ZipEntry) : confs p (entries ++ [last]) =
    confs p entries ++ ((last.tunnelName p).map (·, last.text)).toList := by
  cases h : last.tunnelName p <;> simp [confs, h]

/-- A call that begins with an entry returns or throws what it does on the text alone. -/
theorem fromReader_entry (text : JString) (rest : Input) :
    (Config.fromReader p (entryInput text ++ rest)).1 = Config.parse p text := by
  rw [entryInput_append, Config.fromReader, parse_eq_config]
  cases hfold : (readLines false [] text).foldlM (Reader.line p) {} with
  | error e =>
    obtain ⟨left, hleft⟩ := readAll_error hfold
    rw [hleft]
  | ok r => rw [readAll_ok hfold]

theorem unmixed_of_good {entries : List ZipEntry}
    (h : ∀ conf ∈ confs p entries, ¬ ThrowsAtLine p conf.2)
    (last : ZipEntry) : Unmixed p (entries ++ [last]) := by
  rw [Unmixed, importZip_outcomes, confs_concat]
  cases last.tunnelName p with
  | none =>
    obtain ⟨-, houtcomes⟩ := foldl_conf_aligned (s := { input := inputOf (confs p entries) }) h
      (List.append_nil _).symm
    simp [houtcomes]
  | some name =>
    have hinput : inputOf (confs p entries ++ [(name, last.text)]) =
        inputOf (confs p entries) ++ entryInput last.text := by
      simp [inputOf]
    obtain ⟨hrest, houtcomes⟩ := foldl_conf_aligned
      (s := { input := inputOf (confs p entries ++ [(name, last.text)]) }) h hinput
    have hlast := fromReader_entry (p := p) last.text []
    rw [List.append_nil, ← hrest] at hlast
    simp only [Option.map_some, Option.toList_some, List.map_append, List.foldl_append,
      List.map_cons, List.map_nil, List.foldl_cons, List.foldl_nil]
    rw [Import.conf_outcomes, houtcomes, hlast]
    simp

theorem parse_empty : Config.parse p [] = .error .noConfigInformation := rfl

theorem parse_interface : ∃ config, Config.parse p (lit "[Interface]") = .ok config := by
  have hlines : readLines false [] (lit "[Interface]") = [lit "[Interface]"] := by decide
  have hline : ({} : Reader).line p (lit "[Interface]") = .ok { current := .interface } := by
    have htrim : trim ((lit "[Interface]").takeWhile (· ≠ 35)) = lit "[Interface]" := by decide
    simp only [Reader.line, htrim, if_neg (show lit "[Interface]" ≠ [] by decide), if_true]
    rfl
  refine ⟨⟨{}, []⟩, ?_⟩
  rw [parse_eq_config, hlines, List.foldlM_cons, hline]
  rfl

/-- If an entry is rejected at a line, what the last call returns does not depend on the last
entry. -/
theorem outcome_of_bad {entries : List ZipEntry}
    (h : ∃ conf ∈ confs p entries, ThrowsAtLine p conf.2) :
    ∃ found outcome, ∀ last name, last.tunnelName p = some name →
      (importZip p (entries ++ [last])).outcomes = found ++ [outcome] := by
  obtain ⟨before, found, hbad⟩ := foldl_conf_bad h
  obtain ⟨outcome, left, hcall⟩ := readAll_behind (p := p) {} before
  refine ⟨found, outcome.bind Reader.config, fun last name hname => ?_⟩
  have hconfs : confs p (entries ++ [last]) = confs p entries ++ [(name, last.text)] := by
    rw [confs_concat, hname]
    rfl
  have hinput : inputOf (confs p entries ++ [(name, last.text)]) =
      inputOf (confs p entries) ++ entryInput last.text := by
    simp [inputOf]
  obtain ⟨hrest, houtcomes⟩ :=
    hbad { input := inputOf (confs p entries ++ [(name, last.text)]) } _ hinput
  have hread : Config.fromReader p (before ++ none :: entryInput last.text) =
      (outcome.bind Reader.config, left ++ entryInput last.text) := by
    rw [Config.fromReader, hcall]
  rw [importZip_outcomes, hconfs, List.map_append, List.foldl_append]
  change (Import.conf p _ name).outcomes = _
  rw [Import.conf_outcomes, houtcomes, hrest, hread]
  rfl

/-- Whatever the last entry is, the entries do not mix if and only if none before the last is
rejected at one of its lines. -/
theorem unmixed_iff (entries : List ZipEntry) :
    (∀ last, Unmixed p (entries ++ [last])) ↔
      ∀ entry ∈ entries, (entry.tunnelName p).isSome → ¬ ThrowsAtLine p entry.text := by
  constructor
  · intro h entry hentry hname hbad
    obtain ⟨name, hname⟩ := Option.isSome_iff_exists.mp hname
    have hmem : (name, entry.text) ∈ confs p entries :=
      List.mem_filterMap.mpr ⟨entry, hentry, by rw [hname]; rfl⟩
    obtain ⟨found, outcome, houtcome⟩ := outcome_of_bad ⟨_, hmem, hbad⟩
    -- the last entry gets the same outcome with a text that is rejected and with one that is not
    have hlast (text : JString) : outcome.toOption = (Config.parse p text).toOption := by
      have hname' : ZipEntry.tunnelName p { entry with text } = some name := hname
      have hsame := h { entry with text }
      rw [Unmixed, houtcome _ name hname', confs_concat, hname', Option.map_some,
        Option.toList_some, List.map_append, List.map_append] at hsame
      exact List.singleton_inj.mp (List.append_inj' hsame rfl).2
    obtain ⟨config, hconfig⟩ := parse_interface (p := p)
    have hboth := (hlast []).symm.trans (hlast (lit "[Interface]"))
    rw [parse_empty, hconfig] at hboth
    cases hboth
  · intro h
    refine unmixed_of_good fun conf hmem => ?_
    obtain ⟨entry, hentry, hconf⟩ := List.mem_filterMap.mp hmem
    obtain ⟨name, hname, rfl⟩ := Option.map_eq_some_iff.mp hconf
    exact h entry hentry (Option.isSome_iff_exists.mpr ⟨name, hname⟩)

end

def badFirstLine : JString := lit "MTU\n[Interface]\nMTU = 1280\n"

def onlyPort : JString := lit "[Interface]\nListenPort = 51820\n"

/-- A bad first line: what follows it in the first entry comes into the second one, also when the
reader has no end between the two. -/
theorem entries_mixed :
    (importZip plainPlatform [⟨lit "a.conf", false, badFirstLine⟩,
        ⟨lit "b.conf", false, onlyPort⟩]).futureTunnels = [(lit "b", ⟨{ mtu := 1280 }, []⟩)] ∧
    (Config.fromReader plainPlatform (Config.fromReader plainPlatform
        ((readLines false [] badFirstLine).map some ++ entryInput onlyPort)).2).1 =
      .ok ⟨{ mtu := 1280, listenPort := 51820 }, []⟩ ∧
    Config.parse plainPlatform onlyPort = .ok ⟨{ listenPort := 51820 }, []⟩ ∧
    ¬ Unmixed plainPlatform [⟨lit "a.conf", false, badFirstLine⟩,
        ⟨lit "b.conf", false, onlyPort⟩] := by
  unfold Unmixed
  decide +kernel

end Sewg.App
