import Sewg.App.Config
import Sewg.Lib.Fields

/-! What a configuration says, attribute by attribute. A text is first cut into the lines of its
sections. Each line of a section is then read on its own: it adds to one list or sets one value. -/

namespace Sewg.App

open Fields

/-! ### Sections -/

/-- The lines of the interface, and those of each peer, the latest peer first. -/
structure Sections where
  interface : List JString := []
  peers : List (List JString) := []
  current : Section := .outside

/-- A line without its comment. -/
def content (line : JString) : JString := trim (line.takeWhile (· ≠ 35))

section
variable (p : Platform)

def Sections.line (s : Sections) (line : JString) : Option Sections :=
  let line := content line
  if line = [] then some s
  else if p.locale.toLowerCase (lit "[Interface]") = p.locale.toLowerCase line then
    some { s with current := .interface }
  else if p.locale.toLowerCase (lit "[Peer]") = p.locale.toLowerCase line then
    some { s with peers := [] :: s.peers, current := .peer }
  else match s.current, s.peers with
  | .interface, _ => some { s with interface := s.interface ++ [line] }
  | .peer, lines :: peers => some { s with peers := (lines ++ [line]) :: peers }
  | _, _ => none

/-- The sections of a text, if it has any and nothing stands before them. -/
def sections (text : JString) : Option Sections := do
  let s ← (readLines false [] text).foldlM (Sections.line p) {}
  if s.current = .outside then none else some s

end

/-- A configuration from its sections, by some way to read the lines of each. -/
def Sections.read (readInterface : List JString → Option Interface)
    (readPeer : List JString → Option Peer) (s : Sections) : Option Config :=
  (readInterface s.interface).bind fun iface =>
    (s.peers.mapM readPeer).bind fun peers => some ⟨iface, peers.reverse⟩

theorem Sections.read_eq_some_iff {readInterface : List JString → Option Interface}
    {readPeer : List JString → Option Peer} {s : Sections} {config : Config} :
    s.read readInterface readPeer = some config ↔
      readInterface s.interface = some config.interfaceSection ∧
      s.peers.mapM readPeer = some config.peers.reverse := by
  obtain ⟨iface, peers⟩ := config
  unfold Sections.read
  cases readInterface s.interface with
  | none => simp
  | some iface' =>
    cases s.peers.mapM readPeer with
    | none => simp
    | some peers' => simp [List.reverse_eq_iff]

section
variable {p : Platform}

def Interface.ofLines (p : Platform) (lines : List JString) : Option Interface :=
  lines.foldlM (fun iface line => (iface.parse p line).toOption) {}

def Peer.ofLines (p : Platform) (lines : List JString) : Option Peer :=
  lines.foldlM (fun peer line => (peer.parse p line).toOption) {}

theorem toOption_bind {ε α β : Type} (x : Except ε α) (f : α → Except ε β) :
    (x.bind f).toOption = x.toOption.bind fun a => (f a).toOption := by
  cases x <;> rfl

theorem Interface.ofLines_concat (lines : List JString) (line : JString) :
    Interface.ofLines p (lines ++ [line]) =
      (Interface.ofLines p lines).bind fun iface => (iface.parse p line).toOption := by
  simp [Interface.ofLines, List.foldlM_append]

theorem Peer.ofLines_concat (lines : List JString) (line : JString) :
    Peer.ofLines p (lines ++ [line]) =
      (Peer.ofLines p lines).bind fun peer => (peer.parse p line).toOption := by
  simp [Peer.ofLines, List.foldlM_append]

/-- The variables of the loop, from the lines read so far. -/
def Sections.reader (p : Platform) (s : Sections) : Option Reader :=
  (Interface.ofLines p s.interface).bind fun iface =>
    (s.peers.mapM (Peer.ofLines p)).bind fun peers => some ⟨iface, peers, s.current⟩

/-- Reading the next line after the lines so far is reading the lines with the next one. -/
theorem reader_line (s : Sections) (line : JString) :
    (s.reader p).bind (fun r => (r.line p line).toOption) = (s.line p line).bind (·.reader p) := by
  obtain ⟨lines, peers, current⟩ := s
  unfold Sections.reader Sections.line Reader.line content
  dsimp only
  generalize trim (line.takeWhile (· ≠ 35)) = line
  by_cases hblank : line = []
  · simp only [if_pos hblank]
    exact Option.bind_fun_some _
  by_cases hinterface : p.locale.toLowerCase (lit "[Interface]") = p.locale.toLowerCase line
  · simp only [if_neg hblank, if_pos hinterface, Option.bind_some]
    cases Interface.ofLines p lines with
    | none => rfl
    | some iface => cases peers.mapM (Peer.ofLines p) <;> rfl
  by_cases hpeer : p.locale.toLowerCase (lit "[Peer]") = p.locale.toLowerCase line
  · have hnew :
        ([] :: peers).mapM (Peer.ofLines p) = (peers.mapM (Peer.ofLines p)).map ({} :: ·) := by
      rw [List.mapM_cons]
      cases peers.mapM (Peer.ofLines p) <;> rfl
    simp only [if_neg hblank, if_neg hinterface, if_pos hpeer, Option.bind_some, hnew]
    cases Interface.ofLines p lines with
    | none => rfl
    | some iface => cases peers.mapM (Peer.ofLines p) <;> rfl
  simp only [if_neg hblank, if_neg hinterface, if_neg hpeer]
  cases current with
  | outside =>
    cases Interface.ofLines p lines with
    | none => rfl
    | some iface => cases peers.mapM (Peer.ofLines p) <;> rfl
  | interface =>
    simp only [Option.bind_some, Interface.ofLines_concat]
    cases Interface.ofLines p lines with
    | none => rfl
    | some iface =>
      cases peers.mapM (Peer.ofLines p) with
      | none => cases h : (iface.parse p line).toOption <;> simp [h]
      | some ps => cases h : iface.parse p line <;> simp [h, Except.toOption]
  | peer =>
    cases peers with
    | nil => cases Interface.ofLines p lines <;> rfl
    | cons lines' peers =>
      simp only [Option.bind_some, List.mapM_cons, Peer.ofLines_concat]
      cases Interface.ofLines p lines with
      | none => rfl
      | some iface =>
        cases Peer.ofLines p lines' with
        | none => rfl
        | some peer =>
          cases peers.mapM (Peer.ofLines p) with
          | none => cases h : peer.parse p line <;> simp [h]
          | some ps => cases h : peer.parse p line <;> simp [h, Except.toOption]

theorem foldlM_reader (s : Sections) (lines : List JString) :
    (s.reader p).bind (fun r => (lines.foldlM (Reader.line p) r).toOption) =
      (lines.foldlM (Sections.line p) s).bind (·.reader p) := by
  induction lines generalizing s with
  | nil => exact Option.bind_fun_some _
  | cons line lines ih =>
    calc (s.reader p).bind (fun r => ((line :: lines).foldlM (Reader.line p) r).toOption)
        = ((s.reader p).bind fun r => (r.line p line).toOption).bind
            fun r => (lines.foldlM (Reader.line p) r).toOption := by
          rw [Option.bind_assoc]
          refine congrArg _ (funext fun r => ?_)
          rw [List.foldlM_cons]
          exact toOption_bind _ _
      _ = ((s.line p line).bind (·.reader p)).bind
            fun r => (lines.foldlM (Reader.line p) r).toOption := by rw [reader_line]
      _ = ((line :: lines).foldlM (Sections.line p) s).bind (·.reader p) := by
          rw [Option.bind_assoc, List.foldlM_cons]
          change _ = ((s.line p line).bind _).bind _
          rw [Option.bind_assoc]
          exact congrArg _ (funext ih)

/-- An accepted text is one whose sections can be read. -/
theorem parse_toOption (text : JString) : (Config.parse p text).toOption = (sections p text).bind
    (Sections.read (Interface.ofLines p) (Peer.ofLines p)) := by
  have h := foldlM_reader (p := p) {} (readLines false [] text)
  change ((readLines false [] text).foldlM (Reader.line p) {}).toOption = _ at h
  unfold Config.parse sections
  calc _ = ((readLines false [] text).foldlM (Reader.line p) {}).toOption.bind _ :=
      toOption_bind _ _
    _ = ((readLines false [] text).foldlM (Sections.line p) {}).bind _ := by
      rw [h, Option.bind_assoc]
    _ = _ := by
      change _ = (((readLines false [] text).foldlM (Sections.line p) {}).bind _).bind _
      rw [Option.bind_assoc]
      refine congrArg _ (funext fun s => ?_)
      -- both look at the section the text ends in
      unfold Sections.reader Sections.read
      by_cases hend : s.current = .outside
      · cases Interface.ofLines p s.interface with
        | none => simp [hend]
        | some iface => cases hp : s.peers.mapM (Peer.ofLines p) <;> simp [hend, Except.toOption]
      · rw [if_neg hend, Option.bind_some]
        cases Interface.ofLines p s.interface with
        | none => simp
        | some iface =>
          cases s.peers.mapM (Peer.ofLines p) with
          | none => rfl
          | some peers =>
            simp only [Option.bind_some, if_neg hend]
            rfl

/-- What an accepted text has been read from. -/
theorem parse_eq_ok_iff {text : JString} {config : Config} : Config.parse p text = .ok config ↔
    ∃ s, sections p text = some s ∧ Interface.ofLines p s.interface = some config.interfaceSection ∧
      s.peers.mapM (Peer.ofLines p) = some config.peers.reverse := by
  have hok : Config.parse p text = .ok config ↔ (Config.parse p text).toOption = some config := by
    cases Config.parse p text <;> simp [Except.toOption]
  rw [hok, parse_toOption, Option.bind_eq_some_iff]
  exact exists_congr fun s => and_congr_right fun _ => Sections.read_eq_some_iff

end

/-! ### Entries -/

/-- What one line says of an interface. -/
inductive InterfaceEntry
  | addresses (networks : List InetNetwork)
  | dnses (addresses : List InetAddress)
  | excludedApplications (applications : List JString)
  | listenPort (port : Int32)
  | mtu (mtu : Int32)
  | privateKey (key : Option Int32)
  deriving DecidableEq

/-- What one line says of a peer. -/
inductive PeerEntry
  | allowedIPs (networks : List InetNetwork)
  | endpoint (endpoint : Option InetEndpoint)
  | persistentKeepalive (interval : Int32)
  | preSharedKey (key : Option KeyText)
  | publicKey (key : Option KeyText)
  deriving DecidableEq

def Interface.put (iface : Interface) : InterfaceEntry → Interface
  | .addresses networks => { iface with addresses := iface.addresses ++ networks }
  | .dnses addresses => { iface with dnses := iface.dnses ++ addresses }
  | .excludedApplications applications =>
    { iface with excludedApplications := iface.excludedApplications ++ applications }
  | .listenPort port => { iface with listenPort := port }
  | .mtu mtu => { iface with mtu := mtu }
  | .privateKey key => { iface with privateKey := key }

def Peer.put (peer : Peer) : PeerEntry → Peer
  | .allowedIPs networks => { peer with allowedIPs := peer.allowedIPs ++ networks }
  | .endpoint endpoint => { peer with endpoint := endpoint }
  | .persistentKeepalive interval => { peer with persistentKeepalive := interval }
  | .preSharedKey key => { peer with preSharedKey := key }
  | .publicKey key => { peer with publicKey := key }

section
variable (p : Platform)

/-- The items of a value. No value has none. -/
def items (value : Option JString) : List JString := (value.map (Attribute.stringToList p)).getD []

def readEndpoint : Option JString → Except ConfigError (Option InetEndpoint)
  | none => .ok none
  | some [] => .ok none
  | some text => (InetEndpoint.parse p text).map some

def InterfaceEntry.read (a : Attribute) (value : Option JString) : Option InterfaceEntry :=
  match a with
  | .address => ((items p value).mapM (parseInterfaceAddress p)).toOption.map .addresses
  | .dns => ((items p value).mapM (parseAddress p)).toOption.map .dnses
  | .excludedApplications => some (.excludedApplications (items p value))
  | .listenPort => (intOrZero p value).toOption.map .listenPort
  | .mtu => (intOrZero p value).toOption.map .mtu
  | .privateKey => (parsePrivateKey p value).toOption.map .privateKey
  | _ => none

def PeerEntry.read (a : Attribute) (value : Option JString) : Option PeerEntry :=
  match a with
  | .allowedIPs => ((items p value).mapM (InetNetwork.parse p)).toOption.map .allowedIPs
  | .endpoint => (readEndpoint p value).toOption.map .endpoint
  | .persistentKeepalive => (intOrZero p value).toOption.map .persistentKeepalive
  | .presharedKey => (KeyText.parse value).toOption.map .preSharedKey
  | .publicKey => (KeyText.parse value).toOption.map .publicKey
  | _ => none

/-- The attribute that a line names. -/
def attributeOf (line : JString) : Option Attribute := (Attribute.ofLine p line).toOption.join

/-- What a line says, by some way to take the value of an attribute from it. -/
def InterfaceEntry.ofLine (value : Attribute → JString → Option JString) (line : JString) :
    Option InterfaceEntry :=
  (attributeOf p line).bind fun a => InterfaceEntry.read p a (value a line)

def PeerEntry.ofLine (value : Attribute → JString → Option JString) (line : JString) :
    Option PeerEntry :=
  (attributeOf p line).bind fun a => PeerEntry.read p a (value a line)

end

section
variable {p : Platform}

theorem token_graphic (a : Attribute) :
    ∀ c ∈ lit a.token, 32 < c ∧ c < 127 ∧ c ≠ 35 ∧ c ≠ 61 ∧ c ≠ 91 := by
  have hall : (lit a.token).all (fun c => 32 < c ∧ c < 127 ∧ c ≠ 35 ∧ c ≠ 61 ∧ c ≠ 91) = true := by
    cases a <;> decide
  intro c hc
  simpa using List.all_eq_true.mp hall c hc

theorem dropWhile_append_of_all {q : UInt16 → Bool} {s t : JString} (h : ∀ c ∈ s, q c = true) :
    (s ++ t).dropWhile q = t.dropWhile q := by
  induction s with
  | nil => rfl
  | cons c s ih =>
    obtain ⟨hc, hs⟩ := List.forall_mem_cons.mp h
    rw [List.cons_append, List.dropWhile_cons_of_pos hc, ih hs]

theorem toOption_put {ε α β σ : Type} (x : Except ε α) (entry : α → β) (put : β → σ) :
    (x.bind fun a => .ok (put (entry a))).toOption = (x.toOption.map entry).map put := by
  cases x <;> rfl

theorem Interface.parse_toOption (iface : Interface) (line : JString) :
    (iface.parse p line).toOption =
      (InterfaceEntry.ofLine p (Attribute.parse p) line).map iface.put := by
  unfold Interface.parse InterfaceEntry.ofLine attributeOf
  cases Attribute.ofLine p line with
  | error => rfl
  | ok a =>
    cases a with
    | none => rfl
    | some a =>
      cases a with
      | address => exact toOption_put _ InterfaceEntry.addresses iface.put
      | dns => exact toOption_put _ InterfaceEntry.dnses iface.put
      | listenPort => exact toOption_put _ InterfaceEntry.listenPort iface.put
      | mtu => exact toOption_put _ InterfaceEntry.mtu iface.put
      | privateKey => exact toOption_put _ InterfaceEntry.privateKey iface.put
      | excludedApplications | allowedIPs | endpoint | persistentKeepalive | presharedKey
      | publicKey => rfl

theorem Peer.parse_toOption (peer : Peer) (line : JString) :
    (peer.parse p line).toOption = (PeerEntry.ofLine p (Attribute.parse p) line).map peer.put := by
  unfold Peer.parse PeerEntry.ofLine attributeOf
  cases Attribute.ofLine p line with
  | error => rfl
  | ok a =>
    cases a with
    | none => rfl
    | some a =>
      cases a with
      | allowedIPs => exact toOption_put _ PeerEntry.allowedIPs peer.put
      | endpoint =>
        change Except.toOption (match Attribute.endpoint.parse p line with
          | none => .ok { peer with endpoint := none }
          | some [] => .ok { peer with endpoint := none }
          | some text => (InetEndpoint.parse p text).bind fun endpoint =>
            .ok { peer with endpoint := some endpoint }) =
          ((readEndpoint p (Attribute.endpoint.parse p line)).toOption.map
            PeerEntry.endpoint).map peer.put
        rcases Attribute.endpoint.parse p line with _ | _ | ⟨c, text⟩
        · rfl
        · rfl
        · simp only [readEndpoint]
          cases InetEndpoint.parse p (c :: text) <;> rfl
      | persistentKeepalive => exact toOption_put _ PeerEntry.persistentKeepalive peer.put
      | presharedKey => exact toOption_put _ PeerEntry.preSharedKey peer.put
      | publicKey => exact toOption_put _ PeerEntry.publicKey peer.put
      | address | dns | excludedApplications | listenPort | mtu | privateKey => rfl

/-! ### Fields -/

namespace InterfaceEntry

def addressList : InterfaceEntry → List InetNetwork
  | addresses networks => networks
  | _ => []

def dnsList : InterfaceEntry → List InetAddress
  | dnses servers => servers
  | _ => []

def applicationList : InterfaceEntry → List JString
  | excludedApplications applications => applications
  | _ => []

def listenPort? : InterfaceEntry → Option Int32
  | listenPort port => some port
  | _ => none

def mtu? : InterfaceEntry → Option Int32
  | mtu size => some size
  | _ => none

def privateKey? : InterfaceEntry → Option (Option Int32)
  | privateKey key => some key
  | _ => none

end InterfaceEntry

namespace PeerEntry

def allowedIPList : PeerEntry → List InetNetwork
  | allowedIPs networks => networks
  | _ => []

def endpoint? : PeerEntry → Option (Option InetEndpoint)
  | endpoint found => some found
  | _ => none

def persistentKeepalive? : PeerEntry → Option Int32
  | persistentKeepalive interval => some interval
  | _ => none

def preSharedKey? : PeerEntry → Option (Option KeyText)
  | preSharedKey key => some key
  | _ => none

def publicKey? : PeerEntry → Option (Option KeyText)
  | publicKey key => some key
  | _ => none

end PeerEntry

theorem Interface.foldl_put (entries : List InterfaceEntry) :
    entries.foldl Interface.put {} =
      { addresses := entries.flatMap InterfaceEntry.addressList
        dnses := entries.flatMap InterfaceEntry.dnsList
        excludedApplications := entries.flatMap InterfaceEntry.applicationList
        privateKey := latest InterfaceEntry.privateKey? none entries
        listenPort := latest InterfaceEntry.listenPort? 0 entries
        mtu := latest InterfaceEntry.mtu? 0 entries } := by
  induction entries using List.reverseRecOn with
  | nil => rfl
  | append_singleton entries entry ih =>
    rw [List.foldl_append, ih]
    cases entry <;>
      simp [Interface.put, latest_concat, InterfaceEntry.addressList, InterfaceEntry.dnsList,
        InterfaceEntry.applicationList, InterfaceEntry.privateKey?, InterfaceEntry.listenPort?,
        InterfaceEntry.mtu?]

theorem Peer.foldl_put (entries : List PeerEntry) :
    entries.foldl Peer.put {} =
      { allowedIPs := entries.flatMap PeerEntry.allowedIPList
        endpoint := latest PeerEntry.endpoint? none entries
        persistentKeepalive := latest PeerEntry.persistentKeepalive? 0 entries
        preSharedKey := latest PeerEntry.preSharedKey? none entries
        publicKey := latest PeerEntry.publicKey? none entries } := by
  induction entries using List.reverseRecOn with
  | nil => rfl
  | append_singleton entries entry ih =>
    rw [List.foldl_append, ih]
    cases entry <;>
      simp [Peer.put, latest_concat, PeerEntry.allowedIPList, PeerEntry.endpoint?,
        PeerEntry.persistentKeepalive?, PeerEntry.preSharedKey?, PeerEntry.publicKey?]

theorem Interface.ofLines_eq_some_iff {lines : List JString} {iface : Interface} :
    Interface.ofLines p lines = some iface ↔
      (∀ line ∈ lines, (InterfaceEntry.ofLine p (Attribute.parse p) line).isSome) ∧
      (lines.filterMap (InterfaceEntry.ofLine p (Attribute.parse p))).foldl
        Interface.put {} = iface := by
  have h := foldlM_put_eq_some_iff Interface.put
    (InterfaceEntry.ofLine p (Attribute.parse p)) {} iface lines
  simp only [← Interface.parse_toOption] at h
  exact h

theorem Peer.ofLines_eq_some_iff {lines : List JString} {peer : Peer} :
    Peer.ofLines p lines = some peer ↔
      (∀ line ∈ lines, (PeerEntry.ofLine p (Attribute.parse p) line).isSome) ∧
      (lines.filterMap (PeerEntry.ofLine p (Attribute.parse p))).foldl Peer.put {} = peer := by
  have h := foldlM_put_eq_some_iff Peer.put (PeerEntry.ofLine p (Attribute.parse p)) {} peer lines
  simp only [← Peer.parse_toOption] at h
  exact h

end

end Sewg.App
