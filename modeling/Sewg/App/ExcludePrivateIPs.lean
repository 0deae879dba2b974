import Mathlib.Data.List.TakeWhile
import Sewg.App.IgnoredLines

/-! The switch in the editor of a peer that takes the private IPv4 networks out of the allowed
IPs, and puts them back. The allowed IPs are a text, which is read as a set of strings. -/

namespace Sewg.App

/-- `Attribute.iterableToString`, on the texts of the elements. -/
def iterableToString (texts : List JString) : JString := (lit ", ").intercalate texts

namespace Peer

/-- `Peer.Observable`, as far as the switch uses it. A null string is the empty one. -/
structure Observable where
  allowedIPs : JString
  interfaceDNSRoutes : List JString := []
  numSiblings : Int := 0

def DEFAULT_ROUTE_V4 : JString := lit "0.0.0.0/0"

def DEFAULT_ROUTE_MOD_RFC1918_V4 : List JString :=
  [lit "0.0.0.0/5", lit "8.0.0.0/7", lit "11.0.0.0/8", lit "12.0.0.0/6", lit "16.0.0.0/4",
    lit "32.0.0.0/3", lit "64.0.0.0/2", lit "128.0.0.0/3", lit "160.0.0.0/5", lit "168.0.0.0/6",
    lit "172.0.0.0/12", lit "172.32.0.0/11", lit "172.64.0.0/10", lit "172.128.0.0/9",
    lit "173.0.0.0/8", lit "174.0.0.0/7", lit "176.0.0.0/4", lit "192.0.0.0/9",
    lit "192.128.0.0/11", lit "192.160.0.0/13", lit "192.169.0.0/16", lit "192.170.0.0/15",
    lit "192.172.0.0/14", lit "192.176.0.0/12", lit "192.192.0.0/10", lit "193.0.0.0/8",
    lit "194.0.0.0/7", lit "196.0.0.0/6", lit "200.0.0.0/5", lit "208.0.0.0/4"]

/-- `ip.contains(":")` -/
def hasColon (ip : JString) : Bool := 58 ∈ ip

/-- The order in which a `HashSet` gives back the strings that were put into it. -/
structure HashOrder where
  order : List JString → List JString
  mem_order : ∀ ips ip, ip ∈ order ips ↔ ip ∈ ips

namespace Observable
variable (p : Platform) (hash : HashOrder) (o : Observable)

def ips : List JString := Attribute.stringToList p o.allowedIPs

def toggleExcludePrivateIPs : Observable :=
  let ips := o.ips p
  let hasDefaultRoute := DEFAULT_ROUTE_V4 ∈ ips
  let hasDefaultRouteModRFC1918 := DEFAULT_ROUTE_MOD_RFC1918_V4 ⊆ ips
  if (¬ hasDefaultRoute ∧ ¬ hasDefaultRouteModRFC1918) ∨ o.numSiblings > 0 then o
  else
    let ips := ips.filter hasColon
    let ips :=
      if hasDefaultRoute then ips ++ DEFAULT_ROUTE_MOD_RFC1918_V4 ++ o.interfaceDNSRoutes
      else if hasDefaultRouteModRFC1918 then ips ++ [DEFAULT_ROUTE_V4]
      else ips
    { o with allowedIPs := iterableToString (hash.order ips) }

def canToggleExcludePrivateIPs : Bool :=
  o.numSiblings = 0 ∧ (DEFAULT_ROUTE_V4 ∈ o.ips p ∨ DEFAULT_ROUTE_MOD_RFC1918_V4 ⊆ o.ips p)

def setInterfaceDNSRoutes (dnsServers : JString) : Observable :=
  let modifyAllowedIPs := DEFAULT_ROUTE_MOD_RFC1918_V4 ⊆ o.ips p
  let ips := (o.ips p).filter (· ∉ o.interfaceDNSRoutes)
  let interfaceDNSRoutes :=
    ((Attribute.stringToList p dnsServers).filter fun d => !hasColon d).map (· ++ lit "/32")
  if modifyAllowedIPs then
    { o with
      interfaceDNSRoutes, allowedIPs := iterableToString (hash.order (ips ++ interfaceDNSRoutes)) }
  else { o with interfaceDNSRoutes }

end Observable
end Peer

/-! ## Lists as text -/

/-- A text that is read back from a list: no blanks at its ends, and no comma. -/
structure Plain (p : Platform) (s : JString) : Prop where
  comma : 44 ∉ s
  first : ∃ c rest, s = c :: rest ∧ 32 < c ∧ p.isSpace c = false
  last : ∃ rest c, s = rest ++ [c] ∧ 32 < c ∧ p.isSpace c = false

section
variable {p : Platform} {s x : JString} {xs : List JString}

theorem Plain.trimStart (h : Plain p s) : Attribute.trimStart p s = s := by
  obtain ⟨c, rest, rfl, -, hc⟩ := h.first
  simp [Attribute.trimStart, hc]

theorem Plain.trimEnd (h : Plain p s) : Attribute.trimEnd p s = s := by
  obtain ⟨rest, c, rfl, -, hc⟩ := h.last
  simp [Attribute.trimEnd, hc]

theorem Plain.ne_nil (h : Plain p s) : s ≠ [] := by
  obtain ⟨c, rest, rfl, -⟩ := h.first
  exact List.cons_ne_nil c rest

theorem splitResult_eq (h : ∀ y ∈ xs, y ≠ []) : splitResult xs = xs := by
  unfold splitResult
  split
  · rfl
  · rw [List.reverse_eq_iff, List.dropWhile_eq_self_iff]
    intro hl
    simpa using h _ (List.mem_reverse.mp (List.getElem_mem hl))

theorem iterableToString_cons_cons (x y : JString) (xs : List JString) :
    iterableToString (x :: y :: xs) = x ++ 44 :: 32 :: iterableToString (y :: xs) := by
  rw [iterableToString, List.intercalate_cons_cons, List.append_assoc]
  rfl

/-- The blank behind a comma may as well belong to the next piece. -/
theorem iterableToString_eq (x : JString) (xs : List JString) :
    iterableToString (x :: xs) = [44].intercalate (x :: xs.map (32 :: ·)) := by
  have blank : ∀ (y : JString) (ys : List JString), [44].intercalate ((32 :: y) :: ys) =
      32 :: [44].intercalate (y :: ys) := by
    intro y ys
    cases ys <;> simp [List.intercalate_cons_cons]
  induction xs generalizing x with
  | nil => simp [iterableToString]
  | cons y xs ih =>
    rw [iterableToString_cons_cons, ih, List.map_cons, List.intercalate_cons_cons, blank]
    simp

theorem iterableToString_ends (h : ∀ y ∈ x :: xs, Plain p y) :
    (∃ c rest, iterableToString (x :: xs) = c :: rest ∧ 32 < c) ∧
      ∃ rest c, iterableToString (x :: xs) = rest ++ [c] ∧ 32 < c := by
  induction xs generalizing x with
  | nil =>
    have hx := h x List.mem_cons_self
    obtain ⟨c, rest, hfirst, hc, -⟩ := hx.first
    obtain ⟨rest', c', hlast, hc', -⟩ := hx.last
    simp only [iterableToString, List.intercalate_singleton]
    exact ⟨⟨c, rest, hfirst, hc⟩, rest', c', hlast, hc'⟩
  | cons y xs ih =>
    obtain ⟨hx, hxs⟩ := List.forall_mem_cons.mp h
    obtain ⟨c, rest, hfirst, hc, -⟩ := hx.first
    obtain ⟨-, rest', c', hlast, hc'⟩ := ih hxs
    rw [iterableToString_cons_cons]
    refine ⟨⟨c, _, by rw [hfirst, List.cons_append], hc⟩, x ++ 44 :: 32 :: rest', c', ?_, hc'⟩
    rw [hlast]
    simp

theorem stringToList_iterableToString (hspace : p.isSpace 32 = true) (hne : xs ≠ [])
    (h : ∀ y ∈ xs, Plain p y) : Attribute.stringToList p (iterableToString xs) = xs := by
  obtain ⟨x, xs, rfl⟩ := List.exists_cons_of_ne_nil hne
  obtain ⟨⟨c, rest, hfirst, hc⟩, rest', c', hlast, hc'⟩ := iterableToString_ends h
  have trimmed : trim (iterableToString (x :: xs)) = iterableToString (x :: xs) := by
    have start : (iterableToString (x :: xs)).dropWhile (· ≤ 32) = iterableToString (x :: xs) := by
      rw [hfirst, List.dropWhile_cons_of_neg (by simpa using hc)]
    rw [trim, start, hlast]
    simp [UInt16.not_le.mpr hc']
  have pieces : (iterableToString (x :: xs)).splitOn 44 = x :: xs.map (32 :: ·) := by
    rw [iterableToString_eq]
    apply List.splitOn_intercalate
    · rw [List.forall_mem_cons, List.forall_mem_map]
      refine ⟨(h x List.mem_cons_self).comma, ?_⟩
      intro y hy
      simpa using (h y (List.mem_cons_of_mem x hy)).comma
    · exact List.cons_ne_nil _ _
  have nonempty : iterableToString (x :: xs) ≠ [] := by simp [hfirst]
  have read : ((x :: xs.map (32 :: ·)).mapIdx fun i piece =>
      let piece := if i = 0 then piece else Attribute.trimStart p piece
      if i + 1 = (x :: xs.map (32 :: ·)).length then piece
          else Attribute.trimEnd p piece) = x :: xs := by
    apply List.ext_getElem
    · simp
    · intro i hi hi'
      have plain := h _ (List.getElem_mem hi')
      cases i with
      | zero =>
        simp only [List.getElem_cons_zero] at plain
        simp only [List.getElem_mapIdx, List.getElem_cons_zero, ↓reduceIte, plain.trimEnd, ite_self]
      | succ i =>
        have hlt : i < xs.length := by simpa using hi'
        simp only [List.getElem_cons_succ] at plain
        have blank : Attribute.trimStart p (32 :: xs[i]) = xs[i] :=
          (List.dropWhile_cons_of_pos hspace).trans plain.trimStart
        simp only [List.getElem_mapIdx, List.getElem_cons_succ, List.getElem_map, blank,
          plain.trimEnd, ite_self, Nat.add_eq_zero_iff, Nat.one_ne_zero, and_false, ↓reduceIte]
  simp only [Attribute.stringToList, if_neg nonempty, trimmed, pieces, read]
  exact splitResult_eq fun y hy => (h y hy).ne_nil
end

namespace Peer

/-- Printable characters of ASCII without a comma, as in the routes of the source. -/
def isRoute (s : JString) : Bool := s ≠ [] && s.all fun c => 32 < c && c < 127 && c ≠ 44

theorem isRoute_plain {p : Platform} (ascii : ∀ c, 32 < c → c < 127 → p.isSpace c = false)
    {s : JString} (h : isRoute s = true) : Plain p s := by
  simp only [isRoute, Bool.and_eq_true, decide_eq_true_eq, List.all_eq_true] at h
  obtain ⟨hne, hall⟩ := h
  have good : ∀ c ∈ s, 32 < c ∧ p.isSpace c = false := fun c hc =>
    ⟨(hall c hc).1.1, ascii c (hall c hc).1.1 (hall c hc).1.2⟩
  refine ⟨fun hc => (hall 44 hc).2 rfl, ?_, ?_⟩
  · obtain ⟨c, rest, rfl⟩ := List.exists_cons_of_ne_nil hne
    exact ⟨c, rest, rfl, good c List.mem_cons_self⟩
  · exact ⟨s.dropLast, s.getLast hne, (List.dropLast_concat_getLast hne).symm,
      good _ (List.getLast_mem hne)⟩

/-- The routes of the source are IPv4, and the default route is none of those that replace it. -/
theorem routes_table :
    (isRoute DEFAULT_ROUTE_V4 = true ∧ hasColon DEFAULT_ROUTE_V4 = false) ∧
      ∀ ip ∈ DEFAULT_ROUTE_MOD_RFC1918_V4, isRoute ip = true ∧ hasColon ip = false ∧
        ip ≠ DEFAULT_ROUTE_V4 := by
  have table : (DEFAULT_ROUTE_MOD_RFC1918_V4.all fun ip =>
      isRoute ip && !hasColon ip && ip ≠ DEFAULT_ROUTE_V4) = true := by decide +kernel
  refine ⟨by decide +kernel, ?_⟩
  intro ip hip
  simpa [and_assoc] using List.all_eq_true.mp table ip hip

namespace Observable
variable {p : Platform} {hash : HashOrder} {o : Observable}

/-- The IPv4 entries are what the switch itself would have put there. -/
def Standard (p : Platform) (o : Observable) : Prop :=
  ∀ ip, hasColon ip = false → (ip ∈ o.ips p ↔
    if DEFAULT_ROUTE_V4 ∈ o.ips p then ip = DEFAULT_ROUTE_V4
    else ip ∈ DEFAULT_ROUTE_MOD_RFC1918_V4 ∨ ip ∈ o.interfaceDNSRoutes)

/-- Twice is as if not at all, and nothing with a colon gets lost. -/
def Reversible (p : Platform) (hash : HashOrder) (o : Observable) : Prop :=
  let once := o.toggleExcludePrivateIPs p hash
  let twice := once.toggleExcludePrivateIPs p hash
  (∀ ip, ip ∈ twice.ips p ↔ ip ∈ o.ips p) ∧
  (∀ ip ∈ o.ips p, hasColon ip = true → ip ∈ once.ips p) ∧
  ∀ ip ∈ once.ips p, hasColon ip = true → ip ∈ twice.ips p

/-- The entries that stay, and the routes of the DNS servers, can be written into a list. The white
space of the platform has the blank and no printable character. -/
structure Written (p : Platform) (o : Observable) : Prop where
  blank : p.isSpace 32 = true
  ascii : ∀ c, 32 < c → c < 127 → p.isSpace c = false
  colons : ∀ ip ∈ o.ips p, hasColon ip = true → Plain p ip
  routes : ∀ ip ∈ o.interfaceDNSRoutes, Plain p ip

/-- Routes to single IPv4 addresses. -/
def HostRoutes (o : Observable) : Prop :=
  ∀ ip ∈ o.interfaceDNSRoutes, hasColon ip = false ∧ ip ≠ DEFAULT_ROUTE_V4

theorem setInterfaceDNSRoutes_hosts (dnsServers : JString) :
    HostRoutes (o.setInterfaceDNSRoutes p hash dnsServers) := by
  have routes : (o.setInterfaceDNSRoutes p hash dnsServers).interfaceDNSRoutes =
      ((Attribute.stringToList p dnsServers).filter fun d => !hasColon d).map (· ++ lit "/32") := by
    unfold setInterfaceDNSRoutes
    dsimp only
    split <;> rfl
  intro ip hip
  rw [routes] at hip
  obtain ⟨d, hd, rfl⟩ := List.mem_map.mp hip
  have hd := (List.mem_filter.mp hd).2
  constructor
  · have none : 58 ∉ lit "/32" := by decide
    simpa [hasColon, none] using hd
  · intro h
    have last : List.getLast? (lit "/32") = some 50 ∧ List.getLast? DEFAULT_ROUTE_V4 = some 48 := by
      decide
    have h := congrArg List.getLast? h
    rw [List.getLast?_append, last.1, last.2, Option.some_or] at h
    cases h

/-- What the switch makes of the allowed IPs. -/
def replaced (p : Platform) (o : Observable) : List JString :=
  (o.ips p).filter hasColon ++
    if DEFAULT_ROUTE_V4 ∈ o.ips p then DEFAULT_ROUTE_MOD_RFC1918_V4 ++ o.interfaceDNSRoutes
      else [DEFAULT_ROUTE_V4]

theorem toggle_eq (can : o.canToggleExcludePrivateIPs p = true) :
    o.toggleExcludePrivateIPs p hash =
      { o with allowedIPs := iterableToString (hash.order (o.replaced p)) } := by
  obtain ⟨alone, can⟩ := of_decide_eq_true can
  unfold toggleExcludePrivateIPs replaced
  dsimp only
  rw [if_neg (by rintro (⟨hd, hm⟩ | siblings); exacts [can.elim hd hm, by omega])]
  by_cases hd : DEFAULT_ROUTE_V4 ∈ o.ips p
  · simp [hd]
  · simp [hd, can.resolve_left hd]

theorem mem_replaced (ip : JString) : ip ∈ o.replaced p ↔ (ip ∈ o.ips p ∧ hasColon ip = true) ∨
    if DEFAULT_ROUTE_V4 ∈ o.ips p then ip ∈ DEFAULT_ROUTE_MOD_RFC1918_V4 ∨ ip ∈ o.interfaceDNSRoutes
    else ip = DEFAULT_ROUTE_V4 := by
  unfold replaced
  split <;> simp [*]

theorem mem_toggle (can : o.canToggleExcludePrivateIPs p = true) (h : o.Written p) (ip : JString) :
    ip ∈ (o.toggleExcludePrivateIPs p hash).ips p ↔ ip ∈ o.replaced p := by
  have plain : ∀ ip ∈ hash.order (o.replaced p), Plain p ip := by
    intro ip hip
    rw [hash.mem_order, replaced, List.mem_append] at hip
    rcases hip with hip | hip
    · obtain ⟨hip, colon⟩ := List.mem_filter.mp hip
      exact h.colons ip hip colon
    · split at hip
      · rcases List.mem_append.mp hip with hip | hip
        · exact isRoute_plain h.ascii (routes_table.2 ip hip).1
        · exact h.routes ip hip
      · rw [List.mem_singleton.mp hip]
        exact isRoute_plain h.ascii routes_table.1.1
  have nonempty : hash.order (o.replaced p) ≠ [] := by
    obtain ⟨ip, hip⟩ : ∃ ip, ip ∈ o.replaced p := by
      unfold replaced
      split
      · exact ⟨lit "0.0.0.0/5", by simp [DEFAULT_ROUTE_MOD_RFC1918_V4]⟩
      · exact ⟨DEFAULT_ROUTE_V4, by simp⟩
    exact List.ne_nil_of_mem ((hash.mem_order _ _).mpr hip)
  rw [toggle_eq can, ips, stringToList_iterableToString h.blank nonempty plain, hash.mem_order]

theorem colon_not_route (hosts : o.HostRoutes) {ip : JString} (colon : hasColon ip = true) :
    ip ∉ DEFAULT_ROUTE_MOD_RFC1918_V4 ∧ ip ∉ o.interfaceDNSRoutes ∧ ip ≠ DEFAULT_ROUTE_V4 := by
  refine ⟨fun hm => ?_, fun hr => ?_, ?_⟩
  · simp [(routes_table.2 ip hm).2.1] at colon
  · simp [(hosts ip hr).1] at colon
  · rintro rfl
    simp [routes_table.1.2] at colon

/-- Entries with a colon stay, and there are no new ones. -/
theorem colon_mem_toggle (can : o.canToggleExcludePrivateIPs p = true) (h : o.Written p)
    (hosts : o.HostRoutes) {ip : JString} (colon : hasColon ip = true) :
    ip ∈ (o.toggleExcludePrivateIPs p hash).ips p ↔ ip ∈ o.ips p := by
  obtain ⟨hm, hr, hd⟩ := colon_not_route hosts colon
  rw [mem_toggle can h, mem_replaced]
  split <;> simp [*]

/-- The switch can be used again, and is then the other way round. -/
theorem toggle_again (can : o.canToggleExcludePrivateIPs p = true) (h : o.Written p)
    (hosts : o.HostRoutes) :
    let once := o.toggleExcludePrivateIPs p hash
    once.canToggleExcludePrivateIPs p = true ∧ once.Written p ∧
      once.interfaceDNSRoutes = o.interfaceDNSRoutes ∧
      (DEFAULT_ROUTE_V4 ∈ once.ips p ↔ DEFAULT_ROUTE_V4 ∉ o.ips p) := by
  intro once
  have eq : once = _ := toggle_eq can
  have mem : ∀ ip, ip ∈ once.ips p ↔ _ := fun ip => (mem_toggle can h ip).trans (mem_replaced ip)
  have default : DEFAULT_ROUTE_V4 ∈ once.ips p ↔ DEFAULT_ROUTE_V4 ∉ o.ips p := by
    rw [mem, routes_table.1.2]
    split
    · rename_i hd
      simp only [Bool.false_eq_true, and_false, false_or, hd, not_true_eq_false, iff_false, not_or]
      exact ⟨fun hm => (routes_table.2 _ hm).2.2 rfl, fun hr => (hosts _ hr).2 rfl⟩
    · rename_i hd
      simp [hd]
  refine ⟨decide_eq_true ⟨by rw [eq]; exact (of_decide_eq_true can).1, ?_⟩,
    ⟨h.blank, h.ascii, ?_, ?_⟩, ?_, default⟩
  · by_cases hd : DEFAULT_ROUTE_V4 ∈ o.ips p
    · right
      intro ip hip
      rw [mem, if_pos hd]
      exact .inr (.inl hip)
    · exact .inl (default.mpr hd)
  · intro ip hip colon
    exact h.colons ip ((colon_mem_toggle can h hosts colon).mp hip) colon
  · rw [eq]
    exact h.routes
  · rw [eq]

theorem mem_toggle_twice (can : o.canToggleExcludePrivateIPs p = true) (h : o.Written p)
    (hosts : o.HostRoutes) (ip : JString) :
    ip ∈ ((o.toggleExcludePrivateIPs p hash).toggleExcludePrivateIPs p hash).ips p ↔
      (ip ∈ o.ips p ∧ hasColon ip = true) ∨
        if DEFAULT_ROUTE_V4 ∈ o.ips p then ip = DEFAULT_ROUTE_V4
        else ip ∈ DEFAULT_ROUTE_MOD_RFC1918_V4 ∨ ip ∈ o.interfaceDNSRoutes := by
  obtain ⟨can', h', routes, default⟩ := @toggle_again p hash o can h hosts
  have kept : (ip ∈ (o.toggleExcludePrivateIPs p hash).ips p ∧ hasColon ip = true) ↔
      ip ∈ o.ips p ∧ hasColon ip = true :=
    and_congr_left fun colon => colon_mem_toggle can h hosts colon
  rw [mem_toggle can' h', mem_replaced, kept, routes]
  by_cases hd : DEFAULT_ROUTE_V4 ∈ o.ips p
  · rw [if_neg fun h => default.mp h hd, if_pos hd]
  · rw [if_pos (default.mpr hd), if_neg hd]

/-- Toggling twice gives the same allowed IPs back exactly when the IPv4 entries are those that the
switch puts there itself. All others get lost. -/
theorem toggle_reversible_iff (o₀ : Observable) (dnsServers : JString)
    (can : (o₀.setInterfaceDNSRoutes p hash dnsServers).canToggleExcludePrivateIPs p = true)
    (h : (o₀.setInterfaceDNSRoutes p hash dnsServers).Written p) :
    (o₀.setInterfaceDNSRoutes p hash dnsServers).Reversible p hash ↔
      (o₀.setInterfaceDNSRoutes p hash dnsServers).Standard p := by
  have hosts : (o₀.setInterfaceDNSRoutes p hash dnsServers).HostRoutes :=
    setInterfaceDNSRoutes_hosts dnsServers
  generalize o₀.setInterfaceDNSRoutes p hash dnsServers = o at can h hosts
  obtain ⟨can', h', routes, -⟩ := @toggle_again p hash o can h hosts
  have keeps := fun ip colon => (@colon_mem_toggle p hash o can h hosts ip colon).mpr
  have hosts' : (o.toggleExcludePrivateIPs p hash).HostRoutes := by
    rw [HostRoutes, routes]
    exact hosts
  have again := fun ip colon => (@colon_mem_toggle p hash _ can' h' hosts' ip colon).mpr
  have twice := @mem_toggle_twice p hash o can h hosts
  constructor
  · rintro ⟨same, -⟩ ip four
    rw [← same ip, twice ip]
    simp [four]
  · intro standard
    refine ⟨?_, fun ip hip colon => keeps ip colon hip, fun ip hip colon => again ip colon hip⟩
    intro ip
    rw [twice ip]
    cases colon : hasColon ip with
    | false => simpa using (standard ip colon).symm
    | true =>
      obtain ⟨hm, hr, hd⟩ := colon_not_route hosts colon
      split <;> simp [*]

theorem written_ascii (h : ((o.ips plainPlatform ++ o.interfaceDNSRoutes).all isRoute) = true) :
    o.Written plainPlatform := by
  have ascii : ∀ c, 32 < c → c < 127 → plainPlatform.isSpace c = false :=
    fun c hc _ => plainPlatform_isSpace c hc
  have plain :
      ∀ ip ∈ o.ips plainPlatform ++ o.interfaceDNSRoutes, Plain plainPlatform ip := fun ip hip =>
    isRoute_plain ascii (List.all_eq_true.mp h ip hip)
  exact ⟨by decide, ascii, fun ip hip _ => plain ip (List.mem_append_left _ hip),
    fun ip hip => plain ip (List.mem_append_right _ hip)⟩

/-- A set that gives back its strings in the order in which they were put there. -/
def inOrder : HashOrder := ⟨id, fun _ _ => Iff.rfl⟩

/-- Everything goes through the tunnel, and a second route says so for one private address. -/
def everything : Observable :=
  setInterfaceDNSRoutes plainPlatform inOrder
    ⟨lit "0.0.0.0/0, 10.0.0.1/32, ::/0", [], 0⟩ (lit "8.8.8.8")

/-- The second route does not come back. -/
theorem toggle_loses_route :
    everything.canToggleExcludePrivateIPs plainPlatform = true ∧
      lit "10.0.0.1/32" ∈ everything.ips plainPlatform ∧
      lit "10.0.0.1/32" ∉
        ((everything.toggleExcludePrivateIPs plainPlatform inOrder).toggleExcludePrivateIPs
        plainPlatform inOrder).ips plainPlatform ∧
      ¬ everything.Reversible plainPlatform inOrder := by
  have can : everything.canToggleExcludePrivateIPs plainPlatform = true := by decide +kernel
  have here : lit "10.0.0.1/32" ∈ everything.ips plainPlatform := by decide +kernel
  have default : DEFAULT_ROUTE_V4 ∈ everything.ips plainPlatform := by decide +kernel
  have lost :
      lit "10.0.0.1/32" ∉
        ((everything.toggleExcludePrivateIPs plainPlatform inOrder).toggleExcludePrivateIPs
      plainPlatform inOrder).ips plainPlatform := by
    rw [mem_toggle_twice can (written_ascii (by decide +kernel))
      (setInterfaceDNSRoutes_hosts _), if_pos default]
    decide
  exact ⟨can, here, lost, fun reversible => lost ((reversible.1 _).mpr here)⟩

theorem toggle_default_routes :
    (setInterfaceDNSRoutes plainPlatform inOrder ⟨lit "0.0.0.0/0, ::/0", [], 0⟩
      (lit "8.8.8.8")).Reversible plainPlatform inOrder := by
  have ips :
      (setInterfaceDNSRoutes plainPlatform inOrder ⟨lit "0.0.0.0/0, ::/0", [], 0⟩
        (lit "8.8.8.8")).ips
      plainPlatform = [DEFAULT_ROUTE_V4, lit "::/0"] := by decide +kernel
  apply (toggle_reversible_iff _ _ (by decide +kernel) (written_ascii (by decide +kernel))).mpr
  intro ip four
  have six : ip ≠ lit "::/0" := by
    rintro rfl
    exact absurd four (by decide)
  simp [ips, six]

end Observable
end Peer
end Sewg.App
