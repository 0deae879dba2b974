import Sewg.Kernel.Counter
import Sewg.Lib.Apart

/-! `wg_packet_send_staged_packets` of `send.c`, called from several contexts at once. A
call takes the whole queue, numbers its packets one by one from the counter of the
current keypair, and hands them over together or puts them back. -/

namespace Sewg.Kernel

def MAX_STAGED_PACKETS : Nat := 128

/-- `keypair->sending`, as far as numbering goes. `counter` is a `u64`. -/
structure SendingKey where
  counter : Nat
  isValid : Bool
  deriving DecidableEq

/-- As `symmetric_key_init` leaves it. -/
def SendingKey.init : SendingKey := ⟨0, true⟩

/-- `atomic64_inc_return(&key->counter.counter) - 1`. -/
def SendingKey.next (key : SendingKey) : Nat × SendingKey :=
  let counter := (key.counter + 1) % 2 ^ 64
  ((counter + (2 ^ 64 - 1)) % 2 ^ 64, { key with counter })

/-- A packet that `wg_packet_create_data` was given. -/
structure Handed where
  keypair : Nat
  packet : Nat
  nonce : Nat
  deriving DecidableEq

/-- A packet is the number of its staging; keypairs are numbered too. -/
structure Staging where
  stagedPacketQueue : List Nat
  staged : Nat
  keys : Nat → SendingKey
  created : Nat
  currentKeypair : Option Nat
  handed : List Handed := []

/-- Where a call is. -/
inductive StagedCall
  | idle
  | stolen (packets : List Nat)
  | looked (keypair : Nat) (packets : List Nat)
  /-- In the walk over the packets. -/
  | numbering (keypair : Nat) (numbered : List (Nat × Nat)) (rest : List Nat)
  /-- At `out_invalid`. -/
  | invalidating (keypair : Nat) (packets : List Nat)
  /-- At `out_nokey`. -/
  | returning (packets : List Nat)
  deriving DecidableEq

inductive StagedEvent
  | steal
  /-- `alive` is whether a reference to the current keypair could be taken. -/
  | getKeypair (alive : Bool)
  | check (expired : Bool)
  | number
  | createData
  | invalidate
  | putBack
  /-- `wg_xmit` stages this many packets. -/
  | xmit (packets : Nat)
  | keepalive
  | purge
  /-- A session begins. -/
  | newKeypair
  /-- `current_keypair` is set. -/
  | setCurrent (keypair : Option Nat)

namespace Staging

/-- New packets at the tail of a queue. -/
def stage (g : Staging) (queue : List Nat) (n : Nat) : Staging :=
  { g with stagedPacketQueue := queue ++ List.range' g.staged n, staged := g.staged + n }

def setKey (g : Staging) (keypair : Nat) (key : SendingKey) : Staging :=
  { g with keys := Function.update g.keys keypair key }

/-- `wg_packet_create_data` is given the packets of a call. -/
def createData (g : Staging) (keypair : Nat) (numbered : List (Nat × Nat)) : Staging :=
  { g with handed := numbered.map (fun x => ⟨keypair, x.1, x.2⟩) ++ g.handed }

@[simp] theorem keys_setKey_self (g : Staging) (k : Nat) (key : SendingKey) :
    (g.setKey k key).keys k = key :=
  Function.update_self ..

theorem keys_setKey_of_ne (g : Staging) {k k' : Nat} (key : SendingKey) (h : k ≠ k') :
    (g.setKey k' key).keys k = g.keys k :=
  Function.update_of_ne h ..

end Staging

section
variable (w : Nat)

/-- The calls, one section or atomic access after the other, and what else happens to the
queue and to the keypairs at any time. -/
def stagedAct (call : StagedCall) (g : Staging) (event : StagedEvent) :
    Option (StagedCall × Staging) :=
  match call, event with
  | .idle, .steal =>
    if g.stagedPacketQueue = [] then some (.idle, g)
    else some (.stolen g.stagedPacketQueue, { g with stagedPacketQueue := [] })
  | .stolen packets, .getKeypair alive =>
    match g.currentKeypair.filter fun _ => alive with
    | none => some (.returning packets, g)
    | some keypair => some (.looked keypair packets, g)
  | .looked keypair packets, .check expired =>
    if ¬(g.keys keypair).isValid then some (.returning packets, g)
    else if expired then some (.invalidating keypair packets, g)
    else some (.numbering keypair [] packets, g)
  | .numbering keypair numbered (skb :: rest), .number =>
    let (nonce, key) := (g.keys keypair).next
    let g := g.setKey keypair key
    if nonce ≥ REJECT_AFTER_MESSAGES w then
      some (.invalidating keypair (numbered.map Prod.fst ++ skb :: rest), g)
    else some (.numbering keypair (numbered ++ [(skb, nonce)]) rest, g)
  | .numbering keypair numbered [], .createData =>
    some (.idle, g.createData keypair numbered)
  | .invalidating keypair packets, .invalidate =>
    some (.returning packets, g.setKey keypair { g.keys keypair with isValid := false })
  | .returning packets, .putBack =>
    some (.idle, { g with stagedPacketQueue := packets ++ g.stagedPacketQueue })
  | call, .xmit n =>
    some (call,
      g.stage (g.stagedPacketQueue.drop (g.stagedPacketQueue.length - MAX_STAGED_PACKETS)) n)
  | call, .keepalive => some (call, g.stage g.stagedPacketQueue 1)
  | call, .purge => some (call, { g with stagedPacketQueue := [] })
  | call, .newKeypair => some (call, { g.setKey g.created .init with created := g.created + 1 })
  | call, .setCurrent keypair =>
    if keypair.all (· < g.created) then some (call, { g with currentKeypair := keypair }) else none
  | _, _ => none

end

abbrev StagedState := Threads.State Staging StagedCall

/-! ### What one step does -/

namespace StagedCall

/-- The packets a call has. -/
def packets : StagedCall → List Nat
  | .idle => []
  | .stolen packets | .looked _ packets | .invalidating _ packets | .returning packets => packets
  | .numbering _ numbered rest => numbered.map Prod.fst ++ rest

/-- The nonces of a keypair that a call has taken and not handed over. -/
def nonces (k : Nat) : StagedCall → List Nat
  | .numbering keypair numbered _ => if keypair = k then numbered.map Prod.snd else []
  | _ => []

/-- 1 for a call that numbers packets with the keypair. -/
def numbers (k : Nat) : StagedCall → Nat
  | .numbering keypair _ _ => if keypair = k then 1 else 0
  | _ => 0

/-- 1 for a call that is about to make the keypair invalid. -/
def ends (k : Nat) : StagedCall → Nat
  | .invalidating keypair _ => if keypair = k then 1 else 0
  | _ => 0

/-- The keypair a call has a reference to. -/
def keypair : StagedCall → Option Nat
  | .looked keypair _ | .numbering keypair _ _ | .invalidating keypair _ => some keypair
  | _ => none

theorem numbers_add_ends_le (k : Nat) (call : StagedCall) : call.numbers k + call.ends k ≤ 1 := by
  cases call with
  | numbering | invalidating =>
    simp only [numbers, ends]
    split <;> omega
  | _ => simp [numbers, ends]

end StagedCall

/-- What a step can do. -/
inductive StagedEffect (w : Nat) (call : StagedCall) (g : Staging) : StagedCall → Staging → Prop
  | nothing : StagedEffect w call g call g
  | stole (idle : call = .idle) :
    StagedEffect w call g (.stolen g.stagedPacketQueue) { g with stagedPacketQueue := [] }
  /-- Nothing is numbered before or after, and numbering begins with a valid keypair. -/
  | went {call'} (packets : call'.packets = call.packets) (before : ∀ k, call.numbers k = 0 ∧
      call.ends k = 0)
      (after : ∀ k, call'.nonces k = []) (valid : ∀ k, call'.numbers k = 1 →
        (g.keys k).isValid = true)
      (keypair : ∀ k, call'.keypair = some k → call.keypair = some k ∨ g.currentKeypair = some k) :
    StagedEffect w call g call' g
  | numbered (k : Nat) (numbered : List (Nat × Nat)) (skb : Nat) (rest : List Nat)
      (walk : call = .numbering k numbered (skb :: rest))
        (below : (g.keys k).next.1 < REJECT_AFTER_MESSAGES w) :
    StagedEffect w call g (.numbering k (numbered ++ [(skb, (g.keys k).next.1)]) rest)
      (g.setKey k (g.keys k).next.2)
  | overran (k : Nat) (numbered : List (Nat × Nat)) (skb : Nat) (rest : List Nat)
      (walk : call = .numbering k numbered (skb :: rest)) (above : REJECT_AFTER_MESSAGES w ≤
        (g.keys k).next.1) :
    StagedEffect w call g (.invalidating k (numbered.map Prod.fst ++ skb :: rest))
      (g.setKey k (g.keys k).next.2)
  | handed (k : Nat) (numbered : List (Nat × Nat)) (walk : call = .numbering k numbered []) :
    StagedEffect w call g .idle (g.createData k numbered)
  | invalidated (k : Nat) (packets : List Nat) (at_end : call = .invalidating k packets) :
    StagedEffect w call g (.returning packets) (g.setKey k { g.keys k with isValid := false })
  | putBack (packets : List Nat) (returning : call = .returning packets) :
    StagedEffect w call g .idle { g with stagedPacketQueue := packets ++ g.stagedPacketQueue }
  | staged (queue : List Nat) (n : Nat) (left : queue.Sublist g.stagedPacketQueue) :
    StagedEffect w call g call (g.stage queue n)
  | newKeypair : StagedEffect w call g call
      { g.setKey g.created .init with created := g.created + 1 }
  | setCurrent (keypair : Option Nat) (known : ∀ k, keypair = some k → k < g.created) :
    StagedEffect w call g call { g with currentKeypair := keypair }

theorem stagedAct_effect {w : Nat} {call call' : StagedCall} {g g' : Staging} {event : StagedEvent}
    (h : stagedAct w call g event = some (call', g')) : StagedEffect w call g call' g' := by
  unfold stagedAct at h
  split at h
  case h_1 =>
    split at h
    · cases h
      exact .nothing
    · cases h
      exact .stole rfl
  case h_2 packets alive =>
    split at h
    · cases h
      exact .went rfl (fun _ => ⟨rfl, rfl⟩) (fun _ => rfl) nofun nofun
    · rename_i keypair hkeypair
      cases h
      refine .went rfl (fun _ => ⟨rfl, rfl⟩) (fun _ => rfl) nofun ?_
      rintro k ⟨⟩
      exact .inr (Option.eq_some_of_filter_eq_some hkeypair)
  case h_3 keypair packets expired =>
    split at h
    · cases h
      exact .went rfl (fun _ => ⟨rfl, rfl⟩) (fun _ => rfl) nofun nofun
    · rename_i hvalid
      split at h
      · cases h
        exact .went rfl (fun _ => ⟨rfl, rfl⟩) (fun _ => rfl) nofun (fun k hk => .inl hk)
      · cases h
        refine .went rfl (fun _ => ⟨rfl, rfl⟩) (fun k => by simp [StagedCall.nonces]) ?_
          (fun k hk => .inl hk)
        intro k hk
        by_cases heq : keypair = k
        · rw [← heq]
          exact not_not.mp hvalid
        · simp [StagedCall.numbers, heq] at hk
  case h_4 keypair numbered skb rest =>
    dsimp only at h
    split at h
    · rename_i habove
      cases h
      exact .overran keypair numbered skb rest rfl habove
    · rename_i hbelow
      cases h
      exact .numbered keypair numbered skb rest rfl (Nat.not_le.mp hbelow)
  case h_5 keypair numbered => cases h; exact .handed keypair numbered rfl
  case h_6 keypair packets => cases h; exact .invalidated keypair packets rfl
  case h_7 packets => cases h; exact .putBack packets rfl
  case h_8 n => cases h; exact .staged _ n (List.drop_sublist _ _)
  case h_9 => cases h; exact .staged _ 1 (List.Sublist.refl _)
  case h_10 => cases h; exact .staged [] 0 (List.nil_sublist _)
  case h_11 => cases h; exact .newKeypair
  case h_12 keypair =>
    split at h
    · rename_i hknown
      cases h
      refine .setCurrent keypair ?_
      rintro k rfl
      simpa using hknown
    · cases h
  case h_13 => cases h

/-! ### Packets -/

/-- Where a packet can be. -/
inductive PacketPlace
  | queue
  | call (i : Nat)
  | handed
  deriving DecidableEq

def packetPlaces (g : Staging) (calls : Nat → StagedCall) : PacketPlace → List Nat
  | .queue => g.stagedPacketQueue
  | .call i => (calls i).packets
  | .handed => g.handed.map Handed.packet

/-- Every staged packet is in one place. -/
structure Staging.Packets (g : Staging) (calls : Nat → StagedCall) : Prop where
  apart : Apart (packetPlaces g calls)
  staged : ∀ place, ∀ x ∈ packetPlaces g calls place, x < g.staged

section
variable {w : Nat} {calls : Nat → StagedCall} {i : Nat} {g g' : Staging} {call' : StagedCall}

theorem packetPlaces_same (hcall : call'.packets = (calls i).packets)
    (hqueue : g'.stagedPacketQueue = g.stagedPacketQueue) (hhanded : g'.handed = g.handed) :
    packetPlaces g' (Function.update calls i call') = packetPlaces g calls := by
  funext place
  cases place with
  | queue => exact hqueue
  | handed => exact congrArg _ hhanded
  | call j =>
    by_cases hj : j = i
    · rw [packetPlaces, packetPlaces, hj, Function.update_self]
      exact hcall
    · rw [packetPlaces, packetPlaces, Function.update_of_ne hj]

theorem packetPlaces_call_self :
    packetPlaces g' (Function.update calls i call') (.call i) = call'.packets := by
  rw [packetPlaces, Function.update_self]

theorem packetPlaces_call_ne {j : Nat} (hj : j ≠ i) :
    packetPlaces g' (Function.update calls i call') (.call j) = (calls j).packets := by
  rw [packetPlaces, Function.update_of_ne hj]

theorem Staging.Packets.move (h : g.Packets calls) {a b : PacketPlace}
    {places : PacketPlace → List Nat}
    (hplaces : packetPlaces g' (Function.update calls i call') = places) (hab : a ≠ b)
    (ha : places a = []) (hb : (places b).Perm (packetPlaces g calls a ++ packetPlaces g calls b))
    (others : ∀ c, c ≠ a → c ≠ b → places c = packetPlaces g calls c)
    (hstaged : g'.staged = g.staged) :
    g'.Packets (Function.update calls i call') := by
  constructor
  · rw [hplaces]
    exact h.apart.move hab ha hb others
  · rw [hplaces, hstaged]
    intro c x hx
    by_cases hca : c = a
    · rw [hca, ha] at hx
      cases hx
    · by_cases hcb : c = b
      · rw [hcb, hb.mem_iff, List.mem_append] at hx
        rcases hx with hx | hx
        · exact h.staged a x hx
        · exact h.staged b x hx
      · rw [others c hca hcb] at hx
        exact h.staged c x hx

theorem Staging.Packets.stage (h : g.Packets calls) {queue : List Nat}
    (left : queue.Sublist g.stagedPacketQueue) (n : Nat) : (g.stage queue n).Packets calls := by
  have hleft : Apart (packetPlaces { g with stagedPacketQueue := queue } calls) := by
    refine h.apart.shrink ?_
    rintro (_ | _ | _)
    · exact left
    · exact List.Sublist.refl _
    · exact List.Sublist.refl _
  have hstaged : ∀ place, ∀ x ∈ packetPlaces { g with stagedPacketQueue := queue } calls place,
      x < g.staged := by
    rintro (_ | _ | _) x hx
    · exact h.staged .queue x (left.subset hx)
    · exact h.staged (.call _) x hx
    · exact h.staged .handed x hx
  constructor
  · have hnew : (List.range' g.staged n).Nodup := List.nodup_range'
    refine hleft.add (i := .queue) hnew ?_ List.perm_append_comm ?_
    · intro x hx place hold
      have hle := (List.mem_range'_1.mp hx).1
      have := hstaged place x hold
      omega
    · rintro (_ | _ | _) hne
      · exact absurd rfl hne
      · rfl
      · rfl
  · have hgrown : ∀ x, x < g.staged → x < (g.stage queue n).staged :=
      fun x hx => Nat.lt_add_right n hx
    rintro (_ | j | _) x hx
    · rcases List.mem_append.mp hx with hx | hx
      · exact hgrown x (hstaged .queue x hx)
      · exact (List.mem_range'_1.mp hx).2
    · exact hgrown x (hstaged (.call j) x hx)
    · exact hgrown x (hstaged .handed x hx)

theorem StagedEffect.packets (h : StagedEffect w (calls i) g call' g') (hp : g.Packets calls) :
    g'.Packets (Function.update calls i call') := by
  -- Steps after which every packet is where it was.
  have hsame : call'.packets = (calls i).packets → g'.stagedPacketQueue = g.stagedPacketQueue →
      g'.handed = g.handed → g'.staged = g.staged → g'.Packets (Function.update calls i call') := by
    intro hcall hqueue hhanded hstaged
    constructor
    · rw [packetPlaces_same hcall hqueue hhanded]
      exact hp.apart
    · rw [packetPlaces_same hcall hqueue hhanded, hstaged]
      exact hp.staged
  cases h with
  | nothing => exact hsame rfl rfl rfl rfl
  | stole idle =>
    refine hp.move (a := .queue) (b := .call i) rfl nofun rfl ?_ ?_ rfl
    · rw [packetPlaces_call_self]
      simp [packetPlaces, idle, StagedCall.packets]
    · intro c hq hc
      cases c with
      | queue => exact absurd rfl hq
      | handed => rfl
      | call j => exact packetPlaces_call_ne fun hj => hc (congrArg _ hj)
  | went packets before after valid keypair => exact hsame packets rfl rfl rfl
  | numbered k numbered skb rest walk below =>
    exact hsame (by simp [walk, StagedCall.packets]) rfl rfl rfl
  | overran k numbered skb rest walk above =>
    exact hsame (by simp [walk, StagedCall.packets]) rfl rfl rfl
  | handed k numbered walk =>
    refine hp.move (a := .call i) (b := .handed) rfl nofun packetPlaces_call_self ?_ ?_ rfl
    · simp [packetPlaces, walk, StagedCall.packets, Staging.createData, Function.comp_def]
    · intro c hc hh
      cases c with
      | queue => rfl
      | handed => exact absurd rfl hh
      | call j => exact packetPlaces_call_ne fun hj => hc (congrArg _ hj)
  | invalidated k packets at_end => exact hsame (by rw [at_end]; rfl) rfl rfl rfl
  | putBack packets returning =>
    refine hp.move (a := .call i) (b := .queue) rfl nofun packetPlaces_call_self ?_ ?_ rfl
    · simp [packetPlaces, returning, StagedCall.packets]
    · intro c hc hq
      cases c with
      | queue => exact absurd rfl hq
      | handed => rfl
      | call j => exact packetPlaces_call_ne fun hj => hc (congrArg _ hj)
  | staged queue n left =>
    rw [Function.update_eq_self]
    exact hp.stage left n
  | newKeypair => exact hsame rfl rfl rfl rfl
  | setCurrent keypair known => exact hsame rfl rfl rfl rfl

end

/-! ### Keypairs -/

/-- Whoever has a keypair has one that was created. -/
structure Staging.Known (g : Staging) (calls : Nat → StagedCall) : Prop where
  calls : ∀ i k, (calls i).keypair = some k → k < g.created
  current : ∀ k, g.currentKeypair = some k → k < g.created
  handed : ∀ x ∈ g.handed, x.keypair < g.created

section
variable {w : Nat} {calls : Nat → StagedCall} {i : Nat} {g g' : Staging} {call' : StagedCall}

theorem StagedEffect.known (h : StagedEffect w (calls i) g call' g') (hk : g.Known calls) :
    g'.Known (Function.update calls i call') := by
  have hcalls : g.created ≤ g'.created → (∀ k, call'.keypair = some k → k < g.created) →
      ∀ j k, (Function.update calls i call' j).keypair = some k → k < g'.created := by
    intro hle hown j k hjk
    by_cases hj : j = i
    · rw [hj, Function.update_self] at hjk
      exact Nat.lt_of_lt_of_le (hown k hjk) hle
    · rw [Function.update_of_ne hj] at hjk
      exact Nat.lt_of_lt_of_le (hk.calls j k hjk) hle
  cases h with
  | nothing => exact ⟨hcalls (Nat.le_refl _) (hk.calls i), hk.current, hk.handed⟩
  | stole idle => exact ⟨hcalls (Nat.le_refl _) nofun, hk.current, hk.handed⟩
  | went packets before after valid keypair =>
    refine ⟨hcalls (Nat.le_refl _) ?_, hk.current, hk.handed⟩
    intro k hown
    rcases keypair k hown with h | h
    · exact hk.calls i k h
    · exact hk.current k h
  | numbered k numbered skb rest walk below =>
    refine ⟨hcalls (Nat.le_refl _) ?_, hk.current, hk.handed⟩
    rintro k' ⟨⟩
    exact hk.calls i k (by rw [walk]; rfl)
  | overran k numbered skb rest walk above =>
    refine ⟨hcalls (Nat.le_refl _) ?_, hk.current, hk.handed⟩
    rintro k' ⟨⟩
    exact hk.calls i k (by rw [walk]; rfl)
  | handed k numbered walk =>
    refine ⟨hcalls (Nat.le_refl _) nofun, hk.current, ?_⟩
    intro x hx
    rcases List.mem_append.mp hx with hx | hx
    · obtain ⟨y, -, rfl⟩ := List.mem_map.mp hx
      exact hk.calls i k (by rw [walk]; rfl)
    · exact hk.handed x hx
  | invalidated k packets at_end => exact ⟨hcalls (Nat.le_refl _) nofun, hk.current, hk.handed⟩
  | putBack packets returning => exact ⟨hcalls (Nat.le_refl _) nofun, hk.current, hk.handed⟩
  | staged queue n left => exact ⟨hcalls (Nat.le_refl _) (hk.calls i), hk.current, hk.handed⟩
  | newKeypair =>
    refine ⟨hcalls (Nat.le_succ _) (hk.calls i), ?_, ?_⟩
    · intro k hcurrent
      exact Nat.lt_succ_of_lt (hk.current k hcurrent)
    · intro x hx
      exact Nat.lt_succ_of_lt (hk.handed x hx)
  | setCurrent keypair known => exact ⟨hcalls (Nat.le_refl _) (hk.calls i), known, hk.handed⟩

end

/-! ### Counters -/

theorem reject_add_window (w : Nat) :
    REJECT_AFTER_MESSAGES w + COUNTER_WINDOW_SIZE w = 2 ^ 64 - 2 := by
  unfold REJECT_AFTER_MESSAGES COUNTER_WINDOW_SIZE COUNTER_BITS_TOTAL
  omega

theorem SendingKey.next_eq {key : SendingKey} (h : key.counter + 1 < 2 ^ 64) :
    key.next = (key.counter, { key with counter := key.counter + 1 }) := by
  unfold SendingKey.next
  rw [Nat.mod_eq_of_lt h]
  dsimp only
  rw [show key.counter + 1 + (2 ^ 64 - 1) = key.counter + 2 ^ 64 by omega, Nat.add_mod_right,
    Nat.mod_eq_of_lt (by omega)]

/-- While a keypair is valid, each number past the limit belongs to a call that is about to
make it invalid; afterwards no call begins to number, and each that still does takes one
number past the limit at most. So the counter never gets to its end. -/
structure Staging.Counted (w k : Nat) (g : Staging) (calls : Nat → StagedCall) : Prop where
  valid : (g.keys k).isValid = true →
    (g.keys k).counter ≤
      REJECT_AFTER_MESSAGES w + Threads.total (COUNTER_WINDOW_SIZE w) (StagedCall.ends k) calls
  invalid : (g.keys k).isValid = false →
    (g.keys k).counter + Threads.total (COUNTER_WINDOW_SIZE w) (StagedCall.numbers k) calls ≤
      REJECT_AFTER_MESSAGES w + COUNTER_WINDOW_SIZE w

section
variable {w k : Nat} {calls : Nat → StagedCall} {i : Nat} {g g' : Staging} {call' : StagedCall}

theorem numbers_ends_total_le (w k : Nat) (calls : Nat → StagedCall) :
    Threads.total (COUNTER_WINDOW_SIZE w) (StagedCall.numbers k) calls +
      Threads.total (COUNTER_WINDOW_SIZE w) (StagedCall.ends k) calls ≤ COUNTER_WINDOW_SIZE w := by
  rw [← Threads.total_add]
  exact Threads.total_le (StagedCall.numbers_add_ends_le k) calls

theorem Staging.Counted.next_eq (h : g.Counted w k calls) (hi : i < COUNTER_WINDOW_SIZE w)
    (hn : (calls i).numbers k = 1) :
    (g.keys k).next =
      ((g.keys k).counter, { g.keys k with counter := (g.keys k).counter + 1 }) := by
  refine SendingKey.next_eq ?_
  have hwindow := reject_add_window w
  have hsum := numbers_ends_total_le w k calls
  have hone := Threads.le_total (StagedCall.numbers k) calls hi
  rw [hn] at hone
  cases hv : (g.keys k).isValid with
  | true =>
    have := h.valid hv
    omega
  | false =>
    have := h.invalid hv
    omega

theorem Staging.Counted.key_next (h : g.Counted w k calls) (hi : i < COUNTER_WINDOW_SIZE w)
    (hn : (calls i).numbers k = 1) :
    (g.setKey k (g.keys k).next.2).keys k =
      { g.keys k with counter := (g.keys k).counter + 1 } := by
  rw [Staging.keys_setKey_self, h.next_eq hi hn]

theorem StagedEffect.counted (h : StagedEffect w (calls i) g call' g')
    (hi : i < COUNTER_WINDOW_SIZE w)
    (hc : g.Counted w k calls) : g'.Counted w k (Function.update calls i call') := by
  have hnumbers := Threads.total_update (StagedCall.numbers k) calls hi call'
  have hends := Threads.total_update (StagedCall.ends k) calls hi call'
  have hsum := numbers_ends_total_le w k calls
  have hsum' := numbers_ends_total_le w k (Function.update calls i call')
  -- The keypair stays as it is, and no call begins to number unless it is valid.
  have hsame : g'.keys k = g.keys k → (calls i).ends k ≤ call'.ends k →
      (call'.numbers k ≤ (calls i).numbers k ∨ (g.keys k).isValid = true) →
      g'.Counted w k (Function.update calls i call') := by
    intro hkey hmore hfewer
    constructor
    · rw [hkey]
      intro hv
      have := hc.valid hv
      omega
    · rw [hkey]
      intro hv
      have := hc.invalid hv
      rcases hfewer with hfewer | hvalid
      · omega
      · rw [hvalid] at hv
        cases hv
  cases h with
  | nothing => exact hsame rfl (Nat.le_refl _) (.inl (Nat.le_refl _))
  | stole idle => exact hsame rfl (by rw [idle]; exact Nat.le_refl 0) (.inl (Nat.zero_le _))
  | went packets before after valid keypair =>
    refine hsame rfl (by rw [(before k).2]; exact Nat.zero_le _) ?_
    by_cases hone : call'.numbers k = 1
    · exact .inr (valid k hone)
    · have := StagedCall.numbers_add_ends_le k call'
      exact .inl (by omega)
  | numbered k' numbered skb rest walk below =>
    by_cases hk : k = k'
    · subst hk
      have hkey := hc.key_next hi (by simp [walk, StagedCall.numbers])
      rw [hc.next_eq hi (by simp [walk, StagedCall.numbers])] at below
      constructor
      · intro _
        rw [hkey]
        exact Nat.le_trans below (Nat.le_add_right _ _)
      · intro _
        rw [hkey]
        dsimp only at below ⊢
        omega
    · refine hsame (Staging.keys_setKey_of_ne g _ hk) ?_ (.inl ?_)
      · rw [walk]
        exact Nat.zero_le _
      · simp [StagedCall.numbers, Ne.symm hk]
  | overran k' numbered skb rest walk above =>
    by_cases hk : k = k'
    · subst hk
      have hone : (calls i).numbers k = 1 := by simp [walk, StagedCall.numbers]
      have hnone : (calls i).ends k = 0 := by rw [walk]; rfl
      have hended :
          (StagedCall.invalidating k (numbered.map Prod.fst ++ skb :: rest)).ends k = 1 := by
        simp [StagedCall.ends]
      have hstopped :
          (StagedCall.invalidating k (numbered.map Prod.fst ++ skb :: rest)).numbers k = 0 := rfl
      rw [hone, hstopped] at hnumbers
      rw [hnone, hended] at hends
      constructor
      · rw [hc.key_next hi hone]
        intro hv
        have := hc.valid hv
        dsimp only
        omega
      · rw [hc.key_next hi hone]
        intro hv
        have := hc.invalid hv
        dsimp only
        omega
    · refine hsame (Staging.keys_setKey_of_ne g _ hk) ?_ (.inl ?_)
      · rw [walk]
        exact Nat.zero_le _
      · exact Nat.zero_le _
  | handed k' numbered walk =>
    exact hsame rfl (by rw [walk]; exact Nat.le_refl 0) (.inl (Nat.zero_le _))
  | invalidated k' packets at_end =>
    by_cases hk : k = k'
    · subst hk
      have hnone : (calls i).numbers k = 0 := by rw [at_end]; rfl
      have hstopped : (StagedCall.returning packets).numbers k = 0 := rfl
      rw [hnone, hstopped] at hnumbers
      constructor
      · rw [Staging.keys_setKey_self]
        nofun
      · rw [Staging.keys_setKey_self]
        intro _
        dsimp only
        cases hv : (g.keys k).isValid with
        | true =>
          have := hc.valid hv
          omega
        | false =>
          have := hc.invalid hv
          omega
    · refine hsame (Staging.keys_setKey_of_ne g _ hk) ?_ (.inl (Nat.zero_le _))
      simp [at_end, StagedCall.ends, Ne.symm hk]
  | putBack packets returning =>
    exact hsame rfl (by rw [returning]; exact Nat.le_refl 0) (.inl (Nat.zero_le _))
  | staged queue n left => exact hsame rfl (Nat.le_refl _) (.inl (Nat.le_refl _))
  | newKeypair =>
    by_cases hk : k = g.created
    · subst hk
      constructor
      · intro _
        exact Nat.le_trans
          (Nat.le_of_eq (congrArg _ (Staging.keys_setKey_self g g.created .init))) (Nat.zero_le _)
      · intro hv
        rw [show _ = SendingKey.init from Staging.keys_setKey_self g g.created .init] at hv
        cases hv
    · exact hsame (Staging.keys_setKey_of_ne g _ hk) (Nat.le_refl _) (.inl (Nat.le_refl _))
  | setCurrent keypair known => exact hsame rfl (Nat.le_refl _) (.inl (Nat.le_refl _))

end

/-! ### Nonces -/

/-- The nonces of a keypair: those handed over, and those each call has. -/
def noncePlaces (k : Nat) (g : Staging) (calls : Nat → StagedCall) : Option Nat → List Nat
  | none => (g.handed.filter (·.keypair = k)).map Handed.nonce
  | some i => (calls i).nonces k

/-- No nonce was given twice, and all were given below the counter and the limit. -/
structure Staging.Distinct (w k : Nat) (g : Staging) (calls : Nat → StagedCall) : Prop where
  apart : Apart (noncePlaces k g calls)
  below : ∀ place, ∀ n ∈ noncePlaces k g calls place, n < (g.keys k).counter ∧
    n < REJECT_AFTER_MESSAGES w

section
variable {w k : Nat} {calls : Nat → StagedCall} {i : Nat} {g g' : Staging} {call' : StagedCall}

theorem noncePlaces_self :
    noncePlaces k g' (Function.update calls i call') (some i) = call'.nonces k := by
  rw [noncePlaces, Function.update_self]

theorem noncePlaces_ne {j : Nat} (hj : j ≠ i) :
    noncePlaces k g' (Function.update calls i call') (some j) = (calls j).nonces k := by
  rw [noncePlaces, Function.update_of_ne hj]

theorem Staging.Distinct.shrink (h : g.Distinct w k calls)
    (hcall : (call'.nonces k).Sublist ((calls i).nonces k))
    (hhanded : g'.handed.filter (·.keypair = k) = g.handed.filter (·.keypair = k))
    (hcounter : (g.keys k).counter ≤ (g'.keys k).counter) :
    g'.Distinct w k (Function.update calls i call') := by
  have hsub : ∀ place, (noncePlaces k g' (Function.update calls i call') place).Sublist
      (noncePlaces k g calls place) := by
    rintro (_ | j)
    · rw [noncePlaces, noncePlaces, hhanded]
    · by_cases hj : j = i
      · rw [hj, noncePlaces_self]
        exact hcall
      · rw [noncePlaces_ne hj]
        exact List.Sublist.refl _
  constructor
  · exact h.apart.shrink hsub
  · intro place n hn
    obtain ⟨hlt, hreject⟩ := h.below place n ((hsub place).subset hn)
    exact ⟨Nat.lt_of_lt_of_le hlt hcounter, hreject⟩

theorem Staging.Distinct.number (h : g.Distinct w k calls) {nonce : Nat}
    (hnonce : nonce = (g.keys k).counter) (hbelow : nonce < REJECT_AFTER_MESSAGES w)
    (hcall : call'.nonces k = (calls i).nonces k ++ [nonce])
    (hhanded : g'.handed = g.handed) (hcounter : (g'.keys k).counter = nonce + 1) :
    g'.Distinct w k (Function.update calls i call') := by
  have hothers : ∀ place, place ≠ some i →
      noncePlaces k g' (Function.update calls i call') place = noncePlaces k g calls place := by
    rintro (_ | j) hne
    · rw [noncePlaces, noncePlaces, hhanded]
    · exact noncePlaces_ne fun hj => hne (congrArg some hj)
  constructor
  · refine h.apart.add (i := some i) (List.nodup_singleton nonce) ?_ ?_ hothers
    · intro x hx place hold
      have := (h.below place x hold).1
      rw [List.mem_singleton.mp hx] at this
      omega
    · rw [noncePlaces_self, hcall]
      exact List.perm_append_comm
  · rw [hcounter]
    intro place n hn
    by_cases hplace : place = some i
    · rw [hplace, noncePlaces_self, hcall, List.mem_append, List.mem_singleton] at hn
      rcases hn with hn | rfl
      · obtain ⟨hlt, hreject⟩ := h.below (some i) n hn
        exact ⟨by omega, hreject⟩
      · exact ⟨Nat.lt_succ_self n, hbelow⟩
    · rw [hothers place hplace] at hn
      obtain ⟨hlt, hreject⟩ := h.below place n hn
      exact ⟨by omega, hreject⟩

theorem Staging.Distinct.hand (h : g.Distinct w k calls) {numbered : List (Nat × Nat)}
    (walk : calls i = .numbering k numbered []) :
    (g.createData k numbered).Distinct w k (Function.update calls i .idle) := by
  have hothers : ∀ place, place ≠ some i → place ≠ none →
      noncePlaces k (g.createData k numbered) (Function.update calls i .idle) place =
        noncePlaces k g calls place := by
    rintro (_ | j) hi hnone
    · exact absurd rfl hnone
    · exact noncePlaces_ne fun hj => hi (congrArg some hj)
  have hhanded : noncePlaces k (g.createData k numbered) (Function.update calls i .idle) none =
      noncePlaces k g calls (some i) ++ noncePlaces k g calls none := by
    simp [noncePlaces, walk, StagedCall.nonces, Staging.createData, Function.comp_def,
      List.filter_map]
  constructor
  · exact h.apart.move (i := some i) (j := none) nofun noncePlaces_self
      (hhanded ▸ List.Perm.refl _) hothers
  · intro place n hn
    by_cases hi : place = some i
    · rw [hi, noncePlaces_self] at hn
      cases hn
    · by_cases hnone : place = none
      · rw [hnone, hhanded, List.mem_append] at hn
        rcases hn with hn | hn
        · exact h.below (some i) n hn
        · exact h.below none n hn
      · rw [hothers place hi hnone] at hn
        exact h.below place n hn

theorem Staging.Distinct.of_unknown (h : ∀ place, noncePlaces k g calls place = []) :
    g.Distinct w k calls := by
  constructor
  · constructor
    · intro place
      rw [h]
      exact List.nodup_nil
    · intro place _ _
      rw [h]
      exact List.disjoint_nil_left _
  · intro place n hn
    rw [h] at hn
    cases hn

/-- A keypair that is being created has no nonces yet. -/
theorem Staging.Known.noncePlaces_created (hk : g.Known calls) (place : Option Nat) :
    noncePlaces g.created { g.setKey g.created .init with created := g.created + 1 }
      calls place = [] := by
  cases place with
  | none =>
    rw [noncePlaces, List.map_eq_nil_iff, List.filter_eq_nil_iff]
    intro x hx heq
    exact absurd (of_decide_eq_true heq) (Nat.ne_of_lt (hk.handed x hx))
  | some j =>
    rw [noncePlaces]
    cases hj : calls j with
    | numbering keypair numbered rest =>
      have := hk.calls j keypair (by rw [hj]; rfl)
      rw [StagedCall.nonces, if_neg (Nat.ne_of_lt this)]
    | _ => rfl

theorem StagedEffect.distinct (h : StagedEffect w (calls i) g call' g')
    (hi : i < COUNTER_WINDOW_SIZE w)
    (hk : g.Known calls) (hc : g.Counted w k calls) (hd : g.Distinct w k calls) :
    g'.Distinct w k (Function.update calls i call') := by
  cases h with
  | nothing => exact hd.shrink (List.Sublist.refl _) rfl (Nat.le_refl _)
  | stole idle => exact hd.shrink (List.nil_sublist _) rfl (Nat.le_refl _)
  | went packets before after valid keypair =>
    exact hd.shrink (by rw [after k]; exact List.nil_sublist _) rfl (Nat.le_refl _)
  | numbered k' numbered skb rest walk below =>
    by_cases hkk : k = k'
    · subst hkk
      have hone : (calls i).numbers k = 1 := by simp [walk, StagedCall.numbers]
      have hnext := hc.next_eq hi hone
      refine hd.number (by rw [hnext]) below (by simp [walk, StagedCall.nonces]) rfl ?_
      rw [hc.key_next hi hone, hnext]
    · refine hd.shrink ?_ rfl (by rw [Staging.keys_setKey_of_ne g _ hkk])
      rw [StagedCall.nonces, if_neg (Ne.symm hkk)]
      exact List.nil_sublist _
  | overran k' numbered skb rest walk above =>
    refine hd.shrink (List.nil_sublist _) rfl ?_
    by_cases hkk : k = k'
    · subst hkk
      rw [hc.key_next hi (by simp [walk, StagedCall.numbers])]
      exact Nat.le_succ _
    · rw [Staging.keys_setKey_of_ne g _ hkk]
  | handed k' numbered walk =>
    by_cases hkk : k = k'
    · subst hkk
      exact hd.hand walk
    · refine hd.shrink (List.nil_sublist _) ?_ (Nat.le_refl _)
      simp [Staging.createData, List.filter_map, Function.comp_def, Ne.symm hkk]
  | invalidated k' packets at_end =>
    refine hd.shrink (List.nil_sublist _) rfl ?_
    by_cases hkk : k = k'
    · subst hkk
      rw [Staging.keys_setKey_self]
    · rw [Staging.keys_setKey_of_ne g _ hkk]
  | putBack packets returning => exact hd.shrink (List.nil_sublist _) rfl (Nat.le_refl _)
  | staged queue n left => exact hd.shrink (List.Sublist.refl _) rfl (Nat.le_refl _)
  | newKeypair =>
    by_cases hkk : k = g.created
    · subst hkk
      rw [Function.update_eq_self]
      exact .of_unknown fun place => hk.noncePlaces_created place
    · refine hd.shrink (List.Sublist.refl _) rfl (Nat.le_of_eq ?_)
      exact (congrArg _ (Staging.keys_setKey_of_ne g .init hkk)).symm
  | setCurrent keypair known => exact hd.shrink (List.Sublist.refl _) rfl (Nat.le_refl _)

end

/-! ### Runs -/

/-- Before the first call: packets may be staged and keypairs used up to the limit. -/
structure Staging.Begins (w : Nat) (g : Staging) : Prop where
  queue : g.stagedPacketQueue.Nodup
  staged : ∀ x ∈ g.stagedPacketQueue, x < g.staged
  counters : ∀ k, (g.keys k).counter ≤ REJECT_AFTER_MESSAGES w
  current : ∀ k, g.currentKeypair = some k → k < g.created
  handed : g.handed = []

/-- What every step keeps. -/
structure StagedInvariant (w : Nat) (s : StagedState) : Prop where
  packets : s.shared.Packets s.threads
  known : s.shared.Known s.threads
  counted : ∀ k, s.shared.Counted w k s.threads
  distinct : ∀ k, s.shared.Distinct w k s.threads

theorem StagedInvariant.step {w : Nat} {s t : StagedState} {e : Nat × StagedEvent}
    (h : StagedInvariant w s)
    (hi : e.1 < COUNTER_WINDOW_SIZE w) (hst : Threads.step (stagedAct w) s e = some t) :
    StagedInvariant w t := by
  obtain ⟨⟨call', g'⟩, hact, rfl⟩ := Option.map_eq_some_iff.mp hst
  have heffect := stagedAct_effect hact
  exact ⟨heffect.packets h.packets, heffect.known h.known,
    fun k => heffect.counted hi (h.counted k),
    fun k => heffect.distinct hi h.known (h.counted k) (h.distinct k)⟩

theorem Staging.Begins.invariant {w : Nat} {g : Staging} (h : g.Begins w) :
    StagedInvariant w ⟨g, fun _ => .idle⟩ := by
  constructor
  · constructor
    · constructor
      · rintro (_ | _ | _)
        · exact h.queue
        · exact List.nodup_nil
        · simp [packetPlaces, h.handed]
      · rintro (_ | _ | _) (_ | _ | _) hne
        all_goals simp [packetPlaces, h.handed, StagedCall.packets] at hne ⊢
    · rintro (_ | _ | _) x hx
      · exact h.staged x hx
      · cases hx
      · simp [packetPlaces, h.handed] at hx
  · exact ⟨nofun, h.current, by simp [h.handed]⟩
  · intro k
    constructor
    · intro _
      exact Nat.le_trans (h.counters k) (Nat.le_add_right _ _)
    · intro _
      have hnone :
          Threads.total (COUNTER_WINDOW_SIZE w) (StagedCall.numbers k) (fun _ => .idle) = 0 := by
        simp [Threads.total, StagedCall.numbers]
      rw [hnone]
      exact Nat.le_trans (h.counters k) (Nat.le_add_right _ _)
  · intro k
    refine .of_unknown ?_
    rintro (_ | _)
    · simp [noncePlaces, h.handed]
    · rfl

/-- However the calls interleave, at most `COUNTER_WINDOW_SIZE` of them at a time: the
packets handed over under one keypair have different nonces below the limit, and no
packet is handed over twice. -/
theorem staged_nonces_unique (w : Nat) (g : Staging) (hg : g.Begins w)
    (events : List (Nat × StagedEvent))
    (hcalls : ∀ e ∈ events, e.1 < COUNTER_WINDOW_SIZE w) (s : StagedState)
    (h : Run.exec (Threads.step (stagedAct w)) ⟨g, fun _ => .idle⟩ events = some s) :
    (∀ k, ((s.shared.handed.filter (·.keypair = k)).map Handed.nonce).Nodup) ∧
    (∀ x ∈ s.shared.handed, x.nonce < REJECT_AFTER_MESSAGES w) ∧
    (s.shared.handed.map Handed.packet).Nodup := by
  have hs := Run.exec_guarded (fun _ e => e.1 < COUNTER_WINDOW_SIZE w)
    (fun s e t hs hi hst => StagedInvariant.step hs hi hst) hg.invariant
      (Run.meets_of_forall hcalls) h
  refine ⟨fun k => (hs.distinct k).apart.nodup none, ?_, hs.packets.apart.nodup .handed⟩
  intro x hx
  refine ((hs.distinct x.keypair).below none x.nonce ?_).2
  exact List.mem_map_of_mem (List.mem_filter.mpr ⟨hx, by simp⟩)

/-- Two packets, and a keypair that has one nonce left. -/
def oneNonceLeft : Staging where
  stagedPacketQueue := [0, 1]
  staged := 2
  keys _ := ⟨REJECT_AFTER_MESSAGES 64 - 1, true⟩
  created := 1
  currentKeypair := some 0

/-- Two calls: the first gets both packets and puts them back, with a nonce on the first of
them; the second gets them again, with the next keypair, and a third packet. -/
def putBackAndSend : List (Nat × StagedEvent) :=
  [(0, .steal), (0, .getKeypair true), (0, .check false), (0, .number), (0, .number),
    (0, .invalidate),
    (1, .xmit 1), (0, .putBack), (1, .newKeypair), (1, .setCurrent (some 1)), (1, .steal),
    (1, .getKeypair true), (1, .check false), (1, .number), (1, .number), (1, .number),
    (1, .createData)]

theorem staged_nonces_putBack :
    ∃ s, Run.exec (Threads.step (stagedAct 64)) ⟨oneNonceLeft, fun _ => .idle⟩ putBackAndSend =
      some s ∧
      s.shared.handed = [⟨1, 0, 0⟩, ⟨1, 1, 1⟩, ⟨1, 2, 2⟩] ∧
      (s.shared.handed.map Handed.packet).Nodup := by
  have hrun :
      (Run.exec (Threads.step (stagedAct 64)) ⟨oneNonceLeft, fun _ => .idle⟩ putBackAndSend).map
      (fun s => s.shared.handed) = some [⟨1, 0, 0⟩, ⟨1, 1, 1⟩, ⟨1, 2, 2⟩] := by decide +kernel
  obtain ⟨s, hs, hhanded⟩ := Option.map_eq_some_iff.mp hrun
  refine ⟨s, hs, hhanded,
    (staged_nonces_unique 64 oneNonceLeft ?_ putBackAndSend (by decide) s hs).2.2⟩
  constructor
  · decide
  · decide
  · intro k
    exact Nat.sub_le _ _
  · rintro k ⟨⟩
    decide
  · rfl

end Sewg.Kernel
