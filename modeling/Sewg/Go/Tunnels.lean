import Sewg.Go.Uapi
import Sewg.Lib.Threads

/-! `wgTurnOn` and `wgTurnOff` of `api-android.go`: who has the devices that `NewDevice`
makes. Nothing protects `tunnelHandles`, so calls from several threads may meet between
two accesses to it. What happens inside a device is left out. -/

namespace Sewg.Go

open CString (Bytes)
open Words (Endian)

/-- A device is the number `NewDevice` made it under. `uapi` is whether the listener is
not `nil`. -/
structure TunnelHandle where
  device : Nat
  uapi : Bool
  deriving DecidableEq

/-- The result of the loop of `wgTurnOn`, with the indices left to look at. -/
def freeHandle (tunnelHandles : Int → Option TunnelHandle) : Nat → Nat → Nat
  | 0, i => i
  | left + 1, i => if (tunnelHandles i).isSome then freeHandle tunnelHandles left (i + 1) else i

def MaxInt32 : Nat := 2 ^ 31 - 1

structure Tunnels where
  tunnelHandles : Int → Option TunnelHandle := fun _ => none
  /-- How many devices have been made. -/
  made : Nat := 0
  /-- The devices on which `Close` has been called. -/
  closed : Nat → Bool := fun _ => false
  /-- The handles that were returned and not yet given to `wgTurnOff`. -/
  live : List Int := []

/-- Where a call is. -/
inductive TunnelCall
  | idle
  /-- `NewDevice` has returned. -/
  | attached (device : Nat)
  | configured (device : Nat)
  /-- `Up` has returned. -/
  | started (handle : TunnelHandle)
  /-- The loop has ended at a free index. -/
  | found (handle : TunnelHandle) (i : Nat)
  | looked (tunnelHandle : Int) (handle : TunnelHandle)
  | deleted (handle : TunnelHandle)
  deriving DecidableEq

inductive TunnelEvent
  /-- `tun` is whether `CreateTUNFromFD` has a device. -/
  | wgTurnOn (tun : Bool)
  | ipcSetOperation (envs : Nat → LineEnv) (settings : Bytes)
  /-- Whether `UAPIOpen` and `UAPIListen` succeed. -/
  | listen (opened listening : Bool)
  | search
  | register
  | wgTurnOff (tunnelHandle : Int)
  | delete
  | close
  /-- The device's `RoutineReadFromTUN` fails to read. -/
  | readError (device : Nat)

def Tunnels.Close (g : Tunnels) (device : Nat) : Tunnels :=
  { g with closed := Function.update g.closed device true }

def tunnelAct (e : Endian) (call : TunnelCall) (g : Tunnels) (event : TunnelEvent) :
    Option (TunnelCall × Tunnels) :=
  match call, event with
  | .idle, .wgTurnOn false => some (.idle, g)
  | .idle, .wgTurnOn true => some (.attached g.made, { g with made := g.made + 1 })
  | .attached device, .ipcSetOperation envs settings =>
    match (ipcSetOperation e envs newUapiDevice settings).2 with
    | some .panic => none
    -- The file of the TUN device is closed; the device is not.
    | some _ => some (.idle, g)
    | none => some (.configured device, g)
  | .configured device, .listen opened listening => some (.started ⟨device, opened && listening⟩, g)
  | .started handle, .search =>
    let i := freeHandle g.tunnelHandles MaxInt32 0
    if i = MaxInt32 then some (.idle, g) else some (.found handle i, g)
  | .found handle i, .register =>
    some (.idle, { g with
      tunnelHandles := Function.update g.tunnelHandles i (some handle),
        live := (i : Int) :: g.live })
  | .idle, .wgTurnOff tunnelHandle =>
    let g := { g with live := g.live.filter (· ≠ tunnelHandle) }
    match g.tunnelHandles tunnelHandle with
    | none => some (.idle, g)
    | some handle => some (.looked tunnelHandle handle, g)
  | .looked tunnelHandle handle, .delete =>
    some (.deleted handle,
      { g with tunnelHandles := Function.update g.tunnelHandles tunnelHandle none })
  | .deleted handle, .close => some (.idle, g.Close handle.device)
  | .idle, .readError device => if device < g.made then some (.idle, g.Close device) else none
  | _, _ => none

abbrev TunnelState := Threads.State Tunnels TunnelCall

/-- Before the first call. -/
def noTunnels : TunnelState := ⟨{}, fun _ => .idle⟩

/-! ### The search for a handle -/

theorem freeHandle_spec (handles : Int → Option TunnelHandle) (left i : Nat) :
    freeHandle handles left i ≤ i + left ∧
      (∀ k : Nat, i ≤ k → k < freeHandle handles left i → handles k ≠ none) ∧
      (freeHandle handles left i < i + left → handles (freeHandle handles left i) = none) := by
  induction left generalizing i with
  | zero =>
    refine ⟨Nat.le_refl _, ?_, ?_⟩
    · intro k hik hki
      exact absurd hki (Nat.not_lt.mpr hik)
    · intro hlt
      exact absurd hlt (Nat.lt_irrefl i)
  | succ left ih =>
    rw [freeHandle]
    by_cases hi : (handles i).isSome
    · rw [if_pos hi]
      obtain ⟨hle, htaken, hfree⟩ := ih (i + 1)
      refine ⟨by omega, ?_, fun hlt => hfree (by omega)⟩
      intro k hik hk
      by_cases hki : k = i
      · rw [hki]
        exact Option.isSome_iff_ne_none.mp hi
      · exact htaken k (by omega) hk
    · rw [if_neg hi]
      refine ⟨Nat.le_add_right i _, ?_, fun _ => Option.not_isSome_iff_eq_none.mp hi⟩
      intro k hik hki
      exact absurd hki (Nat.not_lt.mpr hik)

/-- There is a handle to give out. -/
def HasFree (handles : Int → Option TunnelHandle) : Prop :=
  ∃ i : Nat, i < MaxInt32 ∧ handles i = none

theorem freeHandle_lt_iff {handles : Int → Option TunnelHandle} :
    freeHandle handles MaxInt32 0 ≠ MaxInt32 ↔ HasFree handles := by
  obtain ⟨hle, htaken, hfree⟩ := freeHandle_spec handles MaxInt32 0
  constructor
  · intro hne
    have hlt : freeHandle handles MaxInt32 0 < MaxInt32 := by omega
    exact ⟨_, hlt, hfree (by omega)⟩
  · rintro ⟨i, hi, hnone⟩ heq
    rw [heq] at htaken
    exact htaken i (Nat.zero_le i) hi hnone

instance (handles : Int → Option TunnelHandle) : Decidable (HasFree handles) :=
  decidable_of_iff _ freeHandle_lt_iff

/-! ### Runs -/

/-- The device a call has made and not yet registered. -/
def TunnelCall.brings : TunnelCall → Option Nat
  | .attached device | .configured device => some device
  | .started handle | .found handle _ => some handle.device
  | .idle | .looked .. | .deleted _ => none

/-- The device a call has to itself: a new one, or one it has taken from the map. -/
def TunnelCall.holds : TunnelCall → Option Nat
  | .deleted handle => some handle.device
  | call => call.brings

/-- The device is closed, held by a call or in the map. -/
def Tunnels.Has (g : Tunnels) (calls : Nat → TunnelCall) (device : Nat) : Prop :=
  g.closed device = true ∨ (∃ j, (calls j).holds = some device) ∨
    ∃ h handle, g.tunnelHandles h = some handle ∧ handle.device = device

/-- Every device is accounted for, and no two calls or entries have the same. -/
structure Tunnels.Owned (g : Tunnels) (calls : Nat → TunnelCall) : Prop where
  owned : ∀ d < g.made, g.Has calls d
  apart : ∀ i j d, (calls i).holds = some d → (calls j).holds = some d → i = j
  once : ∀ h h' x y, g.tunnelHandles h = some x → g.tunnelHandles h' = some y →
    x.device = y.device → h = h'
  unregistered : ∀ j d h handle, (calls j).holds = some d → g.tunnelHandles h = some handle →
    handle.device ≠ d
  made_held : ∀ j d, (calls j).holds = some d → d < g.made
  made_handles : ∀ h handle, g.tunnelHandles h = some handle → handle.device < g.made

/-- The live handles are in the map, and a call that looks at one does not let it be given
out again. -/
structure Tunnels.Live (g : Tunnels) (calls : Nat → TunnelCall) : Prop where
  nodup : g.live.Nodup
  registered : ∀ h ∈ g.live, g.tunnelHandles h ≠ none
  ended : ∀ j h handle, calls j = .looked h handle → g.tunnelHandles h = some handle → h ∉ g.live
  made_looked : ∀ j h handle, calls j = .looked h handle → handle.device < g.made
  looked : ∀ j k h handle, calls j = .looked h handle → (calls k).brings ≠ some handle.device

/-- Where the code keeps every device. A call that fails after `NewDevice` needs the
device closed by its own reader, and a write to the map needs the entry it has read. -/
def KeepsDevice (e : Endian) (s : TunnelState) (event : Nat × TunnelEvent) : Prop :=
  match s.threads event.1, event.2 with
  | .attached device, .ipcSetOperation envs settings =>
    (ipcSetOperation e envs newUapiDevice settings).2 = none ∨ s.shared.closed device = true
  | .started handle, .search =>
    HasFree s.shared.tunnelHandles ∨ s.shared.closed handle.device = true
  | .found _ i, .register => s.shared.tunnelHandles i = none
  | .looked tunnelHandle handle, .delete => s.shared.tunnelHandles tunnelHandle = some handle
  | _, _ => True

/-- What a step does with the devices, where the code keeps them. -/
inductive TunnelEffect (call : TunnelCall) (g : Tunnels) : TunnelCall → Tunnels → Prop
  | made (idle : call = .idle) : TunnelEffect call g (.attached g.made)
      { g with made := g.made + 1 }
  | went {call'} (brings : call'.brings = call.brings) (holds : call'.holds = call.holds)
      (looks : ∀ h handle, call' ≠ .looked h handle) : TunnelEffect call g call' g
  | gave (device : Nat) (brings : call.brings = some device) (closed : g.closed device = true) :
    TunnelEffect call g .idle g
  | registered (handle : TunnelHandle) (i : Int) (brings : call.brings = some handle.device)
      (free : g.tunnelHandles i = none) :
    TunnelEffect call g .idle { g with
      tunnelHandles := Function.update g.tunnelHandles i (some handle), live := i :: g.live }
  | unknown (i : Int) (idle : call = .idle) :
    TunnelEffect call g .idle { g with live := g.live.filter (· ≠ i) }
  | looked (i : Int) (handle : TunnelHandle) (idle : call = .idle)
      (entry : g.tunnelHandles i = some handle) :
    TunnelEffect call g (.looked i handle) { g with live := g.live.filter (· ≠ i) }
  | deleted (i : Int) (handle : TunnelHandle) (looked : call = .looked i handle)
      (entry : g.tunnelHandles i = some handle) :
    TunnelEffect call g (.deleted handle)
      { g with tunnelHandles := Function.update g.tunnelHandles i none }
  | closed (device : Nat) (holds : call.holds = none ∨ call.holds = some device)
      (brings : call.brings = none) :
    TunnelEffect call g .idle { g with closed := Function.update g.closed device true }

section
variable {e : Endian} {s : TunnelState} {j : Nat} {event : TunnelEvent} {call' : TunnelCall}
  {g' : Tunnels}

theorem tunnelAct_effect (hg : KeepsDevice e s (j, event))
    (h : tunnelAct e (s.threads j) s.shared event = some (call', g')) :
    TunnelEffect (s.threads j) s.shared call' g' := by
  unfold KeepsDevice at hg
  dsimp only at hg
  generalize s.threads j = call at hg h
  generalize s.shared = g at hg h
  unfold tunnelAct at h
  split at h
  case h_1 => cases h; exact .went rfl rfl nofun
  case h_2 => cases h; exact .made rfl
  case h_3 device envs settings =>
    dsimp only at hg
    split at h
    · cases h
    · rename_i failure _ hfailed
      cases h
      rw [hfailed] at hg
      exact .gave device rfl (hg.resolve_left nofun)
    · cases h
      exact .went rfl rfl nofun
  case h_4 => cases h; exact .went rfl rfl nofun
  case h_5 handle =>
    dsimp only at h hg
    by_cases hmax : freeHandle g.tunnelHandles MaxInt32 0 = MaxInt32
    · rw [if_pos hmax] at h
      cases h
      exact .gave handle.device rfl (hg.resolve_left fun hfree => freeHandle_lt_iff.mpr hfree hmax)
    · rw [if_neg hmax] at h
      cases h
      exact .went rfl rfl nofun
  case h_6 handle i => cases h; exact .registered handle i rfl hg
  case h_7 tunnelHandle =>
    dsimp only at h
    split at h
    · cases h
      exact .unknown tunnelHandle rfl
    · rename_i handle entry
      cases h
      exact .looked tunnelHandle handle rfl entry
  case h_8 tunnelHandle handle => cases h; exact .deleted tunnelHandle handle rfl hg
  case h_9 handle => cases h; exact .closed handle.device (.inr rfl) rfl
  case h_10 device =>
    split at h
    · cases h
      exact .closed device (.inl rfl) rfl
    · cases h
  case h_11 => cases h

end

section
variable {calls : Nat → TunnelCall} {j : Nat} {g g' : Tunnels} {call' : TunnelCall}

@[grind →]
theorem TunnelCall.holds_of_brings {call : TunnelCall} {d : Nat} (h : call.brings = some d) :
    call.holds = some d := by
  cases call <;> first | exact h | cases h

theorem Tunnels.Has.other {d k : Nat} (hk : (calls k).holds = some d) (hkj : k ≠ j) :
    g'.Has (Function.update calls j call') d := by
  refine .inr (.inl ⟨k, ?_⟩)
  rw [Function.update_of_ne hkj]
  exact hk

theorem Tunnels.Has.own {d : Nat} (hk : call'.holds = some d) :
    g'.Has (Function.update calls j call') d := by
  refine .inr (.inl ⟨j, ?_⟩)
  rw [Function.update_self]
  exact hk

theorem TunnelEffect.held {d : Nat} (h : TunnelEffect (calls j) g call' g')
    (hd : (calls j).holds = some d) : g'.Has (Function.update calls j call') d := by
  cases h with
  | made idle => rw [idle] at hd; cases hd
  | went brings holds looks => exact .own (holds.trans hd)
  | gave device brings closed =>
    have : device = d := Option.some.inj ((TunnelCall.holds_of_brings brings).symm.trans hd)
    exact .inl (this ▸ closed)
  | registered handle i brings free =>
    have : handle.device = d := Option.some.inj ((TunnelCall.holds_of_brings brings).symm.trans hd)
    exact .inr (.inr ⟨i, handle, Function.update_self .., this⟩)
  | unknown i idle => rw [idle] at hd; cases hd
  | looked i handle idle entry => rw [idle] at hd; cases hd
  | deleted i handle looked entry => rw [looked] at hd; cases hd
  | closed device holds brings =>
    rw [hd] at holds
    have : d = device := Option.some.inj (holds.resolve_left nofun)
    exact .inl (this ▸ Function.update_self ..)

theorem TunnelEffect.entered {i : Int} {x : TunnelHandle} (h : TunnelEffect (calls j) g call' g')
    (hx : g.tunnelHandles i = some x) : g'.Has (Function.update calls j call') x.device := by
  cases h with
  | registered handle i' brings free =>
    refine .inr (.inr ⟨i, x, ?_, rfl⟩)
    have hne : i ≠ i' := by
      rintro rfl
      rw [free] at hx
      cases hx
    exact (Function.update_of_ne hne ..).trans hx
  | deleted i' handle looked entry =>
    by_cases hi : i = i'
    · subst hi
      rw [entry] at hx
      cases hx
      exact .own rfl
    · exact .inr (.inr ⟨i, x, (Function.update_of_ne hi ..).trans hx, rfl⟩)
  | _ => exact .inr (.inr ⟨i, x, hx, rfl⟩)

theorem TunnelEffect.closed_mono {d : Nat} (h : TunnelEffect (calls j) g call' g')
    (hd : g.closed d = true) : g'.closed d = true := by
  cases h with
  | closed device holds brings =>
    by_cases hdd : d = device
    · rw [hdd]
      exact Function.update_self ..
    · exact (Function.update_of_ne hdd ..).trans hd
  | _ => exact hd

theorem TunnelEffect.has {d : Nat} (h : TunnelEffect (calls j) g call' g') (hd : g.Has calls d) :
    g'.Has (Function.update calls j call') d := by
  rcases hd with hc | ⟨k, hk⟩ | ⟨i, x, hx, rfl⟩
  · exact .inl (h.closed_mono hc)
  · by_cases hkj : k = j
    · subst hkj
      exact h.held hk
    · exact .other hk hkj
  · exact h.entered hx

theorem TunnelEffect.owned (h : TunnelEffect (calls j) g call' g') (ho : g.Owned calls) :
    g'.Owned (Function.update calls j call') := by
  have hhas : ∀ d < g'.made, g'.Has (Function.update calls j call') d := by
    intro d hd
    by_cases hold : d < g.made
    · exact h.has (ho.owned d hold)
    · cases h with
      | made idle =>
        exact .own (congrArg some (Nat.le_antisymm (Nat.not_lt.mp hold) (Nat.lt_succ_iff.mp hd)))
      | _ => exact absurd hd hold
  refine ⟨hhas, ?_, ?_, ?_, ?_, ?_⟩
  · have apart := ho.apart
    have made := ho.made_held
    have entered := ho.unregistered
    clear ho hhas
    cases h <;> grind [TunnelCall.holds, TunnelCall.brings, Function.update_apply]
  · have once := ho.once
    have entered := ho.unregistered
    clear ho hhas
    cases h <;> grind [Function.update_apply]
  · have apart := ho.apart
    have once := ho.once
    have entered := ho.unregistered
    have made := ho.made_handles
    clear ho hhas
    cases h <;> grind [TunnelCall.holds, TunnelCall.brings, Function.update_apply]
  · have held := ho.made_held
    have entered := ho.made_handles
    clear ho hhas
    cases h <;> grind [TunnelCall.holds, TunnelCall.brings, Function.update_apply]
  · have held := ho.made_held
    have entered := ho.made_handles
    clear ho hhas
    cases h <;> grind [Function.update_apply]

theorem TunnelEffect.live (h : TunnelEffect (calls j) g call' g') (ho : g.Owned calls)
    (hl : g.Live calls) : g'.Live (Function.update calls j call') := by
  constructor
  · have nodup := hl.nodup
    have registered := hl.registered
    clear ho hl
    cases h <;> grind
  · have registered := hl.registered
    have ended := hl.ended
    clear ho hl
    cases h <;> grind [Function.update_apply]
  · have nodup := hl.nodup
    have ended := hl.ended
    have looked := hl.looked
    clear ho hl
    cases h <;> grind [Function.update_apply]
  · have made := hl.made_looked
    have entered := ho.made_handles
    clear ho hl
    cases h <;> grind [Function.update_apply]
  · have looked := hl.looked
    have made := hl.made_looked
    have entered := ho.unregistered
    clear ho hl
    cases h <;> grind [TunnelCall.brings, Function.update_apply]

end

/-- No call is in progress. -/
def TunnelState.Quiet (s : TunnelState) : Prop := ∀ j, s.threads j = .idle

/-- The device is closed, or in one entry of `tunnelHandles` and no other. -/
def Tunnels.Kept (g : Tunnels) (device : Nat) : Prop :=
  g.closed device = true ∨ ∃! h, ∃ handle, g.tunnelHandles h = some handle ∧ handle.device = device

theorem Tunnels.Owned.kept {s : TunnelState} (ho : s.shared.Owned s.threads)
    (hq : TunnelState.Quiet s) {d : Nat} (hd : d < s.shared.made) : s.shared.Kept d := by
  rcases ho.owned d hd with hc | ⟨j, hj⟩ | ⟨h, x, hx, rfl⟩
  · exact .inl hc
  · rw [hq j] at hj
    cases hj
  · refine .inr ⟨h, ⟨x, hx, rfl⟩, ?_⟩
    rintro h' ⟨y, hy, hxy⟩
    exact ho.once h' h y x hy hx hxy

theorem noTunnels_owned : noTunnels.shared.Owned noTunnels.threads := by
  constructor <;> simp [noTunnels, TunnelCall.holds, TunnelCall.brings]

theorem noTunnels_live : noTunnels.shared.Live noTunnels.threads := by
  constructor <;> simp [noTunnels]

/-- Whatever calls are made, from whatever threads, with whatever settings and failures: as
long as no call gives up a device that is still open, and none writes an entry of the map
that has changed since it was read, every device is closed or in one entry once all calls
have returned, and no handle is given out twice. -/
theorem devices_kept (e : Endian) (events : List (Nat × TunnelEvent)) (s : TunnelState)
    (hg : Run.Meets (Threads.step (tunnelAct e)) (KeepsDevice e) noTunnels events)
    (h : Run.exec (Threads.step (tunnelAct e)) noTunnels events = some s) :
    (s.Quiet → ∀ d < s.shared.made, s.shared.Kept d) ∧ s.shared.live.Nodup := by
  have hkeep := Run.exec_guarded (KeepsDevice e)
    (P := fun s : TunnelState => s.shared.Owned s.threads ∧ s.shared.Live s.threads)
    (fun s event t hs hguard hst => by
      obtain ⟨⟨call', g'⟩, hact, rfl⟩ := Option.map_eq_some_iff.mp hst
      have heffect := tunnelAct_effect hguard hact
      exact ⟨heffect.owned hs.1, heffect.live hs.1 hs.2⟩)
    ⟨noTunnels_owned, noTunnels_live⟩ hg h
  exact ⟨fun hq d hd => hkeep.1.kept hq hd, hkeep.2.nodup⟩

instance (e : Endian) (s : TunnelState) (event : Nat × TunnelEvent) :
    Decidable (KeepsDevice e s event) := by
  unfold KeepsDevice
  split <;> infer_instance

/-- The lines of the example need no answers. -/
def noAnswers : Nat → LineEnv := fun _ =>
  let call : TeeCall := ⟨fun _ => 0, ⟨0, ⟨0, fun _ => 0⟩⟩⟩
  { pubKey := call, products := fun _ => (call, call), product := call, closeBind := true,
    createBind := some, setMark := true, services := fun _ => none }

/-- One call of `wgTurnOn`. -/
def turnOnWith (settings : Bytes) : List TunnelEvent :=
  [.wgTurnOn true, .ipcSetOperation noAnswers settings, .listen true true, .search, .register]

/-- Two tunnels are turned on, and the first one off. -/
def onOnOff : List TunnelEvent :=
  turnOnWith (ascii "replace_peers=true") ++ turnOnWith [] ++
    [TunnelEvent.wgTurnOff 0, .delete, .close]

/-- A run of one thread alone ends with all threads idle if that thread does. -/
theorem quiet_of_alone {e : Endian} {events : List TunnelEvent} {g : Tunnels}
    (h : Threads.alone (tunnelAct e) (.idle, {}) events = some (.idle, g)) :
    ∃ s, Run.exec (Threads.step (tunnelAct e)) noTunnels (events.map (Prod.mk 0)) = some s ∧
      s.shared = g ∧ TunnelState.Quiet s := by
  refine ⟨⟨g, Function.update noTunnels.threads 0 .idle⟩, ?_, rfl, ?_⟩
  · rw [Threads.exec_alone]
    exact congrArg _ h
  · intro j
    by_cases hj : j = 0
    · rw [hj]
      exact Function.update_self 0 TunnelCall.idle noTunnels.threads
    · exact Function.update_of_ne hj TunnelCall.idle noTunnels.threads

theorem devices_kept_twice :
    ∃ s, Run.exec (Threads.step (tunnelAct .little)) noTunnels (onOnOff.map (Prod.mk 0)) = some s ∧
      s.shared.made = 2 ∧ s.shared.live = [1] ∧ s.shared.Kept 0 ∧ s.shared.Kept 1 := by
  have hend : (Threads.alone (tunnelAct .little) (.idle, {}) onOnOff).map
      (fun x => (x.1, x.2.made, x.2.live)) = some (.idle, 2, [1]) := by decide +kernel
  obtain ⟨⟨call, g⟩, halone, hx⟩ := Option.map_eq_some_iff.mp hend
  obtain ⟨rfl, hmade, hlive⟩ : call = .idle ∧ g.made = 2 ∧ g.live = [1] := by simpa using hx
  obtain ⟨s, hs, rfl, hq⟩ := quiet_of_alone halone
  have hkept := (devices_kept .little _ s (Run.meets_of_check (by decide +kernel)) hs).1 hq
  exact ⟨s, hs, hmade, hlive, hkept 0 (by omega), hkept 1 (by omega)⟩

/-- Settings that are refused: the call returns, and nothing has the device. -/
theorem refused_device_open :
    ∃ s, Run.exec (Threads.step (tunnelAct .little)) noTunnels
        ([.wgTurnOn true, .ipcSetOperation noAnswers (ascii "private_key")].map (Prod.mk 0)) =
          some s ∧
      TunnelState.Quiet s ∧ s.shared.made = 1 ∧ ¬s.shared.Kept 0 := by
  have halone : Threads.alone (tunnelAct .little) (.idle, {})
      [.wgTurnOn true, .ipcSetOperation noAnswers (ascii "private_key")] =
          some (.idle, { made := 1 }) := by
    have hfail : (ipcSetOperation .little noAnswers newUapiDevice (ascii "private_key")).2 =
        some .ipcErrorProtocol := by decide +kernel
    simp [Threads.alone, Run.exec, tunnelAct, hfail]
  obtain ⟨s, hs, hg, hq⟩ := quiet_of_alone halone
  refine ⟨s, hs, hq, by rw [hg], ?_⟩
  rw [hg]
  rintro (hc | ⟨h, ⟨handle, hh, -⟩, -⟩)
  · cases hc
  · cases hh

end Sewg.Go
