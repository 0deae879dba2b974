import Sewg.App.TunnelManager
import Sewg.Lib.Run

/-! The state that a tunnel shows, and the tunnel that the backend runs. They agree as long as
a restart with a new configuration ends with the tunnel up, be it with the old one, and a
tunnel that could not be deleted comes up again. -/

namespace Sewg.App

/-! ## The backend -/

/-- A try with this configuration succeeds. -/
def UpEnv.comesUp (env : UpEnv) : Option Config → Bool
  | none => false
  | some config =>
    env.authorized && env.service.isNone && (env.build config).isNone && env.established &&
      env.wgTurnOn.isSome

namespace GoBackend
variable {b : GoBackend} {env : UpEnv} {t : Nat} {config : Option Config}

/-- There is a handle when a tunnel runs. -/
def Whole (b : GoBackend) : Prop := b.currentTunnel.isSome = b.currentTunnelHandle.isSome

theorem getState_eq_up : b.getState t = .up ↔ b.currentTunnel = some t := by
  unfold getState
  split <;> simp_all

theorem getState_ne_toggle : b.getState t ≠ .toggle := by
  unfold getState
  split <;> simp

theorem Whole.off (h : b.Whole) (hc : b.currentTunnel = none) : b = ⟨none, none⟩ := by
  obtain ⟨current, handle⟩ := b
  cases hc
  cases handle with
  | none => rfl
  | some _ => cases h

theorem bringUp_off (env : UpEnv) (t : Nat) (config : Option Config) :
    (env.comesUp config = true ∧
      ∃ handle, bringUp env ⟨none, none⟩ t config = (none, ⟨some t, some handle⟩)) ∨
    (env.comesUp config = false ∧
      ∃ thrown, bringUp env ⟨none, none⟩ t config = (some thrown, ⟨none, none⟩)) := by
  obtain ⟨authorized, service, build, established, wgTurnOn⟩ := env
  cases config with
  | none => exact .inr ⟨rfl, _, rfl⟩
  | some config =>
    cases authorized with
    | false => exact .inr ⟨rfl, _, rfl⟩
    | true =>
      cases service with
      | some thrown => exact .inr ⟨rfl, _, rfl⟩
      | none =>
        cases built : build config with
        | some thrown =>
          exact .inr ⟨by simp [UpEnv.comesUp, built], thrown, by simp [bringUp, built]⟩
        | none =>
          cases established <;> cases wgTurnOn <;> simp [UpEnv.comesUp, bringUp, built]

theorem setState_cases (h : b.Whole) (env : UpEnv) (t : Nat) (config : Option Config)
    (state : State) :
    (∃ thrown, b.setState env t config state = (.error thrown, b)) ∨
    b.setState env t config state = (.ok (b.getState t), b) ∨
    (b.currentTunnel = none ∧
      ∃ handle, b.setState env t config state = (.ok .up, ⟨some t, some handle⟩)) ∨
    (b.currentTunnel = some t ∧
      b.setState env t config state = (.ok .down, ⟨none, none⟩)) := by
  have resolved : (if state = .toggle then (if b.getState t = .up then .down else .up) else state) ≠
      State.toggle := by
    split
    · split <;> simp
    · assumption
  unfold setState
  dsimp only
  generalize (if state = .toggle then (if b.getState t = .up then .down else .up) else state) =
    state at resolved
  by_cases same : state = b.getState t
  · rw [if_pos same]
    exact .inr (.inl rfl)
  rw [if_neg same]
  cases state with
  | toggle => exact absurd rfl resolved
  | up =>
    cases hc : b.currentTunnel with
    | some u => exact .inl ⟨.onlyOne, by simp⟩
    | none =>
      cases h.off hc
      rcases bringUp_off env t config with ⟨-, handle, ran⟩ | ⟨-, thrown, ran⟩
      · exact .inr (.inr (.inl ⟨rfl, handle, by simp [setStateInternal, ran, getState]⟩))
      · exact .inl ⟨thrown, by simp [setStateInternal, ran]⟩
  | down =>
    have hc : b.currentTunnel = some t := by
      rw [← getState_eq_up]
      unfold getState at same ⊢
      split <;> simp_all
    have handle : b.currentTunnelHandle.isSome := by
      rw [← h, hc]
      rfl
    exact .inr (.inr (.inr ⟨hc, by simp [setStateInternal, bringDown, handle, getState]⟩))

theorem setState_others (h : b.Whole) (env : UpEnv) (t : Nat) (config : Option Config)
    (state : State) :
    (b.setState env t config state).2.Whole ∧
      ∀ u, u ≠ t → (b.setState env t config state).2.getState u = b.getState u := by
  rcases setState_cases h env t config state with ⟨_, ran⟩ | ran | ⟨hc, _, ran⟩ | ⟨hc, ran⟩
  · rw [ran]
    exact ⟨h, fun _ _ => rfl⟩
  · rw [ran]
    exact ⟨h, fun _ _ => rfl⟩
  · rw [ran]
    exact ⟨rfl, fun u hu => by simp [getState, hc, hu.symm]⟩
  · rw [ran]
    exact ⟨rfl, fun u hu => by simp [getState, hc, hu.symm]⟩

theorem setState_ok (h : b.Whole) {b' : GoBackend} {state state' : State}
    (ran : b.setState env t config state = (.ok state', b')) : state' = b'.getState t := by
  rcases setState_cases h env t config state with ⟨_, eq⟩ | eq | ⟨-, _, eq⟩ | ⟨-, eq⟩ <;>
    rw [eq] at ran <;> cases ran
  · rfl
  · simp [getState]
  · simp [getState]

theorem setState_error (h : b.Whole) {b' : GoBackend} {state : State} {thrown : Thrown}
    (ran : b.setState env t config state = (.error thrown, b')) : b' = b := by
  rcases setState_cases h env t config state with ⟨_, eq⟩ | eq | ⟨-, _, eq⟩ | ⟨-, eq⟩ <;>
    rw [eq] at ran <;> cases ran
  rfl

theorem setState_down (h : b.Whole) (env : UpEnv) (config : Option Config)
    (hc : b.currentTunnel = some t) :
    b.setState env t config .down = (.ok .down, ⟨none, none⟩) := by
  have handle : b.currentTunnelHandle.isSome := by
    rw [← h, hc]
    rfl
  simp [setState, setStateInternal, bringDown, getState, hc, handle]

theorem setState_up (h : b.Whole) (env : UpEnv) (t : Nat) (config : Option Config) :
    (∃ thrown, b.setState env t config .up = (.error thrown, b)) ∨
      (b.setState env t config .up).2.currentTunnel = some t := by
  cases hc : b.currentTunnel with
  | some u =>
    by_cases hu : u = t
    · exact .inr (by simp [setState, getState, hc, hu])
    · exact .inl ⟨.onlyOne, by simp [setState, getState, hc, hu]⟩
  | none =>
    cases h.off hc
    rcases bringUp_off env t config with ⟨-, handle, ran⟩ | ⟨-, thrown, ran⟩
    · exact .inr (by simp [setState, setStateInternal, getState, ran])
    · exact .inl ⟨thrown, by simp [setState, setStateInternal, getState, ran]⟩

theorem setState_comesUp (env : UpEnv) (t : Nat) (h : env.comesUp config = true) :
    ∃ handle, setState env ⟨none, none⟩ t config .up = (.ok .up, ⟨some t, some handle⟩) := by
  rcases bringUp_off env t config with ⟨-, handle, ran⟩ | ⟨fails, -⟩
  · exact ⟨handle, by simp [setState, setStateInternal, getState, ran]⟩
  · rw [h] at fails
    cases fails

end GoBackend

namespace TunnelManager
variable {m : TunnelManager} {t : Nat} {f : Format} {env : Env}

/-- The tunnels of the list show the state that they have. Any other shows that it is up, if
it is. -/
structure Shown (m : TunnelManager) : Prop where
  nodup : m.tunnels.Nodup
  made : ∀ t ∈ m.tunnels, t < m.made
  runs : ∀ t, m.backend.currentTunnel = some t → t < m.made ∧ (m.tunnel t).state = .up
  whole : m.backend.Whole
  settled : ∀ t, (m.tunnel t).state ≠ .toggle
  state : ∀ t ∈ m.tunnels, (m.tunnel t).state = m.backend.getState t

/-- A tunnel that does not show it is up is down. -/
theorem Shown.down (h : m.Shown) (hs : (m.tunnel t).state ≠ .up) :
    (m.tunnel t).state = m.backend.getState t := by
  have settled := h.settled t
  unfold GoBackend.getState
  split
  · rename_i hc
    exact absurd (h.runs t hc).2 hs
  · cases hst : (m.tunnel t).state <;> simp_all

theorem Shown.remove (h : m.Shown) : (m.remove t).Shown where
  nodup := h.nodup.erase t
  made u hu := h.made u (List.mem_of_mem_erase hu)
  runs := h.runs
  whole := h.whole
  settled := h.settled
  state u hu := h.state u (List.mem_of_mem_erase hu)

theorem Shown.files (h : m.Shown) (files : Files) : Shown { m with files } :=
  ⟨h.nodup, h.made, h.runs, h.whole, h.settled, h.state⟩

theorem Shown.add (h : m.Shown) (ht : t < m.made)
    (hs : (m.tunnel t).state = m.backend.getState t) : (m.add t).2.Shown := by
  unfold TunnelManager.add
  split
  · exact h
  · rename_i new
    have away : t ∉ m.tunnels := by
      intro hm
      simpa using List.find?_eq_none.mp new t hm
    refine ⟨List.nodup_cons.mpr ⟨away, h.nodup⟩, ?_, h.runs, h.whole, h.settled, ?_⟩
    · intro u hu
      rcases List.mem_cons.mp hu with rfl | hu
      · exact ht
      · exact h.made u hu
    · intro u hu
      rcases List.mem_cons.mp hu with rfl | hu
      · exact hs
      · exact h.state u hu

theorem Shown.update {g : Tunnel → Tunnel} (h : m.Shown) (hg : ∀ x, (g x).state = x.state) :
    (m.update t g).Shown := by
  have same : ∀ u, ((m.update t g).tunnel u).state = (m.tunnel u).state := by
    intro u
    unfold TunnelManager.update
    dsimp only
    by_cases hu : u = t
    · rw [hu, Function.update_self, hg]
    · rw [Function.update_of_ne hu]
  refine ⟨h.nodup, h.made, ?_, h.whole, ?_, ?_⟩
  · intro u hu
    rw [same]
    exact h.runs u hu
  · intro u
    rw [same]
    exact h.settled u
  · intro u hu
    rw [same]
    exact h.state u hu

theorem Shown.onConfigChanged (h : m.Shown) (config : Config) :
    (m.onConfigChanged t config).Shown :=
  h.update fun _ => rfl

theorem Shown.refreshed {b : GoBackend} (h : m.Shown) (hw : b.Whole)
    (runs : ∀ u, b.currentTunnel = some u → u < m.made)
    (others : ∀ u, u ≠ t → b.getState u = m.backend.getState u) :
    (TunnelManager.onStateChanged { m with backend := b } t (b.getState t)).Shown := by
  have self :
      ((TunnelManager.onStateChanged { m with backend := b } t (b.getState t)).tunnel t).state =
      b.getState t := by
    unfold onStateChanged TunnelManager.update
    dsimp only
    rw [Function.update_self]
  have other : ∀ u, u ≠ t →
      (TunnelManager.onStateChanged { m with backend := b } t (b.getState t)).tunnel u =
        m.tunnel u :=
    fun u hu => Function.update_of_ne hu _ _
  refine ⟨h.nodup, h.made, ?_, hw, ?_, ?_⟩
  · intro u hu
    refine ⟨runs u hu, ?_⟩
    by_cases hut : u = t
    · subst hut
      rw [self, GoBackend.getState_eq_up]
      exact hu
    · rw [other u hut]
      have up := (others u hut).symm.trans (GoBackend.getState_eq_up.mpr hu)
      exact (h.runs u (GoBackend.getState_eq_up.mp up)).2
  · intro u
    by_cases hut : u = t
    · subst hut
      rw [self]
      exact GoBackend.getState_ne_toggle
    · rw [other u hut]
      exact h.settled u
  · intro u hu
    by_cases hut : u = t
    · subst hut
      exact self
    · rw [other u hut]
      exact (h.state u hu).trans (others u hut).symm

theorem Shown.getTunnelState (h : m.Shown) : (m.getTunnelState t).Shown :=
  h.refreshed h.whole (fun u hu => (h.runs u hu).1) fun _ _ => rfl

theorem getTunnelState_state (m : TunnelManager) (t : Nat) :
    ((m.getTunnelState t).tunnel t).state = (m.getTunnelState t).backend.getState t := by
  unfold TunnelManager.getTunnelState onStateChanged update
  dsimp only
  rw [Function.update_self]

theorem setIfUp_tunnel (env : UpEnv) (original state : State) :
    (m.setIfUp env t original state).2.tunnel = m.tunnel ∧
      (m.setIfUp env t original state).2.made = m.made ∧
      (m.setIfUp env t original state).2.tunnels = m.tunnels := by
  unfold TunnelManager.setIfUp setBackend
  split
  · dsimp only
    generalize m.backend.setState env t (m.tunnel t).config state = w
    obtain ⟨result, backend⟩ := w
    cases result <;> exact ⟨rfl, rfl, rfl⟩
  · exact ⟨rfl, rfl, rfl⟩

theorem setIfUp_backend (env : UpEnv) (state : State) :
    (m.setIfUp env t .up state).2.backend =
      (m.backend.setState env t (m.tunnel t).config state).2 := by
  unfold TunnelManager.setIfUp setBackend
  rw [if_pos rfl]
  dsimp only
  generalize m.backend.setState env t (m.tunnel t).config state = w
  obtain ⟨result, backend⟩ := w
  cases result <;> rfl

/-- A tunnel is out of the list while it is worked on, and shows what it did. -/
structure Aside (m : TunnelManager) (t : Nat) (original : State) : Prop where
  shown : m.Shown
  away : t ∉ m.tunnels
  made : t < m.made
  state : (m.tunnel t).state = original

variable {original : State}

theorem Shown.aside (h : m.Shown) (ht : t < m.made) : (m.remove t).Aside t (m.tunnel t).state :=
  ⟨h.remove, h.nodup.not_mem_erase, ht, rfl⟩

theorem Aside.files (h : m.Aside t original) (files : Files) : Aside { m with files } t original :=
  ⟨h.shown.files files, h.away, h.made, h.state⟩

theorem Aside.onNameChanged (h : m.Aside t original) (name : JString) :
    (m.onNameChanged t name).Aside t original := by
  refine ⟨h.shown.update fun _ => rfl, h.away, h.made, ?_⟩
  unfold TunnelManager.onNameChanged TunnelManager.update
  dsimp only
  rw [Function.update_self]
  exact h.state

theorem Aside.setIfUp (h : m.Aside t original) (env : UpEnv) (state : State) :
    (m.setIfUp env t original state).2.Aside t original := by
  obtain ⟨tunnel, made, tunnels⟩ := setIfUp_tunnel (m := m) (t := t) env original state
  refine ⟨?_, by rw [tunnels]; exact h.away, by rw [made]; exact h.made,
    by rw [tunnel]; exact h.state⟩
  by_cases up : original = .up
  · subst up
    obtain ⟨whole, others⟩ :=
      GoBackend.setState_others h.shown.whole env t (m.tunnel t).config state
    rw [← setIfUp_backend] at whole others
    refine ⟨?_, ?_, ?_, whole, ?_, ?_⟩
    · rw [tunnels]
      exact h.shown.nodup
    · rw [tunnels, made]
      exact h.shown.made
    · intro u hu
      rw [made, tunnel]
      by_cases hut : u = t
      · subst hut
        exact ⟨h.made, h.state⟩
      · have hc := (others u hut).symm.trans (GoBackend.getState_eq_up.mpr hu)
        exact h.shown.runs u (GoBackend.getState_eq_up.mp hc)
    · rw [tunnel]
      exact h.shown.settled
    · rw [tunnels, tunnel]
      intro u hu
      have hut : u ≠ t := fun same => h.away (same ▸ hu)
      exact (h.shown.state u hu).trans (others u hut).symm
  · unfold TunnelManager.setIfUp
    rw [if_neg up]
    exact h.shown

theorem Aside.setIfUp_up (h : m.Aside t original) (env : UpEnv)
    (ran : (m.setIfUp env t original .up).1 = none) :
    original = (m.setIfUp env t original .up).2.backend.getState t := by
  by_cases up : original = .up
  · subst up
    rcases GoBackend.setState_up h.shown.whole env t (m.tunnel t).config with ⟨thrown, failed⟩ | hc
    · simp [TunnelManager.setIfUp, setBackend, failed] at ran
    · rw [setIfUp_backend]
      exact (GoBackend.getState_eq_up.mpr hc).symm
  · have same := h.shown.down (h.state.trans_ne up)
    unfold TunnelManager.setIfUp
    rw [if_neg up, ← same, h.state]

theorem Aside.add (h : m.Aside t original) (real : original = m.backend.getState t) :
    (m.add t).2.Shown :=
  h.shown.add h.made (h.state.trans real)

theorem Aside.addRefreshed (h : m.Aside t original) : ((m.getTunnelState t).add t).2.Shown :=
  h.shown.getTunnelState.add h.made (getTunnelState_state m t)

/-! ## What the operations keep -/

/-- Whatever happens to a tunnel while it is renamed, it shows what it is. -/
theorem Shown.setTunnelName (h : m.Shown) (ht : t < m.made) (name : JString) :
    (m.setTunnelName env t name).2.Shown := by
  unfold TunnelManager.setTunnelName
  split
  · exact h
  split
  · exact h
  have down := (h.aside ht).setIfUp env.up .down
  unfold renameWork
  dsimp only
  generalize (m.remove t).setIfUp env.up t (m.tunnel t).state .down = w at down
  obtain ⟨_ | thrown, m₁⟩ := w
  · dsimp only at down ⊢
    generalize FileConfigStore.rename env.file m₁.files (m₁.tunnel t).name name = w
    obtain ⟨_ | thrown, files⟩ := w
    · have named := (down.files files).onNameChanged name
      have up := named.setIfUp env.again .up
      have real := named.setIfUp_up env.again
      dsimp only
      generalize TunnelManager.setIfUp env.again _ t (m.tunnel t).state .up = w at up real
      obtain ⟨_ | thrown, m₂⟩ := w
      · exact up.add (real rfl)
      · exact up.addRefreshed
    · exact (down.files files).addRefreshed
  · exact down.addRefreshed

theorem Shown.current (h : m.Shown) (ht : t ∈ m.tunnels) (up : (m.tunnel t).state = .up) :
    m.backend.currentTunnel = some t := by
  rw [← GoBackend.getState_eq_up, ← h.state t ht]
  exact up

/-- A tunnel that was up goes down without an exception. -/
theorem Aside.setIfUp_down (h : m.Aside t original) (env : UpEnv)
    (hc : original = .up → m.backend.currentTunnel = some t) :
    ∃ backend, m.setIfUp env t original .down = (none, { m with backend }) ∧
      (original = .up → backend = ⟨none, none⟩) := by
  unfold TunnelManager.setIfUp setBackend
  by_cases up : original = .up
  · rw [if_pos up, GoBackend.setState_down h.shown.whole env _ (hc up)]
    exact ⟨_, rfl, fun _ => rfl⟩
  · rw [if_neg up]
    exact ⟨m.backend, rfl, fun h => absurd h up⟩

theorem setIfUp_comesUp
    (again : original = .up → m.backend = ⟨none, none⟩ ∧
      env.again.comesUp (m.tunnel t).config = true) :
    (m.setIfUp env.again t original .up).1 = none := by
  unfold TunnelManager.setIfUp setBackend
  by_cases up : original = .up
  · obtain ⟨off, comes⟩ := again up
    obtain ⟨handle, ran⟩ := GoBackend.setState_comesUp env.again t comes
    rw [if_pos up, off, ran]
  · rw [if_neg up]

/-- A tunnel that is put back is up again, if it was. -/
theorem Shown.delete (h : m.Shown) (ht : t < m.made)
    (back : (m.tunnel t).state = .up → t ∈ m.tunnels ∧
      (((m.files (m.tunnel t).name).isSome ∧ env.file.delete = true) ∨
        env.again.comesUp (m.tunnel t).config = true)) :
    (m.delete env t).2.Shown := by
  have aside := h.aside ht
  obtain ⟨backend, ran, off⟩ :=
    aside.setIfUp_down env.up fun up => h.current (back up).1 up
  have down := aside.setIfUp env.up .down
  unfold TunnelManager.delete deleteWork
  dsimp only
  rw [ran] at down ⊢
  dsimp only at down ⊢
  by_cases deleted : (m.files (m.tunnel t).name).isSome ∧ env.file.delete = true
  · have gone : FileConfigStore.delete env.file (m.remove t).files ((m.remove t).tunnel t).name =
        (none, Function.update m.files (m.tunnel t).name none) := if_pos deleted
    rw [gone]
    exact (down.files _).shown
  · have kept : FileConfigStore.delete env.file (m.remove t).files ((m.remove t).tunnel t).name =
        (some (.cannotDelete (m.tunnel t).name), m.files) := if_neg deleted
    rw [kept]
    have up := (down.files m.files).setIfUp env.again .up
    have real := (down.files m.files).setIfUp_up env.again (setIfUp_comesUp
      fun up => ⟨off up, (back up).2.resolve_left deleted⟩)
    dsimp only at up real ⊢
    generalize TunnelManager.setIfUp env.again _ t (m.tunnel t).state .up = w at up real
    obtain ⟨_ | thrown, m₂⟩ := w <;> exact up.add real

theorem Shown.restarted (h : m.Shown) (hc : m.backend.currentTunnel = some t) (handle : Nat) :
    Shown { m with backend := ⟨some t, some handle⟩ } := by
  have same : ∀ u, GoBackend.getState ⟨some t, some handle⟩ u = m.backend.getState u := by
    intro u
    unfold GoBackend.getState
    rw [hc]
  refine ⟨h.nodup, h.made, ?_, rfl, h.settled, ?_⟩
  · intro u hu
    exact h.runs u (hc.trans hu)
  · intro u hu
    exact (h.state u hu).trans (same u).symm

theorem Shown.applyConfig (h : m.Shown) (config : Config)
    (restarts : (m.tunnel t).state = .up → t ∈ m.tunnels ∧
      (env.up.comesUp (some config) = true ∨ env.again.comesUp (m.tunnel t).config = true)) :
    (m.applyConfig env t config).2.Shown := by
  unfold TunnelManager.applyConfig
  split
  · rename_i up
    obtain ⟨listed, restarts⟩ := restarts up
    have hc := h.current listed up
    have off : m.backend.bringDown = ⟨none, none⟩ := by
      refine if_pos ?_
      rw [← h.whole, hc]
      rfl
    dsimp only
    rw [off]
    rcases GoBackend.bringUp_off env.up t (some config) with ⟨-, handle, ran⟩ | ⟨fails, thrown, ran⟩
    · rw [ran]
      exact h.restarted hc handle
    · rw [ran]
      dsimp only
      have old := restarts.resolve_left (by simp [fails])
      rcases GoBackend.bringUp_off env.again t (m.tunnel t).config with
        ⟨-, handle, ran⟩ | ⟨fails, -⟩
      · rw [ran]
        exact h.restarted hc handle
      · rw [old] at fails
        cases fails
  · exact h

theorem Shown.setTunnelConfig (h : m.Shown) (config : Config)
    (restarts : (m.tunnel t).state = .up → t ∈ m.tunnels ∧
      (env.up.comesUp (some config) = true ∨ env.again.comesUp (m.tunnel t).config = true)) :
    (m.setTunnelConfig f env t config).2.Shown := by
  have applied := h.applyConfig config restarts
  unfold TunnelManager.setTunnelConfig
  generalize m.applyConfig env t config = w at applied
  obtain ⟨result, m₁⟩ := w
  cases result with
  | error thrown => exact applied
  | ok config =>
    dsimp only at applied ⊢
    generalize FileConfigStore.save f env.file m₁.files (m₁.tunnel t).name config = w
    obtain ⟨result, files⟩ := w
    cases result with
    | error thrown => exact applied.files files
    | ok config => exact (applied.files files).onConfigChanged config

theorem Shown.getTunnelConfig (h : m.Shown) (f : Format) (env : Env) (t : Nat) :
    (m.getTunnelConfig f env t).2.Shown ∧ (m.getTunnelConfig f env t).2.made = m.made := by
  unfold TunnelManager.getTunnelConfig
  split
  · exact ⟨h, rfl⟩
  · exact ⟨h.onConfigChanged _, rfl⟩

theorem Shown.getConfig (h : m.Shown) (f : Format) (env : Env) (t : Nat) :
    (m.getConfig f env t).2.Shown ∧ (m.getConfig f env t).2.made = m.made := by
  have read := h.getTunnelConfig f env t
  unfold TunnelManager.getConfig
  split
  · exact ⟨h, rfl⟩
  · generalize m.getTunnelConfig f env t = w at read
    obtain ⟨result, m'⟩ := w
    cases result <;> exact read

theorem Shown.setTunnelState (h : m.Shown) (ht : t < m.made) (state : State) :
    (m.setTunnelState f env t state).2.Shown := by
  have read := h.getConfig f env t
  unfold TunnelManager.setTunnelState
  generalize m.getConfig f env t = w at read
  obtain ⟨_ | thrown, m'⟩ := w
  · obtain ⟨h', made⟩ := read
    dsimp only at h' made ⊢
    obtain ⟨whole, others⟩ := GoBackend.setState_others h'.whole env.up t (m'.tunnel t).config state
    unfold setBackend
    dsimp only
    cases ran : m'.backend.setState env.up t (m'.tunnel t).config state with
    | mk result backend =>
      rw [ran] at whole others
      cases result with
      | error thrown =>
        cases GoBackend.setState_error h'.whole ran
        have same : m'.onStateChanged t (m'.tunnel t).state = m' := by
          unfold onStateChanged TunnelManager.update
          rw [Function.update_eq_self]
        exact (congrArg Shown same).mpr h'
      | ok newState =>
        cases GoBackend.setState_ok h'.whole ran
        refine h'.refreshed whole ?_ others
        intro u hu
        by_cases hut : u = t
        · rw [hut, made]
          exact ht
        · have hc := (others u hut).symm.trans (GoBackend.getState_eq_up.mpr hu)
          exact (h'.runs u (GoBackend.getState_eq_up.mp hc)).1
  · exact read.1

theorem Shown.addToList (h : m.Shown) (name : JString) (config : Option Config) :
    (m.addToList name config .down).2.Shown := by
  have older : ∀ u, u < m.made →
      Function.update m.tunnel m.made ⟨name, config, .down⟩ u = m.tunnel u :=
    fun u hu => Function.update_of_ne (Nat.ne_of_lt hu) _ _
  have new : (Function.update m.tunnel m.made ⟨name, config, .down⟩ m.made).state = .down := by
    rw [Function.update_self]
  refine Shown.add ⟨h.nodup, ?_, ?_, h.whole, ?_, ?_⟩ (Nat.lt_succ_self _) ?_
  · exact fun u hu => Nat.lt_succ_of_lt (h.made u hu)
  · intro u hu
    obtain ⟨made, up⟩ := h.runs u hu
    refine ⟨Nat.lt_succ_of_lt made, ?_⟩
    dsimp only
    rw [older u made]
    exact up
  · intro u
    by_cases hu : u = m.made
    · subst hu
      exact fun toggle => by cases new.symm.trans toggle
    · dsimp only
      rw [Function.update_of_ne hu]
      exact h.settled u
  · intro u hu
    dsimp only
    rw [older u (h.made u hu)]
    exact h.state u hu
  · refine new.trans ?_
    refine (if_neg ?_).symm
    intro hc
    exact Nat.lt_irrefl _ (h.runs _ hc).1

theorem Shown.create (h : m.Shown) (name : JString) (config : Option Config) :
    (m.create f env name config).2.Shown := by
  unfold TunnelManager.create
  split
  · exact h
  split
  · exact h
  generalize FileConfigStore.create f env.file m.files name config = w
  obtain ⟨result, files⟩ := w
  cases result with
  | error thrown => exact h.files files
  | ok config => exact (h.files files).addToList name (some config)

/-! ## Whole runs -/

/-- The tunnel exists. If it is shown as up, it is one of the list; a new configuration or the
old one then comes up, and so does the tunnel when it cannot be deleted. -/
def StateGuard (m : TunnelManager) (op : Operation × Env) : Prop :=
  match op.1 with
  | .create _ _ => True
  | .delete t => t < m.made ∧ ((m.tunnel t).state = .up → t ∈ m.tunnels ∧
    (((m.files (m.tunnel t).name).isSome ∧ op.2.file.delete = true) ∨
      op.2.again.comesUp (m.tunnel t).config = true))
  | .setTunnelName t _ => t < m.made
  | .setTunnelConfig t config => t < m.made ∧ ((m.tunnel t).state = .up → t ∈ m.tunnels ∧
    (op.2.up.comesUp (some config) = true ∨ op.2.again.comesUp (m.tunnel t).config = true))
  | .setTunnelState t _ => t < m.made
  | .getTunnelConfig t => t < m.made

instance (m : TunnelManager) (op : Operation × Env) : Decidable (m.StateGuard op) := by
  unfold StateGuard
  split <;> infer_instance

theorem Shown.perform {op : Operation × Env} (h : m.Shown) (hg : m.StateGuard op) :
    (m.perform f op).2.Shown := by
  obtain ⟨op, env⟩ := op
  cases op with
  | create name config => exact h.create name config
  | delete t => exact h.delete hg.1 hg.2
  | setTunnelName t name => exact h.setTunnelName hg name
  | setTunnelConfig t config => exact h.setTunnelConfig config hg.2
  | setTunnelState t state => exact h.setTunnelState hg state
  | getTunnelConfig t =>
    have read := (h.getTunnelConfig f env t).1
    unfold TunnelManager.perform
    dsimp only
    generalize m.getTunnelConfig f env t = w at read
    obtain ⟨result, m'⟩ := w
    cases result <;> exact read

theorem Shown.onTunnelsLoaded (h : m.Shown) (present : List JString) :
    (m.onTunnelsLoaded present []).Shown := by
  refine List.foldlRecOn present _ h ?_
  intro m h name _
  rw [if_neg List.not_mem_nil]
  exact h.addToList name none

end TunnelManager

theorem started_shown (files : Files) (present : List JString) : (started files present).Shown := by
  refine TunnelManager.Shown.onTunnelsLoaded ⟨List.nodup_nil, ?_, ?_, ?_, ?_, ?_⟩ present
  · intro t ht
    cases ht
  · intro t ht
    cases ht
  · exact rfl
  · intro t ht
    cases ht
  · intro t ht
    cases ht

/-- As long as every operation meets `StateGuard`, each tunnel of the list shows the state that
it has. -/
theorem shown_is_real (f : Format) (files : Files) (present : List JString)
    (ops : List (Operation × Env)) (m : TunnelManager)
    (guarded : Run.Meets (TunnelManager.step f) TunnelManager.StateGuard
      (started files present) ops)
    (run : Run.exec (TunnelManager.step f) (started files present) ops = some m) :
    ∀ t ∈ m.tunnels, (m.tunnel t).state = m.backend.getState t := by
  have h : m.Shown := by
    refine Run.exec_guarded TunnelManager.StateGuard ?_ (started_shown files present) guarded run
    intro m op m' h hg hst
    cases hst
    exact h.perform hg
  exact h.state

/-- The file cannot be deleted. -/
def undeletable : Env := { smooth with file := { smooth.file with delete := false } }

/-- Nor does any tunnel come up. -/
def failing : Env where
  file := undeletable.file
  up := { smooth.up with authorized := false }
  again := { smooth.again with authorized := false }

/-- Whether the tunnel is listed, the state it shows and the one it has. -/
def TunnelManager.looks (m : TunnelManager) (t : Nat) : Bool × State × State :=
  (decide (t ∈ m.tunnels), (m.tunnel t).state, m.backend.getState t)

theorem looks_of_run {m₀ : TunnelManager} {ops : List (Operation × Env)} {t : Nat}
    {state real : State}
    (h : (Run.exec (TunnelManager.step oneByte) m₀ ops).map (·.looks t) =
      some (true, state, real)) :
    ∃ m, Run.exec (TunnelManager.step oneByte) m₀ ops = some m ∧
      t ∈ m.tunnels ∧ (m.tunnel t).state = state ∧ m.backend.getState t = real := by
  obtain ⟨m, run, h⟩ := Option.map_eq_some_iff.mp h
  simp only [TunnelManager.looks, Prod.mk.injEq, decide_eq_true_eq] at h
  exact ⟨m, run, h⟩

/-- The new configuration is refused and the old one comes up again. -/
def refused : List (Operation × Env) :=
  [(.create (lit "a") (some emptyConfig), smooth), (.setTunnelState 0 .up, smooth),
    (.setTunnelConfig 0 emptyConfig, { smooth with up := failing.up })]

theorem shown_is_real_refused :
    ∃ m, Run.exec (TunnelManager.step oneByte) (started (fun _ => none) []) refused = some m ∧
      0 ∈ m.tunnels ∧ (m.tunnel 0).state = .up ∧
      ∀ t ∈ m.tunnels, (m.tunnel t).state = m.backend.getState t := by
  have looks : (Run.exec (TunnelManager.step oneByte) (started (fun _ => none) []) refused).map
      (·.looks 0) = some (true, .up, .up) := by
    decide +kernel
  obtain ⟨m, run, listed, up, -⟩ := looks_of_run looks
  exact ⟨m, run, listed, up, shown_is_real oneByte (fun _ => none) [] refused m
    (Run.meets_of_check (by decide +kernel)) run⟩

/-- A tunnel that is shown as up is down: after a new configuration that does not come up, and
neither does the old one; after a failed delete; and after a new configuration for a tunnel
that was deleted while it was up, which takes down another one. -/
theorem shown_up_is_down :
    (∃ m, Run.exec (TunnelManager.step oneByte) (started (fun _ => none) [])
        [(Operation.create (lit "a") (some emptyConfig), smooth), (.setTunnelState 0 .up, smooth),
          (.setTunnelConfig 0 emptyConfig, failing)] = some m ∧
      0 ∈ m.tunnels ∧ (m.tunnel 0).state = .up ∧ m.backend.getState 0 = .down) ∧
    (∃ m, Run.exec (TunnelManager.step oneByte) (started (fun _ => none) [])
        [(Operation.create (lit "a") (some emptyConfig), smooth), (.setTunnelState 0 .up, smooth),
          (.delete 0, failing)] = some m ∧
      0 ∈ m.tunnels ∧ (m.tunnel 0).state = .up ∧ m.backend.getState 0 = .down) ∧
    ∃ m, Run.exec (TunnelManager.step oneByte) (started (fun _ => none) [])
        [(Operation.create (lit "a") (some emptyConfig), smooth),
          (.create (lit "b") (some emptyConfig), smooth), (.setTunnelState 0 .up, smooth),
          (.delete 0, smooth), (.setTunnelState 1 .up, smooth),
          (.setTunnelConfig 0 emptyConfig, smooth)] = some m ∧
      1 ∈ m.tunnels ∧ (m.tunnel 1).state = .up ∧ m.backend.getState 1 = .down :=
  ⟨looks_of_run (by decide +kernel), looks_of_run (by decide +kernel),
    looks_of_run (by decide +kernel)⟩

end Sewg.App
