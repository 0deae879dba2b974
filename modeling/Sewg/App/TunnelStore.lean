import Sewg.App.TunnelManager
import Sewg.Lib.Run

/-! The list of the tunnels and the files of the store, along any operations. They have the
same names as long as a new file is written and a file made for a new name goes away again
when the renaming fails. -/

namespace Sewg.App
open CString (Bytes)

namespace TunnelManager
variable {m m' m'' : TunnelManager} {t : Nat}

/-! ## What the backend leaves alone -/

/-- The list, the names and the files are the same. -/
structure Alike (m m' : TunnelManager) : Prop where
  name : ∀ t, (m'.tunnel t).name = (m.tunnel t).name
  made : m'.made = m.made
  tunnels : m'.tunnels = m.tunnels
  files : m'.files = m.files

theorem Alike.refl (m : TunnelManager) : Alike m m := ⟨fun _ => rfl, rfl, rfl, rfl⟩

theorem Alike.trans (h : Alike m m') (h' : Alike m' m'') : Alike m m'' :=
  ⟨fun t => (h'.name t).trans (h.name t), h'.made.trans h.made, h'.tunnels.trans h.tunnels,
    h'.files.trans h.files⟩

theorem update_alike {g : Tunnel → Tunnel} (hg : ∀ x, (g x).name = x.name) :
    Alike m (m.update t g) := by
  refine ⟨?_, rfl, rfl, rfl⟩
  intro u
  unfold update
  dsimp only
  by_cases hu : u = t
  · rw [hu, Function.update_self, hg]
  · rw [Function.update_of_ne hu]

theorem onConfigChanged_alike (config : Config) : Alike m (m.onConfigChanged t config) :=
  update_alike fun _ => rfl

theorem onStateChanged_alike (state : State) : Alike m (m.onStateChanged t state) :=
  update_alike fun _ => rfl

theorem backend_alike (backend : GoBackend) : Alike m { m with backend } :=
  ⟨fun _ => rfl, rfl, rfl, rfl⟩

theorem setIfUp_alike (env : UpEnv) (original state : State) :
    Alike m (m.setIfUp env t original state).2 := by
  unfold setIfUp setBackend
  split
  · dsimp only
    generalize m.backend.setState env t (m.tunnel t).config state = w
    obtain ⟨result, backend⟩ := w
    cases result <;> exact backend_alike backend
  · exact .refl m

theorem applyConfig_alike (env : Env) (config : Config) :
    Alike m (m.applyConfig env t config).2 := by
  unfold applyConfig
  split
  · dsimp only
    generalize m.backend.bringDown.bringUp env.up t (some config) = w
    obtain ⟨_ | thrown, backend⟩ := w
    · exact backend_alike backend
    · dsimp only
      generalize backend.bringUp env.again t (m.tunnel t).config = w
      obtain ⟨_ | thrown, backend⟩ := w <;> exact backend_alike backend
  · exact .refl m

theorem getTunnelConfig_alike (f : Format) (env : Env) :
    Alike m (m.getTunnelConfig f env t).2 := by
  unfold getTunnelConfig
  split
  · exact .refl m
  · exact onConfigChanged_alike _

theorem getConfig_alike (f : Format) (env : Env) : Alike m (m.getConfig f env t).2 := by
  have h : Alike m (m.getTunnelConfig f env t).2 := getTunnelConfig_alike f env
  unfold getConfig
  split
  · exact .refl m
  · generalize m.getTunnelConfig f env t = w at h
    obtain ⟨result, m'⟩ := w
    cases result <;> exact h

theorem setTunnelState_alike (f : Format) (env : Env) (state : State) :
    Alike m (m.setTunnelState f env t state).2 := by
  have h : Alike m (m.getConfig f env t).2 := getConfig_alike f env
  unfold setTunnelState
  generalize m.getConfig f env t = w at h
  obtain ⟨_ | thrown, m'⟩ := w
  · unfold setBackend
    dsimp only at h ⊢
    generalize m'.backend.setState env.up t (m'.tunnel t).config state = w
    obtain ⟨result, backend⟩ := w
    cases result <;> exact (h.trans (backend_alike backend)).trans (onStateChanged_alike _)
  · exact h

/-! ## The tunnels that are stored -/

/-- Tunnels with names of their own. -/
structure Named (m : TunnelManager) (l : List Nat) : Prop where
  distinct : ∀ t ∈ l, ∀ u ∈ l, (m.tunnel t).name = (m.tunnel u).name → t = u
  nodup : l.Nodup
  made : ∀ t ∈ l, t < m.made

/-- The tunnels of `l` are those that have a file. -/
structure Stored (m : TunnelManager) (l : List Nat) : Prop extends Named m l where
  agrees : ∀ name, (∃ t ∈ l, (m.tunnel t).name = name) ↔ (m.files name).isSome

variable {l : List Nat}

theorem Named.others (h : m.Named (t :: l)) {u : Nat} (hu : u ∈ l) :
    u ≠ t ∧ (m.tunnel u).name ≠ (m.tunnel t).name := by
  have hut : u ≠ t := fun same => (List.nodup_cons.mp h.nodup).1 (same ▸ hu)
  exact ⟨hut, fun same => hut (h.distinct u (List.mem_cons_of_mem _ hu) t List.mem_cons_self same)⟩

theorem Named.add (h : m.Named (t :: m.tunnels)) :
    m.add t = (none, { m with tunnels := t :: m.tunnels }) := by
  have none_same : m.tunnels.find? (fun u => (m.tunnel u).name = (m.tunnel t).name) = none := by
    refine List.find?_eq_none.mpr ?_
    intro u hu same
    exact (h.others hu).2 (of_decide_eq_true same)
  unfold TunnelManager.add
  rw [none_same]

theorem Stored.alike (h : m.Stored l) (h' : Alike m m') : m'.Stored l where
  distinct t ht u hu hn := h.distinct t ht u hu (by rwa [h'.name, h'.name] at hn)
  nodup := h.nodup
  made t ht := by
    rw [h'.made]
    exact h.made t ht
  agrees name := by
    simp only [h'.name, h'.files]
    exact h.agrees name

theorem Stored.perm {l' : List Nat} (h : m.Stored l) (hl : l.Perm l') : m.Stored l' where
  distinct t ht u hu := h.distinct t (hl.mem_iff.mpr ht) u (hl.mem_iff.mpr hu)
  nodup := hl.nodup_iff.mp h.nodup
  made t ht := h.made t (hl.mem_iff.mpr ht)
  agrees name := by
    simp only [← hl.mem_iff]
    exact h.agrees name

theorem Stored.tunnels (h : m.Stored l) (tunnels : List Nat) : Stored { m with tunnels } l :=
  ⟨⟨h.distinct, h.nodup, h.made⟩, h.agrees⟩

theorem Stored.remove (h : m.Stored m.tunnels) (ht : t ∈ m.tunnels) :
    (m.remove t).Stored (t :: (m.remove t).tunnels) :=
  (h.perm (List.perm_cons_erase ht)).tunnels _

theorem Stored.file (h : m.Stored l) (ht : t ∈ l) : (m.files (m.tunnel t).name).isSome :=
  (h.agrees _).mp ⟨t, ht, rfl⟩

theorem Stored.name_ne (h : m.Stored l) {name : JString} (free : m.files name = none)
    (ht : t ∈ l) : (m.tunnel t).name ≠ name := by
  rintro rfl
  have := h.file ht
  rw [free] at this
  cases this

theorem Stored.deleted (h : m.Stored (t :: l)) :
    Stored { m with files := Function.update m.files (m.tunnel t).name none } l where
  distinct u hu v hv := h.distinct u (List.mem_cons_of_mem _ hu) v (List.mem_cons_of_mem _ hv)
  nodup := (List.nodup_cons.mp h.nodup).2
  made u hu := h.made u (List.mem_cons_of_mem _ hu)
  agrees name := by
    have others : ∀ u ∈ l, (m.tunnel u).name ≠ (m.tunnel t).name := fun u hu => (h.others hu).2
    by_cases hn : name = (m.tunnel t).name
    · subst hn
      dsimp only
      rw [Function.update_self]
      simpa using others
    · dsimp only
      rw [Function.update_of_ne hn, ← h.agrees name]
      simp [Ne.symm hn]

theorem Stored.written (h : m.Stored l) {name : JString} (there : (m.files name).isSome)
    (text : Bytes) : Stored { m with files := Function.update m.files name (some text) } l where
  toNamed := ⟨h.distinct, h.nodup, h.made⟩
  agrees name' := by
    rw [h.agrees name']
    dsimp only
    by_cases hn : name' = name
    · subst hn
      rw [Function.update_self]
      simpa using there
    · rw [Function.update_of_ne hn]

/-- The file is moved to its new name, and the tunnel gets it. -/
def renamed (m : TunnelManager) (t : Nat) (name : JString) : TunnelManager :=
  let files := Function.update m.files (m.tunnel t).name none
  let files := Function.update files name (m.files (m.tunnel t).name)
  { m with files }.onNameChanged t name

section
variable {name : JString}

theorem renamed_name_self : ((m.renamed t name).tunnel t).name = name := by
  unfold renamed onNameChanged update
  dsimp only
  rw [Function.update_self]

theorem renamed_tunnel_of_ne {u : Nat} (hu : u ≠ t) :
    (m.renamed t name).tunnel u = m.tunnel u :=
  Function.update_of_ne hu _ _

theorem renamed_files_self : (m.renamed t name).files name = m.files (m.tunnel t).name :=
  Function.update_self ..

theorem renamed_files_of_ne {name' : JString} (hn : name' ≠ name)
    (ho : name' ≠ (m.tunnel t).name) : (m.renamed t name).files name' = m.files name' := by
  refine (Function.update_of_ne hn _ _).trans ?_
  exact Function.update_of_ne ho _ _

theorem Alike.renamed (h : Alike m m') : Alike (m.renamed t name) (m'.renamed t name) := by
  refine ⟨?_, h.made, h.tunnels, ?_⟩
  · intro u
    by_cases hu : u = t
    · rw [hu, renamed_name_self, renamed_name_self]
    · rw [renamed_tunnel_of_ne hu, renamed_tunnel_of_ne hu, h.name]
  · unfold TunnelManager.renamed
    rw [h.name, h.files]
    rfl

theorem Stored.renamed (h : m.Stored (t :: l)) (free : m.files name = none) :
    (m.renamed t name).Stored (t :: l) := by
  have old := h.name_ne free List.mem_cons_self
  have others : ∀ u ∈ l, (m.renamed t name).tunnel u = m.tunnel u :=
    fun u hu => renamed_tunnel_of_ne (h.others hu).1
  have apart : ∀ u ∈ l, (m.tunnel u).name ≠ name :=
    fun u hu => h.name_ne free (List.mem_cons_of_mem _ hu)
  have names : ∀ name', (∃ u ∈ t :: l, ((m.renamed t name).tunnel u).name = name') ↔
      name = name' ∨ ∃ u ∈ l, (m.tunnel u).name = name' := by
    intro name'
    rw [List.exists_mem_cons_iff, renamed_name_self]
    refine or_congr_right (exists_congr fun u => and_congr_right fun hu => ?_)
    rw [others u hu]
  refine ⟨⟨?_, h.nodup, h.made⟩, ?_⟩
  · intro u hu v hv same
    rcases List.mem_cons.mp hu with rfl | hul <;> rcases List.mem_cons.mp hv with rfl | hvl
    · rfl
    · rw [renamed_name_self, others v hvl] at same
      exact absurd same.symm (apart v hvl)
    · rw [renamed_name_self, others u hul] at same
      exact absurd same (apart u hul)
    · rw [others u hul, others v hvl] at same
      exact h.distinct u hu v hv same
  · intro name'
    rw [names]
    by_cases hn : name' = name
    · subst hn
      rw [renamed_files_self]
      simp [h.file List.mem_cons_self]
    · by_cases ho : name' = (m.tunnel t).name
      · subst ho
        have gone : (m.renamed t name).files (m.tunnel t).name = none :=
          (Function.update_of_ne hn _ _).trans (Function.update_self ..)
        rw [gone]
        simpa [old.symm] using fun u hu => (h.others hu).2
      · rw [renamed_files_of_ne hn ho, ← h.agrees name']
        simp [Ne.symm hn, Ne.symm ho]

end

/-- With a new tunnel. -/
def listed (m : TunnelManager) (x : Tunnel) : TunnelManager :=
  { m with
    tunnel := Function.update m.tunnel m.made x
    made := m.made + 1
    tunnels := m.made :: m.tunnels }

section
variable {x : Tunnel} (h : m.Named m.tunnels)
include h

theorem Named.older {u : Nat} (hu : u ∈ m.tunnels) : (m.listed x).tunnel u = m.tunnel u :=
  Function.update_of_ne (Nat.ne_of_lt (h.made u hu)) _ _

theorem Named.listed_names (name : JString) :
    (∃ t ∈ (m.listed x).tunnels, ((m.listed x).tunnel t).name = name) ↔
      x.name = name ∨ ∃ t ∈ m.tunnels, (m.tunnel t).name = name := by
  have new : (m.listed x).tunnel m.made = x := Function.update_self ..
  refine (List.exists_mem_cons_iff ..).trans ?_
  rw [new]
  refine or_congr_right (exists_congr fun u => and_congr_right fun hu => ?_)
  rw [h.older hu]

theorem Named.listed (new : ∀ u ∈ m.tunnels, (m.tunnel u).name ≠ x.name) :
    (m.listed x).Named (m.listed x).tunnels := by
  have self : (m.listed x).tunnel m.made = x := Function.update_self ..
  refine ⟨?_, List.nodup_cons.mpr ⟨fun hm => Nat.lt_irrefl _ (h.made _ hm), h.nodup⟩, ?_⟩
  · intro u hu v hv same
    rcases List.mem_cons.mp hu with rfl | hul <;> rcases List.mem_cons.mp hv with rfl | hvl
    · rfl
    · rw [self, h.older hvl] at same
      exact absurd same.symm (new v hvl)
    · rw [self, h.older hul] at same
      exact absurd same (new u hul)
    · rw [h.older hul, h.older hvl] at same
      exact h.distinct u hul v hvl same
  · intro u hu
    rcases List.mem_cons.mp hu with rfl | hu
    · exact Nat.lt_succ_self _
    · exact Nat.lt_succ_of_lt (h.made u hu)

theorem Named.addToList {name : JString} {config : Option Config} {state : State}
    (new : ∀ u ∈ m.tunnels, (m.tunnel u).name ≠ name) :
    m.addToList name config state = (none, m.listed ⟨name, config, state⟩) := by
  have h' := h.listed (x := ⟨name, config, state⟩) new
  unfold TunnelManager.addToList
  exact Named.add ⟨h'.distinct, h'.nodup, h'.made⟩

end

/-! ## What the operations do to them -/

/-- Every tunnel of the list is still there, with the text that it had. -/
def Keeps (m m' : TunnelManager) : Prop :=
  ∀ t ∈ m.tunnels, t ∈ m'.tunnels ∧ m'.files (m'.tunnel t).name = m.files (m.tunnel t).name

theorem Alike.keeps (h : Alike m m') : m.Keeps m' := by
  intro t ht
  rw [h.tunnels, h.name, h.files]
  exact ⟨ht, rfl⟩

/-- After an operation the list agrees with the store, and an exception has kept the texts. -/
def Sound (m : TunnelManager) (result : Option Thrown × TunnelManager) : Prop :=
  result.2.Stored result.2.tunnels ∧ (result.1.isSome → m.Keeps result.2)

theorem Stored.sound_of_alike (h : m.Stored m.tunnels) (h' : Alike m m') (thrown : Option Thrown) :
    m.Sound (thrown, m') := by
  refine ⟨?_, fun _ => h'.keeps⟩
  dsimp only
  rw [h'.tunnels]
  exact h.alike h'

section
variable {env : Env}

theorem deleteWork_cases (env : Env) (m : TunnelManager) (t : Nat) (original : State) :
    ∃ m', Alike m m' ∧
      (m.deleteWork env t original =
        (none, { m' with files := Function.update m'.files (m'.tunnel t).name none }) ∨
      ∃ thrown, m.deleteWork env t original = (some thrown, m')) := by
  have down : Alike m (m.setIfUp env.up t original .down).2 := setIfUp_alike _ _ _
  unfold deleteWork
  generalize m.setIfUp env.up t original .down = w at down
  obtain ⟨_ | thrown, m₁⟩ := w
  · dsimp only at down ⊢
    unfold FileConfigStore.delete
    by_cases deleted : (m₁.files (m₁.tunnel t).name).isSome ∧ env.file.delete
    · rw [if_pos deleted]
      exact ⟨m₁, down, .inl rfl⟩
    · rw [if_neg deleted]
      have up : Alike m₁ (m₁.setIfUp env.again t original .up).2 := setIfUp_alike _ _ _
      dsimp only
      generalize m₁.setIfUp env.again t original .up = w at up
      obtain ⟨_ | thrown, m₂⟩ := w <;> exact ⟨m₂, down.trans up, .inr ⟨_, rfl⟩⟩
  · exact ⟨m₁, down, .inr ⟨thrown, rfl⟩⟩

/-- A tunnel that left the list is put back with a file of its own. -/
theorem Stored.putBack (h : m'.Stored (t :: m.tunnels.erase t)) (ht : t ∈ m.tunnels)
    (away : m'.tunnels = m.tunnels.erase t)
    (texts : ∀ u ∈ m.tunnels, m'.files (m'.tunnel u).name = m.files (m.tunnel u).name)
    (thrown : Option Thrown) : m.Sound (thrown, (m'.add t).2) := by
  rw [← away] at h
  unfold Sound
  dsimp only
  rw [h.add]
  refine ⟨h.tunnels _, fun _ u hu => ⟨?_, texts u hu⟩⟩
  dsimp only
  rw [away]
  exact (List.perm_cons_erase ht).mem_iff.mp hu

theorem Stored.kept (h : m.Stored m.tunnels) (ht : t ∈ m.tunnels) (h' : Alike (m.remove t) m')
    (thrown : Option Thrown) : m.Sound (thrown, (m'.add t).2) := by
  refine putBack ((h.remove ht).alike h') ht h'.tunnels ?_ thrown
  intro u _
  rw [h'.name, h'.files]
  rfl

theorem Stored.delete (h : m.Stored m.tunnels) (ht : t ∈ m.tunnels) : m.Sound (m.delete env t) := by
  obtain ⟨m', h', ran | ⟨thrown, ran⟩⟩ :=
    deleteWork_cases env (m.remove t) t (m.tunnel t).state
  · have hs := (h.remove ht).alike h'
    rw [← h'.tunnels] at hs
    unfold TunnelManager.delete
    dsimp only
    rw [ran]
    exact ⟨hs.deleted, fun failed => by cases failed⟩
  · unfold TunnelManager.delete
    dsimp only
    rw [ran]
    exact h.kept ht h' _

/-- The file that was made for the new name is gone again, or has become the tunnel's. -/
theorem rename_cases {files : Files} {name replacement : JString} (there : (files name).isSome)
    (free : files replacement = none)
    (tidy : env.file.createNewFile = none → env.file.renameTo = true ∨ env.file.delete = true) :
    FileConfigStore.rename env.file files name replacement =
        (none, Function.update (Function.update files name none) replacement (files name)) ∨
      ∃ thrown, FileConfigStore.rename env.file files name replacement = (some thrown, files) := by
  have apart : name ≠ replacement := by
    rintro rfl
    rw [free] at there
    cases there
  unfold FileConfigStore.rename
  cases made : env.file.createNewFile with
  | some thrown => exact .inr ⟨thrown, rfl⟩
  | none =>
    dsimp only
    rw [if_neg (by simp [free]), Function.update_of_ne apart]
    cases moved : env.file.renameTo with
    | true =>
      refine .inl ?_
      rw [if_pos ⟨there, rfl⟩, Function.update_comm apart.symm, Function.update_idem]
    | false =>
      have deleted := (tidy made).resolve_left (by simp [moved])
      refine .inr ⟨.cannotRename name, ?_⟩
      rw [if_neg (by simp), if_pos deleted, Function.update_idem, ← free, Function.update_eq_self]

theorem renameWork_cases {name : JString} (original : State)
    (there : (m.files (m.tunnel t).name).isSome) (free : m.files name = none)
    (tidy : env.file.createNewFile = none → env.file.renameTo = true ∨ env.file.delete = true) :
    ∃ m', (Alike m m' ∧ ∃ thrown, m.renameWork env t name original = (some thrown, m')) ∨
      (Alike (m.renamed t name) m' ∧
        ∃ result, m.renameWork env t name original = (result, m')) := by
  have down : Alike m (m.setIfUp env.up t original .down).2 := setIfUp_alike _ _ _
  unfold renameWork
  generalize m.setIfUp env.up t original .down = w at down
  obtain ⟨_ | thrown, m₁⟩ := w
  · dsimp only at down ⊢
    rw [← down.files, ← down.name] at there
    rcases rename_cases there ((congrFun down.files name).trans free) tidy with ran | ⟨thrown, ran⟩
    · rw [ran]
      exact ⟨_, .inr ⟨down.renamed.trans (setIfUp_alike env.again original .up), _, rfl⟩⟩
    · rw [ran]
      exact ⟨m₁, .inl ⟨down, thrown, rfl⟩⟩
  · exact ⟨m₁, .inl ⟨down, thrown, rfl⟩⟩

theorem Stored.moved {name : JString} (h : m.Stored m.tunnels) (ht : t ∈ m.tunnels)
    (free : m.files name = none) (h' : Alike ((m.remove t).renamed t name) m')
    (thrown : Option Thrown) : m.Sound (thrown, (m'.add t).2) := by
  refine putBack (((h.remove ht).renamed free).alike h') ht h'.tunnels ?_ thrown
  intro u hu
  rw [h'.name, h'.files]
  by_cases hut : u = t
  · subst hut
    rw [renamed_name_self, renamed_files_self]
    rfl
  · rw [renamed_tunnel_of_ne hut]
    refine renamed_files_of_ne (h.name_ne free hu) ?_
    exact fun same => hut (h.distinct u hu t ht same)

/-- A tunnel may get this name. -/
def Takes (m : TunnelManager) (name : JString) : Prop :=
  isNameInvalid name = false ∧ m.containsKey name = false

instance (m : TunnelManager) (name : JString) : Decidable (m.Takes name) :=
  inferInstanceAs (Decidable (_ ∧ _))

theorem Stored.setTunnelName {name : JString} (h : m.Stored m.tunnels)
    (guard : m.Takes name → t ∈ m.tunnels ∧ (env.file.createNewFile = none →
      env.file.renameTo = true ∨ env.file.delete = true)) :
    m.Sound (m.setTunnelName env t name) := by
  unfold TunnelManager.setTunnelName
  split
  · exact h.sound_of_alike (.refl m) _
  split
  · exact h.sound_of_alike (.refl m) _
  rename_i valid new
  obtain ⟨ht, tidy⟩ := guard ⟨by simpa using valid, by simpa using new⟩
  have free : m.files name = none := by
    rw [← Option.not_isSome_iff_eq_none, ← h.agrees name]
    simpa [containsKey] using new
  have there : ((m.remove t).files ((m.remove t).tunnel t).name).isSome := h.file ht
  dsimp only
  obtain ⟨m', ⟨h', thrown, ran⟩ | ⟨h', result, ran⟩⟩ :=
    renameWork_cases (m.tunnel t).state there free tidy
  · rw [ran]
    exact h.kept ht (h'.trans (onStateChanged_alike _)) _
  · rw [ran]
    cases result with
    | none => exact h.moved ht free h' _
    | some thrown => exact h.moved ht free (h'.trans (onStateChanged_alike _)) _

theorem Stored.addToList {name : JString} (h : m.Stored m.tunnels) (free : m.files name = none)
    (text : Bytes) (config : Option Config) (state : State) :
    m.Sound ({ m with files := Function.update m.files name (some text) }.addToList
      name config state) := by
  have named : Named { m with files := Function.update m.files name (some text) } m.tunnels :=
    ⟨h.distinct, h.nodup, h.made⟩
  have new : ∀ u ∈ m.tunnels, (m.tunnel u).name ≠ name := fun u hu => h.name_ne free hu
  rw [named.addToList new]
  refine ⟨⟨named.listed new, ?_⟩, fun failed => by cases failed⟩
  intro name'
  refine (named.listed_names name').trans ?_
  dsimp only [listed]
  by_cases hn : name' = name
  · subst hn
    simp
  · rw [Function.update_of_ne hn, ← h.agrees name']
    simp [Ne.symm hn]

theorem Stored.create {f : Format} {name : JString} {config : Option Config}
    (h : m.Stored m.tunnels)
    (written : m.Takes name → env.file.createNewFile = none → m.files name = none →
      config.isSome ∧ env.file.write = none) :
    m.Sound (m.create f env name config) := by
  unfold TunnelManager.create
  split
  · exact h.sound_of_alike (.refl m) _
  split
  · exact h.sound_of_alike (.refl m) _
  rename_i valid new
  unfold FileConfigStore.create
  cases made : env.file.createNewFile with
  | some thrown => exact h.sound_of_alike (.refl m) _
  | none =>
    dsimp only
    cases there : m.files name with
    | some text => exact h.sound_of_alike (.refl m) _
    | none =>
      obtain ⟨given, whole⟩ := written ⟨by simpa using valid, by simpa using new⟩ made there
      obtain ⟨config, rfl⟩ := Option.isSome_iff_exists.mp given
      rw [if_neg (by simp)]
      unfold FileConfigStore.write
      rw [whole]
      dsimp only
      rw [Function.update_idem]
      exact h.addToList there _ _ _

theorem Stored.setTunnelConfig {f : Format} {config : Config} (h : m.Stored m.tunnels)
    (whole : (m.applyConfig env t config).1.isOk → (m.files (m.tunnel t).name).isSome →
      env.file.write = none) :
    m.Sound (m.setTunnelConfig f env t config) := by
  have applied : Alike m (m.applyConfig env t config).2 := applyConfig_alike env config
  unfold TunnelManager.setTunnelConfig
  generalize m.applyConfig env t config = w at applied whole
  obtain ⟨result, m₁⟩ := w
  cases result with
  | error thrown => exact h.sound_of_alike applied _
  | ok config =>
    dsimp only at applied ⊢
    unfold FileConfigStore.save
    by_cases there : (m₁.files (m₁.tunnel t).name).isSome
    · rw [if_pos there]
      have whole := whole rfl (by rw [← applied.files, ← applied.name]; exact there)
      unfold FileConfigStore.write
      rw [whole]
      refine ⟨?_, fun failed => by cases failed⟩
      have hs := h.alike applied
      rw [← applied.tunnels] at hs
      exact (hs.written there _).alike (onConfigChanged_alike _)
    · rw [if_neg there]
      exact h.sound_of_alike applied _

end

/-- A new file gets its text, and a file that was made for a new name goes away when the
renaming fails. Only tunnels of the list are renamed or deleted. An operation that does not get
to the store meets the guard. -/
def StoreGuard (m : TunnelManager) (op : Operation × Env) : Prop :=
  match op.1 with
  | .create name config =>
    m.Takes name → op.2.file.createNewFile = none → m.files name = none →
      config.isSome ∧ op.2.file.write = none
  | .delete t => t ∈ m.tunnels
  | .setTunnelName t name =>
    m.Takes name → t ∈ m.tunnels ∧ (op.2.file.createNewFile = none →
      op.2.file.renameTo = true ∨ op.2.file.delete = true)
  | .setTunnelConfig t config =>
    (m.applyConfig op.2 t config).1.isOk → (m.files (m.tunnel t).name).isSome →
      op.2.file.write = none
  | .setTunnelState _ _ => True
  | .getTunnelConfig _ => True

instance (m : TunnelManager) (op : Operation × Env) : Decidable (m.StoreGuard op) := by
  obtain ⟨operation, env⟩ := op
  cases operation <;> unfold StoreGuard <;> infer_instance

theorem Stored.perform {f : Format} {op : Operation × Env} (h : m.Stored m.tunnels)
    (hg : m.StoreGuard op) : m.Sound (m.perform f op) := by
  obtain ⟨op, env⟩ := op
  cases op with
  | create name config => exact h.create hg
  | delete t => exact h.delete hg
  | setTunnelName t name => exact h.setTunnelName hg
  | setTunnelConfig t config => exact h.setTunnelConfig hg
  | setTunnelState t state => exact h.sound_of_alike (setTunnelState_alike f env state) _
  | getTunnelConfig t =>
    have read : Alike m (m.getTunnelConfig f env t).2 := getTunnelConfig_alike f env
    unfold TunnelManager.perform
    dsimp only
    generalize m.getTunnelConfig f env t = w at read
    obtain ⟨result, m'⟩ := w
    cases result <;> exact h.sound_of_alike read _

/-! ## Whole runs -/

/-- The names that have been gone through are listed. -/
theorem onTunnelsLoaded_stored {present : List JString} (running names : List JString)
    (h : m.Named m.tunnels)
    (agrees : ∀ name, (∃ t ∈ m.tunnels, (m.tunnel t).name = name) ↔ name ∈ names)
    (nodup : present.Nodup) (new : ∀ name ∈ present, name ∉ names) :
    (m.onTunnelsLoaded present running).Named (m.onTunnelsLoaded present running).tunnels ∧
      (m.onTunnelsLoaded present running).files = m.files ∧
      ∀ name, (∃ t ∈ (m.onTunnelsLoaded present running).tunnels,
        ((m.onTunnelsLoaded present running).tunnel t).name = name) ↔
          name ∈ present ∨ name ∈ names := by
  induction present generalizing m names with
  | nil => exact ⟨h, rfl, by simpa [onTunnelsLoaded] using agrees⟩
  | cons name rest ih =>
    obtain ⟨fresh, nodup⟩ := List.nodup_cons.mp nodup
    let x : Tunnel := ⟨name, none, if name ∈ running then .up else .down⟩
    have free : ∀ u ∈ m.tunnels, (m.tunnel u).name ≠ x.name := by
      intro u hu same
      exact new name List.mem_cons_self ((agrees name).mp ⟨u, hu, same⟩)
    have first : m.onTunnelsLoaded (name :: rest) running =
        (m.listed x).onTunnelsLoaded rest running := by
      unfold onTunnelsLoaded
      rw [List.foldl_cons, h.addToList free]
    rw [first]
    obtain ⟨named, files, names'⟩ := ih (name :: names) (h.listed free)
      (fun name' => by rw [h.listed_names, agrees, List.mem_cons, eq_comm]) nodup
      fun name' hn => by
        rintro (_ | ⟨_, hm⟩)
        · exact fresh hn
        · exact new name' (List.mem_cons_of_mem _ hn) hm
    refine ⟨named, files, ?_⟩
    intro name'
    rw [names', List.mem_cons, List.mem_cons]
    tauto

end TunnelManager

/-- The names that `enumerate` finds. -/
structure Enumerates (files : Files) (present : List JString) : Prop where
  nodup : present.Nodup
  names : ∀ name, name ∈ present ↔ (files name).isSome

theorem Enumerates.started_stored {files : Files} {present : List JString}
    (h : Enumerates files present) :
    (started files present).Stored (started files present).tunnels := by
  obtain ⟨named, same, names⟩ := TunnelManager.onTunnelsLoaded_stored [] []
    (m := ⟨fun _ => ⟨[], none, .down⟩, 0, [], files, ⟨none, none⟩⟩)
    ⟨by simp, List.nodup_nil, by simp⟩ (by simp) h.nodup (by simp)
  refine ⟨named, ?_⟩
  intro name
  refine (names name).trans ?_
  rw [show (started files present).files = files from same, ← h.names name]
  simp

/-- As long as every operation meets `StoreGuard`, the names of the tunnels are those of the
files, and an operation that fails leaves every tunnel its text. -/
theorem listed_as_stored (f : Format) {files : Files} {present : List JString}
    (enumerated : Enumerates files present) (ops : List (Operation × Env)) (m : TunnelManager)
    (guarded : Run.Meets (TunnelManager.step f) TunnelManager.StoreGuard
      (started files present) ops)
    (run : Run.exec (TunnelManager.step f) (started files present) ops = some m) :
    (∀ name, (∃ t ∈ m.tunnels, (m.tunnel t).name = name) ↔ (m.files name).isSome) ∧
    ∀ op thrown m', m.StoreGuard op → m.perform f op = (some thrown, m') → m.Keeps m' := by
  have h : m.Stored m.tunnels := by
    refine Run.exec_guarded (P := fun m => m.Stored m.tunnels) TunnelManager.StoreGuard ?_
      enumerated.started_stored guarded run
    intro m op m' h hg hst
    cases hst
    exact (h.perform hg).1
  refine ⟨h.agrees, ?_⟩
  intro op thrown m' hg ran
  have sound := (h.perform (f := f) hg).2
  rw [ran] at sound
  exact sound rfl

def fullDisk : Env :=
  { smooth with file := { smooth.file with write := some (.system "ENOSPC", []) } }

def stuck : Env := { smooth with file := { smooth.file with renameTo := false, delete := false } }

/-- Whether the name is listed and has a file. -/
def TunnelManager.knows (m : TunnelManager) (name : JString) : Bool × Bool :=
  (m.containsKey name, (m.files name).isSome)

theorem knows_of_run {m₀ : TunnelManager} {ops : List (Operation × Env)} {name : JString}
    {listed stored : Bool}
    (h : (Run.exec (TunnelManager.step oneByte) m₀ ops).map (·.knows name) =
      some (listed, stored)) :
    ∃ m, Run.exec (TunnelManager.step oneByte) m₀ ops = some m ∧
      m.containsKey name = listed ∧ (m.files name).isSome = stored := by
  obtain ⟨m, run, h⟩ := Option.map_eq_some_iff.mp h
  exact ⟨m, run, Prod.mk.inj h⟩

def creation : List (Operation × Env) :=
  [(.create (lit "a") (some emptyConfig), smooth), (.setTunnelName 0 (lit "b"), smooth)]

theorem listed_as_stored_renamed :
    ∃ m, Run.exec (TunnelManager.step oneByte) (started (fun _ => none) []) creation = some m ∧
      (m.files (lit "b")).isSome ∧
      ∀ name, (∃ t ∈ m.tunnels, (m.tunnel t).name = name) ↔ (m.files name).isSome := by
  have knows : (Run.exec (TunnelManager.step oneByte) (started (fun _ => none) []) creation).map
      (·.knows (lit "b")) = some (true, true) := by
    decide +kernel
  obtain ⟨m, run, -, stored⟩ := knows_of_run knows
  refine ⟨m, run, stored, ?_⟩
  exact (listed_as_stored oneByte ⟨List.nodup_nil, by simp⟩ creation m
    (Run.meets_of_check (by decide +kernel)) run).1

/-- A file stays without a tunnel when its text cannot be written, and when a renaming fails
and the file for the new name cannot be deleted. A tunnel stays without a file when it is
deleted twice. -/
theorem listed_unlike_stored :
    (∃ m, Run.exec (TunnelManager.step oneByte) (started (fun _ => none) [])
        [(Operation.create (lit "a") (some emptyConfig), fullDisk)] = some m ∧
      m.containsKey (lit "a") = false ∧ (m.files (lit "a")).isSome = true) ∧
    (∃ m, Run.exec (TunnelManager.step oneByte) (started (fun _ => none) [])
        [(Operation.create (lit "a") (some emptyConfig), smooth),
          (.setTunnelName 0 (lit "b"), stuck)] = some m ∧
      m.containsKey (lit "b") = false ∧ (m.files (lit "b")).isSome = true) ∧
    ∃ m, Run.exec (TunnelManager.step oneByte) (started (fun _ => none) [])
        [(Operation.create (lit "a") (some emptyConfig), smooth), (.delete 0, smooth),
          (.delete 0, smooth)] = some m ∧
      m.containsKey (lit "a") = true ∧ (m.files (lit "a")).isSome = false :=
  ⟨knows_of_run (by decide +kernel), knows_of_run (by decide +kernel),
    knows_of_run (by decide +kernel)⟩

end Sewg.App
