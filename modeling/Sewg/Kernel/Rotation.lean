import Sewg.Go.Indices
import Sewg.Kernel.Keypairs

/-! The Go implementation and the kernel pass keypairs through their slots in the same
way, and keep the same ones in their index tables. -/

namespace Sewg.Kernel
open Go (Keypair Keypairs IndexTable)

/-- What can happen to the keypairs of a peer. A session comes from a handshake with an
index that is not in use. -/
inductive RotationEvent
  | session (isInitiator : Bool) (index : UInt32)
  | received (keypair : Keypair)
  | clear

/-- `BeginSymmetricSession` for a handshake that has come to its end with this index. -/
def goSession (p : Noise.Primitives) (k : Nat) (device : Go.Device) (isInitiator : Bool)
    (index : UInt32) : Option Go.Device :=
  if (device.indexTable index).isSome then none
  else
    let h := { (device.peers k).handshake with
      localIndex := index
      state := if isInitiator then .responseConsumed else .responseCreated }
    let device := { device.setHandshake k h with
      indexTable := Function.update device.indexTable index (some ⟨k, none⟩) }
    (Go.beginSymmetricSession p device k).toOption

/-- Beside the new state, what `ReceivedWithKeypair` returned. -/
def goStep (p : Noise.Primitives) (k : Nat) (device : Go.Device) :
    RotationEvent → Option (Go.Device × Option Bool)
  | .session isInitiator index => (goSession p k device isInitiator index).map fun device =>
    (device, none)
  | .received keypair =>
    some (device.receivedWithKeypair k keypair,
      some (decide ((device.peers k).keypairs.next.map (·.ptr) = some keypair.ptr)))
  | .clear => some (device.zeroKeypairs k, none)

/-- The same in the kernel. -/
def kernelStep (s : KeypairState) : RotationEvent → Option (KeypairState × Option Bool)
  | .session isInitiator index =>
    (s.indexInsert .handshake index).map fun s => (s.beginSession isInitiator, none)
  | .received keypair =>
    let (isNew, s) := s.receivedWithKeypair keypair.ptr
    some (s, some isNew)
  | .clear => some (s.keypairsClear, none)

/-! ## What the two tables have -/

/-- A keypair as the kernel has it. -/
def inKernel (x : Keypair) : NoiseKeypair := ⟨x.ptr, x.isInitiator⟩

def slotsInKernel (keypairs : Keypairs) : NoiseKeypairs :=
  ⟨keypairs.current.map inKernel, keypairs.previous.map inKernel, keypairs.next.map inKernel⟩

/-- The table has the keypairs of `S`, at their indices, and nothing else. -/
def Registers (k : Nat) (table : IndexTable) (S : Keypair → Prop) : Prop :=
  ∀ i entry, table i = some entry ↔ ∃ x, S x ∧ x.localIndex = i ∧ entry = ⟨k, some x⟩

/-- The hash table has the keypairs of `S`, and the handshake if it has an index. -/
def Hashes (nodes : List (UInt32 × IndexEntry)) (handshake : Option UInt32)
    (S : Keypair → Prop) : Prop :=
  ∀ i entry, (i, entry) ∈ nodes ↔
    (handshake = some i ∧ entry = .handshake) ∨ ∃ x, S x ∧ x.localIndex = i ∧ entry = .keypair x.ptr

section
variable {k : Nat} {table : IndexTable} {S T : Keypair → Prop} {nodes : List (UInt32 × IndexEntry)}
  {handshake : Option UInt32}

theorem Registers.congr (hr : Registers k table S) (hST : ∀ x, S x ↔ T x) :
    Registers k table T := by
  have : S = T := funext fun x => propext (hST x)
  exact this ▸ hr

theorem Registers.unique (hr : Registers k table S) {x y : Keypair} (hx : S x) (hy : S y)
    (h : x.localIndex = y.localIndex) : x = y := by
  have ex := (hr x.localIndex ⟨k, some x⟩).mpr ⟨x, hx, rfl, rfl⟩
  have ey := (hr x.localIndex ⟨k, some y⟩).mpr ⟨y, hy, h.symm, rfl⟩
  rw [ex] at ey
  cases ey
  rfl

theorem Registers.deleteKeypair (hr : Registers k table S) {slot : Option Keypair}
    (hs : ∀ y, slot = some y → S y) :
    Registers k (table.deleteKeypair slot) fun y => S y ∧ slot ≠ some y := by
  cases slot with
  | none => simpa [Registers, IndexTable.deleteKeypair] using hr
  | some z =>
    intro i entry
    rw [IndexTable.deleteKeypair, IndexTable.delete]
    by_cases hi : i = z.localIndex
    · subst hi
      rw [Function.update_self]
      refine iff_of_false (Option.some_ne_none entry).symm ?_
      rintro ⟨x, ⟨hx, hne⟩, hxi, -⟩
      exact hne (congrArg some (hr.unique (hs z rfl) hx hxi.symm))
    · rw [Function.update_of_ne hi, hr i entry]
      constructor
      · rintro ⟨x, hx, rfl, rfl⟩
        refine ⟨x, ⟨hx, ?_⟩, rfl, rfl⟩
        rintro ⟨⟩
        exact hi rfl
      · rintro ⟨x, ⟨hx, -⟩, hxi, he⟩
        exact ⟨x, hx, hxi, he⟩

theorem Registers.insert (hr : Registers k table S) {i : UInt32} (hfree : table i = none)
    {x : Keypair} (hx : x.localIndex = i) :
    Registers k (Function.update table i (some ⟨k, some x⟩)) fun y => S y ∨ y = x := by
  intro j entry
  by_cases hj : j = i
  · subst hj
    rw [Function.update_self]
    constructor
    · rintro ⟨⟩
      exact ⟨x, .inr rfl, hx, rfl⟩
    · rintro ⟨y, hy | rfl, hyj, rfl⟩
      · exact absurd ((hr j _).mpr ⟨y, hy, hyj, rfl⟩) (by rw [hfree]; nofun)
      · rfl
  · rw [Function.update_of_ne hj, hr j entry]
    constructor
    · rintro ⟨y, hy, hyj, he⟩
      exact ⟨y, .inl hy, hyj, he⟩
    · rintro ⟨y, hy | rfl, hyj, he⟩
      · exact ⟨y, hy, hyj, he⟩
      · exact absurd (hyj.symm.trans hx) hj

/-- The nodes without that of a keypair in a slot. -/
def without (nodes : List (UInt32 × IndexEntry)) (slot : Option Keypair) :
    List (UInt32 × IndexEntry) :=
  match slot with
  | none => nodes
  | some x => nodes.filter (·.2 ≠ .keypair x.ptr)

theorem Hashes.congr (hn : Hashes nodes handshake S) (hST : ∀ x, S x ↔ T x) :
    Hashes nodes handshake T := by
  have : S = T := funext fun x => propext (hST x)
  exact this ▸ hn

theorem Hashes.without (hn : Hashes nodes handshake S)
    (hptr : ∀ x y, S x → S y → x.ptr = y.ptr → x = y)
    {slot : Option Keypair} (hs : ∀ y, slot = some y → S y) :
    Hashes (without nodes slot) handshake fun y => S y ∧ slot ≠ some y := by
  cases slot with
  | none => simpa [Hashes, Kernel.without] using hn
  | some z =>
    intro i entry
    rw [Kernel.without, List.mem_filter, hn i entry, decide_eq_true_iff]
    constructor
    · rintro ⟨⟨hh, rfl⟩ | ⟨x, hx, rfl, rfl⟩, hne⟩
      · exact .inl ⟨hh, rfl⟩
      · refine .inr ⟨x, ⟨hx, ?_⟩, rfl, rfl⟩
        rintro ⟨⟩
        exact hne rfl
    · rintro (⟨hh, rfl⟩ | ⟨x, ⟨hx, hne⟩, rfl, rfl⟩)
      · exact ⟨.inl ⟨hh, rfl⟩, nofun⟩
      · refine ⟨.inr ⟨x, hx, rfl, rfl⟩, ?_⟩
        intro he
        exact hne (congrArg some (hptr z x (hs z rfl) hx (IndexEntry.keypair.inj he).symm))

theorem Hashes.mem_index (hn : Hashes nodes none S) {i : UInt32} :
    nodes.any (·.1 = i) = true ↔ ∃ x, S x ∧ x.localIndex = i := by
  rw [List.any_eq_true]
  constructor
  · rintro ⟨⟨j, entry⟩, hmem, hj⟩
    obtain rfl : j = i := of_decide_eq_true hj
    rcases (hn j entry).mp hmem with ⟨hh, -⟩ | ⟨x, hx, hxj, -⟩
    · cases hh
    · exact ⟨x, hx, hxj⟩
  · rintro ⟨x, hx, rfl⟩
    exact ⟨_, (hn _ _).mpr (.inr ⟨x, hx, rfl, rfl⟩), decide_eq_true rfl⟩

theorem Hashes.insert (hn : Hashes nodes none S) (i : UInt32) :
    Hashes ((i, .handshake) :: nodes) (some i) S := by
  intro j entry
  rw [List.mem_cons, hn j entry, Prod.mk.injEq]
  constructor
  · rintro (⟨rfl, rfl⟩ | ⟨hh, -⟩ | hx)
    · exact .inl ⟨rfl, rfl⟩
    · cases hh
    · exact .inr hx
  · rintro (⟨hh, rfl⟩ | hx)
    · cases hh
      exact .inl ⟨rfl, rfl⟩
    · exact .inr (.inr hx)

theorem Hashes.replace {i : UInt32} {x : Keypair} (hx : x.localIndex = i)
    (hn : Hashes nodes (some i) fun y => S y ∧ y ≠ x) (hS : S x) :
    Hashes (nodes.map fun node => if node.2 = .handshake then (node.1, .keypair x.ptr)
      else node) none S := by
  intro j entry
  rw [List.mem_map]
  constructor
  · rintro ⟨⟨j', entry'⟩, hmem, heq⟩
    right
    rcases (hn j' entry').mp hmem with ⟨hh, rfl⟩ | ⟨y, hy, rfl, rfl⟩
    · rw [if_pos rfl] at heq
      cases heq
      exact ⟨x, hS, hx.trans (Option.some.inj hh), rfl⟩
    · rw [if_neg nofun] at heq
      cases heq
      exact ⟨y, hy.1, rfl, rfl⟩
  · rintro (⟨hh, -⟩ | ⟨y, hy, rfl, rfl⟩)
    · cases hh
    · by_cases hyx : y = x
      · subst hyx
        exact ⟨(i, .handshake), (hn _ _).mpr (.inl ⟨rfl, rfl⟩), by rw [if_pos rfl, hx]⟩
      · exact ⟨_, (hn _ _).mpr (.inr ⟨y, ⟨hy, hyx⟩, rfl, rfl⟩), if_neg nofun⟩

end

/-! ## One event -/

theorem keypairPut_fields (s : KeypairState) (slot : Option Keypair) :
    (s.keypairPut (slot.map inKernel) true).keypairs = s.keypairs ∧
      (s.keypairPut (slot.map inKernel) true).created = s.created ∧
      (s.keypairPut (slot.map inKernel) true).indexHashtable = without s.indexHashtable slot := by
  cases slot with
  | none => exact ⟨rfl, rfl, rfl⟩
  | some x =>
    simp only [KeypairState.keypairPut, Option.map_some, inKernel, if_true,
      KeypairState.indexRemove]
    split
    · exact ⟨rfl, rfl, by simp [without]⟩
    · exact ⟨rfl, rfl, rfl⟩

@[simp] theorem keypairPut_keypairs (s : KeypairState) (slot : Option Keypair) :
    (s.keypairPut (slot.map inKernel) true).keypairs = s.keypairs := (keypairPut_fields s slot).1

@[simp] theorem keypairPut_created (s : KeypairState) (slot : Option Keypair) :
    (s.keypairPut (slot.map inKernel) true).created = s.created := (keypairPut_fields s slot).2.1

@[simp] theorem keypairPut_indexHashtable (s : KeypairState) (slot : Option Keypair) :
    (s.keypairPut (slot.map inKernel) true).indexHashtable = without s.indexHashtable slot :=
  (keypairPut_fields s slot).2.2

section
variable {s : KeypairState} {g : Keypairs} {x : Keypair} {table : IndexTable}
  {handshake : Option UInt32}

theorem addNewKeypair_fields (hs : s.keypairs = slotsInKernel g) (x : Keypair)
    (table : IndexTable) :
    (s.addNewKeypair (inKernel x)).keypairs = slotsInKernel (Go.rotate g x table).1 ∧
      (s.addNewKeypair (inKernel x)).created = s.created := by
  unfold KeypairState.addNewKeypair Go.rotate
  rw [hs]
  cases hx : x.isInitiator with
  | true => cases hnext : g.next <;> simp [inKernel, hx, hnext, slotsInKernel]
  | false => simp [inKernel, hx, slotsInKernel]

theorem addNewKeypair_indexHashtable (hs : s.keypairs = slotsInKernel g) :
    (s.addNewKeypair (inKernel x)).indexHashtable =
      if x.isInitiator then
        without (if g.next.isSome then without s.indexHashtable g.current
          else s.indexHashtable) g.previous
      else without (without s.indexHashtable g.next) g.previous := by
  unfold KeypairState.addNewKeypair
  rw [hs]
  cases hx : x.isInitiator with
  | true => cases hnext : g.next <;> simp [inKernel, hx, hnext, slotsInKernel]
  | false => simp [inKernel, hx, slotsInKernel]

theorem addNewKeypair_hashes (hs : s.keypairs = slotsInKernel g)
    (hn : Hashes s.indexHashtable handshake g.Has)
    (hptr : ∀ x y, g.Has x → g.Has y → x.ptr = y.ptr → x = y) (hd : g.Distinct) (hx : ¬ g.Has x)
    (table : IndexTable) :
    Hashes (s.addNewKeypair (inKernel x)).indexHashtable handshake
      fun y => (Go.rotate g x table).1.Has y ∧ y ≠ x := by
  rw [addNewKeypair_indexHashtable hs]
  unfold Go.rotate
  cases x.isInitiator with
  | true =>
    cases hnext : g.next with
    | none =>
      have hprevious := hn.without hptr fun y (hy : g.previous = some y) => .inl hy
      refine hprevious.congr fun y => ?_
      grind [Keypairs.Has, Keypairs.Distinct]
    | some next =>
      have hcurrent := hn.without hptr fun y (hy : g.current = some y) => .inr (.inl hy)
      have hprevious := hcurrent.without (fun x y hx hy => hptr x y hx.1 hy.1)
        fun y (hy : g.previous = some y) => ⟨.inl hy, ((hd y).1 hy).1⟩
      refine hprevious.congr fun y => ?_
      grind [Keypairs.Has, Keypairs.Distinct]
  | false =>
    have hnext := hn.without hptr fun y (hy : g.next = some y) => .inr (.inr hy)
    have hprevious := hnext.without (fun x y hx hy => hptr x y hx.1 hy.1)
      fun y (hy : g.previous = some y) => ⟨.inl hy, ((hd y).1 hy).2⟩
    refine hprevious.congr fun y => ?_
    grind [Keypairs.Has, Keypairs.Distinct]

end

/-- The two peers have the same keypairs in their slots, and both index tables have
these and no others. -/
structure Agrees (k : Nat) (device : Go.Device) (s : KeypairState) : Prop where
  slots : s.keypairs = slotsInKernel (device.peers k).keypairs
  created : s.created = (device.peers k).sessions.length
  registers : Registers k device.indexTable (device.peers k).keypairs.Has
  hashes : Hashes s.indexHashtable none (device.peers k).keypairs.Has
  sound : (device.peers k).Sound
  ptrs : ∀ x y, (device.peers k).keypairs.Has x → (device.peers k).keypairs.Has y →
    x.ptr = y.ptr → x = y

section
variable {p : Noise.Primitives} {k : Nat} {device device' : Go.Device} {s : KeypairState}

theorem goSession_eq (isInitiator : Bool) {index : UInt32}
    (hfree : device.indexTable index = none) :
    ∃ x : Keypair, x.ptr = (device.peers k).sessions.length ∧ x.isInitiator = isInitiator ∧
      x.localIndex = index ∧ ∃ device', goSession p k device isInitiator index = some device' ∧
        (device'.peers k).keypairs = (Go.rotate (device.peers k).keypairs x
          (Function.update device.indexTable index (some ⟨k, some x⟩))).1 ∧
        (device'.peers k).sessions = x :: (device.peers k).sessions ∧
        device'.indexTable = (Go.rotate (device.peers k).keypairs x
          (Function.update device.indexTable index (some ⟨k, some x⟩))).2 := by
  let h : Go.Handshake := { (device.peers k).handshake with
    localIndex := index
    state := if isInitiator then .responseConsumed else .responseCreated }
  obtain ⟨send, receive, hkeys⟩ :
      ∃ send receive, Go.sessionKeys p h = some (send, receive, isInitiator) := by
    cases isInitiator with
    | true => exact ⟨_, _, rfl⟩
    | false => exact ⟨_, _, rfl⟩
  let x : Keypair :=
    ⟨(device.peers k).sessions.length, send, receive, isInitiator, index,
      (device.peers k).handshake.remoteIndex⟩
  have hswap :
      IndexTable.swapIndexForKeypair (Function.update device.indexTable index
        (some ⟨k, none⟩)) index x =
      Function.update device.indexTable index (some ⟨k, some x⟩) := by
    rw [Go.swapIndexForKeypair_some (Function.update_self ..), Function.update_idem]
  have hbegin : Go.beginSession p { device.peers k with handshake := h }
      (Function.update device.indexTable index (some ⟨k, none⟩)) =
      .ok (⟨h.finish, (Go.rotate (device.peers k).keypairs x
          (Function.update device.indexTable index (some ⟨k, some x⟩))).1, x ::
            (device.peers k).sessions⟩,
        (Go.rotate (device.peers k).keypairs x
          (Function.update device.indexTable index (some ⟨k, some x⟩))).2) := by
    rw [← hswap]
    simp only [Go.beginSession, hkeys]
    rfl
  refine ⟨x, rfl, rfl, rfl, ?_⟩
  rw [goSession, hfree, Option.isSome_none, if_neg Bool.false_ne_true]
  simp only [Go.beginSymmetricSession, Go.Device.setHandshake, Function.update_self]
  rw [show ({ (device.peers k) with handshake := { (device.peers k).handshake with
      localIndex := index
      state := if isInitiator then Go.HandshakeState.responseConsumed
        else .responseCreated } } : Go.Peer) =
    { device.peers k with handshake := h } from rfl, hbegin]
  refine ⟨_, rfl, ?_, ?_, rfl⟩
  · simp
  · simp

/-- An index is in use in both tables or in neither. -/
theorem Agrees.used_iff (ha : Agrees k device s) (index : UInt32) :
    s.indexHashtable.any (·.1 = index) = true ↔ (device.indexTable index).isSome := by
  rw [ha.hashes.mem_index, Option.isSome_iff_exists]
  constructor
  · rintro ⟨x, hx, hi⟩
    exact ⟨_, (ha.registers index _).mpr ⟨x, hx, hi, rfl⟩⟩
  · rintro ⟨entry, he⟩
    obtain ⟨x, hx, hi, -⟩ := (ha.registers index entry).mp he
    exact ⟨x, hx, hi⟩

theorem Agrees.no_handshake (ha : Agrees k device s) : s.indexRemove .handshake = s := by
  have hfilter : s.indexHashtable.filter (·.2 ≠ .handshake) = s.indexHashtable := by
    rw [List.filter_eq_self]
    rintro ⟨i, entry⟩ hmem
    rcases (ha.hashes i entry).mp hmem with ⟨hh, -⟩ | ⟨x, -, -, rfl⟩
    · cases hh
    · rfl
  rw [KeypairState.indexRemove, hfilter]

theorem Agrees.session (ha : Agrees k device s) (isInitiator : Bool) {index : UInt32}
    (hfree : device.indexTable index = none) :
    ∃ device' s', goSession p k device isInitiator index = some device' ∧
      s.indexInsert .handshake index = some s' ∧
      Agrees k device' (s'.beginSession isInitiator) := by
  obtain ⟨x, hptr, hinit, hindex, device', hgo, hslots, hsessions, htable⟩ :=
    goSession_eq (p := p) (k := k) isInitiator hfree
  have hunused : ¬ s.indexHashtable.any (·.1 = index) = true := by
    rw [ha.used_iff, hfree]
    nofun
  have hinsert : s.indexInsert .handshake index =
      some { s with indexHashtable := (index, .handshake) :: s.indexHashtable } := by
    rw [KeypairState.indexInsert, ha.no_handshake]
    exact if_neg hunused
  refine ⟨device', _, hgo, hinsert, ?_⟩
  have hnew : ¬ (device.peers k).keypairs.Has x := fun hx =>
    Nat.lt_irrefl _ (hptr ▸ ha.sound.numbered x hx)
  have hx : (⟨s.created, isInitiator⟩ : NoiseKeypair) = inKernel x := by
    rw [inKernel, hptr, hinit, ha.created]
  have hadd : KeypairState.beginSession
      { s with indexHashtable := (index, .handshake) :: s.indexHashtable } isInitiator =
      (KeypairState.addNewKeypair { s with
        indexHashtable := (index, .handshake) :: s.indexHashtable
        refcount := Function.update s.refcount s.created 1
        created := s.created + 1 } (inKernel x)).indexReplace .handshake (.keypair x.ptr) := by
    rw [KeypairState.beginSession, KeypairState.keypairCreate, hx]
    rfl
  rw [hadd]
  have hfields := addNewKeypair_fields (s := { s with
    indexHashtable := (index, .handshake) :: s.indexHashtable
    refcount := Function.update s.refcount s.created 1
    created := s.created + 1 }) ha.slots x
      (Function.update device.indexTable index (some ⟨k, some x⟩))
  have hnodes := addNewKeypair_hashes (s := { s with
    indexHashtable := (index, .handshake) :: s.indexHashtable
    refcount := Function.update s.refcount s.created 1
    created := s.created + 1 }) ha.slots (ha.hashes.insert index) ha.ptrs ha.sound.distinct hnew
    (Function.update device.indexTable index (some ⟨k, some x⟩))
  refine ⟨?_, ?_, ?_, ?_, ⟨?_, ?_⟩, ?_⟩
  · rw [hslots]
    exact hfields.1
  · rw [hsessions]
    exact hfields.2.trans (congrArg (· + 1) ha.created)
  · rw [htable, hslots]
    exact Go.rotate_deletes (K := Registers k) (fun _ _ _ hr hs => hr.deleteKeypair hs)
      (ha.registers.insert hfree hindex) ha.sound.distinct hnew
  · rw [hslots]
    exact hnodes.replace hindex (Go.rotate_has _ _)
  · rw [hslots]
    exact Go.rotate_distinct hnew
  · intro y hy
    rw [hslots] at hy
    rw [hsessions, List.length_cons]
    rcases Go.has_of_rotate hy with hy | rfl
    · exact Nat.lt_succ_of_lt (ha.sound.numbered y hy)
    · exact Nat.lt_succ_of_le (Nat.le_of_eq hptr)
  · intro y z hy hz hyz
    rw [hslots] at hy hz
    have hfresh : ∀ y, (device.peers k).keypairs.Has y → y.ptr ≠ x.ptr := fun y hy he =>
      absurd (ha.sound.numbered y hy) (by rw [he, hptr]; exact Nat.lt_irrefl _)
    rcases Go.has_of_rotate hy with oldY | newY
    · rcases Go.has_of_rotate hz with oldZ | newZ
      · exact ha.ptrs y z oldY oldZ hyz
      · exact absurd (newZ ▸ hyz) (hfresh y oldY)
    · rcases Go.has_of_rotate hz with oldZ | newZ
      · exact absurd (newY ▸ hyz).symm (hfresh z oldZ)
      · exact newY.trans newZ.symm

theorem Agrees.fewer (ha : Agrees k device s) {s' : KeypairState}
    (hslots : s'.keypairs = slotsInKernel (device'.peers k).keypairs)
    (hcreated : s'.created = s.created)
    (hsessions : (device'.peers k).sessions = (device.peers k).sessions)
    (hreg : Registers k device'.indexTable (device'.peers k).keypairs.Has)
    (hnodes : Hashes s'.indexHashtable none (device'.peers k).keypairs.Has)
    (hd : (device'.peers k).keypairs.Distinct)
    (hold : ∀ y, (device'.peers k).keypairs.Has y → (device.peers k).keypairs.Has y) :
    Agrees k device' s' := by
  refine ⟨hslots, ?_, hreg, hnodes, ⟨hd, ?_⟩, fun x y hx hy => ha.ptrs x y (hold x hx) (hold y hy)⟩
  · rw [hcreated, hsessions, ha.created]
  · intro y hy
    rw [hsessions]
    exact ha.sound.numbered y (hold y hy)

theorem Agrees.received (ha : Agrees k device s) (keypair : Keypair) :
    Agrees k (device.receivedWithKeypair k keypair) (s.receivedWithKeypair keypair.ptr).2 ∧
      decide ((device.peers k).keypairs.next.map (·.ptr) = some keypair.ptr) =
        (s.receivedWithKeypair keypair.ptr).1 := by
  have hnext : s.keypairs.nextKeypair.map (·.ptr) = (device.peers k).keypairs.next.map (·.ptr) := by
    rw [ha.slots, slotsInKernel, Option.map_map]
    rfl
  unfold Go.Device.receivedWithKeypair KeypairState.receivedWithKeypair
  dsimp only
  rw [hnext]
  split
  · rename_i hne
    exact ⟨ha, decide_eq_false hne⟩
  · rename_i heq
    refine ⟨?_, decide_eq_true (not_not.mp heq)⟩
    have hd := ha.sound.distinct
    have hreg := ha.registers.deleteKeypair
      fun y (hy : (device.peers k).keypairs.previous = some y) => .inl hy
    have hnodes := ha.hashes.without ha.ptrs
      fun y (hy : (device.peers k).keypairs.previous = some y) => .inl hy
    have hhas :
        ∀ y, ((device.peers k).keypairs.Has y ∧ (device.peers k).keypairs.previous ≠ some y) ↔
        Keypairs.Has ⟨(device.peers k).keypairs.next,
            (device.peers k).keypairs.current, none⟩ y := by
      intro y
      grind [Keypairs.Has, Keypairs.Distinct]
    rw [ha.slots]
    refine ha.fewer ?_ ?_ ?_ ?_ ?_ ?_ ?_
    · simp [slotsInKernel]
    · simp [slotsInKernel]
    · simp
    · simpa using hreg.congr hhas
    · simpa [slotsInKernel] using hnodes.congr hhas
    · simp only [Function.update_self]
      grind [Keypairs.Distinct]
    · intro y hy
      simp only [Function.update_self] at hy
      exact ((hhas y).mpr hy).1

theorem Agrees.clear (ha : Agrees k device s) :
    Agrees k (device.zeroKeypairs k) s.keypairsClear := by
  have hd := ha.sound.distinct
  have hreg :=
    Go.slots_deleted (K := Registers k) (fun _ _ _ hr hs => hr.deleteKeypair hs) ha.registers hd
  have hprevious := ha.hashes.without ha.ptrs fun y
    (hy : (device.peers k).keypairs.previous = some y) => .inl hy
  have hnext := hprevious.without (fun x y hx hy => ha.ptrs x y hx.1 hy.1) fun y
    (hy : (device.peers k).keypairs.next = some y) => ⟨.inr (.inr hy), fun he => ((hd y).1 he).2 hy⟩
  have hcurrent := hnext.without (fun x y hx hy => ha.ptrs x y hx.1.1 hy.1.1) fun y
    (hy : (device.peers k).keypairs.current = some y) =>
      ⟨⟨.inr (.inl hy), fun he => ((hd y).1 he).1 hy⟩, fun he => (hd y).2 hy he⟩
  have hnone :
      ∀ y, ((((device.peers k).keypairs.Has y ∧ (device.peers k).keypairs.previous ≠ some y) ∧
      (device.peers k).keypairs.next ≠ some y) ∧ (device.peers k).keypairs.current ≠ some y) ↔
      ({} : Keypairs).Has y := by
    intro y
    grind [Keypairs.Has]
  unfold KeypairState.keypairsClear Go.Device.zeroKeypairs
  rw [ha.slots]
  refine ha.fewer ?_ ?_ ?_ ?_ ?_ ?_ ?_
  · simp [slotsInKernel]
  · simp [slotsInKernel]
  · simp
  · simpa using hreg
  · simpa [slotsInKernel] using hcurrent.congr hnone
  · simp [Keypairs.Distinct]
  · simp [Keypairs.Has]

/-! ## All events -/

theorem Agrees.step (ha : Agrees k device s) (e : RotationEvent) :
    Option.Rel (fun x y => Agrees k x.1 y.1 ∧ x.2 = y.2) (goStep p k device e)
      (kernelStep s e) := by
  cases e with
  | session isInitiator index =>
    rw [goStep, kernelStep]
    cases hfree : device.indexTable index with
    | none =>
      obtain ⟨device', s', hgo, hinsert, hagrees⟩ := ha.session (p := p) isInitiator hfree
      rw [hgo, hinsert]
      exact .some ⟨hagrees, rfl⟩
    | some entry =>
      have hused : s.indexHashtable.any (·.1 = index) = true := by
        rw [ha.used_iff, hfree]
        rfl
      have hgo : goSession p k device isInitiator index = none := by
        rw [goSession, hfree]
        exact if_pos rfl
      have hinsert : s.indexInsert .handshake index = none := by
        rw [KeypairState.indexInsert, ha.no_handshake]
        exact if_pos hused
      rw [hgo, hinsert]
      exact .none
  | received keypair =>
    obtain ⟨hagrees, hanswer⟩ := ha.received keypair
    exact .some ⟨hagrees, congrArg some hanswer⟩
  | clear => exact .some ⟨ha.clear, rfl⟩

theorem Agrees.lookup (ha : Agrees k device s) (i : UInt32) (ptr : Nat) :
    s.indexLookup i = some (.keypair ptr) ↔ ∃ x, device.indexTable i = some ⟨k, some x⟩ ∧
      x.ptr = ptr := by
  rw [KeypairState.indexLookup, Option.map_eq_some_iff]
  constructor
  · rintro ⟨⟨j, entry⟩, hfind, rfl⟩
    obtain rfl : j = i := of_decide_eq_true (List.find?_some hfind :)
    rcases (ha.hashes _ _).mp (List.mem_of_find?_eq_some hfind) with ⟨hh, -⟩ | ⟨x, hx, hi, he⟩
    · cases hh
    · exact ⟨x, (ha.registers _ _).mpr ⟨x, hx, hi, rfl⟩, (IndexEntry.keypair.inj he).symm⟩
  · rintro ⟨x, hentry, rfl⟩
    obtain ⟨y, hy, hi, he⟩ := (ha.registers _ _).mp hentry
    cases he
    have hmem : (i, IndexEntry.keypair x.ptr) ∈ s.indexHashtable :=
      (ha.hashes _ _).mpr (.inr ⟨x, hy, hi, rfl⟩)
    cases hfind : s.indexHashtable.find? (·.1 = i) with
    | none => exact absurd (decide_eq_true rfl) (List.find?_eq_none.mp hfind _ hmem)
    | some node =>
      obtain ⟨j, entry⟩ := node
      obtain rfl : j = i := of_decide_eq_true (List.find?_some hfind :)
      rcases (ha.hashes _ _).mp (List.mem_of_find?_eq_some hfind) with ⟨hh, -⟩ | ⟨z, hz, hzi, rfl⟩
      · cases hh
      · obtain rfl := ha.registers.unique hz hy (hzi.trans hi.symm)
        exact ⟨_, rfl, rfl⟩

end

theorem agrees_new {k : Nat} {device : Go.Device} (hu : Go.Unused device)
    (hsessions : (device.peers k).sessions = []) : Agrees k device {} := by
  have hempty : ∀ x, ¬ (device.peers k).keypairs.Has x := by simp [hu.keypairs, Keypairs.Has]
  refine ⟨?_, ?_, ?_, ?_, hu.right.sound k, fun x y hx => absurd hx (hempty x)⟩
  · rw [hu.keypairs]
    rfl
  · rw [hsessions]
    rfl
  · intro i entry
    rw [hu.table]
    refine iff_of_false (Option.some_ne_none entry).symm ?_
    rintro ⟨x, hx, -⟩
    exact hempty x hx
  · intro i entry
    refine iff_of_false (by simp) ?_
    rintro (⟨hh, -⟩ | ⟨x, hx, -⟩)
    · cases hh
    · exact hempty x hx

/-- Whatever happens, the two have the same keypairs in the same slots, find the same
keypairs by index, and have given the same answers. -/
theorem rotation_agrees (p : Noise.Primitives) (k : Nat) (device : Go.Device)
    (hu : Go.Unused device)
    (hsessions : (device.peers k).sessions = []) (events : List RotationEvent) :
    Option.Rel
      (fun go kernel =>
        kernel.1.keypairs = slotsInKernel (go.1.peers k).keypairs ∧
        (∀ i ptr, kernel.1.indexLookup i = some (.keypair ptr) ↔
          ∃ x, go.1.indexTable i = some ⟨k, some x⟩ ∧ x.ptr = ptr) ∧
        go.2 = kernel.2)
      (Run.answers (goStep p k) device events) (Run.answers kernelStep {} events) := by
  have hrun := Run.answers_related (R := Agrees k) (fun _ _ e ha => ha.step (p := p) e)
    (agrees_new hu hsessions) events
  generalize Run.answers (goStep p k) device events = go at hrun ⊢
  generalize Run.answers kernelStep {} events = kernel at hrun ⊢
  cases hrun with
  | none => exact .none
  | some hxy => exact .some ⟨hxy.1.slots, hxy.1.lookup, hxy.2⟩

/-- A session as the responder, its first packet, and a session as the initiator. -/
def twoSessions : List RotationEvent :=
  [.session false 5, .received ⟨0, [], [], false, 5, 0⟩, .session true 6]

theorem rotation_agrees_twoSessions :
    (Run.answers kernelStep {} twoSessions).map Prod.snd = some [none, some true, none] ∧
    Option.Rel
      (fun go kernel =>
        kernel.1.keypairs = slotsInKernel (go.1.peers 0).keypairs ∧
        (∀ i ptr, kernel.1.indexLookup i = some (.keypair ptr) ↔
          ∃ x, go.1.indexTable i = some ⟨0, some x⟩ ∧ x.ptr = ptr) ∧
        go.2 = kernel.2)
      (Run.answers (goStep Noise.plain 0) Go.newDevice twoSessions)
        (Run.answers kernelStep {} twoSessions) :=
  ⟨by decide, rotation_agrees Noise.plain 0 Go.newDevice ⟨fun _ => rfl, fun _ => rfl,
    fun _ => rfl⟩ rfl twoSessions⟩

end Sewg.Kernel
