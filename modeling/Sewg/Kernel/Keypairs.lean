import Mathlib.Logic.Function.Basic

/-! The keypairs of a peer in `noise.c`, with their references and the nodes of
`index_hashtable`. Allocations succeed, and the peer is not dead. -/

namespace Sewg.Kernel

/-- `ptr` numbers the keypairs as they are created. -/
structure NoiseKeypair where
  ptr : Nat
  iAmTheInitiator : Bool
  deriving DecidableEq

structure NoiseKeypairs where
  currentKeypair : Option NoiseKeypair := none
  previousKeypair : Option NoiseKeypair := none
  nextKeypair : Option NoiseKeypair := none
  deriving DecidableEq

/-- What a node of the hash table is part of. -/
inductive IndexEntry
  | handshake
  | keypair (ptr : Nat)
  deriving DecidableEq

/-- `indexHashtable` has the nodes with their indices. -/
structure KeypairState where
  keypairs : NoiseKeypairs := {}
  indexHashtable : List (UInt32 × IndexEntry) := []
  refcount : Nat → Nat := fun _ => 0
  created : Nat := 0

namespace KeypairState

/-! ## The hash table -/

/-- `wg_index_hashtable_remove`, which does nothing for an entry that is not in a list. -/
def indexRemove (s : KeypairState) (entry : IndexEntry) : KeypairState :=
  { s with indexHashtable := s.indexHashtable.filter (·.2 ≠ entry) }

/-- `wg_index_hashtable_insert`, with the last of its random draws; `none` when that one
is in use. -/
def indexInsert (s : KeypairState) (entry : IndexEntry) (index : UInt32) : Option KeypairState :=
  let s := s.indexRemove entry
  if s.indexHashtable.any (·.1 = index) then none
  else some { s with indexHashtable := (index, entry) :: s.indexHashtable }

/-- `wg_index_hashtable_replace`. -/
def indexReplace (s : KeypairState) (old new : IndexEntry) : KeypairState :=
  { s with
    indexHashtable := s.indexHashtable.map fun node => if node.2 = old
      then (node.1, new) else node }

/-- `wg_index_hashtable_lookup`. -/
def indexLookup (s : KeypairState) (index : UInt32) : Option IndexEntry :=
  (s.indexHashtable.find? (·.1 = index)).map Prod.snd

/-! ## References -/

def keypairCreate (s : KeypairState) (iAmTheInitiator : Bool) : NoiseKeypair × KeypairState :=
  (⟨s.created, iAmTheInitiator⟩,
    { s with refcount := Function.update s.refcount s.created 1, created := s.created + 1 })

/-- `wg_noise_keypair_put`. The last reference takes the keypair out of the hash table. -/
def keypairPut (s : KeypairState) (keypair : Option NoiseKeypair) (unreferenceNow : Bool) :
    KeypairState :=
  match keypair with
  | none => s
  | some keypair =>
    let s := if unreferenceNow then s.indexRemove (.keypair keypair.ptr) else s
    let refcount := s.refcount keypair.ptr - 1
    let s := { s with refcount := Function.update s.refcount keypair.ptr refcount }
    if refcount = 0 then s.indexRemove (.keypair keypair.ptr) else s

/-! ## The slots -/

/-- `wg_noise_keypairs_clear`. -/
def keypairsClear (s : KeypairState) : KeypairState :=
  let old := s.keypairs.previousKeypair
  let s := { s with keypairs := { s.keypairs with previousKeypair := none } }.keypairPut old true
  let old := s.keypairs.nextKeypair
  let s := { s with keypairs := { s.keypairs with nextKeypair := none } }.keypairPut old true
  let old := s.keypairs.currentKeypair
  { s with keypairs := { s.keypairs with currentKeypair := none } }.keypairPut old true

def addNewKeypair (s : KeypairState) (newKeypair : NoiseKeypair) : KeypairState :=
  let previousKeypair := s.keypairs.previousKeypair
  let nextKeypair := s.keypairs.nextKeypair
  let currentKeypair := s.keypairs.currentKeypair
  if newKeypair.iAmTheInitiator then
    let s :=
      if nextKeypair.isSome then
        { s with
          keypairs :=
            { s.keypairs with nextKeypair := none, previousKeypair := nextKeypair } }.keypairPut
          currentKeypair true
      else { s with keypairs := { s.keypairs with previousKeypair := currentKeypair } }
    let s := s.keypairPut previousKeypair true
    { s with keypairs := { s.keypairs with currentKeypair := some newKeypair } }
  else
    let s := { s with keypairs := { s.keypairs with nextKeypair := some newKeypair } }.keypairPut
      nextKeypair true
    { s with keypairs := { s.keypairs with previousKeypair := none } }.keypairPut
      previousKeypair true

/-- `wg_noise_received_with_keypair`, its two looks at the next keypair in one. -/
def receivedWithKeypair (s : KeypairState) (receivedPtr : Nat) : Bool × KeypairState :=
  if s.keypairs.nextKeypair.map (·.ptr) ≠ some receivedPtr then (false, s)
  else
    let received := s.keypairs.nextKeypair
    let oldKeypair := s.keypairs.previousKeypair
    let s :=
      { s with
        keypairs := { s.keypairs with previousKeypair := s.keypairs.currentKeypair } }.keypairPut
      oldKeypair true
    (true,
      { s with keypairs := { s.keypairs with currentKeypair := received, nextKeypair := none } })

/-- `wg_noise_handshake_begin_session` for a handshake that has come to its end. -/
def beginSession (s : KeypairState) (iAmTheInitiator : Bool) : KeypairState :=
  let (newKeypair, s) := s.keypairCreate iAmTheInitiator
  (s.addNewKeypair newKeypair).indexReplace .handshake (.keypair newKeypair.ptr)

end KeypairState

end Sewg.Kernel
