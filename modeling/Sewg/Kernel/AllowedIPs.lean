import Sewg.Lib.Loop
import Sewg.Lib.PtrTree
import Sewg.Lib.Trie
import Sewg.Lib.Words
import Sewg.Kernel.Receive

/-! The allowed IPs of `allowedips.c`: nodes that point to each other, keys that are
kept in the machine's byte order, and loops that walk along the pointers. Reading a
node that is not allocated, or a byte outside an array, is a fault and has no result.
Allocations succeed, and give a new address each time. -/

namespace Sewg.Kernel

open CString (Bytes)
open Words Routes PtrTree

/-- `struct allowedips_node`, but for the two pointers `bit[2]`. -/
structure NodeData (P : Type) where
  peer : Option P
  bits : Bytes
  cidr : Nat
  bit_at_a : Nat
  bit_at_b : Nat

abbrev AllowedipsNode (P : Type) := Cell (NodeData P)

/-- `kzalloc` clears what it returns. -/
def NodeData.zeroed {P : Type} : NodeData P := ⟨none, List.replicate 16 0, 0, 0, 0⟩

/-- A word written to memory. -/
def store : Endian → Nat → Nat → Bytes
  | .little, n, x => writeLE n x
  | .big, n, x => (writeLE n x).reverse

/-- `be32_to_cpu` and `be64_to_cpu`, by the word's size in bytes. -/
def beToCpu : Endian → Nat → Nat → Nat
  | .little, n, x => reverseBytes n x
  | .big, _, x => x

def swapEndian (e : Endian) (src : Bytes) (bits : Nat) : Bytes :=
  if bits = 32 then store e 4 (beToCpu e 4 (load e (src.take 4)))
  else if bits = 128 then
    store e 8 (beToCpu e 8 (load e (src.take 8))) ++
      store e 8 (beToCpu e 8 (load e ((src.drop 8).take 8)))
  else []

def copyAndAssignCidr {P : Type} (e : Endian) (node : NodeData P) (src : Bytes) (cidr bits : Nat) :
    NodeData P :=
  { node with
    cidr
    bit_at_a :=
      match e with
      | .little => (cidr / 8) ^^^ ((bits / 8 - 1) % 8)
      | .big => cidr / 8
    bit_at_b := 7 - cidr % 8
    bits := src.take (bits / 8) ++ node.bits.drop (bits / 8) }

/-- A node as it is allocated and filled in. -/
def newNode {P : Type} (e : Endian) (peer : Option P) (src : Bytes) (cidr bits : Nat) :
    NodeData P :=
  copyAndAssignCidr e { (NodeData.zeroed : NodeData P) with peer } src cidr bits

/-- The index that `choose_node(parent, key)` uses into `parent->bit`. -/
def chooseNode {P : Type} (parent : NodeData P) (key : Bytes) : Option Bool :=
  (key[parent.bit_at_a]?).map fun b => (b.toNat >>> parent.bit_at_b) &&& 1 != 0

/-- The position of the highest set bit, counted from 1. -/
def fls (x : Nat) : Nat := if x = 0 then 0 else x.log2 + 1

def fls128 (a b : Nat) : Nat := if a ≠ 0 then fls a + 64 else fls b

def commonBits {P : Type} (e : Endian) (node : NodeData P) (key : Bytes) (bits : Nat) :
    Option Nat :=
  if node.bits.length < bits / 8 ∨ key.length < bits / 8 then none
  else if bits = 32 then some (32 - fls (load e (node.bits.take 4) ^^^ load e (key.take 4)))
  else if bits = 128 then
    some (128 - fls128 (load e (node.bits.take 8) ^^^ load e (key.take 8))
      (load e ((node.bits.drop 8).take 8) ^^^ load e ((key.drop 8).take 8)))
  else some 0

section
variable {P : Type} (e : Endian) (cell : Cells (NodeData P)) (bits : Nat) (key : Bytes)

/-- One turn of the loop of `find_node`, on `node` and `found`. -/
def findNodeStep : Option Nat × Option Nat → Option ((Option Nat × Option Nat) ⊕ Option Nat)
  | (none, found) => some (.inr found)
  | (some n, found) => do
    let node ← cell n
    let common ← commonBits e node.data key bits
    if common ≥ node.data.cidr then
      let found := if node.data.peer.isSome then some n else found
      if node.data.cidr = bits then return .inr found
      else
        let i ← chooseNode node.data key
        return .inl (node.bit i, found)
    else return .inr found

def findNode (fuel : Nat) (trie : Option Nat) : Option (Option Nat) :=
  Loop.run (findNodeStep e cell bits key) fuel (trie, none)

/-- One turn of the loop of `node_placement`, on `node` and `parent`; leaves with
`exact` and the parent. -/
def nodePlacementStep (cidr : Nat) :
    Option Nat × Option Nat → Option ((Option Nat × Option Nat) ⊕ (Bool × Option Nat))
  | (none, parent) => some (.inr (false, parent))
  | (some n, parent) => do
    let node ← cell n
    if node.data.cidr ≤ cidr then
      let common ← commonBits e node.data key bits
      if common ≥ node.data.cidr then
        if node.data.cidr = cidr then return .inr (true, some n)
        else
          let i ← chooseNode node.data key
          return .inl (node.bit i, some n)
      else return .inr (false, parent)
    else return .inr (false, parent)

def nodePlacement (cidr fuel : Nat) (trie : Option Nat) : Option (Bool × Option Nat) :=
  Loop.run (nodePlacementStep e cell bits key cidr) fuel (trie, none)

end

/-- The lookup of one address. A peer in the table has a reference, so getting another
does not fail and the code does not retry. -/
def lookup {P : Type} (fuel : Nat) (e : Endian) (s : Store (NodeData P)) (bits : Nat)
    (be_ip : Bytes) : Option (Option P) := do
  let ip := swapEndian e be_ip bits
  match ← findNode e s.cell bits ip fuel s.top with
  | none => return none
  | some n => return (← s.cell n).data.peer

/-- The place that points to the node below `parent` on the way to `key`: the root's,
when there is no parent. -/
def placeBelow {P : Type} (s : Store (NodeData P)) (parent : Option Nat) (key : Bytes) :
    Option Slot :=
  match parent with
  | none => some .top
  | some n => do
    let node ← s.cell n
    let i ← chooseNode node.data key
    return .kid n i

section
variable {P : Type} (e : Endian) (s : Store (NodeData P)) (next bits : Nat) (parent : Option Nat)

/-- The end of `add` when the new prefix is the shorter one: `newnode`, filled with `data`,
goes between `parent` and `down`. Addresses are allocated from `next` on. -/
def addAbove (newnode down : Nat) (data below : NodeData P) :
    Option (Int × Store (NodeData P) × Nat) := do
  let s ← s.write (.kid newnode (← chooseNode data below.bits)) (some down)
  return (0, ← s.write (← placeBelow s parent data.bits) (some newnode), next)

/-- The end of `add` when the two prefixes part after `cidr` bits: a node without peer
goes above both. -/
def addBeside (newnode down cidr : Nat) (data below : NodeData P) :
    Option (Int × Store (NodeData P) × Nat) := do
  let node := next
  let joint := newNode e none data.bits cidr bits
  let s := s.setCell node (some ⟨joint, fun _ => none⟩)
  let s ← s.write (.kid node (← chooseNode joint below.bits)) (some down)
  let s ← s.write (.kid node (← chooseNode joint data.bits)) (some newnode)
  return (0, ← s.write (← placeBelow s parent joint.bits) (some node), next + 1)

/-- The part of `add` for a prefix that is not there yet, below `parent`. -/
def addNew (key : Bytes) (cidr : Nat) (peer : Option P) :
    Option (Int × Store (NodeData P) × Nat) := do
  let newnode := next
  let data := newNode e peer key cidr bits
  let s := s.setCell newnode (some ⟨data, fun _ => none⟩)
  let next := next + 1
  match ← s.read (← placeBelow s parent key) with
  | none => return (0, ← s.write (← placeBelow s parent key) (some newnode), next)
  | some down =>
    let below := (← s.cell down).data
    let least := min cidr (← commonBits e below key bits)
    if data.cidr = least then addAbove s next parent newnode down data below
    else addBeside e s next bits parent newnode down least data below

end

/-- `add` on the trie of `s`. -/
def add {P : Type} (fuel : Nat) (e : Endian) (s : Store (NodeData P))
    (next bits : Nat) (key : Bytes)
    (cidr : Nat) (peer : Option P) : Option (Int × Store (NodeData P) × Nat) :=
  if cidr > bits ∨ peer = none then some (-EINVAL, s, next)
  else if s.top = none then
    let data := newNode e peer key cidr bits
    some (0, { s.setCell next (some ⟨data, fun _ => none⟩) with top := some next }, next + 1)
  else do
    let (exact, parent) ← nodePlacement e s.cell bits key cidr fuel s.top
    if exact then
      let n ← parent
      let node ← s.cell n
      return (0, s.setCell n (some { node with data := { node.data with peer } }), next)
    else addNew e s next bits parent key cidr peer

/-- The loop of `walk_remove_by_peer`: the stack of places, the top first, and `prev`. -/
structure WalkState (P : Type) where
  store : Store (NodeData P)
  stack : List Slot
  prev : Option Nat

/-- `!prev || prev->bit[0] == node || prev->bit[1] == node` -/
def cameFromAbove {P : Type} (s : Store (NodeData P)) (prev : Option Nat) (node : Nat) :
    Option Bool :=
  match prev with
  | none => some true
  | some q => (s.cell q).map fun c => c.bit false == some node || c.bit true == some node

/-- The last visit of a node: it loses the peer, and its place unless it has two
branches. Gives what is in its place afterwards. -/
def removeHere {P : Type} [DecidableEq P] (peer : P) (s : Store (NodeData P))
    (nptr : Slot) (n : Nat) (node : AllowedipsNode P) : Option (Store (NodeData P) × Option Nat) :=
  if node.data.peer = some peer then
    let s := s.setCell n (some { node with data := { node.data with peer := none } })
    if node.bit false = none ∨ node.bit true = none then do
      let s ← s.write nptr (node.bit (!(node.bit false).isSome))
      let s := s.setCell n none
      return (s, ← s.read nptr)
    else some (s, some n)
  else some (s, some n)

def walkStep {P : Type} [DecidableEq P] (peer : P) (w : WalkState P) :
    Option (WalkState P ⊕ Store (NodeData P)) :=
  match w.stack with
  | [] => some (.inr w.store)
  | nptr :: rest => do
    match ← w.store.read nptr with
    | none => return .inl { w with stack := rest, prev := none }
    | some n =>
      let node ← w.store.cell n
      if ← cameFromAbove w.store w.prev n then
        if node.bit false ≠ none then
          return .inl { w with stack := .kid n false :: nptr :: rest, prev := some n }
        else if node.bit true ≠ none then
          return .inl { w with stack := .kid n true :: nptr :: rest, prev := some n }
        else return .inl { w with prev := some n }
      else if node.bit false = w.prev then
        if node.bit true ≠ none then
          return .inl { w with stack := .kid n true :: nptr :: rest, prev := some n }
        else return .inl { w with prev := some n }
      else
        let (s, left) ← removeHere peer w.store nptr n node
        return .inl ⟨s, rest, left⟩

def walkRemoveByPeer {P : Type} [DecidableEq P] (fuel : Nat) (s : Store (NodeData P))
    (peer : Option P) : Option (Store (NodeData P)) :=
  match peer, s.top with
  | some p, some _ => Loop.run (walkStep p) fuel ⟨s, [.top], none⟩
  | _, _ => some s

/-- `struct allowedips`, with the nodes it points to and the next address to allocate. -/
structure Allowedips (P : Type) where
  root4 : Option Nat
  root6 : Option Nat
  seq : Nat
  cell : Cells (NodeData P)
  next : Nat

section
variable {P : Type} (fuel : Nat) (e : Endian)

def wgAllowedipsInit : Allowedips P := ⟨none, none, 1, fun _ => none, 0⟩

def Allowedips.bumpSeq (table : Allowedips P) : Allowedips P :=
  { table with seq := (table.seq + 1) % 2 ^ 64 }

def wgAllowedipsInsertV4 (table : Allowedips P) (ip : Bytes) (cidr : Nat) (peer : Option P) :
    Option (Int × Allowedips P) := do
  let table := table.bumpSeq
  let key := swapEndian e ip 32
  let (ret, s, next) ← add fuel e ⟨table.root4, table.cell⟩ table.next 32 key cidr peer
  return (ret, { table with root4 := s.top, cell := s.cell, next })

def wgAllowedipsInsertV6 (table : Allowedips P) (ip : Bytes) (cidr : Nat) (peer : Option P) :
    Option (Int × Allowedips P) := do
  let table := table.bumpSeq
  let key := swapEndian e ip 128
  let (ret, s, next) ← add fuel e ⟨table.root6, table.cell⟩ table.next 128 key cidr peer
  return (ret, { table with root6 := s.top, cell := s.cell, next })

def wgAllowedipsRemoveByPeer [DecidableEq P] (table : Allowedips P) (peer : Option P) :
    Option (Allowedips P) := do
  let table := table.bumpSeq
  let s ← walkRemoveByPeer fuel ⟨table.root4, table.cell⟩ peer
  let table := { table with root4 := s.top, cell := s.cell }
  let s ← walkRemoveByPeer fuel ⟨table.root6, table.cell⟩ peer
  return { table with root6 := s.top, cell := s.cell }

end

end Sewg.Kernel
