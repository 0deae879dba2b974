import Sewg.Lib.TreeWalk
import Sewg.Kernel.AllowedTable

/-! The walks of `allowedips.c` that keep a stack of nodes: `root_free_rcu`, which frees a
trie, and `walk_by_peer`, which hands the prefixes of a peer to a callback and can be gone
on with after the callback has failed. The stacks are lists, the top first; how high they
become is looked at separately. -/

namespace Sewg.Kernel

open CString (Bytes)
open Words PtrTree Loop

section
variable {P : Type}

/-- `push_rcu` of the two branches of a node that was taken from the stack. -/
def pushBranches (node : AllowedipsNode P) (stack : List Nat) : List Nat :=
  push (node.bit true) (push (node.bit false) stack)

/-- One turn of the loop of `root_free_rcu`. -/
def rootFreeStep (w : Cells (NodeData P) × List Nat) :
    Option (Cells (NodeData P) × List Nat ⊕ Cells (NodeData P)) :=
  match w.2 with
  | [] => some (.inr w.1)
  | n :: rest => do
    let node ← w.1 n
    return .inl (Function.update w.1 n none, pushBranches node rest)

/-! ### Listing -/

inductive Family where
  | inet
  | inet6
deriving DecidableEq

/-- `address_family` -/
def familyOf (bits : Nat) : Family := if bits = 32 then .inet else .inet6

/-- The callback, with its context: what it returns and the context afterwards. -/
abbrev Callback (σ : Type) := σ → Bytes → Nat → Family → Int × σ

/-- The address of a node in network order, with the bits behind the prefix cleared. -/
def nodeIp (e : Endian) (node : NodeData P) (bits : Nat) : Bytes :=
  let cidrBytes := (node.cidr + 7) / 8
  let ip := swapEndian e node.bits bits
  let ip := ip.take cidrBytes ++ List.replicate (bits / 8 - cidrBytes) 0
  if node.cidr ≠ 0
    then ip.modify (cidrBytes - 1) (· &&& (0xff <<< UInt8.ofNat ((8 - node.cidr % 8) % 8)))
  else ip

variable [DecidableEq P] {σ : Type} (func : Callback σ) (e : Endian)

/-- One turn of the loop of `walk_by_peer`: the callback is called for a node of the peer.
If it fails the node stays on the stack. -/
def walkByPeerStep (m : Cells (NodeData P)) (bits : Nat) (peer : Option P) (w : List Nat × σ) :
    Option (List Nat × σ ⊕ Int × List Nat × σ) :=
  match w.1 with
  | [] => some (.inr (0, [], w.2))
  | n :: rest => do
    let node ← m n
    if node.data.peer ≠ peer then return .inl (pushBranches node rest, w.2)
    else
      let (ret, ctx) := func w.2 (nodeIp e node.data bits) node.data.cidr (familyOf bits)
      if ret ≠ 0 then return .inr (ret, n :: rest, ctx)
      else return .inl (pushBranches node rest, ctx)

def walkByPeer (fuel : Nat) (m : Cells (NodeData P)) (top : Option Nat) (bits : Nat)
    (peer : Option P) (stack : List Nat) (ctx : σ) : Option (Int × List Nat × σ) :=
  match top with
  | none => some (0, stack, ctx)
  | some root => Loop.run (walkByPeerStep func e m bits peer) fuel
      (if stack = [] then [root] else stack, ctx)

/-- `struct allowedips_cursor` -/
structure AllowedipsCursor where
  seq : Nat
  stack : List Nat
  secondHalf : Bool

/-- As `memset` leaves it. -/
def AllowedipsCursor.zeroed : AllowedipsCursor := ⟨0, [], false⟩

def walkSecondHalf (fuel : Nat) (table : Allowedips P) (peer : Option P)
    (stack : List Nat) (ctx : σ) : Option (Int × AllowedipsCursor × σ) := do
  let (ret, stack, ctx) ← walkByPeer func e fuel table.cell table.root6 128 peer stack ctx
  return (ret, ⟨table.seq, stack, true⟩, ctx)

def wgAllowedipsWalkByPeer (fuel : Nat) (table : Allowedips P) (cursor : AllowedipsCursor)
    (peer : Option P) (ctx : σ) : Option (Int × AllowedipsCursor × σ) :=
  if cursor.seq ≠ 0 ∧ cursor.seq ≠ table.seq then some (0, cursor, ctx)
  else if cursor.secondHalf then walkSecondHalf func e fuel table peer cursor.stack ctx
  else do
    let (ret, stack, ctx) ← walkByPeer func e fuel table.cell table.root4 32 peer cursor.stack ctx
    if ret ≠ 0 then return (ret, ⟨table.seq, stack, false⟩, ctx)
    else walkSecondHalf func e fuel table peer [] ctx

end

end Sewg.Kernel
