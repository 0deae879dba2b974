import Sewg.Lib.Locks
import Sewg.Go.Agreement
import Sewg.Go.Identity

/-! The locks that `SetPrivateKey` takes and the routines it waits for, with the removals
it leads to. It has every peer's handshake locked to read until it returns. -/

namespace Sewg.Go
open CString Bridge Noise Locks

inductive TimerName where
  | retransmitHandshake
  | sendKeepalive
  | newHandshake
  | zeroKeyMaterial
  | persistentKeepalive
  deriving DecidableEq

inductive LockId where
  | staticIdentity
  | peers
  | allowedips
  | indexTable
  | cookieChecker
  | handshake (peer : Nat)
  | keypairs (peer : Nat)
  | routines (peer : Nat)
  | modifying (peer : Nat) (timer : TimerName)
  | running (peer : Nat) (timer : TimerName)
  deriving DecidableEq

/-- What is waited for: the routines of a peer to be started and to return, and the
function of a timer that is running. -/
inductive Awaited where
  | starting (peer : Nat)
  | stopping (peer : Nat)
  | timer (peer : Nat) (timer : TimerName)

/-- A lock around something that takes no other lock. -/
def locked (l : LockId) : List (Op LockId Awaited) := [.lock .write l, .unlock .write l]

def delSyncOps (peer : Nat) (timer : TimerName) : List (Op LockId Awaited) :=
  locked (.modifying peer timer) ++
    [Op.wait (Awaited.timer peer timer), Op.lock .write (LockId.running peer timer)] ++
    locked (.modifying peer timer) ++ [Op.unlock .write (LockId.running peer timer)]

def timersStopOps (peer : Nat) : List (Op LockId Awaited) :=
  [TimerName.retransmitHandshake, .sendKeepalive, .newHandshake, .zeroKeyMaterial,
    .persistentKeepalive].flatMap (delSyncOps peer)

/-- The keypairs' half of `ZeroAndFlushAll`. -/
def zeroKeypairsOps (keypairs : Keypairs) (peer : Nat) : List (Op LockId Awaited) :=
  .lock .write (.keypairs peer) ::
    [keypairs.previous, keypairs.current, keypairs.next].flatMap
      (fun slot => if slot.isSome then locked .indexTable else []) ++
    [Op.unlock .write (LockId.keypairs peer)]

/-- The handshake's half. -/
def clearHandshakeOps (peer : Nat) : List (Op LockId Awaited) :=
  .lock .write (.handshake peer) :: locked .indexTable ++ [Op.unlock .write (LockId.handshake peer)]

def stopOps (keypairs : Keypairs) (peer : Nat) : List (Op LockId Awaited) :=
  [Op.wait (Awaited.starting peer), Op.lock .write (LockId.routines peer)] ++ timersStopOps peer ++
    [Op.wait (Awaited.stopping peer)] ++ zeroKeypairsOps keypairs peer ++ clearHandshakeOps peer ++
    [Op.unlock .write (LockId.routines peer)]

/-- `unsafeRemovePeer`; a peer that does not run has nothing to stop. -/
def removeOps (device : Device) (isRunning : Nat → Bool) (peer : Nat) : List (Op LockId Awaited) :=
  locked .allowedips ++ if isRunning peer then stopOps (device.peers peer).keypairs peer else []

/-- A loop that removes some of the peers. -/
def removalOps (device : Device) (isRunning : Nat → Bool) (remove : Nat → Prop)
    [DecidablePred remove] (entries : List (Bytes × Nat)) : List (Op LockId Awaited) :=
  entries.flatMap fun (_, i) => if remove i then removeOps device isRunning i else []

def handshakeLocks (entries : List (Bytes × Nat)) : List LockId :=
  entries.map fun (_, i) => .handshake i

/-- The loops of `SetPrivateKey` that remove peers: those with the new public key, and
those whose new static secret is zero. -/
def loopOps (device : Device) (isRunning : Nat → Bool) (sk : RootPrivateKey) (pubCall : TeeCall)
    (calls : Nat → TeeCall × TeeCall) (second third : List (Bytes × Nat)) :
    List (Op LockId Awaited) :=
  removalOps device isRunning
    (fun i => (device.peers i).handshake.remoteStatic = (rootPublicKey sk pubCall).1) second ++
  locked .cookieChecker ++
  removalOps device isRunning
    (fun i =>
      Null (precompute sk (calls i) (device.peers i).handshake).1.precomputedStaticStatic) third

/-- `SetPrivateKey`, whose three loops visit the map in the orders given. The locks are
released when it returns, the last one first. -/
def setPrivateKeyOps (device : Device) (isRunning : Nat → Bool) (sk : RootPrivateKey)
    (pubCall : TeeCall)
    (calls : Nat → TeeCall × TeeCall) (first second third : List (Bytes × Nat)) :
    List (Op LockId Awaited) :=
  ([Op.lock .write LockId.staticIdentity, Op.lock .write LockId.peers] ++
    (handshakeLocks first).map (Op.lock .read)) ++
  (loopOps device isRunning sk pubCall calls second third ++
  ((handshakeLocks first).reverse.map (Op.unlock .read) ++
  [Op.unlock .write LockId.peers, Op.unlock .write LockId.staticIdentity]))

section
variable {device : Device} {isRunning : Nat → Bool} {needs : Awaited → List (Mode × LockId)}
  {held : List (Mode × LockId)} {peer : Nat}

/-- The lock that `Stop` cannot get. -/
theorem stopOps_split (keypairs : Keypairs) (peer : Nat) :
    ∃ before after, stopOps keypairs peer = before ++ .lock .write (.handshake peer) :: after ∧
      ∀ i, Op.unlock .read (.handshake i) ∉ before := by
  refine ⟨[Op.wait (Awaited.starting peer), Op.lock .write (LockId.routines peer)] ++
    timersStopOps peer ++ [Op.wait (Awaited.stopping peer)] ++ zeroKeypairsOps keypairs peer,
    locked .indexTable ++ [Op.unlock .write (LockId.handshake peer)] ++
      [Op.unlock .write (LockId.routines peer)], ?_, ?_⟩
  · simp [stopOps, clearHandshakeOps]
  · intro i
    simp [timersStopOps, delSyncOps, zeroKeypairsOps, locked]

theorem removeOps_unlock {i : Nat} :
    Op.unlock .read (.handshake i) ∉ removeOps device isRunning peer := by
  unfold removeOps
  split
  · simp [stopOps, clearHandshakeOps, timersStopOps, delSyncOps, zeroKeypairsOps, locked]
  · simp [locked]

variable {remove : Nat → Prop} [DecidablePred remove] {entries : List (Bytes × Nat)}

theorem removalOps_unlock {i : Nat} :
    Op.unlock .read (.handshake i) ∉ removalOps device isRunning remove entries := by
  unfold removalOps
  rw [List.mem_flatMap]
  rintro ⟨⟨key, j⟩, -, hmem⟩
  dsimp only at hmem
  split at hmem
  · exact removeOps_unlock hmem
  · cases hmem

/-- Peers that do not run are removed without a stop. -/
theorem exec_removalOps (hfree : ∀ m, (m, LockId.allowedips) ∉ held)
    (hidle : ∀ entry ∈ entries, remove entry.2 → isRunning entry.2 = false) :
    Run.exec (alone needs) held (removalOps device isRunning remove entries) = some held := by
  refine exec_flatMap ?_
  rintro ⟨key, i⟩ hmem
  dsimp only
  split
  · rename_i hremove
    rw [removeOps, hidle _ hmem hremove, if_neg nofun, List.append_nil]
    exact exec_section hfree
  · rfl

/-- A peer that runs is stopped, and that takes its handshake's lock. -/
theorem exec_removalOps_stuck {entry : Bytes × Nat} (hmem : entry ∈ entries)
    (hremove : remove entry.2)
    (hrunning : isRunning entry.2 = true) (hheld : (.read, LockId.handshake entry.2) ∈ held)
    (ops : List (Op LockId Awaited)) (hops : Op.unlock .read (.handshake entry.2) ∉ ops)
    (rest : List (Op LockId Awaited)) :
    Run.exec (alone needs) held
      (ops ++ removalOps device isRunning remove entries ++ rest) = none := by
  obtain ⟨earlier, later, rfl⟩ := List.append_of_mem hmem
  obtain ⟨before, after, hstop, hbefore⟩ := stopOps_split (device.peers entry.2).keypairs entry.2
  have hsplit : ops ++ removalOps device isRunning remove (earlier ++ entry :: later) ++ rest =
      (ops ++ removalOps device isRunning remove earlier ++ locked .allowedips ++ before) ++
        .lock .write (.handshake entry.2) ::
          (after ++ removalOps device isRunning remove later ++ rest) := by
    simp [removalOps, removeOps, hremove, hrunning, hstop]
  rw [hsplit]
  refine exec_stuck hheld ?_
  simp only [List.mem_append, not_or]
  exact ⟨⟨⟨hops, removalOps_unlock⟩, by simp [locked]⟩, hbefore entry.2⟩

end

/-- The locks that `SetPrivateKey` holds in its loops. -/
def heldInLoops (entries : List (Bytes × Nat)) : List (Mode × LockId) :=
  (handshakeLocks entries).reverse.map (Prod.mk Mode.read) ++
    [(Mode.write, LockId.peers), (Mode.write, LockId.staticIdentity)]

theorem exec_locksTaken (needs : Awaited → List (Mode × LockId)) (entries : List (Bytes × Nat)) :
    Run.exec (alone needs) []
      ([Op.lock .write LockId.staticIdentity, Op.lock .write LockId.peers] ++
      (handshakeLocks entries).map (Op.lock .read)) = some (heldInLoops entries) := by
  rw [Run.exec_append]
  refine ⟨_, rfl, exec_rlocks ?_⟩
  intro l hl
  obtain ⟨⟨key, i⟩, -, rfl⟩ := List.mem_map.mp hl
  simp

theorem mem_heldInLoops {entries : List (Bytes × Nat)} {entry : Bytes × Nat}
    (hmem : entry ∈ entries) : (.read, LockId.handshake entry.2) ∈ heldInLoops entries := by
  simp only [heldInLoops, handshakeLocks, List.mem_append, List.mem_map, List.mem_reverse]
  exact .inl ⟨_, ⟨entry, hmem, rfl⟩, rfl⟩

theorem not_mem_heldInLoops {entries : List (Bytes × Nat)} {l : LockId}
    (hl : l = .allowedips ∨ l = .cookieChecker) (m : Mode) : (m, l) ∉ heldInLoops entries := by
  rcases hl with rfl | rfl <;> simp [heldInLoops, handshakeLocks]

section
variable {device : Device} {isRunning : Nat → Bool} {needs : Awaited → List (Mode × LockId)}
  {sk : RootPrivateKey} {pubCall : TeeCall} {calls : Nat → TeeCall × TeeCall}
  {first second third : List (Bytes × Nat)} {entry : Bytes × Nat}

/-- The loops are left as they are entered when the peers to be removed do not run. -/
theorem exec_loopOps
    (hown : ∀ entry ∈ second,
      (device.peers entry.2).handshake.remoteStatic = (rootPublicKey sk pubCall).1 →
      isRunning entry.2 = false)
    (hnull : ∀ entry ∈ third,
      Null (precompute sk (calls entry.2)
        (device.peers entry.2).handshake).1.precomputedStaticStatic → isRunning entry.2 = false) :
    Run.exec (alone needs) (heldInLoops first)
      (loopOps device isRunning sk pubCall calls second third) = some (heldInLoops first) := by
  rw [loopOps, Run.exec_append]
  refine ⟨_, ?_, exec_removalOps (not_mem_heldInLoops (.inl rfl)) hnull⟩
  rw [Run.exec_append]
  exact ⟨_, exec_removalOps (not_mem_heldInLoops (.inl rfl)) hown,
    exec_section (not_mem_heldInLoops (.inr rfl))⟩

theorem exec_loopOps_stuck (hheld : entry ∈ first) (hrunning : isRunning entry.2 = true)
    (hremoved : (entry ∈ second ∧
        (device.peers entry.2).handshake.remoteStatic = (rootPublicKey sk pubCall).1) ∨
      (entry ∈ third ∧ Null (precompute sk (calls entry.2)
        (device.peers entry.2).handshake).1.precomputedStaticStatic))
    (rest : List (Op LockId Awaited)) :
    Run.exec (alone needs) (heldInLoops first)
      (loopOps device isRunning sk pubCall calls second third ++ rest) = none := by
  rcases hremoved with ⟨hmem, hown⟩ | ⟨hmem, hnull⟩
  · rw [loopOps, List.append_assoc, List.append_assoc]
    change Run.exec _ _ ([] ++ removalOps device isRunning
      (fun i => (device.peers i).handshake.remoteStatic = (rootPublicKey sk pubCall).1) second ++
        _) = none
    exact exec_removalOps_stuck hmem hown hrunning (mem_heldInLoops hheld) [] List.not_mem_nil _
  · rw [loopOps]
    refine exec_removalOps_stuck hmem hnull hrunning (mem_heldInLoops hheld) _ ?_ rest
    rw [List.mem_append, not_or]
    exact ⟨removalOps_unlock, by simp [locked]⟩

end

/-- `SetPrivateKey` gets through, with every lock released, if and only if no peer that
runs has the new public key or a secret of zero under the new key. -/
theorem setPrivateKey_gets_through (device : Device) (isRunning : Nat → Bool)
    (needs : Awaited → List (Mode × LockId)) (sk : RootPrivateKey) (pubCall : TeeCall)
    (calls : Nat → TeeCall × TeeCall) (first second third : List (Bytes × Nat))
    (hfirst : first.Perm device.keyMap) (hsecond : second.Perm device.keyMap)
    (hthird : third.Perm (otherPeers device (rootPublicKey sk pubCall).1)) :
    Run.exec (alone needs) [] (setPrivateKeyOps device isRunning sk pubCall calls first second
      third) = some [] ↔ ∀ entry ∈ device.keyMap, isRunning entry.2 = true →
        (device.peers entry.2).handshake.remoteStatic ≠ (rootPublicKey sk pubCall).1 ∧
        ¬ Null (precompute sk (calls entry.2)
          (device.peers entry.2).handshake).1.precomputedStaticStatic := by
  have htaken := exec_locksTaken needs first
  rw [setPrivateKeyOps, Run.exec_append]
  constructor
  · rintro ⟨held, hlocks, hrest⟩ entry hentry hrunning
    cases htaken.symm.trans hlocks
    by_contra hgone
    rw [exec_loopOps_stuck (hfirst.mem_iff.mpr hentry) hrunning ?_] at hrest
    · cases hrest
    · by_cases hown : (device.peers entry.2).handshake.remoteStatic = (rootPublicKey sk pubCall).1
      · exact .inl ⟨hsecond.mem_iff.mpr hentry, hown⟩
      · have hother : entry ∈ otherPeers device (rootPublicKey sk pubCall).1 :=
          List.mem_filter.mpr ⟨hentry, decide_eq_true hown⟩
        rw [not_and, not_not] at hgone
        exact .inr ⟨hthird.mem_iff.mpr hother, hgone hown⟩
  · intro hkept
    refine ⟨_, htaken, ?_⟩
    rw [Run.exec_append]
    refine ⟨_, exec_loopOps ?_ ?_, ?_⟩
    · intro entry hentry hown
      by_contra hrunning
      exact (hkept entry (hsecond.mem_iff.mp hentry) (Bool.not_eq_false _ ▸ hrunning)).1 hown
    · intro entry hentry hnull
      by_contra hrunning
      have hother := List.mem_filter.mp (hthird.mem_iff.mp hentry)
      exact (hkept entry hother.1 (Bool.not_eq_false _ ▸ hrunning)).2 hnull
    · rw [Run.exec_append, heldInLoops]
      exact ⟨_, exec_runlocks _, rfl⟩

/-- A peer that runs, and a key under which its secret is not zero. -/
theorem setPrivateKey_gets_through_running :
    Run.exec (alone fun _ => []) []
      (setPrivateKeyOps (pairedDevice 2 1 3) (fun _ => true) 5 (answering fun _ => 9)
        (fun _ => (answering fun _ => 4, answering fun _ => 4)) [(List.replicate 32 1, 0)]
        [(List.replicate 32 1, 0)] [(List.replicate 32 1, 0)]) = some [] :=
  (setPrivateKey_gets_through (pairedDevice 2 1 3) (fun _ => true) (fun _ => []) 5
    (answering fun _ => 9)
    (fun _ => (answering fun _ => 4, answering fun _ => 4)) _ _ _ (.refl _) (.refl _) (.refl _)).mpr
    (by decide +kernel)

/-- The key is taken away while the peer runs: its removal waits for the read lock that
`SetPrivateKey` has. -/
theorem setPrivateKey_stuck :
    Run.exec (alone fun _ => []) []
      (setPrivateKeyOps (pairedDevice 2 1 3) (fun _ => true) 0 (answering fun _ => 9)
        (fun _ => (answering fun _ => 4, answering fun _ => 4)) (pairedDevice 2 1 3).keyMap
        (pairedDevice 2 1 3).keyMap (pairedDevice 2 1 3).keyMap) = none := by
  decide +kernel

end Sewg.Go
