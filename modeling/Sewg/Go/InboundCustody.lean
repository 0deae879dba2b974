import Mathlib.Data.Sum.Basic
import Sewg.Go.InboundPools
import Sewg.Lib.Handover

/-! The inbound elements go from hand to hand: from their pool to the routine that has
received a datagram, into the queue of the peer and to the decryption workers, and from the
peer's receiver back into the pool. -/

namespace Sewg.Go.InboundPools
open Handover (Local Table Custody Acts)

/-- The peer runs when its datagram has an element; the element is sent on a queue that
still has its receiver; and the receiver leaves nothing behind. -/
def PoolGuard (w : Party) (g : Device) (e : Event) : Prop :=
  match w, e with
  | .receive (.looks _ peer _), .next => (g.peers peer).isRunning = true
  | .receive (.sendsInbound _ peer queue _), .next =>
    queue = (g.peers peer).starts ∧ g.receivers peer ≠ none
  | _, .receiverStops peer => (g.inbound peer).items = []
  | _, _ => True

/-- Only the last queue of a peer has anything in it, and only while its receiver runs. -/
structure Live (g : Device) : Prop where
  queued : ∀ peer queue, ((g.peers peer).inbound queue).items ≠ [] →
    queue = (g.peers peer).starts ∧ g.receivers peer ≠ none
  running : ∀ peer, g.receivers peer ≠ none → (g.peers peer).routines ≠ 0

section
variable {g g' : Device} {w w' : Party} {e : Event} {peer : Nat}

theorem Live.congr (hl : Live g) (hpeers : g'.peers = g.peers)
    (hreceivers : g'.receivers = g.receivers) : Live g' := by
  refine ⟨?_, ?_⟩
  · rw [hpeers, hreceivers]
    exact hl.queued
  · rw [hpeers, hreceivers]
    exact hl.running

theorem Live.of_peer (hl : Live g) (hpeers : ∀ k, k ≠ peer → g'.peers k = g.peers k)
    (hreceivers : ∀ k, k ≠ peer → g'.receivers k = g.receivers k)
    (hqueued : ∀ queue, ((g'.peers peer).inbound queue).items ≠ [] →
      queue = (g'.peers peer).starts ∧ g'.receivers peer ≠ none)
    (hrunning : g'.receivers peer ≠ none → (g'.peers peer).routines ≠ 0) : Live g' where
  queued k queue := by
    by_cases hk : k = peer
    · rw [hk]
      exact hqueued queue
    · rw [hpeers k hk, hreceivers k hk]
      exact hl.queued k queue
  running k := by
    by_cases hk : k = peer
    · rw [hk]
      exact hrunning
    · rw [hpeers k hk, hreceivers k hk]
      exact hl.running k

theorem Live.setReceiver (hl : Live g) {r : SequentialReceiver} (hr : g.receivers peer ≠ none) :
    Live (g.setReceiver peer (some r)) := by
  refine hl.of_peer (fun _ _ => rfl) (fun k hk => Function.update_of_ne hk ..) ?_ ?_
  · intro queue hitems
    refine ⟨(hl.queued peer queue hitems).1, ?_⟩
    change Function.update g.receivers peer _ peer ≠ none
    rw [Function.update_self]
    nofun
  · intro _
    exact hl.running peer hr

theorem Live.setPeer (hl : Live g) {x : PeerQueues.Peer}
    (hqueued : ∀ queue, (x.inbound queue).items ≠ [] → queue = x.starts ∧ g.receivers peer ≠ none)
    (hrunning : g.receivers peer ≠ none → x.routines ≠ 0) : Live (g.setPeer peer x) := by
  have hself : (g.setPeer peer x).peers peer = x := Function.update_self ..
  refine hl.of_peer (fun k hk => Function.update_of_ne hk ..) (fun _ _ => rfl) ?_ ?_
  · rw [hself]
    exact hqueued
  · rw [hself]
    exact hrunning

/-- Between the routines of one `Start` and those of the next there is nothing in the queues. -/
theorem Live.all_empty (hl : Live g) (hroutines : (g.peers peer).routines = 0) (queue : Nat) :
    ((g.peers peer).inbound queue).items = [] := by
  by_contra hne
  exact hl.running peer (hl.queued peer queue hne).2 hroutines

theorem Live.no_receiver (hl : Live g) (hroutines : (g.peers peer).routines = 0) :
    g.receivers peer = none := by
  by_contra hne
  exact hl.running peer hne hroutines

theorem setInbound_items {x : PeerQueues.Peer} {queue queue' : Nat} {c : Chan Nat} :
    ((x.setInbound queue c).inbound queue').items = if queue' = queue then c.items
      else (x.inbound queue').items := by
  change (Function.update x.inbound queue c queue').items = _
  by_cases hq : queue' = queue
  · rw [if_pos hq, hq, Function.update_self]
  · rw [if_neg hq, Function.update_of_ne hq]

theorem Live.step (hl : Live g) (hguard : PoolGuard w g e) (he : Effect w g e w' g') : Live g' := by
  cases he with
  | turns | forgets | getsBuffer | putsBuffer | getsElement | putsElement | sendsDecryption
  | drops | unlocks
  | sendsHandshake | takesHandshake | takesDecryption | passesOver => exact hl.congr rfl rfl
  | @sendsInbound _ peer queue _ c hw hnext hitems =>
    subst hw hnext
    obtain ⟨hqueue, hreceiver⟩ := hguard
    refine hl.setPeer ?_ (hl.running peer)
    intro queue' hne
    rw [setInbound_items] at hne
    split at hne
    · rename_i hq
      exact ⟨hq.trans hqueue, hreceiver⟩
    · exact hl.queued peer queue' hne
  | @receiverTakes peer elem c _ hr hitems =>
    have hreceiver : g.receivers peer ≠ none := by rw [hr]; nofun
    refine (hl.setPeer (x := (g.peers peer).setInbound (g.peers peer).starts c) ?_
      (hl.running peer)).setReceiver hreceiver
    intro queue' hne
    rw [setInbound_items] at hne
    split at hne
    · rename_i hq
      exact ⟨hq, hreceiver⟩
    · exact hl.queued peer queue' hne
  | @receiverLocks peer elem _ hr =>
    exact (hl.setReceiver (r := .putsBuffer elem) (by rw [hr]; nofun)).congr rfl rfl
  | receiverSkips _ hr => exact hl.setReceiver (by rw [hr]; nofun)
  | @receiverPutsBuffer peer elem _ _ hr =>
    exact (hl.setReceiver (r := .putsElement elem) (by rw [hr]; nofun)).congr rfl rfl
  | receiverPutsElement _ hr =>
    exact (hl.setReceiver (r := .selects) (by rw [hr]; nofun)).congr rfl rfl
  | @receiverReturns peer hw hr hempty =>
    subst hw
    have hitems : (g.inbound peer).items = [] := by
      rcases hempty with hempty | rfl
      · exact hempty
      · exact hguard
    have hself : (g.receiverReturns peer).receivers peer = none := Function.update_self ..
    refine hl.of_peer (fun k hk => Function.update_of_ne hk ..)
      (fun k hk => Function.update_of_ne hk ..) ?_ ?_
    · intro queue hne
      rw [Device.receiverReturns, Device.setReceiver, Device.setPeer] at hne
      dsimp only at hne
      rw [Function.update_self] at hne
      have hq := (hl.queued peer queue hne).1
      rw [hq] at hne
      exact absurd hitems hne
    · intro hne
      exact absurd hself hne
  | @controls _ peer x _ _ _ hitems hstarts hroutines =>
    refine hl.setPeer ?_ fun hr => hroutines hr (hl.running peer hr)
    intro queue hne
    rw [hitems] at hne
    rw [hstarts]
    exact hl.queued peer queue hne
  | @starts _ peer x _ _ _ hroutines hitems hstarts hroutines' =>
    have hempty := fun queue => hl.all_empty hroutines queue
    have hself : ((g.setPeer peer x).setReceiver peer (some .selects)).peers peer = x :=
      Function.update_self ..
    refine hl.of_peer (fun k hk => Function.update_of_ne hk ..)
      (fun k hk => Function.update_of_ne hk ..) ?_ ?_
    · intro queue hne
      rw [hself, hitems, hempty] at hne
      simp at hne
    · intro _
      rw [hself]
      exact hroutines'

end

def Party.local (w : Party) : Local := { hand := w.element.toList, key := w.key.toList }

def receiverLocal : Option SequentialReceiver → Local
  | some (.waits elem) => { waiting := [elem] }
  | some (.putsBuffer elem) | some (.putsElement elem) => { hand := [elem] }
  | none | some .selects => {}

/-- The goroutines are the threads and the receivers of the peers. -/
def view (s : Threads.State Device Party) : Table (Nat ⊕ Nat) (Nat × Nat) where
  pool := s.shared.inboundElementReuseChan.items
  locals :=
    Sum.elim (fun j => (s.threads j).local) fun peer => receiverLocal (s.shared.receivers peer)
  queue q := ((s.shared.peers q.1).inbound q.2).items
  ordered _ := true
  work := s.shared.decryption.items
  locked x := (s.shared.elements x).locked
  dropped x := (s.shared.elements x).dropped

section
variable {s : Threads.State Device Party} {i x : Nat} {w : Party} {g : Device}

theorem locals_thread (hreceivers : g.receivers = s.shared.receivers) :
    (view ⟨g, Function.update s.threads i w⟩).locals =
      Function.update (view s).locals (.inl i) w.local := by
  change Sum.elim (fun j => (Function.update s.threads i w j).local) (fun peer =>
    receiverLocal (g.receivers peer)) =
    Function.update (Sum.elim (fun j => (s.threads j).local) _) (.inl i) w.local
  rw [Sum.update_elim_inl, hreceivers]
  exact congrArg (Sum.elim · _) (Function.comp_update Party.local s.threads i w)

variable {r : Option SequentialReceiver}

theorem locals_receiver {peer : Nat} (hi : s.threads i = w)
    (hreceivers : g.receivers = Function.update s.shared.receivers peer r) :
    (view ⟨g, Function.update s.threads i w⟩).locals =
      Function.update (view s).locals (.inr peer) (receiverLocal r) := by
  rw [← hi, Function.update_eq_self]
  change Sum.elim (fun j => (s.threads j).local) (fun peer => receiverLocal (g.receivers peer)) =
    Function.update (Sum.elim _ (fun peer => receiverLocal (s.shared.receivers peer))) (.inr peer)
      (receiverLocal r)
  rw [Sum.update_elim_inr, hreceivers]
  exact congrArg (Sum.elim _) (Function.comp_update receiverLocal s.shared.receivers peer r)

theorem acts_thread (hreceivers : g.receivers = s.shared.receivers)
    (hothers : ∀ y, y ≠ x → g.elements y = s.shared.elements y) :
    Acts (view s) (view ⟨g, Function.update s.threads i w⟩) (.inl i) x w.local where
  locals := locals_thread hreceivers
  ordered := rfl
  record y hy := by
    change (g.elements y).locked = (s.shared.elements y).locked ∧
      (g.elements y).dropped = (s.shared.elements y).dropped
    rw [hothers y hy]
    exact ⟨rfl, rfl⟩

theorem acts_receiver {peer : Nat} (hi : s.threads i = w)
    (hreceivers : g.receivers = Function.update s.shared.receivers peer r)
    (hothers : ∀ y, y ≠ x → g.elements y = s.shared.elements y) :
    Acts (view s) (view ⟨g, Function.update s.threads i w⟩) (.inr peer) x (receiverLocal r) where
  locals := locals_receiver hi hreceivers
  ordered := rfl
  record y hy := by
    change (g.elements y).locked = (s.shared.elements y).locked ∧
      (g.elements y).dropped = (s.shared.elements y).dropped
    rw [hothers y hy]
    exact ⟨rfl, rfl⟩

theorem view_queue {peer queue : Nat} {c : Chan Nat} {threads : Nat → Party}
    (hpeers : g.peers =
      Function.update s.shared.peers peer ((s.shared.peers peer).setInbound queue c)) :
    (view ⟨g, threads⟩).queue = Function.update (view s).queue (peer, queue) c.items := by
  funext ⟨k, q⟩
  change ((g.peers k).inbound q).items = _
  rw [hpeers]
  by_cases hk : k = peer
  · rw [hk, Function.update_self]
    change (Function.update (s.shared.peers peer).inbound queue c q).items = _
    by_cases hq : q = queue
    · rw [hq, Function.update_self, Function.update_self]
    · rw [Function.update_of_ne hq, Function.update_of_ne (by simp [hq])]
      rfl
  · rw [Function.update_of_ne hk, Function.update_of_ne (by simp [hk])]
    rfl

theorem view_thread (h : s.threads i = w) : (view s).locals (.inl i) = w.local :=
  congrArg Party.local h

theorem view_receiver {peer : Nat} (h : s.shared.receivers peer = r) :
    (view s).locals (.inr peer) = receiverLocal r := congrArg receiverLocal h

theorem setPeer_inbound {g : Device} {peer : Nat} {y : PeerQueues.Peer}
    (hy : ∀ queue, (y.inbound queue).items = ((g.peers peer).inbound queue).items) (k queue : Nat) :
    (((g.setPeer peer y).peers k).inbound queue).items = ((g.peers k).inbound queue).items := by
  change ((Function.update g.peers peer y k).inbound queue).items = _
  by_cases hk : k = peer
  · rw [hk, Function.update_self, hy]
  · rw [Function.update_of_ne hk]

theorem receiverLocal_update {receivers : Nat → Option SequentialReceiver} {peer : Nat}
    (hr : receiverLocal r = receiverLocal (receivers peer)) (k : Nat) :
    receiverLocal (Function.update receivers peer r k) = receiverLocal (receivers k) := by
  by_cases hk : k = peer
  · rw [hk, Function.update_self, hr]
  · rw [Function.update_of_ne hk]

theorem view_same (hlocal : w.local = (s.threads i).local)
    (hpool : g.inboundElementReuseChan.items = s.shared.inboundElementReuseChan.items)
    (hqueue : ∀ peer queue, ((g.peers peer).inbound queue).items =
      ((s.shared.peers peer).inbound queue).items)
    (hreceivers : ∀ peer, receiverLocal (g.receivers peer) =
      receiverLocal (s.shared.receivers peer))
    (hdecryption : g.decryption.items = s.shared.decryption.items)
    (helements : g.elements = s.shared.elements) :
    view ⟨g, Function.update s.threads i w⟩ = view s := by
  have hthreads :
      (fun j => (Function.update s.threads i w j).local) = fun j => (s.threads j).local := by
    funext j
    by_cases hj : j = i
    · rw [hj, Function.update_self, hlocal]
    · rw [Function.update_of_ne hj]
  have hreceivers' : (fun peer => receiverLocal (g.receivers peer)) =
      fun peer => receiverLocal (s.shared.receivers peer) := funext hreceivers
  have hqueue' : (fun q : Nat × Nat => ((g.peers q.1).inbound q.2).items) =
      fun q => ((s.shared.peers q.1).inbound q.2).items := funext fun q => hqueue q.1 q.2
  rw [view, view]
  dsimp only
  rw [hpool, hthreads, hreceivers', hqueue', hdecryption, helements]

variable {custody : Nat → Custody (Nat ⊕ Nat) (Nat × Nat)} {e : Event}

/-- Every guarded step hands an element on, or none. -/
theorem Effect.handover (he : Effect (s.threads i) s.shared e w g) (hkept : (view s).Kept custody)
    (hl : Live s.shared) (hguard : PoolGuard (s.threads i) s.shared e)
    (hfits : Fits s.shared.elements (s.threads i)) :
    Handover.Step (view s) (view ⟨g, Function.update s.threads i w⟩) := by
  cases he with
  | turns helement hkey _ _ =>
    refine .stay (view_same ?_ rfl (fun _ _ => rfl) (fun _ => rfl) rfl rfl)
    rw [Party.local, Party.local, helement, hkey]
  | forgets hw hnext hstopped =>
    rw [hw, hnext] at hguard
    rw [PoolGuard, hstopped] at hguard
    cases hguard
  | getsBuffer hw | sendsHandshake hw | takesHandshake hw =>
    exact .stay (view_same (by rw [hw]; rfl) rfl (fun _ _ => rfl) (fun _ => rfl) rfl rfl)
  | putsBuffer helement helement' hkey =>
    refine .stay (view_same ?_ rfl (fun _ _ => rfl) (fun _ => rfl) rfl rfl)
    rw [Party.local, Party.local, helement, helement', hkey]
  | getsElement hw hpool =>
    refine .take (acts_thread rfl fun y hy => Function.update_of_ne hy ..) hpool ?_ rfl rfl
    rw [view_thread hw]
    rfl
  | putsElement hw hpool =>
    refine .give (acts_thread rfl fun _ _ => rfl) hpool ?_ rfl rfl
    rw [view_thread hw]
    rfl
  | @sendsInbound _ peer queue _ _ hw _ hitems =>
    rw [hw] at hfits
    refine .file (q := (peer, queue)) (l := {}) (acts_thread rfl fun _ _ => rfl) ?_ rfl ?_ rfl rfl
      (congrArg QueueInboundElement.locked hfits)
    · rw [view_thread hw]
      rfl
    · rw [view_queue rfl, hitems]
      rfl
  | sendsDecryption hw hitems =>
    rw [hw] at hfits
    refine .pass (acts_thread rfl fun _ _ => rfl) ?_ rfl rfl hitems rfl
      (congrArg QueueInboundElement.dropped hfits)
    rw [view_thread hw]
    rfl
  | @drops _ elem helement helement' hkey hkey' =>
    have hlocal : w.local = (s.threads i).local := by
      rw [Party.local, Party.local, helement, helement', hkey, hkey']
    refine .mark (x := elem) (acts_thread rfl fun y hy => Function.update_of_ne hy ..) ?_
      hlocal rfl rfl rfl ?_
    · rw [Party.local, hkey']
      exact List.mem_cons_self
    · change (Function.update s.shared.elements elem _ elem).locked = _
      rw [Function.update_self]
      rfl
  | unlocks helement helement' hkey hkey' =>
    refine .release (acts_thread rfl fun y hy => Function.update_of_ne hy ..) ?_ rfl rfl rfl
    change (s.threads i).local = _
    rw [Party.local, Party.local, helement, helement', hkey, hkey']
    rfl
  | takesDecryption hw hitems =>
    refine .pick (acts_thread rfl fun _ _ => rfl) ?_ rfl rfl hitems rfl
    rw [view_thread hw]
    rfl
  | @passesOver elem c hw hitems hdropped =>
    -- an element in the decryption queue has not been dropped
    obtain ⟨place, hx⟩ := Handover.within_work ((hkept.tracks.mem .work elem).mp
      (by rw [Table.places, view, hitems]; exact List.mem_cons_self))
    have hsound := hkept.sound elem
    rw [hx] at hsound
    exact absurd (hsound.2.2 rfl) (by simp [view, hdropped])
  | @receiverTakes peer _ _ hw hr hitems =>
    refine .await (q := (peer, (s.shared.peers peer).starts)) (acts_receiver hw rfl fun _ _ => rfl)
      ?_ rfl hitems (view_queue rfl) rfl rfl rfl
    rw [view_receiver hr]
    rfl
  | @receiverLocks peer elem hw hr hlocked =>
    refine .lock (l := {}) (acts_receiver (r := some (.putsBuffer elem)) hw rfl fun y hy =>
      Function.update_of_ne hy ..) ?_ rfl rfl rfl hlocked
    rw [view_receiver hr]
    rfl
  | receiverPutsElement hw hr hpool =>
    refine .give (acts_receiver hw rfl fun _ _ => rfl) hpool ?_ rfl rfl
    rw [view_receiver hr]
    rfl
  | receiverSkips hw hr | receiverPutsBuffer hw hr =>
    refine .stay (view_same (by rw [hw]) rfl (fun _ _ => rfl) (receiverLocal_update ?_) rfl rfl)
    rw [hr]
    rfl
  | @receiverReturns peer hw hr =>
    refine .stay
      (view_same (by rw [hw]) rfl (setPeer_inbound fun _ => rfl) (receiverLocal_update ?_) rfl rfl)
    change receiverLocal none = receiverLocal (s.shared.receivers peer)
    rw [hr]
    rfl
  | controls hw hw' hfits hitems =>
    refine .stay (view_same ?_ rfl (setPeer_inbound hitems) (fun _ => rfl) rfl rfl)
    rw [Party.local, Party.local, hw.1, hw.2.1, hw'.1, hw'.2.1]
  | @starts _ peer _ hw hw' hfits hroutines hitems =>
    refine .stay (view_same ?_ rfl (setPeer_inbound ?_) (receiverLocal_update ?_) rfl rfl)
    · rw [Party.local, Party.local, hw.1, hw.2.1, hw'.1, hw'.2.1]
    · intro queue
      rw [hitems, hl.all_empty hroutines]
      split <;> rfl
    · change receiverLocal (some .selects) = receiverLocal (s.shared.receivers peer)
      rw [hl.no_receiver hroutines]
      rfl

theorem Fits.of_same {elements elements' : Nat → QueueInboundElement} (h : Fits elements w)
    (hsame : ∀ x, w.element = some x ∨ w.key = some x → elements' x = elements x) :
    Fits elements' w := by
  unfold Fits at h ⊢
  split at h
  · rw [hsame _ (.inl rfl)]
    exact h
  · rw [hsame _ (.inl rfl)]
    exact h
  · rw [hsame _ (.inl rfl)]
    exact h
  · rw [hsame _ (.inr rfl)]
    exact h
  · trivial

/-- A step does not change the elements that others have. -/
theorem Effect.others (he : Effect (s.threads i) s.shared e w g) (hkept : (view s).Kept custody)
    {j y : Nat} (hj : j ≠ i) (hy : (s.threads j).element = some y ∨ (s.threads j).key = some y) :
    g.elements y = s.shared.elements y := by
  have hy : y ∈ ((view s).locals (.inl j)).hand ∨ y ∈ ((view s).locals (.inl j)).key := by
    change y ∈ (s.threads j).element.toList ∨ y ∈ (s.threads j).key.toList
    simpa using hy
  have hkey : ∀ {x}, (s.threads i).key = some x → x ∈ ((view s).locals (.inl i)).key := by
    intro x hx
    change x ∈ (s.threads i).key.toList
    simp [hx]
  cases he with
  | turns | forgets | getsBuffer | putsBuffer | putsElement | sendsInbound | sendsDecryption
  | sendsHandshake
  | takesHandshake | takesDecryption | passesOver | receiverTakes | receiverSkips
  | receiverPutsBuffer
  | receiverPutsElement | receiverReturns | controls | starts => rfl
  | getsElement _ hpool =>
    refine Function.update_of_ne (hkept.ne_of_pool ?_ hy) ..
    rw [view, hpool]
    exact List.mem_cons_self
  | drops _ _ hx =>
    exact Function.update_of_ne (hkept.ne_of_key (hkey hx) (by simpa using hj) hy) ..
  | unlocks _ _ hx =>
    exact Function.update_of_ne (hkept.ne_of_key (hkey hx) (by simpa using hj) hy) ..
  | @receiverLocks peer _ _ hr hlocked =>
    refine Function.update_of_ne (hkept.ne_of_waiting (h := .inr peer) ?_ hlocked hy) ..
    rw [view_receiver hr]
    exact List.mem_cons_self

theorem Effect.fits (he : Effect (s.threads i) s.shared e w g) (hkept : (view s).Kept custody)
    (hfits : ∀ j, Fits s.shared.elements (s.threads j)) (j : Nat) :
    Fits g.elements (Function.update s.threads i w j) := by
  by_cases hj : j = i
  · rw [hj, Function.update_self]
    cases he with
    | turns _ _ _ hturns => exact hturns _ (hfits i)
    | putsBuffer _ _ _ _ _ hw' => exact hw' _
    | drops _ _ _ _ _ _ hw' => exact hw' _
    | unlocks _ _ _ _ _ hw' => exact hw' _
    | controls _ _ hw' => exact hw' _
    | starts _ _ hw' => exact hw' _
    | getsElement => exact Function.update_self ..
    | sendsInbound hw =>
      have hi := hfits i
      rw [hw] at hi
      exact hi
    | forgets | getsBuffer | putsElement | sendsDecryption | sendsHandshake | takesHandshake
    | takesDecryption
    | passesOver | receiverTakes | receiverLocks | receiverSkips | receiverPutsBuffer
    | receiverPutsElement
    | receiverReturns => trivial
  · rw [Function.update_of_ne hj]
    exact (hfits j).of_same fun y hy => he.others hkept hj hy

end

end Sewg.Go.InboundPools
