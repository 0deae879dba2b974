import Sewg.Go.InboundCustody

/-! Nothing is lost from the pools of inbound elements and of message buffers, unless the
peer of a datagram is stopped at the wrong moment. -/

namespace Sewg.Go.InboundPools
open Handover (Table Custody)

section
variable {s : Threads.State Device Party} {custody : Nat → Custody (Nat ⊕ Nat) (Nat × Nat)}
  {i : Nat} {w : Party} {g : Device} {e : Event}

/-- The element is on its way to the receiver, or the receiver has not yet given its buffer
back. -/
def Carried (g : Device) (x : Nat) : Prop :=
  (∃ peer queue, x ∈ ((g.peers peer).inbound queue).items) ∨
    ∃ peer, g.receivers peer = some (.waits x) ∨ g.receivers peer = some (.putsBuffer x)

/-- Where a buffer may be. -/
def Covered (s : Threads.State Device Party) (buffer : Nat) : Prop :=
  buffer ∈ s.shared.messageBufferReuseChan.items ∨ (∃ j, (s.threads j).buffer = some buffer) ∨
    buffer ∈ s.shared.handshake.items ∨
    ∃ x, Carried s.shared x ∧ (s.shared.elements x).dropped = false ∧
      (s.shared.elements x).buffer = buffer

variable {b : Nat}

theorem Covered.thread (hw : w.buffer = some b) : Covered ⟨g, Function.update s.threads i w⟩ b := by
  refine .inr (.inl ⟨i, ?_⟩)
  change (Function.update s.threads i w i).buffer = some b
  rw [Function.update_self]
  exact hw

theorem Covered.queued (hg : g.handshake = s.shared.handshake)
    (hb : b ∈ s.shared.handshake.items) : Covered ⟨g, Function.update s.threads i w⟩ b :=
  .inr (.inr (.inl (hg ▸ hb)))

theorem Covered.step_of (hc : Covered s b)
    (hpool : b ∈ s.shared.messageBufferReuseChan.items →
      Covered ⟨g, Function.update s.threads i w⟩ b)
    (hbuffer : (s.threads i).buffer = some b → Covered ⟨g, Function.update s.threads i w⟩ b)
    (hhandshake : b ∈ s.shared.handshake.items → Covered ⟨g, Function.update s.threads i w⟩ b)
    (hcarried : ∀ x, Carried s.shared x → (s.shared.elements x).dropped = false →
      (s.shared.elements x).buffer = b → Covered ⟨g, Function.update s.threads i w⟩ b) :
    Covered ⟨g, Function.update s.threads i w⟩ b := by
  rcases hc with hc | ⟨j, hj⟩ | hc | ⟨x, hx, hdropped, hb⟩
  · exact hpool hc
  · by_cases hji : j = i
    · rw [hji] at hj
      exact hbuffer hj
    · refine .inr (.inl ⟨j, ?_⟩)
      change (Function.update s.threads i w j).buffer = some b
      rw [Function.update_of_ne hji]
      exact hj
  · exact hhandshake hc
  · exact hcarried x hx hdropped hb

theorem Carried.mono {g g' : Device} {x : Nat} (hx : Carried g x)
    (hqueue : ∀ peer queue, x ∈ ((g.peers peer).inbound queue).items → Carried g' x)
    (hreceiver : ∀ peer, g.receivers peer = some (.waits x) ∨
      g.receivers peer = some (.putsBuffer x) → Carried g' x) : Carried g' x := by
  rcases hx with ⟨peer, queue, hx⟩ | ⟨peer, hx⟩
  · exact hqueue peer queue hx
  · exact hreceiver peer hx

theorem Carried.not_pooled (hkept : (view s).Kept custody) {x : Nat} (hx : Carried s.shared x) :
    x ∉ s.shared.inboundElementReuseChan.items := by
  intro hmem
  have hpool := Handover.within_pool ((hkept.tracks.mem .pool x).mp hmem)
  rcases hx with ⟨peer, queue, hx⟩ | ⟨peer, hx | hx⟩
  · obtain ⟨holder, h⟩ := Handover.within_queue ((hkept.tracks.mem (.queue (peer, queue)) x).mp hx)
    rw [hpool] at h
    cases h
  · obtain ⟨holder, h⟩ := Handover.within_waiting ((hkept.tracks.mem (.waiting (.inr peer)) x).mp
      (by rw [Table.places, view_receiver hx]; exact List.mem_cons_self))
    rw [hpool] at h
    cases h
  · have h := Handover.within_hand ((hkept.tracks.mem (.hand (.inr peer)) x).mp
      (by rw [Table.places, view_receiver hx]; exact List.mem_cons_self))
    rw [hpool] at h
    cases h

theorem mem_waiting {r : Option SequentialReceiver} {x : Nat} (h : x ∈ (receiverLocal r).waiting) :
    r = some (.waits x) := by
  unfold receiverLocal at h
  split at h
  · rw [List.mem_singleton.mp h]
  all_goals cases h

theorem filed_carried (hkept : (view s).Kept custody) {x : Nat}
    {place : Handover.Place (Nat ⊕ Nat) (Nat × Nat)}
    {holder : Option (Handover.Holder (Nat ⊕ Nat))} (hx : custody x = .filed place holder) :
    Carried s.shared x := by
  rcases place with ⟨peer, start⟩ | j | peer
  · exact .inl
      ⟨peer, start, (hkept.tracks.mem (.queue (peer, start)) x).mpr (by simp [hx, Handover.within])⟩
  · have hmem := (hkept.tracks.mem (.waiting (.inl j)) x).mpr (by simp [hx, Handover.within])
    cases hmem
  · exact .inr ⟨peer, .inl (mem_waiting ((hkept.tracks.mem (.waiting (.inr peer)) x).mpr
      (by simp [hx, Handover.within])))⟩

theorem Carried.setReceiver {g g' : Device} {x peer : Nat} {r : Option SequentialReceiver}
    (hx : Carried g x)
    (hpeers : g'.peers = g.peers) (hreceivers : g'.receivers = Function.update g.receivers peer r)
    (hr : g.receivers peer = some (.waits x) ∨ g.receivers peer = some (.putsBuffer x) →
      r = some (.waits x) ∨ r = some (.putsBuffer x)) : Carried g' x := by
  refine hx.mono ?_ ?_
  · intro k q hx
    exact .inl ⟨k, q, hpeers ▸ hx⟩
  · intro k hk
    refine .inr ⟨k, ?_⟩
    rw [hreceivers]
    by_cases hkp : k = peer
    · rw [hkp] at hk ⊢
      rw [Function.update_self]
      exact hr hk
    · rw [Function.update_of_ne hkp]
      exact hk

theorem setElement_of_ne {g : Device} {elem x : Nat} {y : QueueInboundElement} (hx : x ≠ elem) :
    (g.setElement elem y).elements x = g.elements x := Function.update_of_ne hx ..

theorem setElement_fields (g : Device) (elem : Nat) {y : QueueInboundElement}
    (hdropped : y.dropped = (g.elements elem).dropped)
    (hbuffer : y.buffer = (g.elements elem).buffer) (x : Nat) :
    ((g.setElement elem y).elements x).dropped = (g.elements x).dropped ∧
      ((g.setElement elem y).elements x).buffer = (g.elements x).buffer := by
  by_cases hx : x = elem
  · rw [hx, Device.setElement]
    dsimp only
    rw [Function.update_self]
    exact ⟨hdropped, hbuffer⟩
  · rw [setElement_of_ne hx]
    exact ⟨rfl, rfl⟩

theorem Carried.setPeer {g g' : Device} {x peer : Nat} {y : PeerQueues.Peer} (hx : Carried g x)
    (hpeers : g'.peers = Function.update g.peers peer y) (hreceivers : g'.receivers = g.receivers)
    (hy : ∀ queue, x ∈ ((g.peers peer).inbound queue).items → x ∈ (y.inbound queue).items) :
    Carried g' x := by
  refine hx.mono ?_ ?_
  · intro k q hx
    refine .inl ⟨k, q, ?_⟩
    rw [hpeers]
    by_cases hk : k = peer
    · rw [hk] at hx ⊢
      rw [Function.update_self]
      exact hy q hx
    · rw [Function.update_of_ne hk]
      exact hx
  · intro k hk
    exact .inr ⟨k, hreceivers ▸ hk⟩

theorem Covered.step (hs : (view s).Kept custody) (hl : Live s.shared)
    (he : Effect (s.threads i) s.shared e w g)
    (hfits : Fits s.shared.elements (s.threads i)) (hc : Covered s b) :
    Covered ⟨g, Function.update s.threads i w⟩ b := by
  have hcarries : ∀ {x : Nat}, Carried g x → (g.elements x).dropped = false →
      (g.elements x).buffer = b →
      Covered ⟨g, Function.update s.threads i w⟩ b :=
        fun hx hdropped hb => .inr (.inr (.inr ⟨_, hx, hdropped, hb⟩))
  cases he with
  | turns _ _ hbuffer =>
    exact hc.step_of .inl (fun hb => .thread (hbuffer.trans hb)) (.queued rfl) fun _ => hcarries
  | forgets hw =>
    exact hc.step_of .inl (fun hb => .thread (by rw [hw] at hb; exact hb))
      (.queued rfl) fun _ => hcarries
  | getsBuffer hw hpool =>
    refine hc.step_of ?_ (fun hb => by rw [hw] at hb; cases hb) (.queued rfl) fun _ => hcarries
    intro hb
    rw [hpool] at hb
    rcases List.mem_cons.mp hb with rfl | hb
    · exact .thread rfl
    · exact .inl hb
  | putsBuffer _ _ _ hbuffer _ _ hpool =>
    refine hc.step_of (fun hb => .inl ?_) (fun hb => .inl ?_) (.queued rfl) fun _ => hcarries
    · rw [hpool]
      exact List.mem_append_left _ hb
    · rw [hpool, Option.some.inj (hbuffer.symm.trans hb)]
      exact List.mem_append_right _ List.mem_cons_self
  | @getsElement _ _ elem _ hw hpool =>
    refine hc.step_of .inl (fun hb => .thread (by rw [hw] at hb; exact hb)) (.queued rfl) ?_
    intro x hx hdropped hb
    -- an element from the pool carries nothing
    have hne : x ≠ elem := by
      rintro rfl
      refine hx.not_pooled hs ?_
      rw [hpool]
      exact List.mem_cons_self
    refine hcarries (x := x) hx ?_ ?_
    · rw [setElement_of_ne hne]
      exact hdropped
    · rw [setElement_of_ne hne]
      exact hb
  | putsElement hw =>
    exact hc.step_of .inl (fun hb => .thread (by rw [hw] at hb; exact hb))
      (.queued rfl) fun _ => hcarries
  | @sendsInbound _ peer queue elem c hw _ hitems =>
    refine hc.step_of .inl (fun hb => .thread (by rw [hw] at hb; exact hb)) (.queued rfl) ?_
    intro x hx
    refine hcarries (hx.setPeer rfl rfl ?_)
    intro q hx
    rw [setInbound_items]
    split
    · rename_i hq
      rw [hitems, ← hq]
      exact List.mem_append_left _ hx
    · exact hx
  | @sendsDecryption buffer elem _ hw hitems =>
    refine hc.step_of .inl ?_ (.queued rfl) fun _ => hcarries
    intro hb
    obtain ⟨place, hx⟩ := Handover.within_key ((hs.tracks.mem (.key (.inl i)) elem).mp
      (by rw [Table.places, view_thread hw]; exact List.mem_cons_self))
    rw [hw] at hb hfits
    exact hcarries (x := elem) (filed_carried hs hx) (congrArg QueueInboundElement.dropped hfits)
      ((congrArg QueueInboundElement.buffer hfits).trans (Option.some.inj hb))
  | @drops _ elem _ _ _ _ hbuffer hkeeps =>
    refine hc.step_of .inl ?_ (.queued rfl) ?_
    · intro hb
      rcases hkeeps with hnone | hsame
      · rw [hnone] at hb
        cases hb
      · exact .thread (hsame.trans hb)
    · intro x hx hdropped hb
      by_cases hxe : x = elem
      · rw [hxe] at hb
        exact .thread ((hbuffer hfits).trans (congrArg some hb))
      · refine hcarries (x := x) hx ?_ ?_
        · rw [Device.drop, setElement_of_ne hxe]
          exact hdropped
        · rw [Device.drop, setElement_of_ne hxe]
          exact hb
  | @unlocks _ elem _ _ _ _ hbuffer =>
    have hfields := setElement_fields s.shared elem
      (y := { s.shared.elements elem with locked := false }) rfl rfl
    refine hc.step_of .inl (fun hb => .thread (hbuffer.trans hb)) (.queued rfl) ?_
    intro x hx hdropped hb
    exact hcarries (x := x) hx ((hfields x).1.trans hdropped) ((hfields x).2.trans hb)
  | sendsHandshake hw hitems =>
    refine hc.step_of .inl (fun hb => .inr (.inr (.inl ?_))) (fun hb => .inr (.inr (.inl ?_)))
      fun _ => hcarries
    · rw [hw] at hb
      rw [hitems, ← Option.some.inj hb]
      exact List.mem_append_right _ List.mem_cons_self
    · rw [hitems]
      exact List.mem_append_left _ hb
  | takesHandshake hw hitems =>
    refine hc.step_of .inl (fun hb => by rw [hw] at hb; cases hb) ?_ fun _ => hcarries
    intro hb
    rw [hitems] at hb
    rcases List.mem_cons.mp hb with rfl | hb
    · exact .thread rfl
    · exact .inr (.inr (.inl hb))
  | takesDecryption hw | passesOver hw =>
    exact hc.step_of .inl (fun hb => by rw [hw] at hb; cases hb) (.queued rfl) fun _ => hcarries
  | @receiverTakes peer elem c hw hr hitems =>
    refine hc.step_of .inl (fun hb => by rw [hw] at hb; cases hb) (.queued rfl) ?_
    intro x hx
    by_cases hxe : x = elem
    · refine hcarries (.inr ⟨peer, .inl ?_⟩)
      rw [hxe]
      exact Function.update_self ..
    · have hleft :
          Carried (s.shared.setPeer peer
              ((s.shared.peers peer).setInbound (s.shared.peers peer).starts c)) x := by
        refine hx.setPeer rfl rfl ?_
        intro q hx
        rw [setInbound_items]
        split
        · rename_i hq
          rw [hq, ← Device.inbound, hitems] at hx
          exact (List.mem_cons.mp hx).resolve_left hxe
        · exact hx
      refine hcarries (hleft.setReceiver rfl rfl ?_)
      intro h
      rw [show (s.shared.setPeer peer _).receivers peer = some .selects from hr] at h
      rcases h with h | h <;> cases h
  | @receiverLocks peer elem hw hr _ =>
    have hfields := setElement_fields s.shared elem
      (y := { s.shared.elements elem with locked := true }) rfl rfl
    refine hc.step_of .inl (fun hb => by rw [hw] at hb; cases hb) (.queued rfl) ?_
    intro x hx hdropped hb
    refine hcarries (x := x) (hx.setReceiver rfl rfl ?_) ((hfields x).1.trans hdropped)
      ((hfields x).2.trans hb)
    rw [hr]
    rintro (h | h) <;> cases h
    exact .inr rfl
  | @receiverSkips peer elem hw hr hdropped =>
    refine hc.step_of .inl (fun hb => by rw [hw] at hb; cases hb) (.queued rfl) ?_
    intro x hx hcarried
    refine hcarries (x := x) (hx.setReceiver rfl rfl ?_) hcarried
    rw [hr]
    rintro (h | h) <;> cases h
    rw [hcarried] at hdropped
    cases hdropped
  | @receiverPutsBuffer peer elem c hw hr hpool =>
    have hmem : ∀ b, b ∈ s.shared.messageBufferReuseChan.items ∨
        b = (s.shared.elements elem).buffer → b ∈ c.items := by
      intro b hb
      rw [hpool]
      simpa using hb
    refine hc.step_of (fun hb => .inl (hmem b (.inl hb))) (fun hb => by rw [hw] at hb; cases hb)
      (.queued rfl) ?_
    intro x hx hdropped hb
    by_cases hxe : x = elem
    · rw [hxe] at hb
      exact .inl (hmem b (.inr hb.symm))
    · refine hcarries (x := x) (hx.setReceiver rfl rfl ?_) hdropped hb
      rw [hr]
      rintro (h | h) <;> cases h
      exact absurd rfl hxe
  | @receiverPutsElement peer elem c hw hr hpool =>
    refine hc.step_of .inl (fun hb => by rw [hw] at hb; cases hb) (.queued rfl) ?_
    intro x hx
    refine hcarries (x := x) (hx.setReceiver rfl rfl ?_)
    rw [hr]
    rintro (h | h) <;> cases h
  | @receiverReturns peer hw hr _ =>
    refine hc.step_of .inl (fun hb => by rw [hw] at hb; cases hb) (.queued rfl) ?_
    intro x hx
    have hleft : Carried (s.shared.setPeer peer { s.shared.peers peer with
        routines := (s.shared.peers peer).routines - 1 }) x := hx.setPeer rfl rfl fun _ => id
    refine hcarries (x := x) (hleft.setReceiver rfl rfl ?_)
    intro h
    rw [show (s.shared.setPeer peer _).receivers peer = some .selects from hr] at h
    rcases h with h | h <;> cases h
  | @controls _ peer x hw hw' _ hitems =>
    refine hc.step_of .inl (fun hb => by rw [hw.2.2] at hb; cases hb) (.queued rfl) ?_
    intro y hy
    refine hcarries (hy.setPeer rfl rfl ?_)
    intro q hy
    rw [hitems]
    exact hy
  | @starts _ peer x hw hw' _ hroutines hitems =>
    refine hc.step_of .inl (fun hb => by rw [hw.2.2] at hb; cases hb) (.queued rfl) ?_
    intro y hy
    have hleft : Carried (s.shared.setPeer peer x) y := by
      refine hy.setPeer rfl rfl ?_
      intro q hy
      rw [hl.all_empty hroutines] at hy
      cases hy
    refine hcarries (x := y) (hleft.setReceiver rfl rfl ?_)
    intro h
    rw [show (s.shared.setPeer peer _).receivers peer = none from hl.no_receiver hroutines] at h
    rcases h with h | h <;> cases h

end

/-- Every element is somewhere, and so is every buffer. -/
structure Conserved (size : Nat) (s : Threads.State Device Party) : Prop where
  live : Live s.shared
  fits : ∀ j, Fits s.shared.elements (s.threads j)
  kept : ∃ custody, (view s).Kept custody ∧ ∀ x < size, custody x ≠ .nowhere
  covered : ∀ b < size, Covered s b

theorem Conserved.step {size : Nat} {s t : Threads.State Device Party} {e : Nat × Event}
    (hs : Conserved size s)
    (hguard : PoolGuard (s.threads e.1) s.shared e.2) (hst : InboundPools.step s e = some t) :
    Conserved size t := by
  obtain ⟨hl, hfits, ⟨custody, hkept, hpresent⟩, hcovered⟩ := hs
  obtain ⟨⟨w, g⟩, ha, rfl⟩ := Option.map_eq_some_iff.mp hst
  have he := act_effect ha
  obtain ⟨custody', hkept', hlost⟩ := (he.handover hkept hl hguard (hfits e.1)).kept hkept
  refine ⟨hl.step hguard he, he.fits hkept hfits,
    ⟨custody', hkept', fun x hx => hlost x (hpresent x hx)⟩, ?_⟩
  intro b hb
  exact (hcovered b hb).step hkept hl he (hfits e.1)

theorem populated_conserved (size : Nat) : Conserved size (populated size) where
  live := ⟨fun _ _ h => absurd rfl h, fun _ h => absurd rfl h⟩
  fits _ := trivial
  kept := by
    refine ⟨_, Table.kept_pooled (v := view (populated size)) List.nodup_range' ?_
      (fun _ => rfl) rfl, ?_⟩
    · rintro (j | peer) <;> rfl
    · intro x hx
      rw [if_pos (by simpa [view, populated] using hx)]
      intro h
      cases h
  covered b hb := .inl (by simpa [populated] using hb)

/-- Not at work on a datagram. -/
def Party.Rests : Party → Prop
  | .idle | .receive (.reads _) | .stop .. | .start .. => True
  | _ => False

/-- No datagram is being processed, and the queues that somebody reads from are empty. -/
structure Quiet (s : Threads.State Device Party) : Prop where
  threads : ∀ j, (s.threads j).Rests
  receivers : ∀ peer, s.shared.receivers peer = none ∨ s.shared.receivers peer = some .selects
  decryption : s.shared.decryption.items = []
  handshake : s.shared.handshake.items = []
  inbound : ∀ peer, s.shared.receivers peer ≠ none → (s.shared.inbound peer).items = []

section
variable {s : Threads.State Device Party} {custody : Nat → Custody (Nat ⊕ Nat) (Nat × Nat)}

theorem rests_bare {w : Party} (hw : w.Rests) :
    w.element = none ∧ w.key = none ∧ ∀ b, w.buffer = some b → w = .receive (.reads b) := by
  unfold Party.Rests at hw
  split at hw
  · exact ⟨rfl, rfl, nofun⟩
  · refine ⟨rfl, rfl, ?_⟩
    rintro b ⟨⟩
    rfl
  · exact ⟨rfl, rfl, nofun⟩
  · exact ⟨rfl, rfl, nofun⟩
  · exact hw.elim

theorem Quiet.queue_empty (hq : Quiet s) (hl : Live s.shared) (peer queue : Nat) :
    ((s.shared.peers peer).inbound queue).items = [] := by
  by_contra hne
  obtain ⟨rfl, hreceiver⟩ := hl.queued peer queue hne
  exact hne (hq.inbound peer hreceiver)

theorem Quiet.not_carried (hq : Quiet s) (hl : Live s.shared) (x : Nat) : ¬ Carried s.shared x := by
  rintro (⟨peer, queue, hx⟩ | ⟨peer, hx⟩)
  · rw [hq.queue_empty hl] at hx
    cases hx
  · rcases hq.receivers peer with hr | hr
    · rw [hr] at hx
      rcases hx with hx | hx <;> cases hx
    · rw [hr] at hx
      rcases hx with hx | hx <;> cases hx

theorem Quiet.pooled (hq : Quiet s) (hl : Live s.shared) (hkept : (view s).Kept custody) {x : Nat}
    (hx : custody x ≠ .nowhere) : x ∈ s.shared.inboundElementReuseChan.items := by
  cases hc : custody x with
  | nowhere => exact absurd hc hx
  | pool => exact (hkept.tracks.mem .pool x).mpr (by rw [hc]; trivial)
  | hand h =>
    have hmem := (hkept.tracks.mem (.hand h) x).mpr (by rw [hc]; rfl)
    rcases h with j | peer
    · change x ∈ (s.threads j).element.toList at hmem
      rw [(rests_bare (hq.threads j)).1] at hmem
      cases hmem
    · change x ∈ (receiverLocal (s.shared.receivers peer)).hand at hmem
      rcases hq.receivers peer with hr | hr
      · rw [hr] at hmem
        cases hmem
      · rw [hr] at hmem
        cases hmem
  | filed place holder => exact absurd (filed_carried hkept hc) (hq.not_carried hl x)

end

/-- In every guarded run from full pools, whenever no datagram is being processed, every
element is in its pool, and every buffer is in its own or with a routine that waits for a
datagram. -/
theorem pools_conserved (size : Nat) (events : List (Nat × Event))
    (hguard : Run.Meets step (fun s e => PoolGuard (s.threads e.1) s.shared e.2)
      (populated size) events)
    (t : Threads.State Device Party) (run : Run.exec step (populated size) events = some t)
    (hquiet : Quiet t) :
    (∀ x < size, x ∈ t.shared.inboundElementReuseChan.items) ∧
      ∀ b < size, b ∈ t.shared.messageBufferReuseChan.items ∨ ∃ j, t.threads j =
        .receive (.reads b) := by
  obtain ⟨hl, -, ⟨custody, hkept, hpresent⟩, hcovered⟩ : Conserved size t :=
    Run.exec_guarded _ (fun _ _ _ hs hg hst => hs.step hg hst) (populated_conserved size) hguard run
  refine ⟨fun x hx => hquiet.pooled hl hkept (hpresent x hx), ?_⟩
  intro b hb
  rcases hcovered b hb with hb | ⟨j, hj⟩ | hb | ⟨x, hx, -⟩
  · exact .inl hb
  · exact .inr ⟨j, (rests_bare (hquiet.threads j)).2.2 b hj⟩
  · rw [hquiet.handshake] at hb
    cases hb
  · exact absurd hx (hquiet.not_carried hl x)

instance (w : Party) (g : Device) (e : Event) : Decidable (PoolGuard w g e) := by
  unfold PoolGuard
  split <;> infer_instance

/-- Peer 0 is started by goroutine 0, and a datagram for it is read by goroutine 1. -/
def datagramRead : List (Nat × Event) :=
  [Event.start 0, .next, .next, .next].map (Prod.mk 0) ++
    [Event.receiveIncoming, .next, .datagram (.transport 0)].map (Prod.mk 1)

/-- The peer's routines return, and `Stop` with them. -/
def stopEnds : List (Nat × Event) :=
  [Event.next, .next].map (Prod.mk 0) ++
    [Event.receiverStops 0, .routineReturns 0, .routineReturns 0].map (Prod.mk 2) ++
    [Event.next, .next, .next, .next].map (Prod.mk 0)

/-- The packet is decrypted by goroutine 2 and received before the peer is stopped. -/
def datagramReceived : List (Nat × Event) :=
  datagramRead ++ [Event.next, .next, .next, .next, .next, .next].map (Prod.mk 1) ++
    [Event.takeDecryption, .opened true, .next].map (Prod.mk 2) ++
    [Event.receiver 0, .receiver 0, .receiver 0, .receiver 0].map (Prod.mk 2) ++
      (0, Event.stop 0) :: stopEnds

theorem pools_conserved_received :
    ∃ t, Run.exec step (populated 3) datagramReceived = some t ∧
      (∀ x < 3, x ∈ t.shared.inboundElementReuseChan.items) ∧
      ∀ b < 3, b ∈ t.shared.messageBufferReuseChan.items ∨ ∃ j, t.threads j =
        .receive (.reads b) := by
  refine ⟨_, rfl, pools_conserved 3 datagramReceived
    (Run.meets_of_check (by decide +kernel)) _ rfl ?_⟩
  refine ⟨?_, ?_, rfl, rfl, ?_⟩
  · intro j
    rcases j with _ | _ | _ | j <;> trivial
  · intro peer
    rcases peer with _ | peer <;> exact .inl rfl
  · intro peer hne
    rcases peer with _ | peer <;> exact absurd rfl hne

/-- `Stop` comes in between the look at the keypair and the look at `isRunning`. -/
def datagramOvertaken : List (Nat × Event) :=
  datagramRead ++ [(0, Event.stop 0), (1, .next), (1, .next)] ++ stopEnds

/-- The element is never put back. -/
theorem element_lost :
    ∃ t, Run.exec step (populated PreallocatedBuffersPerPool) datagramOvertaken = some t ∧ Quiet t ∧
      0 ∉ t.shared.inboundElementReuseChan.items := by
  refine ⟨_, rfl, ⟨?_, ?_, rfl, rfl, ?_⟩, ?_⟩
  · intro j
    rcases j with _ | _ | _ | j <;> trivial
  · intro peer
    rcases peer with _ | peer <;> exact .inl rfl
  · intro peer hne
    rcases peer with _ | peer <;> exact absurd rfl hne
  · change 0 ∉ List.range' 1 4095
    simp

end Sewg.Go.InboundPools
