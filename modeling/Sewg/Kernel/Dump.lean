import Sewg.Lib.Prefixes
import Sewg.Kernel.Walks

/-! Listing a peer's allowed IPs in several calls: however often the callback fails, the
calls with one cursor hand out each prefix once, in the order of a single call. -/

namespace Sewg.Kernel

open CString (Bytes)
open Words Routes PtrTree Loop

/-- What the callback is given. -/
abbrev Delivery := Bytes × Nat × Family

/-- The callback, with a record of the calls of it that succeeded. -/
def recorded {σ : Type} (func : Callback σ) : Callback (σ × List Delivery) :=
  fun ctx ip cidr family =>
    let (ret, inner) := func ctx.1 ip cidr family
    (ret, inner, if ret = 0 then ctx.2 ++ [(ip, cidr, family)] else ctx.2)

/-! ### Addresses -/

section
variable {P : Type} {e : Endian} {size : Nat} {d : NodeData P}

theorem swapEndian_bits (hsize : AddressSize size) (hd : d.Shaped e size) :
    swapEndian e d.bits (8 * size) = d.key e size := by
  have hbits := hd.bits
  rcases hsize with rfl | rfl
  · have hlen : (d.bits.take 4).length = 4 := by rw [List.length_take, hbits]; rfl
    have htake : swapEndian e d.bits 32 = swapEndian e (d.bits.take 4) 32 := by
      rw [swapEndian, swapEndian, List.take_take]
      rfl
    exact htake.trans (swapEndian_32 hlen)
  · have htake : d.bits.take 16 = d.bits := List.take_of_length_le (Nat.le_of_eq hbits)
    rw [NodeData.key, htake]
    exact swapEndian_128 hbits

theorem lastByte_mask {n : Nat} (hn : n ≠ 0) :
    (0xff : UInt8) <<< UInt8.ofNat ((8 - n % 8) % 8) = topBits (n - 8 * ((n + 7) / 8 - 1)) := by
  have hrest : n - 8 * ((n + 7) / 8 - 1) = (n - 1) % 8 + 1 := by omega
  have hshift : (8 - n % 8) % 8 = 7 - (n - 1) % 8 := by omega
  have hlt : (n - 1) % 8 < 8 := Nat.mod_lt _ (by decide)
  rw [hrest, hshift]
  generalize (n - 1) % 8 = k at hlt
  interval_cases k <;> rfl

theorem nodeIp_eq (hsize : AddressSize size) (hd : d.Shaped e size) (hcidr : d.cidr ≤ 8 * size) :
    nodeIp e d (8 * size) = maskBits d.cidr (d.key e size) := by
  have hlen := length_key hsize hd
  unfold nodeIp
  dsimp only
  rw [swapEndian_bits hsize hd, Nat.mul_div_cancel_left size (by decide)]
  generalize d.key e size = key at hlen
  rw [← hlen] at hcidr ⊢
  by_cases h0 : d.cidr = 0
  · rw [if_neg (not_not.mpr h0), h0, maskBits_zero]
    rfl
  · rw [if_pos h0, lastByte_mask h0, maskBits_eq_modify hcidr h0]

end

/-! ### One walk -/

section
variable {P : Type} [DecidableEq P] {e : Endian} {size bits height : Nat} {p : P}
  {m : Cells (NodeData P)} {stack : List Nat} {ts : List (PTree (NodeData P))}
  {σ : Type} {func : Callback σ}

/-- What is still to be handed out for some trees. -/
def deliveries (e : Endian) (bits : Nat) (p : P) (ts : List (PTree (NodeData P))) : List Delivery :=
  ((todo ts).filter fun d => d.peer = some p).map fun d => (nodeIp e d bits, d.cidr, familyOf bits)

/-- The value was returned by the callback. -/
def Comes (func : Callback σ) (ret : Int) : Prop :=
  ∃ ctx ip cidr family, (func ctx ip cidr family).1 = ret

/-- Where a walk of the rest ends: everything is handed out, or the callback has failed and
the stack stands for what is left. -/
inductive Ended (e : Endian) (m : Cells (NodeData P)) (height bits : Nat) (p : P)
    (func : Callback σ) (log : List Delivery) (ts : List (PTree (NodeData P))) :
    Int × List Nat × σ × List Delivery → Prop
  | all (ctx : σ) : Ended e m height bits p func log ts (0, [], ctx, log ++ deliveries e bits p ts)
  | failed (ret : Int) (stack : List Nat) (ctx : σ) (log' : List Delivery)
      (ts' : List (PTree (NodeData P)))
      (failed : ret ≠ 0) (comes : Comes func ret) (rest : stack ≠ [])
        (pending : Pending m height stack ts')
      (same : log' ++ deliveries e bits p ts' = log ++ deliveries e bits p ts) :
      Ended e m height bits p func log ts (ret, stack, ctx, log')

theorem Ended.of_eq {log log₀ : List Delivery} {ts₀ : List (PTree (NodeData P))}
    {r : Int × List Nat × σ × List Delivery} (h : Ended e m height bits p func log ts r)
    (heq : log ++ deliveries e bits p ts = log₀ ++ deliveries e bits p ts₀) :
    Ended e m height bits p func log₀ ts₀ r := by
  cases h with
  | all ctx =>
    rw [heq]
    exact .all ctx
  | failed ret stack ctx log' ts' failed comes rest pending same =>
    exact .failed ret stack ctx log' ts' failed comes rest pending (same.trans heq)

theorem deliveries_cons (e : Endian) (bits : Nat) (p : P) {d : NodeData P}
    {ts' : List (PTree (NodeData P))} (h : todo ts = d :: todo ts') : deliveries e bits p ts =
      if d.peer = some p then (nodeIp e d bits, d.cidr, familyOf bits) :: deliveries e bits p ts'
      else deliveries e bits p ts' := by
  unfold deliveries
  rw [h, List.filter_cons]
  by_cases hp : d.peer = some p
  · simp [hp]
  · simp [hp]

theorem walk_ends (e : Endian) (bits : Nat) (p : P) (func : Callback σ)
    (h : Pending m height stack ts) (ctx : σ) (log : List Delivery) :
    ∃ r, Returns (walkByPeerStep (recorded func) e m bits (some p)) (stack, ctx, log) r ∧
      Ended e m height bits p func log ts r := by
  -- by induction on the nodes that are left; each turn takes one of them
  generalize hlist : todo ts = left
  induction left generalizing stack ts ctx log with
  | nil =>
    rcases h.step with ⟨rfl, -⟩ | ⟨n, rest, c, ts', -, -, hcons, -⟩
    · refine ⟨_, returns_done rfl, ?_⟩
      have hnone : deliveries e bits p ts = [] := by rw [deliveries, hlist]; rfl
      have hall : Ended e m height bits p func log ts _ := .all ctx
      rwa [hnone, List.append_nil] at hall
    · rw [hlist] at hcons
      cases hcons
  | cons d left ih =>
    rcases h.step with ⟨-, hnil⟩ | ⟨n, rest, c, ts', rfl, hcell, hcons, hnext, -⟩
    · rw [hlist] at hnil
      cases hnil
    · obtain ⟨rfl, rfl⟩ := List.cons.inj (hlist.symm.trans hcons)
      have hlist' := deliveries_cons e bits p hcons
      by_cases hp : c.data.peer = some p
      · rw [if_pos hp] at hlist'
        obtain ⟨ret, ctx', hf⟩ :
            ∃ ret ctx', func ctx (nodeIp e c.data bits) c.data.cidr (familyOf bits) =
            (ret, ctx') := ⟨_, _, rfl⟩
        by_cases hret : ret = 0
        · have hstep :
              walkByPeerStep (recorded func) e m bits (some p) (n :: rest, ctx, log) = some (.inl
              (pushBranches c rest, ctx', log ++
                  [(nodeIp e c.data bits, c.data.cidr, familyOf bits)])) := by
            simp only [walkByPeerStep, hcell, Option.bind_eq_bind, Option.bind_some, recorded, hf]
            rw [if_neg (not_not.mpr hp), if_neg (not_not.mpr hret), if_pos hret]
            rfl
          obtain ⟨r, hreturns, hended⟩ := ih hnext ctx' _ rfl
          refine ⟨r, returns_next hstep hreturns, hended.of_eq ?_⟩
          rw [hlist', List.append_assoc, List.singleton_append]
        · refine ⟨(ret, n :: rest, ctx', log), returns_done ?_,
            .failed _ _ _ _ ts hret ⟨_, _, _, _, congrArg Prod.fst hf⟩ nofun h rfl⟩
          simp only [walkByPeerStep, hcell, Option.bind_eq_bind, Option.bind_some, recorded, hf]
          rw [if_neg (not_not.mpr hp), if_pos hret, if_neg hret]
          rfl
      · rw [if_neg hp] at hlist'
        have hstep : walkByPeerStep (recorded func) e m bits (some p) (n :: rest, ctx, log) =
            some (.inl (pushBranches c rest, ctx, log)) := by
          simp only [walkByPeerStep, hcell, Option.bind_eq_bind, Option.bind_some]
          rw [if_pos hp]
          rfl
        obtain ⟨r, hreturns, hended⟩ := ih hnext ctx log rfl
        exact ⟨r, returns_next hstep hreturns, hended.of_eq (by rw [hlist'])⟩

variable {t : PTree (NodeData P)} {base log : List Delivery}

/-- The stack between two walks of a trie: empty before the first one, and otherwise what a
failure has left. -/
inductive Resumes (e : Endian) (m : Cells (NodeData P)) (t : PTree (NodeData P))
    (bits : Nat) (p : P) (base : List Delivery) : List Nat → List Delivery → Prop
  | start : Resumes e m t bits p base [] base
  | within (stack : List Nat) (log : List Delivery) (ts : List (PTree (NodeData P)))
      (rest : stack ≠ []) (pending : Pending m t.depth stack ts)
      (same : log ++ deliveries e bits p ts = base ++ deliveries e bits p [t]) :
      Resumes e m t bits p base stack log

/-- What a walk of a trie comes to. -/
inductive Outcome (e : Endian) (m : Cells (NodeData P)) (t : PTree (NodeData P))
    (bits : Nat) (p : P)
    (base : List Delivery) (func : Callback σ) : Int × List Nat × σ × List Delivery → Prop
  | all (stack : List Nat) (ctx : σ) :
      Outcome e m t bits p base func (0, stack, ctx, base ++ deliveries e bits p [t])
  | failed (ret : Int) (stack : List Nat) (ctx : σ) (log : List Delivery) (failed : ret ≠ 0)
      (comes : Comes func ret) (resumes : Resumes e m t bits p base stack log) :
      Outcome e m t bits p base func (ret, stack, ctx, log)

theorem Ended.outcome {r : Int × List Nat × σ × List Delivery}
    (h : Ended e m t.depth bits p func log ts r)
    (heq : log ++ deliveries e bits p ts = base ++ deliveries e bits p [t]) :
    Outcome e m t bits p base func r := by
  cases h with
  | all ctx =>
    rw [heq]
    exact .all [] ctx
  | failed ret stack ctx log' ts' failed comes rest pending same =>
    exact .failed ret stack ctx log' failed comes
      (.within stack log' ts' rest pending (same.trans heq))

theorem walkByPeer_ends (func : Callback σ) (hr : t.Rep m) (hd : t.Distinct)
    (h : Resumes e m t bits p base stack log) (ctx : σ) :
    ∃ r, Eventually (fun fuel => walkByPeer (recorded func) e fuel m t.root bits (some p) stack
      (ctx, log)) r ∧ Outcome e m t bits p base func r := by
  cases t with
  | nil =>
    cases h with
    | start =>
      have hnone : base ++ deliveries e bits p [.nil] = base := List.append_nil base
      have hall : Outcome e m .nil bits p base func _ := .all [] ctx
      rw [hnone] at hall
      exact ⟨_, eventually_some _, hall⟩
    | within stack log ts rest pending same =>
      exact absurd (List.length_eq_zero_iff.mp (Nat.le_zero.mp pending.length_le)) rest
  | node ptr d child =>
    cases h with
    | start =>
      obtain ⟨r, hreturns, hended⟩ := walk_ends e bits p func
        (Pending.single hr hd (Nat.le_refl _)) ctx base
      exact ⟨r, hreturns, hended.outcome rfl⟩
    | within stack log ts rest pending same =>
      obtain ⟨r, hreturns, hended⟩ := walk_ends e bits p func pending ctx log
      refine ⟨r, ?_, hended.outcome same⟩
      simp only [walkByPeer, PTree.root, if_neg rest]
      exact hreturns

end

/-! ### Several calls -/

section
variable {P : Type} [DecidableEq P] {e : Endian} {p : P} {table : Allowedips P}
  {t4 t6 : PTree (NodeData P)} {v4 v6 : Table Bytes P} {cursor : AllowedipsCursor}
  {log : List Delivery} {σ : Type} {func : Callback σ}

/-- What a call with this cursor and context returns. -/
def Calls (e : Endian) (table : Allowedips P) (p : P) (func : Callback σ)
    (cursor : AllowedipsCursor) (ctx : σ) (r : Int × AllowedipsCursor × σ) : Prop :=
  Eventually (fun fuel => wgAllowedipsWalkByPeer func e fuel table cursor (some p) ctx) r

/-- The cursor between two calls, after `log` has been handed out. -/
inductive CursorAt (e : Endian) (table : Allowedips P) (t4 t6 : PTree (NodeData P)) (p : P) :
    AllowedipsCursor → List Delivery → Prop
  | first (seq : Nat) (stack : List Nat) (log : List Delivery) (seq_ok : seq = 0 ∨ seq = table.seq)
      (resumes : Resumes e table.cell t4 32 p [] stack log) :
        CursorAt e table t4 t6 p ⟨seq, stack, false⟩ log
  | second (stack : List Nat) (log : List Delivery)
      (resumes : Resumes e table.cell t6 128 p (deliveries e 32 p [t4]) stack log) :
      CursorAt e table t4 t6 p ⟨table.seq, stack, true⟩ log

/-- What a call comes to. -/
inductive CallEnded (e : Endian) (table : Allowedips P) (t4 t6 : PTree (NodeData P)) (p : P)
    (func : Callback σ) : Int × AllowedipsCursor × σ × List Delivery → Prop
  | all (cursor : AllowedipsCursor) (ctx : σ) :
      CallEnded e table t4 t6 p func
        (0, cursor, ctx, deliveries e 32 p [t4] ++ deliveries e 128 p [t6])
  | failed (ret : Int) (cursor : AllowedipsCursor) (ctx : σ) (log : List Delivery)
      (failed : ret ≠ 0) (comes : Comes func ret) (cursorAt : CursorAt e table t4 t6 p cursor log) :
      CallEnded e table t4 t6 p func (ret, cursor, ctx, log)

theorem secondHalf_ends (func : Callback σ) (t4 : PTree (NodeData P)) {stack : List Nat}
    (h6 : Holds e 16 ⟨table.root6, table.cell⟩ table.next v6 t6)
    (h : Resumes e table.cell t6 128 p (deliveries e 32 p [t4]) stack log) (ctx : σ) :
    ∃ r, Eventually (fun fuel => walkSecondHalf (recorded func) e fuel table (some p) stack
      (ctx, log)) r ∧ CallEnded e table t4 t6 p func r := by
  obtain ⟨r, hr, houtcome⟩ := walkByPeer_ends func h6.rep h6.distinct h ctx
  have htop : table.root6 = t6.root := h6.top
  refine ⟨(r.1, ⟨table.seq, r.2.1, true⟩, r.2.2), ?_, ?_⟩
  · unfold walkSecondHalf
    rw [htop]
    exact hr.bind (eventually_some _)
  · cases houtcome with
    | all stack ctx => exact .all _ ctx
    | failed ret stack ctx log failed comes resumes =>
      exact .failed ret _ ctx log failed comes (.second stack log resumes)

theorem call_ends (func : Callback σ) (h4 : Holds e 4 ⟨table.root4, table.cell⟩ table.next v4 t4)
    (h6 : Holds e 16 ⟨table.root6, table.cell⟩ table.next v6 t6)
    (h : CursorAt e table t4 t6 p cursor log) (ctx : σ) :
    ∃ r, Calls e table p (recorded func) cursor (ctx, log) r ∧
      CallEnded e table t4 t6 p func r := by
  cases h with
  | second stack log resumes =>
    obtain ⟨r, hr, hended⟩ := secondHalf_ends func t4 h6 resumes ctx
    refine ⟨r, ?_, hended⟩
    simp only [Calls, wgAllowedipsWalkByPeer, ne_eq, not_true_eq_false, and_false,
      if_false, if_true]
    exact hr
  | first seq stack log seq_ok resumes =>
    have htop : table.root4 = t4.root := h4.top
    have hseq : ¬(seq ≠ 0 ∧ seq ≠ table.seq) := by tauto
    obtain ⟨r, hr, houtcome⟩ := walkByPeer_ends func h4.rep h4.distinct resumes ctx
    rw [← htop] at hr
    cases houtcome with
    | all stack' ctx' =>
      obtain ⟨r, hr', hended⟩ := secondHalf_ends func t4 h6 .start ctx'
      refine ⟨r, ?_, hended⟩
      simp only [Calls, wgAllowedipsWalkByPeer, if_neg hseq]
      exact hr.bind hr'
    | failed ret stack' ctx' log' failed comes resumes' =>
      refine ⟨(ret, ⟨table.seq, stack', false⟩, ctx', log'), ?_,
        .failed ret _ ctx' log' failed comes (.first table.seq stack' log' (.inr rfl) resumes')⟩
      simp only [Calls, wgAllowedipsWalkByPeer, if_neg hseq]
      refine hr.bind ?_
      simp only [ne_eq, failed, not_false_eq_true, if_true]
      exact eventually_some _

/-- Calls with one cursor, starting from a cleared one, all of which have failed so far. -/
inductive Dumping (e : Endian) (table : Allowedips P) (p : P) (func : Callback σ) (ctx₀ : σ) :
    AllowedipsCursor → σ → Prop
  | start : Dumping e table p func ctx₀ .zeroed ctx₀
  | again {cursor cursor' : AllowedipsCursor} {ctx ctx' : σ} {ret : Int}
      (before : Dumping e table p func ctx₀ cursor ctx)
      (call : Calls e table p func cursor ctx (ret, cursor', ctx')) (failed : ret ≠ 0) :
      Dumping e table p func ctx₀ cursor' ctx'

theorem Dumping.cursorAt (h4 : Holds e 4 ⟨table.root4, table.cell⟩ table.next v4 t4)
    (h6 : Holds e 16 ⟨table.root6, table.cell⟩ table.next v6 t6) {ctx₀ : σ}
    {state : σ × List Delivery} (h : Dumping e table p (recorded func) (ctx₀, []) cursor state) :
    CursorAt e table t4 t6 p cursor state.2 := by
  induction h with
  | start => exact .first 0 [] [] (.inl rfl) .start
  | again before call failed ih =>
    obtain ⟨r, hr, hended⟩ := call_ends func h4 h6 ih _
    obtain rfl := hr.unique call
    cases hended with
    | all => exact absurd rfl failed
    | failed _ _ _ _ _ _ cursorAt => exact cursorAt

theorem CursorAt.handed_out (h : CursorAt e table t4 t6 p cursor log) :
    log <+: deliveries e 32 p [t4] ++ deliveries e 128 p [t6] := by
  cases h with
  | first seq stack log seq_ok resumes =>
    cases resumes with
    | start => exact List.nil_prefix
    | within stack log ts rest pending same =>
      have hfirst : log <+: deliveries e 32 p [t4] := ⟨_, same⟩
      exact hfirst.trans (List.prefix_append _ _)
  | second stack log resumes =>
    cases resumes with
    | start => exact List.prefix_append _ _
    | within stack log ts rest pending same => exact ⟨_, same⟩

/-- The masked prefixes of addresses of `size` bytes that `table` has for `p`. -/
def PrefixOf (size : Nat) (table : Table Bytes P) (p : P) (ip : Bytes) (n : Nat) : Prop :=
  ip.length = size ∧ (∀ i, n ≤ i → bitAt ip i = false) ∧ table ip n = some p

omit [DecidableEq P] in
theorem keysOf_abs {size : Nat} {t : PTree (NodeData P)} (hsize : AddressSize size)
    (h : AllShaped e size t) : (abs e size t).KeysOf size := by
  induction t with
  | nil => trivial
  | node ptr d child ih => exact ⟨length_key hsize h.1, fun i => ih i (h.2 i)⟩

theorem deliveries_eq_listing {size : Nat} {t : PTree (NodeData P)} (h : Valid e size t) :
    deliveries e (8 * size) p [t] =
      ((abs e size t).listing true p).map fun entry => (entry.1, entry.2, familyOf (8 * size)) := by
  have hsingle (t : PTree (NodeData P)) : todo [t] = t.preorder := List.append_nil _
  unfold deliveries
  rw [hsingle]
  induction t with
  | nil => rfl
  | node ptr d child ih =>
    have hip := nodeIp_eq h.size_ok h.shaped.1 h.ordered.1
    simp only [PTree.preorder, abs, Trie.listing, Trie.entries, List.filter_cons,
      List.filter_append, List.map_append, List.map_map, Bool.not_true] at ih ⊢
    have htrue := ih true (h.child true)
    have hfalse := ih false (h.child false)
    by_cases hp : d.peer = some p
    · simp [hp, hip, htrue, hfalse]
    · simp [hp, htrue, hfalse]

theorem mem_listing_iff_prefixOf {size : Nat} {s : Store (NodeData P)} {next : Nat}
    {v : Table Bytes P}
    {t : PTree (NodeData P)} (h : Holds e size s next v t) (ip : Bytes) (n : Nat) :
    (ip, n) ∈ (abs e size t).listing true p ↔ PrefixOf size v p ip n := by
  rw [Trie.mem_listing_iff h.valid.ordered (keysOf_abs h.valid.size_ok h.valid.shaped),
    maskBits_eq_self_iff, h.get, PrefixOf]

/-- The prefixes with the family they are handed out with. -/
def handedOut (v4 v6 : List (Bytes × Nat)) : List Delivery :=
  (v4.map fun entry => (entry.1, entry.2, .inet)) ++ v6.map fun entry => (entry.1, entry.2, .inet6)

/-- For every table and every callback: each call ends, one that returns 0 has completed the
list of the peer's prefixes, IPv4 before IPv6 and each once, and the others have handed out
a part of it from the start. A callback that does not fail gets the whole list in one call. -/
theorem dump_complete (e : Endian) (ops : List (Operation P)) (p : P) :
    ∃ (table : Allowedips P) (v4 v6 : List (Bytes × Nat)),
      Eventually (fun fuel => wgAllowedipsInit.performAll fuel e ops) table ∧
      v4.Nodup ∧ v6.Nodup ∧
      (∀ ip n, (ip, n) ∈ v4 ↔ PrefixOf 4 (routes 4 ops) p ip n) ∧
      (∀ ip n, (ip, n) ∈ v6 ↔ PrefixOf 16 (routes 16 ops) p ip n) ∧
      ∀ (σ : Type) (func : Callback σ) (ctx₀ : σ),
        (∀ cursor ctx log, Dumping e table p (recorded func) (ctx₀, []) cursor (ctx, log) →
          ∃ ret cursor' ctx' log',
            Calls e table p (recorded func) cursor (ctx, log) (ret, cursor', ctx', log') ∧
            (ret = 0 → log' = handedOut v4 v6) ∧ (ret ≠ 0 → log' <+: handedOut v4 v6)) ∧
        ((∀ ctx ip cidr family, (func ctx ip cidr family).1 = 0) → ∃ cursor' ctx',
          Calls e table p (recorded func) .zeroed (ctx₀, []) (0, cursor', ctx',
            handedOut v4 v6)) := by
  obtain ⟨table, hrun, t4, t6, h4, h6, -⟩ := performAll_refines (e := e) init_refines ops
  have hall : deliveries e 32 p [t4] ++ deliveries e 128 p [t6] =
      handedOut ((abs e 4 t4).listing true p) ((abs e 16 t6).listing true p) := by
    rw [handedOut, ← show familyOf (8 * 4) = .inet from rfl, ← show familyOf (8 * 16) =
      .inet6 from rfl, ← deliveries_eq_listing h4.valid, ← deliveries_eq_listing h6.valid]
  refine ⟨table, _, _, hrun, Trie.nodup_listing h4.valid.ordered,
    Trie.nodup_listing h6.valid.ordered,
    mem_listing_iff_prefixOf h4, mem_listing_iff_prefixOf h6, fun σ func ctx₀ => ⟨?_, ?_⟩⟩
  · intro cursor ctx log hdumping
    obtain ⟨⟨ret, cursor', ctx', log'⟩, hcall, hended⟩ :=
      call_ends func h4 h6 (hdumping.cursorAt h4 h6) ctx
    refine ⟨ret, cursor', ctx', log', hcall, ?_, ?_⟩
    · rintro rfl
      cases hended with
      | all => exact hall
      | failed _ _ _ _ failed => exact absurd rfl failed
    · intro hret
      cases hended with
      | all => exact absurd rfl hret
      | failed _ _ _ _ _ _ cursorAt => exact hall ▸ cursorAt.handed_out
  · intro hnever
    obtain ⟨r, hcall, hended⟩ := call_ends func h4 h6 (.first 0 [] [] (.inl rfl) .start) ctx₀
    cases hended with
    | all cursor' ctx' => exact ⟨cursor', ctx', hall ▸ hcall⟩
    | failed ret _ _ _ failed comes =>
      obtain ⟨ctx, ip, cidr, family, hret⟩ := comes
      exact absurd (hret ▸ hnever ctx ip cidr family) failed

end

end Sewg.Kernel
