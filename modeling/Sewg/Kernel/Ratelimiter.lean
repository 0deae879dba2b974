import Sewg.Go.Ratelimiter

/-! `wg_ratelimiter_allow` of `ratelimiter.c`, and how it compares with `Allow` of the Go version:
the one wants as many tokens as a packet costs, the other wants more. -/

namespace Sewg.Kernel.Ratelimiter

open CString (Bytes)

def PACKET_COST : Nat := 1000000000 / 20
def TOKEN_MAX : Nat := PACKET_COST * 5

/-! ### The code -/

/-- `net` stands for the pointer. -/
structure RatelimiterEntry where
  lastTimeNs : UInt64
  tokens : UInt64
  ip : UInt64
  net : Nat
  deriving DecidableEq

/-- The protocol of a packet, with its source address: of an IPv6 address the first 64 bits and the
rest. -/
inductive Skb
  | ipv4 (saddr : UInt32)
  | ipv6 (saddr : UInt64) (rest : UInt64)
  | other

abbrev Buckets := Nat → List RatelimiterEntry

/-- The two tables, and how many entries there are and may be. -/
structure Tables where
  v4 : Buckets
  v6 : Buckets
  totalEntries : Int
  maxEntries : Nat

/-- What a call meets: the clock, and whether memory can be allocated. -/
structure CallEnv where
  now : UInt64
  allocated : Bool

/-- The part of `wg_ratelimiter_allow` under the entry's lock. -/
def RatelimiterEntry.pay (entry : RatelimiterEntry) (now : UInt64) : Bool × RatelimiterEntry :=
  let tokens := min (UInt64.ofNat TOKEN_MAX) (entry.tokens + now - entry.lastTimeNs)
  let ret := tokens ≥ UInt64.ofNat PACKET_COST
  (ret,
    { entry with
      lastTimeNs := now, tokens := if ret then tokens - UInt64.ofNat PACKET_COST else tokens })

/-- The loop over a bucket. `none` when there is no entry for the address. -/
def serve (net : Nat) (ip now : UInt64) :
    List RatelimiterEntry → Option (Bool × List RatelimiterEntry)
  | [] => none
  | entry :: entries =>
    if entry.net = net ∧ entry.ip = ip then
      let (ret, entry) := entry.pay now
      some (ret, entry :: entries)
    else (serve net ip now entries).map fun (ret, entries) => (ret, entry :: entries)

/-- One bucket, and the number of entries. -/
def allowIn (env : CallEnv) (maxEntries net : Nat) (ip : UInt64) (bucket : List RatelimiterEntry)
    (totalEntries : Int) : Bool × List RatelimiterEntry × Int :=
  match serve net ip env.now bucket with
  | some (ret, bucket) => (ret, bucket, totalEntries)
  | none =>
    -- the count goes up before the test, and down again after an error
    if totalEntries + 1 > maxEntries ∨ ¬ env.allocated then (false, bucket, totalEntries)
    else (true, ⟨env.now, UInt64.ofNat (TOKEN_MAX - PACKET_COST), ip, net⟩ :: bucket,
      totalEntries + 1)

/-- `hash` is `hsiphash` with its key, masked to the size of the tables. -/
def wgRatelimiterAllow (hash : UInt64 → UInt32 → Nat) (env : CallEnv) (net : Nat)
    (skb : Skb) (st : Tables) : Bool × Tables :=
  let low := UInt32.ofNat net
  match skb with
  | .ipv4 saddr =>
    let ip := saddr.toUInt64
    let index := hash ip low
    let (ret, bucket, totalEntries) :=
      allowIn env st.maxEntries net ip (st.v4 index) st.totalEntries
    (ret, { st with v4 := Function.update st.v4 index bucket, totalEntries })
  | .ipv6 ip _ =>
    let index := hash ip low
    let (ret, bucket, totalEntries) :=
      allowIn env st.maxEntries net ip (st.v6 index) st.totalEntries
    (ret, { st with v6 := Function.update st.v6 index bucket, totalEntries })
  | .other => (false, st)

/-! ### The answers to one address -/

/-- The answers to packets that come at some times from one address, with memory for its entry. -/
def answers (hash : UInt64 → UInt32 → Nat) (net : Nat) (saddr : UInt32) :
    Tables → List Nat → List Bool
  | _, [] => []
  | st, t :: times =>
    let (ret, st) := wgRatelimiterAllow hash ⟨UInt64.ofNat t, true⟩ net (.ipv4 saddr) st
    ret :: answers hash net saddr st times

/-- Those of the Go version. -/
def goAnswers (ip : Bytes) : Go.Ratelimiter.Table → List Nat → List Bool
  | _, [] => []
  | rate, t :: times =>
    let (ok, rate) := Go.Ratelimiter.Allow rate ip t
    ok :: goAnswers ip rate times

/-- What a bucket that held `tokens` at `last` has at `t`. -/
def level (last tokens t : Nat) : Nat := min TOKEN_MAX (tokens + (t - last))

/-- What is left when the packet is served. -/
def left (tokens : Nat) : Nat := if PACKET_COST < tokens then tokens - PACKET_COST else tokens

/-- Of an address last served at `last`, which then had these tokens: no packet comes when the
bucket has exactly what it costs, or so late that the tokens of the Go version run over. -/
def NeverExact : Nat → Nat → List Nat → Prop
  | _, _, [] => True
  | last, tokens, t :: times =>
    level last tokens t ≠ PACKET_COST ∧ tokens + (t - last) < 2 ^ 63 ∧
      NeverExact t (left (level last tokens t)) times

/-- The same for an address that was not served before. -/
def NeverExactNew : List Nat → Prop
  | [] => True
  | t :: times => NeverExact t (TOKEN_MAX - PACKET_COST) times

/-- From one packet to the next: the clock does not go back, and stays within what it can show. -/
def Timed (last t : Nat) : Prop := last ≤ t ∧ t < 2 ^ 63

theorem left_le (tokens : Nat) : left tokens ≤ tokens := by
  unfold left
  split <;> omega

theorem level_le (last tokens t : Nat) : level last tokens t ≤ TOKEN_MAX := Nat.min_le_left _ _

/-- An entry of the kernel and one of the Go version, last used at `last`, with the same tokens. -/
structure Alike (last held : Nat) (entry : RatelimiterEntry)
    (goEntry : Go.Ratelimiter.RatelimiterEntry) : Prop where
  bound : held ≤ TOKEN_MAX
  lastTimeNs : entry.lastTimeNs = UInt64.ofNat last
  tokens : entry.tokens = UInt64.ofNat held
  goLast : goEntry.lastTime = last
  goTokens : goEntry.tokens.toInt = held

section
variable {last held t : Nat} {entry : RatelimiterEntry} {goEntry : Go.Ratelimiter.RatelimiterEntry}

theorem ofNat_le_ofNat_iff {a b : Nat} (ha : a < 2 ^ 64) (hb : b < 2 ^ 64) :
    UInt64.ofNat a ≤ UInt64.ofNat b ↔ a ≤ b := by
  rw [UInt64.le_iff_toNat_le, UInt64.toNat_ofNat', UInt64.toNat_ofNat', Nat.mod_eq_of_lt ha,
    Nat.mod_eq_of_lt hb]

theorem min_ofNat {a b : Nat} (ha : a < 2 ^ 64) (hb : b < 2 ^ 64) :
    min (UInt64.ofNat a) (UInt64.ofNat b) = UInt64.ofNat (min a b) := by
  change (if UInt64.ofNat a ≤ UInt64.ofNat b then UInt64.ofNat a else UInt64.ofNat b) = _
  by_cases hle : a ≤ b
  · rw [if_pos ((ofNat_le_ofNat_iff ha hb).mpr hle), Nat.min_eq_left hle]
  · rw [if_neg fun h => hle ((ofNat_le_ofNat_iff ha hb).mp h), Nat.min_eq_right (by omega)]

theorem Alike.pay (h : Alike last held entry goEntry) (ht : Timed last t) :
    (entry.pay (UInt64.ofNat t)).1 = decide (PACKET_COST ≤ level last held t) ∧
      (entry.pay (UInt64.ofNat t)).2 = { entry with
        lastTimeNs := UInt64.ofNat t
        tokens := UInt64.ofNat (if PACKET_COST ≤ level last held t
  then level last held t - PACKET_COST
          else level last held t) } := by
  obtain ⟨hbound, hlast, htokens, -, -⟩ := h
  obtain ⟨hle, hgap⟩ := ht
  have hmax : TOKEN_MAX < 2 ^ 63 := by decide
  have hcost : PACKET_COST < 2 ^ 64 := by decide
  have hfull := level_le last held t
  have hsum :
      entry.tokens + UInt64.ofNat t - entry.lastTimeNs = UInt64.ofNat (held + (t - last)) := by
    rw [hlast, htokens, ← UInt64.ofNat_add, ← UInt64.ofNat_sub (by omega), Nat.add_sub_assoc hle]
  have hlevel : min (UInt64.ofNat TOKEN_MAX) (entry.tokens + UInt64.ofNat t - entry.lastTimeNs) =
      UInt64.ofNat (level last held t) := by
    rw [hsum, min_ofNat (by omega) (by omega), level]
  have henough : UInt64.ofNat (level last held t) ≥ UInt64.ofNat PACKET_COST ↔
      PACKET_COST ≤ level last held t :=
    ofNat_le_ofNat_iff hcost (by omega)
  unfold RatelimiterEntry.pay
  simp only [hlevel, henough, true_and]
  split
  · rename_i hpays
    rw [← UInt64.ofNat_sub (by simpa using hpays)]
  · rfl

theorem Alike.goPay (h : Alike last held entry goEntry) (ht : last ≤ t)
    (hfits : held + (t - last) < 2 ^ 63) :
    (Go.Ratelimiter.pay goEntry t).1 = decide (PACKET_COST < level last held t) ∧
      (Go.Ratelimiter.pay goEntry t).2.lastTime = t ∧
      (Go.Ratelimiter.pay goEntry t).2.tokens.toInt = left (level last held t) := by
  obtain ⟨hbound, -, -, hlast, htokens⟩ := h
  have hmax : (Go.Ratelimiter.maxTokens : Int) = TOKEN_MAX := rfl
  have hcost : (Go.Ratelimiter.packetCost : Int) = PACKET_COST := rfl
  have hrefilled : (Go.Ratelimiter.refilled goEntry t).toInt = level last held t := by
    rw [Go.Ratelimiter.refilled_fits (by omega) (by omega) (by omega), level]
    omega
  obtain ⟨hnow, ⟨hok, henough, hafter⟩ | ⟨hno, hfew, hafter⟩⟩ := Go.Ratelimiter.pay_tokens goEntry t
  · refine ⟨?_, hnow, ?_⟩
    · rw [hok, decide_eq_true (by omega)]
    · rw [hafter, hrefilled, left, if_pos (by omega)]
      omega
  · refine ⟨?_, hnow, ?_⟩
    · rw [hno, decide_eq_false (by omega)]
    · rw [hafter, hrefilled, left, if_neg (by omega)]

theorem Alike.next (h : Alike last held entry goEntry) (ht : Timed last t)
    (hne : level last held t ≠ PACKET_COST) (hfits : held + (t - last) < 2 ^ 63) :
    (Go.Ratelimiter.pay goEntry t).1 = (entry.pay (UInt64.ofNat t)).1 ∧
      Alike t (left (level last held t)) (entry.pay (UInt64.ofNat t)).2
        (Go.Ratelimiter.pay goEntry t).2 := by
  obtain ⟨hret, hafter⟩ := h.pay ht
  obtain ⟨hok, hlast, htokens⟩ := h.goPay ht.1 hfits
  have hsame : PACKET_COST < level last held t ↔ PACKET_COST ≤ level last held t := by omega
  refine ⟨?_, Nat.le_trans (left_le _) (level_le ..), ?_, ?_, hlast, htokens⟩
  · simp only [hret, hok, hsame]
  · rw [hafter]
  · simp only [hafter, left, hsame]

/-- If the bucket has exactly what the packet costs, or if the tokens run over, the kernel lets the
packet through and the Go version does not. -/
theorem Alike.differs (h : Alike last held entry goEntry) (ht : Timed last t)
    (hexact : level last held t = PACKET_COST ∨ ¬ held + (t - last) < 2 ^ 63) :
    (Go.Ratelimiter.pay goEntry t).1 ≠ (entry.pay (UInt64.ofNat t)).1 := by
  have hmax : TOKEN_MAX < 2 ^ 63 := by decide
  have hcost : PACKET_COST < TOKEN_MAX := by decide
  have hkernel : (entry.pay (UInt64.ofNat t)).1 = true := by
    rw [(h.pay ht).1, decide_eq_true_iff]
    rcases hexact with heq | hover
    · exact Nat.le_of_eq heq.symm
    · unfold level
      omega
  have hgo : (Go.Ratelimiter.pay goEntry t).1 = false := by
    by_cases hfits : held + (t - last) < 2 ^ 63
    · rw [(h.goPay ht.1 hfits).1, hexact.resolve_right (not_not_intro hfits)]
      decide
    · obtain ⟨hbound, -, -, hlast, htokens⟩ := h
      obtain ⟨hle, hlt⟩ := ht
      have hgoMax : (Go.Ratelimiter.maxTokens : Int) = TOKEN_MAX := rfl
      have hnone : (Go.Ratelimiter.refilled goEntry t).toInt < 0 :=
        Go.Ratelimiter.refilled_wraps (by omega) (by omega) (by omega) (by omega) (by omega)
      obtain ⟨-, ⟨-, henough, -⟩ | ⟨hno, -, -⟩⟩ := Go.Ratelimiter.pay_tokens goEntry t
      · omega
      · exact hno
  rw [hkernel, hgo]
  decide

end

section
variable {hash : UInt64 → UInt32 → Nat} {net : Nat} {saddr : UInt32} {st : Tables} {ip : Bytes}
  {rate : Go.Ratelimiter.Table}

/-- The entry of the address is the first of its bucket. -/
structure Served (hash : UInt64 → UInt32 → Nat) (net : Nat) (saddr : UInt32) (st : Tables)
    (entry : RatelimiterEntry) : Prop where
  first : ∃ rest, st.v4 (hash saddr.toUInt64 (UInt32.ofNat net)) = entry :: rest
  net : entry.net = net
  ip : entry.ip = saddr.toUInt64

theorem Served.allow {entry : RatelimiterEntry} (h : Served hash net saddr st entry)
    (now : UInt64) :
    ∃ st', wgRatelimiterAllow hash ⟨now, true⟩ net (.ipv4 saddr) st = ((entry.pay now).1, st') ∧
      Served hash net saddr st' (entry.pay now).2 := by
  obtain ⟨⟨rest, hfirst⟩, hnet, hip⟩ := h
  refine ⟨{ st with
    v4 := Function.update st.v4 (hash saddr.toUInt64 (UInt32.ofNat net))
      ((entry.pay now).2 :: rest) },
    ?_, ⟨rest, Function.update_self ..⟩, hnet, hip⟩
  · simp only [wgRatelimiterAllow, allowIn, hfirst, serve, hnet, hip, and_self, if_true]

theorem agree_from {last held : Nat} {entry : RatelimiterEntry}
    {goEntry : Go.Ratelimiter.RatelimiterEntry}
    (h : Alike last held entry goEntry) (hst : Served hash net saddr st entry)
    (hgo : rate (Go.Ratelimiter.keyOf ip) = some goEntry) {times : List Nat}
    (htimes : List.IsChain Timed (last :: times)) :
    goAnswers ip rate times = answers hash net saddr st times ↔ NeverExact last held times := by
  induction times generalizing last held entry goEntry st rate with
  | nil => simp [goAnswers, answers, NeverExact]
  | cons t times ih =>
    obtain ⟨ht, hrest⟩ := List.isChain_cons_cons.mp htimes
    obtain ⟨st', hallow, hst'⟩ := hst.allow (UInt64.ofNat t)
    have hself := Go.Ratelimiter.Allow_self rate ip t
    have hgoAllow : (Go.Ratelimiter.Allow rate ip t).1 = (Go.Ratelimiter.pay goEntry t).1 := by
      rw [Go.Ratelimiter.Allow, hgo]
      rfl
    rw [hgo] at hself
    simp only [goAnswers, answers, NeverExact, hallow, hgoAllow, List.cons.injEq]
    by_cases hexact : level last held t = PACKET_COST ∨ ¬ held + (t - last) < 2 ^ 63
    · refine iff_of_false (fun hsame => h.differs ht hexact hsame.1) fun hnever => ?_
      exact hexact.elim hnever.1 (· hnever.2.1)
    · obtain ⟨hne, hfits⟩ := not_or.mp hexact
      rw [not_not] at hfits
      obtain ⟨hsame, halike⟩ := h.next ht hne hfits
      rw [← ih halike hst' hself hrest]
      exact and_congr (iff_of_true hsame hne) (iff_and_self.mpr fun _ => hfits)

/-- The table has no entry for the address, and room for one. -/
structure Unserved (hash : UInt64 → UInt32 → Nat) (net : Nat) (saddr : UInt32)
    (st : Tables) : Prop where
  new : ∀ entry ∈ st.v4 (hash saddr.toUInt64 (UInt32.ofNat net)),
    ¬ (entry.net = net ∧ entry.ip = saddr.toUInt64)
  room : st.totalEntries < st.maxEntries

theorem serve_eq_none {ip now : UInt64} {bucket : List RatelimiterEntry}
    (h : ∀ entry ∈ bucket, ¬ (entry.net = net ∧ entry.ip = ip)) :
    serve net ip now bucket = none := by
  induction bucket with
  | nil => rfl
  | cons entry bucket ih =>
    obtain ⟨hentry, hbucket⟩ := List.forall_mem_cons.mp h
    rw [serve, if_neg hentry, ih hbucket]
    rfl

/-- The first packet is let through, and both remember the same. -/
theorem Unserved.allow (h : Unserved hash net saddr st) (t : Nat) :
    ∃ st' entry, wgRatelimiterAllow hash ⟨UInt64.ofNat t, true⟩ net (.ipv4 saddr) st = (true, st') ∧
      Served hash net saddr st' entry ∧
      Alike t (TOKEN_MAX - PACKET_COST) entry (Go.Ratelimiter.newEntry t) := by
  let index := hash saddr.toUInt64 (UInt32.ofNat net)
  let entry : RatelimiterEntry :=
    ⟨UInt64.ofNat t, UInt64.ofNat (TOKEN_MAX - PACKET_COST), saddr.toUInt64, net⟩
  have hroom : ¬ st.totalEntries + 1 > st.maxEntries := Int.not_lt.mpr h.room
  refine ⟨{ st with
    v4 := Function.update st.v4 index (entry :: st.v4 index), totalEntries := st.totalEntries + 1 },
    entry, ?_, ⟨⟨st.v4 index, Function.update_self ..⟩, rfl, rfl⟩, ?_⟩
  · simp only [wgRatelimiterAllow, allowIn, serve_eq_none h.new, hroom, not_true, or_self,
      if_false, index, entry]
  · exact ⟨Nat.sub_le .., rfl, rfl, rfl, Go.Ratelimiter.newEntry_toInt t⟩

/-- The two limiters give the same answers to one address if and only if no packet comes when its
bucket has exactly what a packet costs, and none so late that the tokens of the Go version run
over. -/
theorem limiters_agree_iff (h : Unserved hash net saddr st)
    (hgo : rate (Go.Ratelimiter.keyOf ip) = none)
    {times : List Nat} (htimes : List.IsChain Timed times) :
    goAnswers ip rate times = answers hash net saddr st times ↔ NeverExactNew times := by
  cases times with
  | nil => simp [goAnswers, answers, NeverExactNew]
  | cons t times =>
    obtain ⟨st', entry, hallow, hst', halike⟩ := h.allow t
    have hself := Go.Ratelimiter.Allow_self rate ip t
    have hok : (Go.Ratelimiter.Allow rate ip t).1 = true := by
      rw [Go.Ratelimiter.Allow, hgo]
      rfl
    rw [hgo] at hself
    simp only [goAnswers, answers, NeverExactNew, hallow, hok, List.cons.injEq, true_and]
    exact agree_from halike hst' hself htimes

end

/-- As `wg_ratelimiter_init` leaves it, with room for some entries. -/
def emptyTables : Tables := ⟨fun _ => [], fun _ => [], 0, 8192⟩

theorem emptyTables_unserved (hash : UInt64 → UInt32 → Nat) (net : Nat) (saddr : UInt32) :
    Unserved hash net saddr emptyTables :=
  ⟨nofun, by decide⟩

/-- Arrivals in milliseconds: a burst that empties the bucket, then refills. -/
def burst : List Nat := [0, 1, 1, 2, 3, 10, 100, 1000].map (· * 1000000)

theorem burst_neverExact : NeverExactNew burst := by
  simp +decide [NeverExactNew, NeverExact, burst]

/-- Both refuse only the sixth packet. -/
theorem burst_agrees :
    goAnswers [10, 0, 0, 1] Go.Ratelimiter.empty burst =
        answers (fun _ _ => 0) 1 167772161 emptyTables burst ∧
      answers (fun _ _ => 0) 1 167772161 emptyTables burst =
        [true, true, true, true, true, false, true, true] := by
  have htimes : List.IsChain Timed burst := by simp [burst, Timed]
  exact ⟨(limiters_agree_iff (emptyTables_unserved _ _ _) rfl htimes).mpr burst_neverExact,
    by decide +kernel⟩

/-- Of five packets at once the kernel lets all through, the Go version four. -/
theorem fifth_packet_differs :
    List.IsChain Timed [0, 0, 0, 0, 0] ∧
      goAnswers [10, 0, 0, 1] Go.Ratelimiter.empty [0, 0, 0, 0, 0] =
        [true, true, true, true, false] ∧
      answers (fun _ _ => 0) 1 167772161 emptyTables [0, 0, 0, 0, 0] =
        [true, true, true, true, true] := by
  refine ⟨?_, by decide +kernel, by decide +kernel⟩
  simp [Timed]

end Sewg.Kernel.Ratelimiter
