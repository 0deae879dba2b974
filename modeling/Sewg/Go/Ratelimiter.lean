import Sewg.Go.Text
import Sewg.Lib.Bucket

/-! `ratelimiter.go`, with its calls and its garbage collection one after the other. Times
are nanoseconds of a clock that does not go back. -/

namespace Sewg.Go.Ratelimiter

open CString (Bytes)

def packetsPerSecond : Nat := 20
def packetsBurstable : Nat := 5
def packetCost : Nat := 1000000000 / packetsPerSecond
def maxTokens : Nat := packetCost * packetsBurstable
/-- `time.Second` -/
def garbageCollectTime : Nat := 1000000000

/-! ## The code -/

structure RatelimiterEntry where
  lastTime : Int
  tokens : Int64
  deriving DecidableEq

/-- The keys of `tableIPv4` and `tableIPv6`. -/
inductive Key
  | v4 (key : Bytes)
  | v6 (key : Bytes)
  deriving DecidableEq

/-- The two tables as one. -/
abbrev Table := Key → Option RatelimiterEntry

def To16 (ip : Bytes) : Option Bytes :=
  if ip.length = IPv4len then some (List.replicate 10 0 ++ [0xff, 0xff] ++ ip)
  else if ip.length = IPv6len then some ip
  else none

/-- `copy` leaves the zero key for an `ip` of no known length. -/
def keyOf (ip : Bytes) : Key :=
  match To4 ip with
  | some ip4 => .v4 ip4
  | none => .v6 ((To16 ip).getD (List.replicate IPv6len 0))

/-- `t.Sub(u)` saturates. -/
def Sub (t u : Int) : Int64 :=
  if t - u < -2 ^ 63 then Int64.minValue
  else if 2 ^ 63 ≤ t - u then Int64.maxValue
  else Int64.ofInt (t - u)

def newEntry (now : Int) : RatelimiterEntry := ⟨now, Int64.ofNat (maxTokens - packetCost)⟩

/-- The addition wraps around. -/
def refilled (entry : RatelimiterEntry) (now : Int) : Int64 :=
  let tokens := entry.tokens + Sub now entry.lastTime
  if tokens > Int64.ofNat maxTokens then Int64.ofNat maxTokens else tokens

def pay (entry : RatelimiterEntry) (now : Int) : Bool × RatelimiterEntry :=
  let tokens := refilled entry now
  if tokens > Int64.ofNat packetCost then (true, ⟨now, tokens - Int64.ofNat packetCost⟩)
  else (false, ⟨now, tokens⟩)

def allowEntry (entry : Option RatelimiterEntry) (now : Int) : Bool × RatelimiterEntry :=
  match entry with
  | none => (true, newEntry now)
  | some entry => pay entry now

def Allow (rate : Table) (ip : Bytes) (now : Int) : Bool × Table :=
  let (ok, entry) := allowEntry (rate (keyOf ip)) now
  (ok, Function.update rate (keyOf ip) (some entry))

theorem Allow_self (rate : Table) (ip : Bytes) (now : Int) :
    (Allow rate ip now).2 (keyOf ip) = some (allowEntry (rate (keyOf ip)) now).2 :=
  Function.update_self ..

theorem Allow_other (rate : Table) {ip : Bytes} (now : Int) {key : Key} (h : key ≠ keyOf ip) :
    (Allow rate ip now).2 key = rate key :=
  Function.update_of_ne h ..

/-- One run of the garbage collection. It looks at the clock again for each entry. -/
structure Sweep where
  starts : Int
  ends : Int
  clock : Key → Int
  reads : ∀ key, starts ≤ clock key ∧ clock key ≤ ends

def idle (entry : RatelimiterEntry) (now : Int) : Bool :=
  Sub now entry.lastTime > Int64.ofNat garbageCollectTime

def collect (rate : Table) (sweep : Sweep) : Table := fun key =>
  (rate key).filter fun entry => !idle entry (sweep.clock key)

inductive Event
  | allow (ip : Bytes) (now : Int)
  | collection (sweep : Sweep)

def Event.starts : Event → Int
  | .allow _ now => now
  | .collection sweep => sweep.starts

def Event.ends : Event → Int
  | .allow _ now => now
  | .collection sweep => sweep.ends

def next (rate : Table) : Event → Table
  | .allow ip now => (Allow rate ip now).2
  | .collection sweep => collect rate sweep

/-- As `Init` leaves it. -/
def empty : Table := fun _ => none

/-- The calls with their results. -/
def results : Table → List Event → List (Bytes × Int × Bool)
  | _, [] => []
  | rate, .allow ip now :: events =>
    (ip, now, (Allow rate ip now).1) :: results (Allow rate ip now).2 events
  | rate, .collection sweep :: events => results (collect rate sweep) events

/-! ## Tokens -/

theorem toInt_ofNat {n : Nat} (h : n < 2 ^ 63) : (Int64.ofNat n).toInt = n := by
  rw [Int64.toInt_ofNat_of_lt h]

variable {t u now : Int}

theorem Sub_toInt (h : u ≤ t) : (Sub t u).toInt = min (t - u) (2 ^ 63 - 1) := by
  unfold Sub
  rw [if_neg (by omega)]
  split
  · rw [show Int64.maxValue.toInt = 2 ^ 63 - 1 from rfl]
    omega
  · rw [Int64.toInt_ofInt_of_le (by omega) (by omega)]
    omega

theorem add_toInt_le {a b : Int64} (hb : 0 ≤ b.toInt) :
    (a + b).toInt ≤ a.toInt + b.toInt ∧
      (a.toInt + b.toInt < 2 ^ 63 → (a + b).toInt = a.toInt + b.toInt) := by
  have ha := a.le_toInt
  have hb' := b.toInt_lt
  have hsum := (a + b).toInt_lt
  rw [Int64.toInt_add, Int.bmod_def] at hsum ⊢
  omega

theorem maxTokens_toInt : (Int64.ofNat maxTokens).toInt = maxTokens := toInt_ofNat (by decide)

theorem refilled_toInt (entry : RatelimiterEntry) (now : Int) :
    (refilled entry now).toInt =
      min (maxTokens : Int) (entry.tokens + Sub now entry.lastTime).toInt := by
  unfold refilled
  dsimp only
  simp only [gt_iff_lt, Int64.lt_iff_toInt_lt, maxTokens_toInt]
  split
  · rw [maxTokens_toInt]
    omega
  · omega

theorem refilled_toInt_le {entry : RatelimiterEntry} (h : entry.lastTime ≤ now) :
    (refilled entry now).toInt ≤ maxTokens ∧
      (refilled entry now).toInt ≤ entry.tokens.toInt + (now - entry.lastTime) := by
  have hsub := Sub_toInt h
  have hadd := (add_toInt_le (a := entry.tokens) (b := Sub now entry.lastTime) (by omega)).1
  rw [refilled_toInt]
  omega

theorem pay_tokens (entry : RatelimiterEntry) (now : Int) :
    (pay entry now).2.lastTime = now ∧
      ((pay entry now).1 = true ∧ (packetCost : Int) < (refilled entry now).toInt ∧
          (pay entry now).2.tokens.toInt = (refilled entry now).toInt - packetCost ∨
        (pay entry now).1 = false ∧ (refilled entry now).toInt ≤ packetCost ∧
          (pay entry now).2.tokens = refilled entry now) := by
  have hcost : (Int64.ofNat packetCost).toInt = packetCost := toInt_ofNat (by decide)
  have hlt := (refilled entry now).toInt_lt
  unfold pay
  dsimp only
  split
  · rename_i hgt
    rw [gt_iff_lt, Int64.lt_iff_toInt_lt, hcost] at hgt
    refine ⟨rfl, .inl ⟨rfl, hgt, ?_⟩⟩
    rw [Int64.toInt_sub, hcost, Int.bmod_def]
    omega
  · rename_i hle
    rw [gt_iff_lt, Int64.lt_iff_toInt_lt, hcost] at hle
    exact ⟨rfl, .inr ⟨rfl, by omega, rfl⟩⟩

theorem allowEntry_lastTime (entry : Option RatelimiterEntry) (now : Int) :
    (allowEntry entry now).2.lastTime = now := by
  cases entry with
  | none => rfl
  | some entry => exact (pay_tokens entry now).1

theorem idle_iff {entry : RatelimiterEntry} (h : entry.lastTime ≤ now) :
    idle entry now = true ↔ (garbageCollectTime : Int) < now - entry.lastTime := by
  have hsub := Sub_toInt h
  have hgc : (Int64.ofNat garbageCollectTime).toInt = garbageCollectTime := toInt_ofNat (by decide)
  have small : (garbageCollectTime : Int) < 2 ^ 63 - 1 := by decide
  unfold idle
  rw [decide_eq_true_iff, gt_iff_lt, Int64.lt_iff_toInt_lt, hgc, hsub]
  omega

/-! ## Any window -/

/-- What an entry allows for at the time `u`. A missing entry is as good as a full one. -/
def entryLevel (entry : Option RatelimiterEntry) (u : Int) : Int :=
  match entry with
  | none => maxTokens
  | some entry => min maxTokens (max 0 entry.tokens.toInt + (u - entry.lastTime))

/-- Every entry was last used at `t` or before. -/
def Past (rate : Table) (t : Int) : Prop :=
  ∀ key entry, rate key = some entry → entry.lastTime ≤ t

theorem newEntry_toInt (now : Int) : (newEntry now).tokens.toInt = maxTokens - packetCost :=
  toInt_ofNat (by decide)

theorem entryLevel_allow (entry : Option RatelimiterEntry) (now : Int)
    (h : ∀ e, entry = some e → e.lastTime ≤ now) :
    (∀ u, now ≤ u → entryLevel (some (allowEntry entry now).2) u ≤ entryLevel entry u) ∧
      ((allowEntry entry now).1 = true →
        entryLevel (some (allowEntry entry now).2) now + packetCost ≤ entryLevel entry now) := by
  have cost : (packetCost : Int) ≤ maxTokens := by decide
  cases entry with
  | none =>
    have tokens := newEntry_toInt now
    have last : (newEntry now).lastTime = now := rfl
    simp only [allowEntry, entryLevel, tokens, last]
    exact ⟨fun u hu => by omega, fun _ => by omega⟩
  | some entry =>
    have past := h entry rfl
    obtain ⟨full, grown⟩ := refilled_toInt_le past
    obtain ⟨last, ⟨ok, enough, tokens⟩ | ⟨no, few, tokens⟩⟩ := pay_tokens entry now
    · simp only [allowEntry, entryLevel, tokens, last]
      exact ⟨fun u hu => by omega, fun _ => by omega⟩
    · simp only [allowEntry, entryLevel, tokens, last, no]
      exact ⟨fun u hu => by omega, fun ok => absurd ok Bool.false_ne_true⟩

/-- An entry is full again long before it is idle. -/
theorem entryLevel_collect {entry : Option RatelimiterEntry}
    (h : ∀ e, entry = some e → e.lastTime ≤ now) (hu : now ≤ u) :
    entryLevel (entry.filter fun e => !idle e now) u ≤ entryLevel entry u := by
  have long : (maxTokens : Int) ≤ garbageCollectTime := by decide
  cases entry with
  | none => exact Int.le_refl _
  | some entry =>
    have hidle := idle_iff (h entry rfl)
    cases hi : idle entry now with
    | false => simp only [Option.filter, hi, Bool.not_false, ↓reduceIte, Int.le_refl]
    | true =>
      have gap := hidle.mp hi
      simp only [Option.filter, hi, Bool.not_true, Bool.false_eq_true, ↓reduceIte, entryLevel]
      omega

section
variable (ip : Bytes)

def machine : Bucket.Machine Table Event where
  starts := Event.starts
  ends := Event.ends
  next := next
  grants rate
    | .allow ip' now => ip' = ip && (Allow rate ip' now).1
    | .collection _ => false

theorem next_past {rate : Table} {t : Int} {e : Event} (hs : Past rate t) (ht : t ≤ e.starts)
    (he : e.starts ≤ e.ends) : Past (next rate e) e.ends := by
  intro key entry h
  cases e with
  | allow ip' now =>
    by_cases hk : key = keyOf ip'
    · subst hk
      rw [next, Allow_self] at h
      cases h
      exact Int.le_of_eq (allowEntry_lastTime _ now)
    · rw [next, Allow_other rate now hk] at h
      exact Int.le_trans (hs key entry h) ht
  | collection sweep =>
    obtain ⟨h, -⟩ := Option.filter_eq_some_iff.mp h
    exact Int.le_trans (hs key entry h) (Int.le_trans ht he)

theorem level_machine :
    Bucket.Level (machine ip) Past (fun rate u => entryLevel (rate (keyOf ip)) u)
      packetCost maxTokens where
  kept := next_past
  full rate u := by
    unfold entryLevel
    split <;> omega
  nonneg := by
    intro rate t u hs hu
    cases hr : rate (keyOf ip) with
    | none => exact Int.natCast_nonneg _
    | some entry =>
      have past := hs _ entry hr
      simp only [entryLevel]
      omega
  rises rate t u hu := by
    unfold entryLevel
    split <;> omega
  falls := by
    intro rate t e u hs ht he hu
    cases e with
    | allow ip' now =>
      by_cases hk : keyOf ip = keyOf ip'
      · have step := (entryLevel_allow (rate (keyOf ip)) now
          fun e he => Int.le_trans (hs _ e he) ht).1 u hu
        rw [hk] at step ⊢
        change entryLevel ((Allow rate ip' now).2 (keyOf ip')) u ≤ _
        rw [Allow_self]
        exact step
      · exact Int.le_of_eq (congrArg (entryLevel · u) (Allow_other rate now hk))
    | collection sweep =>
      obtain ⟨after, before⟩ := sweep.reads (keyOf ip)
      exact entryLevel_collect (fun e he => Int.le_trans (hs _ e he) (Int.le_trans ht after))
        (Int.le_trans before hu)
  pays := by
    intro rate t e hs ht he grant
    cases e with
    | allow ip' now =>
      obtain ⟨rfl, ok⟩ : ip' = ip ∧ (Allow rate ip' now).1 = true := by simpa [machine] using grant
      have step := (entryLevel_allow (rate (keyOf ip')) now
        fun e he => Int.le_trans (hs _ e he) ht).2 ok
      change entryLevel ((Allow rate ip' now).2 (keyOf ip')) now + _ ≤ _
      rw [Allow_self]
      exact step
    | collection sweep => exact absurd grant (by simp [machine])

/-- The calls for `ip` from `lo` to `hi` that were allowed. -/
def allowedIn (lo hi : Int) (calls : List (Bytes × Int × Bool)) : Nat :=
  calls.countP fun (ip', now, ok) => ip' = ip ∧ ok = true ∧ lo ≤ now ∧ now ≤ hi

theorem granted_eq (lo hi : Int) (rate : Table) (events : List Event) :
    Bucket.granted (machine ip) lo hi rate events = allowedIn ip lo hi (results rate events) := by
  induction events generalizing rate with
  | nil => rfl
  | cons e events ih =>
    rw [Bucket.granted, ih]
    cases e with
    | allow ip' now =>
      rw [results, allowedIn, allowedIn, List.countP_cons, Nat.add_comm]
      simp [machine, Event.ends, next, and_assoc]
    | collection sweep => simp [machine, next, results]

/-- Garbage collection or not, a window of length `T` never has more. -/
theorem allowedIn_le {t : Int} {events : List Event}
    (clocked : Bucket.Clocked Event.starts Event.ends t events) (w : Int) (T : Nat) :
    allowedIn ip w (w + T) (results empty events) ≤ packetsBurstable + T / packetCost := by
  have past : Past empty t := by
    intro key entry h
    cases h
  have bound := Bucket.granted_le (level_machine ip) past clocked w T (by decide)
  rw [granted_eq] at bound
  have whole : allowedIn ip w (w + T) (results empty events) * packetCost ≤
      packetsBurstable * packetCost + T := by
    rw [Nat.mul_comm packetsBurstable]
    exact_mod_cast bound
  have cost : 0 < packetCost := by decide
  rw [Nat.add_comm, ← Nat.add_mul_div_right _ _ cost, Nat.le_div_iff_mul_le cost]
  omega

end

/-! ## Garbage collection does not show -/

def Event.isAllow : Event → Bool
  | .allow _ _ => true
  | .collection _ => false

/-- No address is silent for so long that its tokens run over. `last` has the time of the
call before, address by address. -/
def Timely : (Key → Option Int) → List Event → Prop
  | _, [] => True
  | last, .allow ip now :: events =>
    (∀ t, last (keyOf ip) = some t → now - t < 2 ^ 63 - (maxTokens - packetCost)) ∧
      Timely (Function.update last (keyOf ip) (some now)) events
  | last, .collection _ :: events => Timely last events

/-- The entry in a run with garbage collection, and the one in a run without: the same, or
it is missing and the other is idle at `t`. -/
def Alike (t : Int) (kept lasting : Option RatelimiterEntry) : Prop :=
  kept = lasting ∨ kept = none ∧ ∃ entry, lasting = some entry ∧
    (garbageCollectTime : Int) < t - entry.lastTime

/-- Tokens have not run over, and a call was paid for or had too few. -/
def Sound (entry : RatelimiterEntry) : Prop :=
  0 ≤ entry.tokens.toInt ∧ entry.tokens.toInt ≤ maxTokens - packetCost

theorem refilled_fits {entry : RatelimiterEntry} (nonneg : 0 ≤ entry.tokens.toInt)
    (h : entry.lastTime ≤ now) (fits : entry.tokens.toInt + (now - entry.lastTime) < 2 ^ 63) :
    (refilled entry now).toInt =
      min (maxTokens : Int) (entry.tokens.toInt + (now - entry.lastTime)) := by
  have hsub := Sub_toInt h
  rw [refilled_toInt, (add_toInt_le (by omega)).2 (by omega)]
  omega

/-- Where the sum wraps around no tokens are left. -/
theorem refilled_wraps {entry : RatelimiterEntry} (nonneg : 0 ≤ entry.tokens.toInt)
    (full : entry.tokens.toInt ≤ maxTokens) (h : entry.lastTime ≤ now)
    (hgap : now - entry.lastTime < 2 ^ 63)
    (wraps : 2 ^ 63 ≤ entry.tokens.toInt + (now - entry.lastTime)) :
    (refilled entry now).toInt < 0 := by
  have hsub := Sub_toInt h
  have hlimit : (maxTokens : Int) < 2 ^ 63 := by decide
  rw [refilled_toInt, Int64.toInt_add, Int.bmod_def]
  omega

/-- Within the time, tokens are added as they should. -/
theorem refilled_exact {entry : RatelimiterEntry} (hs : Sound entry) (h : entry.lastTime ≤ now)
    (timely : now - entry.lastTime < 2 ^ 63 - (maxTokens - packetCost)) :
    (refilled entry now).toInt =
      min (maxTokens : Int) (entry.tokens.toInt + (now - entry.lastTime)) := by
  obtain ⟨nonneg, paid⟩ := hs
  exact refilled_fits nonneg h (by omega)

theorem newEntry_sound (now : Int) : Sound (newEntry now) := by
  have tokens := newEntry_toInt now
  have cost : (packetCost : Int) ≤ maxTokens := by decide
  unfold Sound
  omega

theorem pay_sound {entry : RatelimiterEntry} (hs : Sound entry) (h : entry.lastTime ≤ now)
    (timely : now - entry.lastTime < 2 ^ 63 - (maxTokens - packetCost)) :
    Sound (pay entry now).2 := by
  have exact := refilled_exact hs h timely
  have cost : (packetCost : Int) + packetCost ≤ maxTokens := by decide
  obtain ⟨nonneg, paid⟩ := hs
  unfold Sound
  obtain ⟨-, ⟨-, enough, tokens⟩ | ⟨-, few, tokens⟩⟩ := pay_tokens entry now
  · omega
  · rw [tokens]
    omega

/-- An idle entry gives what a new one gives. -/
theorem pay_idle {entry : RatelimiterEntry} (hs : Sound entry)
    (idle : (garbageCollectTime : Int) < now - entry.lastTime)
    (timely : now - entry.lastTime < 2 ^ 63 - (maxTokens - packetCost)) :
    pay entry now = (true, newEntry now) := by
  have long : (maxTokens : Int) ≤ garbageCollectTime := by decide
  have gc : (0 : Int) ≤ garbageCollectTime := Int.natCast_nonneg _
  have exact := refilled_exact hs (by omega) timely
  have full : refilled entry now = Int64.ofNat maxTokens := by
    apply Int64.toInt_inj.mp
    have nonneg := hs.1
    rw [maxTokens_toInt]
    omega
  unfold pay
  rw [full]
  rfl

/-- Two tables of the same run, with garbage collection and without. -/
structure Same (t : Int) (kept lasting : Table) : Prop where
  alike : ∀ key, Alike t (kept key) (lasting key)
  sound : ∀ key entry, lasting key = some entry → Sound entry ∧ entry.lastTime ≤ t

theorem Alike.later {kept lasting : Option RatelimiterEntry} (h : Alike t kept lasting)
    (hu : t ≤ u) : Alike u kept lasting := by
  rcases h with h | ⟨hk, entry, hl, idle⟩
  · exact .inl h
  · exact .inr ⟨hk, entry, hl, by omega⟩

theorem Same.collect {kept lasting : Table} (h : Same t kept lasting) {sweep : Sweep}
    (ht : t ≤ sweep.starts) (he : sweep.starts ≤ sweep.ends) :
    Same sweep.ends (collect kept sweep) lasting := by
  constructor
  · intro key
    obtain ⟨after, before⟩ := sweep.reads key
    unfold Ratelimiter.collect
    rcases h.alike key with same | ⟨hk, missing⟩
    · rw [same]
      cases hl : lasting key with
      | none => exact .inl rfl
      | some entry =>
        have gap := idle_iff (Int.le_trans (h.sound key entry hl).2 (Int.le_trans ht after))
        cases hi : idle entry (sweep.clock key) with
        | false =>
          left
          simp only [Option.filter, hi, Bool.not_false, ↓reduceIte]
        | true =>
          right
          refine ⟨?_, entry, rfl, ?_⟩
          · simp only [Option.filter, hi, Bool.not_true, Bool.false_eq_true, ↓reduceIte]
          · have := gap.mp hi
            omega
    · rw [hk]
      exact Alike.later (.inr ⟨rfl, missing⟩) (Int.le_trans ht he)
  · intro key entry hl
    obtain ⟨sound, past⟩ := h.sound key entry hl
    exact ⟨sound, Int.le_trans past (Int.le_trans ht he)⟩

theorem Same.allow {kept lasting : Table} (h : Same t kept lasting) (ip : Bytes) (ht : t ≤ now)
    (timely : ∀ entry, lasting (keyOf ip) = some entry →
      now - entry.lastTime < 2 ^ 63 - (maxTokens - packetCost)) :
    (Allow kept ip now).1 = (Allow lasting ip now).1 ∧
      Same now (Allow kept ip now).2 (Allow lasting ip now).2 := by
  have entries : allowEntry (kept (keyOf ip)) now = allowEntry (lasting (keyOf ip)) now := by
    rcases (h.alike (keyOf ip)).later ht with same | ⟨hk, entry, hl, idle⟩
    · rw [same]
    · rw [hk, hl]
      exact (pay_idle (h.sound _ entry hl).1 idle (timely entry hl)).symm
  refine ⟨congrArg (·.1) entries, ?_, ?_⟩
  · intro key
    by_cases hk : key = keyOf ip
    · rw [hk, Allow_self, Allow_self, entries]
      exact .inl rfl
    · rw [Allow_other kept now hk, Allow_other lasting now hk]
      exact (h.alike key).later ht
  · intro key entry hl
    by_cases hk : key = keyOf ip
    · rw [hk, Allow_self] at hl
      cases hl
      refine ⟨?_, Int.le_of_eq (allowEntry_lastTime _ now)⟩
      cases hr : lasting (keyOf ip) with
      | none => exact newEntry_sound now
      | some entry =>
        obtain ⟨sound, past⟩ := h.sound _ entry hr
        exact pay_sound sound (Int.le_trans past ht) (timely entry hr)
    · rw [Allow_other lasting now hk] at hl
      obtain ⟨sound, past⟩ := h.sound key entry hl
      exact ⟨sound, Int.le_trans past ht⟩

theorem lastTime_allow (rate : Table) (ip : Bytes) (now : Int) :
    Function.update (fun key => (rate key).map RatelimiterEntry.lastTime) (keyOf ip) (some now) =
      fun key => ((Allow rate ip now).2 key).map RatelimiterEntry.lastTime := by
  funext key
  by_cases hk : key = keyOf ip
  · rw [hk, Function.update_self, Allow_self, Option.map_some, allowEntry_lastTime]
  · rw [Function.update_of_ne hk, Allow_other rate now hk]

/-- The calls of a run give what they give without any garbage collection. -/
theorem results_allows {kept lasting : Table} {events : List Event} (h : Same t kept lasting)
    (clocked : Bucket.Clocked Event.starts Event.ends t events)
    (timely : Timely (fun key => (lasting key).map RatelimiterEntry.lastTime) events) :
    results kept events = results lasting (events.filter Event.isAllow) := by
  induction events generalizing t kept lasting with
  | nil => rfl
  | cons e events ih =>
    obtain ⟨hstart, hend, clocked⟩ := clocked
    cases e with
    | collection sweep => exact ih (h.collect hstart hend) clocked timely
    | allow ip now =>
      obtain ⟨gap, timely⟩ := timely
      obtain ⟨ok, after⟩ := h.allow ip (show t ≤ now from hstart) fun entry hl =>
        gap entry.lastTime (congrArg (Option.map RatelimiterEntry.lastTime) hl)
      rw [lastTime_allow] at timely
      rw [results, ok, ih after clocked timely]
      rfl

theorem timely_filter (last : Key → Option Int) (events : List Event) :
    Timely last (events.filter Event.isAllow) ↔ Timely last events := by
  induction events generalizing last with
  | nil => exact Iff.rfl
  | cons e events ih =>
    cases e with
    | allow ip now => exact and_congr_right fun _ => ih _
    | collection sweep => exact ih last

theorem same_empty (t : Int) : Same t empty empty :=
  ⟨fun _ => .inl rfl, fun _ _ h => absurd h (Option.some_ne_none _).symm⟩

/-- Any window of length `T` has at most `packetsBurstable + T / packetCost` allowed calls for
an address. While no address is silent for 292 years, the results go by the calls alone:
garbage collection can come at any time, or not at all. -/
theorem rate_limited {t : Int} {events : List Event}
    (clocked : Bucket.Clocked Event.starts Event.ends t events) :
    (∀ ip w (T : Nat), allowedIn ip w (w + T) (results empty events) ≤
      packetsBurstable + T / packetCost) ∧
    (Timely (fun _ => none) events → ∀ t' events',
      Bucket.Clocked Event.starts Event.ends t' events' →
        events'.filter Event.isAllow = events.filter Event.isAllow →
          results empty events' = results empty events) := by
  refine ⟨fun ip w T => allowedIn_le ip clocked w T, ?_⟩
  intro timely t' events' clocked' calls
  have timely' : Timely (fun _ => none) events' := by
    rw [← timely_filter, calls, timely_filter]
    exact timely
  rw [results_allows (same_empty t) clocked timely,
    results_allows (same_empty t') clocked' timely', calls]

/-- A garbage collection that takes no time. -/
def sweepAt (now : Int) : Sweep := ⟨now, now, fun _ => now, fun _ => ⟨Int.le_refl _, Int.le_refl _⟩⟩

/-- Two calls from 10.0.0.1, without garbage collection and with one between them. -/
def unswept (now : Int) : List Event := [.allow [10, 0, 0, 1] 0, .allow [10, 0, 0, 1] now]
def swept (now : Int) : List Event :=
  [.allow [10, 0, 0, 1] 0, .collection (sweepAt 2000000000), .allow [10, 0, 0, 1] now]

theorem unswept_clocked (h : 0 ≤ now) :
    Bucket.Clocked Event.starts Event.ends 0 (unswept now) := by
  simp [Bucket.Clocked, unswept, Event.starts, Event.ends, h]

theorem swept_clocked (h : 2000000000 ≤ now) :
    Bucket.Clocked Event.starts Event.ends 0 (swept now) := by
  simp [Bucket.Clocked, swept, Event.starts, Event.ends, sweepAt, h]

theorem rate_limited_swept :
    allowedIn [10, 0, 0, 1] 0 3000000000 (results empty (unswept 3000000000)) ≤
        packetsBurstable + 3000000000 / packetCost ∧
      results empty (swept 3000000000) = results empty (unswept 3000000000) := by
  obtain ⟨window, silent⟩ := rate_limited (unswept_clocked (show (0 : Int) ≤ 3000000000 by decide))
  refine ⟨window [10, 0, 0, 1] 0 3000000000, silent ?_ 0 _ (swept_clocked (by decide)) rfl⟩
  simp [Timely, unswept, maxTokens, packetCost, packetsBurstable, packetsPerSecond]

/-- After 292 years without a call the tokens run over, and the call that comes is refused.
A collection in between lets it through. -/
theorem tokens_run_over :
    Bucket.Clocked Event.starts Event.ends 0 (unswept (2 ^ 63 - 1)) ∧
      Bucket.Clocked Event.starts Event.ends 0 (swept (2 ^ 63 - 1)) ∧
      (swept (2 ^ 63 - 1)).filter Event.isAllow = (unswept (2 ^ 63 - 1)).filter Event.isAllow ∧
      results empty (swept (2 ^ 63 - 1)) ≠ results empty (unswept (2 ^ 63 - 1)) := by
  refine ⟨unswept_clocked (by decide), swept_clocked (by decide), rfl, by decide +kernel⟩

end Sewg.Go.Ratelimiter
