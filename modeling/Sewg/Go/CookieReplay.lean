import Mathlib.Data.List.Induction
import Sewg.Go.Cookie

/-! Cookie replies that come again. `ConsumeReply` keeps the first MAC of the message sent last, so
that the reply to it can be taken any number of times, and each time the cookie counts as new. -/

namespace Sewg.Go.Cookie

open CString (Bytes)

deriving instance DecidableEq for MessageCookieReply

/-- A message with room for two MACs. -/
structure Outgoing where
  bytes : Bytes
  room : 2 * Size128 ≤ bytes.length

/-- The calls on a generator, each with the time that it reads. -/
inductive GeneratorCall
  | addMacs (msg : Outgoing) (now : Int)
  | consumeReply (msg : MessageCookieReply) (now : Int)

/-- A generator with what has happened to it. -/
structure Replies where
  generator : CookieGenerator
  /-- The replies that were taken since the last message, with their times, latest first. -/
  taken : List (MessageCookieReply × Int) := []
  /-- When the reply with the cookie was first taken, since the message before it. -/
  born : Option Int := none
  /-- The messages that got a second MAC: their times, and when the reply with the cookie was first
  taken. -/
  uses : List (Int × Int) := []

namespace Replies

variable (p : Primitives)

def consumeReply (h : Replies) (msg : MessageCookieReply) (now : Int) : Replies :=
  match h.generator.ConsumeReply p msg now with
  | (false, generator) => { h with generator }
  | (true, generator) =>
    -- the oldest entry is the last one
    { h with
      generator, taken := (msg, now) :: h.taken,
      born := some ((h.taken.reverse.lookup msg).getD now) }

def addMacs (h : Replies) (msg : Outgoing) (now : Int) : Replies :=
  match h.generator.AddMacs p msg.bytes now with
  | none => h
  | some (generator, _) =>
    { h with
      generator
      taken := []
      uses := if expired h.generator.cookieSet now then h.uses
        else (h.born.map (now, ·)).toList ++ h.uses }

def step (h : Replies) : GeneratorCall → Replies
  | .addMacs msg now => h.addMacs p msg now
  | .consumeReply msg now => h.consumeReply p msg now

def run (st : CookieGenerator) (calls : List GeneratorCall) : Replies :=
  calls.foldl (step p) { generator := st }

theorem run_concat (st : CookieGenerator) (calls : List GeneratorCall) (call : GeneratorCall) :
    run p st (calls ++ [call]) = (run p st calls).step p call := by
  rw [run, List.foldl_append]
  rfl

end Replies

/-- No reply was taken twice since the last message, and no cookie was used later than
`CookieRefreshTime` after the reply with it was first taken. -/
def ExtendedOnce (h : Replies) : Prop :=
  (h.taken.map Prod.fst).Nodup ∧ ∀ use ∈ h.uses, use.1 - use.2 ≤ CookieRefreshTime

section
variable (p : Primitives) (st : CookieGenerator)

/-- The first MAC of the message sent last. -/
def lastMac1 (calls : List GeneratorCall) : Option Bytes :=
  calls.foldl (fun last call =>
    match call with
    | .addMacs msg _ => some (p.mac st.mac1Key (bodyOf msg.bytes)).toList
    | .consumeReply _ _ => last) (if st.hasLastMAC1 then some st.lastMAC1 else none)

/-- The reply is authentic, for the message sent last. -/
def Answers (calls : List GeneratorCall) (msg : MessageCookieReply) : Prop :=
  ∃ mac1 ∈ lastMac1 p st calls, (p.decrypt msg.nonce msg.cookie mac1 st.encryptionKey).isSome

def GeneratorCall.IsConsume : GeneratorCall → Prop
  | .addMacs _ _ => False
  | .consumeReply _ _ => True

/-- No reply to the message sent last comes a second time before the next message. -/
def NoReplay (calls : List GeneratorCall) : Prop :=
  ∀ before msg now between now' after,
    calls = before ++ .consumeReply msg now :: between ++ .consumeReply msg now' :: after →
    (∀ call ∈ between, call.IsConsume) → ¬ Answers p st before msg

variable {p st}

theorem lastMac1_concat (calls : List GeneratorCall) (call : GeneratorCall) :
    lastMac1 p st (calls ++ [call]) =
      match call with
      | .addMacs msg _ => some (p.mac st.mac1Key (bodyOf msg.bytes)).toList
      | .consumeReply _ _ => lastMac1 p st calls := by
  rw [lastMac1, List.foldl_append]
  rfl

variable {between calls : List GeneratorCall}

theorem lastMac1_append (h : ∀ call ∈ between, call.IsConsume) (before : List GeneratorCall) :
    lastMac1 p st (before ++ between) = lastMac1 p st before := by
  induction between using List.reverseRecOn with
  | nil => rw [List.append_nil]
  | append_singleton between call ih =>
    rw [← List.append_assoc, lastMac1_concat]
    cases call with
    | addMacs msg now => exact (h (.addMacs msg now) (by simp)).elim
    | consumeReply msg now => exact ih fun call hcall => h call (List.mem_append_left _ hcall)

theorem answers_append (h : ∀ call ∈ between, call.IsConsume) (before : List GeneratorCall)
    (msg : MessageCookieReply) :
    Answers p st (before ++ between) msg ↔ Answers p st before msg := by
  rw [Answers, lastMac1_append h, Answers]

/-- The generator has its keys, and the first MAC of the message sent last. -/
structure Sent (p : Primitives) (st : CookieGenerator) (calls : List GeneratorCall)
    (gen : CookieGenerator) : Prop where
  mac1Key : gen.mac1Key = st.mac1Key
  encryptionKey : gen.encryptionKey = st.encryptionKey
  last : lastMac1 p st calls = if gen.hasLastMAC1 then some gen.lastMAC1 else none

theorem Sent.answers_iff {gen : CookieGenerator} (h : Sent p st calls gen)
    (msg : MessageCookieReply) : Answers p st calls msg ↔
      gen.hasLastMAC1 ∧ (p.decrypt msg.nonce msg.cookie gen.lastMAC1 gen.encryptionKey).isSome := by
  rw [Answers, h.last, h.encryptionKey]
  cases gen.hasLastMAC1 <;> simp

/-- A reply is taken if and only if it answers the message sent last. -/
theorem Sent.consumeReply {h : Replies} (hsent : Sent p st calls h.generator)
    (msg : MessageCookieReply) (now : Int) :
    (¬ Answers p st calls msg ∧ h.consumeReply p msg now = h) ∨
    Answers p st calls msg ∧ ∃ cookie,
      h.consumeReply p msg now = { h with
        generator := { h.generator with cookieSet := now, cookie }
        taken := (msg, now) :: h.taken
        born := some ((h.taken.reverse.lookup msg).getD now) } := by
  rw [hsent.answers_iff]
  unfold Replies.consumeReply CookieGenerator.ConsumeReply
  cases hlast : h.generator.hasLastMAC1 with
  | false => exact .inl ⟨by simp, rfl⟩
  | true =>
    cases hopen : p.decrypt msg.nonce msg.cookie h.generator.lastMAC1 h.generator.encryptionKey with
    | none => exact .inl ⟨by simp, rfl⟩
    | some cookie => exact .inr ⟨by simp, cookie, by simp [hlast]⟩

theorem Replies.addMacs_eq (h : Replies) (msg : Outgoing) (now : Int) :
    h.addMacs p msg now =
      { h with
        generator := { h.generator with
          lastMAC1 := (p.mac h.generator.mac1Key (bodyOf msg.bytes)).toList, hasLastMAC1 := true }
        taken := []
        uses := if expired h.generator.cookieSet now then h.uses
  else (h.born.map (now, ·)).toList ++ h.uses } := by
  rw [Replies.addMacs, AddMacs_eq p _ now msg.room]

theorem run_sent (calls : List GeneratorCall) :
    Sent p st calls (Replies.run p st calls).generator := by
  induction calls using List.reverseRecOn with
  | nil => exact ⟨rfl, rfl, rfl⟩
  | append_singleton calls call ih =>
    rw [Replies.run_concat]
    cases call with
    | addMacs msg now =>
      rw [Replies.step, Replies.addMacs_eq]
      exact ⟨ih.mac1Key, ih.encryptionKey, by rw [lastMac1_concat, ih.mac1Key]; rfl⟩
    | consumeReply msg now =>
      have hlast : lastMac1 p st (calls ++ [.consumeReply msg now]) = lastMac1 p st calls :=
        lastMac1_concat ..
      rcases ih.consumeReply msg now with ⟨-, heq⟩ | ⟨-, cookie, heq⟩
      · rw [Replies.step, heq]
        exact ⟨ih.mac1Key, ih.encryptionKey, hlast.trans ih.last⟩
      · rw [Replies.step, heq]
        exact ⟨ih.mac1Key, ih.encryptionKey, hlast.trans ih.last⟩

/-! ### What is kept as long as no reply comes again -/

/-- What is so after calls without a replay. -/
structure Fresh (p : Primitives) (st : CookieGenerator) (calls : List GeneratorCall)
    (h : Replies) : Prop where
  nodup : (h.taken.map Prod.fst).Nodup
  /-- What was taken answers the message sent last. -/
  came : ∀ msg ∈ h.taken.map Prod.fst, ∃ before now between,
    calls = before ++ .consumeReply msg now :: between ∧ (∀ call ∈ between, call.IsConsume) ∧
      Answers p st before msg
  born : ∀ time ∈ h.born, h.generator.cookieSet = time
  uses : ∀ use ∈ h.uses, use.1 - use.2 ≤ CookieRefreshTime

theorem Fresh.addMacs {h : Replies} (hfresh : Fresh p st calls h) (msg : Outgoing) (now : Int) :
    Fresh p st (calls ++ [.addMacs msg now]) (h.addMacs p msg now) := by
  rw [Replies.addMacs_eq]
  refine ⟨.nil, nofun, hfresh.born, ?_⟩
  dsimp only
  split
  · exact hfresh.uses
  · rename_i hexpired
    intro use huse
    rcases List.mem_append.mp huse with huse | huse
    · obtain ⟨time, htime, rfl⟩ := Option.map_eq_some_iff.mp (Option.mem_toList.mp huse)
      rw [← hfresh.born time htime]
      simpa [expired] using hexpired
    · exact hfresh.uses use huse

/-- A reply that answers the message sent last has not come before. -/
theorem Fresh.consumeReply {h : Replies} (hfresh : Fresh p st calls h)
    (hsent : Sent p st calls h.generator) {msg : MessageCookieReply} {now : Int}
    (hnew : NoReplay p st (calls ++ [.consumeReply msg now])) :
    Fresh p st (calls ++ [.consumeReply msg now]) (h.consumeReply p msg now) := by
  have hcame (other : MessageCookieReply) (hother : other ∈ h.taken.map Prod.fst) :
      ∃ before now' between,
      calls ++ [.consumeReply msg now] = before ++ .consumeReply other now' :: between ∧
        (∀ call ∈ between, call.IsConsume) ∧ Answers p st before other := by
    obtain ⟨before, now', between, rfl, hbetween, hanswers⟩ := hfresh.came other hother
    refine ⟨before, now', between ++ [.consumeReply msg now], by simp, ?_, hanswers⟩
    intro call hcall
    rcases List.mem_append.mp hcall with hcall | hcall
    · exact hbetween call hcall
    · rw [List.mem_singleton.mp hcall]
      exact trivial
  rcases hsent.consumeReply msg now with ⟨-, heq⟩ | ⟨hanswers, cookie, heq⟩
  · rw [heq]
    exact ⟨hfresh.nodup, hcame, hfresh.born, hfresh.uses⟩
  · have hmsg : msg ∉ h.taken.map Prod.fst := by
      intro hmem
      obtain ⟨before, now', between, rfl, hbetween, hbefore⟩ := hfresh.came msg hmem
      exact hnew before msg now' between now [] (by simp) hbetween hbefore
    have hfirst : h.taken.reverse.lookup msg = none := by
      rw [List.lookup_eq_none_iff]
      exact fun entry hentry => bne_iff_ne.mpr fun hsame =>
        hmsg (List.mem_map.mpr ⟨entry, List.mem_reverse.mp hentry, hsame.symm⟩)
    rw [heq]
    refine ⟨?_, ?_, ?_, hfresh.uses⟩
    · exact List.nodup_cons.mpr ⟨hmsg, hfresh.nodup⟩
    · intro other hother
      rcases List.mem_cons.mp hother with rfl | hother
      · exact ⟨calls, now, [], rfl, nofun, hanswers⟩
      · exact hcame other hother
    · intro time htime
      rw [hfirst] at htime
      exact Option.mem_some_iff.mp htime

theorem NoReplay.of_append {before after : List GeneratorCall}
    (h : NoReplay p st (before ++ after)) : NoReplay p st before := by
  rintro first msg now between now' last rfl hbetween
  exact h first msg now between now' (last ++ after) (by simp) hbetween

theorem run_fresh (h : NoReplay p st calls) :
    Fresh p st calls (Replies.run p st calls) := by
  induction calls using List.reverseRecOn with
  | nil => exact ⟨.nil, nofun, nofun, nofun⟩
  | append_singleton calls call ih =>
    have hfresh := ih h.of_append
    rw [Replies.run_concat]
    cases call with
    | addMacs msg now => exact hfresh.addMacs msg now
    | consumeReply msg now => exact hfresh.consumeReply (run_sent calls) h

/-- What was taken stays in the list until the next message. -/
theorem taken_of_append {msg : MessageCookieReply} (h : ∀ call ∈ between, call.IsConsume)
    (before : List GeneratorCall) (hmsg : msg ∈ (Replies.run p st before).taken.map Prod.fst) :
    msg ∈ (Replies.run p st (before ++ between)).taken.map Prod.fst := by
  induction between using List.reverseRecOn with
  | nil => rwa [List.append_nil]
  | append_singleton between call ih =>
    have hmem := ih fun call hcall => h call (List.mem_append_left _ hcall)
    rw [← List.append_assoc, Replies.run_concat]
    cases call with
    | addMacs other now => exact (h (.addMacs other now) (by simp)).elim
    | consumeReply other now =>
      rcases (run_sent (before ++ between)).consumeReply other now with ⟨-, heq⟩ | ⟨-, cookie, heq⟩
      · rw [Replies.step, heq]
        exact hmem
      · rw [Replies.step, heq]
        exact List.mem_cons_of_mem _ hmem

theorem taken_of_answers {msg : MessageCookieReply} {before : List GeneratorCall}
    (h : Answers p st before msg)
    (now : Int) : (Replies.run p st (before ++ [.consumeReply msg now])).taken =
      (msg, now) :: (Replies.run p st before).taken := by
  rw [Replies.run_concat]
  rcases (run_sent before).consumeReply msg now with ⟨hnot, -⟩ | ⟨-, cookie, heq⟩
  · exact absurd h hnot
  · rw [Replies.step, heq]

/-- Each reply is taken at most once between two messages, and no cookie is used after its time, if
and only if no reply to the message sent last comes again before the next one. -/
theorem extended_once_iff (p : Primitives) (st : CookieGenerator) (calls : List GeneratorCall) :
    (∀ before, before <+: calls → ExtendedOnce (Replies.run p st before)) ↔
      NoReplay p st calls := by
  constructor
  · rintro h before msg now between now' after rfl hbetween hanswers
    have hlater : ∀ call ∈ GeneratorCall.consumeReply msg now :: between, call.IsConsume :=
      List.forall_mem_cons.mpr ⟨trivial, hbetween⟩
    have hmem :
        msg ∈ (Replies.run p st (before ++ [.consumeReply msg now] ++
          between)).taken.map Prod.fst :=
      taken_of_append hbetween _ (by simp [taken_of_answers hanswers now])
    have hsplit : before ++ [GeneratorCall.consumeReply msg now] ++ between =
        before ++ .consumeReply msg now :: between := by
      simp
    rw [hsplit] at hmem
    have hagain := taken_of_answers ((answers_append hlater before msg).mpr hanswers) now'
    have honce :=
      (h (before ++ .consumeReply msg now :: between ++ [.consumeReply msg now']) (by simp)).1
    rw [hagain] at honce
    exact (List.nodup_cons.mp honce).1 hmem
  · rintro h before ⟨after, rfl⟩
    have hfresh := run_fresh h.of_append
    exact ⟨hfresh.nodup, hfresh.uses⟩

/-- The reply is taken again 99 seconds later, and the cookie used 200 seconds after it came. -/
theorem reply_taken_again :
    let gen := CookieGenerator.Init plain ⟨[], [], 0, false, [], []⟩ (List.replicate 32 7)
    let msg : Outgoing := ⟨List.replicate 148 1, by rw [List.length_replicate]; decide⟩
    let reply : MessageCookieReply :=
      ⟨MessageCookieReplyType, 8, List.replicate 24 5, List.replicate 16 9⟩
    let second := 1000000000
    let calls := [.addMacs msg 0, .consumeReply reply second, .consumeReply reply (100 * second),
      .addMacs msg (200 * second)]
    (Replies.run plain gen calls).uses = [(200 * second, second)] ∧
      ¬ ∀ before, before <+: calls → ExtendedOnce (Replies.run plain gen before) := by
  intro gen msg reply second calls
  have huses : (Replies.run plain gen calls).uses = [(200 * second, second)] := by decide +kernel
  refine ⟨huses, fun h => ?_⟩
  have hlate := (h calls (List.prefix_refl calls)).2 (200 * second, second)
    (by rw [huses]; exact List.mem_singleton_self _)
  exact absurd hlate (by decide)

end

end Sewg.Go.Cookie
