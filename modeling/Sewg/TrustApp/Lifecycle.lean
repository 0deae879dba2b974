import Sewg.TrustApp.Commands

/-! Keys over whole runs of commands: an issued key stays what it was, and the
ids that answer are compared with the ids that were issued. -/

namespace Sewg.TrustApp
open CString

/-- Every issued key has its complete record in the store, and no two of them
share a file. -/
structure Recorded (ladder : Key → Key → Key) (a : Ta) : Prop where
  lists : a.store.faults.lists = []
  issued : ∀ e ∈ a.history, ∀ id pk, Issues e id pk → e.1.pin.text ≠ [] ∧
    ∃ secret, ladder (normalizeSecret secret) basepoint = pk ∧
      a.store.files.lookup (configfullpath id) = some (record secret pk e.1.pin.text)
  distinct : a.history.Pairwise fun e f =>
    ∀ i j pk qk, Issues e i pk → Issues f j qk → configfullpath i ≠ configfullpath j

variable {b : Ta} {ladder : Key → Key → Key}

theorem recorded_step {a : Ta} {r : Request} (ha : Recorded ladder a)
    (h : step ladder a r = some b) : Recorded ladder b := by
  obtain ⟨reply, hb, ⟨keep, other⟩ | ⟨rsp, rfl, -, -, gen⟩⟩ := step_cases ha.lists h
  · -- nothing was issued and no file differs
    have none_issued : ∀ id pk, ¬Issues (r, reply) id pk := fun id pk hi => other _ hi
    refine ⟨keep.lists ha.lists, ?_, ?_⟩
    · intro e he id pk hi
      rw [hb] at he
      rw [keep.files]
      rcases List.mem_cons.mp he with rfl | he
      · exact absurd hi (none_issued id pk)
      · exact ha.issued e he id pk hi
    · rw [hb, List.pairwise_cons]
      exact ⟨fun _ _ i _ pk _ hi => absurd hi (none_issued i pk), ha.distinct⟩
  · obtain ⟨fresh, -, free, touch, done⟩ := generateKeyPair_spec ha.lists gen
    -- the path was free, so it is no earlier key's
    have apart : ∀ e ∈ a.history, ∀ id pk, Issues e id pk →
        configfullpath id ≠ configfullpath fresh := by
      intro e he id pk hi heq
      obtain ⟨-, secret, -, stored⟩ := ha.issued e he id pk hi
      rw [heq, free] at stored
      cases stored
    have latest : ∀ id pk, Issues (r, .generateKeyPair rsp) id pk → rsp.ret = 0 ∧ id = fresh := by
      intro id pk hi
      have e : rsp = ⟨0, id, some pk⟩ := Reply.generateKeyPair.inj hi
      obtain ⟨-, same, -⟩ := done (by rw [e])
      exact ⟨by rw [e], congrArg GenerateKeyPairRsp.id (e.symm.trans same)⟩
    refine ⟨touch.lists ha.lists, ?_, ?_⟩
    · intro e he id pk hi
      rw [hb] at he
      rcases List.mem_cons.mp he with rfl | he
      · obtain ⟨hz, rfl⟩ := latest id pk hi
        obtain ⟨hp, hrsp, stored⟩ := done hz
        have hpk : ladder (normalizeSecret r.env.secret) basepoint = pk := by
          have e := hrsp.symm.trans (Reply.generateKeyPair.inj hi)
          exact Option.some.inj (congrArg GenerateKeyPairRsp.pubKey e)
        exact ⟨hp, r.env.secret, hpk, hpk ▸ stored⟩
      · rw [touch.other _ (apart e he id pk hi)]
        exact ha.issued e he id pk hi
    · rw [hb, List.pairwise_cons]
      refine ⟨fun e he i j pk qk hi hj => ?_, ha.distinct⟩
      rw [(latest i pk hi).2]
      exact (apart e he j qk hj).symm

theorem recorded_run {s : Sfs} (hl : s.faults.lists = []) {rs : List Request}
    (h : Run.exec (step ladder) ⟨s, []⟩ rs = some b) : Recorded ladder b :=
  Run.exec_invariant (fun _ _ _ ha hst => recorded_step ha hst)
    ⟨hl, fun _ he => absurd he List.not_mem_nil, List.Pairwise.nil⟩ h

theorem clean_run {s : Sfs} (hs : s.faults = {}) {rs : List Request}
    (h : Run.exec (step ladder) ⟨s, []⟩ rs = some b) : b.store.faults = {} := by
  refine Run.exec_invariant (P := fun a => a.store.faults = {}) ?_ hs h
  intro a r c ha hst
  have hl : a.store.faults.lists = [] := by rw [ha]
  obtain ⟨_, -, ⟨keep, -⟩ | ⟨_, -, -, -, gen⟩⟩ := step_cases hl hst
  · exact keep.clean ha
  · obtain ⟨_, -, -, touch, -⟩ := generateKeyPair_spec hl gen
    exact touch.clean ha

/-- Once issued, a key answers with the same public key in every later state;
the secret that `CurveMul` reads for it is a scalar whose clamped value gives
that public key; and no other issued key has its file. -/
theorem key_lifecycle (ladder : Key → Key → Key) (s : Sfs) (hs : s.faults = {}) (rs : List Request)
    (b : Ta) (run : Run.exec (step ladder) ⟨s, []⟩ rs = some b) :
    (∀ e ∈ b.history, ∀ id pk, Issues e id pk →
      (∀ stack, getPublickeyByID b.store id stack = (⟨0, some pk⟩, b.store)) ∧
      ∃ secret, ladder (normalizeSecret secret) basepoint = pk ∧
        (∀ hex old, readHexKey b.store (configfullpath id) 0 hex old = (some secret, b.store)) ∧
        ∀ pin point stack rst, (curveMul ladder b.store pin point id stack).1.rst = some rst →
          rst = curve25519Generic ladder secret point) ∧
    b.history.Pairwise fun e f => ∀ i j pk qk, Issues e i pk → Issues f j qk →
      configfullpath i ≠ configfullpath j := by
  have inv := recorded_run (by rw [hs]) run
  have clean := clean_run hs run
  refine ⟨fun e he id pk hi => ?_, inv.distinct⟩
  obtain ⟨-, secret, hpk, stored⟩ := inv.issued e he id pk hi
  refine ⟨getPublickeyByID_record clean stored, secret, hpk,
    readHexKey_clean clean (Int.le_refl 0) stored (record_secret _ _ _), ?_⟩
  intro pin point stack rst hrst
  by_cases hp : pin.text = []
  · rw [curveMul_empty inv.lists hp] at hrst
    cases hrst
  · rw [curveMul_record clean stored pin hp] at hrst
    split at hrst
    · exact (Option.some.inj hrst).symm
    · cases hrst

def Reply.generated : Reply → Option GenerateKeyPairRsp
  | .generateKeyPair rsp => some rsp
  | _ => none

theorem issues_of_generated {id : Int32} {pk : Key}
    (h : ⟨0, id, some pk⟩ ∈ b.history.filterMap fun e => e.2.generated) :
    ∃ e ∈ b.history, Issues e id pk := by
  obtain ⟨⟨r, reply⟩, he, hreply⟩ := List.mem_filterMap.mp h
  cases reply <;> cases hreply
  exact ⟨_, he, rfl⟩

/-- A key, a multiplication with it, a second key whose loop sees the first one's id before its
own, and a question about the second. -/
def twoKeys : List Request :=
  [newKey ⟨[49], by decide⟩ 5,
    { newKey ⟨[49], by decide⟩ 0 with
      channel := .getPinComm, cmd := CurveMul_CMD, id := 5, point := basepoint },
    { newKey ⟨[50, 51], by decide⟩ 0 with env := ⟨[5, 6], .replicate 32 77, nullPoint⟩ },
    asksKey 6]

theorem key_lifecycle_twoKeys :
    ∃ b, Run.exec (step fun secret _ => secret) ⟨provisioned, []⟩ twoKeys = some b ∧
      getPublickeyByID b.store 5 ⟨fun _ => 0, nullPoint⟩ =
        (⟨0, some (normalizeSecret nullPoint)⟩, b.store) ∧
      getPublickeyByID b.store 6 ⟨fun _ => 0, nullPoint⟩ =
        (⟨0, some (normalizeSecret (.replicate 32 77))⟩, b.store) := by
  have hrun : (Run.exec (step fun secret _ => secret) ⟨provisioned, []⟩ twoKeys).map
      (fun b => b.history.filterMap fun e => e.2.generated) =
        some [⟨0, 6, some (normalizeSecret (.replicate 32 77))⟩,
          ⟨0, 5, some (normalizeSecret nullPoint)⟩] := by
    decide +kernel
  obtain ⟨b, run, hgenerated⟩ := Option.map_eq_some_iff.mp hrun
  obtain ⟨e, he, hfirst⟩ : ∃ e ∈ b.history, Issues e 5 (normalizeSecret nullPoint) :=
    issues_of_generated (by simp [hgenerated])
  obtain ⟨f, hf, hsecond⟩ : ∃ f ∈ b.history, Issues f 6 (normalizeSecret (.replicate 32 77)) :=
    issues_of_generated (by simp [hgenerated])
  have lifecycle := (key_lifecycle _ provisioned rfl twoKeys b run).1
  exact ⟨b, run, (lifecycle e he _ _ hfirst).1 _, (lifecycle f hf _ _ hsecond).1 _⟩

/-! ## Which ids answer -/

/-- No file is any id's record. -/
def Fresh (s : Sfs) : Prop := ∀ id, s.files.lookup (configfullpath id) = none

/-- The request is no `GenerateKeyPair`, or it has a PIN and draws no other id
with the file name of `id`. -/
def NameApart (id : Int32) (r : Request) : Prop :=
  r.channel = .setPinComm → r.cmd = GenerateKeyPair_CMD →
    r.pin.text ≠ [] ∧ ∀ i ∈ r.env.ids, int2char i = int2char id → i = id

/-- Calls succeed, and a record for `id` was issued under that very id. -/
structure Backed (id : Int32) (a : Ta) : Prop where
  clean : a.store.faults = {}
  issued : (a.store.files.lookup (configfullpath id)).isSome → ∃ e ∈ a.history, ∃ pk, Issues e id pk

theorem backed_step {id : Int32} {a : Ta} {r : Request} (ha : Backed id a) (hr : NameApart id r)
    (h : step ladder a r = some b) : Backed id b := by
  have hl : a.store.faults.lists = [] := by rw [ha.clean]
  obtain ⟨reply, hb, ⟨keep, -⟩ | ⟨rsp, rfl, hch, hcmd, gen⟩⟩ := step_cases hl h
  · refine ⟨keep.clean ha.clean, fun hs => ?_⟩
    rw [keep.files] at hs
    obtain ⟨e, he, hi⟩ := ha.issued hs
    exact ⟨e, hb ▸ List.mem_cons_of_mem _ he, hi⟩
  · obtain ⟨hpin, apart⟩ := hr hch hcmd
    obtain ⟨fresh, hm, -, touch, done⟩ := generateKeyPair_spec hl gen
    refine ⟨touch.clean ha.clean, fun hs => ?_⟩
    by_cases same : configfullpath id = configfullpath fresh
    · obtain rfl := apart fresh hm (configfullpath_inj.mp same).symm
      by_cases hz : rsp.ret = 0
      · exact ⟨(r, .generateKeyPair rsp), by rw [hb]; exact List.mem_cons_self,
          ladder (normalizeSecret r.env.secret) basepoint,
          congrArg Reply.generateKeyPair (done hz).2.1⟩
      · -- without a directory nothing was stored
        rw [generateKeyPair_failed ha.clean hpin gen hz] at hs
        obtain ⟨e, he, hi⟩ := ha.issued hs
        exact ⟨e, hb ▸ List.mem_cons_of_mem _ he, hi⟩
    · rw [touch.other _ same] at hs
      obtain ⟨e, he, hi⟩ := ha.issued hs
      exact ⟨e, hb ▸ List.mem_cons_of_mem _ he, hi⟩

/-- In every run that keeps the file name of `id` apart from the other drawn
ids and gives every new key a PIN, `id` answers only if it was issued. -/
theorem only_issued_ids (ladder : Key → Key → Key) (s : Sfs) (hs : s.faults = {}) (fresh : Fresh s)
    (id : Int32) (rs : List Request) (apart : ∀ r ∈ rs, NameApart id r) (b : Ta)
    (run : Run.exec (step ladder) ⟨s, []⟩ rs = some b)
    (answers : (∃ stack, (getPublickeyByID b.store id stack).1.ret = 0) ∨
      ∃ pin point stack, (curveMul ladder b.store pin point id stack).1.ret = 0 ∨
        (curveMul ladder b.store pin point id stack).1.ret = 1) :
    ∃ e ∈ b.history, ∃ pk, Issues e id pk := by
  have hb : Backed id b :=
    Run.exec_guarded (fun _ r => NameApart id r) (fun _ _ _ ha hr hst => backed_step ha hr hst)
      ⟨hs, fun h => by rw [fresh id] at h; cases h⟩ (Run.meets_of_forall apart) run
  have hl : b.store.faults.lists = [] := by rw [hb.clean]
  apply hb.issued
  rcases answers with ⟨stack, h⟩ | ⟨pin, point, stack, h⟩
  · exact getPublickeyByID_stored hl h
  · exact curveMul_stored hl (by rcases h with h | h <;> rw [h] <;> decide)

theorem provisioned_fresh : Fresh provisioned := by
  intro id
  have h : configfullpath id ≠ USER_DIR ++ [SPLIT] := by
    intro e
    have := congrArg List.length e
    rw [configfullpath_length] at this
    exact absurd this (by decide)
  exact (AList.lookup_insert_ne h).trans (AList.lookup_empty _)

theorem only_issued_ids_newKey :
    ∃ b, Run.exec (step fun _ point => point) ⟨provisioned, []⟩ [newKey ⟨[49], by decide⟩ 5] =
        some b ∧
      (getPublickeyByID b.store 5 ⟨fun _ => 0, nullPoint⟩).1.ret = 0 ∧
      ∃ e ∈ b.history, ∃ pk, Issues e 5 pk := by
  obtain ⟨b, e, run, hist, -, issues⟩ :=
    newKey_issued (fun _ point => point) ⟨[49], by decide⟩ (by decide)
  have last : e ∈ b.history := by rw [hist]; exact List.mem_singleton_self e
  obtain ⟨-, secret, -, stored⟩ := (recorded_run rfl run).issued e last 5 basepoint issues
  have answer := getPublickeyByID_record (clean_run rfl run) stored ⟨fun _ => 0, nullPoint⟩
  refine ⟨b, run, by rw [answer], ?_⟩
  refine only_issued_ids _ provisioned rfl provisioned_fresh 5 _ ?_ b run
    (.inl ⟨⟨fun _ => 0, nullPoint⟩, by rw [answer]⟩)
  intro r hr _ _
  rw [List.mem_singleton.mp hr]
  exact ⟨by decide, fun i hi _ => List.mem_singleton.mp hi⟩

/-- The key issued as 5 also answers to 1005, which nobody was given. -/
theorem unissued_id_answers :
    ∃ b, Fresh provisioned ∧
      Run.exec (step fun _ point => point) ⟨provisioned, []⟩ [newKey ⟨[49], by decide⟩ 5] =
        some b ∧
      (getPublickeyByID b.store 1005 ⟨fun _ => 0, nullPoint⟩).1.ret = 0 ∧
      ¬∃ e ∈ b.history, ∃ pk, Issues e 1005 pk := by
  obtain ⟨b, e, run, hist, -, issues⟩ :=
    newKey_issued (fun _ point => point) ⟨[49], by decide⟩ (by decide)
  have last : e ∈ b.history := by rw [hist]; exact List.mem_singleton_self e
  obtain ⟨-, secret, -, stored⟩ := (recorded_run rfl run).issued e last 5 basepoint issues
  have same : configfullpath 5 = configfullpath 1005 := by decide +kernel
  rw [same] at stored
  have answer := getPublickeyByID_record (clean_run rfl run) stored ⟨fun _ => 0, nullPoint⟩
  refine ⟨b, provisioned_fresh, run, by rw [answer], ?_⟩
  rintro ⟨f, hf, pk, hi⟩
  rw [hist, List.mem_singleton] at hf
  subst hf
  have hid := congrArg GenerateKeyPairRsp.id (Reply.generateKeyPair.inj (issues.symm.trans hi))
  exact absurd (show (5 : Int32) = 1005 from hid) (by decide)

end Sewg.TrustApp
