import Sewg.TrustApp.Commands

/-! `tsta_comm`, the channel without a PIN: what its responses can depend on. A record has
the secret in its first 64 bytes, the public key in the next 64 and the PIN behind them;
only the middle part shows. -/

namespace Sewg.TrustApp
open CString

/-- `ts_rsp_t` -/
structure TsRsp where
  ret : UInt32
  data : Mem

/-- An `int` stored in `mrsp->ret`. -/
def toRet (ret : Int) : UInt32 := UInt32.ofInt ret

/-- What a handler stores in `mrsp`. -/
def GetPublickeyRsp.store (rsp : GetPublickeyRsp) (mrsp : TsRsp) : TsRsp where
  ret := toRet rsp.ret
  data := match rsp.pubKey with
    | none => mrsp.data
    | some pubKey => mrsp.data.write pubKey.toList

def tstaComm (s : Sfs) (mreq : Request) (mrsp : TsRsp) : TsRsp × Sfs :=
  match mreq.cmd with
  | Initialize_CMD => ({ mrsp with ret := toRet Initialize }, s)
  -- the body is commented out
  | GenerateKeyPair_CMD => (mrsp, s)
  | GetPublickeyByID_CMD =>
    let (rsp, s) := getPublickeyByID s mreq.id mreq.getStack
    (rsp.store mrsp, s)
  -- as is this one
  | CurveMul_CMD => (mrsp, s)
  | _ => (mrsp, s)

/-- The response buffer is that of the call before. -/
def tstaStep (a : Sfs × TsRsp) (mreq : Request) : Option ((Sfs × TsRsp) × TsRsp) :=
  let (mrsp, s) := tstaComm a.1 mreq a.2
  some ((s, mrsp), mrsp)

/-- It is the first of the three entry points, with its reply stored in the buffer. -/
theorem tstaComm_dispatch (ladder : Key → Key → Key) (s : Sfs) {mreq : Request}
    (hc : mreq.channel = .tstaComm) (mrsp : TsRsp) :
    ∃ reply, dispatch ladder s mreq = some (reply, (tstaComm s mreq mrsp).2) ∧
      ∀ rsp, reply = .getPublickeyByID rsp → (tstaComm s mreq mrsp).1 = rsp.store mrsp := by
  unfold dispatch tstaComm
  rw [hc]
  rcases mreq.cmd with _ | _ | _ | _ | _ | cmd
  case succ.succ.succ.zero =>
    refine ⟨_, rfl, ?_⟩
    intro rsp hrsp
    cases hrsp
    rfl
  all_goals exact ⟨_, rfl, nofun⟩

/-- Two stores that differ in secrets and PINs only. -/
structure SamePublic (s t : Sfs) : Prop where
  faults : s.faults = t.faults
  names : ∀ name, (s.files.lookup name).isSome = (t.files.lookup name).isSome
  bytes : ∀ name a b, s.files.lookup name = some a → t.files.lookup name = some b →
    (a.drop (WG_KEY_LEN_HEX - 1)).take (WG_KEY_LEN_HEX - 1) =
      (b.drop (WG_KEY_LEN_HEX - 1)).take (WG_KEY_LEN_HEX - 1)

section
variable {s t : Sfs}

theorem SamePublic.pop (h : SamePublic s t) (f : Faults) :
    SamePublic { s with faults := f } { t with faults := f } :=
  ⟨rfl, h.names, h.bytes⟩

theorem SamePublic.keys_any (h : SamePublic s t) (p : Bytes → Bool) :
    s.files.keys.any p = t.files.keys.any p := by
  have hmem : ∀ name, name ∈ s.files.keys ↔ name ∈ t.files.keys := by
    intro name
    rw [mem_keys_iff, mem_keys_iff, h.names]
  rw [Bool.eq_iff_iff, List.any_eq_true, List.any_eq_true]
  simp only [hmem]

theorem isPathExist_eq (s : Sfs) (path : Bytes) :
    isPathExist s path =
      (if s.faults.lists.headD false = false ∧ s.files.keys.any (underPath path) = true
        then 0 else ENOENT,
        { s with faults := { s.faults with lists := s.faults.lists.tail } }) := by
  unfold isPathExist qseeSfsGetFileList path2file
  cases s.faults.lists.headD false with
  | true => rfl
  | false =>
    cases hk : s.files.keys with
    | nil => rfl
    | cons name names =>
      cases ha : (name :: names).any (underPath path) <;> simp [ha]

theorem SamePublic.isPathExist (h : SamePublic s t) (path : Bytes) :
    (isPathExist s path).1 = (isPathExist t path).1 ∧
      SamePublic (isPathExist s path).2 (isPathExist t path).2 := by
  rw [isPathExist_eq, isPathExist_eq, h.keys_any, h.faults]
  exact ⟨rfl, h.pop _⟩

/-- The bytes from 64 on are read alike. -/
theorem SamePublic.readFile (h : SamePublic s t) (name : Bytes) (buffer : Mem) :
    (readFile s name ↑(WG_KEY_LEN_HEX - 1) buffer (WG_KEY_LEN_HEX - 1)).1 =
        (readFile t name ↑(WG_KEY_LEN_HEX - 1) buffer (WG_KEY_LEN_HEX - 1)).1 ∧
      SamePublic (readFile s name ↑(WG_KEY_LEN_HEX - 1) buffer (WG_KEY_LEN_HEX - 1)).2
        (readFile t name ↑(WG_KEY_LEN_HEX - 1) buffer (WG_KEY_LEN_HEX - 1)).2 := by
  have names := h.names name
  unfold TrustApp.readFile qseeSfsOpen qseeSfsSeek qseeSfsRead path2file
  rw [h.faults]
  dsimp only
  have valid : ¬((↑(WG_KEY_LEN_HEX - 1) : Int) < 0 ∨ WG_KEY_LEN_HEX - 1 = 0) := by decide
  rw [if_neg valid, if_neg valid]
  cases t.faults.opens.headD false with
  | true => exact ⟨rfl, h.pop _⟩
  | false =>
    cases hs : s.files.lookup name with
    | none =>
      rw [hs] at names
      rw [Option.isSome_eq_false_iff.mp names.symm |> Option.isNone_iff_eq_none.mp]
      exact ⟨rfl, h.pop _⟩
    | some a =>
      rw [hs] at names
      obtain ⟨b, ht⟩ := Option.isSome_iff_exists.mp names.symm
      have bytes := h.bytes name a b hs ht
      simp only [ht, O_RDONLY, Bool.false_eq_true, ↓reduceIte]
      cases t.faults.seeks.headD false with
      | true => exact ⟨rfl, h.pop _⟩
      | false =>
        simp only [Bool.false_eq_true, ↓reduceIte, hs, ht, Option.getD_some,
          Int.toNat_natCast, bytes]
        cases t.faults.reads.headD false <;> exact ⟨rfl, h.pop _⟩

theorem SamePublic.getPublickeyByID (h : SamePublic s t) (id : Int32) (stack : GetPublickeyStack) :
    (getPublickeyByID s id stack).1 = (getPublickeyByID t id stack).1 ∧
      SamePublic (getPublickeyByID s id stack).2 (getPublickeyByID t id stack).2 := by
  obtain ⟨same, after⟩ := h.isPathExist (configfullpath id)
  unfold TrustApp.getPublickeyByID readHexKey isFileOrDirExist
  generalize TrustApp.isPathExist s (configfullpath id) = x at same after ⊢
  generalize TrustApp.isPathExist t (configfullpath id) = y at same after ⊢
  obtain ⟨ret, s'⟩ := x
  obtain ⟨ret', t'⟩ := y
  cases same
  dsimp only at after ⊢
  split
  · exact ⟨rfl, after⟩
  · obtain ⟨same, after⟩ := after.readFile (configfullpath id) stack.hex
    generalize TrustApp.readFile s' _ _ _ _ = x at same after ⊢
    generalize TrustApp.readFile t' _ _ _ _ = y at same after ⊢
    obtain ⟨r, s''⟩ := x
    obtain ⟨r', t''⟩ := y
    cases same
    dsimp only at after ⊢
    by_cases hr : r.ret ≠ 0
    · rw [if_pos hr, if_pos hr]
      exact ⟨rfl, after⟩
    · rw [if_neg hr, if_neg hr]
      exact ⟨rfl, after⟩

theorem getPublickeyByID_files (s : Sfs) (id : Int32) (stack : GetPublickeyStack) :
    (getPublickeyByID s id stack).2.files = s.files := by
  have hfiles : (isPathExist s (configfullpath id)).2.files = s.files := by
    rw [isPathExist_eq]
  unfold TrustApp.getPublickeyByID isFileOrDirExist
  generalize TrustApp.isPathExist s (configfullpath id) = x at hfiles ⊢
  obtain ⟨ret, t⟩ := x
  dsimp only at hfiles ⊢
  by_cases hr : ret ≠ 0
  · rw [if_pos hr]
    exact hfiles
  · rw [if_neg hr]
    have hread :=
      (readHexKey_keeps t (configfullpath id) ↑(WG_KEY_LEN_HEX - 1) stack.hex stack.pub).files
    generalize readHexKey t (configfullpath id) ↑(WG_KEY_LEN_HEX - 1)
      stack.hex stack.pub = r at hread ⊢
    obtain ⟨key, u⟩ := r
    cases key <;> exact hread.trans hfiles

theorem tstaComm_files (s : Sfs) (mreq : Request) (mrsp : TsRsp) :
    (tstaComm s mreq mrsp).2.files = s.files := by
  unfold TrustApp.tstaComm
  split
  · rfl
  · rfl
  · exact getPublickeyByID_files s mreq.id mreq.getStack
  · rfl
  · rfl

theorem SamePublic.tstaComm (h : SamePublic s t) (mreq : Request) (mrsp : TsRsp) :
    (tstaComm s mreq mrsp).1 = (tstaComm t mreq mrsp).1 ∧
      SamePublic (tstaComm s mreq mrsp).2 (tstaComm t mreq mrsp).2 := by
  unfold TrustApp.tstaComm
  split
  · exact ⟨rfl, h⟩
  · exact ⟨rfl, h⟩
  · obtain ⟨same, after⟩ := h.getPublickeyByID mreq.id mreq.getStack
    exact ⟨congrArg (GetPublickeyRsp.store · mrsp) same, after⟩
  · exact ⟨rfl, h⟩
  · exact ⟨rfl, h⟩

end

/-- Two runs of requests without a PIN on stores that differ in secrets and PINs only give
the same responses, and change no file. -/
theorem pinless_responses_public {s t : Sfs} (h : SamePublic s t) (mrsp : TsRsp)
    (requests : List Request) :
    ∃ s' t' responses, Run.answers tstaStep (s, mrsp) requests = some (s', responses) ∧
      Run.answers tstaStep (t, mrsp) requests = some (t', responses) ∧
      s'.1.files = s.files ∧ t'.1.files = t.files := by
  have related := Run.answers_related
    (R := fun x y : Sfs × TsRsp => (SamePublic x.1 y.1 ∧ x.2 = y.2) ∧ x.1.files = s.files ∧
      y.1.files = t.files)
    (f := tstaStep) (g := tstaStep) (fun x y mreq hxy => by
      obtain ⟨x, mrsp⟩ := x
      obtain ⟨y, mrsp'⟩ := y
      obtain ⟨⟨hsame, rfl⟩, hx, hy⟩ := hxy
      obtain ⟨answer, after⟩ := hsame.tstaComm mreq mrsp
      exact .some ⟨⟨⟨after, answer⟩, (tstaComm_files x mreq mrsp).trans hx,
        (tstaComm_files y mreq mrsp).trans hy⟩, answer⟩)
    (s := (s, mrsp)) (t := (t, mrsp)) ⟨⟨h, rfl⟩, rfl, rfl⟩ requests
  have total : (Run.answers tstaStep (s, mrsp) requests).isSome :=
    Run.answers_isSome (fun _ _ => rfl) (s, mrsp) requests
  generalize Run.answers tstaStep (s, mrsp) requests = a at related total ⊢
  generalize Run.answers tstaStep (t, mrsp) requests = b at related ⊢
  cases related with
  | none => cases total
  | @some x y hxy => exact ⟨x.1, y.1, x.2, rfl, congrArg some (Prod.ext rfl hxy.2.symm), hxy.1.2⟩

/-- A key record under the id 5. -/
def keyed (secret pin : UInt8) : Sfs where
  files := provisioned.files.insert (configfullpath 5)
    (List.replicate 64 secret ++ List.replicate 64 97 ++ [pin])

theorem keyed_samePublic (secret pin secret' pin' : UInt8) :
    SamePublic (keyed secret pin) (keyed secret' pin') := by
  have other : ∀ name, name ≠ configfullpath 5 → ∀ secret pin,
      (keyed secret pin).files.lookup name = provisioned.files.lookup name :=
    fun name hn secret pin => AList.lookup_insert_ne hn
  have own : ∀ secret pin, (keyed secret pin).files.lookup (configfullpath 5) =
      some (List.replicate 64 secret ++ List.replicate 64 97 ++ [pin]) :=
    fun secret pin => AList.lookup_insert _
  refine ⟨rfl, ?_, ?_⟩
  · intro name
    by_cases hn : name = configfullpath 5
    · rw [hn, own, own]
      rfl
    · rw [other name hn, other name hn]
  · intro name a b ha hb
    by_cases hn : name = configfullpath 5
    · rw [hn, own] at ha hb
      cases ha
      cases hb
      rfl
    · rw [other name hn] at ha hb
      rw [ha] at hb
      cases hb
      rfl

theorem pinless_responses_keyed :
    ∃ s' t' responses, Run.answers tstaStep (keyed 48 49, ⟨0, fun _ => 0⟩) [asksKey 5, asksKey 6] =
        some (s', responses) ∧
      Run.answers tstaStep (keyed 57 50, ⟨0, fun _ => 0⟩) [asksKey 5, asksKey 6] =
        some (t', responses) ∧
      s'.1.files = (keyed 48 49).files ∧ t'.1.files = (keyed 57 50).files :=
  pinless_responses_public (keyed_samePublic 48 49 57 50) ⟨0, fun _ => 0⟩ [asksKey 5, asksKey 6]

end Sewg.TrustApp
