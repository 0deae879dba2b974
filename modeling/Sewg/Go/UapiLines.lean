import Sewg.Go.PeerMap
import Sewg.Go.Tunnels

/-! What a set operation has done when it returns: which lines of its input it has applied, and what
the lines of an ignored peer change. -/

namespace Sewg.Go

open CString (Bytes)
open Words

/-! ### The lines that are applied -/

/-- The lines of a text, however long, with their carriage returns. -/
def textLines (text : Bytes) : List Bytes :=
  let lines := text.splitOn 10
  if lines.getLast? = some [] then lines.dropLast else lines

/-- The lines before the first empty one. -/
def settingLines (text : Bytes) : List Bytes :=
  (textLines text).takeWhile fun line => dropCR line ≠ []

namespace SetState

variable {e : Endian} {envs : Nat → LineEnv} {s t : SetState} {n : Nat}

/-- The second state comes from the first by lines that are parsed and applied one after the
other. -/
inductive Applied (e : Endian) (envs : Nat → LineEnv) :
    Nat → SetState → List Bytes → SetState → Prop
  | nil {n : Nat} {s : SetState} : Applied e envs n s [] s
  | cons {n : Nat} {s t u : SetState} {text : Bytes} {rest : List Bytes} :
      s.line e (envs n) text = (t, none) → Applied e envs (n + 1) t rest u →
        Applied e envs n s (text :: rest) u

/-- The lines that the loop has parsed and applied. -/
def applied (e : Endian) (envs : Nat → LineEnv) : Nat → SetState → List Bytes → List Bytes
  | _, _, [] => []
  | _, _, [] :: _ => []
  | n, s, text :: rest =>
    match s.line e (envs n) text with
    | (_, some _) => []
    | (s, none) => text :: s.applied e envs (n + 1) rest

theorem applied_of_lines {texts : List Bytes} (h : (s.lines e envs n texts).2 = none) :
    s.applied e envs n texts = texts.takeWhile (· ≠ []) ∧
      Applied e envs n s (texts.takeWhile (· ≠ [])) (s.lines e envs n texts).1 := by
  induction texts generalizing n s with
  | nil => exact ⟨rfl, .nil⟩
  | cons text rest ih =>
    cases text with
    | nil => exact ⟨rfl, .nil⟩
    | cons byte text =>
      rw [List.takeWhile_cons_of_pos (by simp)]
      unfold lines at h ⊢
      unfold applied
      cases hline : s.line e (envs n) (byte :: text) with
      | mk t failure =>
        rw [hline] at h
        cases failure with
        | some failure => cases h
        | none =>
          obtain ⟨happlied, hstates⟩ := ih h
          exact ⟨congrArg _ happlied, .cons hline hstates⟩

end SetState

section
variable (e : Endian) (envs : Nat → LineEnv) (device : UapiDevice) (text : Bytes)

/-- The variables of the loop before the first line. -/
def SetState.start : SetState := ⟨device, none, false, true⟩

/-- The lines of its input that a set operation has applied. -/
def appliedLines : List Bytes := (SetState.start device).applied e envs 0 (scanLines text)

/-- Every line before the first empty one was parsed and applied, in order. -/
def AllApplied : Prop :=
  appliedLines e envs device text = (settingLines text).map dropCR ∧
    ∃ s, SetState.Applied e envs 0 (.start device) ((settingLines text).map dropCR) s ∧
      (ipcSetOperation e envs device text).1 = s.device

variable {e envs device text}

theorem scanLines_eq (text : Bytes) : scanLines text =
    ((textLines text).takeWhile fun line => line.length < MaxScanTokenSize).map dropCR :=
  rfl

theorem takeWhile_scanLines (text : Bytes) : (scanLines text).takeWhile (· ≠ []) =
    ((settingLines text).takeWhile fun line => line.length < MaxScanTokenSize).map dropCR := by
  rw [scanLines_eq, List.takeWhile_map, settingLines, List.takeWhile_takeWhile,
    List.takeWhile_takeWhile]
  simp only [Function.comp, and_comm]

/-- A set operation that returns no error has applied all of its lines if and only if none of them
is too long for the scanner. -/
theorem success_allApplied_iff (h : (ipcSetOperation e envs device text).2 = none) :
    AllApplied e envs device text ↔ ∀ line ∈ settingLines text, line.length < MaxScanTokenSize := by
  obtain ⟨happlied, hstates⟩ := SetState.applied_of_lines (s := .start device) h
  rw [takeWhile_scanLines] at happlied hstates
  have hshort :
      (settingLines text).takeWhile (fun line => line.length < MaxScanTokenSize) =
        settingLines text ↔
      ∀ line ∈ settingLines text, line.length < MaxScanTokenSize := by
    simp only [List.takeWhile_eq_self_iff, decide_eq_true_eq]
  rw [← hshort]
  constructor
  · intro hall
    have hlength := congrArg List.length (happlied.symm.trans hall.1)
    rw [List.length_map, List.length_map] at hlength
    exact (List.takeWhile_prefix _).eq_of_length hlength
  · intro heq
    rw [heq] at happlied hstates
    exact ⟨happlied, _, hstates, rfl⟩

/-- All lines before the empty one are applied to the device again. -/
theorem officeSettings_allApplied :
    (settingLines (officeSettings ++ ascii "\nunread\n")).length = 6 ∧
      AllApplied .little officeEnvs officeDevice (officeSettings ++ ascii "\nunread\n") := by
  have hshort : (settingLines (officeSettings ++ ascii "\nunread\n")).all
      (·.length < MaxScanTokenSize) = true := by
    decide +kernel
  refine ⟨by decide +kernel, (success_allApplied_iff (by decide +kernel)).mpr ?_⟩
  exact fun line hline => of_decide_eq_true (List.all_eq_true.mp hshort line hline)

theorem settingLines_single (line : Bytes) (hnewline : 10 ∉ line) (hempty : dropCR line ≠ []) :
    textLines line = [line] ∧ settingLines line = [line] := by
  have hsplit : line.splitOn 10 = [line] := by
    rw [List.splitOn_eq_splitOnP, List.splitOnP_eq_singleton]
    intro x hx
    exact beq_false_of_ne fun h => hnewline (h ▸ hx)
  have hne : line ≠ [] := by
    rintro rfl
    exact hempty rfl
  have hlines : textLines line = [line] := by
    rw [textLines, hsplit]
    simp [hne]
  rw [settingLines, hlines]
  simp [hempty]

/-- Of one line that is too long the scanner returns nothing. -/
theorem scanLines_long {line : Bytes} (hline : textLines line = [line])
    (hlong : MaxScanTokenSize ≤ line.length) : scanLines line = [] := by
  rw [scanLines_eq, hline, List.takeWhile_cons_of_neg (by simpa using hlong)]
  rfl

/-- Even 65536 letters in a row are a success. -/
theorem long_line_unnoticed :
    (ipcSetOperation .little noAnswers newUapiDevice (List.replicate 65536 97)).2 = none ∧
      ¬ AllApplied .little noAnswers newUapiDevice (List.replicate 65536 97) := by
  have hcr : dropCR (List.replicate 65536 97) = List.replicate 65536 97 := by
    rw [dropCR, List.getLast?_replicate]
    rfl
  obtain ⟨htext, hsetting⟩ := settingLines_single (List.replicate 65536 97)
    (fun h => absurd (List.eq_of_mem_replicate h) (by decide))
      (by rw [hcr]; exact List.cons_ne_nil _ _)
  have hscan : scanLines (List.replicate 65536 97) = [] :=
    scanLines_long htext (by rw [List.length_replicate]; exact Nat.le_refl 65536)
  constructor
  · rw [ipcSetOperation, hscan]
    rfl
  · intro hall
    have happlied := hall.1
    rw [appliedLines, hscan, hsetting] at happlied
    cases happlied

end

/-! ### Ignored peers -/

/-- A line that names a peer. -/
def NamesPeer (line : Bytes) : Prop :=
  ∃ value, line.splitOn 61 = [ascii SettingKey.publicKey.name, value]

/-- A line after which a device with this public key ignores the peer's settings: it names the
device itself, or removes the peer. -/
def Ignores (publicKey line : Bytes) : Prop :=
  (∃ value, line.splitOn 61 = [ascii SettingKey.publicKey.name, value] ∧
      loadExactHex NoisePublicKeySize value = some publicKey) ∨
    line.splitOn 61 = [ascii SettingKey.remove.name, ascii "true"]

namespace SetState

/-- The settings are for a peer that belongs to no device. -/
structure Ignoring (s : SetState) : Prop where
  peer : s.peer = none
  dummy : s.dummy = true
  deviceConfig : s.deviceConfig = false

variable {e : Endian} {envs : Nat → LineEnv} {env : LineEnv} {s t : SetState} {n : Nat}

theorem updatePeer_none (h : s.peer = none) (f : UapiDevice → Nat → UapiDevice) :
    s.updatePeer f = s := by
  rw [updatePeer, h]

namespace Ignoring

theorem peerLine (h : s.Ignoring) {key : Option SettingKey} (hkey : key ≠ some .publicKey)
    (value : Bytes) :
    (s.peerLine e env key value).1.Ignoring ∧ (s.peerLine e env key value).1.device = s.device := by
  have hsame : s.Ignoring ∧ s.device = s.device := ⟨h, rfl⟩
  obtain ⟨hpeer, hdummy, hconfig⟩ := h
  unfold SetState.peerLine
  simp only [updatePeer_none hpeer, hdummy, if_true]
  split
  · exact absurd rfl hkey
  · split
    · exact hsame
    · exact ⟨⟨rfl, rfl, hconfig⟩, rfl⟩
  · split <;> exact hsame
  · split <;> exact hsame
  · split <;> exact hsame
  · split <;> exact hsame
  · split <;> exact hsame
  · exact hsame
  · exact hsame

theorem line (h : s.Ignoring) (e : Endian) (env : LineEnv) {text : Bytes}
    (hname : ¬ NamesPeer text) :
    (s.line e env text).1.Ignoring ∧ (s.line e env text).1.device = s.device := by
  unfold SetState.line
  split
  · rename_i key value hsplit
    have hkey : SettingKey.ofText key ≠ some .publicKey := by
      intro hkey
      have hfound := List.find?_some hkey
      exact hname ⟨value, by rw [hsplit, of_decide_eq_true hfound]⟩
    rw [settingLine, if_neg (by simp [h.deviceConfig])]
    exact h.peerLine hkey value
  · exact ⟨h, rfl⟩

/-- Whatever the lines say, nothing of the device is changed and nothing is sent. -/
theorem lines (h : s.Ignoring) {texts : List Bytes} (hnames : ∀ text ∈ texts, ¬ NamesPeer text) :
    (s.lines e envs n texts).1.device = s.device := by
  induction texts generalizing n s with
  | nil => rfl
  | cons text rest ih =>
    obtain ⟨hname, hrest⟩ := List.forall_mem_cons.mp hnames
    cases text with
    | nil => rfl
    | cons byte text =>
      obtain ⟨hignoring, hdevice⟩ := h.line e (envs n) hname
      unfold SetState.lines
      generalize s.line e (envs n) (byte :: text) = result at hignoring hdevice
      obtain ⟨t, failure⟩ := result
      cases failure with
      | some failure => exact hdevice
      | none => exact (ih hignoring hrest).trans hdevice

end Ignoring

theorem ignoring_of_line {text : Bytes} (hline : Ignores s.device.device.publicKey text)
    (h : s.line e env text = (t, none)) : t.Ignoring := by
  unfold line at h
  rcases hline with ⟨value, hsplit, hvalue⟩ | hsplit
  · rw [hsplit] at h
    simp only [SettingKey.ofText_name] at h
    -- the first such line is looked at twice
    have hpeer (u : SetState) (hu : u.deviceConfig = false)
        (hkey : u.device.device.publicKey = s.device.device.publicKey)
        (h : u.peerLine e env (some .publicKey) value = (t, none)) : t.Ignoring := by
      simp only [peerLine, hvalue, selectPeer, hkey, if_true, Prod.mk.injEq, and_true] at h
      rw [← h]
      exact ⟨rfl, rfl, hu⟩
    cases hconfig : s.deviceConfig with
    | true =>
      simp only [settingLine, hconfig, if_true, deviceLine] at h
      exact hpeer { s with deviceConfig := false } rfl rfl h
    | false =>
      simp only [settingLine, hconfig, Bool.false_eq_true, if_false] at h
      exact hpeer s hconfig rfl h
  · rw [hsplit] at h
    simp only [SettingKey.ofText_name] at h
    cases hconfig : s.deviceConfig with
    | true =>
      simp only [settingLine, hconfig, if_true, deviceLine] at h
      cases h
    | false =>
      simp only [settingLine, hconfig, Bool.false_eq_true, if_false, peerLine, ne_eq,
        not_true, if_false, Prod.mk.injEq, and_true] at h
      rw [← h]
      refine ⟨rfl, rfl, ?_⟩
      split
      · exact hconfig
      · unfold updatePeer
        split <;> exact hconfig

/-- The device when a line of an ignored peer comes is the device when the first of them came. -/
theorem lines_ignored {before ignored : List Bytes} {line : Bytes}
    (hline : Ignores (s.lines e envs n before).1.device.device.publicKey line)
    (hnames : ∀ text ∈ ignored, ¬ NamesPeer text) :
    (s.lines e envs n (before ++ line :: ignored)).1.device =
      (s.lines e envs n (before ++ [line])).1.device := by
  induction before generalizing n s with
  | nil =>
    cases line with
    | nil => rfl
    | cons byte line =>
      have hignoring (t : SetState) : s.line e (envs n) (byte :: line) = (t, none) → t.Ignoring :=
        ignoring_of_line hline
      simp only [List.nil_append, lines]
      generalize s.line e (envs n) (byte :: line) = result at hignoring
      obtain ⟨t, failure⟩ := result
      cases failure with
      | some failure => rfl
      | none => exact (hignoring t rfl).lines hnames
  | cons text before ih =>
    cases text with
    | nil => rfl
    | cons byte text =>
      simp only [List.cons_append, lines] at hline ⊢
      generalize s.line e (envs n) (byte :: text) = result at hline
      obtain ⟨t, failure⟩ := result
      cases failure with
      | some failure => rfl
      | none => exact ih hline

end SetState

/-- The device when the first `k` lines of the input have been handled. -/
def deviceAfter (e : Endian) (envs : Nat → LineEnv) (device : UapiDevice) (text : Bytes)
    (k : Nat) : UapiDevice :=
  ((SetState.start device).lines e envs 0 ((scanLines text).take k)).1.device

/-- From a line that names the device itself or removes the peer up to the next line that names a
peer, the device stays as it is: every peer, the routes, and what has been sent. -/
theorem ignored_peer_unchanged {e : Endian} {envs : Nat → LineEnv} {device : UapiDevice}
    {text line : Bytes} {i j : Nat} (hline : (scanLines text)[i]? = some line) (hij : i < j)
    (hignores : Ignores (deviceAfter e envs device text i).device.publicKey line)
    (hnames : ∀ other ∈ ((scanLines text).take j).drop (i + 1), ¬ NamesPeer other) :
    deviceAfter e envs device text j = deviceAfter e envs device text (i + 1) := by
  have hupTo : (scanLines text).take (i + 1) = (scanLines text).take i ++ [line] := by
    rw [List.take_add_one, hline]
    rfl
  have hall : (scanLines text).take j =
      (scanLines text).take i ++ line :: ((scanLines text).take j).drop (i + 1) := by
    conv_lhs => rw [← List.take_append_drop (i + 1) ((scanLines text).take j)]
    rw [List.take_take, Nat.min_eq_left hij, hupTo, List.append_assoc]
    rfl
  rw [deviceAfter, deviceAfter, hall, hupTo]
  exact SetState.lines_ignored hignores hnames

/-- Settings for the device itself, then for the peer that it has and that is removed. -/
def ignoredSettings : Bytes :=
  unlines [ascii "public_key=" ++ (List.replicate 32 [48, 57]).flatten,
    ascii "endpoint=1.2.3.4:5", ascii "allowed_ip=0.0.0.0/0",
    ascii "persistent_keepalive_interval=25", officeKeyLine, ascii "remove=true",
    ascii "endpoint=1.2.3.4:5", ascii "allowed_ip=10.0.0.0/8"]

theorem not_namesPeer {lines : List Bytes}
    (h : lines.all (fun line => (line.splitOn 61).head? ≠
      some (ascii SettingKey.publicKey.name)) = true) :
    ∀ line ∈ lines, ¬ NamesPeer line := by
  rintro line hline ⟨value, hsplit⟩
  have hother := of_decide_eq_true (List.all_eq_true.mp h line hline)
  rw [hsplit] at hother
  exact hother rfl

theorem ignored_peer_unchanged_office :
    (deviceAfter .little officeEnvs officeDevice ignoredSettings 4 =
        deviceAfter .little officeEnvs officeDevice ignoredSettings 1 ∧
      (deviceAfter .little officeEnvs officeDevice ignoredSettings 4).device.keyMap =
        [(officeKey, 0)]) ∧
    deviceAfter .little officeEnvs officeDevice ignoredSettings 8 =
        deviceAfter .little officeEnvs officeDevice ignoredSettings 6 ∧
      (deviceAfter .little officeEnvs officeDevice ignoredSettings 8).device.keyMap = [] := by
  have hown : (scanLines ignoredSettings)[0]? = some (ascii "public_key=" ++
      (List.replicate 32 [48, 57]).flatten) := by decide +kernel
  have hremove : (scanLines ignoredSettings)[5]? = some (ascii "remove=true") := by decide +kernel
  refine ⟨⟨?_, by decide +kernel⟩, ?_, by decide +kernel⟩
  · exact ignored_peer_unchanged hown (by decide)
      (.inl ⟨(List.replicate 32 [48, 57]).flatten, by decide +kernel, by decide +kernel⟩)
      (not_namesPeer (by decide +kernel))
  · exact ignored_peer_unchanged hremove (by decide) (.inr (by decide +kernel))
      (not_namesPeer (by decide +kernel))

end Sewg.Go
