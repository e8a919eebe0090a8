import Autossh.Environ.Basic

/-!
# The configuration of a session (`src/api.rs`)

A host describes a session in `autossh_session_config` (`RawConfig`).  `parseConfig` turns it into
a `SessionConfig`, whose texts are not empty where one is required; every such configuration comes
from a description (`exists_parseConfig`).  The supervisor passes the configuration on to
`autossh_main` in two ways: `childEnviron` are the variables `child_main` sets, `buildChildArgv` is
the argument vector.

The doubles of the configuration are decimal fractions here.
-/

namespace Autossh

namespace Config

/-- A text that is not empty. -/
abbrev Text := {s : CString // s ≠ []}

/-- `autossh_session_config`.  A pointer that may be NULL is an `Option`; `extraSshArgs` is the
array that the pointer leads to. -/
structure RawConfig where
  structSize : ℕ
  sshPath : Option CString
  sshDestination : Option CString
  targetHost : Option CString
  targetPort : UInt16
  bindHost : Option CString
  localPort : UInt16
  monitorHost : Option CString
  monitorPort : UInt16
  flags : UInt32
  pollTime : Int32
  firstPollTime : Int32
  gateTime : Decimal
  maxStart : Int32
  maxSession : Decimal
  startTimeoutMs : Int32
  extraSshArgs : Option (ℕ → Option CString)
  extraSshArgsLen : ℕ

/-- `SessionConfig`. -/
structure SessionConfig where
  sshPath : Option CString
  sshDestination : Text
  targetHost : Text
  targetPort : UInt16
  bindHost : CString
  localPort : UInt16
  monitorHost : Option CString
  monitorPort : UInt16
  monitorDisabled : Bool
  pollTime : Int32
  firstPollTime : Int32
  gateTime : Decimal
  maxStart : Int32
  maxSession : Decimal
  startTimeoutMs : Int32
  extraSshArgs : List Text
  targetPort_ne : targetPort ≠ 0
  startTimeoutMs_pos : 0 < startTimeoutMs

/-- `size_of::<autossh_session_config>()` with 64-bit pointers. -/
def sizeOfConfig : ℕ := 128

/-- `autossh_session_config_init`. -/
def configInit : RawConfig where
  structSize := sizeOfConfig
  sshPath := none
  sshDestination := none
  targetHost := none
  targetPort := 22
  bindHost := none
  localPort := 0
  monitorHost := none
  monitorPort := 0
  flags := 0
  pollTime := 0
  firstPollTime := 0
  gateTime := .ofInt 0
  maxStart := -1
  maxSession := .ofInt 0
  startTimeoutMs := 15000
  extraSshArgs := none
  extraSshArgsLen := 0

/-- `required_cstring`. -/
def requiredCString (p : Option CString) (field : String) : Except String Text :=
  match p with
  | some s => if h : s = [] then .error (field ++ " is required") else .ok ⟨s, h⟩
  | none => .error (field ++ " is required")

/-- The items of `extra_ssh_args`. -/
def extraArgs (c : RawConfig) : Except String (List Text) :=
  if c.extraSshArgsLen = 0 then .ok []
  else match c.extraSshArgs with
    | none => .error "extra_ssh_args is NULL"
    | some p => (List.range c.extraSshArgsLen).mapM fun i =>
        requiredCString (p i) "extra_ssh_args item"

/-- A port, or `DEFAULT_TARGET_PORT`. -/
def targetPort (p : UInt16) : {p : UInt16 // p ≠ 0} :=
  if h : p = 0 then ⟨22, by decide⟩ else ⟨p, h⟩

/-- A time, or `DEFAULT_START_TIMEOUT_MS`. -/
def startTimeout (t : Int32) : {t : Int32 // 0 < t} :=
  if h : 0 < t then ⟨t, h⟩ else ⟨15000, by decide⟩

/-- `parse_config`; `none` is a NULL pointer. -/
def parseConfig : Option RawConfig → Except String SessionConfig
  | none => .error "config is NULL"
  | some c =>
    if c.structSize < sizeOfConfig then .error "config struct_size is too small"
    else do
      let sshDestination ← requiredCString c.sshDestination "ssh_destination"
      let targetHost ← requiredCString c.targetHost "target_host"
      let extraSshArgs ← extraArgs c
      return {
        sshPath := c.sshPath
        sshDestination
        targetHost
        targetPort := (targetPort c.targetPort).1
        bindHost := c.bindHost.getD "127.0.0.1".toList
        localPort := c.localPort
        monitorHost := c.monitorHost
        monitorPort := c.monitorPort
        monitorDisabled := c.flags &&& 1 ≠ 0
        pollTime := c.pollTime
        firstPollTime := c.firstPollTime
        gateTime := c.gateTime
        maxStart := c.maxStart
        maxSession := c.maxSession
        startTimeoutMs := (startTimeout c.startTimeoutMs).1
        extraSshArgs
        targetPort_ne := (targetPort c.targetPort).2
        startTimeoutMs_pos := (startTimeout c.startTimeoutMs).2 }

/-- A continuation byte. -/
def continuation (c : Char) : Bool := 0x80 ≤ c.toNat ∧ c.toNat ≤ 0xBF

/-- The second byte of a sequence of three. -/
def second₃ (a b : Char) : Bool :=
  (a.toNat = 0xE0 ∧ 0xA0 ≤ b.toNat ∧ b.toNat ≤ 0xBF) ∨
    (a.toNat = 0xED ∧ 0x80 ≤ b.toNat ∧ b.toNat ≤ 0x9F) ∨
    (0xE1 ≤ a.toNat ∧ a.toNat ≤ 0xEF ∧ a.toNat ≠ 0xED ∧ continuation b = true)

/-- The second byte of a sequence of four. -/
def second₄ (a b : Char) : Bool :=
  (a.toNat = 0xF0 ∧ 0x90 ≤ b.toNat ∧ b.toNat ≤ 0xBF) ∨
    (a.toNat = 0xF4 ∧ 0x80 ≤ b.toNat ∧ b.toNat ≤ 0x8F) ∨
    (0xF1 ≤ a.toNat ∧ a.toNat ≤ 0xF3 ∧ continuation b = true)

/-- The bytes are UTF-8: what `CStr::to_str` accepts. -/
def isUtf8 : CString → Bool
  | [] => true
  | a :: as =>
    if a.toNat < 0x80 then isUtf8 as
    else match as with
      | [] => false
      | b :: bs =>
        if 0xC2 ≤ a.toNat ∧ a.toNat ≤ 0xDF then continuation b && isUtf8 bs
        else match bs with
          | [] => false
          | c :: cs =>
            if second₃ a b then continuation c && isUtf8 cs
            else match cs with
              | [] => false
              | d :: ds => second₄ a b && continuation c && continuation d && isUtf8 ds

section

variable {a b c d : Char} {s : CString}

theorem isUtf8_of_lt (ha : a.toNat < 0x80) : isUtf8 (a :: s) = isUtf8 s := by
  rw [isUtf8.eq_def]
  exact if_pos ha

theorem isUtf8_two (ha : ¬a.toNat < 0x80) (h₂ : 0xC2 ≤ a.toNat ∧ a.toNat ≤ 0xDF) :
    isUtf8 (a :: b :: s) = (continuation b && isUtf8 s) := by
  rw [isUtf8.eq_def]
  exact (if_neg ha).trans (if_pos h₂)

theorem isUtf8_three (ha : ¬a.toNat < 0x80) (h₂ : ¬(0xC2 ≤ a.toNat ∧ a.toNat ≤ 0xDF))
    (h₃ : second₃ a b = true) : isUtf8 (a :: b :: c :: s) = (continuation c && isUtf8 s) := by
  rw [isUtf8.eq_def]
  exact (if_neg ha).trans ((if_neg h₂).trans (if_pos h₃))

theorem isUtf8_four (ha : ¬a.toNat < 0x80) (h₂ : ¬(0xC2 ≤ a.toNat ∧ a.toNat ≤ 0xDF))
    (h₃ : ¬second₃ a b = true) : isUtf8 (a :: b :: c :: d :: s) =
      (second₄ a b && continuation c && continuation d && isUtf8 s) := by
  rw [isUtf8.eq_def]
  exact (if_neg ha).trans ((if_neg h₂).trans (if_neg h₃))

end

/-- `string_from_cstring`. -/
def stringFromCString (s : CString) : Except String CString :=
  if isUtf8 s then .ok s else .error "configuration contains non-UTF-8 text"

/-- The value of `-M`. -/
def monitorText (c : SessionConfig) : CString :=
  if c.monitorDisabled then "0".toList else CString.decimal c.monitorPort.toNat

/-- The value of `-L`. -/
def forward (c : SessionConfig) : CString :=
  c.bindHost ++ ':' :: CString.decimal c.localPort.toNat ++ ':' :: c.targetHost.1 ++
    ':' :: CString.decimal c.targetPort.toNat

/-- `build_child_argv`, without the name of the program in front. -/
def buildChildArgv (c : SessionConfig) : Except String (List CString) := do
  let _bindHost ← stringFromCString c.bindHost
  let _targetHost ← stringFromCString c.targetHost.1
  let sshDestination ← stringFromCString c.sshDestination.1
  return ["-M".toList, monitorText c, "-N".toList, "-o".toList,
    "ExitOnForwardFailure=yes".toList, "-L".toList, forward c] ++
    c.extraSshArgs.map Subtype.val ++ [sshDestination]

/-- The part of `child_main` before it calls `autossh_main`: the environment in which it does. -/
def childEnviron (c : SessionConfig) (host : Environ) : Environ :=
  host
    |>.put .path c.sshPath
    |>.put .mhost c.monitorHost
    |>.put .poll
      (if 0 < c.pollTime.toInt then some (CString.decimal c.pollTime.toInt) else none)
    |>.put .firstPoll
      (if 0 < c.firstPollTime.toInt then some (CString.decimal c.firstPollTime.toInt) else none)
    |>.put .gatetime (if 0 ≤ c.gateTime.mantissa then some c.gateTime.text else none)
    |>.put .maxstart
      (if c.maxStart.toInt ≠ 0 then some (CString.decimal c.maxStart.toInt) else none)
    |>.put .maxSession (if 0 < c.maxSession.mantissa then some c.maxSession.text else none)

/-! ### Descriptions and configurations -/

theorem requiredCString_some (t : Text) (field : String) :
    requiredCString (some t.1) field = .ok t := by
  rw [requiredCString, dif_neg t.2]

theorem mapM_requiredCString {p : ℕ → Option CString} {field : String} (ts : List Text)
    (h : ∀ i (hi : i < ts.length), p i = some (ts[i]).1) :
    (List.range ts.length).mapM (fun i => requiredCString (p i) field) = .ok ts := by
  -- the array is read from the front, so the induction takes off the last item
  induction ts using List.reverseRecOn with
  | nil => rfl
  | append_singleton ts t ih =>
    have hts : (List.range ts.length).mapM (fun i => requiredCString (p i) field) = .ok ts := by
      refine ih fun i hi => ?_
      have hlt : i < (ts ++ [t]).length := by
        rw [List.length_append]
        exact Nat.lt_add_right _ hi
      rw [h i hlt, List.getElem_append_left hi]
    have hlast : p ts.length = some t.1 := by
      rw [h ts.length (by simp)]
      simp
    rw [List.length_append, List.length_singleton, List.range_succ, List.mapM_append, hts]
    simp only [List.mapM_cons, List.mapM_nil, hlast, requiredCString_some]
    rfl

/-- Every configuration comes from a description. -/
theorem exists_parseConfig (c : SessionConfig) : ∃ raw, parseConfig (some raw) = .ok c := by
  let raw : RawConfig :=
    { structSize := sizeOfConfig
      sshPath := c.sshPath
      sshDestination := some c.sshDestination.1
      targetHost := some c.targetHost.1
      targetPort := c.targetPort
      bindHost := some c.bindHost
      localPort := c.localPort
      monitorHost := c.monitorHost
      monitorPort := c.monitorPort
      flags := if c.monitorDisabled then 1 else 0
      pollTime := c.pollTime
      firstPollTime := c.firstPollTime
      gateTime := c.gateTime
      maxStart := c.maxStart
      maxSession := c.maxSession
      startTimeoutMs := c.startTimeoutMs
      extraSshArgs := some fun i => c.extraSshArgs[i]?.map Subtype.val
      extraSshArgsLen := c.extraSshArgs.length }
  have hextra : extraArgs raw = .ok c.extraSshArgs := by
    unfold extraArgs
    split_ifs with h
    · rw [List.length_eq_zero_iff.1 h]
    · refine mapM_requiredCString c.extraSshArgs fun i hi => ?_
      rw [List.getElem?_eq_getElem hi]
      rfl
  have hflags : decide ((if c.monitorDisabled then (1 : UInt32) else 0) &&& 1 ≠ 0) =
      c.monitorDisabled := by
    cases c.monitorDisabled <;> decide
  have hport : (targetPort c.targetPort).1 = c.targetPort := by
    rw [targetPort, dif_neg c.targetPort_ne]
  have htimeout : (startTimeout c.startTimeoutMs).1 = c.startTimeoutMs := by
    rw [startTimeout, dif_pos c.startTimeoutMs_pos]
  refine ⟨raw, ?_⟩
  rw [parseConfig, if_neg (lt_irrefl _), requiredCString_some, requiredCString_some, hextra]
  refine congrArg Except.ok ?_
  simp only [raw, hflags, hport, htimeout]
  rfl

end Config

end Autossh
