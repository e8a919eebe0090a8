import Autossh.Posix.Basic
import Autossh.Posix.Decimal

/-!
# The environment (`src/env.rs`)

`getEnvArgs` is `get_env_args`: it reads the `AUTOSSH_*` variables one after the other into the
settings and exits through `xerrlog!` at the first one it does not accept.  `checked` is the test
that all numbers have in common.  `getEnvArgs_eq_ok` says when it returns, and with what: each
setting is a function of its own variable, apart from `first_poll_time`, which defaults to
`poll_time`, and the lifetime, which both are lowered to.

The doubles that are set here are converted integers, and integers in the model (the conversion
rounds from `2 ^ 53` on, which is left out).
-/

namespace Autossh

namespace Environ

/-- The variables that the program reads. -/
inductive Var
  | path
  | debug
  | loglevel
  | poll
  | firstPoll
  | gatetime
  | maxstart
  | message
  | port
  | maxlifetime
  | maxSession
  | pidfile
  | logfile
  | mhost
  deriving DecidableEq, Repr

end Environ

/-- An environment: what `getenv` returns. -/
abbrev Environ := Environ.Var → Option CString

namespace Environ

/-- An environment without any of the variables. -/
def empty : Environ := fun _ => none

/-- `setenv` with `overwrite`. -/
def setenv (e : Environ) (x : Var) (s : CString) : Environ := Function.update e x (some s)

/-- `setenv` if there is a value. -/
def put (e : Environ) (x : Var) : Option CString → Environ
  | none => e
  | some s => e.setenv x s

@[simp] theorem put_same (e : Environ) (x : Var) (s : Option CString) :
    e.put x s x = s.or (e x) := by
  cases s with
  | none => rfl
  | some s => exact Function.update_self ..

@[simp] theorem put_of_ne {x y : Var} (h : y ≠ x) (e : Environ) (s : Option CString) :
    e.put x s y = e y := by
  cases s with
  | none => rfl
  | some s => exact Function.update_of_ne h ..

/-- The fatal errors of `get_env_args`. -/
inductive Exit
  /-- "invalid log level \"{}\"" -/
  | invalidLogLevel (s : CString)
  /-- "invalid poll time \"{}\"" -/
  | invalidPollTime (s : CString)
  /-- "invalid first poll time \"{}\"" -/
  | invalidFirstPollTime (s : CString)
  /-- "invalid gate time \"{}\"" -/
  | invalidGateTime (s : CString)
  /-- "invalid max start number \"{}\"" -/
  | invalidMaxStart (s : CString)
  /-- "echo message may only be {} bytes long" -/
  | longMessage
  /-- "invalid max lifetime \"{}\"" -/
  | invalidMaxLifetime (s : CString)
  /-- "invalid max session time \"{}\"" -/
  | invalidMaxSession (s : CString)
  /-- "{}: {}", the log file and the reason it cannot be opened -/
  | cannotOpen (s : CString)
  deriving DecidableEq, Repr

/-- The globals that `get_env_args` sets.  `gate_time`, `max_lifetime` and `max_session` are the
integers that are read, before the conversion to a double. -/
structure Settings where
  sshPath : CString
  /-- `syslog_perror` is `LOG_PERROR`. -/
  syslogPerror : Bool
  loglevel : ℤ
  pollTime : ℤ
  firstPollTime : ℤ
  gateTime : ℤ
  maxStart : ℤ
  echoMessage : CString
  envPort : Option CString
  maxLifetime : ℤ
  pidStartTime : ℤ
  maxSession : ℤ
  pidFileName : Option CString
  /-- The file that `flog` writes to, when `logtype` is `L_FILELOG`. -/
  logFile : Option CString
  deriving DecidableEq, Repr

/-- The value of a variable, if it is set, through `f`. -/
def read {α : Type} (e : Environ) (x : Var) (default : α) (f : CString → Except Exit α) :
    Except Exit α :=
  match e x with
  | none => .ok default
  | some s => f s

/-- A number that takes up the whole text, and is not one of the bad ones. -/
def checked {α : Type} (parse : CString → α × CString) (bad : α → Bool) (invalid : CString → Exit)
    (s : CString) : Except Exit α :=
  if s = [] ∨ bad (parse s).1 = true ∨ (parse s).2 ≠ [] then .error (invalid s)
  else .ok (parse s).1

/-- `POLL_TIME_DEFAULT`. -/
def pollTimeDefault : ℤ := 600

/-- `AUTOSSH_POLL` and `AUTOSSH_FIRST_POLL`: a value that is not positive as a `c_int` gives the
default. -/
def pollTime (invalid : CString → Exit) (s : CString) : Except Exit ℤ :=
  (checked CString.strtoul (· = 0) invalid s).map fun v : ℕ =>
    if i32Wrap v ≤ 0 then pollTimeDefault else i32Wrap v

/-- `AUTOSSH_LOGLEVEL`: `LOG_EMERG` to `LOG_DEBUG`, where `AUTOSSH_DEBUG` is `LOG_DEBUG` and
`LOG_INFO` the default. -/
def logLevel (e : Environ) : Except Exit ℤ :=
  if (e .debug).isSome then .ok 7
  else e.read .loglevel 6 (checked CString.strtol (fun v => v < 0 ∨ 7 < v) .invalidLogLevel)

/-- `AUTOSSH_GATETIME`. -/
def gateTime : CString → Except Exit ℤ :=
  checked CString.strtol (fun v => v < 0) .invalidGateTime

/-- `AUTOSSH_MAXSTART`. -/
def maxStart (s : CString) : Except Exit ℤ :=
  (checked CString.strtol (fun v => v < -1) .invalidMaxStart s).map i32Wrap

/-- `AUTOSSH_MESSAGE`, of at most `MAX_MESSAGE` bytes. -/
def echoMessage (s : CString) : Except Exit CString :=
  if 64 < s.length then .error .longMessage else .ok s

/-- `AUTOSSH_MAXLIFETIME` and `AUTOSSH_MAX_SESSION`. -/
def seconds (invalid : CString → Exit) (s : CString) : Except Exit ℤ :=
  (checked CString.strtoul (fun _ => false) invalid s).map fun v : ℕ => (v : ℤ)

/-- `AUTOSSH_LOGFILE`. -/
def logFile (fopen : CString → Bool) (s : CString) : Except Exit (Option CString) :=
  if fopen s then .ok (some s) else .error (.cannotOpen s)

/-- A poll time that is greater than the lifetime is dropped to it. -/
def lower (lifetime time : ℤ) : ℤ := if 0 < lifetime ∧ lifetime < time then lifetime else time

/-- `get_env_args`.  `fopen` says which log files can be opened, `now` is the time. -/
def getEnvArgs (fopen : CString → Bool) (now : ℤ) (e : Environ) : Except Exit Settings := do
  let level ← e.logLevel
  let poll ← e.read .poll pollTimeDefault (pollTime .invalidPollTime)
  let first ← e.read .firstPoll poll (pollTime .invalidFirstPollTime)
  let gate ← e.read .gatetime 30 gateTime
  let start ← e.read .maxstart (-1) maxStart
  let message ← e.read .message [] echoMessage
  let lifetime ← e.read .maxlifetime 0 (seconds .invalidMaxLifetime)
  let session ← e.read .maxSession 0 (seconds .invalidMaxSession)
  let log ← e.read .logfile none (logFile fopen)
  return {
    sshPath := (e .path).getD "/usr/bin/ssh".toList
    syslogPerror := (e .debug).isSome
    loglevel := level
    pollTime := lower lifetime poll
    firstPollTime := lower lifetime first
    gateTime := gate
    maxStart := start
    echoMessage := message
    envPort := (e .port).filter (· ≠ [])
    maxLifetime := lifetime
    pidStartTime := if 0 < lifetime then now else 0
    maxSession := session
    pidFileName := (e .pidfile).filter (· ≠ [])
    logFile := log }

/-- `get_env_args` returns with the settings `s`; `p` and `f` are the poll times before they are
lowered. -/
structure Accepts (fopen : CString → Bool) (now : ℤ) (e : Environ) (p f : ℤ) (s : Settings) :
    Prop where
  loglevel : e.logLevel = .ok s.loglevel
  poll : e.read .poll pollTimeDefault (pollTime .invalidPollTime) = .ok p
  firstPoll : e.read .firstPoll p (pollTime .invalidFirstPollTime) = .ok f
  gatetime : e.read .gatetime 30 gateTime = .ok s.gateTime
  maxstart : e.read .maxstart (-1) maxStart = .ok s.maxStart
  message : e.read .message [] echoMessage = .ok s.echoMessage
  maxlifetime : e.read .maxlifetime 0 (seconds .invalidMaxLifetime) = .ok s.maxLifetime
  maxSession : e.read .maxSession 0 (seconds .invalidMaxSession) = .ok s.maxSession
  logfile : e.read .logfile none (logFile fopen) = .ok s.logFile
  sshPath : s.sshPath = (e .path).getD "/usr/bin/ssh".toList
  syslogPerror : s.syslogPerror = (e .debug).isSome
  pollTime : s.pollTime = lower s.maxLifetime p
  firstPollTime : s.firstPollTime = lower s.maxLifetime f
  envPort : s.envPort = (e .port).filter (· ≠ [])
  pidStartTime : s.pidStartTime = if 0 < s.maxLifetime then now else 0
  pidFileName : s.pidFileName = (e .pidfile).filter (· ≠ [])

/-- **When `get_env_args` returns, and with what.** -/
theorem getEnvArgs_eq_ok {fopen : CString → Bool} {now : ℤ} {e : Environ} {s : Settings} :
    getEnvArgs fopen now e = .ok s ↔ ∃ p f, Accepts fopen now e p f s := by
  constructor
  · intro h
    unfold getEnvArgs at h
    obtain ⟨level, hlevel, h⟩ := bind_eq_ok.1 h
    obtain ⟨poll, hpoll, h⟩ := bind_eq_ok.1 h
    obtain ⟨first, hfirst, h⟩ := bind_eq_ok.1 h
    obtain ⟨gate, hgate, h⟩ := bind_eq_ok.1 h
    obtain ⟨start, hstart, h⟩ := bind_eq_ok.1 h
    obtain ⟨message, hmessage, h⟩ := bind_eq_ok.1 h
    obtain ⟨lifetime, hlifetime, h⟩ := bind_eq_ok.1 h
    obtain ⟨session, hsession, h⟩ := bind_eq_ok.1 h
    obtain ⟨log, hlog, h⟩ := bind_eq_ok.1 h
    cases h
    exact ⟨poll, first, hlevel, hpoll, hfirst, hgate, hstart, hmessage, hlifetime, hsession, hlog,
      rfl, rfl, rfl, rfl, rfl, rfl, rfl⟩
  · rintro ⟨p, f, h⟩
    refine bind_eq_ok.2 ⟨_, h.loglevel, bind_eq_ok.2 ⟨_, h.poll, bind_eq_ok.2 ⟨_, h.firstPoll,
      bind_eq_ok.2 ⟨_, h.gatetime, bind_eq_ok.2 ⟨_, h.maxstart, bind_eq_ok.2 ⟨_, h.message,
      bind_eq_ok.2 ⟨_, h.maxlifetime, bind_eq_ok.2 ⟨_, h.maxSession,
      bind_eq_ok.2 ⟨_, h.logfile, congrArg Except.ok ?_⟩⟩⟩⟩⟩⟩⟩⟩⟩
    rw [← h.sshPath, ← h.syslogPerror, ← h.pollTime, ← h.firstPollTime, ← h.envPort,
      ← h.pidStartTime, ← h.pidFileName]

theorem read_of_none {α : Type} {e : Environ} {x : Var} (h : e x = none) (default : α)
    (f : CString → Except Exit α) : e.read x default f = .ok default := by
  rw [read, h]

theorem read_of_some {α : Type} {e : Environ} {x : Var} {s : CString} (h : e x = some s)
    (default : α) (f : CString → Except Exit α) : e.read x default f = f s := by
  rw [read, h]

/-! ### Printed numbers -/

section Printed

variable {α : Type} {parse : CString → α × CString} {bad : α → Bool} {invalid : CString → Exit}
  {s : CString}

theorem checked_of_whole (hs : s ≠ []) (h : (parse s).2 = []) :
    checked parse bad invalid s =
      if bad (parse s).1 = true then .error (invalid s) else .ok (parse s).1 := by
  simp [checked, hs, h]

theorem checked_of_rest (h : (parse s).2 ≠ []) :
    checked parse bad invalid s = .error (invalid s) := by
  rw [checked, if_pos (.inr (.inr h))]

end Printed

/-- A poll time is a positive `c_int`. -/
theorem pollTime_bounds {invalid : CString → Exit} {s : CString} {z : ℤ}
    (h : pollTime invalid s = .ok z) : 1 ≤ z ∧ z < 2 ^ 31 := by
  unfold pollTime at h
  cases hv : checked CString.strtoul (· = 0) invalid s with
  | error e =>
    rw [hv] at h
    cases h
  | ok v =>
    rw [hv] at h
    have hz : (if i32Wrap v ≤ 0 then 600 else i32Wrap v) = z := Except.ok.inj h
    have hb := i32Wrap_bounds v
    rw [← hz]
    split_ifs <;> omega

/-- A positive poll time is read back. -/
theorem pollTime_decimal (invalid : CString → Exit) {z : ℤ} (h₀ : 0 < z) (h : z < 2 ^ 31) :
    pollTime invalid (CString.decimal z) = .ok z := by
  have hz := CString.strtoul_decimal h₀.le
  have hmin : min (2 ^ 64 - 1) z.toNat = z.toNat := by omega
  rw [hmin] at hz
  have hbad : ¬ decide (z.toNat = 0) = true := by
    rw [decide_eq_true_iff]
    omega
  have hwrap : i32Wrap (z.toNat : ℤ) = z := by
    rw [Int.toNat_of_nonneg h₀.le]
    exact i32Wrap_of_bounds (by omega) h
  rw [pollTime, checked_of_whole (CString.decimal_ne_nil z) (by rw [hz]), hz, if_neg hbad]
  simp only [Except.map, hwrap]
  rw [if_neg (by omega)]

/-- A maximum number of starts is read back, unless it is below -1. -/
theorem maxStart_decimal {z : ℤ} (h₀ : -2 ^ 31 ≤ z) (h : z < 2 ^ 31) :
    maxStart (CString.decimal z) =
      if z < -1 then .error (.invalidMaxStart (CString.decimal z)) else .ok z := by
  have hz := CString.strtol_decimal z
  have hclamp : max (-2 ^ 63) (min (2 ^ 63 - 1) z) = z := by omega
  rw [hclamp] at hz
  rw [maxStart, checked_of_whole (CString.decimal_ne_nil z) (by rw [hz]), hz]
  by_cases hlt : z < -1
  · rw [if_pos hlt, if_pos (decide_eq_true hlt)]
    rfl
  · rw [if_neg hlt, if_neg (by simpa using hlt)]
    exact congrArg Except.ok (i32Wrap_of_bounds h₀ h)

/-- A gate time that is not negative is read back if it is an integer, up to `LONG_MAX`. -/
theorem gateTime_text {d : Decimal} (h : 0 ≤ d.mantissa) :
    gateTime d.text =
      if d.scale = 0 then .ok (min (2 ^ 63 - 1) d.mantissa)
      else .error (.invalidGateTime d.text) := by
  by_cases hs : d.scale = 0
  · have hz := CString.strtol_decimal d.mantissa
    rw [if_pos hs, Decimal.text_of_scale_eq_zero hs, gateTime,
      checked_of_whole (CString.decimal_ne_nil _) (by rw [hz]), hz, if_neg (by simp; omega)]
    exact congrArg Except.ok (by omega)
  · rw [if_neg hs]
    exact checked_of_rest (Decimal.strtol_text_snd hs)

/-- A duration that is not negative is read back if it is an integer, up to `ULONG_MAX`. -/
theorem seconds_text (invalid : CString → Exit) {d : Decimal} (h : 0 ≤ d.mantissa) :
    seconds invalid d.text =
      if d.scale = 0 then .ok (min (2 ^ 64 - 1) d.mantissa) else .error (invalid d.text) := by
  by_cases hs : d.scale = 0
  · have hz := CString.strtoul_decimal h
    rw [if_pos hs, Decimal.text_of_scale_eq_zero hs, seconds,
      checked_of_whole (CString.decimal_ne_nil _) (by rw [hz]), hz, if_neg Bool.false_ne_true]
    refine congrArg Except.ok ?_
    show ((min (2 ^ 64 - 1) d.mantissa.toNat : ℕ) : ℤ) = min (2 ^ 64 - 1) d.mantissa
    omega
  · rw [if_neg hs, seconds, checked_of_rest (Decimal.strtoul_text_snd hs)]
    rfl

end Environ

end Autossh
