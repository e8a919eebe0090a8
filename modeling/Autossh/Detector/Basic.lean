import Autossh.Machine.Basic
import Autossh.Posix.Basic
import Autossh.Posix.CString
import Mathlib.Logic.Function.Basic

/-!
# The stuck detector (`ssh-stuck-detector/src/lib.rs`)

A library that is loaded into ssh and hooks five network functions.  Every function has a *tracker*
that holds the time at which it was entered; a monitor thread scans the trackers once a second,
writes a line about every call that is stuck, and in the end aborts the process.

* `Tracker.enter`, `Tracker.leave` : what a hooked function does before and after the real one;
* `Tracker.scanned`, `scanLoop` : one scan of `monitor_main`;
* `detector` : the process, with any number of threads.  `enter` and `leave` of a tracker and a scan
  are one step each.  A thread returns from its calls in the reverse of the order it made them in;
  between threads there is no order.  The label of a scan holds what it writes.
-/

namespace Autossh

namespace Detector

/-- The hooked functions. -/
inductive Hook
  | connect | getaddrinfo | recv | recvfrom | recvmsg
  deriving DecidableEq, Repr

/-- `TRACKERS`. -/
def trackers : List Hook := [.connect, .getaddrinfo, .recv, .recvfrom, .recvmsg]

theorem mem_trackers (h : Hook) : h ∈ trackers := by
  cases h <;> decide

/-! ### Trackers -/

/-- The fields of a `Tracker` that change. -/
structure Tracker where
  /-- 0 when the function is idle. -/
  startSec : ℤ
  lastWarnSec : ℤ
  deriving DecidableEq, Repr

namespace Tracker

/-- `Tracker::new`. -/
def new : Tracker := ⟨0, 0⟩

/-- `Tracker::enter` at the time `now`: what it returns, and the tracker after it. -/
def enter (now : ℤ) (t : Tracker) : ℤ × Tracker :=
  (t.startSec, if t.startSec = 0 then { t with startSec := now } else t)

/-- `Tracker::leave`. -/
def leave (prev : ℤ) (t : Tracker) : Tracker :=
  if prev = 0 then ⟨0, 0⟩ else t

end Tracker

/-! ### The monitor -/

/-- `DEFAULT_THRESHOLD_SECS`. -/
def defaultThresholdSecs : ℤ := 30

/-- `THRESHOLD_SECS` after `read_threshold`; the argument is `SSH_STUCK_THRESHOLD`. -/
def readThreshold : Option CString → ℤ
  | none => defaultThresholdSecs
  | some raw =>
    let v := CString.strtol10 raw
    if 0 < v.1 ∧ v.2 = [] then v.1 else defaultThresholdSecs

/-- What the monitor writes to stderr. -/
inductive Out
  /-- `warn_stderr(t.name, elapsed)` -/
  | stuck (h : Hook) (elapsed : ℤ)
  /-- "ssh-stuck-detector: aborting stuck process", before `_exit(1)` -/
  | aborting
  deriving DecidableEq, Repr

variable (threshold now : ℤ)

namespace Tracker

variable (t : Tracker)

/-- `now - start`. -/
def elapsed : ℤ := i64Wrap (now - t.startSec)

/-- The call has been in flight for `threshold` seconds: neither `continue` is taken. -/
def stuck : Bool := t.startSec ≠ 0 ∧ ¬t.elapsed now < threshold

/-- A line is written. -/
def warns : Bool := t.stuck threshold now ∧ threshold ≤ i64Wrap (now - t.lastWarnSec)

/-- The process is given up. -/
def aborts : Bool := t.stuck threshold now ∧ i64Wrap (threshold * 2) ≤ t.elapsed now

/-- The tracker after its turn in a scan. -/
def scanned : Tracker := if t.warns threshold now then { t with lastWarnSec := now } else t

end Tracker

/-- What is written about the tracker. -/
def line (h : Hook) (t : Tracker) : List Out :=
  if t.warns threshold now then [.stuck h (t.elapsed now)] else []

/-- What a scan leaves: the trackers, what it has written, and whether it ends the process. -/
structure Scan where
  tracker : Hook → Tracker
  out : List Out
  ended : Bool

/-- The loop of `monitor_main` over the trackers `hs`. -/
def scanLoop : List Hook → (Hook → Tracker) → Scan
  | [], ts => ⟨ts, [], false⟩
  | h :: hs, ts =>
    let ts' := Function.update ts h ((ts h).scanned threshold now)
    if (ts h).aborts threshold now then ⟨ts', line threshold now h (ts h) ++ [.aborting], true⟩
    else
      let r := scanLoop hs ts'
      { r with out := line threshold now h (ts h) ++ r.out }

/-! ### The process -/

variable {τ : Type}

/-- A hooked call that has not returned, with what `enter` gave it. -/
structure Call (τ : Type) where
  thread : τ
  hook : Hook
  prev : ℤ
  deriving DecidableEq, Repr

/-- The process. -/
structure St (τ : Type) where
  tracker : Hook → Tracker
  /-- The calls in flight, the latest first. -/
  calls : List (Call τ)
  /-- `_exit(1)`. -/
  ended : Bool

/-- Before the first call. -/
def St.init : St τ := ⟨fun _ => .new, [], false⟩

/-- A step of the process. -/
inductive Act (τ : Type)
  /-- a thread calls the function, at the time `now` -/
  | enter (t : τ) (h : Hook) (now : ℤ)
  /-- a thread returns from its last call, which is one of the function -/
  | leave (t : τ) (h : Hook)
  /-- a scan at the time `now` -/
  | scan (now : ℤ) (out : List Out)
  deriving DecidableEq, Repr

section

variable [DecidableEq τ]

/-- The last call of a thread, and the calls in flight without it. -/
def lastOf (t : τ) : List (Call τ) → Option (Call τ × List (Call τ))
  | [] => none
  | c :: cs => if c.thread = t then some (c, cs) else (lastOf t cs).map fun x => (x.1, c :: x.2)

/-- One step of a process that has not ended. -/
def step (s : St τ) : Act τ → Option (St τ)
  | .enter t h now =>
    some { s with
      tracker := Function.update s.tracker h ((s.tracker h).enter now).2
      calls := ⟨t, h, ((s.tracker h).enter now).1⟩ :: s.calls }
  | .leave t h =>
    (lastOf t s.calls).bind fun x =>
      if x.1.hook = h then
        some { s with
          tracker := Function.update s.tracker h ((s.tracker h).leave x.1.prev)
          calls := x.2 }
      else none
  | .scan now out =>
    on (scanLoop threshold now trackers s.tracker).out
      { s with
        tracker := (scanLoop threshold now trackers s.tracker).tracker
        ended := (scanLoop threshold now trackers s.tracker).ended } out

/-- The process: nothing happens after `_exit`. -/
def detector : Machine (St τ) (Act τ) where
  next s a := if s.ended then none else step threshold s a

end

end Detector

end Autossh
