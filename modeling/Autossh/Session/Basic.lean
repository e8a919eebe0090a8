import Autossh.Machine.Basic
import Autossh.Posix.Process

/-!
# The embeddable session: data model

`src/api.rs` gives a host process a handle on one supervisor: `autossh_session_start` forks it,
`autossh_session_stop` kills and reaps it, `autossh_session_state` reaps it when it has exited.
The three functions are called from any threads of the host.

* `World` is what they share: the fields of `struct autossh_session` they access, and the process
  table;
* `Pc` is where one call stands.  Every access to the atomic `pid`, every group of plain writes to
  the session and every system call is a control point of its own.  A control point that is only
  reached with a positive pid carries it as a `Pid`;
* `Sys` is what one step of a call does: the system call with its arguments and result, or an
  access to the session.
-/

namespace Autossh

namespace Session

/-- `AUTOSSH_STATE_INIT` and so on. -/
inductive State
  | init | starting | running | exited | stopped | error
  deriving DecidableEq, Repr

/-- The value of the constant. -/
def State.code : State → ℤ
  | init => 0
  | starting => 1
  | running => 2
  | exited => 3
  | stopped => 4
  | error => 5

/-- The texts `last_error` can hold. -/
inductive Msg
  /-- "" -/
  | empty
  /-- "session is already started" -/
  | alreadyStarted
  /-- "configuration contains non-UTF-8 text" -/
  | nonUtf8
  /-- "resolve {host}:{port}: {e}" or "resolve {host}:{port}: no addresses" -/
  | resolve (port : ℕ)
  /-- "bind {host}:0: {e}" -/
  | bind
  /-- "read local address: {e}" -/
  | localAddress
  /-- "could not reserve adjacent monitor ports" -/
  | noAdjacentPorts
  /-- "fork failed" -/
  | forkFailed
  /-- "autossh supervisor exited early with status {status}" -/
  | exitedEarly (status : ℕ)
  /-- "timed out waiting for local tunnel listener on {host}:{port}" -/
  | timedOut (port : ℕ)
  deriving DecidableEq, Repr

/-- The fields of `SessionConfig` the calls read. -/
structure Cfg where
  /-- The text of `bind_host`, if it is UTF-8. -/
  bindHost : Option String
  localPort : ℕ
  monitorPort : ℕ
  monitorDisabled : Bool
  deriving DecidableEq, Repr

/-- A tunnel on a given port, without monitoring. -/
def Cfg.plain : Cfg := ⟨some "127.0.0.1", 1, 0, true⟩

/-- Why a listener could not be opened. -/
inductive BindErr
  | resolve | bind | localAddress
  deriving DecidableEq, Repr

/-- The message for it, the listener being for `port`. -/
def BindErr.msg (port : ℕ) : BindErr → Msg
  | resolve => .resolve port
  | bind => .bind
  | localAddress => .localAddress

/-- The outcome of `bind_addr`, `TcpListener::bind` and `local_addr`. -/
inductive Bound
  | port (p : ℕ)
  | err (e : BindErr)
  deriving DecidableEq, Repr

/-- The outcome is possible for a listener on `port`.  With 0 the kernel chooses one, and only
then is it read back. -/
def Bound.fits (port : ℕ) : Bound → Bool
  | .port p => if port = 0 then 0 < p ∧ p < 2 ^ 16 else p = port
  | .err e => port = 0 ∨ e ≠ .localAddress

/-- The signals `autossh_session_stop` sends. -/
inductive KillSig
  | sigterm | sigkill
  deriving DecidableEq, Repr

/-- What a step of a call does. -/
inductive Sys
  /-- an access to the session -/
  | tau
  /-- a listener is opened on `port`, and its port read if that was 0 -/
  | listen (port : ℕ) (r : Bound)
  /-- the address of the tunnel's listener is resolved -/
  | resolve (ok : Bool)
  | fork (r : ℤ)
  | waitpid (p : ℤ) (nohang : Bool) (r : Waited)
  | kill (p : ℤ) (g : KillSig)
  /-- the clock is compared with the deadline of `wait_for_listener` -/
  | expired (b : Bool)
  /-- `connect_timeout` to the tunnel's listener -/
  | connect (ok : Bool)
  | ret (v : ℤ)
  deriving DecidableEq, Repr

/-- A pid of a single process. -/
abbrev Pid := {p : ℤ // 0 < p}

/-- Control points of `autossh_session_start`, `wait_for_listener` apart. -/
inductive StartPc
  /-- `session.pid.load` -/
  | load
  /-- `string_from_cstring(&session.config.bind_host)` -/
  | host
  /-- `session.config.local_port == 0` -/
  | localPort
  /-- `reserve_port` -/
  | reserve
  /-- `!session.config.monitor_disabled && session.config.monitor_port == 0` -/
  | monitorPort
  /-- `reserve_monitor_port` with `n` rounds left -/
  | first (n : ℕ)
  /-- its attempt on the port after `p` -/
  | second (n p : ℕ)
  /-- `session.state = AUTOSSH_STATE_STARTING` -/
  | starting
  | fork
  /-- `session.pid.store(pid)` -/
  | store (p : Pid)
  /-- `session.state = AUTOSSH_STATE_RUNNING` -/
  | running
  deriving DecidableEq

/-- Control points of `wait_for_listener`. -/
inductive ListenPc
  | resolve
  /-- `Instant::now() < deadline` -/
  | deadline
  /-- `session.pid.load` -/
  | load
  /-- `child_exited(pid)` -/
  | poll (p : ℤ)
  | connect
  deriving DecidableEq

/-- Control points of `autossh_session_stop`. -/
inductive StopPc
  /-- `session.pid.swap(0)` -/
  | swap
  /-- `kill_pid(pid, SIGTERM)` -/
  | term (p : Pid)
  /-- the polling loop with `n` rounds left -/
  | poll (n : ℕ) (p : Pid)
  /-- `kill_pid(pid, SIGKILL)` -/
  | kill (p : Pid)
  /-- the blocking `waitpid` -/
  | wait (p : Pid)
  /-- `session.state = AUTOSSH_STATE_STOPPED` -/
  | finish
  deriving DecidableEq

/-- Control points of `autossh_session_state`. -/
inductive StatePc
  /-- `session.pid.load` -/
  | load
  /-- `child_exited(pid)` -/
  | poll (p : Pid)
  /-- `session.pid.compare_exchange(pid, 0)` -/
  | cas (p : Pid)
  /-- `session.state = AUTOSSH_STATE_EXITED` -/
  | exited
  /-- the result is read -/
  | read
  deriving DecidableEq

/-- Where a call stands. -/
inductive Pc
  /-- not made yet -/
  | idle
  | start (p : StartPc)
  | listen (p : ListenPc)
  /-- in `autossh_session_stop`; with a message, on the failure path of `autossh_session_start`,
  which goes on with `set_error` -/
  | stop (p : StopPc) (k : Option Msg)
  | state (p : StatePc)
  /-- `set_error` -/
  | setError (m : Msg)
  | ret (v : ℤ)
  | done (v : ℤ)
  deriving DecidableEq

/-- The three functions. -/
inductive Fn
  | start | stop | state
  deriving DecidableEq, Repr

/-- Where a call of the function begins. -/
def Fn.entry : Fn → Pc
  | start => .start .load
  | stop => .stop .swap none
  | state => .state .load

/-- What the calls share. -/
structure World where
  pid : ℤ
  state : State
  lastError : Msg
  localPort : ℕ
  monitorPort : ℕ
  procs : ProcTable

/-- The world and the calls made so far: the calls are numbered, `count` is the next number. -/
structure St where
  world : World
  count : ℕ
  pcs : ℕ → Pc

/-- A call is made, a call takes a step, or the environment moves. -/
inductive Act
  | call (f : Fn)
  | step (t : ℕ) (y : Sys)
  | env (m : Move)
  deriving DecidableEq, Repr

/-- `autossh_session_new`.  Processes of the host that exist already appear by `Move.spawn`. -/
def St.init (c : Cfg) : St where
  world :=
    { pid := 0, state := .init, lastError := .empty, localPort := c.localPort
      monitorPort := c.monitorPort, procs := fun _ => none }
  count := 0
  pcs := fun _ => .idle

namespace Sys

variable {y : Sys}

/-- The outcome of opening a listener on `port`. -/
def listen? (port : ℕ) : Sys → Option Bound
  | listen q r => if q = port ∧ r.fits port = true then some r else none
  | _ => none

/-- Whether the address could be resolved. -/
def resolve? : Sys → Option Bool
  | resolve ok => some ok
  | _ => none

/-- The result of `fork`. -/
def fork? : Sys → Option ℤ
  | fork r => some r
  | _ => none

/-- The result of `waitpid`. -/
def waitpid? (p : ℤ) (nohang : Bool) : Sys → Option Waited
  | waitpid q b r => if q = p ∧ b = nohang then some r else none
  | _ => none

/-- Whether the deadline has passed. -/
def expired? : Sys → Option Bool
  | expired b => some b
  | _ => none

/-- Whether the connection was accepted. -/
def connect? : Sys → Option Bool
  | connect ok => some ok
  | _ => none

@[simp] theorem fork?_eq_some {r : ℤ} : y.fork? = some r ↔ y = .fork r := by
  cases y <;> simp [fork?]

@[simp] theorem waitpid?_eq_some {p : ℤ} {nohang : Bool} {r : Waited} :
    y.waitpid? p nohang = some r ↔ y = .waitpid p nohang r := by
  cases y <;> simp [waitpid?, and_assoc]

end Sys

/-- `waitpid(p, &status, nohang ? WNOHANG : 0)`; the call goes on at `f r` with its result `r`. -/
def World.waitpid (w : World) (p : ℤ) (nohang : Bool) (y : Sys) (f : Waited → Pc) :
    Option (World × Pc) :=
  (y.waitpid? p nohang).bind fun r =>
    (w.procs.waitpid p nohang r).map fun k => ({ w with procs := k }, f r)

theorem World.waitpid_eq_some {w w' : World} {p : ℤ} {nohang : Bool} {y : Sys} {f : Waited → Pc}
    {p' : Pc} : w.waitpid p nohang y f = some (w', p') ↔
      ∃ r k, y = .waitpid p nohang r ∧ w.procs.waitpid p nohang r = some k ∧
        w' = { w with procs := k } ∧ p' = f r := by
  simp only [World.waitpid, Option.bind_eq_some_iff, Sys.waitpid?_eq_some, Option.map_eq_some_iff,
    Prod.mk.injEq, eq_comm (b := w'), eq_comm (b := p'), exists_and_left]

end Session

end Autossh
