import Autossh.Machine.Basic
import Autossh.Posix.Basic
import Autossh.Posix.Signal

/-!
# The supervisor: data model

One process runs `ssh_run` (`src/run.rs`): it forks an ssh child, hands it to `ssh_watch`
(`src/watch.rs`) and starts over.  It is modelled as a machine whose state `St` holds

* a control point `Pc`.  Every system call and every access to a variable that `sig_catch` also
  touches is a control point of its own, so that a signal can arrive between any two of them;
  straight-line code between them is one step.  Function calls are control points that carry
  what follows the call (`KillCont`, `DrainCont`, the second argument of `errlog` and `sleep`);
* the handler activations on top of it (`frames`), innermost first: the main program only moves
  when there is none;
* the globals of `src/globals.rs` and the locals of `ssh_run` and `ssh_watch` that outlive a
  step;
* the kernel's side: signal state, clock, alarm timer, and whether the child is running;
* history variables (`entryMask`, `armed`) that no step reads.

An action `Act` names the system call with its arguments and result, or the move of the
environment: a signal is sent or delivered, the child exits, time passes, the alarm expires.
-/

namespace Autossh

namespace Supervisor

/-- `P_CONTINUE`, `P_RESTART`, `P_EXITOK`, `P_EXITERR`. -/
inductive Rc
  | cont | restart | exitOk | exitErr
  deriving DecidableEq, Repr

/-- The settings `get_env_args` and `autossh_main` leave behind when they call `ssh_run`.  The
`c_double` settings are converted from integers, so they are integers here. -/
structure Cfg where
  maxStart : ℤ
  gateTime : ℤ
  pollTime : ℤ
  firstPollTime : ℤ
  maxLifetime : ℤ
  maxSession : ℤ
  pidStartTime : ℤ
  /-- `!writep.is_null() && sock != -1`. -/
  monitor : Bool
  pollTime_pos : 1 ≤ pollTime
  pollTime_lt : pollTime < 2 ^ 31
  firstPollTime_pos : 1 ≤ firstPollTime
  firstPollTime_lt : firstPollTime < 2 ^ 31
  maxLifetime_nonneg : 0 ≤ maxLifetime
  maxSession_nonneg : 0 ≤ maxSession
  pollTime_le : 0 < maxLifetime → pollTime ≤ maxLifetime
  firstPollTime_le : 0 < maxLifetime → firstPollTime ≤ maxLifetime

/-- The settings with an empty environment and `-M 0`. -/
def Cfg.default : Cfg where
  maxStart := -1
  gateTime := 30
  pollTime := 600
  firstPollTime := 600
  maxLifetime := 0
  maxSession := 0
  pidStartTime := 0
  monitor := false
  pollTime_pos := by decide
  pollTime_lt := by decide
  firstPollTime_pos := by decide
  firstPollTime_lt := by decide
  maxLifetime_nonneg := by decide
  maxSession_nonneg := by decide
  pollTime_le := by decide
  firstPollTime_le := by decide

/-- The messages logged with `errlog!` and `xerrlog!` by the functions modelled here. -/
inductive Log
  /-- "signalled to kill and restart ssh" -/
  | restartSignalled
  /-- "signalled to exit" -/
  | exitSignalled
  /-- "waiting {} seconds for port to be released" -/
  | portWait
  /-- "SSH stderr pipe closed" -/
  | stderrClosed
  /-- "received signal to exit ({})" -/
  | exitSignal (g : Sig)
  /-- "exceeded maximum time to live, shutting down" -/
  | lifetime
  /-- "ssh child stuck for {:.0} secs after stderr pipe lost; restarting" -/
  | pipeLost (secs : ℤ)
  /-- "ssh produced no stderr in {:.0} secs since start; assuming stuck in connect, restarting" -/
  | connectStuck (secs : ℤ)
  /-- "port down, restarting ssh" -/
  | portDown
  /-- One of the `xerrlog!` messages of `conn_test` and its helpers. -/
  | connFatal
  /-- "detected SSH error: remote port forwarding failed; will kill and restart ssh" -/
  | fwdFailed
  /-- "stuck-detector flagged ssh hung in a network syscall; will kill and restart ssh" -/
  | stuck
  /-- "ssh child {} did not exit after {} seconds, sending SIGKILL" -/
  | escalate (pid : ℤ)
  /-- "ssh child {} not dead after SIGKILL + {} seconds (...); abandoning" -/
  | abandoned (pid : ℤ)
  /-- "waitpid: {}" or "waitpid after SIGKILL: {}" -/
  | waitpidError (afterSigkill : Bool) (e : Errno)
  /-- "ssh exited on signal {}, restarting ssh" -/
  | signaled (sig : ℕ)
  /-- "ssh exited prematurely with status {}; {} exiting" -/
  | premature (status : ℕ)
  /-- "ssh exited with error status {}; restarting ssh" -/
  | errorRestart (status : ℕ)
  /-- "ssh exited with status {}; {} exiting" -/
  | exited (status : ℕ)
  /-- "port forwarding failed on previous attempt, enforcing minimum {} second delay" -/
  | portDelay
  /-- "starting ssh (count {})" or "starting ssh (count {} of {})" -/
  | starting (count max : ℤ)
  /-- "pipe: {}" -/
  | pipeError
  /-- "fork: {}" -/
  | forkError
  /-- "ssh child pid is {}" -/
  | childPid (pid : ℤ)
  /-- "max start count reached; exiting" -/
  | maxStart
  deriving DecidableEq, Repr

/-- The `revents` of the one descriptor polled. -/
structure Revents where
  pollin : Bool
  pollhup : Bool
  pollerr : Bool
  deriving DecidableEq, Repr

/-- Which of its two grace loops `ssh_kill` is in. -/
inductive Phase
  | term | kill
  deriving DecidableEq, Repr

/-- Control points of `ssh_kill`. -/
inductive KillPc
  /-- `if ssh_stderr_fd >= 0 { close(ssh_stderr_fd); ssh_stderr_fd = -1 }` -/
  | close
  /-- `if cchild == 0 { return }` -/
  | test
  /-- `kill(cchild, SIGTERM)` or `kill(cchild, SIGKILL)` -/
  | signal (ph : Phase)
  /-- `reap_with_grace`, after `waited` rounds -/
  | poll (ph : Phase) (waited : ℕ)
  /-- `cchild = 0` before giving up -/
  | drop
  deriving DecidableEq, Repr

/-- What follows a call of `ssh_kill`. -/
inductive KillCont
  /-- `return ret(&savedmask, rc)` -/
  | ret (rc : Rc)
  /-- the message and the `sleep(PORT_FWD_FAIL_DELAY)` before `ret(&savedmask, P_RESTART)` -/
  | portWait
  /-- the rest of `xerrlog_str`: `_exit(1)` -/
  | fatal
  deriving DecidableEq, Repr

/-- What follows a call of `check_ssh_stderr`. -/
inductive DrainCont
  /-- in `ssh_wait`, which ignores the result -/
  | wait (status : ℕ)
  /-- after `ppoll`, with its `revents` -/
  | pollin (re : Revents)
  /-- in the `SIGALRM` branch -/
  | alrm
  deriving DecidableEq, Repr

/-- Control points of `check_ssh_stderr`. -/
inductive DrainPc
  /-- the loop around `read` -/
  | read
  /-- `port_fwd_failed = 1; return 1` -/
  | flag
  deriving DecidableEq, Repr

/-- Control points of `ssh_watch` and of `ssh_wait`, which it calls. -/
inductive WatchPc
  /-- `my_poll_time = first_poll_time; sigprocmask(SIG_BLOCK, &blockmask, &savedmask)` -/
  | enter
  /-- `sigprocmask(SIG_BLOCK, &blockmask)` at the top of the loop -/
  | top
  /-- `if restart_ssh != 0` -/
  | testRestart
  /-- `sigsetjmp` returning 0 -/
  | setjmp
  /-- `waitpid(cchild, WNOHANG)` in `ssh_wait` -/
  | wait
  /-- the rest of `ssh_wait`, with the status of the reaped child -/
  | status (st : ℕ)
  /-- `if r != P_CONTINUE` -/
  | waited (rc : Rc)
  /-- `SECS_LEFT = clear_alarm_timer()`, defaulting to `my_poll_time` -/
  | takeAlarm
  /-- the lifetime test and the `max_session` clamp on `SECS_LEFT` -/
  | clamp
  /-- `dolongjmp = 1` -/
  | setJmp
  /-- `alarm(SECS_LEFT)` -/
  | arm
  /-- `if exit_signalled != 0` -/
  | testExit
  /-- `dolongjmp = 0` on the way out -/
  | dropJmp
  /-- about to call `ppoll` or `sigsuspend` -/
  | block
  /-- inside `ppoll` or `sigsuspend`; `old` is the mask it puts back -/
  | asleep (old : SigSet)
  /-- still inside the call, which a caught signal has ended -/
  | woken
  /-- `dolongjmp = 0` after the call -/
  | wake (re : Revents)
  /-- `if revents & POLLIN` -/
  | pollin (re : Revents)
  /-- `if revents & (POLLHUP | POLLERR)` and not `POLLIN` -/
  | pollhup (re : Revents)
  /-- `close(ssh_stderr_fd)` after the pipe was lost -/
  | closeFd
  /-- `if pipe_lost_time == 0` -/
  | pipeLost
  /-- `siglongjmp` landed with this value: `sigprocmask(SIG_SETMASK, &savedmask)` -/
  | caught (v : Sig)
  /-- `match val` -/
  | dispatch (v : Sig)
  /-- `SIGALRM`: `exceeded_lifetime()` -/
  | alrm
  /-- the two `max_session` watchdogs -/
  | watchdog
  /-- `conn_test` -/
  | conn
  /-- `ret(&savedmask, rc)`: `sigprocmask(SIG_SETMASK, &savedmask)` -/
  | ret (rc : Rc)
  /-- the `return` itself -/
  | leave (rc : Rc)

/-- Control points of `ssh_run` and of `grace_time`, which it calls. -/
inductive RunPc
  /-- `set_exit_sig_handler`, with the signals still to install -/
  | setExit (l : List Sig)
  /-- the loop condition -/
  | head
  /-- `exceeded_lifetime()` at the loop head -/
  | lifetime
  /-- `restart_ssh = 0; start_count += 1` -/
  | clearRestart
  /-- the back-off of `grace_time` -/
  | grace
  /-- `if port_fwd_failed != 0` in `grace_time` -/
  | portDelay
  /-- `port_fwd_failed = 0` after the delay -/
  | portDelayDone
  /-- `if exit_signalled != 0` -/
  | testExit
  /-- `time(&start_time)` and the resets -/
  | stamp
  | pipe
  | fork
  /-- `cchild = 0` after a failed `fork` -/
  | forkFailed
  /-- close the read end after a failed `fork` -/
  | closeRd
  /-- close the write end after a failed `fork` -/
  | closeWr
  /-- close the write end in the parent -/
  | parentClose
  /-- `ssh_stderr_fd = stderr_pipe[0]` -/
  | parentFd
  /-- `set_sig_handlers`, with the signals still to install -/
  | setHandlers (l : List Sig)
  /-- `dolongjmp = 0` after `ssh_watch` -/
  | clearJmp (rc : Rc)
  /-- `clear_alarm_timer()` after `ssh_watch` -/
  | clearAlarm (rc : Rc)
  /-- `unset_sig_handlers`, with the signals still to reset -/
  | unsetHandlers (rc : Rc) (l : List Sig)
  /-- close what is left of the stderr pipe -/
  | closeStderr (rc : Rc)
  /-- `if retval == P_EXITOK || retval == P_EXITERR` -/
  | testRc (rc : Rc)
  | ret (rc : Rc)

/-- Control points. -/
inductive Pc
  | run (p : RunPc)
  | watch (p : WatchPc)
  | drain (p : DrainPc) (k : DrainCont)
  | kill (p : KillPc) (k : KillCont)
  /-- inside `errlog!`, then `k` -/
  | errlog (m : Log) (k : Pc)
  /-- inside `sleep` with `left` seconds to go, then `k` -/
  | sleep (left : ℕ) (k : Pc)
  /-- `_exit(1)` -/
  | exit
  /-- the process is gone, or `ssh_run` has returned -/
  | gone

/-- Control points of one activation of `sig_catch`. -/
inductive HandlerPc
  | enter
  /-- `exit_signalled = 1` -/
  | setExit
  /-- `if dolongjmp != 0` -/
  | testJmp
  /-- `dolongjmp = 0` -/
  | clearJmp
  /-- `siglongjmp(jumpbuf, sig)` -/
  | jump
  | leave
  deriving DecidableEq, Repr

/-- An activation of `sig_catch`: the signal, the mask its return restores, and where it is. -/
structure Frame where
  sig : Sig
  saved : SigSet
  pc : HandlerPc

/-- The ssh child as the kernel sees it. -/
inductive ChildState
  | none
  | running
  /-- terminated with this status and not yet reaped -/
  | zombie (st : ℕ)
  deriving DecidableEq, Repr

/-- The state of the supervisor process. -/
structure St where
  pc : Pc
  frames : List Frame
  sg : SigState
  cchild : ℤ
  sshStderrFd : ℤ
  startCount : ℤ
  startTime : ℤ
  lastStderrTime : ℤ
  pipeLostTime : ℤ
  portFwdFailed : Bool
  exitSignalled : Bool
  restartSsh : Bool
  dolongjmp : Bool
  /-- `SECS_LEFT` of `ssh_watch`. -/
  secsLeft : ℤ
  /-- `TRIES` of `grace_time`. -/
  tries : ℤ
  myPollTime : ℤ
  savedmask : SigSet
  /-- The mask stored in `jumpbuf`. -/
  jumpbuf : SigSet
  stderrPipe : ℤ × ℤ
  /-- The clock `time(2)` reads. -/
  now : ℤ
  /-- Seconds left on the alarm timer. -/
  timer : Option ℕ
  child : ChildState
  /-- A handler has run since the current call was entered. -/
  interrupted : Bool
  /-- History: the mask when `ssh_watch` was called. -/
  entryMask : SigSet
  /-- History: the argument of the last `alarm(2)` that set a timer. -/
  armed : ℕ

/-- Where a `waitpid` comes from. -/
inductive Caller
  | sshWait | sshKill
  deriving DecidableEq, Repr

/-- What `conn_test` does. -/
inductive ConnRes
  | up
  | down
  /-- it calls `xerrlog!` -/
  | fatal
  deriving DecidableEq, Repr

/-- The actions of the supervisor and of its environment. -/
inductive Act
  /-- A step without an observable system call. -/
  | tau
  | fork (r : ℤ)
  | waitpid (f : Caller) (p : ℤ) (r : WaitRes)
  | kill (p : ℤ) (ph : Phase)
  /-- `alarm(v)`, which returned `old`. -/
  | alarm (v old : ℕ)
  | pipe (r : Option (ℕ × ℕ))
  | close (fd : ℤ)
  /-- `read` on the stderr pipe: the bytes, or nothing (end of file or error). -/
  | read (fd : ℤ) (r : Option (List UInt8))
  /-- `ppoll` returned with these events. -/
  | poll (re : Revents)
  | conn (r : ConnRes)
  | longjmp (g : Sig)
  /-- `ssh_watch` returns. -/
  | watchRet (rc : Rc)
  /-- `ssh_run` returns. -/
  | runRet (rc : Rc)
  /-- `_exit(1)`. -/
  | exit
  /-- A signal is sent to the process. -/
  | raise (g : Sig)
  /-- A pending signal is delivered. -/
  | deliver (g : Sig)
  /-- The child terminates with this status. -/
  | childExit (st : ℕ)
  /-- The clock moves by `dw` seconds and the timers by `dt`. -/
  | elapse (dw : ℤ) (dt : ℕ)
  /-- The alarm timer expires. -/
  | timerFire
  deriving DecidableEq

/-- What a process inherits: its signal mask, pending and ignored signals, the time and a
pending alarm. -/
structure Inherited where
  mask : SigSet
  pending : SigSet
  ignored : SigSet
  now : ℤ
  timer : Option ℕ

/-- Nothing blocked, pending or ignored, no alarm, at time 0. -/
def Inherited.clean : Inherited := ⟨.empty, .empty, .empty, 0, none⟩

/-- The state in which `ssh_run` is called, with the globals as `src/globals.rs` initialises
them. -/
def St.init (i : Inherited) : St where
  pc := .run (.setExit [.term, .int])
  frames := []
  sg := ⟨i.mask, i.pending, fun g => if i.ignored g then .ign else .dfl⟩
  cchild := 0
  sshStderrFd := -1
  startCount := 0
  startTime := 0
  lastStderrTime := 0
  pipeLostTime := 0
  portFwdFailed := false
  exitSignalled := false
  restartSsh := false
  dolongjmp := false
  secsLeft := 0
  tries := 0
  myPollTime := 0
  savedmask := .empty
  jumpbuf := .empty
  stderrPipe := (-1, -1)
  now := i.now
  timer := i.timer
  child := .none
  interrupted := false
  entryMask := i.mask
  armed := 0

/-- Continue at `p`. -/
def St.goto (s : St) (p : Pc) : St := { s with pc := p }

/-- `PORT_FWD_FAIL_DELAY`. -/
def portFwdFailDelay : ℕ := 5

/-! ### Matching actions

A control point that makes the call `b` and goes on in the state `t` is `on b t`; one whose
call has a result first reads the result off the action. -/

/-- The result of `fork`. -/
def Act.fork? : Act → Option ℤ
  | .fork r => some r
  | _ => none

/-- The result of a `waitpid` of the function `f` for `p`. -/
def Act.waitpid? (f : Caller) (p : ℤ) : Act → Option WaitRes
  | .waitpid f' p' r => if f' = f ∧ p' = p then some r else none
  | _ => none

/-- The result of `pipe`. -/
def Act.pipe? : Act → Option (Option (ℕ × ℕ))
  | .pipe r => some r
  | _ => none

/-- The result of a `read` on `fd`. -/
def Act.read? (fd : ℤ) : Act → Option (Option (List UInt8))
  | .read fd' r => if fd' = fd then some r else none
  | _ => none

/-- The events `ppoll` returned. -/
def Act.poll? : Act → Option Revents
  | .poll re => some re
  | _ => none

/-- What `conn_test` did. -/
def Act.conn? : Act → Option ConnRes
  | .conn r => some r
  | _ => none

section

variable {a : Act}

@[simp] theorem fork?_eq_some {r : ℤ} : a.fork? = some r ↔ a = .fork r := by
  cases a <;> simp [Act.fork?]

@[simp] theorem waitpid?_eq_some {f : Caller} {p : ℤ} {r : WaitRes} :
    a.waitpid? f p = some r ↔ a = .waitpid f p r := by
  cases a <;> simp [Act.waitpid?, and_assoc]

@[simp] theorem pipe?_eq_some {r : Option (ℕ × ℕ)} : a.pipe? = some r ↔ a = .pipe r := by
  cases a <;> simp [Act.pipe?]

@[simp] theorem read?_eq_some {fd : ℤ} {r : Option (List UInt8)} :
    a.read? fd = some r ↔ a = .read fd r := by
  cases a <;> simp [Act.read?]

@[simp] theorem poll?_eq_some {re : Revents} : a.poll? = some re ↔ a = .poll re := by
  cases a <;> simp [Act.poll?]

@[simp] theorem conn?_eq_some {r : ConnRes} : a.conn? = some r ↔ a = .conn r := by
  cases a <;> simp [Act.conn?]

end

end Supervisor

end Autossh
