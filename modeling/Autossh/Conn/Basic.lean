import Autossh.Interact.Basic
import Autossh.Posix.Basic
import Autossh.Posix.Decimal

/-!
# The network monitor

`conn_test` of `conn.rs` sends a message through the tunnel and waits for it to come back: on a
connection it accepts on the listening socket, or, in echo mode, on the connection it sent the
message on.  It is a program that makes system calls; nothing is assumed of their results beyond
their types.

* `Call` lists the system calls and the log lines, `Answer` what each of them gives back;
* `connRemote`, `connPollForAccept`, `connSendAndReceive` are the helpers, `connAttempt` is the body
  of the retry loop and `connTest` the whole;
* a read gives back at most as many bytes as were asked for, a write takes at most as many as were
  offered: both are part of the answer's type.
-/

namespace Autossh

namespace Conn

/-! ### System calls -/

/-- A C string: bytes, none of which is NUL. -/
abbrev Text := { b : List UInt8 // (0 : UInt8) ∉ b }

/-- An entry of `poll`'s array: the descriptor and the events asked for. -/
structure PollFd where
  fd : ℤ
  pollin : Bool
  pollout : Bool
  deriving DecidableEq, Repr

/-- The bits of `revents` the source looks at. -/
structure Revents where
  pollin : Bool := false
  pollout : Bool := false
  pollhup : Bool := false
  deriving DecidableEq, Repr, Inhabited

/-- The bits the reading side waits for. -/
def Revents.readable (r : Revents) : Bool := r.pollin || r.pollhup

/-- The result of `poll`: 0, -1, or the `revents` of the entries (no bit in those left out). -/
inductive PollRes
  | timeout
  | error (e : Errno)
  | ready (revents : List Revents)
  deriving DecidableEq, Repr

/-- The log lines; what `strerror` makes of the last `errno` is left out of `pollError`. -/
inductive Msg
  | gai (code : ℤ)
  | socket (e : Errno)
  | connect (host port : CString) (e : Errno)
  | acceptTimeout
  | acceptPoll (e : Errno)
  | accept (e : Errno)
  | tooManyLoops
  | tried (n : ℕ)
  | bufferOverflow
  | connectionOk
  | notWhatISent (w r : List UInt8)
  | ioTimeout
  | pollError
  deriving DecidableEq, Repr

/-- What `conn.rs` calls.  `xerrlog` logs and ends the process. -/
inductive Call
  | uname
  | random
  | getpid
  | getaddrinfo (host port : CString)
  | socket
  | connect (fd : ℤ)
  | poll (fds : List PollFd) (timeout : ℤ)
  | accept (fd : ℤ)
  | read (fd : ℤ) (n : ℕ)
  | write (fd : ℤ) (b : List UInt8)
  | shutdown (fd : ℤ)
  | close (fd : ℤ)
  | sleep (seconds : ℕ)
  | errlog (m : Msg)
  | xerrlog (m : Msg)
  deriving DecidableEq, Repr

/-- The results of the calls, as far as the source looks at them. -/
abbrev Answer : Call → Type
  | .uname => Text
  | .random => ℤ
  | .getpid => ℤ
  | .getaddrinfo _ _ => Except ℤ Unit
  | .socket => Except Errno ℕ
  | .connect _ => Except Errno Unit
  | .poll _ _ => PollRes
  | .accept _ => Except Errno ℕ
  | .read _ n => Except Errno { b : List UInt8 // b.length ≤ n }
  | .write _ b => Except Errno (Fin (b.length + 1))
  | .shutdown _ => Unit
  | .close _ => Unit
  | .sleep _ => Unit
  | .errlog _ => Unit
  | .xerrlog _ => Empty

/-- A program of system calls. -/
abbrev Io (α : Type) := Prog Answer α

/-- Log a line. -/
def errlog (m : Msg) : Io Unit := .call (.errlog m) .ret

/-- Log a line and exit. -/
def xerrlog {α : Type} (m : Msg) : Io α := .call (.xerrlog m) Empty.elim

/-- `EAGAIN`. -/
def eagain : Errno := .other 11

/-- The failures of a transfer after which the source polls again. -/
def again (e : Errno) : Bool := e = .eintr || e = eagain

/-! ### The connections -/

/-- What `conn_test` is called with, and the globals it reads. -/
structure Probe where
  /-- The listening socket, or `NO_RD_SOCK`. -/
  sock : ℤ
  host : CString
  port : CString
  /-- Whether the static `RES` of `conn_remote` has been set by an earlier call. -/
  resolved : Bool
  netTimeout : ℤ
  /-- `__progname`, which may be null. -/
  progname : Option Text
  echoMessage : Text

/-- `NO_RD_SOCK`. -/
def noRdSock : ℤ := -2

variable (p : Probe)

/-- `conn_addr`. -/
def connAddr : Io Unit :=
  .call (.getaddrinfo p.host p.port) fun
    | .error e => xerrlog (.gai e)
    | .ok _ => .ret ()

/-- `conn_remote`: a connected socket, or -1. -/
def connRemote : Io ℤ :=
  (if p.resolved then .ret () else connAddr p).bind fun _ =>
    .call .socket fun
      | .error e => xerrlog (.socket e)
      | .ok sock => .call (.connect sock) fun
        | .error e => (errlog (.connect p.host p.port e)).bind fun _ =>
          .call (.close sock) fun _ => .ret (-1)
        | .ok _ => .ret sock

/-- `conn_poll_for_accept`: an accepted connection, -1 after a timeout or an error, and 0 when
`poll` reports something other than `POLLIN`. -/
def connPollForAccept : Io ℤ :=
  .call (.poll [⟨p.sock, true, false⟩] p.netTimeout) fun
    | .timeout => (errlog .acceptTimeout).bind fun _ => .ret (-1)
    | .error e => (errlog (.acceptPoll e)).bind fun _ => .ret (-1)
    | .ready revents =>
      if (revents.getD 0 {}).pollin then
        .call (.accept p.sock) fun
          | .error e => (errlog (.accept e)).bind fun _ => .ret (-1)
          | .ok rd => .ret rd
      else .ret 0

/-! ### The exchange -/

/-- The descriptors of `conn_send_and_receive`. -/
inductive Ends
  /-- `ntopoll` is 2: the message comes back on a connection of its own. -/
  | accepted (rd wd : ℤ)
  /-- `ntopoll` is 1: one descriptor for both directions. -/
  | echo (wd : ℤ)
  deriving DecidableEq, Repr

/-- `pfds[ird].fd`. -/
def Ends.rd : Ends → ℤ
  | accepted rd _ => rd
  | echo wd => wd

/-- `pfds[iwr].fd`. -/
def Ends.wd : Ends → ℤ
  | accepted _ wd => wd
  | echo wd => wd

/-- What `poll` is asked: the writing end is left out once nothing is unsent. -/
def Ends.pollfds : Ends → Bool → List PollFd
  | accepted rd wd, unsent => ⟨rd, true, false⟩ :: if unsent then [⟨wd, false, true⟩] else []
  | echo wd, unsent => [⟨wd, true, unsent⟩]

/-- The `revents` of the writing end. -/
def Ends.revWr (revents : List Revents) : Ends → Revents
  | accepted _ _ => revents.getD 1 {}
  | echo _ => revents.getD 0 {}

/-- The `revents` of the reading end. -/
def Ends.revRd (revents : List Revents) : Revents := revents.getD 0 {}

/-- The variables of `conn_send_and_receive`. -/
structure Xfer where
  /-- The `wleft` bytes at `wp_cur`. -/
  wp : List UInt8
  /-- The buffer at `rp`. -/
  rbuf : List UInt8
  /-- Where `rp_cur` stands in it. -/
  rp : ℕ
  rleft : ℕ
  deriving DecidableEq, Repr

/-- The variables after `b` has been read. -/
def Xfer.store (x : Xfer) (b : List UInt8) : Xfer where
  wp := x.wp
  rbuf := x.rbuf.take x.rp ++ b ++ x.rbuf.drop (x.rp + b.length)
  rp := x.rp + b.length
  rleft := x.rleft - b.length

/-- The `while wleft > 0` loop: the bytes it leaves, or `none` for `return -1`.  Every turn but the
last takes bytes away, so there are at most as many turns as bytes. -/
def writeLoop (fd : ℤ) : ℕ → List UInt8 → Io (Option (List UInt8))
  | 0, wp => .ret (some wp)
  | n + 1, wp =>
    if wp = [] then .ret (some wp)
    else .call (.write fd wp) fun
      | .ok nwrite => if nwrite.val = 0 then .ret (some []) else writeLoop fd n (wp.drop nwrite)
      | .error e => if again e then .ret (some wp) else .ret none

/-- The `while rleft > 0` loop around `read`. -/
def readLoop (fd : ℤ) : ℕ → Xfer → Io (Option Xfer)
  | 0, x => .ret (some x)
  | n + 1, x =>
    if x.rleft = 0 then .ret (some x)
    else .call (.read fd x.rleft) fun
      | .ok b => if b.val = [] then .ret (some { x with rleft := 0 }) else readLoop fd n (x.store b)
      | .error e => if again e then .ret (some x) else .ret none

/-- The half of a round that writes. -/
def sendPart (e : Ends) (revents : List Revents) (x : Xfer) : Io (Option Xfer) :=
  if x.wp ≠ [] ∧ (e.revWr revents).pollout then
    (writeLoop e.wd x.wp.length x.wp).bind fun r => .ret (r.map fun wp => { x with wp })
  else .ret (some x)

/-- The half of a round that reads. -/
def receivePart (e : Ends) (revents : List Revents) (x : Xfer) : Io (Option Xfer) :=
  if (Ends.revRd revents).readable then readLoop e.rd x.rleft x else .ret (some x)

/-- The results of `conn_send_and_receive` other than 0. -/
inductive Fault
  /-- 1: nothing was ready in time. -/
  | timeout
  /-- -1. -/
  | error
  deriving DecidableEq, Repr

/-- One turn of the outer loop up to the count of turns: a `return`, or the variables after it. -/
def ioRound (net : ℤ) (e : Ends) (x : Xfer) : Io (Except Fault Xfer) :=
  .call (.poll (e.pollfds (x.wp ≠ [])) net) fun
    | .timeout => .ret (.error .timeout)
    | .error _ => .ret (.error .error)
    | .ready revents => (sendPart e revents x).bind fun
      | none => .ret (.error .error)
      | some x => (receivePart e revents x).bind fun
        | none => .ret (.error .error)
        | some x => .ret (.ok x)

/-- The outer loop, `left` turns before the limit of ten: what the buffer holds at its end. -/
def ioLoop (net : ℤ) (e : Ends) : ℕ → Xfer → Io (Except Fault (List UInt8))
  | left, x =>
    if x.rleft = 0 then .ret (.ok x.rbuf)
    else (ioRound net e x).bind fun
      | .error r => .ret (.error r)
      | .ok x => match left with
        | 0 => .call (.sleep 1) fun _ => (errlog .tooManyLoops).bind fun _ => .ret (.error .error)
        | left + 1 =>
          if left < 5 then .call (.sleep 1) fun _ => ioLoop net e left x else ioLoop net e left x

/-- `conn_send_and_receive`. -/
def connSendAndReceive (net : ℤ) (e : Ends) (rbuf wbuf : List UInt8) :
    Io (Except Fault (List UInt8)) :=
  ioLoop net e 10 ⟨wbuf, rbuf, 0, wbuf.length⟩

/-! ### The test -/

/-- The text `%d` and `%ld` print. -/
def printed (n : ℤ) : List UInt8 := (CString.decimal n).map fun c => c.toNat.toUInt8

theorem zero_notMem_printed (n : ℤ) : (0 : UInt8) ∉ printed n := by
  intro h
  obtain ⟨c, hc, h0⟩ := List.mem_map.1 h
  have hcode : c.toNat = 45 ∨ (48 ≤ c.toNat ∧ c.toNat ≤ 57) := by
    rcases List.mem_append.1 hc with hc | hc
    · split_ifs at hc
      · obtain rfl := List.mem_singleton.1 hc
        exact .inl rfl
      · cases hc
    · exact .inr (CString.toNat_of_isDigit (CString.isDigit_of_mem_toDigits hc))
  have h0' := congrArg UInt8.toNat h0
  simp only [Nat.toUInt8_eq, UInt8.toNat_ofNat', UInt8.toNat_zero] at h0'
  omega

/-- `"%s %s %d %ld %s\r\n"`. -/
def message (nodename progname : Text) (pid id : ℤ) (echo : Text) : List UInt8 :=
  nodename.val ++ 32 :: progname.val ++ 32 :: printed pid ++ 32 :: printed id ++ 32 :: echo.val ++
    [13, 10]

theorem zero_notMem_message (nodename progname : Text) (pid id : ℤ) (echo : Text) :
    (0 : UInt8) ∉ message nodename progname pid id echo := by
  simp [message, nodename.property, progname.property, echo.property, zero_notMem_printed]

/-- `BUF_SZ`. -/
def bufSz : ℕ := 193

/-- `MAX_CONN_TRIES`. -/
def maxConnTries : ℕ := 3

/-- The C string in a buffer. -/
def cstr (buf : List UInt8) : List UInt8 := buf.takeWhile (· ≠ 0)

/-- `c"autossh"`. -/
def autossh : Text := ⟨[97, 117, 116, 111, 115, 115, 104], by decide⟩

/-- What one turn of the retry loop comes to. -/
inductive Outcome
  /-- There is no connection to read from. -/
  | noRead
  /-- `conn_send_and_receive` gave 1. -/
  | timeout
  /-- It gave 0, with something else in the buffer. -/
  | garbled
  /-- It gave -1. -/
  | hardError
  /-- It gave 0, with the message in the buffer. -/
  | echo
  deriving DecidableEq, Repr

/-- `shutdown` and `close`. -/
def hangUp (fd : ℤ) : Io Unit := .call (.shutdown fd) fun _ => .call (.close fd) .ret

/-- `if sock != NO_RD_SOCK && rd != -1` hang up. -/
def hangUpRead (rd : ℤ) : Io Unit :=
  if p.sock ≠ noRdSock ∧ rd ≠ -1 then hangUp rd else .ret ()

/-- The exchange of one turn, and what is made of its result. -/
def connExchange (e : Ends) (wbuf : List UInt8) : Io Outcome :=
  (connSendAndReceive p.netTimeout e (List.replicate bufSz 0) wbuf).bind fun
    | .ok rbuf =>
      if cstr rbuf = wbuf then (errlog .connectionOk).bind fun _ => .ret .echo
      else (errlog (.notWhatISent wbuf (cstr rbuf))).bind fun _ => .ret .garbled
    | .error .timeout => (errlog .ioTimeout).bind fun _ => .ret .timeout
    | .error .error => (errlog .pollError).bind fun _ => .ret .hardError

/-- What a turn of the retry loop does once the message is in `wbuf`: what it comes to, and
`rd`. -/
def connTurn (wd : ℤ) (wbuf : List UInt8) : Io (Outcome × ℤ) :=
  if bufSz ≤ wbuf.length then xerrlog .bufferOverflow
  else if p.sock ≠ noRdSock then
    (connPollForAccept p).bind fun rd =>
      if rd < 0 then .ret (.noRead, rd)
      else (connExchange p (.accepted rd wd) wbuf).bind fun o => .ret (o, rd)
  else (connExchange p (.echo wd) wbuf).bind fun o => .ret (o, -1)

/-- The body of the retry loop past the test of `tries`. -/
def connAttempt (wd : ℤ) (nodename : Text) (id : ℤ) (rd : ℤ) : Io (Outcome × ℤ) :=
  (hangUpRead p rd).bind fun _ => .call .getpid fun pid =>
    connTurn p wd (message nodename (p.progname.getD autossh) pid id p.echoMessage)

/-- The end of the loop's body: success, another turn, or `break`. -/
def afterTurn (next : ℤ → Io (ℕ × ℤ)) : Outcome × ℤ → Io (ℕ × ℤ)
  | (.echo, rd) => .ret (1, rd)
  | (.timeout, rd) => next rd
  | (.garbled, rd) => next rd
  | (.noRead, rd) => .ret (0, rd)
  | (.hardError, rd) => .ret (0, rd)

/-- The retry loop, `left` turns before the limit: `rval` and `rd` after it. -/
def connTries (wd : ℤ) (nodename : Text) (id : ℤ) : ℕ → ℤ → Io (ℕ × ℤ)
  | 0, rd => .ret (0, rd)
  | left + 1, rd =>
    let tries := maxConnTries - (left + 1)
    if maxConnTries ≤ tries + 1 then
      (errlog (.tried (tries + 1))).bind fun _ => .ret (0, rd)
    else (connAttempt p wd nodename id rd).bind (afterTurn (connTries wd nodename id left))

/-- `conn_test`. -/
def connTest : Io ℕ :=
  .call .uname fun nodename => .call .random fun id => (connRemote p).bind fun wd =>
    if wd = -1 then .ret 0
    else (connTries p wd nodename id maxConnTries (-1)).bind fun r =>
      (hangUp wd).bind fun _ => (hangUpRead p r.2).bind fun _ => .ret r.1

/-- A test on the listening socket 3, as the runs below make it. -/
def sample : Probe where
  sock := 3
  host := "127.0.0.1".toList
  port := "20000".toList
  resolved := true
  netTimeout := 15000
  progname := none
  echoMessage := ⟨[], List.not_mem_nil⟩

/-- The node name in these runs. -/
def sampleNode : Text := ⟨[104], by decide⟩

/-- The message in these runs, sent by process 42 with the random number 7. -/
def sampleMessage : List UInt8 := message sampleNode autossh 42 7 sample.echoMessage

example : sampleMessage = bytes "h autossh 42 7 \r\n" := by decide

/-- The message comes back in one piece. -/
def sampleEcho : Answer (.read 6 sampleMessage.length) := .ok ⟨sampleMessage, Nat.le_refl _⟩

/-- A run in which the message comes back on the connection 6. -/
def echoTrace : List (Event Answer) :=
  [⟨.uname, sampleNode⟩, ⟨.random, 7⟩, ⟨.socket, .ok 5⟩, ⟨.connect 5, .ok ()⟩, ⟨.getpid, 42⟩,
    ⟨.poll [⟨3, true, false⟩] 15000, .ready [{ pollin := true }]⟩, ⟨.accept 3, .ok 6⟩,
    ⟨.poll [⟨6, true, false⟩, ⟨5, false, true⟩] 15000, .ready [{}, { pollout := true }]⟩,
    ⟨.write 5 sampleMessage, .ok (Fin.last _)⟩,
    ⟨.poll [⟨6, true, false⟩] 15000, .ready [{ pollin := true }]⟩,
    ⟨.read 6 sampleMessage.length, sampleEcho⟩,
    ⟨.errlog .connectionOk, ()⟩, ⟨.shutdown 5, ()⟩, ⟨.close 5, ()⟩, ⟨.shutdown 6, ()⟩,
    ⟨.close 6, ()⟩]

theorem echoTrace_returns : (connTest sample).Returns echoTrace 1 :=
  Prog.returns_of_replay (by decide +kernel)

end Conn

end Autossh
