import Autossh.Supervisor.Signals
import Autossh.Supervisor.Timing
import Autossh.Supervisor.Wait

/-!
# `ssh_watch` (`src/watch.rs`)

The loop around `ppoll`/`sigsuspend`.  Signals are blocked from `top` to `block`, unblocked
atomically by the wait itself, and unblocked again in the branch that `siglongjmp` lands in.
-/

namespace Autossh

namespace Supervisor

/-- `SECS_LEFT` as first taken: the seconds `alarm(0)` reported, or `my_poll_time`. -/
def takenSecs (myPollTime : ℤ) (old : ℕ) : ℤ :=
  if i32Wrap old = 0 then myPollTime else i32Wrap old

/-- `SECS_LEFT` after the lifetime test at the time `now`. -/
def lifetimeClamp (c : Cfg) (left now : ℤ) : ℤ :=
  if c.maxLifetime ≠ 0 ∧ c.maxLifetime - (now - c.pidStartTime) < c.pollTime then
    i32Sat (c.maxLifetime - (now - c.pidStartTime))
  else left

/-- `SECS_LEFT` after the `max_session` clamp. -/
def sessionClamp (c : Cfg) (left : ℤ) : ℤ :=
  if 0 < c.maxSession ∧ c.maxSession < left then i32Sat c.maxSession else left

/-- The wait has ended without events, as when a signal interrupts it. -/
def noEvents : Revents := ⟨false, false, false⟩

/-- Where the `SIGALRM` branch goes after the two `max_session` watchdogs. -/
def watchdogNext (c : Cfg) (s : St) : Pc :=
  if 0 < c.maxSession ∧ s.pipeLostTime ≠ 0 ∧ c.maxSession ≤ s.now - s.pipeLostTime then
    .errlog (.pipeLost (s.now - s.pipeLostTime)) (.kill .close (.ret .restart))
  else if 0 < c.maxSession ∧ s.lastStderrTime = 0 ∧ c.maxSession ≤ s.now - s.startTime then
    .errlog (.connectStuck (s.now - s.startTime)) (.kill .close (.ret .restart))
  else .drain .read .alrm

/-- Where `match val` goes. -/
def dispatchNext : Sig → Pc
  | v@.int | v@.term | v@.quit | v@.abrt => .errlog (.exitSignal v) (.kill .close (.ret .exitErr))
  | .alrm => .watch .alrm
  | _ => .watch .top

/-- Where `ssh_watch` goes after `conn_test`. -/
def ConnRes.next : ConnRes → Pc
  | .up => .watch .top
  | .down => .errlog .portDown (.kill .close (.ret .restart))
  | .fatal => .errlog .connFatal (.kill .close .fatal)

/-- One step of `ssh_watch`. -/
def sshWatchStep (c : Cfg) (s : St) (a : Act) : WatchPc → Option St
  | .enter =>
    on .tau
      { s with
        myPollTime := c.firstPollTime, savedmask := s.sg.mask, sg := s.sg.block blockmask
        pc := .watch .top } a
  -- the signal branch may have unblocked the signals
  | .top => on .tau { s with sg := s.sg.block blockmask, pc := .watch .testRestart } a
  | .testRestart =>
    on .tau (s.goto (if s.restartSsh then .errlog .restartSignalled (.kill .close (.ret .restart))
      else .watch .setjmp)) a
  | .setjmp => on .tau { s with jumpbuf := s.sg.mask, pc := .watch .wait } a
  | .wait =>
    (a.waitpid? .sshWait s.cchild).bind fun
      | .pid st =>
        -- `cchild` keeps the pid of the reaped child
        if terminated st then some { s with child := .none, pc := .drain .read (.wait st) }
        else none
      | .zero | .err _ => some (s.goto (.watch (.waited .cont)))
  | .status st =>
    on .tau (s.goto (match sshWaitStatus c s.startCount s.startTime s.now st with
      | (rc, some m) => .errlog m (.watch (.waited rc))
      | (rc, none) => .watch (.waited rc))) a
  | .waited rc => on .tau (s.goto (.watch (if rc = .cont then .takeAlarm else .ret rc))) a
  | .takeAlarm =>
    -- `first_poll_time` counts for the first pass only
    on (.alarm 0 (timerLeft s.timer))
      { s with
        secsLeft := takenSecs s.myPollTime (timerLeft s.timer)
        myPollTime := c.pollTime, timer := none, pc := .watch .clamp } a
  | .clamp =>
    on .tau
      { s with
        secsLeft := sessionClamp c (lifetimeClamp c s.secsLeft s.now), pc := .watch .setJmp } a
  | .setJmp => on .tau { s with dolongjmp := true, pc := .watch .arm } a
  | .arm =>
    -- `alarm(0)` sets no alarm
    on (.alarm (u32Cast s.secsLeft) (timerLeft s.timer))
      { s with
        timer := if u32Cast s.secsLeft = 0 then none else some (u32Cast s.secsLeft)
        armed := u32Cast s.secsLeft, pc := .watch .testExit } a
  | .testExit => on .tau (s.goto (.watch (if s.exitSignalled then .dropJmp else .block))) a
  | .dropJmp =>
    on .tau
      { s with dolongjmp := false, pc := .errlog .exitSignalled (.kill .close (.ret .exitErr)) } a
  -- `ppoll` and `sigsuspend` wait with `savedmask`, and put the old mask back
  | .block => on .tau { s with sg := s.sg.setmask s.savedmask, pc := .watch (.asleep s.sg.mask) } a
  | .asleep old =>
    -- only `ppoll` returns by itself
    if 0 ≤ s.sshStderrFd then
      a.poll?.bind fun re => some { s with sg := s.sg.setmask old, pc := .watch (.wake re) }
    else none
  -- the handler has returned instead of jumping
  | .woken => on .tau (s.goto (.watch (.wake noEvents))) a
  | .wake re =>
    on .tau
      { s with
        dolongjmp := false, pc := .watch (if 0 ≤ s.sshStderrFd then .pollin re else .top) } a
  | .pollin re =>
    on .tau (s.goto (if re.pollin then .drain .read (.pollin re) else .watch (.pollhup re))) a
  | .pollhup re =>
    on .tau (s.goto (if (re.pollhup || re.pollerr) && !re.pollin then
      .errlog .stderrClosed (.watch .closeFd) else .watch .top)) a
  | .closeFd => on (.close s.sshStderrFd) { s with sshStderrFd := -1, pc := .watch .pipeLost } a
  | .pipeLost =>
    on .tau
      { s with
        pipeLostTime := if s.pipeLostTime = 0 then s.now else s.pipeLostTime, pc := .watch .top } a
  -- unblocked, so that a second signal can interrupt `ssh_kill`
  | .caught v => on .tau { s with sg := s.sg.setmask s.savedmask, pc := .watch (.dispatch v) } a
  | .dispatch v => on .tau (s.goto (dispatchNext v)) a
  | .alrm =>
    on .tau (s.goto (if exceededLifetime c s.now then
      .errlog .lifetime (.kill .close (.ret .exitOk)) else .watch .watchdog)) a
  | .watchdog => on .tau (s.goto (watchdogNext c s)) a
  | .conn =>
    if c.monitor then a.conn?.bind fun r => some (s.goto r.next)
    else on .tau (s.goto (.watch .top)) a
  | .ret rc => on .tau { s with sg := s.sg.setmask s.savedmask, pc := .watch (.leave rc) } a
  | .leave rc => on (.watchRet rc) (s.goto (.run (.clearJmp rc))) a

/-- What `ssh_watch` leaves alone: the handlers and their activations, the pending signals, the
flags `sig_catch` sets, the child's pid and the clock. -/
structure WatchFrame (s t : St) : Prop where
  frames : t.frames = s.frames
  disp : t.sg.disp = s.sg.disp
  pending : t.sg.pending = s.sg.pending
  restartSsh : t.restartSsh = s.restartSsh
  exitSignalled : t.exitSignalled = s.exitSignalled
  cchild : t.cchild = s.cchild
  now : t.now = s.now
  entryMask : t.entryMask = s.entryMask

theorem sshWatchStep_frame {c : Cfg} {s t : St} {p : WatchPc} {a : Act}
    (h : sshWatchStep c s a p = some t) : WatchFrame s t := by
  cases p with
  | wait =>
    simp only [sshWatchStep, Option.bind_eq_some_iff] at h
    obtain ⟨r, -, h⟩ := h
    cases r with
    | pid st =>
      simp only at h
      split_ifs at h
      cases h
      exact ⟨rfl, rfl, rfl, rfl, rfl, rfl, rfl, rfl⟩
    | zero | err e => cases h; exact ⟨rfl, rfl, rfl, rfl, rfl, rfl, rfl, rfl⟩
  | asleep old =>
    simp only [sshWatchStep] at h
    split_ifs at h
    simp only [Option.bind_eq_some_iff, Option.some.injEq] at h
    obtain ⟨re, -, rfl⟩ := h
    exact ⟨rfl, rfl, rfl, rfl, rfl, rfl, rfl, rfl⟩
  | conn =>
    simp only [sshWatchStep] at h
    split_ifs at h
    · simp only [Option.bind_eq_some_iff, Option.some.injEq] at h
      obtain ⟨r, -, rfl⟩ := h
      exact ⟨rfl, rfl, rfl, rfl, rfl, rfl, rfl, rfl⟩
    · obtain ⟨-, rfl⟩ := on_eq_some.1 h
      exact ⟨rfl, rfl, rfl, rfl, rfl, rfl, rfl, rfl⟩
  | _ =>
    obtain ⟨-, rfl⟩ := on_eq_some.1 h
    exact ⟨rfl, rfl, rfl, rfl, rfl, rfl, rfl, rfl⟩

/-- What belongs to `ssh_run`, `grace_time` and `check_ssh_stderr`. -/
structure Kept (s t : St) : Prop where
  startCount : t.startCount = s.startCount
  startTime : t.startTime = s.startTime
  tries : t.tries = s.tries
  lastStderrTime : t.lastStderrTime = s.lastStderrTime
  portFwdFailed : t.portFwdFailed = s.portFwdFailed

theorem Kept.goto (s : St) (p : Pc) : Kept s (s.goto p) := ⟨rfl, rfl, rfl, rfl, rfl⟩

theorem sshWatchStep_kept {c : Cfg} {s t : St} {p : WatchPc} {a : Act}
    (h : sshWatchStep c s a p = some t) : Kept s t := by
  cases p with
  | wait =>
    simp only [sshWatchStep, Option.bind_eq_some_iff] at h
    obtain ⟨r, -, h⟩ := h
    cases r with
    | pid st =>
      simp only at h
      split_ifs at h
      cases h
      exact ⟨rfl, rfl, rfl, rfl, rfl⟩
    | zero | err e =>
      cases h
      exact .goto s _
  | asleep old =>
    simp only [sshWatchStep] at h
    split_ifs at h
    simp only [Option.bind_eq_some_iff, Option.some.injEq] at h
    obtain ⟨re, -, rfl⟩ := h
    exact ⟨rfl, rfl, rfl, rfl, rfl⟩
  | conn =>
    simp only [sshWatchStep] at h
    split_ifs at h
    · simp only [Option.bind_eq_some_iff, Option.some.injEq] at h
      obtain ⟨r, -, rfl⟩ := h
      exact .goto s _
    · obtain ⟨-, rfl⟩ := on_eq_some.1 h
      exact .goto s _
  | _ =>
    obtain ⟨-, rfl⟩ := on_eq_some.1 h
    exact ⟨rfl, rfl, rfl, rfl, rfl⟩

/-- Where a step of `ssh_watch` can lead: on within the function, to a function it calls, or back to
`ssh_run`. -/
theorem sshWatchStep_target {P : Pc → Prop} {c : Cfg} {s t : St} {p : WatchPc} {a : Act}
    (hwatch : ∀ q, P (.watch q)) (hdrain : ∀ k, P (.drain .read k))
    (herrlog : ∀ m q, P (.errlog m (.watch q))) (hkill : ∀ m k, P (.errlog m (.kill .close k)))
    (hret : ∀ rc, P (.run (.clearJmp rc))) (h : sshWatchStep c s a p = some t) : P t.pc := by
  cases p with
  | wait =>
    simp only [sshWatchStep, Option.bind_eq_some_iff] at h
    obtain ⟨r, -, h⟩ := h
    cases r with
    | pid st =>
      simp only at h
      split_ifs at h
      cases h
      exact hdrain _
    | zero | err e => cases h; exact hwatch _
  | status st =>
    obtain ⟨-, rfl⟩ := on_eq_some.1 h
    simp only [St.goto]
    split
    · exact herrlog _ _
    · exact hwatch _
  | asleep old =>
    simp only [sshWatchStep] at h
    split_ifs at h
    simp only [Option.bind_eq_some_iff, Option.some.injEq] at h
    obtain ⟨re, -, rfl⟩ := h
    exact hwatch _
  | testRestart | alrm =>
    obtain ⟨-, rfl⟩ := on_eq_some.1 h
    simp only [St.goto]
    split_ifs
    · exact hkill _ _
    · exact hwatch _
  | dropJmp =>
    obtain ⟨-, rfl⟩ := on_eq_some.1 h
    exact hkill _ _
  | pollin re =>
    obtain ⟨-, rfl⟩ := on_eq_some.1 h
    simp only [St.goto]
    split_ifs
    · exact hdrain _
    · exact hwatch _
  | pollhup re =>
    obtain ⟨-, rfl⟩ := on_eq_some.1 h
    simp only [St.goto]
    split_ifs
    · exact herrlog _ _
    · exact hwatch _
  | dispatch v =>
    obtain ⟨-, rfl⟩ := on_eq_some.1 h
    cases v <;> first | exact hwatch _ | exact hkill _ _
  | watchdog =>
    obtain ⟨-, rfl⟩ := on_eq_some.1 h
    simp only [St.goto, watchdogNext]
    split_ifs
    · exact hkill _ _
    · exact hkill _ _
    · exact hdrain _
  | conn =>
    simp only [sshWatchStep] at h
    split_ifs at h
    · simp only [Option.bind_eq_some_iff, Option.some.injEq] at h
      obtain ⟨r, -, rfl⟩ := h
      cases r with
      | up => exact hwatch _
      | down | fatal => exact hkill _ _
    · obtain ⟨-, rfl⟩ := on_eq_some.1 h
      exact hwatch _
  | leave rc =>
    obtain ⟨-, rfl⟩ := on_eq_some.1 h
    exact hret _
  | _ =>
    obtain ⟨-, rfl⟩ := on_eq_some.1 h
    exact hwatch _

end Supervisor

end Autossh
