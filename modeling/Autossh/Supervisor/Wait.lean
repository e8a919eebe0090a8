import Autossh.Supervisor.Basic

/-!
# `ssh_wait` and `check_ssh_stderr` (`src/wait.rs`, `src/stderr_drain.rs`)
-/

namespace Autossh

namespace Supervisor

/-- How `ssh_wait` interprets the status of a child it has reaped, with the message it logs. -/
def sshWaitStatus (c : Cfg) (startCount startTime now : ℤ) (st : ℕ) : Rc × Option Log :=
  if wifsignaled st then (.restart, some (.signaled (wtermsig st)))
  else if wifexited st then
    if startCount = 1 ∧ c.gateTime ≠ 0 ∧ now - startTime ≤ c.gateTime then
      (.exitErr, some (.premature (wexitstatus st)))
    else
      match wexitstatus st with
      | 255 => (.restart, some (.errorRestart 255))
      | 0 => (.exitOk, some (.exited 0))
      | 1 | 2 =>
        if 1 < startCount ∨ c.gateTime = 0 then (.restart, some (.errorRestart (wexitstatus st)))
        else (.exitErr, some (.exited (wexitstatus st)))
      | n => (.exitErr, some (.exited n))
  else (.cont, none)

/-- The status of a child that has terminated never means "continue". -/
theorem sshWaitStatus_ne_cont {st : ℕ} (c : Cfg) (n t now : ℤ) (h : terminated st = true) :
    (sshWaitStatus c n t now st).1 ≠ .cont := by
  rcases terminated_iff.1 h with he | he
  · unfold sshWaitStatus
    rw [if_pos he]
    split_ifs
    · nofun
    · nofun
    · split <;> nofun
    · split <;> nofun
  · simp [sshWaitStatus, he]

/-- What `check_ssh_stderr` looks for first. -/
def fwdFailedNeedle : List UInt8 := bytes "remote port forwarding failed"

/-- What `check_ssh_stderr` looks for next: a line of the stuck detector. -/
def stuckNeedle : List UInt8 := bytes "ssh-stuck-detector: STUCK"

/-- The verdict of `check_ssh_stderr` on one chunk. -/
inductive Verdict
  | fwdFailed | stuck | clean
  deriving DecidableEq, Repr

/-- The two searches in one chunk, in order. -/
def scanChunk (chunk : List UInt8) : Verdict :=
  if strstr chunk fwdFailedNeedle then .fwdFailed
  else if strstr chunk stuckNeedle then .stuck
  else .clean

/-- `STDERR_BUF_SZ - 1`, the most one `read` asks for. -/
def stderrReadMax : ℕ := 4095

/-- Where the caller of `check_ssh_stderr` goes on with its result. -/
def DrainCont.resume (found : Bool) : DrainCont → Pc
  | .wait st => .watch (.status st)
  | .pollin re => if found then .kill .close .portWait else .watch (.pollhup re)
  | .alrm => if found then .kill .close .portWait else .watch .conn

/-- One step of `check_ssh_stderr`. -/
def checkSshStderrStep (s : St) (k : DrainCont) (a : Act) : DrainPc → Option St
  | .read =>
    if 0 ≤ s.sshStderrFd then
      (a.read? s.sshStderrFd).bind fun
        | none => some (s.goto (k.resume false))
        | some chunk =>
          if chunk ≠ [] ∧ chunk.length ≤ stderrReadMax then
            some { s with
              lastStderrTime := s.now
              pc := match scanChunk chunk with
                | .fwdFailed => .errlog .fwdFailed (.drain .flag k)
                | .stuck => .errlog .stuck (k.resume true)
                | .clean => .drain .read k }
          else none
    else on .tau (s.goto (k.resume false)) a
  | .flag => on .tau { s with portFwdFailed := true, pc := k.resume true } a

/-- `check_ssh_stderr` only touches `last_stderr_time` and `port_fwd_failed`. -/
theorem checkSshStderrStep_frame {s t : St} {k : DrainCont} {p : DrainPc} {a : Act}
    (h : checkSshStderrStep s k a p = some t) :
    ∃ q tm b, t = { s with pc := q, lastStderrTime := tm, portFwdFailed := b } := by
  cases p with
  | read =>
    simp only [checkSshStderrStep] at h
    split_ifs at h
    · simp only [Option.bind_eq_some_iff] at h
      obtain ⟨r, -, h⟩ := h
      cases r with
      | none => cases h; exact ⟨_, _, _, rfl⟩
      | some chunk =>
        simp only at h
        split_ifs at h
        cases h
        exact ⟨_, _, _, rfl⟩
    · obtain ⟨-, rfl⟩ := on_eq_some.1 h
      exact ⟨_, _, _, rfl⟩
  | flag =>
    obtain ⟨-, rfl⟩ := on_eq_some.1 h
    exact ⟨_, _, _, rfl⟩

theorem checkSshStderrStep_act {s t : St} {k : DrainCont} {p : DrainPc} {a : Act}
    (h : checkSshStderrStep s k a p = some t) : a = .tau ∨ ∃ fd r, a = .read fd r := by
  cases p with
  | read =>
    simp only [checkSshStderrStep] at h
    split_ifs at h
    · simp only [Option.bind_eq_some_iff, read?_eq_some] at h
      obtain ⟨r, ha, -⟩ := h
      exact .inr ⟨_, r, ha⟩
    · exact .inl (on_eq_some.1 h).1
  | flag => exact .inl (on_eq_some.1 h).1

/-- Where a step of `check_ssh_stderr` can lead. -/
theorem checkSshStderrStep_target {P : Pc → Prop} {s t : St} {k : DrainCont} {p : DrainPc} {a : Act}
    (hdrain : ∀ q, P (.drain q k)) (hflag : ∀ m, P (.errlog m (.drain .flag k)))
    (hresume : ∀ b, P (k.resume b)) (hstuck : ∀ m, P (.errlog m (k.resume true)))
    (h : checkSshStderrStep s k a p = some t) : P t.pc := by
  cases p with
  | read =>
    simp only [checkSshStderrStep] at h
    split_ifs at h
    · simp only [Option.bind_eq_some_iff] at h
      obtain ⟨r, -, h⟩ := h
      cases r with
      | none => cases h; exact hresume false
      | some chunk =>
        simp only at h
        split_ifs at h
        cases h
        simp only
        cases scanChunk chunk with
        | fwdFailed => exact hflag _
        | stuck => exact hstuck _
        | clean => exact hdrain _
    · obtain ⟨-, rfl⟩ := on_eq_some.1 h
      exact hresume false
  | flag =>
    obtain ⟨-, rfl⟩ := on_eq_some.1 h
    exact hresume true

end Supervisor

end Autossh
