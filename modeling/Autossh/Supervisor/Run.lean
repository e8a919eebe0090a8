import Autossh.Machine.Basic
import Autossh.Supervisor.Kill
import Autossh.Supervisor.Watch

/-!
# `ssh_run` and the whole supervisor (`src/run.rs`)

`sshRunStep` is the outer loop.  `next` puts the functions together with the handler and the
environment, and `supervisor` is the resulting machine.
-/

namespace Autossh

namespace Supervisor

/-- One step of `ssh_run` and `grace_time`. -/
def sshRunStep (c : Cfg) (s : St) (a : Act) : RunPc → Option St
  | .setExit [] => on .tau (s.goto (.run .head)) a
  | .setExit (g :: l) =>
    on .tau { s with sg := s.sg.sigaction g (.catch .empty), pc := .run (.setExit l) } a
  | .head =>
    on .tau (s.goto (if c.maxStart < 0 ∨ s.startCount < c.maxStart then .run .lifetime
      else .errlog .maxStart (.run (.ret .exitOk)))) a
  | .lifetime =>
    on .tau (s.goto (if exceededLifetime c s.now then .errlog .lifetime (.run (.ret .exitOk))
      else .run .clearRestart)) a
  | .clearRestart =>
    on .tau
      { s with
        restartSsh := false, startCount := i32Wrap (s.startCount + 1), pc := .run .grace } a
  | .grace =>
    -- `start_time` is still that of the previous child
    on .tau
      { s with
        tries := graceTries c s.tries s.startTime s.now
        pc :=
          if 0 < graceInterval c (graceTries c s.tries s.startTime s.now) then
            .sleep (graceInterval c (graceTries c s.tries s.startTime s.now)) (.run .portDelay)
          else .run .portDelay } a
  | .portDelay =>
    on .tau (s.goto (if s.portFwdFailed then
      .errlog .portDelay (.sleep portFwdFailDelay (.run .portDelayDone)) else .run .testExit)) a
  | .portDelayDone => on .tau { s with portFwdFailed := false, pc := .run .testExit } a
  | .testExit =>
    on .tau (s.goto (if s.exitSignalled then .errlog .exitSignalled (.run (.ret .exitErr))
      else .run .stamp)) a
  | .stamp =>
    on .tau
      { s with
        startTime := s.now, portFwdFailed := false, pipeLostTime := 0, lastStderrTime := 0
        pc := .errlog (.starting s.startCount c.maxStart) (.run .pipe) } a
  | .pipe =>
    a.pipe?.bind fun
      | none => some { s with stderrPipe := (-1, -1), pc := .errlog .pipeError (.run .fork) }
      | some (r, w) => some { s with stderrPipe := (r, w), pc := .run .fork }
  | .fork =>
    a.fork?.bind fun r =>
      if r = -1 then some { s with cchild := -1, pc := .run .forkFailed }
      -- the side of the child, which becomes ssh, is not part of this process
      else if 0 < r then some { s with cchild := r, child := .running, pc := .run .parentClose }
      else none
  | .forkFailed => on .tau { s with cchild := 0, pc := .run .closeRd } a
  | .closeRd =>
    on (if 0 ≤ s.stderrPipe.1 then .close s.stderrPipe.1 else .tau) (s.goto (.run .closeWr)) a
  | .closeWr =>
    on (if 0 ≤ s.stderrPipe.2 then .close s.stderrPipe.2 else .tau)
      (s.goto (.errlog .forkError (.kill .close .fatal))) a
  | .parentClose =>
    on (if 0 ≤ s.stderrPipe.2 then .close s.stderrPipe.2 else .tau) (s.goto (.run .parentFd)) a
  | .parentFd =>
    on .tau
      { s with
        sshStderrFd := s.stderrPipe.1
        pc := .errlog (.childPid s.cchild) (.run (.setHandlers handledSignals)) } a
  | .setHandlers [] => on .tau { s with entryMask := s.sg.mask, pc := .watch .enter } a
  | .setHandlers (g :: l) =>
    on .tau { s with sg := s.sg.sigaction g (handlerDisp g), pc := .run (.setHandlers l) } a
  | .clearJmp rc => on .tau { s with dolongjmp := false, pc := .run (.clearAlarm rc) } a
  | .clearAlarm rc =>
    on (.alarm 0 (timerLeft s.timer))
      { s with timer := none, pc := .run (.unsetHandlers rc unsetSignals) } a
  | .unsetHandlers rc [] => on .tau (s.goto (.run (.closeStderr rc))) a
  | .unsetHandlers rc (g :: l) =>
    on .tau { s with sg := s.sg.sigaction g .dfl, pc := .run (.unsetHandlers rc l) } a
  | .closeStderr rc =>
    if 0 ≤ s.sshStderrFd then
      on (.close s.sshStderrFd) { s with sshStderrFd := -1, pc := .run (.testRc rc) } a
    else on .tau (s.goto (.run (.testRc rc))) a
  | .testRc rc =>
    on .tau (s.goto (.run (if rc = .exitOk ∨ rc = .exitErr then .ret rc else .head))) a
  | .ret rc => on (.runRet rc) (s.goto .gone) a

/-- What `ssh_run` leaves alone: the activations of `sig_catch`, `exit_signalled`, the mask, the
clock and `my_poll_time`; it never sets `dolongjmp` or `restart_ssh`. -/
structure RunFrame (s t : St) : Prop where
  frames : t.frames = s.frames
  exitSignalled : t.exitSignalled = s.exitSignalled
  mask : t.sg.mask = s.sg.mask
  now : t.now = s.now
  myPollTime : t.myPollTime = s.myPollTime
  dolongjmp : t.dolongjmp = true → s.dolongjmp = true
  restartSsh : t.restartSsh = true → s.restartSsh = true

theorem sshRunStep_frame {c : Cfg} {s t : St} {p : RunPc} {a : Act}
    (h : sshRunStep c s a p = some t) : RunFrame s t := by
  cases p with
  | setExit l | setHandlers l | unsetHandlers rc l =>
    cases l <;> obtain ⟨-, rfl⟩ := on_eq_some.1 h <;> exact ⟨rfl, rfl, rfl, rfl, rfl, id, id⟩
  | pipe =>
    simp only [sshRunStep, Option.bind_eq_some_iff] at h
    obtain ⟨r, -, h⟩ := h
    rcases r with - | ⟨r, w⟩ <;> cases h <;> exact ⟨rfl, rfl, rfl, rfl, rfl, id, id⟩
  | fork =>
    simp only [sshRunStep, Option.bind_eq_some_iff] at h
    obtain ⟨r, -, h⟩ := h
    split_ifs at h <;> cases h <;> exact ⟨rfl, rfl, rfl, rfl, rfl, id, id⟩
  | clearRestart =>
    obtain ⟨-, rfl⟩ := on_eq_some.1 h
    exact ⟨rfl, rfl, rfl, rfl, rfl, id, by simp⟩
  | clearJmp rc =>
    obtain ⟨-, rfl⟩ := on_eq_some.1 h
    exact ⟨rfl, rfl, rfl, rfl, rfl, by simp, id⟩
  | closeStderr rc =>
    simp only [sshRunStep] at h
    split_ifs at h <;> obtain ⟨-, rfl⟩ := on_eq_some.1 h <;> exact ⟨rfl, rfl, rfl, rfl, rfl, id, id⟩
  | _ =>
    obtain ⟨-, rfl⟩ := on_eq_some.1 h
    exact ⟨rfl, rfl, rfl, rfl, rfl, id, id⟩

/-- One step of the main program, no handler being active. -/
def mainStep (c : Cfg) (s : St) (a : Act) : Option St :=
  match s.pc with
  | .run p => sshRunStep c s a p
  | .watch p => sshWatchStep c s a p
  | .drain p k => checkSshStderrStep s k a p
  | .kill p k => sshKillStep s k a p
  | .errlog _ k => on .tau (s.goto k) a
  | .sleep n k => if n = 0 ∨ s.interrupted = true then on .tau (s.goto k) a else none
  | .exit => on .exit (s.goto .gone) a
  | .gone => none

/-- Time passes for a `sleep` in progress. -/
def Pc.elapse (dt : ℕ) : Pc → Pc
  | .sleep n k => .sleep (n - dt) k
  | p => p

/-- A move of the environment. -/
def envStep (s : St) : Act → Option St
  | .raise g => some { s with sg := s.sg.raise g }
  | .deliver g => deliver s g
  | .childExit st =>
    if s.child = .running ∧ terminated st = true then
      some { s with child := .zombie st, sg := s.sg.raise .chld }
    else none
  | .elapse dw dt =>
    some { s with now := s.now + dw, timer := s.timer.map (· - dt), pc := s.pc.elapse dt }
  | .timerFire =>
    if s.timer = some 0 then some { s with timer := none, sg := s.sg.raise .alrm } else none
  | _ => none

theorem envStep_kept {s t : St} {a : Act} (h : envStep s a = some t) : Kept s t := by
  cases a with
  | raise g =>
    cases h
    exact ⟨rfl, rfl, rfl, rfl, rfl⟩
  | deliver g =>
    obtain ⟨-, -, rfl | rfl | ⟨m, -, rfl⟩⟩ := deliver_cases h
    · exact ⟨rfl, rfl, rfl, rfl, rfl⟩
    · exact ⟨rfl, rfl, rfl, rfl, rfl⟩
    · unfold pushFrame
      split <;> exact ⟨rfl, rfl, rfl, rfl, rfl⟩
  | childExit st | timerFire =>
    simp only [envStep] at h
    split_ifs at h
    cases h
    exact ⟨rfl, rfl, rfl, rfl, rfl⟩
  | elapse dw dt =>
    cases h
    exact ⟨rfl, rfl, rfl, rfl, rfl⟩
  | _ => cases h

theorem sigCatchStep_kept {s t : St} {f : Frame} {fs : List Frame} {a : Act}
    (h : sigCatchStep s f fs a = some t) : Kept s t := by
  unfold sigCatchStep at h
  split at h
  · split_ifs at h <;> obtain ⟨-, rfl⟩ := on_eq_some.1 h <;> exact ⟨rfl, rfl, rfl, rfl, rfl⟩
  all_goals
    obtain ⟨-, rfl⟩ := on_eq_some.1 h
    exact ⟨rfl, rfl, rfl, rfl, rfl⟩

/-- `sig_catch` leaves the main program where it is, ends the process or jumps. -/
theorem sigCatchStep_pc {s t : St} {f : Frame} {fs : List Frame} {a : Act}
    (h : sigCatchStep s f fs a = some t) :
    t.pc = s.pc ∨ t.pc = .gone ∨ (f.pc = .jump ∧ t.pc = .watch (.caught f.sig)) := by
  unfold sigCatchStep at h
  split at h <;> rename_i hp
  · split_ifs at h <;> obtain ⟨-, rfl⟩ := on_eq_some.1 h
    exacts [.inl rfl, .inr (.inl rfl), .inl rfl, .inl rfl]
  · obtain ⟨-, rfl⟩ := on_eq_some.1 h
    exact .inl rfl
  · obtain ⟨-, rfl⟩ := on_eq_some.1 h
    exact .inl rfl
  · obtain ⟨-, rfl⟩ := on_eq_some.1 h
    exact .inl rfl
  · obtain ⟨-, rfl⟩ := on_eq_some.1 h
    exact .inr (.inr ⟨hp, rfl⟩)
  · obtain ⟨-, rfl⟩ := on_eq_some.1 h
    exact .inl rfl

/-- The actions that are moves of the environment. -/
def Act.isEnv : Act → Bool
  | .raise _ | .deliver _ | .childExit _ | .elapse _ _ | .timerFire => true
  | _ => false

/-- One step of the process with its environment. -/
def next (c : Cfg) (s : St) (a : Act) : Option St :=
  match s.pc with
  | .gone => none
  | _ =>
    if a.isEnv then envStep s a
    else match s.frames with
      | f :: fs => sigCatchStep s f fs a
      | [] => (mainStep c s a).map fun s' => { s' with interrupted := false }

/-- A step is a move of the environment, one of the innermost activation of `sig_catch`, or one
of the main program. -/
theorem next_cases {c : Cfg} {s s' : St} {a : Act} (h : next c s a = some s') :
    s.pc ≠ .gone ∧ (envStep s a = some s' ∨
      (∃ f fs, s.frames = f :: fs ∧ sigCatchStep s f fs a = some s') ∨
      (s.frames = [] ∧ ∃ t, mainStep c s a = some t ∧ s' = { t with interrupted := false })) := by
  unfold next at h
  split at h
  · cases h
  · rename_i hp
    refine ⟨hp, ?_⟩
    split_ifs at h
    · exact .inl h
    · cases hf : s.frames with
      | nil =>
        simp only [hf, Option.map_eq_some_iff] at h
        obtain ⟨t, ht, rfl⟩ := h
        exact .inr (.inr ⟨rfl, t, ht, rfl⟩)
      | cons f fs =>
        simp only [hf] at h
        exact .inr (.inl ⟨f, fs, rfl, h⟩)

/-- A step of the main program is one of the function it is in; a message or a `sleep` only
moves on to what follows it. -/
theorem mainStep_cases {c : Cfg} {s t : St} {a : Act} (h : mainStep c s a = some t) :
    (∃ p, s.pc = .run p ∧ sshRunStep c s a p = some t) ∨
    (∃ p, s.pc = .watch p ∧ sshWatchStep c s a p = some t) ∨
    (∃ p k, s.pc = .drain p k ∧ checkSshStderrStep s k a p = some t) ∨
    (∃ p k, s.pc = .kill p k ∧ sshKillStep s k a p = some t) ∨
    (∃ k, ((∃ m, s.pc = .errlog m k) ∨ ∃ n, s.pc = .sleep n k) ∧ a = .tau ∧ t = s.goto k) ∨
    (s.pc = .exit ∧ a = .exit ∧ t = s.goto .gone) := by
  unfold mainStep at h
  split at h <;> rename_i hp
  · exact .inl ⟨_, hp, h⟩
  · exact .inr (.inl ⟨_, hp, h⟩)
  · exact .inr (.inr (.inl ⟨_, _, hp, h⟩))
  · exact .inr (.inr (.inr (.inl ⟨_, _, hp, h⟩)))
  · obtain ⟨ha, rfl⟩ := on_eq_some.1 h
    exact .inr (.inr (.inr (.inr (.inl ⟨_, .inl ⟨_, hp⟩, ha, rfl⟩))))
  · split_ifs at h
    obtain ⟨ha, rfl⟩ := on_eq_some.1 h
    exact .inr (.inr (.inr (.inr (.inl ⟨_, .inr ⟨_, hp⟩, ha, rfl⟩))))
  · obtain ⟨ha, rfl⟩ := on_eq_some.1 h
    exact .inr (.inr (.inr (.inr (.inr ⟨hp, ha, rfl⟩))))
  · cases h

/-- Where the main program performs an action, for the actions that have one place in the source
or none. -/
def CallSite (s : St) : Act → Prop
  | .fork _ => s.pc = .run .fork
  | .kill p ph => p = s.cchild ∧ ∃ k, s.pc = .kill (.signal ph) k
  | .waitpid .sshWait p _ => p = s.cchild ∧ s.pc = .watch .wait
  | .waitpid .sshKill p _ => p = s.cchild ∧ ∃ ph w k, s.pc = .kill (.poll ph w) k
  | .watchRet rc => s.pc = .watch (.leave rc)
  | .runRet rc => s.pc = .run (.ret rc)
  | .longjmp _ | .raise _ | .deliver _ | .childExit _ | .elapse _ _ | .timerFire => False
  | _ => True

theorem sshRunStep_callSite {c : Cfg} {s t : St} {p : RunPc} {a : Act} (hp : s.pc = .run p)
    (h : sshRunStep c s a p = some t) : CallSite s a := by
  cases p with
  | setExit l | setHandlers l | unsetHandlers rc l =>
    cases l <;> obtain ⟨rfl, -⟩ := on_eq_some.1 h <;> trivial
  | pipe =>
    simp only [sshRunStep, Option.bind_eq_some_iff, pipe?_eq_some] at h
    obtain ⟨r, rfl, -⟩ := h
    trivial
  | fork =>
    simp only [sshRunStep, Option.bind_eq_some_iff, fork?_eq_some] at h
    obtain ⟨r, rfl, -⟩ := h
    exact hp
  | closeRd | closeWr | parentClose =>
    obtain ⟨rfl, -⟩ := on_eq_some.1 h
    split_ifs <;> trivial
  | closeStderr rc =>
    simp only [sshRunStep] at h
    split_ifs at h <;> obtain ⟨rfl, -⟩ := on_eq_some.1 h <;> trivial
  | ret rc =>
    obtain ⟨rfl, -⟩ := on_eq_some.1 h
    exact hp
  | _ =>
    obtain ⟨rfl, -⟩ := on_eq_some.1 h
    trivial

theorem sshWatchStep_callSite {c : Cfg} {s t : St} {p : WatchPc} {a : Act} (hp : s.pc = .watch p)
    (h : sshWatchStep c s a p = some t) : CallSite s a := by
  cases p with
  | wait =>
    simp only [sshWatchStep, Option.bind_eq_some_iff, waitpid?_eq_some] at h
    obtain ⟨r, rfl, -⟩ := h
    exact ⟨rfl, hp⟩
  | asleep old =>
    simp only [sshWatchStep] at h
    split_ifs at h
    simp only [Option.bind_eq_some_iff, poll?_eq_some] at h
    obtain ⟨re, rfl, -⟩ := h
    trivial
  | conn =>
    simp only [sshWatchStep] at h
    split_ifs at h
    · simp only [Option.bind_eq_some_iff, conn?_eq_some] at h
      obtain ⟨r, rfl, -⟩ := h
      trivial
    · obtain ⟨rfl, -⟩ := on_eq_some.1 h
      trivial
  | leave rc =>
    obtain ⟨rfl, -⟩ := on_eq_some.1 h
    exact hp
  | _ =>
    obtain ⟨rfl, -⟩ := on_eq_some.1 h
    trivial

theorem checkSshStderrStep_callSite {s t : St} {k : DrainCont} {p : DrainPc} {a : Act}
    (h : checkSshStderrStep s k a p = some t) : CallSite s a := by
  rcases checkSshStderrStep_act h with rfl | ⟨fd, r, rfl⟩ <;> trivial

theorem sshKillStep_callSite {s t : St} {k : KillCont} {p : KillPc} {a : Act}
    (hp : s.pc = .kill p k) (h : sshKillStep s k a p = some t) : CallSite s a := by
  cases p with
  | close =>
    simp only [sshKillStep] at h
    split_ifs at h <;> obtain ⟨rfl, -⟩ := on_eq_some.1 h <;> trivial
  | signal ph =>
    obtain ⟨rfl, -⟩ := on_eq_some.1 h
    exact ⟨rfl, k, hp⟩
  | poll ph w =>
    simp only [sshKillStep] at h
    split_ifs at h
    · simp only [Option.bind_eq_some_iff, waitpid?_eq_some] at h
      obtain ⟨r, rfl, -⟩ := h
      exact ⟨rfl, ph, w, k, hp⟩
    · obtain ⟨rfl, -⟩ := on_eq_some.1 h
      trivial
  | _ =>
    obtain ⟨rfl, -⟩ := on_eq_some.1 h
    trivial

theorem mainStep_callSite {c : Cfg} {s t : St} {a : Act} (h : mainStep c s a = some t) :
    CallSite s a := by
  rcases mainStep_cases h with ⟨p, hp, h⟩ | ⟨p, hp, h⟩ | ⟨p, k, -, h⟩ | ⟨p, k, hp, h⟩ |
    ⟨k, -, rfl, -⟩ | ⟨-, rfl, -⟩
  · exact sshRunStep_callSite hp h
  · exact sshWatchStep_callSite hp h
  · exact checkSshStderrStep_callSite h
  · exact sshKillStep_callSite hp h
  · trivial
  · trivial

/-- `sig_catch` makes no system call of its own besides `_exit`, and jumps only from its last
control point. -/
theorem sigCatchStep_act {s t : St} {f : Frame} {fs : List Frame} {a : Act}
    (h : sigCatchStep s f fs a = some t) :
    a = .tau ∨ a = .exit ∨ (a = .longjmp f.sig ∧ f.pc = .jump) := by
  unfold sigCatchStep at h
  split at h <;> rename_i hp
  · split_ifs at h <;> obtain ⟨rfl, -⟩ := on_eq_some.1 h <;> simp
  all_goals obtain ⟨rfl, -⟩ := on_eq_some.1 h; simp [hp]

theorem envStep_act {s t : St} {a : Act} (h : envStep s a = some t) : a.isEnv = true := by
  cases a <;> first | rfl | cases h

theorem mainStep_frames {c : Cfg} {s t : St} {a : Act} (h : mainStep c s a = some t) :
    t.frames = s.frames := by
  rcases mainStep_cases h with ⟨p, -, h⟩ | ⟨p, -, h⟩ | ⟨p, k, -, h⟩ | ⟨p, k, -, h⟩ |
    ⟨k, -, -, rfl⟩ | ⟨-, -, rfl⟩
  · exact (sshRunStep_frame h).frames
  · exact (sshWatchStep_frame h).frames
  · obtain ⟨_, _, _, rfl⟩ := checkSshStderrStep_frame h
    rfl
  · obtain ⟨_, _, _, _, rfl⟩ := sshKillStep_frame h
    rfl
  · rfl
  · rfl

/-- The actions only the main program performs. -/
def Act.isCall : Act → Bool
  | .tau | .exit | .longjmp _ => false
  | a => !a.isEnv

theorem next_call {c : Cfg} {s s' : St} {a : Act} (ha : a.isCall = true)
    (h : next c s a = some s') : s.frames = [] ∧ CallSite s a ∧
      ∃ t, mainStep c s a = some t ∧ s' = { t with interrupted := false } := by
  obtain ⟨-, he | ⟨f, fs, -, hc⟩ | ⟨hf, t, hm, rfl⟩⟩ := next_cases h
  · have := envStep_act he
    cases a <;> simp_all [Act.isCall, Act.isEnv]
  · obtain rfl | rfl | ⟨rfl, -⟩ := sigCatchStep_act hc <;> cases ha
  · exact ⟨hf, mainStep_callSite hm, t, hm, rfl⟩

theorem next_env {c : Cfg} {s s' : St} {a : Act} (ha : a.isEnv = true)
    (h : next c s a = some s') : envStep s a = some s' := by
  unfold next at h
  split at h
  · cases h
  · rwa [if_pos ha] at h

/-- The supervisor process, running `ssh_run`. -/
def supervisor (c : Cfg) : Machine St Act := ⟨next c⟩

end Supervisor

end Autossh
