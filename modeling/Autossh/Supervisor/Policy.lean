import Autossh.Supervisor.Async
import Mathlib.Order.Bounds.Basic

/-!
# The restart policy

`ssh_wait` judges how a child has ended, and `ssh_run` starts the next one or returns.  This file
states the policy over the sequence of outcomes (`Outcome.terminal`, `stops`, `result`) and follows
it through a whole run of the supervisor:

* `tallying` is the supervisor with the number of children started and the outcomes `ssh_wait`
  has judged so far (`Tally`);
* `childDriven` has the steps of a run that only the ends of the children drive: no signal but
  their `SIGCHLD` and the `SIGALRM` of the timer is sent or delivered, and nothing on stderr is a
  reason to restart (`undisturbed`);
* `PolicyAt` : how the count, `start_count` and the outcomes go together at each control point;
* `run_policy` : **what `ssh_run` returns, and after how many children**, as long as `start_count`
  does not overflow (`counted`).
-/

namespace Autossh

namespace Supervisor

/-- How a child has ended: its wait status, and for how long `ssh_wait` finds it has run. -/
structure Outcome where
  status : ℕ
  uptime : ℤ
  deriving DecidableEq, Repr

/-- The first child did not outlive the starting gate. -/
def Outcome.gated (c : Cfg) (first : Bool) (o : Outcome) : Bool :=
  first = true ∧ c.gateTime ≠ 0 ∧ o.uptime ≤ c.gateTime

/-- The outcomes after which no other child is started: the child exited by itself, and too early
or with a status that is no reason to restart. -/
def Outcome.terminal (c : Cfg) (first : Bool) (o : Outcome) : Bool :=
  wifexited o.status = true ∧ (o.gated c first = true ∨
    ¬ (wexitstatus o.status = 255 ∨
      ((wexitstatus o.status = 1 ∨ wexitstatus o.status = 2) ∧ (first = false ∨ c.gateTime = 0))))

/-- What `ssh_run` returns after a terminal outcome. -/
def Outcome.rc (c : Cfg) (first : Bool) (o : Outcome) : Rc :=
  if wexitstatus o.status = 0 ∧ o.gated c first = false then .exitOk else .exitErr

/-- What `ssh_wait` is to return. -/
def Outcome.judge (c : Cfg) (first : Bool) (o : Outcome) : Rc :=
  if o.terminal c first = true then o.rc c first else .restart

/-- The numbers of children after which the policy ends a run with the outcomes `σ`: `max_start`,
and the position of every terminal outcome. -/
def stops (c : Cfg) (σ : ℕ → Outcome) : Set ℕ :=
  {n | (n : ℤ) = c.maxStart ∨ ∃ k, n = k + 1 ∧ (σ k).terminal c (k = 0) = true}

/-- What the policy has `ssh_run` return after `n` children. -/
def result (c : Cfg) (σ : ℕ → Outcome) : ℕ → Rc
  | 0 => .exitOk
  | k + 1 => if (σ k).terminal c (k = 0) = true then (σ k).rc c (k = 0) else .exitOk

/-- The number of children started, and the outcomes so far. -/
structure Tally where
  started : ℕ
  outcomes : List Outcome

/-- A child is counted when `fork` returns its pid, its outcome when `ssh_wait` judges it. -/
def Tally.next (s : St) (g : Tally) : Act → Tally
  | .fork r => if 0 < r then { g with started := g.started + 1 } else g
  | .tau => match s.frames, s.pc with
    | [], .watch (.status st) => { g with outcomes := g.outcomes ++ [⟨st, s.now - s.startTime⟩] }
    | _, _ => g
  | _ => g

/-- The supervisor with the tally. -/
def tallying (c : Cfg) : Machine (St × Tally) Act where
  next x a := (next c x.1 a).map fun s => (s, x.2.next x.1 a)

/-- The signals that the children and the alarm cause. -/
def mild (g : Sig) : Bool := g = .chld ∨ g = .alrm

/-- Nobody signals autossh, and `check_ssh_stderr` finds nothing. -/
def undisturbed : Act → Bool
  | .raise _ => false
  | .deliver g => mild g
  | .read _ (some chunk) => scanChunk chunk = .clean
  | _ => true

/-- The next `start_count += 1` does not overflow. -/
def counted (s : St) : Bool :=
  match s.pc with
  | .run .clearRestart => s.startCount < 2 ^ 31 - 1
  | _ => true

/-- The settings under which only the end of a child ends `ssh_watch`: no `AUTOSSH_MAXLIFETIME`, no
`AUTOSSH_MAX_SESSION`, no monitoring. -/
structure Cfg.Plain (c : Cfg) : Prop where
  maxLifetime : c.maxLifetime = 0
  maxSession : c.maxSession = 0
  monitor : c.monitor = false

/-! ### The verdict of `ssh_wait` -/

variable {c : Cfg} {s t : St} {a : Act} {g : Tally} {n : ℤ}

theorem Outcome.rc_eq (c : Cfg) (first : Bool) (o : Outcome) :
    o.rc c first = .exitOk ∨ o.rc c first = .exitErr := by
  unfold Outcome.rc
  split_ifs
  · exact .inl rfl
  · exact .inr rfl

/-- A child that a signal has ended is followed by another one. -/
theorem terminal_of_signaled {first : Bool} {o : Outcome} (h : wifsignaled o.status = true) :
    o.terminal c first = false := by
  have hexit : wifexited o.status = false := by
    simp only [wifsignaled, wifexited, decide_eq_true_eq, decide_eq_false_iff_not] at h ⊢
    exact h.1
  simp [Outcome.terminal, hexit]

/-- `ssh_wait` follows the policy if `start_count` is the number of the child. -/
theorem sshWaitStatus_eq {start now : ℤ} {st : ℕ} (hn : 1 ≤ n) (hst : terminated st = true) :
    (sshWaitStatus c n start now st).1 = (Outcome.mk st (now - start)).judge c (n = 1) := by
  unfold Outcome.judge
  by_cases hsig : wifsignaled st = true
  · rw [terminal_of_signaled hsig]
    simp [sshWaitStatus, hsig]
  have hexit : wifexited st = true := (terminated_iff.1 hst).resolve_right hsig
  unfold sshWaitStatus
  rw [if_neg hsig, if_pos hexit]
  by_cases hgate : n = 1 ∧ c.gateTime ≠ 0 ∧ now - start ≤ c.gateTime
  · simp [hgate, Outcome.terminal, Outcome.gated, Outcome.rc, hexit]
  · have hgated : (Outcome.mk st (now - start)).gated c (n = 1) = false := by
      simpa [Outcome.gated] using hgate
    -- a child after the first one is one with `start_count > 1`
    have hlater : n = 1 ↔ ¬ 1 < n := by omega
    rw [if_neg hgate]
    simp only [Outcome.terminal, Outcome.rc, hexit, hgated]
    split <;> rename_i hw
    · simp [hw]
    · simp [hw]
    · simp only [hw, hlater]
      split_ifs <;> simp_all
    · simp only [hw, hlater]
      split_ifs <;> simp_all
    · simp_all

/-! ### The control points -/

/-- No outcome so far was terminal. -/
def Survived (c : Cfg) (os : List Outcome) : Prop :=
  ∀ (k : ℕ) (o : Outcome), os[k]? = some o → o.terminal c (k = 0) = false

theorem Survived.concat {os : List Outcome} {o : Outcome} (h : Survived c os)
    (ho : o.terminal c (os.length = 0) = false) : Survived c (os ++ [o]) := by
  intro k o' hk
  rcases Nat.lt_trichotomy k os.length with hlt | rfl | hgt
  · rw [List.getElem?_append_left hlt] at hk
    exact h k o' hk
  · rw [List.getElem?_concat_length] at hk
    cases hk
    exact ho
  · rw [List.getElem?_eq_none (by rw [List.length_append]; exact hgt)] at hk
    cases hk

/-- `d` children beyond those that have ended are counted by `start_count`, and `k` are started. -/
structure Pending (c : Cfg) (n : ℤ) (g : Tally) (d k : ℕ) : Prop where
  survived : Survived c g.outcomes
  count : n = g.outcomes.length + d
  started : g.started = g.outcomes.length + k
  le_max : 0 ≤ c.maxStart → n ≤ c.maxStart

/-- The latest child has ended, and `ssh_wait` has returned `rc`. -/
structure Judged (c : Cfg) (n : ℤ) (g : Tally) (rc : Rc) : Prop where
  count : n = g.outcomes.length
  started : g.started = g.outcomes.length
  le_max : 0 ≤ c.maxStart → n ≤ c.maxStart
  verdict : ∃ os o, g.outcomes = os ++ [o] ∧ Survived c os ∧
    rc = o.judge c (os.length = 0)

/-- `ssh_run` is about to return `rc`. -/
def Ended (c : Cfg) (g : Tally) (rc : Rc) : Prop :=
  g.started = g.outcomes.length ∧ (0 ≤ c.maxStart → (g.started : ℤ) ≤ c.maxStart) ∧
    ((Survived c g.outcomes ∧ (g.started : ℤ) = c.maxStart ∧ rc = .exitOk) ∨
      ∃ os o, g.outcomes = os ++ [o] ∧ Survived c os ∧ o.terminal c (os.length = 0) = true ∧
        rc = o.rc c (os.length = 0))

/-- How `start_count` and the tally go together at each control point.  Without signals and fatal
messages `ssh_kill` is only called by `xerrlog!`, after a failed `fork`. -/
def PolicyAt (c : Cfg) (n : ℤ) (g : Tally) : Pc → Prop
  | .run (.setExit _) | .run .head => Pending c n g 0 0
  | .run .lifetime | .run .clearRestart => Pending c n g 0 0 ∧ (0 ≤ c.maxStart → n < c.maxStart)
  | .run .forkFailed | .run .closeRd | .run .closeWr => True
  | .run .parentClose | .run .parentFd | .run (.setHandlers _) => Pending c n g 1 1
  | .run (.clearJmp rc) | .run (.clearAlarm rc) | .run (.unsetHandlers rc _)
  | .run (.closeStderr rc) | .run (.testRc rc) => Judged c n g rc
  | .run (.ret rc) => Ended c g rc
  | .run _ => Pending c n g 1 0
  | .watch (.status st) | .drain .read (.wait st) => Pending c n g 1 1 ∧ terminated st = true
  | .watch (.waited .cont) => Pending c n g 1 1
  | .watch (.waited rc) | .watch (.ret rc) | .watch (.leave rc) => Judged c n g rc
  | .watch (.caught v) | .watch (.dispatch v) => Pending c n g 1 1 ∧ mild v = true
  | .watch .dropJmp => False
  | .watch _ => Pending c n g 1 1
  | .drain .read _ => Pending c n g 1 1
  | .drain .flag _ => False
  | .kill _ k => k = .fatal
  | .errlog _ k | .sleep _ k => PolicyAt c n g k
  | .exit | .gone => True

/-- The invariant of an undisturbed run. -/
structure Policed (c : Cfg) (s : St) (g : Tally) : Prop where
  at_pc : PolicyAt c s.startCount g s.pc
  exitSignalled : s.exitSignalled = false
  restartSsh : s.restartSsh = false
  frames : ∀ f ∈ s.frames, mild f.sig = true ∧ f.pc ≠ .setExit

/-! ### One step of the main program -/

/-- Only the return of `fork` and the verdict of `ssh_wait` change the tally. -/
theorem Tally.next_eq (hfork : ∀ r, a ≠ .fork r)
    (hstatus : a = .tau → s.frames = [] → ∀ st, s.pc ≠ .watch (.status st)) :
    g.next s a = g := by
  cases a with
  | fork r => exact absurd rfl (hfork r)
  | tau =>
    simp only [Tally.next]
    split
    · rename_i st hf hp
      exact absurd hp (hstatus rfl hf st)
    · rfl
  | _ => rfl

theorem exceededLifetime_plain (hc : c.Plain) (now : ℤ) : exceededLifetime c now = false := by
  simp [exceededLifetime, hc.maxLifetime]

theorem sshRunStep_policy {p : RunPc} (hc : c.Plain) (hs : PolicyAt c s.startCount g (.run p))
    (hexit : s.exitSignalled = false) (hcount : p = .clearRestart → s.startCount < 2 ^ 31 - 1)
    (hp : p ≠ .fork) (h : sshRunStep c s a p = some t) : PolicyAt c t.startCount g t.pc := by
  cases p with
  | setExit l | setHandlers l | unsetHandlers rc l =>
    cases l <;> obtain ⟨rfl, rfl⟩ := on_eq_some.1 h <;> exact hs
  | head =>
    obtain ⟨rfl, rfl⟩ := on_eq_some.1 h
    have hs : Pending c s.startCount g 0 0 := hs
    simp only [St.goto]
    split_ifs with hmax
    · exact ⟨hs, fun h0 => hmax.resolve_left (not_lt.2 h0)⟩
    · push Not at hmax
      have hle := hs.le_max hmax.1
      have hcnt := hs.count
      have hst := hs.started
      refine ⟨hst, fun _ => by omega, .inl ⟨hs.survived, by omega, rfl⟩⟩
  | lifetime =>
    obtain ⟨rfl, rfl⟩ := on_eq_some.1 h
    simp only [St.goto, exceededLifetime_plain hc]
    exact hs
  | clearRestart =>
    obtain ⟨rfl, rfl⟩ := on_eq_some.1 h
    obtain ⟨hs, hlt⟩ := hs
    have hcnt := hs.count
    have hwrap : i32Wrap (s.startCount + 1) = s.startCount + 1 := by
      refine i32Wrap_of_bounds ?_ ?_
      · omega
      · have := hcount rfl
        omega
    simp only [hwrap]
    exact ⟨hs.survived, by omega, hs.started, fun h0 => by have := hlt h0; omega⟩
  | grace =>
    obtain ⟨rfl, rfl⟩ := on_eq_some.1 h
    dsimp only
    split_ifs <;> exact hs
  | portDelay =>
    obtain ⟨rfl, rfl⟩ := on_eq_some.1 h
    simp only [St.goto]
    split_ifs <;> exact hs
  | testExit =>
    obtain ⟨rfl, rfl⟩ := on_eq_some.1 h
    simp only [St.goto, hexit]
    exact hs
  | pipe =>
    simp only [sshRunStep, Option.bind_eq_some_iff, pipe?_eq_some] at h
    obtain ⟨r, rfl, h⟩ := h
    rcases r with - | ⟨r, w⟩ <;> cases h <;> exact hs
  | fork => exact absurd rfl hp
  | closeStderr rc =>
    simp only [sshRunStep] at h
    split_ifs at h <;> obtain ⟨rfl, rfl⟩ := on_eq_some.1 h <;> exact hs
  | testRc rc =>
    obtain ⟨rfl, rfl⟩ := on_eq_some.1 h
    obtain ⟨hcnt, hst, hle, os, o, hos, hsurv, rfl⟩ := hs
    simp only [St.goto]
    by_cases hterm : o.terminal c (os.length = 0) = true
    · rw [Outcome.judge, if_pos hterm, if_pos (o.rc_eq c _)]
      rw [hcnt, ← hst] at hle
      exact ⟨hst, hle, .inr ⟨os, o, hos, hsurv, hterm, rfl⟩⟩
    · rw [Outcome.judge, if_neg hterm, if_neg (by decide)]
      refine ⟨?_, hcnt, hst, hle⟩
      rw [hos]
      exact hsurv.concat (Bool.eq_false_iff.2 hterm)
  | closeWr =>
    obtain ⟨rfl, rfl⟩ := on_eq_some.1 h
    rfl
  | ret rc | forkFailed | closeRd =>
    obtain ⟨rfl, rfl⟩ := on_eq_some.1 h
    trivial
  | _ =>
    obtain ⟨rfl, rfl⟩ := on_eq_some.1 h
    exact hs

/-- The `fork` itself. -/
theorem sshRunStep_fork_policy (hs : Pending c s.startCount g 1 0)
    (h : sshRunStep c s a .fork = some t) : PolicyAt c t.startCount (g.next s a) t.pc := by
  simp only [sshRunStep, Option.bind_eq_some_iff, fork?_eq_some] at h
  obtain ⟨r, rfl, h⟩ := h
  split_ifs at h with hfail hpid
  · cases h
    trivial
  · cases h
    simp only [Tally.next, if_pos hpid]
    exact ⟨hs.survived, hs.count, congrArg (· + 1) hs.started, hs.le_max⟩

/-- The verdict of `ssh_wait` is that of the policy. -/
theorem Pending.judged {st : ℕ} (hs : Pending c s.startCount g 1 1) (hst : terminated st = true) :
    Judged c s.startCount { g with outcomes := g.outcomes ++ [⟨st, s.now - s.startTime⟩] }
      (sshWaitStatus c s.startCount s.startTime s.now st).1 := by
  have hcnt := hs.count
  have hfirst : (s.startCount = 1) ↔ g.outcomes.length = 0 := by omega
  refine ⟨?_, ?_, hs.le_max, g.outcomes, _, rfl, hs.survived, ?_⟩
  · rw [hcnt, List.length_append]
    rfl
  · rw [hs.started, List.length_append]
    rfl
  · rw [sshWaitStatus_eq (by omega) hst, decide_eq_decide.2 hfirst]

theorem policyAt_waited {rc : Rc} (hrc : rc ≠ .cont) (h : Judged c n g rc) :
    PolicyAt c n g (.watch (.waited rc)) := by
  cases rc with
  | cont => exact absurd rfl hrc
  | restart | exitOk | exitErr => exact h

theorem sshWatchStep_policy {p : WatchPc} (hc : c.Plain) (hf : s.frames = [])
    (hpc : s.pc = .watch p) (hs : PolicyAt c s.startCount g (.watch p))
    (hexit : s.exitSignalled = false) (hrestart : s.restartSsh = false)
    (h : sshWatchStep c s a p = some t) : PolicyAt c t.startCount (g.next s a) t.pc := by
  rw [(sshWatchStep_kept h).startCount]
  by_cases hstatus : ∃ st, p = .status st
  · obtain ⟨st, rfl⟩ := hstatus
    obtain ⟨rfl, rfl⟩ := on_eq_some.1 h
    obtain ⟨hs, hst⟩ := hs
    have hnext : g.next s .tau =
        { g with outcomes := g.outcomes ++ [⟨st, s.now - s.startTime⟩] } := by
      simp only [Tally.next, hf, hpc]
    have hwaited := policyAt_waited (sshWaitStatus_ne_cont c _ _ _ hst) (hs.judged hst)
    rw [hnext]
    simp only [St.goto]
    split <;> rename_i heq <;> rw [heq] at hwaited <;> exact hwaited
  have hnext : g.next s a = g := by
    refine Tally.next_eq ?_ ?_
    · rintro r rfl
      have hcall : CallSite s (.fork r) := sshWatchStep_callSite hpc h
      rw [CallSite, hpc] at hcall
      cases hcall
    · rintro - - st hp
      rw [hpc] at hp
      cases hp
      exact hstatus ⟨st, rfl⟩
  rw [hnext]
  cases p with
  | status st => exact absurd ⟨st, rfl⟩ hstatus
  | wait =>
    simp only [sshWatchStep, Option.bind_eq_some_iff] at h
    obtain ⟨r, -, h⟩ := h
    cases r with
    | pid st =>
      simp only at h
      split_ifs at h with hst
      cases h
      exact ⟨hs, hst⟩
    | zero | err e =>
      cases h
      exact hs
  | waited rc =>
    obtain ⟨rfl, rfl⟩ := on_eq_some.1 h
    cases rc <;> exact hs
  | asleep old =>
    simp only [sshWatchStep] at h
    split_ifs at h
    simp only [Option.bind_eq_some_iff, Option.some.injEq] at h
    obtain ⟨re, -, rfl⟩ := h
    exact hs
  | testRestart =>
    obtain ⟨rfl, rfl⟩ := on_eq_some.1 h
    simp only [St.goto, hrestart]
    exact hs
  | testExit =>
    obtain ⟨rfl, rfl⟩ := on_eq_some.1 h
    simp only [St.goto, hexit]
    exact hs
  | dropJmp => exact hs.elim
  | wake re | pollin re | pollhup re =>
    obtain ⟨rfl, rfl⟩ := on_eq_some.1 h
    simp only [St.goto]
    split_ifs <;> exact hs
  | dispatch v =>
    obtain ⟨rfl, rfl⟩ := on_eq_some.1 h
    obtain ⟨hs, hv⟩ := hs
    obtain rfl | rfl := of_decide_eq_true hv
    · exact hs
    · exact hs
  | alrm =>
    obtain ⟨rfl, rfl⟩ := on_eq_some.1 h
    simp only [St.goto, exceededLifetime_plain hc]
    exact hs
  | watchdog =>
    obtain ⟨rfl, rfl⟩ := on_eq_some.1 h
    simp only [St.goto, watchdogNext, hc.maxSession]
    exact hs
  | conn =>
    simp only [sshWatchStep, hc.monitor] at h
    obtain ⟨rfl, rfl⟩ := on_eq_some.1 h
    exact hs
  | _ =>
    obtain ⟨rfl, rfl⟩ := on_eq_some.1 h
    exact hs

theorem DrainCont.resume_policy {k : DrainCont} (hs : PolicyAt c n g (.drain .read k)) :
    PolicyAt c n g (k.resume false) := by
  cases k <;> exact hs

theorem checkSshStderrStep_policy {k : DrainCont} {p : DrainPc} (ha : undisturbed a = true)
    (hs : PolicyAt c s.startCount g (.drain p k)) (h : checkSshStderrStep s k a p = some t) :
    PolicyAt c t.startCount g t.pc := by
  cases p with
  | read =>
    simp only [checkSshStderrStep] at h
    split_ifs at h
    · simp only [Option.bind_eq_some_iff, read?_eq_some] at h
      obtain ⟨r, rfl, h⟩ := h
      cases r with
      | none =>
        cases h
        exact DrainCont.resume_policy hs
      | some chunk =>
        simp only at h
        split_ifs at h
        cases h
        -- nothing is found
        have hclean : scanChunk chunk = .clean := of_decide_eq_true ha
        simp only [hclean]
        exact hs
    · obtain ⟨-, rfl⟩ := on_eq_some.1 h
      exact DrainCont.resume_policy hs
  | flag => exact hs.elim

theorem sshKillStep_policy {k : KillCont} {p : KillPc} (hs : k = .fatal)
    (h : sshKillStep s k a p = some t) : PolicyAt c n g t.pc := by
  subst hs
  exact sshKillStep_target (P := PolicyAt c n g) (fun _ => rfl) (fun _ _ => rfl) (fun _ _ => rfl)
    trivial h

theorem mainStep_policed (hc : c.Plain) (hf : s.frames = []) (hs : Policed c s g)
    (ha : undisturbed a = true) (hcount : counted s = true) (h : mainStep c s a = some t) :
    Policed c t (g.next s a) := by
  have hpc := hs.at_pc
  have hframes : ∀ f ∈ t.frames, mild f.sig = true ∧ f.pc ≠ .setExit := by
    rw [mainStep_frames h]
    exact hs.frames
  have hcall := mainStep_callSite h
  have hnext : s.pc ≠ .run .fork → (∀ st, s.pc ≠ .watch (.status st)) → g.next s a = g := by
    intro hfork hstatus
    refine Tally.next_eq ?_ fun _ _ => hstatus
    rintro r rfl
    exact hfork hcall
  rcases mainStep_cases h with ⟨p, hp, h⟩ | ⟨p, hp, h⟩ | ⟨p, k, hp, h⟩ | ⟨p, k, hp, h⟩ |
    ⟨k, ⟨m, hp⟩ | ⟨m, hp⟩, rfl, rfl⟩ | ⟨hp, rfl, rfl⟩
  · rw [hp] at hpc hnext
    have hframe := sshRunStep_frame h
    refine ⟨?_, hframe.exitSignalled.trans hs.exitSignalled, ?_, hframes⟩
    · by_cases hpf : p = .fork
      · subst hpf
        exact sshRunStep_fork_policy hpc h
      · rw [hnext (by simpa using hpf) (by simp)]
        refine sshRunStep_policy hc hpc hs.exitSignalled ?_ hpf h
        rintro rfl
        simpa [counted, hp] using hcount
    · rw [Bool.eq_false_iff]
      intro ht
      have hset := hframe.restartSsh ht
      rw [hs.restartSsh] at hset
      cases hset
  · rw [hp] at hpc
    have hframe := sshWatchStep_frame h
    exact ⟨sshWatchStep_policy hc hf hp hpc hs.exitSignalled hs.restartSsh h,
      hframe.exitSignalled.trans hs.exitSignalled, hframe.restartSsh.trans hs.restartSsh, hframes⟩
  · rw [hp] at hpc hnext
    rw [hnext (by simp) (by simp)]
    have hat := checkSshStderrStep_policy ha hpc h
    obtain ⟨_, _, _, rfl⟩ := checkSshStderrStep_frame h
    exact ⟨hat, hs.exitSignalled, hs.restartSsh, hframes⟩
  · rw [hp] at hpc hnext
    rw [hnext (by simp) (by simp)]
    have hat := sshKillStep_policy (c := c) (n := s.startCount) (g := g) hpc h
    obtain ⟨_, _, _, _, rfl⟩ := sshKillStep_frame h
    exact ⟨hat, hs.exitSignalled, hs.restartSsh, hframes⟩
  · rw [hp] at hpc hnext
    rw [hnext (by simp) (by simp)]
    exact ⟨hpc, hs.exitSignalled, hs.restartSsh, hframes⟩
  · rw [hp] at hpc hnext
    rw [hnext (by simp) (by simp)]
    exact ⟨hpc, hs.exitSignalled, hs.restartSsh, hframes⟩
  · exact ⟨trivial, hs.exitSignalled, hs.restartSsh, hframes⟩

/-! ### Handlers and the environment -/

theorem PolicyAt.elapse {p : Pc} (dt : ℕ) (h : PolicyAt c n g p) :
    PolicyAt c n g (p.elapse dt) := by
  cases p with
  | sleep m k => exact h
  | _ => exact h

theorem envStep_policed (hs : Policed c s g) (ha : undisturbed a = true)
    (h : envStep s a = some t) : Policed c t g := by
  cases a with
  | raise v => cases ha
  | deliver v =>
    obtain ⟨-, -, rfl | rfl | ⟨m, -, rfl⟩⟩ := deliver_cases h
    · exact ⟨hs.at_pc, hs.exitSignalled, hs.restartSsh, hs.frames⟩
    · exact ⟨trivial, hs.exitSignalled, hs.restartSsh, fun f hf => by cases hf⟩
    · have hnew : ∀ mask, ∀ f ∈ [Frame.mk v mask .enter],
          mild f.sig = true ∧ f.pc ≠ .setExit := by
        intro mask f hf
        obtain rfl := List.mem_singleton.1 hf
        exact ⟨ha, by simp⟩
      unfold pushFrame
      split
      · rename_i old hfs hp
        have hat := hs.at_pc
        rw [hp] at hat
        exact ⟨hat, hs.exitSignalled, hs.restartSsh, hnew old⟩
      · exact ⟨hs.at_pc, hs.exitSignalled, hs.restartSsh,
          List.forall_mem_append.2 ⟨hnew s.sg.mask, hs.frames⟩⟩
  | childExit st | timerFire =>
    simp only [envStep] at h
    split_ifs at h
    cases h
    exact ⟨hs.at_pc, hs.exitSignalled, hs.restartSsh, hs.frames⟩
  | elapse dw dt =>
    cases h
    exact ⟨hs.at_pc.elapse dt, hs.exitSignalled, hs.restartSsh, hs.frames⟩
  | _ => cases h

/-- `sig_catch` for `SIGCHLD` or `SIGALRM` sets no flag. -/
theorem sigCatchStep_policed {f : Frame} {fs : List Frame} (hinv : SigInv s)
    (hf : s.frames = f :: fs) (hs : Policed c s g) (h : sigCatchStep s f fs a = some t) :
    Policed c t g := by
  obtain ⟨⟨hmild, hset⟩, hbelow⟩ := List.forall_mem_cons.1 (hf ▸ hs.frames)
  have hstay : ∀ q, q ≠ .setExit → ∀ f' ∈ { f with pc := q } :: fs,
      mild f'.sig = true ∧ f'.pc ≠ .setExit :=
    fun q hq => List.forall_mem_cons.2 ⟨⟨hmild, hq⟩, hbelow⟩
  unfold sigCatchStep at h
  split at h <;> rename_i hp
  · have hsig : f.sig ≠ .usr1 ∧ ¬ (f.sig = .term ∨ f.sig = .int) := by
      obtain hg | hg := of_decide_eq_true hmild <;> rw [hg] <;> decide
    rw [if_neg hsig.1, if_neg hsig.2] at h
    obtain ⟨-, rfl⟩ := on_eq_some.1 h
    exact ⟨hs.at_pc, hs.exitSignalled, hs.restartSsh, hstay _ (by decide)⟩
  · exact absurd hp hset
  · obtain ⟨-, rfl⟩ := on_eq_some.1 h
    refine ⟨hs.at_pc, hs.exitSignalled, hs.restartSsh, hstay _ ?_⟩
    split_ifs <;> decide
  · obtain ⟨-, rfl⟩ := on_eq_some.1 h
    exact ⟨hs.at_pc, hs.exitSignalled, hs.restartSsh, hstay _ (by decide)⟩
  · obtain ⟨-, rfl⟩ := on_eq_some.1 h
    have hat := hs.at_pc
    rw [hinv.jumping f (by simp [hf]) (.inr hp)] at hat
    exact ⟨⟨hat, hmild⟩, hs.exitSignalled, hs.restartSsh, fun f' hf' => by cases hf'⟩
  · obtain ⟨-, rfl⟩ := on_eq_some.1 h
    exact ⟨hs.at_pc, hs.exitSignalled, hs.restartSsh, hbelow⟩

/-! ### Runs -/

theorem next_policed (hc : c.Plain) (hinv : SigInv s) (hs : Policed c s g)
    (ha : undisturbed a = true) (hcount : counted s = true) (h : next c s a = some t) :
    Policed c t (g.next s a) := by
  obtain ⟨-, he | ⟨f, fs, hf, hstep⟩ | ⟨hf, u, hm, rfl⟩⟩ := next_cases h
  · have hsame : g.next s a = g := by
      refine Tally.next_eq ?_ ?_
      · rintro r rfl
        cases he
      · rintro rfl
        cases he
    rw [hsame]
    exact envStep_policed hs ha he
  · have hsame : g.next s a = g := by
      refine Tally.next_eq ?_ fun _ hnil => ?_
      · rintro r rfl
        obtain ha | ha | ⟨ha, -⟩ := sigCatchStep_act hstep <;> cases ha
      · rw [hf] at hnil
        cases hnil
    rw [hsame]
    exact sigCatchStep_policed hinv hf hs hstep
  · obtain ⟨hat, hexit, hrestart, hframes⟩ := mainStep_policed hc hf hs ha hcount hm
    exact ⟨hat, hexit, hrestart, hframes⟩

/-- The supervisor with its tally, driven by the ends of the children alone. -/
def childDriven (c : Cfg) : Machine (St × Tally) Act :=
  (tallying c).guard fun _ a => undisturbed a = true

theorem childDriven_next {x y : St × Tally} : (childDriven c).next x a = some y ↔
    undisturbed a = true ∧ next c x.1 a = some y.1 ∧ y.2 = x.2.next x.1 a := by
  simp only [childDriven, Machine.guard_next, tallying, Option.map_eq_some_iff, Prod.ext_iff]
  refine and_congr_right fun _ => ⟨?_, ?_⟩
  · rintro ⟨t, hn, rfl, hg⟩
    exact ⟨hn, hg.symm⟩
  · rintro ⟨hn, hg⟩
    exact ⟨y.1, hn, rfl, hg.symm⟩

theorem run_policed (hc : c.Plain) {i : Inherited} {as : List Act}
    (h : ((childDriven c).guard fun x _ => counted x.1 = true).Run (.init i, ⟨0, []⟩) as (s, g)) :
    Policed c s g := by
  suffices hinv : SigInv s ∧ Policed c s g from hinv.2
  have hstart : Pending c 0 ⟨0, []⟩ 0 0 := by
    refine ⟨fun k o hk => ?_, rfl, rfl, id⟩
    rw [List.getElem?_nil] at hk
    cases hk
  refine h.invariant (I := fun x : St × Tally => SigInv x.1 ∧ Policed c x.1 x.2)
    ⟨init_sigInv i, hstart, rfl, rfl, fun f hf => by cases hf⟩ ?_
  rintro ⟨s, g⟩ a ⟨t, g'⟩ ⟨hinv, hs⟩ hn
  obtain ⟨hcount, hn⟩ := Machine.guard_next.1 hn
  obtain ⟨ha, hn, rfl⟩ := childDriven_next.1 hn
  exact ⟨next_sigInv hinv hn, next_policed hc hinv hs ha hcount hn⟩

/-- The outcomes are the first ones of `σ`. -/
def Follows (σ : ℕ → Outcome) (os : List Outcome) : Prop := ∀ k < os.length, os[k]? = some (σ k)

variable {σ : ℕ → Outcome}

theorem follows_concat {os : List Outcome} {o : Outcome} :
    Follows σ (os ++ [o]) ↔ Follows σ os ∧ o = σ os.length := by
  constructor
  · intro h
    constructor
    · intro k hk
      rw [← List.getElem?_append_left hk]
      exact h k (by rw [List.length_append]; omega)
    · have hlast := h os.length (by simp)
      rw [List.getElem?_concat_length] at hlast
      exact Option.some.inj hlast
  · rintro ⟨h, rfl⟩ k hk
    rw [List.length_append, List.length_singleton, Nat.lt_succ_iff_lt_or_eq] at hk
    rcases hk with hk | rfl
    · rw [List.getElem?_append_left hk]
      exact h k hk
    · exact List.getElem?_concat_length

theorem Survived.le_of_terminal {os : List Outcome} {k : ℕ} (h : Survived c os)
    (hσ : Follows σ os) (hk : (σ k).terminal c (k = 0) = true) : os.length ≤ k := by
  by_contra hlt
  have hfalse := h k _ (hσ k (not_le.1 hlt))
  rw [hk] at hfalse
  cases hfalse

/-- As many children were started as the policy says, and `ssh_run` returns what it says. -/
theorem Ended.policy {rc : Rc} (h : Ended c g rc) (hσ : Follows σ g.outcomes) :
    IsLeast (stops c σ) g.started ∧ rc = result c σ g.started := by
  obtain ⟨hstarted, hle, ⟨hsurv, hmax, rfl⟩ | ⟨os, o, hos, hsurv, hterm, rfl⟩⟩ := h
  · -- `max_start` was used up
    refine ⟨⟨.inl hmax, ?_⟩, ?_⟩
    · rintro m (hm | ⟨k, rfl, hk⟩)
      · omega
      · have hlen := hsurv.le_of_terminal hσ hk
        omega
    · cases hn : g.started with
      | zero => rfl
      | succ k =>
        have hk := hsurv k _ (hσ k (by omega))
        simp [result, hk]
  · -- the last outcome was terminal
    rw [hos, follows_concat] at hσ
    obtain ⟨hσ, rfl⟩ := hσ
    have hlen : g.started = os.length + 1 := by
      rw [hstarted, hos, List.length_append, List.length_singleton]
    refine ⟨⟨.inr ⟨os.length, hlen, hterm⟩, ?_⟩, ?_⟩
    · rintro m (hm | ⟨k, rfl, hk⟩)
      · have hmax := hle (by omega)
        omega
      · have hlast := hsurv.le_of_terminal hσ hk
        omega
    · rw [hlen, result, if_pos hterm]

/-- **The restart policy of a run.**  When `ssh_run` returns, the children it has started are
those up to the first terminal outcome, or `max_start` of them, and its result is the one of the
policy. -/
theorem run_policy (hc : c.Plain) {i : Inherited} {as : List Act} {rc : Rc}
    (h : ((childDriven c).guard fun x _ => counted x.1 = true).Run (.init i, ⟨0, []⟩) as (s, g))
    (hn : next c s (.runRet rc) = some t) (hσ : Follows σ g.outcomes) :
    IsLeast (stops c σ) g.started ∧ rc = result c σ g.started := by
  have hat := (run_policed hc h).at_pc
  obtain ⟨-, hp, -⟩ := next_call rfl hn
  have hp : s.pc = .run (.ret rc) := hp
  rw [hp] at hat
  exact Ended.policy hat hσ

end Supervisor

end Autossh
