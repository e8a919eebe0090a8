import Autossh.Supervisor.Async

/-!
# The watchdog for a silent child

`ssh_watch` kills a child that has written nothing to its stderr pipe for `max_session` seconds
after its start.  What it looks at is `last_stderr_time`, which `check_ssh_stderr` sets when it has
read something; so a child whose first bytes are still in the pipe is silent to it.

* `piped` is the supervisor together with the stderr pipe: the child writes, `read` takes what is
  there, and `ppoll` reports whether there is anything;
* `attentive` is a condition on the steps: `SIGALRM` ends the wait only when nothing is unread, and
  no first byte arrives from there to the test, unless the test comes before `max_session` is over;
* `watchdog_spares_talkative` : **then the watchdog does not kill a child that has written.**
-/

namespace Autossh

namespace Supervisor

/-! ### The pipe -/

/-- The stderr pipe of the latest child. -/
structure Pipe where
  /-- What has been written and not been read. -/
  unread : List UInt8
  /-- Something has been written. -/
  written : Bool
  deriving DecidableEq, Repr

/-- What an action of the supervisor does to the pipe, if it agrees with what is in it. -/
def Pipe.step (q : Pipe) : Act → Option Pipe
  | .pipe _ => some ⟨[], false⟩
  | .read _ (some chunk) =>
    if chunk <+: q.unread then some { q with unread := q.unread.drop chunk.length } else none
  | .read _ none => if q.unread = [] then some q else none
  | .poll re => if re.pollin = true ↔ q.unread ≠ [] then some q else none
  | _ => some q

/-- The actions of the supervisor, and writes of the child. -/
inductive PipeAct
  | act (a : Act)
  | write (b : List UInt8)

/-- The supervisor and the pipe. -/
def piped (c : Cfg) : Machine (St × Pipe) PipeAct where
  next x
    | .act a => (next c x.1 a).bind fun s => (x.2.step a).map fun q => (s, q)
    | .write b =>
      if b ≠ [] ∧ x.1.child = .running ∧ 0 ≤ x.1.sshStderrFd then
        some (x.1, ⟨x.2.unread ++ b, true⟩)
      else none

variable {c : Cfg} {s t : St} {q q' : Pipe} {a : Act}

theorem piped_act {x : St × Pipe} :
    (piped c).next (s, q) (.act a) = some x ↔ next c s a = some x.1 ∧ q.step a = some x.2 := by
  simp only [piped, Option.bind_eq_some_iff, Option.map_eq_some_iff]
  constructor
  · rintro ⟨t, ht, q', hq', rfl⟩
    exact ⟨ht, hq'⟩
  · rintro ⟨ht, hq'⟩
    exact ⟨x.1, ht, x.2, hq', rfl⟩

theorem piped_write {b : List UInt8} {x : St × Pipe} :
    (piped c).next (s, q) (.write b) = some x ↔
      (b ≠ [] ∧ s.child = .running ∧ 0 ≤ s.sshStderrFd) ∧ x = (s, ⟨q.unread ++ b, true⟩) := by
  simp only [piped]
  split_ifs with h
  · simp [h, eq_comm]
  · simp [h]

/-- The runs with the pipe are runs of the supervisor, between writes of the child. -/
theorem piped_simulates : (piped c).Simulates (supervisor c) (fun _ => True) Prod.fst
    fun _ b => match b with
      | .act a => some a
      | .write _ => none := by
  rintro ⟨s, q⟩ b y - h
  refine ⟨trivial, ?_⟩
  cases b with
  | act a => exact (piped_act.1 h).1
  | write b =>
    obtain ⟨-, rfl⟩ := piped_write.1 h
    rfl

/-! ### Where the test is made -/

/-- From `siglongjmp` with `SIGALRM` to the test. -/
def Pc.testing : Pc → Bool
  | .watch (.caught .alrm) | .watch (.dispatch .alrm) | .watch .alrm | .watch .watchdog => true
  | .errlog _ k | .sleep _ k => k.testing
  | _ => false

/-- From the reset of `last_stderr_time` to `pipe`, and when the process is gone. -/
def Pc.unpiped : Pc → Bool
  | .run .pipe | .gone => true
  | .errlog _ k | .sleep _ k => k.unpiped
  | _ => false

theorem Pc.unpiped_of_testing {p : Pc} (h : p.testing = true) : p.unpiped = false := by
  induction p with
  | errlog m k ih | sleep n k ih => exact ih h
  | watch p => rfl
  | run p => cases h
  | gone => cases h
  | _ => rfl

theorem KillCont.resume_testing (k : KillCont) : k.resume.testing = false := by
  cases k <;> rfl

theorem DrainCont.resume_testing (k : DrainCont) (b : Bool) : (k.resume b).testing = false := by
  cases k <;> cases b <;> rfl

/-- What a step of the main program does to `last_stderr_time`: nothing, unless it resets it for a
new child or has read something; it comes to the test from nowhere else, and to the child only
through `pipe`. -/
structure StderrStep (s : St) (p : Pc) (a : Act) (t : St) : Prop where
  testing : t.pc.testing = true → p.testing = true
  time : t.lastStderrTime = s.lastStderrTime ∨ t.pc.unpiped = true ∨
    ∃ fd chunk, a = .read fd (some chunk) ∧ t.lastStderrTime = s.now
  unpiped : p.unpiped = true → t.pc.unpiped = true ∨ ∃ r, a = .pipe r

theorem StderrStep.plain {p : Pc} (ht : t.pc.testing = false)
    (htime : t.lastStderrTime = s.lastStderrTime) (hp : p.unpiped = false) :
    StderrStep s p a t where
  testing h := absurd (ht.symm.trans h) Bool.false_ne_true
  time := .inl htime
  unpiped h := absurd (hp.symm.trans h) Bool.false_ne_true

theorem sshWatchStep_testing {p : WatchPc} (h : sshWatchStep c s a p = some t)
    (ht : t.pc.testing = true) : (Pc.watch p).testing = true := by
  cases p with
  | alrm | watchdog => rfl
  | caught v | dispatch v =>
    obtain ⟨-, rfl⟩ := on_eq_some.1 h
    cases v <;> first | rfl | cases ht
  | wait =>
    simp only [sshWatchStep, Option.bind_eq_some_iff] at h
    obtain ⟨r, -, h⟩ := h
    cases r with
    | pid st =>
      simp only at h
      split_ifs at h
      cases h
      cases ht
    | zero | err e =>
      cases h
      cases ht
  | status st =>
    obtain ⟨-, rfl⟩ := on_eq_some.1 h
    simp only [St.goto] at ht
    split at ht <;> cases ht
  | testRestart | waited rc | testExit | wake re | pollin re | pollhup re =>
    obtain ⟨-, rfl⟩ := on_eq_some.1 h
    simp only [St.goto] at ht
    split_ifs at ht <;> cases ht
  | asleep old =>
    simp only [sshWatchStep] at h
    split_ifs at h
    simp only [Option.bind_eq_some_iff, Option.some.injEq] at h
    obtain ⟨re, -, rfl⟩ := h
    cases ht
  | conn =>
    simp only [sshWatchStep] at h
    split_ifs at h
    · simp only [Option.bind_eq_some_iff, Option.some.injEq] at h
      obtain ⟨r, -, rfl⟩ := h
      cases r <;> cases ht
    · obtain ⟨-, rfl⟩ := on_eq_some.1 h
      cases ht
  | _ =>
    obtain ⟨-, rfl⟩ := on_eq_some.1 h
    cases ht

theorem sshRunStep_stderr {p : RunPc} (h : sshRunStep c s a p = some t) :
    StderrStep s (.run p) a t := by
  cases p with
  | setExit l | setHandlers l | unsetHandlers rc l =>
    cases l <;> obtain ⟨-, rfl⟩ := on_eq_some.1 h <;> exact .plain rfl rfl rfl
  | head | lifetime | portDelay | testExit | testRc rc =>
    obtain ⟨-, rfl⟩ := on_eq_some.1 h
    refine .plain ?_ rfl rfl
    simp only [St.goto]
    split_ifs <;> rfl
  | grace =>
    obtain ⟨-, rfl⟩ := on_eq_some.1 h
    refine .plain ?_ rfl rfl
    dsimp only
    split_ifs <;> rfl
  | stamp =>
    obtain ⟨-, rfl⟩ := on_eq_some.1 h
    exact ⟨fun ht => absurd ht Bool.false_ne_true, .inr (.inl rfl),
      fun hp => absurd hp Bool.false_ne_true⟩
  | pipe =>
    simp only [sshRunStep, Option.bind_eq_some_iff, pipe?_eq_some] at h
    obtain ⟨r, rfl, h⟩ := h
    rcases r with - | ⟨r, w⟩ <;> cases h <;>
      exact ⟨fun ht => absurd ht Bool.false_ne_true, .inl rfl, fun _ => .inr ⟨_, rfl⟩⟩
  | fork =>
    simp only [sshRunStep, Option.bind_eq_some_iff] at h
    obtain ⟨r, -, h⟩ := h
    split_ifs at h <;> cases h <;> exact .plain rfl rfl rfl
  | closeStderr rc =>
    simp only [sshRunStep] at h
    split_ifs at h <;> obtain ⟨-, rfl⟩ := on_eq_some.1 h <;> exact .plain rfl rfl rfl
  | _ =>
    obtain ⟨-, rfl⟩ := on_eq_some.1 h
    exact .plain rfl rfl rfl

theorem sshWatchStep_stderr {p : WatchPc} (h : sshWatchStep c s a p = some t) :
    StderrStep s (.watch p) a t where
  testing := sshWatchStep_testing h
  time := .inl (sshWatchStep_kept h).lastStderrTime
  unpiped hp := absurd hp Bool.false_ne_true

theorem checkSshStderrStep_stderr {p : DrainPc} {k : DrainCont}
    (h : checkSshStderrStep s k a p = some t) : StderrStep s (.drain p k) a t := by
  have htest : t.pc.testing = false :=
    checkSshStderrStep_target (P := fun q => q.testing = false) (fun _ => rfl) (fun _ => rfl)
      k.resume_testing (fun _ => k.resume_testing true) h
  cases p with
  | read =>
    simp only [checkSshStderrStep] at h
    split_ifs at h
    · simp only [Option.bind_eq_some_iff, read?_eq_some] at h
      obtain ⟨r, rfl, h⟩ := h
      cases r with
      | none =>
        cases h
        exact .plain htest rfl rfl
      | some chunk =>
        simp only at h
        split_ifs at h
        cases h
        exact ⟨fun ht => absurd (htest.symm.trans ht) Bool.false_ne_true,
          .inr (.inr ⟨_, chunk, rfl, rfl⟩), fun hp => absurd hp Bool.false_ne_true⟩
    · obtain ⟨-, rfl⟩ := on_eq_some.1 h
      exact .plain htest rfl rfl
  | flag =>
    obtain ⟨-, rfl⟩ := on_eq_some.1 h
    exact .plain htest rfl rfl

theorem sshKillStep_stderr {p : KillPc} {k : KillCont} (h : sshKillStep s k a p = some t) :
    StderrStep s (.kill p k) a t := by
  have htest : t.pc.testing = false :=
    sshKillStep_target (P := fun q => q.testing = false) (fun _ => rfl) (fun _ _ => rfl)
      (fun _ _ => rfl) k.resume_testing h
  obtain ⟨_, _, _, _, rfl⟩ := sshKillStep_frame h
  exact .plain htest rfl rfl

theorem mainStep_stderr (h : mainStep c s a = some t) : StderrStep s s.pc a t := by
  rcases mainStep_cases h with ⟨p, hp, h⟩ | ⟨p, hp, h⟩ | ⟨p, k, hp, h⟩ | ⟨p, k, hp, h⟩ |
    ⟨k, ⟨m, hp⟩ | ⟨n, hp⟩, rfl, rfl⟩ | ⟨hp, rfl, rfl⟩ <;> rw [hp]
  · exact sshRunStep_stderr h
  · exact sshWatchStep_stderr h
  · exact checkSshStderrStep_stderr h
  · exact sshKillStep_stderr h
  · exact ⟨id, .inl rfl, .inl⟩
  · exact ⟨id, .inl rfl, .inl⟩
  · exact .plain rfl rfl rfl

theorem Pc.elapse_testing (p : Pc) (dt : ℕ) : (p.elapse dt).testing = p.testing := by
  cases p <;> rfl

theorem Pc.elapse_unpiped (p : Pc) (dt : ℕ) : (p.elapse dt).unpiped = p.unpiped := by
  cases p <;> rfl

/-- Nothing happens to the control point, or the process ends. -/
theorem StderrStep.stay (hpc : t.pc = s.pc ∨ t.pc = .gone)
    (htime : t.lastStderrTime = s.lastStderrTime) : StderrStep s s.pc a t := by
  rcases hpc with hpc | hpc
  · exact ⟨fun h => hpc ▸ h, .inl htime, fun h => .inl (hpc ▸ h)⟩
  · refine ⟨fun h => ?_, .inl htime, fun _ => .inl (by rw [hpc]; rfl)⟩
    rw [hpc] at h
    cases h

theorem envStep_stderr (h : envStep s a = some t) : StderrStep s s.pc a t := by
  cases a with
  | raise g =>
    cases h
    exact .stay (.inl rfl) rfl
  | deliver g =>
    obtain ⟨-, -, rfl | rfl | ⟨m, -, rfl⟩⟩ := deliver_cases h
    · exact .stay (.inl rfl) rfl
    · exact .stay (.inr rfl) rfl
    · unfold pushFrame
      split
      · rename_i hp
        exact .plain rfl rfl (by rw [hp]; rfl)
      · exact .stay (.inl rfl) rfl
  | childExit st =>
    simp only [envStep] at h
    split_ifs at h
    cases h
    exact .stay (.inl rfl) rfl
  | elapse dw dt =>
    cases h
    exact ⟨fun h => (Pc.elapse_testing ..).symm.trans h, .inl rfl,
      fun h => .inl ((Pc.elapse_unpiped ..).trans h)⟩
  | timerFire =>
    simp only [envStep] at h
    split_ifs at h
    cases h
    exact .stay (.inl rfl) rfl
  | _ => cases h

/-- Only `siglongjmp` with `SIGALRM` leads to the test. -/
theorem sigCatchStep_stderr {f : Frame} {fs : List Frame} (hs : SigInv s) (hf : s.frames = f :: fs)
    (h : sigCatchStep s f fs a = some t) :
    (a = .longjmp .alrm ∧ t.lastStderrTime = s.lastStderrTime ∧ s.pc.unpiped = false) ∨
      StderrStep s s.pc a t := by
  unfold sigCatchStep at h
  split at h <;> rename_i hp
  · right
    split_ifs at h <;> obtain ⟨-, rfl⟩ := on_eq_some.1 h
    · exact .stay (.inl rfl) rfl
    · exact .stay (.inr rfl) rfl
    · exact .stay (.inl rfl) rfl
    · exact .stay (.inl rfl) rfl
  · obtain ⟨-, rfl⟩ := on_eq_some.1 h
    exact .inr (.stay (.inl rfl) rfl)
  · obtain ⟨-, rfl⟩ := on_eq_some.1 h
    exact .inr (.stay (.inl rfl) rfl)
  · obtain ⟨-, rfl⟩ := on_eq_some.1 h
    exact .inr (.stay (.inl rfl) rfl)
  · obtain ⟨rfl, rfl⟩ := on_eq_some.1 h
    have hunpiped : s.pc.unpiped = false := by
      rw [hs.jumping f (by simp [hf]) (.inr hp)]
      rfl
    by_cases hsig : f.sig = .alrm
    · exact .inl ⟨by rw [hsig], rfl, hunpiped⟩
    · refine .inr (.plain ?_ rfl hunpiped)
      dsimp only
      cases hv : f.sig <;> first | rfl | exact absurd hv hsig
  · obtain ⟨-, rfl⟩ := on_eq_some.1 h
    exact .inr (.stay (.inl rfl) rfl)

theorem next_stderr (hs : SigInv s) (h : next c s a = some t) :
    (a = .longjmp .alrm ∧ t.lastStderrTime = s.lastStderrTime ∧ s.pc.unpiped = false) ∨
      StderrStep s s.pc a t := by
  obtain ⟨-, he | ⟨f, fs, hf, hc⟩ | ⟨-, u, hm, rfl⟩⟩ := next_cases h
  · exact .inr (envStep_stderr he)
  · exact sigCatchStep_stderr hs hf hc
  · obtain ⟨htest, htime, hunpiped⟩ := mainStep_stderr hm
    exact .inr ⟨htest, htime, hunpiped⟩

/-! ### Reading -/

theorem sshRunStep_ne_read {p : RunPc} {fd : ℤ} {r : Option (List UInt8)} :
    sshRunStep c s (.read fd r) p = none := by
  cases p with
  | setExit l | setHandlers l | unsetHandlers rc l => cases l <;> rfl
  | closeRd | closeWr | parentClose | closeStderr rc =>
    simp only [sshRunStep]
    split_ifs <;> rfl
  | _ => rfl

theorem sshWatchStep_ne_read {p : WatchPc} {fd : ℤ} {r : Option (List UInt8)} :
    sshWatchStep c s (.read fd r) p = none := by
  cases p with
  | asleep old | conn =>
    simp only [sshWatchStep]
    split_ifs <;> rfl
  | _ => rfl

theorem sshKillStep_ne_read {p : KillPc} {k : KillCont} {fd : ℤ} {r : Option (List UInt8)} :
    sshKillStep s k (.read fd r) p = none := by
  cases p with
  | close | poll ph w =>
    simp only [sshKillStep]
    split_ifs <;> rfl
  | _ => rfl

/-- What is read is noted. -/
theorem next_read {fd : ℤ} {chunk : List UInt8} (h : next c s (.read fd (some chunk)) = some t) :
    t.lastStderrTime = s.now := by
  obtain ⟨-, -, u, hm, rfl⟩ := next_call rfl h
  rcases mainStep_cases hm with ⟨p, -, h⟩ | ⟨p, -, h⟩ | ⟨p, k, -, h⟩ | ⟨p, k, -, h⟩ |
    ⟨k, -, ha, -⟩ | ⟨-, ha, -⟩
  · rw [sshRunStep_ne_read] at h
    cases h
  · rw [sshWatchStep_ne_read] at h
    cases h
  · cases p with
    | read =>
      simp only [checkSshStderrStep] at h
      split_ifs at h
      · simp only [Option.bind_eq_some_iff, read?_eq_some, Act.read.injEq] at h
        obtain ⟨r, ⟨-, rfl⟩, h⟩ := h
        simp only at h
        split_ifs at h
        cases h
        rfl
      · cases (on_eq_some.1 h).1
    | flag => cases (on_eq_some.1 h).1
  · rw [sshKillStep_ne_read] at h
    cases h
  · cases ha
  · cases ha

/-- What an action does to the pipe. -/
theorem Pipe.step_cases (h : q.step a = some q') :
    (∃ r, a = .pipe r ∧ q' = ⟨[], false⟩) ∨
      (∃ fd chunk, a = .read fd (some chunk) ∧ q'.written = q.written) ∨
      ((∀ r, a ≠ .pipe r) ∧ (∀ fd chunk, a ≠ .read fd (some chunk)) ∧ q' = q) := by
  cases a with
  | pipe r =>
    cases h
    exact .inl ⟨r, rfl, rfl⟩
  | read fd r =>
    cases r with
    | none =>
      simp only [step] at h
      split_ifs at h
      cases h
      exact .inr (.inr ⟨by simp, by simp, rfl⟩)
    | some chunk =>
      simp only [step] at h
      split_ifs at h
      cases h
      exact .inr (.inl ⟨fd, chunk, rfl, rfl⟩)
  | poll re =>
    simp only [step] at h
    split_ifs at h
    cases h
    exact .inr (.inr ⟨by simp, by simp, rfl⟩)
  | _ =>
    cases h
    exact .inr (.inr ⟨by simp, by simp, rfl⟩)

/-! ### The watchdog -/

/-- `max_session` is not over yet. -/
def St.early (c : Cfg) (s : St) : Bool := s.now - s.startTime < c.maxSession

/-- `SIGALRM` ends the wait only when nothing is unread, or something has been read before; from
there to the test the child does not write its first bytes; or else `max_session` is not over, and
is not until the test.  And the clock is not at 0 when something is read. -/
def attentive (c : Cfg) (x : St × Pipe) : PipeAct → Bool
  | .act (.longjmp .alrm) => x.1.lastStderrTime ≠ 0 ∨ x.2.unread = [] ∨ x.1.early c = true
  | .act (.elapse dw _) => x.1.pc.testing = false ∨ x.1.lastStderrTime ≠ 0 ∨ x.2.unread = [] ∨
      x.1.now + dw - x.1.startTime < c.maxSession
  | .act (.read _ (some _)) => x.1.now ≠ 0
  | .write _ => x.1.pc.testing = false ∨ x.1.lastStderrTime ≠ 0 ∨ x.1.early c = true
  | _ => true

/-- A child that has written has been read, or has something unread; at the test, it has been
read, or it is too early. -/
structure Heard (c : Cfg) (s : St) (q : Pipe) : Prop where
  sig : SigInv s
  unread : s.pc.unpiped = true ∨ (q.written = true → s.lastStderrTime ≠ 0 ∨ q.unread ≠ [])
  testing : s.pc.testing = true → s.lastStderrTime ≠ 0 ∨ q.unread = [] ∨ s.early c = true

/-- Between `siglongjmp` and the test only the passing of time moves the clock, and no child is
started. -/
theorem next_clock (h : next c s a = some t) (hpc : s.pc.testing = true ∨ a = .longjmp .alrm)
    (ha : ∀ dw dt, a ≠ .elapse dw dt) : t.now = s.now ∧ t.startTime = s.startTime := by
  obtain ⟨-, he | ⟨f, fs, -, hc⟩ | ⟨-, u, hm, rfl⟩⟩ := next_cases h
  · refine ⟨?_, (envStep_kept he).startTime⟩
    cases a with
    | elapse dw dt => exact absurd rfl (ha dw dt)
    | raise g =>
      cases he
      rfl
    | deliver g =>
      obtain ⟨-, -, rfl | rfl | ⟨m, -, rfl⟩⟩ := deliver_cases he
      · rfl
      · rfl
      · unfold pushFrame
        split <;> rfl
    | childExit st | timerFire =>
      simp only [envStep] at he
      split_ifs at he
      cases he
      rfl
    | _ => cases he
  · refine ⟨?_, (sigCatchStep_kept hc).startTime⟩
    unfold sigCatchStep at hc
    split at hc
    · split_ifs at hc <;> obtain ⟨-, rfl⟩ := on_eq_some.1 hc <;> rfl
    all_goals
      obtain ⟨-, rfl⟩ := on_eq_some.1 hc
      rfl
  · rcases hpc with htest | rfl
    · rcases mainStep_cases hm with ⟨p, hp, -⟩ | ⟨p, -, hw⟩ | ⟨p, k, hp, -⟩ | ⟨p, k, hp, -⟩ |
        ⟨k, -, -, rfl⟩ | ⟨hp, -⟩
      · rw [hp] at htest
        cases htest
      · exact ⟨(sshWatchStep_frame hw).now, (sshWatchStep_kept hw).startTime⟩
      · rw [hp] at htest
        cases htest
      · rw [hp] at htest
        cases htest
      · exact ⟨rfl, rfl⟩
      · rw [hp] at htest
        cases htest
    · exact (mainStep_callSite hm).elim

theorem init_heard (c : Cfg) (i : Inherited) : Heard c (.init i) ⟨[], false⟩ where
  sig := init_sigInv i
  unread := .inr fun h => absurd h Bool.false_ne_true
  testing h := absurd h Bool.false_ne_true

/-- At the test nothing is unread that has not been noted, or it is too early. -/
theorem next_testing (hs : Heard c s q) (ht : attentive c (s, q) (.act a) = true)
    (h : next c s a = some t) (htest : t.pc.testing = true)
    (hread : ∀ fd chunk, a ≠ .read fd (some chunk)) :
    t.lastStderrTime ≠ 0 ∨ q.unread = [] ∨ t.early c = true := by
  obtain ⟨rfl, htime, -⟩ | ⟨hbefore, htime, -⟩ := next_stderr hs.sig h
  · obtain ⟨hnow, hstart⟩ := next_clock h (.inr rfl) (by simp)
    have hempty : s.lastStderrTime ≠ 0 ∨ q.unread = [] ∨ s.early c = true := of_decide_eq_true ht
    rwa [htime, St.early, hnow, hstart]
  · have hlast : t.lastStderrTime = s.lastStderrTime := by
      rcases htime with htime | hu | ⟨fd, chunk, ha, -⟩
      · exact htime
      · exact absurd ((Pc.unpiped_of_testing htest).symm.trans hu) Bool.false_ne_true
      · exact absurd ha (hread fd chunk)
    rw [hlast]
    by_cases ha : ∃ dw dt, a = .elapse dw dt
    · obtain ⟨dw, dt, rfl⟩ := ha
      have hlate : s.pc.testing = false ∨ s.lastStderrTime ≠ 0 ∨ q.unread = [] ∨
          s.now + dw - s.startTime < c.maxSession := of_decide_eq_true ht
      have hlate := hlate.resolve_left fun hf =>
        absurd (hf.symm.trans (hbefore htest)) Bool.false_ne_true
      cases next_env rfl h
      exact hlate.imp_right fun h => h.imp_right fun h => decide_eq_true h
    · obtain ⟨hnow, hstart⟩ :=
        next_clock h (.inl (hbefore htest)) fun dw dt hd => ha ⟨dw, dt, hd⟩
      rw [St.early, hnow, hstart]
      exact hs.testing (hbefore htest)

theorem piped_heard {x y : St × Pipe} {b : PipeAct} (hx : Heard c x.1 x.2)
    (ht : attentive c x b = true) (h : (piped c).next x b = some y) : Heard c y.1 y.2 := by
  obtain ⟨s, q⟩ := x
  cases b with
  | write b =>
    obtain ⟨⟨hb, -⟩, rfl⟩ := piped_write.1 h
    have hquiet : s.pc.testing = false ∨ s.lastStderrTime ≠ 0 ∨ s.early c = true :=
      of_decide_eq_true ht
    refine ⟨hx.sig, .inr fun _ => .inr (by simp [hb]), fun htest => ?_⟩
    have hearly := hquiet.resolve_left fun hf => absurd (hf.symm.trans htest) Bool.false_ne_true
    exact hearly.imp_right .inr
  | act a =>
    obtain ⟨t, q'⟩ := y
    obtain ⟨hn, hq⟩ := piped_act.1 h
    refine ⟨next_sigInv hx.sig hn, ?_, ?_⟩
    · -- a byte written is read, or stays in the pipe
      obtain ⟨r, rfl, rfl⟩ | ⟨fd, chunk, rfl, -⟩ | ⟨hpipe, hread, rfl⟩ := Pipe.step_cases hq
      · exact .inr fun hw => absurd hw Bool.false_ne_true
      · have hnow : s.now ≠ 0 := of_decide_eq_true ht
        exact .inr fun _ => .inl (next_read hn ▸ hnow)
      · obtain ⟨-, htime, hp⟩ | ⟨-, htime, hunpiped⟩ := next_stderr hx.sig hn
        · have hunread :=
            hx.unread.resolve_left fun hu => absurd (hp.symm.trans hu) Bool.false_ne_true
          exact .inr fun hw => htime ▸ hunread hw
        · rcases htime with htime | hu | ⟨fd, chunk, rfl, -⟩
          · rcases hx.unread with hu | hunread
            · exact .inl ((hunpiped hu).resolve_right fun ⟨r, hr⟩ => hpipe r hr)
            · exact .inr fun hw => htime ▸ hunread hw
          · exact .inl hu
          · exact absurd rfl (hread fd chunk)
    · intro htest
      obtain ⟨r, rfl, rfl⟩ | ⟨fd, chunk, rfl, -⟩ | ⟨-, hread, rfl⟩ := Pipe.step_cases hq
      · exact .inr (.inl rfl)
      · have hnow : s.now ≠ 0 := of_decide_eq_true ht
        exact .inl (next_read hn ▸ hnow)
      · exact next_testing hx ht hn htest fun fd chunk ha => hread fd chunk ha

theorem piped_run_heard {i : Inherited} {bs : List PipeAct}
    (hr : ((piped c).guard fun x b => attentive c x b = true).Run (.init i, ⟨[], false⟩) bs
      (s, q)) : Heard c s q := by
  refine hr.invariant (I := fun x => Heard c x.1 x.2) (init_heard c i) fun x b y hx h => ?_
  obtain ⟨ht, hy⟩ := Machine.guard_next.1 h
  exact piped_heard hx ht hy

/-- A child is reported as stuck when nothing it wrote has been read, and `max_session` is over. -/
theorem lastStderrTime_of_connectStuck {secs : ℤ} {k : Pc} (hs : SigInv s)
    (hpc : s.pc = .watch .watchdog) (h : next c s a = some t)
    (hstuck : t.pc = .errlog (.connectStuck secs) k) :
    s.lastStderrTime = 0 ∧ s.early c = false := by
  obtain ⟨-, has⟩ | ⟨-, u, hm, rfl⟩ := next_main_or_async hs h
  · -- the report is a step of the main program
    have hslide := has.pc
    rw [hpc, hstuck] at hslide
    cases hslide
  · simp only [mainStep, hpc, sshWatchStep] at hm
    obtain ⟨-, rfl⟩ := on_eq_some.1 hm
    simp only [St.goto, watchdogNext] at hstuck
    split_ifs at hstuck with hlost hsilent
    · cases hstuck
    · exact ⟨hsilent.2.1, decide_eq_false (not_lt.2 hsilent.2.2)⟩

/-- **The watchdog does not kill a child that has written something**, in a run whose steps are
all attentive. -/
theorem watchdog_spares_talkative (c : Cfg) (i : Inherited) (a : Act) {bs : List PipeAct} {s t : St}
    {q : Pipe}
    (hr : ((piped c).guard fun x b => attentive c x b = true).Run (.init i, ⟨[], false⟩) bs (s, q))
    (hpc : s.pc = .watch .watchdog) (hn : next c s a = some t) (hw : q.written = true) :
    ∀ secs k, t.pc ≠ .errlog (.connectStuck secs) k := by
  intro secs k hstuck
  have hheard := piped_run_heard hr
  have htest : s.pc.testing = true := by rw [hpc]; rfl
  have hpiped : s.pc.unpiped = false := Pc.unpiped_of_testing htest
  obtain ⟨hzero, hlate⟩ := lastStderrTime_of_connectStuck hheard.sig hpc hn hstuck
  have hsilent := (hheard.testing htest).resolve_left (not_not.2 hzero)
  have hempty : q.unread = [] :=
    hsilent.resolve_right fun hearly => Bool.false_ne_true (hlate.symm.trans hearly)
  have hunread :=
    hheard.unread.resolve_left fun hu => absurd (hpiped.symm.trans hu) Bool.false_ne_true
  rcases hunread hw with htime | hne
  · exact htime hzero
  · exact hne hempty

/-- At most 30 seconds of silence. -/
def impatient : Cfg :=
  { Cfg.default with maxSession := 30, maxSession_nonneg := by decide }

/-- The alarm expires after `d` seconds, and `SIGALRM` ends the wait. -/
def alarmed (d : ℕ) : List Act :=
  [.elapse d d, .timerFire, .deliver .alrm, .tau, .tau, .tau, .longjmp .alrm]

/-- After ten seconds the child writes two bytes, `ppoll` returns and they are read. -/
def greeting : List PipeAct :=
  [.act (.elapse 10 10), .write [72, 105], .act (.poll ⟨true, false, false⟩), .act .tau, .act .tau,
    .act (.read 3 (some [72, 105])), .act (.read 3 none)]

theorem watchdog_spares_greeting :
    ∃ s t q, ((piped impatient).guard fun x b => attentive impatient x b = true).Run
        (.init .clean, ⟨[], false⟩)
        ((startup 100 30).map .act ++ greeting ++
          (List.replicate 4 Act.tau ++ ([.waitpid .sshWait 100 .zero, .tau, .alarm 0 20, .tau, .tau,
            .alarm 20 0, .tau, .tau] : List Act) ++ alarmed 20 ++
            List.replicate 3 Act.tau).map .act) (s, q) ∧
      s.pc = .watch .watchdog ∧ next impatient s .tau = some t ∧ q.written = true ∧
      ∀ secs k, t.pc ≠ .errlog (.connectStuck secs) k := by
  have hr : ((piped impatient).guard fun x b => attentive impatient x b = true).Run
      (.init .clean, ⟨[], false⟩)
      ((startup 100 30).map .act ++ greeting ++
        (List.replicate 4 Act.tau ++ ([.waitpid .sshWait 100 .zero, .tau, .alarm 0 20, .tau, .tau,
          .alarm 20 0, .tau, .tau] : List Act) ++ alarmed 20 ++
          List.replicate 3 Act.tau).map .act) (_, _) := rfl
  exact ⟨_, _, _, hr, rfl, rfl, rfl, watchdog_spares_talkative impatient .clean .tau hr rfl rfl rfl⟩

/-- Two bytes written after `SIGALRM` has ended the wait are in the pipe at the test, and the child
is killed for its silence. -/
theorem watchdog_kills_late_greeting :
    ∃ s t q k, (piped impatient).Run (.init .clean, ⟨[], false⟩)
        ((startup 100 30 ++ alarmed 30).map .act ++ [.write [72, 105]] ++
          (List.replicate 3 Act.tau).map .act) (s, q) ∧
      s.pc = .watch .watchdog ∧ next impatient s .tau = some t ∧ q.written = true ∧
      0 ≤ s.sshStderrFd ∧ t.pc = .errlog (.connectStuck 30) k := by
  have hr : (piped impatient).Run (.init .clean, ⟨[], false⟩)
      ((startup 100 30 ++ alarmed 30).map .act ++ [.write [72, 105]] ++
        (List.replicate 3 Act.tau).map .act) (_, _) := rfl
  exact ⟨_, _, _, _, hr, rfl, rfl, rfl, by decide, rfl⟩

end Supervisor

end Autossh
