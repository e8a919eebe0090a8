import Autossh.Supervisor.Async
import Autossh.Supervisor.Lifetime

/-!
# Exit signals and the delays of `grace_time`

`sig_catch` notes a `SIGTERM` or `SIGINT` in `exit_signalled`.  `ssh_run` tests it after
`grace_time`, and `ssh_watch` before it waits; between the end of `ssh_watch` and `grace_time`
nothing does, so a signal caught there is only heeded after the delays.

* `St.brisk` : the next pass of `ssh_run` has no delay;
* `Pc.heeds` : the control points from which the flag is tested, or not needed any more, before
  another delay begins;
* `Primed` : inside the wait a signal always ends in a `siglongjmp`;
* `Heedful` : `exit_signalled` is set at those control points only, in runs that deliver exit
  signals there or inside the wait (`heeded`);
* `no_delay_when_signalled` : in such a run no delay of `grace_time` begins with the flag set;
* `delay_when_signalled` : a run in which one does.
-/

namespace Autossh

namespace Supervisor

/-- The signals that set `exit_signalled`. -/
def exits (g : Sig) : Bool := g = .term ∨ g = .int

/-- `P_EXITOK` or `P_EXITERR`. -/
def Rc.exits (rc : Rc) : Bool := rc = .exitOk ∨ rc = .exitErr

/-- Inside a delay of `grace_time`. -/
def Pc.delays : Pc → Bool
  | .sleep _ (.run .portDelay) | .sleep _ (.run .portDelayDone) => true
  | _ => false

/-- Inside `ppoll` or `sigsuspend`. -/
def Pc.waits : Pc → Bool
  | .watch (.asleep _) => true
  | _ => false

/-- The next pass has no delay: no port forwarding has failed, and one more try in quick succession
does not give a back-off yet. -/
def St.brisk (c : Cfg) (s : St) : Bool :=
  !s.portFwdFailed && decide (graceInterval c (i32Wrap (s.tries + 1)) = 0)

/-- The control points from which `exit_signalled` is tested before `grace_time` begins another
delay, or from which there is no more delay: the last delay of `grace_time` up to the test, the
end of the wait, every way out of `ssh_run`, and the way to a pass without a delay.  `failed` is
`port_fwd_failed`, `brisk` says that the next pass is such a one. -/
def Pc.heeds (failed brisk : Bool) : Pc → Bool
  | .run p => match p with
    | .setExit _ | .head | .lifetime | .clearRestart | .grace => brisk
    | .portDelay => !failed
    | .portDelayDone | .testExit | .forkFailed | .closeRd | .closeWr | .ret _ => true
    | .clearJmp rc | .clearAlarm rc | .unsetHandlers rc _ | .closeStderr rc | .testRc rc =>
      rc.exits || brisk
    | _ => false
  | .watch p => match p with
    | .woken => true
    | .caught v | .dispatch v => Supervisor.exits v
    | .ret rc | .leave rc => rc.exits || brisk
    | _ => false
  | .drain _ _ => false
  | .kill _ k => match k with
    | .ret rc => rc.exits || brisk
    | .portWait => false
    | .fatal => true
  | .errlog _ k | .sleep _ k => !k.delays && k.heeds failed brisk
  | .exit | .gone => true

/-- An exit signal that is noted now is heeded before the next delay. -/
def St.heeds (c : Cfg) (s : St) : Bool := s.pc.heeds s.portFwdFailed (s.brisk c)

/-- The condition on a step: an exit signal is delivered inside the wait, or where it is heeded. -/
def heeded (c : Cfg) (s : St) : Act → Bool
  | .deliver g => !exits g || s.pc.waits || s.heeds c
  | _ => true

variable {c : Cfg} {s t : St} {a : Act}

theorem graceInterval_of_brisk (h : s.brisk c = true) :
    graceInterval c (graceTries c s.tries s.startTime s.now) = 0 := by
  obtain ⟨-, hnext⟩ := Bool.and_eq_true_iff.1 h
  unfold graceTries
  split_ifs
  · rfl
  · exact of_decide_eq_true hnext

/-! ### Inside the wait -/

/-- `dolongjmp` is set from its assignment to the wait. -/
def PrimedAt (d : Bool) : Pc → Prop
  | .watch p => match p with
    | .arm | .testExit | .block | .asleep _ => d = true
    | _ => True
  | .errlog _ k | .sleep _ k => PrimedAt d k
  | _ => True

/-- The activation that has ended the wait is going to jump. -/
structure Primed (s : St) : Prop where
  atPc : PrimedAt s.dolongjmp s.pc
  woken : s.pc = .watch .woken →
    ∃ f, s.frames = [f] ∧ (f.pc = .jump ∨ s.dolongjmp = true ∧ f.pc ≠ .leave)

/-- Control points that have nothing to do with `dolongjmp`. -/
def Pc.plain : Pc → Bool
  | .watch p => match p with
    | .arm | .testExit | .block | .asleep _ | .woken => false
    | _ => true
  | .errlog _ k | .sleep _ k => k.plain
  | _ => true

theorem primedAt_of_plain {p : Pc} (h : p.plain = true) (d : Bool) : PrimedAt d p := by
  induction p with
  | watch p => cases p <;> trivial
  | errlog m k ih => exact ih h
  | sleep n k ih => exact ih h
  | _ => trivial

theorem ne_woken_of_plain {p : Pc} (h : p.plain = true) : p ≠ .watch .woken := by
  rintro rfl
  cases h

theorem sshRunStep_plain {p : RunPc} (h : sshRunStep c s a p = some t) : t.pc.plain = true := by
  cases p with
  | setExit l | setHandlers l | unsetHandlers rc l =>
    cases l <;> obtain ⟨-, rfl⟩ := on_eq_some.1 h <;> rfl
  | head | lifetime | grace | portDelay | testExit =>
    obtain ⟨-, rfl⟩ := on_eq_some.1 h
    simp only [St.goto]
    split_ifs <;> rfl
  | pipe =>
    simp only [sshRunStep, Option.bind_eq_some_iff] at h
    obtain ⟨r, -, h⟩ := h
    rcases r with - | ⟨r, w⟩ <;> cases h <;> rfl
  | fork =>
    simp only [sshRunStep, Option.bind_eq_some_iff] at h
    obtain ⟨r, -, h⟩ := h
    split_ifs at h <;> cases h <;> rfl
  | closeStderr rc =>
    simp only [sshRunStep] at h
    split_ifs at h <;> obtain ⟨-, rfl⟩ := on_eq_some.1 h <;> rfl
  | _ =>
    obtain ⟨-, rfl⟩ := on_eq_some.1 h
    rfl

theorem DrainCont.resume_plain (k : DrainCont) (b : Bool) : (k.resume b).plain = true := by
  cases k <;> cases b <;> rfl

theorem KillCont.resume_plain (k : KillCont) : k.resume.plain = true := by
  cases k <;> rfl

theorem sshWatchStep_primed {p : WatchPc} (hs : PrimedAt s.dolongjmp (.watch p))
    (h : sshWatchStep c s a p = some t) :
    PrimedAt t.dolongjmp t.pc ∧ t.pc ≠ .watch .woken := by
  have hplain : t.pc.plain = true → PrimedAt t.dolongjmp t.pc ∧ t.pc ≠ .watch .woken :=
    fun ht => ⟨primedAt_of_plain ht _, ne_woken_of_plain ht⟩
  cases p with
  | setJmp =>
    obtain ⟨-, rfl⟩ := on_eq_some.1 h
    exact ⟨rfl, by simp⟩
  | arm | block =>
    obtain ⟨-, rfl⟩ := on_eq_some.1 h
    exact ⟨hs, by simp⟩
  | testExit =>
    obtain ⟨-, rfl⟩ := on_eq_some.1 h
    simp only [St.goto]
    split_ifs
    · exact ⟨trivial, by simp⟩
    · exact ⟨hs, by simp⟩
  | wait =>
    simp only [sshWatchStep, Option.bind_eq_some_iff] at h
    obtain ⟨r, -, h⟩ := h
    cases r with
    | pid st =>
      simp only at h
      split_ifs at h
      cases h
      exact hplain rfl
    | zero | err e =>
      cases h
      exact hplain rfl
  | status st =>
    obtain ⟨-, rfl⟩ := on_eq_some.1 h
    simp only [St.goto] at hplain ⊢
    split <;> exact ⟨trivial, by simp⟩
  | testRestart | waited rc | wake re | pollin re | pollhup re | alrm =>
    obtain ⟨-, rfl⟩ := on_eq_some.1 h
    simp only [St.goto]
    split_ifs <;> exact ⟨trivial, by simp⟩
  | asleep old =>
    simp only [sshWatchStep] at h
    split_ifs at h
    simp only [Option.bind_eq_some_iff, Option.some.injEq] at h
    obtain ⟨re, -, rfl⟩ := h
    exact hplain rfl
  | dispatch v =>
    obtain ⟨-, rfl⟩ := on_eq_some.1 h
    cases v <;> exact hplain rfl
  | watchdog =>
    obtain ⟨-, rfl⟩ := on_eq_some.1 h
    simp only [St.goto, watchdogNext]
    split_ifs <;> exact ⟨trivial, by simp⟩
  | conn =>
    simp only [sshWatchStep] at h
    split_ifs at h
    · simp only [Option.bind_eq_some_iff, Option.some.injEq] at h
      obtain ⟨r, -, rfl⟩ := h
      cases r <;> exact hplain rfl
    · obtain ⟨-, rfl⟩ := on_eq_some.1 h
      exact hplain rfl
  | _ =>
    obtain ⟨-, rfl⟩ := on_eq_some.1 h
    exact hplain rfl

/-- A message or a sleep is not followed by a point inside the wait. -/
theorem ne_woken_of_outside {k : Pc} (h : k.outside = true) : k ≠ .watch .woken := by
  rintro rfl
  cases h

theorem mainStep_primed (hs : SigInv s) (hp : PrimedAt s.dolongjmp s.pc)
    (h : mainStep c s a = some t) : PrimedAt t.dolongjmp t.pc ∧ t.pc ≠ .watch .woken := by
  have hplain : t.pc.plain = true → PrimedAt t.dolongjmp t.pc ∧ t.pc ≠ .watch .woken :=
    fun ht => ⟨primedAt_of_plain ht _, ne_woken_of_plain ht⟩
  have hat := hs.atPc
  rcases mainStep_cases h with ⟨p, hpc, h⟩ | ⟨p, hpc, h⟩ | ⟨p, k, hpc, h⟩ | ⟨p, k, hpc, h⟩ |
    ⟨k, ⟨m, hpc⟩ | ⟨n, hpc⟩, -, rfl⟩ | ⟨-, -, rfl⟩
  · exact hplain (sshRunStep_plain h)
  · rw [hpc] at hp
    exact sshWatchStep_primed hp h
  · exact hplain (checkSshStderrStep_target (P := fun q => q.plain = true) (fun _ => rfl)
      (fun _ => rfl) k.resume_plain (fun _ => k.resume_plain true) h)
  · exact hplain (sshKillStep_target (P := fun q => q.plain = true) (fun _ => rfl)
      (fun _ _ => rfl) (fun _ _ => rfl) k.resume_plain h)
  · rw [hpc] at hp hat
    exact ⟨hp, ne_woken_of_outside hat.1⟩
  · rw [hpc] at hp hat
    exact ⟨hp, ne_woken_of_outside hat.1⟩
  · exact hplain rfl

/-- The activation `f` moves on to `q` and leaves `dolongjmp` alone. -/
theorem Primed.moved {f : Frame} {fs : List Frame} {q : HandlerPc} (hs : Primed s)
    (hf : s.frames = f :: fs) (hpc : f.pc ≠ .jump) (hq : s.dolongjmp = true → q ≠ .leave)
    (b e : Bool) : Primed { s with
      restartSsh := b, exitSignalled := e, frames := { f with pc := q } :: fs } := by
  refine ⟨hs.atPc, ?_⟩
  intro hw
  obtain ⟨f', hf', h⟩ := hs.woken hw
  rw [hf] at hf'
  cases hf'
  obtain ⟨hd, -⟩ := h.resolve_left hpc
  exact ⟨_, rfl, .inr ⟨hd, hq hd⟩⟩

theorem sigCatchStep_primed {f : Frame} {fs : List Frame} (hinv : SigInv s) (hs : Primed s)
    (hf : s.frames = f :: fs) (h : sigCatchStep s f fs a = some t) : Primed t := by
  unfold sigCatchStep at h
  split at h <;> rename_i hpc
  · split_ifs at h <;> obtain ⟨-, rfl⟩ := on_eq_some.1 h
    · exact hs.moved hf (by simp [hpc]) (by simp) _ _
    · exact ⟨trivial, by simp⟩
    · exact hs.moved hf (by simp [hpc]) (by simp) _ _
    · exact hs.moved hf (by simp [hpc]) (by simp) _ _
  · obtain ⟨-, rfl⟩ := on_eq_some.1 h
    exact hs.moved hf (by simp [hpc]) (by simp) _ _
  · obtain ⟨-, rfl⟩ := on_eq_some.1 h
    refine hs.moved hf (by simp [hpc]) ?_ _ _
    intro hd
    simp [hd]
  · -- `dolongjmp` is cleared, and the activation is about to jump
    obtain ⟨-, rfl⟩ := on_eq_some.1 h
    have hw : s.pc = .watch .woken := hinv.jumping f (by simp [hf]) (.inl hpc)
    obtain ⟨f', hf', -⟩ := hs.woken hw
    rw [hf] at hf'
    cases hf'
    refine ⟨?_, fun _ => ⟨_, rfl, .inl rfl⟩⟩
    simp only [hw]
    trivial
  · obtain ⟨-, rfl⟩ := on_eq_some.1 h
    exact ⟨trivial, by simp⟩
  · obtain ⟨-, rfl⟩ := on_eq_some.1 h
    refine ⟨hs.atPc, ?_⟩
    intro hw
    obtain ⟨f', hf', hj⟩ := hs.woken hw
    rw [hf] at hf'
    cases hf'
    rw [hpc] at hj
    rcases hj with hj | ⟨-, hj⟩
    · cases hj
    · exact absurd rfl hj

/-- Once a signal has ended the wait, no other one is delivered. -/
theorem SigInv.not_delivered {g : Sig} {m : SigSet} (hs : SigInv s) (hw : s.pc = .watch .woken)
    (hd : s.sg.disp g = .catch m) : s.sg.mask g = true := by
  have hat := hs.atPc
  rw [hw] at hat
  exact hat.2.2.2 g (hs.catchOnly g m hd)

theorem envStep_primed (hinv : SigInv s) (hs : Primed s) (h : envStep s a = some t) :
    Primed t := by
  cases a with
  | raise g =>
    cases h
    exact ⟨hs.atPc, hs.woken⟩
  | deliver g =>
    obtain ⟨-, hmask, rfl | rfl | ⟨m, hd, rfl⟩⟩ := deliver_cases h
    · exact ⟨hs.atPc, hs.woken⟩
    · exact ⟨trivial, by simp⟩
    · have hat := hs.atPc
      unfold pushFrame
      split
      · rename_i hpc
        rw [hpc] at hat
        exact ⟨trivial, fun _ => ⟨_, rfl, .inr ⟨hat, by simp⟩⟩⟩
      · refine ⟨hat, ?_⟩
        intro hw
        have hblocked := hinv.not_delivered hw hd
        rw [hmask] at hblocked
        exact absurd hblocked Bool.false_ne_true
  | childExit st =>
    simp only [envStep] at h
    split_ifs at h
    cases h
    exact ⟨hs.atPc, hs.woken⟩
  | elapse dw dt =>
    cases h
    have hat := hs.atPc
    have hw := hs.woken
    cases hpc : s.pc with
    | sleep n k =>
      rw [hpc] at hat
      exact ⟨hat, by simp [Pc.elapse]⟩
    | _ =>
      rw [hpc] at hat hw
      exact ⟨hat, hw⟩
  | timerFire =>
    simp only [envStep] at h
    split_ifs at h
    cases h
    exact ⟨hs.atPc, hs.woken⟩
  | _ => cases h

theorem next_primed {s' : St} (hinv : SigInv s) (hs : Primed s) (h : next c s a = some s') :
    Primed s' := by
  obtain ⟨-, he | ⟨f, fs, hf, hc⟩ | ⟨-, t, hm, rfl⟩⟩ := next_cases h
  · exact envStep_primed hinv hs he
  · exact sigCatchStep_primed hinv hs hf hc
  · obtain ⟨hat, hw⟩ := mainStep_primed hinv hs.atPc hm
    exact ⟨hat, fun h => absurd h hw⟩

/-! ### Where the flag is set -/

/-- Exit signals are noted only where they are heeded. -/
structure Heedful (c : Cfg) (s : St) : Prop where
  caught : ∀ f ∈ s.frames, exits f.sig = true → s.heeds c = true
  setting : ∀ f ∈ s.frames, f.pc = .setExit → exits f.sig = true
  signalled : s.exitSignalled = true → s.heeds c = true
  /-- If the flag is set inside the wait, then by the signal that has ended it. -/
  jumping : s.exitSignalled = true → s.pc = .watch .woken → ∀ f ∈ s.frames, exits f.sig = true

theorem heeds_elapse (failed brisk : Bool) (p : Pc) (dt : ℕ) :
    (p.elapse dt).heeds failed brisk = p.heeds failed brisk := by
  cases p <;> rfl

/-- With the flag set, `ssh_run` leads on to the test or out. -/
theorem sshRunStep_heeds {p : RunPc} (hs : Pc.heeds s.portFwdFailed (s.brisk c) (.run p) = true)
    (he : s.exitSignalled = true) (h : sshRunStep c s a p = some t) :
    t.heeds c = true ∧ t.pc.delays = false := by
  cases p with
  | portDelay =>
    have hfailed : s.portFwdFailed = false := by simpa [Pc.heeds] using hs
    obtain ⟨-, rfl⟩ := on_eq_some.1 h
    simp only [St.goto, hfailed]
    exact ⟨rfl, rfl⟩
  | testExit =>
    obtain ⟨-, rfl⟩ := on_eq_some.1 h
    simp only [St.goto, he]
    exact ⟨rfl, rfl⟩
  | portDelayDone | forkFailed | closeRd | closeWr | ret rc =>
    obtain ⟨-, rfl⟩ := on_eq_some.1 h
    exact ⟨rfl, rfl⟩
  | clearJmp rc | clearAlarm rc =>
    obtain ⟨-, rfl⟩ := on_eq_some.1 h
    exact ⟨hs, rfl⟩
  | unsetHandlers rc l =>
    cases l <;> obtain ⟨-, rfl⟩ := on_eq_some.1 h <;> exact ⟨hs, rfl⟩
  | closeStderr rc =>
    simp only [sshRunStep] at h
    split_ifs at h <;> obtain ⟨-, rfl⟩ := on_eq_some.1 h <;> exact ⟨hs, rfl⟩
  | testRc rc =>
    obtain ⟨-, rfl⟩ := on_eq_some.1 h
    simp only [St.goto]
    split_ifs with hrc
    · exact ⟨rfl, rfl⟩
    · exact ⟨(Bool.or_eq_true_iff.1 hs).resolve_left (by simpa [Rc.exits] using hrc), rfl⟩
  | setExit l =>
    cases l <;> obtain ⟨-, rfl⟩ := on_eq_some.1 h <;> exact ⟨hs, rfl⟩
  | head | lifetime =>
    obtain ⟨-, rfl⟩ := on_eq_some.1 h
    simp only [St.goto]
    split_ifs <;> exact ⟨by first | exact hs | rfl, rfl⟩
  | clearRestart =>
    obtain ⟨-, rfl⟩ := on_eq_some.1 h
    exact ⟨hs, rfl⟩
  | grace =>
    -- no back-off, and no delay for the port
    obtain ⟨-, rfl⟩ := on_eq_some.1 h
    have hbrisk : s.brisk c = true := hs
    rw [graceInterval_of_brisk hbrisk, if_neg (lt_irrefl 0)]
    exact ⟨(Bool.and_eq_true_iff.1 hbrisk).1, rfl⟩
  | stamp | pipe | fork | parentClose | parentFd | setHandlers l =>
    cases (show false = true from hs)

/-- With the flag set, `ssh_watch` leads on to `return`. -/
theorem sshWatchStep_heeds {p : WatchPc}
    (hs : Pc.heeds s.portFwdFailed (s.brisk c) (.watch p) = true) (hw : p ≠ .woken)
    (h : sshWatchStep c s a p = some t) : t.heeds c = true ∧ t.pc.delays = false := by
  cases p with
  | woken => exact absurd rfl hw
  | caught v | ret rc | leave rc =>
    obtain ⟨-, rfl⟩ := on_eq_some.1 h
    exact ⟨hs, rfl⟩
  | dispatch v =>
    obtain ⟨-, rfl⟩ := on_eq_some.1 h
    rcases of_decide_eq_true hs with rfl | rfl <;> exact ⟨rfl, rfl⟩
  | _ => cases hs

theorem KillCont.resume_heeds {p : KillPc} {k : KillCont} {failed brisk : Bool}
    (hs : Pc.heeds failed brisk (.kill p k) = true) :
    k.resume.heeds failed brisk = true ∧ k.resume.delays = false := by
  cases k with
  | ret rc => exact ⟨hs, rfl⟩
  | portWait => cases hs
  | fatal => exact ⟨rfl, rfl⟩

/-- With the flag set, the main program begins no delay before it has tested it. -/
theorem mainStep_heeds (hp : Primed s) (hf : s.frames = [])
    (hs : s.heeds c = true) (he : s.exitSignalled = true)
    (h : mainStep c s a = some t) : t.heeds c = true ∧ t.pc.delays = false := by
  unfold St.heeds at hs
  rcases mainStep_cases h with ⟨p, hpc, h⟩ | ⟨p, hpc, h⟩ | ⟨p, k, hpc, h⟩ | ⟨p, k, hpc, h⟩ |
    ⟨k, ⟨m, hpc⟩ | ⟨n, hpc⟩, -, rfl⟩ | ⟨-, -, rfl⟩
  · rw [hpc] at hs
    exact sshRunStep_heeds hs he h
  · rw [hpc] at hs
    refine sshWatchStep_heeds hs ?_ h
    -- inside the wait there is an activation of `sig_catch`
    rintro rfl
    obtain ⟨f, hf', -⟩ := hp.woken hpc
    rw [hf] at hf'
    cases hf'
  · rw [hpc] at hs
    cases hs
  · rw [hpc] at hs
    have hk : ∀ q, Pc.heeds s.portFwdFailed (s.brisk c) (.kill q k) = true :=
      fun q => by cases k <;> exact hs
    have ht : t.pc.heeds s.portFwdFailed (s.brisk c) = true ∧ t.pc.delays = false :=
      sshKillStep_target
        (P := fun q => q.heeds s.portFwdFailed (s.brisk c) = true ∧ q.delays = false)
        (fun q => ⟨hk q, rfl⟩) (fun _ q => ⟨hk q, rfl⟩) (fun _ q => ⟨hk q, rfl⟩)
        (KillCont.resume_heeds hs) h
    obtain ⟨_, _, _, _, rfl⟩ := sshKillStep_frame h
    exact ht
  · rw [hpc] at hs
    obtain ⟨hk, hs⟩ := Bool.and_eq_true_iff.1 hs
    exact ⟨hs, by simpa [St.goto] using hk⟩
  · rw [hpc] at hs
    obtain ⟨hk, hs⟩ := Bool.and_eq_true_iff.1 hs
    exact ⟨hs, by simpa [St.goto] using hk⟩
  · exact ⟨rfl, rfl⟩

theorem mainStep_exitSignalled (h : mainStep c s a = some t) :
    t.exitSignalled = s.exitSignalled := by
  rcases mainStep_cases h with ⟨p, -, h⟩ | ⟨p, -, h⟩ | ⟨p, k, -, h⟩ | ⟨p, k, -, h⟩ |
    ⟨k, -, -, rfl⟩ | ⟨-, -, rfl⟩
  · exact (sshRunStep_frame h).exitSignalled
  · exact (sshWatchStep_frame h).exitSignalled
  · obtain ⟨_, _, _, rfl⟩ := checkSshStderrStep_frame h
    rfl
  · obtain ⟨_, _, _, _, rfl⟩ := sshKillStep_frame h
    rfl
  · rfl
  · rfl

/-- The activation `f` moves on to `q`, and may set the flag if its signal is an exit signal. -/
theorem Heedful.moved {f : Frame} {fs : List Frame} {q : HandlerPc} {e : Bool} (hinv : SigInv s)
    (hs : Heedful c s) (hf : s.frames = f :: fs) (hq : q = .setExit → exits f.sig = true)
    (he : e = true → s.exitSignalled = true ∨ exits f.sig = true) (b d : Bool) :
    Heedful c { s with
      restartSsh := b, exitSignalled := e, dolongjmp := d,
      frames := { f with pc := q } :: fs } := by
  have hfs : ∀ f' ∈ fs, f' ∈ s.frames := fun f' hf' => hf ▸ List.mem_cons_of_mem _ hf'
  have hmem : f ∈ s.frames := hf ▸ List.mem_cons_self
  refine ⟨?_, ?_, ?_, ?_⟩
  · intro f' hf' hex
    rcases List.mem_cons.1 hf' with rfl | hf'
    · exact hs.caught f hmem hex
    · exact hs.caught f' (hfs f' hf') hex
  · intro f' hf' hpc
    rcases List.mem_cons.1 hf' with rfl | hf'
    · exact hq hpc
    · exact hs.setting f' (hfs f' hf') hpc
  · intro hset
    rcases he hset with hset | hex
    · exact hs.signalled hset
    · exact hs.caught f hmem hex
  · intro hset hw f' hf'
    -- inside the wait there is no other activation
    have hone : s.frames.length ≤ 1 := by
      have hat := hinv.atPc
      rw [show s.pc = .watch .woken from hw] at hat
      exact hat.2.2.1
    have hnil : fs = [] := by
      rw [hf, List.length_cons] at hone
      exact List.length_eq_zero_iff.1 (by omega)
    subst hnil
    obtain rfl : f' = { f with pc := q } := by simpa using hf'
    rcases he hset with hset | hex
    · exact hs.jumping hset hw f hmem
    · exact hex

theorem heedful_gone {b e d : Bool} : Heedful c { s with
    pc := .gone, frames := [], restartSsh := b, exitSignalled := e, dolongjmp := d } :=
  ⟨fun _ _ _ => rfl, List.forall_mem_nil _, fun _ => rfl, fun _ _ => List.forall_mem_nil _⟩

theorem sigCatchStep_heedful {f : Frame} {fs : List Frame} (hinv : SigInv s) (hs : Heedful c s)
    (hf : s.frames = f :: fs) (h : sigCatchStep s f fs a = some t) : Heedful c t := by
  unfold sigCatchStep at h
  split at h <;> rename_i hpc
  · split_ifs at h with husr hexit hset <;> obtain ⟨-, rfl⟩ := on_eq_some.1 h
    · exact hs.moved hinv hf (by simp) .inl _ _
    · exact heedful_gone
    · exact hs.moved hinv hf (fun _ => decide_eq_true hexit) .inl _ _
    · exact hs.moved hinv hf (by simp) .inl _ _
  · obtain ⟨-, rfl⟩ := on_eq_some.1 h
    have hexit : exits f.sig = true := hs.setting f (hf ▸ List.mem_cons_self) hpc
    exact hs.moved hinv hf (by simp) (fun _ => .inr hexit) _ _
  · obtain ⟨-, rfl⟩ := on_eq_some.1 h
    refine hs.moved hinv hf ?_ .inl _ _
    split_ifs <;> simp
  · obtain ⟨-, rfl⟩ := on_eq_some.1 h
    exact hs.moved hinv hf (by simp) .inl _ _
  · -- with the flag set, the jump is that of an exit signal
    obtain ⟨-, rfl⟩ := on_eq_some.1 h
    have hw : s.pc = .watch .woken := hinv.jumping f (hf ▸ List.mem_cons_self) (.inr hpc)
    refine ⟨List.forall_mem_nil _, List.forall_mem_nil _, ?_, fun _ _ => List.forall_mem_nil _⟩
    intro hset
    exact hs.jumping hset hw f (hf ▸ List.mem_cons_self)
  · obtain ⟨-, rfl⟩ := on_eq_some.1 h
    have hfs : ∀ f' ∈ fs, f' ∈ s.frames := fun f' hf' => hf ▸ List.mem_cons_of_mem _ hf'
    exact ⟨fun f' hf' => hs.caught f' (hfs f' hf'), fun f' hf' => hs.setting f' (hfs f' hf'),
      hs.signalled, fun hset hw f' hf' => hs.jumping hset hw f' (hfs f' hf')⟩

theorem pushFrame_heedful {g : Sig} {m : SigSet} (hinv : SigInv s) (hs : Heedful c s)
    (hmask : s.sg.mask g = false) (hd : s.sg.disp g = .catch m)
    (ha : heeded c s (.deliver g) = true) : Heedful c (pushFrame s g m) := by
  unfold pushFrame
  split
  · -- the flag is not set when the wait begins
    rename_i hpc
    have hunset : s.exitSignalled = true → False := by
      intro hset
      have hheeds := hs.signalled hset
      rw [St.heeds, hpc] at hheeds
      cases hheeds
    refine ⟨fun _ _ _ => rfl, ?_, fun hset => (hunset hset).elim, fun hset => (hunset hset).elim⟩
    intro f hf hset
    obtain rfl := List.mem_singleton.1 hf
    cases hset
  · rename_i hno
    refine ⟨?_, ?_, hs.signalled, ?_⟩
    · intro f hf hex
      rcases List.mem_cons.1 hf with rfl | hf
      · simp only [heeded, show exits g = true from hex, Bool.not_true, Bool.false_or,
          Bool.or_eq_true] at ha
        refine ha.resolve_left ?_
        intro hwaits
        -- no activation exists when the wait begins
        have hat := hinv.atPc
        cases hpc : s.pc with
        | watch p =>
          rw [hpc] at hwaits hat
          cases p with
          | asleep old => exact hno old hat.2.1 hpc
          | _ => cases hwaits
        | _ =>
          rw [hpc] at hwaits
          cases hwaits
      · exact hs.caught f hf hex
    · intro f hf hset
      rcases List.mem_cons.1 hf with rfl | hf
      · cases hset
      · exact hs.setting f hf hset
    · intro hset hw
      have hblocked := hinv.not_delivered hw hd
      rw [hmask] at hblocked
      exact absurd hblocked Bool.false_ne_true

theorem envStep_heedful (hinv : SigInv s) (hs : Heedful c s) (ha : heeded c s a = true)
    (h : envStep s a = some t) : Heedful c t := by
  cases a with
  | raise g =>
    cases h
    exact ⟨hs.caught, hs.setting, hs.signalled, hs.jumping⟩
  | deliver g =>
    obtain ⟨-, hmask, rfl | rfl | ⟨m, hd, rfl⟩⟩ := deliver_cases h
    · exact ⟨hs.caught, hs.setting, hs.signalled, hs.jumping⟩
    · exact heedful_gone
    · exact pushFrame_heedful hinv hs hmask hd ha
  | childExit st =>
    simp only [envStep] at h
    split_ifs at h
    cases h
    exact ⟨hs.caught, hs.setting, hs.signalled, hs.jumping⟩
  | elapse dw dt =>
    cases h
    have hwoken : s.pc.elapse dt = .watch .woken → s.pc = .watch .woken := by
      cases s.pc <;> simp [Pc.elapse]
    exact ⟨fun f hf hex => (heeds_elapse ..).trans (hs.caught f hf hex), hs.setting,
      fun hset => (heeds_elapse ..).trans (hs.signalled hset),
      fun hset hw => hs.jumping hset (hwoken hw)⟩
  | timerFire =>
    simp only [envStep] at h
    split_ifs at h
    cases h
    exact ⟨hs.caught, hs.setting, hs.signalled, hs.jumping⟩
  | _ => cases h

theorem next_heedful {s' : St} (hinv : SigInv s) (hp : Primed s) (hs : Heedful c s)
    (ha : heeded c s a = true) (h : next c s a = some s') : Heedful c s' := by
  obtain ⟨-, he | ⟨f, fs, hf, hc⟩ | ⟨hf, t, hm, rfl⟩⟩ := next_cases h
  · exact envStep_heedful hinv hs ha he
  · exact sigCatchStep_heedful hinv hs hf hc
  · have hf' : t.frames = [] := (mainStep_frames hm).trans hf
    refine ⟨?_, ?_, ?_, ?_⟩
    · simp only [hf']
      exact List.forall_mem_nil _
    · simp only [hf']
      exact List.forall_mem_nil _
    · intro hset
      have hset' : s.exitSignalled = true := (mainStep_exitSignalled hm).symm.trans hset
      exact (mainStep_heeds hp hf (hs.signalled hset') hset' hm).1
    · intro _ _
      simp only [hf']
      exact List.forall_mem_nil _

/-- The three invariants together. -/
structure DelayInv (c : Cfg) (s : St) : Prop where
  sig : SigInv s
  primed : Primed s
  heedful : Heedful c s

theorem run_delayInv {i : Inherited} {as : List Act}
    (h : ((supervisor c).guard fun s a => heeded c s a = true).Run (.init i) as s) :
    DelayInv c s := by
  refine h.invariant ⟨init_sigInv i, ⟨trivial, by simp [St.init]⟩, ?_⟩ ?_
  · exact ⟨List.forall_mem_nil _, List.forall_mem_nil _, fun hset => absurd hset Bool.false_ne_true,
      fun _ _ => List.forall_mem_nil _⟩
  · intro s a s' hs hn
    obtain ⟨ha, hn⟩ := Machine.guard_next.1 hn
    exact ⟨next_sigInv hs.sig hn, next_primed hs.sig hs.primed hn,
      next_heedful hs.sig hs.primed hs.heedful ha hn⟩

/-- Neither `sig_catch` nor the environment begins a delay. -/
theorem Slides.delays {p p' : Pc} (h : Slides p p') (hp : p.delays = false) :
    p'.delays = false := by
  refine h.keeps (A := fun p => p.delays = false) hp ?_ (fun _ _ => rfl) (fun _ _ => rfl) rfl
  intro n m k hk
  cases k with
  | run p => cases p <;> first | rfl | cases hk
  | _ => rfl

/-- **No delay of `grace_time` begins once `exit_signalled` is set**, in a run that delivers
`SIGTERM` and `SIGINT` inside the wait, or where the flag is tested before the next delay. -/
theorem no_delay_when_signalled (c : Cfg) (i : Inherited) {as : List Act} {s s' : St} {a : Act}
    (hr : ((supervisor c).guard fun s a => heeded c s a = true).Run (.init i) as s)
    (hn : (supervisor c).next s a = some s') (hbefore : s.pc.delays = false)
    (hafter : s'.pc.delays = true) : s.exitSignalled = false := by
  have hs := run_delayInv hr
  by_contra hset
  rw [Bool.not_eq_false] at hset
  have hno : s'.pc.delays = false := by
    rcases next_main_or_async hs.sig hn with ⟨-, hasync⟩ | ⟨hf, t, hm, rfl⟩
    · exact hasync.pc.delays hbefore
    · exact (mainStep_heeds hs.primed hf (hs.heedful.signalled hset) hset hm).2
  rw [hno] at hafter
  exact Bool.false_ne_true hafter

/-- A child that could not set up its port forwarding, and the delay before the next one. -/
theorem delay_when_not_signalled :
    ∃ s s', ((supervisor shortLived).guard fun s a => heeded shortLived s a = true).Run
        (.init .clean) (startup 100 8 ++ forwardingFails ++ List.replicate 5 Act.tau) s ∧
      (supervisor shortLived).next s .tau = some s' ∧ s.pc.delays = false ∧
      s'.pc.delays = true ∧ s.exitSignalled = false := by
  obtain ⟨s, s', hr, hn⟩ := Machine.exists_run_concat (show Option.isSome
    (((supervisor shortLived).guard fun s a => heeded shortLived s a = true).exec (.init .clean)
      (startup 100 8 ++ forwardingFails ++ List.replicate 5 Act.tau ++ [.tau])) = true by rfl)
  obtain ⟨-, hn⟩ := Machine.guard_next.1 hn
  have hdelays : s.pc.delays = false ∧ s'.pc.delays = true := by
    cases hr
    cases hn
    exact ⟨rfl, rfl⟩
  exact ⟨s, s', hr, hn, hdelays.1, hdelays.2,
    no_delay_when_signalled shortLived .clean hr hn hdelays.1 hdelays.2⟩

/-- `SIGTERM` when `ssh_watch` has returned and the next pass of `ssh_run` is about to begin: the
delay begins all the same. -/
theorem delay_when_signalled :
    ∃ s s', (supervisor shortLived).Run (.init .clean)
        (startup 100 8 ++ forwardingFails ++ ([.raise .term, .deliver .term] : List Act) ++
          List.replicate 9 Act.tau) s ∧
      (supervisor shortLived).next s .tau = some s' ∧ s.pc.delays = false ∧
      s'.pc.delays = true ∧ s.exitSignalled = true := by
  have hr : (supervisor shortLived).Run (.init .clean)
      (startup 100 8 ++ forwardingFails ++ ([.raise .term, .deliver .term] : List Act) ++
        List.replicate 9 Act.tau) _ := rfl
  exact ⟨_, _, hr, rfl, rfl, rfl, rfl⟩

end Supervisor

end Autossh
