import Autossh.Machine.Potential
import Autossh.Supervisor.Backoff
import Autossh.Supervisor.Starts

/-!
# An exit signal is heeded

Once `sig_catch` has set `exit_signalled`, the main program runs out of things to do.  Its control
points have a *rank* that every step lowers, apart from reading on from the stderr of the child
(`mainStep_rank`): the loops of `ssh_watch` and of `ssh_run` both pass a test of the flag.  So it
makes at most as many steps as the rank says, and forks at most once more: when the signal came
between the test and the `fork` (`exit_signal_heeded`).

The rank only counts the steps of the program itself.  A `sleep`, the monitor and the reads take
their time, and how long the child keeps on writing is up to the child.
-/

namespace Autossh

namespace Supervisor

/-! ### The rank of a control point -/

/-- The steps `ssh_run` can still make. -/
def RunPc.rank : RunPc → ℕ
  | .ret _ => 1
  | .testExit => 3
  | .portDelayDone => 4
  | .portDelay => 7
  | .grace => 9
  | .clearRestart => 10
  | .lifetime => 11
  | .head => 12
  | .testRc _ => 13
  | .setExit l => 13 + l.length
  | .closeStderr _ => 14
  | .unsetHandlers _ l => 15 + l.length
  | .clearAlarm _ => 22
  | .clearJmp _ => 23
  | .closeWr => 46
  | .closeRd => 47
  | .forkFailed => 48
  | .setHandlers l => 80 + l.length
  | .parentFd => 90
  | .parentClose => 91
  | .fork => 92
  | .pipe => 94
  | .stamp => 96

/-- The steps `ssh_watch` can still make, with what follows it. -/
def WatchPc.rank : WatchPc → ℕ
  | .leave _ => 24
  | .ret _ => 25
  | .dropJmp => 46
  | .testExit => 47
  | .arm => 48
  | .setJmp => 49
  | .clamp => 50
  | .takeAlarm => 51
  | .waited _ => 52
  | .status _ => 54
  | .wait => 58
  | .setjmp => 59
  | .testRestart => 60
  | .top => 61
  | .pipeLost => 62
  | .conn => 62
  | .closeFd => 63
  | .pollhup _ => 65
  | .watchdog => 66
  | .alrm => 67
  | .dispatch _ => 68
  | .caught _ => 69
  | .pollin _ => 69
  | .wake _ => 70
  | .woken => 71
  | .asleep _ => 72
  | .block => 73
  | .enter => 79

/-- The same for `ssh_kill`: a grace loop makes two steps a round. -/
def KillPc.rank : KillPc → ℕ
  | .drop => 28
  | .poll .kill w => 30 + 2 * (sigkillWait - w)
  | .signal .kill => 35
  | .poll .term w => 37 + 2 * (sigtermGrace - w)
  | .signal .term => 42
  | .test => 43
  | .close => 44

/-- What follows `check_ssh_stderr`. -/
def DrainCont.rank : DrainCont → ℕ
  | .wait _ => 54
  | .alrm => 62
  | .pollin _ => 65

/-- The same for `check_ssh_stderr`. -/
def DrainPc.rank : DrainPc → ℕ
  | .flag => 1
  | .read => 3

/-- The steps that can still be made from a control point when `exit_signalled` is set. -/
def Pc.rank : Pc → ℕ
  | .run p => p.rank
  | .watch p => p.rank
  | .drain p k => p.rank + k.rank
  | .kill p _ => p.rank
  | .errlog _ k => k.rank + 1
  | .sleep _ k => k.rank + 1
  | .exit => 1
  | .gone => 0

variable {c : Cfg} {s t : St} {a : Act}

theorem KillCont.rank_resume (k : KillCont) : k.resume.rank ≤ 27 := by
  cases k <;> simp [KillCont.resume, Pc.rank, WatchPc.rank]

theorem DrainCont.rank_resume (b : Bool) (k : DrainCont) : (k.resume b).rank ≤ k.rank := by
  cases k <;> cases b <;>
    simp [DrainCont.resume, DrainCont.rank, Pc.rank, WatchPc.rank, KillPc.rank]

/-! ### The steps of the main program -/

/-- A `read` on the stderr of the child. -/
def Act.isRead : Act → Bool
  | .read _ _ => true
  | _ => false

/-- What a step costs: only reads are free. -/
def Act.price (a : Act) : ℕ := if a.isRead then 0 else 1

theorem Act.price_le (a : Act) : a.price ≤ 1 := by
  unfold Act.price
  split_ifs <;> omega

theorem sshKillStep_rank {p : KillPc} {k : KillCont} (h : sshKillStep s k a p = some t) :
    t.pc.rank + a.price ≤ p.rank := by
  have hk := k.rank_resume
  have ha := a.price_le
  cases p with
  | close =>
    simp only [sshKillStep] at h
    split_ifs at h <;> obtain ⟨-, rfl⟩ := on_eq_some.1 h <;>
      simp only [St.goto, Pc.rank, KillPc.rank] <;> omega
  | test =>
    obtain ⟨-, rfl⟩ := on_eq_some.1 h
    simp only [St.goto, KillPc.rank]
    split_ifs
    · omega
    · simp only [Pc.rank, KillPc.rank]
      omega
  | signal ph =>
    obtain ⟨-, rfl⟩ := on_eq_some.1 h
    cases ph <;> simp only [St.goto, Pc.rank, KillPc.rank, sigtermGrace, sigkillWait] <;> omega
  | poll ph w =>
    simp only [sshKillStep] at h
    split_ifs at h with hw
    · simp only [Option.bind_eq_some_iff] at h
      obtain ⟨r, -, h⟩ := h
      have hp : 30 ≤ (KillPc.poll ph w).rank := by
        cases ph <;> simp only [KillPc.rank] <;> omega
      split at h
      · split_ifs at h
        cases h
        dsimp only
        omega
      · cases h
        dsimp only
        omega
      · cases h
        simp only [St.goto, Pc.rank, KillPc.rank] at hp ⊢
        omega
      all_goals
        cases h
        simp only [St.goto, Pc.rank]
        cases ph <;> simp only [KillPc.rank, Phase.rounds, sigtermGrace, sigkillWait] at hw ⊢ <;>
          omega
    · obtain ⟨-, rfl⟩ := on_eq_some.1 h
      cases ph <;> simp only [St.goto, Phase.timeout, Pc.rank, KillPc.rank] <;> omega
  | drop =>
    obtain ⟨-, rfl⟩ := on_eq_some.1 h
    simp only [KillPc.rank]
    omega

theorem checkSshStderrStep_rank {p : DrainPc} {k : DrainCont}
    (h : checkSshStderrStep s k a p = some t) : t.pc.rank + a.price ≤ (Pc.drain p k).rank := by
  have ha := a.price_le
  have hk := fun b => DrainCont.rank_resume b k
  cases p with
  | read =>
    simp only [checkSshStderrStep] at h
    split_ifs at h
    · simp only [Option.bind_eq_some_iff, read?_eq_some] at h
      obtain ⟨r, rfl, h⟩ := h
      cases r with
      | none =>
        cases h
        have := hk false
        simp only [St.goto, Pc.rank, DrainPc.rank]
        omega
      | some chunk =>
        simp only at h
        split_ifs at h
        cases h
        have := hk true
        simp only [Act.price, Act.isRead, Pc.rank, DrainPc.rank, if_true]
        cases scanChunk chunk <;> simp only [Pc.rank, DrainPc.rank] <;> omega
    · obtain ⟨-, rfl⟩ := on_eq_some.1 h
      have := hk false
      simp only [St.goto, Pc.rank, DrainPc.rank]
      omega
  | flag =>
    obtain ⟨-, rfl⟩ := on_eq_some.1 h
    have := hk true
    simp only [Pc.rank, DrainPc.rank]
    omega

/-- The test of `exit_signalled` in `ssh_watch` is what keeps it from another round. -/
theorem sshWatchStep_rank {p : WatchPc} (h : sshWatchStep c s a p = some t) :
    t.pc.rank + a.price ≤ p.rank ∨ (s.exitSignalled = false ∧ t.pc = .watch .block) := by
  have ha := a.price_le
  cases p with
  | wait =>
    simp only [sshWatchStep, Option.bind_eq_some_iff] at h
    obtain ⟨r, -, h⟩ := h
    left
    cases r with
    | pid st =>
      simp only at h
      split_ifs at h
      cases h
      simp only [Pc.rank, DrainPc.rank, DrainCont.rank, WatchPc.rank]
      omega
    | zero | err e =>
      cases h
      simp only [St.goto, Pc.rank, WatchPc.rank]
      omega
  | status st =>
    obtain ⟨-, rfl⟩ := on_eq_some.1 h
    left
    simp only [St.goto]
    split <;> simp only [Pc.rank, WatchPc.rank] <;> omega
  | waited rc | wake re =>
    obtain ⟨-, rfl⟩ := on_eq_some.1 h
    left
    simp only [St.goto, Pc.rank]
    split_ifs <;> simp only [WatchPc.rank] <;> omega
  | testExit =>
    obtain ⟨-, rfl⟩ := on_eq_some.1 h
    cases hex : s.exitSignalled with
    | false => exact .inr ⟨rfl, by simp [St.goto]⟩
    | true =>
      left
      simp only [St.goto, if_true, Pc.rank, WatchPc.rank]
      omega
  | asleep old =>
    simp only [sshWatchStep] at h
    split_ifs at h
    simp only [Option.bind_eq_some_iff, Option.some.injEq] at h
    obtain ⟨re, -, rfl⟩ := h
    left
    simp only [Pc.rank, WatchPc.rank]
    omega
  | testRestart | alrm | pollhup re | pollin re =>
    obtain ⟨-, rfl⟩ := on_eq_some.1 h
    left
    simp only [St.goto]
    split_ifs <;>
      simp only [Pc.rank, DrainPc.rank, DrainCont.rank, KillPc.rank, WatchPc.rank] <;> omega
  | dispatch v =>
    obtain ⟨-, rfl⟩ := on_eq_some.1 h
    left
    cases v <;> simp only [St.goto, dispatchNext, Pc.rank, KillPc.rank, WatchPc.rank] <;> omega
  | watchdog =>
    obtain ⟨-, rfl⟩ := on_eq_some.1 h
    left
    simp only [St.goto, watchdogNext]
    split_ifs <;>
      simp only [Pc.rank, DrainPc.rank, DrainCont.rank, KillPc.rank, WatchPc.rank] <;> omega
  | conn =>
    simp only [sshWatchStep] at h
    left
    split_ifs at h
    · simp only [Option.bind_eq_some_iff, Option.some.injEq] at h
      obtain ⟨r, -, rfl⟩ := h
      cases r <;> simp only [St.goto, ConnRes.next, Pc.rank, KillPc.rank, WatchPc.rank] <;> omega
    · obtain ⟨-, rfl⟩ := on_eq_some.1 h
      simp only [St.goto, Pc.rank, WatchPc.rank]
      omega
  | leave rc =>
    obtain ⟨-, rfl⟩ := on_eq_some.1 h
    left
    simp only [St.goto, Pc.rank, RunPc.rank, WatchPc.rank]
    omega
  | _ =>
    obtain ⟨-, rfl⟩ := on_eq_some.1 h
    left
    simp only [St.goto, Pc.rank, KillPc.rank, WatchPc.rank]
    omega

/-- The test of `exit_signalled` in `ssh_run` is what keeps it from another child. -/
theorem sshRunStep_rank {p : RunPc} (h : sshRunStep c s a p = some t) :
    t.pc.rank + a.price ≤ p.rank ∨ (s.exitSignalled = false ∧ t.pc = .run .stamp) := by
  have ha := a.price_le
  cases p with
  | setExit l | setHandlers l | unsetHandlers rc l =>
    left
    cases l <;> obtain ⟨-, rfl⟩ := on_eq_some.1 h <;>
      simp only [St.goto, Pc.rank, RunPc.rank, WatchPc.rank, List.length_cons, List.length_nil] <;>
      omega
  | head | lifetime | portDelay =>
    obtain ⟨-, rfl⟩ := on_eq_some.1 h
    left
    simp only [St.goto]
    split_ifs <;> simp only [Pc.rank, RunPc.rank] <;> omega
  | grace =>
    obtain ⟨-, rfl⟩ := on_eq_some.1 h
    left
    simp only
    split_ifs <;> simp only [Pc.rank, RunPc.rank] <;> omega
  | testExit =>
    obtain ⟨-, rfl⟩ := on_eq_some.1 h
    cases hex : s.exitSignalled with
    | false => exact .inr ⟨rfl, by simp [St.goto]⟩
    | true =>
      left
      simp only [St.goto, if_true, Pc.rank, RunPc.rank]
      omega
  | pipe =>
    simp only [sshRunStep, Option.bind_eq_some_iff] at h
    obtain ⟨r, -, h⟩ := h
    left
    rcases r with - | ⟨r, w⟩ <;> cases h <;> simp only [Pc.rank, RunPc.rank] <;> omega
  | fork =>
    simp only [sshRunStep, Option.bind_eq_some_iff] at h
    obtain ⟨r, -, h⟩ := h
    left
    split_ifs at h <;> cases h <;> simp only [Pc.rank, RunPc.rank] <;> omega
  | closeStderr rc =>
    simp only [sshRunStep] at h
    left
    split_ifs at h <;> obtain ⟨-, rfl⟩ := on_eq_some.1 h <;>
      simp only [St.goto, Pc.rank, RunPc.rank] <;> omega
  | testRc rc =>
    obtain ⟨-, rfl⟩ := on_eq_some.1 h
    left
    simp only [St.goto, Pc.rank]
    split_ifs <;> simp only [RunPc.rank] <;> omega
  | _ =>
    obtain ⟨-, rfl⟩ := on_eq_some.1 h
    left
    simp [St.goto, Pc.rank, RunPc.rank, KillPc.rank, handledSignals, unsetSignals]
    omega

/-- **Every step of the main program lowers the rank**, other than the two that test
`exit_signalled` and find it clear. -/
theorem mainStep_rank (h : mainStep c s a = some t) : t.pc.rank + a.price ≤ s.pc.rank ∨
    (s.exitSignalled = false ∧ (t.pc = .watch .block ∨ t.pc = .run .stamp)) := by
  have ha := a.price_le
  rcases mainStep_cases h with ⟨p, hp, h⟩ | ⟨p, hp, h⟩ | ⟨p, k, hp, h⟩ | ⟨p, k, hp, h⟩ |
    ⟨k, hp, -, rfl⟩ | ⟨hp, -, rfl⟩
  · rw [hp]
    exact (sshRunStep_rank h).imp_right fun ⟨he, ht⟩ => ⟨he, .inr ht⟩
  · rw [hp]
    exact (sshWatchStep_rank h).imp_right fun ⟨he, ht⟩ => ⟨he, .inl ht⟩
  · rw [hp]
    exact .inl (checkSshStderrStep_rank h)
  · rw [hp]
    exact .inl (sshKillStep_rank h)
  · left
    obtain ⟨m, hp⟩ | ⟨n, hp⟩ := hp <;> simp only [hp, St.goto, Pc.rank] <;> omega
  · left
    simp only [hp, St.goto, Pc.rank]
    omega

/-! ### Nothing to wait for -/

/-- `ssh_watch` only goes to sleep after it has found `exit_signalled` clear. -/
def UnsignalledAt (e : Bool) : Pc → Prop
  | .watch p => match p with
    | .block | .asleep _ => e = false
    | _ => True
  | .errlog _ k | .sleep _ k => UnsignalledAt e k
  | _ => True

theorem unsignalledAt_of_plain {p : Pc} (h : p.plain = true) (e : Bool) : UnsignalledAt e p := by
  induction p with
  | watch p =>
    cases p with
    | block | asleep _ => cases h
    | _ => trivial
  | errlog m k ih => exact ih h
  | sleep n k ih => exact ih h
  | _ => trivial

theorem sshWatchStep_unsignalled {p : WatchPc} (hs : UnsignalledAt s.exitSignalled (.watch p))
    (h : sshWatchStep c s a p = some t) : UnsignalledAt s.exitSignalled t.pc := by
  cases p with
  | testExit =>
    obtain ⟨-, rfl⟩ := on_eq_some.1 h
    cases hex : s.exitSignalled with
    | false =>
      simp only [St.goto, hex]
      rfl
    | true =>
      simp only [St.goto, hex]
      trivial
  | block =>
    obtain ⟨-, rfl⟩ := on_eq_some.1 h
    exact hs
  | wait =>
    simp only [sshWatchStep, Option.bind_eq_some_iff] at h
    obtain ⟨r, -, h⟩ := h
    cases r with
    | pid st =>
      simp only at h
      split_ifs at h
      cases h
      trivial
    | zero | err e =>
      cases h
      trivial
  | status st =>
    obtain ⟨-, rfl⟩ := on_eq_some.1 h
    simp only [St.goto]
    split <;> trivial
  | asleep old =>
    simp only [sshWatchStep] at h
    split_ifs at h
    simp only [Option.bind_eq_some_iff, Option.some.injEq] at h
    obtain ⟨re, -, rfl⟩ := h
    trivial
  | waited rc | wake re | testRestart | alrm | pollhup re | pollin re =>
    obtain ⟨-, rfl⟩ := on_eq_some.1 h
    simp only [St.goto]
    split_ifs <;> trivial
  | dispatch v =>
    obtain ⟨-, rfl⟩ := on_eq_some.1 h
    cases v <;> trivial
  | watchdog =>
    obtain ⟨-, rfl⟩ := on_eq_some.1 h
    simp only [St.goto, watchdogNext]
    split_ifs <;> trivial
  | conn =>
    simp only [sshWatchStep] at h
    split_ifs at h
    · simp only [Option.bind_eq_some_iff, Option.some.injEq] at h
      obtain ⟨r, -, rfl⟩ := h
      cases r <;> trivial
    · obtain ⟨-, rfl⟩ := on_eq_some.1 h
      trivial
  | _ =>
    obtain ⟨-, rfl⟩ := on_eq_some.1 h
    trivial

theorem mainStep_unsignalled (hs : UnsignalledAt s.exitSignalled s.pc)
    (h : mainStep c s a = some t) : UnsignalledAt t.exitSignalled t.pc := by
  rw [mainStep_exitSignalled h]
  rcases mainStep_cases h with ⟨p, hpc, h⟩ | ⟨p, hpc, h⟩ | ⟨p, k, hpc, h⟩ | ⟨p, k, hpc, h⟩ |
    ⟨k, ⟨m, hpc⟩ | ⟨n, hpc⟩, -, rfl⟩ | ⟨-, -, rfl⟩
  · exact unsignalledAt_of_plain (sshRunStep_plain h) _
  · rw [hpc] at hs
    exact sshWatchStep_unsignalled hs h
  · exact unsignalledAt_of_plain (checkSshStderrStep_target (P := fun q => q.plain = true)
      (fun _ => rfl) (fun _ => rfl) k.resume_plain (fun _ => k.resume_plain true) h) _
  · exact unsignalledAt_of_plain (sshKillStep_target (P := fun q => q.plain = true) (fun _ => rfl)
      (fun _ _ => rfl) (fun _ _ => rfl) k.resume_plain h) _
  · rw [hpc] at hs
    exact hs
  · rw [hpc] at hs
    exact hs
  · trivial

/-- Where `ssh_watch` has found the flag clear and not yet left the wait, `sig_catch` does not
run. -/
theorem SigInv.unsignalled (hs : SigInv s) (hf : s.frames ≠ []) (e : Bool) :
    UnsignalledAt e s.pc := by
  have hat := hs.atPc
  generalize s.pc = p at hat
  induction p with
  | watch p =>
    cases p with
    | block => exact absurd (hat.2 rfl).1 hf
    | asleep old => exact absurd hat.2.1 hf
    | _ => trivial
  | errlog m k ih => exact ih hat.2
  | sleep n k ih => exact ih hat.2
  | _ => trivial

theorem Slides.unsignalled {p p' : Pc} {e : Bool} (h : Slides p p') (hp : UnsignalledAt e p) :
    UnsignalledAt e p' :=
  h.keeps hp (fun _ _ _ h => h) (fun _ _ => trivial) (fun _ _ => trivial) trivial

theorem next_unsignalled {s' : St} (hinv : SigInv s) (hs : UnsignalledAt s.exitSignalled s.pc)
    (h : next c s a = some s') : UnsignalledAt s'.exitSignalled s'.pc := by
  obtain ⟨-, he | ⟨f, fs, hf, hc⟩ | ⟨-, t, hm, rfl⟩⟩ := next_cases h
  · rw [(envStep_flags he).2.1]
    exact (envStep_async he).pc.unsignalled hs
  · exact (sigCatchStep_async hinv hf hc).pc.unsignalled (hinv.unsignalled (by simp [hf]) _)
  · have := mainStep_unsignalled hs hm
    exact this

/-! ### There is always a next step -/

/-- Some step of the program itself is possible. -/
def Enabled (f : Act → Option St) : Prop := ∃ a t, a.isEnv = false ∧ f a = some t

theorem enabled_on {b : Act} (hb : b.isEnv = false) (t : St) : Enabled (on b t) :=
  ⟨b, t, hb, on_eq_some.2 ⟨rfl, rfl⟩⟩

theorem enabled_close_or_tau {P : Prop} [Decidable P] (fd : ℤ) (t : St) :
    Enabled (on (if P then .close fd else .tau) t) :=
  enabled_on (by split_ifs <;> rfl) t

theorem sshRunStep_enabled (p : RunPc) : Enabled fun a => sshRunStep c s a p := by
  cases p with
  | setExit l | setHandlers l | unsetHandlers rc l => cases l <;> exact enabled_on rfl _
  | pipe => exact ⟨.pipe none, _, rfl, rfl⟩
  | fork => exact ⟨.fork (-1), _, rfl, rfl⟩
  | closeRd | closeWr | parentClose => exact enabled_close_or_tau _ _
  | closeStderr rc =>
    simp only [sshRunStep]
    split_ifs <;> exact enabled_on rfl _
  | _ => exact enabled_on rfl _

theorem sshWatchStep_enabled {p : WatchPc} (hp : ∀ old, p ≠ .asleep old) :
    Enabled fun a => sshWatchStep c s a p := by
  cases p with
  | wait =>
    exact ⟨.waitpid .sshWait s.cchild .zero, s.goto (.watch (.waited .cont)), rfl, by
      simp [sshWatchStep, Act.waitpid?]⟩
  | asleep old => exact absurd rfl (hp old)
  | conn =>
    simp only [sshWatchStep]
    split_ifs
    · exact ⟨.conn .up, _, rfl, rfl⟩
    · exact enabled_on rfl _
  | _ => exact enabled_on rfl _

theorem checkSshStderrStep_enabled (p : DrainPc) (k : DrainCont) :
    Enabled fun a => checkSshStderrStep s k a p := by
  cases p with
  | read =>
    simp only [checkSshStderrStep]
    split_ifs
    · exact ⟨.read s.sshStderrFd none, s.goto (k.resume false), rfl, by simp [Act.read?]⟩
    · exact enabled_on rfl _
  | flag => exact enabled_on rfl _

theorem sshKillStep_enabled (p : KillPc) (k : KillCont) :
    Enabled fun a => sshKillStep s k a p := by
  cases p with
  | close =>
    simp only [sshKillStep]
    split_ifs <;> exact enabled_on rfl _
  | poll ph w =>
    simp only [sshKillStep]
    split_ifs
    · exact ⟨.waitpid .sshKill s.cchild .zero, s.goto (.sleep 1 (.kill (.poll ph (w + 1)) k)), rfl,
        by simp [Act.waitpid?]⟩
    · exact enabled_on rfl _
  | _ => exact enabled_on rfl _

theorem mainStep_enabled (hp : s.pc ≠ .gone) (hsleep : ∀ n k, s.pc ≠ .sleep n k)
    (hwait : ∀ old, s.pc ≠ .watch (.asleep old)) : Enabled (mainStep c s) := by
  unfold mainStep
  cases hpc : s.pc with
  | run p => exact sshRunStep_enabled p
  | watch p => exact sshWatchStep_enabled fun old h => hwait old (by rw [hpc, h])
  | drain p k => exact checkSshStderrStep_enabled p k
  | kill p k => exact sshKillStep_enabled p k
  | errlog m k => exact enabled_on rfl _
  | sleep n k => exact absurd hpc (hsleep n k)
  | exit => exact enabled_on rfl _
  | gone => exact absurd hpc hp

theorem sigCatchStep_enabled (f : Frame) (fs : List Frame) : Enabled (sigCatchStep s f fs) := by
  unfold sigCatchStep
  cases f.pc with
  | enter => split_ifs <;> exact enabled_on rfl _
  | _ => exact enabled_on rfl _

/-- Unless it sleeps, a process that was told to exit can make a step of its own. -/
theorem next_enabled (hp : s.pc ≠ .gone) (hsleep : ∀ n k, s.pc ≠ .sleep n k)
    (hwait : ∀ old, s.pc ≠ .watch (.asleep old)) : Enabled (next c s) := by
  cases hf : s.frames with
  | nil =>
    obtain ⟨a, t, ha, ht⟩ := mainStep_enabled (c := c) hp hsleep hwait
    refine ⟨a, { t with interrupted := false }, ha, ?_⟩
    unfold next
    split
    · exact absurd ‹_› hp
    · simp [ha, hf, ht]
  | cons f fs =>
    obtain ⟨a, t, ha, ht⟩ := sigCatchStep_enabled (s := s) f fs
    refine ⟨a, t, ha, ?_⟩
    unfold next
    split
    · exact absurd ‹_› hp
    · simp [ha, hf, ht]

/-! ### After the signal -/

/-- A step of the main program that is not a `read`. -/
def mainCost (s : St) (a : Act) : ℕ := if s.frames = [] ∧ a.isEnv = false then a.price else 0

/-- The process has been told to exit. -/
structure Signalled (s : St) : Prop where
  sig : SigInv s
  signalled : s.exitSignalled = true
  unsignalled : UnsignalledAt s.exitSignalled s.pc

theorem Slides.rank_le {p p' : Pc} (h : Slides p p') : p'.rank ≤ p.rank := by
  cases h with
  | stay => exact le_rfl
  | elapse dt => cases p <;> exact le_rfl
  | woken old => simp [Pc.rank, WatchPc.rank]
  | caught v => simp [Pc.rank, WatchPc.rank]
  | gone => exact Nat.zero_le _

theorem next_rank {s' : St} (hs : SigInv s) (h : next c s a = some s') :
    mainCost s a + s'.pc.rank ≤ s.pc.rank ∨
      (s.exitSignalled = false ∧ (s'.pc = .watch .block ∨ s'.pc = .run .stamp)) := by
  obtain ⟨-, he | ⟨f, fs, hf, hc⟩ | ⟨-, t, hm, rfl⟩⟩ := next_cases h
  · left
    have := (envStep_async he).pc.rank_le
    simp only [mainCost, envStep_act he]
    simpa using this
  · left
    have := (sigCatchStep_async hs hf hc).pc.rank_le
    simp only [mainCost, hf]
    simpa using this
  · refine (mainStep_rank hm).imp_left fun h => ?_
    unfold mainCost
    split_ifs <;> simp only <;> omega

theorem sigCatchStep_exitSignalled {f : Frame} {fs : List Frame}
    (h : sigCatchStep s f fs a = some t) (hs : s.exitSignalled = true) :
    t.exitSignalled = true := by
  unfold sigCatchStep at h
  split at h
  · split_ifs at h <;> obtain ⟨-, rfl⟩ := on_eq_some.1 h <;> exact hs
  all_goals
    obtain ⟨-, rfl⟩ := on_eq_some.1 h
    first | rfl | exact hs

theorem next_signalled {s' : St} (hs : Signalled s) (h : next c s a = some s') :
    Signalled s' := by
  refine ⟨next_sigInv hs.sig h, ?_, next_unsignalled hs.sig hs.unsignalled h⟩
  obtain ⟨-, he | ⟨f, fs, hf, hc⟩ | ⟨-, t, hm, rfl⟩⟩ := next_cases h
  · rw [(envStep_flags he).2.1, hs.signalled]
  · exact sigCatchStep_exitSignalled hc hs.signalled
  · exact (mainStep_exitSignalled hm).trans hs.signalled

theorem Signalled.rank {s' : St} (hs : Signalled s) (h : next c s a = some s') :
    mainCost s a + s'.pc.rank ≤ s.pc.rank :=
  (next_rank hs.sig h).resolve_right fun h => by simp [hs.signalled] at h

/-- From the rank of `fork` on, one `fork` is ahead. -/
def forkAhead (s : St) : ℕ := if 92 ≤ s.pc.rank then 1 else 0

theorem Signalled.fork {s' : St} (hs : Signalled s) (h : next c s a = some s') :
    (if a.isFork then 1 else 0) + forkAhead s' ≤ forkAhead s := by
  have hrank := hs.rank h
  cases ha : a.isFork with
  | false =>
    simp only [forkAhead, Bool.false_eq_true, if_false]
    split_ifs <;> omega
  | true =>
    cases a with
    | fork r =>
      obtain ⟨hf, hpc, -⟩ := next_call rfl h
      have : s.pc.rank = 92 := congrArg Pc.rank (show s.pc = .run .fork from hpc)
      have : mainCost s (.fork r) = 1 := by simp [mainCost, hf, Act.isEnv, Act.price, Act.isRead]
      simp only [forkAhead, if_true]
      split_ifs <;> omega
    | _ => cases ha

/-- The invariant of the runs so far. -/
structure Ranked (s : St) : Prop where
  sig : SigInv s
  unsignalled : UnsignalledAt s.exitSignalled s.pc
  rank : s.pc.rank ≤ 96

theorem run_ranked {i : Inherited} {as : List Act} (h : (supervisor c).Run (.init i) as s) :
    Ranked s :=
  h.invariant (I := Ranked) ⟨init_sigInv i, trivial, by simp [St.init, Pc.rank, RunPc.rank]⟩
    fun s a s' hs hn => by
      refine ⟨next_sigInv hs.sig hn, next_unsignalled hs.sig hs.unsignalled hn, ?_⟩
      have := hs.rank
      rcases next_rank hs.sig hn with hle | ⟨-, hp | hp⟩
      · omega
      · simp [hp, Pc.rank, WatchPc.rank]
      · simp [hp, Pc.rank, RunPc.rank]

/-- **A process that was told to exit does exit**: in every continuation of every run, once
`exit_signalled` is set the main program makes at most 96 more steps other than reading from the
stderr of the child, it forks at most once, and not at all if a child was being watched or killed;
and it is never stuck: it is gone, it sleeps, or it can make a step. -/
theorem exit_signal_heeded (c : Cfg) (i : Inherited) {as bs : List Act} {s s' : St}
    (h : (supervisor c).Run (.init i) as s) (hsig : s.exitSignalled = true)
    (h' : (supervisor c).Run s bs s') :
    (supervisor c).spent mainCost s bs ≤ 96 ∧ bs.countP Act.isFork ≤ 1 ∧
      ((∃ p, s.pc = .watch p) ∨ (∃ p k, s.pc = .kill p k) → bs.countP Act.isFork = 0) ∧
      (s'.pc = .gone ∨ (∃ n k, s'.pc = .sleep n k) ∨ Enabled (next c s')) := by
  have hr := run_ranked h
  have hs : Signalled s := ⟨hr.sig, hsig, hr.unsignalled⟩
  have hs' : Signalled s' :=
    h'.invariant (I := Signalled) hs fun s a s' hs hn => next_signalled hs hn
  have hspent : (supervisor c).spent mainCost s bs + s'.pc.rank ≤ s.pc.rank :=
    h'.spent_le (I := Signalled) (fun s a s' hs hn => ⟨next_signalled hs hn, hs.rank hn⟩) hs
  have hfork : (supervisor c).spent (fun _ a => if a.isFork then 1 else 0) s bs + forkAhead s' ≤
      forkAhead s :=
    h'.spent_le (I := Signalled) (fun s a s' hs hn => ⟨next_signalled hs hn, hs.fork hn⟩) hs
  rw [h'.spent_eq_countP] at hfork
  have hrank := hr.rank
  have hle : forkAhead s ≤ 1 := by
    unfold forkAhead
    split_ifs <;> omega
  refine ⟨by omega, by omega, ?_, ?_⟩
  · intro hp
    have hlt : forkAhead s = 0 := by
      refine if_neg ?_
      rcases hp with ⟨p, hp⟩ | ⟨p, k, hp⟩ <;> rw [hp]
      · cases p <;> simp [Pc.rank, WatchPc.rank]
      · cases p with
        | signal ph => cases ph <;> simp [Pc.rank, KillPc.rank]
        | poll ph w =>
          cases ph <;> simp only [Pc.rank, KillPc.rank, sigtermGrace, sigkillWait] <;> omega
        | _ => simp [Pc.rank, KillPc.rank]
    omega
  · by_cases hgone : s'.pc = .gone
    · exact .inl hgone
    · by_cases hsleep : ∃ n k, s'.pc = .sleep n k
      · exact .inr (.inl hsleep)
      · refine .inr (.inr (next_enabled hgone (fun n k hp => hsleep ⟨n, k, hp⟩) fun old hp => ?_))
        have hun := hs'.unsignalled
        rw [hs'.signalled, hp] at hun
        cases hun

/-- The child is killed and reaped, and `ssh_watch` and `ssh_run` return. -/
def killedOff (pid : ℤ) (v : ℕ) : List Act :=
  ([.kill pid .term, .childExit 15, .waitpid .sshKill pid (.pid 15), .tau, .watchRet .exitErr, .tau,
    .alarm 0 v] : List Act) ++ List.replicate 9 Act.tau ++ ([.runRet .exitErr] : List Act)

theorem exit_signal_heeded_killedOff :
    ∃ s s', (supervisor .default).Run (.init .clean) (startup 100 600 ++ terminate 3) s ∧
      s.exitSignalled = true ∧ (supervisor .default).Run s (killedOff 100 600) s' ∧
      s'.pc = .gone ∧ (supervisor .default).spent mainCost s (killedOff 100 600) ≤ 96 ∧
      (killedOff 100 600).countP Act.isFork ≤ 1 := by
  obtain ⟨s, s', hr, hr'⟩ := Machine.exists_run_append (show Option.isSome
    ((supervisor .default).exec (.init .clean)
      (startup 100 600 ++ terminate 3 ++ killedOff 100 600)) = true by rfl)
  have hend : s.exitSignalled = true ∧ s'.pc = .gone := by
    cases hr
    cases hr'
    exact ⟨rfl, rfl⟩
  obtain ⟨hspent, hfork, -, -⟩ := exit_signal_heeded .default .clean hr hend.1 hr'
  exact ⟨s, s', hr, hend.1, hr', hend.2, hspent, hfork⟩

end Supervisor

end Autossh
