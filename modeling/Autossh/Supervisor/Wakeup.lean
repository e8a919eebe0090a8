import Autossh.Supervisor.Children

/-!
# No lost wake-up

`ssh_watch` tests `restart_ssh`, the child and `exit_signalled` with the signals blocked, and
`ppoll` or `sigsuspend` unblocks them only inside the wait.  So nothing `sig_catch` or the kernel
could report can slip in between a test and the wait: it stays pending and ends the wait at once.

`CalmAt` says at each control point what the tests passed so far have established.  It only says
something at quiet control points (`calmAt_of_not_quiet`), where no handler runs and `SIGCHLD`
stays pending.  The result is `idle_when_waiting`.
-/

namespace Autossh

namespace Supervisor

/-- The events the wait must not miss. -/
structure Events where
  restart : Bool
  exit : Bool
  child : ChildState
  pending : SigSet

/-- The events in a state. -/
def St.events (s : St) : Events := ⟨s.restartSsh, s.exitSignalled, s.child, s.sg.pending⟩

/-- A child that has terminated is announced by a pending `SIGCHLD`. -/
def Events.Announced (e : Events) : Prop := ∀ st, e.child = .zombie st → e.pending .chld = true

/-- What has been tested at each control point. -/
def CalmAt : Pc → Events → Prop
  | .watch p, e => match p with
    | .setjmp | .wait => e.restart = false
    | .status _ | .waited _ | .takeAlarm | .clamp | .setJmp | .arm | .testExit =>
      e.restart = false ∧ e.Announced
    | .block => e.restart = false ∧ e.Announced ∧ e.exit = false
    | _ => True
  | .drain _ k, e => match k with
    | .wait _ => e.restart = false ∧ e.Announced
    | _ => True
  | .errlog _ k, e => CalmAt k e
  | .sleep _ k, e => CalmAt k e
  | _, _ => True

/-- The control points between the tests and the wait. -/
def Pc.quiet : Pc → Bool
  | .watch p => p.quiet
  | .drain _ k => k.isWait
  | .errlog _ k => k.quiet
  | .sleep _ k => k.quiet
  | _ => false

/-- `waitpid` reports a child that has terminated. -/
def reports (s : St) : Act → Bool
  | .waitpid _ _ r => match s.child with
    | .zombie st => decide (r = .pid st)
    | _ => true
  | _ => true

variable {c : Cfg} {s t : St} {a : Act}

theorem SigAt.of_quiet {p : Pc} {v : View} (hs : SigAt p v) (hq : p.quiet = true) : Quiet v := by
  induction p with
  | watch p => cases p <;> first | exact hs.2 hq | cases hq
  | drain p k => exact hs.2 hq
  | errlog m k ih => exact ih hs.2 hq
  | sleep n k ih => exact ih hs.2 hq
  | _ => cases hq

theorem calmAt_of_not_quiet {p : Pc} (hq : p.quiet ≠ true) (e : Events) : CalmAt p e := by
  induction p with
  | watch p => cases p <;> trivial
  | drain p k => cases k <;> trivial
  | errlog m k ih => exact ih hq
  | sleep n k ih => exact ih hq
  | _ => trivial

/-! ### One step of the main program -/

theorem sshWatchStep_calm {p : WatchPc} (hs : CalmAt (.watch p) s.events) (hr : reports s a = true)
    (h : sshWatchStep c s a p = some t) : CalmAt t.pc t.events := by
  cases p with
  | testRestart =>
    obtain ⟨-, rfl⟩ := on_eq_some.1 h
    simp only [St.goto]
    split_ifs with hrs
    · trivial
    · exact Bool.eq_false_iff.2 hrs
  | wait =>
    simp only [sshWatchStep, Option.bind_eq_some_iff, waitpid?_eq_some] at h
    obtain ⟨r, rfl, h⟩ := h
    cases r with
    | pid st =>
      simp only at h
      split_ifs at h
      cases h
      refine ⟨hs, fun st hst => ?_⟩
      cases hst
    | zero | err e =>
      -- a terminated child would have been reported
      cases h
      refine ⟨hs, fun st hst => ?_⟩
      simp only [reports, show s.child = .zombie st from hst] at hr
      cases hr
  | status st =>
    obtain ⟨-, rfl⟩ := on_eq_some.1 h
    simp only [St.goto]
    split <;> exact hs
  | waited rc =>
    obtain ⟨-, rfl⟩ := on_eq_some.1 h
    simp only [St.goto]
    split_ifs
    · exact hs
    · trivial
  | testExit =>
    obtain ⟨-, rfl⟩ := on_eq_some.1 h
    simp only [St.goto]
    split_ifs with he
    · trivial
    · exact ⟨hs.1, hs.2, Bool.eq_false_iff.2 he⟩
  | wake re | pollin re | pollhup re | alrm =>
    obtain ⟨-, rfl⟩ := on_eq_some.1 h
    simp only [St.goto]
    split_ifs <;> trivial
  | asleep old =>
    simp only [sshWatchStep] at h
    split_ifs at h
    simp only [Option.bind_eq_some_iff, Option.some.injEq] at h
    obtain ⟨re, -, rfl⟩ := h
    trivial
  | dispatch v =>
    obtain ⟨-, rfl⟩ := on_eq_some.1 h
    cases v <;> trivial
  | watchdog =>
    obtain ⟨-, rfl⟩ := on_eq_some.1 h
    simp only [St.goto, watchdogNext]
    split_ifs <;> trivial
  | conn =>
    simp only [sshWatchStep] at h
    split_ifs at h
    · simp only [Option.bind_eq_some_iff, Option.some.injEq] at h
      obtain ⟨r, -, rfl⟩ := h
      cases r <;> trivial
    · obtain ⟨-, rfl⟩ := on_eq_some.1 h
      trivial
  | _ =>
    obtain ⟨-, rfl⟩ := on_eq_some.1 h
    first | exact hs | trivial

theorem DrainCont.resume_calm {p : DrainPc} {k : DrainCont} {e : Events} (b : Bool)
    (hs : CalmAt (.drain p k) e) : CalmAt (k.resume b) e := by
  cases k with
  | wait st => exact hs
  | pollin re | alrm => cases b <;> trivial

theorem checkSshStderrStep_calm {p : DrainPc} {k : DrainCont}
    (hs : CalmAt (.drain p k) s.events) (h : checkSshStderrStep s k a p = some t) :
    CalmAt t.pc t.events := by
  have ht : CalmAt t.pc s.events := checkSshStderrStep_target (P := fun q => CalmAt q s.events)
    (fun _ => hs) (fun _ => hs) (fun b => DrainCont.resume_calm b hs)
    (fun _ => DrainCont.resume_calm true hs) h
  obtain ⟨_, _, _, rfl⟩ := checkSshStderrStep_frame h
  exact ht

/-- `ssh_kill` and `ssh_run` only lead to control points outside the quiet regions. -/
theorem sshKillStep_not_quiet {p : KillPc} {k : KillCont} (h : sshKillStep s k a p = some t) :
    t.pc.quiet ≠ true := by
  refine sshKillStep_target (P := fun q => q.quiet ≠ true) (fun _ => Bool.false_ne_true)
    (fun _ _ => Bool.false_ne_true) (fun _ _ => Bool.false_ne_true) ?_ h
  cases k <;> exact Bool.false_ne_true

theorem sshRunStep_not_quiet {p : RunPc} (h : sshRunStep c s a p = some t) :
    t.pc.quiet ≠ true := by
  cases p with
  | setExit l | setHandlers l | unsetHandlers rc l =>
    cases l <;> obtain ⟨-, rfl⟩ := on_eq_some.1 h <;> exact Bool.false_ne_true
  | head | lifetime | portDelay | testExit | testRc rc =>
    obtain ⟨-, rfl⟩ := on_eq_some.1 h
    simp only [St.goto]
    split_ifs <;> exact Bool.false_ne_true
  | grace =>
    obtain ⟨-, rfl⟩ := on_eq_some.1 h
    simp only
    split_ifs <;> exact Bool.false_ne_true
  | pipe =>
    simp only [sshRunStep, Option.bind_eq_some_iff] at h
    obtain ⟨r, -, h⟩ := h
    rcases r with - | ⟨r, w⟩ <;> cases h <;> exact Bool.false_ne_true
  | fork =>
    simp only [sshRunStep, Option.bind_eq_some_iff] at h
    obtain ⟨r, -, h⟩ := h
    split_ifs at h <;> cases h <;> exact Bool.false_ne_true
  | closeStderr rc =>
    simp only [sshRunStep] at h
    split_ifs at h <;> obtain ⟨-, rfl⟩ := on_eq_some.1 h <;> exact Bool.false_ne_true
  | _ =>
    obtain ⟨-, rfl⟩ := on_eq_some.1 h
    exact Bool.false_ne_true

theorem mainStep_calm (hs : CalmAt s.pc s.events) (hr : reports s a = true)
    (h : mainStep c s a = some t) : CalmAt t.pc t.events := by
  rcases mainStep_cases h with ⟨p, -, h⟩ | ⟨p, hp, h⟩ | ⟨p, k, hp, h⟩ | ⟨p, k, -, h⟩ |
    ⟨k, ⟨m, hp⟩ | ⟨n, hp⟩, -, rfl⟩ | ⟨-, -, rfl⟩
  · exact calmAt_of_not_quiet (sshRunStep_not_quiet h) _
  · exact sshWatchStep_calm (hp ▸ hs) hr h
  · exact checkSshStderrStep_calm (hp ▸ hs) h
  · exact calmAt_of_not_quiet (sshKillStep_not_quiet h) _
  · rw [hp] at hs
    exact hs
  · rw [hp] at hs
    exact hs
  · trivial

/-! ### The handler and the environment -/

/-- `sig_catch` does not run between the tests and the wait. -/
theorem sigCatchStep_calm {f : Frame} {fs : List Frame} (hs : SigInv s) (hf : s.frames = f :: fs)
    (h : sigCatchStep s f fs a = some t) : CalmAt t.pc t.events := by
  have hq : s.pc.quiet ≠ true := fun hq => by
    have := (hs.atPc.of_quiet hq).1
    simp [St.view, hf] at this
  rcases sigCatchStep_pc h with hpc | hpc | ⟨-, hpc⟩ <;> rw [hpc]
  · exact calmAt_of_not_quiet hq _
  · trivial
  · trivial

theorem CalmAt.mono {p : Pc} {e e' : Events} (hs : CalmAt p e) (hr : e'.restart = e.restart)
    (he : e'.exit = e.exit) (ha : e.Announced → e'.Announced) : CalmAt p e' := by
  induction p with
  | watch p =>
    cases p with
    | setjmp | wait => exact hr.trans hs
    | status _ | waited _ | takeAlarm | clamp | setJmp | arm | testExit =>
      exact ⟨hr.trans hs.1, ha hs.2⟩
    | block => exact ⟨hr.trans hs.1, ha hs.2.1, he.trans hs.2.2⟩
    | _ => trivial
  | drain p k =>
    cases k with
    | wait st => exact ⟨hr.trans hs.1, ha hs.2⟩
    | pollin re | alrm => trivial
  | errlog m k ih => exact ih hs
  | sleep n k ih => exact ih hs
  | _ => trivial

theorem CalmAt.raised {p : Pc} (hs : CalmAt p s.events) (g : Sig) (tm : Option ℕ) :
    CalmAt p ({ s with sg := s.sg.raise g, timer := tm } : St).events :=
  hs.mono rfl rfl fun ha st hst => SigState.raise_pending_mono (ha st hst)

/-- A signal delivered between the tests and the wait is not one that `sig_catch` handles. -/
theorem deliver_calm {g : Sig} (hi : SigInv s) (hs : CalmAt s.pc s.events)
    (h : deliver s g = some t) : CalmAt t.pc t.events := by
  obtain ⟨-, hm, ht⟩ := deliver_cases h
  by_cases hq : s.pc.quiet = true
  · have hg : blockmask g ≠ true := fun hg => by
      have := (hi.atPc.of_quiet hq).blocked hg
      simp [St.view, hm] at this
    obtain rfl | rfl | ⟨m, hd, -⟩ := ht
    · refine hs.mono rfl rfl fun ha st hst => ?_
      have hne : Sig.chld ≠ g := by rintro rfl; exact hg rfl
      exact (SigState.take_pending_of_ne hne).trans (ha st hst)
    · trivial
    · exact absurd (hi.catchOnly g m hd) hg
  · obtain rfl | rfl | ⟨m, -, rfl⟩ := ht
    · exact calmAt_of_not_quiet hq _
    · trivial
    · unfold pushFrame
      split
      · trivial
      · exact calmAt_of_not_quiet hq _

theorem envStep_calm (hi : SigInv s) (hs : CalmAt s.pc s.events) (h : envStep s a = some t) :
    CalmAt t.pc t.events := by
  cases a with
  | raise g => cases h; exact hs.raised g s.timer
  | deliver g => exact deliver_calm hi hs h
  | childExit st =>
    simp only [envStep] at h
    split_ifs at h
    cases h
    by_cases hq : s.pc.quiet = true
    · exact hs.mono rfl rfl fun _ _ _ =>
        SigState.raise_pending_of_blocked ((hi.atPc.of_quiet hq).blocked rfl)
    · exact calmAt_of_not_quiet hq _
  | elapse dw dt =>
    cases h
    cases hp : s.pc <;> rw [hp] at hs <;> exact hs
  | timerFire =>
    simp only [envStep] at h
    split_ifs at h
    cases h
    exact hs.raised .alrm none
  | _ => cases h

/-! ### Runs -/

theorem next_calm {s' : St} (hi : SigInv s) (hs : CalmAt s.pc s.events) (hr : reports s a = true)
    (h : next c s a = some s') : CalmAt s'.pc s'.events := by
  obtain ⟨-, he | ⟨f, fs, hf, hc⟩ | ⟨hf, t, hm, rfl⟩⟩ := next_cases h
  · exact envStep_calm hi hs he
  · exact sigCatchStep_calm hi hf hc
  · have ht := mainStep_calm hs hr hm
    exact ht

theorem run_calm {i : Inherited} {as : List Act}
    (h : ((supervisor c).guard fun s a => reports s a = true).Run (.init i) as s) :
    CalmAt s.pc s.events := by
  refine (h.invariant (I := fun s => SigInv s ∧ CalmAt s.pc s.events)
    ⟨init_sigInv i, trivial⟩ fun s a s' hs hn => ?_).2
  obtain ⟨hr, hn⟩ := Machine.guard_next.1 hn
  exact ⟨next_sigInv hs.1 hn, next_calm hs.1 hs.2 hr hn⟩

/-- **The supervisor never sleeps on unfinished business.**  If `waitpid` reports a child that has
terminated, then whenever `ssh_watch` is about to wait no exit and no restart has been requested,
and the child is running or a `SIGCHLD` is pending that will end the wait. -/
theorem idle_when_waiting (c : Cfg) (i : Inherited) {as : List Act} {s : St}
    (hr : ((supervisor c).guard fun s a => reports s a = true).Run (.init i) as s)
    (hp : s.pc = .watch .block) :
    s.exitSignalled = false ∧ s.restartSsh = false ∧
      (s.child = .running ∨ s.sg.pending .chld = true) := by
  have hcalm := run_calm hr
  have hkids := (run_kids hr.guard_mono).atPc
  rw [hp] at hcalm hkids
  refine ⟨hcalm.2.2, hcalm.1, ?_⟩
  cases hc : s.child with
  | none => exact absurd hc hkids.2.1
  | running => exact .inl rfl
  | zombie st => exact .inr (hcalm.2.1 st hc)

/-- The child exits after `ssh_wait` has looked: its `SIGCHLD` is pending when the wait begins. -/
theorem sigchld_pending_when_waiting :
    ∃ s, ((supervisor .default).guard fun s a => reports s a = true).Run (.init .clean)
        ((startup 100 600).dropLast ++ [.childExit 0]) s ∧
      s.pc = .watch .block ∧ s.exitSignalled = false ∧ s.restartSsh = false ∧
      (s.child = .running ∨ s.sg.pending .chld = true) := by
  have hr : ((supervisor .default).guard fun s a => reports s a = true).Run (.init .clean)
      ((startup 100 600).dropLast ++ [.childExit 0]) _ := rfl
  exact ⟨_, hr, rfl, idle_when_waiting .default .clean hr rfl⟩

end Supervisor

end Autossh
