import Autossh.Machine.Account
import Autossh.Supervisor.Async
import Autossh.Supervisor.Children

/-!
# The descriptors of the stderr pipes

For every child `ssh_run` opens a pipe.  The write end is closed in the supervisor at once; the
read end becomes `ssh_stderr_fd`, which `ssh_kill`, `ssh_watch` and the end of the iteration may
all close.

The supervisor refines the account of `Autossh.Machine.Account` (`supervisor_refines_account`):
it closes nothing but ends of its pipes, and each of them once.  What is open at a control point
(`held`) is `ssh_stderr_fd`, if it is not -1, and the ends that `ssh_run` has yet to close or to
store there.

Main result: `stderr_pipes_closed`.
-/

namespace Autossh

namespace Supervisor

/-- The descriptors an action opens. -/
def Act.opens : Act → List ℤ
  | .pipe (some (r, w)) => [(r : ℤ), (w : ℤ)]
  | _ => []

/-- The descriptors an action closes. -/
def Act.closes : Act → List ℤ
  | .close fd => [fd]
  | _ => []

/-- A descriptor, if it is one. -/
def fds (fd : ℤ) : List ℤ := if 0 ≤ fd then [fd] else []

/-- The ends of the pipe that `ssh_run` has yet to close, or to store in `ssh_stderr_fd`. -/
def Pc.ends (p : ℤ × ℤ) : Pc → List ℤ
  | .run .fork | .run .forkFailed | .run .closeRd | .run .parentClose => fds p.1 ++ fds p.2
  | .run .closeWr => fds p.2
  | .run .parentFd => fds p.1
  | .errlog _ k | .sleep _ k => k.ends p
  | _ => []

/-- What is open at a control point. -/
def held (fd : ℤ) (p : ℤ × ℤ) (pc : Pc) : List ℤ := fds fd ++ pc.ends p

/-- `ssh_stderr_fd` at each control point: outside `ssh_watch` and the cleanup after it there is
none, and neither after the first step of `ssh_kill`; `ssh_watch` closes it only if there is
one. -/
def FdAt (fd : ℤ) : Pc → Prop
  | .run (.setHandlers _) | .run (.clearJmp _) | .run (.clearAlarm _) | .run (.unsetHandlers _ _)
  | .run (.closeStderr _) => True
  | .run _ => fd = -1
  | .watch (.pollin _) | .watch (.pollhup _) | .watch .closeFd => 0 ≤ fd
  | .watch _ => True
  | .drain _ (.pollin _) => 0 ≤ fd
  | .drain _ _ => True
  | .kill .close _ => True
  | .kill _ _ => fd = -1
  | .errlog _ k | .sleep _ k => FdAt fd k
  | .exit => fd = -1
  | .gone => True

/-! ### What a step does to the account -/

/-- The action takes the open descriptors `h` to `h'`. -/
def Moves (h : List ℤ) (a : Act) (h' : List ℤ) : Prop :=
  (↑h + ↑a.opens : Multiset ℤ) = ↑a.closes + ↑h' ∧ (↑a.closes : Multiset ℤ) ≤ ↑h

variable {c : Cfg} {s t : St} {a : Act} {h h' : List ℤ} {fd : ℤ} {q : ℤ × ℤ}

theorem Moves.same (ho : a.opens = []) (hc : a.closes = []) : Moves h a h := by
  rw [Moves, ho, hc]
  simp only [Multiset.coe_nil, add_zero, zero_add, true_and]
  exact Multiset.zero_le _

theorem Moves.perm {h₁ : List ℤ} (hm : Moves h₁ a h') (hp : h.Perm h₁) : Moves h a h' := by
  have heq : (↑h : Multiset ℤ) = ↑h₁ := Multiset.coe_eq_coe.2 hp
  simpa only [Moves, heq] using hm

theorem moves_pipe (r w : ℕ) : Moves [] (.pipe (some (r, w))) [(r : ℤ), (w : ℤ)] := by
  simp [Moves, Act.opens, Act.closes]

theorem moves_close : Moves (fd :: h) (.close fd) h := by
  refine ⟨?_, ?_⟩
  · simp [Act.opens, Act.closes]
  · simp [Act.closes]

/-- Closing a descriptor, if it is one. -/
theorem moves_if_close : Moves (fds fd ++ h) (if 0 ≤ fd then .close fd else .tau) h := by
  unfold fds
  split_ifs
  · exact moves_close
  · exact Moves.same rfl rfl

@[simp] theorem fds_neg_one : fds (-1) = [] := rfl

theorem fds_of_nonneg (hfd : 0 ≤ fd) : fds fd = [fd] := if_pos hfd

theorem fds_natCast (n : ℕ) : fds n = [(n : ℤ)] := if_pos (Int.natCast_nonneg n)

/-- What is no descriptor is -1. -/
def Valid (s : St) : Prop := -1 ≤ s.sshStderrFd ∧ -1 ≤ s.stderrPipe.1

/-- What one step from the control point `p` of the state `s` keeps. -/
structure FdStep (s : St) (p : Pc) (a : Act) (t : St) : Prop where
  valid : Valid t
  atPc : FdAt t.sshStderrFd t.pc
  moves : Moves (held s.sshStderrFd s.stderrPipe p) a (held t.sshStderrFd t.stderrPipe t.pc)

/-- A step that neither opens nor closes anything. -/
theorem FdStep.plain {p : Pc} (hv : Valid s) (hfd : t.sshStderrFd = s.sshStderrFd)
    (hpipe : t.stderrPipe = s.stderrPipe) (ho : a.opens = []) (hc : a.closes = [])
    (ht : FdAt s.sshStderrFd t.pc) (he : t.pc.ends s.stderrPipe = p.ends s.stderrPipe) :
    FdStep s p a t := by
  refine ⟨?_, hfd ▸ ht, ?_⟩
  · rw [Valid, hfd, hpipe]
    exact hv
  rw [held, held, hfd, hpipe, he]
  exact Moves.same ho hc

/-! ### One step of the main program -/

theorem sshRunStep_fd {p : RunPc} (hv : Valid s) (hs : FdAt s.sshStderrFd (.run p))
    (h : sshRunStep c s a p = some t) : FdStep s (.run p) a t := by
  cases p with
  | setExit l | setHandlers l | unsetHandlers rc l =>
    cases l <;> obtain ⟨rfl, rfl⟩ := on_eq_some.1 h <;> exact .plain hv rfl rfl rfl rfl hs rfl
  | head | lifetime | portDelay | testExit | testRc rc =>
    obtain ⟨rfl, rfl⟩ := on_eq_some.1 h
    simp only [St.goto]
    split_ifs <;> exact .plain hv rfl rfl rfl rfl hs rfl
  | grace =>
    obtain ⟨rfl, rfl⟩ := on_eq_some.1 h
    split_ifs <;> exact .plain hv rfl rfl rfl rfl hs rfl
  | pipe =>
    simp only [sshRunStep, Option.bind_eq_some_iff, pipe?_eq_some] at h
    obtain ⟨r, rfl, h⟩ := h
    have hfd : s.sshStderrFd = -1 := hs
    rcases r with - | ⟨r, w⟩ <;> cases h
    · refine ⟨⟨hv.1, le_rfl⟩, hfd, ?_⟩
      simp only [held, hfd, Pc.ends, fds_neg_one]
      exact Moves.same rfl rfl
    · refine ⟨⟨hv.1, by simp⟩, hfd, ?_⟩
      simp only [held, hfd, Pc.ends, fds_neg_one, fds_natCast]
      exact moves_pipe r w
  | fork =>
    simp only [sshRunStep, Option.bind_eq_some_iff, fork?_eq_some] at h
    obtain ⟨r, rfl, h⟩ := h
    split_ifs at h <;> cases h <;> exact .plain hv rfl rfl rfl rfl hs rfl
  | closeRd =>
    obtain ⟨rfl, rfl⟩ := on_eq_some.1 h
    have hfd : s.sshStderrFd = -1 := hs
    refine ⟨hv, hfd, ?_⟩
    simp only [held, St.goto, hfd, Pc.ends, fds_neg_one, List.nil_append]
    exact moves_if_close
  | closeWr =>
    obtain ⟨rfl, rfl⟩ := on_eq_some.1 h
    have hfd : s.sshStderrFd = -1 := hs
    refine ⟨hv, trivial, ?_⟩
    simp only [held, St.goto, hfd, Pc.ends, fds_neg_one, List.nil_append]
    have hclose : Moves (fds s.stderrPipe.2 ++ []) _ [] := moves_if_close
    rwa [List.append_nil] at hclose
  | parentClose =>
    obtain ⟨rfl, rfl⟩ := on_eq_some.1 h
    have hfd : s.sshStderrFd = -1 := hs
    refine ⟨hv, hfd, ?_⟩
    simp only [held, St.goto, hfd, Pc.ends, fds_neg_one, List.nil_append]
    exact moves_if_close.perm List.perm_append_comm
  | parentFd =>
    -- the read end becomes `ssh_stderr_fd`
    obtain ⟨rfl, rfl⟩ := on_eq_some.1 h
    have hfd : s.sshStderrFd = -1 := hs
    refine ⟨⟨hv.2, hv.2⟩, trivial, ?_⟩
    simp only [held, hfd, Pc.ends, fds_neg_one, List.nil_append, List.append_nil]
    exact Moves.same rfl rfl
  | closeStderr rc =>
    simp only [sshRunStep] at h
    split_ifs at h with hfd <;> obtain ⟨rfl, rfl⟩ := on_eq_some.1 h
    · refine ⟨⟨le_rfl, hv.2⟩, rfl, ?_⟩
      simp only [held, Pc.ends, fds_neg_one, fds_of_nonneg hfd]
      exact moves_close
    · exact .plain hv rfl rfl rfl rfl (show _ = -1 by have := hv.1; omega) rfl
  | ret rc =>
    obtain ⟨rfl, rfl⟩ := on_eq_some.1 h
    exact .plain hv rfl rfl rfl rfl trivial rfl
  | _ =>
    obtain ⟨rfl, rfl⟩ := on_eq_some.1 h
    exact .plain hv rfl rfl rfl rfl hs rfl

theorem sshWatchStep_fd {p : WatchPc} (hv : Valid s) (hs : FdAt s.sshStderrFd (.watch p))
    (h : sshWatchStep c s a p = some t) : FdStep s (.watch p) a t := by
  cases p with
  | testRestart | waited rc | testExit | alrm =>
    obtain ⟨rfl, rfl⟩ := on_eq_some.1 h
    simp only [St.goto]
    split_ifs <;> exact .plain hv rfl rfl rfl rfl trivial rfl
  | wait =>
    simp only [sshWatchStep, Option.bind_eq_some_iff, waitpid?_eq_some] at h
    obtain ⟨r, rfl, h⟩ := h
    cases r with
    | pid st =>
      simp only at h
      split_ifs at h
      cases h
      exact .plain hv rfl rfl rfl rfl trivial rfl
    | zero | err e =>
      cases h
      exact .plain hv rfl rfl rfl rfl trivial rfl
  | status st =>
    obtain ⟨rfl, rfl⟩ := on_eq_some.1 h
    simp only [St.goto]
    split <;> exact .plain hv rfl rfl rfl rfl trivial rfl
  | asleep old =>
    simp only [sshWatchStep] at h
    split_ifs at h
    simp only [Option.bind_eq_some_iff, poll?_eq_some, Option.some.injEq] at h
    obtain ⟨re, rfl, rfl⟩ := h
    exact .plain hv rfl rfl rfl rfl trivial rfl
  | wake re =>
    obtain ⟨rfl, rfl⟩ := on_eq_some.1 h
    split_ifs with hfd
    · exact .plain hv rfl rfl rfl rfl hfd rfl
    · exact .plain hv rfl rfl rfl rfl trivial rfl
  | pollin re =>
    obtain ⟨rfl, rfl⟩ := on_eq_some.1 h
    simp only [St.goto]
    split_ifs <;> exact .plain hv rfl rfl rfl rfl hs rfl
  | pollhup re =>
    obtain ⟨rfl, rfl⟩ := on_eq_some.1 h
    simp only [St.goto]
    split_ifs
    · exact .plain hv rfl rfl rfl rfl hs rfl
    · exact .plain hv rfl rfl rfl rfl trivial rfl
  | closeFd =>
    obtain ⟨rfl, rfl⟩ := on_eq_some.1 h
    refine ⟨⟨le_rfl, hv.2⟩, trivial, ?_⟩
    simp only [held, Pc.ends, fds_neg_one, fds_of_nonneg (show 0 ≤ s.sshStderrFd from hs)]
    exact moves_close
  | dispatch v =>
    obtain ⟨rfl, rfl⟩ := on_eq_some.1 h
    cases v <;> exact .plain hv rfl rfl rfl rfl trivial rfl
  | watchdog =>
    obtain ⟨rfl, rfl⟩ := on_eq_some.1 h
    simp only [St.goto, watchdogNext]
    split_ifs <;> exact .plain hv rfl rfl rfl rfl trivial rfl
  | conn =>
    simp only [sshWatchStep] at h
    split_ifs at h
    · simp only [Option.bind_eq_some_iff, conn?_eq_some, Option.some.injEq] at h
      obtain ⟨r, rfl, rfl⟩ := h
      cases r <;> exact .plain hv rfl rfl rfl rfl trivial rfl
    · obtain ⟨rfl, rfl⟩ := on_eq_some.1 h
      exact .plain hv rfl rfl rfl rfl trivial rfl
  | _ =>
    obtain ⟨rfl, rfl⟩ := on_eq_some.1 h
    exact .plain hv rfl rfl rfl rfl trivial rfl

theorem DrainCont.resume_fd {p : DrainPc} {k : DrainCont} (b : Bool)
    (hs : FdAt fd (.drain p k)) : FdAt fd (k.resume b) ∧ (k.resume b).ends q = [] := by
  cases k with
  | wait st | alrm => cases b <;> exact ⟨trivial, rfl⟩
  | pollin re =>
    cases b
    · exact ⟨hs, rfl⟩
    · exact ⟨trivial, rfl⟩

theorem checkSshStderrStep_fd {p : DrainPc} {k : DrainCont} (hv : Valid s)
    (hs : FdAt s.sshStderrFd (.drain p k)) (h : checkSshStderrStep s k a p = some t) :
    FdStep s (.drain p k) a t := by
  have hmove : ∀ p', FdAt s.sshStderrFd (.drain p' k) := fun p' => by cases k <;> exact hs
  have ht : FdAt s.sshStderrFd t.pc ∧ t.pc.ends s.stderrPipe = [] :=
    checkSshStderrStep_target
      (P := fun q => FdAt s.sshStderrFd q ∧ q.ends s.stderrPipe = []) (fun _ => ⟨hmove _, rfl⟩)
      (fun _ => ⟨hmove _, rfl⟩) (fun b => DrainCont.resume_fd b hs)
      (fun _ => DrainCont.resume_fd true hs) h
  have ha : a = .tau ∨ ∃ fd r, a = .read fd r := checkSshStderrStep_act h
  obtain ⟨_, _, _, rfl⟩ := checkSshStderrStep_frame h
  rcases ha with rfl | ⟨fd, r, rfl⟩ <;> exact .plain hv rfl rfl rfl rfl ht.1 ht.2

theorem KillCont.resume_fd (k : KillCont) : FdAt (-1) k.resume ∧ k.resume.ends q = [] := by
  cases k with
  | ret rc | portWait => exact ⟨trivial, rfl⟩
  | fatal => exact ⟨rfl, rfl⟩

theorem sshKillStep_fd {p : KillPc} {k : KillCont} (hv : Valid s)
    (hs : FdAt s.sshStderrFd (.kill p k)) (h : sshKillStep s k a p = some t) :
    FdStep s (.kill p k) a t := by
  have hresume : s.sshStderrFd = -1 →
      FdAt s.sshStderrFd k.resume ∧ k.resume.ends s.stderrPipe = [] := by
    intro hfd
    rw [hfd]
    exact k.resume_fd
  cases p with
  | close =>
    simp only [sshKillStep] at h
    split_ifs at h with hfd <;> obtain ⟨rfl, rfl⟩ := on_eq_some.1 h
    · refine ⟨⟨le_rfl, hv.2⟩, rfl, ?_⟩
      simp only [held, Pc.ends, fds_neg_one, fds_of_nonneg hfd]
      exact moves_close
    · exact .plain hv rfl rfl rfl rfl (show _ = -1 by have := hv.1; omega) rfl
  | test =>
    obtain ⟨rfl, rfl⟩ := on_eq_some.1 h
    simp only [St.goto]
    split_ifs
    · exact .plain hv rfl rfl rfl rfl (hresume hs).1 (hresume hs).2
    · exact .plain hv rfl rfl rfl rfl hs rfl
  | signal ph =>
    obtain ⟨rfl, rfl⟩ := on_eq_some.1 h
    exact .plain hv rfl rfl rfl rfl hs rfl
  | poll ph w =>
    simp only [sshKillStep] at h
    split_ifs at h
    · simp only [Option.bind_eq_some_iff, waitpid?_eq_some] at h
      obtain ⟨r, rfl, h⟩ := h
      split at h
      · split_ifs at h
        cases h
        exact .plain hv rfl rfl rfl rfl (hresume hs).1 (hresume hs).2
      · cases h
        exact .plain hv rfl rfl rfl rfl (hresume hs).1 (hresume hs).2
      all_goals
        cases h
        exact .plain hv rfl rfl rfl rfl hs rfl
    · obtain ⟨rfl, rfl⟩ := on_eq_some.1 h
      cases ph <;> exact .plain hv rfl rfl rfl rfl hs rfl
  | drop =>
    obtain ⟨rfl, rfl⟩ := on_eq_some.1 h
    exact .plain hv rfl rfl rfl rfl (hresume hs).1 (hresume hs).2

theorem mainStep_fd (hv : Valid s) (hs : FdAt s.sshStderrFd s.pc) (h : mainStep c s a = some t) :
    FdStep s s.pc a t := by
  rcases mainStep_cases h with ⟨p, hp, h⟩ | ⟨p, hp, h⟩ | ⟨p, k, hp, h⟩ | ⟨p, k, hp, h⟩ |
    ⟨k, ⟨m, hp⟩ | ⟨n, hp⟩, rfl, rfl⟩ | ⟨hp, rfl, rfl⟩ <;> rw [hp] at hs ⊢
  · exact sshRunStep_fd hv hs h
  · exact sshWatchStep_fd hv hs h
  · exact checkSshStderrStep_fd hv hs h
  · exact sshKillStep_fd hv hs h
  · exact .plain hv rfl rfl rfl rfl hs rfl
  · exact .plain hv rfl rfl rfl rfl hs rfl
  · exact .plain hv rfl rfl rfl rfl trivial rfl

/-! ### The handler and the environment -/

/-- The process can also end, with whatever it has open. -/
def FdNext (s : St) (a : Act) (t : St) : Prop :=
  (t.pc = .gone ∧ a.opens = [] ∧ a.closes = []) ∨ FdStep s s.pc a t

theorem opens_of_isCall (ha : a.isCall = false) : a.opens = [] ∧ a.closes = [] := by
  cases a <;> first | exact ⟨rfl, rfl⟩ | cases ha

theorem Async.fdNext (h : Async s t) (ha : a.isCall = false) (hv : Valid s)
    (hfd : FdAt s.sshStderrFd s.pc) : FdNext s a t := by
  obtain ⟨ho, hc⟩ := opens_of_isCall ha
  -- no end of the pipe is outstanding in the wait
  have hpc : t.pc = .gone ∨
      FdAt s.sshStderrFd t.pc ∧ t.pc.ends s.stderrPipe = s.pc.ends s.stderrPipe := by
    refine h.pc.keeps (A := fun p => p = .gone ∨
      FdAt s.sshStderrFd p ∧ p.ends s.stderrPipe = s.pc.ends s.stderrPipe) (.inr ⟨hfd, rfl⟩)
      ?_ ?_ ?_ (.inl rfl)
    · intro n m k hk
      exact .inr (hk.resolve_left (by simp))
    · intro old hk
      exact .inr ⟨trivial, (hk.resolve_left (by simp)).2⟩
    · intro v hk
      exact .inr ⟨trivial, (hk.resolve_left (by simp)).2⟩
  rcases hpc with hgone | ⟨hfd', hends⟩
  · exact .inl ⟨hgone, ho, hc⟩
  · exact .inr (.plain hv h.sshStderrFd h.stderrPipe ho hc hfd' hends)

/-! ### Refinement -/

theorem next_fd {s' : St} (hs : SigInv s) (hv : Valid s) (hfd : FdAt s.sshStderrFd s.pc)
    (h : next c s a = some s') : FdNext s a s' := by
  rcases next_main_or_async hs h with ⟨ha, hasync⟩ | ⟨-, t, hm, rfl⟩
  · exact hasync.fdNext ha hv hfd
  · obtain ⟨hv', hfd', hmv⟩ := mainStep_fd hv hfd hm
    exact .inr ⟨hv', hfd', hmv⟩

/-- The supervisor and the account agree, unless the process has ended. -/
structure Holds (s : St) (l : Multiset ℤ) : Prop where
  sig : SigInv s
  open_ : s.pc = .gone ∨ Valid s ∧ FdAt s.sshStderrFd s.pc ∧
    l = ↑(held s.sshStderrFd s.stderrPipe s.pc)

/-- **The supervisor closes what it has open, and nothing else.** -/
theorem supervisor_refines_account (c : Cfg) :
    (supervisor c).Refines (Account.account Act.opens Act.closes) Holds := by
  intro s l a s' hk hn
  obtain ⟨hgone, -⟩ := next_cases hn
  obtain ⟨hv, hfd, rfl⟩ := hk.open_.resolve_left hgone
  have hsig := next_sigInv hk.sig hn
  rcases next_fd hk.sig hv hfd hn with ⟨hend, ho, hc⟩ | ⟨hv', hfd', hmv, hle⟩
  · obtain ⟨hmv, hle⟩ := Moves.same ho hc
    exact ⟨_, Account.account_next hmv hle, hsig, .inl hend⟩
  · exact ⟨_, Account.account_next hmv hle, hsig, .inr ⟨hv', hfd', rfl⟩⟩

theorem init_holds (i : Inherited) : Holds (.init i) 0 :=
  ⟨init_sigInv i, .inr ⟨⟨le_rfl, le_rfl⟩, rfl, rfl⟩⟩

/-- The control points at which `ssh_run` has no pipe: the head of its loop, its `return`, and the
`_exit(1)` of `xerrlog!`. -/
def Pc.pipeless : Pc → Bool
  | .run .head | .run (.ret _) | .exit => true
  | _ => false

theorem FdAt.pipeless {p : Pc} (h : FdAt fd p) (hp : p.pipeless = true) :
    fd = -1 ∧ p.ends q = [] := by
  cases p with
  | run p =>
    cases p with
    | head | ret rc => exact ⟨h, rfl⟩
    | _ => cases hp
  | exit => exact ⟨h, rfl⟩
  | _ => cases hp

/-- **Every end of a stderr pipe is closed exactly once.**  At any time, a descriptor has been
closed at most as often as `pipe` has returned it, so that only open ends are closed; at the head
of the loop, on return and before `_exit(1)` it has been closed as often, and `ssh_stderr_fd` is
-1. -/
theorem stderr_pipes_closed (c : Cfg) (i : Inherited) {as : List Act} {s : St}
    (hr : (supervisor c).Run (.init i) as s) :
    (∀ fd, (as.flatMap Act.closes).count fd ≤ (as.flatMap Act.opens).count fd) ∧
      (s.pc.pipeless = true → s.sshStderrFd = -1 ∧
        ∀ fd, (as.flatMap Act.closes).count fd = (as.flatMap Act.opens).count fd) := by
  obtain ⟨l, hl, hk⟩ := hr.refines (supervisor_refines_account c) (init_holds i)
  refine ⟨Account.count_closed_le hl, ?_⟩
  intro hp
  have hgone : s.pc ≠ .gone := by
    intro hgone
    rw [hgone] at hp
    exact Bool.false_ne_true hp
  obtain ⟨-, hfd, rfl⟩ := hk.open_.resolve_left hgone
  obtain ⟨hneg, hends⟩ := hfd.pipeless hp
  rw [held, hneg, hends] at hl
  exact ⟨hneg, Account.count_closed_eq hl⟩

/-- A child that exits too early, up to the `return` of `ssh_run`. -/
theorem pipe_closed_on_return :
    ∃ s, (supervisor .default).Run (.init .clean)
        (startup 100 600 ++ childExits 100 0 ++ wayOut 3) s ∧
      s.pc.pipeless = true ∧ s.sshStderrFd = -1 ∧
      ((startup 100 600 ++ childExits 100 0 ++ wayOut 3).flatMap Act.closes).count 3 =
        ((startup 100 600 ++ childExits 100 0 ++ wayOut 3).flatMap Act.opens).count 3 := by
  have hr : (supervisor .default).Run (.init .clean)
    (startup 100 600 ++ childExits 100 0 ++ wayOut 3) _ := rfl
  obtain ⟨hfd, hcount⟩ := (stderr_pipes_closed .default .clean hr).2 rfl
  exact ⟨_, hr, rfl, hfd, hcount 3⟩

end Supervisor

end Autossh
