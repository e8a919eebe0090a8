import Autossh.Machine.Since
import Autossh.Supervisor.Backoff
import Autossh.Supervisor.Starts

/-!
# Why a child is killed, and why `ssh_run` returns

The supervisor kills its ssh child in many places, and `ssh_run` returns from several.  A `Cause` is
an event in the run that can be behind it:

* `exitSignal`, `restartSignal` : `SIGTERM` or `SIGINT`, or `SIGUSR1`, was delivered;
* `badStderr` : a chunk of the child's stderr was read that `check_ssh_stderr` looks for;
* `portDown` : `conn_test` found the port down, or gave up;
* `lifetime` : the lifetime was over at some moment;
* `watchdog` : the child was silent, or had lost its stderr pipe, for `max_session` seconds;
* `reaped` : `ssh_wait` reaped the child, with this status.

A cause counts for the child that is there when it arises: the next `fork` has it forgotten, apart
from an exit signal.  `CauseAt` says at each control point which causes there must be, and the two
results read it off: `kill_justified` and `return_explained`.  For `SIGUSR1` this needs that the
signal is not caught from the end of `ssh_watch` to the next `fork`, so that `restart_ssh` is clear
when a child is started (`UsrAt`).
-/

namespace Autossh

namespace Supervisor

/-! ### Causes -/

/-- What can be behind the end of a child or of `ssh_run`. -/
inductive Cause
  | exitSignal
  | restartSignal
  | badStderr
  | portDown
  | lifetime
  | watchdog
  | reaped (st : ℕ)

/-- The cause arises when the action `a` happens in the state `s`. -/
def Cause.Arises (c : Cfg) (s : St) (a : Act) : Cause → Prop
  | .exitSignal => ∃ g, exits g = true ∧ a = .deliver g
  | .restartSignal => a = .deliver .usr1
  | .badStderr => ∃ fd chunk, a = .read fd (some chunk) ∧ scanChunk chunk ≠ .clean
  | .portDown => ∃ r, r ≠ .up ∧ a = .conn r
  | .lifetime => exceededLifetime c s.now = true
  | .watchdog => 0 < c.maxSession ∧
      ((s.pipeLostTime ≠ 0 ∧ c.maxSession ≤ s.now - s.pipeLostTime) ∨
        (s.lastStderrTime = 0 ∧ c.maxSession ≤ s.now - s.startTime))
  | .reaped st => ∃ p, a = .waitpid .sshWait p (.pid st)

/-- A new child has a cause forgotten. -/
def Cause.Forgotten (a : Act) : Cause → Prop
  | .exitSignal => False
  | _ => ∃ r, a = .fork r

/-- The cause has arisen in the run, and not been forgotten. -/
def Given (c : Cfg) (i : Inherited) (as : List Act) (k : Cause) : Prop :=
  (supervisor c).Since (.init i) (fun s a => k.Arises c s a) (fun a => k.Forgotten a) as

/-- One of the reasons to kill a child. -/
def Grounds (q : Cause → Prop) : Prop :=
  q .exitSignal ∨ q .restartSignal ∨ q .badStderr ∨ q .portDown ∨ q .lifetime ∨ q .watchdog

/-- What `P_EXITOK` and `P_EXITERR` stand for, with `start_count` and `exit_signalled`: the count is
used up, the lifetime is over, or the child has exited with status 0; a signal to exit, or a child
that has exited too early or with a status after which ssh is not restarted. -/
def Explained (c : Cfg) (n : ℤ) (e : Bool) (q : Cause → Prop) : Rc → Prop
  | .cont | .restart => True
  | .exitOk => (0 ≤ c.maxStart ∧ c.maxStart ≤ n) ∨ q .lifetime ∨
      ∃ st, q (.reaped st) ∧ wifexited st = true ∧ wexitstatus st = 0
  | .exitErr => e = true ∨ ∃ st, q (.reaped st) ∧ wifexited st = true ∧
      ((n ≤ 1 ∧ c.gateTime ≠ 0) ∨ wexitstatus st ∉ [0, 1, 2, 255])

/-- The causes there must be at each control point; `pid` is `cchild`. -/
def CauseAt (c : Cfg) (n : ℤ) (e : Bool) (pid : ℤ) (q : Cause → Prop) : Pc → Prop
  | .run p => match p with
    | .ret rc => rc.exits = true ∧ Explained c n e q rc
    | .clearJmp rc | .clearAlarm rc | .unsetHandlers rc _ | .closeStderr rc | .testRc rc =>
      Explained c n e q rc
    | .closeRd | .closeWr => pid = 0
    | _ => True
  | .watch p => match p with
    | .status st => q (.reaped st)
    | .waited rc | .ret rc | .leave rc => Explained c n e q rc
    | .dropJmp => e = true
    | .caught g | .dispatch g => (exits g = true → e = true) ∧ blockmask g = true
    | _ => True
  | .drain p k => (p = .flag → q .badStderr) ∧ ∀ st, k = .wait st → q (.reaped st)
  | .kill _ k => (pid = 0 ∨ Grounds q) ∧ ∀ rc, k = .ret rc → Explained c n e q rc
  | .errlog _ k | .sleep _ k => CauseAt c n e pid q k
  | .exit | .gone => True

section Mono

variable {c : Cfg} {n pid : ℤ} {e e' : Bool} {q q' : Cause → Prop}

theorem Grounds.mono (hq : ∀ k, q k → q' k) (h : Grounds q) : Grounds q' :=
  h.imp (hq _) (.imp (hq _) (.imp (hq _) (.imp (hq _) (.imp (hq _) (hq _)))))

theorem Explained.mono (hq : ∀ k, q k → q' k) (he : e = true → e' = true) {rc : Rc}
    (h : Explained c n e q rc) : Explained c n e' q' rc := by
  cases rc with
  | cont | restart => trivial
  | exitOk => exact h.imp_right (.imp (hq _) fun ⟨st, hst, hs⟩ => ⟨st, hq _ hst, hs⟩)
  | exitErr => exact h.imp he fun ⟨st, hst, hs⟩ => ⟨st, hq _ hst, hs⟩

theorem CauseAt.mono (hq : ∀ k, q k → q' k) (he : e = true → e' = true) {p : Pc}
    (h : CauseAt c n e pid q p) : CauseAt c n e' pid q' p := by
  induction p with
  | run p =>
    cases p with
    | ret rc => exact ⟨h.1, h.2.mono hq he⟩
    | clearJmp rc | clearAlarm rc | unsetHandlers rc l | closeStderr rc | testRc rc =>
      exact Explained.mono hq he h
    | closeRd | closeWr => exact h
    | _ => trivial
  | watch p =>
    cases p with
    | status st => exact hq _ h
    | waited rc | ret rc | leave rc => exact Explained.mono hq he h
    | dropJmp => exact he h
    | caught g | dispatch g => exact ⟨fun hg => he (h.1 hg), h.2⟩
    | _ => trivial
  | drain p k => exact ⟨fun hp => hq _ (h.1 hp), fun st hst => hq _ (h.2 st hst)⟩
  | kill p k => exact ⟨h.1.imp_right (.mono hq), fun rc hrc => (h.2 rc hrc).mono hq he⟩
  | errlog m k ih => exact ih h
  | sleep m k ih => exact ih h
  | exit | gone => trivial

end Mono

/-! ### `SIGUSR1` between two children -/

/-- `SIGUSR1` is not caught, and no activation of `sig_catch` is there because of it. -/
def Deaf (s : St) : Prop :=
  (∀ m, s.sg.disp .usr1 ≠ .catch m) ∧ ∀ f ∈ s.frames, f.sig ≠ .usr1

/-- Where `SIGUSR1` is not caught (`d`), and where `restart_ssh` (`r`) is clear. -/
def UsrAt (d : Prop) (r : Bool) : Pc → Prop
  | .run p => match p with
    | .setExit l => .usr1 ∉ l ∧ d
    | .unsetHandlers _ l => .usr1 ∉ l → d
    | .closeStderr _ | .testRc _ | .head | .lifetime | .clearRestart => d
    | .grace | .portDelay | .portDelayDone | .testExit | .stamp | .pipe | .fork => d ∧ r = false
    | _ => True
  | .errlog _ k | .sleep _ k => UsrAt d r k
  | _ => True

variable {c : Cfg} {s t : St} {a : Act}

theorem UsrAt.mono {d d' : Prop} {r r' : Bool} (hd : d → d') (hr : d → r = false → r' = false)
    {p : Pc} (h : UsrAt d r p) : UsrAt d' r' p := by
  induction p with
  | run p =>
    cases p with
    | setExit l => exact ⟨h.1, hd h.2⟩
    | unsetHandlers rc l => exact fun hl => hd (h hl)
    | closeStderr rc | testRc rc | head | lifetime | clearRestart => exact hd h
    | grace | portDelay | portDelayDone | testExit | stamp | pipe | fork =>
      exact ⟨hd h.1, hr h.1 h.2⟩
    | _ => trivial
  | errlog m k ih => exact ih h
  | sleep m k ih => exact ih h
  | _ => trivial

theorem deaf_sigaction {g : Sig} {d : Disp} (hf : s.frames = [])
    (hg : g = .usr1 → ∀ m, d ≠ .catch m) (hs : g ≠ .usr1 → Deaf s) (q : Pc) :
    Deaf { s with sg := s.sg.sigaction g d, pc := q } := by
  refine ⟨fun m => ?_, by simp [hf]⟩
  simp only [SigState.sigaction]
  by_cases hu : g = .usr1
  · rw [hu, Function.update_self]
    exact hg hu m
  · rw [Function.update_of_ne (Ne.symm hu)]
    exact (hs hu).1 m

theorem sshRunStep_usr {p : RunPc} (hf : s.frames = []) (hs : UsrAt (Deaf s) s.restartSsh (.run p))
    (h : sshRunStep c s a p = some t) : UsrAt (Deaf t) t.restartSsh t.pc := by
  cases p with
  | setExit l =>
    cases l with
    | nil =>
      obtain ⟨-, rfl⟩ := on_eq_some.1 h
      exact hs.2
    | cons g l =>
      obtain ⟨-, rfl⟩ := on_eq_some.1 h
      obtain ⟨hg, hl⟩ := not_or.1 (mt List.mem_cons.2 hs.1)
      exact ⟨hl, deaf_sigaction hf (fun he => absurd he.symm hg) (fun _ => hs.2) _⟩
  | setHandlers l => cases l <;> obtain ⟨-, rfl⟩ := on_eq_some.1 h <;> trivial
  | unsetHandlers rc l =>
    cases l with
    | nil =>
      obtain ⟨-, rfl⟩ := on_eq_some.1 h
      exact hs (by simp)
    | cons g l =>
      obtain ⟨-, rfl⟩ := on_eq_some.1 h
      intro hl
      exact deaf_sigaction hf (fun _ m => by simp)
        (fun hg => hs (by simpa [hl] using Ne.symm hg)) _
  | head | lifetime =>
    obtain ⟨-, rfl⟩ := on_eq_some.1 h
    simp only [St.goto]
    split_ifs
    · first | exact hs | trivial
    · first | exact hs | trivial
  | clearRestart =>
    obtain ⟨-, rfl⟩ := on_eq_some.1 h
    exact ⟨hs, rfl⟩
  | grace =>
    obtain ⟨-, rfl⟩ := on_eq_some.1 h
    simp only
    split_ifs <;> exact hs
  | portDelay | testExit =>
    obtain ⟨-, rfl⟩ := on_eq_some.1 h
    simp only [St.goto]
    split_ifs
    · first | exact hs | trivial
    · exact hs
  | portDelayDone | stamp =>
    obtain ⟨-, rfl⟩ := on_eq_some.1 h
    exact hs
  | pipe =>
    simp only [sshRunStep, Option.bind_eq_some_iff] at h
    obtain ⟨r, -, h⟩ := h
    rcases r with - | ⟨r, w⟩ <;> cases h <;> exact hs
  | fork =>
    simp only [sshRunStep, Option.bind_eq_some_iff] at h
    obtain ⟨r, -, h⟩ := h
    split_ifs at h <;> cases h <;> trivial
  | closeStderr rc =>
    simp only [sshRunStep] at h
    split_ifs at h <;> obtain ⟨-, rfl⟩ := on_eq_some.1 h <;> exact hs
  | testRc rc =>
    obtain ⟨-, rfl⟩ := on_eq_some.1 h
    simp only [St.goto]
    split_ifs
    · trivial
    · exact hs
  | clearAlarm rc =>
    obtain ⟨-, rfl⟩ := on_eq_some.1 h
    exact fun hl => absurd (by decide) hl
  | _ =>
    obtain ⟨-, rfl⟩ := on_eq_some.1 h
    trivial

theorem mainStep_usr (hf : s.frames = []) (hs : UsrAt (Deaf s) s.restartSsh s.pc)
    (h : mainStep c s a = some t) : UsrAt (Deaf t) t.restartSsh t.pc := by
  rcases mainStep_cases h with ⟨p, hp, h⟩ | ⟨p, hp, h⟩ | ⟨p, k, hp, h⟩ | ⟨p, k, hp, h⟩ |
    ⟨k, ⟨m, hp⟩ | ⟨n, hp⟩, -, rfl⟩ | ⟨-, -, rfl⟩
  · exact sshRunStep_usr hf (hp ▸ hs) h
  · exact sshWatchStep_target (P := UsrAt (Deaf t) t.restartSsh) (fun _ => trivial)
      (fun _ => trivial) (fun _ _ => trivial) (fun _ _ => trivial) (fun _ => trivial) h
  · have hresume : ∀ b, UsrAt (Deaf t) t.restartSsh (k.resume b) := by
      intro b
      cases k <;> cases b <;> trivial
    exact checkSshStderrStep_target (P := UsrAt (Deaf t) t.restartSsh) (fun _ => trivial)
      (fun _ => trivial) hresume (fun _ => hresume true) h
  · exact sshKillStep_target (P := UsrAt (Deaf t) t.restartSsh) (fun _ => trivial)
      (fun _ _ => trivial) (fun _ _ => trivial) (by cases k <;> trivial) h
  · rw [hp] at hs
    exact hs
  · rw [hp] at hs
    exact hs
  · trivial

/-- What `sig_catch` and the environment keep, as long as `SIGUSR1` is not caught. -/
theorem async_deaf {s' : St} (h : next c s a = some s') (hmain : s.frames ≠ [] ∨ a.isEnv = true)
    (hs : Deaf s) : Deaf s' ∧ (s.restartSsh = false → s'.restartSsh = false) := by
  obtain ⟨-, he | ⟨f, fs, hf, hc⟩ | ⟨hf, t, hm, -⟩⟩ := next_cases h
  · cases a with
    | raise g =>
      cases he
      exact ⟨⟨fun m => by simpa using hs.1 m, hs.2⟩, id⟩
    | deliver g =>
      obtain ⟨-, -, rfl | rfl | ⟨m, hd, rfl⟩⟩ := deliver_cases he
      · exact ⟨hs, id⟩
      · exact ⟨⟨hs.1, by simp⟩, id⟩
      · have hg : g ≠ .usr1 := by
          rintro rfl
          exact hs.1 m hd
        unfold pushFrame
        split
        · exact ⟨⟨hs.1, by simpa using hg⟩, id⟩
        · exact ⟨⟨hs.1, by simpa [hg] using hs.2⟩, id⟩
    | childExit st | timerFire =>
      simp only [envStep] at he
      split_ifs at he
      cases he
      exact ⟨⟨fun m => by simpa using hs.1 m, hs.2⟩, id⟩
    | elapse dw dt =>
      cases he
      exact ⟨hs, id⟩
    | _ => cases he
  · have hmem : ∀ f' ∈ f :: fs, f'.sig ≠ .usr1 := by
      rw [← hf]
      exact hs.2
    have hfs : ∀ f' ∈ fs, f'.sig ≠ .usr1 := fun f' hf' => hmem f' (List.mem_cons_of_mem _ hf')
    have husr : f.sig ≠ .usr1 := hmem f List.mem_cons_self
    have hcons : ∀ q, ∀ f' ∈ { f with pc := q } :: fs, f'.sig ≠ .usr1 := by
      intro q f' hf'
      rcases List.mem_cons.1 hf' with rfl | hf'
      · exact husr
      · exact hfs f' hf'
    unfold sigCatchStep at hc
    rw [if_neg husr] at hc
    split at hc
    · split_ifs at hc <;> obtain ⟨-, rfl⟩ := on_eq_some.1 hc
      · exact ⟨⟨hs.1, by simp⟩, id⟩
      · exact ⟨⟨hs.1, hcons _⟩, id⟩
      · exact ⟨⟨hs.1, hcons _⟩, id⟩
    · obtain ⟨-, rfl⟩ := on_eq_some.1 hc
      exact ⟨⟨hs.1, hcons _⟩, id⟩
    · obtain ⟨-, rfl⟩ := on_eq_some.1 hc
      exact ⟨⟨hs.1, hcons _⟩, id⟩
    · obtain ⟨-, rfl⟩ := on_eq_some.1 hc
      exact ⟨⟨hs.1, hcons _⟩, id⟩
    · obtain ⟨-, rfl⟩ := on_eq_some.1 hc
      exact ⟨⟨hs.1, by simp⟩, id⟩
    · obtain ⟨-, rfl⟩ := on_eq_some.1 hc
      exact ⟨⟨hs.1, hfs⟩, id⟩
  · rcases hmain with hne | henv
    · exact absurd hf hne
    · have := mainStep_callSite hm
      cases a <;> first | exact this.elim | cases henv

/-! ### The steps of the main program -/

section Steps

variable {q : Cause → Prop}

/-- The verdict of `ssh_wait` follows from the status. -/
theorem sshWaitStatus_explained {st : ℕ} (n start now : ℤ) (e : Bool) (hst : q (.reaped st)) :
    Explained c n e q (sshWaitStatus c n start now st).1 := by
  unfold sshWaitStatus
  split_ifs with hsig hexit hgate hlater
  · trivial
  · exact .inr ⟨st, hst, hexit, .inl ⟨hgate.1.le, hgate.2.1⟩⟩
  · split
    · trivial
    · rename_i hzero
      exact .inr (.inr ⟨st, hst, hexit, hzero⟩)
    · trivial
    · trivial
    · rename_i h255 h0 h1 h2
      refine .inr ⟨st, hst, hexit, .inr ?_⟩
      simp only [List.mem_cons, List.not_mem_nil, or_false, not_or]
      exact ⟨h0, h1, h2, h255⟩
  · have hfirst : n ≤ 1 ∧ c.gateTime ≠ 0 := by
      obtain ⟨hle, hg⟩ := not_or.1 hlater
      exact ⟨by omega, hg⟩
    split
    · trivial
    · rename_i hzero
      exact .inr (.inr ⟨st, hst, hexit, hzero⟩)
    · exact .inr ⟨st, hst, hexit, .inl hfirst⟩
    · exact .inr ⟨st, hst, hexit, .inl hfirst⟩
    · exact .inr ⟨st, hst, hexit, .inl hfirst⟩
  · trivial

theorem sshKillStep_cause {n : ℤ} {e : Bool} {p : KillPc} {k : KillCont}
    (hs : CauseAt c n e s.cchild q (.kill p k)) (h : sshKillStep s k a p = some t) :
    CauseAt c n e t.cchild q t.pc := by
  have hpid := sshKillStep_cchild h
  have hkill : ∀ p', CauseAt c n e t.cchild q (.kill p' k) := by
    refine fun _ => ⟨?_, hs.2⟩
    rcases hpid with hpid | hpid
    · rw [hpid]
      exact hs.1
    · exact .inl hpid
  refine sshKillStep_target (P := CauseAt c n e t.cchild q) hkill (fun _ => hkill)
    (fun _ => hkill) ?_ h
  cases k with
  | ret rc => exact hs.2 rc rfl
  | portWait | fatal => trivial

theorem checkSshStderrStep_cause {n pid : ℤ} {e : Bool} {p : DrainPc} {k : DrainCont}
    (hs : CauseAt c n e pid q (.drain p k)) (hnew : ∀ k, k.Arises c s a → q k)
    (h : checkSshStderrStep s k a p = some t) : CauseAt c n e pid q t.pc := by
  have hfalse : CauseAt c n e pid q (k.resume false) := by
    cases k with
    | wait st => exact hs.2 st rfl
    | pollin re | alrm => trivial
  have htrue : q .badStderr → CauseAt c n e pid q (k.resume true) := by
    intro hbad
    cases k with
    | wait st => exact hs.2 st rfl
    | pollin re | alrm => exact ⟨.inr (.inr (.inr (.inl hbad))), by simp⟩
  cases p with
  | read =>
    simp only [checkSshStderrStep] at h
    split_ifs at h
    · simp only [Option.bind_eq_some_iff, read?_eq_some] at h
      obtain ⟨r, rfl, h⟩ := h
      cases r with
      | none =>
        cases h
        exact hfalse
      | some chunk =>
        simp only at h
        split_ifs at h
        cases h
        have hbad : scanChunk chunk ≠ .clean → q .badStderr :=
          fun hv => hnew .badStderr ⟨_, chunk, rfl, hv⟩
        simp only
        cases hv : scanChunk chunk with
        | fwdFailed => exact ⟨fun _ => hbad (by simp [hv]), hs.2⟩
        | stuck => exact htrue (hbad (by simp [hv]))
        | clean => exact ⟨by simp, hs.2⟩
    · obtain ⟨-, rfl⟩ := on_eq_some.1 h
      exact hfalse
  | flag =>
    obtain ⟨-, rfl⟩ := on_eq_some.1 h
    exact htrue (hs.1 rfl)

variable {n pid : ℤ}

theorem dispatchNext_cause {e : Bool} {g : Sig} (hg : exits g = true → e = true)
    (hcaught : blockmask g = true) (hexit : e = true → q .exitSignal) :
    CauseAt c n e pid q (dispatchNext g) := by
  have hkill : e = true → (pid = 0 ∨ Grounds q) ∧
      ∀ rc, KillCont.ret .exitErr = .ret rc → Explained c n e q rc := by
    refine fun he => ⟨.inr (.inl (hexit he)), ?_⟩
    rintro rc ⟨⟩
    exact .inl he
  cases g with
  | int | term => exact hkill (hg rfl)
  | quit | abrt => cases hcaught
  | _ => trivial

theorem watchdogNext_cause {e : Bool} (hnew : ∀ k, k.Arises c s a → q k) :
    CauseAt c n e pid q (watchdogNext c s) := by
  have hkill : q .watchdog → (pid = 0 ∨ Grounds q) ∧
      ∀ rc, KillCont.ret .restart = .ret rc → Explained c n e q rc := by
    refine fun hw => ⟨.inr (.inr (.inr (.inr (.inr (.inr hw))))), ?_⟩
    rintro rc ⟨⟩
    trivial
  unfold watchdogNext
  split_ifs with hlost hsilent
  · exact hkill (hnew .watchdog ⟨hlost.1, .inl hlost.2⟩)
  · exact hkill (hnew .watchdog ⟨hsilent.1, .inr hsilent.2⟩)
  · exact ⟨by simp, by simp⟩

theorem sshWatchStep_cause {p : WatchPc}
    (hs : CauseAt c s.startCount s.exitSignalled pid q (.watch p))
    (hrestart : s.restartSsh = true → q .restartSignal)
    (hexit : s.exitSignalled = true → q .exitSignal) (hnew : ∀ k, k.Arises c s a → q k)
    (h : sshWatchStep c s a p = some t) :
    CauseAt c s.startCount s.exitSignalled pid q t.pc := by
  cases p with
  | testRestart =>
    obtain ⟨-, rfl⟩ := on_eq_some.1 h
    simp only [St.goto]
    split_ifs with hr
    · refine ⟨.inr (.inr (.inl (hrestart hr))), ?_⟩
      rintro rc ⟨⟩
      trivial
    · trivial
  | wait =>
    simp only [sshWatchStep, Option.bind_eq_some_iff, waitpid?_eq_some] at h
    obtain ⟨r, rfl, h⟩ := h
    cases r with
    | pid st =>
      simp only at h
      split_ifs at h
      cases h
      refine ⟨by simp, ?_⟩
      rintro st' ⟨⟩
      exact hnew (.reaped st) ⟨_, rfl⟩
    | zero | err e =>
      cases h
      trivial
  | status st =>
    obtain ⟨-, rfl⟩ := on_eq_some.1 h
    have hverdict := sshWaitStatus_explained (c := c) s.startCount s.startTime s.now
      s.exitSignalled (hs : q (.reaped st))
    simp only [St.goto]
    split <;> rename_i heq <;> rw [heq] at hverdict <;> exact hverdict
  | waited rc =>
    obtain ⟨-, rfl⟩ := on_eq_some.1 h
    simp only [St.goto]
    split_ifs
    · trivial
    · exact hs
  | testExit =>
    obtain ⟨-, rfl⟩ := on_eq_some.1 h
    simp only [St.goto]
    split_ifs with he
    · exact he
    · trivial
  | dropJmp =>
    obtain ⟨-, rfl⟩ := on_eq_some.1 h
    refine ⟨.inr (.inl (hexit hs)), ?_⟩
    rintro rc ⟨⟩
    exact .inl hs
  | asleep old =>
    simp only [sshWatchStep] at h
    split_ifs at h
    simp only [Option.bind_eq_some_iff, Option.some.injEq] at h
    obtain ⟨re, -, rfl⟩ := h
    trivial
  | wake re | pollhup re =>
    obtain ⟨-, rfl⟩ := on_eq_some.1 h
    simp only [St.goto]
    split_ifs <;> trivial
  | pollin re =>
    obtain ⟨-, rfl⟩ := on_eq_some.1 h
    simp only [St.goto]
    split_ifs
    · exact ⟨by simp, by simp⟩
    · trivial
  | dispatch v =>
    obtain ⟨-, rfl⟩ := on_eq_some.1 h
    exact dispatchNext_cause hs.1 hs.2 hexit
  | alrm =>
    obtain ⟨-, rfl⟩ := on_eq_some.1 h
    simp only [St.goto]
    split_ifs with hlife
    · have hq := hnew .lifetime hlife
      refine ⟨.inr (.inr (.inr (.inr (.inr (.inl hq))))), ?_⟩
      rintro rc ⟨⟩
      exact .inr (.inl hq)
    · trivial
  | watchdog =>
    obtain ⟨-, rfl⟩ := on_eq_some.1 h
    exact watchdogNext_cause hnew
  | conn =>
    simp only [sshWatchStep] at h
    split_ifs at h
    · simp only [Option.bind_eq_some_iff, conn?_eq_some, Option.some.injEq] at h
      obtain ⟨r, rfl, rfl⟩ := h
      cases r with
      | up => trivial
      | down | fatal =>
        refine ⟨.inr (.inr (.inr (.inr (.inl (hnew .portDown ⟨_, by simp, rfl⟩))))), ?_⟩
        rintro rc ⟨⟩
        try trivial
    · obtain ⟨-, rfl⟩ := on_eq_some.1 h
      trivial
  | caught v | ret rc | leave rc =>
    obtain ⟨-, rfl⟩ := on_eq_some.1 h
    exact hs
  | _ =>
    obtain ⟨-, rfl⟩ := on_eq_some.1 h
    trivial

/-- `ssh_run` starts no child before it has forgotten what the last one was about. -/
theorem sshRunStep_cause {p : RunPc}
    (hs : CauseAt c s.startCount s.exitSignalled s.cchild q (.run p))
    (hnew : ∀ k, k.Arises c s a → q k) (h : sshRunStep c s a p = some t) :
    CauseAt c t.startCount s.exitSignalled t.cchild q t.pc := by
  cases p with
  | setExit l | setHandlers l => cases l <;> obtain ⟨-, rfl⟩ := on_eq_some.1 h <;> trivial
  | unsetHandlers rc l => cases l <;> obtain ⟨-, rfl⟩ := on_eq_some.1 h <;> exact hs
  | head =>
    obtain ⟨-, rfl⟩ := on_eq_some.1 h
    simp only [St.goto]
    split_ifs with hmax
    · trivial
    · obtain ⟨h₀, hle⟩ := not_or.1 hmax
      exact ⟨rfl, .inl ⟨by omega, by omega⟩⟩
  | lifetime =>
    obtain ⟨-, rfl⟩ := on_eq_some.1 h
    simp only [St.goto]
    split_ifs with hlife
    · exact ⟨rfl, .inr (.inl (hnew .lifetime hlife))⟩
    · trivial
  | grace =>
    obtain ⟨-, rfl⟩ := on_eq_some.1 h
    simp only
    split_ifs <;> trivial
  | portDelay =>
    obtain ⟨-, rfl⟩ := on_eq_some.1 h
    simp only [St.goto]
    split_ifs <;> trivial
  | testExit =>
    obtain ⟨-, rfl⟩ := on_eq_some.1 h
    simp only [St.goto]
    split_ifs with he
    · exact ⟨rfl, .inl he⟩
    · trivial
  | pipe =>
    simp only [sshRunStep, Option.bind_eq_some_iff] at h
    obtain ⟨r, -, h⟩ := h
    rcases r with - | ⟨r, w⟩ <;> cases h <;> trivial
  | fork =>
    simp only [sshRunStep, Option.bind_eq_some_iff] at h
    obtain ⟨r, -, h⟩ := h
    split_ifs at h <;> cases h <;> trivial
  | closeStderr rc =>
    simp only [sshRunStep] at h
    split_ifs at h <;> obtain ⟨-, rfl⟩ := on_eq_some.1 h <;> exact hs
  | testRc rc =>
    obtain ⟨-, rfl⟩ := on_eq_some.1 h
    simp only [St.goto]
    split_ifs with hrc
    · exact ⟨decide_eq_true hrc, hs⟩
    · trivial
  | forkFailed =>
    obtain ⟨-, rfl⟩ := on_eq_some.1 h
    exact rfl
  | closeWr =>
    obtain ⟨-, rfl⟩ := on_eq_some.1 h
    exact ⟨.inl hs, by simp⟩
  | closeRd | clearJmp rc | clearAlarm rc =>
    obtain ⟨-, rfl⟩ := on_eq_some.1 h
    exact hs
  | _ =>
    obtain ⟨-, rfl⟩ := on_eq_some.1 h
    trivial

end Steps

/-! ### Every step -/

/-- What is known of an activation of `sig_catch`; `e` is `exit_signalled`. -/
structure FrameCause (q : Cause → Prop) (e : Bool) (f : Frame) : Prop where
  caught : blockmask f.sig = true
  restart : f.sig = .usr1 → q .restartSignal
  exit : exits f.sig = true → q .exitSignal
  setting : f.pc = .setExit → exits f.sig = true
  set : exits f.sig = true → f.pc ≠ .enter → f.pc ≠ .setExit → e = true

theorem FrameCause.mono {q q' : Cause → Prop} {e e' : Bool} {f : Frame}
    (hq : ∀ k, q k → q' k) (he : e = true → e' = true) (h : FrameCause q e f) :
    FrameCause q' e' f :=
  ⟨h.caught, fun hf => hq _ (h.restart hf), fun hf => hq _ (h.exit hf), h.setting,
    fun hf h₁ h₂ => he (h.set hf h₁ h₂)⟩

/-- The invariant, with a ghost for each cause. -/
structure Caused (c : Cfg) (s : St) (q : Cause → Prop) : Prop where
  sig : SigInv s
  usr : UsrAt (Deaf s) s.restartSsh s.pc
  restart : s.restartSsh = true → q .restartSignal
  exit : s.exitSignalled = true → q .exitSignal
  frames : ∀ f ∈ s.frames, FrameCause q s.exitSignalled f
  atPc : CauseAt c s.startCount s.exitSignalled s.cchild q s.pc

/-- The ghosts after a step. -/
def after (c : Cfg) (s : St) (a : Act) (q : Cause → Prop) (k : Cause) : Prop :=
  k.Arises c s a ∨ (q k ∧ ¬ k.Forgotten a)

theorem after_of_not_fork {q : Cause → Prop} (ha : ∀ r, a ≠ .fork r) (k : Cause) (hk : q k) :
    after c s a q k := by
  refine .inr ⟨hk, fun hf => ?_⟩
  cases k with
  | exitSignal => exact hf
  | _ =>
    obtain ⟨r, hr⟩ := hf
    exact ha r hr

theorem after_exitSignal {q : Cause → Prop} (hk : q .exitSignal) : after c s a q .exitSignal :=
  .inr ⟨hk, id⟩

theorem mainStep_restartSsh (h : mainStep c s a = some t) (ht : t.restartSsh = true) :
    s.restartSsh = true := by
  rcases mainStep_cases h with ⟨p, -, h⟩ | ⟨p, -, h⟩ | ⟨p, k, -, h⟩ | ⟨p, k, -, h⟩ |
    ⟨k, -, -, rfl⟩ | ⟨-, -, rfl⟩
  · exact (sshRunStep_frame h).restartSsh ht
  · exact (sshWatchStep_frame h).restartSsh ▸ ht
  · obtain ⟨_, _, _, rfl⟩ := checkSshStderrStep_frame h
    exact ht
  · obtain ⟨_, _, _, _, rfl⟩ := sshKillStep_frame h
    exact ht
  · exact ht
  · exact ht

theorem mainStep_cause {q : Cause → Prop} (hs : Caused c s q) (hfork : s.pc ≠ .run .fork)
    (h : mainStep c s a = some t) :
    CauseAt c t.startCount t.exitSignalled t.cchild (after c s a q) t.pc := by
  have hmono : ∀ k, q k → after c s a q k := by
    refine after_of_not_fork fun r ha => hfork ?_
    subst ha
    exact mainStep_callSite h
  have hnew : ∀ k, k.Arises c s a → after c s a q k := fun k hk => .inl hk
  have hat := hs.atPc.mono hmono id
  rw [mainStep_exitSignalled h]
  rcases mainStep_cases h with ⟨p, hp, h⟩ | ⟨p, hp, h⟩ | ⟨p, k, hp, h⟩ | ⟨p, k, hp, h⟩ |
    ⟨k, hp, -, rfl⟩ | ⟨-, -, rfl⟩
  · rw [hp] at hat
    exact sshRunStep_cause hat hnew h
  · rw [hp] at hat
    rw [(sshWatchStep_kept h).startCount, (sshWatchStep_frame h).cchild]
    exact sshWatchStep_cause hat (fun hr => hmono _ (hs.restart hr))
      (fun he => hmono _ (hs.exit he)) hnew h
  · rw [hp] at hat
    have ht := checkSshStderrStep_cause hat hnew h
    obtain ⟨_, _, _, rfl⟩ := checkSshStderrStep_frame h
    exact ht
  · rw [hp] at hat
    have ht := sshKillStep_cause hat h
    obtain ⟨_, _, _, _, rfl⟩ := sshKillStep_frame h
    exact ht
  · obtain ⟨m, hp⟩ | ⟨m, hp⟩ := hp <;> rw [hp] at hat <;> exact hat
  · trivial

/-- At the `fork` there is nothing to forget: `restart_ssh` is clear, and after it nothing is said
about the child. -/
theorem mainStep_caused {q : Cause → Prop} (hs : Caused c s q) (hf : s.frames = [])
    (h : mainStep c s a = some t) :
    UsrAt (Deaf t) t.restartSsh t.pc ∧ (t.restartSsh = true → after c s a q .restartSignal) ∧
      CauseAt c t.startCount t.exitSignalled t.cchild (after c s a q) t.pc := by
  refine ⟨mainStep_usr hf hs.usr h, ?_⟩
  by_cases hfork : s.pc = .run .fork
  · have husr := hs.usr
    rw [hfork] at husr
    constructor
    · intro ht
      exact absurd (mainStep_restartSsh h ht) (by simp [husr.2])
    · simp only [mainStep, hfork, sshRunStep, Option.bind_eq_some_iff] at h
      obtain ⟨r, -, h⟩ := h
      split_ifs at h <;> cases h <;> trivial
  · refine ⟨fun ht => ?_, mainStep_cause hs hfork h⟩
    refine after_of_not_fork (fun r ha => hfork ?_) _ (hs.restart (mainStep_restartSsh h ht))
    subst ha
    exact mainStep_callSite h

theorem sigCatchStep_caused {q : Cause → Prop} {f : Frame} {fs : List Frame} (hs : Caused c s q)
    (hf : s.frames = f :: fs) (h : sigCatchStep s f fs a = some t) :
    (t.restartSsh = true → q .restartSignal) ∧ (t.exitSignalled = true → q .exitSignal) ∧
      (∀ f ∈ t.frames, FrameCause q t.exitSignalled f) ∧
      CauseAt c t.startCount t.exitSignalled t.cchild q t.pc := by
  have hmem : ∀ f' ∈ f :: fs, FrameCause q s.exitSignalled f' := hf ▸ hs.frames
  have hfs : ∀ f' ∈ fs, FrameCause q s.exitSignalled f' :=
    fun f' hf' => hmem f' (List.mem_cons_of_mem _ hf')
  have hff := hmem f List.mem_cons_self
  -- the activation goes on to `p`
  have hmoved : ∀ p, (p = .setExit → exits f.sig = true) →
      (exits f.sig = true → p ≠ .enter → p ≠ .setExit → s.exitSignalled = true) →
      ∀ f' ∈ { f with pc := p } :: fs, FrameCause q s.exitSignalled f' := by
    intro p hset hdone f' hf'
    rcases List.mem_cons.1 hf' with rfl | hf'
    · exact ⟨hff.caught, hff.restart, hff.exit, hset, hdone⟩
    · exact hfs f' hf'
  unfold sigCatchStep at h
  split at h <;> rename_i hp
  · split_ifs at h with husr hexit he <;> obtain ⟨-, rfl⟩ := on_eq_some.1 h
    · have hno : exits f.sig = false := by rw [husr]; rfl
      exact ⟨fun _ => hff.restart husr, hs.exit, hmoved _ (by simp) (by simp [hno]), hs.atPc⟩
    · exact ⟨hs.restart, hs.exit, by simp, trivial⟩
    · exact ⟨hs.restart, hs.exit, hmoved _ (fun _ => decide_eq_true hexit) (by simp), hs.atPc⟩
    · have hno : exits f.sig = false := decide_eq_false hexit
      exact ⟨hs.restart, hs.exit, hmoved _ (by simp) (by simp [hno]), hs.atPc⟩
  · obtain ⟨-, rfl⟩ := on_eq_some.1 h
    refine ⟨hs.restart, fun _ => hff.exit (hff.setting hp), ?_, hs.atPc.mono (fun _ => id) ?_⟩
    · intro f' hf'
      rcases List.mem_cons.1 hf' with rfl | hf'
      · exact ⟨hff.caught, hff.restart, hff.exit, by simp, fun _ _ _ => rfl⟩
      · exact (hfs f' hf').mono (fun _ => id) fun _ => rfl
    · exact fun _ => rfl
  · obtain ⟨-, rfl⟩ := on_eq_some.1 h
    have hset := fun hx => hff.set hx (by simp [hp]) (by simp [hp])
    refine ⟨hs.restart, hs.exit, hmoved _ ?_ fun hx _ _ => hset hx, hs.atPc⟩
    split_ifs <;> simp
  · obtain ⟨-, rfl⟩ := on_eq_some.1 h
    have hset := fun hx => hff.set hx (by simp [hp]) (by simp [hp])
    exact ⟨hs.restart, hs.exit, hmoved _ (by simp) fun hx _ _ => hset hx, hs.atPc⟩
  · obtain ⟨-, rfl⟩ := on_eq_some.1 h
    have hset := fun hx => hff.set hx (by simp [hp]) (by simp [hp])
    exact ⟨hs.restart, hs.exit, by simp, hset, hff.caught⟩
  · obtain ⟨-, rfl⟩ := on_eq_some.1 h
    exact ⟨hs.restart, hs.exit, hfs, hs.atPc⟩

/-- The environment lets a `sleep` go on, ends the wait or the process. -/
theorem envStep_pc (h : envStep s a = some t) :
    (∃ dt, t.pc = s.pc.elapse dt) ∨ t.pc = .watch .woken ∨ t.pc = .gone := by
  have hstay : s.pc = s.pc.elapse 0 := by cases s.pc <;> rfl
  cases a with
  | raise g =>
    cases h
    exact .inl ⟨0, hstay⟩
  | elapse dw dt =>
    cases h
    exact .inl ⟨dt, rfl⟩
  | deliver g =>
    obtain ⟨-, -, rfl | rfl | ⟨m, -, rfl⟩⟩ := deliver_cases h
    · exact .inl ⟨0, hstay⟩
    · exact .inr (.inr rfl)
    · unfold pushFrame
      split
      · exact .inr (.inl rfl)
      · exact .inl ⟨0, hstay⟩
  | childExit st | timerFire =>
    simp only [envStep] at h
    split_ifs at h
    cases h
    exact .inl ⟨0, hstay⟩
  | _ => cases h

/-- The activations there are after a move of the environment. -/
theorem envStep_frames (hs : SigInv s) (h : envStep s a = some t) {f : Frame} (hf : f ∈ t.frames) :
    f ∈ s.frames ∨ (a = .deliver f.sig ∧ f.pc = .enter ∧ blockmask f.sig = true) := by
  cases a with
  | raise g | elapse dw dt =>
    cases h
    exact .inl hf
  | deliver g =>
    obtain ⟨-, -, rfl | rfl | ⟨m, hd, rfl⟩⟩ := deliver_cases h
    · exact .inl hf
    · cases hf
    · unfold pushFrame at hf
      split at hf
      · obtain rfl := List.mem_singleton.1 hf
        exact .inr ⟨rfl, rfl, hs.catchOnly g m hd⟩
      · rcases List.mem_cons.1 hf with rfl | hf
        · exact .inr ⟨rfl, rfl, hs.catchOnly g m hd⟩
        · exact .inl hf
  | childExit st | timerFire =>
    simp only [envStep] at h
    split_ifs at h
    cases h
    exact .inl hf
  | _ => cases h

theorem envStep_caused {q : Cause → Prop} (hs : Caused c s q) (h : envStep s a = some t) :
    (t.restartSsh = true → q .restartSignal) ∧ (t.exitSignalled = true → q .exitSignal) ∧
      (∀ f ∈ t.frames, FrameCause (after c s a q) t.exitSignalled f) ∧
      CauseAt c t.startCount t.exitSignalled t.cchild q t.pc := by
  obtain ⟨hr, he, hn, hpid⟩ := envStep_flags h
  rw [hr, he, hn, hpid]
  have hnf : ∀ r, a ≠ .fork r := by
    rintro r rfl
    cases h
  refine ⟨hs.restart, hs.exit, fun f hf => ?_, ?_⟩
  · rcases envStep_frames hs.sig h hf with hf | ⟨ha, hp, hb⟩
    · exact (hs.frames f hf).mono (after_of_not_fork hnf) id
    · refine ⟨hb, fun hu => ?_, fun hx => .inl ⟨f.sig, hx, ha⟩, by simp [hp], by simp [hp]⟩
      left
      rw [ha, hu]
      rfl
  · rcases envStep_pc h with ⟨dt, hp⟩ | hp | hp <;> rw [hp]
    · have hat := hs.atPc
      cases hpc : s.pc with
      | sleep m k =>
        rw [hpc] at hat
        exact hat
      | _ =>
        rw [hpc] at hat
        exact hat
    · trivial
    · trivial

theorem next_caused {s' : St} {q : Cause → Prop} (hs : Caused c s q) (h : next c s a = some s') :
    Caused c s' (after c s a q) := by
  have hsig := next_sigInv hs.sig h
  obtain ⟨-, he | ⟨f, fs, hf, hc⟩ | ⟨hf, t, hm, rfl⟩⟩ := next_cases h
  · have hdeaf := async_deaf h (.inr (envStep_act he))
    have hnf : ∀ r, a ≠ .fork r := by
      rintro r rfl
      cases he
    obtain ⟨hrestart, hexit, hframes, hat⟩ := envStep_caused hs he
    exact ⟨hsig, ((envStep_async he).pc.keeps (A := UsrAt (Deaf s) s.restartSsh) hs.usr
        (fun _ _ _ hk => hk) (fun _ _ => trivial) (fun _ _ => trivial) trivial).mono
        (fun hd => (hdeaf hd).1) (fun hd => (hdeaf hd).2),
      fun hr => after_of_not_fork hnf _ (hrestart hr), fun hx => after_exitSignal (hexit hx),
      hframes, hat.mono (after_of_not_fork hnf) id⟩
  · have hdeaf := async_deaf h (.inl (by simp [hf]))
    have hnf : ∀ r, a ≠ .fork r := by
      rintro r rfl
      obtain ha | ha | ⟨ha, -⟩ := sigCatchStep_act hc <;> cases ha
    obtain ⟨hrestart, hexit, hframes, hat⟩ := sigCatchStep_caused hs hf hc
    exact ⟨hsig, ((sigCatchStep_async hs.sig hf hc).pc.keeps (A := UsrAt (Deaf s) s.restartSsh)
        hs.usr (fun _ _ _ hk => hk) (fun _ _ => trivial) (fun _ _ => trivial) trivial).mono
        (fun hd => (hdeaf hd).1) (fun hd => (hdeaf hd).2),
      fun hr => after_of_not_fork hnf _ (hrestart hr), fun hx => after_exitSignal (hexit hx),
      fun f hf => (hframes f hf).mono (after_of_not_fork hnf) id,
      hat.mono (after_of_not_fork hnf) id⟩
  · obtain ⟨husr, hrestart, hat⟩ := mainStep_caused hs hf hm
    have hnil : t.frames = [] := (mainStep_frames hm).trans hf
    refine ⟨hsig, husr, hrestart, fun hx => ?_, by simp [hnil], hat⟩
    exact after_exitSignal (hs.exit ((mainStep_exitSignalled hm).symm.trans hx))

theorem run_caused {i : Inherited} {as : List Act} (h : (supervisor c).Run (.init i) as s) :
    Caused c s (Given c i as) := by
  refine h.invariant_since (P := fun (k : Cause) s a => k.Arises c s a)
    (R := fun k a => k.Forgotten a) (I := Caused c) ?_ fun s a s' q hs hn => next_caused hs hn
  have hdeaf : Deaf (.init i) := by
    refine ⟨fun m => ?_, by simp [St.init]⟩
    simp only [St.init]
    split_ifs <;> simp
  exact ⟨init_sigInv i, ⟨by decide, hdeaf⟩, by simp [St.init], by simp [St.init], by simp [St.init],
    trivial⟩

/-! ### The two results -/

/-- **No child is killed without a reason.**  Whenever a signal is sent to the child, then since it
was started `SIGUSR1` was delivered, a text was read from its stderr that tells of a failure, the
monitor found the port down, the lifetime was over, or a watchdog ran out; or a signal to exit was
delivered to autossh. -/
theorem kill_justified (c : Cfg) (i : Inherited) {as : List Act} {s s' : St} {p : ℤ} {ph : Phase}
    (h : (supervisor c).Run (.init i) as s)
    (hn : (supervisor c).next s (.kill p ph) = some s') : Grounds (Given c i as) := by
  obtain ⟨-, ⟨rfl, k, hp⟩, -⟩ := next_call rfl hn
  have hat := (run_caused h).atPc
  rw [hp] at hat
  refine hat.1.resolve_left fun hzero => ?_
  -- only a child that is there is signalled
  obtain ⟨horder, -⟩ := next_kids (run_kids h) hn
  cases hl : children as with
  | nil =>
    rw [hl] at horder
    exact horder
  | cons x l =>
    rw [hl] at horder
    exact absurd horder.1 (by omega)

/-- `SIGTERM` ends the wait, and the child is killed. -/
theorem kill_justified_terminate :
    ∃ s s', (supervisor .default).Run (.init .clean) (startup 100 600 ++ terminate 3) s ∧
      (supervisor .default).next s (.kill 100 .term) = some s' ∧
      Grounds (Given .default .clean (startup 100 600 ++ terminate 3)) := by
  obtain ⟨s, s', hr, hn⟩ := Machine.exists_run_concat (show Option.isSome
    ((supervisor .default).exec (.init .clean)
      (startup 100 600 ++ terminate 3 ++ [.kill 100 .term])) = true by rfl)
  exact ⟨s, s', hr, hn, kill_justified .default .clean hr hn⟩

/-- What stands behind the result of `ssh_run`. -/
def Reason (c : Cfg) (i : Inherited) (as : List Act) : Rc → Prop
  | .exitOk => (as.countP Act.isFork : ℤ) = c.maxStart ∨ Given c i as .lifetime ∨
      ∃ st, Given c i as (.reaped st) ∧ wifexited st = true ∧ wexitstatus st = 0
  | .exitErr => Given c i as .exitSignal ∨
      ∃ st, Given c i as (.reaped st) ∧ wifexited st = true ∧
        ((as.countP Act.isFork ≤ 1 ∧ c.gateTime ≠ 0) ∨ wexitstatus st ∉ [0, 1, 2, 255])
  | _ => False

theorem run_ret_reason {i : Inherited} (hmax : c.maxStart < 2 ^ 31) {as : List Act}
    (hforks : as.countP Act.isFork < 2 ^ 31 - 1) {rc : Rc}
    (h : (supervisor c).Run (.init i) as s) (hp : s.pc = .run (.ret rc)) : Reason c i as rc := by
  have hs := run_caused h
  have hstart := run_started hmax h
  have hat := hs.atPc
  have hcount := hstart.atPc
  rw [hp] at hat hcount
  obtain ⟨hrc, hexplained⟩ := hat
  have hwrap : i32Wrap (as.countP Act.isFork) = as.countP Act.isFork :=
    i32Wrap_natCast (by omega)
  obtain rfl | rfl := of_decide_eq_true hrc
  · refine hexplained.imp_left fun ⟨h₀, hle⟩ => ?_
    obtain hc | ⟨hne, -⟩ := hcount
    · have := hstart.le h₀
      omega
    · cases hne
  · refine hexplained.imp hs.exit fun ⟨st, hst, hexit, hwhy⟩ => ?_
    refine ⟨st, hst, hexit, hwhy.imp_left fun ⟨hle, hgate⟩ => ⟨?_, hgate⟩⟩
    obtain hc | ⟨-, hc, -⟩ := hcount
    · omega
    · rw [i32Wrap_of_bounds (by omega) (by omega)] at hc
      omega

/-- **Why `ssh_run` returns.**  It returns `P_EXITOK` only if `max_start` children have been
started, the lifetime was over, or the last child has exited with status 0; and `P_EXITERR` only if
a signal to exit was delivered, or the last child has exited: as the first one, with a gate time, or
with a status other than 0, 1, 2 and 255.  It returns nothing else.  (`start_count` is to stay below
its limit.) -/
theorem return_explained (c : Cfg) (i : Inherited) (hmax : c.maxStart < 2 ^ 31) {as : List Act}
    (hforks : as.countP Act.isFork < 2 ^ 31 - 1) {s s' : St} {rc : Rc}
    (h : (supervisor c).Run (.init i) as s) (hn : (supervisor c).next s (.runRet rc) = some s') :
    Reason c i as rc := by
  obtain ⟨-, hp, -⟩ := next_call rfl hn
  exact run_ret_reason hmax hforks h hp

/-- The first child exits at once. -/
theorem return_explained_premature :
    ∃ s s', (supervisor .default).Run (.init .clean)
        (startup 100 600 ++ childExits 100 0 ++ wayOut 3) s ∧
      (supervisor .default).next s (.runRet .exitErr) = some s' ∧
      Reason .default .clean (startup 100 600 ++ childExits 100 0 ++ wayOut 3) .exitErr := by
  obtain ⟨s, s', hr, hn⟩ := Machine.exists_run_concat (show Option.isSome
    ((supervisor .default).exec (.init .clean)
      (startup 100 600 ++ childExits 100 0 ++ wayOut 3 ++ [.runRet .exitErr])) = true by rfl)
  exact ⟨s, s', hr, hn, return_explained .default .clean (by decide) (by decide) hr hn⟩

end Supervisor

end Autossh
