import Autossh.Supervisor.Longjmp

/-!
# What happens between two steps of the main program

An activation of `sig_catch` and the environment leave most of the state of the main program
alone, and there are few ways in which they move its control point (`Slides`).  An assertion about
the control point that survives those is kept by everything but the main program
(`Slides.keeps`), so that the invariants that follow only have to look at its steps
(`next_main_or_async`).
-/

namespace Autossh

namespace Supervisor

/-- How the control point moves while the main program does nothing. -/
inductive Slides : Pc → Pc → Prop
  | stay (p : Pc) : Slides p p
  /-- time passes for a `sleep` -/
  | elapse (p : Pc) (dt : ℕ) : Slides p (p.elapse dt)
  /-- a signal ends the wait -/
  | woken (old : SigSet) : Slides (.watch (.asleep old)) (.watch .woken)
  /-- `siglongjmp` -/
  | caught (v : Sig) : Slides (.watch .woken) (.watch (.caught v))
  /-- the process ends -/
  | gone (p : Pc) : Slides p .gone

/-- What a step of `sig_catch` or of the environment leaves alone. -/
structure Async (s t : St) : Prop where
  pc : Slides s.pc t.pc
  disp : t.sg.disp = s.sg.disp
  cchild : t.cchild = s.cchild
  /-- the child may exit, but only the main program can take it out of the process table -/
  child : t.child = s.child ∨ t.child ≠ .none
  sshStderrFd : t.sshStderrFd = s.sshStderrFd
  stderrPipe : t.stderrPipe = s.stderrPipe

variable {c : Cfg} {s t : St} {a : Act}

/-- An assertion that does not depend on how long a sleep still is, or on what ends the wait. -/
theorem Slides.keeps {A : Pc → Prop} {p p' : Pc} (h : Slides p p') (hA : A p)
    (hsleep : ∀ n m k, A (.sleep n k) → A (.sleep m k))
    (hwoken : ∀ old, A (.watch (.asleep old)) → A (.watch .woken))
    (hcaught : ∀ v, A (.watch .woken) → A (.watch (.caught v))) (hgone : A .gone) : A p' := by
  cases h with
  | stay => exact hA
  | elapse dt =>
    cases p with
    | sleep n k => exact hsleep n _ k hA
    | _ => exact hA
  | woken old => exact hwoken old hA
  | caught v => exact hcaught v hA
  | gone => exact hgone

theorem sigCatchStep_async {f : Frame} {fs : List Frame} (hs : SigInv s) (hf : s.frames = f :: fs)
    (h : sigCatchStep s f fs a = some t) : Async s t := by
  unfold sigCatchStep at h
  split at h <;> rename_i hp
  · split_ifs at h <;> obtain ⟨-, rfl⟩ := on_eq_some.1 h
    · exact ⟨.stay _, rfl, rfl, .inl rfl, rfl, rfl⟩
    · exact ⟨.gone _, rfl, rfl, .inl rfl, rfl, rfl⟩
    · exact ⟨.stay _, rfl, rfl, .inl rfl, rfl, rfl⟩
    · exact ⟨.stay _, rfl, rfl, .inl rfl, rfl, rfl⟩
  · obtain ⟨-, rfl⟩ := on_eq_some.1 h
    exact ⟨.stay _, rfl, rfl, .inl rfl, rfl, rfl⟩
  · obtain ⟨-, rfl⟩ := on_eq_some.1 h
    exact ⟨.stay _, rfl, rfl, .inl rfl, rfl, rfl⟩
  · obtain ⟨-, rfl⟩ := on_eq_some.1 h
    exact ⟨.stay _, rfl, rfl, .inl rfl, rfl, rfl⟩
  · obtain ⟨-, rfl⟩ := on_eq_some.1 h
    have hpc : s.pc = .watch .woken := hs.jumping f (by simp [hf]) (.inr hp)
    refine ⟨?_, rfl, rfl, .inl rfl, rfl, rfl⟩
    rw [hpc]
    exact .caught _
  · obtain ⟨-, rfl⟩ := on_eq_some.1 h
    exact ⟨.stay _, rfl, rfl, .inl rfl, rfl, rfl⟩

theorem pushFrame_async (g : Sig) (m : SigSet) : Async s (pushFrame s g m) := by
  unfold pushFrame
  split
  · rename_i hp
    refine ⟨?_, rfl, rfl, .inl rfl, rfl, rfl⟩
    rw [hp]
    exact .woken _
  · exact ⟨.stay _, rfl, rfl, .inl rfl, rfl, rfl⟩

theorem envStep_async (h : envStep s a = some t) : Async s t := by
  cases a with
  | raise g =>
    cases h
    exact ⟨.stay _, SigState.raise_disp .., rfl, .inl rfl, rfl, rfl⟩
  | deliver g =>
    obtain ⟨-, -, rfl | rfl | ⟨m, -, rfl⟩⟩ := deliver_cases h
    · exact ⟨.stay _, rfl, rfl, .inl rfl, rfl, rfl⟩
    · exact ⟨.gone _, rfl, rfl, .inl rfl, rfl, rfl⟩
    · exact pushFrame_async g m
  | childExit st =>
    simp only [envStep] at h
    split_ifs at h
    cases h
    exact ⟨.stay _, SigState.raise_disp .., rfl, .inr (by simp), rfl, rfl⟩
  | elapse dw dt =>
    cases h
    exact ⟨.elapse _ dt, rfl, rfl, .inl rfl, rfl, rfl⟩
  | timerFire =>
    simp only [envStep] at h
    split_ifs at h
    cases h
    exact ⟨.stay _, SigState.raise_disp .., rfl, .inl rfl, rfl, rfl⟩
  | _ => cases h

/-- The environment leaves the flags of `sig_catch`, the count and the child's pid alone. -/
theorem envStep_flags (h : envStep s a = some t) : t.restartSsh = s.restartSsh ∧
    t.exitSignalled = s.exitSignalled ∧ t.startCount = s.startCount ∧ t.cchild = s.cchild := by
  cases a with
  | raise g | elapse dw dt =>
    cases h
    exact ⟨rfl, rfl, rfl, rfl⟩
  | deliver g =>
    obtain ⟨-, -, rfl | rfl | ⟨m, -, rfl⟩⟩ := deliver_cases h
    · exact ⟨rfl, rfl, rfl, rfl⟩
    · exact ⟨rfl, rfl, rfl, rfl⟩
    · unfold pushFrame
      split <;> exact ⟨rfl, rfl, rfl, rfl⟩
  | childExit st | timerFire =>
    simp only [envStep] at h
    split_ifs at h
    cases h
    exact ⟨rfl, rfl, rfl, rfl⟩
  | _ => cases h

/-- A step is one of the main program, or it makes no system call and leaves the main program
alone. -/
theorem next_main_or_async {s' : St} (hs : SigInv s) (h : next c s a = some s') :
    (a.isCall = false ∧ Async s s') ∨
      (s.frames = [] ∧ ∃ t, mainStep c s a = some t ∧ s' = { t with interrupted := false }) := by
  obtain ⟨-, he | ⟨f, fs, hf, hc⟩ | hm⟩ := next_cases h
  · refine .inl ⟨?_, envStep_async he⟩
    have henv := envStep_act he
    cases a <;> first | rfl | cases henv
  · refine .inl ⟨?_, sigCatchStep_async hs hf hc⟩
    obtain rfl | rfl | ⟨rfl, -⟩ := sigCatchStep_act hc <;> rfl
  · exact .inr hm

end Supervisor

end Autossh
