import Autossh.Supervisor.Async

/-!
# How often ssh is started

`start_count` is incremented at the head of the loop of `ssh_run`, long before the `fork`, and it is
an `i32`.  `StartAt` says at each control point how it goes together with the number of forks: it
is ahead by one from the increment to the `fork`, and equal to it otherwise, modulo `2 ^ 32`.  With
a `max_start` that is not negative there is no overflow, and no more than `max_start` children are
ever started (`forks_le_maxStart`).
-/

namespace Autossh

namespace Supervisor

/-- A `fork`. -/
def Act.isFork : Act → Bool
  | .fork _ => true
  | _ => false

/-- `start_count` (`n`) is ahead of the number of forks (`f`), within the limit. -/
def Ahead (c : Cfg) (n : ℤ) (f : ℕ) : Prop :=
  n = i32Wrap (f + 1) ∧ (0 ≤ c.maxStart → (f : ℤ) + 1 ≤ c.maxStart)

/-- How they go together at each control point. -/
def StartAt (c : Cfg) (n : ℤ) (f : ℕ) : Pc → Prop
  | .run p => match p with
    | .lifetime | .clearRestart => n = i32Wrap f ∧ (c.maxStart < 0 ∨ n < c.maxStart)
    | .grace | .portDelay | .portDelayDone | .testExit | .stamp | .pipe | .fork => Ahead c n f
    -- `exit_signalled` is tested when the start has been counted
    | .ret rc => n = i32Wrap f ∨ (rc = .exitErr ∧ Ahead c n f)
    | _ => n = i32Wrap f
  | .errlog _ k | .sleep _ k => StartAt c n f k
  | .gone => n = i32Wrap f ∨ Ahead c n f
  | _ => n = i32Wrap f

/-- The count, and the limit. -/
structure Started (c : Cfg) (s : St) (f : ℕ) : Prop where
  atPc : StartAt c s.startCount f s.pc
  le : 0 ≤ c.maxStart → (f : ℤ) ≤ c.maxStart

variable {c : Cfg} {s t : St} {a : Act} {f : ℕ}

theorem i32Wrap_succ (n : ℤ) : i32Wrap (i32Wrap n + 1) = i32Wrap (n + 1) := by
  simp [i32Wrap]

/-- Below the limit the count has not wrapped. -/
theorem i32Wrap_natCast (hf : (f : ℤ) < 2 ^ 31) : i32Wrap f = f :=
  i32Wrap_of_bounds (by omega) hf

theorem StartAt.counted {n : ℤ} {p : Pc} (h : StartAt c n f p) : n = i32Wrap f ∨ Ahead c n f := by
  induction p with
  | run p =>
    cases p with
    | lifetime | clearRestart => exact .inl h.1
    | grace | portDelay | portDelayDone | testExit | stamp | pipe | fork => exact .inr h
    | ret rc => exact h.imp_right And.right
    | _ => exact .inl h
  | errlog m k ih => exact ih h
  | sleep m k ih => exact ih h
  | gone => exact h
  | _ => exact .inl h

theorem sshRunStep_startAt {p : RunPc} (hmax : c.maxStart < 2 ^ 31)
    (hs : StartAt c s.startCount f (.run p)) (hle : 0 ≤ c.maxStart → (f : ℤ) ≤ c.maxStart)
    (hfork : p ≠ .fork) (h : sshRunStep c s a p = some t) : StartAt c t.startCount f t.pc := by
  cases p with
  | setExit l | setHandlers l | unsetHandlers rc l =>
    cases l <;> obtain ⟨-, rfl⟩ := on_eq_some.1 h <;> exact hs
  | head =>
    obtain ⟨-, rfl⟩ := on_eq_some.1 h
    simp only [St.goto]
    split_ifs with hlt
    · exact ⟨hs, hlt⟩
    · exact .inl hs
  | lifetime =>
    obtain ⟨-, rfl⟩ := on_eq_some.1 h
    simp only [St.goto]
    split_ifs
    · exact .inl hs.1
    · exact hs
  | clearRestart =>
    obtain ⟨-, rfl⟩ := on_eq_some.1 h
    obtain ⟨hn, hlt⟩ := hs
    refine ⟨by rw [hn, i32Wrap_succ], fun h₀ => ?_⟩
    have hf := hle h₀
    rw [i32Wrap_natCast (by omega)] at hn
    omega
  | grace =>
    obtain ⟨-, rfl⟩ := on_eq_some.1 h
    simp only
    split_ifs <;> exact hs
  | portDelay =>
    obtain ⟨-, rfl⟩ := on_eq_some.1 h
    simp only [St.goto]
    split_ifs <;> exact hs
  | testExit =>
    obtain ⟨-, rfl⟩ := on_eq_some.1 h
    simp only [St.goto]
    split_ifs
    · exact .inr ⟨rfl, hs⟩
    · exact hs
  | pipe =>
    simp only [sshRunStep, Option.bind_eq_some_iff] at h
    obtain ⟨r, -, h⟩ := h
    rcases r with - | ⟨r, w⟩ <;> cases h <;> exact hs
  | fork => exact absurd rfl hfork
  | closeStderr rc =>
    simp only [sshRunStep] at h
    split_ifs at h <;> obtain ⟨-, rfl⟩ := on_eq_some.1 h <;> exact hs
  | testRc rc =>
    obtain ⟨-, rfl⟩ := on_eq_some.1 h
    simp only [St.goto]
    split_ifs
    · exact .inl hs
    · exact hs
  | ret rc =>
    obtain ⟨-, rfl⟩ := on_eq_some.1 h
    exact StartAt.counted hs
  | _ =>
    obtain ⟨-, rfl⟩ := on_eq_some.1 h
    exact hs

/-- The `fork` catches up with the count. -/
theorem mainStep_fork_started (hs : Started c s f) (hp : s.pc = .run .fork)
    (h : mainStep c s a = some t) : a.isFork = true ∧ Started c t (f + 1) := by
  obtain ⟨hn, hle⟩ : Ahead c s.startCount f := by
    have hat := hs.atPc
    rw [hp] at hat
    exact hat
  simp only [mainStep, hp, sshRunStep, Option.bind_eq_some_iff, fork?_eq_some] at h
  obtain ⟨r, rfl, h⟩ := h
  refine ⟨rfl, ?_, fun h₀ => by simpa using hle h₀⟩
  split_ifs at h <;> cases h <;> simpa [StartAt] using hn

theorem mainStep_started (hmax : c.maxStart < 2 ^ 31) (hs : Started c s f)
    (hp : s.pc ≠ .run .fork) (h : mainStep c s a = some t) : Started c t f := by
  refine ⟨?_, hs.le⟩
  have hat := hs.atPc
  rcases mainStep_cases h with ⟨p, hpc, h⟩ | ⟨p, hpc, h⟩ | ⟨p, k, hpc, h⟩ | ⟨p, k, hpc, h⟩ |
    ⟨k, ⟨m, hpc⟩ | ⟨m, hpc⟩, -, rfl⟩ | ⟨hpc, -, rfl⟩
  · rw [hpc] at hat
    exact sshRunStep_startAt hmax hat hs.le (fun hf => hp (hpc.trans (congrArg _ hf))) h
  · rw [hpc] at hat
    rw [(sshWatchStep_kept h).startCount]
    exact sshWatchStep_target (P := StartAt c s.startCount f) (fun _ => hat) (fun _ => hat)
      (fun _ _ => hat) (fun _ _ => hat) (fun _ => hat) h
  · rw [hpc] at hat
    have hresume : ∀ b, StartAt c s.startCount f (k.resume b) := by
      intro b
      cases k <;> cases b <;> exact hat
    have ht := checkSshStderrStep_target (P := StartAt c s.startCount f) (fun _ => hat)
      (fun _ => hat) hresume (fun _ => hresume true) h
    obtain ⟨_, _, _, rfl⟩ := checkSshStderrStep_frame h
    exact ht
  · rw [hpc] at hat
    have hresume : StartAt c s.startCount f k.resume := by
      cases k <;> exact hat
    have ht := sshKillStep_target (P := StartAt c s.startCount f) (fun _ => hat)
      (fun _ _ => hat) (fun _ _ => hat) hresume h
    obtain ⟨_, _, _, _, rfl⟩ := sshKillStep_frame h
    exact ht
  · rw [hpc] at hat
    exact hat
  · rw [hpc] at hat
    exact hat
  · exact .inl (by rwa [hpc] at hat)

theorem Slides.startAt {n : ℤ} {p p' : Pc} (h : Slides p p') (hp : StartAt c n f p) :
    StartAt c n f p' :=
  h.keeps hp (fun _ _ _ hk => hk) (fun _ hk => hk) (fun _ hk => hk) hp.counted

theorem next_started {s' : St} (hmax : c.maxStart < 2 ^ 31) (hinv : SigInv s) (hs : Started c s f)
    (h : next c s a = some s') : Started c s' (f + if a.isFork then 1 else 0) := by
  obtain ⟨-, he | ⟨g, fs, hf, hc⟩ | ⟨-, t, hm, rfl⟩⟩ := next_cases h
  · have ha : a.isFork = false := by
      cases a <;> first | rfl | cases he
    rw [ha]
    exact ⟨by rw [(envStep_kept he).startCount]; exact (envStep_async he).pc.startAt hs.atPc, hs.le⟩
  · have ha : a.isFork = false := by
      obtain rfl | rfl | ⟨rfl, -⟩ := sigCatchStep_act hc <;> rfl
    rw [ha]
    refine ⟨?_, hs.le⟩
    rw [(sigCatchStep_kept hc).startCount]
    exact (sigCatchStep_async hinv hf hc).pc.startAt hs.atPc
  · by_cases hp : s.pc = .run .fork
    · obtain ⟨ha, ht⟩ := mainStep_fork_started hs hp hm
      rw [ha]
      exact ⟨ht.atPc, ht.le⟩
    · have ha : a.isFork = false := by
        have hsite := mainStep_callSite hm
        cases a with
        | fork r => exact absurd hsite hp
        | _ => rfl
      have ht := mainStep_started hmax hs hp hm
      rw [ha]
      exact ⟨ht.atPc, ht.le⟩

theorem run_started (hmax : c.maxStart < 2 ^ 31) {i : Inherited} {as : List Act}
    (h : (supervisor c).Run (.init i) as s) : Started c s (as.countP Act.isFork) := by
  have hinit : Started c (.init i) 0 := ⟨rfl, id⟩
  refine Machine.Run.induct (P := fun as s => Started c s (as.countP Act.isFork)) hinit ?_ h
  intro as s a s' hr hs hn
  rw [List.countP_append, List.countP_singleton]
  exact next_started hmax (run_sigInv hr) hs hn

/-- **ssh is started at most `max_start` times**, and `start_count` does not overflow: in every run,
whatever ends the children and whatever signals there are, `start_count` is the number of forks, or
one more while a start is being prepared. -/
theorem forks_le_maxStart (c : Cfg) (i : Inherited) (h₀ : 0 ≤ c.maxStart)
    (hmax : c.maxStart < 2 ^ 31) {as : List Act} {s : St}
    (h : (supervisor c).Run (.init i) as s) :
    (as.countP Act.isFork : ℤ) ≤ c.maxStart ∧ s.startCount ≤ c.maxStart ∧
      (s.startCount = as.countP Act.isFork ∨ s.startCount = as.countP Act.isFork + 1) := by
  have hs := run_started hmax h
  have hle := hs.le h₀
  refine ⟨hle, ?_⟩
  rcases hs.atPc.counted with hn | ⟨hn, hahead⟩
  · rw [i32Wrap_natCast (by omega)] at hn
    exact ⟨by omega, .inl hn⟩
  · have := hahead h₀
    rw [i32Wrap_of_bounds (by omega) (by omega)] at hn
    exact ⟨by omega, .inr hn⟩

/-- One start, and the limit is 1. -/
def onceOnly : Cfg := { Cfg.default with maxStart := 1 }

theorem forks_le_maxStart_onceOnly :
    ∃ s, (supervisor onceOnly).Run (.init .clean) (startup 100 600) s ∧
      ((startup 100 600).countP Act.isFork : ℤ) ≤ onceOnly.maxStart ∧ s.startCount ≤ 1 := by
  obtain ⟨s, hs⟩ := Option.isSome_iff_exists.1 (show
    ((supervisor onceOnly).exec (.init .clean) (startup 100 600)).isSome = true by rfl)
  obtain ⟨hforks, hcount, -⟩ := forks_le_maxStart onceOnly .clean (by decide) (by decide) hs
  exact ⟨s, hs, hforks, hcount⟩

end Supervisor

end Autossh
