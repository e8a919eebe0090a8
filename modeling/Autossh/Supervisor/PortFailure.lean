import Autossh.Supervisor.Lifetime
import Autossh.Supervisor.Async

/-!
# The delay after a failed port forwarding

`check_ssh_stderr` sets `port_fwd_failed` when ssh reports that it could not set up a forwarding.
The flag is read by `grace_time`, which waits and clears it, and cleared once more by `ssh_run`;
two of the three callers of `check_ssh_stderr` wait as well, after they have killed the child.

* `failing` is the supervisor with the seconds slept since the failure of the latest child
  (`sleptSince`);
* `FailedAt` : how the flag and these seconds go together at each control point.  A `sleep` in
  progress counts as slept, since what it still lacks is slept before the next step;
* `port_failure_delayed` : **every failure is followed by the delay once, before the next
  `fork`.**
-/

namespace Autossh

namespace Supervisor

/-- The seconds slept since `check_ssh_stderr` has set the flag for the latest child. -/
def sleptSince (s : St) (n : Option ℕ) : Act → Option ℕ
  | .fork _ => none
  | .elapse _ dt => match s.pc with
    | .sleep m _ => n.map (· + min dt m)
    | _ => n
  | .tau => match s.frames, s.pc with
    | [], .drain .flag _ => some 0
    | _, _ => n
  | _ => n

/-- The supervisor with these seconds. -/
def failing (c : Cfg) : Machine (St × Option ℕ) Act where
  next x a := (next c x.1 a).map fun s => (s, sleptSince x.1 x.2 a)

/-- No signal ends a `sleep`. -/
def sleepsOn (s : St) (a : Act) : Bool :=
  match s.frames, s.pc with
  | [], .sleep m _ => a.isEnv || m = 0
  | _, _ => true

/-- The delay has been slept, if there was a failure. -/
def Delayed (n : Option ℕ) : Prop := ∀ k ∈ n, portFwdFailDelay ≤ k

/-- The flag and the seconds slept at each control point. -/
def FailedAt (failed : Bool) : Option ℕ → Pc → Prop
  | n, .errlog _ k => FailedAt failed n k
  | n, .sleep m k => FailedAt failed (n.map (· + m)) k
  | n, .run .portDelayDone => n.isSome = true ∧ Delayed n
  | n, .run .testExit | n, .run .stamp | n, .run .pipe | n, .run .fork =>
    failed = false ∧ Delayed n
  | _, .run (.ret _) | _, .exit | _, .gone => True
  | n, _ => failed = n.isSome

/-- The control points at which the flag says whether there was a failure. -/
def Pc.flagged : Pc → Bool
  | .run .portDelayDone | .run .testExit | .run .stamp | .run .pipe | .run .fork => false
  | .errlog _ k | .sleep _ k => k.flagged
  | _ => true

variable {c : Cfg} {s t : St} {a : Act} {n : Option ℕ}

theorem failedAt_of_flagged {failed : Bool} {p : Pc} (hp : p.flagged = true)
    (h : failed = n.isSome) : FailedAt failed n p := by
  induction p generalizing n with
  | run p =>
    cases p with
    | portDelayDone | testExit | stamp | pipe | fork => cases hp
    | ret rc => trivial
    | _ => exact h
  | errlog m k ih => exact ih hp h
  | sleep m k ih => exact ih hp (by rw [Option.isSome_map]; exact h)
  | exit | gone => trivial
  | watch p | drain p k | kill p k => exact h

theorem KillCont.resume_flagged (k : KillCont) : k.resume.flagged = true := by
  cases k <;> rfl

theorem DrainCont.resume_flagged (k : DrainCont) (b : Bool) : (k.resume b).flagged = true := by
  cases k <;> cases b <;> rfl

/-! ### One step of the main program -/

theorem sshRunStep_failed {p : RunPc} (hs : FailedAt s.portFwdFailed n (.run p)) (hp : p ≠ .fork)
    (h : sshRunStep c s a p = some t) : FailedAt t.portFwdFailed n t.pc := by
  cases p with
  | setExit l | setHandlers l | unsetHandlers rc l =>
    cases l <;> obtain ⟨rfl, rfl⟩ := on_eq_some.1 h <;> exact hs
  | head | lifetime | testRc rc =>
    obtain ⟨rfl, rfl⟩ := on_eq_some.1 h
    simp only [St.goto]
    split_ifs <;> first | exact hs | trivial
  | grace =>
    obtain ⟨rfl, rfl⟩ := on_eq_some.1 h
    refine failedAt_of_flagged ?_ hs
    dsimp only
    split_ifs <;> rfl
  | portDelay =>
    obtain ⟨rfl, rfl⟩ := on_eq_some.1 h
    have hflag : s.portFwdFailed = n.isSome := hs
    simp only [St.goto]
    split_ifs with hfailed
    · -- the seconds of the `sleep` are the delay
      refine ⟨by rw [Option.isSome_map, ← hflag, hfailed], fun k hk => ?_⟩
      obtain ⟨j, -, rfl⟩ := Option.mem_map.1 hk
      exact Nat.le_add_left _ _
    · rw [Bool.not_eq_true] at hfailed
      rw [hfailed, eq_comm, Option.isSome_eq_false_iff, Option.isNone_iff_eq_none] at hflag
      subst hflag
      exact ⟨hfailed, fun k hk => by cases hk⟩
  | portDelayDone =>
    obtain ⟨rfl, rfl⟩ := on_eq_some.1 h
    exact ⟨rfl, hs.2⟩
  | testExit =>
    obtain ⟨rfl, rfl⟩ := on_eq_some.1 h
    simp only [St.goto]
    split_ifs
    · trivial
    · exact hs
  | stamp =>
    obtain ⟨rfl, rfl⟩ := on_eq_some.1 h
    exact ⟨rfl, hs.2⟩
  | pipe =>
    simp only [sshRunStep, Option.bind_eq_some_iff, pipe?_eq_some] at h
    obtain ⟨r, rfl, h⟩ := h
    rcases r with - | ⟨r, w⟩ <;> cases h <;> exact hs
  | fork => exact absurd rfl hp
  | closeStderr rc =>
    simp only [sshRunStep] at h
    split_ifs at h <;> obtain ⟨rfl, rfl⟩ := on_eq_some.1 h <;> exact hs
  | ret rc =>
    obtain ⟨rfl, rfl⟩ := on_eq_some.1 h
    trivial
  | _ =>
    obtain ⟨rfl, rfl⟩ := on_eq_some.1 h
    exact hs

/-- After the `fork` there is no failure yet. -/
theorem sshRunStep_forked (hs : FailedAt s.portFwdFailed n (.run .fork))
    (h : sshRunStep c s a .fork = some t) : FailedAt t.portFwdFailed none t.pc := by
  simp only [sshRunStep, Option.bind_eq_some_iff] at h
  obtain ⟨r, -, h⟩ := h
  split_ifs at h <;> cases h <;> exact hs.1

theorem sshWatchStep_failed {p : WatchPc} (hs : s.portFwdFailed = n.isSome)
    (h : sshWatchStep c s a p = some t) : FailedAt t.portFwdFailed n t.pc := by
  have hflagged : t.pc.flagged = true := sshWatchStep_target (P := fun q => q.flagged = true)
    (fun _ => rfl) (fun _ => rfl) (fun _ _ => rfl) (fun _ _ => rfl) (fun _ => rfl) h
  exact failedAt_of_flagged hflagged ((sshWatchStep_kept h).portFwdFailed.trans hs)

theorem sshKillStep_failed {p : KillPc} {k : KillCont} (hs : s.portFwdFailed = n.isSome)
    (h : sshKillStep s k a p = some t) : FailedAt t.portFwdFailed n t.pc := by
  have hflagged : t.pc.flagged = true := sshKillStep_target (P := fun q => q.flagged = true)
    (fun _ => rfl) (fun _ _ => rfl) (fun _ _ => rfl) k.resume_flagged h
  obtain ⟨_, _, _, _, rfl⟩ := sshKillStep_frame h
  exact failedAt_of_flagged hflagged hs

/-- Reading leaves the flag alone. -/
theorem checkSshStderrStep_failed {k : DrainCont} (hs : s.portFwdFailed = n.isSome)
    (h : checkSshStderrStep s k a .read = some t) : FailedAt t.portFwdFailed n t.pc := by
  have hflagged : t.pc.flagged = true := checkSshStderrStep_target (P := fun q => q.flagged = true)
    (fun _ => rfl) (fun _ => rfl) k.resume_flagged (fun _ => k.resume_flagged true) h
  refine failedAt_of_flagged hflagged ?_
  simp only [checkSshStderrStep] at h
  split_ifs at h
  · simp only [Option.bind_eq_some_iff] at h
    obtain ⟨r, -, h⟩ := h
    cases r with
    | none =>
      cases h
      exact hs
    | some chunk =>
      simp only at h
      split_ifs at h
      cases h
      exact hs
  · obtain ⟨-, rfl⟩ := on_eq_some.1 h
    exact hs

/-- Only the `fork`, the step that sets the flag, and the passing of time change the count. -/
theorem sleptSince_eq (hfork : ∀ r, a ≠ .fork r) (htime : ∀ dw dt, a ≠ .elapse dw dt)
    (hflag : s.frames = [] → ∀ k, s.pc ≠ .drain .flag k) : sleptSince s n a = n := by
  cases a with
  | fork r => exact absurd rfl (hfork r)
  | elapse dw dt => exact absurd rfl (htime dw dt)
  | tau =>
    simp only [sleptSince]
    split
    · rename_i k hf hp
      exact absurd hp (hflag hf k)
    · rfl
  | _ => rfl

theorem mainStep_failed (hf : s.frames = []) (hs : FailedAt s.portFwdFailed n s.pc)
    (ha : sleepsOn s a = true) (h : mainStep c s a = some t) :
    FailedAt t.portFwdFailed (sleptSince s n a) t.pc := by
  have hcall := mainStep_callSite h
  have htime : ∀ dw dt, a ≠ .elapse dw dt := by
    rintro dw dt rfl
    exact hcall
  have hfork : s.pc ≠ .run .fork → ∀ r, a ≠ .fork r := by
    rintro hne r rfl
    exact hne hcall
  rcases mainStep_cases h with ⟨p, hp, h⟩ | ⟨p, hp, h⟩ | ⟨p, k, hp, h⟩ | ⟨p, k, hp, h⟩ |
    ⟨k, ⟨m, hp⟩ | ⟨m, hp⟩, rfl, rfl⟩ | ⟨-, -, rfl⟩
  · rw [hp] at hs hfork
    by_cases hpf : p = .fork
    · subst hpf
      have hfork := h
      simp only [sshRunStep, Option.bind_eq_some_iff, fork?_eq_some] at hfork
      obtain ⟨r, rfl, -⟩ := hfork
      exact sshRunStep_forked hs h
    · rw [sleptSince_eq (hfork (by simpa using hpf)) htime (by simp [hp])]
      exact sshRunStep_failed hs hpf h
  · rw [hp] at hs hfork
    rw [sleptSince_eq (hfork (by simp)) htime (by simp [hp])]
    exact sshWatchStep_failed hs h
  · rw [hp] at hs hfork
    cases p with
    | read =>
      rw [sleptSince_eq (hfork (by simp)) htime (by simp [hp])]
      exact checkSshStderrStep_failed hs h
    | flag =>
      -- the failure
      obtain ⟨rfl, rfl⟩ := on_eq_some.1 h
      have hcount : sleptSince s n .tau = some 0 := by
        simp only [sleptSince, hf, hp]
      rw [hcount]
      exact failedAt_of_flagged (k.resume_flagged true) rfl
  · rw [hp] at hs hfork
    rw [sleptSince_eq (hfork (by simp)) htime (by simp [hp])]
    exact sshKillStep_failed hs h
  · rw [hp] at hs hfork
    rw [sleptSince_eq (hfork (by simp)) htime (by simp [hp])]
    exact hs
  · rw [hp] at hs hfork
    rw [sleptSince_eq (hfork (by simp)) htime (by simp [hp])]
    -- nothing is left of the sleep
    have hzero : m = 0 := by
      simpa [sleepsOn, hf, hp, Act.isEnv] using ha
    subst hzero
    have hmap : n.map (· + 0) = n := by
      cases n <;> rfl
    rw [FailedAt, hmap] at hs
    exact hs
  · trivial

/-! ### Runs -/

theorem FailedAt.elapse {failed : Bool} {p : Pc} (h : FailedAt failed n p) (dt : ℕ)
    (hother : ∀ m k, p ≠ .sleep m k) : FailedAt failed n (p.elapse dt) := by
  cases p with
  | sleep m k => exact absurd rfl (hother m k)
  | _ => exact h

theorem envStep_failed (hs : FailedAt s.portFwdFailed n s.pc) (h : envStep s a = some t) :
    FailedAt t.portFwdFailed (sleptSince s n a) t.pc := by
  rw [(envStep_kept h).portFwdFailed]
  cases a with
  | raise g =>
    cases h
    exact hs
  | deliver g =>
    obtain ⟨-, -, rfl | rfl | ⟨m, -, rfl⟩⟩ := deliver_cases h
    · exact hs
    · trivial
    · unfold pushFrame
      split
      · rename_i hp
        rw [hp] at hs
        exact hs
      · exact hs
  | childExit st | timerFire =>
    simp only [envStep] at h
    split_ifs at h
    cases h
    exact hs
  | elapse dw dt =>
    cases h
    simp only [sleptSince]
    split
    · -- what has passed of the sleep is counted now
      rename_i m k hp
      rw [hp] at hs ⊢
      have hmap : (n.map (· + min dt m)).map (· + (m - dt)) = n.map (· + m) := by
        rw [Option.map_map]
        congr 1
        funext j
        simp only [Function.comp_apply]
        omega
      simp only [Pc.elapse, FailedAt, hmap]
      exact hs
    · rename_i hother
      exact hs.elapse dt fun m k hp => hother m k hp
  | _ => cases h

theorem sigCatchStep_failed {f : Frame} {fs : List Frame} (hinv : SigInv s)
    (hf : s.frames = f :: fs) (hs : FailedAt s.portFwdFailed n s.pc)
    (h : sigCatchStep s f fs a = some t) : FailedAt t.portFwdFailed (sleptSince s n a) t.pc := by
  have hcount : sleptSince s n a = n := by
    refine sleptSince_eq ?_ ?_ (fun hnil => by rw [hf] at hnil; cases hnil)
    · rintro r rfl
      obtain ha | ha | ⟨ha, -⟩ := sigCatchStep_act h <;> cases ha
    · rintro dw dt rfl
      obtain ha | ha | ⟨ha, -⟩ := sigCatchStep_act h <;> cases ha
  rw [hcount, (sigCatchStep_kept h).portFwdFailed]
  rcases sigCatchStep_pc h with hpc | hpc | ⟨hjump, hpc⟩ <;> rw [hpc]
  · exact hs
  · trivial
  · rw [hinv.jumping f (by simp [hf]) (.inr hjump)] at hs
    exact hs

theorem failing_next {x y : St × Option ℕ} (h : (failing c).next x a = some y) :
    next c x.1 a = some y.1 ∧ y.2 = sleptSince x.1 x.2 a := by
  obtain ⟨t, hn, rfl⟩ := Option.map_eq_some_iff.1 h
  exact ⟨hn, rfl⟩

/-- The flag and the count go together in every run. -/
theorem run_failed {i : Inherited} {as : List Act}
    (h : ((failing c).guard fun x a => sleepsOn x.1 a = true).Run (.init i, none) as (s, n)) :
    FailedAt s.portFwdFailed n s.pc := by
  suffices hinv : SigInv s ∧ FailedAt s.portFwdFailed n s.pc from hinv.2
  have hinit : FailedAt false none (St.init i).pc := rfl
  refine h.invariant (I := fun x : St × Option ℕ =>
    SigInv x.1 ∧ FailedAt x.1.portFwdFailed x.2 x.1.pc) ⟨init_sigInv i, hinit⟩ ?_
  rintro ⟨s, n⟩ a ⟨t, n'⟩ ⟨hinv, hs⟩ hn
  obtain ⟨hon, hn⟩ := Machine.guard_next.1 hn
  obtain ⟨hn, rfl⟩ := failing_next hn
  refine ⟨next_sigInv hinv hn, ?_⟩
  obtain ⟨-, he | ⟨f, fs, hf, hc⟩ | ⟨hf, u, hm, rfl⟩⟩ := next_cases hn
  · exact envStep_failed hs he
  · exact sigCatchStep_failed hinv hf hs hc
  · have hfail := mainStep_failed hf hs hon hm
    exact hfail

/-- **The delay after a failed port forwarding.**  With sleeps that no signal ends: at every `fork`
the flag is clear, and if `check_ssh_stderr` has set it for the child before, the supervisor has
slept for `PORT_FWD_FAIL_DELAY` seconds since then; and where `grace_time` reads the flag, it is
set exactly if that has happened, so that no failure delays a later start as well. -/
theorem port_failure_delayed (c : Cfg) (i : Inherited) {as : List Act}
    (hr : ((failing c).guard fun x a => sleepsOn x.1 a = true).Run (.init i, none) as (s, n)) :
    (∀ r s', (supervisor c).next s (.fork r) = some s' →
      s.portFwdFailed = false ∧ ∀ k ∈ n, portFwdFailDelay ≤ k) ∧
    (s.pc = .run .portDelay → s.portFwdFailed = n.isSome) := by
  have hinv := run_failed hr
  constructor
  · intro r s' hn
    obtain ⟨-, hp, -⟩ := next_call rfl hn
    have hp : s.pc = .run .fork := hp
    rw [hp] at hinv
    exact hinv
  · intro hp
    rw [hp] at hinv
    exact hinv

/-- The forwarding of the first child fails; at the second `fork` the delay has been slept
twice. -/
theorem port_failure_delayed_restart :
    ∃ s s' n, ((failing shortLived).guard fun x a => sleepsOn x.1 a = true).Run (.init .clean, none)
        (startup 100 8 ++ forwardingFails ++ delayedStart) (s, some n) ∧
      (supervisor shortLived).next s (.fork 101) = some s' ∧ s.portFwdFailed = false ∧
      portFwdFailDelay ≤ n := by
  have hr : ((failing shortLived).guard fun x a => sleepsOn x.1 a = true).Run (.init .clean, none)
      (startup 100 8 ++ forwardingFails ++ delayedStart) (_, some _) := rfl
  obtain ⟨hfork, -⟩ := port_failure_delayed shortLived .clean hr
  obtain ⟨hflag, hslept⟩ := hfork 101 _ rfl
  exact ⟨_, _, _, hr, rfl, hflag, hslept _ rfl⟩

end Supervisor

end Autossh
