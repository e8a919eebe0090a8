import Autossh.Supervisor.Alarm

/-!
# The lifetime test at the head of the loop

`ssh_run` tests the lifetime before each start.  Between this test and the `fork` lie the delays
of `grace_time`: the back-off after short-lived children and the wait for a port to be released.

* `fork_before_expiry`: a child is forked within the lifetime if the expiry is further away than
  these delays, and nothing else takes more time there than is to spare.
* The test is not repeated after the delays, so they can carry the `fork` beyond the expiry
  (`fork_after_expiry`).
-/

namespace Autossh

namespace Supervisor

variable {c : Cfg} {s t : St} {a : Act}

/-- What the delays before a `fork` are computed from. -/
structure Backoff where
  tries : ℤ
  startTime : ℤ
  now : ℤ
  portFwdFailed : Bool

/-- The back-off data of a state. -/
def St.backoff (s : St) : Backoff := ⟨s.tries, s.startTime, s.now, s.portFwdFailed⟩

/-- The delay of `grace_time` after a failed port forwarding. -/
def Backoff.portDelay (b : Backoff) : ℕ := if b.portFwdFailed then portFwdFailDelay else 0

/-- All the delays of `grace_time`. -/
def Backoff.delay (c : Cfg) (b : Backoff) : ℕ :=
  graceInterval c (graceTries c b.tries b.startTime b.now) + b.portDelay

theorem Backoff.portDelay_congr {b b' : Backoff} (h : b'.portFwdFailed = b.portFwdFailed) :
    b'.portDelay = b.portDelay := by
  unfold portDelay
  rw [h]

/-- The control points between the lifetime test and the `fork`. -/
def Pc.starting : Pc → Bool
  | .run p => match p with
    | .clearRestart | .grace | .portDelay | .portDelayDone | .testExit | .stamp | .pipe | .fork =>
      true
    | _ => false
  | .errlog _ k => k.starting
  | .sleep _ k => k.starting
  | _ => false

/-- Past the computation of the back-off: the delays to come do not depend on the clock. -/
def Pc.graced : Pc → Bool
  | .run .clearRestart | .run .grace => false
  | .errlog _ k | .sleep _ k => k.graced
  | _ => true

/-- The delays of `grace_time` still to come before the `fork`. -/
def Pc.delayLeft (c : Cfg) (b : Backoff) : Pc → ℕ
  | .run p => match p with
    | .clearRestart | .grace => b.delay c
    | .portDelay => b.portDelay
    | _ => 0
  | .errlog _ k => k.delayLeft c b
  | .sleep n k => n + k.delayLeft c b
  | _ => 0

/-- When the clock has moved by `dw` seconds and the timers by `dt`, more time is left than the
delays still to come. -/
def St.spares (c : Cfg) (s : St) (dw : ℤ) (dt : ℕ) : Bool :=
  ((s.pc.elapse dt).delayLeft c { s.backoff with now := s.now + dw } : ℤ) + dw <
    secsToShutdown c s.now

/-- The condition on a step: a lifetime test at the head of the loop is only passed with more
time left than the delays to come, and from there to the `fork` the clock moves only inside the
`sleep`s, by no more than they ask for, or by what is to spare. -/
def prompt (c : Cfg) (s : St) : Act → Bool
  | .tau => match s.pc with
    | .run .lifetime => !s.frames.isEmpty || exceededLifetime c s.now ||
        decide ((s.backoff.delay c : ℤ) < secsToShutdown c s.now)
    | _ => true
  | .elapse dw dt => !s.pc.starting || s.spares c dw dt || match s.pc with
    | .sleep n _ => decide (dw ≤ dt ∧ dw ≤ n)
    | _ => decide (dw = 0)
  | _ => true

/-- No back-off is computed after a `sleep`. -/
def Pc.settled : Pc → Bool
  | .errlog _ k => k.settled
  | .sleep _ k => !k.starting || k.graced
  | _ => true

/-- What is left of the lifetime covers the delays to come. -/
structure Covered (c : Cfg) (s : St) : Prop where
  settled : s.pc.settled = true
  left : s.pc.starting = true → (s.pc.delayLeft c s.backoff : ℤ) < secsToShutdown c s.now

theorem Pc.settled_of_not_starting {p : Pc} (h : p.starting ≠ true) : p.settled = true := by
  induction p with
  | errlog m k ih => exact ih h
  | sleep n k ih => exact Bool.or_eq_true_iff.2 (.inl (by simpa [Pc.starting] using h))
  | _ => rfl

theorem covered_of_not_starting (h : s.pc.starting ≠ true) : Covered c s :=
  ⟨Pc.settled_of_not_starting h, fun hst => absurd hst h⟩

theorem Pc.settled_of_graced {p : Pc} (h : p.graced = true) : p.settled = true := by
  induction p with
  | errlog m k ih => exact ih h
  | sleep n k ih => exact Bool.or_eq_true_iff.2 (.inr h)
  | _ => rfl

theorem Pc.delayLeft_congr {p : Pc} {b b' : Backoff} (h : p.graced = true)
    (hb : b'.portFwdFailed = b.portFwdFailed) : p.delayLeft c b' = p.delayLeft c b := by
  induction p with
  | run p =>
    cases p with
    | clearRestart | grace => cases h
    | portDelay => exact Backoff.portDelay_congr hb
    | _ => rfl
  | errlog m k ih => exact ih h
  | sleep n k ih => exact congrArg (n + ·) (ih h)
  | _ => rfl

theorem sshRunStep_covered {p : RunPc} (hp : s.pc = .run p) (hf : s.frames = [])
    (hs : Covered c s) (hpr : prompt c s a = true) (h : sshRunStep c s a p = some t) :
    Covered c t := by
  have hleft := hs.left
  rw [hp] at hleft
  cases p with
  | lifetime =>
    obtain ⟨rfl, rfl⟩ := on_eq_some.1 h
    by_cases he : exceededLifetime c s.now = true
    · rw [if_pos he]
      exact covered_of_not_starting Bool.false_ne_true
    · simp only [prompt, hp, hf, he, List.isEmpty_nil, Bool.not_true, Bool.false_or,
        decide_eq_true_eq] at hpr
      rw [if_neg he]
      exact ⟨rfl, fun _ => hpr⟩
  | clearRestart =>
    obtain ⟨rfl, rfl⟩ := on_eq_some.1 h
    exact ⟨rfl, fun _ => hleft rfl⟩
  | grace =>
    obtain ⟨rfl, rfl⟩ := on_eq_some.1 h
    have hd : ((graceInterval c (graceTries c s.tries s.startTime s.now) : ℕ) : ℤ) +
        s.backoff.portDelay < secsToShutdown c s.now := by exact_mod_cast hleft rfl
    split_ifs
    -- the interval is slept off, and the port delay may follow
    · exact ⟨rfl, fun _ => by exact_mod_cast hd⟩
    · have hd' : (s.backoff.portDelay : ℤ) < secsToShutdown c s.now := by omega
      exact ⟨rfl, fun _ => hd'⟩
  | portDelay =>
    obtain ⟨rfl, rfl⟩ := on_eq_some.1 h
    have hd : (s.backoff.portDelay : ℤ) < secsToShutdown c s.now := hleft rfl
    split_ifs with hi
    · rw [show s.backoff.portDelay = portFwdFailDelay from if_pos hi] at hd
      exact ⟨rfl, fun _ => hd⟩
    · rw [show s.backoff.portDelay = 0 from if_neg hi] at hd
      exact ⟨rfl, fun _ => hd⟩
  | portDelayDone | stamp =>
    obtain ⟨rfl, rfl⟩ := on_eq_some.1 h
    exact ⟨rfl, fun _ => hleft rfl⟩
  | testExit =>
    obtain ⟨rfl, rfl⟩ := on_eq_some.1 h
    split_ifs
    · exact covered_of_not_starting Bool.false_ne_true
    · exact ⟨rfl, fun _ => hleft rfl⟩
  | pipe =>
    simp only [sshRunStep, Option.bind_eq_some_iff] at h
    obtain ⟨r, -, h⟩ := h
    rcases r with - | ⟨r, w⟩ <;> cases h <;> exact ⟨rfl, fun _ => hleft rfl⟩
  | fork =>
    simp only [sshRunStep, Option.bind_eq_some_iff] at h
    obtain ⟨r, -, h⟩ := h
    split_ifs at h <;> cases h <;> exact covered_of_not_starting Bool.false_ne_true
  | setExit l | setHandlers l | unsetHandlers rc l =>
    cases l <;> obtain ⟨-, rfl⟩ := on_eq_some.1 h <;>
      exact covered_of_not_starting Bool.false_ne_true
  | head | testRc rc =>
    obtain ⟨-, rfl⟩ := on_eq_some.1 h
    split_ifs <;> exact covered_of_not_starting Bool.false_ne_true
  | closeStderr rc =>
    simp only [sshRunStep] at h
    split_ifs at h <;> obtain ⟨-, rfl⟩ := on_eq_some.1 h <;>
      exact covered_of_not_starting Bool.false_ne_true
  | _ =>
    obtain ⟨-, rfl⟩ := on_eq_some.1 h
    exact covered_of_not_starting Bool.false_ne_true

/-- `ssh_watch` and what it calls never lead to a point between the test and the `fork`. -/
theorem sshWatchStep_not_starting {p : WatchPc} (h : sshWatchStep c s a p = some t) :
    t.pc.starting ≠ true :=
  sshWatchStep_target (P := fun q => q.starting ≠ true) (fun _ => Bool.false_ne_true)
    (fun _ => Bool.false_ne_true) (fun _ _ => Bool.false_ne_true)
    (fun _ _ => Bool.false_ne_true) (fun _ => Bool.false_ne_true) h

theorem checkSshStderrStep_not_starting {p : DrainPc} {k : DrainCont}
    (h : checkSshStderrStep s k a p = some t) : t.pc.starting ≠ true := by
  refine checkSshStderrStep_target (P := fun q => q.starting ≠ true)
    (fun _ => Bool.false_ne_true) (fun _ => Bool.false_ne_true) (fun b => ?_) (fun _ => ?_) h
  · cases k <;> cases b <;> exact Bool.false_ne_true
  · cases k <;> exact Bool.false_ne_true

theorem sshKillStep_not_starting {p : KillPc} {k : KillCont} (h : sshKillStep s k a p = some t) :
    t.pc.starting ≠ true := by
  refine sshKillStep_target (P := fun q => q.starting ≠ true) (fun _ => Bool.false_ne_true)
    (fun _ _ => Bool.false_ne_true) (fun _ _ => Bool.false_ne_true) ?_ h
  cases k <;> exact Bool.false_ne_true

theorem mainStep_covered (hf : s.frames = []) (hs : Covered c s) (hpr : prompt c s a = true)
    (h : mainStep c s a = some t) : Covered c t := by
  rcases mainStep_cases h with ⟨p, hp, h⟩ | ⟨p, -, h⟩ | ⟨p, k, -, h⟩ | ⟨p, k, -, h⟩ |
    ⟨k, ⟨m, hp⟩ | ⟨n, hp⟩, -, rfl⟩ | ⟨-, -, rfl⟩
  · exact sshRunStep_covered hp hf hs hpr h
  · exact covered_of_not_starting (sshWatchStep_not_starting h)
  · exact covered_of_not_starting (checkSshStderrStep_not_starting h)
  · exact covered_of_not_starting (sshKillStep_not_starting h)
  · obtain ⟨hset, hleft⟩ := hs
    rw [hp] at hset hleft
    exact ⟨hset, hleft⟩
  · obtain ⟨hset, hleft⟩ := hs
    rw [hp] at hset hleft
    by_cases hk : k.starting = true
    · have hgraced := (Bool.or_eq_true_iff.1 hset).resolve_left (by simp [hk])
      refine ⟨Pc.settled_of_graced hgraced, fun _ => ?_⟩
      have hd : ((n + k.delayLeft c s.backoff : ℕ) : ℤ) < secsToShutdown c s.now := hleft hk
      show (k.delayLeft c s.backoff : ℤ) < secsToShutdown c s.now
      omega
    · exact covered_of_not_starting hk
  · exact covered_of_not_starting Bool.false_ne_true

theorem sigCatchStep_covered {f : Frame} {fs : List Frame} (hs : Covered c s)
    (h : sigCatchStep s f fs a = some t) : Covered c t := by
  unfold sigCatchStep at h
  split at h
  · split_ifs at h <;> obtain ⟨-, rfl⟩ := on_eq_some.1 h <;>
      first | exact ⟨hs.settled, hs.left⟩ | exact covered_of_not_starting Bool.false_ne_true
  all_goals
    obtain ⟨-, rfl⟩ := on_eq_some.1 h
    first | exact ⟨hs.settled, hs.left⟩ | exact covered_of_not_starting Bool.false_ne_true

theorem Pc.starting_elapse (p : Pc) (dt : ℕ) : (p.elapse dt).starting = p.starting := by
  cases p <;> rfl

theorem Pc.settled_elapse (p : Pc) (dt : ℕ) : (p.elapse dt).settled = p.settled := by
  cases p <;> rfl

/-- Time passes: inside a `sleep` the delays to come shrink with it. -/
theorem elapse_covered {dw : ℤ} {dt : ℕ} (hs : Covered c s)
    (hpr : prompt c s (.elapse dw dt) = true) (h : envStep s (.elapse dw dt) = some t) :
    Covered c t := by
  cases h
  refine ⟨(Pc.settled_elapse s.pc dt).trans hs.settled, fun hst => ?_⟩
  have hst : s.pc.starting = true := (Pc.starting_elapse s.pc dt).symm.trans hst
  have hleft := hs.left hst
  have hshut : secsToShutdown c (s.now + dw) = secsToShutdown c s.now - dw := by
    unfold secsToShutdown
    omega
  show ((s.pc.elapse dt).delayLeft c { s.backoff with now := s.now + dw } : ℤ) <
    secsToShutdown c (s.now + dw)
  rw [hshut]
  simp only [prompt, hst, Bool.not_true, Bool.false_or, Bool.or_eq_true] at hpr
  rcases hpr with hspare | hpr
  · have := of_decide_eq_true hspare
    omega
  · have hset := hs.settled
    cases hp : s.pc with
    | sleep n k =>
      rw [hp] at hpr hset hleft hst
      obtain ⟨hdt, hn⟩ := of_decide_eq_true hpr
      have hgraced := (Bool.or_eq_true_iff.1 hset).resolve_left (by simp [show k.starting from hst])
      have hk : k.delayLeft c { s.backoff with now := s.now + dw } = k.delayLeft c s.backoff :=
        Pc.delayLeft_congr hgraced rfl
      simp only [Pc.elapse, Pc.delayLeft, hk] at hleft ⊢
      omega
    | run p | errlog m k =>
      rw [hp] at hpr hleft
      obtain rfl : dw = 0 := of_decide_eq_true hpr
      simpa only [Pc.elapse, St.backoff, Int.add_zero, Int.sub_zero] using hleft
    | _ => rw [hp] at hst; cases hst

theorem envStep_covered (hs : Covered c s) (hpr : prompt c s a = true)
    (h : envStep s a = some t) : Covered c t := by
  cases a with
  | raise g =>
    cases h
    exact ⟨hs.settled, hs.left⟩
  | deliver g =>
    obtain ⟨-, -, rfl | rfl | ⟨m, -, rfl⟩⟩ := deliver_cases h
    · exact ⟨hs.settled, hs.left⟩
    · exact covered_of_not_starting Bool.false_ne_true
    · unfold pushFrame
      split
      · exact covered_of_not_starting Bool.false_ne_true
      · exact ⟨hs.settled, hs.left⟩
  | childExit st | timerFire =>
    simp only [envStep] at h
    split_ifs at h
    cases h
    exact ⟨hs.settled, hs.left⟩
  | elapse dw dt => exact elapse_covered hs hpr h
  | _ => cases h

theorem run_covered {i : Inherited} {as : List Act}
    (h : ((supervisor c).guard fun s a => prompt c s a = true).Run (.init i) as s) :
    Covered c s := by
  refine h.invariant (covered_of_not_starting Bool.false_ne_true) fun s a s' hs hn => ?_
  obtain ⟨hpr, hn⟩ := Machine.guard_next.1 hn
  obtain ⟨-, he | ⟨f, fs, -, hc⟩ | ⟨hf, t, hm, rfl⟩⟩ := next_cases hn
  · exact envStep_covered hs hpr he
  · exact sigCatchStep_covered hs hc
  · obtain ⟨hset, hleft⟩ := mainStep_covered hf hs hpr hm
    exact ⟨hset, hleft⟩

/-- **No child is forked after the expiry**, in a run in which every lifetime test at the head of
the loop is passed with more time left than the delays of `grace_time`, and in which no more time
passes between the test and the `fork` than these delays and what is to spare. -/
theorem fork_before_expiry (c : Cfg) (i : Inherited) {as : List Act} {s s' : St} {r : ℤ}
    (hr : ((supervisor c).guard fun s a => prompt c s a = true).Run (.init i) as s)
    (hn : (supervisor c).next s (.fork r) = some s') : s.now - c.pidStartTime < c.maxLifetime := by
  obtain ⟨-, hp, -⟩ := next_call rfl hn
  have hcov := (run_covered hr).left
  rw [hp] at hcov
  have hleft : 0 < secsToShutdown c s.now := hcov rfl
  unfold secsToShutdown at hleft
  omega

theorem first_fork_before_expiry :
    ∃ s s', ((supervisor monitored).guard fun s a => prompt monitored s a = true).Run
        (.init .clean) (.replicate 11 .tau ++ [.pipe (some (3, 4))]) s ∧
      (supervisor monitored).next s (.fork 100) = some s' ∧
      s.now - monitored.pidStartTime < monitored.maxLifetime := by
  obtain ⟨s, s', hr, hn⟩ := Machine.exists_run_concat (show Option.isSome
    (((supervisor monitored).guard fun s a => prompt monitored s a = true).exec (.init .clean)
      (.replicate 11 .tau ++ [.pipe (some (3, 4))] ++ [.fork 100])) = true by rfl)
  obtain ⟨-, hn⟩ := Machine.guard_next.1 hn
  exact ⟨s, s', hr, hn, fork_before_expiry monitored .clean hr hn⟩

/-- A lifetime of eight seconds. -/
def shortLived : Cfg :=
  { Cfg.default with
    pollTime := 8, firstPollTime := 8, maxLifetime := 8, pollTime_pos := by decide
    pollTime_lt := by decide, firstPollTime_pos := by decide, firstPollTime_lt := by decide
    maxLifetime_nonneg := by decide, pollTime_le := by decide, firstPollTime_le := by decide }

/-- The child reports that it could not set up the port forwarding; it is killed, and five seconds
pass until `ssh_watch` returns. -/
def forwardingFails : List Act :=
  ([.poll ⟨true, false, false⟩, .tau, .tau, .read 3 (some (bytes "remote port forwarding failed")),
    .tau, .tau, .close 3, .tau, .kill 100 .term, .childExit 15,
    .waitpid .sshKill 100 (.pid 15), .tau, .elapse 5 5, .tau, .tau, .watchRet .restart, .tau,
    .alarm 0 3] : List Act) ++ List.replicate 9 Act.tau

/-- The next start: the lifetime test is passed after five seconds, then `grace_time` waits for
another five. -/
def delayedStart : List Act :=
  List.replicate 6 Act.tau ++ ([.elapse 5 5] : List Act) ++ List.replicate 5 Act.tau ++
    ([.pipe (some (3, 4))] : List Act)

/-- The delay after a failed port forwarding lies between the lifetime test and the `fork`: a
child is forked at 10 seconds with a lifetime of 8. -/
theorem fork_after_expiry :
    ∃ s s', (supervisor shortLived).Run (.init .clean)
        (startup 100 8 ++ forwardingFails ++ delayedStart) s ∧
      (supervisor shortLived).next s (.fork 101) = some s' ∧
      0 < shortLived.maxLifetime ∧ ¬ s.now - shortLived.pidStartTime < shortLived.maxLifetime := by
  have hr : (supervisor shortLived).Run (.init .clean)
      (startup 100 8 ++ forwardingFails ++ delayedStart) _ := rfl
  exact ⟨_, _, hr, rfl, by decide, by decide⟩

end Supervisor

end Autossh
