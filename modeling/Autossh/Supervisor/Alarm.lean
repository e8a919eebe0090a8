import Autossh.Supervisor.Wakeup

/-!
# The alarm before the wait

With a maximum lifetime set, `ssh_watch` moves its alarm forward so that it does not lie beyond
the expiry, and the `SIGALRM` branch tests the lifetime.

* `alarmArg_in_lifetime_iff`: the alarm computed in a pass lies between one second and the expiry
  exactly when the seconds the pass has taken over are `InTime`.  They are not when the lifetime has
  already run out at that point: the seconds left are then zero or negative, and `alarm(0)`
  cancels the alarm while a negative argument means some 136 years (`alarm_beyond_lifetime`).
* `timely`: a pass begins before the expiry, and the clock stands still from there to the wait; an
  alarm that is running is not overtaken by the clock, so that it is still in time when the next
  pass takes it over (`TimerInv.elapse`).  Only a pass that finds no alarm depends on the settings.
* `alarm_in_lifetime`: in such a run every wait is guarded by an alarm that goes off before the
  expiry.
-/

namespace Autossh

namespace Supervisor

variable {c : Cfg} {s t : St} {a : Act}

/-- The argument of `alarm` for a pass that takes over `left` seconds and reads the clock at
`now`. -/
def alarmArg (c : Cfg) (left now : ℤ) : ℕ := u32Cast (sessionClamp c (lifetimeClamp c left now))

/-- The pass reads the clock within the lifetime, and either less than `poll_time` is left, or the
seconds taken over, or `max_session` below them, do not reach beyond the expiry. -/
def InTime (c : Cfg) (left now : ℤ) : Prop :=
  1 ≤ secsToShutdown c now ∧
    (secsToShutdown c now < c.pollTime ∨
      (1 ≤ u32Cast left ∧ u32Cast left ≤ secsToShutdown c now) ∨
      (0 < c.maxSession ∧ c.maxSession < left ∧ c.maxSession ≤ secsToShutdown c now))

instance (c : Cfg) (left now : ℤ) : Decidable (InTime c left now) := by
  unfold InTime; infer_instance

theorem i32Sat_nonpos {n : ℤ} (h : n ≤ 0) : i32Sat n ≤ 0 := by
  unfold i32Sat
  omega

theorem sessionClamp_of_nonpos {left : ℤ} (h : left ≤ 0) : sessionClamp c left = left := by
  unfold sessionClamp
  rw [if_neg (by omega)]

theorem sessionClamp_of_lt {left : ℤ} (h₀ : 0 < c.maxSession) (h : c.maxSession < left)
    (hl : left < 2 ^ 31) : sessionClamp c left = c.maxSession := by
  unfold sessionClamp
  rw [if_pos ⟨h₀, h⟩, i32Sat_of_mem (by omega) (by omega)]

theorem sessionClamp_of_not {left : ℤ} (h : ¬ (0 < c.maxSession ∧ c.maxSession < left)) :
    sessionClamp c left = left := if_neg h

theorem lifetimeClamp_of_lt {left now : ℤ} (hL : 0 < c.maxLifetime)
    (h : secsToShutdown c now < c.pollTime) :
    lifetimeClamp c left now = i32Sat (secsToShutdown c now) := by
  unfold secsToShutdown at *
  unfold lifetimeClamp
  rw [if_pos ⟨hL.ne', by omega⟩]
  congr 1
  omega

theorem lifetimeClamp_of_le {left now : ℤ} (h : c.pollTime ≤ secsToShutdown c now) :
    lifetimeClamp c left now = left := by
  unfold secsToShutdown at h
  unfold lifetimeClamp
  rw [if_neg (by omega)]

/-- A non-positive number of seconds is not an alarm within any lifetime. -/
theorem not_in_lifetime_of_nonpos {n d : ℤ} (h₀ : -2 ^ 31 ≤ n) (h : n ≤ 0) (hd : d ≤ 0) :
    ¬ (1 ≤ u32Cast n ∧ (u32Cast n : ℤ) ≤ max 1 d) := by
  rintro ⟨h₁, h₂⟩
  rcases h.lt_or_eq with hn | rfl
  · have := u32Cast_of_neg h₀ hn
    omega
  · cases h₁

/-- The alarm fires after at least one second and not beyond the expiry, as seen from `now`. -/
def InLifetime (c : Cfg) (now : ℤ) (v : ℕ) : Prop :=
  1 ≤ v ∧ (v : ℤ) ≤ max 1 (secsToShutdown c now)

instance (c : Cfg) (now : ℤ) (v : ℕ) : Decidable (InLifetime c now v) := by
  unfold InLifetime; infer_instance

theorem alarmArg_in_lifetime_iff {left now : ℤ} (hL : 0 < c.maxLifetime) (hl₀ : -2 ^ 31 ≤ left)
    (hl : left < 2 ^ 31) :
    InLifetime c now (alarmArg c left now) ↔ InTime c left now := by
  have hpoll := c.pollTime_lt
  have hpoll₁ := c.pollTime_pos
  unfold InLifetime InTime alarmArg
  generalize hD : secsToShutdown c now = d
  by_cases hlt : d < c.pollTime
  · rw [lifetimeClamp_of_lt hL (hD ▸ hlt), hD]
    by_cases hd : d ≤ 0
    · -- the lifetime has run out: zero cancels the alarm, a negative number wraps around
      have hs := i32Sat_nonpos hd
      rw [sessionClamp_of_nonpos hs]
      refine iff_of_false (not_in_lifetime_of_nonpos (i32Sat_bounds d).1 hs hd) fun h => ?_
      omega
    · -- what is left replaces the seconds taken over, so they do not matter
      rw [i32Sat_of_mem (by omega) (by omega)]
      refine iff_of_true ?_ ⟨by omega, .inl hlt⟩
      by_cases hses : 0 < c.maxSession ∧ c.maxSession < d
      · rw [sessionClamp_of_lt hses.1 hses.2 (by omega)]
        have := u32Cast_of_nonneg hses.1.le (by omega)
        omega
      · rw [sessionClamp_of_not hses]
        have := u32Cast_of_nonneg (n := d) (by omega) (by omega)
        omega
  · -- the expiry is far away, and the seconds taken over must not reach beyond it
    rw [lifetimeClamp_of_le (by omega)]
    by_cases hses : 0 < c.maxSession ∧ c.maxSession < left
    · rw [sessionClamp_of_lt hses.1 hses.2 hl]
      have := u32Cast_of_nonneg hses.1.le (by omega)
      have := u32Cast_of_nonneg (n := left) (by omega) hl
      omega
    · rw [sessionClamp_of_not hses]
      omega

/-- The poll time `n` of a pass that finds no alarm: less than `poll_time` is left, or `n` itself,
or `max_session` below it, does not reach beyond the expiry. -/
def Fresh (c : Cfg) (n now : ℤ) : Prop :=
  secsToShutdown c now < c.pollTime ∨ (1 ≤ n ∧ n ≤ secsToShutdown c now) ∨
    (0 < c.maxSession ∧ c.maxSession < n ∧ c.maxSession ≤ secsToShutdown c now)

instance (c : Cfg) (n now : ℤ) : Decidable (Fresh c n now) := by
  unfold Fresh; infer_instance

/-- From the moment the old alarm is taken over to the wait. -/
def Pc.setting : Pc → Bool
  | .watch p => match p with
    | .clamp | .setJmp | .arm | .testExit | .block => true
    | _ => false
  | .errlog _ k | .sleep _ k => k.setting
  | _ => false

/-- The condition on a step: a pass takes over the old alarm before the expiry, and its own poll
time is `Fresh` if there is none; the clock does not move from there to the wait, and it does not
run ahead of an alarm. -/
def timely (c : Cfg) (s : St) : Act → Bool
  | .alarm _ _ => match s.pc with
    | .watch .takeAlarm => decide (1 ≤ secsToShutdown c s.now) &&
        (s.timer.isSome || decide (Fresh c s.myPollTime s.now))
    | _ => true
  | .elapse dw dt => (s.timer.isNone || decide (dw ≤ dt)) && (!s.pc.setting || decide (dw = 0))
  | _ => true

/-- The part of the state the alarm is computed from. -/
structure Arming where
  secsLeft : ℤ
  armed : ℕ
  now : ℤ

/-- The arming of a state. -/
def St.arming (s : St) : Arming := ⟨s.secsLeft, s.armed, s.now⟩

/-- An alarm of `v` seconds goes off, and not beyond the expiry. -/
def Guards (c : Cfg) (now : ℤ) (v : ℕ) : Prop := 1 ≤ v ∧ (v : ℤ) ≤ secsToShutdown c now

/-- The alarm at each control point before the wait. -/
def ArmAt (c : Cfg) : Pc → Arming → Prop
  | .watch p, v => match p with
    | .clamp => (-2 ^ 31 ≤ v.secsLeft ∧ v.secsLeft < 2 ^ 31) ∧ InTime c v.secsLeft v.now
    | .setJmp | .arm => Guards c v.now (u32Cast v.secsLeft)
    | .testExit | .block => Guards c v.now v.armed
    | _ => True
  | .errlog _ k, v => ArmAt c k v
  | .sleep _ k, v => ArmAt c k v
  | _, _ => True

theorem armAt_of_not_setting {p : Pc} (hp : p.setting = false) (v : Arming) : ArmAt c p v := by
  induction p with
  | watch p => cases p <;> trivial
  | errlog m k ih => exact ih hp
  | sleep n k ih => exact ih hp
  | _ => trivial

theorem not_setting_of_not_quiet {p : Pc} (hq : p.quiet ≠ true) : p.setting = false := by
  induction p with
  | watch p => cases p <;> first | rfl | exact absurd rfl hq
  | errlog m k ih => exact ih hq
  | sleep n k ih => exact ih hq
  | _ => rfl

/-- A running alarm goes off before the expiry, or at once. -/
def TimerInv (c : Cfg) (timer : Option ℕ) (now : ℤ) : Prop :=
  ∀ v, timer = some v → v < 2 ^ 32 ∧ (v : ℤ) ≤ max 0 (secsToShutdown c now)

/-- What is known about the alarm in every run. -/
structure ArmInv (c : Cfg) (s : St) : Prop where
  poll : 0 ≤ s.myPollTime ∧ s.myPollTime < 2 ^ 31
  timer : TimerInv c s.timer s.now
  atPc : ArmAt c s.pc s.arming

theorem timerInv_none (c : Cfg) (now : ℤ) : TimerInv c none now := fun _ h => by cases h

/-- Time passes: the alarm comes nearer with the expiry. -/
theorem TimerInv.elapse {timer : Option ℕ} {now dw : ℤ} {dt : ℕ} (h : TimerInv c timer now)
    (hdw : timer = none ∨ dw ≤ dt) : TimerInv c (timer.map (· - dt)) (now + dw) := by
  intro v hv
  obtain ⟨r, hr, rfl⟩ := Option.map_eq_some_iff.1 hv
  obtain ⟨hlt, hle⟩ := h r hr
  have hahead : dw ≤ dt := hdw.resolve_left fun hnone => by
    rw [hnone] at hr
    cases hr
  refine ⟨by omega, ?_⟩
  unfold secsToShutdown at hle ⊢
  omega

theorem takenSecs_bounds {n : ℤ} (old : ℕ) (h₀ : 0 ≤ n) (h : n < 2 ^ 31) :
    -2 ^ 31 ≤ takenSecs n old ∧ takenSecs n old < 2 ^ 31 := by
  unfold takenSecs
  split_ifs
  · omega
  · exact i32Wrap_bounds _

theorem u32Cast_lt (n : ℤ) : u32Cast n < 2 ^ 32 := by
  unfold u32Cast
  omega

/-- The seconds left on an alarm come through the casts. -/
theorem u32Cast_i32Wrap {n : ℕ} (h : n < 2 ^ 32) : u32Cast (i32Wrap n) = n := by
  unfold u32Cast i32Wrap
  rw [Int.bmod_def]
  split_ifs <;> omega

/-- What a pass takes over before the expiry is in time. -/
theorem inTime_takenSecs {timer : Option ℕ} {n now : ℤ} (hpoll : 0 ≤ n ∧ n < 2 ^ 31)
    (ht : TimerInv c timer now) (hd : 1 ≤ secsToShutdown c now)
    (hfresh : timer = none → Fresh c n now) : InTime c (takenSecs n (timerLeft timer)) now := by
  refine ⟨hd, ?_⟩
  cases timer with
  | none =>
    have hcast := u32Cast_of_nonneg hpoll.1 hpoll.2
    have hsecs : takenSecs n (timerLeft none) = n := rfl
    rw [hsecs]
    exact (hfresh rfl).imp id (.imp (fun hle => ⟨by omega, by omega⟩) id)
  | some v =>
    obtain ⟨hlt, hle⟩ := ht v rfl
    have hcast : u32Cast (i32Wrap (max 1 v : ℕ)) = max 1 v := u32Cast_i32Wrap (by omega)
    have hsecs : takenSecs n (timerLeft (some v)) = i32Wrap (max 1 v : ℕ) := by
      refine if_neg fun hzero => ?_
      rw [timerLeft] at hzero
      rw [hzero, u32Cast] at hcast
      simp only [Int.zero_emod, Int.toNat_zero] at hcast
      omega
    rw [hsecs, hcast]
    exact .inr (.inl ⟨by omega, by omega⟩)

theorem sshWatchStep_arming {p : WatchPc} (hL : 0 < c.maxLifetime) (hs : ArmInv c s)
    (hp : s.pc = .watch p) (hti : timely c s a = true) (h : sshWatchStep c s a p = some t) :
    ArmInv c t := by
  obtain ⟨hpoll, htimer, hat⟩ := hs
  rw [hp] at hat
  cases p with
  | enter =>
    obtain ⟨-, rfl⟩ := on_eq_some.1 h
    exact ⟨⟨by have := c.firstPollTime_pos; simp only; omega, c.firstPollTime_lt⟩, htimer, trivial⟩
  | wait =>
    simp only [sshWatchStep, Option.bind_eq_some_iff] at h
    obtain ⟨r, -, h⟩ := h
    cases r with
    | pid st =>
      simp only at h
      split_ifs at h
      cases h
      exact ⟨hpoll, htimer, trivial⟩
    | zero | err e => cases h; exact ⟨hpoll, htimer, trivial⟩
  | takeAlarm =>
    obtain ⟨rfl, rfl⟩ := on_eq_some.1 h
    simp only [timely, hp, Bool.and_eq_true, Bool.or_eq_true, decide_eq_true_eq] at hti
    have hin : InTime c (takenSecs s.myPollTime (timerLeft s.timer)) s.now :=
      inTime_takenSecs hpoll htimer hti.1 fun hnone => hti.2.resolve_left (by simp [hnone])
    refine ⟨⟨by have := c.pollTime_pos; simp only; omega, c.pollTime_lt⟩, timerInv_none c _, ?_⟩
    simp only [ArmAt, St.arming]
    exact ⟨takenSecs_bounds (timerLeft s.timer) hpoll.1 hpoll.2, hin⟩
  | clamp =>
    obtain ⟨-, rfl⟩ := on_eq_some.1 h
    obtain ⟨⟨h₀, h₁⟩, hin⟩ := hat
    obtain ⟨hv₀, hv⟩ := (alarmArg_in_lifetime_iff hL h₀ h₁).2 hin
    rw [max_eq_right hin.1] at hv
    exact ⟨hpoll, htimer, hv₀, hv⟩
  | arm =>
    obtain ⟨-, rfl⟩ := on_eq_some.1 h
    obtain ⟨hv₀, hv⟩ := hat
    have hne : u32Cast s.secsLeft ≠ 0 := Nat.pos_iff_ne_zero.1 hv₀
    refine ⟨hpoll, fun v hset => ?_, hv₀, hv⟩
    obtain rfl : u32Cast s.secsLeft = v := by simpa [hne] using hset
    exact ⟨u32Cast_lt _, le_max_of_le_right hv⟩
  | status st =>
    obtain ⟨-, rfl⟩ := on_eq_some.1 h
    refine ⟨hpoll, htimer, ?_⟩
    simp only [St.goto]
    split <;> trivial
  | testExit =>
    obtain ⟨-, rfl⟩ := on_eq_some.1 h
    refine ⟨hpoll, htimer, ?_⟩
    simp only [St.goto]
    split_ifs
    · trivial
    · exact hat
  | testRestart | waited rc | wake re | pollin re | pollhup re | alrm =>
    obtain ⟨-, rfl⟩ := on_eq_some.1 h
    refine ⟨hpoll, htimer, ?_⟩
    simp only [St.goto]
    split_ifs <;> trivial
  | asleep old =>
    simp only [sshWatchStep] at h
    split_ifs at h
    simp only [Option.bind_eq_some_iff, Option.some.injEq] at h
    obtain ⟨re, -, rfl⟩ := h
    exact ⟨hpoll, htimer, trivial⟩
  | dispatch v =>
    obtain ⟨-, rfl⟩ := on_eq_some.1 h
    exact ⟨hpoll, htimer, by cases v <;> trivial⟩
  | watchdog =>
    obtain ⟨-, rfl⟩ := on_eq_some.1 h
    refine ⟨hpoll, htimer, ?_⟩
    simp only [St.goto, watchdogNext]
    split_ifs <;> trivial
  | conn =>
    simp only [sshWatchStep] at h
    split_ifs at h
    · simp only [Option.bind_eq_some_iff, Option.some.injEq] at h
      obtain ⟨r, -, rfl⟩ := h
      exact ⟨hpoll, htimer, by cases r <;> trivial⟩
    · obtain ⟨-, rfl⟩ := on_eq_some.1 h
      exact ⟨hpoll, htimer, trivial⟩
  | _ =>
    obtain ⟨-, rfl⟩ := on_eq_some.1 h
    exact ⟨hpoll, htimer, by first | exact hat | trivial⟩

theorem checkSshStderrStep_arming {p : DrainPc} {k : DrainCont}
    (h : checkSshStderrStep s k a p = some t) : ArmAt c t.pc t.arming :=
  checkSshStderrStep_target (P := fun q => ArmAt c q t.arming) (fun _ => trivial)
    (fun _ => trivial) (fun b => by cases k <;> cases b <;> trivial)
    (fun _ => by cases k <;> trivial) h

/-- `ssh_run` only takes an alarm away. -/
theorem sshRunStep_timer {p : RunPc} (h : sshRunStep c s a p = some t) :
    t.timer = s.timer ∨ t.timer = none := by
  cases p with
  | setExit l | setHandlers l | unsetHandlers rc l =>
    cases l <;> obtain ⟨-, rfl⟩ := on_eq_some.1 h <;> exact .inl rfl
  | pipe =>
    simp only [sshRunStep, Option.bind_eq_some_iff] at h
    obtain ⟨r, -, h⟩ := h
    rcases r with - | ⟨r, w⟩ <;> cases h <;> exact .inl rfl
  | fork =>
    simp only [sshRunStep, Option.bind_eq_some_iff] at h
    obtain ⟨r, -, h⟩ := h
    split_ifs at h <;> cases h <;> exact .inl rfl
  | closeStderr rc =>
    simp only [sshRunStep] at h
    split_ifs at h <;> obtain ⟨-, rfl⟩ := on_eq_some.1 h <;> exact .inl rfl
  | clearAlarm rc =>
    obtain ⟨-, rfl⟩ := on_eq_some.1 h
    exact .inr rfl
  | _ =>
    obtain ⟨-, rfl⟩ := on_eq_some.1 h
    exact .inl rfl

theorem mainStep_arming (hL : 0 < c.maxLifetime) (hs : ArmInv c s) (hti : timely c s a = true)
    (h : mainStep c s a = some t) : ArmInv c t := by
  rcases mainStep_cases h with ⟨p, -, h⟩ | ⟨p, hp, h⟩ | ⟨p, k, hp, h⟩ | ⟨p, k, -, h⟩ |
    ⟨k, ⟨m, hp⟩ | ⟨n, hp⟩, -, rfl⟩ | ⟨-, -, rfl⟩
  · have hframe := sshRunStep_frame h
    refine ⟨hframe.myPollTime ▸ hs.poll, ?_,
      armAt_of_not_setting (not_setting_of_not_quiet (sshRunStep_not_quiet h)) _⟩
    rw [hframe.now]
    rcases sshRunStep_timer h with ht | ht <;> rw [ht]
    · exact hs.timer
    · exact timerInv_none c _
  · exact sshWatchStep_arming hL hs hp hti h
  · have hat := checkSshStderrStep_arming (c := c) h
    obtain ⟨_, _, _, rfl⟩ := checkSshStderrStep_frame h
    exact ⟨hs.poll, hs.timer, hat⟩
  · have hat := armAt_of_not_setting (c := c)
      (not_setting_of_not_quiet (sshKillStep_not_quiet h)) t.arming
    obtain ⟨_, _, _, _, rfl⟩ := sshKillStep_frame h
    exact ⟨hs.poll, hs.timer, hat⟩
  · have hat := hs.atPc
    rw [hp] at hat
    exact ⟨hs.poll, hs.timer, hat⟩
  · have hat := hs.atPc
    rw [hp] at hat
    exact ⟨hs.poll, hs.timer, hat⟩
  · exact ⟨hs.poll, hs.timer, trivial⟩

theorem sigCatchStep_arming {f : Frame} {fs : List Frame} (hs : ArmInv c s)
    (h : sigCatchStep s f fs a = some t) : ArmInv c t := by
  unfold sigCatchStep at h
  split at h
  · split_ifs at h <;> obtain ⟨-, rfl⟩ := on_eq_some.1 h
    · exact ⟨hs.poll, hs.timer, hs.atPc⟩
    · exact ⟨hs.poll, hs.timer, trivial⟩
    · exact ⟨hs.poll, hs.timer, hs.atPc⟩
    · exact ⟨hs.poll, hs.timer, hs.atPc⟩
  all_goals
    obtain ⟨-, rfl⟩ := on_eq_some.1 h
    first | exact ⟨hs.poll, hs.timer, hs.atPc⟩ | exact ⟨hs.poll, hs.timer, trivial⟩

/-- Time passes: not while the alarm is being set, and not faster than for an alarm. -/
theorem elapse_arming {dw : ℤ} {dt : ℕ} (hs : ArmInv c s)
    (hti : timely c s (.elapse dw dt) = true) (h : envStep s (.elapse dw dt) = some t) :
    ArmInv c t := by
  cases h
  simp only [timely, Bool.and_eq_true, Bool.or_eq_true, Option.isNone_iff_eq_none,
    decide_eq_true_eq, Bool.not_eq_true'] at hti
  refine ⟨hs.poll, hs.timer.elapse hti.1, ?_⟩
  rcases hti.2 with hset | rfl
  · refine armAt_of_not_setting ?_ _
    cases hp : s.pc <;> rw [hp] at hset <;> exact hset
  · have hat := hs.atPc
    simp only [St.arming, Int.add_zero]
    cases hp : s.pc <;> rw [hp] at hat <;> exact hat

theorem envStep_arming (hs : ArmInv c s) (hti : timely c s a = true) (h : envStep s a = some t) :
    ArmInv c t := by
  cases a with
  | raise g => cases h; exact ⟨hs.poll, hs.timer, hs.atPc⟩
  | deliver g =>
    obtain ⟨-, -, rfl | rfl | ⟨m, -, rfl⟩⟩ := deliver_cases h
    · exact ⟨hs.poll, hs.timer, hs.atPc⟩
    · exact ⟨hs.poll, hs.timer, trivial⟩
    · unfold pushFrame
      split
      · exact ⟨hs.poll, hs.timer, trivial⟩
      · exact ⟨hs.poll, hs.timer, hs.atPc⟩
  | childExit st =>
    simp only [envStep] at h
    split_ifs at h
    cases h
    exact ⟨hs.poll, hs.timer, hs.atPc⟩
  | elapse dw dt => exact elapse_arming hs hti h
  | timerFire =>
    simp only [envStep] at h
    split_ifs at h
    cases h
    exact ⟨hs.poll, timerInv_none c _, hs.atPc⟩
  | _ => cases h

theorem run_arming {i : Inherited} {as : List Act} (hL : 0 < c.maxLifetime)
    (hi : TimerInv c i.timer i.now)
    (h : ((supervisor c).guard fun s a => timely c s a = true).Run (.init i) as s) :
    ArmInv c s := by
  refine h.invariant ⟨⟨le_rfl, (by decide : (0 : ℤ) < 2 ^ 31)⟩, hi, trivial⟩ fun s a s' hs hn => ?_
  obtain ⟨hti, hn⟩ := Machine.guard_next.1 hn
  obtain ⟨-, he | ⟨f, fs, -, hc⟩ | ⟨-, t, hm, rfl⟩⟩ := next_cases hn
  · exact envStep_arming hs hti he
  · exact sigCatchStep_arming hs hc
  · have ht := mainStep_arming hL hs hti hm
    exact ⟨ht.poll, ht.timer, ht.atPc⟩

/-- **The alarm guards the lifetime** in a run in which every pass of `ssh_watch` is timely:
whenever it is about to wait, the alarm it has set goes off after at least one second and not beyond
the expiry. -/
theorem alarm_in_lifetime (c : Cfg) (i : Inherited) {as : List Act} {s : St}
    (hL : 0 < c.maxLifetime) (hi : TimerInv c i.timer i.now)
    (hr : ((supervisor c).guard fun s a => timely c s a = true).Run (.init i) as s)
    (hp : s.pc = .watch .block) :
    1 ≤ s.armed ∧ (s.armed : ℤ) ≤ max 1 (secsToShutdown c s.now) := by
  have hat := (run_arming hL hi hr).atPc
  rw [hp] at hat
  exact ⟨hat.1, le_max_of_le_right hat.2⟩

/-- A monitored session with a lifetime of 605 seconds. -/
def monitored : Cfg :=
  { Cfg.default with
    maxLifetime := 605, monitor := true, maxLifetime_nonneg := by decide, pollTime_le := by decide
    firstPollTime_le := by decide }

/-- The alarm goes off and `conn_test` succeeds after `d` seconds. -/
def probe (wait d : ℕ) : List Act :=
  ([.elapse wait wait, .timerFire, .deliver .alrm, .tau, .tau, .tau, .longjmp .alrm] : List Act) ++
    List.replicate 4 Act.tau ++
    ([.read 3 none, .elapse d d, .conn .up, .tau, .tau, .tau] : List Act)

theorem alarm_guards_first_wait :
    ∃ s, ((supervisor monitored).guard fun s a => timely monitored s a = true).Run (.init .clean)
        (startup 100 600).dropLast s ∧
      0 < monitored.maxLifetime ∧ s.pc = .watch .block ∧
      1 ≤ s.armed ∧ (s.armed : ℤ) ≤ max 1 (secsToShutdown monitored s.now) := by
  have hr : ((supervisor monitored).guard fun s a => timely monitored s a = true).Run
      (.init .clean) (startup 100 600).dropLast _ := rfl
  exact ⟨_, hr, by decide, rfl,
    alarm_in_lifetime monitored .clean (by decide) (timerInv_none _ _) hr rfl⟩

/-- A probe of ten seconds that begins at 600 ends after the lifetime of 605: the alarm is then
set to `-5` seconds, which the kernel takes for 4294967291. -/
theorem alarm_beyond_lifetime :
    ∃ s, (supervisor monitored).Run (.init .clean)
        (startup 100 600 ++ probe 600 10 ++ [.waitpid .sshWait 100 .zero, .tau, .alarm 0 0, .tau,
          .tau, .alarm 4294967291 0, .tau]) s ∧
      0 < monitored.maxLifetime ∧ s.pc = .watch .block ∧
      ¬ (1 ≤ s.armed ∧ (s.armed : ℤ) ≤ max 1 (secsToShutdown monitored s.now)) := by
  have hr : (supervisor monitored).Run (.init .clean)
      (startup 100 600 ++ probe 600 10 ++ [.waitpid .sshWait 100 .zero, .tau, .alarm 0 0, .tau,
        .tau, .alarm 4294967291 0, .tau]) _ := rfl
  exact ⟨_, hr, by decide, rfl, by decide⟩

end Supervisor

end Autossh
