import Autossh.Supervisor.Alarm

/-!
# When the next alarm is due

In every pass `ssh_watch` takes the seconds left on its alarm, adjusts them and sets the alarm
again, so that a wake-up that is no alarm does not put the next poll off.

* `alarmArg_le_iff` : what a pass sets is not later than what it took over exactly if the expiry of
  the lifetime is `Sooner`.  The lifetime clause compares the seconds to the expiry with `poll_time`
  and not with what is left, so it can set the alarm later;
* `scheduled` is the supervisor together with the time the next `SIGALRM` is due, and `wholeSeconds`
  a clock that moves in whole seconds and agrees with the alarm;
* `unhindered` : the expiry is sooner in each pass, no second passes while the alarm is being set,
  and `SIGALRM` is handled where it is dispatched;
* `SchedAt` says at each control point how the alarm stands to the time it is due, and
  `mainStep_sched` that the main program keeps it.
-/

namespace Autossh

namespace Supervisor

variable {c : Cfg} {s t : St} {a : Act}

/-! ### One pass -/

/-- No lifetime is set, or the expiry is at least `poll_time` away, or it is ahead and not after the
`left` seconds taken over, or `max_session` is not. -/
def Sooner (c : Cfg) (left now : ℤ) : Prop :=
  c.maxLifetime = 0 ∨ c.pollTime ≤ secsToShutdown c now ∨
    (1 ≤ secsToShutdown c now ∧
      (secsToShutdown c now ≤ left ∨ (0 < c.maxSession ∧ c.maxSession ≤ left)))

instance (c : Cfg) (left now : ℤ) : Decidable (Sooner c left now) := by
  unfold Sooner; infer_instance

theorem lifetimeClamp_of_zero {left now : ℤ} (h : c.maxLifetime = 0) :
    lifetimeClamp c left now = left := by
  unfold lifetimeClamp
  rw [if_neg fun hc => hc.1 h]

/-- The `max_session` clamp takes the smaller one of two positive numbers. -/
theorem u32Cast_sessionClamp {left : ℤ} (h₀ : 1 ≤ left) (h : left < 2 ^ 31) :
    (u32Cast (sessionClamp c left) : ℤ) =
      if 0 < c.maxSession then min left c.maxSession else left := by
  by_cases hses : 0 < c.maxSession ∧ c.maxSession < left
  · rw [sessionClamp_of_lt hses.1 hses.2 h, u32Cast_of_nonneg hses.1.le (by omega), if_pos hses.1]
    omega
  · rw [sessionClamp_of_not hses, u32Cast_of_nonneg (by omega) h]
    split_ifs <;> omega

/-- **A pass sets its alarm no later than the one it took over exactly if the expiry is sooner.** -/
theorem alarmArg_le_iff {left now : ℤ} (h₀ : 1 ≤ left) (h : left < 2 ^ 31) :
    (1 ≤ alarmArg c left now ∧ (alarmArg c left now : ℤ) ≤ left) ↔ Sooner c left now := by
  have hpoll := c.pollTime_lt
  have hlife := c.maxLifetime_nonneg
  unfold alarmArg Sooner
  by_cases hfar : c.maxLifetime = 0 ∨ c.pollTime ≤ secsToShutdown c now
  · have hclamp : lifetimeClamp c left now = left :=
      hfar.elim lifetimeClamp_of_zero lifetimeClamp_of_le
    have hv := u32Cast_sessionClamp (c := c) h₀ h
    rw [hclamp]
    refine iff_of_true ?_ (hfar.imp id .inl)
    split_ifs at hv <;> omega
  · push Not at hfar
    obtain ⟨hL, hlt⟩ := hfar
    rw [lifetimeClamp_of_lt (by omega) hlt]
    generalize secsToShutdown c now = d at hlt ⊢
    by_cases hd : 1 ≤ d
    · have hv := u32Cast_sessionClamp (c := c) hd (by omega)
      rw [i32Sat_of_mem (by omega) (by omega)]
      split_ifs at hv <;> omega
    · -- zero cancels the alarm, and a negative number is a very late one
      have hsat := i32Sat_nonpos (n := d) (by omega)
      have hlow := (i32Sat_bounds d).1
      rw [sessionClamp_of_nonpos hsat]
      refine iff_of_false (fun hv => ?_) (by omega)
      rcases hsat.lt_or_eq with hneg | hzero
      · have := u32Cast_of_neg hlow hneg
        omega
      · rw [hzero] at hv
        cases hv.1

/-! ### When the next alarm is due -/

/-- The time the next `SIGALRM` is due, after a step from `s`: the first poll of `ssh_watch` at its
start, what `alarm` sets, unless a `SIGALRM` is pending already, and nothing once one has been
dispatched. -/
def dueAfter (c : Cfg) (s : St) (a : Act) (due : Option ℤ) : Option ℤ :=
  match s.frames, s.pc with
  | [], .watch .enter => if a = .tau then some (s.now + c.firstPollTime) else due
  | [], .watch (.dispatch .alrm) => if a = .tau then none else due
  | [], .watch .arm => match a with
    | .alarm v _ =>
      if s.sg.pending .alrm = true then due else if v = 0 then none else some (s.now + v)
    | _ => due
  | _, _ => due

/-- The supervisor, and the time the next `SIGALRM` is due. -/
def scheduled (c : Cfg) : Machine (St × Option ℤ) Act where
  next x a := (next c x.1 a).map fun s => (s, dueAfter c x.1 a x.2)

/-- From the top of the loop to `alarm`. -/
def Pc.arming : Pc → Bool
  | .watch p => match p with
    | .top | .testRestart | .setjmp | .wait | .status _ | .waited _ | .takeAlarm | .clamp | .setJmp
    | .arm => true
    | _ => false
  | .drain _ k => k.isWait
  | .errlog _ k | .sleep _ k => k.arming
  | _ => false

/-- The clock moves in whole seconds, and the alarm with it, and `alarm` reports the exact seconds
remaining. -/
def wholeSeconds (s : St) : Act → Bool
  | .elapse dw dt => dw = dt ∧ ∀ r ∈ s.timer, dt ≤ r
  | .alarm _ old => old = s.timer.getD 0
  | _ => true

/-- Inside the loop, outside the wait, the way out and the branch of `SIGALRM`: a `SIGALRM` handled
here is not dispatched. -/
def Pc.deaf : Pc → Bool
  | .watch p => match p with
    | .enter | .asleep _ | .alrm | .watchdog | .conn | .dropJmp | .ret _ | .leave _ => false
    | _ => true
  | .drain _ k => match k with
    | .alrm => false
    | _ => true
  | .errlog _ k | .sleep _ k => k.deaf
  | _ => false

/-- The expiry is sooner than what a pass takes over; from the top of the loop to `alarm` no second
passes, unless an alarm is running or a `SIGALRM` is pending; and `SIGALRM` is not handled where it
is not dispatched. -/
def unhindered (c : Cfg) (s : St) : Act → Bool
  | .tau => match s.pc with
    | .watch .clamp => Sooner c s.secsLeft s.now
    | _ => true
  | .elapse _ dt =>
    !s.pc.arming || s.timer.isSome || s.sg.pending .alrm || decide (dt = 0)
  | .deliver .alrm => !s.pc.deaf
  | _ => true

/-- The part of the state the next alarm depends on. -/
structure Sched where
  now : ℤ
  timer : Option ℕ
  pending : Bool
  secsLeft : ℤ
  myPollTime : ℤ
  dolongjmp : Bool
  frames : List Frame

/-- The schedule of a state. -/
def St.sched (s : St) : Sched :=
  ⟨s.now, s.timer, s.sg.pending .alrm, s.secsLeft, s.myPollTime, s.dolongjmp, s.frames⟩

namespace Sched

/-- A `SIGALRM` is pending, or the alarm goes off by the time `D`. -/
def DueBy (v : Sched) (D : ℤ) : Prop :=
  v.pending = true ∨ ∃ r : ℕ, v.timer = some r ∧ v.now + r ≤ D

/-- The seconds are in the range of `int`. -/
structure Sound (v : Sched) : Prop where
  poll : 1 ≤ v.myPollTime ∧ v.myPollTime < 2 ^ 31
  timer : ∀ r, v.timer = some r → (r : ℤ) < 2 ^ 31

/-- The next alarm is not late. -/
def Kept (v : Sched) (due : Option ℤ) : Prop := ∀ D, due = some D → v.DueBy D

/-- The next alarm is not late, or there is none yet and `my_poll_time` is not. -/
def Before (v : Sched) (due : Option ℤ) : Prop :=
  ∀ D, due = some D → v.DueBy D ∨ (v.timer = none ∧ v.now + v.myPollTime ≤ D)

/-- The seconds to set the alarm to are not late. -/
def Taken (v : Sched) (due : Option ℤ) : Prop :=
  v.timer = none ∧ (1 ≤ v.secsLeft ∧ v.secsLeft < 2 ^ 31) ∧
    ∀ D, due = some D → v.pending = true ∨ v.now + v.secsLeft ≤ D

/-- The activation of `sig_catch` that has ended the wait is going to jump; it is one for `SIGALRM`,
or the next alarm is not late. -/
def Woken (v : Sched) (due : Option ℤ) : Prop :=
  (∀ f ∈ v.frames, f.pc ≠ .leave ∧ (f.pc = .clearJmp ∨ f.pc = .jump ∨ v.dolongjmp = true)) ∧
    ∀ D, due = some D → (∃ f ∈ v.frames, f.sig = .alrm) ∨ v.DueBy D

theorem Kept.before {v : Sched} {due : Option ℤ} (h : v.Kept due) : v.Before due :=
  fun D hD => .inl (h D hD)

end Sched

/-- `ssh_run` on its way from `ssh_watch` to `clear_alarm_timer`, or out. -/
def RunPc.leaving : RunPc → Bool
  | .clearJmp _ | .clearAlarm _ | .ret _ => true
  | _ => false

/-- The next alarm at each control point. -/
def SchedAt : Pc → Sched → Option ℤ → Prop
  | .run p, v, _ => p.leaving = true ∨ v.timer = none
  | .watch p, v, due => match p with
    | .enter => v.timer = none
    | .top | .testRestart | .setjmp | .wait | .status _ | .waited _ | .takeAlarm =>
      v.Sound ∧ v.Before due
    | .clamp | .setJmp => v.Sound ∧ v.Taken due
    | .arm => v.Sound ∧ v.Taken due ∧ v.dolongjmp = true
    | .testExit | .block | .asleep _ => v.Sound ∧ v.Kept due ∧ v.dolongjmp = true
    | .woken => v.Sound ∧ v.Woken due
    | .wake _ | .pollin _ | .pollhup _ | .closeFd | .pipeLost => v.Sound ∧ v.Kept due
    | .caught g | .dispatch g => v.Sound ∧ (g ≠ .alrm → v.Kept due)
    | .alrm | .watchdog | .conn => v.Sound ∧ due = none
    | .dropJmp | .ret _ | .leave _ => True
  | .drain _ k, v, due => match k with
    | .wait _ => v.Sound ∧ v.Before due
    | .pollin _ => v.Sound ∧ v.Kept due
    | .alrm => v.Sound ∧ due = none
  | .errlog _ k, v, due => SchedAt k v due
  | .sleep _ k, v, due => SchedAt k v due
  | _, _, _ => True

variable {due : Option ℤ}

/-! ### One step of the main program -/

/-- `ssh_run` sets no alarm. -/
theorem sshRunStep_sched {p : RunPc} (hs : SchedAt (.run p) s.sched due)
    (h : sshRunStep c s a p = some t) : SchedAt t.pc t.sched due := by
  have hnone : p.leaving = false → s.timer = none := fun hl =>
    hs.resolve_left fun hp => absurd (hl.symm.trans hp) Bool.false_ne_true
  cases p with
  | setExit l | setHandlers l =>
    cases l <;> obtain ⟨-, rfl⟩ := on_eq_some.1 h <;>
      first | exact .inr (hnone rfl) | exact hnone rfl
  | unsetHandlers rc l =>
    cases l <;> obtain ⟨-, rfl⟩ := on_eq_some.1 h <;> exact .inr (hnone rfl)
  | head | lifetime | portDelay | testExit =>
    obtain ⟨-, rfl⟩ := on_eq_some.1 h
    simp only [St.goto]
    split_ifs <;> exact .inr (hnone rfl)
  | testRc rc =>
    obtain ⟨-, rfl⟩ := on_eq_some.1 h
    exact .inr (hnone rfl)
  | grace =>
    obtain ⟨-, rfl⟩ := on_eq_some.1 h
    dsimp only
    split_ifs <;> exact .inr (hnone rfl)
  | pipe =>
    simp only [sshRunStep, Option.bind_eq_some_iff] at h
    obtain ⟨r, -, h⟩ := h
    rcases r with - | ⟨r, w⟩ <;> cases h <;> exact .inr (hnone rfl)
  | fork =>
    simp only [sshRunStep, Option.bind_eq_some_iff] at h
    obtain ⟨r, -, h⟩ := h
    split_ifs at h <;> cases h <;> exact .inr (hnone rfl)
  | closeStderr rc =>
    simp only [sshRunStep] at h
    split_ifs at h <;> obtain ⟨-, rfl⟩ := on_eq_some.1 h <;> exact .inr (hnone rfl)
  | clearJmp rc =>
    obtain ⟨-, rfl⟩ := on_eq_some.1 h
    exact .inl rfl
  | clearAlarm rc =>
    obtain ⟨-, rfl⟩ := on_eq_some.1 h
    exact .inr rfl
  | closeWr | ret rc =>
    obtain ⟨-, rfl⟩ := on_eq_some.1 h
    trivial
  | _ =>
    obtain ⟨-, rfl⟩ := on_eq_some.1 h
    exact .inr (hnone rfl)

theorem Sched.Before.taken {v : Sched} (hs : v.Sound) (hb : v.Before due)
    (hexact : timerLeft v.timer = v.timer.getD 0) (n : ℤ) :
    ({ v with
        secsLeft := takenSecs v.myPollTime (timerLeft v.timer), myPollTime := n,
        timer := none } : Sched).Taken due := by
  refine ⟨rfl, ?_⟩
  have hpoll := hs.poll
  cases ht : v.timer with
  | none =>
    -- no alarm is set, so `my_poll_time` counts
    have hsecs : takenSecs v.myPollTime (timerLeft none) = v.myPollTime := rfl
    rw [hsecs]
    refine ⟨hpoll, fun D hD => ?_⟩
    rcases hb D hD with (hp | ⟨r, hr, -⟩) | ⟨-, hle⟩
    · exact .inl hp
    · rw [ht] at hr
      cases hr
    · exact .inr hle
  | some r =>
    have hr := hs.timer r ht
    have hleft : timerLeft (some r) = r := by rw [← ht, hexact, ht]; rfl
    have hpos : (1 : ℤ) ≤ r := by
      simp only [timerLeft] at hleft
      omega
    have hsecs : takenSecs v.myPollTime (timerLeft (some r)) = r := by
      unfold takenSecs
      rw [hleft, i32Wrap_of_bounds (by omega) hr, if_neg (by omega)]
    rw [hsecs]
    refine ⟨⟨hpos, hr⟩, fun D hD => ?_⟩
    rcases hb D hD with (hp | ⟨r', hr', hle⟩) | ⟨hnone, -⟩
    · exact .inl hp
    · obtain rfl : r = r' := Option.some.inj (ht.symm.trans hr')
      exact .inr hle
    · rw [ht] at hnone
      cases hnone

theorem clamp_bounds {left : ℤ} (now : ℤ) (h₀ : -2 ^ 31 ≤ left) (h : left < 2 ^ 31) :
    -2 ^ 31 ≤ sessionClamp c (lifetimeClamp c left now) ∧
      sessionClamp c (lifetimeClamp c left now) < 2 ^ 31 := by
  unfold sessionClamp lifetimeClamp
  split_ifs <;> first | exact i32Sat_bounds _ | exact ⟨h₀, h⟩

theorem Sched.Taken.clamp {v : Sched} (ht : v.Taken due) (hsoon : Sooner c v.secsLeft v.now) :
    ({ v with
      secsLeft := sessionClamp c (lifetimeClamp c v.secsLeft v.now) } : Sched).Taken due := by
  obtain ⟨hnone, ⟨h₀, h⟩, hdue⟩ := ht
  obtain ⟨hpos, hle⟩ := (alarmArg_le_iff h₀ h).2 hsoon
  have hb := clamp_bounds (c := c) v.now (by omega) h
  unfold alarmArg at hpos hle
  generalize sessionClamp c (lifetimeClamp c v.secsLeft v.now) = x at hpos hle hb ⊢
  -- the argument of `alarm` is below 2 ^ 31, so the seconds are not negative
  have hx : 0 ≤ x := by
    by_contra hneg
    have := u32Cast_of_neg hb.1 (not_le.1 hneg)
    omega
  have hcast := u32Cast_of_nonneg hx hb.2
  refine ⟨hnone, ⟨?_, hb.2⟩, fun D hD => (hdue D hD).imp_right fun hD => ?_⟩
  · change 1 ≤ x
    omega
  · change v.now + x ≤ D
    omega

/-- The alarm that is set is the one that is due, unless one is pending. -/
theorem arm_kept (hs : s.sched.Sound) (ht : s.sched.Taken due) (q : Pc) (v : ℕ) :
    (({ s with
        timer := if u32Cast s.secsLeft = 0 then none else some (u32Cast s.secsLeft)
        armed := v, pc := q } : St).sched).Sound ∧
      (({ s with
        timer := if u32Cast s.secsLeft = 0 then none else some (u32Cast s.secsLeft)
        armed := v, pc := q } : St).sched).Kept
        (if s.sg.pending .alrm = true then due
          else if u32Cast s.secsLeft = 0 then none else some (s.now + u32Cast s.secsLeft)) := by
  obtain ⟨-, ⟨h₀, h⟩, -⟩ := ht
  have hcast : (u32Cast s.secsLeft : ℤ) = s.secsLeft :=
    u32Cast_of_nonneg (by have : 1 ≤ s.secsLeft := h₀; omega) h
  have hne : u32Cast s.secsLeft ≠ 0 := by
    have : 1 ≤ s.secsLeft := h₀
    omega
  simp only [if_neg hne]
  refine ⟨⟨hs.poll, fun r hr => ?_⟩, fun D hD => ?_⟩
  · obtain rfl := Option.some.inj hr
    rw [hcast]
    exact h
  · by_cases hp : s.sg.pending .alrm = true
    · exact .inl hp
    · rw [if_neg hp] at hD
      exact .inr ⟨_, rfl, (Option.some.inj hD).le⟩

/-- The control points at which the next alarm is rescheduled. -/
def WatchPc.schedules : WatchPc → Bool
  | .enter | .arm | .dispatch .alrm => true
  | _ => false

theorem dueAfter_of_not_schedules {p : WatchPc} (hp : s.pc = .watch p) (h : p.schedules = false) :
    dueAfter c s a due = due := by
  unfold dueAfter
  rw [hp]
  split
  · cases ‹Pc.watch p = _›
    cases h
  · cases ‹Pc.watch p = _›
    cases h
  · cases ‹Pc.watch p = _›
    cases h
  · rfl

theorem sshWatchStep_sched {p : WatchPc} (hf : s.frames = []) (hp : s.pc = .watch p)
    (hsame : p.schedules = false) (hs : SchedAt (.watch p) s.sched due)
    (hclock : wholeSeconds s a = true) (hun : unhindered c s a = true)
    (h : sshWatchStep c s a p = some t) : SchedAt t.pc t.sched due := by
  cases p with
  | enter | arm => cases hsame
  | takeAlarm =>
    obtain ⟨rfl, rfl⟩ := on_eq_some.1 h
    simp only [wholeSeconds, decide_eq_true_eq] at hclock
    obtain ⟨hsound, hbefore⟩ := hs
    have htaken := Sched.Before.taken hsound hbefore hclock c.pollTime
    dsimp only [St.sched] at htaken ⊢
    refine ⟨⟨⟨c.pollTime_pos, c.pollTime_lt⟩, fun r hr => ?_⟩, htaken⟩
    cases hr
  | clamp =>
    obtain ⟨rfl, rfl⟩ := on_eq_some.1 h
    simp only [unhindered, hp] at hun
    exact ⟨⟨hs.1.poll, hs.1.timer⟩, hs.2.clamp (of_decide_eq_true hun)⟩
  | setJmp =>
    obtain ⟨rfl, rfl⟩ := on_eq_some.1 h
    exact ⟨⟨hs.1.poll, hs.1.timer⟩, hs.2, rfl⟩
  | dispatch v =>
    obtain ⟨rfl, rfl⟩ := on_eq_some.1 h
    cases v with
    | alrm => cases hsame
    | int | term | quit | abrt => trivial
    | _ => exact ⟨hs.1, (hs.2 Sig.noConfusion).before⟩
  | wait =>
    simp only [sshWatchStep, Option.bind_eq_some_iff] at h
    obtain ⟨r, -, h⟩ := h
    cases r with
    | pid st =>
      simp only at h
      split_ifs at h
      cases h
      exact hs
    | zero | err e =>
      cases h
      exact hs
  | status st =>
    obtain ⟨-, rfl⟩ := on_eq_some.1 h
    simp only [St.goto]
    split <;> exact hs
  | testRestart | testExit =>
    obtain ⟨-, rfl⟩ := on_eq_some.1 h
    simp only [St.goto]
    split_ifs <;> first | exact hs | trivial
  | waited rc =>
    obtain ⟨-, rfl⟩ := on_eq_some.1 h
    simp only [St.goto]
    split_ifs <;> first | exact hs | trivial
  | asleep old =>
    simp only [sshWatchStep] at h
    split_ifs at h
    simp only [Option.bind_eq_some_iff, Option.some.injEq] at h
    obtain ⟨re, -, rfl⟩ := h
    exact ⟨⟨hs.1.poll, hs.1.timer⟩, hs.2.1⟩
  | woken =>
    -- the activation jumps, so the main program is not back here
    obtain ⟨-, rfl⟩ := on_eq_some.1 h
    refine ⟨hs.1, fun D hD => (hs.2.2 D hD).resolve_left ?_⟩
    rintro ⟨f, hmem, -⟩
    simp [St.sched, hf] at hmem
  | wake re =>
    obtain ⟨-, rfl⟩ := on_eq_some.1 h
    dsimp only
    split_ifs
    · exact ⟨⟨hs.1.poll, hs.1.timer⟩, hs.2⟩
    · exact ⟨⟨hs.1.poll, hs.1.timer⟩, hs.2.before⟩
  | pollin re =>
    obtain ⟨-, rfl⟩ := on_eq_some.1 h
    simp only [St.goto]
    split_ifs <;> exact hs
  | pollhup re =>
    obtain ⟨-, rfl⟩ := on_eq_some.1 h
    simp only [St.goto]
    split_ifs
    · exact hs
    · exact ⟨hs.1, hs.2.before⟩
  | pipeLost =>
    obtain ⟨-, rfl⟩ := on_eq_some.1 h
    exact ⟨hs.1, hs.2.before⟩
  | alrm =>
    obtain ⟨-, rfl⟩ := on_eq_some.1 h
    simp only [St.goto]
    split_ifs <;> first | exact hs | trivial
  | watchdog =>
    obtain ⟨-, rfl⟩ := on_eq_some.1 h
    simp only [St.goto, watchdogNext]
    split_ifs <;> first | exact hs | trivial
  | conn =>
    have htop : SchedAt (.watch .top) s.sched due := by
      refine ⟨hs.1, fun D hD => ?_⟩
      rw [hs.2] at hD
      cases hD
    simp only [sshWatchStep] at h
    split_ifs at h
    · simp only [Option.bind_eq_some_iff, Option.some.injEq] at h
      obtain ⟨r, -, rfl⟩ := h
      cases r <;> first | exact htop | trivial
    · obtain ⟨-, rfl⟩ := on_eq_some.1 h
      exact htop
  | leave rc =>
    obtain ⟨-, rfl⟩ := on_eq_some.1 h
    exact .inl rfl
  | _ =>
    obtain ⟨-, rfl⟩ := on_eq_some.1 h
    exact hs

theorem sshWatchStep_reschedule {p : WatchPc} (hf : s.frames = []) (hp : s.pc = .watch p)
    (hsched : p.schedules = true) (hs : SchedAt (.watch p) s.sched due)
    (h : sshWatchStep c s a p = some t) : SchedAt t.pc t.sched (dueAfter c s a due) := by
  cases p with
  | enter =>
    obtain ⟨rfl, rfl⟩ := on_eq_some.1 h
    have hnone : s.timer = none := hs
    have hdue : dueAfter c s .tau due = some (s.now + c.firstPollTime) := by
      simp only [dueAfter, hf, hp, if_true]
    rw [hdue]
    refine ⟨⟨⟨c.firstPollTime_pos, c.firstPollTime_lt⟩, fun r hr => ?_⟩, fun D hD => .inr ⟨hs, ?_⟩⟩
    · exact absurd (hnone.symm.trans hr) (Option.some_ne_none r).symm
    · exact (Option.some.inj hD).le
  | arm =>
    obtain ⟨rfl, rfl⟩ := on_eq_some.1 h
    obtain ⟨hsound, hkept⟩ := arm_kept hs.1 hs.2.1 (.watch .testExit) (u32Cast s.secsLeft)
    refine ⟨hsound, ?_, hs.2.2⟩
    simp only [dueAfter, hf, hp]
    exact hkept
  | dispatch v =>
    obtain ⟨rfl, rfl⟩ := on_eq_some.1 h
    cases v with
    | alrm =>
      have hdue : dueAfter c s .tau due = none := by simp only [dueAfter, hf, hp, if_true]
      exact ⟨hs.1, hdue⟩
    | _ => cases hsched
  | _ => cases hsched

theorem DrainCont.resume_sched {p : DrainPc} {k : DrainCont} {v : Sched} (b : Bool)
    (hs : SchedAt (.drain p k) v due) : SchedAt (k.resume b) v due := by
  cases k with
  | wait st => exact hs
  | pollin re => cases b <;> first | exact hs | trivial
  | alrm => cases b <;> first | exact hs | trivial

theorem checkSshStderrStep_sched {p : DrainPc} {k : DrainCont}
    (hs : SchedAt (.drain p k) s.sched due) (h : checkSshStderrStep s k a p = some t) :
    SchedAt t.pc t.sched due := by
  have ht : SchedAt t.pc s.sched due :=
    checkSshStderrStep_target (P := fun q => SchedAt q s.sched due) (fun _ => hs) (fun _ => hs)
      (fun b => DrainCont.resume_sched b hs) (fun _ => DrainCont.resume_sched true hs) h
  obtain ⟨_, _, _, rfl⟩ := checkSshStderrStep_frame h
  exact ht

theorem sshKillStep_sched {p : KillPc} {k : KillCont} (h : sshKillStep s k a p = some t) :
    SchedAt t.pc t.sched due :=
  sshKillStep_target (P := fun q => SchedAt q t.sched due) (fun _ => trivial) (fun _ _ => trivial)
    (fun _ _ => trivial) (by cases k <;> trivial) h

theorem dueAfter_of_not_watch (h : ∀ p, s.pc ≠ .watch p) : dueAfter c s a due = due := by
  unfold dueAfter
  split
  · exact absurd ‹s.pc = _› (h _)
  · exact absurd ‹s.pc = _› (h _)
  · exact absurd ‹s.pc = _› (h _)
  · rfl

theorem mainStep_sched (hf : s.frames = []) (hs : SchedAt s.pc s.sched due)
    (hclock : wholeSeconds s a = true) (hun : unhindered c s a = true)
    (h : mainStep c s a = some t) : SchedAt t.pc t.sched (dueAfter c s a due) := by
  rcases mainStep_cases h with ⟨p, hp, h⟩ | ⟨p, hp, h⟩ | ⟨p, k, hp, h⟩ | ⟨p, k, hp, h⟩ |
    ⟨k, ⟨m, hp⟩ | ⟨n, hp⟩, rfl, rfl⟩ | ⟨hp, rfl, rfl⟩
  · rw [dueAfter_of_not_watch (by simp [hp])]
    exact sshRunStep_sched (hp ▸ hs) h
  · by_cases hsched : p.schedules = true
    · exact sshWatchStep_reschedule hf hp hsched (hp ▸ hs) h
    · rw [Bool.not_eq_true] at hsched
      rw [dueAfter_of_not_schedules hp hsched]
      exact sshWatchStep_sched hf hp hsched (hp ▸ hs) hclock hun h
  · rw [dueAfter_of_not_watch (by simp [hp])]
    exact checkSshStderrStep_sched (hp ▸ hs) h
  · exact sshKillStep_sched h
  · rw [dueAfter_of_not_watch (by simp [hp])]
    rw [hp] at hs
    exact hs
  · rw [dueAfter_of_not_watch (by simp [hp])]
    rw [hp] at hs
    exact hs
  · trivial

end Supervisor

end Autossh
