import Autossh.Supervisor.Schedule

/-!
# Re-arming the alarm

The alarm goes off while the main program does nothing, and time passes.  `Passes` says what that
does to the schedule, and `SchedAt.passes` that it stays right; a signal that ends the wait jumps
(`sigCatchStep_woken`), so that a `SIGALRM` handled there is dispatched.

* `rearm_not_later` : **in a run in which the expiry is always sooner and `SIGALRM` is handled in
  the wait, no pass puts the alarm off.**
* `rearm_later_with_lifetime` : with a maximum lifetime set, the child only has to write something.
-/

namespace Autossh

namespace Supervisor

variable {c : Cfg} {s t : St} {a : Act} {due : Option ℤ}

/-! ### The handler and the environment -/

/-- Inside the wait. -/
def Pc.inWait : Pc → Bool
  | .watch (.asleep _) | .watch .woken => true
  | .errlog _ k | .sleep _ k => k.inWait
  | _ => false

/-- What may happen to the schedule while the main program does nothing: time passes, and the alarm
goes off.  Only inside the loop does the main program rely on the pending `SIGALRM`. -/
structure Passes (p : Pc) (v v' : Sched) : Prop where
  due : p.deaf = true ∨ p.inWait = true → ∀ D, v.DueBy D → v'.DueBy D
  pending : p.deaf = true ∨ p.inWait = true → v.pending = true → v'.pending = true
  timer : ∀ r', v'.timer = some r' → ∃ r, v.timer = some r ∧ r' ≤ r
  still : p.arming = true → v.timer = none → v.pending = true ∨ v'.now = v.now
  secsLeft : v'.secsLeft = v.secsLeft
  myPollTime : v'.myPollTime = v.myPollTime
  dolongjmp : v'.dolongjmp = v.dolongjmp
  frames : p.inWait = true → v'.frames = v.frames

namespace Passes

variable {p : Pc} {v v' : Sched}

theorem timer_none (h : Passes p v v') (hnone : v.timer = none) : v'.timer = none := by
  cases hr : v'.timer with
  | none => rfl
  | some r' =>
    obtain ⟨r, hr, -⟩ := h.timer r' hr
    exact absurd (hnone.symm.trans hr) (Option.some_ne_none r).symm

theorem sound (h : Passes p v v') (hs : v.Sound) : v'.Sound := by
  refine ⟨h.myPollTime ▸ hs.poll, fun r' hr' => ?_⟩
  obtain ⟨r, hr, hle⟩ := h.timer r' hr'
  have := hs.timer r hr
  omega

theorem kept (h : Passes p v v') (hp : p.deaf = true ∨ p.inWait = true) (hk : v.Kept due) :
    v'.Kept due :=
  fun D hD => h.due hp D (hk D hD)

theorem before (h : Passes p v v') (hp : p.deaf = true) (harm : p.arming = true)
    (hb : v.Before due) : v'.Before due := by
  intro D hD
  rcases hb D hD with hdue | ⟨hnone, hle⟩
  · exact .inl (h.due (.inl hp) D hdue)
  · rcases h.still harm hnone with hpend | hnow
    · exact .inl (.inl (h.pending (.inl hp) hpend))
    · exact .inr ⟨h.timer_none hnone, by rw [hnow, h.myPollTime]; exact hle⟩

theorem taken (h : Passes p v v') (hp : p.deaf = true) (harm : p.arming = true)
    (ht : v.Taken due) : v'.Taken due := by
  obtain ⟨hnone, hsecs, hdue⟩ := ht
  refine ⟨h.timer_none hnone, h.secsLeft ▸ hsecs, fun D hD => ?_⟩
  rcases hdue D hD with hpend | hle
  · exact .inl (h.pending (.inl hp) hpend)
  · rcases h.still harm hnone with hpend | hnow
    · exact .inl (h.pending (.inl hp) hpend)
    · exact .inr (by rw [hnow, h.secsLeft]; exact hle)

theorem woken (h : Passes p v v') (hp : p.inWait = true) (hw : v.Woken due) : v'.Woken due := by
  obtain ⟨hjump, hdue⟩ := hw
  refine ⟨fun f hf => ?_, fun D hD => ?_⟩
  · rw [h.frames hp] at hf
    rw [h.dolongjmp]
    exact hjump f hf
  · rw [h.frames hp]
    exact (hdue D hD).imp_right (h.due (.inr hp) D)

end Passes

theorem SchedAt.passes {p : Pc} {v v' : Sched} (hs : SchedAt p v due) (h : Passes p v v') :
    SchedAt p v' due := by
  induction p with
  | run p => exact hs.imp_right h.timer_none
  | watch p =>
    cases p with
    | enter => exact h.timer_none hs
    | top | testRestart | setjmp | wait | status _ | waited _ | takeAlarm =>
      exact ⟨h.sound hs.1, h.before rfl rfl hs.2⟩
    | clamp | setJmp => exact ⟨h.sound hs.1, h.taken rfl rfl hs.2⟩
    | arm => exact ⟨h.sound hs.1, h.taken rfl rfl hs.2.1, h.dolongjmp ▸ hs.2.2⟩
    | testExit | block => exact ⟨h.sound hs.1, h.kept (.inl rfl) hs.2.1, h.dolongjmp ▸ hs.2.2⟩
    | asleep old => exact ⟨h.sound hs.1, h.kept (.inr rfl) hs.2.1, h.dolongjmp ▸ hs.2.2⟩
    | woken => exact ⟨h.sound hs.1, h.woken rfl hs.2⟩
    | wake _ | pollin _ | pollhup _ | closeFd | pipeLost =>
      exact ⟨h.sound hs.1, h.kept (.inl rfl) hs.2⟩
    | caught g | dispatch g => exact ⟨h.sound hs.1, fun hg => h.kept (.inl rfl) (hs.2 hg)⟩
    | alrm | watchdog | conn => exact ⟨h.sound hs.1, hs.2⟩
    | dropJmp | ret rc | leave rc => trivial
  | drain p k =>
    cases k with
    | wait st => exact ⟨h.sound hs.1, h.before rfl rfl hs.2⟩
    | pollin re => exact ⟨h.sound hs.1, h.kept (.inl rfl) hs.2⟩
    | alrm => exact ⟨h.sound hs.1, hs.2⟩
  | errlog m k ih | sleep n k ih =>
    exact ih hs
      ⟨h.due, h.pending, h.timer, h.still, h.secsLeft, h.myPollTime, h.dolongjmp, h.frames⟩
  | _ => trivial

theorem SigAt.not_inWait {p : Pc} {v : View} (h : SigAt p v) (hout : p.outside = true) :
    p.inWait = false := by
  induction p with
  | watch p => cases p <;> first | rfl | cases hout
  | errlog m k ih | sleep n k ih => exact ih h.2 h.1
  | _ => rfl

theorem SigAt.installed {p : Pc} {v : View} (h : SigAt p v)
    (hp : p.deaf = true ∨ p.inWait = true) : Installed v := by
  induction p with
  | watch p =>
    cases p with
    | enter | caught _ => exact h.1
    | _ => exact h.1.installed
  | drain p k => exact h.1.installed
  | errlog m k ih | sleep n k ih => exact ih h.2 hp
  | _ => rcases hp with hp | hp <;> cases hp

/-- A step that leaves the alarm and the clock alone and takes no `SIGALRM`. -/
theorem Passes.of_pending {p : Pc} {v v' : Sched} (hpend : v.pending = true → v'.pending = true)
    (hnow : v'.now = v.now) (htimer : v'.timer = v.timer) (hsecs : v'.secsLeft = v.secsLeft)
    (hpoll : v'.myPollTime = v.myPollTime) (hjmp : v'.dolongjmp = v.dolongjmp)
    (hframes : p.inWait = true → v'.frames = v.frames) : Passes p v v' where
  due _ D h := by
    unfold Sched.DueBy at h ⊢
    rw [htimer, hnow]
    exact h.imp_left hpend
  pending _ := hpend
  timer r' hr' := ⟨r', htimer ▸ hr', le_rfl⟩
  still _ _ := .inr hnow
  secsLeft := hsecs
  myPollTime := hpoll
  dolongjmp := hjmp
  frames := hframes

/-- A whole number of seconds passes. -/
theorem passes_elapse {dw : ℤ} {dt : ℕ} (hclock : wholeSeconds s (.elapse dw dt) = true)
    (hun : unhindered c s (.elapse dw dt) = true) :
    Passes s.pc s.sched
      ({ s with
        now := s.now + dw, timer := s.timer.map (· - dt), pc := s.pc.elapse dt } : St).sched := by
  simp only [wholeSeconds, Bool.decide_and, Bool.and_eq_true, decide_eq_true_eq] at hclock
  obtain ⟨rfl, hle⟩ := hclock
  simp only [unhindered, Bool.or_eq_true, Bool.not_eq_true', decide_eq_true_eq, or_assoc] at hun
  refine ⟨fun _ D h => h.imp_right ?_, fun _ h => h, fun r' hr' => ?_, fun harm hnone => ?_,
    rfl, rfl, rfl, fun _ => rfl⟩
  · rintro ⟨r, hr, hD⟩
    have hr : s.timer = some r := hr
    have := hle r hr
    refine ⟨r - dt, by simp [St.sched, hr], ?_⟩
    simp only [St.sched] at hD ⊢
    omega
  · simp only [St.sched, Option.map_eq_some_iff] at hr'
    obtain ⟨r, hr, rfl⟩ := hr'
    exact ⟨r, hr, Nat.sub_le r dt⟩
  · rcases hun with hno | hsome | hpend | rfl
    · exact absurd (hno.symm.trans harm) Bool.false_ne_true
    · rw [show s.timer = none from hnone] at hsome
      cases hsome
    · exact .inl hpend
    · exact .inr (by simp [St.sched])

/-- The alarm goes off: inside the loop `SIGALRM` has its handler, so it becomes pending. -/
theorem passes_timerFire (hi : SigInv s) :
    Passes s.pc s.sched ({ s with timer := none, sg := s.sg.raise .alrm } : St).sched := by
  have hpend : s.pc.deaf = true ∨ s.pc.inWait = true → (s.sg.raise .alrm).pending .alrm = true := by
    intro hp
    have hdisp : s.sg.disp .alrm = .catch actMask := hi.atPc.installed hp .alrm rfl
    simp [SigState.raise, hdisp, Disp.ignores]
  refine ⟨fun hp D _ => .inl (hpend hp), fun hp _ => hpend hp, fun r' hr' => ?_,
    fun _ _ => .inr rfl, rfl, rfl, rfl, fun _ => rfl⟩
  cases hr'

/-- Outside the wait, handlers come and go, and a `SIGALRM` is taken only where nothing relies on
it. -/
theorem SchedAt.outside {p : Pc} {v : Sched} {w : View} (hs : SchedAt p v due) (hsig : SigAt p w)
    (hout : p.outside = true) (fs : List Frame) {b : Bool} (hb : b = v.pending ∨ p.deaf = false) :
    SchedAt p { v with frames := fs, pending := b } due := by
  have hwait := hsig.not_inWait hout
  have hnot : p.inWait ≠ true := fun h => absurd (hwait.symm.trans h) Bool.false_ne_true
  rcases hb with rfl | hdeaf
  · exact hs.passes (.of_pending id rfl rfl rfl rfl rfl fun h => absurd h hnot)
  · have hno : ¬ (p.deaf = true ∨ p.inWait = true) := fun h =>
      h.elim (fun h => absurd (hdeaf.symm.trans h) Bool.false_ne_true) hnot
    exact hs.passes ⟨fun h => absurd h hno, fun h => absurd h hno, fun r hr => ⟨r, hr, le_rfl⟩,
      fun _ _ => .inr rfl, rfl, rfl, rfl, fun h => absurd h hnot⟩

theorem outside_of_ne {p : Pc} (hasleep : ∀ old, p ≠ .watch (.asleep old))
    (hwoken : p ≠ .watch .woken) : p.outside = true := by
  unfold Pc.outside
  split
  · exact absurd rfl (hasleep _)
  · exact absurd rfl hwoken
  · rfl

/-- A signal ends the wait. -/
theorem wakes_sched {g : Sig} {m old : SigSet} (hs : SchedAt (.watch (.asleep old)) s.sched due) :
    SchedAt (.watch .woken)
      ({ s with
        pc := .watch .woken, frames := [⟨g, old, .enter⟩], sg := s.sg.enter g m
        interrupted := true } : St).sched due := by
  obtain ⟨hsound, hkept, hjmp⟩ := hs
  refine ⟨⟨hsound.poll, hsound.timer⟩, fun f hf => ?_, fun D hD => ?_⟩
  · obtain rfl := List.mem_singleton.1 hf
    exact ⟨HandlerPc.noConfusion, .inr (.inr hjmp)⟩
  · by_cases hg : g = .alrm
    · exact .inl ⟨_, List.mem_singleton.2 rfl, hg⟩
    · refine .inr ((hkept D hD).imp_left fun hpend => ?_)
      exact (SigState.take_pending_of_ne (Ne.symm hg)).trans hpend

/-- A signal that has its handler is not discarded. -/
theorem deliver_of_catch {g : Sig} {m : SigSet} (hd : s.sg.disp g = .catch m)
    (h : deliver s g = some t) : t = pushFrame s g m := by
  simp only [deliver, hd] at h
  split_ifs at h
  exact (Option.some.inj h).symm

theorem deliver_sched {g : Sig} (hi : SigInv s) (hs : SchedAt s.pc s.sched due)
    (hdeaf : g = .alrm → s.pc.deaf = false) (h : deliver s g = some t) :
    SchedAt t.pc t.sched due := by
  have hat := hi.atPc
  obtain ⟨-, hmask, ht⟩ := deliver_cases h
  by_cases hasleep : ∃ old, s.pc = .watch (.asleep old)
  · obtain ⟨old, hp⟩ := hasleep
    rw [hp] at hat hs
    have hnil : s.frames = [] := hat.2.1
    by_cases hg : blockmask g = true
    · -- the handler is installed
      rw [deliver_of_catch (hat.1.installed g hg) h]
      simp only [pushFrame, hnil, hp]
      exact wakes_sched hs
    · obtain rfl | rfl | ⟨m, hd, -⟩ := ht
      · rw [hp]
        refine hs.passes (.of_pending (fun hpend => ?_) rfl rfl rfl rfl rfl fun _ => rfl)
        have hne : Sig.alrm ≠ g := by rintro rfl; exact hg rfl
        exact (SigState.take_pending_of_ne hne).trans hpend
      · trivial
      · exact absurd (hi.catchOnly g m hd) hg
  · push Not at hasleep
    have hwoken : blockmask g = true → s.pc ≠ .watch .woken := fun hg hp => by
      rw [hp] at hat
      exact absurd (hmask.symm.trans (hat.2.2.2 g hg)) Bool.false_ne_true
    -- what the delivery takes out of the pending signals
    have htake : (s.sg.take g).pending .alrm = s.sg.pending .alrm ∨ s.pc.deaf = false := by
      by_cases hg : g = .alrm
      · exact .inr (hdeaf hg)
      · exact .inl (SigState.take_pending_of_ne (Ne.symm hg))
    obtain rfl | rfl | ⟨m, hd, rfl⟩ := ht
    · by_cases hg : g = .alrm
      · exact hs.outside hat (outside_of_ne hasleep (hwoken (hg ▸ rfl))) s.frames htake
      · refine hs.passes (.of_pending (fun hpend => ?_) rfl rfl rfl rfl rfl fun _ => rfl)
        exact (SigState.take_pending_of_ne (Ne.symm hg)).trans hpend
    · trivial
    · have hout := outside_of_ne hasleep (hwoken (hi.catchOnly g m hd))
      unfold pushFrame
      split
      · exact absurd ‹s.pc = _› (hasleep _)
      · exact hs.outside hat hout _ htake

theorem envStep_sched (hi : SigInv s) (hs : SchedAt s.pc s.sched due)
    (hclock : wholeSeconds s a = true) (hun : unhindered c s a = true) (h : envStep s a = some t) :
    SchedAt t.pc t.sched due := by
  cases a with
  | raise g =>
    cases h
    exact hs.passes (.of_pending SigState.raise_pending_mono rfl rfl rfl rfl rfl fun _ => rfl)
  | deliver g =>
    refine deliver_sched hi hs (fun hg => ?_) h
    subst hg
    simpa only [unhindered, Bool.not_eq_true'] using hun
  | childExit st =>
    simp only [envStep] at h
    split_ifs at h
    cases h
    exact hs.passes (.of_pending SigState.raise_pending_mono rfl rfl rfl rfl rfl fun _ => rfl)
  | elapse dw dt =>
    cases h
    have hs' := hs.passes (passes_elapse hclock hun)
    cases hp : s.pc <;> rw [hp] at hs' <;> exact hs'
  | timerFire =>
    simp only [envStep] at h
    split_ifs at h
    cases h
    exact hs.passes (passes_timerFire hi)
  | _ => cases h

/-- The activation that has ended the wait makes a step towards its jump. -/
theorem Sched.Woken.advance {v : Sched} {f : Frame} (h : v.Woken due) (hf : v.frames = [f])
    {q : HandlerPc} {b : Bool} (hq : q ≠ .leave) (hb : q = .clearJmp ∨ q = .jump ∨ b = true) :
    ({ v with frames := [{ f with pc := q }], dolongjmp := b } : Sched).Woken due := by
  refine ⟨fun f' hf' => ?_, fun D hD => (h.2 D hD).imp_left ?_⟩
  · obtain rfl := List.mem_singleton.1 hf'
    exact ⟨hq, hb⟩
  · rintro ⟨f', hf', hsig⟩
    rw [hf] at hf'
    obtain rfl := List.mem_singleton.1 hf'
    exact ⟨_, List.mem_singleton.2 rfl, hsig⟩

theorem sigCatchStep_woken {f : Frame} (hf : s.frames = [f])
    (hs : SchedAt (.watch .woken) s.sched due) (hp : s.pc = .watch .woken)
    (h : sigCatchStep s f [] a = some t) : SchedAt t.pc t.sched due := by
  obtain ⟨⟨hpoll, htimer⟩, hw⟩ := hs
  obtain ⟨hleave, hjmp⟩ := hw.1 f (by simp [St.sched, hf])
  change f.pc = .clearJmp ∨ f.pc = .jump ∨ s.dolongjmp = true at hjmp
  unfold sigCatchStep at h
  split at h <;> rename_i hfp
  · have hset : s.dolongjmp = true := by simpa [hfp] using hjmp
    split_ifs at h <;> obtain ⟨-, rfl⟩ := on_eq_some.1 h
    · rw [hp]
      exact ⟨⟨hpoll, htimer⟩, hw.advance hf HandlerPc.noConfusion (.inr (.inr hset))⟩
    · trivial
    · rw [hp]
      exact ⟨⟨hpoll, htimer⟩, hw.advance hf HandlerPc.noConfusion (.inr (.inr hset))⟩
    · rw [hp]
      exact ⟨⟨hpoll, htimer⟩, hw.advance hf HandlerPc.noConfusion (.inr (.inr hset))⟩
  · obtain ⟨-, rfl⟩ := on_eq_some.1 h
    have hset : s.dolongjmp = true := by simpa [hfp] using hjmp
    rw [hp]
    exact ⟨⟨hpoll, htimer⟩, hw.advance hf HandlerPc.noConfusion (.inr (.inr hset))⟩
  · obtain ⟨-, rfl⟩ := on_eq_some.1 h
    have hset : s.dolongjmp = true := by simpa [hfp] using hjmp
    rw [hp]
    simp only [hset, if_true]
    exact ⟨⟨hpoll, htimer⟩, hw.advance hf HandlerPc.noConfusion (.inl rfl)⟩
  · obtain ⟨-, rfl⟩ := on_eq_some.1 h
    rw [hp]
    exact ⟨⟨hpoll, htimer⟩, hw.advance hf HandlerPc.noConfusion (.inr (.inl rfl))⟩
  · -- the jump: any other signal has left the next alarm alone
    obtain ⟨-, rfl⟩ := on_eq_some.1 h
    refine ⟨⟨hpoll, htimer⟩, fun hsig D hD => (hw.2 D hD).resolve_left ?_⟩
    rintro ⟨f', hf', hsig'⟩
    obtain rfl : f' = f := by simpa [St.sched, hf] using hf'
    exact hsig hsig'
  · exact absurd hfp hleave

theorem sigCatchStep_sched {f : Frame} {fs : List Frame} (hi : SigInv s) (hf : s.frames = f :: fs)
    (hs : SchedAt s.pc s.sched due) (h : sigCatchStep s f fs a = some t) :
    SchedAt t.pc t.sched due := by
  have hat := hi.atPc
  by_cases hp : s.pc = .watch .woken
  · rw [hp] at hat hs
    obtain rfl : fs = [] := by
      have hlen := hat.2.2.1
      simpa [St.view, hf] using hlen
    exact sigCatchStep_woken hf hs hp h
  · have hasleep : ∀ old, s.pc ≠ .watch (.asleep old) := fun old hp => by
      rw [hp] at hat
      exact absurd (hf.symm.trans hat.2.1) (List.cons_ne_nil f fs)
    have hjump : ¬ (f.pc = .clearJmp ∨ f.pc = .jump) := fun hj =>
      hp (hi.jumping f (hf ▸ List.mem_cons_self) hj)
    have hstay := fun fs' => hs.outside hat (outside_of_ne hasleep hp) fs' (.inl rfl)
    unfold sigCatchStep at h
    split at h <;> rename_i hfp
    · split_ifs at h <;> obtain ⟨-, rfl⟩ := on_eq_some.1 h <;> first | exact hstay _ | trivial
    · obtain ⟨-, rfl⟩ := on_eq_some.1 h
      exact hstay _
    · obtain ⟨-, rfl⟩ := on_eq_some.1 h
      exact hstay _
    · exact absurd (.inl hfp) hjump
    · exact absurd (.inr hfp) hjump
    · obtain ⟨-, rfl⟩ := on_eq_some.1 h
      exact hstay _

/-! ### Runs -/

theorem scheduled_next {x y : St × Option ℤ} :
    (scheduled c).next x a = some y ↔ next c x.1 a = some y.1 ∧ y.2 = dueAfter c x.1 a x.2 := by
  obtain ⟨t, due'⟩ := y
  simp only [scheduled, Option.map_eq_some_iff, Prod.mk.injEq]
  constructor
  · rintro ⟨t, ht, rfl, rfl⟩
    exact ⟨ht, rfl⟩
  · rintro ⟨ht, rfl⟩
    exact ⟨t, ht, rfl, rfl⟩

/-- The runs with the time of the next alarm are runs of the supervisor. -/
theorem scheduled_simulates :
    (scheduled c).Simulates (supervisor c) (fun _ => True) Prod.fst fun _ a => some a :=
  fun _ _ _ _ h => ⟨trivial, (scheduled_next.1 h).1⟩

theorem dueAfter_of_env (ha : a.isEnv = true) : dueAfter c s a due = due := by
  have htau : a ≠ .tau := by rintro rfl; cases ha
  unfold dueAfter
  split
  · exact if_neg htau
  · exact if_neg htau
  · cases a <;> first | rfl | cases ha
  · rfl

theorem dueAfter_of_frames {f : Frame} {fs : List Frame} (hf : s.frames = f :: fs) :
    dueAfter c s a due = due := by
  simp only [dueAfter, hf]

theorem next_sched (hi : SigInv s) (hs : SchedAt s.pc s.sched due)
    (hclock : wholeSeconds s a = true) (hun : unhindered c s a = true) (h : next c s a = some t) :
    SchedAt t.pc t.sched (dueAfter c s a due) := by
  obtain ⟨-, he | ⟨f, fs, hf, hc⟩ | ⟨hf, u, hm, rfl⟩⟩ := next_cases h
  · rw [dueAfter_of_env (envStep_act he)]
    exact envStep_sched hi hs hclock hun he
  · rw [dueAfter_of_frames hf]
    exact sigCatchStep_sched hi hf hs hc
  · have ht := mainStep_sched hf hs hclock hun hm
    exact ht

/-- The runs the results are about: the clock agrees with the alarm, and nothing hinders it. -/
def onSchedule (c : Cfg) (x : St × Option ℤ) (a : Act) : Prop :=
  wholeSeconds x.1 a = true ∧ unhindered c x.1 a = true

instance (c : Cfg) (x : St × Option ℤ) (a : Act) : Decidable (onSchedule c x a) := by
  unfold onSchedule; infer_instance

theorem run_sched {i : Inherited} {as : List Act} (hclean : i.timer = none)
    (hr : ((scheduled c).guard (onSchedule c)).Run (.init i, none) as (s, due)) :
    SchedAt s.pc s.sched due := by
  have hinit : SchedAt (St.init i).pc (St.init i).sched none := Or.inr hclean
  refine (hr.invariant (I := fun x => SigInv x.1 ∧ SchedAt x.1.pc x.1.sched x.2)
    ⟨init_sigInv i, hinit⟩ fun x a y hx h => ?_).2
  obtain ⟨⟨hclock, hun⟩, hn⟩ := Machine.guard_next.1 h
  obtain ⟨hn, hdue⟩ := scheduled_next.1 hn
  exact ⟨next_sigInv hx.1 hn, hdue ▸ next_sched hx.1 hx.2 hclock hun hn⟩

/-- **No pass puts the alarm off** in a run in which nothing hinders it: when `ssh_watch` is about
to call `alarm`, a `SIGALRM` is pending, or the alarm is set and goes off no later than the one
that is due. -/
theorem rearm_not_later (c : Cfg) (i : Inherited) {as : List Act} {s : St} {D : ℤ}
    (hclean : i.timer = none)
    (hr : ((scheduled c).guard (onSchedule c)).Run (.init i, none) as (s, some D))
    (hp : s.pc = .watch .arm) :
    s.sg.pending .alrm = true ∨
      (1 ≤ u32Cast s.secsLeft ∧ s.now + u32Cast s.secsLeft ≤ D) := by
  have hat := run_sched hclean hr
  rw [hp] at hat
  obtain ⟨-, ⟨-, ⟨h₀, h⟩, hdue⟩, -⟩ := hat
  change 1 ≤ s.secsLeft at h₀
  have hcast : (u32Cast s.secsLeft : ℤ) = s.secsLeft := u32Cast_of_nonneg (by omega) h
  refine (hdue D rfl).imp_right fun hle => ⟨by omega, ?_⟩
  rw [hcast]
  exact hle

/-- After 500 seconds the child writes something, and `ssh_watch` comes to setting its alarm again.
-/
def stirred : List Act :=
  ([.elapse 500 500, .poll ⟨true, false, false⟩, .tau, .tau, .read 3 (some [72, 105]),
    .read 3 none] : List Act) ++ List.replicate 4 Act.tau ++
    ([.waitpid .sshWait 100 .zero, .tau, .alarm 0 100, .tau, .tau] : List Act)

set_option maxRecDepth 4000 in
theorem rearm_not_later_stirred :
    ∃ s, ((scheduled .default).guard (onSchedule .default)).Run (.init .clean, none)
        (startup 100 600 ++ stirred) (s, some 600) ∧
      s.pc = .watch .arm ∧
      (s.sg.pending .alrm = true ∨
        (1 ≤ u32Cast s.secsLeft ∧ s.now + u32Cast s.secsLeft ≤ 600)) := by
  have hr : ((scheduled .default).guard (onSchedule .default)).Run (.init .clean, none)
      (startup 100 600 ++ stirred) (_, some 600) := rfl
  exact ⟨_, hr, rfl, rearm_not_later .default .clean rfl hr rfl⟩

/-- A lifetime of 1000 seconds. -/
def mortal : Cfg :=
  { Cfg.default with
    maxLifetime := 1000, maxLifetime_nonneg := by decide, pollTime_le := by decide
    firstPollTime_le := by decide }

set_option maxRecDepth 4000 in
/-- The poll is due at 600.  What the child writes at 500 makes `ssh_watch` set its alarm to the
expiry, 500 seconds away. -/
theorem rearm_later_with_lifetime :
    ∃ s, ((scheduled mortal).guard fun x a => wholeSeconds x.1 a = true).Run (.init .clean, none)
        (startup 100 600 ++ stirred) (s, some 600) ∧
      s.pc = .watch .arm ∧ s.sg.pending .alrm = false ∧ s.now + u32Cast s.secsLeft = 1000 := by
  have hr : ((scheduled mortal).guard fun x a => wholeSeconds x.1 a = true).Run (.init .clean, none)
      (startup 100 600 ++ stirred) (_, some 600) := rfl
  exact ⟨_, hr, rfl, rfl, rfl⟩

end Supervisor

end Autossh
