import Autossh.Supervisor.Run

/-!
# The signal protocol of the supervisor

`ssh_watch` blocks the signals `sig_catch` handles, sets `dolongjmp`, and lets `ppoll` or
`sigsuspend` unblock them atomically.  What makes this work is an invariant that ties the
control point, the handler activations, the mask and `dolongjmp` together (`SigInv`):

* `dolongjmp` is set only between the assignment `dolongjmp = 1` and the end of the wait;
* at those control points, the wait itself excepted, no activation of `sig_catch` exists and
  none can start, because every signal with a handler is blocked (`Quiet`);
* a signal that ends the wait starts exactly one activation, which blocks all the others.

It is stated by control point (`SigAt`): the assertion at a call of `errlog!` or `sleep` is the
one of the point that follows.

This module states the invariant and shows that the main program keeps it
(`mainStep_sigInv`).
-/

namespace Autossh

namespace Supervisor

/-- The part of the state the signal protocol is about. -/
structure View where
  sg : SigState
  frames : List Frame
  savedmask : SigSet
  entryMask : SigSet

/-- The view of a state. -/
def St.view (s : St) : View := ⟨s.sg, s.frames, s.savedmask, s.entryMask⟩

/-- The mask of the main program: the one in force once every activation of `sig_catch` has
returned. -/
def View.baseMask (v : View) : SigSet := v.frames.foldl (fun _ f => f.saved) v.sg.mask

/-- `set_sig_handlers` is in force. -/
def Installed (v : View) : Prop := ∀ g, blockmask g = true → v.sg.disp g = .catch actMask

/-- No activation of `sig_catch` exists and none can start. -/
def Quiet (v : View) : Prop := v.frames = [] ∧ v.sg.mask = v.entryMask.union blockmask

/-- What holds at every point of `ssh_watch` after its first `sigprocmask`. -/
structure InWatch (v : View) : Prop where
  installed : Installed v
  saved : v.savedmask = v.entryMask
  base : v.baseMask = v.entryMask ∨ v.baseMask = v.entryMask.union blockmask

/-- The control points of `ssh_watch` at which signals are blocked and `sig_catch` must not
run. -/
def WatchPc.quiet : WatchPc → Bool
  | .testRestart | .setjmp | .wait | .status _ | .waited _ | .takeAlarm | .clamp | .setJmp | .arm
  | .testExit | .dropJmp | .block | .wake _ => true
  | _ => false

/-- `check_ssh_stderr` was called by `ssh_wait`. -/
def DrainCont.isWait : DrainCont → Bool
  | .wait _ => true
  | _ => false

/-- Not inside the wait; a message or a sleep is never followed by a point inside it. -/
def Pc.outside : Pc → Bool
  | .watch (.asleep _) | .watch .woken => false
  | _ => true

/-- The signal assertion at each control point. -/
def SigAt : Pc → View → Prop
  | .run (.setExit l), _ => ∀ g ∈ l, blockmask g = true
  | .run (.setHandlers l), v => (∀ g ∈ l, g ≠ .pipe → blockmask g = true) ∧
      ∀ g, blockmask g = true → g ∉ l → v.sg.disp g = .catch actMask
  | .run _, _ => True
  | .watch .enter, v => Installed v ∧ v.baseMask = v.entryMask
  | .watch (.asleep old), v => InWatch v ∧ v.frames = [] ∧ old = v.entryMask.union blockmask
  | .watch .woken, v => InWatch v ∧ v.baseMask = v.entryMask.union blockmask ∧
      v.frames.length ≤ 1 ∧ ∀ g, blockmask g = true → v.sg.mask g = true
  | .watch (.caught _), v => Installed v ∧ v.savedmask = v.entryMask
  | .watch (.leave _), v => InWatch v ∧ v.baseMask = v.entryMask
  | .watch p, v => InWatch v ∧ (p.quiet = true → Quiet v)
  | .drain _ k, v => InWatch v ∧ (k.isWait = true → Quiet v)
  | .kill _ .fatal, _ => True
  | .kill _ _, v => InWatch v
  | .errlog _ k, v => k.outside = true ∧ SigAt k v
  | .sleep _ k, v => k.outside = true ∧ SigAt k v
  | .exit, _ => True
  | .gone, _ => True

/-- The control points of `ssh_watch` at which `dolongjmp` can be set. -/
def WatchPc.armed : WatchPc → Bool
  | .arm | .testExit | .dropJmp | .block | .asleep _ | .woken | .wake _ => true
  | _ => false

/-- The control points at which `dolongjmp` can be set. -/
def Pc.armed : Pc → Bool
  | .watch p => p.armed
  | .gone => true
  | _ => false

/-- The signal invariant. -/
structure SigInv (s : St) : Prop where
  /-- Only the signals of `build_blockmask` are ever caught. -/
  catchOnly : ∀ g m, s.sg.disp g = .catch m → blockmask g = true
  atPc : SigAt s.pc s.view
  armed : s.dolongjmp = true → s.pc.armed = true
  /-- An activation that has decided to jump runs inside the wait. -/
  jumping : ∀ f ∈ s.frames, f.pc = .clearJmp ∨ f.pc = .jump → s.pc = .watch .woken
  cleared : ∀ f ∈ s.frames, f.pc = .jump → s.dolongjmp = false

theorem baseMask_of_nil {v : View} (h : v.frames = []) : v.baseMask = v.sg.mask := by
  simp [View.baseMask, h]

theorem Quiet.blocked {v : View} (h : Quiet v) {g : Sig} (hg : blockmask g = true) :
    v.sg.mask g = true := by
  simp [h.2, hg]

theorem actMask_of_blockmask {g : Sig} (h : blockmask g = true) : actMask g = true := by
  cases g <;> simp_all [blockmask, actMask]

/-- Outside the quiet regions nothing more is asked. -/
theorem InWatch.loud {v : View} (h : InWatch v) : InWatch v ∧ (false = true → Quiet v) :=
  ⟨h, fun hq => absurd hq Bool.false_ne_true⟩

theorem catchOnly_sigaction {sg : SigState} {g : Sig} {d : Disp}
    (h : ∀ g m, sg.disp g = .catch m → blockmask g = true)
    (hd : ∀ m, d = .catch m → blockmask g = true) :
    ∀ g' m, (sg.sigaction g d).disp g' = .catch m → blockmask g' = true := by
  intro g' m hg'
  rw [SigState.sigaction_disp] at hg'
  by_cases he : g' = g
  · subst he
    exact hd m (by simpa using hg')
  · rw [Function.update_of_ne he] at hg'
    exact h g' m hg'

/-! ### One step of the main program -/

theorem sshWatchStep_sigAt {c : Cfg} {s t : St} {p : WatchPc} {a : Act} (hf : s.frames = [])
    (hs : SigAt (.watch p) s.view) (h : sshWatchStep c s a p = some t) : SigAt t.pc t.view := by
  have hb : s.view.baseMask = s.sg.mask := baseMask_of_nil hf
  cases p with
  | enter =>
    obtain ⟨-, rfl⟩ := on_eq_some.1 h
    obtain ⟨hi, hm⟩ := hs
    rw [hb] at hm
    refine InWatch.loud ⟨hi, hm, .inr ?_⟩
    simp [View.baseMask, St.view, hf, show s.sg.mask = s.entryMask from hm]
  | top =>
    obtain ⟨-, rfl⟩ := on_eq_some.1 h
    obtain ⟨⟨hi, hsv, hm⟩, -⟩ := hs
    have hq : s.sg.mask.union blockmask = s.entryMask.union blockmask := by
      rw [hb] at hm
      rcases hm with hm | hm
      · rw [hm]; rfl
      · rw [hm, SigSet.union_union_self]; rfl
    exact ⟨⟨hi, hsv, .inr (by simpa [View.baseMask, St.view, hf] using hq)⟩, fun _ => ⟨hf, hq⟩⟩
  | setjmp | takeAlarm | clamp | setJmp | arm =>
    obtain ⟨-, rfl⟩ := on_eq_some.1 h
    exact ⟨hs.1, fun _ => hs.2 rfl⟩
  | testRestart =>
    obtain ⟨-, rfl⟩ := on_eq_some.1 h
    simp only [St.goto]
    split_ifs
    · exact ⟨rfl, hs.1⟩
    · exact ⟨hs.1, fun _ => hs.2 rfl⟩
  | wait =>
    simp only [sshWatchStep, Option.bind_eq_some_iff, waitpid?_eq_some] at h
    obtain ⟨r, -, h⟩ := h
    cases r with
    | pid st =>
      simp only at h
      split_ifs at h
      cases h
      exact ⟨hs.1, fun _ => hs.2 rfl⟩
    | zero | err e => cases h; exact ⟨hs.1, fun _ => hs.2 rfl⟩
  | status st =>
    obtain ⟨-, rfl⟩ := on_eq_some.1 h
    simp only [St.goto]
    split
    · exact ⟨rfl, hs.1, fun _ => hs.2 rfl⟩
    · exact ⟨hs.1, fun _ => hs.2 rfl⟩
  | waited rc =>
    obtain ⟨-, rfl⟩ := on_eq_some.1 h
    simp only [St.goto]
    split_ifs
    · exact ⟨hs.1, fun _ => hs.2 rfl⟩
    · exact hs.1.loud
  | testExit =>
    obtain ⟨-, rfl⟩ := on_eq_some.1 h
    simp only [St.goto]
    split_ifs <;> exact ⟨hs.1, fun _ => hs.2 rfl⟩
  | dropJmp =>
    obtain ⟨-, rfl⟩ := on_eq_some.1 h
    exact ⟨rfl, hs.1⟩
  | block =>
    obtain ⟨-, rfl⟩ := on_eq_some.1 h
    obtain ⟨⟨hi, hsv, -⟩, hq⟩ := hs
    exact ⟨⟨hi, hsv, .inl (by simpa [View.baseMask, St.view, hf] using hsv)⟩, hf, (hq rfl).2⟩
  | asleep old =>
    simp only [sshWatchStep] at h
    split_ifs at h
    simp only [Option.bind_eq_some_iff, Option.some.injEq] at h
    obtain ⟨re, -, rfl⟩ := h
    obtain ⟨⟨hi, hsv, -⟩, -, rfl⟩ := hs
    exact ⟨⟨hi, hsv, .inr (by simp [View.baseMask, St.view, hf])⟩, fun _ => ⟨hf, rfl⟩⟩
  | woken =>
    obtain ⟨-, rfl⟩ := on_eq_some.1 h
    obtain ⟨hi, hm, -, -⟩ := hs
    exact ⟨hi, fun _ => ⟨hf, hb.symm.trans hm⟩⟩
  | wake re =>
    obtain ⟨-, rfl⟩ := on_eq_some.1 h
    simp only
    split_ifs <;> exact hs.1.loud
  | pollin re =>
    obtain ⟨-, rfl⟩ := on_eq_some.1 h
    simp only [St.goto]
    split_ifs <;> exact hs.1.loud
  | pollhup re =>
    obtain ⟨-, rfl⟩ := on_eq_some.1 h
    simp only [St.goto]
    split_ifs
    · exact ⟨rfl, hs.1.loud⟩
    · exact hs.1.loud
  | closeFd | pipeLost =>
    obtain ⟨-, rfl⟩ := on_eq_some.1 h
    exact hs.1.loud
  | caught v =>
    obtain ⟨-, rfl⟩ := on_eq_some.1 h
    obtain ⟨hi, hsv⟩ := hs
    exact InWatch.loud ⟨hi, hsv, .inl (by simpa [View.baseMask, St.view, hf] using hsv)⟩
  | dispatch v =>
    obtain ⟨-, rfl⟩ := on_eq_some.1 h
    cases v <;> first | exact ⟨rfl, hs.1⟩ | exact hs.1.loud
  | alrm =>
    obtain ⟨-, rfl⟩ := on_eq_some.1 h
    simp only [St.goto]
    split_ifs
    · exact ⟨rfl, hs.1⟩
    · exact hs.1.loud
  | watchdog =>
    obtain ⟨-, rfl⟩ := on_eq_some.1 h
    simp only [St.goto, watchdogNext]
    split_ifs
    · exact ⟨rfl, hs.1⟩
    · exact ⟨rfl, hs.1⟩
    · exact hs.1.loud
  | conn =>
    simp only [sshWatchStep] at h
    split_ifs at h
    · simp only [Option.bind_eq_some_iff, Option.some.injEq] at h
      obtain ⟨r, -, rfl⟩ := h
      cases r with
      | up => exact hs.1.loud
      | down => exact ⟨rfl, hs.1⟩
      | fatal => exact ⟨rfl, trivial⟩
    · obtain ⟨-, rfl⟩ := on_eq_some.1 h
      exact hs.1.loud
  | ret rc =>
    obtain ⟨-, rfl⟩ := on_eq_some.1 h
    obtain ⟨⟨hi, hsv, -⟩, -⟩ := hs
    have hm : View.baseMask ⟨s.sg.setmask s.savedmask, s.frames, s.savedmask, s.entryMask⟩ =
        s.entryMask := by simpa [View.baseMask, St.view, hf] using hsv
    exact ⟨⟨hi, hsv, .inl hm⟩, hm⟩
  | leave rc =>
    obtain ⟨-, rfl⟩ := on_eq_some.1 h
    trivial

theorem SigAt.kill {v : View} {p : KillPc} {k : KillCont} (hs : SigAt (.kill p k) v) (q : KillPc) :
    SigAt (.kill q k) v := by
  cases k <;> exact hs

theorem KillCont.resume_sigAt {v : View} {p : KillPc} {k : KillCont} (hs : SigAt (.kill p k) v) :
    SigAt k.resume v := by
  cases k with
  | ret rc => exact InWatch.loud hs
  | portWait => exact ⟨rfl, rfl, InWatch.loud hs⟩
  | fatal => trivial

theorem sshKillStep_sigAt {s t : St} {k : KillCont} {p : KillPc} {a : Act}
    (hs : SigAt (.kill p k) s.view) (h : sshKillStep s k a p = some t) : SigAt t.pc t.view := by
  have ht : SigAt t.pc s.view := sshKillStep_target (P := fun q => SigAt q s.view)
    (fun q => hs.kill q) (fun _ q => ⟨rfl, hs.kill q⟩) (fun _ q => ⟨rfl, hs.kill q⟩)
    (KillCont.resume_sigAt hs) h
  obtain ⟨_, _, _, _, rfl⟩ := sshKillStep_frame h
  exact ht

theorem DrainCont.resume_sigAt {v : View} {p : DrainPc} {k : DrainCont} (b : Bool)
    (hs : SigAt (.drain p k) v) : SigAt (k.resume b) v := by
  cases k with
  | wait st => exact ⟨hs.1, fun _ => hs.2 rfl⟩
  | pollin re =>
    cases b
    · exact hs.1.loud
    · exact hs.1
  | alrm =>
    cases b
    · exact hs.1.loud
    · exact hs.1

theorem checkSshStderrStep_sigAt {s t : St} {k : DrainCont} {p : DrainPc} {a : Act}
    (hs : SigAt (.drain p k) s.view) (h : checkSshStderrStep s k a p = some t) :
    SigAt t.pc t.view := by
  have ht : SigAt t.pc s.view := checkSshStderrStep_target (P := fun q => SigAt q s.view)
    (fun _ => hs) (fun _ => ⟨rfl, hs⟩) (fun b => DrainCont.resume_sigAt b hs)
    (fun _ => ⟨by cases k <;> rfl, DrainCont.resume_sigAt true hs⟩) h
  obtain ⟨_, _, _, rfl⟩ := checkSshStderrStep_frame h
  exact ht

theorem sshRunStep_sigAt {c : Cfg} {s t : St} {p : RunPc} {a : Act} (hf : s.frames = [])
    (hs : SigAt (.run p) s.view) (h : sshRunStep c s a p = some t) : SigAt t.pc t.view := by
  cases p with
  | setExit l =>
    cases l with
    | nil => obtain ⟨-, rfl⟩ := on_eq_some.1 h; trivial
    | cons g l =>
      obtain ⟨-, rfl⟩ := on_eq_some.1 h
      exact fun g' hg' => hs g' (List.mem_cons_of_mem _ hg')
  | head | lifetime | portDelay | testExit =>
    obtain ⟨-, rfl⟩ := on_eq_some.1 h
    simp only [St.goto]
    split_ifs <;> simp [SigAt, Pc.outside]
  | grace =>
    obtain ⟨-, rfl⟩ := on_eq_some.1 h
    simp only
    split_ifs <;> simp [SigAt, Pc.outside]
  | stamp | closeWr =>
    obtain ⟨-, rfl⟩ := on_eq_some.1 h
    exact ⟨rfl, trivial⟩
  | pipe =>
    simp only [sshRunStep, Option.bind_eq_some_iff] at h
    obtain ⟨r, -, h⟩ := h
    rcases r with - | ⟨r, w⟩ <;> cases h <;> simp [SigAt, Pc.outside]
  | fork =>
    simp only [sshRunStep, Option.bind_eq_some_iff] at h
    obtain ⟨r, -, h⟩ := h
    split_ifs at h <;> cases h <;> trivial
  | parentFd =>
    obtain ⟨-, rfl⟩ := on_eq_some.1 h
    -- all signals but `SIGPIPE` are in the mask, and the list is complete
    refine ⟨rfl, fun g hg hp => ?_, fun g hg hl => ?_⟩ <;>
      cases g <;> simp_all [blockmask, handledSignals]
  | setHandlers l =>
    cases l with
    | nil =>
      obtain ⟨-, rfl⟩ := on_eq_some.1 h
      exact ⟨fun g hg => hs.2 g hg List.not_mem_nil, baseMask_of_nil hf⟩
    | cons g l =>
      obtain ⟨-, rfl⟩ := on_eq_some.1 h
      refine ⟨fun g' hg' => hs.1 g' (List.mem_cons_of_mem _ hg'), fun g' hg' hl => ?_⟩
      simp only [St.view, SigState.sigaction_disp]
      by_cases he : g' = g
      · subst he
        cases g' <;> simp_all [blockmask, handlerDisp]
      · rw [Function.update_of_ne he]
        exact hs.2 g' hg' (by simp [he, hl])
  | unsetHandlers rc l => cases l <;> obtain ⟨-, rfl⟩ := on_eq_some.1 h <;> trivial
  | closeStderr rc =>
    simp only [sshRunStep] at h
    split_ifs at h <;> obtain ⟨-, rfl⟩ := on_eq_some.1 h <;> trivial
  | testRc rc =>
    obtain ⟨-, rfl⟩ := on_eq_some.1 h
    simp only [St.goto]
    split_ifs <;> trivial
  | _ =>
    obtain ⟨-, rfl⟩ := on_eq_some.1 h
    trivial

theorem sshRunStep_catchOnly {c : Cfg} {s t : St} {p : RunPc} {a : Act}
    (hc : ∀ g m, s.sg.disp g = .catch m → blockmask g = true) (hs : SigAt (.run p) s.view)
    (h : sshRunStep c s a p = some t) : ∀ g m, t.sg.disp g = .catch m → blockmask g = true := by
  cases p with
  | setExit l =>
    cases l with
    | nil => obtain ⟨-, rfl⟩ := on_eq_some.1 h; exact hc
    | cons g l =>
      obtain ⟨-, rfl⟩ := on_eq_some.1 h
      exact catchOnly_sigaction hc fun _ _ => hs g List.mem_cons_self
  | setHandlers l =>
    cases l with
    | nil => obtain ⟨-, rfl⟩ := on_eq_some.1 h; exact hc
    | cons g l =>
      obtain ⟨-, rfl⟩ := on_eq_some.1 h
      refine catchOnly_sigaction hc fun m hm => hs.1 g List.mem_cons_self ?_
      rintro rfl
      cases hm
  | unsetHandlers rc l =>
    cases l with
    | nil => obtain ⟨-, rfl⟩ := on_eq_some.1 h; exact hc
    | cons g l =>
      obtain ⟨-, rfl⟩ := on_eq_some.1 h
      exact catchOnly_sigaction hc nofun
  | pipe =>
    simp only [sshRunStep, Option.bind_eq_some_iff] at h
    obtain ⟨r, -, h⟩ := h
    rcases r with - | ⟨r, w⟩ <;> cases h <;> exact hc
  | fork =>
    simp only [sshRunStep, Option.bind_eq_some_iff] at h
    obtain ⟨r, -, h⟩ := h
    split_ifs at h <;> cases h <;> exact hc
  | closeStderr rc =>
    simp only [sshRunStep] at h
    split_ifs at h <;> obtain ⟨-, rfl⟩ := on_eq_some.1 h <;> exact hc
  | _ =>
    obtain ⟨-, rfl⟩ := on_eq_some.1 h
    exact hc

theorem mainStep_sigAt {c : Cfg} {s t : St} {a : Act} (hf : s.frames = [])
    (hs : SigAt s.pc s.view) (h : mainStep c s a = some t) : SigAt t.pc t.view := by
  rcases mainStep_cases h with ⟨p, hp, h⟩ | ⟨p, hp, h⟩ | ⟨p, k, hp, h⟩ | ⟨p, k, hp, h⟩ |
    ⟨k, ⟨m, hp⟩ | ⟨n, hp⟩, -, rfl⟩ | ⟨-, -, rfl⟩
  · exact sshRunStep_sigAt hf (hp ▸ hs) h
  · exact sshWatchStep_sigAt hf (hp ▸ hs) h
  · exact checkSshStderrStep_sigAt (hp ▸ hs) h
  · exact sshKillStep_sigAt (hp ▸ hs) h
  · rw [hp] at hs
    exact hs.2
  · rw [hp] at hs
    exact hs.2
  · trivial

/-- The main program catches no other signals. -/
theorem mainStep_catchOnly {c : Cfg} {s t : St} {a : Act} (hs : SigInv s)
    (h : mainStep c s a = some t) : ∀ g m, t.sg.disp g = .catch m → blockmask g = true := by
  have hc := hs.catchOnly
  rcases mainStep_cases h with ⟨p, hp, h⟩ | ⟨p, -, h⟩ | ⟨p, k, -, h⟩ | ⟨p, k, -, h⟩ |
    ⟨k, -, -, rfl⟩ | ⟨-, -, rfl⟩
  · exact sshRunStep_catchOnly hc (hp ▸ hs.atPc) h
  · rwa [(sshWatchStep_frame h).disp]
  · obtain ⟨_, _, _, rfl⟩ := checkSshStderrStep_frame h
    exact hc
  · obtain ⟨_, _, _, _, rfl⟩ := sshKillStep_frame h
    exact hc
  · exact hc
  · exact hc

theorem sshWatchStep_armed {c : Cfg} {s t : St} {p : WatchPc} {a : Act}
    (hs : s.dolongjmp = true → p.armed = true) (h : sshWatchStep c s a p = some t) :
    t.dolongjmp = true → t.pc.armed = true := by
  intro hd
  cases p with
  | setJmp | arm | block | woken =>
    obtain ⟨-, rfl⟩ := on_eq_some.1 h
    rfl
  | testExit =>
    obtain ⟨-, rfl⟩ := on_eq_some.1 h
    simp only [St.goto]
    split_ifs <;> rfl
  | asleep old =>
    simp only [sshWatchStep] at h
    split_ifs at h
    simp only [Option.bind_eq_some_iff, Option.some.injEq] at h
    obtain ⟨re, -, rfl⟩ := h
    rfl
  | dropJmp | wake re =>
    obtain ⟨-, rfl⟩ := on_eq_some.1 h
    cases hd
  | wait =>
    simp only [sshWatchStep, Option.bind_eq_some_iff] at h
    obtain ⟨r, -, h⟩ := h
    cases r with
    | pid st =>
      simp only at h
      split_ifs at h
      cases h
      cases hs hd
    | zero | err e => cases h; cases hs hd
  | conn =>
    simp only [sshWatchStep] at h
    split_ifs at h
    · simp only [Option.bind_eq_some_iff, Option.some.injEq] at h
      obtain ⟨r, -, rfl⟩ := h
      cases hs hd
    · obtain ⟨-, rfl⟩ := on_eq_some.1 h
      cases hs hd
  | _ =>
    obtain ⟨-, rfl⟩ := on_eq_some.1 h
    cases hs hd

theorem mainStep_armed {c : Cfg} {s t : St} {a : Act} (hs : s.dolongjmp = true → s.pc.armed = true)
    (h : mainStep c s a = some t) : t.dolongjmp = true → t.pc.armed = true := by
  rcases mainStep_cases h with ⟨p, hp, h⟩ | ⟨p, hp, h⟩ | ⟨p, k, hp, h⟩ | ⟨p, k, hp, h⟩ |
    ⟨k, ⟨m, hp⟩ | ⟨n, hp⟩, -, rfl⟩ | ⟨-, -, rfl⟩
  · exact fun hd => nomatch hp ▸ hs ((sshRunStep_frame h).dolongjmp hd)
  · rw [hp] at hs
    exact sshWatchStep_armed hs h
  · obtain ⟨_, _, _, rfl⟩ := checkSshStderrStep_frame h
    exact fun hd => nomatch hp ▸ hs hd
  · obtain ⟨_, _, _, _, rfl⟩ := sshKillStep_frame h
    exact fun hd => nomatch hp ▸ hs hd
  · exact fun hd => nomatch hp ▸ hs hd
  · exact fun hd => nomatch hp ▸ hs hd
  · exact fun _ => rfl

theorem mainStep_sigInv {c : Cfg} {s t : St} {a : Act} (hs : SigInv s) (hf : s.frames = [])
    (h : mainStep c s a = some t) : SigInv t where
  catchOnly := mainStep_catchOnly hs h
  atPc := mainStep_sigAt hf hs.atPc h
  armed := mainStep_armed hs.armed h
  jumping f hm := by simp [mainStep_frames h, hf] at hm
  cleared f hm := by simp [mainStep_frames h, hf] at hm

end Supervisor

end Autossh
