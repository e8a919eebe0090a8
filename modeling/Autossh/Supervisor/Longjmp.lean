import Autossh.Supervisor.SigInv

/-!
# `siglongjmp` stays inside the wait

The activations of `sig_catch` and the environment keep the signal invariant as well, so it
holds in every run (`run_sigInv`).  It follows that `sig_catch` jumps only out of the wait of
`ssh_watch`, and that `ssh_watch` returns with `dolongjmp` clear and the mask it was called with
(`longjmp_only_inside_wait`).
-/

namespace Autossh

namespace Supervisor

/-! ### Moves that keep the mask of the main program -/

/-- `v'` looks like `v` to the main program: the same dispositions, saved masks and mask. -/
structure View.Agree (v v' : View) : Prop where
  disp : v'.sg.disp = v.sg.disp
  savedmask : v'.savedmask = v.savedmask
  entryMask : v'.entryMask = v.entryMask
  base : v'.baseMask = v.baseMask
  quiet : Quiet v → Quiet v'

namespace View.Agree

variable {v v' : View}

theorem installed (h : v.Agree v') (hv : Installed v) : Installed v' := by
  intro g hg
  rw [h.disp]
  exact hv g hg

theorem inWatch (h : v.Agree v') (hv : InWatch v) : InWatch v' where
  installed := h.installed hv.installed
  saved := by rw [h.savedmask, h.entryMask, hv.saved]
  base := by rw [h.base, h.entryMask]; exact hv.base

/-- Outside the wait such a move keeps the assertion of the control point. -/
theorem sigAt (h : v.Agree v') {p : Pc} (ho : p.outside = true) (hs : SigAt p v) :
    SigAt p v' := by
  induction p with
  | run p =>
    cases p with
    | setHandlers l => exact ⟨hs.1, by rw [h.disp]; exact hs.2⟩
    | setExit l => exact hs
    | _ => trivial
  | watch p =>
    cases p with
    | enter => exact ⟨h.installed hs.1, by rw [h.base, h.entryMask]; exact hs.2⟩
    | asleep old | woken => cases ho
    | caught v => exact ⟨h.installed hs.1, by rw [h.savedmask, h.entryMask]; exact hs.2⟩
    | leave rc => exact ⟨h.inWatch hs.1, by rw [h.base, h.entryMask]; exact hs.2⟩
    | _ => exact ⟨h.inWatch hs.1, fun hq => h.quiet (hs.2 hq)⟩
  | drain p k => exact ⟨h.inWatch hs.1, fun hq => h.quiet (hs.2 hq)⟩
  | kill p k =>
    cases k with
    | fatal => trivial
    | ret rc => exact h.inWatch hs
    | portWait => exact h.inWatch hs
  | errlog m k ih => exact ⟨hs.1, ih hs.1 hs.2⟩
  | sleep n k ih => exact ⟨hs.1, ih hs.1 hs.2⟩
  | exit | gone => trivial

/-- Such a move keeps the assertion everywhere, if it starts no activation of `sig_catch` and
keeps its signals blocked when the wait has ended. -/
theorem sigAt_of_le (h : v.Agree v') {p : Pc} (hs : SigAt p v)
    (hl : v'.frames.length ≤ v.frames.length)
    (hm : v.frames.length ≤ 1 → v.baseMask = v.entryMask.union blockmask →
      (∀ g, blockmask g = true → v.sg.mask g = true) →
      ∀ g, blockmask g = true → v'.sg.mask g = true) : SigAt p v' := by
  by_cases ho : p.outside = true
  · exact h.sigAt ho hs
  · unfold Pc.outside at ho
    split at ho
    · obtain ⟨hi, hf, ho⟩ := hs
      rw [hf] at hl
      exact ⟨h.inWatch hi, List.length_eq_zero_iff.1 (Nat.le_zero.1 hl), by rw [h.entryMask, ho]⟩
    · obtain ⟨hi, hb, hf, hv⟩ := hs
      exact ⟨h.inWatch hi, by rw [h.base, h.entryMask, hb], hl.trans hf, hm hf hb hv⟩
    · exact absurd rfl ho

end View.Agree

namespace View

variable (v : View)

theorem agree_raise (g : Sig) : v.Agree { v with sg := v.sg.raise g } where
  disp := SigState.raise_disp
  savedmask := rfl
  entryMask := rfl
  base := by simp [baseMask]
  quiet h := ⟨h.1, by simpa using h.2⟩

theorem agree_take (g : Sig) : v.Agree { v with sg := v.sg.take g } :=
  ⟨rfl, rfl, rfl, rfl, id⟩

variable {v}

/-- An activation of `sig_catch` moves on. -/
theorem agree_moved {f f' : Frame} {fs : List Frame} (hv : v.frames = f :: fs)
    (hf : f'.saved = f.saved) : v.Agree { v with frames := f' :: fs } where
  disp := rfl
  savedmask := rfl
  entryMask := rfl
  base := by simp [baseMask, hv, hf]
  quiet h := absurd h.1 (by simp [hv])

/-- An activation of `sig_catch` returns. -/
theorem agree_returned {f : Frame} {fs : List Frame} (hv : v.frames = f :: fs) :
    v.Agree { v with frames := fs, sg := v.sg.setmask f.saved } where
  disp := rfl
  savedmask := rfl
  entryMask := rfl
  base := by simp [baseMask, hv]
  quiet h := absurd h.1 (by simp [hv])

/-- A signal that is not blocked starts an activation of `sig_catch`. -/
theorem agree_entered {g : Sig} (m : SigSet) (hg : blockmask g = true) (hm : v.sg.mask g = false) :
    v.Agree { v with frames := ⟨g, v.sg.mask, .enter⟩ :: v.frames, sg := v.sg.enter g m } where
  disp := rfl
  savedmask := rfl
  entryMask := rfl
  base := rfl
  quiet h := by simp [h.blocked hg] at hm

end View

/-! ### One step of `sig_catch` -/

/-- Only inside the wait can `sig_catch` find `dolongjmp` set. -/
theorem woken_of_armed {p : Pc} {v : View} (hs : SigAt p v) (ha : p.armed = true) (ho : p ≠ .gone)
    (hf : v.frames ≠ []) : p = .watch .woken := by
  cases p with
  | watch p =>
    cases p with
    | woken => rfl
    | arm | testExit | dropJmp | block | wake re => exact absurd (hs.2 rfl).1 hf
    | asleep old => exact absurd hs.2.1 hf
    | _ => cases ha
  | gone => exact absurd rfl ho
  | _ => cases ha

variable {s s' : St} {f f' : Frame} {fs : List Frame} {a : Act}

theorem SigAt.moved {p : Pc} {v : View} (hs : SigAt p v) (hv : v.frames = f :: fs)
    (hf : f'.saved = f.saved) : SigAt p { v with frames := f' :: fs } :=
  (View.agree_moved hv hf).sigAt_of_le hs (by simp [hv]) fun _ _ h => h

theorem SigAt.returned {p : Pc} {v : View} (hs : SigAt p v) (hv : v.frames = f :: fs) :
    SigAt p { v with frames := fs, sg := v.sg.setmask f.saved } := by
  refine (View.agree_returned hv).sigAt_of_le hs (by simp [hv]) fun hl hb _ g hg => ?_
  -- the only activation returns, and the mask from before the wait is back
  obtain rfl : fs = [] := by simpa [hv] using hl
  have hb' : f.saved = v.entryMask.union blockmask := by simpa [View.baseMask, hv] using hb
  simp [hb', hg]

/-- An activation moves on to `q`. -/
theorem SigInv.moved (hs : SigInv s) (hv : s.frames = f :: fs) (q : HandlerPc)
    (hj : q = .clearJmp ∨ q = .jump → s.pc = .watch .woken) (r e d : Bool)
    (hd : d = true → s.dolongjmp = true ∧ q ≠ .jump) :
    SigInv { s with
      frames := { f with pc := q } :: fs, restartSsh := r, exitSignalled := e
      dolongjmp := d } where
  catchOnly := hs.catchOnly
  atPc := hs.atPc.moved hv rfl
  armed h := hs.armed (hd h).1
  jumping g hg := by
    rcases List.mem_cons.1 hg with rfl | hg
    · exact hj
    · exact hs.jumping g (by rw [hv]; exact List.mem_cons_of_mem _ hg)
  cleared g hg hgj := by
    rcases List.mem_cons.1 hg with rfl | hg
    · exact Bool.eq_false_iff.2 fun h => (hd h).2 hgj
    · have hs' := hs.cleared g (by rw [hv]; exact List.mem_cons_of_mem _ hg) hgj
      exact Bool.eq_false_iff.2 fun h => by simp [(hd h).1] at hs'

/-- An activation moves on to a point from which it does not jump. -/
theorem SigInv.moved_plain (hs : SigInv s) (hv : s.frames = f :: fs) {q : HandlerPc}
    (hc : q ≠ .clearJmp) (hj : q ≠ .jump) (r e : Bool) :
    SigInv { s with frames := { f with pc := q } :: fs, restartSsh := r, exitSignalled := e } :=
  hs.moved hv q (fun h => absurd h (not_or.2 ⟨hc, hj⟩)) r e _ fun hd => ⟨hd, hj⟩

theorem sigInv_gone (hs : SigInv s) : SigInv { s with pc := .gone, frames := [] } :=
  ⟨hs.catchOnly, trivial, fun _ => rfl, List.forall_mem_nil _, List.forall_mem_nil _⟩

theorem sigCatchStep_sigInv (hs : SigInv s) (ho : s.pc ≠ .gone) (hv : s.frames = f :: fs)
    (h : sigCatchStep s f fs a = some s') : SigInv s' := by
  have hmem : f ∈ s.frames := by simp [hv]
  unfold sigCatchStep at h
  split at h <;> rename_i hp
  · split_ifs at h <;> obtain ⟨-, rfl⟩ := on_eq_some.1 h
    · exact hs.moved_plain hv (by decide) (by decide) true _
    · exact sigInv_gone hs
    · exact hs.moved_plain hv (by decide) (by decide) _ _
    · exact hs.moved_plain hv (by decide) (by decide) _ _
  · obtain ⟨-, rfl⟩ := on_eq_some.1 h
    exact hs.moved_plain hv (by decide) (by decide) _ true
  · obtain ⟨-, rfl⟩ := on_eq_some.1 h
    refine hs.moved hv _ (fun hj => ?_) _ _ _ fun hd => ⟨hd, by simp [hd]⟩
    -- it is about to jump only if `dolongjmp` is set, which is inside the wait
    have hd : s.dolongjmp = true := by
      by_contra hd
      simp [hd] at hj
    exact woken_of_armed hs.atPc (hs.armed hd) ho (by simp [St.view, hv])
  · obtain ⟨-, rfl⟩ := on_eq_some.1 h
    have hw := hs.jumping f hmem (.inl hp)
    exact hs.moved hv .jump (fun _ => hw) _ _ false fun hd => absurd hd Bool.false_ne_true
  · obtain ⟨-, rfl⟩ := on_eq_some.1 h
    have hat := hs.atPc
    rw [hs.jumping f hmem (.inr hp)] at hat
    refine ⟨hs.catchOnly, ⟨hat.1.installed, hat.1.saved⟩, fun hd => ?_, List.forall_mem_nil _,
      List.forall_mem_nil _⟩
    rw [hs.cleared f hmem hp] at hd
    cases hd
  · obtain ⟨-, rfl⟩ := on_eq_some.1 h
    have hsub : ∀ g ∈ fs, g ∈ s.frames := fun g hg => by rw [hv]; exact List.mem_cons_of_mem _ hg
    exact ⟨hs.catchOnly, hs.atPc.returned hv, hs.armed, fun g hg => hs.jumping g (hsub g hg),
      fun g hg => hs.cleared g (hsub g hg)⟩

/-! ### One move of the environment -/

theorem SigAt.raised {p : Pc} {v : View} (hs : SigAt p v) (g : Sig) :
    SigAt p { v with sg := v.sg.raise g } :=
  (v.agree_raise g).sigAt_of_le hs le_rfl fun _ _ h => by simpa using h

theorem SigAt.taken {p : Pc} {v : View} (hs : SigAt p v) (g : Sig) :
    SigAt p { v with sg := v.sg.take g } :=
  (v.agree_take g).sigAt_of_le hs le_rfl fun _ _ h => h

theorem SigInv.raised (hs : SigInv s) (g : Sig) (ch : ChildState) (tm : Option ℕ) :
    SigInv { s with sg := s.sg.raise g, child := ch, timer := tm } where
  catchOnly := by simpa using hs.catchOnly
  atPc := hs.atPc.raised g
  armed := hs.armed
  jumping := hs.jumping
  cleared := hs.cleared

theorem SigInv.taken (hs : SigInv s) (g : Sig) : SigInv { s with sg := s.sg.take g } :=
  ⟨hs.catchOnly, hs.atPc.taken g, hs.armed, hs.jumping, hs.cleared⟩

/-- A caught signal that can be delivered finds the main program outside a quiet region; if it
ends the wait, its handler blocks all the others. -/
theorem pushFrame_sigInv {g : Sig} {m : SigSet} (hs : SigInv s) (hd : s.sg.disp g = .catch m)
    (hm : s.sg.mask g = false) : SigInv (pushFrame s g m) := by
  have hg := hs.catchOnly g m hd
  unfold pushFrame
  split
  · -- the signal ends the wait, and `sa_mask` blocks the others while it is handled
    rename_i old hf hp
    have hat := hs.atPc
    rw [hp] at hat
    obtain ⟨⟨hi, hsv, -⟩, -, rfl⟩ := hat
    obtain rfl : actMask = m := by
      have := (hi g hg).symm.trans hd
      injection this
    refine ⟨hs.catchOnly, ⟨⟨hi, hsv, .inr rfl⟩, rfl, le_rfl, fun g' hg' => ?_⟩, fun _ => rfl,
      fun f hf => ?_, fun f hf => ?_⟩
    · simp [St.view, SigState.enter_mask, actMask_of_blockmask hg']
    · obtain rfl : f = _ := List.mem_singleton.1 hf
      exact fun hj => absurd hj (by simp)
    · obtain rfl : f = _ := List.mem_singleton.1 hf
      exact fun hj => absurd hj (by simp)
  · rename_i hne
    refine ⟨hs.catchOnly, ?_, hs.armed, fun f hf => ?_, fun f hf => ?_⟩
    · have hag := View.agree_entered (v := s.view) m hg hm
      by_cases ho : s.pc.outside = true
      · exact hag.sigAt ho hs.atPc
      · have hat := hs.atPc
        unfold Pc.outside at ho
        -- inside the wait a first signal takes the other branch, and a second one is blocked
        split at ho <;> rename_i hp
        · rw [hp] at hat
          exact absurd hp (hne _ hat.2.1)
        · rw [hp] at hat
          exact absurd (hat.2.2.2 g hg) (by simp [St.view, hm])
        · exact absurd rfl ho
    · rcases List.mem_cons.1 hf with rfl | hf
      · exact fun hj => absurd hj (by simp)
      · exact hs.jumping f hf
    · rcases List.mem_cons.1 hf with rfl | hf
      · exact fun hj => absurd hj (by simp)
      · exact hs.cleared f hf

theorem deliver_sigInv {g : Sig} (hs : SigInv s) (h : deliver s g = some s') : SigInv s' := by
  obtain ⟨-, hm, rfl | rfl | ⟨m, hd, rfl⟩⟩ := deliver_cases h
  · exact hs.taken g
  · exact sigInv_gone hs
  · exact pushFrame_sigInv hs hd hm

theorem SigInv.elapsed (hs : SigInv s) (dw : ℤ) (dt : ℕ) :
    SigInv { s with
      now := s.now + dw, timer := s.timer.map (· - dt), pc := s.pc.elapse dt } := by
  cases hp : s.pc with
  | sleep n k =>
    have hat := hs.atPc
    rw [hp] at hat
    refine ⟨hs.catchOnly, hat, fun hd => ?_, fun f hf hj => ?_, hs.cleared⟩
    · simpa [Pc.armed, hp] using hs.armed hd
    · simpa [hp] using hs.jumping f hf hj
  | _ =>
    simp only [Pc.elapse, ← hp]
    exact ⟨hs.catchOnly, hs.atPc, hs.armed, hs.jumping, hs.cleared⟩

theorem envStep_sigInv (hs : SigInv s) (h : envStep s a = some s') : SigInv s' := by
  cases a with
  | raise g => cases h; exact hs.raised g _ _
  | deliver g => exact deliver_sigInv hs h
  | childExit st =>
    simp only [envStep] at h
    split_ifs at h
    cases h
    exact hs.raised _ _ _
  | elapse dw dt => cases h; exact hs.elapsed dw dt
  | timerFire =>
    simp only [envStep] at h
    split_ifs at h
    cases h
    exact hs.raised _ _ _
  | _ => cases h

/-! ### Runs -/

variable {c : Cfg} {i : Inherited} {as : List Act}

theorem next_sigInv (hs : SigInv s) (h : next c s a = some s') : SigInv s' := by
  obtain ⟨ho, he | ⟨f, fs, hf, hc⟩ | ⟨hf, t, hm, rfl⟩⟩ := next_cases h
  · exact envStep_sigInv hs he
  · exact sigCatchStep_sigInv hs ho hf hc
  · have ht := mainStep_sigInv hs hf hm
    exact ⟨ht.catchOnly, ht.atPc, ht.armed, ht.jumping, ht.cleared⟩

theorem init_sigInv (i : Inherited) : SigInv (.init i) where
  catchOnly g m h := by
    simp only [St.init] at h
    split_ifs at h
  atPc := by simp [St.init, SigAt, blockmask]
  armed := nofun
  jumping := nofun
  cleared := nofun

/-- The signal invariant holds in every run. -/
theorem run_sigInv (h : (supervisor c).Run (.init i) as s) : SigInv s :=
  h.invariant (init_sigInv i) fun _ _ _ hs hn => next_sigInv hs hn

/-- **`siglongjmp` only leaves the wait.**  In every run, `sig_catch` jumps only while the main
program is inside `ppoll` or `sigsuspend`, and `ssh_watch` returns with `dolongjmp` clear and
the signal mask it was called with. -/
theorem longjmp_only_inside_wait (c : Cfg) (i : Inherited) {as : List Act} {s s' : St} {a : Act}
    (hr : (supervisor c).Run (.init i) as s) (hn : (supervisor c).next s a = some s') :
    (∀ g, a = .longjmp g → s.pc = .watch .woken) ∧
      ∀ rc, a = .watchRet rc → s'.dolongjmp = false ∧ s'.sg.mask = s'.entryMask := by
  have hs := run_sigInv hr
  constructor
  · rintro g rfl
    obtain ⟨-, he | ⟨f, fs, hf, hc⟩ | ⟨-, t, hm, -⟩⟩ := next_cases hn
    · cases he
    · obtain h | h | ⟨-, hp⟩ := sigCatchStep_act hc
      · cases h
      · cases h
      · exact hs.jumping f (by simp [hf]) (.inr hp)
    · exact (mainStep_callSite hm).elim
  · rintro rc rfl
    obtain ⟨hf, hp, t, hm, rfl⟩ := next_call rfl hn
    have hat := hs.atPc
    have hd : s.dolongjmp = false := by
      by_contra hd
      have := hs.armed (by simpa using hd)
      rw [hp] at this
      cases this
    rw [hp] at hat
    simp only [mainStep, show s.pc = _ from hp] at hm
    obtain ⟨-, rfl⟩ := on_eq_some.1 hm
    exact ⟨hd, (baseMask_of_nil hf).symm.trans hat.2⟩

/-- The first pass with the alarm set to `v`, up to the wait. -/
def startup (pid : ℤ) (v : ℕ) : List Act :=
  List.replicate 11 Act.tau ++ ([.pipe (some (3, 4)), .fork pid, .close 4] : List Act) ++
    List.replicate 15 Act.tau ++ ([.waitpid .sshWait pid .zero, .tau, .alarm 0 0, .tau, .tau,
      .alarm v 0, .tau, .tau] : List Act)

theorem longjmp_on_child_exit :
    ∃ s s', (supervisor .default).Run (.init .clean)
        (startup 100 600 ++ [.childExit 0, .deliver .chld, .tau, .tau, .tau]) s ∧
      (supervisor .default).next s (.longjmp .chld) = some s' ∧ s.pc = .watch .woken := by
  obtain ⟨s, s', hr, hn⟩ := Machine.exists_run_concat (show Option.isSome
    ((supervisor .default).exec (.init .clean)
      (startup 100 600 ++ [.childExit 0, .deliver .chld, .tau, .tau, .tau] ++
        [.longjmp .chld])) = true by rfl)
  exact ⟨s, s', hr, hn, (longjmp_only_inside_wait .default .clean hr hn).1 .chld rfl⟩

end Supervisor

end Autossh
