import Autossh.Detector.Hooks

/-!
# What the hooks add to the calls of ssh

* `passthrough` : a process in which a hooked call does nothing but call the function that `dlsym`
  finds, with its own arguments, and return its result.  The library refines it
  (`hooks_transparent`), whatever the threads and the monitor do in between;
* `monitor_set_up` : the monitor is started once, before any real function is called, and every scan
  uses the threshold of the environment.
-/

namespace Autossh

namespace Detector

namespace Hooks

/-! ### The interposed calls -/

/-- A call as its caller sees it. -/
inductive Pending (ι ρ : Type)
  | called (h : Hook) (x : ι)
  /-- in the real function -/
  | inside (h : Hook)
  | returned (h : Hook) (r : ρ)
  deriving DecidableEq, Repr

/-- The innermost call, if any, is in the real function. -/
def Pending.callable {ι ρ : Type} : List (Pending ι ρ) → Bool
  | [] => true
  | .inside _ :: _ => true
  | _ => false

section Pass

variable {τ φ ι ρ : Type} [DecidableEq τ] [DecidableEq φ] [DecidableEq ι] [DecidableEq ρ]

/-- One step of a process whose calls are passed on. -/
def passStep (dlsym : Hook → Option φ) (s : τ → List (Pending ι ρ)) :
    Act τ φ ι ρ → Option (τ → List (Pending ι ρ))
  | .call t h x =>
    if Pending.callable (s t) then some (Function.update s t (.called h x :: s t)) else none
  | .realCall t h p x =>
    if (s t).head? = some (.called h x) ∧ dlsym h = some p then
      some (Function.update s t (.inside h :: (s t).tail))
    else none
  | .realRet t r => match (s t).head? with
    | some (.inside h) => some (Function.update s t (.returned h r :: (s t).tail))
    | _ => none
  | .ret t h r =>
    if (s t).head? = some (.returned h r) then some (Function.update s t (s t).tail) else none
  | _ => some s

/-- Every call is passed on once, to the function `dlsym` finds, and its result is returned. -/
def passthrough (dlsym : Hook → Option φ) : Machine (τ → List (Pending ι ρ)) (Act τ φ ι ρ) :=
  ⟨passStep dlsym⟩

end Pass

variable {τ φ ι ρ : Type}

/-- The hooked call as its caller sees it. -/
def Frame.view (f : Frame φ ι ρ) : Pending ι ρ :=
  match f.pc with
  | .inside _ => .inside f.hook
  | .leaveStart _ r | .leaveWarn r | .ret r => .returned f.hook r
  | _ => .called f.hook f.args

/-- The address a hooked call has found. -/
def HookPc.addr? : HookPc φ ρ → Option (Option φ)
  | .cache p | .once p | .readThreshold p | .spawn p | .finish p | .enterLoad p | .enterClock p
  | .enterStore p _ | .call p _ => some p
  | _ => none

/-- The address is the one `dlsym` finds. -/
def Frame.Addressed (dlsym : Hook → Option φ) (f : Frame φ ι ρ) : Prop :=
  ∀ p, f.pc.addr? = some p → p = dlsym f.hook

/-- No address is that of another function. -/
structure Addressed (dlsym : Hook → Option φ) (s : Lib τ φ ι ρ) : Prop where
  real : ∀ h p, s.sh.real h = some p → dlsym h = some p
  frames : ∀ t, ∀ f ∈ s.stack t, f.Addressed dlsym

theorem addressed_init (dlsym : Hook → Option φ) (now : ℤ) :
    Addressed dlsym (.init now : Lib τ φ ι ρ) := by
  refine ⟨fun h p hp => ?_, fun t f hf => ?_⟩
  · cases hp
  · cases hf

theorem callable_view (l : List (Frame φ ι ρ)) :
    Pending.callable (l.map Frame.view) = callable l := by
  cases l with
  | nil => rfl
  | cons f fs =>
    obtain ⟨h, x, pc, e⟩ := f
    cases pc <;> rfl

/-- What the callers see of a state. -/
def Lib.view (l : Lib τ φ ι ρ) : τ → List (Pending ι ρ) := fun t => (l.stack t).map Frame.view

theorem view_update [DecidableEq τ] (l : Lib τ φ ι ρ) (sh : Shared τ φ) (t : τ)
    (fs : List (Frame φ ι ρ)) (b : Bool) :
    Lib.view ⟨sh, Function.update l.stack t fs, b⟩ =
      Function.update l.view t (fs.map Frame.view) := by
  funext u
  simp only [Function.update_apply, Lib.view]
  split_ifs <;> rfl

section

variable {raw : Option CString} {dlsym : Hook → Option φ} {t : τ} {s sh : Shared τ φ}
  {f : Frame φ ι ρ} {f' : Option (Frame φ ι ρ)} {a : Act τ φ ι ρ}

/-- The addresses a step of a hooked call leaves are those `dlsym` finds. -/
theorem Moves.addressed (hs : ∀ h p, s.real h = some p → dlsym h = some p)
    (hf : f.Addressed dlsym) (hm : Moves raw dlsym t s f a sh f') :
    (∀ h p, sh.real h = some p → dlsym h = some p) ∧ ∀ g ∈ f', g.Addressed dlsym := by
  cases hm with
  | @known h x e p hr =>
    refine ⟨hs, ?_⟩
    rintro _ ⟨⟩ q ⟨⟩
    exact (hs h p hr).symm
  | resolve =>
    refine ⟨hs, ?_⟩
    rintro _ ⟨⟩ q ⟨⟩
    rfl
  | @cache h x p e =>
    have hp : p = dlsym h := hf p rfl
    refine ⟨fun k q hk => ?_, ?_⟩
    · simp only [Function.update_apply] at hk
      split_ifs at hk with hkh
      · rw [hkh, ← hp, hk]
      · exact hs k q hk
    · rintro _ ⟨⟩ q ⟨⟩
      exact hp
  | unknown | call | inside | clear | keep | leaveWarn =>
    refine ⟨hs, ?_⟩
    rintro _ ⟨⟩ q ⟨⟩
  | ret => exact ⟨hs, fun g hg => by cases hg⟩
  | _ =>
    refine ⟨hs, ?_⟩
    rintro _ ⟨⟩ q hq
    exact hf q hq

variable [DecidableEq τ] [DecidableEq φ] [DecidableEq ι] [DecidableEq ρ]

/-- The monitor leaves everything alone but its control point and the times of its warnings. -/
theorem monitorStep_frame {p : MonitorPc} (h : monitorStep s a p = some sh) :
    ∃ w m, sh = { s with lastWarnSec := w, monitor := m } := by
  cases p with
  | observe now th hs =>
    cases hs <;> obtain ⟨-, rfl⟩ := on_eq_some.1 h <;> exact ⟨_, _, rfl⟩
  | _ =>
    obtain ⟨-, rfl⟩ := on_eq_some.1 h
    exact ⟨_, _, rfl⟩

variable {l l' : Lib τ φ ι ρ}

theorem next_addressed (hl : Addressed dlsym l) (h : (library raw dlsym).next l a = some l') :
    Addressed dlsym l' := by
  obtain ⟨t, g, x, rfl, -, rfl⟩ | ⟨t, f, fs, sh, f', hst, hstep, rfl⟩ | ⟨p, sh, -, hstep, rfl⟩ |
    ⟨d, -, -, rfl⟩ := library_next h
  · refine ⟨hl.real, fun u f hf => ?_⟩
    simp only [Function.update_apply] at hf
    split_ifs at hf with hu
    · rcases List.mem_cons.1 hf with rfl | hf
      · rintro p ⟨⟩
      · exact hl.frames t f hf
    · exact hl.frames u f hf
  · have hmem : ∀ g ∈ f :: fs, g.Addressed dlsym := by
      rw [← hst]
      exact hl.frames t
    obtain ⟨hreal, hf'⟩ := hstep.addressed hl.real (hmem f List.mem_cons_self)
    refine ⟨hreal, fun u g hg => ?_⟩
    simp only [Function.update_apply] at hg
    split_ifs at hg with hu
    · rcases List.mem_append.1 hg with hg | hg
      · exact hf' g (Option.mem_toList.1 hg)
      · exact hmem g (List.mem_cons_of_mem f hg)
    · exact hl.frames u g hg
  · obtain ⟨w, m, rfl⟩ := monitorStep_frame hstep
    exact ⟨hl.real, hl.frames⟩
  · exact ⟨hl.real, hl.frames⟩

/-- A step of a hooked call is the step of the call that is passed on. -/
theorem Moves.passStep {fs : List (Frame φ ι ρ)} (hst : l.stack t = f :: fs)
    (hf : f.Addressed dlsym) (hm : Moves raw dlsym t l.sh f a sh f') :
    passStep dlsym l.view a =
      some (Function.update l.view t ((f'.toList ++ fs).map Frame.view)) := by
  have hview : l.view t = f.view :: fs.map Frame.view := by
    simp only [Lib.view, hst, List.map_cons]
  cases hm with
  | @call h x p prev e =>
    have hp : dlsym h = some p := (hf _ rfl).symm
    simp [Hooks.passStep, hview, hp, Frame.view]
  | inside => simp [Hooks.passStep, hview, Frame.view]
  | ret => simp [Hooks.passStep, hview, Frame.view]
  | _ =>
    -- what the caller sees has not changed
    refine congrArg some ?_
    simp only [Option.toList_some, List.cons_append, List.nil_append, List.map_cons, Frame.view]
    exact (Function.update_eq_self_iff.2 hview.symm).symm

theorem passStep_of_monitorStep {p : MonitorPc} (h : monitorStep s a p = some sh)
    (σ : τ → List (Pending ι ρ)) : passStep dlsym σ a = some σ := by
  cases p with
  | observe now th hs => cases hs <;> obtain ⟨rfl, -⟩ := on_eq_some.1 h <;> rfl
  | _ =>
    obtain ⟨rfl, -⟩ := on_eq_some.1 h
    rfl

/-- The library only passes its calls on. -/
theorem library_refines : (library raw dlsym).Refines (passthrough dlsym)
    fun (l : Lib τ φ ι ρ) σ => Addressed dlsym l ∧ σ = l.view := by
  rintro l _ a l' ⟨hl, rfl⟩ h
  refine ⟨l'.view, ?_, next_addressed hl h, rfl⟩
  obtain ⟨t, g, x, rfl, hc, rfl⟩ | ⟨t, f, fs, sh, f', hst, hstep, rfl⟩ | ⟨p, sh, -, hstep, rfl⟩ |
    ⟨d, rfl, -, rfl⟩ := library_next h
  · have hc' : Pending.callable (l.view t) = true := by
      rw [Lib.view, callable_view]
      exact hc
    rw [view_update]
    exact if_pos hc'
  · have hf : f.Addressed dlsym := hl.frames t f (by rw [hst]; exact List.mem_cons_self)
    rw [view_update]
    exact hstep.passStep hst hf
  · exact passStep_of_monitorStep hstep _
  · rfl

/-- **The hooks are transparent.**  Whatever the threads do, and whatever the monitor does between
their steps: a hooked call calls the real function once, the one that `dlsym` finds under the same
name and with the same arguments, and returns what that one returns.  The address is null only if
`dlsym` does not find the function. -/
theorem hooks_transparent (raw : Option CString) (dlsym : Hook → Option φ) {now : ℤ}
    {as : List (Act τ φ ι ρ)} (h : (library raw dlsym).Run (.init now) as l) :
    (passthrough dlsym).Run (fun _ => []) as l.view ∧
      ∀ t, ∀ f ∈ l.stack t, ∀ prev, f.pc = .call none prev → dlsym f.hook = none := by
  have hinit : Addressed dlsym (.init now : Lib τ φ ι ρ) ∧
      (fun _ => []) = Lib.view (.init now : Lib τ φ ι ρ) := ⟨addressed_init dlsym now, rfl⟩
  obtain ⟨σ, hσ, hl, rfl⟩ := h.refines library_refines hinit
  refine ⟨hσ, fun t f hf prev hpc => ?_⟩
  exact (hl.frames t f hf none (by rw [hpc]; rfl)).symm

/-- One thread connects, and is sent back the result 5. -/
def oneConnect : List (Act ℕ ℕ ℕ ℕ) :=
  [.call 0 .connect 7, .tau 0, .dlsym 0 .connect (some 1), .tau 0, .tau 0, .tau 0, .spawn 0 true,
    .tau 0, .tau 0, .tau 0, .monitor, .tau 0, .realCall 0 .connect 1 7, .monitor, .realRet 0 5,
    .tau 0, .tau 0, .ret 0 .connect 5]

theorem hooks_transparent_oneConnect :
    ∃ l, (library none fun _ => some 1).Run (.init 100) oneConnect l ∧
      (passthrough fun _ => some 1).Run (fun _ => []) oneConnect l.view := by
  obtain ⟨l, hl⟩ := Option.isSome_iff_exists.1 (show
    ((library none fun _ => some 1).exec (.init 100) oneConnect).isSome = true by decide)
  exact ⟨l, hl, (hooks_transparent none (fun _ => some 1) hl).1⟩

end

/-! ### The start of the monitor -/

/-- The closure of `call_once`. -/
def HookPc.inClosure : HookPc φ ρ → Bool
  | .readThreshold _ | .spawn _ | .finish _ => true
  | _ => false

/-- After `ensure_monitor`. -/
def HookPc.past : HookPc φ ρ → Bool
  | .enterLoad _ | .enterClock _ | .enterStore _ _ | .call _ _ | .inside _ | .leaveStart _ _
  | .leaveWarn _ | .ret _ => true
  | _ => false

/-- What the closure has done at its control points, with `n` calls of `pthread_create`. -/
def ClosureOk (raw : Option CString) (n : ℕ) (s : Shared τ φ) : HookPc φ ρ → Prop
  | .readThreshold _ => n = 0 ∧ s.monitor = none
  | .spawn _ => n = 0 ∧ s.monitor = none ∧ s.thresholdSecs = readThreshold raw
  | .finish _ => n = 1 ∧ s.thresholdSecs = readThreshold raw
  | _ => False

/-- What `call_once` stands for. -/
def OnceOk (raw : Option CString) (n : ℕ) (l : Lib τ φ ι ρ) : Once τ → Prop
  | .fresh => n = 0 ∧ l.sh.monitor = none
  | .running t => ∃ f fs, l.stack t = f :: fs ∧ ClosureOk raw n l.sh f.pc
  | .done => n = 1 ∧ l.sh.thresholdSecs = readThreshold raw

/-- The monitor is being set up in order, after `n` calls of `pthread_create`. -/
structure SetUp (raw : Option CString) (n : ℕ) (l : Lib τ φ ι ρ) : Prop where
  once : OnceOk raw n l l.sh.once
  closure : ∀ t, ∀ f ∈ l.stack t, f.pc.inClosure = true → l.sh.once = .running t
  past : ∀ t, ∀ f ∈ l.stack t, f.pc.past = true → l.sh.once = .done
  /-- only the innermost call of a thread is not in its real function -/
  below : ∀ t f fs, l.stack t = f :: fs → ∀ g ∈ fs, ∃ prev, g.pc = .inside prev

theorem setUp_init (raw : Option CString) (now : ℤ) :
    SetUp raw 0 (.init now : Lib τ φ ι ρ) := by
  refine ⟨⟨rfl, rfl⟩, fun t f hf => ?_, fun t f hf => ?_, fun t f fs hst => ?_⟩
  · cases hf
  · cases hf
  · cases hst

/-- `pthread_create` is called. -/
def Act.isSpawn : Act τ φ ι ρ → Bool
  | .spawn _ _ => true
  | _ => false

theorem SetUp.thresholdSecs {raw : Option CString} {n : ℕ} {l : Lib τ φ ι ρ} (hl : SetUp raw n l)
    (hm : l.sh.monitor ≠ none) : l.sh.thresholdSecs = readThreshold raw := by
  have honce := hl.once
  cases ho : l.sh.once with
  | fresh =>
    rw [ho] at honce
    exact absurd honce.2 hm
  | done =>
    rw [ho] at honce
    exact honce.2
  | running t =>
    rw [ho] at honce
    obtain ⟨f, fs, -, hf⟩ := honce
    cases hpc : f.pc with
    | readThreshold p =>
      rw [hpc] at hf
      exact absurd hf.2 hm
    | spawn p =>
      rw [hpc] at hf
      exact hf.2.2
    | finish p =>
      rw [hpc] at hf
      exact hf.2
    | _ =>
      rw [hpc] at hf
      exact hf.elim

theorem SetUp.le_one {raw : Option CString} {n : ℕ} {l : Lib τ φ ι ρ} (hl : SetUp raw n l) :
    n ≤ 1 := by
  have honce := hl.once
  cases ho : l.sh.once with
  | fresh | done =>
    rw [ho] at honce
    have := honce.1
    omega
  | running t =>
    rw [ho] at honce
    obtain ⟨f, fs, -, hf⟩ := honce
    cases hpc : f.pc with
    | readThreshold p | spawn p | finish p =>
      rw [hpc] at hf
      have := hf.1
      omega
    | _ =>
      rw [hpc] at hf
      exact hf.elim

/-- The call `f`, which is in the closure, is the one that runs it. -/
theorem SetUp.running {raw : Option CString} {n : ℕ} {l : Lib τ φ ι ρ} {t : τ} {f : Frame φ ι ρ}
    {fs : List (Frame φ ι ρ)} (hl : SetUp raw n l) (hst : l.stack t = f :: fs)
    (hc : f.pc.inClosure = true) : l.sh.once = .running t ∧ ClosureOk raw n l.sh f.pc := by
  have hmem : f ∈ l.stack t := by
    rw [hst]
    exact List.mem_cons_self
  have hrun := hl.closure t f hmem hc
  have hok := hl.once
  rw [hrun] at hok
  obtain ⟨k, ks, hk, hok⟩ := hok
  obtain ⟨rfl, -⟩ := List.cons.inj (hst.symm.trans hk)
  exact ⟨hrun, hok⟩

section

variable [DecidableEq τ] {raw : Option CString} {n : ℕ} {l : Lib τ φ ι ρ} {t : τ}
  {f : Frame φ ι ρ} {f' : Option (Frame φ ι ρ)} {fs : List (Frame φ ι ρ)}

/-- A frame of the stacks after a step of the call `f`. -/
theorem mem_update (hst : l.stack t = f :: fs) {u : τ} {g : Frame φ ι ρ}
    (hg : g ∈ Function.update l.stack t (f'.toList ++ fs) u) :
    (u = t ∧ g ∈ f') ∨ (g ∈ l.stack u ∧ (u = t → g ∈ fs)) := by
  simp only [Function.update_apply] at hg
  split_ifs at hg with hu
  · subst hu
    rcases List.mem_append.1 hg with hg | hg
    · exact .inl ⟨rfl, Option.mem_toList.1 hg⟩
    · exact .inr ⟨by rw [hst]; exact List.mem_cons_of_mem f hg, fun _ => hg⟩
  · exact .inr ⟨hg, fun hut => absurd hut hu⟩

theorem SetUp.below_update (hl : SetUp raw n l) (hst : l.stack t = f :: fs) (u : τ)
    (g : Frame φ ι ρ) (gs : List (Frame φ ι ρ))
    (hu : Function.update l.stack t (f'.toList ++ fs) u = g :: gs) :
    ∀ k ∈ gs, ∃ prev, k.pc = .inside prev := by
  simp only [Function.update_apply] at hu
  split_ifs at hu with hut
  · intro k hk
    refine hl.below t f fs hst k ?_
    cases f' with
    | none =>
      rw [show fs = g :: gs from hu]
      exact List.mem_cons_of_mem g hk
    | some f' =>
      obtain ⟨-, rfl⟩ := List.cons.inj (show f' :: fs = g :: gs from hu)
      exact hk
  · exact hl.below u g gs hu

/-- A step outside the closure, which leaves what the closure sets alone. -/
theorem SetUp.move (hl : SetUp raw n l) (hst : l.stack t = f :: fs) {sh : Shared τ φ}
    (honce : sh.once = l.sh.once) (hmon : sh.monitor = l.sh.monitor)
    (hth : sh.thresholdSecs = l.sh.thresholdSecs) (hf : f.pc.inClosure = false)
    (hf' : ∀ g ∈ f', g.pc.inClosure = false ∧ (g.pc.past = true → l.sh.once = .done)) :
    SetUp raw n { l with sh := sh, stack := Function.update l.stack t (f'.toList ++ fs) } := by
  refine ⟨?_, fun u g hg hc => ?_, fun u g hg hp => ?_, hl.below_update hst⟩
  · have ho := hl.once
    simp only [honce]
    cases hc : l.sh.once with
    | fresh =>
      rw [hc] at ho
      exact ⟨ho.1, hmon.trans ho.2⟩
    | done =>
      rw [hc] at ho
      exact ⟨ho.1, hth.trans ho.2⟩
    | running u =>
      rw [hc] at ho
      obtain ⟨g, gs, hg, hok⟩ := ho
      -- it is not this thread that runs the closure
      have hut : u ≠ t := by
        rintro rfl
        obtain ⟨rfl, rfl⟩ := List.cons.inj (hst.symm.trans hg)
        cases hpc : f.pc with
        | readThreshold p | spawn p | finish p =>
          rw [hpc] at hf
          cases hf
        | _ =>
          rw [hpc] at hok
          exact hok
      refine ⟨g, gs, (Function.update_of_ne hut ..).trans hg, ?_⟩
      cases hpc : g.pc with
      | readThreshold p =>
        rw [hpc] at hok
        exact ⟨hok.1, hmon.trans hok.2⟩
      | spawn p =>
        rw [hpc] at hok
        exact ⟨hok.1, hmon.trans hok.2.1, hth.trans hok.2.2⟩
      | finish p =>
        rw [hpc] at hok
        exact ⟨hok.1, hth.trans hok.2⟩
      | _ =>
        rw [hpc] at hok
        exact hok
  · rcases mem_update hst hg with ⟨-, hgf⟩ | ⟨hgl, -⟩
    · rw [(hf' g hgf).1] at hc
      cases hc
    · exact honce.trans (hl.closure u g hgl hc)
  · rcases mem_update hst hg with ⟨-, hgf⟩ | ⟨hgl, -⟩
    · exact honce.trans ((hf' g hgf).2 hp)
    · exact honce.trans (hl.past u g hgl hp)

/-- A step into the closure, or inside it. -/
theorem SetUp.advance (hl : SetUp raw n l) (hst : l.stack t = f :: fs) {sh : Shared τ φ} {m : ℕ}
    {g : Frame φ ι ρ} (hne : l.sh.once ≠ .done) (hrun : ∀ u, l.sh.once = .running u → u = t)
    (honce : sh.once = .running t) (hpast : g.pc.past = false) (hg : ClosureOk raw m sh g.pc) :
    SetUp raw m
      { l with sh := sh, stack := Function.update l.stack t ((some g).toList ++ fs) } := by
  refine ⟨?_, fun u k hk hc => ?_, fun u k hk hp => ?_, hl.below_update hst⟩
  · simp only [honce]
    exact ⟨g, fs, Function.update_self .., hg⟩
  · rcases mem_update hst hk with ⟨rfl, -⟩ | ⟨hkl, -⟩
    · exact honce
    · rw [hrun u (hl.closure u k hkl hc)]
      exact honce
  · rcases mem_update hst hk with ⟨-, hkg⟩ | ⟨hkl, -⟩
    · cases hkg
      rw [hpast] at hp
      cases hp
    · exact absurd (hl.past u k hkl hp) hne

/-- A step inside the closure. -/
theorem SetUp.inside (hl : SetUp raw n l) (hst : l.stack t = f :: fs) {sh : Shared τ φ} {m : ℕ}
    {g : Frame φ ι ρ} (hrun : l.sh.once = .running t) (honce : sh.once = .running t)
    (hpast : g.pc.past = false) (hg : ClosureOk raw m sh g.pc) :
    SetUp raw m
      { l with sh := sh, stack := Function.update l.stack t ((some g).toList ++ fs) } := by
  refine hl.advance hst ?_ ?_ honce hpast hg
  · rw [hrun]
    rintro ⟨⟩
  · rw [hrun]
    rintro u ⟨⟩
    rfl

/-- The end of `call_once`. -/
theorem SetUp.finished (hl : SetUp raw n l) {g h : Hook} {x y : ι} {p q : Option φ} {e d : ℤ}
    (hst : l.stack t = ⟨g, x, .finish p, e⟩ :: fs) :
    SetUp raw n { l with
      sh := { l.sh with once := .done }
      stack := Function.update l.stack t
        ((some (⟨h, y, .enterLoad q, d⟩ : Frame φ ι ρ)).toList ++ fs) } := by
  obtain ⟨hrun, hok⟩ := hl.running hst rfl
  refine ⟨hok, fun u k hk hc => ?_, fun _ _ _ _ => rfl, hl.below_update hst⟩
  rcases mem_update hst hk with ⟨-, hkg⟩ | ⟨hkl, hkt⟩
  · cases hkg
    cases hc
  · -- the other calls of this thread are in their real functions
    obtain rfl := Once.running.inj (hrun.symm.trans (hl.closure u k hkl hc))
    obtain ⟨prev, hprev⟩ := hl.below _ _ _ hst k (hkt rfl)
    rw [hprev] at hc
    cases hc

theorem SetUp.call (hl : SetUp raw n l) {h : Hook} {x : ι} (hc : callable (l.stack t) = true) :
    SetUp raw n { l with
      stack := Function.update l.stack t (⟨h, x, .load, 0⟩ :: l.stack t) } := by
  refine ⟨?_, fun u g hg hgc => ?_, fun u g hg hgp => ?_, fun u g gs hg k hk => ?_⟩
  · have hok := hl.once
    cases ho : l.sh.once with
    | fresh | done =>
      rw [ho] at hok
      exact hok
    | running u =>
      rw [ho] at hok
      obtain ⟨f, fs, hf, hok⟩ := hok
      -- a thread in the closure is not in a real function
      have hut : u ≠ t := by
        rintro rfl
        obtain ⟨k, y, pc, e⟩ := f
        rw [hf] at hc
        cases pc with
        | inside prev => exact hok
        | _ => cases hc
      exact ⟨f, fs, (Function.update_of_ne hut ..).trans hf, hok⟩
  · simp only [Function.update_apply] at hg
    split_ifs at hg with hu
    · rcases List.mem_cons.1 hg with rfl | hg
      · cases hgc
      · rw [hu]
        exact hl.closure t g hg hgc
    · exact hl.closure u g hg hgc
  · simp only [Function.update_apply] at hg
    split_ifs at hg with hu
    · rcases List.mem_cons.1 hg with rfl | hg
      · cases hgp
      · exact hl.past t g hg hgp
    · exact hl.past u g hg hgp
  · simp only [Function.update_apply] at hg
    split_ifs at hg with hu
    · obtain ⟨-, rfl⟩ := List.cons.inj hg
      cases hst : l.stack t with
      | nil =>
        rw [hst] at hk
        cases hk
      | cons f fs =>
        rw [hst] at hk hc
        rcases List.mem_cons.1 hk with rfl | hk
        · obtain ⟨y, z, pc, e⟩ := k
          cases pc with
          | inside prev => exact ⟨prev, rfl⟩
          | _ => cases hc
        · exact hl.below t f fs hst k hk
    · exact hl.below u g gs hg k hk

variable {dlsym : Hook → Option φ} {a : Act τ φ ι ρ} {sh : Shared τ φ}

theorem SetUp.moves (hl : SetUp raw n l) (hst : l.stack t = f :: fs)
    (hm : Moves raw dlsym t l.sh f a sh f') :
    SetUp raw (n + if a.isSpawn then 1 else 0)
      { l with sh := sh, stack := Function.update l.stack t (f'.toList ++ fs) } := by
  have hpast : f.pc.past = true → l.sh.once = .done := by
    refine hl.past t f ?_
    rw [hst]
    exact List.mem_cons_self
  cases hm with
  | first ho =>
    have hok := hl.once
    rw [ho] at hok
    refine hl.advance hst ?_ ?_ rfl rfl hok
    · rw [ho]
      rintro ⟨⟩
    · rw [ho]
      rintro u ⟨⟩
  | later ho =>
    refine hl.move hst rfl rfl rfl rfl ?_
    rintro _ ⟨⟩
    exact ⟨rfl, fun _ => ho⟩
  | readThreshold =>
    obtain ⟨hrun, hok⟩ := hl.running hst rfl
    exact hl.inside hst hrun hrun rfl ⟨hok.1, hok.2, rfl⟩
  | spawn =>
    obtain ⟨hrun, hok⟩ := hl.running hst rfl
    exact hl.inside hst hrun hrun rfl ⟨by rw [hok.1]; rfl, hok.2.2⟩
  | finish => exact hl.finished hst
  | ret =>
    refine hl.move hst rfl rfl rfl rfl ?_
    rintro _ ⟨⟩
  | unknown | known | resolve | cache =>
    refine hl.move hst rfl rfl rfl rfl ?_
    rintro _ ⟨⟩
    exact ⟨rfl, fun hp => by cases hp⟩
  | _ =>
    refine hl.move hst rfl rfl rfl rfl ?_
    rintro _ ⟨⟩
    exact ⟨rfl, fun _ => hpast rfl⟩

variable [DecidableEq φ] [DecidableEq ι] [DecidableEq ρ]

/-- The monitor only runs once it has been started. -/
theorem SetUp.monitorStep (hl : SetUp raw n l) {p : MonitorPc} {b : Bool}
    (hp : l.sh.monitor = some p) (h : monitorStep l.sh a p = some sh) :
    SetUp raw n { l with sh := sh, ended := b } := by
  have hne : l.sh.monitor ≠ none := by
    rw [hp]
    exact Option.some_ne_none p
  obtain ⟨w, m, rfl⟩ := monitorStep_frame h
  refine ⟨?_, hl.closure, hl.past, hl.below⟩
  have hok := hl.once
  cases ho : l.sh.once with
  | fresh =>
    rw [ho] at hok
    exact absurd hok.2 hne
  | done =>
    rw [ho] at hok
    exact hok
  | running u =>
    rw [ho] at hok
    obtain ⟨f, fs, hf, hok⟩ := hok
    refine ⟨f, fs, hf, ?_⟩
    cases hpc : f.pc with
    | readThreshold q =>
      rw [hpc] at hok
      exact absurd hok.2 hne
    | spawn q =>
      rw [hpc] at hok
      exact absurd hok.2.1 hne
    | _ =>
      rw [hpc] at hok
      exact hok

theorem next_setUp {l' : Lib τ φ ι ρ} (hl : SetUp raw n l)
    (h : (library raw dlsym).next l a = some l') :
    SetUp raw (n + if a.isSpawn then 1 else 0) l' := by
  obtain ⟨t, g, x, rfl, hc, rfl⟩ | ⟨t, f, fs, sh, f', hst, hstep, rfl⟩ | ⟨p, sh, hp, hstep, rfl⟩ |
    ⟨d, rfl, -, rfl⟩ := library_next h
  · exact hl.call hc
  · exact hl.moves hst hstep
  · have ha : a.isSpawn = false := by
      have hthread := monitorStep_thread hstep
      cases a <;> first | rfl | cases hthread
    simp only [ha, Bool.false_eq_true, if_false, add_zero]
    exact hl.monitorStep hp hstep
  · refine ⟨?_, hl.closure, hl.past, hl.below⟩
    have hok := hl.once
    cases ho : l.sh.once with
    | fresh | done =>
      rw [ho] at hok
      exact hok
    | running u =>
      rw [ho] at hok
      obtain ⟨f, fs, hf, hok⟩ := hok
      exact ⟨f, fs, hf, by cases hpc : f.pc <;> rw [hpc] at hok <;> exact hok⟩

theorem run_setUp {now : ℤ} {as : List (Act τ φ ι ρ)}
    (h : (library raw dlsym).Run (.init now) as l) : SetUp raw (as.countP Act.isSpawn) l := by
  refine Machine.Run.induct (P := fun as l => SetUp raw (as.countP Act.isSpawn) l)
    (setUp_init raw now) (fun as l a l' _ hl hn => ?_) h
  rw [List.countP_append, List.countP_singleton]
  exact next_setUp hl hn

/-- The real function is called after `ensure_monitor`. -/
theorem spawned_of_realCall {l' : Lib τ φ ι ρ} {g : Hook} {p : φ} {x : ι} (hl : SetUp raw n l)
    (h : (library raw dlsym).next l (.realCall t g p x) = some l') : n = 1 := by
  obtain ⟨u, k, y, ha, -⟩ | ⟨u, f, fs, sh, f', hst, hstep, -⟩ | ⟨q, sh, -, hstep, -⟩ | ⟨d, ha, -⟩ :=
    library_next h
  · cases ha
  · cases hstep
    have hdone := hl.past t _ (by rw [hst]; exact List.mem_cons_self) rfl
    have hok := hl.once
    rw [hdone] at hok
    exact hok.1
  · cases monitorStep_thread hstep
  · cases ha

/-- The monitor reads the threshold as it has been set. -/
theorem limit_eq {l' : Lib τ φ ι ρ} {th : ℤ} (hl : SetUp raw n l)
    (h : (library raw dlsym).next l (.limit th) = some l') : th = readThreshold raw := by
  obtain ⟨u, k, y, ha, -⟩ | ⟨u, f, fs, sh, f', -, hstep, -⟩ | ⟨q, sh, hq, hstep, -⟩ | ⟨d, ha, -⟩ :=
    library_next h
  · cases ha
  · cases hstep.thread
  · have hth : l.sh.thresholdSecs = readThreshold raw := by
      refine hl.thresholdSecs ?_
      rw [hq]
      exact Option.some_ne_none q
    cases q with
    | limit now =>
      cases (on_eq_some.1 hstep).1
      exact hth
    | observe now th hs => cases hs <;> cases (on_eq_some.1 hstep).1
    | _ => cases (on_eq_some.1 hstep).1
  · cases ha

/-- **The monitor is set up once, and in time.**  In every run `pthread_create` is called at most
once, and it has been called before the first real function is; the threshold that a scan reads is
that of the environment, never the default that stood there before. -/
theorem monitor_set_up (raw : Option CString) (dlsym : Hook → Option φ) {now : ℤ}
    {as : List (Act τ φ ι ρ)} (h : (library raw dlsym).Run (.init now) as l) :
    as.countP Act.isSpawn ≤ 1 ∧
      (∀ xs t g p x ys, as = xs ++ .realCall t g p x :: ys → xs.countP Act.isSpawn = 1) ∧
      ∀ th, .limit th ∈ as → th = readThreshold raw := by
  refine ⟨(run_setUp h).le_one, fun xs t g p x ys has => ?_, fun th hth => ?_⟩
  · rw [has] at h
    obtain ⟨l₁, l₂, h₁, hn, -⟩ := Machine.run_append_cons.1 h
    exact spawned_of_realCall (run_setUp h₁) hn
  · obtain ⟨xs, ys, rfl⟩ := List.append_of_mem hth
    obtain ⟨l₁, l₂, h₁, hn, -⟩ := Machine.run_append_cons.1 h
    exact limit_eq (run_setUp h₁) hn

/-- Two threads connect, and the second finds the first in the closure of `call_once`. -/
def closureEntered : List (Act ℕ ℕ ℕ ℕ) :=
  [.call 0 .connect 7, .tau 0, .dlsym 0 .connect (some 1), .tau 0, .tau 0, .call 1 .connect 8,
    .tau 1]

/-- The closure is left, the second thread overtakes the first, and the monitor begins a scan. -/
def closureLeft : List (Act ℕ ℕ ℕ ℕ) :=
  [.tau 0, .spawn 0 true, .tau 0, .tau 1, .tau 1, .tau 1, .tau 1, .realCall 1 .connect 1 8,
    .monitor, .monitor, .limit 45, .tau 0, .realCall 0 .connect 1 7]

theorem monitor_set_up_twoConnects :
    (library (some "45".toList) fun _ => some 1).exec (.init 100) (closureEntered ++ [.tau 1]) =
        none ∧
      (∃ l, (library (some "45".toList) fun _ => some 1).Run (.init 100)
        (closureEntered ++ closureLeft) l) ∧
      (closureEntered ++ closureLeft).countP Act.isSpawn ≤ 1 ∧
      (∀ xs t g p x ys, closureEntered ++ closureLeft = xs ++ .realCall t g p x :: ys →
        xs.countP Act.isSpawn = 1) ∧
      ∀ th, .limit th ∈ closureEntered ++ closureLeft → th = 45 := by
  -- the second thread waits while the first is in the closure
  have hwait : ((library (some "45".toList) fun _ => some 1).exec (.init 100)
      (closureEntered ++ [.tau 1])).isNone = true := by decide
  obtain ⟨l, hl⟩ := Option.isSome_iff_exists.1 (show ((library (some "45".toList) fun _ =>
    some 1).exec (.init 100) (closureEntered ++ closureLeft)).isSome = true by decide)
  obtain ⟨hspawn, hreal, hlimit⟩ := monitor_set_up (some "45".toList) (fun _ => some 1) hl
  have h45 : readThreshold (some "45".toList) = 45 := by decide
  exact ⟨Option.isNone_iff_eq_none.1 hwait, ⟨l, hl⟩, hspawn, hreal, fun th hth =>
    (hlimit th hth).trans h45⟩

end

end Hooks

end Detector

end Autossh
