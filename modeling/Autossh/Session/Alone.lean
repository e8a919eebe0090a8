import Autossh.Session.Step

/-!
# A call that no other call disturbs

* `solo` : one call, with the environment moving beside it.  `exec_solo` says that this is what the
  session does while only that call takes steps;
* `Calls` : a call that returns, the session's supervisor living on;
* `refused_iff` : a start call on a session whose supervisor is alive leaves the session as it was
  exactly if `AUTOSSH_STATE_ERROR` is what it was in.
-/

namespace Autossh

namespace Session

/-- The call takes a step, or the environment moves. -/
inductive SoloAct
  | step (y : Sys)
  | env (m : Move)
  deriving DecidableEq, Repr

/-- The action of the session, for the call `t`. -/
def SoloAct.act (t : ℕ) : SoloAct → Act
  | step y => .step t y
  | env m => .env m

/-- One step of a call with its environment. -/
def soloNext (c : Cfg) (x : World × Pc) : SoloAct → Option (World × Pc)
  | .step y => callStep c x.1 y x.2
  | .env m => (x.1.procs.move m).map fun k => ({ x.1 with procs := k }, x.2)

/-- A call alone. -/
def solo (c : Cfg) : Machine (World × Pc) SoloAct := ⟨soloNext c⟩

/-- What the call `t` sees. -/
def St.at (t : ℕ) (s : St) : World × Pc := (s.world, s.pcs t)

variable {c : Cfg} {s : St} {w w' : World} {t : ℕ} {y : Sys} {p p' : Pc}

theorem next_solo (b : SoloAct) : (next c s (b.act t)).map (St.at t) = soloNext c (s.at t) b := by
  cases b with
  | step y =>
    simp only [SoloAct.act, next, soloNext, Option.map_map]
    refine Eq.trans (Option.map_congr fun x hx => ?_) Option.map_id'
    simp only [Function.comp_apply, St.at, Function.update_self]
  | env m =>
    simp only [SoloAct.act, next, soloNext, Option.map_map]
    rfl

theorem exec_solo_from (bs : List SoloAct) :
    ((session c).exec s (bs.map (SoloAct.act t))).map (St.at t) = (solo c).exec (s.at t) bs := by
  induction bs generalizing s with
  | nil => rfl
  | cons b bs ih =>
    have hb := next_solo (c := c) (s := s) (t := t) b
    simp only [List.map_cons, Machine.exec, session, solo] at ih hb ⊢
    cases hn : next c s (b.act t) with
    | none =>
      rw [hn] at hb
      rw [← hb]
      rfl
    | some s' =>
      rw [hn] at hb
      rw [← hb]
      exact ih

/-- **A call alone is a call of the session.** -/
theorem exec_solo (c : Cfg) (s : St) (f : Fn) (bs : List SoloAct) :
    ((session c).exec s (.call f :: bs.map (SoloAct.act s.count))).map (St.at s.count) =
      (solo c).exec (s.world, f.entry) bs := by
  have hentry : St.at s.count { s with
      count := s.count + 1, pcs := Function.update s.pcs s.count f.entry } =
        (s.world, f.entry) := by
    simp only [St.at, Function.update_self]
  rw [← hentry]
  exact exec_solo_from bs

/-- The rule of invariants for a call alone. -/
theorem solo_invariant {I : World → Pc → Prop} {as : List SoloAct}
    (h : (solo c).Run (w, p) as (w', p')) (h₀ : I w p)
    (hstep : ∀ w y p w' p', I w p → callStep c w y p = some (w', p') → I w' p')
    (henv : ∀ w m p k, .env m ∈ as → I w p → w.procs.move m = some k →
      I { w with procs := k } p) : I w' p' := by
  refine Machine.Run.induct (P := fun bs x => (∀ b ∈ bs, b ∈ as) → I x.1 x.2) (fun _ => h₀) ?_ h
    fun _ hb => hb
  intro bs x b x' _ ih hn hsub
  have hx := ih fun b hb => hsub b (List.mem_append_left _ hb)
  cases b with
  | step y => exact hstep _ y _ _ _ hx hn
  | env m =>
    obtain ⟨k, hk, rfl⟩ := Option.map_eq_some_iff.1 hn
    exact henv _ m _ k (hsub _ (List.mem_append_right _ (List.mem_singleton_self _))) hx hk

/-! ### A session with a living supervisor -/

/-- `p` is a supervisor, and has not exited. -/
def Live (k : ProcTable) (p : ℤ) : Prop := k p = some ⟨.own, none⟩

/-- Not the exit of `p`. -/
def SoloAct.spares (p : ℤ) : SoloAct → Bool
  | env (.exit q _) => q ≠ p
  | _ => true

/-- The call returns `v` and leaves the session as `w'`; its supervisor does not exit meanwhile. -/
def Calls (c : Cfg) (f : Fn) (w : World) (v : ℤ) (w' : World) : Prop :=
  ∃ as, (solo c).Run (w, f.entry) as (w', .done v) ∧ ∀ a ∈ as, a.spares w.pid = true

theorem live_move {k k' : ProcTable} {q : ℤ} {m : Move} (hq : Live k q)
    (hm : (SoloAct.env m).spares q = true) (h : k.move m = some k') : Live k' q := by
  unfold Live at hq ⊢
  cases m with
  | exit r st =>
    have hne : r ≠ q := of_decide_eq_true hm
    simp only [ProcTable.move] at h
    split at h
    · split_ifs at h
      cases h
      rw [Function.update_of_ne hne.symm, hq]
    · cases h
  | spawn r kind =>
    simp only [ProcTable.move] at h
    split_ifs at h with hr
    cases h
    have hne : q ≠ r := by
      rintro rfl
      rw [hr.2.1] at hq
      cases hq
    rw [Function.update_of_ne hne, hq]
  | vanish r =>
    simp only [ProcTable.move] at h
    split_ifs at h with hr
    cases h
    have hne : q ≠ r := by
      rintro rfl
      simp [ProcTable.owns, hq] at hr
    rw [Function.update_of_ne hne, hq]

/-- There is nothing to reap. -/
theorem live_waitpid {k k' : ProcTable} {q : ℤ} {nohang : Bool} {r : Waited} (hpos : 0 < q)
    (hq : Live k q) (h : k.waitpid q nohang r = some k') : k' = k ∧ r.rc ≠ q := by
  rcases ProcTable.waitpid_cases h with ⟨q', st, rfl, heq, -⟩ | ⟨rfl, hne, -⟩
  · obtain rfl := heq hpos
    simp only [ProcTable.waitpid, show k q' = _ from hq] at h
    simp at h
  · exact ⟨rfl, hne hpos⟩

/-- The session has the same supervisor and the same ports. -/
structure Same (w₀ w : World) : Prop where
  pid : w.pid = w₀.pid
  localPort : w.localPort = w₀.localPort
  monitorPort : w.monitorPort = w₀.monitorPort
  live : Live w.procs w₀.pid

theorem Same.move {w₀ : World} {m : Move} {k : ProcTable} (h : Same w₀ w)
    (hm : (SoloAct.env m).spares w₀.pid = true) (hk : w.procs.move m = some k) :
    Same w₀ { w with procs := k } :=
  ⟨h.pid, h.localPort, h.monitorPort, live_move h.live hm hk⟩

/-- A start call that finds a supervisor. -/
def RefusedAt (w₀ w : World) : Pc → Prop
  | .start .load | .setError .alreadyStarted => w.state = w₀.state
  | .ret v | .done v => v = -1 ∧ w.state = .error
  | _ => False

/-- A state call that finds the supervisor alive. -/
def ReportsAt (w₀ w : World) : Pc → Prop
  | .state .load | .state .read => w.state = w₀.state
  | .state (.poll p) => p.1 = w₀.pid ∧ w.state = w₀.state
  | .ret v | .done v => v = w₀.state.code ∧ w.state = w₀.state
  | _ => False

theorem callStep_refused {w₀ : World} (hpos : 0 < w₀.pid) (hw : Same w₀ w)
    (hp : RefusedAt w₀ w p) (h : callStep c w y p = some (w', p')) :
    Same w₀ w' ∧ RefusedAt w₀ w' p' := by
  cases p with
  | start q =>
    cases q with
    | load =>
      obtain ⟨-, rfl, rfl⟩ := on_pair_eq_some.1 h
      rw [if_pos (hw.pid ▸ hpos)]
      exact ⟨hw, hp⟩
    | _ => exact hp.elim
  | setError m =>
    obtain ⟨-, rfl, rfl⟩ := on_pair_eq_some.1 h
    exact ⟨⟨hw.pid, hw.localPort, hw.monitorPort, hw.live⟩, rfl, rfl⟩
  | ret v =>
    obtain ⟨-, rfl, rfl⟩ := on_pair_eq_some.1 h
    exact ⟨hw, hp⟩
  | idle | done v => cases h
  | _ => exact hp.elim

theorem callStep_reports {w₀ : World} (hpos : 0 < w₀.pid) (hw : Same w₀ w)
    (hp : ReportsAt w₀ w p) (h : callStep c w y p = some (w', p')) :
    Same w₀ w' ∧ ReportsAt w₀ w' p' := by
  cases p with
  | state q =>
    cases q with
    | load =>
      obtain ⟨-, rfl, rfl⟩ := on_pair_eq_some.1 h
      rw [dif_pos (hw.pid ▸ hpos)]
      exact ⟨hw, hw.pid, hp⟩
    | poll q =>
      obtain ⟨r, k, rfl, hk, rfl, rfl⟩ := World.waitpid_eq_some.1 h
      obtain ⟨rfl, hne⟩ := live_waitpid q.2 (hp.1 ▸ hw.live) hk
      rw [if_neg (by simp [childExited, hne])]
      exact ⟨⟨hw.pid, hw.localPort, hw.monitorPort, hw.live⟩, hp.2⟩
    | read =>
      obtain ⟨-, rfl, rfl⟩ := on_pair_eq_some.1 h
      exact ⟨hw, congrArg State.code hp, hp⟩
    | _ => exact hp.elim
  | ret v =>
    obtain ⟨-, rfl, rfl⟩ := on_pair_eq_some.1 h
    exact ⟨hw, hp⟩
  | idle | done v => cases h
  | _ => exact hp.elim

section living

variable {v : ℤ} (hpos : 0 < w.pid) (hlive : Live w.procs w.pid)
include hpos hlive

omit hpos in
/-- The rule for a call: the session stays the same, and what holds at its control points. -/
theorem Calls.keeps {f : Fn} {A : World → Pc → Prop} (h : Calls c f w v w')
    (h₀ : A w f.entry) (henv : ∀ w₁ p k, A w₁ p → A { w₁ with procs := k } p)
    (hstep : ∀ w₁ y p w₂ p', Same w w₁ → A w₁ p → callStep c w₁ y p = some (w₂, p') →
      Same w w₂ ∧ A w₂ p') : Same w w' ∧ A w' (.done v) := by
  obtain ⟨as, hr, hsp⟩ := h
  refine solo_invariant (I := fun w' p => Same w w' ∧ A w' p) hr
    ⟨⟨rfl, rfl, rfl, hlive⟩, h₀⟩ ?_ ?_
  · intro w₁ y p w₂ p' hw hn
    exact hstep w₁ y p w₂ p' hw.1 hw.2 hn
  · intro w₁ m p k hm hw hk
    exact ⟨hw.1.move (hsp _ hm) hk, henv w₁ p k hw.2⟩

theorem calls_start (h : Calls c .start w v w') :
    Same w w' ∧ v = -1 ∧ w'.state = .error := by
  refine h.keeps hlive (A := RefusedAt w) rfl (fun _ _ _ hp => hp) ?_
  intro w₁ y p w₂ p' hsame hp hn
  exact callStep_refused hpos hsame hp hn

theorem calls_state (h : Calls c .state w v w') :
    Same w w' ∧ v = w.state.code ∧ w'.state = w.state := by
  refine h.keeps hlive (A := ReportsAt w) rfl (fun _ _ _ hp => hp) ?_
  intro w₁ y p w₂ p' hsame hp hn
  exact callStep_reports hpos hsame hp hn

omit hlive in
theorem exists_calls_start (c : Cfg) : ∃ w', Calls c .start w (-1) w' := by
  refine ⟨{ w with state := .error, lastError := .alreadyStarted },
    [.step .tau, .step .tau, .step (.ret (-1))], ?_, by simp [SoloAct.spares]⟩
  simp [Machine.Run, Machine.exec, solo, soloNext, callStep, startStep, Fn.entry, on, hpos]

theorem exists_calls_state (c : Cfg) : ∃ w', Calls c .state w w.state.code w' := by
  have hwait : w.procs.waitpid w.pid true .zero = some w.procs := by
    have hq : w.procs w.pid = some ⟨.own, none⟩ := hlive
    simp [ProcTable.waitpid, ProcTable.child, hq]
  refine ⟨w, [.step .tau, .step (.waitpid w.pid true .zero), .step .tau,
    .step (.ret w.state.code)], ?_, by simp [SoloAct.spares]⟩
  have hne : ¬(0 : ℤ) = w.pid := by omega
  simp [Machine.Run, Machine.exec, solo, soloNext, callStep, stateStep, Fn.entry, on, hpos,
    World.waitpid, Sys.waitpid?, hwait, childExited, Waited.rc, hne]

end living

/-- A start call returns -1 and leaves the session as it was, the text of its last error apart:
also for the next state call. -/
structure Refused (c : Cfg) (w : World) : Prop where
  returns : ∃ w₁, Calls c .start w (-1) w₁
  reports : ∀ v w₁, Calls c .start w v w₁ → ∃ u w₂, Calls c .state w₁ u w₂
  same : ∀ v w₁, Calls c .start w v w₁ → v = -1 ∧ w₁.pid = w.pid ∧
    w₁.localPort = w.localPort ∧ w₁.monitorPort = w.monitorPort
  state : ∀ v w₁ u w₂ u₀ w₀, Calls c .start w v w₁ → Calls c .state w₁ u w₂ →
    Calls c .state w u₀ w₀ → u = u₀

section living

variable (hpos : 0 < w.pid) (hlive : Live w.procs w.pid)
include hpos hlive

/-- After the start call the supervisor is in the session as before, and lives. -/
theorem live_of_calls_start {v : ℤ} {w₁ : World} (h : Calls c .start w v w₁) :
    0 < w₁.pid ∧ Live w₁.procs w₁.pid := by
  obtain ⟨hsame, -, -⟩ := calls_start hpos hlive h
  rw [hsame.pid]
  exact ⟨hpos, hsame.live⟩

theorem Refused.state_eq_error (h : Refused c w) : w.state = .error := by
  obtain ⟨w₁, h₁⟩ := h.returns
  obtain ⟨u, w₂, h₂⟩ := h.reports (-1) w₁ h₁
  obtain ⟨w₀, h₀⟩ := exists_calls_state hpos hlive c
  obtain ⟨-, -, herr⟩ := calls_start hpos hlive h₁
  obtain ⟨hpos₁, hlive₁⟩ := live_of_calls_start hpos hlive h₁
  obtain ⟨-, hu, -⟩ := calls_state hpos₁ hlive₁ h₂
  have hcode : w.state.code = State.error.code := by
    rw [← h.state _ _ _ _ _ _ h₁ h₂ h₀, hu, herr]
  cases hw : w.state with
  | error => rfl
  | _ =>
    rw [hw] at hcode
    exact absurd hcode (by decide)

/-- **A start call on a session with a living supervisor is refused without a trace exactly if the
state is `AUTOSSH_STATE_ERROR` already.** -/
theorem refused_iff (c : Cfg) : Refused c w ↔ w.state = .error := by
  refine ⟨Refused.state_eq_error hpos hlive, fun hstate => ?_⟩
  refine ⟨exists_calls_start hpos c, ?_, ?_, ?_⟩
  · intro v w₁ h₁
    obtain ⟨hpos₁, hlive₁⟩ := live_of_calls_start hpos hlive h₁
    obtain ⟨w₂, h₂⟩ := exists_calls_state hpos₁ hlive₁ c
    exact ⟨_, w₂, h₂⟩
  · intro v w₁ h₁
    obtain ⟨hsame, hv, -⟩ := calls_start hpos hlive h₁
    exact ⟨hv, hsame.pid, hsame.localPort, hsame.monitorPort⟩
  · intro v w₁ u w₂ u₀ w₀ h₁ h₂ h₀
    obtain ⟨-, -, herr⟩ := calls_start hpos hlive h₁
    obtain ⟨hpos₁, hlive₁⟩ := live_of_calls_start hpos hlive h₁
    obtain ⟨-, hu, -⟩ := calls_state hpos₁ hlive₁ h₂
    obtain ⟨-, hu₀, -⟩ := calls_state hpos hlive h₀
    rw [hu, hu₀, herr, hstate]

end living

/-- A session that is running, after a start call it has refused. -/
def twiceStarted : List Act :=
  launched 0 100 ++ [.call .start, .step 1 .tau, .step 1 .tau, .step 1 (.ret (-1))]

theorem refused_twiceStarted :
    ∃ s, (session Cfg.plain).Run (.init Cfg.plain) twiceStarted s ∧ s.world.pid = 100 ∧
      Refused Cfg.plain s.world := by
  have hr : (session Cfg.plain).Run (.init Cfg.plain) twiceStarted _ := rfl
  exact ⟨_, hr, rfl, (refused_iff (by decide) (by unfold Live; rfl) Cfg.plain).2 rfl⟩

/-- The session is running with a living supervisor.  A start call returns -1, and from then on
its state is `AUTOSSH_STATE_ERROR`. -/
theorem not_refused_running :
    ∃ s, (session Cfg.plain).Run (.init Cfg.plain) (launched 0 100) s ∧ s.world.pid = 100 ∧
      Live s.world.procs 100 ∧ s.world.state = .running ∧ ¬Refused Cfg.plain s.world ∧
      ∃ s', (session Cfg.plain).Run s [.call .start, .step 1 .tau, .step 1 .tau,
          .step 1 (.ret (-1)), .call .state, .step 2 .tau, .step 2 (.waitpid 100 true .zero),
          .step 2 .tau, .step 2 (.ret 5)] s' ∧
        s'.world.pid = 100 ∧ Live s'.world.procs 100 := by
  have hr : (session Cfg.plain).Run (.init Cfg.plain) (launched 0 100) _ := rfl
  refine ⟨_, hr, rfl, by unfold Live; rfl, rfl, ?_, _, rfl, rfl, by unfold Live; rfl⟩
  intro h
  exact absurd (Refused.state_eq_error (by decide) (by unfold Live; rfl) h) (by decide)

end Session

end Autossh
