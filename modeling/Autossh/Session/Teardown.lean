import Autossh.Session.Custody

/-!
# What a stop call leaves behind

A stop call that has swapped a pid out of the session is the only one that still knows it.  It polls
for the supervisor fifty times, then kills it and waits for it once, and does not look at the result
of that last `waitpid`.

* `Sys.settles` : a result of `waitpid` after which nothing is left of the supervisor;
* `Torn` : the invariant.  Up to its last `waitpid` the call has had no such result and no
  interruption; after it, it has had one of the two;
* `stop_settles_iff` : the call has settled the supervisor when it returns, exactly if no signal has
  interrupted its blocking `waitpid`;
* `stop_forgets` : a run in which one does.  The supervisor becomes a zombie that the session no
  longer names.
-/

namespace Autossh

namespace Session

/-- `waitpid` for `p` has reaped it, or has found no child `p`. -/
def Sys.settles (p : ℤ) : Sys → Bool
  | .waitpid q _ (.reaped r _) => q = p ∧ r = p
  | .waitpid q _ (.err .echild) => q = p
  | _ => false

/-- Among the actions, a step of the call `t` settles `p`. -/
def SettledBy (t : ℕ) (p : ℤ) (as : List Act) : Prop :=
  ∃ y, .step t y ∈ as ∧ y.settles p = true

/-- Among the actions, no blocking `waitpid` of the call `t` is interrupted. -/
def UninterruptedIn (t : ℕ) (as : List Act) : Prop :=
  ∀ y, .step t y ∈ as → y.uninterrupted = true

variable {c : Cfg} {s s' : St} {w w' : World} {t : ℕ} {y : Sys} {a : Act} {p p' : Pc} {P : ℤ}
  {as : List Act}

theorem settledBy_concat :
    SettledBy t P (as ++ [a]) ↔ SettledBy t P as ∨ ∃ y, a = .step t y ∧ y.settles P = true := by
  simp only [SettledBy, List.mem_append, List.mem_singleton, or_and_right, exists_or,
    eq_comm (b := a)]

theorem uninterruptedIn_concat : UninterruptedIn t (as ++ [a]) ↔
    UninterruptedIn t as ∧ ∀ y, a = .step t y → y.uninterrupted = true := by
  simp only [UninterruptedIn, List.mem_append, List.mem_singleton, or_imp, forall_and,
    eq_comm (b := a)]

/-- Where a stop call stands that has taken `P`, after the actions `as`. -/
def Torn (t : ℕ) (P : ℤ) (as : List Act) : Pc → Prop
  | .stop (.term q) none | .stop (.poll _ q) none | .stop (.kill q) none | .stop (.wait q) none =>
    q.1 = P ∧ ¬SettledBy t P as ∧ UninterruptedIn t as
  | .stop .finish none | .ret _ | .done _ => SettledBy t P as ↔ UninterruptedIn t as
  | _ => False

/-- A step that settles nothing and is not interrupted leaves the call's record as it is. -/
theorem record_concat (as : List Act) (hs : ∀ y, a = .step t y → y.settles P = false)
    (hu : ∀ y, a = .step t y → y.uninterrupted = true) :
    (SettledBy t P (as ++ [a]) ↔ SettledBy t P as) ∧
      (UninterruptedIn t (as ++ [a]) ↔ UninterruptedIn t as) := by
  rw [settledBy_concat, uninterruptedIn_concat]
  refine ⟨⟨fun h => h.resolve_right ?_, .inl⟩, And.left, fun h => ⟨h, hu⟩⟩
  rintro ⟨y, hy, hset⟩
  rw [hs y hy] at hset
  exact Bool.false_ne_true hset

theorem Torn.congr {bs : List Act} (hs : SettledBy t P bs ↔ SettledBy t P as)
    (hu : UninterruptedIn t bs ↔ UninterruptedIn t as) (h : Torn t P as p) : Torn t P bs p := by
  revert h
  unfold Torn
  split <;> simp only [hs, hu, imp_self]

/-- The call goes on, with nothing new in its record. -/
theorem Torn.quiet (hs : y.settles P = false) (hu : y.uninterrupted = true)
    (h : Torn t P as p) : Torn t P (as ++ [.step t y]) p := by
  have hrec : (SettledBy t P (as ++ [.step t y]) ↔ SettledBy t P as) ∧
      (UninterruptedIn t (as ++ [.step t y]) ↔ UninterruptedIn t as) := by
    refine record_concat as (fun y' hy => ?_) fun y' hy => ?_
    · cases hy
      exact hs
    · cases hy
      exact hu
  exact h.congr hrec.1 hrec.2

theorem killPid_quiet (q : ℤ) (g : KillSig) :
    (killPid q g).settles P = false ∧ (killPid q g).uninterrupted = true := by
  unfold killPid
  split_ifs <;> exact ⟨rfl, rfl⟩

/-- The call has had the result it waits for. -/
theorem torn_settled (hset : y.settles P = true) (hu : y.uninterrupted = true)
    (hrec : UninterruptedIn t as) : Torn t P (as ++ [.step t y]) (.stop .finish none) := by
  refine iff_of_true (settledBy_concat.2 (.inr ⟨y, rfl, hset⟩))
    (uninterruptedIn_concat.2 ⟨hrec, ?_⟩)
  intro y' hy
  cases hy
  exact hu

/-- The last `waitpid` was interrupted. -/
theorem torn_interrupted (hset : y.settles P = false) (hu : y.uninterrupted = false)
    (hrec : ¬SettledBy t P as) : Torn t P (as ++ [.step t y]) (.stop .finish none) := by
  refine iff_of_false (fun h => ?_) fun h => ?_
  · rcases settledBy_concat.1 h with h | ⟨y', hy, h⟩
    · exact hrec h
    · cases hy
      exact Bool.false_ne_true (hset.symm.trans h)
  · exact Bool.false_ne_true (hu.symm.trans ((uninterruptedIn_concat.1 h).2 y rfl))

theorem stopStep_torn {q : StopPc} (h : stopStep w none y q = some (w', p'))
    (hp : Torn t P as (.stop q none)) : Torn t P (as ++ [.step t y]) p' := by
  cases q with
  | swap => exact hp.elim
  | term q =>
    obtain ⟨rfl, -, rfl⟩ := on_pair_eq_some.1 h
    have hk := killPid_quiet (P := P) q.1 .sigterm
    exact Torn.quiet (p := .stop (.poll 50 q) none) hk.1 hk.2 hp
  | kill q =>
    obtain ⟨rfl, -, rfl⟩ := on_pair_eq_some.1 h
    have hk := killPid_quiet (P := P) q.1 .sigkill
    exact Torn.quiet (p := .stop (.wait q) none) hk.1 hk.2 hp
  | poll n q =>
    obtain ⟨rfl, hnot, hrec⟩ := hp
    cases n with
    | zero =>
      obtain ⟨rfl, -, rfl⟩ := on_pair_eq_some.1 h
      exact Torn.quiet (p := .stop (.kill q) none) rfl rfl ⟨rfl, hnot, hrec⟩
    | succ n =>
      obtain ⟨r, k, rfl, hk, -, rfl⟩ := World.waitpid_eq_some.1 h
      have hnext : Torn t q.1 as (.stop (.poll n q) none) := ⟨rfl, hnot, hrec⟩
      rcases ProcTable.waitpid_cases hk with ⟨q', st, rfl, hq, -⟩ | ⟨-, hne, hr⟩
      · obtain rfl := hq q.2
        rw [if_pos (.inl rfl)]
        exact torn_settled (by simp [Sys.settles]) rfl hrec
      · rcases hr with ⟨rfl, -⟩ | rfl | ⟨rfl, -⟩
        · rw [if_neg (not_or.2 ⟨hne q.2, by simp⟩)]
          exact hnext.quiet rfl rfl
        · rw [if_neg (not_or.2 ⟨hne q.2, by simp⟩)]
          exact hnext.quiet rfl rfl
        · rw [if_pos (.inr rfl)]
          exact torn_settled (by simp [Sys.settles]) rfl hrec
  | wait q =>
    obtain ⟨rfl, hnot, hrec⟩ := hp
    obtain ⟨r, k, rfl, hk, -, rfl⟩ := World.waitpid_eq_some.1 h
    rcases ProcTable.waitpid_cases hk with ⟨q', st, rfl, hq, -⟩ | ⟨-, -, hr⟩
    · obtain rfl := hq q.2
      exact torn_settled (by simp [Sys.settles]) rfl hrec
    · rcases hr with ⟨-, hb⟩ | rfl | ⟨rfl, -⟩
      · cases hb
      · exact torn_interrupted rfl rfl hnot
      · exact torn_settled (by simp [Sys.settles]) rfl hrec
  | finish =>
    obtain ⟨rfl, -, rfl⟩ := on_pair_eq_some.1 h
    exact Torn.quiet (p := .ret 0) rfl rfl hp

theorem callStep_torn (h : callStep c w y p = some (w', p')) (hp : Torn t P as p) :
    Torn t P (as ++ [.step t y]) p' := by
  cases p with
  | stop q k =>
    cases k with
    | none => exact stopStep_torn h hp
    | some m => cases q <;> exact hp.elim
  | ret v =>
    obtain ⟨rfl, -, rfl⟩ := on_pair_eq_some.1 h
    exact Torn.quiet (p := .done v) rfl rfl hp
  | done v => cases h
  | _ => exact hp.elim

/-- The other calls and the environment do not move the call `t`. -/
theorem next_pcs_of_ne (hf : Fresh s) (hidle : s.pcs t ≠ .idle) (h : next c s a = some s')
    (ha : ∀ y, a ≠ .step t y) : s'.pcs t = s.pcs t := by
  cases a with
  | call f =>
    cases h
    refine Function.update_of_ne ?_ ..
    rintro rfl
    exact hidle (hf s.count le_rfl)
  | step t' y =>
    obtain ⟨w, p, -, rfl⟩ := next_step.1 h
    refine Function.update_of_ne ?_ ..
    rintro rfl
    exact ha y rfl
  | env m =>
    obtain ⟨k, -, rfl⟩ := (next_env (c := c)).1 h
    rfl

theorem next_torn (hf : Fresh s) (hp : Torn t P as (s.pcs t)) (h : next c s a = some s') :
    Torn t P (as ++ [a]) (s'.pcs t) := by
  by_cases ha : ∃ y, a = .step t y
  · obtain ⟨y, rfl⟩ := ha
    obtain ⟨w, p, hc, rfl⟩ := next_step.1 h
    simp only [Function.update_self]
    exact callStep_torn hc hp
  · have hne : ∀ y, a ≠ .step t y := fun y hy => ha ⟨y, hy⟩
    have hidle : s.pcs t ≠ .idle := by
      intro hi
      rw [hi] at hp
      exact hp
    rw [next_pcs_of_ne hf hidle h hne]
    have hrec := record_concat (P := P) as (fun y hy => absurd hy (hne y))
      fun y hy => absurd hy (hne y)
    exact hp.congr hrec.1 hrec.2

theorem run_torn {s₀ : St} {p₀ : Pc} (hf : Fresh s₀) (hpc : s₀.pcs t = p₀)
    (hp : Torn t P [] p₀) (h : (session c).Run s₀ as s) : Torn t P as (s.pcs t) := by
  subst hpc
  refine (Machine.Run.induct (P := fun as s => Fresh s ∧ Torn t P as (s.pcs t)) ⟨hf, hp⟩ ?_ h).2
  intro as s a s' _ hs hn
  exact ⟨next_fresh hs.1 hn, next_torn hs.1 hs.2 hn⟩

/-- A result that settles `P` leaves no supervisor `P`. -/
theorem stopStep_settles {q : StopPc} (hpos : 0 < P) (h : stopStep w none y q = some (w', p'))
    (hset : y.settles P = true) : w'.procs.owns P = false := by
  have hwait : ∀ q b f, w.waitpid q b y f = some (w', p') → w'.procs.owns P = false := by
    intro q b f hx
    obtain ⟨r, k, rfl, hk, rfl, -⟩ := World.waitpid_eq_some.1 hx
    have hq : q = P ∧ (r.rc = P ∨ r = .err .echild) := by
      cases r with
      | zero => cases hset
      | reaped r st =>
        have hqr := of_decide_eq_true hset
        exact ⟨hqr.1, .inl hqr.2⟩
      | err e =>
        cases e with
        | echild => exact ⟨of_decide_eq_true hset, .inr rfl⟩
        | _ => cases hset
    obtain ⟨rfl, hr⟩ := hq
    exact Bool.eq_false_iff.2 (ProcTable.notMem_own_of_waitpid hpos hk hr)
  cases q with
  | swap | finish =>
    obtain ⟨rfl, -, -⟩ := on_pair_eq_some.1 h
    cases hset
  | term q | kill q =>
    obtain ⟨rfl, -, -⟩ := on_pair_eq_some.1 h
    rw [(killPid_quiet _ _).1] at hset
    cases hset
  | poll n q =>
    cases n with
    | zero =>
      obtain ⟨rfl, -, -⟩ := on_pair_eq_some.1 h
      cases hset
    | succ n => exact hwait _ _ _ h
  | wait q => exact hwait _ _ _ h

theorem next_settles (hpos : 0 < P) (hp : Torn t P as (s.pcs t))
    (h : next c s (.step t y) = some s') (hset : y.settles P = true) :
    s'.world.procs.owns P = false := by
  obtain ⟨w, p', hc, rfl⟩ := next_step.1 h
  cases hpc : s.pcs t with
  | stop q k =>
    rw [hpc] at hc hp
    cases k with
    | none => exact stopStep_settles hpos hc hset
    | some m => cases q <;> exact hp.elim
  | ret v =>
    rw [hpc] at hc
    obtain ⟨rfl, -, -⟩ := on_pair_eq_some.1 hc
    cases hset
  | done v =>
    rw [hpc] at hc
    cases hc
  | _ =>
    rw [hpc] at hp
    exact hp.elim

/-- The stop call `t`, whose first step takes `P` out of the session, has settled it after the
actions `bs`: one of its steps reaps `P` or finds that there is no child `P`, and after that step
the session has no supervisor `P`, neither running nor a zombie. -/
def SettledAfter (c : Cfg) (s : St) (t : ℕ) (bs : List Act) : Prop :=
  ∃ cs y ds s₁, bs = cs ++ .step t y :: ds ∧ y.settles s.world.pid = true ∧
    (session c).Run s (.step t .tau :: cs ++ [.step t y]) s₁ ∧
    s₁.world.procs.owns s.world.pid = false

/-- The call takes the pid. -/
theorem stopStep_swap (hpos : 0 < w.pid) (k : Option Msg) :
    stopStep w k .tau .swap = some ({ w with pid := 0 }, .stop (.term ⟨w.pid, hpos⟩) k) := by
  rw [stopStep, dif_pos hpos]
  exact if_pos rfl

theorem run_fresh (h : (session c).Run (.init c) as s) : Fresh s :=
  h.invariant (fun _ _ => rfl) fun _ _ _ hf hn => next_fresh hf hn

/-- **A stop call that returns has settled the supervisor it has taken exactly if no signal has
interrupted its blocking `waitpid`.** -/
theorem stop_settles_iff (c : Cfg) {bs : List Act} (hr : (session c).Run (.init c) as s)
    (hpc : s.pcs t = .stop .swap none) (hpos : 0 < s.world.pid)
    (hr' : (session c).Run s (.step t .tau :: bs) s') (hdone : s'.pcs t = .done 0) :
    SettledAfter c s t bs ↔ UninterruptedIn t bs := by
  obtain ⟨s₁, hn', hrun⟩ := Option.bind_eq_some_iff.1 hr'
  have hn : next c s (.step t .tau) = some s₁ := hn'
  have hfresh : Fresh s₁ := next_fresh (run_fresh hr) hn
  -- the call has taken the pid
  have hpc₁ : s₁.pcs t = .stop (.term ⟨s.world.pid, hpos⟩) none := by
    obtain ⟨w, p, hc, rfl⟩ := next_step.1 hn
    rw [hpc, callStep, stopStep_swap hpos] at hc
    cases hc
    exact Function.update_self ..
  have hstart : Torn t s.world.pid [] (.stop (.term ⟨s.world.pid, hpos⟩) none) := by
    refine ⟨rfl, ?_, ?_⟩
    · rintro ⟨y, hy, -⟩
      cases hy
    · intro y hy
      cases hy
  have hend := run_torn hfresh hpc₁ hstart hrun
  rw [hdone] at hend
  refine Iff.trans ⟨?_, ?_⟩ hend
  · rintro ⟨cs, y, ds, -, rfl, hset, -, -⟩
    exact ⟨y, by simp, hset⟩
  · rintro ⟨y, hy, hset⟩
    obtain ⟨cs, ds, rfl⟩ := List.append_of_mem hy
    obtain ⟨s₃, hr₃, -⟩ := Option.bind_eq_some_iff.1 ((Machine.exec_append s₁
      (cs ++ [.step t y]) ds).symm.trans (by rw [List.append_assoc]; exact hrun))
    obtain ⟨s₂, hr₂, hn₂⟩ := Machine.run_concat.1 hr₃
    refine ⟨cs, y, ds, s₃, rfl, hset, ?_,
      next_settles hpos (run_torn hfresh hpc₁ hstart hr₂) hn₂ hset⟩
    rw [Machine.Run, List.cons_append, Machine.exec, hn']
    exact hr₃

/-- The session is running with the supervisor 100, and a stop call is made. -/
def stopping : St :=
  ((session Cfg.plain).exec (.init Cfg.plain) (launched 0 100 ++ [.call .stop])).getD
    (.init Cfg.plain)

/-- The supervisor ends at `SIGTERM`. -/
def obeys : List Act :=
  [.step 1 (.kill 100 .sigterm), .step 1 (.waitpid 100 true .zero), .env (.exit 100 15),
    .step 1 (.waitpid 100 true (.reaped 100 15)), .step 1 .tau, .step 1 (.ret 0)]

theorem stop_settles_obeys :
    (session Cfg.plain).Run (.init Cfg.plain) (launched 0 100 ++ [.call .stop]) stopping ∧
      (∃ s', (session Cfg.plain).Run stopping (.step 1 .tau :: obeys) s' ∧ s'.pcs 1 = .done 0) ∧
      SettledAfter Cfg.plain stopping 1 obeys := by
  have hr : (session Cfg.plain).Run (.init Cfg.plain) (launched 0 100 ++ [.call .stop]) stopping :=
    rfl
  obtain ⟨s', hr', hdone⟩ : ∃ s', (session Cfg.plain).Run stopping (.step 1 .tau :: obeys) s' ∧
      s'.pcs 1 = .done 0 := ⟨_, rfl, rfl⟩
  refine ⟨hr, ⟨s', hr', hdone⟩, (stop_settles_iff Cfg.plain hr rfl (by decide) hr' hdone).2 ?_⟩
  intro y hy
  simp only [obeys, List.mem_cons, Act.step.injEq, true_and, reduceCtorEq, false_or,
    List.not_mem_nil, or_false] at hy
  rcases hy with rfl | rfl | rfl | rfl | rfl <;> rfl

/-- The supervisor ignores `SIGTERM`, and a signal interrupts the host while it waits for the
supervisor to end at `SIGKILL`. -/
def interruptedWait : List Act :=
  .step 1 (.kill 100 .sigterm) :: List.replicate 50 (.step 1 (.waitpid 100 true .zero)) ++
    [.step 1 .tau, .step 1 (.kill 100 .sigkill), .step 1 (.waitpid 100 false (.err .eintr)),
      .step 1 .tau, .step 1 (.ret 0), .env (.exit 100 9)]

/-- The stop call returns 0; its supervisor is left as a zombie, and the session's pid is 0. -/
theorem stop_forgets :
    (session Cfg.plain).Run (.init Cfg.plain) (launched 0 100 ++ [.call .stop]) stopping ∧
      stopping.pcs 1 = .stop .swap none ∧ stopping.world.pid = 100 ∧
      (∃ s', (session Cfg.plain).Run stopping (.step 1 .tau :: interruptedWait) s' ∧
        s'.pcs 1 = .done 0 ∧ s'.world.procs 100 = some ⟨.own, some 9⟩ ∧ s'.world.pid = 0) ∧
      ¬SettledAfter Cfg.plain stopping 1 interruptedWait := by
  refine ⟨rfl, rfl, rfl, ⟨_, rfl, rfl, rfl, rfl⟩, ?_⟩
  rintro ⟨cs, y, ds, -, hbs, hset, -, -⟩
  have hmem : .step 1 y ∈ interruptedWait := by
    rw [hbs]
    simp
  simp only [interruptedWait, List.cons_append, List.mem_cons, List.mem_append,
    List.mem_replicate, Act.step.injEq, true_and, reduceCtorEq, List.not_mem_nil, or_false] at hmem
  rcases hmem with rfl | ⟨-, rfl⟩ | rfl | rfl | rfl | rfl | rfl <;> cases hset

end Session

end Autossh
