import Autossh.Supervisor.Children
import Autossh.Supervisor.Policy

/-!
# Runs with given outcomes

Every sequence of outcomes is that of a run of `ssh_run`: a child is started, lives for as long as
its outcome says and is reaped.  Together with the run lemma of the policy this gives the policy as
a statement about sequences of outcomes.

* `LeadsTo` : a run gets to a control point, with nothing flagged on the way (`Calm`);
* `leadsTo_testRc` : one child, from the loop head to what `ssh_run` does with the verdict;
* `leadsTo_survived` : any number of children none of which is terminal;
* `restart_policy` : **the restart policy**, and `restart_policy_overflow`, a run that leaves it
  when `start_count` overflows.
-/

namespace Autossh

namespace Supervisor

/-- The main program is at `p`, `fd` is the end of the pipe, no handler is active and nothing is
flagged. -/
structure Calm (s : St) (p : Pc) (fd : ℤ) : Prop where
  pc : s.pc = p
  sshStderrFd : s.sshStderrFd = fd
  frames : s.frames = []
  exitSignalled : s.exitSignalled = false
  restartSsh : s.restartSsh = false
  portFwdFailed : s.portFwdFailed = false

/-- A run leads on to `p`, with this `start_count` and this tally. -/
def LeadsTo (c : Cfg) (x : St × Tally) (p : Pc) (fd n : ℤ) (g : Tally) : Prop :=
  ∃ t, (childDriven c).Reaches x (t, g) ∧ Calm t p fd ∧ t.startCount = n

variable {c : Cfg} {s t : St} {a : Act} {g g' : Tally} {p q : Pc} {fd fd' n n' : ℤ} {o : Outcome}

theorem Calm.eq (h : Calm s p fd) :
    s = { s with
      pc := p, sshStderrFd := fd, frames := [], exitSignalled := false, restartSsh := false
      portFwdFailed := false } := by
  cases s
  obtain ⟨rfl, rfl, rfl, rfl, rfl, rfl⟩ := h
  rfl

theorem reaches_head {x : St × Tally} (ha : undisturbed a = true) (hn : next c s a = some t)
    (hg : g' = g.next s a) (hx : (childDriven c).Reaches (t, g') x) :
    (childDriven c).Reaches (s, g) x :=
  hx.head (childDriven_next.2 ⟨ha, hn, hg⟩)

theorem LeadsTo.of_reaches {x y : St × Tally} (hr : (childDriven c).Reaches x y)
    (h : LeadsTo c y p fd n g) : LeadsTo c x p fd n g := by
  obtain ⟨t, hr', ht⟩ := h
  exact ⟨t, hr.trans hr', ht⟩

theorem LeadsTo.bind {x : St × Tally} (h : LeadsTo c x p fd n g)
    (hnext : ∀ t, Calm t p fd → t.startCount = n → LeadsTo c (t, g) q fd' n' g') :
    LeadsTo c x q fd' n' g' := by
  obtain ⟨t, hr, ht, hcount⟩ := h
  exact (hnext t ht hcount).of_reaches hr

/-! ### One child -/

/-- A message. -/
theorem leadsTo_errlog {m : Log} (hs : Calm s (.errlog m p) fd) :
    LeadsTo c (s, g) p fd s.startCount g := by
  rw [hs.eq]
  exact ⟨_, ⟨[.tau], rfl⟩, ⟨rfl, rfl, rfl, rfl, rfl, rfl⟩, rfl⟩

/-- A `sleep` that no signal ends. -/
theorem leadsTo_sleep {k : ℕ} (hs : Calm s (.sleep k p) fd) :
    LeadsTo c (s, g) p fd s.startCount g := by
  rw [hs.eq]
  exact ⟨_, reaches_head (a := .elapse k k) rfl rfl rfl
    (reaches_head (a := .tau) rfl (congrArg (Option.map _) (if_pos (.inl (Nat.sub_self k)))) rfl
      (.refl _)), ⟨rfl, rfl, rfl, rfl, rfl, rfl⟩, rfl⟩

/-- The test at the loop head. -/
theorem leadsTo_head (hs : Calm s (.run .head) fd) :
    LeadsTo c (s, g) (if c.maxStart < 0 ∨ s.startCount < c.maxStart then .run .lifetime
      else .errlog .maxStart (.run (.ret .exitOk))) fd s.startCount g := by
  rw [hs.eq]
  exact ⟨_, ⟨[.tau], rfl⟩, ⟨rfl, rfl, rfl, rfl, rfl, rfl⟩, rfl⟩

/-- From there to `grace_time`. -/
theorem leadsTo_grace (hc : c.Plain) (hs : Calm s (.run .lifetime) fd) :
    LeadsTo c (s, g) (.run .grace) fd (i32Wrap (s.startCount + 1)) g := by
  have hlife : LeadsTo c (s, g) (if exceededLifetime c s.now = true then
      .errlog .lifetime (.run (.ret .exitOk)) else .run .clearRestart) fd s.startCount g := by
    rw [hs.eq]
    exact ⟨_, ⟨[.tau], rfl⟩, ⟨rfl, rfl, rfl, rfl, rfl, rfl⟩, rfl⟩
  rw [exceededLifetime_plain hc, if_neg Bool.false_ne_true] at hlife
  refine hlife.bind fun t ht hcount => ?_
  rw [← hcount, ht.eq]
  exact ⟨_, ⟨[.tau], rfl⟩, ⟨rfl, rfl, rfl, rfl, rfl, rfl⟩, rfl⟩

/-- The back-off of `grace_time`, however long it is. -/
theorem leadsTo_portDelay (hs : Calm s (.run .grace) fd) :
    LeadsTo c (s, g) (.run .portDelay) fd s.startCount g := by
  have hgrace : ∃ k, LeadsTo c (s, g) (if 0 < k then .sleep k (.run .portDelay)
      else .run .portDelay) fd s.startCount g := by
    rw [hs.eq]
    exact ⟨_, _, ⟨[.tau], rfl⟩, ⟨rfl, rfl, rfl, rfl, rfl, rfl⟩, rfl⟩
  obtain ⟨k, hgrace⟩ := hgrace
  split_ifs at hgrace
  · refine hgrace.bind fun t ht hcount => ?_
    rw [← hcount]
    exact leadsTo_sleep ht
  · exact hgrace

/-- From `grace_time` to the first `waitpid`. -/
def launch : List Act :=
  List.replicate 4 Act.tau ++ ([.pipe (some (3, 4)), .fork 100, .close 4] : List Act) ++
    List.replicate 15 Act.tau

/-- The child is started, lives for as long as its outcome says, and `ssh_wait` reaps it. -/
theorem reaches_status (hs : Calm s (.run .portDelay) fd) (ho : terminated o.status = true) :
    ∃ t, (childDriven c).Reaches (s, g) (t, { g with started := g.started + 1 }) ∧
      Calm t (.watch (.status o.status)) 3 ∧ t.startCount = s.startCount ∧
      t.now - t.startTime = o.uptime := by
  rw [hs.eq]
  refine ⟨_, .trans ⟨launch, rfl⟩
    (reaches_head (a := .elapse o.uptime o.uptime.toNat) rfl rfl rfl
    (reaches_head (a := .childExit o.status) rfl (if_pos ⟨rfl, ho⟩) rfl
    (reaches_head (a := .waitpid .sshWait 100 (.pid o.status)) rfl
      (congrArg (Option.map _) (if_pos ho)) rfl
    (reaches_head (a := .read 3 none) rfl rfl rfl (.refl _))))), ?_⟩
  exact ⟨⟨rfl, rfl, rfl, rfl, rfl, rfl⟩, rfl,
    (by omega : s.now + o.uptime - s.now = o.uptime)⟩

/-- What `ssh_wait` returns for the child with this outcome. -/
def waitRc (c : Cfg) (count : ℤ) (o : Outcome) : Rc :=
  (sshWaitStatus c count 0 o.uptime o.status).1

/-- The verdict does not depend on when the child was started. -/
theorem sshWaitStatus_sub (start now : ℤ) (st : ℕ) :
    sshWaitStatus c n start now st = sshWaitStatus c n 0 (now - start) st := by
  simp only [sshWaitStatus, Int.sub_zero]

/-- `ssh_wait` judges the child. -/
theorem leadsTo_waited (hs : Calm s (.watch (.status o.status)) fd)
    (ho : s.now - s.startTime = o.uptime) :
    LeadsTo c (s, g) (.watch (.waited (waitRc c s.startCount o))) fd s.startCount
      { g with outcomes := g.outcomes ++ [o] } := by
  have hg : { g with outcomes := g.outcomes ++ [o] } = g.next s .tau := by
    simp only [Tally.next, hs.frames, hs.pc, ho]
  have hstatus : ∀ q, mainStep c s .tau = some (s.goto q) →
      LeadsTo c (s, g) q fd s.startCount { g with outcomes := g.outcomes ++ [o] } := by
    intro q hq
    have hnext : next c s .tau = some { s.goto q with interrupted := false } := by
      simp [next, hs.pc, hs.frames, hq, Act.isEnv]
    exact ⟨_, reaches_head rfl hnext hg (.refl _), ⟨rfl, hs.sshStderrFd, hs.frames,
      hs.exitSignalled, hs.restartSsh, hs.portFwdFailed⟩, rfl⟩
  have hstart := sshWaitStatus_sub (c := c) (n := s.startCount) s.startTime s.now o.status
  rw [ho] at hstart
  unfold waitRc
  cases hw : sshWaitStatus c s.startCount 0 o.uptime o.status with
  | mk rc m =>
    rw [hw] at hstart
    cases m with
    | none => exact hstatus _ (by simp [mainStep, hs.pc, sshWatchStep, hstart])
    | some m =>
      have hlog := hstatus (.errlog m (.watch (.waited rc)))
        (by simp [mainStep, hs.pc, sshWatchStep, hstart])
      refine hlog.bind fun t ht hcount => ?_
      rw [← hcount]
      exact leadsTo_errlog ht

/-- From the verdict to the end of the loop body. -/
theorem leadsTo_unwatched {rc : Rc} (hrc : rc ≠ .cont) (hs : Calm s (.watch (.waited rc)) 3) :
    LeadsTo c (s, g) (.run (.testRc rc)) (-1) s.startCount g := by
  have hret : LeadsTo c (s, g) (.watch (if rc = .cont then .takeAlarm else .ret rc)) 3 s.startCount
      g := by
    rw [hs.eq]
    exact ⟨_, ⟨[.tau], rfl⟩, ⟨rfl, rfl, rfl, rfl, rfl, rfl⟩, rfl⟩
  rw [if_neg hrc] at hret
  refine hret.bind fun t ht hcount => ?_
  rw [← hcount, ht.eq]
  refine ⟨_, .trans ⟨[.tau], rfl⟩
    (reaches_head (a := .watchRet rc) rfl (congrArg (Option.map _) (if_pos rfl)) rfl
    (.trans ⟨[.tau], rfl⟩
    (reaches_head (a := .alarm 0 (timerLeft t.timer)) rfl (congrArg (Option.map _) (if_pos rfl)) rfl
    ⟨List.replicate 7 Act.tau ++ ([.close 3] : List Act), rfl⟩))), ?_⟩
  exact ⟨⟨rfl, rfl, rfl, rfl, rfl, rfl⟩, rfl⟩

/-- One child, from the loop head to what `ssh_run` does with the verdict. -/
theorem leadsTo_testRc (hc : c.Plain) (hs : Calm s (.run .head) fd)
    (hmax : c.maxStart < 0 ∨ s.startCount < c.maxStart) (ho : terminated o.status = true)
    (hn : i32Wrap (s.startCount + 1) = n) :
    LeadsTo c (s, g) (.run (.testRc (waitRc c n o))) (-1) n
      ⟨g.started + 1, g.outcomes ++ [o]⟩ := by
  have hhead := leadsTo_head (c := c) (g := g) hs
  rw [if_pos hmax] at hhead
  refine hhead.bind fun t₁ ht₁ hcount₁ => (leadsTo_grace hc ht₁).bind fun t₂ ht₂ hcount₂ =>
    (leadsTo_portDelay ht₂).bind fun t₃ ht₃ hcount₃ => ?_
  obtain ⟨t, hr, ht, hcount, huptime⟩ := reaches_status (c := c) (g := g) ht₃ ho
  have hcount : t.startCount = n := by rw [hcount, hcount₃, hcount₂, hcount₁, hn]
  have hwaited := leadsTo_waited (c := c) (g := { g with started := g.started + 1 }) ht huptime
  rw [hcount] at hwaited
  refine .of_reaches hr (hwaited.bind fun t₄ ht₄ hcount₄ => ?_)
  rw [← hcount₄] at ht₄ ⊢
  exact leadsTo_unwatched (sshWaitStatus_ne_cont c _ _ _ ho) ht₄

/-- What `ssh_run` does with the verdict. -/
theorem leadsTo_tested {rc : Rc} (hs : Calm s (.run (.testRc rc)) fd) :
    LeadsTo c (s, g) (.run (if rc = .exitOk ∨ rc = .exitErr then .ret rc else .head)) fd
      s.startCount g := by
  rw [hs.eq]
  exact ⟨_, ⟨[.tau], rfl⟩, ⟨rfl, rfl, rfl, rfl, rfl, rfl⟩, rfl⟩

/-- The return itself. -/
theorem next_runRet {rc : Rc} (hs : Calm s (.run (.ret rc)) fd) :
    ∃ s', (supervisor c).next s (.runRet rc) = some s' := by
  rw [hs.eq]
  exact ⟨_, congrArg (Option.map _) (if_pos rfl)⟩

/-! ### Any number of children -/

variable {σ : ℕ → Outcome}

/-- As long as `start_count` does not overflow, `ssh_wait` judges by the policy. -/
theorem waitRc_eq {k : ℕ} (ho : terminated o.status = true) :
    waitRc c (k + 1 : ℕ) o = o.judge c (k = 0) := by
  have hfirst : (((k + 1 : ℕ) : ℤ) = 1) ↔ k = 0 := by omega
  rw [waitRc, sshWaitStatus_eq (by omega) ho, Int.sub_zero, decide_eq_decide.2 hfirst]

/-- The child after `k` others, and what `ssh_run` does with the verdict. -/
theorem leadsTo_judged {k : ℕ} (hc : c.Plain) (hs : Calm s (.run .head) fd)
    (hcount : s.startCount = k) (hk : k + 1 < 2 ^ 31) (hmax : c.maxStart < 0 ∨ k < c.maxStart)
    (ho : terminated o.status = true) :
    LeadsTo c (s, g) (.run (if o.terminal c (k = 0) = true then .ret (o.rc c (k = 0)) else .head))
      (-1) (k + 1 : ℕ) ⟨g.started + 1, g.outcomes ++ [o]⟩ := by
  have hwrap : i32Wrap (s.startCount + 1) = (k + 1 : ℕ) := by
    rw [hcount]
    exact i32Wrap_of_bounds (by omega) (by omega)
  rw [← hcount] at hmax
  refine (leadsTo_testRc hc hs hmax ho hwrap).bind fun t ht hcount => ?_
  have htested := leadsTo_tested (c := c) (g := ⟨g.started + 1, g.outcomes ++ [o]⟩) ht
  rw [waitRc_eq ho, Outcome.judge] at htested
  rw [← hcount]
  by_cases hterm : o.terminal c (k = 0) = true
  · rw [if_pos hterm, if_pos (o.rc_eq c _)] at htested
    rw [if_pos hterm]
    exact htested
  · rw [if_neg hterm, if_neg (by decide)] at htested
    rw [if_neg hterm]
    exact htested

/-- Children none of which is terminal. -/
theorem leadsTo_survived (hc : c.Plain) (i : Inherited)
    (hσ : ∀ k, terminated (σ k).status = true) (k : ℕ) (hk : k < 2 ^ 31)
    (hmax : c.maxStart < 0 ∨ k ≤ c.maxStart) (hsurv : ∀ j < k, (σ j).terminal c (j = 0) = false) :
    ∃ os, os.length = k ∧ Follows σ os ∧
      LeadsTo c (.init i, ⟨0, []⟩) (.run .head) (-1) k ⟨k, os⟩ := by
  induction k with
  | zero =>
    refine ⟨[], rfl, fun j hj => absurd hj (Nat.not_lt_zero j), ?_⟩
    exact ⟨_, ⟨List.replicate 3 Act.tau, rfl⟩, ⟨rfl, rfl, rfl, rfl, rfl, rfl⟩, rfl⟩
  | succ k ih =>
    obtain ⟨os, hlen, hos, hlead⟩ := ih (by omega) (by omega) fun j hj => hsurv j (by omega)
    refine ⟨os ++ [σ k], by rw [List.length_append, hlen]; rfl,
      follows_concat.2 ⟨hos, by rw [hlen]⟩, hlead.bind fun s hs hcount => ?_⟩
    have hjudged := leadsTo_judged (g := ⟨k, os⟩) hc hs hcount hk (by omega) (hσ k)
    rw [hsurv k (by omega), if_neg Bool.false_ne_true] at hjudged
    exact hjudged

/-- A run with the outcomes `σ` gets to the `return` of the policy. -/
theorem leadsTo_ret (hc : c.Plain) (i : Inherited) (hσ : ∀ k, terminated (σ k).status = true)
    {k : ℕ} (hk : k < 2 ^ 31) (hleast : IsLeast (stops c σ) k) :
    ∃ os, Follows σ os ∧
      LeadsTo c (.init i, ⟨0, []⟩) (.run (.ret (result c σ k))) (-1) k ⟨k, os⟩ := by
  obtain ⟨hstop, hlower⟩ := hleast
  have hmax : c.maxStart < 0 ∨ k ≤ c.maxStart := by
    rcases lt_or_ge c.maxStart 0 with hneg | hnonneg
    · exact .inl hneg
    · have hle := hlower (.inl (Int.toNat_of_nonneg hnonneg))
      omega
  have hsurv : ∀ j, j + 1 < k → (σ j).terminal c (j = 0) = false := by
    intro j hj
    by_contra hterm
    have hle := hlower (.inr ⟨j, rfl, Bool.eq_true_of_not_eq_false hterm⟩)
    omega
  by_cases hterm : ∃ j, k = j + 1 ∧ (σ j).terminal c (j = 0) = true
  · -- the last child is the terminal one
    obtain ⟨j, rfl, hterm⟩ := hterm
    obtain ⟨os, hlen, hos, hlead⟩ := leadsTo_survived hc i hσ j (by omega) (by omega)
      fun l hl => hsurv l (by omega)
    refine ⟨os ++ [σ j], follows_concat.2 ⟨hos, by rw [hlen]⟩, hlead.bind fun s hs hcount => ?_⟩
    have hjudged := leadsTo_judged (g := ⟨j, os⟩) hc hs hcount hk (by omega) (hσ j)
    rw [if_pos hterm] at hjudged
    rw [result, if_pos hterm]
    exact hjudged
  · -- `max_start` is used up
    have hused : (k : ℤ) = c.maxStart := hstop.resolve_right hterm
    have hresult : result c σ k = .exitOk := by
      cases k with
      | zero => rfl
      | succ j => exact if_neg fun h => hterm ⟨j, rfl, h⟩
    obtain ⟨os, hlen, hos, hlead⟩ := leadsTo_survived hc i hσ k hk hmax fun j hj => by
      by_contra hj'
      have hlast : k = j + 1 := by
        by_contra hne
        exact hj' (hsurv j (by omega))
      exact hterm ⟨j, hlast, Bool.eq_true_of_not_eq_false hj'⟩
    refine ⟨os, hos, hlead.bind fun s hs hcount => ?_⟩
    have hhead := leadsTo_head (c := c) (g := ⟨k, os⟩) hs
    rw [if_neg (by omega), hcount] at hhead
    rw [hresult]
    refine hhead.bind fun t ht hcount => ?_
    rw [← hcount]
    exact leadsTo_errlog ht

/-- **The restart policy.**  Without lifetime, watchdogs and monitoring, and driven by the ends of
its children alone, `ssh_run` starts as many children as the policy says for their outcomes `σ` and
returns what the policy says, as long as `start_count` does not overflow; and whatever the outcomes
are, if the policy ends them before that, there is such a run. -/
theorem restart_policy (c : Cfg) (hlife : c.maxLifetime = 0) (hsession : c.maxSession = 0)
    (hmonitor : c.monitor = false) (i : Inherited) (σ : ℕ → Outcome) :
    (∀ as s g s' rc,
      ((childDriven c).guard fun x _ => counted x.1 = true).Run (.init i, ⟨0, []⟩) as (s, g) →
      Follows σ g.outcomes → (supervisor c).next s (.runRet rc) = some s' →
      IsLeast (stops c σ) g.started ∧ rc = result c σ g.started) ∧
    ((∀ k, terminated (σ k).status = true) → ∀ k < 2 ^ 31, IsLeast (stops c σ) k →
      ∃ as s g s', (childDriven c).Run (.init i, ⟨0, []⟩) as (s, g) ∧ Follows σ g.outcomes ∧
        (supervisor c).next s (.runRet (result c σ k)) = some s' ∧ g.started = k) := by
  have hc : c.Plain := ⟨hlife, hsession, hmonitor⟩
  constructor
  · intro as s g s' rc hr hσ hn
    exact run_policy hc hr hn hσ
  · intro hσ k hk hleast
    obtain ⟨os, hos, s, ⟨as, hr⟩, hs, -⟩ := leadsTo_ret hc i hσ hk hleast
    obtain ⟨s', hn⟩ := next_runRet (c := c) hs
    exact ⟨as, s, _, s', hr, hos, hn, rfl⟩

/-- The first child exits with status 0 as soon as it is started: too early, so that the run ends
with it. -/
theorem restart_policy_gate :
    IsLeast (stops .default fun _ => ⟨0, 0⟩) 1 ∧ .exitErr = result .default (fun _ => ⟨0, 0⟩) 1 ∧
      ∃ as s g s', (childDriven .default).Run (.init .clean, ⟨0, []⟩) as (s, g) ∧
        Follows (fun _ => ⟨0, 0⟩) g.outcomes ∧
        (supervisor .default).next s (.runRet .exitErr) = some s' ∧ g.started = 1 := by
  obtain ⟨hevery, hsome⟩ := restart_policy .default rfl rfl rfl .clean fun _ => ⟨0, 0⟩
  have hr : ((childDriven .default).guard fun x _ => counted x.1 = true).Run
      (.init .clean, ⟨0, []⟩) (startup 100 600 ++ childExits 100 0 ++ wayOut 3)
      (_, ⟨1, [⟨0, 0⟩]⟩) := rfl
  have hfollows : Follows (fun _ => ⟨0, 0⟩) [⟨0, 0⟩] := by
    intro k hk
    obtain rfl := Nat.lt_one_iff.1 hk
    rfl
  obtain ⟨hleast, hrc⟩ := hevery _ _ _ _ .exitErr hr hfollows rfl
  refine ⟨hleast, hrc, ?_⟩
  obtain ⟨as, s, g, s', h⟩ := hsome (fun _ => rfl) 1 (by decide) hleast
  rw [← hrc] at h
  exact ⟨as, s, g, s', h⟩

/-- Children that live for 100 seconds and exit with status 255, as many as `start_count` can count,
and after them children that exit with status 1. -/
def enduring (k : ℕ) : Outcome := if k < 2 ^ 31 - 1 then ⟨65280, 100⟩ else ⟨256, 100⟩

theorem enduring_survives (k : ℕ) : (enduring k).terminal .default (k = 0) = false := by
  unfold enduring
  split_ifs with hk
  · cases decide (k = 0) <;> decide
  · rw [decide_eq_false (by omega)]
    decide

theorem enduring_terminated (k : ℕ) : terminated (enduring k).status = true := by
  unfold enduring
  split_ifs <;> decide

/-- With `start_count` at its largest value, the next child has the count `-2^31`: it exits with
status 1, for which the policy has another child started, and `ssh_run` returns `P_EXITERR`. -/
theorem restart_policy_overflow :
    ∃ as s g s', (childDriven .default).Run (.init .clean, ⟨0, []⟩) as (s, g) ∧
      Follows enduring g.outcomes ∧ (supervisor .default).next s (.runRet .exitErr) = some s' ∧
      g.started = 2 ^ 31 ∧ stops .default enduring = ∅ := by
  have hc : Cfg.default.Plain := ⟨rfl, rfl, rfl⟩
  obtain ⟨os, hlen, hos, hlead⟩ := leadsTo_survived hc .clean enduring_terminated (2 ^ 31 - 1)
    (by decide) (.inl (by decide)) fun j _ => enduring_survives j
  have hlast : LeadsTo .default (.init .clean, ⟨0, []⟩) (.run (.ret .exitErr)) (-1) (-2 ^ 31)
      ⟨2 ^ 31 - 1 + 1, os ++ [⟨256, 100⟩]⟩ := by
    refine hlead.bind fun s hs hcount => ?_
    have hwrap : i32Wrap (s.startCount + 1) = -2 ^ 31 := by
      rw [hcount]
      decide
    refine (leadsTo_testRc (o := ⟨256, 100⟩) hc hs (.inl (by decide)) (by decide) hwrap).bind
      fun t ht hcount => ?_
    rw [← hcount]
    exact leadsTo_tested ht
  obtain ⟨s, ⟨as, hr⟩, hs, -⟩ := hlast
  obtain ⟨s', hn⟩ := next_runRet (c := .default) hs
  refine ⟨as, s, _, s', hr, follows_concat.2 ⟨hos, ?_⟩, hn, rfl, ?_⟩
  · rw [hlen]
    rfl
  · rw [Set.eq_empty_iff_forall_notMem]
    rintro k (hk | ⟨j, -, hj⟩)
    · cases hk
    · rw [enduring_survives] at hj
      cases hj

end Supervisor

end Autossh
