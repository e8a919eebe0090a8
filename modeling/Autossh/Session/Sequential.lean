import Autossh.Session.Step

/-!
# Calls made one at a time

With one call at a time the session always knows its supervisor.

* `SeqAt` : what holds of the pid, the state and the supervisors at each control point of the one
  call in progress.  Between calls it is `View.Rest`: the pid names exactly the supervisors that
  exist, and with `AUTOSSH_STATE_RUNNING` there is one;
* `callStep_seq` : a step leads from the assertion at one control point to that at the next;
* `sequential_exact` : in every run with one call at a time there is at most one supervisor, and
  after each call the session knows it.
-/

namespace Autossh

namespace Session

/-- What the assertions are about. -/
structure View where
  pid : ℤ
  state : State
  own : Set ℤ

def World.view (w : World) : View := ⟨w.pid, w.state, w.procs.own⟩

namespace View

/-- The pid names the supervisors that exist. -/
def Exact (v : View) : Prop := ∀ p, p ∈ v.own ↔ 0 < v.pid ∧ p = v.pid

/-- There is no supervisor, and no pid. -/
def Empty (v : View) : Prop := v.pid ≤ 0 ∧ v.own = ∅

/-- What holds between calls. -/
def Rest (v : View) : Prop := v.Exact ∧ (v.state = .running → 0 < v.pid)

theorem Empty.exact {v : View} (h : v.Empty) : v.Exact := by
  intro p
  rw [h.2]
  exact ⟨nofun, fun hp => absurd hp.1 (Int.not_lt.2 h.1)⟩

theorem Exact.empty {v : View} (h : v.Exact) (hp : ¬ 0 < v.pid) : v.Empty :=
  ⟨Int.not_lt.1 hp, Set.eq_empty_iff_forall_notMem.2 fun q hq => hp ((h q).1 hq).1⟩

end View

/-- The assertion at each control point of a call. -/
def SeqAt (v : View) : Pc → Prop
  | .idle | .ret _ | .done _ | .start .load | .state .load | .state .read => v.Rest
  -- `set_error` is about to overwrite the state
  | .setError _ => v.Exact
  | .start .host | .start .localPort | .start .reserve | .start .monitorPort | .start (.first _)
  | .start (.second _ _) | .start .starting | .start .fork => v.Empty
  | .start (.store p) => ∀ q, q ∈ v.own ↔ q = p.1
  | .listen (.poll p) => v.Exact ∧ 0 < v.pid ∧ p = v.pid
  | .listen _ | .start .running => v.Exact ∧ 0 < v.pid
  -- on the failure path the supervisor may have been reaped already
  | .stop .swap _ => ∀ q ∈ v.own, 0 < v.pid ∧ q = v.pid
  | .stop (.term p) _ | .stop (.poll _ p) _ | .stop (.kill p) _ | .stop (.wait p) _ =>
    v.pid ≤ 0 ∧ ∀ q ∈ v.own, q = p.1
  | .stop .finish _ | .state .exited => v.Empty
  | .state (.poll p) => v.Rest ∧ v.pid = p.1
  | .state (.cas p) => v.pid = p.1 ∧ v.own = ∅

variable {c : Cfg} {s s' : St} {w w' : World} {t : ℕ} {y : Sys} {a : Act} {p p' : Pc}

theorem startStep_seq {p : StartPc} (hs : SeqAt w.view (.start p))
    (h : startStep c w y p = some (w', p')) : SeqAt w'.view p' := by
  cases p with
  | load =>
    obtain ⟨-, rfl, rfl⟩ := on_pair_eq_some.1 h
    split_ifs with hp
    · exact hs.1
    · exact hs.1.empty hp
  | host =>
    obtain ⟨-, rfl, rfl⟩ := on_pair_eq_some.1 h
    split_ifs
    exacts [View.Empty.exact hs, hs]
  | localPort | monitorPort =>
    obtain ⟨-, rfl, rfl⟩ := on_pair_eq_some.1 h
    split_ifs <;> exact hs
  | reserve =>
    obtain ⟨r, -, hx⟩ := Option.map_eq_some_iff.1 h
    cases r with
    | port q =>
      cases hx
      exact hs
    | err e =>
      cases hx
      exact View.Empty.exact hs
  | first n =>
    cases n with
    | zero =>
      obtain ⟨-, rfl, rfl⟩ := on_pair_eq_some.1 h
      exact View.Empty.exact hs
    | succ n =>
      obtain ⟨r, -, hx⟩ := Option.map_eq_some_iff.1 h
      cases r with
      | port q =>
        cases hx
        split_ifs <;> exact hs
      | err e =>
        cases hx
        exact View.Empty.exact hs
  | second n q =>
    obtain ⟨r, -, hx⟩ := Option.map_eq_some_iff.1 h
    rcases r with _ | ⟨_ | _ | _⟩ <;> cases hx
    exacts [hs, View.Empty.exact hs, hs, hs]
  | starting =>
    obtain ⟨-, rfl, rfl⟩ := on_pair_eq_some.1 h
    exact hs
  | fork =>
    obtain ⟨r, hr, hx⟩ := Option.bind_eq_some_iff.1 h
    obtain ⟨k, hk, hx⟩ := Option.map_eq_some_iff.1 hx
    cases hx
    rcases ProcTable.fork_cases hk with ⟨hneg, rfl⟩ | ⟨hpos, -, hown⟩
    · rw [dif_neg (by omega)]
      exact View.Empty.exact hs
    · -- the supervisor exists before its pid is in the session
      rw [dif_pos hpos]
      intro q
      have hempty : w.procs.own = ∅ := hs.2
      simp only [World.view, hown, hempty, Set.mem_insert_iff, Set.mem_empty_iff_false, or_false]
  | store q =>
    obtain ⟨-, rfl, rfl⟩ := on_pair_eq_some.1 h
    exact ⟨fun r => (hs r).trans (iff_and_self.2 fun _ => q.2), q.2⟩
  | running =>
    obtain ⟨-, rfl, rfl⟩ := on_pair_eq_some.1 h
    exact ⟨hs.1, fun _ => hs.2⟩

theorem waitForListenerStep_seq {p : ListenPc} (hs : SeqAt w.view (.listen p))
    (h : waitForListenerStep c w y p = some (w', p')) : SeqAt w'.view p' := by
  cases p with
  | resolve =>
    simp only [waitForListenerStep] at h
    split_ifs at h
    · obtain ⟨-, rfl, rfl⟩ := on_pair_eq_some.1 h
      exact fun q hq => (hs.1 q).1 hq
    · obtain ⟨ok, -, hx⟩ := Option.map_eq_some_iff.1 h
      cases ok <;> cases hx
      exacts [fun q hq => (hs.1 q).1 hq, hs]
  | deadline =>
    obtain ⟨b, -, hx⟩ := Option.map_eq_some_iff.1 h
    cases b <;> cases hx
    exacts [hs, fun q hq => (hs.1 q).1 hq]
  | load =>
    obtain ⟨-, rfl, rfl⟩ := on_pair_eq_some.1 h
    exact ⟨hs.1, hs.2, rfl⟩
  | poll q =>
    obtain ⟨r, k, rfl, hk, rfl, rfl⟩ := World.waitpid_eq_some.1 h
    obtain ⟨hex, hpos, rfl⟩ := hs
    rcases ProcTable.waitpid_cases hk with ⟨q, st, rfl, hq, hown⟩ | ⟨rfl, hne, -⟩
    · -- the pid stays in the session
      obtain rfl := hq hpos
      simp only [childExited, Waited.rc, if_true]
      intro q hq
      simp only [World.view, hown] at hq
      exact (hex q).1 hq.1
    · simp only [childExited, if_neg (hne hpos)]
      exact ⟨hex, hpos⟩
  | connect =>
    obtain ⟨ok, -, hx⟩ := Option.map_eq_some_iff.1 h
    cases ok <;> cases hx <;> exact hs

theorem stopStep_seq {p : StopPc} {m : Option Msg} (hs : SeqAt w.view (.stop p m))
    (hy : y.uninterrupted = true) (h : stopStep w m y p = some (w', p')) :
    SeqAt w'.view p' := by
  cases p with
  | swap =>
    obtain ⟨-, rfl, rfl⟩ := on_pair_eq_some.1 h
    split_ifs with hp
    -- the call takes the supervisor out of the session, or there is none
    · exact ⟨le_rfl, fun q hq => (hs q hq).2⟩
    · exact ⟨le_rfl, Set.eq_empty_iff_forall_notMem.2 fun q hq => hp (hs q hq).1⟩
  | term p | kill p =>
    obtain ⟨-, rfl, rfl⟩ := on_pair_eq_some.1 h
    exact hs
  | poll n p =>
    cases n with
    | zero =>
      obtain ⟨-, rfl, rfl⟩ := on_pair_eq_some.1 h
      exact hs
    | succ n =>
      obtain ⟨r, k, rfl, hk, rfl, rfl⟩ := World.waitpid_eq_some.1 h
      split_ifs with hend
      · exact ⟨hs.1, ProcTable.own_eq_empty_of_waitpid p.2 hs.2 hk hend⟩
      · rcases ProcTable.waitpid_cases hk with ⟨q, st, rfl, hq, -⟩ | ⟨rfl, -, -⟩
        · exact absurd (.inl (hq p.2)) hend
        · exact hs
  | wait p =>
    obtain ⟨r, k, rfl, hk, rfl, rfl⟩ := World.waitpid_eq_some.1 h
    refine ⟨hs.1, ProcTable.own_eq_empty_of_waitpid p.2 hs.2 hk ?_⟩
    -- without `WNOHANG` and uninterrupted, only a child or its absence ends it
    rcases ProcTable.waitpid_cases hk with ⟨q, st, rfl, hq, -⟩ | ⟨-, -, hr⟩
    · exact .inl (hq p.2)
    · rcases hr with ⟨-, hb⟩ | rfl | ⟨rfl, -⟩
      · cases hb
      · cases hy
      · exact .inr rfl
  | finish =>
    obtain ⟨-, rfl, rfl⟩ := on_pair_eq_some.1 h
    cases m with
    | none => exact ⟨View.Empty.exact hs, nofun⟩
    | some m => exact View.Empty.exact hs

theorem stateStep_seq {p : StatePc} (hs : SeqAt w.view (.state p))
    (h : stateStep w y p = some (w', p')) : SeqAt w'.view p' := by
  cases p with
  | load =>
    obtain ⟨-, rfl, rfl⟩ := on_pair_eq_some.1 h
    split_ifs with hp
    exacts [⟨hs, rfl⟩, hs]
  | poll p =>
    obtain ⟨r, k, rfl, hk, rfl, rfl⟩ := World.waitpid_eq_some.1 h
    obtain ⟨hrest, hpid⟩ := hs
    have hown : ∀ q ∈ w.procs.own, q = p.1 := fun q hq => ((hrest.1 q).1 hq).2.trans hpid
    rcases ProcTable.waitpid_cases hk with ⟨q, st, rfl, hq, -⟩ | ⟨rfl, hne, -⟩
    · obtain rfl := hq p.2
      rw [if_pos (by simp [childExited, Waited.rc])]
      exact ⟨hpid, ProcTable.own_eq_empty_of_waitpid p.2 hown hk (.inl rfl)⟩
    · rw [if_neg (by simp [childExited, hne p.2])]
      exact hrest
  | cas p =>
    obtain ⟨-, rfl, rfl⟩ := on_pair_eq_some.1 h
    have hpid : w.pid = p.1 := hs.1
    simp only [SeqAt, World.view, if_pos hpid]
    exact ⟨le_rfl, hs.2⟩
  | exited =>
    obtain ⟨-, rfl, rfl⟩ := on_pair_eq_some.1 h
    refine ⟨View.Empty.exact hs, fun hv => ?_⟩
    cases hv
  | read =>
    obtain ⟨-, rfl, rfl⟩ := on_pair_eq_some.1 h
    exact hs

theorem callStep_seq (hs : SeqAt w.view p) (hy : y.uninterrupted = true)
    (h : callStep c w y p = some (w', p')) : SeqAt w'.view p' := by
  cases p with
  | start p => exact startStep_seq hs h
  | listen p => exact waitForListenerStep_seq hs h
  | stop p k => exact stopStep_seq hs hy h
  | state p => exact stateStep_seq hs h
  | setError m =>
    obtain ⟨-, rfl, rfl⟩ := on_pair_eq_some.1 h
    exact ⟨hs, nofun⟩
  | ret v =>
    obtain ⟨-, rfl, rfl⟩ := on_pair_eq_some.1 h
    exact hs
  | idle | done v => cases h

theorem SeqAt.rest {v : View} (h : SeqAt v p) (hp : p.quiet = true) : v.Rest := by
  cases p with
  | idle | done r => exact h
  | _ => cases hp

theorem SeqAt.entry {v : View} (h : v.Rest) (f : Fn) : SeqAt v f.entry := by
  cases f with
  | start | state => exact h
  | stop => exact fun q hq => (h.1 q).1 hq

/-- At every control point there is at most one supervisor. -/
theorem SeqAt.subsingleton {v : View} (h : SeqAt v p) : ∃ q, ∀ r ∈ v.own, r = q := by
  have hexact : v.Exact → ∃ q, ∀ r ∈ v.own, r = q := fun he => ⟨v.pid, fun r hr => ((he r).1 hr).2⟩
  cases p with
  | idle | ret r | done r => exact hexact h.1
  | setError m => exact hexact h
  | start p =>
    cases p with
    | load | running => exact hexact h.1
    | store q => exact ⟨q, fun r hr => (h r).1 hr⟩
    | _ => exact hexact (View.Empty.exact h)
  | listen p => cases p <;> exact hexact h.1
  | stop p k =>
    cases p with
    | swap => exact ⟨v.pid, fun r hr => (h r hr).2⟩
    | finish => exact hexact (View.Empty.exact h)
    | term q | poll n q | kill q | wait q => exact ⟨q, h.2⟩
  | state p =>
    cases p with
    | load | read => exact hexact h.1
    | poll q => exact hexact h.1.1
    | cas q => exact ⟨0, fun r hr => by rw [h.2] at hr; cases hr⟩
    | exited => exact hexact (View.Empty.exact h)

/-- Calls are made one at a time, and a blocking `waitpid` is not interrupted. -/
def oneAtATime (s : St) : Act → Bool
  | .call _ => decide (∀ t < s.count, (s.pcs t).quiet = true)
  | .step _ y => y.uninterrupted
  | .env _ => true

/-- Only the last call can be in progress, and its assertion holds. -/
def SeqInv (s : St) : Prop :=
  (∀ t, t + 1 ≠ s.count → (s.pcs t).quiet = true) ∧ SeqAt s.world.view (s.pcs (s.count - 1))

theorem next_seq (hs : SeqInv s) (ha : oneAtATime s a = true) (h : next c s a = some s') :
    SeqInv s' := by
  cases a with
  | call f =>
    cases h
    have hquiet : ∀ t, (s.pcs t).quiet = true := by
      intro t
      by_cases ht : t + 1 = s.count
      · exact of_decide_eq_true ha t (by omega)
      · exact hs.1 t ht
    refine ⟨fun t ht => ?_, ?_⟩
    · have hne : t ≠ s.count := by
        rintro rfl
        exact ht rfl
      simp only [Function.update_of_ne hne]
      exact hquiet t
    · simp only [Nat.add_sub_cancel, Function.update_self]
      exact .entry (hs.2.rest (hquiet _)) f
  | step t y =>
    obtain ⟨w, p, hc, rfl⟩ := next_step.1 h
    -- the call that takes the step is the last one
    have ht : t + 1 = s.count := by
      by_contra ht
      exact Bool.false_ne_true ((not_quiet_of_callStep hc).symm.trans (hs.1 t ht))
    have hpc : s.count - 1 = t := by omega
    refine ⟨fun t' ht' => ?_, ?_⟩
    · have hne : t' ≠ t := by
        rintro rfl
        exact ht' ht
      simp only [Function.update_of_ne hne]
      exact hs.1 t' ht'
    · simp only [hpc, Function.update_self]
      exact callStep_seq (hpc ▸ hs.2) ha hc
  | env m =>
    obtain ⟨k, hk, rfl⟩ := (next_env (c := c)).1 h
    refine ⟨hs.1, ?_⟩
    simp only [World.view, ProcTable.own_move hk]
    exact hs.2

theorem init_seq (c : Cfg) : SeqInv (.init c) :=
  ⟨fun _ _ => rfl, fun _ => ⟨nofun, fun h => absurd h.1 (lt_irrefl 0)⟩, nofun⟩

theorem run_seq {as : List Act}
    (h : ((session c).guard fun s a => oneAtATime s a = true).Run (.init c) as s) : SeqInv s :=
  h.invariant (init_seq c) fun _ _ _ hs hn =>
    next_seq hs (Machine.guard_next.1 hn).1 (Machine.guard_next.1 hn).2

/-- **The session knows its supervisor.**  With calls made one at a time there is never more than
one supervisor, and after each call the pid is positive exactly when there is one, it is then that
supervisor's pid, and with `AUTOSSH_STATE_RUNNING` there is one. -/
theorem sequential_exact (c : Cfg) {as : List Act}
    (hr : ((session c).guard fun s a => oneAtATime s a = true).Run (.init c) as s) :
    (∀ p q, s.world.procs.owns p = true → s.world.procs.owns q = true → p = q) ∧
    ((∀ t < s.count, (s.pcs t).quiet = true) →
      (0 < s.world.pid ↔ ∃ p, s.world.procs.owns p = true) ∧
      (∀ p, s.world.procs.owns p = true → p = s.world.pid) ∧
      (s.world.state = .running → 0 < s.world.pid)) := by
  obtain ⟨hlast, hat⟩ := run_seq hr
  constructor
  · intro p q hp hq
    obtain ⟨r, hr⟩ := hat.subsingleton
    rw [hr p hp, hr q hq]
  · intro hquiet
    have hrest : s.world.view.Rest := by
      refine hat.rest ?_
      by_cases hc : s.count = 0
      · exact hlast _ (by omega)
      · exact hquiet _ (by omega)
    refine ⟨⟨fun hpos => ⟨s.world.pid, (hrest.1 _).2 ⟨hpos, rfl⟩⟩, ?_⟩, ?_, hrest.2⟩
    · rintro ⟨p, hp⟩
      exact ((hrest.1 p).1 hp).1
    · intro p hp
      exact ((hrest.1 p).1 hp).2

/-- A session that has started its supervisor, found it exited, and is started again. -/
def restarted : List Act :=
  launched 0 100 ++
    [.env (.exit 100 0), .call .state, .step 1 .tau,
      .step 1 (.waitpid 100 true (.reaped 100 0)), .step 1 .tau, .step 1 .tau, .step 1 .tau,
      .step 1 (.ret 3)] ++
    launched 2 101

theorem restarted_exact :
    ∃ s, ((session Cfg.plain).guard fun s a => oneAtATime s a = true).Run (.init Cfg.plain)
        restarted s ∧ s.world.state = .running ∧ s.world.pid = 101 ∧
      0 < s.world.pid ∧ ∀ p, s.world.procs.owns p = true → p = 101 := by
  have hr : ((session Cfg.plain).guard fun s a => oneAtATime s a = true).Run (.init Cfg.plain)
      restarted _ := rfl
  obtain ⟨-, hexact⟩ := sequential_exact Cfg.plain hr
  obtain ⟨-, hown, hrun⟩ := hexact (by decide)
  exact ⟨_, hr, rfl, rfl, hrun rfl, hown⟩

end Session

end Autossh
