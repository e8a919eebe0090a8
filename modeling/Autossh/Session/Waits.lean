import Autossh.Session.Custody

/-!
# Whom the session waits for

Stop and state calls wait for a pid they have found to be positive.  `wait_for_listener` waits for
the pid it finds in the session, whatever it is, and loads it anew in every round.

* `Listening` : the invariant.  While a start call is in `wait_for_listener`, the session's pid is
  positive, and so is the pid that call has loaded;
* `waitpid_pos` : every `waitpid` is for a positive pid, in runs in which no call empties the
  session under a start call that waits for its listener (`undisturbed`);
* `waitpid_zero` : a run in which a stop call does.  The start call then waits for any child of
  the host, and reaps one.
-/

namespace Autossh

namespace Session

/-- The call is in `wait_for_listener`. -/
def Pc.listening : Pc → Bool
  | .listen _ => true
  | _ => false

/-- The next step of the call takes the pid out of the session: `swap` in a stop call, or
`compare_exchange` in a state call that finds the pid it has reaped. -/
def Pc.empties (w : World) : Pc → Bool
  | .stop .swap _ => 0 < w.pid
  | .state (.cas p) => w.pid = p
  | _ => false

/-- No call takes the pid out of the session while another one is in `wait_for_listener`. -/
def undisturbed (s : St) : Act → Bool
  | .step t _ =>
    !(s.pcs t).empties s.world || decide (∀ t' < s.count, (s.pcs t').listening = false)
  | _ => true

/-- Where a start call waits for its listener, it finds a positive pid. -/
structure Listening (s : St) : Prop where
  fresh : Fresh s
  stored : ∀ t, (s.pcs t).listening = true → 0 < s.world.pid
  loaded : ∀ t p, s.pcs t = .listen (.poll p) → 0 < p

variable {c : Cfg} {s s' : St} {w w' : World} {t : ℕ} {y : Sys} {a : Act} {p p' : Pc}

theorem World.cell_ne_none : w.cell ≠ none ↔ 0 < w.pid := by
  unfold World.cell
  split_ifs with h <;> simp [h]

theorem startStep_listening {q : StartPc} (h : startStep c w y q = some (w', p'))
    (hp' : p'.listening = true) : (∃ r, q = .store r) ∧ p' = .listen .resolve := by
  cases q with
  | store r =>
    obtain ⟨-, rfl, rfl⟩ := on_pair_eq_some.1 h
    exact ⟨⟨r, rfl⟩, rfl⟩
  | load | host | localPort | monitorPort =>
    obtain ⟨-, rfl, rfl⟩ := on_pair_eq_some.1 h
    split_ifs at hp' <;> cases hp'
  | starting | running =>
    obtain ⟨-, rfl, rfl⟩ := on_pair_eq_some.1 h
    cases hp'
  | reserve =>
    obtain ⟨r, -, h⟩ := Option.map_eq_some_iff.1 h
    cases r <;> cases h <;> cases hp'
  | first n =>
    cases n with
    | zero =>
      obtain ⟨-, rfl, rfl⟩ := on_pair_eq_some.1 h
      cases hp'
    | succ n =>
      obtain ⟨r, -, h⟩ := Option.map_eq_some_iff.1 h
      cases r <;> cases h <;> cases hp'
  | second n r =>
    obtain ⟨r, -, h⟩ := Option.map_eq_some_iff.1 h
    rcases r with _ | ⟨_ | _ | _⟩ <;> cases h <;> cases hp'
  | fork =>
    obtain ⟨r, -, h⟩ := Option.bind_eq_some_iff.1 h
    obtain ⟨k, -, h⟩ := Option.map_eq_some_iff.1 h
    cases h
    split_ifs at hp' <;> cases hp'

/-- In a round of `wait_for_listener` the pid comes from the session. -/
theorem waitForListenerStep_poll {l : ListenPc} {q : ℤ}
    (h : waitForListenerStep c w y l = some (w', .listen (.poll q))) : q = w.pid := by
  cases l with
  | load =>
    obtain ⟨-, -, hp⟩ := on_pair_eq_some.1 h
    cases hp
    rfl
  | resolve =>
    simp only [waitForListenerStep] at h
    split_ifs at h
    · obtain ⟨-, -, hp⟩ := on_pair_eq_some.1 h
      cases hp
    · obtain ⟨ok, -, hx⟩ := Option.map_eq_some_iff.1 h
      cases ok <;> cases hx
  | deadline | connect =>
    obtain ⟨b, -, hx⟩ := Option.map_eq_some_iff.1 h
    cases b <;> cases hx
  | poll p =>
    obtain ⟨r, k, -, -, -, hp⟩ := World.waitpid_eq_some.1 h
    split at hp <;> cases hp

theorem stopStep_listening {q : StopPc} {k : Option Msg} (h : stopStep w k y q = some (w', p')) :
    p'.listening = false := by
  cases q with
  | swap | term r | kill r =>
    obtain ⟨-, -, rfl⟩ := on_pair_eq_some.1 h
    rfl
  | poll n r =>
    cases n with
    | zero =>
      obtain ⟨-, -, rfl⟩ := on_pair_eq_some.1 h
      rfl
    | succ n =>
      obtain ⟨r, k, -, -, -, rfl⟩ := World.waitpid_eq_some.1 h
      rfl
  | wait r =>
    obtain ⟨r, k, -, -, -, rfl⟩ := World.waitpid_eq_some.1 h
    rfl
  | finish =>
    obtain ⟨-, -, rfl⟩ := on_pair_eq_some.1 h
    cases k <;> rfl

theorem stateStep_listening {q : StatePc} (h : stateStep w y q = some (w', p')) :
    p'.listening = false := by
  cases q with
  | poll r =>
    obtain ⟨r, k, -, -, -, rfl⟩ := World.waitpid_eq_some.1 h
    rfl
  | load | cas r | exited | read =>
    obtain ⟨-, -, rfl⟩ := on_pair_eq_some.1 h
    rfl

/-- A call enters `wait_for_listener` when it has stored its pid, and there loads the session's. -/
theorem callStep_listening (h : callStep c w y p = some (w', p')) (hp' : p'.listening = true) :
    (∃ q, p = .start (.store q)) ∧ p' = .listen .resolve ∨
      p.listening = true ∧ ∀ q, p' = .listen (.poll q) → q = w.pid := by
  cases p with
  | start q =>
    obtain ⟨⟨r, rfl⟩, hr⟩ := startStep_listening h hp'
    exact .inl ⟨⟨r, rfl⟩, hr⟩
  | listen l =>
    refine .inr ⟨rfl, ?_⟩
    rintro q rfl
    exact waitForListenerStep_poll h
  | stop q k =>
    rw [stopStep_listening h] at hp'
    exact absurd hp' Bool.false_ne_true
  | state q =>
    rw [stateStep_listening h] at hp'
    exact absurd hp' Bool.false_ne_true
  | setError m | ret v =>
    obtain ⟨-, -, rfl⟩ := on_pair_eq_some.1 h
    cases hp'
  | idle | done v => cases h

/-- Outside `wait_for_listener` the calls wait for pids they carry as `Pid`s. -/
theorem callStep_waitpid {q : ℤ} {b : Bool} {r : Waited} {x : World × Pc}
    (h : callStep c w (.waitpid q b r) p = some x) : 0 < q ∨ p = .listen (.poll q) := by
  obtain ⟨w', p'⟩ := x
  cases p with
  | start p =>
    rcases p with _ | _ | _ | _ | _ | ⟨_ | n⟩ | _ | _ | _ | _ | _ <;> cases h
  | listen p =>
    cases p with
    | poll p =>
      obtain ⟨_, _, hy, -⟩ := World.waitpid_eq_some.1 h
      cases hy
      exact .inr rfl
    | resolve =>
      simp only [callStep, waitForListenerStep] at h
      split_ifs at h <;> cases h
    | _ => cases h
  | stop p k =>
    cases p with
    | poll n p =>
      cases n with
      | zero => cases h
      | succ n =>
        obtain ⟨_, _, hy, -⟩ := World.waitpid_eq_some.1 h
        cases hy
        exact .inl p.2
    | wait p =>
      obtain ⟨_, _, hy, -⟩ := World.waitpid_eq_some.1 h
      cases hy
      exact .inl p.2
    | term p | kill p =>
      obtain ⟨hk, -⟩ := on_eq_some.1 h
      rw [killPid, if_neg (Int.not_le.2 p.2)] at hk
      cases hk
    | _ => cases h
  | state p =>
    cases p with
    | poll p =>
      obtain ⟨_, _, hy, -⟩ := World.waitpid_eq_some.1 h
      cases hy
      exact .inl p.2
    | _ => cases h
  | _ => cases h

/-- The pid stays positive as long as no call takes it out. -/
theorem next_pid_pos (hf : Fresh s) (hpos : 0 < s.world.pid) (h : next c s a = some s')
    (hkeep : ∀ t y, a = .step t y → (s.pcs t).empties s.world = false) : 0 < s'.world.pid := by
  obtain ⟨-, hsim⟩ := session_simulates c s a s' hf h
  have hcell : s.custody.cell ≠ none := World.cell_ne_none.2 hpos
  suffices s'.custody.cell ≠ none from World.cell_ne_none.1 this
  cases hd : s.deed a with
  | none =>
    rw [hd] at hsim
    rw [hsim]
    exact hcell
  | some x =>
    rw [hd] at hsim
    cases a with
    | call f | env m => cases hd
    | step t y =>
      obtain ⟨d, hdeed, rfl⟩ := Option.map_eq_some_iff.1 hd
      have hno := hkeep t y rfl
      refine (Custody.does_of_next hsim).cell_ne_none hcell ?_ ?_
      · rintro rfl
        obtain ⟨k, hp, -⟩ := deed_swap hdeed
        simp [hp, Pc.empties, hpos] at hno
      · rintro rfl q hq hc
        obtain ⟨r, hp⟩ := deed_clear hdeed
        simp only [St.custody, hp, Pc.role, Role.clearing.injEq] at hq
        simp only [hp, Pc.empties, decide_eq_false_iff_not] at hno
        refine hno (Option.some.inj ((World.cell_of_pos hpos).symm.trans (hc.trans ?_)))
        rw [hq]

/-- No call empties the session under one that is listening. -/
theorem Listening.keeps (hs : Listening s) (ha : undisturbed s a = true) {t' : ℕ}
    (ht' : (s.pcs t').listening = true) (t : ℕ) (y : Sys) (hstep : a = .step t y) :
    (s.pcs t).empties s.world = false := by
  subst hstep
  have hcount : t' < s.count := by
    by_contra hle
    rw [hs.fresh t' (Nat.le_of_not_lt hle)] at ht'
    cases ht'
  rcases Bool.or_eq_true_iff.1 ha with h | h
  · simpa using h
  · have hno := of_decide_eq_true h t' hcount
    exact absurd (hno.symm.trans ht') Bool.false_ne_true

theorem Listening.next (hs : Listening s) (ha : undisturbed s a = true)
    (h : next c s a = some s') : Listening s' := by
  have hpos : ∀ t', (s.pcs t').listening = true → 0 < s'.world.pid := fun t' ht' =>
    next_pid_pos hs.fresh (hs.stored t' ht') h (hs.keeps ha ht')
  refine ⟨next_fresh hs.fresh h, ?_, ?_⟩
  · intro t' ht'
    cases a with
    | call f =>
      cases h
      by_cases hne : t' = s.count
      · subst hne
        simp only [Function.update_self] at ht'
        cases f <;> cases ht'
      · simp only [Function.update_of_ne hne] at ht'
        exact hs.stored t' ht'
    | env m =>
      obtain ⟨k, -, rfl⟩ := next_env.1 h
      exact hs.stored t' ht'
    | step t y =>
      obtain ⟨w, p, hc, rfl⟩ := next_step.1 h
      by_cases hne : t' = t
      · subst hne
        simp only [Function.update_self] at ht'
        rcases callStep_listening hc ht' with ⟨⟨q, hq⟩, -⟩ | ⟨hl, -⟩
        · rw [hq] at hc
          obtain ⟨-, rfl, -⟩ := on_pair_eq_some.1 hc
          exact q.2
        · exact hpos t' hl
      · simp only [Function.update_of_ne hne] at ht'
        exact hpos t' ht'
  · intro t' q hq
    cases a with
    | call f =>
      cases h
      by_cases hne : t' = s.count
      · subst hne
        simp only [Function.update_self] at hq
        cases f <;> cases hq
      · simp only [Function.update_of_ne hne] at hq
        exact hs.loaded t' q hq
    | env m =>
      obtain ⟨k, -, rfl⟩ := next_env.1 h
      exact hs.loaded t' q hq
    | step t y =>
      obtain ⟨w, p, hc, rfl⟩ := next_step.1 h
      by_cases hne : t' = t
      · subst hne
        simp only [Function.update_self] at hq
        rcases callStep_listening hc (by rw [hq]; rfl) with ⟨-, hr⟩ | ⟨hl, hload⟩
        · rw [hr] at hq
          cases hq
        · rw [hload q hq]
          exact hs.stored t' hl
      · simp only [Function.update_of_ne hne] at hq
        exact hs.loaded t' q hq

theorem init_listening (c : Cfg) : Listening (.init c) := by
  refine ⟨fun _ _ => rfl, ?_, ?_⟩
  · intro t h
    cases h
  · intro t p h
    cases h

theorem run_listening {as : List Act}
    (h : ((session c).guard fun s a => undisturbed s a = true).Run (.init c) as s) :
    Listening s := by
  refine h.invariant (init_listening c) ?_
  intro s a s' hs hn
  obtain ⟨ha, hn⟩ := Machine.guard_next.1 hn
  exact hs.next ha hn

/-- **Every `waitpid` is for a positive pid**, in a run in which no call takes the pid out of the
session while a start call is in `wait_for_listener`. -/
theorem waitpid_pos (c : Cfg) {as : List Act} {p : ℤ} {b : Bool} {r : Waited}
    (hr : ((session c).guard fun s a => undisturbed s a = true).Run (.init c) as s)
    (hn : (session c).next s (.step t (.waitpid p b r)) = some s') : 0 < p := by
  obtain ⟨w, p', hc, -⟩ := next_step.1 hn
  rcases callStep_waitpid hc with hpos | hpoll
  · exact hpos
  · exact (run_listening hr).loaded t p hpoll

/-- The first round of `wait_for_listener`, while a state call waits for the same pid. -/
theorem waits_for_supervisor :
    ∃ s s', ((session Cfg.plain).guard fun s a => undisturbed s a = true).Run (.init Cfg.plain)
        (launch 0 100 ++ [.call .state, .step 1 .tau, .step 1 (.waitpid 100 true .zero)]) s ∧
      (session Cfg.plain).next s (.step 0 (.waitpid 100 true .zero)) = some s' ∧
      (0 : ℤ) < 100 := by
  obtain ⟨s, s', hr, hn⟩ := Machine.exists_run_concat (show Option.isSome
    (((session Cfg.plain).guard fun s a => undisturbed s a = true).exec (.init Cfg.plain)
      ((launch 0 100 ++ [.call .state, .step 1 .tau, .step 1 (.waitpid 100 true .zero)]) ++
        [.step 0 (.waitpid 100 true .zero)])) = true by rfl)
  obtain ⟨-, hn⟩ := Machine.guard_next.1 hn
  exact ⟨s, s', hr, hn, waitpid_pos Cfg.plain hr hn⟩

/-- The host has a child of its own, 7, that has exited.  A stop call swaps the pid out of the
session between two rounds of `wait_for_listener`, and the next round loads 0. -/
def stoppedWhileStarting : List Act :=
  [.env (.spawn 7 .host), .env (.exit 7 0)] ++ launch 0 100 ++
    [.step 0 (.waitpid 100 true .zero), .step 0 (.connect false), .call .stop, .step 1 .tau,
      .step 0 (.expired false), .step 0 .tau]

/-- The start call reaps the host's child. -/
theorem waitpid_zero :
    ∃ s s', (session Cfg.plain).Run (.init Cfg.plain) stoppedWhileStarting s ∧
      (session Cfg.plain).next s (.step 0 (.waitpid 0 true (.reaped 7 0))) = some s' ∧
      s.world.procs 7 = some ⟨.host, some 0⟩ ∧ s'.world.procs 7 = none := by
  have hr : (session Cfg.plain).Run (.init Cfg.plain) stoppedWhileStarting _ := rfl
  exact ⟨_, _, hr, rfl, rfl, rfl⟩

end Session

end Autossh
