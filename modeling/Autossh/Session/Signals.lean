import Autossh.Session.Custody

/-!
# Whom the session signals

A stop call signals the pid it has swapped out of the session.  `kill_own` says when this is sure
to be a supervisor that the session has forked and no one has reaped: in runs whose steps are all
`careful`.  `kill_recycled` is a run in which it is not, with one thread only: a supervisor that
exits early is reaped by `wait_for_listener`, which leaves its pid in the session, and the stop
on the failure path of `autossh_session_start` signals whatever process has that pid by then.
-/

namespace Autossh

namespace Session

/-- No stop call has the pid, and no start call is about to store it. -/
def St.free (s : St) (q : ℤ) : Bool :=
  decide (∀ t < s.count, (s.pcs t).role ≠ .holding q ∧ (s.pcs t).role ≠ .storing q)

/-- The orders of steps that keep a stop call's pid valid:

* a state call reaps a supervisor only while no stop call has its pid, and no start call is about to
  store it;
* `wait_for_listener` does so only if moreover the pid is not in the session;
* a stop call does not swap out a pid that a state call is about to clear. -/
def careful (s : St) : Act → Bool
  | .step t y => match s.pcs t with
    | .listen _ => match y with
      | .waitpid _ _ (.reaped q _) =>
        !s.world.procs.owns q || (s.free q && decide (s.world.cell ≠ some q))
      | _ => true
    | .state _ => match y with
      | .waitpid _ _ (.reaped q _) => !s.world.procs.owns q || s.free q
      | _ => true
    | .stop .swap _ => decide (∀ t' < s.count, (s.pcs t').role ≠ .clearing s.world.pid)
    | _ => true
  | _ => true

variable {c : Cfg} {s s' : St} {w : World} {t : ℕ} {a : Act}

theorem Fresh.role (hf : Fresh s) {r : Role ℤ} (hr : r ≠ .none)
    (h : ∀ t < s.count, (s.pcs t).role ≠ r) (t : ℕ) : (s.pcs t).role ≠ r := by
  by_cases ht : t < s.count
  · exact h t ht
  · rw [hf t (Nat.le_of_not_lt ht)]
    exact hr.symm

theorem Fresh.free (hf : Fresh s) {q : ℤ} (h : s.free q = true) : s.custody.Free q := by
  have hfree := of_decide_eq_true h
  have hheld : ∀ t < s.count, (s.pcs t).role ≠ .holding q := fun t ht => (hfree t ht).1
  have hstoring : ∀ t < s.count, (s.pcs t).role ≠ .storing q := fun t ht => (hfree t ht).2
  exact fun t => ⟨hf.role (by simp) hheld t, hf.role (by simp) hstoring t⟩

/-- The conditions are those of the custody machine. -/
theorem custody_careful (hf : Fresh s) (h : careful s a = true) {x : ℕ × Deed ℤ}
    (hd : s.deed a = some x) : s.custody.Careful x := by
  cases a with
  | call f | env m => cases hd
  | step t y =>
    obtain ⟨d, hdeed, rfl⟩ := Option.map_eq_some_iff.1 hd
    cases d with
    | lose q =>
      obtain ⟨r, r', b, st, hp, rfl⟩ := deed_lose hdeed
      simp only [careful, hp, Bool.or_eq_true, Bool.not_eq_true', Bool.and_eq_true,
        decide_eq_true_eq] at h
      intro ho
      obtain ⟨hfree, hcell⟩ := h.resolve_left fun hno => Bool.false_ne_true (hno.symm.trans ho)
      exact ⟨hf.free hfree, fun hc => absurd hc hcell⟩
    | take q =>
      obtain ⟨r, r', b, st, hp, rfl⟩ := deed_take hdeed
      simp only [careful, hp, Bool.or_eq_true, Bool.not_eq_true'] at h
      intro ho
      exact hf.free (h.resolve_left fun hno => Bool.false_ne_true (hno.symm.trans ho))
    | swap =>
      obtain ⟨k, hp, hpos⟩ := deed_swap hdeed
      simp only [careful, hp, decide_eq_true_eq] at h
      intro q hq
      obtain rfl : s.world.pid = q := Option.some.inj ((World.cell_of_pos hpos).symm.trans hq)
      exact hf.role nofun h
    | _ => trivial

open Classical in
/-- Careful runs of the session are careful runs of the custody machine. -/
theorem careful_simulates (c : Cfg) :
    ((session c).guard fun s a => careful s a = true).Simulates
      (Custody.machine.guard Custody.Careful) Fresh St.custody St.deed := by
  intro s a s' hf h
  obtain ⟨hc, hn⟩ := Machine.guard_next.1 h
  obtain ⟨hf', hs⟩ := session_simulates c s a s' hf hn
  refine ⟨hf', ?_⟩
  cases hd : s.deed a with
  | none =>
    rw [hd] at hs
    exact hs
  | some x =>
    rw [hd] at hs
    exact Machine.guard_next.2 ⟨custody_careful hf hc hd, hs⟩

theorem init_fresh (c : Cfg) : Fresh (.init c) := fun _ _ => rfl

theorem init_sound (c : Cfg) : (St.init c).custody.Sound where
  held _ _ h := nomatch h
  unique _ _ _ h := nomatch h
  apart _ _ h := nomatch h
  stored _ _ h := nomatch h
  storing_unique _ _ _ h := nomatch h
  storing_not_held _ _ _ h := nomatch h
  storing_not_named _ _ h := nomatch h
  named _ h := nomatch h

theorem run_sound {as : List Act}
    (h : ((session c).guard fun s a => careful s a = true).Run (.init c) as s) :
    s.custody.Sound := by
  obtain ⟨-, xs, hxs⟩ := h.simulates (careful_simulates c) (init_fresh c)
  exact Custody.sound_of_run (init_sound c) hxs

/-- **Every signal goes to a supervisor** that the session has forked and no one has reaped, in
a run whose steps are all careful. -/
theorem kill_own (c : Cfg) {as : List Act} {p : ℤ} {g : KillSig}
    (hr : ((session c).guard fun s a => careful s a = true).Run (.init c) as s)
    (hn : (session c).next s (.step t (.kill p g)) = some s') : s.world.procs.owns p = true := by
  obtain ⟨w, p', hc, -⟩ := next_step.1 hn
  exact (run_sound hr).held t p (role_of_kill hc)

theorem stop_signals_own :
    ∃ s s', ((session Cfg.plain).guard fun s a => careful s a = true).Run (.init Cfg.plain)
        (launched 0 100 ++ [.call .stop, .step 1 .tau]) s ∧
      (session Cfg.plain).next s (.step 1 (.kill 100 .sigterm)) = some s' ∧
      s.world.procs.owns 100 = true := by
  obtain ⟨s, s', hr, hn⟩ := Machine.exists_run_concat (show Option.isSome
    (((session Cfg.plain).guard fun s a => careful s a = true).exec (.init Cfg.plain)
      ((launched 0 100 ++ [.call .stop, .step 1 .tau]) ++ [.step 1 (.kill 100 .sigterm)])) = true
    by rfl)
  obtain ⟨-, hn⟩ := Machine.guard_next.1 hn
  exact ⟨s, s', hr, hn, kill_own Cfg.plain hr hn⟩

/-- The supervisor exits before its listener is up, `wait_for_listener` reaps it, an unrelated
process gets its pid, and the failure path swaps the pid out of the session. -/
def exitsEarly : List Act :=
  launch 0 100 ++
    [.env (.exit 100 0), .step 0 (.waitpid 100 true (.reaped 100 0)), .env (.spawn 100 .other),
      .step 0 .tau]

/-- The unrelated process receives the `SIGTERM`. -/
theorem kill_recycled :
    ∃ s s', (session Cfg.plain).Run (.init Cfg.plain) exitsEarly s ∧
      (session Cfg.plain).next s (.step 0 (.kill 100 .sigterm)) = some s' ∧
      s.world.procs 100 = some ⟨.other, none⟩ ∧ ¬ s.world.procs.owns 100 = true := by
  have hr : (session Cfg.plain).Run (.init Cfg.plain) exitsEarly _ := rfl
  exact ⟨_, _, hr, rfl, rfl, by decide⟩

end Session

end Autossh
