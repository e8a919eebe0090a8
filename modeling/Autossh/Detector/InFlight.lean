import Autossh.Detector.Basic

/-!
# Which calls the trackers know

A call that finds its tracker idle starts it, and stops it when it returns.  Calls that find it
running leave it alone.  For calls of one thread this works: the call that has started the tracker
is the last one to return.  The calls of several threads return in any order.

* `Tracked` : a tracker is running exactly if a call of its function is in flight;
* `lastToLeave` : a call that has started its tracker returns only when no other call of the
  function is in flight;
* `tracked_iff` : all states of a run are `Tracked` exactly if all its steps meet `lastToLeave`;
* `tracked_lost` : two threads in `connect`.  The first one returns, and the monitor never looks at
  the second again.
-/

namespace Autossh

namespace Detector

variable {τ : Type}

/-- A tracker is running exactly if a call of its function is in flight. -/
def Tracked (s : St τ) : Prop :=
  ∀ h, (s.tracker h).startSec ≠ 0 ↔ ∃ c ∈ s.calls, c.hook = h

/-- The clock is not zero when a call is made. -/
def Act.ticking : Act τ → Bool
  | .enter _ _ now => now ≠ 0
  | _ => true

/-- Why the trackers are right: a running tracker has been started by a call that is in flight, and
every call in flight is on a running tracker. -/
structure Started (s : St τ) : Prop where
  starter : ∀ h, (s.tracker h).startSec ≠ 0 → ∃ c ∈ s.calls, c.hook = h ∧ c.prev = 0
  running : ∀ c ∈ s.calls, (s.tracker c.hook).startSec ≠ 0

theorem Started.tracked {s : St τ} (hs : Started s) : Tracked s := by
  intro h
  constructor
  · intro hne
    obtain ⟨c, hc, rfl, -⟩ := hs.starter h hne
    exact ⟨c, hc, rfl⟩
  · rintro ⟨c, hc, rfl⟩
    exact hs.running c hc

theorem started_init : Started (St.init : St τ) := by
  refine ⟨fun h hne => absurd rfl hne, ?_⟩
  intro c hc
  cases hc

variable {threshold : ℤ} {s s' : St τ} {a : Act τ} {t : τ}

theorem startSec_scanned {now : ℤ} (k : Tracker) :
    (k.scanned threshold now).startSec = k.startSec := by
  unfold Tracker.scanned
  split_ifs <;> rfl

/-- A scan changes the time of the last line at most. -/
theorem startSec_scanLoop {now : ℤ} (hs : List Hook) (ts : Hook → Tracker) (h : Hook) :
    ((scanLoop threshold now hs ts).tracker h).startSec = (ts h).startSec := by
  have hupd : ∀ (ts : Hook → Tracker) g,
      (Function.update ts g ((ts g).scanned threshold now) h).startSec = (ts h).startSec := by
    intro ts g
    by_cases hg : h = g
    · subst hg
      rw [Function.update_self, startSec_scanned]
    · rw [Function.update_of_ne hg]
  induction hs generalizing ts with
  | nil => rfl
  | cons g hs ih =>
    rw [scanLoop]
    split_ifs
    · exact hupd ts g
    · exact (ih _).trans (hupd ts g)

theorem started_scan {now : ℤ} {ended : Bool} (hs : Started s) :
    Started { s with tracker := (scanLoop threshold now trackers s.tracker).tracker, ended } := by
  constructor
  · intro h hne
    rw [startSec_scanLoop] at hne
    exact hs.starter h hne
  · intro c hc
    rw [startSec_scanLoop]
    exact hs.running c hc

theorem started_enter {h : Hook} {now : ℤ} (hs : Started s) (hnow : now ≠ 0) :
    Started { s with
      tracker := Function.update s.tracker h ((s.tracker h).enter now).2
      calls := ⟨t, h, ((s.tracker h).enter now).1⟩ :: s.calls } := by
  -- the tracker is running now, whether it was before or not
  have hrun : ((s.tracker h).enter now).2.startSec ≠ 0 := by
    rw [Tracker.enter]
    split_ifs with hidle
    · exact hnow
    · exact hidle
  refine ⟨fun g hne => ?_, fun c hc => ?_⟩
  · by_cases hg : g = h
    · subst hg
      by_cases hidle : (s.tracker g).startSec = 0
      · exact ⟨_, List.mem_cons_self, rfl, hidle⟩
      · obtain ⟨c, hc, hstart⟩ := hs.starter g hidle
        exact ⟨c, List.mem_cons_of_mem _ hc, hstart⟩
    · simp only [Function.update_of_ne hg] at hne
      obtain ⟨c, hc, hstart⟩ := hs.starter g hne
      exact ⟨c, List.mem_cons_of_mem _ hc, hstart⟩
  · by_cases hg : c.hook = h
    · simp only [hg, Function.update_self]
      exact hrun
    · simp only [Function.update_of_ne hg]
      rcases List.mem_cons.1 hc with rfl | hc
      · exact absurd rfl hg
      · exact hs.running c hc

variable [DecidableEq τ]

/-- A call that has started its tracker returns only when it is the last one in flight. -/
def lastToLeave (s : St τ) : Act τ → Bool
  | .leave t h =>
    (lastOf t s.calls).all fun x => x.1.prev ≠ 0 ∨ ∀ c ∈ x.2, c.hook ≠ h
  | _ => true

/-! ### Steps -/

theorem lastOf_eq_some {cs ds : List (Call τ)} {c : Call τ} (h : lastOf t cs = some (c, ds)) :
    c.thread = t ∧ ∃ xs ys, cs = xs ++ c :: ys ∧ ds = xs ++ ys ∧ ∀ x ∈ xs, x.thread ≠ t := by
  induction cs generalizing ds with
  | nil => cases h
  | cons d cs ih =>
    rw [lastOf] at h
    split_ifs at h with hd
    · cases h
      exact ⟨hd, [], _, rfl, rfl, fun x hx => absurd hx List.not_mem_nil⟩
    · obtain ⟨⟨c', ds'⟩, hx, he⟩ := Option.map_eq_some_iff.1 h
      cases he
      obtain ⟨ht, xs, ys, rfl, rfl, hxs⟩ := ih hx
      exact ⟨ht, d :: xs, ys, rfl, rfl, List.forall_mem_cons.2 ⟨hd, hxs⟩⟩

/-- What a step of a process that goes on can be. -/
theorem detector_next : (detector threshold).next s a = some s' ↔
    s.ended = false ∧ step threshold s a = some s' := by
  simp only [detector]
  split_ifs with h <;> simp [h]

theorem step_leave {h : Hook} : step threshold s (.leave t h) = some s' ↔
    ∃ c cs, lastOf t s.calls = some (c, cs) ∧ c.hook = h ∧
      s' = { s with
        tracker := Function.update s.tracker h ((s.tracker h).leave c.prev)
        calls := cs } := by
  simp only [step, Option.bind_eq_some_iff, Option.ite_none_right_eq_some, Option.some.injEq,
    Prod.exists, eq_comm (b := s')]

theorem started_leave {c : Call τ} {cs : List (Call τ)} (hs : Started s)
    (hlast : lastOf t s.calls = some (c, cs))
    (hleave : c.prev ≠ 0 ∨ ∀ d ∈ cs, d.hook ≠ c.hook) :
    Started { s with
      tracker := Function.update s.tracker c.hook ((s.tracker c.hook).leave c.prev)
      calls := cs } := by
  obtain ⟨-, xs, ys, hcs, rfl, -⟩ := lastOf_eq_some hlast
  have hsub : ∀ d ∈ xs ++ ys, d ∈ s.calls := by
    intro d hd
    rw [hcs]
    simp only [List.mem_append, List.mem_cons] at hd ⊢
    tauto
  have hother : ∀ d ∈ s.calls, d ≠ c → d ∈ xs ++ ys := by
    intro d hd hne
    rw [hcs] at hd
    simp only [List.mem_append, List.mem_cons] at hd ⊢
    tauto
  by_cases hprev : c.prev = 0
  · -- the tracker is stopped, and no call of the function is left
    have hnone := hleave.resolve_left fun hne => hne hprev
    refine ⟨fun g hne => ?_, fun d hd => ?_⟩
    · by_cases hg : g = c.hook
      · subst hg
        simp only [Function.update_self, Tracker.leave, if_pos hprev] at hne
        exact absurd rfl hne
      · simp only [Function.update_of_ne hg] at hne
        obtain ⟨d, hd, rfl, hstart⟩ := hs.starter g hne
        refine ⟨d, hother d hd ?_, rfl, hstart⟩
        rintro rfl
        exact hg rfl
    · simp only [Function.update_of_ne (hnone d hd)]
      exact hs.running d (hsub d hd)
  · -- the call that has started the tracker is still there
    simp only [Tracker.leave, if_neg hprev, Function.update_eq_self]
    refine ⟨fun g hne => ?_, fun d hd => hs.running d (hsub d hd)⟩
    obtain ⟨d, hd, hg, hstart⟩ := hs.starter g hne
    refine ⟨d, hother d hd ?_, hg, hstart⟩
    rintro rfl
    exact hprev hstart

theorem next_started (hs : Started s) (htick : a.ticking = true) (hlast : lastToLeave s a = true)
    (h : (detector threshold).next s a = some s') : Started s' := by
  obtain ⟨-, h⟩ := detector_next.1 h
  cases a with
  | enter t g now =>
    cases h
    exact started_enter hs (of_decide_eq_true htick)
  | leave t g =>
    obtain ⟨c, cs, hx, rfl, rfl⟩ := step_leave.1 h
    rw [lastToLeave, hx, Option.all_some, decide_eq_true_eq] at hlast
    exact started_leave hs hx hlast
  | scan now out =>
    obtain ⟨-, rfl⟩ := on_eq_some.1 h
    exact started_scan hs

/-- A call that stops a tracker others are still on leaves a state that is not `Tracked`. -/
theorem lastToLeave_of_tracked (h : (detector threshold).next s a = some s') (hs' : Tracked s') :
    lastToLeave s a = true := by
  obtain ⟨-, h⟩ := detector_next.1 h
  cases a with
  | enter t g now | scan now out => rfl
  | leave t g =>
    obtain ⟨c, cs, hx, rfl, rfl⟩ := step_leave.1 h
    rw [lastToLeave, hx, Option.all_some, decide_eq_true_eq, or_iff_not_imp_left, not_not]
    intro hprev d hd hg
    have hrun := (hs' c.hook).2 ⟨d, hd, hg⟩
    simp only [Function.update_self, Tracker.leave, if_pos hprev] at hrun
    exact hrun rfl

/-! ### Runs -/

variable {as : List (Act τ)}

/-- Along a run whose steps meet the condition, every tracker has its starter. -/
theorem run_started
    (hr : ((detector threshold).guard fun _ a => a.ticking = true).Run .init as s)
    (hlast : ((detector threshold).guard fun s a => lastToLeave s a = true).Run .init as s) :
    ∀ bs s', bs <+: as → (detector threshold).Run .init bs s' → Started s' := by
  revert hlast
  refine Machine.Run.induct (P := fun as s =>
    ((detector threshold).guard fun s a => lastToLeave s a = true).Run .init as s →
      ∀ bs s', bs <+: as → (detector threshold).Run .init bs s' → Started s') ?_ ?_ hr
  · intro _ bs s' hbs hrun
    obtain rfl := List.prefix_nil.1 hbs
    cases hrun
    exact started_init
  · intro as s a s' hrun ih hn hlast bs s'' hbs hrun'
    obtain ⟨htick, hn⟩ := Machine.guard_next.1 hn
    obtain ⟨hlast, ha⟩ := (Machine.guard_run_concat hrun.guard_mono hn).1 hlast
    rcases List.prefix_concat_iff.1 hbs with rfl | hbs
    · obtain rfl : s' = s'' := Option.some.inj
        ((Machine.run_concat.2 ⟨s, hrun.guard_mono, hn⟩).symm.trans hrun')
      exact next_started (ih hlast as s List.prefix_rfl hrun.guard_mono) htick ha hn
    · exact ih hlast bs s'' hbs hrun'

/-- **A tracker runs exactly while a call of its function is in flight, in all states of a run,
exactly if every call that has started its tracker is the last one of the function to return.** -/
theorem tracked_iff (threshold : ℤ) {as : List (Act τ)}
    (hr : ((detector threshold).guard fun _ a => a.ticking = true).Run .init as s) :
    (∀ bs s', bs <+: as → (detector threshold).Run .init bs s' → Tracked s') ↔
      ((detector threshold).guard fun s a => lastToLeave s a = true).Run .init as s := by
  constructor
  · refine Machine.Run.induct (P := fun as s =>
      (∀ bs s', bs <+: as → (detector threshold).Run .init bs s' → Tracked s') →
        ((detector threshold).guard fun s a => lastToLeave s a = true).Run .init as s)
      (fun _ => rfl) ?_ hr
    intro as s a s' hrun ih hn htr
    obtain ⟨-, hn⟩ := Machine.guard_next.1 hn
    have hrun' := Machine.run_concat.2 ⟨s, hrun.guard_mono, hn⟩
    refine (Machine.guard_run_concat hrun.guard_mono hn).2 ⟨ih fun bs s'' hbs => ?_, ?_⟩
    · exact htr bs s'' (hbs.trans (List.prefix_append as [a]))
    · exact lastToLeave_of_tracked hn (htr _ s' List.prefix_rfl hrun')
  · intro hlast bs s' hbs hrun
    exact (run_started hr hlast bs s' hbs hrun).tracked

/-- One thread, one call inside another. -/
def nested : List (Act ℕ) :=
  [.enter 0 .connect 10, .enter 0 .connect 11, .scan 12 [], .leave 0 .connect, .leave 0 .connect]

theorem tracked_nested :
    (∃ s, ((detector 30).guard fun _ a => a.ticking = true).Run .init nested s) ∧
      ∀ bs s', bs <+: nested → (detector 30).Run .init bs s' → Tracked s' := by
  have hr : ((detector 30).guard fun _ a => a.ticking = true).Run .init nested _ := rfl
  exact ⟨⟨_, hr⟩, (tracked_iff 30 hr).2 rfl⟩

/-- Two threads are in `connect`, and the first one returns. -/
def overlapping : List (Act ℕ) :=
  [.enter 0 .connect 10, .enter 1 .connect 11, .leave 0 .connect]

/-- The second call is in flight, its tracker idle, and a scan hours later writes nothing. -/
theorem tracked_lost :
    ∃ s, ((detector 30).guard fun _ a => a.ticking = true).Run .init overlapping s ∧
      s.calls = [⟨1, .connect, 10⟩] ∧ (s.tracker .connect).startSec = 0 ∧ ¬Tracked s ∧
      ∃ s', (detector 30).next s (.scan 10000 []) = some s' := by
  have hr : ((detector 30).guard fun _ a => a.ticking = true).Run .init overlapping _ := rfl
  refine ⟨_, hr, rfl, rfl, fun h => ?_, _, rfl⟩
  exact (h .connect).2 ⟨⟨1, .connect, 10⟩, List.mem_singleton_self _, rfl⟩ rfl

end Detector

end Autossh
