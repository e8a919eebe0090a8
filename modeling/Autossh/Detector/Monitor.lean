import Autossh.Detector.InFlight
import Mathlib.Data.List.Nodup

/-!
# What the monitor writes

The calls of every function are well nested here: a return is from the latest call of the function.
Then the tracker of a function holds the time its outermost call was entered, and the monitor can
say of that call how long it has been in flight.

* `watch` : what has happened to the outermost call of a function, read off the actions alone: when
  it was entered, how many calls are nested in it, the scans since then and the lines about it;
* `Follows` : the invariant, which ties a tracker to it;
* `Reports` : what a scan is to write;
* `monitor_reports` : every scan of every run does.
-/

namespace Autossh

namespace Detector

variable {τ : Type} {threshold now : ℤ}

/-! ### One scan -/

/-- The line is about the function. -/
def Out.about (h : Hook) : Out → Bool
  | .stuck g _ => g = h
  | .aborting => false

/-- The functions a scan gets to. -/
def reached (threshold now : ℤ) (ts : Hook → Tracker) : List Hook → List Hook
  | [] => []
  | h :: hs => h :: if (ts h).aborts threshold now then [] else reached threshold now ts hs

variable (threshold now) in
theorem reached_congr {ts ts' : Hook → Tracker} {hs : List Hook} (h : ∀ g ∈ hs, ts' g = ts g) :
    reached threshold now ts' hs = reached threshold now ts hs := by
  induction hs with
  | nil => rfl
  | cons g hs ih =>
    rw [reached, reached, h g List.mem_cons_self, ih fun x hx => h x (List.mem_cons_of_mem g hx)]

theorem reached_subset {ts : Hook → Tracker} {hs : List Hook} {h : Hook}
    (hmem : h ∈ reached threshold now ts hs) : h ∈ hs := by
  induction hs with
  | nil => cases hmem
  | cons g hs ih =>
    rw [reached] at hmem
    rcases List.mem_cons.1 hmem with rfl | hmem
    · exact List.mem_cons_self
    · split_ifs at hmem
      · cases hmem
      · exact List.mem_cons_of_mem g (ih hmem)

/-- A function the scan does not get to comes after one for which it aborts. -/
theorem exists_aborts_of_notMem_reached {ts : Hook → Tracker} {hs : List Hook} {h : Hook}
    (hmem : h ∈ hs) (hnot : h ∉ reached threshold now ts hs) :
    ∃ xs ys g, hs = xs ++ h :: ys ∧ g ∈ xs ∧ (ts g).aborts threshold now = true := by
  induction hs with
  | nil => cases hmem
  | cons g hs ih =>
    rw [reached, List.mem_cons, not_or] at hnot
    have hmem' := (List.mem_cons.1 hmem).resolve_left hnot.1
    by_cases hab : (ts g).aborts threshold now = true
    · obtain ⟨xs, ys, rfl⟩ := List.append_of_mem hmem'
      exact ⟨g :: xs, ys, g, rfl, List.mem_cons_self, hab⟩
    · rw [if_neg hab] at hnot
      obtain ⟨xs, ys, g', rfl, hg', hab'⟩ := ih hmem' hnot.2
      exact ⟨g :: xs, ys, g', rfl, List.mem_cons_of_mem g hg', hab'⟩

/-- What a scan leaves, in terms of the trackers it finds. -/
structure ScanSpec (threshold now : ℤ) (hs : List Hook) (ts : Hook → Tracker) (r : Scan) :
    Prop where
  tracker : r.tracker = fun h =>
    if h ∈ reached threshold now ts hs then (ts h).scanned threshold now else ts h
  about : ∀ h, r.out.filter (Out.about h) =
    if h ∈ reached threshold now ts hs then line threshold now h (ts h) else []
  aborting : .aborting ∈ r.out ↔ ∃ h ∈ hs, (ts h).aborts threshold now = true
  ended : r.ended = true ↔ ∃ h ∈ hs, (ts h).aborts threshold now = true

theorem filter_about_line (g h : Hook) (k : Tracker) :
    (line threshold now g k).filter (Out.about h) =
      if h = g then line threshold now g k else [] := by
  unfold line
  by_cases hg : h = g
  · subst hg
    rw [if_pos rfl]
    split_ifs <;> simp [Out.about]
  · rw [if_neg hg]
    split_ifs <;> simp [Out.about, Ne.symm hg]

theorem length_line_le (g : Hook) (k : Tracker) : (line threshold now g k).length ≤ 1 := by
  unfold line
  split_ifs
  · exact le_rfl
  · exact Nat.zero_le 1

theorem aborting_notMem_line (g : Hook) (k : Tracker) : .aborting ∉ line threshold now g k := by
  unfold line
  split_ifs <;> simp

/-- The scan ends at a tracker that it gives up. -/
theorem scanSpec_abort {g : Hook} {ts : Hook → Tracker} (hs : List Hook)
    (hab : (ts g).aborts threshold now = true) :
    ScanSpec threshold now (g :: hs) ts (scanLoop threshold now (g :: hs) ts) := by
  rw [scanLoop, if_pos hab]
  refine ⟨?_, fun h => ?_, ?_, ?_⟩
  · funext h
    simp only [reached, if_pos hab, List.mem_singleton, Function.update_apply]
    split_ifs with hh
    · rw [hh]
    · rfl
  · simp only [reached, if_pos hab, List.mem_singleton, List.filter_append, filter_about_line]
    split_ifs with hh
    · rw [hh]
      exact List.append_nil _
    · rfl
  · exact iff_of_true (by simp) ⟨g, List.mem_cons_self, hab⟩
  · exact iff_of_true rfl ⟨g, List.mem_cons_self, hab⟩

/-- The scan goes on after a tracker that it does not give up. -/
theorem scanSpec_cons {g : Hook} {hs : List Hook} {ts : Hook → Tracker} (hg : g ∉ hs)
    (hab : ¬(ts g).aborts threshold now = true)
    (hih : ScanSpec threshold now hs (Function.update ts g ((ts g).scanned threshold now))
      (scanLoop threshold now hs (Function.update ts g ((ts g).scanned threshold now)))) :
    ScanSpec threshold now (g :: hs) ts (scanLoop threshold now (g :: hs) ts) := by
  -- the turn of `g` changes nothing for the rest
  have hrest : ∀ x ∈ hs, Function.update ts g ((ts g).scanned threshold now) x = ts x := by
    intro x hx
    refine Function.update_of_ne ?_ ..
    rintro rfl
    exact hg hx
  have hreach := reached_congr threshold now hrest
  have hnot : g ∉ reached threshold now ts hs := fun hm => hg (reached_subset hm)
  have hexists : (∃ h ∈ hs, (Function.update ts g ((ts g).scanned threshold now) h).aborts
      threshold now = true) ↔ ∃ h ∈ g :: hs, (ts h).aborts threshold now = true := by
    simp only [List.mem_cons, or_and_right, exists_or, exists_eq_left]
    rw [or_iff_right hab]
    exact exists_congr fun h => and_congr_right fun hh => by rw [hrest h hh]
  rw [scanLoop, if_neg hab]
  refine ⟨?_, fun h => ?_, ?_, ?_⟩
  · funext h
    rw [reached, if_neg hab]
    simp only [hih.tracker, hreach, List.mem_cons]
    by_cases hh : h = g
    · subst hh
      simp [hnot]
    · simp [hh]
  · rw [reached, if_neg hab, List.filter_append, filter_about_line, hih.about h, hreach]
    simp only [List.mem_cons]
    by_cases hh : h = g
    · subst hh
      simp [hnot]
    · simp [hh]
  · rw [← hexists, ← hih.aborting]
    simp [aborting_notMem_line]
  · rw [← hexists, ← hih.ended]

variable (threshold now) in
theorem scanLoop_spec {hs : List Hook} (hnodup : hs.Nodup) (ts : Hook → Tracker) :
    ScanSpec threshold now hs ts (scanLoop threshold now hs ts) := by
  induction hs generalizing ts with
  | nil =>
    refine ⟨?_, fun h => rfl, ?_, ?_⟩
    · funext h
      exact (if_neg List.not_mem_nil).symm
    · simp [scanLoop]
    · simp [scanLoop]
  | cons g hs ih =>
    obtain ⟨hg, hnodup⟩ := List.nodup_cons.1 hnodup
    by_cases hab : (ts g).aborts threshold now = true
    · exact scanSpec_abort hs hab
    · exact scanSpec_cons hg hab (ih hnodup _)

section Written

variable {hs : List Hook} {ts : Hook → Tracker} {r : Scan} (hr : ScanSpec threshold now hs ts r)
include hr

theorem ScanSpec.any_about (h : Hook) : r.out.any (Out.about h) = true ↔
    h ∈ reached threshold now ts hs ∧ (ts h).warns threshold now = true := by
  have hany : r.out.any (Out.about h) = true ↔ r.out.filter (Out.about h) ≠ [] := by
    simp [List.filter_eq_nil_iff]
  rw [hany, hr.about h, line]
  split_ifs <;> simp_all

/-- A tracker changes exactly if a line is written about it. -/
theorem ScanSpec.tracker_apply (h : Hook) : r.tracker h =
    if r.out.any (Out.about h) then { ts h with lastWarnSec := now } else ts h := by
  have hany := hr.any_about h
  rw [hr.tracker]
  by_cases hreach : h ∈ reached threshold now ts hs
  · simp only [if_pos hreach, Tracker.scanned]
    by_cases hw : (ts h).warns threshold now = true
    · rw [if_pos hw, if_pos (hany.2 ⟨hreach, hw⟩)]
    · rw [if_neg hw, if_neg fun h => hw (hany.1 h).2]
  · simp only [if_neg hreach]
    rw [if_neg fun h => hreach (hany.1 h).1]

theorem ScanSpec.mem_stuck {h : Hook} {e : ℤ} (hmem : .stuck h e ∈ r.out) :
    (ts h).warns threshold now = true ∧ e = (ts h).elapsed now := by
  have hline : .stuck h e ∈ r.out.filter (Out.about h) :=
    List.mem_filter.2 ⟨hmem, decide_eq_true rfl⟩
  rw [hr.about h, line] at hline
  split_ifs at hline with hreach hw
  · obtain ⟨-, rfl⟩ := Out.stuck.inj (List.mem_singleton.1 hline)
    exact ⟨hw, rfl⟩
  · cases hline
  · cases hline

end Written

/-! ### The times -/

theorem readThreshold_bounds (raw : Option CString) :
    0 < readThreshold raw ∧ readThreshold raw < 2 ^ 63 := by
  have hdefault : 0 < defaultThresholdSecs ∧ defaultThresholdSecs < 2 ^ 63 := by decide
  cases raw with
  | none => exact hdefault
  | some raw =>
    simp only [readThreshold]
    split_ifs with hv
    · exact ⟨hv.1, CString.strtol10_fst_lt raw⟩
    · exact hdefault

/-- A time the monitor can subtract from another without overflow. -/
def Timely (t : ℤ) : Prop := 0 ≤ t ∧ t < 2 ^ 62

theorem i64Wrap_sub {a b : ℤ} (ha : Timely a) (hb : Timely b) : i64Wrap (a - b) = a - b := by
  obtain ⟨ha₀, ha₁⟩ := ha
  obtain ⟨hb₀, hb₁⟩ := hb
  exact i64Wrap_of_bounds (by omega) (by omega)

section Tracker

variable {k : Tracker} (hnow : Timely now) (hk : Timely k.startSec)
include hnow hk

theorem elapsed_eq : k.elapsed now = now - k.startSec := i64Wrap_sub hnow hk

theorem stuck_iff : k.stuck threshold now = true ↔
    k.startSec ≠ 0 ∧ threshold ≤ now - k.startSec := by
  rw [Tracker.stuck, decide_eq_true_eq, elapsed_eq hnow hk, not_lt]

theorem warns_iff (hw : Timely k.lastWarnSec) : k.warns threshold now = true ↔
    (k.startSec ≠ 0 ∧ threshold ≤ now - k.startSec) ∧ threshold ≤ now - k.lastWarnSec := by
  rw [Tracker.warns, decide_eq_true_eq, stuck_iff hnow hk, i64Wrap_sub hnow hw]

/-- Where twice the threshold does not fit into 64 bits, no call gets as far as the threshold. -/
theorem aborts_iff (hT : 0 < threshold) (hT' : threshold < 2 ^ 63) :
    k.aborts threshold now = true ↔ k.startSec ≠ 0 ∧ 2 * threshold ≤ now - k.startSec := by
  rw [Tracker.aborts, decide_eq_true_eq, stuck_iff hnow hk, elapsed_eq hnow hk]
  obtain ⟨hn₀, hn₁⟩ := hnow
  obtain ⟨hk₀, hk₁⟩ := hk
  by_cases hlarge : 2 ^ 62 ≤ threshold
  · omega
  · rw [i64Wrap_of_bounds (by omega) (by omega), and_assoc]
    refine and_congr_right fun _ => ?_
    omega

end Tracker

/-! ### The outermost call -/

/-- The outermost call of a function in flight. -/
structure Flight where
  /-- When it was entered. -/
  since : ℤ
  /-- How many calls of the function are nested in it. -/
  depth : ℕ
  /-- The times of the scans since then, the latest first. -/
  scans : List ℤ
  /-- The times of the lines about it, the latest first. -/
  lines : List ℤ
  deriving DecidableEq, Repr

/-- What an action is for the outermost call of `h`. -/
def watchStep (h : Hook) (f : Option Flight) : Act τ → Option Flight
  | .enter _ g now =>
    if g = h then some (f.elim ⟨now, 0, [], []⟩ fun f => { f with depth := f.depth + 1 }) else f
  | .leave _ g =>
    if g = h then
      f.bind fun f => if f.depth = 0 then none else some { f with depth := f.depth - 1 }
    else f
  | .scan now out =>
    f.map fun f => { f with
      scans := now :: f.scans
      lines := if out.any (Out.about h) then now :: f.lines else f.lines }

/-- The outermost call of `h` in flight after the actions. -/
def watch (h : Hook) (as : List (Act τ)) : Option Flight := as.foldl (watchStep h) none

theorem watch_concat (h : Hook) (as : List (Act τ)) (a : Act τ) :
    watch h (as ++ [a]) = watchStep h (watch h as) a := by
  rw [watch, List.foldl_append]
  rfl

/-- The tracker and the calls of the function, for this outermost call. -/
structure Follows (threshold : ℤ) (f : Flight) (k : Tracker) (cs : List (Call τ)) : Prop where
  since : k.startSec = f.since
  pos : 0 < f.since
  start : Timely k.startSec
  warned : Timely k.lastWarnSec
  /-- Without a line the tracker has no time of one. -/
  unwarned : f.lines = [] → k.lastWarnSec = 0
  lines : ∀ t ∈ f.lines, t ≤ k.lastWarnSec ∧ t ∈ f.scans ∧ threshold ≤ t - f.since
  /-- The outermost call has started the tracker, the others have not. -/
  calls : ∃ xs c, cs = xs ++ [c] ∧ xs.length = f.depth ∧ c.prev = 0 ∧ ∀ x ∈ xs, x.prev ≠ 0

/-- The same, when there may be no call in flight. -/
def FollowsAt (threshold : ℤ) (f : Option Flight) (k : Tracker) (cs : List (Call τ)) : Prop :=
  f.elim (k = .new ∧ cs = []) fun f => Follows threshold f k cs

section Follows

variable {f : Flight} {k : Tracker} {cs : List (Call τ)} {c : Call τ} {h : Hook} {t : τ}

theorem Follows.startSec_ne (hf : Follows threshold f k cs) : k.startSec ≠ 0 := by
  have := hf.pos
  rw [hf.since]
  omega

theorem Follows.enter (hf : Follows threshold f k cs) (hc : c.prev = k.startSec) :
    Follows threshold { f with depth := f.depth + 1 } k (c :: cs) := by
  obtain ⟨xs, d, rfl, hlen, hd, hxs⟩ := hf.calls
  refine { hf with calls := ⟨c :: xs, d, rfl, congrArg (· + 1) hlen, hd, ?_⟩ }
  intro x hx
  rcases List.mem_cons.1 hx with rfl | hx
  · rw [hc]
    exact hf.startSec_ne
  · exact hxs x hx

theorem followsAt_enter {f : Option Flight} (hf : FollowsAt threshold f k cs) (hpos : 0 < now)
    (hnow : Timely now) : FollowsAt threshold
      (some (f.elim ⟨now, 0, [], []⟩ fun f => { f with depth := f.depth + 1 })) (k.enter now).2
      (⟨t, h, (k.enter now).1⟩ :: cs) := by
  cases f with
  | none =>
    obtain ⟨rfl, rfl⟩ := hf
    refine ⟨rfl, hpos, hnow, ⟨le_rfl, show (0 : ℤ) < 2 ^ 62 by decide⟩, fun _ => rfl,
      ?_, [], _, rfl, rfl, rfl, ?_⟩
    · intro t ht
      cases ht
    · intro x hx
      cases hx
  | some f =>
    have hf : Follows threshold f k cs := hf
    rw [Tracker.enter, if_neg hf.startSec_ne]
    exact hf.enter rfl

theorem followsAt_leave {f : Option Flight} (hf : FollowsAt threshold f k (c :: cs)) :
    FollowsAt threshold
      (f.bind fun f => if f.depth = 0 then none else some { f with depth := f.depth - 1 })
      (k.leave c.prev) cs := by
  cases f with
  | none => exact absurd hf.2 (List.cons_ne_nil c cs)
  | some f =>
    have hf : Follows threshold f k (c :: cs) := hf
    obtain ⟨xs, d, hcs, hlen, hd, hxs⟩ := hf.calls
    cases xs with
    | nil =>
      -- the outermost call returns
      obtain ⟨rfl, rfl⟩ := List.cons.inj hcs
      have hdepth : f.depth = 0 := hlen.symm
      rw [Option.bind_some, if_pos hdepth, Tracker.leave, if_pos hd]
      exact ⟨rfl, rfl⟩
    | cons x xs =>
      rw [List.cons_append] at hcs
      obtain ⟨rfl, rfl⟩ := List.cons.inj hcs
      rw [List.length_cons] at hlen
      have hdepth : f.depth ≠ 0 := by omega
      rw [Option.bind_some, if_neg hdepth, Tracker.leave, if_neg (hxs c List.mem_cons_self)]
      refine { hf with calls := ⟨xs, d, rfl, ?_, hd, fun x hx => ?_⟩ }
      · show xs.length = f.depth - 1
        omega
      · exact hxs x (List.mem_cons_of_mem c hx)

/-- A scan, with or without a line about the call. -/
theorem Follows.scan (hf : Follows threshold f k cs) (hT : 0 < threshold) (hnow : Timely now)
    {written : Bool} (hw : written = true → k.warns threshold now = true) :
    Follows threshold
      { f with
        scans := now :: f.scans
        lines := if written then now :: f.lines else f.lines }
      (if written then { k with lastWarnSec := now } else k) cs := by
  cases written with
  | false =>
    refine { hf with lines := fun t ht => ?_ }
    obtain ⟨hle, hmem, hlate⟩ := hf.lines t ht
    exact ⟨hle, List.mem_cons_of_mem now hmem, hlate⟩
  | true =>
    obtain ⟨⟨-, hstuck⟩, hlast⟩ := (warns_iff hnow hf.start hf.warned).1 (hw rfl)
    refine { hf with warned := hnow, unwarned := ?_, lines := fun t ht => ?_ }
    · intro hnil
      cases hnil
    · rcases List.mem_cons.1 ht with rfl | ht
      · exact ⟨le_rfl, List.mem_cons_self, hf.since ▸ hstuck⟩
      · obtain ⟨hle, hmem, hlate⟩ := hf.lines t ht
        refine ⟨?_, List.mem_cons_of_mem now hmem, hlate⟩
        show t ≤ now
        omega

end Follows

/-! ### Runs -/

/-- The clock is positive, and far from the end of its range. -/
def Act.timely : Act τ → Bool
  | .enter _ _ now | .scan now _ => 0 < now ∧ now < 2 ^ 62
  | .leave _ _ => true

/-- The calls of a function in flight, the latest first. -/
def St.callsOf (s : St τ) (h : Hook) : List (Call τ) := s.calls.filter (·.hook = h)

variable [DecidableEq τ]

/-- A thread returns from the latest call of the function. -/
def wellNested (s : St τ) : Act τ → Bool
  | .leave t h => (s.callsOf h).head?.any (·.thread = t)
  | _ => true

/-- The process whose calls are well nested, with a clock that is in range. -/
def orderly (threshold : ℤ) : Machine (St τ) (Act τ) :=
  (detector threshold).guard fun s a => a.timely = true ∧ wellNested s a = true

/-- Every tracker follows the outermost call of its function. -/
def Following (threshold : ℤ) (as : List (Act τ)) (s : St τ) : Prop :=
  ∀ h, FollowsAt threshold (watch h as) (s.tracker h) (s.callsOf h)

variable {s s' : St τ} {a : Act τ} {as : List (Act τ)} {t : τ} {h : Hook}

omit [DecidableEq τ] in
theorem following_init : Following threshold [] (St.init : St τ) := fun _ => ⟨rfl, rfl⟩

omit [DecidableEq τ] in
theorem following_enter (hs : Following threshold as s) (hpos : 0 < now) (hnow : Timely now) :
    Following threshold (as ++ [.enter t h now]) { s with
      tracker := Function.update s.tracker h ((s.tracker h).enter now).2
      calls := ⟨t, h, ((s.tracker h).enter now).1⟩ :: s.calls } := by
  intro g
  rw [watch_concat, watchStep]
  by_cases hg : h = g
  · subst hg
    simp only [St.callsOf, Function.update_self, List.filter_cons, decide_true, if_true]
    exact followsAt_enter (hs h) hpos hnow
  · simp only [St.callsOf, Function.update_of_ne (Ne.symm hg), List.filter_cons, hg,
      decide_false, Bool.false_eq_true, if_false]
    exact hs g

/-- The call a thread returns from is the latest one of its function. -/
theorem callsOf_leave {c : Call τ} {cs : List (Call τ)} (hlast : lastOf t s.calls = some (c, cs))
    (hnested : wellNested s (.leave t c.hook) = true) :
    s.callsOf c.hook = c :: cs.filter (·.hook = c.hook) ∧
      ∀ g, c.hook ≠ g → s.callsOf g = cs.filter (·.hook = g) := by
  obtain ⟨hthread, xs, ys, hcs, rfl, hxs⟩ := lastOf_eq_some hlast
  refine ⟨?_, fun g hg => ?_⟩
  · -- a later call of the function would be one of the same thread
    have hnone : xs.filter (·.hook = c.hook) = [] := by
      rw [wellNested, St.callsOf, hcs, List.filter_append] at hnested
      cases hfilter : xs.filter (·.hook = c.hook) with
      | nil => rfl
      | cons x zs =>
        rw [hfilter, List.cons_append, List.head?_cons, Option.any_some, decide_eq_true_eq]
          at hnested
        have hx : x ∈ xs := List.mem_of_mem_filter (hfilter ▸ List.mem_cons_self)
        exact absurd hnested (hxs x hx)
    rw [St.callsOf, hcs, List.filter_append, List.filter_append, hnone]
    simp
  · rw [St.callsOf, hcs, List.filter_append, List.filter_append, List.filter_cons_of_neg]
    simpa using hg

theorem following_leave {c : Call τ} {cs : List (Call τ)} (hs : Following threshold as s)
    (hlast : lastOf t s.calls = some (c, cs))
    (hnested : wellNested s (.leave t c.hook) = true) :
    Following threshold (as ++ [.leave t c.hook]) { s with
      tracker := Function.update s.tracker c.hook ((s.tracker c.hook).leave c.prev)
      calls := cs } := by
  obtain ⟨hsame, hother⟩ := callsOf_leave hlast hnested
  intro g
  rw [watch_concat, watchStep]
  by_cases hg : c.hook = g
  · subst hg
    simp only [Function.update_self, if_true]
    exact followsAt_leave (hsame ▸ hs c.hook)
  · have hkept := hs g
    rw [hother g hg] at hkept
    simp only [if_neg hg, Function.update_of_ne (Ne.symm hg)]
    exact hkept

theorem trackers_nodup : trackers.Nodup := by decide

theorem warns_new : Tracker.new.warns threshold now = false := by
  simp [Tracker.warns, Tracker.stuck, Tracker.new]

omit [DecidableEq τ] in
theorem following_scan (hs : Following threshold as s) (hT : 0 < threshold) (hnow : Timely now) :
    Following threshold
      (as ++ [.scan now (scanLoop threshold now trackers s.tracker).out])
      { s with
        tracker := (scanLoop threshold now trackers s.tracker).tracker
        ended := (scanLoop threshold now trackers s.tracker).ended } := by
  have hspec := scanLoop_spec threshold now trackers_nodup s.tracker
  intro g
  have hg := hs g
  have hany := hspec.any_about g
  rw [watch_concat, watchStep]
  simp only [hspec.tracker_apply g]
  cases hf : watch g as with
  | none =>
    rw [hf] at hg
    have hquiet : ¬(scanLoop threshold now trackers s.tracker).out.any (Out.about g) = true := by
      rw [hany, hg.1, warns_new]
      exact fun h => Bool.false_ne_true h.2
    rw [if_neg hquiet]
    exact hg
  | some f =>
    rw [hf] at hg
    exact Follows.scan hg hT hnow fun h => (hany.1 h).2

theorem next_following (hs : Following threshold as s) (hT : 0 < threshold)
    (h : (orderly threshold).next s a = some s') : Following threshold (as ++ [a]) s' := by
  obtain ⟨⟨htime, hnested⟩, h⟩ := Machine.guard_next.1 h
  obtain ⟨-, h⟩ := detector_next.1 h
  cases a with
  | enter t g now =>
    cases h
    have hnow := of_decide_eq_true htime
    exact following_enter hs hnow.1 ⟨hnow.1.le, hnow.2⟩
  | leave t g =>
    obtain ⟨c, cs, hx, rfl, rfl⟩ := step_leave.1 h
    exact following_leave hs hx hnested
  | scan now out =>
    obtain ⟨rfl, rfl⟩ := on_eq_some.1 h
    have hnow := of_decide_eq_true htime
    exact following_scan hs hT ⟨hnow.1.le, hnow.2⟩

theorem run_following (hT : 0 < threshold) (h : (orderly threshold).Run .init as s) :
    Following threshold as s :=
  Machine.Run.induct following_init (fun _ _ _ _ _ hs hn => next_following hs hT hn) h

/-! ### The claims of the monitor -/

/-- What a scan at the time `now` is to write after the actions `as`. -/
structure Reports (threshold : ℤ) (as : List (Act τ)) (now : ℤ) (out : List Out) : Prop where
  /-- A line is about a call that has been in flight for `threshold` seconds, and says how long. -/
  stuck : ∀ h e, .stuck h e ∈ out →
    ∃ f, watch h as = some f ∧ e = now - f.since ∧ threshold ≤ now - f.since
  /-- The first scan that finds a call so writes one line about it, unless it aborts before. -/
  first : ∀ h f, watch h as = some f → threshold ≤ now - f.since →
    (∀ t ∈ f.scans, t - f.since < threshold) →
      out.filter (Out.about h) = [.stuck h (now - f.since)] ∨
        ∃ xs ys g f', trackers = xs ++ h :: ys ∧ g ∈ xs ∧ watch g as = some f' ∧
          2 * threshold ≤ now - f'.since
  /-- No scan writes more than one line about a function. -/
  once : ∀ h, (out.filter (Out.about h)).length ≤ 1
  /-- The lines about a call are `threshold` seconds apart. -/
  apart : ∀ h e f, .stuck h e ∈ out → watch h as = some f → ∀ t ∈ f.lines, threshold ≤ now - t
  /-- The process is aborted for a call that has been in flight for twice as long. -/
  aborts : .aborting ∈ out ↔ ∃ h f, watch h as = some f ∧ 2 * threshold ≤ now - f.since

section Reports

variable (hs : Following threshold as s) (hnow : Timely now)
include hs hnow

omit [DecidableEq τ] in
/-- A tracker that warns has a call to warn of. -/
theorem Following.of_warns (hw : (s.tracker h).warns threshold now = true) :
    ∃ f, watch h as = some f ∧ Follows threshold f (s.tracker h) (s.callsOf h) ∧
      threshold ≤ now - f.since ∧ threshold ≤ now - (s.tracker h).lastWarnSec := by
  have hh := hs h
  cases hf : watch h as with
  | none =>
    rw [hf] at hh
    rw [hh.1, warns_new] at hw
    cases hw
  | some f =>
    rw [hf] at hh
    have hh : Follows threshold f (s.tracker h) (s.callsOf h) := hh
    obtain ⟨⟨-, hstuck⟩, hlast⟩ := (warns_iff hnow hh.start hh.warned).1 hw
    exact ⟨f, rfl, hh, hh.since ▸ hstuck, hlast⟩

omit [DecidableEq τ] in
/-- The process is given up for a call that has been in flight for twice the threshold. -/
theorem Following.aborts_iff (hT : 0 < threshold) (hT' : threshold < 2 ^ 63) :
    (s.tracker h).aborts threshold now = true ↔
      ∃ f, watch h as = some f ∧ 2 * threshold ≤ now - f.since := by
  have hh := hs h
  cases hf : watch h as with
  | none =>
    rw [hf] at hh
    rw [hh.1]
    simp [Tracker.aborts, Tracker.stuck, Tracker.new]
  | some f =>
    rw [hf] at hh
    have hh : Follows threshold f (s.tracker h) (s.callsOf h) := hh
    rw [Detector.aborts_iff hnow hh.start hT hT', hh.since]
    have hpos := hh.pos
    constructor
    · rintro ⟨-, hlate⟩
      exact ⟨f, rfl, hlate⟩
    · rintro ⟨f', hf', hlate⟩
      cases hf'
      exact ⟨by omega, hlate⟩

omit [DecidableEq τ] in
theorem Following.reports (hT : 0 < threshold) (hT' : threshold < 2 ^ 63) :
    Reports threshold as now (scanLoop threshold now trackers s.tracker).out := by
  have hspec := scanLoop_spec threshold now trackers_nodup s.tracker
  refine ⟨?_, ?_, ?_, ?_, ?_⟩
  · intro h e hmem
    obtain ⟨hw, rfl⟩ := hspec.mem_stuck hmem
    obtain ⟨f, hf, hfollows, hstuck, -⟩ := hs.of_warns hnow hw
    exact ⟨f, hf, by rw [elapsed_eq hnow hfollows.start, hfollows.since], hstuck⟩
  · intro h f hf hstuck hfirst
    have hh := hs h
    rw [hf] at hh
    have hh : Follows threshold f (s.tracker h) (s.callsOf h) := hh
    have hpos := hh.pos
    -- no line yet, since every line was written at a scan that found the call stuck
    have hnone : f.lines = [] := by
      refine List.eq_nil_iff_forall_not_mem.2 fun t ht => ?_
      obtain ⟨-, hscan, hlate⟩ := hh.lines t ht
      have := hfirst t hscan
      omega
    have hw : (s.tracker h).warns threshold now = true := by
      refine (warns_iff hnow hh.start hh.warned).2 ⟨⟨hh.startSec_ne, hh.since ▸ hstuck⟩, ?_⟩
      rw [hh.unwarned hnone]
      omega
    by_cases hreach : h ∈ reached threshold now s.tracker trackers
    · left
      rw [hspec.about h, if_pos hreach, line, if_pos hw, elapsed_eq hnow hh.start, hh.since]
    · right
      obtain ⟨xs, ys, g, hsplit, hg, hab⟩ :=
        exists_aborts_of_notMem_reached (mem_trackers h) hreach
      obtain ⟨f', hf', hlate⟩ := (hs.aborts_iff hnow hT hT').1 hab
      exact ⟨xs, ys, g, f', hsplit, hg, hf', hlate⟩
  · intro h
    rw [hspec.about h]
    split_ifs
    · exact length_line_le ..
    · exact Nat.zero_le 1
  · intro h e f hmem hf t ht
    obtain ⟨hw, -⟩ := hspec.mem_stuck hmem
    obtain ⟨f', hf', hfollows, -, hlast⟩ := hs.of_warns hnow hw
    obtain rfl := Option.some.inj (hf.symm.trans hf')
    obtain ⟨hle, -, -⟩ := hfollows.lines t ht
    omega
  · rw [hspec.aborting]
    refine exists_congr fun h => ?_
    rw [hs.aborts_iff hnow hT hT']
    exact and_iff_right (mem_trackers h)

end Reports

/-- **Every scan writes what it is to write**: in every run of well-nested calls, whatever
`SSH_STUCK_THRESHOLD` is; and a scan that aborts is the last action. -/
theorem monitor_reports (raw : Option CString) {out : List Out}
    (hr : (orderly (readThreshold raw)).Run .init as s)
    (hn : (orderly (readThreshold raw)).next s (.scan now out) = some s') :
    Reports (readThreshold raw) as now out ∧ (s'.ended = true ↔ .aborting ∈ out) ∧
      (.aborting ∈ out → ∀ a, (orderly (readThreshold raw)).next s' a = none) := by
  obtain ⟨hT, hT'⟩ := readThreshold_bounds raw
  have hs := run_following hT hr
  obtain ⟨⟨htime, -⟩, hn⟩ := Machine.guard_next.1 hn
  obtain ⟨-, hn⟩ := detector_next.1 hn
  obtain ⟨rfl, rfl⟩ := on_eq_some.1 hn
  have hnow := of_decide_eq_true htime
  have hspec := scanLoop_spec (readThreshold raw) now trackers_nodup s.tracker
  have hended := hspec.ended.trans hspec.aborting.symm
  refine ⟨hs.reports ⟨hnow.1.le, hnow.2⟩ hT hT', hended, fun habort a => ?_⟩
  simp [orderly, Machine.guard, detector, hended.2 habort]

/-- A call of `connect` at 100 is found stuck after thirty seconds. -/
def stuckConnect : List (Act ℕ) :=
  [.enter 0 .connect 100, .scan 110 [], .scan 130 [.stuck .connect 30], .scan 145 []]

theorem monitor_reports_stuckConnect :
    ∃ s s', (orderly (readThreshold none)).Run .init stuckConnect s ∧
      (orderly (readThreshold none)).next s (.scan 160 [.stuck .connect 60, .aborting]) = some s' ∧
      Reports (readThreshold none) stuckConnect 160 [.stuck .connect 60, .aborting] ∧
      s'.ended = true := by
  have hr : (orderly (readThreshold none)).Run .init stuckConnect _ := rfl
  refine ⟨_, _, hr, rfl, ?_, rfl⟩
  exact (monitor_reports none hr rfl).1

end Detector

end Autossh
