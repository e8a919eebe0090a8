import Autossh.Detector.Interpose
import Autossh.Detector.Monitor

/-!
# What the monitor reports is true

`Autossh.Detector.InFlight` shows that overlapping calls of one function can make its tracker forget
a call.  The error is on one side only: with every access a step of its own, and calls that overlap
in any way, a tracker that is not 0 holds the time at which a call that is still in flight was
entered (`Sound`).  So every line the monitor writes, and its decision to end the process, is about
a call that was in flight for as long as it says when the monitor looked (`reports_true`).
-/

namespace Autossh

namespace Detector

namespace Hooks

variable {τ φ ι ρ : Type}

/-! ### The trackers -/

/-- Between the store of `enter` and the first store of `leave`. -/
def HookPc.tracked : HookPc φ ρ → Bool
  | .call _ prev | .inside prev | .leaveStart prev _ => prev = 0
  | _ => false

/-- The call has put the time `v` into the tracker of `h`, and has not yet cleared it. -/
def Frame.Holds (f : Frame φ ι ρ) (h : Hook) (v : ℤ) : Prop :=
  f.hook = h ∧ f.pc.tracked = true ∧ f.entered = v

/-- The call was entered at a time that has passed. -/
def Frame.Timed (clock : ℤ) (f : Frame φ ι ρ) : Prop :=
  0 ≤ f.entered ∧ f.entered ≤ clock ∧ ∀ p now, f.pc = .enterStore p now → now = f.entered

/-- A tracker that is not 0 holds the time of a call in flight. -/
structure Sound (l : Lib τ φ ι ρ) : Prop where
  clock : Timely l.sh.clock
  timed : ∀ t, ∀ f ∈ l.stack t, f.Timed l.sh.clock
  holds : ∀ h, l.sh.startSec h ≠ 0 → ∃ t, ∃ f ∈ l.stack t, f.Holds h (l.sh.startSec h)

theorem sound_init {now : ℤ} (hnow : Timely now) : Sound (.init now : Lib τ φ ι ρ) := by
  refine ⟨hnow, fun t f hf => ?_, fun h hne => ?_⟩
  · cases hf
  · exact absurd rfl hne

theorem Frame.Timed.mono {clock clock' : ℤ} {f : Frame φ ι ρ} (hf : f.Timed clock)
    (h : clock ≤ clock') : f.Timed clock' := ⟨hf.1, hf.2.1.trans h, hf.2.2⟩

/-- The time and the threshold of a scan. -/
structure Scanning (raw : Option CString) (clock now th : ℤ) : Prop where
  now_nonneg : 0 ≤ now
  now_le : now ≤ clock
  threshold : th = readThreshold raw

theorem Scanning.mono {raw : Option CString} {clock clock' now th : ℤ}
    (hs : Scanning raw clock now th) (hle : clock ≤ clock') : Scanning raw clock' now th :=
  ⟨hs.now_nonneg, hs.now_le.trans hle, hs.threshold⟩

theorem Sound.timely {raw : Option CString} {l : Lib τ φ ι ρ} {now th : ℤ} (hl : Sound l)
    (hs : Scanning raw l.sh.clock now th) : Timely now :=
  ⟨hs.now_nonneg, hs.now_le.trans_lt hl.clock.2⟩

section Step

variable {raw : Option CString} {dlsym : Hook → Option φ} {t : τ} {s sh : Shared τ φ}
  {f : Frame φ ι ρ} {f' : Option (Frame φ ι ρ)} {a : Act τ φ ι ρ}

theorem Moves.clock (hm : Moves raw dlsym t s f a sh f') : sh.clock = s.clock := by
  cases hm <;> rfl

theorem Moves.monitor (hm : Moves raw dlsym t s f a sh f') :
    sh.monitor = s.monitor ∨ sh.monitor = some .sleep := by
  cases hm with
  | @spawn h x p e ok =>
    cases ok with
    | true => exact .inr rfl
    | false => exact .inl rfl
  | _ => exact .inl rfl

theorem Moves.timed (hm : Moves raw dlsym t s f a sh f') (hs : 0 ≤ s.clock)
    (hf : f.Timed s.clock) : ∀ g ∈ f', g.Timed s.clock := by
  cases hm with
  | enterClock =>
    rintro _ ⟨⟩
    refine ⟨hs, le_rfl, ?_⟩
    rintro p now ⟨⟩
    rfl
  | ret =>
    rintro _ ⟨⟩
  | _ =>
    rintro _ ⟨⟩
    refine ⟨hf.1, hf.2.1, ?_⟩
    rintro p now ⟨⟩

/-- A tracker that a step leaves non-zero holds the time of the call that made the step, or it has
not changed, and a call that held it still does. -/
theorem Moves.holds (hm : Moves raw dlsym t s f a sh f') (hf : f.Timed s.clock) (h : Hook)
    (hne : sh.startSec h ≠ 0) :
    (∃ g ∈ f', g.Holds h (sh.startSec h)) ∨
      (sh.startSec h = s.startSec h ∧ ∀ v, f.Holds h v → ∃ g ∈ f', g.Holds h v) := by
  cases hm with
  | @enterStore k x p now e =>
    by_cases hk : h = k
    · subst hk
      left
      refine ⟨_, rfl, rfl, rfl, ?_⟩
      simp only [Function.update_self]
      exact (hf.2.2 p now rfl).symm
    · right
      refine ⟨Function.update_of_ne hk .., ?_⟩
      rintro v ⟨-, ht, -⟩
      cases ht
  | @clear k x r e =>
    have hk : h ≠ k := by
      rintro rfl
      exact hne (Function.update_self ..)
    right
    refine ⟨Function.update_of_ne hk .., ?_⟩
    rintro v ⟨hkh, -, -⟩
    exact absurd hkh.symm hk
  | call | inside => exact .inr ⟨rfl, fun v hv => ⟨_, rfl, hv⟩⟩
  | keep hp =>
    refine .inr ⟨rfl, ?_⟩
    rintro v ⟨-, ht, -⟩
    exact absurd (of_decide_eq_true ht) hp
  | _ =>
    refine .inr ⟨rfl, ?_⟩
    rintro v ⟨-, ht, -⟩
    cases ht

end Step

section Run

variable [DecidableEq τ] [DecidableEq φ] [DecidableEq ι] [DecidableEq ρ] {raw : Option CString}
  {dlsym : Hook → Option φ} {l l' : Lib τ φ ι ρ} {a : Act τ φ ι ρ}

theorem next_sound (hl : Sound l) (h : (library raw dlsym).next l a = some l') :
    Sound l' ∧ l.sh.clock ≤ l'.sh.clock := by
  obtain ⟨t, k, x, rfl, -, rfl⟩ | ⟨t, f, fs, sh, f', hst, hm, rfl⟩ | ⟨p, sh, -, hstep, rfl⟩ |
    ⟨d, -, hd, rfl⟩ := library_next h
  · refine ⟨⟨hl.clock, fun u g hg => ?_, fun h hne => ?_⟩, le_rfl⟩
    · simp only [Function.update_apply] at hg
      split_ifs at hg
      · rcases List.mem_cons.1 hg with rfl | hg
        · refine ⟨le_rfl, hl.clock.1, ?_⟩
          rintro p now ⟨⟩
        · exact hl.timed t g hg
      · exact hl.timed u g hg
    · obtain ⟨u, g, hg, hh⟩ := hl.holds h hne
      refine ⟨u, g, ?_, hh⟩
      simp only [Function.update_apply]
      split_ifs with hu
      · rw [← hu]
        exact List.mem_cons_of_mem _ hg
      · exact hg
  · have hf : f.Timed l.sh.clock := hl.timed t f (by rw [hst]; exact List.mem_cons_self)
    refine ⟨⟨?_, fun u g hg => ?_, fun h hne => ?_⟩, hm.clock.ge⟩
    · rw [hm.clock]
      exact hl.clock
    · rw [hm.clock]
      rcases mem_update hst hg with ⟨-, hgf⟩ | ⟨hgl, -⟩
      · exact hm.timed hl.clock.1 hf g hgf
      · exact hl.timed u g hgl
    · rcases hm.holds hf h hne with ⟨g, hg, hh⟩ | ⟨heq, hkeep⟩
      · refine ⟨t, g, ?_, hh⟩
        simp only [Function.update_self]
        exact List.mem_append_left _ (Option.mem_toList.2 hg)
      · simp only [heq] at hne ⊢
        obtain ⟨u, g, hg, hh⟩ := hl.holds h hne
        by_cases hu : u = t
        · subst hu
          rw [hst] at hg
          rcases List.mem_cons.1 hg with rfl | hg
          · obtain ⟨k, hk, hkh⟩ := hkeep _ hh
            refine ⟨u, k, ?_, hkh⟩
            simp only [Function.update_self]
            exact List.mem_append_left _ (Option.mem_toList.2 hk)
          · refine ⟨u, g, ?_, hh⟩
            simp only [Function.update_self]
            exact List.mem_append_right _ hg
        · refine ⟨u, g, ?_, hh⟩
          simp only [Function.update_of_ne hu]
          exact hg
  · obtain ⟨w, m, rfl⟩ := monitorStep_frame hstep
    exact ⟨⟨hl.clock, hl.timed, hl.holds⟩, le_rfl⟩
  · have hle : l.sh.clock ≤ l.sh.clock + d := by omega
    exact ⟨⟨⟨hl.clock.1.trans hle, hd⟩, fun t f hf => (hl.timed t f hf).mono hle, hl.holds⟩, hle⟩

/-! ### The monitor -/

/-- The monitor reads a tracker. -/
def Act.isObserve : Act τ φ ι ρ → Bool
  | .observe _ _ => true
  | _ => false

/-- The last tracker the monitor has looked at in the run `as` is that of `h`, and it held `start`:
a call entered at that time was in flight then, for the threshold `th` as seen from `now`. -/
structure Seen (raw : Option CString) (dlsym : Hook → Option φ) (l₀ : Lib τ φ ι ρ)
    (as : List (Act τ φ ι ρ)) (now th : ℤ) (h : Hook) (start : ℤ) : Prop where
  looked : ∃ xs ys l₁ t, ∃ f ∈ l₁.stack t, as = xs ++ .observe h start :: ys ∧
    (∀ a ∈ ys, a.isObserve = false) ∧ (library raw dlsym).Run l₀ xs l₁ ∧ f.Holds h start ∧
    now ≤ l₁.sh.clock
  timely : Timely start
  stuck : th ≤ now - start

/-- What the monitor knows at its control points. -/
def MonitorOk (raw : Option CString) (dlsym : Hook → Option φ) (l₀ : Lib τ φ ι ρ)
    (as : List (Act τ φ ι ρ)) (clock : ℤ) : MonitorPc → Prop
  | .sleep | .clock | .exit => True
  | .limit now => 0 ≤ now ∧ now ≤ clock
  | .observe now th _ => Scanning raw clock now th
  | .last now th h _ start | .mark now th h _ start | .warn now th h _ start
  | .test now th h _ start => Scanning raw clock now th ∧ Seen raw dlsym l₀ as now th h start
  | .abort now th h start =>
    Scanning raw clock now th ∧ Seen raw dlsym l₀ as now th h start ∧
      i64Wrap (th * 2) ≤ i64Wrap (now - start)

variable {l₀ : Lib τ φ ι ρ} {as : List (Act τ φ ι ρ)} {now th start : ℤ} {h : Hook}

theorem Seen.concat (hs : Seen raw dlsym l₀ as now th h start) (ha : a.isObserve = false) :
    Seen raw dlsym l₀ (as ++ [a]) now th h start := by
  obtain ⟨⟨xs, ys, l₁, t, f, hf, rfl, hys, hrun, hh, hnow⟩, hstart, hstuck⟩ := hs
  refine ⟨⟨xs, ys ++ [a], l₁, t, f, hf, by simp, fun b hb => ?_, hrun, hh, hnow⟩, hstart, hstuck⟩
  rcases List.mem_append.1 hb with hb | hb
  · exact hys b hb
  · rw [List.mem_singleton.1 hb]
    exact ha

/-- The monitor forgets nothing while others make their steps. -/
theorem MonitorOk.concat {p : MonitorPc} {clock clock' : ℤ}
    (hp : MonitorOk raw dlsym l₀ as clock p) (ha : a.isObserve = false) (hle : clock ≤ clock') :
    MonitorOk raw dlsym l₀ (as ++ [a]) clock' p := by
  cases p with
  | sleep | clock | exit => trivial
  | limit now => exact ⟨hp.1, hp.2.trans hle⟩
  | observe now th hs => exact Scanning.mono hp hle
  | last now th h hs start | mark now th h hs start | warn now th h hs start
  | test now th h hs start => exact ⟨hp.1.mono hle, hp.2.concat ha⟩
  | abort now th h start => exact ⟨hp.1.mono hle, hp.2.1.concat ha, hp.2.2⟩

/-- The monitor looks at a tracker. -/
theorem monitorOk_observe {hs : List Hook} (hrun : (library raw dlsym).Run l₀ as l) (hl : Sound l)
    (hp : Scanning raw l.sh.clock now th) :
    MonitorOk raw dlsym l₀ (as ++ [.observe h (l.sh.startSec h)]) l.sh.clock
      (if l.sh.startSec h = 0 ∨ i64Wrap (now - l.sh.startSec h) < th then .observe now th hs
        else .last now th h hs (l.sh.startSec h)) := by
  split_ifs with hskip
  · exact hp
  · rw [not_or, not_lt] at hskip
    obtain ⟨t, f, hf, hh⟩ := hl.holds h hskip.1
    have hft := hl.timed t f hf
    have hstart : Timely (l.sh.startSec h) := by
      rw [← hh.2.2]
      exact ⟨hft.1, hft.2.1.trans_lt hl.clock.2⟩
    refine ⟨hp, ⟨as, [], l, t, f, hf, rfl, ?_, hrun, hh, hp.now_le⟩, hstart, ?_⟩
    · rintro a ⟨⟩
    · rw [← i64Wrap_sub (hl.timely hp) hstart]
      exact hskip.2

/-- A step of the monitor. -/
theorem monitorOk_step {n : ℕ} {p : MonitorPc} {sh : Shared τ φ}
    (hrun : (library raw dlsym).Run l₀ as l) (hl : Sound l) (hset : SetUp raw n l)
    (hmon : l.sh.monitor = some p) (hp : MonitorOk raw dlsym l₀ as l.sh.clock p)
    (hstep : monitorStep l.sh a p = some sh) :
    ∀ q, sh.monitor = some q → MonitorOk raw dlsym l₀ (as ++ [a]) l.sh.clock q := by
  -- what is known carries over to the next control point
  have hkeep : a.isObserve = false → MonitorOk raw dlsym l₀ (as ++ [a]) l.sh.clock p :=
    fun ha => hp.concat ha le_rfl
  cases p with
  | sleep =>
    obtain ⟨rfl, rfl⟩ := on_eq_some.1 hstep
    rintro _ ⟨⟩
    trivial
  | clock =>
    obtain ⟨rfl, rfl⟩ := on_eq_some.1 hstep
    rintro _ ⟨⟩
    exact ⟨hl.clock.1, le_rfl⟩
  | limit now =>
    obtain ⟨rfl, rfl⟩ := on_eq_some.1 hstep
    rintro _ ⟨⟩
    exact ⟨hp.1, hp.2, hset.thresholdSecs (by rw [hmon]; exact Option.some_ne_none _)⟩
  | observe now th hs =>
    cases hs with
    | nil =>
      obtain ⟨rfl, rfl⟩ := on_eq_some.1 hstep
      rintro _ ⟨⟩
      trivial
    | cons h hs =>
      obtain ⟨rfl, rfl⟩ := on_eq_some.1 hstep
      rintro _ ⟨⟩
      exact monitorOk_observe hrun hl hp
  | last now th h hs start =>
    obtain ⟨rfl, rfl⟩ := on_eq_some.1 hstep
    rintro _ ⟨⟩
    split_ifs
    · exact hkeep rfl
    · exact hkeep rfl
  | mark now th h hs start =>
    obtain ⟨rfl, rfl⟩ := on_eq_some.1 hstep
    rintro _ ⟨⟩
    exact hkeep rfl
  | warn now th h hs start =>
    obtain ⟨rfl, rfl⟩ := on_eq_some.1 hstep
    rintro _ ⟨⟩
    exact hkeep rfl
  | test now th h hs start =>
    obtain ⟨rfl, rfl⟩ := on_eq_some.1 hstep
    rintro _ ⟨⟩
    have hk := hkeep rfl
    split_ifs with habort
    · exact ⟨hk.1, hk.2, habort⟩
    · exact hk.1
  | abort now th h start =>
    obtain ⟨rfl, rfl⟩ := on_eq_some.1 hstep
    rintro _ ⟨⟩
    trivial
  | exit =>
    obtain ⟨rfl, rfl⟩ := on_eq_some.1 hstep
    rintro q hq
    rw [hmon] at hq
    cases hq
    trivial

/-- The trackers are sound, and so is what the monitor knows. -/
structure Truthful (raw : Option CString) (dlsym : Hook → Option φ) (l₀ : Lib τ φ ι ρ)
    (as : List (Act τ φ ι ρ)) (l : Lib τ φ ι ρ) : Prop where
  sound : Sound l
  setUp : SetUp raw (as.countP Act.isSpawn) l
  monitor : ∀ p, l.sh.monitor = some p → MonitorOk raw dlsym l₀ as l.sh.clock p

theorem next_truthful (hrun : (library raw dlsym).Run l₀ as l) (hl : Truthful raw dlsym l₀ as l)
    (h : (library raw dlsym).next l a = some l') : Truthful raw dlsym l₀ (as ++ [a]) l' := by
  obtain ⟨hsound, hclock⟩ := next_sound hl.sound h
  refine ⟨hsound, ?_, fun p hp => ?_⟩
  · rw [List.countP_append, List.countP_singleton]
    exact next_setUp hl.setUp h
  · obtain ⟨t, k, x, rfl, -, rfl⟩ | ⟨t, f, fs, sh, f', -, hm, rfl⟩ | ⟨q, sh, hq, hstep, rfl⟩ |
      ⟨d, rfl, -, rfl⟩ := library_next h
    · exact (hl.monitor p hp).concat rfl hclock
    · have ha : a.isObserve = false := by
        have hthread := hm.thread
        cases a <;> first | rfl | cases hthread
      rcases hm.monitor with hmon | hmon
      · exact (hl.monitor p (hmon.symm.trans hp)).concat ha hclock
      · cases hmon.symm.trans hp
        trivial
    · have hp' := monitorOk_step hrun hl.sound hl.setUp hq (hl.monitor q hq) hstep p hp
      obtain ⟨w, m, rfl⟩ := monitorStep_frame hstep
      exact hp'
    · exact (hl.monitor p hp).concat rfl hclock

theorem run_truthful (hnow : Timely now) (h : (library raw dlsym).Run (.init now) as l) :
    Truthful raw dlsym (.init now) as l := by
  refine Machine.Run.induct (P := Truthful raw dlsym (.init now)) ?_
    (fun as l a l' hrun hl hn => next_truthful hrun hl hn) h
  refine ⟨sound_init hnow, setUp_init raw now, ?_⟩
  rintro p ⟨⟩

/-- A call of `h` has been in flight for `e` seconds, and its tracker knows of it. -/
def Lib.InFlightFor (l : Lib τ φ ι ρ) (h : Hook) (e : ℤ) : Prop :=
  ∃ t, ∃ f ∈ l.stack t, f.hook = h ∧ f.pc.tracked = true ∧ e ≤ l.sh.clock - f.entered

/-- What is written follows from a call of `h` that has been in flight for `e` seconds. -/
def Justified (threshold : ℤ) (h : Hook) (e : ℤ) : Out → Prop
  | .stuck g d => g = h ∧ d = e ∧ threshold ≤ e
  | .aborting => 2 * threshold ≤ e

theorem Seen.inFlightFor (hs : Seen raw dlsym l₀ as now th h start) :
    ∃ xs ys l₁, as = xs ++ .observe h start :: ys ∧ (∀ a ∈ ys, a.isObserve = false) ∧
      (library raw dlsym).Run l₀ xs l₁ ∧ l₁.InFlightFor h (now - start) := by
  obtain ⟨xs, ys, l₁, t, f, hf, has, hys, hrun, hh, hnow⟩ := hs.looked
  refine ⟨xs, ys, l₁, has, hys, hrun, t, f, hf, hh.1, hh.2.1, ?_⟩
  rw [hh.2.2]
  omega

theorem justified_aborting (hnow : Timely now) (hth : th = readThreshold raw)
    (hs : Seen raw dlsym l₀ as now th h start) (habort : i64Wrap (th * 2) ≤ i64Wrap (now - start)) :
    2 * readThreshold raw ≤ now - start := by
  have hb := readThreshold_bounds raw
  have hstuck := hs.stuck
  have hstart := hs.timely.1
  rw [i64Wrap_sub hnow hs.timely, i64Wrap_of_bounds (by omega) (by have := hnow.2; omega)] at habort
  omega

/-- **What the monitor reports is true.**  In every run, however the hooked calls overlap: when the
monitor writes that a function is stuck for `e` seconds, then a call of this function, the tracker
of which it has just read, had been in flight for at least `e` seconds when it did, and `e` is at
least the threshold.  When it gives the process up, a call had been in flight for twice the
threshold. -/
theorem reports_true (raw : Option CString) (dlsym : Hook → Option φ) {now : ℤ}
    (hnow : 0 ≤ now) (hnow' : now < 2 ^ 62) {as : List (Act τ φ ι ρ)} {o : Out}
    (h : (library raw dlsym).Run (.init now) (as ++ [.write o]) l) :
    ∃ xs ys g v l₁ e, as = xs ++ .observe g v :: ys ∧ (∀ a ∈ ys, a.isObserve = false) ∧
      (library raw dlsym).Run (.init now) xs l₁ ∧ l₁.InFlightFor g e ∧
      Justified (readThreshold raw) g e o := by
  obtain ⟨l', hrun, hn⟩ := Machine.run_concat.1 h
  have hl := run_truthful ⟨hnow, hnow'⟩ hrun
  obtain ⟨t, k, x, ha, -⟩ | ⟨t, f, fs, sh, f', -, hm, -⟩ | ⟨p, sh, hp, hstep, -⟩ | ⟨d, ha, -⟩ :=
    library_next hn
  · cases ha
  · cases hm.thread
  · have hok := hl.monitor p hp
    cases p with
    | warn clock th g hs start =>
      cases (on_eq_some.1 hstep).1
      obtain ⟨hscan, hseen⟩ := hok
      obtain ⟨xs, ys, l₁, has, hys, hrun₁, hfl⟩ := hseen.inFlightFor
      refine ⟨xs, ys, g, start, l₁, _, has, hys, hrun₁, hfl, rfl, ?_, ?_⟩
      · exact i64Wrap_sub (hl.sound.timely hscan) hseen.timely
      · rw [← hscan.threshold]
        exact hseen.stuck
    | abort clock th g start =>
      cases (on_eq_some.1 hstep).1
      obtain ⟨hscan, hseen, habort⟩ := hok
      obtain ⟨xs, ys, l₁, has, hys, hrun₁, hfl⟩ := hseen.inFlightFor
      refine ⟨xs, ys, g, start, l₁, _, has, hys, hrun₁, hfl, ?_⟩
      exact justified_aborting (hl.sound.timely hscan) hscan.threshold hseen habort
    | observe clock th hs => cases hs <;> cases (on_eq_some.1 hstep).1
    | _ => cases (on_eq_some.1 hstep).1
  · cases ha

/-- Two threads connect, the second one while the first one waits for 30 seconds. -/
def twoConnects : List (Act ℕ ℕ ℕ ℕ) :=
  [.call 0 .connect 7, .tau 0, .dlsym 0 .connect (some 1), .tau 0, .tau 0, .tau 0, .spawn 0 true,
    .tau 0, .tau 0, .tau 0, .tau 0, .realCall 0 .connect 1 7, .call 1 .connect 8, .tau 1, .tau 1,
    .tau 1, .tick 30, .monitor, .monitor, .limit 30, .realCall 1 .connect 1 8,
    .observe .connect 100, .monitor, .monitor]

theorem reports_true_twoConnects :
    ∃ xs ys g v, ∃ l₁ : Lib ℕ ℕ ℕ ℕ, ∃ e, twoConnects = xs ++ .observe g v :: ys ∧
      l₁.InFlightFor g e ∧ Justified (readThreshold none) g e (.stuck .connect 30) := by
  obtain ⟨l, hl⟩ := Option.isSome_iff_exists.1 (show ((library none fun _ => some 1).exec
    (.init 100) (twoConnects ++ [.write (.stuck .connect 30)])).isSome = true by decide)
  obtain ⟨xs, ys, g, v, l₁, e, has, -, -, hfl, hj⟩ :=
    reports_true none (fun _ => some 1) (by decide) (by decide) hl
  exact ⟨xs, ys, g, v, l₁, e, has, hfl, hj⟩

end Run

end Hooks

end Detector

end Autossh
