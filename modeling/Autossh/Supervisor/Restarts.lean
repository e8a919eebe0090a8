import Autossh.Supervisor.Run
import Mathlib.Data.Rat.Floor
import Mathlib.Tactic.Linarith
import Mathlib.Tactic.FieldSimp

/-!
# The back-off over a history of restarts (`src/grace.rs`)

`grace_time` is called before every start, with the time of the start before.  It counts the fast
restarts in a row in `TRIES`, and sleeps longer and longer from the sixth on.

* `triesAfter` and `slept` are `TRIES` and the back-off after a history of calls; `restarting` is
  the supervisor with its history, and `restarting_sleeps` connects the two;
* `triesAfter_eq_streak` : `TRIES` is the number of fast restarts at the end of the history;
* `graceInterval_eq_floor` : the back-off as an exact rational, truncated and capped;
* `slept_backs_off` : **the law of the back-off.**
-/

namespace Autossh

namespace Supervisor

/-- A call of `grace_time`: when the child before was started, and when it is called. -/
structure Restart where
  lastStart : ℤ
  now : ℤ
  deriving DecidableEq, Repr

/-- The child did not live for the minimum time. -/
def Restart.fast (c : Cfg) (r : Restart) : Bool := r.now - r.lastStart < minTime c

/-- `TRIES` after a history of calls. -/
def triesAfter (c : Cfg) (h : List Restart) : ℤ :=
  h.foldl (fun n r => graceTries c n r.lastStart r.now) 0

/-- The back-off that the last call of a history sleeps. -/
def slept (c : Cfg) (h : List Restart) : ℕ := graceInterval c (triesAfter c h)

/-- The number of fast restarts in a row at the end of a history. -/
def streak (c : Cfg) (h : List Restart) : ℕ := (h.reverse.takeWhile (Restart.fast c)).length

variable {c : Cfg} {s t : St} {a : Act}

/-! ### Counting -/

theorem triesAfter_concat (h : List Restart) (r : Restart) :
    triesAfter c (h ++ [r]) = graceTries c (triesAfter c h) r.lastStart r.now := by
  simp [triesAfter]

theorem streak_concat (h : List Restart) (r : Restart) :
    streak c (h ++ [r]) = if r.fast c = true then streak c h + 1 else 0 := by
  simp only [streak, List.reverse_append, List.reverse_singleton, List.singleton_append,
    List.takeWhile_cons]
  split_ifs <;> rfl

theorem streak_le_length (h : List Restart) : streak c h ≤ h.length := by
  have hle := (List.takeWhile_prefix (Restart.fast c) (l := h.reverse)).length_le
  rwa [List.length_reverse] at hle

theorem streak_append {run : List Restart} (hrun : ∀ r ∈ run, r.fast c = true)
    (h : List Restart) : streak c (h ++ run) = streak c h + run.length := by
  induction run using List.reverseRecOn with
  | nil => simp
  | append_singleton run r ih =>
    rw [← List.append_assoc, streak_concat, if_pos (hrun r (by simp)),
      ih fun r' hr' => hrun r' (by simp [hr'])]
    simp [Nat.add_assoc]

/-- **`TRIES` counts the fast restarts in a row**, as long as there are fewer than 2³¹. -/
theorem triesAfter_eq_streak (h : List Restart) (hlen : h.length < 2 ^ 31) :
    triesAfter c h = streak c h := by
  induction h using List.reverseRecOn with
  | nil => rfl
  | append_singleton h r ih =>
    rw [List.length_append, List.length_singleton] at hlen
    have hle := streak_le_length (c := c) h
    rw [triesAfter_concat, streak_concat, ih (by omega)]
    unfold graceTries
    by_cases hfast : r.fast c = true
    · have hlt : r.now - r.lastStart < minTime c := of_decide_eq_true hfast
      rw [if_neg (not_le.2 hlt), if_pos hfast, i32Wrap_of_bounds (by omega) (by omega)]
      push_cast
      rfl
    · have hge : minTime c ≤ r.now - r.lastStart := by
        simpa [Restart.fast] using hfast
      rw [if_pos hge, if_neg hfast]
      rfl

/-! ### The interval -/

theorem graceInterval_of_le {n : ℤ} (h : n ≤ 5) : graceInterval c n = 0 :=
  if_neg (by unfold nFastTries; omega)

/-- The cap makes the range of `int` irrelevant. -/
theorem graceInterval_of_lt {n : ℤ} (h : 5 < n) :
    (graceInterval c n : ℤ) = min c.pollTime (c.pollTime * (n - 5) ^ 2 / 300) := by
  have hpoll := c.pollTime_pos
  have hlt := c.pollTime_lt
  have hnonneg : 0 ≤ c.pollTime * (n - 5) ^ 2 / 300 :=
    Int.ediv_nonneg (mul_nonneg (by omega) (sq_nonneg _)) (by omega)
  have hsat : min c.pollTime (i32Sat (c.pollTime * (n - 5) ^ 2 / 300)) =
      min c.pollTime (c.pollTime * (n - 5) ^ 2 / 300) := by
    unfold i32Sat
    omega
  unfold graceInterval
  rw [if_pos (show nFastTries < n from h)]
  change ((min c.pollTime (i32Sat (c.pollTime * (n - 5) ^ 2 / 300))).toNat : ℤ) = _
  rw [hsat, Int.toNat_of_nonneg (by omega)]

/-- **The back-off in exact arithmetic**: `poll_time / 100 * (t * (t / 3))` with
`t = TRIES - N_FAST_TRIES`, truncated, and at most `poll_time`. -/
theorem graceInterval_eq_floor {n : ℤ} (h : 5 < n) :
    (graceInterval c n : ℤ) =
      min c.pollTime ⌊(c.pollTime : ℚ) / 100 * ((n - 5) * ((n - 5) / 3))⌋ := by
  have hquot : (c.pollTime : ℚ) / 100 * ((n - 5) * ((n - 5) / 3)) =
      ((c.pollTime * (n - 5) ^ 2 : ℤ) : ℚ) / ((300 : ℕ) : ℚ) := by
    push_cast
    ring
  rw [graceInterval_of_lt h, hquot, Rat.floor_intCast_div_natCast]
  rfl

theorem graceInterval_le (n : ℤ) : (graceInterval c n : ℤ) ≤ c.pollTime := by
  have hpoll := c.pollTime_pos
  rcases le_or_gt n 5 with h | h
  · rw [graceInterval_of_le h]
    omega
  · rw [graceInterval_of_lt h]
    exact min_le_left _ _

theorem graceInterval_mono {m n : ℤ} (hmn : m ≤ n) : graceInterval c m ≤ graceInterval c n := by
  have hpoll := c.pollTime_pos
  rcases le_or_gt m 5 with hm | hm
  · rw [graceInterval_of_le hm]
    exact Nat.zero_le _
  · have hsq : (m - 5) ^ 2 ≤ (n - 5) ^ 2 := pow_le_pow_left₀ (by omega) (by omega) 2
    have hdiv : c.pollTime * (m - 5) ^ 2 / 300 ≤ c.pollTime * (n - 5) ^ 2 / 300 :=
      Int.ediv_le_ediv (by omega) (mul_le_mul_of_nonneg_left hsq (by omega))
    have hmz := graceInterval_of_lt (c := c) hm
    have hnz := graceInterval_of_lt (c := c) (hm.trans_le hmn)
    omega

/-- From the 23rd fast restart on, 18² / 3 is more than 100. -/
theorem graceInterval_of_ge {n : ℤ} (h : 23 ≤ n) : (graceInterval c n : ℤ) = c.pollTime := by
  have hpoll := c.pollTime_pos
  have hsq : 324 ≤ (n - 5) ^ 2 := by nlinarith
  have hmul : c.pollTime * 324 ≤ c.pollTime * (n - 5) ^ 2 :=
    mul_le_mul_of_nonneg_left hsq (by omega)
  rw [graceInterval_of_lt (by omega)]
  omega

/-- **The law of the back-off**, for every history of fewer than 2³¹ restarts: nothing is slept for
up to five fast restarts in a row; it does not decrease while they go on, is never more than
`poll_time`, and is `poll_time` from the 23rd on; and a child that has lived for the minimum time
ends it. -/
theorem slept_backs_off (c : Cfg) (h : List Restart) (hlen : h.length < 2 ^ 31) :
    (streak c h ≤ 5 → slept c h = 0) ∧
      (∀ h₀ run, h = h₀ ++ run → (∀ r ∈ run, r.fast c = true) → slept c h₀ ≤ slept c h) ∧
      (slept c h : ℤ) ≤ c.pollTime ∧
      (23 ≤ streak c h → (slept c h : ℤ) = c.pollTime) ∧
      ∀ h₀ r, h = h₀ ++ [r] → max 10 (c.pollTime / 10) ≤ r.now - r.lastStart → slept c h = 0 := by
  have htries := triesAfter_eq_streak (c := c) h hlen
  unfold slept
  rw [htries]
  refine ⟨fun hle => graceInterval_of_le (by omega), ?_, graceInterval_le _,
    fun hge => graceInterval_of_ge (by omega), ?_⟩
  · rintro h₀ run rfl hrun
    rw [List.length_append] at hlen
    rw [triesAfter_eq_streak h₀ (by omega), streak_append hrun]
    exact graceInterval_mono (by omega)
  · rintro h₀ r rfl hlived
    have hslow : ¬ r.fast c = true := fun hfast =>
      absurd (of_decide_eq_true hfast) (not_lt.2 hlived)
    rw [streak_concat, if_neg hslow]
    exact graceInterval_of_le (by decide)

/-- Twenty-three children that lived for a second. -/
theorem slept_backs_off_fast :
    (List.replicate 23 (⟨0, 1⟩ : Restart)).length < 2 ^ 31 ∧
      (slept .default (List.replicate 23 ⟨0, 1⟩) : ℤ) = 600 :=
  ⟨by decide, (slept_backs_off .default (List.replicate 23 ⟨0, 1⟩) (by decide)).2.2.2.1 (by decide)⟩

/-! ### Runs -/

/-- The supervisor and the calls of `grace_time` so far. -/
def restarting (c : Cfg) : Machine (St × List Restart) Act where
  next x a := (next c x.1 a).map fun s =>
    (s, match x.1.frames, x.1.pc, a with
      | [], .run .grace, .tau => x.2 ++ [⟨x.1.startTime, x.1.now⟩]
      | _, _, _ => x.2)

theorem sshRunStep_tries {p : RunPc} (hp : p ≠ .grace) (h : sshRunStep c s a p = some t) :
    t.tries = s.tries := by
  cases p with
  | grace => exact absurd rfl hp
  | setExit l | setHandlers l | unsetHandlers rc l =>
    cases l <;> obtain ⟨-, rfl⟩ := on_eq_some.1 h <;> rfl
  | pipe =>
    simp only [sshRunStep, Option.bind_eq_some_iff] at h
    obtain ⟨r, -, h⟩ := h
    rcases r with - | ⟨r, w⟩ <;> cases h <;> rfl
  | fork =>
    simp only [sshRunStep, Option.bind_eq_some_iff] at h
    obtain ⟨r, -, h⟩ := h
    split_ifs at h <;> cases h <;> rfl
  | closeStderr rc =>
    simp only [sshRunStep] at h
    split_ifs at h <;> obtain ⟨-, rfl⟩ := on_eq_some.1 h <;> rfl
  | _ =>
    obtain ⟨-, rfl⟩ := on_eq_some.1 h
    rfl

theorem mainStep_tries (hp : s.pc ≠ .run .grace) (h : mainStep c s a = some t) :
    t.tries = s.tries := by
  rcases mainStep_cases h with ⟨p, hpc, h⟩ | ⟨p, -, h⟩ | ⟨p, k, -, h⟩ | ⟨p, k, -, h⟩ |
    ⟨k, -, -, rfl⟩ | ⟨-, -, rfl⟩
  · exact sshRunStep_tries (fun hg => hp (hg ▸ hpc)) h
  · exact (sshWatchStep_kept h).tries
  · obtain ⟨_, _, _, rfl⟩ := checkSshStderrStep_frame h
    rfl
  · obtain ⟨_, _, _, _, rfl⟩ := sshKillStep_frame h
    rfl
  · rfl
  · rfl

/-- The step of `grace_time` that counts and begins the back-off. -/
theorem next_grace (hf : s.frames = []) (hp : s.pc = .run .grace) (h : next c s .tau = some t) :
    t.tries = graceTries c s.tries s.startTime s.now ∧
      t.pc = if 0 < graceInterval c t.tries then .sleep (graceInterval c t.tries) (.run .portDelay)
        else .run .portDelay := by
  obtain ⟨-, he | ⟨f, fs, hf', -⟩ | ⟨-, u, hm, rfl⟩⟩ := next_cases h
  · cases he
  · exact absurd (hf.symm.trans hf') (List.cons_ne_nil f fs).symm
  · simp only [mainStep, hp, sshRunStep] at hm
    obtain ⟨-, rfl⟩ := on_eq_some.1 hm
    exact ⟨rfl, rfl⟩

theorem restarting_tries {x y : St × List Restart} (hx : x.1.tries = triesAfter c x.2)
    (h : (restarting c).next x a = some y) : y.1.tries = triesAfter c y.2 := by
  obtain ⟨s, hist⟩ := x
  simp only [restarting, Option.map_eq_some_iff] at h
  obtain ⟨t, hn, rfl⟩ := h
  dsimp only at hx ⊢
  split
  · -- a call of `grace_time`
    rename_i hf hp
    rw [triesAfter_concat, ← hx]
    exact (next_grace hf hp hn).1
  · rename_i hno
    rw [← hx]
    obtain ⟨-, he | ⟨f, fs, -, hc⟩ | ⟨hf, u, hm, rfl⟩⟩ := next_cases hn
    · exact (envStep_kept he).tries
    · exact (sigCatchStep_kept hc).tries
    · have hp : s.pc ≠ .run .grace := by
        intro hp
        simp only [mainStep, hp, sshRunStep] at hm
        obtain ⟨rfl, -⟩ := on_eq_some.1 hm
        exact hno hf hp rfl
      have htries := mainStep_tries hp hm
      exact htries

/-- **A run of the supervisor sleeps what its history says**: when `grace_time` is called after the
restarts `hist`, it begins the back-off of the history with this call. -/
theorem restarting_sleeps {i : Inherited} {as : List Act} {hist : List Restart}
    (hr : (restarting c).Run (.init i, []) as (s, hist)) (hf : s.frames = [])
    (hp : s.pc = .run .grace) (hn : next c s .tau = some t) :
    t.pc = if 0 < slept c (hist ++ [⟨s.startTime, s.now⟩]) then
        .sleep (slept c (hist ++ [⟨s.startTime, s.now⟩])) (.run .portDelay)
      else .run .portDelay := by
  have htries : s.tries = triesAfter c hist :=
    hr.invariant (I := fun x => x.1.tries = triesAfter c x.2) rfl
      fun _ _ _ hx h => restarting_tries hx h
  obtain ⟨hcount, hpc⟩ := next_grace hf hp hn
  rw [hcount, htries] at hpc
  rw [slept, triesAfter_concat]
  exact hpc

end Supervisor

end Autossh
