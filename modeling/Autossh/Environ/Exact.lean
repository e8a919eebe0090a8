import Autossh.Environ.Basic
import Autossh.Posix.Double

/-!
# The numbers of the environment and the settings

A number in the environment is an integer literal, of any size.  `get_env_args` reads it with 64
bits and casts it to 32, or to a double, without a test of the range.

* `Exact` : the settings are the values of the literals, where a poll time may be lowered to the
  lifetime;
* `Representable` : the values that survive the reading;
* `exact_iff` : for an environment that is accepted, the two are the same;
* `pollTimes_bounded` : whatever is read, the poll times are positive and within the lifetime.

`getEnvArgs` gives the integers before they become doubles; `Settings.rounded` is what the program
has then.
-/

namespace Autossh

namespace Environ

open CString

/-- The settings with `gate_time`, `max_lifetime` and `max_session` converted to doubles. -/
def Settings.rounded (s : Settings) : Settings :=
  { s with
    gateTime := toDouble s.gateTime.toNat
    maxLifetime := toDouble s.maxLifetime.toNat
    maxSession := toDouble s.maxSession.toNat }

theorem rounded_maxLifetime (s : Settings) :
    s.rounded.maxLifetime = toDouble s.maxLifetime.toNat := rfl

/-- The variable, if it is set, is a literal whose value satisfies `P`. -/
def Denotes (e : Environ) (x : Var) (P : ℤ → Prop) : Prop :=
  ∀ t, e x = some t → ∃ z, literal t = some z ∧ P z

/-- The settings are the numbers in the environment. -/
structure Exact (e : Environ) (s : Settings) : Prop where
  pollTime : e.Denotes .poll fun z => s.pollTime = lower s.maxLifetime z
  firstPollTime : e.Denotes .firstPoll fun z => s.firstPollTime = lower s.maxLifetime z
  maxStart : e.Denotes .maxstart fun z => s.maxStart = z
  maxLifetime : e.Denotes .maxlifetime fun z => s.maxLifetime = z
  maxSession : e.Denotes .maxSession fun z => s.maxSession = z

/-- What becomes of a poll time: a value that is not positive as a `c_int` gives the default. -/
def pollValue (z : ℤ) : ℤ :=
  if i32Wrap (ulong z) ≤ 0 then pollTimeDefault else i32Wrap (ulong z)

/-- A poll time that is dropped to the lifetime, as what becomes of it is. -/
def Lowered (e : Environ) (z : ℤ) : Prop :=
  ∃ t l, e .maxlifetime = some t ∧ literal t = some l ∧ 0 < l ∧ l ≤ z ∧ l ≤ pollValue z

/-- A number of seconds that is a double, up to the one that `ULONG_MAX` is rounded to. -/
def IsDouble (z : ℤ) : Prop := 0 ≤ z ∧ z ≤ 2 ^ 64 ∧ toDouble z.toNat = z.toNat

/-- The numbers in the environment can be represented. -/
structure Representable (e : Environ) : Prop where
  poll : e.Denotes .poll fun z => (1 ≤ z ∧ z < 2 ^ 31) ∨ e.Lowered z
  firstPoll : e.Denotes .firstPoll fun z => (1 ≤ z ∧ z < 2 ^ 31) ∨ e.Lowered z
  maxstart : e.Denotes .maxstart fun z => z < 2 ^ 31
  maxlifetime : e.Denotes .maxlifetime IsDouble
  maxSession : e.Denotes .maxSession IsDouble

theorem IsDouble.toDouble_eq {z : ℤ} (h : IsDouble z) : (toDouble z.toNat : ℤ) = z := by
  rw [h.2.2, Int.toNat_of_nonneg h.1]

variable {e : Environ} {x : Var} {s : Settings} {fopen : CString → Bool} {now p f : ℤ}

/-! ### What is read -/

theorem strtoul_of_checked {bad : ℕ → Bool} {invalid : CString → Exit} {t : CString} {v : ℕ}
    (h : checked strtoul bad invalid t = .ok v) : ∃ z, literal t = some z ∧ v = ulong z := by
  unfold checked at h
  split_ifs at h with hc
  obtain ⟨ht, -, hend⟩ := not_or.1 hc |>.imp id not_or.1
  rw [not_not, strtoul_snd] at hend
  obtain ⟨z, hz⟩ := exists_literal ht hend
  refine ⟨z, hz, ?_⟩
  rw [← Except.ok.inj h, strtoul_of_literal hz]

theorem strtol_of_checked {bad : ℤ → Bool} {invalid : CString → Exit} {t : CString} {v : ℤ}
    (h : checked strtol bad invalid t = .ok v) :
    ∃ z, literal t = some z ∧ v = max (-2 ^ 63) (min (2 ^ 63 - 1) z) ∧ bad v = false := by
  unfold checked at h
  split_ifs at h with hc
  obtain ⟨ht, hbad, hend⟩ := not_or.1 hc |>.imp id not_or.1
  rw [not_not, strtol_snd] at hend
  obtain ⟨z, hz⟩ := exists_literal ht hend
  obtain rfl := Except.ok.inj h
  exact ⟨z, hz, by rw [strtol_of_literal hz], by simpa using hbad⟩

theorem pollTime_literal {invalid : CString → Exit} {t : CString}
    (h : pollTime invalid t = .ok p) : ∃ z, literal t = some z ∧ p = pollValue z := by
  unfold pollTime at h
  cases hv : checked strtoul (· = 0) invalid t with
  | error x =>
    rw [hv] at h
    cases h
  | ok v =>
    rw [hv] at h
    obtain ⟨z, hz, rfl⟩ := strtoul_of_checked hv
    exact ⟨z, hz, (Except.ok.inj h).symm⟩

theorem maxStart_literal {t : CString} (h : maxStart t = .ok p) :
    ∃ z, literal t = some z ∧ -1 ≤ z ∧ p = i32Wrap (min (2 ^ 63 - 1) z) := by
  unfold maxStart at h
  cases hv : checked strtol (fun v => v < -1) .invalidMaxStart t with
  | error x =>
    rw [hv] at h
    cases h
  | ok v =>
    rw [hv] at h
    obtain ⟨z, hz, hvz, hbad⟩ := strtol_of_checked hv
    have hge : ¬ v < -1 := of_decide_eq_false hbad
    have hmin : v = min (2 ^ 63 - 1) z := by omega
    exact ⟨z, hz, by omega, by rw [← hmin]; exact (Except.ok.inj h).symm⟩

theorem seconds_literal {invalid : CString → Exit} {t : CString}
    (h : seconds invalid t = .ok p) : ∃ z, literal t = some z ∧ p = ulong z := by
  unfold seconds at h
  cases hv : checked strtoul (fun _ => false) invalid t with
  | error x =>
    rw [hv] at h
    cases h
  | ok v =>
    rw [hv] at h
    obtain ⟨z, hz, rfl⟩ := strtoul_of_checked hv
    exact ⟨z, hz, (Except.ok.inj h).symm⟩

/-- A setting that is read from a literal: of the two properties of the value, either holds if they
are the same for what is read. -/
theorem denotes_iff {α : Type} {d v : α} {g : CString → Except Exit α} {P Q : ℤ → Prop}
    (hread : e.read x d g = .ok v)
    (h : ∀ t, e x = some t → g t = .ok v → ∃ z, literal t = some z ∧ (P z ↔ Q z)) :
    e.Denotes x P ↔ e.Denotes x Q := by
  have hall : ∀ t, e x = some t → ∃ z, literal t = some z ∧ (P z ↔ Q z) := by
    intro t ht
    exact h t ht (by rwa [read_of_some ht] at hread)
  constructor
  · intro hP t ht
    obtain ⟨z, hz, hiff⟩ := hall t ht
    obtain ⟨z', hz', hPz⟩ := hP t ht
    obtain rfl : z = z' := Option.some.inj (hz.symm.trans hz')
    exact ⟨z, hz, hiff.1 hPz⟩
  · intro hQ t ht
    obtain ⟨z, hz, hiff⟩ := hall t ht
    obtain ⟨z', hz', hQz⟩ := hQ t ht
    obtain rfl : z = z' := Option.some.inj (hz.symm.trans hz')
    exact ⟨z, hz, hiff.2 hQz⟩

/-! ### The casts -/

theorem pollValue_bounds (z : ℤ) : 1 ≤ pollValue z ∧ pollValue z < 2 ^ 31 := by
  have hb := i32Wrap_bounds (ulong z)
  unfold pollValue pollTimeDefault
  split_ifs <;> omega

theorem pollValue_eq_self_iff {z : ℤ} : pollValue z = z ↔ 1 ≤ z ∧ z < 2 ^ 31 := by
  have hb := pollValue_bounds z
  constructor
  · intro h
    omega
  · rintro ⟨h₀, h⟩
    have hu : (ulong z : ℤ) = z := by
      unfold ulong
      rw [if_neg (by omega)]
      omega
    unfold pollValue
    rw [hu, i32Wrap_of_bounds (by omega) h, if_neg (by omega)]

theorem i32Wrap_min_eq_self_iff {z : ℤ} (h₀ : -1 ≤ z) :
    i32Wrap (min (2 ^ 63 - 1) z) = z ↔ z < 2 ^ 31 := by
  have hb := i32Wrap_bounds (min (2 ^ 63 - 1) z)
  constructor
  · intro h
    omega
  · intro h
    rw [min_eq_right (by omega)]
    exact i32Wrap_of_bounds (by omega) h

/-- The double is the number exactly if the number is a double; `2 ^ 64` is read as `ULONG_MAX` and
rounded back. -/
theorem toDouble_ulong_iff {z : ℤ} : (toDouble (ulong z) : ℤ) = z ↔ IsDouble z := by
  have hmax : toDouble (2 ^ 64 - 1) = 2 ^ 64 := by decide
  have htop : toDouble (2 ^ 64) = 2 ^ 64 := by decide
  unfold IsDouble ulong
  by_cases hneg : z < 0
  · constructor
    · intro h
      omega
    · rintro ⟨h₀, -⟩
      omega
  obtain ⟨n, rfl⟩ := Int.eq_ofNat_of_zero_le (not_lt.1 hneg)
  rw [Int.toNat_natCast, Int.natAbs_natCast]
  by_cases hlarge : 2 ^ 64 ≤ n
  · rw [if_pos hlarge, hmax]
    constructor
    · intro h
      obtain rfl : n = 2 ^ 64 := by omega
      exact ⟨by omega, by omega, htop⟩
    · rintro ⟨-, hle, -⟩
      omega
  · have hmod : (((n : ℤ) % 2 ^ 64).toNat) = n := by omega
    rw [if_neg hlarge, hmod, Nat.cast_inj]
    exact ⟨fun h => ⟨by omega, by omega, h⟩, fun h => h.2.2⟩

/-- A number of seconds is exact if it is a double. -/
theorem seconds_iff {d v : ℤ} {invalid : CString → Exit}
    (hread : e.read x d (seconds invalid) = .ok v) :
    (e.Denotes x fun z => (toDouble v.toNat : ℤ) = z) ↔ e.Denotes x IsDouble := by
  refine denotes_iff hread fun t _ ht => ?_
  obtain ⟨z, hz, rfl⟩ := seconds_literal ht
  refine ⟨z, hz, ?_⟩
  rw [Int.toNat_natCast, toDouble_ulong_iff]

/-- A poll time is far below the numbers that are rounded. -/
theorem lower_toDouble (l : ℕ) {z : ℤ} (h : z < 2 ^ 31) : lower (toDouble l) z = lower l z := by
  by_cases hl : l < 2 ^ 53
  · rw [toDouble_of_lt hl]
  · have := le_toDouble (not_lt.1 hl)
    unfold lower
    rw [if_neg (by omega), if_neg (by omega)]

theorem lower_eq_iff {l y z : ℤ} :
    lower l y = lower l z ↔ y = z ∨ (0 < l ∧ l ≤ y ∧ l ≤ z) := by
  unfold lower
  split_ifs <;> omega

/-! ### The settings -/

theorem Accepts.maxLifetime_nonneg (h : Accepts fopen now e p f s) : 0 ≤ s.maxLifetime := by
  have hread := h.maxlifetime
  cases ht : e .maxlifetime with
  | none =>
    rw [read_of_none ht] at hread
    exact (Except.ok.inj hread).le
  | some t =>
    rw [read_of_some ht] at hread
    obtain ⟨z, -, hz⟩ := seconds_literal hread
    omega

theorem Accepts.lower_lifetime (h : Accepts fopen now e p f s) {z : ℤ} (hz : z < 2 ^ 31) :
    lower s.rounded.maxLifetime z = lower s.maxLifetime z := by
  have hcast : (s.maxLifetime.toNat : ℤ) = s.maxLifetime :=
    Int.toNat_of_nonneg h.maxLifetime_nonneg
  rw [rounded_maxLifetime, lower_toDouble _ hz, hcast]

/-- The lifetime is positive only if it is set. -/
theorem Accepts.lowered_iff (h : Accepts fopen now e p f s)
    (hlife : e.Denotes .maxlifetime fun z => s.rounded.maxLifetime = z) {z : ℤ} :
    (0 < s.rounded.maxLifetime ∧ s.rounded.maxLifetime ≤ pollValue z ∧
      s.rounded.maxLifetime ≤ z) ↔ e.Lowered z := by
  constructor
  · rintro ⟨hpos, hval, hle⟩
    cases ht : e .maxlifetime with
    | none =>
      have hread := h.maxlifetime
      rw [read_of_none ht] at hread
      have hzero : s.rounded.maxLifetime = 0 := by
        rw [rounded_maxLifetime, ← Except.ok.inj hread]
        rfl
      omega
    | some t =>
      obtain ⟨l, hl, rfl⟩ := hlife t ht
      exact ⟨t, _, ht, hl, hpos, hle, hval⟩
  · rintro ⟨t, l, ht, hl, hpos, hle, hval⟩
    obtain ⟨l', hl', rfl⟩ := hlife t ht
    obtain rfl : _ = l := Option.some.inj (hl'.symm.trans hl)
    exact ⟨hpos, hval, hle⟩

/-- One of the two poll times. -/
theorem Accepts.poll_iff (h : Accepts fopen now e p f s)
    (hlife : e.Denotes .maxlifetime fun z => s.rounded.maxLifetime = z) {d v y : ℤ}
    {invalid : CString → Exit} (hread : e.read x d (Environ.pollTime invalid) = .ok v)
    (hy : y = lower s.maxLifetime v) :
    (e.Denotes x fun z => y = lower s.rounded.maxLifetime z) ↔
      e.Denotes x fun z => (1 ≤ z ∧ z < 2 ^ 31) ∨ e.Lowered z := by
  refine denotes_iff hread fun t _ ht => ?_
  obtain ⟨z, hz, hv⟩ := pollTime_literal ht
  refine ⟨z, hz, ?_⟩
  rw [hy, hv, ← h.lower_lifetime (pollValue_bounds z).2, lower_eq_iff, pollValue_eq_self_iff,
    h.lowered_iff hlife]

/-- **The settings are the numbers in the environment exactly if those can be represented.** -/
theorem exact_iff (h : getEnvArgs fopen now e = .ok s) : e.Exact s.rounded ↔ e.Representable := by
  obtain ⟨p, f, ha⟩ := getEnvArgs_eq_ok.1 h
  have hlife : (e.Denotes .maxlifetime fun z => s.rounded.maxLifetime = z) ↔
      e.Denotes .maxlifetime IsDouble := seconds_iff ha.maxlifetime
  have hsession : (e.Denotes .maxSession fun z => s.rounded.maxSession = z) ↔
      e.Denotes .maxSession IsDouble := seconds_iff ha.maxSession
  have hstart : (e.Denotes .maxstart fun z => s.maxStart = z) ↔
      e.Denotes .maxstart fun z => z < 2 ^ 31 := by
    refine denotes_iff ha.maxstart fun t _ ht => ?_
    obtain ⟨z, hz, h₀, hv⟩ := maxStart_literal ht
    exact ⟨z, hz, by rw [hv, i32Wrap_min_eq_self_iff h₀]⟩
  constructor
  · intro hx
    have hpoll := ha.poll_iff hx.maxLifetime ha.poll ha.pollTime
    have hfirst := ha.poll_iff hx.maxLifetime ha.firstPoll ha.firstPollTime
    exact
      { poll := hpoll.1 hx.pollTime
        firstPoll := hfirst.1 hx.firstPollTime
        maxstart := hstart.1 hx.maxStart
        maxlifetime := hlife.1 hx.maxLifetime
        maxSession := hsession.1 hx.maxSession }
  · intro hr
    have hl := hlife.2 hr.maxlifetime
    have hpoll := ha.poll_iff hl ha.poll ha.pollTime
    have hfirst := ha.poll_iff hl ha.firstPoll ha.firstPollTime
    exact
      { pollTime := hpoll.2 hr.poll
        firstPollTime := hfirst.2 hr.firstPoll
        maxStart := hstart.2 hr.maxstart
        maxLifetime := hl
        maxSession := hsession.2 hr.maxSession }

/-- Ten starts, at most. -/
theorem exact_ten_starts :
    ∃ s, getEnvArgs (fun _ => true) 0 (empty.setenv .maxstart "10".toList) = .ok s ∧
      s.maxStart = 10 ∧ (empty.setenv .maxstart "10".toList).Exact s.rounded := by
  obtain ⟨s, hs, hstart⟩ := exists_ok (f := Settings.maxStart) (show
    (getEnvArgs (fun _ => true) 0 (empty.setenv .maxstart "10".toList)).toOption.map
      Settings.maxStart = some 10 by decide +kernel)
  have hvalue : ∀ t, some "10".toList = some t → ∃ z, literal t = some z ∧ z < 2 ^ 31 := by
    rintro t ⟨⟩
    exact ⟨10, by decide +kernel, by decide⟩
  have hno : ∀ t : CString, (none : Option CString) ≠ some t := fun t h => by cases h
  refine ⟨s, hs, hstart, (exact_iff hs).2 ?_⟩
  exact
    { poll := fun t ht => absurd ht (hno t)
      firstPoll := fun t ht => absurd ht (hno t)
      maxstart := hvalue
      maxlifetime := fun t ht => absurd ht (hno t)
      maxSession := fun t ht => absurd ht (hno t) }

/-- `2 ^ 32` starts become none at all. -/
theorem not_exact_many_starts :
    ∃ s, getEnvArgs (fun _ => true) 0 (empty.setenv .maxstart "4294967296".toList) = .ok s ∧
      s.maxStart = 0 ∧ ¬ (empty.setenv .maxstart "4294967296".toList).Exact s.rounded := by
  obtain ⟨s, hs, hstart⟩ := exists_ok (f := Settings.maxStart) (show
    (getEnvArgs (fun _ => true) 0 (empty.setenv .maxstart "4294967296".toList)).toOption.map
      Settings.maxStart = some 0 by decide +kernel)
  refine ⟨s, hs, hstart, fun hx => ?_⟩
  obtain ⟨z, hz, hval⟩ := hx.maxStart "4294967296".toList rfl
  have hzero : s.maxStart = z := hval
  have hlit : literal "4294967296".toList = some 4294967296 := by decide +kernel
  have hcast := Option.some.inj (hlit.symm.trans hz)
  omega

/-- A maximum number of starts is a `c_int`. -/
theorem maxStart_lt (h : getEnvArgs fopen now e = .ok s) : s.maxStart < 2 ^ 31 := by
  obtain ⟨p, f, ha⟩ := getEnvArgs_eq_ok.1 h
  have hread := ha.maxstart
  cases ht : e .maxstart with
  | none =>
    rw [read_of_none ht] at hread
    rw [← Except.ok.inj hread]
    decide
  | some t =>
    rw [read_of_some ht] at hread
    obtain ⟨z, -, -, hz⟩ := maxStart_literal hread
    rw [hz]
    exact (i32Wrap_bounds _).2

/-! ### The poll times -/

theorem Accepts.poll_bounds (h : Accepts fopen now e p f s) :
    (1 ≤ p ∧ p < 2 ^ 31) ∧ 1 ≤ f ∧ f < 2 ^ 31 := by
  have hpoll : 1 ≤ p ∧ p < 2 ^ 31 := by
    have hread := h.poll
    cases ht : e .poll with
    | none =>
      rw [read_of_none ht] at hread
      rw [← Except.ok.inj hread]
      decide
    | some t =>
      rw [read_of_some ht] at hread
      exact pollTime_bounds hread
  refine ⟨hpoll, ?_⟩
  have hread := h.firstPoll
  cases ht : e .firstPoll with
  | none =>
    -- `AUTOSSH_POLL` counts for both
    rw [read_of_none ht] at hread
    rw [← Except.ok.inj hread]
    exact hpoll
  | some t =>
    rw [read_of_some ht] at hread
    exact pollTime_bounds hread

/-- A poll time stays positive when it is lowered, and is within the lifetime then. -/
theorem lower_bounds {l z : ℤ} (h₀ : 1 ≤ z) (h : z < 2 ^ 31) :
    1 ≤ lower l z ∧ lower l z < 2 ^ 31 ∧ (0 < l → lower l z ≤ l) := by
  unfold lower
  split_ifs <;> omega

theorem pollTimes_of_getEnvArgs (h : getEnvArgs fopen now e = .ok s) :
    (1 ≤ s.pollTime ∧ s.pollTime < 2 ^ 31 ∧
        (0 < s.rounded.maxLifetime → s.pollTime ≤ s.rounded.maxLifetime)) ∧
      1 ≤ s.firstPollTime ∧ s.firstPollTime < 2 ^ 31 ∧
        (0 < s.rounded.maxLifetime → s.firstPollTime ≤ s.rounded.maxLifetime) := by
  obtain ⟨p, f, ha⟩ := getEnvArgs_eq_ok.1 h
  obtain ⟨⟨hp₀, hp⟩, hf₀, hf⟩ := ha.poll_bounds
  rw [ha.pollTime, ha.firstPollTime, ← ha.lower_lifetime hp, ← ha.lower_lifetime hf]
  exact ⟨lower_bounds hp₀ hp, lower_bounds hf₀ hf⟩

/-- **Whatever is read, the poll times are positive and within the lifetime.** -/
theorem pollTimes_bounded (h : getEnvArgs fopen now e = .ok s) :
    1 ≤ s.pollTime ∧ 1 ≤ s.firstPollTime ∧
      (0 < s.rounded.maxLifetime → s.pollTime ≤ s.rounded.maxLifetime ∧
        s.firstPollTime ≤ s.rounded.maxLifetime) := by
  obtain ⟨⟨hpoll, -, hpl⟩, hfirst, -, hfl⟩ := pollTimes_of_getEnvArgs h
  exact ⟨hpoll, hfirst, fun hl => ⟨hpl hl, hfl hl⟩⟩

/-- A poll time of `2 ^ 32 + 600` seconds in a lifetime of five minutes. -/
theorem pollTimes_bounded_wrapped :
    ∃ s, getEnvArgs (fun _ => true) 0
        ((empty.setenv .poll "4294967896".toList).setenv .maxlifetime "300".toList) = .ok s ∧
      s.rounded.maxLifetime = 300 ∧ s.pollTime ≤ s.rounded.maxLifetime := by
  obtain ⟨s, hs, hlife⟩ := exists_ok (f := fun s : Settings => s.rounded.maxLifetime) (show
    (getEnvArgs (fun _ => true) 0
      ((empty.setenv .poll "4294967896".toList).setenv .maxlifetime
        "300".toList)).toOption.map (fun s => s.rounded.maxLifetime) = some 300 by decide +kernel)
  exact ⟨s, hs, hlife, ((pollTimes_bounded hs).2.2 (by rw [hlife]; decide)).1⟩

end Environ

end Autossh
