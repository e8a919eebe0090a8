import Autossh.Config.Basic
import Autossh.Environ.Exact

/-!
# The tuning fields on their way to `autossh_main`

`child_main` prints five fields of the configuration into the environment and `get_env_args` reads
them back.  `tuning_arrives_iff` says for which descriptions of a session the two agree: the poll
times are not negative, the gate time is a positive integer, the maximum number of starts is -1 or
positive, and the session time is zero or a positive integer, where an integer has to fit into a C
`long` (an `unsigned long` for the session time).

A fraction is printed with a point, which no number of the environment may have; a zero gate time
is printed although it stands for the default; a zero `max_start`, which does not stand for it, is
not printed.
-/

namespace Autossh

namespace Config

open Environ

/-- The settings are the configured ones.  A zero stands for the default, except in `max_start`. -/
structure Arrived (c : SessionConfig) (s : Settings) : Prop where
  pollTime : s.pollTime = if c.pollTime.toInt = 0 then pollTimeDefault else c.pollTime.toInt
  firstPollTime : s.firstPollTime =
    if c.firstPollTime.toInt = 0 then s.pollTime else c.firstPollTime.toInt
  gateTime : (s.gateTime : ℚ) = if c.gateTime.toRat = 0 then 30 else c.gateTime.toRat
  maxStart : s.maxStart = c.maxStart.toInt
  maxSession : (s.maxSession : ℚ) = if c.maxSession.toRat = 0 then 0 else c.maxSession.toRat

/-- The values that both sides agree on. -/
structure Tuned (raw : RawConfig) : Prop where
  pollTime : 0 ≤ raw.pollTime.toInt
  firstPollTime : 0 ≤ raw.firstPollTime.toInt
  gateTime : ∃ n : ℤ, 0 < n ∧ n < 2 ^ 63 ∧ raw.gateTime.toRat = n
  maxStart : -1 ≤ raw.maxStart.toInt ∧ raw.maxStart.toInt ≠ 0
  maxSession : ∃ n : ℤ, 0 ≤ n ∧ n < 2 ^ 64 ∧ raw.maxSession.toRat = n

/-! ### What is read -/

section Read

variable (c : SessionConfig)

theorem read_poll :
    (childEnviron c empty).read .poll pollTimeDefault (Environ.pollTime .invalidPollTime) =
      .ok (if 0 < c.pollTime.toInt then c.pollTime.toInt else pollTimeDefault) := by
  split_ifs with h
  · rw [read_of_some (by simp [childEnviron, h]; rfl)]
    exact pollTime_decimal _ h c.pollTime.toInt_lt
  · exact read_of_none (by simp [childEnviron, h, empty]) _ _

theorem read_firstPoll (p : ℤ) :
    (childEnviron c empty).read .firstPoll p (Environ.pollTime .invalidFirstPollTime) =
      .ok (if 0 < c.firstPollTime.toInt then c.firstPollTime.toInt else p) := by
  split_ifs with h
  · rw [read_of_some (by simp [childEnviron, h]; rfl)]
    exact pollTime_decimal _ h c.firstPollTime.toInt_lt
  · exact read_of_none (by simp [childEnviron, h, empty]) _ _

theorem read_gatetime :
    (childEnviron c empty).read .gatetime 30 Environ.gateTime =
      if 0 ≤ c.gateTime.mantissa then
        if c.gateTime.scale = 0 then .ok (min (2 ^ 63 - 1) c.gateTime.mantissa)
        else .error (.invalidGateTime c.gateTime.text)
      else .ok 30 := by
  by_cases h : 0 ≤ c.gateTime.mantissa
  · rw [if_pos h, read_of_some (by simp [childEnviron, h]; rfl)]
    exact gateTime_text h
  · rw [if_neg h]
    exact read_of_none (by simp [childEnviron, h, empty]) _ _

theorem read_maxstart :
    (childEnviron c empty).read .maxstart (-1) Environ.maxStart =
      if c.maxStart.toInt = 0 then .ok (-1)
      else if c.maxStart.toInt < -1 then
        .error (.invalidMaxStart (CString.decimal c.maxStart.toInt))
      else .ok c.maxStart.toInt := by
  by_cases h : c.maxStart.toInt = 0
  · rw [if_pos h]
    exact read_of_none (by simp [childEnviron, h, empty]) _ _
  · rw [if_neg h, read_of_some (by simp [childEnviron, h]; rfl)]
    exact maxStart_decimal c.maxStart.le_toInt c.maxStart.toInt_lt

theorem read_maxSession :
    (childEnviron c empty).read .maxSession 0 (seconds .invalidMaxSession) =
      if 0 < c.maxSession.mantissa then
        if c.maxSession.scale = 0 then .ok (min (2 ^ 64 - 1) c.maxSession.mantissa)
        else .error (.invalidMaxSession c.maxSession.text)
      else .ok 0 := by
  by_cases h : 0 < c.maxSession.mantissa
  · rw [if_pos h, read_of_some (by simp [childEnviron, h]; rfl)]
    exact seconds_text _ h.le
  · rw [if_neg h]
    exact read_of_none (by simp [childEnviron, h, empty]) _ _

/-! ### Field by field -/

theorem gateTime_arrives_iff :
    (∃ g : ℤ, (childEnviron c empty).read .gatetime 30 Environ.gateTime = .ok g ∧
        (g : ℚ) = if c.gateTime.toRat = 0 then 30 else c.gateTime.toRat) ↔
      ∃ n : ℤ, 0 < n ∧ n < 2 ^ 63 ∧ c.gateTime.toRat = n := by
  rw [read_gatetime]
  constructor
  · rintro ⟨g, hread, hg⟩
    by_cases hzero : c.gateTime.toRat = 0
    · -- a zero is printed and read as such
      obtain ⟨hs, hm⟩ := Decimal.toRat_eq_intCast.1 (hzero.trans Int.cast_zero.symm)
      rw [if_pos hm.ge, if_pos hs, hm] at hread
      cases hread
      rw [if_pos hzero] at hg
      exact absurd hg (by decide)
    · rw [if_neg hzero] at hg
      obtain ⟨hs, rfl⟩ := Decimal.toRat_eq_intCast.1 hg.symm
      have hne : c.gateTime.mantissa ≠ 0 := by
        intro hm
        rw [hm, Int.cast_zero] at hg
        exact hzero hg.symm
      by_cases hm : 0 ≤ c.gateTime.mantissa
      · rw [if_pos hm, if_pos hs] at hread
        have := Except.ok.inj hread
        exact ⟨_, by omega, by omega, hg.symm⟩
      · rw [if_neg hm] at hread
        have := Except.ok.inj hread
        omega
  · rintro ⟨n, h₀, hn, h⟩
    obtain ⟨hs, hm⟩ := Decimal.toRat_eq_intCast.1 h
    refine ⟨n, ?_, ?_⟩
    · rw [hm, if_pos h₀.le, if_pos hs]
      exact congrArg Except.ok (by omega)
    · rw [h, if_neg (Int.cast_ne_zero.2 h₀.ne')]

theorem maxStart_arrives_iff :
    (childEnviron c empty).read .maxstart (-1) Environ.maxStart = .ok c.maxStart.toInt ↔
      -1 ≤ c.maxStart.toInt ∧ c.maxStart.toInt ≠ 0 := by
  rw [read_maxstart]
  split_ifs with hzero hlt
  · rw [hzero]
    simp
  · simp [hlt]
  · simp [hzero, not_lt.1 hlt]

theorem maxSession_arrives_iff :
    (∃ m : ℤ, (childEnviron c empty).read .maxSession 0 (seconds .invalidMaxSession) = .ok m ∧
        (m : ℚ) = if c.maxSession.toRat = 0 then 0 else c.maxSession.toRat) ↔
      ∃ n : ℤ, 0 ≤ n ∧ n < 2 ^ 64 ∧ c.maxSession.toRat = n := by
  have hite : (if c.maxSession.toRat = 0 then 0 else c.maxSession.toRat) = c.maxSession.toRat := by
    split_ifs with h
    · exact h.symm
    · rfl
  rw [read_maxSession, hite]
  constructor
  · rintro ⟨m, hread, hm⟩
    obtain ⟨hs, rfl⟩ := Decimal.toRat_eq_intCast.1 hm.symm
    by_cases hpos : 0 < c.maxSession.mantissa
    · rw [if_pos hpos, if_pos hs] at hread
      have := Except.ok.inj hread
      exact ⟨_, hpos.le, by omega, hm.symm⟩
    · rw [if_neg hpos] at hread
      have := Except.ok.inj hread
      exact ⟨_, by omega, by omega, hm.symm⟩
  · rintro ⟨n, h₀, hn, h⟩
    obtain ⟨hs, hm⟩ := Decimal.toRat_eq_intCast.1 h
    refine ⟨n, ?_, h.symm⟩
    rw [hm]
    split_ifs with hpos
    · exact congrArg Except.ok (by omega)
    · exact congrArg Except.ok (by omega)

/-- A field that is not positive leaves the default. -/
theorem positive_or_default_iff {z d : ℤ} (hd : 0 < d) :
    ((if 0 < z then z else d) = if z = 0 then d else z) ↔ 0 ≤ z := by
  split_ifs <;> omega

end Read

/-! ### The configuration as a whole -/

theorem lower_zero (t : ℤ) : lower 0 t = t := if_neg fun h => lt_irrefl _ h.1

theorem parseConfig_fields {raw : RawConfig} {c : SessionConfig}
    (h : parseConfig (some raw) = .ok c) :
    c.pollTime = raw.pollTime ∧ c.firstPollTime = raw.firstPollTime ∧
      c.gateTime = raw.gateTime ∧ c.maxStart = raw.maxStart ∧ c.maxSession = raw.maxSession := by
  rw [parseConfig] at h
  split_ifs at h
  obtain ⟨dest, -, h⟩ := bind_eq_ok.1 h
  obtain ⟨target, -, h⟩ := bind_eq_ok.1 h
  obtain ⟨extra, -, h⟩ := bind_eq_ok.1 h
  cases h
  exact ⟨rfl, rfl, rfl, rfl, rfl⟩

section Whole

variable {c : SessionConfig} {fopen : CString → Bool} {now : ℤ}

/-- The variables that `child_main` does not set leave the defaults. -/
theorem accepts_child {p f : ℤ} {s : Settings}
    (h : Accepts fopen now (childEnviron c empty) p f s) :
    p = (if 0 < c.pollTime.toInt then c.pollTime.toInt else pollTimeDefault) ∧
      f = (if 0 < c.firstPollTime.toInt then c.firstPollTime.toInt else p) ∧
      s.pollTime = p ∧ s.firstPollTime = f ∧ 0 < p := by
  have hp := h.poll
  have hf := h.firstPoll
  have hlife := h.maxlifetime
  rw [read_poll] at hp
  rw [read_firstPoll] at hf
  rw [read_of_none (by simp [childEnviron, empty])] at hlife
  have hzero : s.maxLifetime = 0 := (Except.ok.inj hlife).symm
  refine ⟨(Except.ok.inj hp).symm, (Except.ok.inj hf).symm, ?_, ?_, ?_⟩
  · rw [h.pollTime, hzero, lower_zero]
  · rw [h.firstPollTime, hzero, lower_zero]
  · rw [← Except.ok.inj hp]
    split_ifs with hpos
    · exact hpos
    · decide

theorem exists_accepts {g n m : ℤ}
    (hg : (childEnviron c empty).read .gatetime 30 Environ.gateTime = .ok g)
    (hn : (childEnviron c empty).read .maxstart (-1) Environ.maxStart = .ok n)
    (hm : (childEnviron c empty).read .maxSession 0 (seconds .invalidMaxSession) = .ok m) :
    ∃ p f s, Accepts fopen now (childEnviron c empty) p f s ∧
      s.gateTime = g ∧ s.maxStart = n ∧ s.maxSession = m := by
  let p := if 0 < c.pollTime.toInt then c.pollTime.toInt else pollTimeDefault
  let f := if 0 < c.firstPollTime.toInt then c.firstPollTime.toInt else p
  let s : Settings :=
    { sshPath := (childEnviron c empty .path).getD "/usr/bin/ssh".toList
      syslogPerror := false
      loglevel := 6
      pollTime := p
      firstPollTime := f
      gateTime := g
      maxStart := n
      echoMessage := []
      envPort := none
      maxLifetime := 0
      pidStartTime := 0
      maxSession := m
      pidFileName := none
      logFile := none }
  have hnone : ∀ x ∈ [Var.debug, .loglevel, .message, .port, .maxlifetime, .pidfile, .logfile],
      childEnviron c empty x = none := by
    simp [childEnviron, empty]
  have hlevel : (childEnviron c empty).logLevel = .ok 6 := by
    rw [logLevel, hnone .debug (by simp), read_of_none (hnone .loglevel (by simp))]
    rfl
  refine ⟨p, f, s, ?_, rfl, rfl, rfl⟩
  exact
    { loglevel := hlevel
      poll := read_poll c
      firstPoll := read_firstPoll c p
      gatetime := hg
      maxstart := hn
      message := read_of_none (hnone .message (by simp)) _ _
      maxlifetime := read_of_none (hnone .maxlifetime (by simp)) _ _
      maxSession := hm
      logfile := read_of_none (hnone .logfile (by simp)) _ _
      sshPath := rfl
      syslogPerror := by rw [hnone .debug (by simp)]; rfl
      pollTime := (lower_zero p).symm
      firstPollTime := (lower_zero f).symm
      envPort := by rw [hnone .port (by simp)]; rfl
      pidStartTime := rfl
      pidFileName := by rw [hnone .pidfile (by simp)]; rfl }

end Whole

/-- **Which configurations arrive.**  `get_env_args` accepts what `child_main` writes, and gets the
configured values out of it, exactly for these descriptions. -/
theorem tuning_arrives_iff {raw : RawConfig} {c : SessionConfig}
    (h : parseConfig (some raw) = .ok c) (fopen : CString → Bool) (now : ℤ) :
    (∃ s, getEnvArgs fopen now (childEnviron c empty) = .ok s ∧ Arrived c s) ↔ Tuned raw := by
  obtain ⟨hpoll, hfirst, hgate, hstart, hsession⟩ := parseConfig_fields h
  constructor
  · rintro ⟨s, hs, ha⟩
    obtain ⟨p, f, hacc⟩ := getEnvArgs_eq_ok.1 hs
    obtain ⟨hp, hf, hsp, hsf, hp₀⟩ := accepts_child hacc
    refine ⟨?_, ?_, ?_, ?_, ?_⟩
    · rw [← hpoll]
      refine (positive_or_default_iff (show 0 < pollTimeDefault by decide)).1 ?_
      rw [← hp, ← hsp, ha.pollTime]
    · rw [← hfirst]
      refine (positive_or_default_iff hp₀).1 ?_
      rw [← hf, ← hsf, ha.firstPollTime, hsp]
    · rw [← hgate]
      exact (gateTime_arrives_iff c).1 ⟨_, hacc.gatetime, ha.gateTime⟩
    · rw [← hstart]
      refine (maxStart_arrives_iff c).1 ?_
      rw [← ha.maxStart]
      exact hacc.maxstart
    · rw [← hsession]
      exact (maxSession_arrives_iff c).1 ⟨_, hacc.maxSession, ha.maxSession⟩
  · intro ht
    have hgate' := ht.gateTime
    have hsession' := ht.maxSession
    rw [← hgate] at hgate'
    rw [← hsession] at hsession'
    obtain ⟨g, hg, hg'⟩ := (gateTime_arrives_iff c).2 hgate'
    obtain ⟨m, hm, hm'⟩ := (maxSession_arrives_iff c).2 hsession'
    have hn := (maxStart_arrives_iff c).2 (by rw [hstart]; exact ht.maxStart)
    obtain ⟨p, f, s, hacc, rfl, hsn, rfl⟩ := @exists_accepts c fopen now _ _ _ hg hn hm
    obtain ⟨hp, hf, hsp, hsf, hp₀⟩ := accepts_child hacc
    refine ⟨s, getEnvArgs_eq_ok.2 ⟨p, f, hacc⟩, ?_, ?_, hg', hsn, hm'⟩
    · rw [hsp, hp]
      refine (positive_or_default_iff (by decide)).2 ?_
      rw [hpoll]
      exact ht.pollTime
    · rw [hsf, hf, hsp]
      refine (positive_or_default_iff hp₀).2 ?_
      rw [hfirst]
      exact ht.firstPollTime

/-- What `autossh_session_config_init` fills in, with the two required texts and a gate time. -/
def plain (gateTime : ℤ) : RawConfig :=
  { configInit with
    sshDestination := some "host".toList
    targetHost := some "db".toList
    gateTime := .ofInt gateTime }

theorem plain_tuned : Tuned (plain 45) where
  pollTime := by decide
  firstPollTime := by decide
  gateTime := ⟨45, by decide, by decide, Decimal.toRat_eq_intCast.2 ⟨rfl, rfl⟩⟩
  maxStart := by decide
  maxSession := ⟨0, by decide, by decide, Decimal.toRat_eq_intCast.2 ⟨rfl, rfl⟩⟩

theorem gate_time_arrives :
    ∃ c, parseConfig (some (plain 45)) = .ok c ∧
      ∃ s, getEnvArgs (fun _ => true) 0 (childEnviron c empty) = .ok s ∧ Arrived c s := by
  obtain ⟨c, hc⟩ : ∃ c, parseConfig (some (plain 45)) = .ok c := ⟨_, rfl⟩
  exact ⟨c, hc, (tuning_arrives_iff hc _ _).2 plain_tuned⟩

/-- A zero gate time, which `autossh_session_config_init` fills in, is written out: it turns the
starting gate off instead of leaving the default. -/
theorem zero_gate_time_written :
    ∃ c, parseConfig (some (plain 0)) = .ok c ∧
      (∃ s, getEnvArgs (fun _ => true) 0 (childEnviron c empty) = .ok s ∧ s.gateTime = 0) ∧
      ¬ ∃ s, getEnvArgs (fun _ => true) 0 (childEnviron c empty) = .ok s ∧ Arrived c s := by
  obtain ⟨c, hc⟩ : ∃ c, parseConfig (some (plain 0)) = .ok c := ⟨_, rfl⟩
  have hgate : c.gateTime = .ofInt 0 := (parseConfig_fields hc).2.2.1
  refine ⟨c, hc, ?_, ?_⟩
  · cases hc
    exact ⟨_, rfl, rfl⟩
  · rintro ⟨s, hs, ha⟩
    obtain ⟨p, f, hacc⟩ := getEnvArgs_eq_ok.1 hs
    obtain ⟨n, hpos, -, hn⟩ := (gateTime_arrives_iff c).1 ⟨_, hacc.gatetime, ha.gateTime⟩
    rw [hgate, Decimal.toRat_eq_intCast] at hn
    exact hpos.ne hn.2

/-! ### The doubles -/

/-- The fields of a description are doubles, so nothing is lost in the conversion. -/
theorem Arrived.rounded {c : SessionConfig} {s : Settings} (h : Arrived c s)
    (hgate : ∀ n : ℤ, c.gateTime.toRat = n → IsDouble n)
    (hsession : ∀ n : ℤ, c.maxSession.toRat = n → IsDouble n) : Arrived c s.rounded := by
  have hgate' : IsDouble s.gateTime := by
    have hg := h.gateTime
    split_ifs at hg with hzero
    · obtain hg : s.gateTime = 30 := by exact_mod_cast hg
      rw [hg]
      exact ⟨by decide, by decide, by decide⟩
    · exact hgate _ hg.symm
  have hsession' : IsDouble s.maxSession := by
    refine hsession _ ?_
    rw [h.maxSession]
    split_ifs with hzero
    · exact hzero
    · rfl
  exact
    { pollTime := h.pollTime
      firstPollTime := h.firstPollTime
      gateTime := (congrArg Int.cast hgate'.toDouble_eq).trans h.gateTime
      maxStart := h.maxStart
      maxSession := (congrArg Int.cast hsession'.toDouble_eq).trans h.maxSession }

end Config

end Autossh
