import Autossh.Conn.Exchange
import Autossh.Environ.Basic

/-!
# The network timeout

`autossh_main` lowers `net_timeout` to half the poll time, and every `poll` of the network monitor
waits for `net_timeout` milliseconds.  The half is taken of a product in 32-bit arithmetic.

* `connTest_timed` : every `poll` of `conn_test` has the timeout `net_timeout`;
* `pollTime_left_iff` : the poll times that `get_env_args` leaves behind;
* `halfPollTime_iff` : **when the timeout is what the documentation says**, and so positive.
-/

namespace Autossh

namespace Conn

open Prog

variable {p : Probe}

/-! ### The timeout of every poll -/

/-- A `poll` waits for `net` milliseconds. -/
def timed (net : ℤ) : Call → Bool
  | .poll _ timeout => timeout = net
  | _ => true

/-- The protocol of a program that polls with the timeout `net`. -/
def timing (net : ℤ) : Machine Unit (Event Answer) := only fun c => timed net c = true

theorem allows_timing {net : ℤ} {c : Call} (h : timed net c = true) :
    Allows (timing net) (fun _ => True) c := allows_only h

theorem timing_exchange (net : ℤ) (e : Ends) : Exchange (timing net) (fun _ => True) net e where
  poll _ := allows_timing (decide_eq_true rfl)
  write _ := allows_timing rfl
  read _ := allows_timing rfl
  sleep := allows_timing rfl
  errlog _ _ := allows_timing rfl

theorem timing_errlog (net : ℤ) (m : Msg) : Keeps (timing net) (fun _ => True) (errlog m) :=
  keeps_errlog (allows_timing rfl)

theorem timing_hangUpRead (rd : ℤ) :
    Keeps (timing p.netTimeout) (fun _ => True) (hangUpRead p rd) :=
  keeps_ite (fun _ => keeps_hangUp (allows_timing rfl) (allows_timing rfl)) fun _ => keeps_ret _

theorem timing_connAttempt (wd : ℤ) (nodename : Text) (id rd : ℤ) :
    Keeps (timing p.netTimeout) (fun _ => True) (connAttempt p wd nodename id rd) := by
  refine keeps_bind (timing_hangUpRead rd) fun _ => keeps_call (allows_timing rfl) fun pid => ?_
  refine keeps_connTurn ?_ (timing_exchange _)
  exact keeps_connPollForAccept (fun _ _ => allows_timing rfl)
    (allows_timing (decide_eq_true rfl)) (allows_timing rfl)

theorem timing_connTries (wd : ℤ) (nodename : Text) (id : ℤ) (left : ℕ) (rd : ℤ) :
    Keeps (timing p.netTimeout) (fun _ => True) (connTries p wd nodename id left rd) := by
  induction left generalizing rd with
  | zero => exact keeps_ret _
  | succ left ih =>
    refine keeps_ite (fun _ => keeps_bind (timing_errlog _ _) fun _ => keeps_ret _) fun _ => ?_
    refine keeps_bind (timing_connAttempt wd nodename id rd) fun r => ?_
    obtain ⟨o, rd⟩ := r
    cases o with
    | noRead => exact keeps_ret _
    | timeout => exact ih rd
    | garbled => exact ih rd
    | hardError => exact keeps_ret _
    | echo => exact keeps_ret _

/-- **Every poll of a test has the timeout `net_timeout`.** -/
theorem connTest_timed {t : List (Event Answer)} {q : Io ℕ} (h : (connTest p).Steps t q) :
    ∀ e ∈ t, timed p.netTimeout e.1 = true := by
  refine h.calls (P := fun c => timed p.netTimeout c = true) ?_
  refine keeps_call (allows_timing rfl) fun nodename => keeps_call (allows_timing rfl) fun id => ?_
  refine keeps_bind (keeps_connRemote (fun _ _ => allows_timing rfl) (allows_timing rfl)
    (allows_timing rfl) (fun _ => allows_timing rfl) fun _ => allows_timing rfl)
    fun wd => keeps_ite (fun _ => keeps_ret _) fun _ => ?_
  refine keeps_bind (timing_connTries wd nodename id _ _) fun r => ?_
  exact keeps_bind (keeps_hangUp (allows_timing rfl) (allows_timing rfl)) fun _ =>
    keeps_bind (timing_hangUpRead _) fun _ => keeps_ret _

/-! ### The adjustment -/

/-- `TIMEO_NET_DEFAULT`. -/
def timeoNetDefault : ℤ := 15000

/-- `net_timeout` after `autossh_main` has adjusted it to the poll time. -/
def netTimeout (pollTime : ℤ) : ℤ :=
  let half := (i32Wrap (pollTime * 1000)).tdiv 2
  if half < timeoNetDefault then half else timeoNetDefault

theorem i32Wrap_of_lt {z : ℤ} (h : z % 2 ^ 32 < 2 ^ 31) : i32Wrap z = z % 2 ^ 32 := by
  rw [i32Wrap, Int.bmod_def]
  exact if_pos (by omega)

theorem i32Wrap_neg {z : ℤ} (h : 2 ^ 31 ≤ z % 2 ^ 32) : i32Wrap z < 0 := by
  rw [i32Wrap, Int.bmod_def, if_neg (by omega)]
  omega

theorem netTimeout_of_lt {z : ℤ} (h : z * 1000 % 2 ^ 32 < 2 ^ 31) :
    netTimeout z = min 15000 (z * 1000 % 2 ^ 32 / 2) := by
  have h₀ : 0 ≤ z * 1000 % 2 ^ 32 := Int.emod_nonneg _ (by decide)
  rw [netTimeout, i32Wrap_of_lt h, Int.tdiv_eq_ediv_of_nonneg h₀, timeoNetDefault]
  split_ifs <;> omega

theorem netTimeout_neg {z : ℤ} (h : 2 ^ 31 ≤ z * 1000 % 2 ^ 32) : netTimeout z ≤ 0 := by
  have hn : 0 ≤ -(i32Wrap (z * 1000)).tdiv 2 := by
    rw [← Int.neg_tdiv]
    exact Int.tdiv_nonneg (neg_nonneg.2 (i32Wrap_neg h).le) (by decide)
  rw [netTimeout, timeoNetDefault]
  split_ifs <;> omega

/-- The poll times that `get_env_args` leaves behind. -/
theorem pollTime_left_iff {z : ℤ} :
    (∃ fopen now e s, Environ.getEnvArgs fopen now e = .ok s ∧ s.pollTime = z) ↔
      1 ≤ z ∧ z < 2 ^ 31 := by
  constructor
  · rintro ⟨fopen, now, e, s, hs, rfl⟩
    obtain ⟨poll, first, h⟩ := Environ.getEnvArgs_eq_ok.1 hs
    have hp : 1 ≤ poll ∧ poll < 2 ^ 31 := by
      have hpoll := h.poll
      cases he : e .poll with
      | none =>
        rw [Environ.read_of_none he] at hpoll
        cases hpoll
        decide
      | some v =>
        rw [Environ.read_of_some he] at hpoll
        exact Environ.pollTime_bounds hpoll
    rw [h.pollTime, Environ.lower]
    split_ifs <;> omega
  · rintro ⟨h₀, h⟩
    refine ⟨fun _ => true, 0, fun x => if x = .poll then some (CString.decimal z) else none,
      { sshPath := "/usr/bin/ssh".toList, syslogPerror := false, loglevel := 6, pollTime := z,
        firstPollTime := z, gateTime := 30, maxStart := -1, echoMessage := [], envPort := none,
        maxLifetime := 0, pidStartTime := 0, maxSession := 0, pidFileName := none,
        logFile := none }, Environ.getEnvArgs_eq_ok.2 ⟨z, z, ?_⟩, rfl⟩
    exact {
      loglevel := rfl
      poll := Environ.pollTime_decimal _ h₀ h
      firstPoll := rfl
      gatetime := rfl
      maxstart := rfl
      message := rfl
      maxlifetime := rfl
      maxSession := rfl
      logfile := rfl
      sshPath := rfl
      syslogPerror := rfl
      pollTime := rfl
      firstPollTime := rfl
      envPort := rfl
      pidStartTime := rfl
      pidFileName := rfl }

/-- What is promised of the network timeout for a poll time: it is half of it, at most 15 seconds,
and every `poll` of the monitor ends by itself. -/
structure HalfPollTime (pollTime : ℤ) : Prop where
  half : netTimeout pollTime = min 15000 (pollTime * 1000 / 2)
  bounds : 1 ≤ netTimeout pollTime ∧ netTimeout pollTime ≤ 15000
  polls : ∀ p : Probe, p.netTimeout = netTimeout pollTime → ∀ t q, (connTest p).Steps t q →
    ∀ fds timeout r, (⟨.poll fds timeout, r⟩ : Event Answer) ∈ t → 0 < timeout

/-- **The timeout is half the poll time exactly if the poll time is short, or the product with 1000
wraps to nothing shorter than twice the default.** -/
theorem halfPollTime_iff {pollTime : ℤ} (h₀ : 1 ≤ pollTime) (h : pollTime < 2 ^ 31) :
    HalfPollTime pollTime ↔ pollTime < 30 ∨
      (30000 ≤ pollTime * 1000 % 2 ^ 32 ∧ pollTime * 1000 % 2 ^ 32 < 2 ^ 31) := by
  constructor
  · intro hp
    by_contra hc
    rcases lt_or_ge (pollTime * 1000 % 2 ^ 32) (2 ^ 31) with hlt | hge
    · have hhalf := hp.half
      rw [netTimeout_of_lt hlt] at hhalf
      omega
    · have := netTimeout_neg hge
      have := hp.bounds
      omega
  · intro hc
    have hshort : pollTime < 30 → pollTime * 1000 % 2 ^ 32 = pollTime * 1000 := fun hs =>
      Int.emod_eq_of_lt (by omega) (by omega)
    have hlt : pollTime * 1000 % 2 ^ 32 < 2 ^ 31 := by omega
    have hhalf : netTimeout pollTime = min 15000 (pollTime * 1000 / 2) := by
      rw [netTimeout_of_lt hlt]
      omega
    have hb : 1 ≤ netTimeout pollTime ∧ netTimeout pollTime ≤ 15000 := by omega
    refine ⟨hhalf, hb, fun p hp t q ht fds timeout r he => ?_⟩
    have htimed : timeout = p.netTimeout := of_decide_eq_true (connTest_timed ht _ he)
    omega

/-- The default poll time. -/
theorem halfPollTime_default : HalfPollTime 600 :=
  (halfPollTime_iff (by decide) (by decide)).2 (.inr (by decide))

/-- With a poll time of 25 days every `poll` of the monitor waits for ever. -/
theorem not_halfPollTime_of_wrap : netTimeout 2147484 = -1073741648 ∧ ¬HalfPollTime 2147484 :=
  ⟨by decide, fun h => absurd h.bounds.1 (by decide)⟩

end Conn

end Autossh
