import Autossh.Conn.Retry
import Autossh.Conn.Resume

/-!
# A signal during a test

`conn_test` runs with signals unblocked.  What a handled signal does to an exchange is in
`Conn.Resume`; the poll for a connection to accept does not try again either.

* `connTurn_hit`, `connTries_hit`, `connTest_hit` : a turn, the retry loop and the whole test, with
  a signal in them;
* `returnsDespite_iff` : **a signal leaves a successful test alone exactly if it does not interrupt
  a `poll`.**
-/

namespace Autossh

namespace Conn

open Prog

variable {host : Host} {w w' : World} {t : List (Event Answer)} {n : ℕ} {c : Call} {e : Ends}
  {p : Probe} {wbuf : List UInt8}

/-! ### An exchange and its outcome -/

/-- The line in the log and the outcome, if the exchange comes to this. -/
def report (wbuf : List UInt8) : Except Fault (List UInt8) → Msg × Outcome
  | .ok rbuf =>
    if cstr rbuf = wbuf then (.connectionOk, .echo) else (.notWhatISent wbuf (cstr rbuf), .garbled)
  | .error .timeout => (.ioTimeout, .timeout)
  | .error .error => (.pollError, .hardError)

theorem connExchange_eq : connExchange p e wbuf =
    (connSendAndReceive p.netTimeout e (List.replicate bufSz 0) wbuf).bind fun z =>
      (errlog (report wbuf z).1).bind fun _ => .ret (report wbuf z).2 := by
  unfold connExchange
  refine congrArg _ (funext fun z => ?_)
  cases z with
  | ok rbuf =>
    simp only [report]
    split_ifs <;> rfl
  | error f => cases f <;> rfl

theorem connExchange_hit {o : Outcome}
    (hr : (connExchange p e wbuf).run (answer host) w = some (t, o, w'))
    (hshort : w.cur.polls.length < 10) (hn : (calls t)[n]? = some c) :
    (isPoll c = false ∧ o = .hardError ∧ WriteFails t n) ∨
      ∃ u w₁ sig, (connExchange p e wbuf).run (interrupted host) (w, .pending n) =
          some (u, if isPoll c then .hardError else o, w₁, sig) ∧
        (∀ k, sig ≠ .pending k) ∧ w₁.later = w.later := by
  rw [connExchange_eq] at hr ⊢
  obtain ⟨a, z, w₁, b, hloop, hlog, rfl⟩ := run_bind_eq_some.1 hr
  cases hlog
  rw [calls_append, calls_cons_of_neg rfl, show calls [] = [] from rfl,
    List.append_nil] at hn
  obtain ⟨hc, rfl, hfail⟩ | ⟨u, z', w₂, sig, hrun, hsig, hw₂, rfl⟩ := ioLoop_hit hloop hshort hn
  · exact .inl ⟨hc, rfl, hfail.append_right _⟩
  · have hout : (report wbuf (if isPoll c then .error .error else z)).2 =
        if isPoll c then .hardError else (report wbuf z).2 := by
      cases isPoll c <;> rfl
    rw [← hout]
    have hlog : ∀ m o, ((errlog m).bind fun _ => .ret o : Io Outcome).run (interrupted host)
        (w₂, sig) = some ([⟨.errlog m, ()⟩], o, w₂, sig) := fun m o =>
      run_call_eq_some.2 ⟨(), (w₂, sig), [], (interrupted_idle host (w₂, sig)).1 m, rfl, rfl⟩
    exact .inr ⟨_, w₂, sig, run_bind_eq_some.2 ⟨u, _, _, _, hrun, hlog _ _, rfl⟩, hsig, hw₂⟩

/-! ### A turn -/

/-- The number of reports of `poll` in an attempt that stays clear of the limit of ten rounds by
one: nine, and one more if there is a connection to accept. -/
def clear (p : Probe) : ℕ := if p.sock = noRdSock then 9 else 10

theorem run_connPollForAccept {rd : ℤ}
    (hr : (connPollForAccept p).run (answer host) w = some (t, rd, w')) :
    (∃ fds timeout, calls t = [.poll fds timeout]) ∧
      w.cur.polls.length = w'.cur.polls.length + 1 ∧ w'.later = w.later := by
  obtain ⟨res, w₁, u, hpoll, hk, rfl⟩ := run_call_eq_some.1 hr
  obtain ⟨rest, hpolls, rfl⟩ := answer_poll.1 hpoll
  rw [calls_cons_of_pos rfl, hpolls, List.length_cons]
  suffices hrest : calls u = [] ∧ w' = w.polled res rest by
    rw [hrest.1, hrest.2]
    exact ⟨⟨_, _, rfl⟩, rfl, rfl⟩
  cases res with
  | timeout =>
    cases hk
    exact ⟨rfl, rfl⟩
  | error err =>
    cases hk
    exact ⟨rfl, rfl⟩
  | ready revents =>
    dsimp only at hk
    split_ifs at hk
    · obtain ⟨x, w₂, v, haccept, hk', rfl⟩ := run_call_eq_some.1 hk
      cases haccept
      cases hx : (w.polled (.ready revents) rest).cur.accept with
      | error err =>
        rw [hx] at hk'
        cases hk'
        exact ⟨rfl, rfl⟩
      | ok fd =>
        rw [hx] at hk'
        cases hk'
        exact ⟨rfl, rfl⟩
    · cases hk
      exact ⟨rfl, rfl⟩

theorem connTurn_hit {wd : ℤ} {o : Outcome × ℤ}
    (hr : (connTurn p wd wbuf).run (answer host) w = some (t, o, w'))
    (hshort : w.cur.polls.length ≤ clear p) (hn : (calls t)[n]? = some c) :
    (isPoll c = false ∧ o.1 = .hardError ∧ WriteFails t n) ∨
      ∃ u o' w₁ sig, (connTurn p wd wbuf).run (interrupted host) (w, .pending n) =
          some (u, o', w₁, sig) ∧ (∀ k, sig ≠ .pending k) ∧ w₁.later = w.later ∧
        (isPoll c = true → o'.1 = .hardError ∨ o'.1 = .noRead) ∧ (isPoll c = false → o' = o) := by
  unfold connTurn at hr ⊢
  split_ifs at hr ⊢ with hover hsock
  · obtain ⟨_, _, _, h, -⟩ := run_call_eq_some.1 hr
    cases h
  · -- the connection to read from is accepted first
    rw [clear, if_neg hsock] at hshort
    obtain ⟨a, rd, w₁, b, haccept, hrest, rfl⟩ := run_bind_eq_some.1 hr
    obtain ⟨⟨fds, timeout, hcalls⟩, hpolls, hw₁⟩ := run_connPollForAccept haccept
    rw [calls_append, hcalls, List.singleton_append] at hn
    cases n with
    | zero =>
      obtain rfl := Option.some.inj hn
      have hfailed : (connPollForAccept p).run (interrupted host) (w, .pending 0) =
          some (_, -1, w, .delivered) :=
        run_call_eq_some.2 ⟨.error .eintr, (w, .delivered), _, rfl, rfl, rfl⟩
      exact .inr ⟨_, _, w, _, run_bind_eq_some.2 ⟨_, -1, _, [], hfailed, rfl, rfl⟩, by simp, rfl,
        fun _ => .inr rfl, fun hc => by cases hc⟩
    | succ n =>
      rw [List.getElem?_cons_succ] at hn
      have haccept' := run_pending (n := n) haccept
      rw [hcalls, List.length_singleton, Nat.add_comm] at haccept'
      split_ifs at hrest with hrd
      · cases hrest
        cases hn
      · obtain ⟨b, o, w₂, d, hexch, hret, rfl⟩ := run_bind_eq_some.1 hrest
        cases hret
        rw [List.append_nil] at hn
        obtain ⟨hc, rfl, hfail⟩ | ⟨u, w₂, sig, hrun, hsig, hw₂⟩ :=
          connExchange_hit hexch (by omega) hn
        · have hfail' := (hfail.append_right []).append_left a
          rw [hcalls, List.length_singleton, Nat.add_comm] at hfail'
          exact .inl ⟨hc, rfl, hfail'⟩
        · have hturn : (if rd < 0 then .ret (.noRead, rd) else (connExchange p (.accepted rd wd)
              wbuf).bind fun o => .ret (o, rd) : Io _).run (interrupted host) (w₁, .pending n) =
                some (u ++ [], (if isPoll c then .hardError else o, rd), w₂, sig) := by
            rw [if_neg hrd]
            exact run_bind_eq_some.2 ⟨u, _, _, [], hrun, rfl, rfl⟩
          refine .inr ⟨_, _, w₂, sig, run_bind_eq_some.2 ⟨a, rd, _, _, haccept', hturn, rfl⟩, hsig,
            hw₂.trans hw₁, fun hc => .inl (if_pos hc), fun hc => ?_⟩
          rw [hc]
          rfl
  · rw [not_not] at hsock
    rw [clear, if_pos hsock] at hshort
    obtain ⟨a, o, w₁, b, hexch, hret, rfl⟩ := run_bind_eq_some.1 hr
    cases hret
    rw [List.append_nil] at hn ⊢
    obtain hfail | ⟨u, w₂, sig, hrun, hsig, hw₂⟩ := connExchange_hit hexch (by omega) hn
    · exact .inl hfail
    · refine .inr ⟨_, _, w₂, sig, run_bind_eq_some.2 ⟨u, _, _, [], hrun, rfl, rfl⟩, hsig, hw₂,
        ?_, ?_⟩
      · intro hc
        exact .inl (if_pos hc)
      · intro hc
        rw [hc]
        rfl

/-! ### The retry loop -/

section Idle

variable {σ : Type} {h : σ → (c : Call) → Option (Answer c × σ)}

/-- Hanging up, in an environment that does not mind. -/
theorem hangUp_idle (hshut : ∀ s fd, h s (.shutdown fd) = some ((), s))
    (hclose : ∀ s fd, h s (.close fd) = some ((), s)) (fd : ℤ) (s : σ) :
    (hangUp fd).run h s = some ([⟨.shutdown fd, ()⟩, ⟨.close fd, ()⟩], (), s) :=
  run_call_eq_some.2 ⟨(), s, _, hshut s fd,
    run_call_eq_some.2 ⟨(), s, [], hclose s fd, rfl, rfl⟩, rfl⟩

theorem hangUpRead_idle (hshut : ∀ s fd, h s (.shutdown fd) = some ((), s))
    (hclose : ∀ s fd, h s (.close fd) = some ((), s)) (p : Probe) (rd : ℤ) :
    ∃ a, calls a = [] ∧ ∀ s, (hangUpRead p rd).run h s = some (a, (), s) := by
  unfold hangUpRead
  split_ifs
  · exact ⟨_, rfl, hangUp_idle hshut hclose rd⟩
  · exact ⟨[], rfl, fun _ => rfl⟩

/-- The end of a test. -/
theorem hangUpAll_idle (hshut : ∀ s fd, h s (.shutdown fd) = some ((), s))
    (hclose : ∀ s fd, h s (.close fd) = some ((), s)) (p : Probe) (wd rd : ℤ) (v : ℕ) (s : σ) :
    ∃ a, calls a = [] ∧
      ((hangUp wd).bind fun _ => (hangUpRead p rd).bind fun _ => .ret v : Io ℕ).run h s =
        some (a, v, s) := by
  obtain ⟨a, hcalls, hread⟩ := hangUpRead_idle hshut hclose p rd
  refine ⟨_ ++ (a ++ []), ?_, run_bind_eq_some.2 ⟨_, (), s, _, hangUp_idle hshut hclose wd s,
    run_bind_eq_some.2 ⟨a, (), s, [], hread s, rfl, rfl⟩, rfl⟩⟩
  rw [List.append_nil, calls_append, hcalls]
  rfl

end Idle

variable {wd rd : ℤ} {nodename : Text} {id : ℤ}

/-- A turn of the retry loop, in the world of the scripts. -/
theorem connAttempt_run {o : Outcome × ℤ}
    (hr : (connAttempt p wd nodename id rd).run (answer host) w = some (t, o, w')) :
    ∃ cur later a u, w.later = cur :: later ∧ t = a ++ ⟨.getpid, host.pid⟩ :: u ∧ calls a = [] ∧
      (connTurn p wd (message nodename (p.progname.getD autossh) host.pid id p.echoMessage)).run
        (answer host) ⟨cur, later, .timeout⟩ = some (u, o, w') := by
  obtain ⟨a, hcalls, hidle⟩ :=
    hangUpRead_idle (h := answer host) (fun _ _ => rfl) (fun _ _ => rfl) p rd
  obtain ⟨a', _, w₁, b, ha, hb, rfl⟩ := run_bind_eq_some.1 hr
  obtain ⟨rfl, rfl⟩ : a = a' ∧ w = w₁ := by simpa using (hidle w).symm.trans ha
  obtain ⟨pid, w₂, u, hpid, hu, rfl⟩ := run_call_eq_some.1 hb
  simp only [answer] at hpid
  split at hpid
  · cases hpid
  · rename_i cur later hlater
    cases hpid
    exact ⟨cur, later, a, u, hlater, rfl, hcalls, hu⟩

/-- The other way round, for a world with a signal. -/
theorem run_connAttempt {r₁ r₂ r₃ : World × Signal} {u : List (Event Answer)} {o : Outcome × ℤ}
    (rd : ℤ)
    (hpid : interrupted host r₁ .getpid = some (host.pid, r₂))
    (hturn : (connTurn p wd (message nodename (p.progname.getD autossh) host.pid id
      p.echoMessage)).run (interrupted host) r₂ = some (u, o, r₃)) :
    ∃ a, (connAttempt p wd nodename id rd).run (interrupted host) r₁ = some (a, o, r₃) := by
  obtain ⟨a, -, hidle⟩ := hangUpRead_idle (fun st => (interrupted_idle host st).2.2.1)
    (fun st => (interrupted_idle host st).2.2.2) p rd
  exact ⟨_, run_bind_eq_some.2 ⟨a, (), r₁, _, hidle r₁,
    run_call_eq_some.2 ⟨host.pid, r₂, u, hpid, hturn, rfl⟩, rfl⟩⟩

theorem interrupted_getpid {w₁ : World} {sig : Signal} {cur : Script} {later : List Script}
    (hsig : ∀ k, sig ≠ .pending k) (hlater : w₁.later = cur :: later) :
    interrupted host (w₁, sig) .getpid = some (host.pid, ⟨cur, later, .timeout⟩, .past) := by
  have hpid : answer host w₁ .getpid = some (host.pid, ⟨cur, later, .timeout⟩) := by
    simp only [answer]
    rw [hlater]
  cases sig with
  | pending k => exact absurd rfl (hsig k)
  | delivered => exact interrupted_of_struck_none rfl hpid
  | past => exact interrupted_of_struck_none rfl hpid

/-- When the signal has done what it does, the loop goes on as it would have. -/
theorem connTries_after_hit {left : ℕ} {v : ℕ × ℤ} {w₁ : World} {sig : Signal}
    (hr : (connTries p wd nodename id left rd).run (answer host) w = some (t, v, w'))
    (hlater : w₁.later = w.later) (hsig : ∀ k, sig ≠ .pending k) :
    ∃ u w₂ sig', (connTries p wd nodename id left rd).run (interrupted host) (w₁, sig) =
      some (u, v, w₂, sig') ∧ ∀ k, sig' ≠ .pending k := by
  cases left with
  | zero =>
    cases hr
    exact ⟨[], w₁, sig, rfl, hsig⟩
  | succ left =>
    rw [connTries] at hr ⊢
    split_ifs at hr ⊢ with hlimit
    · cases hr
      exact ⟨_, w₁, sig, run_call_eq_some.2
        ⟨(), _, [], (interrupted_idle host (w₁, sig)).1 _, rfl, rfl⟩, hsig⟩
    · obtain ⟨a, o, w₂, b, ha, hb, rfl⟩ := run_bind_eq_some.1 hr
      obtain ⟨cur, later, a', u, hcur, -, -, hturn⟩ := connAttempt_run ha
      obtain ⟨a'', ha''⟩ := run_connAttempt rd
        (interrupted_getpid hsig (hlater.trans hcur)) (run_past hturn)
      exact ⟨_, w', .past, run_bind_eq_some.2 ⟨a'', o, _, b, ha'', run_past hb, rfl⟩, by simp⟩

theorem afterTurn_after_hit {left : ℕ} {o : Outcome × ℤ} {v : ℕ × ℤ} {w₁ : World} {sig : Signal}
    (hr : (afterTurn (connTries p wd nodename id left) o).run (answer host) w = some (t, v, w'))
    (hlater : w₁.later = w.later) (hsig : ∀ k, sig ≠ .pending k) :
    ∃ u w₂ sig', (afterTurn (connTries p wd nodename id left) o).run (interrupted host) (w₁, sig) =
      some (u, v, w₂, sig') ∧ ∀ k, sig' ≠ .pending k := by
  obtain ⟨o, rd⟩ := o
  cases o with
  | timeout => exact connTries_after_hit hr hlater hsig
  | garbled => exact connTries_after_hit hr hlater hsig
  | _ =>
    cases hr
    exact ⟨[], w₁, sig, rfl, hsig⟩

theorem afterTurn_of_hard {next : ℤ → Io (ℕ × ℤ)} {o : Outcome × ℤ}
    (ho : o.1 = .hardError ∨ o.1 = .noRead) : afterTurn next o = .ret (0, o.2) := by
  obtain ⟨o, rd⟩ := o
  rcases ho with rfl | rfl <;> rfl

/-- A signal during the retry loop: an interrupted `poll` ends it without success, anything else
makes no difference, unless a write was to fail. -/
theorem connTries_hit {left : ℕ} {v : ℕ × ℤ}
    (hr : (connTries p wd nodename id left rd).run (answer host) w = some (t, v, w'))
    (hclear : ∀ sc ∈ w.later, sc.polls.length ≤ clear p) (hn : (calls t)[n]? = some c) :
    (isPoll c = false ∧ v.1 = 0 ∧ WriteFails t n) ∨
      ∃ u v' w₁ sig, (connTries p wd nodename id left rd).run (interrupted host) (w, .pending n) =
          some (u, v', w₁, sig) ∧ (∀ k, sig ≠ .pending k) ∧
        (isPoll c = true → v'.1 = 0) ∧ (isPoll c = false → v' = v) := by
  induction left generalizing rd w t n with
  | zero =>
    cases hr
    cases hn
  | succ left ih =>
    rw [connTries] at hr ⊢
    split_ifs at hr ⊢ with hlimit
    · cases hr
      cases hn
    obtain ⟨a, o, w₂, b, ha, hb, rfl⟩ := run_bind_eq_some.1 hr
    obtain ⟨cur, later, a', u, hcur, hau, hcalls, hturn⟩ := connAttempt_run ha
    have hlater : w₂.later = later := later_of_run hturn (connTurn_plain (returns_of_run hturn))
    rw [hcur] at hclear
    rw [calls_append] at hn
    by_cases hlen : n < (calls a).length
    · -- the signal comes in this turn
      rw [List.getElem?_append_left hlen, hau, calls_append, hcalls, List.nil_append,
        calls_cons_of_neg rfl] at hn
      have hpid : interrupted host (w, .pending n) .getpid =
          some (host.pid, ⟨cur, later, .timeout⟩, .pending n) := by
        refine interrupted_pending (by decide) ?_
        simp only [answer]
        rw [hcur]
      obtain ⟨hc, ho, hfail⟩ | ⟨v', o', w₁, sig, hrun, hsig, hw₁, hpoll, hother⟩ :=
        connTurn_hit hturn (hclear cur List.mem_cons_self) hn
      · rw [afterTurn_of_hard (.inl ho)] at hb
        cases hb
        have hfail' := (hfail.append_left [⟨.getpid, host.pid⟩]).append_left a'
        rw [hcalls, List.length_nil, calls_cons_of_neg rfl, show (calls []).length = 0 from rfl,
          Nat.zero_add, Nat.zero_add] at hfail'
        rw [hau]
        exact .inl ⟨hc, rfl, hfail'.append_right _⟩
      · obtain ⟨a'', ha''⟩ := run_connAttempt rd hpid hrun
        right
        cases hc : isPoll c with
        | true =>
          refine ⟨_, (0, o'.2), w₁, sig, run_bind_eq_some.2 ⟨a'', o', _, [], ha'', ?_, rfl⟩, hsig,
            fun _ => rfl, fun h => by cases h⟩
          rw [afterTurn_of_hard (hpoll hc)]
          rfl
        | false =>
          obtain rfl := hother hc
          obtain ⟨b', w₃, sig', hb', hsig'⟩ := afterTurn_after_hit hb (hw₁.trans hlater.symm) hsig
          exact ⟨_, v, w₃, sig', run_bind_eq_some.2 ⟨a'', o', _, b', ha'', hb', rfl⟩, hsig',
            fun h => (by cases h), fun _ => rfl⟩
    · rw [List.getElem?_append_right (Nat.le_of_not_lt hlen)] at hn
      obtain ⟨k, rfl⟩ := Nat.exists_eq_add_of_le (Nat.le_of_not_lt hlen)
      rw [Nat.add_sub_cancel_left] at hn
      have ha' := run_pending (n := k) ha
      have hclear₂ : ∀ sc ∈ w₂.later, sc.polls.length ≤ clear p := fun sc hsc =>
        hclear sc (List.mem_cons_of_mem _ (hlater ▸ hsc))
      have hnext : afterTurn (connTries p wd nodename id left) o =
          connTries p wd nodename id left o.2 := by
        obtain ⟨o, rd'⟩ := o
        cases o with
        | timeout => rfl
        | garbled => rfl
        | _ =>
          cases hb
          cases hn
      rw [hnext] at hb
      obtain ⟨hc, hv, hfail⟩ | ⟨u', v', w₁, sig, hrun, hsig, hpoll, hother⟩ := ih hb hclear₂ hn
      · exact .inl ⟨hc, hv, hfail.append_left a⟩
      · refine .inr ⟨_, v', w₁, sig, run_bind_eq_some.2 ⟨a, o, _, u', ha', ?_, rfl⟩, hsig, hpoll,
          hother⟩
        rw [hnext]
        exact hrun

/-! ### The test -/

theorem calls_connSetup {r : Text × ℤ × ℤ} (hr : (connSetup p).Returns t r) : calls t = [] := by
  have hallow : ∀ {c : Call}, interruptible c = false →
      Allows (A := Answer) (only fun c => interruptible c = false) (fun _ => True) c :=
    fun h => allows_only h
  have hkeeps : Keeps (only fun c => interruptible c = false) (fun _ => True) (connSetup p) :=
    keeps_call (hallow rfl) fun _ => keeps_call (hallow rfl) fun _ => keeps_bind
      (keeps_connRemote (fun _ _ => hallow rfl) (hallow rfl) (hallow rfl) (fun _ => hallow rfl)
        fun _ => hallow rfl) fun _ => keeps_ret _
  have hquiet := Steps.calls hr hkeeps
  refine List.filter_eq_nil_iff.2 fun c hc => ?_
  obtain ⟨ev, hev, rfl⟩ := List.mem_map.1 hc
  exact Bool.eq_false_iff.1 (hquiet ev hev)

/-- A signal during a test. -/
theorem connTest_hit (hclear : ∀ sc ∈ w.later, sc.polls.length ≤ clear p) {rval : ℕ}
    (hr : (connTest p).run (answer host) w = some (t, rval, w')) (hn : (calls t)[n]? = some c) :
    (isPoll c = false ∧ rval = 0 ∧ WriteFails t n) ∨
      ∃ u rval' st, (connTest p).run (interrupted host) (w, .pending n) = some (u, rval', st) ∧
        (isPoll c = true → rval' = 0) ∧ (isPoll c = false → rval' = rval) := by
  rw [connTest_eq] at hr ⊢
  obtain ⟨u, ⟨nodename, id, wd⟩, w₀, v, hsetup, hrest, rfl⟩ := run_bind_eq_some.1 hr
  have hquiet := calls_connSetup (returns_of_run hsetup)
  have hsetup' := run_pending (n := n) hsetup
  rw [hquiet, List.length_nil, Nat.zero_add] at hsetup'
  have hlater := later_of_run hsetup (connSetup_plain (returns_of_run hsetup))
  rw [calls_append, hquiet, List.nil_append] at hn
  dsimp only at hrest
  split_ifs at hrest with hwd
  · cases hrest
    cases hn
  obtain ⟨a, r, w₁, b, htries, hend, rfl⟩ := run_bind_eq_some.1 hrest
  obtain ⟨d, hd, hend'⟩ := hangUpAll_idle (h := answer host) (fun _ _ => rfl) (fun _ _ => rfl) p wd
    r.2 r.1 w₁
  obtain ⟨rfl, rfl, rfl⟩ : d = b ∧ r.1 = rval ∧ w₁ = w' := by simpa using hend'.symm.trans hend
  rw [calls_append, hd, List.append_nil] at hn
  obtain ⟨hc, hv, hfail⟩ | ⟨a', r', w₂, sig, hrun, -, hpoll, hother⟩ :=
    connTries_hit htries (fun sc hsc => hclear sc (hlater ▸ hsc)) hn
  · have hfail' := (hfail.append_right d).append_left u
    rw [hquiet, List.length_nil, Nat.zero_add] at hfail'
    exact .inl ⟨hc, hv, hfail'⟩
  · obtain ⟨d', -, hfinish⟩ := hangUpAll_idle (fun st => (interrupted_idle host st).2.2.1)
      (fun st => (interrupted_idle host st).2.2.2) p wd r'.2 r'.1 (w₂, sig)
    refine .inr ⟨_, r'.1, (w₂, sig), run_bind_eq_some.2 ⟨u, _, _, a' ++ d', hsetup', ?_, rfl⟩,
      hpoll, fun hc => by rw [hother hc]⟩
    rw [if_neg hwd]
    exact run_bind_eq_some.2 ⟨a', r', _, d', hrun, hfinish, rfl⟩

/-- With the signal before the `n`th call it can interrupt, the test returns `rval`. -/
def ReturnsDespite (host : Host) (p : Probe) (w : World) (n rval : ℕ) : Prop :=
  ∃ u st, (connTest p).run (interrupted host) (w, .pending n) = some (u, rval, st)

/-- **A signal leaves a successful test alone exactly if it does not interrupt a `poll`**; and a
test that would not have been a success stays so, unless the signal interrupts the writes of a round
in which there is something to read and a write was to fail. -/
theorem returnsDespite_iff (hclear : ∀ sc ∈ w.later, sc.polls.length ≤ clear p) {rval : ℕ}
    (hr : (connTest p).run (answer host) w = some (t, rval, w')) (hn : (calls t)[n]? = some c) :
    (rval = 1 → (ReturnsDespite host p w n rval ↔ isPoll c = false)) ∧
      (rval = 0 → ¬WriteFails t n → ReturnsDespite host p w n rval) := by
  constructor
  · rintro rfl
    obtain ⟨-, hzero, -⟩ | ⟨u, rval', st, hrun, hpoll, hother⟩ := connTest_hit hclear hr hn
    · cases hzero
    · constructor
      · rintro ⟨u', st', hrun'⟩
        rw [← Bool.not_eq_true]
        intro hc
        obtain rfl := hpoll hc
        rw [hrun] at hrun'
        cases hrun'
      · intro hc
        obtain rfl := hother hc
        exact ⟨u, st, hrun⟩
  · rintro rfl hfine
    obtain ⟨-, -, hfail⟩ | ⟨u, rval', st, hrun, hpoll, hother⟩ := connTest_hit hclear hr hn
    · exact absurd hfail hfine
    · have hzero : rval' = 0 := by
        cases hc : isPoll c with
        | true => exact hpoll hc
        | false => exact hother hc
      subst hzero
      exact ⟨u, st, hrun⟩

/-- The host of the runs below. -/
def sampleHost : Host where
  nodename := sampleNode
  id := 7
  pid := 42
  addr := .ok ()
  socket := .ok 5
  connect := .ok ()

/-- An attempt in which the message comes back on the connection 6. -/
def sampleScript : Script where
  polls :=
    [.ready [{ pollin := true }], .ready [{}, { pollout := true }], .ready [{ pollin := true }]]
  accept := .ok 6
  reads := [.ok sampleMessage]
  writes := [.ok sampleMessage.length]

/-- The world before such an attempt. -/
def sampleWorld : World := ⟨sampleScript, [sampleScript], .timeout⟩

/-- The `read` is interrupted: the test is a success all the same. -/
theorem returnsDespite_read : ReturnsDespite sampleHost sample sampleWorld 4 1 := by
  obtain ⟨⟨t, rval, w'⟩, hr⟩ := Option.isSome_iff_exists.1
    (show ((connTest sample).run (answer sampleHost) sampleWorld).isSome = true by decide +kernel)
  have hone : ((connTest sample).run (answer sampleHost) sampleWorld).map (·.2.1) = some 1 := by
    decide +kernel
  have hread : ((connTest sample).run (answer sampleHost) sampleWorld).map
      (fun r => (calls r.1)[4]?) = some (some (.read 6 sampleMessage.length)) := by
    decide +kernel
  rw [hr] at hone hread
  obtain rfl : rval = 1 := Option.some.inj hone
  exact ((returnsDespite_iff (by decide) hr (Option.some.inj hread)).1 rfl).2 rfl

/-- The second `poll` is interrupted: the test returns 0, where without the signal it returns 1. -/
theorem not_returnsDespite_poll :
    ((connTest sample).run (answer sampleHost) sampleWorld).map
        (fun r => (r.2.1, (calls r.1)[1]?)) =
          some (1, some (.poll [⟨6, true, false⟩, ⟨5, false, true⟩] 15000)) ∧
      ((connTest sample).run (interrupted sampleHost) (sampleWorld, .pending 1)).map (·.2.1) =
        some 0 ∧
      ¬ReturnsDespite sampleHost sample sampleWorld 1 1 := by
  have hzero : ((connTest sample).run (interrupted sampleHost) (sampleWorld, .pending 1)).map
      (·.2.1) = some 0 := by
    decide +kernel
  refine ⟨by decide +kernel, hzero, ?_⟩
  rintro ⟨u, st, hrun⟩
  rw [hrun] at hzero
  cases hzero

end Conn

end Autossh
