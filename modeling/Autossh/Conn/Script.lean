import Autossh.Conn.Exchange

/-!
# What the kernel and the peer do

`conn_test` uses blocking descriptors, so a `read` or a `write` of it gives bytes, takes bytes, or
fails for good; only a signal makes it fail with `EINTR`.  A `Script` holds what the calls of one
attempt are to give: the readiness `poll` reports, the data and how it is cut.

* `answer` is the environment that follows the scripts;
* `interrupted` is the same with one signal: a call of `poll`, `read` or `write` fails with `EINTR`
  and uses nothing up, and a `poll` that is made because of it reports what the last one did;
* before the signal, and after all its consequences, the two run alike.
-/

namespace Autossh

namespace Conn

open Prog

/-- A failure for good. -/
abbrev Hard := { e : Errno // again e = false }

/-- What the calls of one attempt give. -/
structure Script where
  polls : List PollRes
  accept : Except Errno ℕ
  reads : List (Except Hard (List UInt8))
  writes : List (Except Hard ℕ)

/-- What a test finds before its first attempt. -/
structure Host where
  nodename : Text
  id : ℤ
  pid : ℤ
  addr : Except ℤ Unit
  socket : Except Errno ℕ
  connect : Except Errno Unit

/-- What is still to come: in this attempt, in the later ones; and what `poll` reported last. -/
structure World where
  cur : Script
  later : List Script
  last : PollRes

/-- The world after a `poll`. -/
def World.polled (w : World) (r : PollRes) (rest : List PollRes) : World :=
  { w with cur := { w.cur with polls := rest }, last := r }

/-- The world in which `poll` is still to report what it reported last. -/
def World.unpolled (w : World) : World :=
  { w with cur := { w.cur with polls := w.last :: w.cur.polls } }

/-- The world with other reads to come. -/
def World.setReads (w : World) (rest : List (Except Hard (List UInt8))) : World :=
  { w with cur := { w.cur with reads := rest } }

/-- The world with other writes to come. -/
def World.setWrites (w : World) (rest : List (Except Hard ℕ)) : World :=
  { w with cur := { w.cur with writes := rest } }

/-- What `read` gives when asked for at most `n` bytes. -/
def readAnswer (n : ℕ) : Except Hard (List UInt8) → Except Errno { b : List UInt8 // b.length ≤ n }
  | .error e => .error e.val
  | .ok b => .ok ⟨b.take n, List.length_take_le n b⟩

/-- What `write` gives when offered `b`. -/
def writeAnswer (b : List UInt8) : Except Hard ℕ → Except Errno (Fin (b.length + 1))
  | .error e => .error e.val
  | .ok k => .ok ⟨min k b.length, Nat.lt_succ_of_le (min_le_right k _)⟩

/-- The environment that follows the scripts; each `getpid` begins the next of them. -/
def answer (host : Host) (w : World) : (c : Call) → Option (Answer c × World)
  | .uname => some (host.nodename, w)
  | .random => some (host.id, w)
  | .getpid => match w.later with
    | [] => none
    | cur :: later => some (host.pid, ⟨cur, later, .timeout⟩)
  | .getaddrinfo _ _ => some (host.addr, w)
  | .socket => some (host.socket, w)
  | .connect _ => some (host.connect, w)
  | .poll _ _ => match w.cur.polls with
    | [] => none
    | r :: rest => some (r, w.polled r rest)
  | .accept _ => some (w.cur.accept, w)
  | .read _ n => match w.cur.reads with
    | [] => none
    | r :: rest => some (readAnswer n r, w.setReads rest)
  | .write _ b => match w.cur.writes with
    | [] => none
    | r :: rest => some (writeAnswer b r, w.setWrites rest)
  | .shutdown _ => some ((), w)
  | .close _ => some ((), w)
  | .sleep _ => some ((), w)
  | .errlog _ => some ((), w)
  | .xerrlog _ => none

section Answer

variable {host : Host} {w w' : World}

theorem answer_poll {fds : List PollFd} {timeout : ℤ} {x : PollRes} :
    answer host w (.poll fds timeout) = some (x, w') ↔
      ∃ rest, w.cur.polls = x :: rest ∧ w' = w.polled x rest := by
  simp only [answer]
  split <;> simp_all [eq_comm]

theorem answer_read {fd : ℤ} {n : ℕ} {x : Except Errno { b : List UInt8 // b.length ≤ n }} :
    answer host w (.read fd n) = some (x, w') ↔
      ∃ r rest, w.cur.reads = r :: rest ∧ x = readAnswer n r ∧ w' = w.setReads rest := by
  simp only [answer]
  split <;> simp_all [eq_comm]

theorem answer_write {fd : ℤ} {b : List UInt8} {x : Except Errno (Fin (b.length + 1))} :
    answer host w (.write fd b) = some (x, w') ↔
      ∃ r rest, w.cur.writes = r :: rest ∧ x = writeAnswer b r ∧ w' = w.setWrites rest := by
  simp only [answer]
  split <;> simp_all [eq_comm]

/-- Only the start of an attempt takes a script from those to come. -/
theorem later_of_answer {c : Call} {x : Answer c} (hc : c ≠ .getpid)
    (hx : answer host w c = some (x, w')) : w'.later = w.later := by
  cases c with
  | getpid => exact absurd rfl hc
  | poll =>
    obtain ⟨rest, -, rfl⟩ := answer_poll.1 hx
    rfl
  | read =>
    obtain ⟨r, rest, -, -, rfl⟩ := answer_read.1 hx
    rfl
  | write =>
    obtain ⟨r, rest, -, -, rfl⟩ := answer_write.1 hx
    rfl
  | xerrlog => cases hx
  | _ =>
    cases hx
    rfl

theorem later_of_run {α : Type} {q : Io α} {a : α} {t : List (Event Answer)}
    (hr : q.run (answer host) w = some (t, a, w')) (ht : ∀ e ∈ t, plain e.1 = true) :
    w'.later = w.later := by
  induction q generalizing w t with
  | ret b =>
    cases hr
    rfl
  | call c k ih =>
    obtain ⟨x, w₁, u, hx, hk, rfl⟩ := run_call_eq_some.1 hr
    have hc : c ≠ .getpid := by
      rintro rfl
      cases ht _ List.mem_cons_self
    rw [ih x hk fun e he => ht e (List.mem_cons_of_mem _ he), later_of_answer hc hx]

end Answer

/-! ### A signal -/

/-- Where the signal is. -/
inductive Signal
  /-- It comes when `n` more calls of `poll`, `read` and `write` have been made. -/
  | pending (n : ℕ)
  /-- It has made a call fail. -/
  | delivered
  /-- So much for the signal. -/
  | past
  deriving DecidableEq, Repr

/-- The calls a signal can interrupt. -/
def interruptible : Call → Bool
  | .poll _ _ => true
  | .read _ _ => true
  | .write _ _ => true
  | _ => false

/-- Where the signal is after a call that goes by the script. -/
def Signal.next : Signal → Call → Signal
  | pending (n + 1), c => if interruptible c then pending n else pending (n + 1)
  | delivered, .getpid => past
  | sig, _ => sig

/-- What a call gives that does not go by the script. -/
def struck (w : World) : Signal → (c : Call) → Option (Answer c × Signal)
  | .pending 0, .poll _ _ => some (.error .eintr, .delivered)
  | .pending 0, .read _ _ => some (.error .eintr, .delivered)
  | .pending 0, .write _ _ => some (.error .eintr, .delivered)
  | .delivered, .poll _ _ => some (w.last, .past)
  | _, _ => none

/-- The environment that follows the scripts, with a signal. -/
def interrupted (host : Host) (w : World × Signal) (c : Call) :
    Option (Answer c × World × Signal) :=
  match struck w.1 w.2 c with
  | some r => some (r.1, w.1, r.2)
  | none => (answer host w.1 c).map fun r => (r.1, r.2, w.2.next c)

variable {host : Host} {w w' : World} {t : List (Event Answer)} {α : Type} {q : Io α} {a : α}

theorem interrupted_of_struck_none {sig : Signal} {c : Call} {x : Answer c}
    (hs : struck w sig c = none) (hx : answer host w c = some (x, w')) :
    interrupted host (w, sig) c = some (x, w', sig.next c) := by
  simp [interrupted, hs, hx]

/-- When the signal is past, everything goes by the script. -/
theorem run_past (hr : q.run (answer host) w = some (t, a, w')) :
    q.run (interrupted host) (w, .past) = some (t, a, w', .past) := by
  have hstep : ∀ (w : World) (r : World × Signal) c x w₁, True → r = (w, .past) →
      answer host w c = some (x, w₁) →
      ∃ r₁, interrupted host r c = some (x, r₁) ∧ r₁ = (w₁, .past) := by
    rintro w _ c x w₁ - rfl hx
    refine ⟨_, interrupted_of_struck_none ?_ hx, ?_⟩ <;> cases c <;> rfl
  obtain ⟨r', hr', rfl⟩ := run_rel hstep rfl hr fun _ _ => trivial
  exact hr'

/-- The calls that a delivered signal has no effect on. -/
def undisturbed : Call → Bool
  | .poll _ _ => false
  | .getpid => false
  | _ => true

/-- After the signal, and before the next `poll` and the next attempt, so it does. -/
theorem run_delivered (hr : q.run (answer host) w = some (t, a, w'))
    (ht : ∀ e ∈ t, undisturbed e.1 = true) :
    q.run (interrupted host) (w, .delivered) = some (t, a, w', .delivered) := by
  have hstep : ∀ (w : World) (r : World × Signal) c x w₁, undisturbed c = true →
      r = (w, .delivered) → answer host w c = some (x, w₁) →
      ∃ r₁, interrupted host r c = some (x, r₁) ∧ r₁ = (w₁, .delivered) := by
    rintro w _ c x w₁ hc rfl hx
    cases c with
    | poll => cases hc
    | getpid => cases hc
    | _ => exact ⟨_, interrupted_of_struck_none rfl hx, rfl⟩
  obtain ⟨r', hr', rfl⟩ := run_rel hstep rfl hr ht
  exact hr'

/-- The calls in a trace that a signal could interrupt. -/
def calls (t : List (Event Answer)) : List Call := (t.map Sigma.fst).filter interruptible

theorem calls_append {u v : List (Event Answer)} : calls (u ++ v) = calls u ++ calls v := by
  rw [calls, List.map_append, List.filter_append]
  rfl

theorem calls_cons_of_pos {c : Call} {x : Answer c} (hc : interruptible c = true) :
    calls (⟨c, x⟩ :: t) = c :: calls t := by
  rw [calls, List.map_cons, List.filter_cons_of_pos hc]
  rfl

theorem calls_cons_of_neg {c : Call} {x : Answer c} (hc : interruptible c = false) :
    calls (⟨c, x⟩ :: t) = calls t := by
  rw [calls, List.map_cons, List.filter_cons_of_neg (Bool.eq_false_iff.1 hc)]
  rfl

theorem interrupted_pending_succ {n : ℕ} {c : Call} {x : Answer c} (hc : interruptible c = true)
    (hx : answer host w c = some (x, w')) :
    interrupted host (w, .pending (n + 1)) c = some (x, w', .pending n) := by
  rw [interrupted_of_struck_none (by cases c <;> rfl) hx, Signal.next, if_pos hc]

theorem interrupted_pending {n : ℕ} {c : Call} {x : Answer c} (hc : ¬interruptible c = true)
    (hx : answer host w c = some (x, w')) :
    interrupted host (w, .pending n) c = some (x, w', .pending n) := by
  have hs : struck w (.pending n) c = none ∧ (Signal.pending n).next c = .pending n := by
    cases c with
    | poll => exact absurd rfl hc
    | read => exact absurd rfl hc
    | write => exact absurd rfl hc
    | _ => cases n <;> exact ⟨rfl, rfl⟩
  rw [interrupted_of_struck_none hs.1 hx, hs.2]

/-- Before the signal, too. -/
theorem run_pending {n : ℕ} (hr : q.run (answer host) w = some (t, a, w')) :
    q.run (interrupted host) (w, .pending ((calls t).length + n)) =
      some (t, a, w', .pending n) := by
  induction q generalizing w t with
  | ret b =>
    cases hr
    rw [calls, List.map_nil, List.filter_nil, List.length_nil, Nat.zero_add]
    rfl
  | call c k ih =>
    obtain ⟨x, w₁, u, hx, hk, rfl⟩ := run_call_eq_some.1 hr
    refine run_call_eq_some.2 ⟨x, (w₁, .pending ((calls u).length + n)), u, ?_, ih x hk, rfl⟩
    by_cases hc : interruptible c = true
    · rw [calls_cons_of_pos hc, List.length_cons, Nat.add_right_comm]
      exact interrupted_pending_succ hc hx
    · rw [calls_cons_of_neg (Bool.eq_false_iff.2 hc)]
      exact interrupted_pending hc hx

/-- The `poll` that is made because of the signal, and what follows it: as if `poll` were to report
what it did before. -/
theorem run_poll_delivered {fds : List PollFd} {timeout : ℤ} {k : PollRes → Io α}
    (hr : (call (.poll fds timeout) k : Io α).run (answer host) w.unpolled = some (t, a, w')) :
    (call (.poll fds timeout) k : Io α).run (interrupted host) (w, .delivered) =
      some (t, a, w', .past) := by
  obtain ⟨x, w₁, u, hx, hk, rfl⟩ := run_call_eq_some.1 hr
  obtain ⟨rest, hrest, rfl⟩ := answer_poll.1 hx
  cases hrest
  exact run_call_eq_some.2 ⟨w.last, (w, .past), u, rfl, run_past hk, rfl⟩

/-- Log lines, naps and hanging up leave the world and the signal alone. -/
theorem interrupted_idle (host : Host) (r : World × Signal) :
    (∀ m, interrupted host r (.errlog m) = some ((), r)) ∧
      (∀ n, interrupted host r (.sleep n) = some ((), r)) ∧
      (∀ fd, interrupted host r (.shutdown fd) = some ((), r)) ∧
      ∀ fd, interrupted host r (.close fd) = some ((), r) := by
  obtain ⟨w, sig⟩ := r
  cases sig with
  | pending n => cases n <;> exact ⟨fun _ => rfl, fun _ => rfl, fun _ => rfl, fun _ => rfl⟩
  | _ => exact ⟨fun _ => rfl, fun _ => rfl, fun _ => rfl, fun _ => rfl⟩

end Conn

end Autossh
