import Autossh.Conn.Exchange

/-!
# How often a test is tried

`conn_test` is to try its test up to `MAX_CONN_TRIES` times.  The counter is compared twice: in the
loop's condition, and at the top of the body with one added.

* `Attempt` : what an attempt meets.  An attempt that waits in vain for its connection has timed out
  like one whose message does not come back in time, but the loop ends with it;
* `attempts n` makes `n` turns of the retry loop, one after the other, whatever they come to: what
  an environment makes of it is the sequence of attempts it has in store;
* `verdict` says what the retry loop makes of a sequence of attempts, and `run_connTries` that the
  loop does so;
* `retries_iff` : **a test tries as often as it should exactly if it does not need the third turn,
  and needs no turn after one without a connection.**
-/

namespace Autossh

namespace Conn

open Prog

variable {σ : Type} {h : σ → (c : Call) → Option (Answer c × σ)} {p : Probe} {s s' : σ}
  {w t : List (Event Answer)}

/-- The environment answers every call but the one that ends the process. -/
def Answers (h : σ → (c : Call) → Option (Answer c × σ)) : Prop :=
  ∀ s c, (∀ m, c ≠ .xerrlog m) → (h s c).isSome = true

/-- `conn_test` up to its retry loop: the node name, the random number and the socket. -/
def connSetup (p : Probe) : Io (Text × ℤ × ℤ) :=
  .call .uname fun nodename => .call .random fun id => (connRemote p).bind fun wd =>
    .ret (nodename, id, wd)

/-- What an attempt meets. -/
inductive Attempt
  /-- No connection came in time. -/
  | unaccepted
  /-- The message did not come back in time. -/
  | timeout
  /-- Something else came back, or less. -/
  | garbled
  /-- A call failed. -/
  | hardError
  /-- The message came back. -/
  | echo
  deriving DecidableEq, Repr

/-- A `poll` that ran into its timeout. -/
def pollTimedOut : Event Answer → Bool
  | ⟨.poll _ _, .timeout⟩ => true
  | _ => false

/-- What an attempt has met, by its trace and what it has come to. -/
def Attempt.of (w : List (Event Answer)) : Outcome → Attempt
  | .noRead => if w.any pollTimedOut then .unaccepted else .hardError
  | .timeout => .timeout
  | .garbled => .garbled
  | .hardError => .hardError
  | .echo => .echo

/-- `n` turns of the retry loop, whatever they come to. -/
def attempts (p : Probe) (wd : ℤ) (nodename : Text) (id : ℤ) : ℕ → ℤ → Io (List Attempt)
  | 0, _ => .ret []
  | n + 1, rd => (connAttempt p wd nodename id rd).traced.bind fun r =>
    (attempts p wd nodename id n r.2.2).bind fun os => .ret (.of r.1 r.2.1 :: os)

/-- The attempts after which the test is tried again. -/
def Attempt.soft : Attempt → Bool
  | timeout => true
  | garbled => true
  | _ => false

/-- What the retry loop returns, if the turns it may make meet `os`. -/
def verdict : List Attempt → ℕ
  | .echo :: _ => 1
  | .timeout :: os => verdict os
  | .garbled :: os => verdict os
  | _ => 0

/-- The number of turns in a trace. -/
def turnsIn (t : List (Event Answer)) : ℕ := t.countP fun e => e.1 = .getpid

/-- The trace has the line about giving up, with the number `n`. -/
def GivesUp (t : List (Event Answer)) (n : ℕ) : Prop :=
  (⟨.errlog (.tried n), ()⟩ : Event Answer) ∈ t

/-! ### Plain traces -/

theorem turnsIn_of_plain (hw : ∀ e ∈ w, plain e.1 = true) : turnsIn w = 0 := by
  refine List.countP_eq_zero.2 fun e he hp => ?_
  have hpl := hw e he
  rw [of_decide_eq_true hp] at hpl
  cases hpl

theorem not_givesUp_of_plain (hw : ∀ e ∈ w, plain e.1 = true) (n : ℕ) : ¬GivesUp w n := by
  intro hg
  have hpl := hw _ hg
  cases hpl

theorem turnsIn_append : turnsIn (w ++ t) = turnsIn w + turnsIn t := List.countP_append

theorem givesUp_append {n : ℕ} : GivesUp (w ++ t) n ↔ GivesUp w n ∨ GivesUp t n :=
  List.mem_append

theorem attempt_trace {wd : ℤ} {nodename : Text} {id rd : ℤ} {r : Outcome × ℤ}
    (hr : (connAttempt p wd nodename id rd).Returns w r) :
    turnsIn w = 1 ∧ ∀ n, ¬GivesUp w n := by
  obtain ⟨u, _, v, rfl, hu, hv⟩ := returns_bind.1 hr
  obtain ⟨pid, v, rfl, hv'⟩ := returns_call.1 hv
  have hu' := hangUpRead_plain hu
  have hv'' := connTurn_plain hv'
  constructor
  · rw [turnsIn_append, turnsIn_of_plain hu', turnsIn, List.countP_cons, ← turnsIn,
      turnsIn_of_plain hv'']
    rfl
  · intro n hg
    rcases givesUp_append.1 hg with hg | hg
    · exact not_givesUp_of_plain hu' n hg
    · rcases List.mem_cons.1 hg with hg | hg
      · cases hg
      · exact not_givesUp_of_plain hv'' n hg

/-! ### The retry loop -/

/-- Run from `s`, the retry loop does with the attempts in store what `verdict` says; it gives up
when they are all soft, after as many turns as there are attempts. -/
def Tries (h : σ → (c : Call) → Option (Answer c × σ)) (q : Io (ℕ × ℤ)) (s : σ)
    (os : List Attempt) : Prop :=
  ∃ t rd s', q.run h s = some (t, (verdict os, rd), s') ∧
    (∀ n, GivesUp t n ↔ n = maxConnTries ∧ os.all Attempt.soft = true) ∧
    (os.all Attempt.soft = true → turnsIn t = os.length)

section Loop

variable {q : Io (Outcome × ℤ)} {next : ℤ → Io (ℕ × ℤ)} {o : Outcome} {os : List Attempt} {rd : ℤ}
  {s₁ : σ} (hq : q.run h s = some (w, (o, rd), s₁))
  (hg : ∀ n, ¬GivesUp w n)

include hq hg

/-- After a soft attempt the loop goes on. -/
theorem Tries.again (hturns : turnsIn w = 1) (ho : (Attempt.of w o).soft = true)
    (hnext : Tries h (next rd) s₁ os) :
    Tries h (q.bind (afterTurn next)) s (.of w o :: os) := by
  obtain ⟨t, rd', s', ht, hgt, htt⟩ := hnext
  have hstep : verdict (.of w o :: os) = verdict os ∧ afterTurn next (o, rd) = next rd := by
    cases o with
    | timeout => exact ⟨rfl, rfl⟩
    | garbled => exact ⟨rfl, rfl⟩
    | noRead =>
      simp only [Attempt.of] at ho
      split_ifs at ho <;> cases ho
    | _ => cases ho
  refine ⟨w ++ t, rd', s', ?_, fun n => ?_, ?_⟩
  · rw [run_bind_eq_some, hstep.1]
    exact ⟨w, (o, rd), s₁, t, hq, by rw [hstep.2]; exact ht, rfl⟩
  · rw [givesUp_append, or_iff_right (hg n), hgt, List.all_cons, ho, Bool.true_and]
  · rw [List.all_cons, ho, Bool.true_and, turnsIn_append, hturns, List.length_cons]
    intro hall
    rw [htt hall, Nat.add_comm]

/-- Any other attempt ends it. -/
theorem Tries.stop (ho : (Attempt.of w o).soft = false) :
    Tries h (q.bind (afterTurn next)) s (.of w o :: os) := by
  have hstep : afterTurn next (o, rd) = .ret (verdict (.of w o :: os), rd) := by
    cases o with
    | timeout => cases ho
    | garbled => cases ho
    | noRead =>
      simp only [Attempt.of]
      split_ifs <;> rfl
    | _ => rfl
  refine ⟨w, rd, s₁, ?_, fun n => ?_, ?_⟩
  · rw [run_bind_eq_some]
    exact ⟨w, (o, rd), s₁, [], hq, by rw [hstep]; rfl, (List.append_nil w).symm⟩
  · simp [hg n, ho]
  · simp [ho]

end Loop

/-- **The retry loop does with the attempts in store what `verdict` says**, and gives up when they
are all soft, with a number that is one more than the turns it has made. -/
theorem run_connTries (hans : Answers h) {wd : ℤ} {nodename : Text} {id : ℤ} {left : ℕ}
    (hleft : left < maxConnTries) {rd : ℤ} {os : List Attempt}
    (ha : (attempts p wd nodename id left rd).run h s = some (w, os, s')) :
    Tries h (connTries p wd nodename id (left + 1) rd) s os := by
  induction left generalizing rd s w os with
  | zero =>
    obtain ⟨rfl, rfl, rfl⟩ : [] = w ∧ [] = os ∧ s = s' := by simpa [attempts, run] using ha
    obtain ⟨⟨x, s₁⟩, hx⟩ := Option.isSome_iff_exists.1
      (hans s (.errlog (.tried maxConnTries)) (by simp))
    refine ⟨[⟨.errlog (.tried maxConnTries), x⟩], rd, s₁, ?_, fun n => ?_, fun _ => rfl⟩
    · simp only [connTries]
      rw [if_pos (by decide)]
      exact run_call_eq_some.2 ⟨x, s₁, [], hx, rfl, rfl⟩
    · simp [GivesUp]
  | succ left ih =>
    obtain ⟨a, ⟨a', o, rd₁⟩, s₁, v, hta, hv, rfl⟩ := run_bind_eq_some.1 ha
    obtain ⟨ho, rfl⟩ := run_traced.1 hta
    obtain ⟨b, os, s₂, v', hos, hret, rfl⟩ := run_bind_eq_some.1 hv
    cases hret
    obtain ⟨hturns, hg⟩ := attempt_trace (returns_of_run ho)
    have htries : ¬maxConnTries ≤ maxConnTries - (left + 1 + 1) + 1 := by
      have : maxConnTries = 3 := rfl
      omega
    rw [connTries, if_neg htries]
    cases hsoft : (Attempt.of a' o).soft with
    | true => exact .again ho hg hturns hsoft (ih (Nat.lt_of_succ_lt hleft) hos)
    | false => exact .stop ho hg hsoft

/-! ### The test -/

theorem connTest_eq (p : Probe) : connTest p = (connSetup p).bind fun r =>
    if r.2.2 = -1 then .ret 0
    else (connTries p r.2.2 r.1 r.2.1 maxConnTries (-1)).bind fun r' =>
      (hangUp r.2.2).bind fun _ => (hangUpRead p r'.2).bind fun _ => .ret r'.1 := by
  unfold connTest connSetup
  simp only [call_bind]
  refine congrArg (Prog.call Call.uname) (funext fun nodename => ?_)
  refine congrArg (Prog.call Call.random) (funext fun id => ?_)
  rw [bind_assoc]
  rfl

theorem run_hangUp (hans : Answers h) (fd : ℤ) (s : σ) :
    ∃ w s', (hangUp fd).run h s = some (w, (), s') := by
  obtain ⟨⟨x, s₁⟩, hx⟩ := Option.isSome_iff_exists.1 (hans s (.shutdown fd) (by simp))
  obtain ⟨⟨y, s₂⟩, hy⟩ := Option.isSome_iff_exists.1 (hans s₁ (.close fd) (by simp))
  exact ⟨_, s₂, run_call_eq_some.2
    ⟨x, s₁, _, hx, run_call_eq_some.2 ⟨y, s₂, [], hy, rfl, rfl⟩, rfl⟩⟩

theorem run_hangUpRead (hans : Answers h) (rd : ℤ) (s : σ) :
    ∃ w s', (hangUpRead p rd).run h s = some (w, (), s') := by
  unfold hangUpRead
  split_ifs
  · exact run_hangUp hans rd s
  · exact ⟨[], s, rfl⟩

/-- The first turns of a longer row of turns. -/
theorem run_attempts_take {wd : ℤ} {nodename : Text} {id : ℤ} {n : ℕ} {rd : ℤ} {os : List Attempt}
    (ha : (attempts p wd nodename id (n + 1) rd).run h s = some (w, os, s')) :
    ∃ u s'', (attempts p wd nodename id n rd).run h s = some (u, os.take n, s'') := by
  induction n generalizing rd s w os with
  | zero => exact ⟨[], s, rfl⟩
  | succ n ih =>
    obtain ⟨a, r, s₁, v, ho, hv, rfl⟩ := run_bind_eq_some.1 ha
    obtain ⟨b, os, s₂, v', hos, hret, rfl⟩ := run_bind_eq_some.1 hv
    cases hret
    obtain ⟨u, s'', hu⟩ := ih hos
    exact ⟨_, s'', run_bind_eq_some.2
      ⟨a, r, s₁, u ++ [], ho, run_bind_eq_some.2 ⟨u, _, s'', [], hu, rfl, rfl⟩, rfl⟩⟩

theorem length_of_run_attempts {wd : ℤ} {nodename : Text} {id : ℤ} {n : ℕ} {rd : ℤ}
    {os : List Attempt} (ha : (attempts p wd nodename id n rd).run h s = some (w, os, s')) :
    os.length = n := by
  induction n generalizing rd s w os with
  | zero =>
    cases ha
    rfl
  | succ n ih =>
    obtain ⟨a, r, s₁, v, ho, hv, rfl⟩ := run_bind_eq_some.1 ha
    obtain ⟨b, os, s₂, v', hos, hret, rfl⟩ := run_bind_eq_some.1 hv
    cases hret
    rw [List.length_cons, ih hos]

/-- Before its retry loop the test makes no turn and does not give up. -/
theorem connSetup_plain {r : Text × ℤ × ℤ} (hr : (connSetup p).Returns w r) :
    ∀ e ∈ w, plain e.1 = true := by
  obtain ⟨nodename, u, rfl, hu⟩ := returns_call.1 hr
  obtain ⟨id, v, rfl, hv⟩ := returns_call.1 hu
  obtain ⟨a, wd, b, rfl, ha, hb⟩ := returns_bind.1 hv
  cases hb
  simpa [plain] using connRemote_plain ha

/-- **The test returns what `verdict` makes of the first two attempts**; it gives up, with the
number three, when both are soft, and has then made two turns. -/
theorem run_connTest (hans : Answers h) {nodename : Text} {id wd : ℤ} {s₁ s₂ : σ}
    {u v : List (Event Answer)} {os : List Attempt}
    (hsetup : (connSetup p).run h s = some (u, (nodename, id, wd), s₁)) (hwd : wd ≠ -1)
    (ha : (attempts p wd nodename id maxConnTries (-1)).run h s₁ = some (v, os, s₂)) :
    ∃ t s', (connTest p).run h s = some (t, verdict (os.take 2), s') ∧
      (∀ n, GivesUp t n ↔ n = 3 ∧ (os.take 2).all Attempt.soft = true) ∧
      ((os.take 2).all Attempt.soft = true → turnsIn t = 2) := by
  obtain ⟨v', s₂', ha'⟩ := run_attempts_take (n := 2) ha
  have hlen := length_of_run_attempts ha'
  obtain ⟨t, rd, s₃, ht, hgive, hturns⟩ := run_connTries hans (by decide) ha'
  obtain ⟨a, s₄, hhang⟩ := run_hangUp hans wd s₃
  obtain ⟨b, s₅, hread⟩ := run_hangUpRead (p := p) hans rd s₄
  have hu := connSetup_plain (returns_of_run hsetup)
  have hb : ∀ e ∈ a ++ (b ++ []), plain e.1 = true := by
    intro e he
    rw [List.append_nil, List.mem_append] at he
    rcases he with he | he
    · exact hangUp_plain (returns_of_run hhang) e he
    · exact hangUpRead_plain (returns_of_run hread) e he
  refine ⟨u ++ (t ++ (a ++ (b ++ []))), s₅, ?_, fun n => ?_, fun hsoft => ?_⟩
  · rw [connTest_eq]
    refine run_bind_eq_some.2 ⟨u, _, s₁, _, hsetup, ?_, rfl⟩
    rw [if_neg hwd]
    refine run_bind_eq_some.2 ⟨t, _, s₃, _, ht, ?_, rfl⟩
    refine run_bind_eq_some.2 ⟨a, (), s₄, _, hhang, ?_, rfl⟩
    exact run_bind_eq_some.2 ⟨b, (), s₅, [], hread, rfl, rfl⟩
  · rw [givesUp_append, givesUp_append, or_iff_right (not_givesUp_of_plain hu n),
      or_iff_left (not_givesUp_of_plain hb n), hgive]
    rfl
  · rw [turnsIn_append, turnsIn_append, turnsIn_of_plain hu, turnsIn_of_plain hb, hturns hsoft,
      hlen]

/-! ### What a test should return -/

/-- The echo comes in turn `n`, with no hard error before it. -/
def EchoAt (os : List Attempt) (n : ℕ) : Prop := os[n]? = some .echo ∧ .hardError ∉ os.take n

/-- Before the first echo, which no hard error prevents, an attempt has waited in vain for its
connection. -/
def CutShort (os : List Attempt) : Prop :=
  ∃ n, EchoAt os n ∧ .echo ∉ os.take n ∧ .unaccepted ∈ os.take n

theorem verdict_eq_one_of_echoAt {os : List Attempt} {n : ℕ} (hecho : EchoAt os n)
    (hacc : .unaccepted ∉ os.take n) : verdict os = 1 := by
  induction os generalizing n with
  | nil => cases hecho.1
  | cons o os ih =>
    cases n with
    | zero =>
      obtain rfl : o = .echo := by simpa using hecho.1
      rfl
    | succ n =>
      obtain ⟨hn, hhard⟩ := hecho
      rw [List.take_succ_cons, List.mem_cons, not_or] at hhard hacc
      have hrest : verdict os = 1 := ih ⟨by simpa using hn, hhard.2⟩ hacc.2
      cases o with
      | echo => rfl
      | timeout => exact hrest
      | garbled => exact hrest
      | hardError => exact absurd rfl hhard.1
      | unaccepted => exact absurd rfl hacc.1

/-- The first echo of the attempts up to `n`, if they hold one. -/
theorem exists_first_echo {os : List Attempt} {n : ℕ} (hecho : os[n]? = some .echo) :
    ∃ m ≤ n, os[m]? = some .echo ∧ .echo ∉ os.take m := by
  induction os generalizing n with
  | nil => cases hecho
  | cons o os ih =>
    by_cases ho : o = .echo
    · exact ⟨0, Nat.zero_le n, by simp [ho], by simp⟩
    · cases n with
      | zero => exact absurd (by simpa using hecho) ho
      | succ n =>
        obtain ⟨m, hle, hm, hfirst⟩ := ih (n := n) (by simpa using hecho)
        refine ⟨m + 1, Nat.succ_le_succ hle, by simpa using hm, ?_⟩
        rw [List.take_succ_cons, List.mem_cons, not_or]
        exact ⟨Ne.symm ho, hfirst⟩

theorem EchoAt.of_le {os : List Attempt} {m n : ℕ} (h : EchoAt os n) (hle : m ≤ n)
    (hm : os[m]? = some .echo) : EchoAt os m :=
  ⟨hm, fun hmem => h.2 ((List.take_subset_take_left os hle) hmem)⟩

/-- An attempt without a connection ends the loop. -/
theorem verdict_of_unaccepted {os : List Attempt} {n : ℕ} (hecho : .echo ∉ os.take n)
    (hacc : .unaccepted ∈ os.take n) : verdict os = 0 := by
  induction os generalizing n with
  | nil => rfl
  | cons o os ih =>
    cases n with
    | zero => cases hacc
    | succ n =>
      rw [List.take_succ_cons, List.mem_cons] at hecho hacc
      push Not at hecho
      cases o with
      | echo => exact absurd rfl hecho.1
      | timeout => exact ih hecho.2 (hacc.resolve_left (by simp))
      | garbled => exact ih hecho.2 (hacc.resolve_left (by simp))
      | hardError => rfl
      | unaccepted => rfl

/-- Run from `s`, with the attempts `os` in store, the test is a success if one of the first
`MAX_CONN_TRIES` is an echo with no hard error before it; and the line about giving up tells the
number of turns made. -/
def Retries (h : σ → (c : Call) → Option (Answer c × σ)) (p : Probe) (s : σ)
    (os : List Attempt) : Prop :=
  ∃ t rval s', (connTest p).run h s = some (t, rval, s') ∧
    ((∃ n < maxConnTries, EchoAt os n) → rval = 1) ∧ ∀ n, GivesUp t n → turnsIn t = n

/-- Attempts that end the test neither way are soft. -/
theorem all_soft {os : List Attempt} (hecho : .echo ∉ os) (hhard : .hardError ∉ os)
    (hacc : .unaccepted ∉ os) : os.all Attempt.soft = true := by
  refine List.all_eq_true.2 fun o ho => ?_
  cases o with
  | timeout => rfl
  | garbled => rfl
  | echo => exact absurd ho hecho
  | hardError => exact absurd ho hhard
  | unaccepted => exact absurd ho hacc

/-- **A test is tried as often as it should exactly if the first two turns are not both in vain**:
the loop gives up in place of the third turn, and counts it; **and if no attempt before the echo has
waited in vain for its connection**: the loop ends with it. -/
theorem retries_iff (hans : Answers h) {nodename : Text} {id wd : ℤ} {s₁ s₂ : σ}
    {u v : List (Event Answer)} {os : List Attempt}
    (hsetup : (connSetup p).run h s = some (u, (nodename, id, wd), s₁)) (hwd : wd ≠ -1)
    (ha : (attempts p wd nodename id maxConnTries (-1)).run h s₁ = some (v, os, s₂)) :
    Retries h p s os ↔ (os.take 2).all Attempt.soft = false ∧ ¬CutShort os := by
  obtain ⟨t, s', ht, hgive, hturns⟩ := run_connTest hans hsetup hwd ha
  have hlen : os.length = 3 := length_of_run_attempts ha
  constructor
  · rintro ⟨t', rval, s'', ht', hval, hcount⟩
    obtain ⟨rfl, rfl, -⟩ : t = t' ∧ verdict (os.take 2) = rval ∧ _ := by
      simpa using ht.symm.trans ht'
    refine ⟨Bool.not_eq_true _ ▸ fun hsoft => ?_, ?_⟩
    · have hthree := hcount 3 ((hgive 3).2 ⟨rfl, hsoft⟩)
      rw [hturns hsoft] at hthree
      cases hthree
    · rintro ⟨n, hecho, hfirst, hacc⟩
      have hn : n < 3 := by
        obtain ⟨hn, -⟩ := List.getElem?_eq_some_iff.1 hecho.1
        omega
      have htake : (os.take 2).take n = os.take n := by rw [List.take_take, min_eq_left (by omega)]
      have hzero : verdict (os.take 2) = 0 :=
        verdict_of_unaccepted (n := n) (by rwa [htake]) (by rwa [htake])
      have hone := hval ⟨n, hn, hecho⟩
      omega
  · rintro ⟨hsoft, hcut⟩
    refine ⟨t, _, s', ht, ?_, fun n hn => ?_⟩
    · rintro ⟨n, hn, hecho⟩
      obtain ⟨m, hle, hm, hfirst⟩ := exists_first_echo hecho.1
      have hat := hecho.of_le hle hm
      have hacc : .unaccepted ∉ os.take m := fun hacc => hcut ⟨m, hat, hfirst, hacc⟩
      by_cases hm2 : m < 2
      · have htake : (os.take 2).take m = os.take m := by
          rw [List.take_take, min_eq_left hm2.le]
        refine verdict_eq_one_of_echoAt (n := m) ⟨?_, by rw [htake]; exact hat.2⟩ (by rwa [htake])
        rw [List.getElem?_take_of_lt hm2]
        exact hm
      · -- the third turn is not made, but the first two are not both in vain
        obtain rfl : m = 2 := by
          have : maxConnTries = 3 := rfl
          omega
        rw [all_soft hfirst hat.2 hacc] at hsoft
        cases hsoft
    · rw [((hgive n).1 hn).2] at hsoft
      cases hsoft

/-- A peer that answers every attempt; the number of the attempt says whether what comes back is the
message. -/
def peer (echoes : ℕ → Bool) (k : ℕ) : (c : Call) → Option (Answer c × ℕ)
  | .uname => some (sampleNode, k)
  | .random => some (7, k)
  | .getpid => some (42, k + 1)
  | .getaddrinfo _ _ => some (.ok (), k)
  | .socket => some (.ok 5, k)
  | .connect _ => some (.ok (), k)
  | .poll _ _ => some (.ready [{ pollin := true }, { pollout := true }], k)
  | .accept _ => some (.ok (5 + k), k)
  | .read _ n => some (.ok ⟨(if echoes k then sampleMessage else List.replicate n 1).take n,
      List.length_take_le n _⟩, k)
  | .write _ _ => some (.ok (Fin.last _), k)
  | .shutdown _ => some ((), k)
  | .close _ => some ((), k)
  | .sleep _ => some ((), k)
  | .errlog _ => some ((), k)
  | .xerrlog _ => none

theorem answers_peer (echoes : ℕ → Bool) : Answers (peer echoes) := by
  intro k c hc
  cases c with
  | xerrlog m => exact absurd rfl (hc m)
  | _ => rfl

/-- The peer sends the message back in the second attempt. -/
theorem retries_second_attempt : Retries (peer (· = 2)) sample 0 [.garbled, .echo, .garbled] := by
  obtain ⟨u, hsetup⟩ := exists_trace (show ((connSetup sample).run (peer (· = 2)) 0).map (·.2) =
    some ((sampleNode, 7, 5), 0) by decide +kernel)
  obtain ⟨v, ha⟩ := exists_trace
    (show ((attempts sample 5 sampleNode 7 maxConnTries (-1)).run (peer (· = 2)) 0).map (·.2) =
      some ([.garbled, .echo, .garbled], 3) by decide +kernel)
  refine (retries_iff (answers_peer _) hsetup (by decide) ha).2 ⟨rfl, ?_⟩
  rintro ⟨n, -, -, hacc⟩
  have hall := List.mem_of_mem_take hacc
  simp at hall

/-- The peer would send the message back in the third attempt: the test fails after two, and logs
that it tried three times. -/
theorem not_retries_third_attempt :
    ((connSetup sample).run (peer (· = 3)) 0).map (·.2) = some ((sampleNode, 7, 5), 0) ∧
      ((attempts sample 5 sampleNode 7 maxConnTries (-1)).run (peer (· = 3)) 0).map (·.2.1) =
        some [.garbled, .garbled, .echo] ∧
      (∃ t, (connTest sample).run (peer (· = 3)) 0 = some (t, 0, 2) ∧ GivesUp t 3 ∧ turnsIn t = 2) ∧
      ¬Retries (peer (· = 3)) sample 0 [.garbled, .garbled, .echo] := by
  obtain ⟨t, ht⟩ := exists_trace (show ((connTest sample).run (peer (· = 3)) 0).map (·.2) =
    some (0, 2) by decide +kernel)
  have hturns : turnsIn t = 2 := by
    have h2 : ((connTest sample).run (peer (· = 3)) 0).map (fun r => turnsIn r.1) = some 2 := by
      decide +kernel
    simpa [ht] using h2
  have hgive : GivesUp t 3 := by
    have h3 : ((connTest sample).run (peer (· = 3)) 0).map
        (fun r => r.1.any fun e => e.1 = .errlog (.tried 3)) = some true := by decide +kernel
    rw [ht] at h3
    obtain ⟨⟨c, a⟩, hmem, he⟩ := List.any_eq_true.1 (Option.some.inj h3)
    obtain rfl : c = .errlog (.tried 3) := of_decide_eq_true he
    exact hmem
  refine ⟨by decide +kernel, by decide +kernel, ⟨t, ht, hgive, hturns⟩, ?_⟩
  rintro ⟨t', rval, s', ht', hecho, -⟩
  have hone : rval = 1 := hecho ⟨2, by decide, rfl, by decide⟩
  have hzero : rval = 0 := by
    rw [ht] at ht'
    cases ht'
    rfl
  omega

end Conn

end Autossh
