import Autossh.Conn.Script

/-!
# A signal during an exchange

A signal makes one call of `poll`, `read` or `write` fail with `EINTR`.  After a failed transfer
`conn_send_and_receive` goes back to `poll`, and the round that follows does what was left of this
one; after a failed `poll` it gives up.

* `writeLoop_hit`, `readLoop_hit` : an interrupted loop is left where it can be taken up again;
* `ioRound_hit` : what becomes of a round;
* `ioLoop_hit` : **a signal that interrupts no `poll` makes no difference to an exchange**, as long
  as there is a round to spare, unless a write of the same round was to fail.  In such a round the
  signal gives way to what can be read: the writes are left before the one that fails.
-/

namespace Autossh

namespace Conn

open Prog

variable {host : Host} {w w' : World} {t : List (Event Answer)} {n : ℕ} {c : Call}

/-- `poll`, of the calls a signal can interrupt. -/
def isPoll : Call → Bool
  | .poll _ _ => true
  | _ => false

/-- In the round of the `n`th call, where there is something to read, a write fails: the call comes
after the `poll` of the round, and it is one of the writes up to the one that fails. -/
def WriteFails (t : List (Event Answer)) (n : ℕ) : Prop :=
  ∃ pre fds net revents mid fd b e post,
    t = pre ++ ⟨.poll fds net, .ready revents⟩ :: (mid ++ ⟨.write fd b, .error e⟩ :: post) ∧
    (Ends.revRd revents).readable = true ∧ (∀ ev ∈ mid, isPoll ev.1 = false) ∧
    (calls pre).length < n ∧ n ≤ (calls pre).length + (calls mid).length + 1

theorem WriteFails.append_left (hf : WriteFails t n) (a : List (Event Answer)) :
    WriteFails (a ++ t) ((calls a).length + n) := by
  obtain ⟨pre, fds, net, revents, mid, fd, b, e, post, rfl, hin, hmid, hlt, hle⟩ := hf
  refine ⟨a ++ pre, fds, net, revents, mid, fd, b, e, post, ?_, hin, hmid, ?_, ?_⟩
  · rw [List.append_assoc]
  · rw [calls_append, List.length_append]
    omega
  · rw [calls_append, List.length_append]
    omega

theorem WriteFails.append_right (hf : WriteFails t n) (a : List (Event Answer)) :
    WriteFails (t ++ a) n := by
  obtain ⟨pre, fds, net, revents, mid, fd, b, e, post, rfl, hin, hmid, hlt, hle⟩ := hf
  exact ⟨pre, fds, net, revents, mid, fd, b, e, post ++ a, by simp, hin, hmid, hlt, hle⟩

/-! ### The loops around `write` and `read` -/

/-- More turns than bytes make no difference. -/
theorem writeLoop_fuel {fd : ℤ} {m k : ℕ} {wp : List UInt8} (hm : wp.length ≤ m)
    (hk : wp.length ≤ k) : writeLoop fd m wp = writeLoop fd k wp := by
  induction m generalizing k wp with
  | zero =>
    obtain rfl := List.eq_nil_of_length_eq_zero (Nat.le_zero.1 hm)
    cases k <;> rfl
  | succ m ih =>
    by_cases hwp : wp = []
    · subst hwp
      cases k <;> rfl
    · obtain ⟨k, rfl⟩ := Nat.exists_eq_succ_of_ne_zero (n := k)
        (by have := List.length_pos_of_ne_nil hwp; omega)
      simp only [writeLoop]
      rw [if_neg hwp, if_neg hwp]
      refine congrArg (Prog.call (Call.write fd wp)) (funext fun x => ?_)
      cases x with
      | error e => rfl
      | ok x =>
        dsimp only
        split_ifs with hx
        · rfl
        · have hlen : (wp.drop x.val).length = wp.length - x.val := List.length_drop
          exact ih (by omega) (by omega)

/-- The same for reads. -/
theorem readLoop_fuel {fd : ℤ} {m k : ℕ} {x : Xfer} (hm : x.rleft ≤ m) (hk : x.rleft ≤ k) :
    readLoop fd m x = readLoop fd k x := by
  induction m generalizing k x with
  | zero =>
    have hx : x.rleft = 0 := Nat.le_zero.1 hm
    cases k with
    | zero => rfl
    | succ k => rw [readLoop, readLoop, if_pos hx]
  | succ m ih =>
    by_cases hx : x.rleft = 0
    · cases k with
      | zero => rw [readLoop, readLoop, if_pos hx]
      | succ k => rw [readLoop, readLoop, if_pos hx, if_pos hx]
    · obtain ⟨k, rfl⟩ := Nat.exists_eq_succ_of_ne_zero (n := k) (by omega)
      simp only [readLoop]
      rw [if_neg hx, if_neg hx]
      refine congrArg (Prog.call (Call.read fd x.rleft)) (funext fun r => ?_)
      cases r with
      | error e => rfl
      | ok b =>
        dsimp only
        split_ifs with hb
        · rfl
        · have hlen := List.length_pos_of_ne_nil hb
          have hleft : (x.store b.val).rleft = x.rleft - b.val.length := rfl
          exact ih (by omega) (by omega)

/-- The last thing the trace has is a write that fails. -/
def EndsInFailure (t : List (Event Answer)) : Prop :=
  ∃ mid fd b e, t = mid ++ [⟨.write fd b, .error e⟩]

/-- A writing loop of a script ends with nothing unsent, or with a write that fails. -/
theorem run_writeLoop {fd : ℤ} {m : ℕ} {wp : List UInt8} {r : Option (List UInt8)}
    (hm : wp.length ≤ m) (hr : (writeLoop fd m wp).run (answer host) w = some (t, r, w')) :
    (r = some [] ∨ r = none ∧ EndsInFailure t) ∧ ∃ ws, w' = w.setWrites ws := by
  induction m generalizing wp w t with
  | zero =>
    obtain rfl := List.eq_nil_of_length_eq_zero (Nat.le_zero.1 hm)
    cases hr
    exact ⟨.inl rfl, _, rfl⟩
  | succ m ih =>
    simp only [writeLoop] at hr
    split_ifs at hr with hwp
    · subst hwp
      cases hr
      exact ⟨.inl rfl, _, rfl⟩
    · obtain ⟨x, w₁, u, hx, hk, rfl⟩ := run_call_eq_some.1 hr
      obtain ⟨y, rest, -, rfl, rfl⟩ := answer_write.1 hx
      cases y with
      | error e =>
        have he : again e.val = false := e.property
        simp only [writeAnswer, he] at hk
        cases hk
        exact ⟨.inr ⟨rfl, [], fd, wp, e.val, rfl⟩, rest, rfl⟩
      | ok k =>
        simp only [writeAnswer] at hk
        split_ifs at hk with h0
        · cases hk
          exact ⟨.inl rfl, rest, rfl⟩
        · obtain ⟨hres, ws, hws⟩ := ih (by rw [List.length_drop]; omega) hk
          refine ⟨hres.imp_right ?_, ws, hws⟩
          rintro ⟨hnone, mid, fd', b, e, rfl⟩
          exact ⟨hnone, _ :: mid, fd', b, e, rfl⟩

/-- A write that is interrupted leaves the loop where it can be taken up again. -/
theorem writeLoop_hit {fd : ℤ} {m : ℕ} {wp : List UInt8} {r : Option (List UInt8)}
    (hm : wp.length ≤ m) (hr : (writeLoop fd m wp).run (answer host) w = some (t, r, w'))
    (hn : n < (calls t).length) :
    ∃ u wp' ws v, (writeLoop fd m wp).run (interrupted host) (w, .pending n) =
        some (u, some wp', w.setWrites ws, .delivered) ∧ wp' ≠ [] ∧
      (writeLoop fd wp'.length wp').run (answer host) (w.setWrites ws) = some (v, r, w') := by
  induction m generalizing wp w t n with
  | zero =>
    cases hr
    cases hn
  | succ m ih =>
    have hstart := hr
    simp only [writeLoop] at hr ⊢
    split_ifs at hr ⊢ with hwp
    · cases hr
      cases hn
    · obtain ⟨x, w₁, u, hx, hk, rfl⟩ := run_call_eq_some.1 hr
      rw [calls_cons_of_pos rfl, List.length_cons] at hn
      cases n with
      | zero =>
        refine ⟨_, wp, w.cur.writes, ⟨.write fd wp, x⟩ :: u,
          run_call_eq_some.2 ⟨.error .eintr, _, _, rfl, rfl, rfl⟩, hwp, ?_⟩
        rw [writeLoop_fuel le_rfl hm]
        exact hstart
      | succ n =>
        have hx' := interrupted_pending_succ (n := n) rfl hx
        obtain ⟨y, rest, -, rfl, rfl⟩ := answer_write.1 hx
        cases y with
        | error e =>
          have he : again e.val = false := e.property
          simp only [writeAnswer, he] at hk
          cases hk
          cases Nat.lt_of_succ_lt_succ hn
        | ok k =>
          simp only [writeAnswer] at hk
          split_ifs at hk with h0
          · cases hk
            cases Nat.lt_of_succ_lt_succ hn
          · obtain ⟨u', wp', ws, v, hrun, hwp', hresume⟩ :=
              ih (by rw [List.length_drop]; omega) hk (Nat.lt_of_succ_lt_succ hn)
            refine ⟨_, wp', ws, v, run_call_eq_some.2 ⟨_, _, u', hx', ?_, rfl⟩, hwp', hresume⟩
            simp only [writeAnswer]
            rw [if_neg h0]
            exact hrun

/-- A reading loop of a script ends with nothing left to read, or with a read that fails. -/
theorem run_readLoop {fd : ℤ} {m : ℕ} {x : Xfer} {r : Option Xfer} (hm : x.rleft ≤ m)
    (hr : (readLoop fd m x).run (answer host) w = some (t, r, w')) :
    (∀ y, r = some y → y.rleft = 0) ∧ ∃ rs, w' = w.setReads rs := by
  induction m generalizing x w t with
  | zero =>
    cases hr
    refine ⟨fun y hy => ?_, _, rfl⟩
    cases hy
    exact Nat.le_zero.1 hm
  | succ m ih =>
    simp only [readLoop] at hr
    split_ifs at hr with hx0
    · cases hr
      refine ⟨fun y hy => ?_, _, rfl⟩
      cases hy
      exact hx0
    · obtain ⟨a, w₁, u, ha, hk, rfl⟩ := run_call_eq_some.1 hr
      obtain ⟨y, rest, -, rfl, rfl⟩ := answer_read.1 ha
      cases y with
      | error e =>
        have he : again e.val = false := e.property
        simp only [readAnswer, he] at hk
        cases hk
        exact ⟨fun y hy => (by cases hy), rest, rfl⟩
      | ok b =>
        simp only [readAnswer] at hk
        split_ifs at hk with h0
        · cases hk
          refine ⟨fun y hy => ?_, rest, rfl⟩
          cases hy
          rfl
        · have hlen := List.length_pos_of_ne_nil h0
          obtain ⟨hres, rs, hrs⟩ := ih (by simp only [Xfer.store]; omega) hk
          exact ⟨hres, rs, hrs⟩

/-- A read that is interrupted leaves the loop where it can be taken up again. -/
theorem readLoop_hit {fd : ℤ} {m : ℕ} {x : Xfer} {r : Option Xfer} (hm : x.rleft ≤ m)
    (hr : (readLoop fd m x).run (answer host) w = some (t, r, w')) (hn : n < (calls t).length) :
    ∃ u x' rs v, (readLoop fd m x).run (interrupted host) (w, .pending n) =
        some (u, some x', w.setReads rs, .delivered) ∧ x'.rleft ≠ 0 ∧ x'.wp = x.wp ∧
      (readLoop fd x'.rleft x').run (answer host) (w.setReads rs) = some (v, r, w') := by
  induction m generalizing x w t n with
  | zero =>
    cases hr
    cases hn
  | succ m ih =>
    have hstart := hr
    simp only [readLoop] at hr ⊢
    split_ifs at hr ⊢ with hx0
    · cases hr
      cases hn
    · obtain ⟨a, w₁, u, ha, hk, rfl⟩ := run_call_eq_some.1 hr
      rw [calls_cons_of_pos rfl, List.length_cons] at hn
      cases n with
      | zero =>
        refine ⟨_, x, w.cur.reads, ⟨.read fd x.rleft, a⟩ :: u,
          run_call_eq_some.2 ⟨.error .eintr, _, _, rfl, rfl, rfl⟩, hx0, rfl, ?_⟩
        rw [readLoop_fuel le_rfl hm]
        exact hstart
      | succ n =>
        have ha' := interrupted_pending_succ (n := n) rfl ha
        obtain ⟨y, rest, -, rfl, rfl⟩ := answer_read.1 ha
        cases y with
        | error e =>
          have he : again e.val = false := e.property
          simp only [readAnswer, he] at hk
          cases hk
          cases Nat.lt_of_succ_lt_succ hn
        | ok b =>
          simp only [readAnswer] at hk
          split_ifs at hk with h0
          · cases hk
            cases Nat.lt_of_succ_lt_succ hn
          · have hlen := List.length_pos_of_ne_nil h0
            obtain ⟨u', x', rs, v, hrun, hx', hwp, hresume⟩ :=
              ih (by simp only [Xfer.store]; omega) hk (Nat.lt_of_succ_lt_succ hn)
            refine ⟨_, x', rs, v, run_call_eq_some.2 ⟨_, _, u', ha', ?_, rfl⟩, hx', hwp, hresume⟩
            simp only [readAnswer]
            rw [if_neg h0]
            exact hrun

/-- What is unsent, and what writes are to come, makes no difference to a reading loop. -/
theorem readLoop_frame {fd : ℤ} {m : ℕ} {x : Xfer} {r : Option Xfer} (wp : List UInt8)
    (ws : List (Except Hard ℕ)) (hr : (readLoop fd m x).run (answer host) w = some (t, r, w')) :
    (readLoop fd m { x with wp }).run (answer host) (w.setWrites ws) =
      some (t, r.map fun y => { y with wp }, w'.setWrites ws) := by
  induction m generalizing x w t with
  | zero =>
    cases hr
    rfl
  | succ m ih =>
    simp only [readLoop] at hr ⊢
    split_ifs at hr ⊢ with hx0
    · cases hr
      rfl
    · obtain ⟨a, w₁, u, ha, hk, rfl⟩ := run_call_eq_some.1 hr
      obtain ⟨y, rest, hreads, rfl, rfl⟩ := answer_read.1 ha
      refine run_call_eq_some.2 ⟨readAnswer x.rleft y, (w.setWrites ws).setReads rest, u,
        answer_read.2 ⟨y, rest, hreads, rfl, rfl⟩, ?_, rfl⟩
      cases y with
      | error e =>
        have he : again e.val = false := e.property
        simp only [readAnswer, he] at hk ⊢
        cases hk
        rfl
      | ok b =>
        simp only [readAnswer] at hk ⊢
        split_ifs at hk ⊢ with h0
        · cases hk
          rfl
        · exact ih hk

theorem readLoop_undisturbed {fd : ℤ} {m : ℕ} {x : Xfer} {r : Option Xfer}
    (hr : (readLoop fd m x).run (answer host) w = some (t, r, w')) :
    ∀ ev ∈ t, undisturbed ev.1 = true :=
  Steps.calls (P := fun c => undisturbed c = true) (returns_of_run hr)
    (keeps_readLoop (fun _ => allows_only rfl) m x)

/-! ### The two halves of a round -/

variable {e : Ends} {revents : List Revents} {x : Xfer} {o : Option Xfer}

theorem run_sendPart (hr : (sendPart e revents x).run (answer host) w = some (t, o, w')) :
    (∃ ws, w' = w.setWrites ws) ∧
      ((∃ wp, o = some { x with wp } ∧ ¬(wp ≠ [] ∧ (e.revWr revents).pollout)) ∨
        o = none ∧ EndsInFailure t) := by
  unfold sendPart at hr
  split_ifs at hr with hout
  · obtain ⟨u, r, w₁, v, hloop, hret, rfl⟩ := run_bind_eq_some.1 hr
    cases hret
    obtain ⟨hres, hws⟩ := run_writeLoop le_rfl hloop
    refine ⟨hws, ?_⟩
    rcases hres with rfl | ⟨rfl, hfail⟩
    · exact .inl ⟨[], rfl, fun h => h.1 rfl⟩
    · rw [List.append_nil]
      exact .inr ⟨rfl, hfail⟩
  · cases hr
    exact ⟨⟨_, rfl⟩, .inl ⟨x.wp, rfl, hout⟩⟩

theorem sendPart_hit (hr : (sendPart e revents x).run (answer host) w = some (t, o, w'))
    (hn : n < (calls t).length) :
    ∃ u wp ws v, (sendPart e revents x).run (interrupted host) (w, .pending n) =
        some (u, some { x with wp }, w.setWrites ws, .delivered) ∧
      (sendPart e revents { x with wp }).run (answer host) (w.setWrites ws) = some (v, o, w') := by
  unfold sendPart at hr ⊢
  split_ifs at hr with hout
  · obtain ⟨a, r, w₁, b, hloop, hret, rfl⟩ := run_bind_eq_some.1 hr
    cases hret
    rw [List.append_nil] at hn
    obtain ⟨u, wp, ws, v, hrun, hwp, hresume⟩ := writeLoop_hit le_rfl hloop hn
    refine ⟨u ++ [], wp, ws, v ++ [], ?_, ?_⟩
    · rw [if_pos hout]
      exact run_bind_eq_some.2 ⟨u, _, _, [], hrun, rfl, rfl⟩
    · rw [if_pos ⟨hwp, hout.2⟩]
      exact run_bind_eq_some.2 ⟨v, _, _, [], hresume, rfl, rfl⟩
  · cases hr
    cases hn

theorem receivePart_hit (hr : (receivePart e revents x).run (answer host) w = some (t, o, w'))
    (hn : n < (calls t).length) :
    ∃ u x' rs v, (receivePart e revents x).run (interrupted host) (w, .pending n) =
        some (u, some x', w.setReads rs, .delivered) ∧ x'.rleft ≠ 0 ∧ x'.wp = x.wp ∧
      (receivePart e revents x').run (answer host) (w.setReads rs) = some (v, o, w') := by
  unfold receivePart at hr ⊢
  split_ifs at hr ⊢ with hin
  · exact readLoop_hit le_rfl hr hn
  · cases hr
    cases hn

/-! ### A round -/

/-- What the exchange comes to, if a round has decided it. -/
def settled : Except Fault Xfer → Option (Except Fault (List UInt8))
  | .error f => some (.error f)
  | .ok x => if x.rleft = 0 then some (.ok x.rbuf) else none

variable {net : ℤ} {r : Except Fault Xfer}

theorem run_receivePart (hr : (receivePart e revents x).run (answer host) w = some (t, o, w')) :
    (∃ rs, w' = w.setReads rs) ∧
      ((Ends.revRd revents).readable = true → ∀ y, o = some y → y.rleft = 0) := by
  unfold receivePart at hr
  split_ifs at hr with hin
  · exact ⟨(run_readLoop le_rfl hr).2, fun _ => (run_readLoop le_rfl hr).1⟩
  · cases hr
    exact ⟨⟨_, rfl⟩, fun h => absurd h hin⟩

/-- Once a write has been interrupted, what can be read is read all the same. -/
theorem receivePart_after_hit (wp : List UInt8) (ws : List (Except Hard ℕ))
    (hr : (receivePart e revents x).run (answer host) w = some (t, o, w')) :
    (receivePart e revents { x with wp }).run (interrupted host) (w.setWrites ws, .delivered) =
      some (t, o.map fun y => { y with wp }, w'.setWrites ws, .delivered) := by
  unfold receivePart at hr ⊢
  split_ifs at hr ⊢ with hin
  · exact run_delivered (readLoop_frame wp ws hr) (readLoop_undisturbed hr)
  · cases hr
    rfl

theorem isPoll_of_sendPart (hr : (sendPart e revents x).run (answer host) w = some (t, o, w')) :
    ∀ ev ∈ t, isPoll ev.1 = false := by
  have hkeeps : Keeps (only fun c => isPoll c = false) (fun _ => True) (sendPart e revents x) :=
    keeps_ite (fun _ => keeps_bind (keeps_writeLoop (fun _ => allows_only rfl) _ _)
      fun _ => keeps_ret _) fun _ => keeps_ret _
  exact Steps.calls (returns_of_run hr) hkeeps

theorem isPoll_of_receivePart
    (hr : (receivePart e revents x).run (answer host) w = some (t, o, w')) :
    ∀ ev ∈ t, isPoll ev.1 = false := by
  have hkeeps : Keeps (only fun c => isPoll c = false) (fun _ => True) (receivePart e revents x) :=
    keeps_ite (fun _ => keeps_readLoop (fun _ => allows_only rfl) _ _) fun _ => keeps_ret _
  exact Steps.calls (returns_of_run hr) hkeeps

theorem isPoll_of_calls (ht : ∀ ev ∈ t, isPoll ev.1 = false) (hn : (calls t)[n]? = some c) :
    isPoll c = false := by
  obtain ⟨ev, hev, rfl⟩ := List.mem_map.1 (List.mem_of_mem_filter (List.mem_of_getElem? hn))
  exact ht ev hev

/-- A round in which `poll` reports something and no write fails. -/
theorem run_ioRound {σ : Type} {h : σ → (c : Call) → Option (Answer c × σ)} {s s₁ s₂ s₃ : σ}
    {a b : List (Event Answer)} {y : Xfer}
    (hpoll : h s (.poll (e.pollfds (x.wp ≠ [])) net) = some (.ready revents, s₁))
    (hsend : (sendPart e revents x).run h s₁ = some (a, some y, s₂))
    (hrecv : (receivePart e revents y).run h s₂ = some (b, o, s₃)) :
    ∃ t, (ioRound net e x).run h s = some (t, o.elim (.error .error) .ok, s₃) := by
  refine ⟨_, run_call_eq_some.2 ⟨_, s₁, a ++ (b ++ []), hpoll, ?_, rfl⟩⟩
  refine run_bind_eq_some.2 ⟨a, some y, s₂, b ++ [], hsend, ?_, rfl⟩
  refine run_bind_eq_some.2 ⟨b, o, s₃, [], hrecv, ?_, rfl⟩
  cases o <;> rfl

/-- A round in which a write fails. -/
theorem run_ioRound_fails {σ : Type} {h : σ → (c : Call) → Option (Answer c × σ)} {s s₁ s₂ : σ}
    {a : List (Event Answer)}
    (hpoll : h s (.poll (e.pollfds (x.wp ≠ [])) net) = some (.ready revents, s₁))
    (hsend : (sendPart e revents x).run h s₁ = some (a, none, s₂)) :
    ∃ t, (ioRound net e x).run h s = some (t, .error .error, s₂) :=
  ⟨_, run_call_eq_some.2 ⟨_, s₁, a ++ [], hpoll,
    run_bind_eq_some.2 ⟨a, none, s₂, [], hsend, rfl, rfl⟩, rfl⟩⟩

/-- What becomes of a round if the signal comes in it. -/
inductive RoundHit (host : Host) (net : ℤ) (e : Ends) (c : Call) (r r' : Except Fault Xfer)
    (w₁ w' : World) : Prop
  /-- `poll` does not try again. -/
  | poll (hc : isPoll c = true) (hr : r' = .error .error)
  /-- The round is left early, and the next one makes up for it. -/
  | resume (hc : isPoll c = false) (x : Xfer) (v : List (Event Answer)) (hr : r' = .ok x)
    (hx : x.rleft ≠ 0) (hrun : (ioRound net e x).run (answer host) w₁.unpolled = some (v, r, w'))
  /-- What was to be read has been read. -/
  | done (hc : isPoll c = false) (z : Except Fault (List UInt8)) (hr' : settled r' = some z)
    (hr : settled r = some z)

section Ready

variable {rest : List PollRes} {wp : List UInt8} {ws : List (Except Hard ℕ)}
variable {a b : List (Event Answer)}
  (hpolls : w.cur.polls = .ready revents :: rest)
  (hsend : (sendPart e revents x).run (answer host) (w.polled (.ready revents) rest) =
    some (a, some { x with wp }, (w.polled (.ready revents) rest).setWrites ws))
  (hrecv : (receivePart e revents { x with wp }).run (answer host)
    ((w.polled (.ready revents) rest).setWrites ws) = some (b, o, w'))

include hpolls hsend hrecv

/-- A write is interrupted.  What can be read is read in the same round; otherwise the next round
makes up for it. -/
theorem ioRound_write_hit (hx : x.rleft ≠ 0) (hn : (calls a)[n]? = some c) :
    ∃ u r' w₁, (ioRound net e x).run (interrupted host) (w, .pending (n + 1)) =
        some (u, r', w₁, .delivered) ∧ w₁.later = w.later ∧
      RoundHit host net e c (o.elim (.error .error) .ok) r' w₁ w' := by
  have hc := isPoll_of_calls (isPoll_of_sendPart hsend) hn
  obtain ⟨u, wp', ws', v, hrun, hresume⟩ := sendPart_hit hsend (List.getElem?_eq_some_iff.1 hn).1
  have hpoll : interrupted host (w, .pending (n + 1)) (.poll (e.pollfds (x.wp ≠ [])) net) =
      some (.ready revents, _, .pending n) :=
    interrupted_pending_succ rfl (answer_poll.2 ⟨rest, hpolls, rfl⟩)
  have hrecv' := receivePart_after_hit wp' ws' hrecv
  obtain ⟨u', hround⟩ := run_ioRound hpoll hrun hrecv'
  obtain ⟨v', hagain⟩ : ∃ v', (ioRound net e { x with wp := wp' }).run (answer host)
      ((w.polled (.ready revents) rest).setWrites ws').unpolled =
        some (v', o.elim (.error .error) .ok, w') :=
    run_ioRound (answer_poll.2 ⟨rest, rfl, rfl⟩) hresume hrecv
  obtain ⟨⟨rs, rfl⟩, hleft⟩ := run_receivePart hrecv
  refine ⟨u', _, _, hround, rfl, ?_⟩
  by_cases hin : (Ends.revRd revents).readable = true
  · cases o with
    | none => exact .done hc _ rfl rfl
    | some y =>
      have hy := hleft hin y rfl
      exact .done hc (.ok y.rbuf) (if_pos hy) (if_pos hy)
  · rw [receivePart, if_neg hin] at hrecv
    cases hrecv
    exact .resume hc _ v' rfl hx hagain

/-- A read is interrupted.  There is nothing to write in the next round, which makes up for it. -/
theorem ioRound_read_hit (hwp : ¬(wp ≠ [] ∧ (e.revWr revents).pollout))
    (hn : (calls b)[n]? = some c) :
    ∃ u r' w₁, (ioRound net e x).run (interrupted host)
        (w, .pending ((calls a).length + n + 1)) = some (u, r', w₁, .delivered) ∧
      w₁.later = w.later ∧ RoundHit host net e c (o.elim (.error .error) .ok) r' w₁ w' := by
  have hc := isPoll_of_calls (isPoll_of_receivePart hrecv) hn
  obtain ⟨u, x', rs, v, hrun, hx', hwp', hresume⟩ :=
    receivePart_hit hrecv (List.getElem?_eq_some_iff.1 hn).1
  have hskip : (sendPart e revents x').run (answer host)
      (((w.polled (.ready revents) rest).setWrites ws).setReads rs) =
        some ([], some x', ((w.polled (.ready revents) rest).setWrites ws).setReads rs) := by
    rw [sendPart, hwp', if_neg hwp]
    rfl
  have hpoll : interrupted host (w, .pending ((calls a).length + n + 1))
      (.poll (e.pollfds (x.wp ≠ [])) net) =
        some (.ready revents, _, .pending ((calls a).length + n)) :=
    interrupted_pending_succ rfl (answer_poll.2 ⟨rest, hpolls, rfl⟩)
  obtain ⟨u', hround⟩ := run_ioRound hpoll (run_pending hsend) hrun
  obtain ⟨v', hagain⟩ : ∃ v', (ioRound net e x').run (answer host)
      (((w.polled (.ready revents) rest).setWrites ws).setReads rs).unpolled =
        some (v', o.elim (.error .error) .ok, w') :=
    run_ioRound (answer_poll.2 ⟨rest, rfl, rfl⟩) hskip hresume
  exact ⟨u', _, _, hround, rfl, .resume hc x' v' rfl hx' hagain⟩

end Ready

/-- A write is interrupted before one that fails, and there is nothing to read.  The next round
fails in its place. -/
theorem ioRound_fails_hit {rest : List PollRes} {a : List (Event Answer)}
    (hpolls : w.cur.polls = .ready revents :: rest)
    (hsend : (sendPart e revents x).run (answer host) (w.polled (.ready revents) rest) =
      some (a, none, w'))
    (hin : ¬(Ends.revRd revents).readable = true) (hx : x.rleft ≠ 0)
    (hn : (calls a)[n]? = some c) :
    ∃ u r' w₁, (ioRound net e x).run (interrupted host) (w, .pending (n + 1)) =
        some (u, r', w₁, .delivered) ∧ w₁.later = w.later ∧
      RoundHit host net e c (.error .error) r' w₁ w' := by
  have hc := isPoll_of_calls (isPoll_of_sendPart hsend) hn
  obtain ⟨u, wp, ws, v, hrun, hresume⟩ := sendPart_hit hsend (List.getElem?_eq_some_iff.1 hn).1
  have hpoll : interrupted host (w, .pending (n + 1)) (.poll (e.pollfds (x.wp ≠ [])) net) =
      some (.ready revents, _, .pending n) :=
    interrupted_pending_succ rfl (answer_poll.2 ⟨rest, hpolls, rfl⟩)
  have hrecv : ∀ st, (receivePart e revents { x with wp }).run (interrupted host) st =
      some ([], some { x with wp }, st) := by
    intro st
    rw [receivePart, if_neg hin]
    rfl
  obtain ⟨u', hround⟩ := run_ioRound hpoll hrun (hrecv _)
  obtain ⟨v', hagain⟩ : ∃ v', (ioRound net e { x with wp }).run (answer host)
      ((w.polled (.ready revents) rest).setWrites ws).unpolled = some (v', .error .error, w') :=
    run_ioRound_fails (answer_poll.2 ⟨rest, rfl, rfl⟩) hresume
  exact ⟨u', _, _, hround, rfl, .resume hc _ v' rfl hx hagain⟩

/-- How a round goes in the world of the scripts, once `poll` has given `res`. -/
inductive RoundRun (host : Host) (e : Ends) (x : Xfer) (w : World) (res : PollRes) :
    List (Event Answer) → Except Fault Xfer → World → Prop
  /-- There is nothing to do, or `poll` has failed. -/
  | poll (f : Fault) : RoundRun host e x w res [] (.error f) w
  /-- A write fails. -/
  | fails (revents : List Revents) (a : List (Event Answer)) (ws : List (Except Hard ℕ))
    (hres : res = .ready revents) (hfail : EndsInFailure a)
    (hsend : (sendPart e revents x).run (answer host) w = some (a, none, w.setWrites ws)) :
    RoundRun host e x w res a (.error .error) (w.setWrites ws)
  /-- What is ready is written and read. -/
  | through (revents : List Revents) (a b : List (Event Answer)) (wp : List UInt8)
    (ws : List (Except Hard ℕ)) (o : Option Xfer) (w' : World) (hres : res = .ready revents)
    (hwp : ¬(wp ≠ [] ∧ (e.revWr revents).pollout))
    (hsend : (sendPart e revents x).run (answer host) w =
      some (a, some { x with wp }, w.setWrites ws))
    (hrecv : (receivePart e revents { x with wp }).run (answer host) (w.setWrites ws) =
      some (b, o, w')) :
    RoundRun host e x w res (a ++ b) (o.elim (.error .error) .ok) w'

theorem ioRound_run (hr : (ioRound net e x).run (answer host) w = some (t, r, w')) :
    ∃ res rest u, w.cur.polls = res :: rest ∧
      t = ⟨.poll (e.pollfds (x.wp ≠ [])) net, res⟩ :: u ∧
      RoundRun host e x (w.polled res rest) res u r w' := by
  obtain ⟨res, w₁, u, hpoll, hk, rfl⟩ := run_call_eq_some.1 hr
  obtain ⟨rest, hpolls, rfl⟩ := answer_poll.1 hpoll
  refine ⟨res, rest, u, hpolls, rfl, ?_⟩
  cases res with
  | timeout =>
    cases hk
    exact .poll _
  | error err =>
    cases hk
    exact .poll _
  | ready revents =>
    obtain ⟨a, o, w₂, b, hsend, hrest, rfl⟩ := run_bind_eq_some.1 hk
    obtain ⟨⟨ws, rfl⟩, ⟨wp, rfl, hwp⟩ | ⟨rfl, hfail⟩⟩ := run_sendPart hsend
    · obtain ⟨b, o, w₃, d, hrecv, hret, rfl⟩ := run_bind_eq_some.1 hrest
      obtain ⟨rfl, rfl, rfl⟩ : r = o.elim (.error .error) .ok ∧ d = [] ∧ w₃ = w' := by
        cases o <;> cases hret <;> exact ⟨rfl, rfl, rfl⟩
      rw [List.append_nil]
      exact .through revents a b wp ws o w₃ rfl hwp hsend hrecv
    · cases hrest
      rw [List.append_nil]
      exact .fails revents a ws rfl hfail hsend

theorem ioRound_hit (hx : x.rleft ≠ 0)
    (hr : (ioRound net e x).run (answer host) w = some (t, r, w')) (hn : (calls t)[n]? = some c) :
    (isPoll c = false ∧ r = .error .error ∧ WriteFails t n) ∨
      ∃ u r' w₁, (ioRound net e x).run (interrupted host) (w, .pending n) =
          some (u, r', w₁, .delivered) ∧ w₁.later = w.later ∧
        RoundHit host net e c r r' w₁ w' := by
  obtain ⟨res, rest, u, hpolls, rfl, hround⟩ := ioRound_run hr
  rw [calls_cons_of_pos rfl] at hn
  cases n with
  | zero =>
    obtain rfl := Option.some.inj hn
    exact .inr ⟨_, .error .error, w, run_call_eq_some.2 ⟨.error .eintr, _, [], rfl, rfl, rfl⟩, rfl,
      .poll rfl rfl⟩
  | succ n =>
    rw [List.getElem?_cons_succ] at hn
    cases hround with
    | poll f => cases hn
    | fails revents a ws hres hfail hsend =>
      subst hres
      by_cases hin : (Ends.revRd revents).readable = true
      · have hpoll := isPoll_of_sendPart hsend
        have hlen := (List.getElem?_eq_some_iff.1 hn).1
        refine .inl ⟨isPoll_of_calls hpoll hn, rfl, ?_⟩
        obtain ⟨mid, fd, b, err, rfl⟩ := hfail
        rw [calls_append, List.length_append] at hlen
        exact ⟨[], _, _, revents, mid, fd, b, err, [], rfl, hin,
          fun ev hev => hpoll ev (List.mem_append_left _ hev), Nat.succ_pos n,
          (Nat.zero_add (calls mid).length).symm ▸ hlen⟩
      · exact .inr (ioRound_fails_hit hpolls hsend hin hx hn)
    | through revents a b wp ws o w₃ hres hwp hsend hrecv =>
      subst hres
      rw [calls_append] at hn
      right
      by_cases hlen : n < (calls a).length
      · rw [List.getElem?_append_left hlen] at hn
        exact ioRound_write_hit hpolls hsend hrecv hx hn
      · rw [List.getElem?_append_right (Nat.le_of_not_lt hlen)] at hn
        obtain ⟨k, rfl⟩ := Nat.exists_eq_add_of_le (Nat.le_of_not_lt hlen)
        rw [Nat.add_sub_cancel_left] at hn
        exact ioRound_read_hit hpolls hsend hrecv hwp hn

/-! ### The exchange -/

section Env

variable {σ : Type} {h : σ → (c : Call) → Option (Answer c × σ)} {s s₁ s₂ : σ} {left : ℕ}
  {a b : List (Event Answer)} {z : Except Fault (List UInt8)}

theorem run_ioLoop_error (hx : x.rleft ≠ 0) {f : Fault}
    (hround : (ioRound net e x).run h s = some (a, .error f, s₁)) :
    (ioLoop net e (left + 1) x).run h s = some (a ++ [], .error f, s₁) := by
  rw [ioLoop, if_neg hx]
  exact run_bind_eq_some.2 ⟨a, _, s₁, [], hround, rfl, rfl⟩

theorem run_ioLoop_ok (hsleep : ∀ s, h s (.sleep 1) = some ((), s)) (hx : x.rleft ≠ 0) {y : Xfer}
    (hround : (ioRound net e x).run h s = some (a, .ok y, s₁))
    (hrest : (ioLoop net e left y).run h s₁ = some (b, z, s₂)) :
    ∃ t, (ioLoop net e (left + 1) x).run h s = some (t, z, s₂) := by
  rw [ioLoop, if_neg hx]
  have hnap : ∃ b', (if left < 5 then .call (.sleep 1) fun _ => ioLoop net e left y
      else ioLoop net e left y : Io _).run h s₁ = some (b', z, s₂) := by
    split_ifs
    · exact ⟨_, run_call_eq_some.2 ⟨(), s₁, b, hsleep s₁, hrest, rfl⟩⟩
    · exact ⟨b, hrest⟩
  obtain ⟨b', hb'⟩ := hnap
  exact ⟨_, run_bind_eq_some.2 ⟨a, _, s₁, b', hround, hb', rfl⟩⟩

theorem run_ioLoop_settled (left : ℕ) (hsleep : ∀ s, h s (.sleep 1) = some ((), s))
    (hx : x.rleft ≠ 0)
    (hround : (ioRound net e x).run h s = some (a, r, s₁)) (hz : settled r = some z) :
    ∃ t, (ioLoop net e (left + 1) x).run h s = some (t, z, s₁) := by
  cases r with
  | error f =>
    cases hz
    exact ⟨_, run_ioLoop_error hx hround⟩
  | ok y =>
    simp only [settled] at hz
    split_ifs at hz with hy
    cases hz
    refine run_ioLoop_ok hsleep hx hround (b := []) ?_
    rw [ioLoop, if_pos hy]
    rfl

end Env

variable {left : ℕ} {z : Except Fault (List UInt8)}

/-- One turn of the outer loop, in the world of the scripts. -/
theorem ioLoop_run_succ (hx : x.rleft ≠ 0)
    (hr : (ioLoop net e (left + 1) x).run (answer host) w = some (t, z, w')) :
    ∃ a r w₁ b, (ioRound net e x).run (answer host) w = some (a, r, w₁) ∧
      (∃ d, calls d = [] ∧ t = a ++ (d ++ b)) ∧
      ((∃ f, r = .error f ∧ z = .error f ∧ w' = w₁ ∧ b = []) ∨
        ∃ y, r = .ok y ∧ (ioLoop net e left y).run (answer host) w₁ = some (b, z, w')) := by
  rw [ioLoop, if_neg hx] at hr
  obtain ⟨a, r, w₁, b, hround, hrest, rfl⟩ := run_bind_eq_some.1 hr
  cases r with
  | error f =>
    cases hrest
    exact ⟨a, _, _, [], hround, ⟨[], rfl, rfl⟩, .inl ⟨f, rfl, rfl, rfl, rfl⟩⟩
  | ok y =>
    dsimp only at hrest
    split_ifs at hrest
    · obtain ⟨_, _, b', hsleep, hrest, rfl⟩ := run_call_eq_some.1 hrest
      cases hsleep
      exact ⟨a, _, w₁, b', hround, ⟨[⟨.sleep 1, ()⟩], rfl, rfl⟩, .inr ⟨y, rfl, hrest⟩⟩
    · exact ⟨a, _, w₁, b, hround, ⟨[], rfl, rfl⟩, .inr ⟨y, rfl, hrest⟩⟩

/-- A round uses up one report of `poll`. -/
theorem polls_of_ioRound (hr : (ioRound net e x).run (answer host) w = some (t, r, w')) :
    w.cur.polls.length = w'.cur.polls.length + 1 := by
  obtain ⟨res, rest, u, hpolls, -, hround⟩ := ioRound_run hr
  rw [hpolls, List.length_cons]
  cases hround with
  | poll f => rfl
  | fails => rfl
  | through revents a b wp ws o w₃ hres hwp hsend hrecv =>
    obtain ⟨⟨rs, rfl⟩, -⟩ := run_receivePart hrecv
    rfl

/-- Away from the limit, a round less to go makes no difference. -/
theorem ioLoop_fuel (hr : (ioLoop net e (left + 1) x).run (answer host) w = some (t, z, w'))
    (hshort : w.cur.polls.length ≤ left) :
    ∃ u, (ioLoop net e left x).run (answer host) w = some (u, z, w') := by
  induction left generalizing x w t with
  | zero =>
    by_cases hx : x.rleft = 0
    · rw [ioLoop, if_pos hx] at hr ⊢
      exact ⟨t, hr⟩
    · obtain ⟨a, r, w₁, b, hround, -⟩ := ioLoop_run_succ hx hr
      have := polls_of_ioRound hround
      omega
  | succ left ih =>
    by_cases hx : x.rleft = 0
    · rw [ioLoop, if_pos hx] at hr ⊢
      exact ⟨t, hr⟩
    · obtain ⟨a, r, w₁, b, hround, -, ⟨f, rfl, rfl, rfl, -⟩ | ⟨y, rfl, hrest⟩⟩ :=
        ioLoop_run_succ hx hr
      · exact ⟨_, run_ioLoop_error hx hround⟩
      · have := polls_of_ioRound hround
        obtain ⟨u, hu⟩ := ih hrest (by omega)
        exact run_ioLoop_ok (fun _ => rfl) hx hround hu

theorem ioRound_plain (hr : (ioRound net e x).run (answer host) w = some (t, r, w')) :
    ∀ ev ∈ t, plain ev.1 = true :=
  Steps.calls (returns_of_run hr) ((plain_exchange net e).keeps_ioRound x)

theorem ioLoop_plain (hr : (ioLoop net e left x).run (answer host) w = some (t, z, w')) :
    ∀ ev ∈ t, plain ev.1 = true :=
  Steps.calls (returns_of_run hr) ((plain_exchange net e).keeps_ioLoop left x)

/-- A signal during an exchange: an interrupted `poll` ends it, anything else makes no difference,
unless a write of the round was to fail. -/
theorem ioLoop_hit (hr : (ioLoop net e left x).run (answer host) w = some (t, z, w'))
    (hshort : w.cur.polls.length < left) (hn : (calls t)[n]? = some c) :
    (isPoll c = false ∧ z = .error .error ∧ WriteFails t n) ∨
      ∃ u z' w₁ sig, (ioLoop net e left x).run (interrupted host) (w, .pending n) =
          some (u, z', w₁, sig) ∧ (∀ k, sig ≠ .pending k) ∧ w₁.later = w.later ∧
        z' = if isPoll c then .error .error else z := by
  have hsleep : ∀ st, interrupted host st (.sleep 1) = some ((), st) :=
    fun st => (interrupted_idle host st).2.1 1
  induction left generalizing x w t n with
  | zero => cases hshort
  | succ left ih =>
    by_cases hx : x.rleft = 0
    · rw [ioLoop, if_pos hx] at hr
      cases hr
      cases hn
    obtain ⟨a, r, w₁, b, hround, ⟨d, hd, rfl⟩, hrest⟩ := ioLoop_run_succ hx hr
    have hpolls := polls_of_ioRound hround
    rw [calls_append, calls_append, hd, List.nil_append] at hn
    by_cases hlen : n < (calls a).length
    · rw [List.getElem?_append_left hlen] at hn
      obtain ⟨hc, rfl, hfail⟩ | ⟨u, r', w₂, hrun, hw₂, hhit⟩ := ioRound_hit hx hround hn
      · rcases hrest with ⟨f, hf, rfl, -⟩ | ⟨y, hy, -⟩
        · cases hf
          exact .inl ⟨hc, rfl, hfail.append_right _⟩
        · cases hy
      · right
        cases hhit with
        | poll hc hr' =>
          subst hr'
          exact ⟨_, _, w₂, _, run_ioLoop_error hx hrun, by simp, hw₂, by rw [if_pos hc]⟩
        | done hc z₁ hr' hr₁ =>
          obtain ⟨u', hu'⟩ := run_ioLoop_settled left hsleep hx hrun hr'
          obtain ⟨t', ht'⟩ := run_ioLoop_settled left (fun _ => rfl) hx hround hr₁
          obtain ⟨-, rfl, rfl⟩ : a ++ (d ++ b) = t' ∧ z = z₁ ∧ w' = w₁ := by
            simpa using hr.symm.trans ht'
          exact ⟨u', z, w₂, _, hu', by simp, hw₂, by rw [hc]; rfl⟩
        | resume hc x' v hr' hx' hagain =>
          -- the next round is the rest of this one, with one round less to go
          subst hr'
          obtain ⟨left, rfl⟩ := Nat.exists_eq_succ_of_ne_zero (n := left) (by omega)
          have hagain' := run_poll_delivered hagain
          have hnext : ∃ u', (ioLoop net e (left + 1) x').run (interrupted host) (w₂, .delivered) =
              some (u', z, w', .past) := by
            rcases hrest with ⟨f, rfl, rfl, rfl, -⟩ | ⟨y, rfl, hrest⟩
            · exact ⟨_, run_ioLoop_error hx' hagain'⟩
            · obtain ⟨u', hu'⟩ := ioLoop_fuel hrest (by omega)
              exact run_ioLoop_ok hsleep hx' hagain' (run_past hu')
          obtain ⟨u', hu'⟩ := hnext
          obtain ⟨u'', hu''⟩ := run_ioLoop_ok hsleep hx hrun hu'
          exact ⟨u'', z, w', _, hu'', by simp, later_of_run hr (ioLoop_plain hr), by rw [hc]; rfl⟩
    · rw [List.getElem?_append_right (Nat.le_of_not_lt hlen)] at hn
      obtain ⟨k, rfl⟩ := Nat.exists_eq_add_of_le (Nat.le_of_not_lt hlen)
      rw [Nat.add_sub_cancel_left] at hn
      have hround' := run_pending (n := k) hround
      rcases hrest with ⟨f, rfl, rfl, rfl, rfl⟩ | ⟨y, rfl, hrest⟩
      · cases hn
      · obtain ⟨hc, rfl, hfail⟩ | ⟨u, z', w₂, sig, hrun, hsig, hw₂, hz'⟩ :=
          ih hrest (by omega) hn
        · have hfail' := (hfail.append_left d).append_left a
          rw [hd, List.length_nil, Nat.zero_add] at hfail'
          exact .inl ⟨hc, rfl, hfail'⟩
        · obtain ⟨u', hu'⟩ := run_ioLoop_ok hsleep hx hround' hrun
          refine .inr ⟨u', z', w₂, sig, hu', hsig, ?_, hz'⟩
          exact hw₂.trans (later_of_run hround (ioRound_plain hround))

end Conn

end Autossh
