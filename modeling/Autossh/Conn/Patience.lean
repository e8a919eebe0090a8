import Autossh.Conn.Bounds
import Autossh.Conn.Timeout
import Mathlib.Tactic.Ring

/-!
# How long a test can take

`ssh_watch` waits for `conn_test` and does nothing else in the meantime.  The test has three loops
in one another: the attempts, the turns of an exchange, and the transfers in a turn.  A `Budget`
counts what they do, and for every function of `conn.rs` there is a lemma that says what it leaves
of its budget.

* an exchange polls eleven times at most and sleeps for six seconds, five if it does not end in an
  error; it makes two transfers in a turn beside those that move bytes (`ioLoop_within`);
* of the three attempts that `MAX_CONN_TRIES` announces only two are made;
* `connTest_bounded` : **the bounds for a whole test**.  They are reached (`dilatory`).

The polls are the only calls with a timeout.  The others are as quick as the kernel and the peer
let them be: the sockets block.
-/

namespace Autossh

namespace Conn

open Prog

/-- What may still be done. -/
structure Budget where
  polls : ℕ
  /-- seconds of sleep -/
  seconds : ℕ
  /-- reads and writes -/
  transfers : ℕ

/-- What a call takes from the budget. -/
def spend : Budget → Call → Option Budget
  | b, .poll _ _ => if b.polls = 0 then none else some { b with polls := b.polls - 1 }
  | b, .sleep n => if b.seconds < n then none else some { b with seconds := b.seconds - n }
  | b, .read _ _ | b, .write _ _ =>
    if b.transfers = 0 then none else some { b with transfers := b.transfers - 1 }
  | b, _ => some b

/-- At least so much is left. -/
structure Budget.Covers (b : Budget) (polls seconds transfers : ℕ) : Prop where
  polls : polls ≤ b.polls
  seconds : seconds ≤ b.seconds
  transfers : transfers ≤ b.transfers

/-- The bytes an exchange has still to move. -/
def Xfer.size (x : Xfer) : ℕ := x.wp.length + x.rleft

section Within

variable {α : Type} {Q : α → Budget → Prop} {b : Budget} {i j k : ℕ}

theorem within_poll {fds : List PollFd} {net : ℤ} {f : PollRes → Io α}
    (hb : b.Covers (i + 1) j k)
    (hf : ∀ r b', b'.Covers i j k → (f r).Within spend Q b') :
    (call (.poll fds net) f : Io α).Within spend Q b := by
  have hpolls := hb.polls
  refine ⟨_, if_neg (by omega), fun r => hf r _ ⟨?_, hb.seconds, hb.transfers⟩⟩
  dsimp only
  omega

theorem within_sleep {n : ℕ} {f : Unit → Io α} (hb : b.Covers i (j + n) k)
    (hf : ∀ b', b'.Covers i j k → (f ()).Within spend Q b') :
    (call (.sleep n) f : Io α).Within spend Q b := by
  have hseconds := hb.seconds
  refine ⟨_, if_neg (by omega), fun r => hf _ ⟨hb.polls, ?_, hb.transfers⟩⟩
  dsimp only
  omega

theorem within_write {fd : ℤ} {w : List UInt8}
    {f : Except Errno (Fin (w.length + 1)) → Io α} (hb : b.Covers i j (k + 1))
    (hf : ∀ r b', b'.Covers i j k → (f r).Within spend Q b') :
    (call (.write fd w) f : Io α).Within spend Q b := by
  have htransfers := hb.transfers
  refine ⟨_, if_neg (by omega), fun r => hf r _ ⟨hb.polls, hb.seconds, ?_⟩⟩
  dsimp only
  omega

theorem within_read {fd : ℤ} {n : ℕ}
    {f : Except Errno { b : List UInt8 // b.length ≤ n } → Io α} (hb : b.Covers i j (k + 1))
    (hf : ∀ r b', b'.Covers i j k → (f r).Within spend Q b') :
    (call (.read fd n) f : Io α).Within spend Q b := by
  have htransfers := hb.transfers
  refine ⟨_, if_neg (by omega), fun r => hf r _ ⟨hb.polls, hb.seconds, ?_⟩⟩
  dsimp only
  omega

theorem within_errlog {m : Msg} {a : α} (h : Q a b) :
    ((errlog m).bind fun _ => .ret a : Io α).Within spend Q b :=
  ⟨b, rfl, fun _ => h⟩

end Within

/-! ### The exchange -/

variable {b : Budget} {net : ℤ} {i j k : ℕ}

/-- Less is covered, too. -/
theorem Budget.Covers.mono {i' j' k' : ℕ} (h : b.Covers i j k) (hi : i' ≤ i) (hj : j' ≤ j)
    (hk : k' ≤ k) : b.Covers i' j' k' :=
  ⟨hi.trans h.polls, hj.trans h.seconds, hk.trans h.transfers⟩

/-- A write takes bytes away, or is the last one. -/
theorem writeLoop_within (fd : ℤ) (n : ℕ) {wp : List UInt8}
    (hb : b.Covers i j (wp.length + 1 + k)) :
    (writeLoop fd n wp).Within spend (fun r b' => b'.Covers i j (r.elim 0 List.length + k)) b := by
  have hkeep : b.Covers i j (wp.length + k) := hb.mono le_rfl le_rfl (by omega)
  induction n generalizing wp b with
  | zero => exact hkeep
  | succ n ih =>
    rw [writeLoop]
    split_ifs with h0
    · exact hkeep
    · refine within_write (k := wp.length + k) (hb.mono le_rfl le_rfl (by omega)) fun r b' hb' => ?_
      cases r with
      | ok nwrite =>
        dsimp only
        split_ifs with hz
        · exact hb'.mono le_rfl le_rfl (by simp)
        · have hle := nwrite.isLt
          have hrest : b'.Covers i j ((wp.drop nwrite).length + 1 + k) := by
            refine hb'.mono le_rfl le_rfl ?_
            rw [List.length_drop]
            omega
          exact ih hrest (hrest.mono le_rfl le_rfl (by omega))
      | error e =>
        dsimp only
        split_ifs
        · exact hb'
        · exact hb'.mono le_rfl le_rfl (by simp)

theorem readLoop_within (fd : ℤ) (n : ℕ) {x : Xfer} (hb : b.Covers i j (x.size + 1 + k)) :
    (readLoop fd n x).Within spend (fun r b' => b'.Covers i j (r.elim 0 Xfer.size + k)) b := by
  have hkeep : b.Covers i j (x.size + k) := hb.mono le_rfl le_rfl (by omega)
  induction n generalizing x b with
  | zero => exact hkeep
  | succ n ih =>
    rw [readLoop]
    split_ifs with h0
    · exact hkeep
    · refine within_read (k := x.size + k) (hb.mono le_rfl le_rfl (by omega)) fun r b' hb' => ?_
      cases r with
      | ok bytes =>
        dsimp only
        split_ifs with hz
        · exact hb'.mono le_rfl le_rfl (by simp only [Option.elim_some, Xfer.size]; omega)
        · have hle := bytes.property
          have hpos := List.length_pos_iff.2 hz
          have hrest : b'.Covers i j ((x.store bytes.val).size + 1 + k) := by
            refine hb'.mono le_rfl le_rfl ?_
            simp only [Xfer.size, Xfer.store]
            omega
          exact ih hrest (hrest.mono le_rfl le_rfl (by omega))
      | error e =>
        dsimp only
        split_ifs
        · exact hb'
        · exact hb'.mono le_rfl le_rfl (by simp)

theorem sendPart_within (e : Ends) (revents : List Revents) {x : Xfer}
    (hb : b.Covers i j (x.size + 1 + k)) :
    (sendPart e revents x).Within spend
      (fun r b' => b'.Covers i j (r.elim 0 Xfer.size + k)) b := by
  unfold sendPart
  split_ifs
  · rw [within_bind]
    have hwrite : b.Covers i j (x.wp.length + 1 + (x.rleft + k)) :=
      hb.mono le_rfl le_rfl (by simp only [Xfer.size]; omega)
    refine (writeLoop_within e.wd _ hwrite).mono fun r b' hb' => ?_
    cases r with
    | none => exact hb'.mono le_rfl le_rfl (by simp)
    | some wp =>
      refine hb'.mono le_rfl le_rfl ?_
      simp only [Option.map_some, Option.elim_some, Xfer.size]
      omega
  · exact hb.mono le_rfl le_rfl (by simp only [Option.elim_some]; omega)

theorem receivePart_within (e : Ends) (revents : List Revents) {x : Xfer}
    (hb : b.Covers i j (x.size + 1 + k)) :
    (receivePart e revents x).Within spend
      (fun r b' => b'.Covers i j (r.elim 0 Xfer.size + k)) b := by
  unfold receivePart
  split_ifs
  · exact readLoop_within _ _ hb
  · exact hb.mono le_rfl le_rfl (by simp only [Option.elim_some]; omega)

/-- The bytes there are still to move after a turn. -/
def unmoved : Except Fault Xfer → ℕ
  | .ok x => x.size
  | .error _ => 0

/-- A turn polls once, and makes two transfers beside those that move bytes. -/
theorem ioRound_within (e : Ends) {x : Xfer} (hb : b.Covers (i + 1) j (x.size + 2 + k)) :
    (ioRound net e x).Within spend (fun r b' => b'.Covers i j (unmoved r + k)) b := by
  unfold ioRound
  refine within_poll hb fun r b₁ hb₁ => ?_
  cases r with
  | timeout | error => exact hb₁.mono le_rfl le_rfl (by simp only [unmoved]; omega)
  | ready revents =>
    dsimp only
    rw [within_bind]
    have hsend : b₁.Covers i j (x.size + 1 + (1 + k)) := hb₁.mono le_rfl le_rfl (by omega)
    refine (sendPart_within e revents hsend).mono fun r b₂ hb₂ => ?_
    cases r with
    | none => exact hb₂.mono le_rfl le_rfl (by simp only [unmoved]; omega)
    | some x₂ =>
      dsimp only
      rw [within_bind]
      have hreceive : b₂.Covers i j (x₂.size + 1 + k) :=
        hb₂.mono le_rfl le_rfl (by simp only [Option.elim_some]; omega)
      refine (receivePart_within e revents hreceive).mono fun r b₃ hb₃ => ?_
      cases r with
      | none => exact hb₃
      | some x₃ => exact hb₃

/-- The seconds an exchange may still sleep at its end: one that has not ended in an error has been
spared the last. -/
def spared (j : ℕ) (r : Except Fault (List UInt8)) : ℕ := if r = .error .error then j else j + 1

/-- The loop of the exchange, `left` turns before the limit.  It sleeps after each of the last six
turns. -/
theorem ioLoop_within (e : Ends) (left : ℕ) {x : Xfer}
    (hb : b.Covers (left + 1 + i) (min left 5 + 1 + j) (x.size + 2 * (left + 1) + k)) :
    (ioLoop net e left x).Within spend (fun r b' => b'.Covers i (spared j r) k) b := by
  have hspared : ∀ r, spared j r ≤ 1 + j := fun r => by
    unfold spared
    split_ifs <;> omega
  induction left generalizing x b with
  | zero =>
    rw [ioLoop]
    split_ifs
    · exact hb.mono (by omega) ((hspared _).trans (by omega)) (by omega)
    · rw [within_bind]
      have hround : b.Covers (i + 1) (1 + j) (x.size + 2 + k) :=
        hb.mono (by omega) (by omega) (by omega)
      refine (ioRound_within e hround).mono fun r b₁ hb₁ => ?_
      cases r with
      | error r => exact hb₁.mono le_rfl (hspared _) (by omega)
      | ok x₁ =>
        refine within_sleep (j := j) (hb₁.mono le_rfl (by omega) le_rfl) fun b₂ hb₂ => ?_
        exact within_errlog (hb₂.mono le_rfl le_rfl (by omega))
  | succ left ih =>
    rw [ioLoop]
    split_ifs
    · exact hb.mono (by omega) ((hspared _).trans (by omega)) (by omega)
    · rw [within_bind]
      have hround : b.Covers (left + 1 + i + 1) (min (left + 1) 5 + 1 + j)
          (x.size + 2 + (2 * (left + 1) + k)) := hb.mono (by omega) le_rfl (by omega)
      refine (ioRound_within e hround).mono fun r b₁ hb₁ => ?_
      cases r with
      | error r => exact hb₁.mono (by omega) ((hspared _).trans (by omega)) (by omega)
      | ok x₁ =>
        have hrest : b₁.Covers (left + 1 + i) (min (left + 1) 5 + 1 + j)
            (x₁.size + 2 * (left + 1) + k) := hb₁.mono le_rfl le_rfl (by simp only [unmoved]; omega)
        dsimp only
        split_ifs with h5
        · exact within_sleep (j := min left 5 + 1 + j) (hrest.mono le_rfl (by omega) le_rfl)
            fun b₂ hb₂ => ih hb₂
        · exact ih (hrest.mono le_rfl (by omega) le_rfl)

/-! ### The test -/

variable {p : Probe}

/-- The seconds an attempt may still sleep at its end. -/
def Outcome.spared (j : ℕ) (o : Outcome) : ℕ := if o = .hardError then j else j + 1

theorem connExchange_within (e : Ends) {wbuf : List UInt8}
    (hb : b.Covers (11 + i) (6 + j) (2 * wbuf.length + 22 + k)) :
    (connExchange p e wbuf).Within spend (fun o b' => b'.Covers i (o.spared j) k) b := by
  unfold connExchange connSendAndReceive
  rw [within_bind]
  have hloop : b.Covers (10 + 1 + i) (min 10 5 + 1 + j)
      ((⟨wbuf, List.replicate bufSz 0, 0, wbuf.length⟩ : Xfer).size + 2 * (10 + 1) + k) :=
    hb.mono (by omega) (by omega) (by simp only [Xfer.size]; omega)
  refine (ioLoop_within e 10 hloop).mono fun r b' hb' => ?_
  cases r with
  | ok rbuf =>
    dsimp only
    split_ifs
    · exact within_errlog hb'
    · exact within_errlog hb'
  | error r =>
    cases r with
    | timeout => exact within_errlog hb'
    | error => exact within_errlog hb'

/-- A connection is accepted after one poll. -/
theorem connPollForAccept_within (hb : b.Covers (i + 1) j k) :
    (connPollForAccept p).Within spend (fun _ b' => b'.Covers i j k) b := by
  unfold connPollForAccept
  refine within_poll hb fun r b' hb' => ?_
  cases r with
  | timeout => exact within_errlog hb'
  | error e => exact within_errlog hb'
  | ready revents =>
    dsimp only
    split_ifs
    · refine ⟨b', rfl, fun r => ?_⟩
      cases r with
      | ok rd => exact hb'
      | error e => exact within_errlog hb'
    · exact hb'

theorem connTurn_within (wd : ℤ) (wbuf : List UInt8) (hb : b.Covers (12 + i) (6 + j) (406 + k)) :
    (connTurn p wd wbuf).Within spend (fun r b' => b'.Covers i (r.1.spared j) k) b := by
  unfold connTurn
  split_ifs with hlen
  · -- the message does not fit, and `xerrlog` does not return
    exact ⟨b, rfl, fun x => x.elim⟩
  · have hfits : 2 * wbuf.length + 22 ≤ 406 := by
      unfold bufSz at hlen
      omega
    rw [within_bind]
    have haccept : b.Covers (11 + i + 1) (6 + j) (406 + k) := hb.mono (by omega) le_rfl le_rfl
    refine (connPollForAccept_within haccept).mono fun rd b₁ hb₁ => ?_
    split_ifs
    · exact hb₁.mono (by omega) (by simp only [Outcome.spared]; split_ifs <;> omega) (by omega)
    · rw [within_bind]
      exact connExchange_within _ (hb₁.mono le_rfl le_rfl (by omega))
  · have hfits : 2 * wbuf.length + 22 ≤ 406 := by
      unfold bufSz at hlen
      omega
    rw [within_bind]
    exact connExchange_within _ (hb.mono (by omega) le_rfl (by omega))

theorem hangUp_within (fd : ℤ) (hb : b.Covers i j k) :
    (hangUp fd).Within spend (fun _ b' => b'.Covers i j k) b :=
  ⟨b, rfl, fun _ => ⟨b, rfl, fun _ => hb⟩⟩

theorem hangUpRead_within (rd : ℤ) (hb : b.Covers i j k) :
    (hangUpRead p rd).Within spend (fun _ b' => b'.Covers i j k) b := by
  unfold hangUpRead
  split_ifs
  · exact hangUp_within rd hb
  · exact hb

theorem connAttempt_within (wd : ℤ) (nodename : Text) (id rd : ℤ)
    (hb : b.Covers (12 + i) (6 + j) (406 + k)) :
    (connAttempt p wd nodename id rd).Within spend
      (fun r b' => b'.Covers i (r.1.spared j) k) b := by
  unfold connAttempt
  rw [within_bind]
  exact (hangUpRead_within rd hb).mono fun _ b' hb' =>
    ⟨b', rfl, fun _ => connTurn_within wd _ hb'⟩

/-- The last turn of the loop only says that it gives up. -/
theorem connTries_within (wd : ℤ) (nodename : Text) (id : ℤ) (left : ℕ) (rd : ℤ)
    (hb : b.Covers (12 * (left - 1)) (5 * (left - 1) + 1) (406 * (left - 1))) :
    (connTries p wd nodename id left rd).Within spend (fun _ b' => b'.Covers 0 0 0) b := by
  have hnone : ∀ {b : Budget}, b.Covers 0 0 0 :=
    ⟨Nat.zero_le _, Nat.zero_le _, Nat.zero_le _⟩
  induction left generalizing rd b with
  | zero => exact hnone
  | succ left ih =>
    rw [connTries]
    split_ifs with hlast
    · exact within_errlog hnone
    · have hleft : 1 ≤ left := by
        unfold maxConnTries at hlast
        omega
      rw [within_bind]
      have hattempt : b.Covers (12 + 12 * (left - 1)) (6 + 5 * (left - 1))
          (406 + 406 * (left - 1)) :=
        hb.mono (by omega) (by omega) (by omega)
      refine (connAttempt_within wd nodename id rd hattempt).mono fun r b₁ hb₁ => ?_
      obtain ⟨o, rd₁⟩ := r
      cases o with
      | noRead | hardError | echo => exact hnone
      | timeout | garbled => exact ih rd₁ hb₁

theorem connRemote_within (hb : b.Covers i j k) :
    (connRemote p).Within spend (fun _ b' => b'.Covers i j k) b := by
  unfold connRemote
  rw [within_bind]
  have haddr : (if p.resolved then .ret () else connAddr p : Io Unit).Within spend
      (fun _ b' => b'.Covers i j k) b := by
    split_ifs
    · exact hb
    · refine ⟨b, rfl, fun r => ?_⟩
      cases r with
      | error e => exact ⟨b, rfl, fun x => x.elim⟩
      | ok _ => exact hb
  refine haddr.mono fun _ b' hb' => ⟨b', rfl, fun r => ?_⟩
  cases r with
  | error e => exact ⟨b', rfl, fun x => x.elim⟩
  | ok sock =>
    refine ⟨b', rfl, fun r => ?_⟩
    cases r with
    | error e => exact ⟨b', rfl, fun _ => ⟨b', rfl, fun _ => hb'⟩⟩
    | ok _ => exact hb'

theorem connTest_within : (connTest p).Within spend (fun _ _ => True) ⟨24, 11, 812⟩ := by
  refine ⟨_, rfl, fun nodename => ⟨_, rfl, fun id => ?_⟩⟩
  have hall : (⟨24, 11, 812⟩ : Budget).Covers (12 * (maxConnTries - 1))
      (5 * (maxConnTries - 1) + 1) (406 * (maxConnTries - 1)) := ⟨le_rfl, le_rfl, le_rfl⟩
  rw [within_bind]
  refine (connRemote_within hall).mono fun wd b₁ hb₁ => ?_
  split_ifs
  · trivial
  · rw [within_bind]
    refine (connTries_within wd nodename id maxConnTries (-1) hb₁).mono fun r b₂ hb₂ => ?_
    rw [within_bind]
    refine (hangUp_within wd hb₂).mono fun _ b₃ hb₃ => ?_
    rw [within_bind]
    exact (hangUpRead_within r.2 hb₃).mono fun _ _ _ => trivial

/-! ### The bounds -/

/-- A read or a write. -/
def isTransfer : Call → Bool
  | .read _ _ | .write _ _ => true
  | _ => false

/-- The seconds a call sleeps. -/
def sleeps : Call → ℕ
  | .sleep n => n
  | _ => 0

/-- The milliseconds a call waits by itself. -/
def patience : Call → ℤ
  | .poll _ timeout => timeout
  | .sleep n => 1000 * n
  | _ => 0

/-- The budget goes down by what is spent. -/
theorem spent_of_foldlM {cs : List Call} {b b' : Budget} (h : cs.foldlM spend b = some b') :
    cs.countP isPoll + b'.polls = b.polls ∧ (cs.map sleeps).sum + b'.seconds = b.seconds ∧
      cs.countP isTransfer + b'.transfers = b.transfers := by
  induction cs generalizing b with
  | nil =>
    cases h
    simp
  | cons c cs ih =>
    rw [List.foldlM_cons, Option.bind_eq_bind, Option.bind_eq_some_iff] at h
    obtain ⟨b₁, hc, hrest⟩ := h
    obtain ⟨hpolls, hseconds, htransfers⟩ := ih hrest
    simp only [List.countP_cons, List.map_cons, List.sum_cons]
    cases c with
    | poll _ _ | sleep _ | read _ _ | write _ _ =>
      simp only [spend] at hc
      split_ifs at hc
      cases hc
      simp only [isPoll, isTransfer, sleeps, Bool.false_eq_true, if_true, if_false] at *
      omega
    | _ =>
      cases hc
      simp only [isPoll, isTransfer, sleeps, Bool.false_eq_true, if_false] at *
      omega

/-- Polls that all have the same timeout. -/
theorem patience_eq {net : ℤ} {t : List (Event Answer)}
    (h : ∀ e ∈ t, timed net e.1 = true) :
    (t.map fun e => patience e.1).sum =
      net * (t.map Sigma.fst).countP isPoll + 1000 * ((t.map Sigma.fst).map sleeps).sum := by
  induction t with
  | nil => simp
  | cons e t ih =>
    have he := h e List.mem_cons_self
    have ht := ih fun e' he' => h e' (List.mem_cons_of_mem _ he')
    obtain ⟨c, x⟩ := e
    simp only [List.map_cons, List.sum_cons, List.countP_cons, ht]
    cases c with
    | poll fds timeout =>
      obtain rfl : timeout = net := of_decide_eq_true he
      simp only [patience, isPoll, sleeps, if_true]
      push_cast
      ring
    | sleep n =>
      simp only [patience, isPoll, sleeps, Bool.false_eq_true, if_false]
      push_cast
      ring
    | _ => simp [patience, isPoll, sleeps]

/-- **A test polls at most 24 times, sleeps for at most 11 seconds and makes at most 812
transfers**, whatever its calls give back.  With a timeout that is not negative it waits by itself
for no longer than 24 timeouts and 11 seconds. -/
theorem connTest_bounded (p : Probe) {t : List (Event Answer)} {q : Io ℕ}
    (h : (connTest p).Steps t q) :
    (t.map Sigma.fst).countP isPoll ≤ 24 ∧ ((t.map Sigma.fst).map sleeps).sum ≤ 11 ∧
      (t.map Sigma.fst).countP isTransfer ≤ 812 ∧
      (0 ≤ p.netTimeout →
        (t.map fun e => patience e.1).sum ≤ 24 * p.netTimeout + 11000) := by
  obtain ⟨b', hcost, -⟩ := h.within (connTest_within (p := p))
  obtain ⟨hpolls, hseconds, htransfers⟩ := spent_of_foldlM hcost
  dsimp only at hpolls hseconds htransfers
  refine ⟨by omega, by omega, by omega, fun hnet => ?_⟩
  rw [patience_eq (connTest_timed h)]
  have hle : ((t.map Sigma.fst).countP isPoll : ℤ) ≤ 24 := by omega
  have hmul := mul_le_mul_of_nonneg_left hle hnet
  omega

/-- A turn of an exchange in which nothing becomes ready, with or without a sleep after it. -/
def idleTurn (slept : Bool) : List (Event Answer) :=
  (⟨.poll [⟨6, true, false⟩, ⟨5, false, true⟩] 15000, .ready [{}, {}]⟩ : Event Answer) ::
    if slept then [⟨.sleep 1, ()⟩] else []

/-- The first ten turns of such an exchange, after its connection has been accepted. -/
def idleTurns : List (Event Answer) :=
  ([⟨.getpid, 42⟩, ⟨.poll [⟨3, true, false⟩] 15000, .ready [{ pollin := true }]⟩,
    ⟨.accept 3, .ok 6⟩] : List (Event Answer)) ++
    (List.replicate 5 (idleTurn false) ++ List.replicate 5 (idleTurn true)).flatten

/-- A test that takes as long as one can: the eleventh poll of the first attempt runs into its
timeout, and the second attempt is given up after eleven turns. -/
def dilatory : List (Event Answer) :=
  ([⟨.uname, sampleNode⟩, ⟨.random, 7⟩, ⟨.socket, .ok 5⟩, ⟨.connect 5, .ok ()⟩] :
      List (Event Answer)) ++ idleTurns ++
    ([⟨.poll [⟨6, true, false⟩, ⟨5, false, true⟩] 15000, .timeout⟩, ⟨.errlog .ioTimeout, ()⟩,
      ⟨.shutdown 6, ()⟩, ⟨.close 6, ()⟩] : List (Event Answer)) ++ idleTurns ++ idleTurn true ++
    [⟨.errlog .tooManyLoops, ()⟩, ⟨.errlog .pollError, ()⟩, ⟨.shutdown 5, ()⟩, ⟨.close 5, ()⟩,
      ⟨.shutdown 6, ()⟩, ⟨.close 6, ()⟩]

theorem connTest_bounded_dilatory :
    (connTest sample).Steps dilatory (.ret 0) ∧
      (dilatory.map Sigma.fst).countP isPoll = 24 ∧
      ((dilatory.map Sigma.fst).map sleeps).sum = 11 ∧
      (dilatory.map fun e => patience e.1).sum ≤ 24 * sample.netTimeout + 11000 := by
  have hsteps : (connTest sample).Steps dilatory (.ret 0) :=
    returns_of_replay (by decide +kernel)
  obtain ⟨-, -, -, hsum⟩ := connTest_bounded sample hsteps
  exact ⟨hsteps, by decide +kernel, by decide +kernel, hsum (by decide)⟩

end Conn

end Autossh
