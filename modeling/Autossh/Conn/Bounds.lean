import Autossh.Conn.Resume
import Autossh.Interact.Relate
import Autossh.Interact.Total
import Autossh.Posix.Memory

/-!
# The counters and pointers of `conn_send_and_receive`

`connSendAndReceive` works with the bytes that are left.  The source has two counters and two
pointers for them, and a slice of `pollfd`s of which it polls fewer once everything is sent.

* `Vars` : the variables of the source, with the pointers as offsets;
* `writeRaw`, `readRaw`, `sendRaw`, `receiveRaw`, `roundRaw`, `pollRaw`, `sendAndReceiveRaw` : the
  function as the source has it.  A `Trap` is the result where a counter would become negative,
  where the kernel is offered memory beyond the first `len` bytes, where the slice is indexed out
  of bounds, and where a loop does not end;
* `InBounds` : what holds of the variables throughout;
* `sendAndReceiveRaw_in_bounds` : no run ends in a trap, and none polls more than eleven times;
* `sendAndReceiveRaw_eq` : with the slice of `conn_test` it is `connSendAndReceive`.
-/

namespace Autossh

namespace Conn

open Prog Memory

/-! ### The function -/

/-- What must not happen. -/
inductive Trap
  | underflow
  | range
  | index
  | fuel
  deriving DecidableEq, Repr

/-- How the function ends other than with 0. -/
inductive Exit
  | trap (t : Trap)
  | fault (f : Fault)
  deriving DecidableEq, Repr

/-- A `pollfd`. -/
structure Entry where
  pfd : PollFd
  revents : Revents
  deriving DecidableEq, Repr

/-- The variables. -/
structure Vars where
  /-- The buffer at `rp`. -/
  rbuf : List UInt8
  /-- `rp_cur - rp` -/
  rp : ℕ
  rleft : ℕ
  /-- `wp_cur - wp` -/
  wp : ℕ
  wleft : ℕ
  pfds : List Entry
  ntopoll : ℕ
  deriving DecidableEq, Repr

/-- The function ends here. -/
def trap {α : Type} (t : Trap) : Io (Except Exit α) := .ret (.error (.trap t))

/-- The code after a part of the function that may end it. -/
def onOk {α β : Type} (f : α → Io (Except Exit β)) : Except Exit α → Io (Except Exit β)
  | .error e => .ret (.error e)
  | .ok a => f a

/-- The variables after `b` has been read. -/
def Vars.store (v : Vars) (b : List UInt8) : Vars :=
  { v with
    rbuf := v.rbuf.take v.rp ++ b ++ v.rbuf.drop (v.rp + b.length)
    rp := v.rp + b.length
    rleft := v.rleft - b.length }

/-- The variables after `poll`, which fills in the entries it is given. -/
def Vars.polled (revents : List Revents) (v : Vars) : Vars :=
  { v with pfds := v.pfds.mapIdx fun i e =>
      if i < v.ntopoll then { e with revents := revents.getD i {} } else e }

section

variable (net : ℤ) (len : ℕ) (wbuf : List UInt8) (ird iwr : ℕ)

/-- The `while wleft > 0` loop, with fuel for the rounds. -/
def writeRaw (fd : ℤ) : ℕ → Vars → Io (Except Exit Vars)
  | 0, _ => trap .fuel
  | n + 1, v =>
    if v.wleft = 0 then .ret (.ok v)
    else if len < v.wp + v.wleft then trap .range
    else .call (.write fd ((wbuf.drop v.wp).take v.wleft)) fun
      | .ok nwrite =>
        if nwrite.val = 0 then .ret (.ok { v with wleft := 0 })
        else if v.wleft < nwrite.val then trap .underflow
        else writeRaw fd n { v with wleft := v.wleft - nwrite, wp := v.wp + nwrite }
      | .error e => if again e then .ret (.ok v) else .ret (.error (.fault .error))

/-- The `while rleft > 0` loop around `read`. -/
def readRaw (fd : ℤ) : ℕ → Vars → Io (Except Exit Vars)
  | 0, _ => trap .fuel
  | n + 1, v =>
    if v.rleft = 0 then .ret (.ok v)
    else if len < v.rp + v.rleft then trap .range
    else .call (.read fd v.rleft) fun
      | .ok b =>
        if b.val = [] then .ret (.ok { v with rleft := 0 })
        else if v.rleft < b.val.length then trap .underflow
        else readRaw fd n (v.store b)
      | .error e => if again e then .ret (.ok v) else .ret (.error (.fault .error))

/-- `if wleft == 0 { .. }` after the writes. -/
def sentRaw (v : Vars) : Except Exit Vars :=
  if v.wleft = 0 then
    if iwr = ird then
      match load v.pfds ird with
      | none => .error (.trap .index)
      | some e => .ok { v with
          ntopoll := 1
          pfds := v.pfds.set ird { e with pfd := { e.pfd with pollin := true, pollout := false } } }
    else .ok { v with ntopoll := 1 }
  else .ok v

/-- The half of a round that writes.  The slice is not indexed when nothing is left to write. -/
def sendRaw (v : Vars) : Io (Except Exit Vars) :=
  if v.wleft = 0 then .ret (.ok v)
  else match load v.pfds iwr with
    | none => trap .index
    | some e =>
      if e.revents.pollout then
        (writeRaw len wbuf e.pfd.fd (v.wleft + 1) v).bind (onOk fun v => .ret (sentRaw ird iwr v))
      else .ret (.ok v)

/-- The half of a round that reads. -/
def receiveRaw (v : Vars) : Io (Except Exit Vars) :=
  match load v.pfds ird with
  | none => trap .index
  | some e => if e.revents.readable then readRaw len e.pfd.fd (v.rleft + 1) v else .ret (.ok v)

/-- One turn of the outer loop up to the count of turns. -/
def roundRaw (v : Vars) : Io (Except Exit Vars) :=
  if v.pfds.length < v.ntopoll then trap .index
  else .call (.poll ((v.pfds.take v.ntopoll).map Entry.pfd) net) fun
    | .timeout => .ret (.error (.fault .timeout))
    | .error _ => .ret (.error (.fault .error))
    | .ready revents =>
      (sendRaw len wbuf ird iwr (v.polled revents)).bind (onOk (receiveRaw len ird))

/-- The outer loop, with fuel for its turns. -/
def pollRaw : ℕ → ℕ → Vars → Io (Except Exit (List UInt8))
  | 0, _, _ => trap .fuel
  | fuel + 1, loops, v =>
    if v.rleft = 0 then .ret (.ok v.rbuf)
    else (roundRaw net len wbuf ird iwr v).bind (onOk fun v =>
      if 5 < loops + 1 then
        .call (.sleep 1) fun _ =>
          if 10 < loops + 1 then
            (errlog .tooManyLoops).bind fun _ => .ret (.error (.fault .error))
          else pollRaw fuel (loops + 1) v
      else pollRaw fuel (loops + 1) v)

/-- `conn_send_and_receive`; the slice has `ntopoll` entries. -/
def sendAndReceiveRaw (fuel : ℕ) (pfds : List Entry) (rbuf : List UInt8) :
    Io (Except Exit (List UInt8)) :=
  pollRaw net len wbuf 0 (if pfds.length = 2 then 1 else 0) fuel 0
    ⟨rbuf, 0, len, 0, len, pfds, pfds.length⟩

end

/-! ### No trap -/

/-- The calls of an exchange; the number counts the polls that may still be made. -/
def polls : ℕ → Call → Option ℕ
  | n, .poll _ _ => if n = 0 then none else some (n - 1)
  | n, .read _ _ => some n
  | n, .write _ _ => some n
  | n, .sleep _ => some n
  | n, .errlog _ => some n
  | _, _ => none

/-- No trap, and `P` if the function goes on. -/
def Fine {α : Type} (P : α → Prop) : Except Exit α → Prop
  | .ok a => P a
  | .error (.fault _) => True
  | .error (.trap _) => False

/-- The pointers and counters stay within the first `len` bytes, and `poll` gets no more than the
`k` entries of the slice. -/
structure InBounds (len k : ℕ) (v : Vars) : Prop where
  read : v.rp + v.rleft ≤ len
  write : v.wp + v.wleft ≤ len
  pfds : v.pfds.length = k
  ntopoll : v.ntopoll ≤ k

section

variable {α β : Type} {net : ℤ} {len k n ird iwr : ℕ} {wbuf : List UInt8} {v : Vars}

theorem within_onOk {P : α → Prop} {Q : β → Prop} {I J : ℕ → Prop} {p : Io (Except Exit α)}
    {f : α → Io (Except Exit β)} (hp : p.Within polls (fun r s => Fine P r ∧ I s) n)
    (hIJ : ∀ s, I s → J s)
    (hf : ∀ a s, P a → I s → (f a).Within polls (fun r s => Fine Q r ∧ J s) s) :
    (p.bind (onOk f)).Within polls (fun r s => Fine Q r ∧ J s) n := by
  rw [within_bind]
  refine hp.mono ?_
  rintro (e | a) s ⟨hr, hs⟩
  · cases e with
    | trap t => exact hr.elim
    | fault e => exact ⟨trivial, hIJ s hs⟩
  · exact hf a s hr hs

theorem length_unsent (hw : len ≤ wbuf.length) (hv : v.wp + v.wleft ≤ len) :
    ((wbuf.drop v.wp).take v.wleft).length = v.wleft := by
  rw [List.length_take, List.length_drop]
  omega

/-- A write takes no more than what is left, so the loop ends with the bytes. -/
theorem writeRaw_within (hw : len ≤ wbuf.length) (fd : ℤ) {m : ℕ} (hv : InBounds len k v)
    (hm : v.wleft < m) :
    (writeRaw len wbuf fd m v).Within polls (fun r s => Fine (InBounds len k) r ∧ s = n) n := by
  induction m generalizing v with
  | zero => exact absurd hm (Nat.not_lt_zero _)
  | succ m ih =>
    have hwrite := hv.write
    rw [writeRaw]
    by_cases h0 : v.wleft = 0
    · rw [if_pos h0]
      exact ⟨hv, rfl⟩
    · rw [if_neg h0, if_neg (by omega)]
      refine ⟨n, rfl, fun x => ?_⟩
      cases x with
      | ok nwrite =>
        have hle : nwrite.val ≤ v.wleft := by
          have hlen := length_unsent hw hv.write
          have hlt := nwrite.isLt
          omega
        by_cases hz : nwrite.val = 0
        · simp only [hz, if_true]
          exact ⟨⟨hv.read, by dsimp only; omega, hv.pfds, hv.ntopoll⟩, rfl⟩
        · simp only [hz, if_false, if_neg (not_lt.2 hle)]
          exact ih ⟨hv.read, by dsimp only; omega, hv.pfds, hv.ntopoll⟩ (by dsimp only; omega)
      | error e =>
        dsimp only
        split_ifs
        · exact ⟨hv, rfl⟩
        · exact ⟨trivial, rfl⟩

theorem readRaw_within (fd : ℤ) {m : ℕ} (hv : InBounds len k v) (hm : v.rleft < m) :
    (readRaw len fd m v).Within polls (fun r s => Fine (InBounds len k) r ∧ s = n) n := by
  induction m generalizing v with
  | zero => exact absurd hm (Nat.not_lt_zero _)
  | succ m ih =>
    have hread := hv.read
    rw [readRaw]
    by_cases h0 : v.rleft = 0
    · rw [if_pos h0]
      exact ⟨hv, rfl⟩
    · rw [if_neg h0, if_neg (by omega)]
      refine ⟨n, rfl, fun x => ?_⟩
      cases x with
      | ok b =>
        have hle := b.property
        by_cases hz : b.val = []
        · simp only [hz, if_true]
          exact ⟨⟨by dsimp only; omega, hv.write, hv.pfds, hv.ntopoll⟩, rfl⟩
        · have hpos := List.length_pos_iff.2 hz
          simp only [hz, if_false, if_neg (not_lt.2 hle)]
          refine ih ⟨?_, hv.write, hv.pfds, hv.ntopoll⟩ ?_
          · simp only [Vars.store]
            omega
          · simp only [Vars.store]
            omega
      | error e =>
        dsimp only
        split_ifs
        · exact ⟨hv, rfl⟩
        · exact ⟨trivial, rfl⟩

theorem InBounds.exists_load (hv : InBounds len k v) {i : ℕ} (hi : i < k) :
    ∃ e, load v.pfds i = some e := by
  rw [← hv.pfds] at hi
  exact ⟨_, List.getElem?_eq_getElem hi⟩

theorem sentRaw_fine (hv : InBounds len k v) (hk : 1 ≤ k) (hird : ird < k) :
    Fine (InBounds len k) (sentRaw ird iwr v) := by
  obtain ⟨e, hload⟩ := hv.exists_load hird
  unfold sentRaw
  split_ifs
  · rw [hload]
    exact ⟨hv.read, hv.write, by rw [List.length_set, hv.pfds], hk⟩
  · exact ⟨hv.read, hv.write, hv.pfds, hk⟩
  · exact hv

theorem sendRaw_within (hw : len ≤ wbuf.length) (hv : InBounds len k v) (hird : ird < k)
    (hiwr : iwr < k) :
    (sendRaw len wbuf ird iwr v).Within polls (fun r s => Fine (InBounds len k) r ∧ s = n) n := by
  obtain ⟨e, hload⟩ := hv.exists_load hiwr
  unfold sendRaw
  split_ifs
  · exact ⟨hv, rfl⟩
  · rw [hload]
    dsimp only
    split_ifs
    · refine within_onOk (writeRaw_within hw _ hv (Nat.lt_succ_self _)) (fun _ h => h) ?_
      rintro v' s hv' rfl
      exact ⟨sentRaw_fine hv' (by omega) hird, rfl⟩
    · exact ⟨hv, rfl⟩

theorem receiveRaw_within (hv : InBounds len k v) (hird : ird < k) :
    (receiveRaw len ird v).Within polls (fun r s => Fine (InBounds len k) r ∧ s = n) n := by
  obtain ⟨e, hload⟩ := hv.exists_load hird
  rw [receiveRaw, hload]
  dsimp only
  split_ifs
  · exact readRaw_within _ hv (Nat.lt_succ_self _)
  · exact ⟨hv, rfl⟩

theorem InBounds.polled (hv : InBounds len k v) (revents : List Revents) :
    InBounds len k (v.polled revents) :=
  ⟨hv.read, hv.write, by rw [Vars.polled, List.length_mapIdx, hv.pfds], hv.ntopoll⟩

/-- A round polls once. -/
theorem roundRaw_within (hw : len ≤ wbuf.length) (hv : InBounds len k v) (hird : ird < k)
    (hiwr : iwr < k) :
    (roundRaw net len wbuf ird iwr v).Within polls (fun r s => Fine (InBounds len k) r ∧ s = n)
      (n + 1) := by
  have hentries := hv.ntopoll
  rw [roundRaw, if_neg (by rw [hv.pfds]; omega)]
  refine ⟨n, rfl, fun x => ?_⟩
  cases x with
  | timeout => exact ⟨trivial, rfl⟩
  | error e => exact ⟨trivial, rfl⟩
  | ready revents =>
    refine within_onOk (sendRaw_within hw (hv.polled revents) hird hiwr) (fun _ h => h) ?_
    rintro v' s hv' rfl
    exact receiveRaw_within hv' hird

/-- The outer loop after `loops` turns: eleven polls less those turns are enough. -/
theorem pollRaw_within (hw : len ≤ wbuf.length) (hird : ird < k) (hiwr : iwr < k) {fuel loops : ℕ}
    (hv : InBounds len k v) (hfuel : 11 ≤ fuel + loops) (hn : n + loops = 11)
    (hloops : loops ≤ 10) :
    (pollRaw net len wbuf ird iwr fuel loops v).Within polls
      (fun r _ => Fine (fun _ => True) r ∧ True) n := by
  induction fuel generalizing loops n v with
  | zero => exact absurd hfuel (by omega)
  | succ fuel ih =>
    rw [pollRaw]
    by_cases h0 : v.rleft = 0
    · rw [if_pos h0]
      exact ⟨trivial, trivial⟩
    · rw [if_neg h0]
      obtain ⟨m, rfl⟩ : ∃ m, n = m + 1 := Nat.exists_eq_succ_of_ne_zero (by omega)
      refine within_onOk (roundRaw_within hw hv hird hiwr) (fun _ _ => trivial) ?_
      rintro v' s hv' rfl
      have hnext : loops + 1 ≤ 10 → (pollRaw net len wbuf ird iwr fuel (loops + 1) v').Within polls
          (fun r _ => Fine (fun _ => True) r ∧ True) s :=
        fun h => ih hv' (by omega) (by omega) h
      by_cases h5 : 5 < loops + 1
      · rw [if_pos h5]
        refine ⟨s, rfl, fun _ => ?_⟩
        by_cases h10 : 10 < loops + 1
        · rw [if_pos h10]
          exact ⟨s, rfl, fun _ => ⟨trivial, trivial⟩⟩
        · rw [if_neg h10]
          exact hnext (by omega)
      · rw [if_neg h5]
        exact hnext (by omega)

theorem sendAndReceiveRaw_within (net : ℤ) (hw : len ≤ wbuf.length) {pfds : List Entry}
    (hpfds : pfds.length = 1 ∨ pfds.length = 2) {fuel : ℕ} (hfuel : 11 ≤ fuel)
    (rbuf : List UInt8) :
    (sendAndReceiveRaw net len wbuf fuel pfds rbuf).Within polls
      (fun r _ => Fine (fun _ => True) r ∧ True) 11 := by
  have hiwr : (if pfds.length = 2 then 1 else 0) < pfds.length := by
    split_ifs <;> omega
  refine pollRaw_within hw (by omega) hiwr ⟨?_, ?_, rfl, le_rfl⟩ hfuel rfl (by decide)
  · exact (Nat.zero_add len).le
  · exact (Nat.zero_add len).le

end

/-- The calls `conn_send_and_receive` makes. -/
def ioCall : Call → Bool
  | .poll _ _ => true
  | .read _ _ => true
  | .write _ _ => true
  | .sleep _ => true
  | .errlog _ => true
  | _ => false

theorem ioCall_of_polls {c : Call} {n n' : ℕ} (h : polls n c = some n') : ioCall c = true := by
  cases c <;> first | rfl | cases h

/-- The budget goes down by the polls. -/
theorem countP_polls {cs : List Call} {n n' : ℕ} (h : cs.foldlM polls n = some n') :
    cs.countP isPoll + n' = n := by
  induction cs generalizing n with
  | nil =>
    obtain rfl : n = n' := Option.some.inj h
    exact Nat.zero_add n
  | cons c cs ih =>
    rw [List.foldlM_cons, Option.bind_eq_bind, Option.bind_eq_some_iff] at h
    obtain ⟨m, hc, hrest⟩ := h
    have hcs := ih hrest
    cases c with
    | poll fds timeout =>
      simp only [polls] at hc
      split_ifs at hc with h0
      obtain rfl := Option.some.inj hc
      rw [List.countP_cons_of_pos rfl]
      omega
    | read _ _ | write _ _ | sleep _ | errlog _ =>
      obtain rfl := Option.some.inj hc
      rw [List.countP_cons_of_neg Bool.false_ne_true]
      exact hcs
    | _ => cases hc

/-- **`conn_send_and_receive` ends, after at most eleven polls, and stays in its buffers**: whatever
`poll`, `read` and `write` give, no counter becomes negative, no byte beyond the first `len` of a
buffer is read or written, and the slice is indexed within its bounds. -/
theorem sendAndReceiveRaw_in_bounds {σ : Type} (net : ℤ) (len fuel : ℕ) (pfds : List Entry)
    (rbuf wbuf : List UInt8) (hpfds : pfds.length = 1 ∨ pfds.length = 2)
    (hw : len ≤ wbuf.length) (hfuel : 11 ≤ fuel) (h : σ → (c : Call) → Option (Answer c × σ))
    (hh : ∀ w c, ioCall c = true → (h w c).isSome = true) (w : σ) :
    ∃ t r w', (sendAndReceiveRaw net len wbuf fuel pfds rbuf).run h w = some (t, r, w') ∧
      (∀ e, r ≠ .error (.trap e)) ∧ (t.map Sigma.fst).countP isPoll ≤ 11 := by
  obtain ⟨t, r, w', n, hrun, hcost, hr, -⟩ :=
    (sendAndReceiveRaw_within net hw hpfds hfuel rbuf).exists_run
      (fun w c _ _ hc => hh w c (ioCall_of_polls hc)) w
  refine ⟨t, r, w', hrun, ?_, ?_⟩
  · rintro e rfl
    exact hr
  · have hcount := countP_polls hcost
    omega

/-- `poll` always finds the descriptor ready, `write` takes a byte at a time, and `read` is
interrupted. -/
def trickle (_ : Unit) : (c : Call) → Option (Answer c × Unit)
  | .poll _ _ => some (.ready [⟨true, true, false⟩], ())
  | .read _ _ => some (.error .eintr, ())
  | .write _ b => some (.ok ⟨min 1 b.length, Nat.lt_succ_of_le (min_le_right 1 _)⟩, ())
  | .sleep _ => some ((), ())
  | .errlog _ => some ((), ())
  | _ => none

/-- Nothing comes back: the function gives up after its eleventh poll. -/
theorem sendAndReceiveRaw_in_bounds_trickle :
    ∃ t r w', (sendAndReceiveRaw 15000 3 [1, 2, 3] 11 [⟨⟨5, true, true⟩, {}⟩] [0, 0, 0]).run
        trickle () = some (t, r, w') ∧
      (∀ e, r ≠ .error (.trap e)) ∧ (t.map Sigma.fst).countP isPoll ≤ 11 :=
  sendAndReceiveRaw_in_bounds 15000 3 11 [⟨⟨5, true, true⟩, {}⟩] [0, 0, 0] [1, 2, 3] (.inl rfl)
    (by decide) le_rfl trickle (fun w c hc => by cases c <;> first | rfl | cases hc) ()

/-! ### The function of the bytes that are left -/

/-- The slice `conn_test` fills in. -/
def Ends.entries : Ends → List Entry
  | accepted rd wd => [⟨⟨rd, true, false⟩, {}⟩, ⟨⟨wd, false, true⟩, {}⟩]
  | echo wd => [⟨⟨wd, true, true⟩, {}⟩]

/-- `iwr`. -/
def Ends.iwr : Ends → ℕ
  | accepted _ _ => 1
  | echo _ => 0

/-- The slice during the function, with the `revents` that `poll` has filled in. -/
def Ends.Slice (revents : List Revents) (v : Vars) : Ends → Prop
  | accepted rd wd => v.ntopoll = (if v.wleft = 0 then 1 else 2) ∧ ∃ r,
      v.pfds = [⟨⟨rd, true, false⟩, revents.getD 0 {}⟩, ⟨⟨wd, false, true⟩, r⟩] ∧
        (v.wleft ≠ 0 → r = revents.getD 1 {})
  | echo wd => v.ntopoll = 1 ∧ v.pfds = [⟨⟨wd, true, v.wleft ≠ 0⟩, revents.getD 0 {}⟩]

/-- The variables of `connSendAndReceive`. -/
def Vars.xfer (wbuf : List UInt8) (v : Vars) : Xfer :=
  ⟨(wbuf.drop v.wp).take v.wleft, v.rbuf, v.rp, v.rleft⟩

/-- The two functions stand at the same place. -/
structure Mirrors (len : ℕ) (wbuf : List UInt8) (e : Ends) (revents : List Revents) (v : Vars)
    (x : Xfer) : Prop where
  xfer : x = v.xfer wbuf
  read : v.rp + v.rleft ≤ len
  write : v.wp + v.wleft ≤ len
  slice : e.Slice revents v

/-- A part of a round gives the same in both functions. -/
inductive Agree {α β : Type} (P : α → β → Prop) : Except Exit α → Option β → Prop
  | ok {a : α} {b : β} (h : P a b) : Agree P (.ok a) (some b)
  | error : Agree P (.error (.fault .error)) none

/-- A round gives the same in both functions. -/
inductive AgreeOn {α β : Type} (P : α → β → Prop) : Except Exit α → Except Fault β → Prop
  | ok {a : α} {b : β} (h : P a b) : AgreeOn P (.ok a) (.ok b)
  | error (f : Fault) : AgreeOn P (.error (.fault f)) (.error f)

section

variable {net : ℤ} {len : ℕ} {wbuf : List UInt8} {e : Ends} {revents : List Revents} {v : Vars}
  {x : Xfer}

theorem unsent_eq_nil (hw : len ≤ wbuf.length) (hv : v.wp + v.wleft ≤ len) :
    (wbuf.drop v.wp).take v.wleft = [] ↔ v.wleft = 0 := by
  rw [← List.length_eq_zero_iff, length_unsent hw hv]

/-- The writes change `wp` and `wleft` only. -/
theorem writeRaw_sim (hw : len ≤ wbuf.length) (fd : ℤ) {m : ℕ} (hv : v.wp + v.wleft ≤ len)
    (hm : v.wleft ≤ m) :
    Sim (Agree fun v' wp => wp = (wbuf.drop v'.wp).take v'.wleft ∧ v'.wp + v'.wleft ≤ len ∧
        v' = { v with wp := v'.wp, wleft := v'.wleft })
      (writeRaw len wbuf fd (m + 1) v) (writeLoop fd m ((wbuf.drop v.wp).take v.wleft)) := by
  induction m generalizing v with
  | zero =>
    have h0 : v.wleft = 0 := Nat.le_zero.1 hm
    rw [writeRaw, if_pos h0, writeLoop]
    exact .ret (.ok ⟨rfl, hv, rfl⟩)
  | succ m ih =>
    rw [writeRaw, writeLoop]
    by_cases h0 : v.wleft = 0
    · rw [if_pos h0, if_pos ((unsent_eq_nil hw hv).2 h0)]
      exact .ret (.ok ⟨rfl, hv, rfl⟩)
    · rw [if_neg h0, if_neg (not_lt.2 hv), if_neg (mt (unsent_eq_nil hw hv).1 h0)]
      refine .call fun y => ?_
      cases y with
      | ok nwrite =>
        have hle : nwrite.val ≤ v.wleft := by
          have hlen := length_unsent hw hv
          have hlt := nwrite.isLt
          omega
        by_cases hz : nwrite.val = 0
        · simp only [hz, if_true]
          exact .ret (.ok ⟨List.take_zero.symm, by dsimp only; omega, rfl⟩)
        · simp only [hz, if_false, if_neg (not_lt.2 hle)]
          have hdrop : ((wbuf.drop v.wp).take v.wleft).drop nwrite.val =
              (wbuf.drop (v.wp + nwrite.val)).take (v.wleft - nwrite.val) := by
            rw [List.drop_take, List.drop_drop]
          rw [hdrop]
          exact ih (v := { v with wleft := v.wleft - nwrite, wp := v.wp + nwrite })
            (by dsimp only; omega) (by dsimp only; omega)
      | error err =>
        dsimp only
        split_ifs
        · exact .ret (.ok ⟨rfl, hv, rfl⟩)
        · exact .ret .error

variable (wbuf) in
/-- The reads change `rbuf`, `rp` and `rleft` only. -/
theorem readRaw_sim (fd : ℤ) {m : ℕ} (hv : v.rp + v.rleft ≤ len) (hm : v.rleft ≤ m) :
    Sim (Agree fun v' x => x = v'.xfer wbuf ∧ v'.rp + v'.rleft ≤ len ∧
        v' = { v with rbuf := v'.rbuf, rp := v'.rp, rleft := v'.rleft })
      (readRaw len fd (m + 1) v) (readLoop fd m (v.xfer wbuf)) := by
  induction m generalizing v with
  | zero =>
    have h0 : v.rleft = 0 := Nat.le_zero.1 hm
    rw [readRaw, if_pos h0, readLoop]
    exact .ret (.ok ⟨rfl, hv, rfl⟩)
  | succ m ih =>
    rw [readRaw, readLoop]
    by_cases h0 : v.rleft = 0
    · rw [if_pos h0, if_pos (show (v.xfer wbuf).rleft = 0 from h0)]
      exact .ret (.ok ⟨rfl, hv, rfl⟩)
    · rw [if_neg h0, if_neg (not_lt.2 hv), if_neg (show (v.xfer wbuf).rleft ≠ 0 from h0)]
      refine .call fun y => ?_
      cases y with
      | ok b =>
        have hle : b.val.length ≤ v.rleft := b.property
        by_cases hz : b.val = []
        · simp only [hz, if_true]
          exact .ret (.ok ⟨rfl, by dsimp only; omega, rfl⟩)
        · have hpos := List.length_pos_iff.2 hz
          simp only [hz, if_false, if_neg (not_lt.2 hle)]
          exact ih (v := v.store b) (by simp only [Vars.store]; omega)
            (by simp only [Vars.store]; omega)
      | error err =>
        dsimp only
        split_ifs
        · exact .ret (.ok ⟨rfl, hv, rfl⟩)
        · exact .ret .error

theorem Ends.Slice.polled (hv : e.Slice revents v)
    (revents' : List Revents) : e.Slice revents' (v.polled revents') := by
  cases e with
  | accepted rd wd =>
    obtain ⟨hn, r, hpfds, -⟩ := hv
    refine ⟨hn, if v.wleft = 0 then r else revents'.getD 1 {}, ?_, fun h => if_neg h⟩
    simp only [Vars.polled, hpfds, hn]
    by_cases h0 : v.wleft = 0 <;> simp [h0]
  | echo wd =>
    obtain ⟨hn, hpfds⟩ := hv
    refine ⟨hn, ?_⟩
    simp only [Vars.polled, hpfds, hn]
    simp

/-- What the slice says about the writing end. -/
theorem Ends.Slice.load_iwr (hv : e.Slice revents v) (h0 : v.wleft ≠ 0) :
    ∃ ent, load v.pfds e.iwr = some ent ∧ ent.pfd.fd = e.wd ∧ ent.revents = e.revWr revents := by
  cases e with
  | accepted rd wd =>
    obtain ⟨-, r, hpfds, hr⟩ := hv
    rw [hpfds]
    exact ⟨_, rfl, rfl, hr h0⟩
  | echo wd =>
    rw [hv.2]
    exact ⟨_, rfl, rfl, rfl⟩

/-- What it says about the reading end. -/
theorem Ends.Slice.load_ird (hv : e.Slice revents v) :
    ∃ ent, load v.pfds 0 = some ent ∧ ent.pfd.fd = e.rd ∧ ent.revents = Ends.revRd revents := by
  cases e with
  | accepted rd wd =>
    obtain ⟨-, r, hpfds, -⟩ := hv
    rw [hpfds]
    exact ⟨_, rfl, rfl, rfl⟩
  | echo wd =>
    rw [hv.2]
    exact ⟨_, rfl, rfl, rfl⟩

/-- `poll` is asked the same. -/
theorem Ends.Slice.pollfds (hv : e.Slice revents v) :
    (v.pfds.take v.ntopoll).map Entry.pfd = e.pollfds (v.wleft ≠ 0) := by
  cases e with
  | accepted rd wd =>
    obtain ⟨hn, r, hpfds, -⟩ := hv
    rw [hpfds, hn]
    by_cases h0 : v.wleft = 0 <;> simp [h0, Ends.pollfds]
  | echo wd =>
    rw [hv.2, hv.1]
    rfl

/-- Once everything is sent, the slice is what `poll` is asked from then on. -/
theorem Ends.Slice.sentRaw (hv : e.Slice revents v) {i j : ℕ} (h0 : v.wleft ≠ 0) :
    ∃ v', sentRaw 0 e.iwr { v with wp := i, wleft := j } = .ok v' ∧ e.Slice revents v' ∧
      v'.wp = i ∧ v'.wleft = j ∧ v'.rbuf = v.rbuf ∧ v'.rp = v.rp ∧ v'.rleft = v.rleft := by
  cases e with
  | accepted rd wd =>
    obtain ⟨hn, r, hpfds, hr⟩ := hv
    by_cases hj : j = 0
    · exact ⟨{ v with wp := i, wleft := j, ntopoll := 1 }, by simp [Conn.sentRaw, Ends.iwr, hj],
        ⟨by simp [hj], r, hpfds, fun h => absurd hj h⟩, rfl, rfl, rfl, rfl, rfl⟩
    · exact ⟨{ v with wp := i, wleft := j }, by simp [Conn.sentRaw, hj],
        ⟨by simp [hn, h0, hj], r, hpfds, fun _ => hr h0⟩, rfl, rfl, rfl, rfl, rfl⟩
  | echo wd =>
    obtain ⟨hn, hpfds⟩ := hv
    by_cases hj : j = 0
    · refine ⟨{ v with
        wp := i, wleft := j, ntopoll := 1
        pfds := [⟨⟨wd, true, false⟩, revents.getD 0 {}⟩] }, ?_, ⟨rfl, ?_⟩, rfl, rfl, rfl, rfl, rfl⟩
      · simp [Conn.sentRaw, Ends.iwr, hj, hpfds, load]
      · simp [hj]
    · exact ⟨{ v with wp := i, wleft := j }, by simp [Conn.sentRaw, hj],
        ⟨hn, by simp [hpfds, h0, hj]⟩, rfl, rfl, rfl, rfl, rfl⟩

theorem Ends.Slice.ntopoll_le (hv : e.Slice revents v) : ¬v.pfds.length < v.ntopoll := by
  cases e with
  | accepted rd wd =>
    obtain ⟨hn, r, hpfds, -⟩ := hv
    rw [hpfds, hn]
    split_ifs <;> simp
  | echo wd =>
    rw [hv.1, hv.2]
    simp

theorem sendRaw_sim (hw : len ≤ wbuf.length) (hv : Mirrors len wbuf e revents v x) :
    Sim (Agree (Mirrors len wbuf e revents)) (sendRaw len wbuf 0 e.iwr v)
      (sendPart e revents x) := by
  obtain rfl := hv.xfer
  rw [sendRaw, sendPart]
  by_cases h0 : v.wleft = 0
  · have hnil : (v.xfer wbuf).wp = [] := (unsent_eq_nil hw hv.write).2 h0
    rw [if_pos h0, if_neg fun h => h.1 hnil]
    exact .ret (.ok hv)
  · have hne : (v.xfer wbuf).wp ≠ [] := mt (unsent_eq_nil hw hv.write).1 h0
    obtain ⟨ent, hload, hfd, hrev⟩ := hv.slice.load_iwr h0
    rw [if_neg h0, hload]
    dsimp only
    rw [hrev, hfd]
    by_cases hout : (e.revWr revents).pollout = true
    · rw [if_pos hout, if_pos ⟨hne, hout⟩]
      have hlen : (v.xfer wbuf).wp.length = v.wleft := length_unsent hw hv.write
      rw [hlen]
      refine (writeRaw_sim hw e.wd hv.write le_rfl).bind ?_
      rintro _ _ (⟨hwp, hbound, heq⟩ | _)
      · rename_i v' wp
        obtain ⟨v'', hsent, hslice, h₁, h₂, h₃, h₄, h₅⟩ :=
          hv.slice.sentRaw (i := v'.wp) (j := v'.wleft) h0
        rw [← heq] at hsent
        rw [onOk, hsent]
        refine .ret (.ok ⟨?_, ?_, ?_, hslice⟩)
        · simp only [Vars.xfer, h₁, h₂, h₃, h₄, h₅, hwp]
        · rw [h₄, h₅]
          exact hv.read
        · rw [h₁, h₂]
          exact hbound
      · exact .ret .error
    · rw [if_neg hout, if_neg fun h => hout h.2]
      exact .ret (.ok hv)

theorem Ends.Slice.congr {v' : Vars} (hv : e.Slice revents v) (hn : v'.ntopoll = v.ntopoll)
    (hpfds : v'.pfds = v.pfds) (hleft : v'.wleft = v.wleft) : e.Slice revents v' := by
  cases e with
  | accepted rd wd => simpa only [Ends.Slice, hn, hpfds, hleft] using hv
  | echo wd => simpa only [Ends.Slice, hn, hpfds, hleft] using hv

theorem receiveRaw_sim (hv : Mirrors len wbuf e revents v x) :
    Sim (Agree (Mirrors len wbuf e revents)) (receiveRaw len 0 v) (receivePart e revents x) := by
  obtain rfl := hv.xfer
  obtain ⟨ent, hload, hfd, hrev⟩ := hv.slice.load_ird
  rw [receiveRaw, receivePart, hload]
  dsimp only
  rw [hrev, hfd]
  split_ifs
  · refine (readRaw_sim wbuf e.rd hv.read le_rfl).mono ?_
    rintro _ _ (⟨hx, hbound, heq⟩ | _)
    · refine .ok ⟨hx, hbound, ?_, ?_⟩
      · rw [heq]
        exact hv.write
      · rw [heq]
        exact hv.slice.congr rfl rfl rfl
    · exact .error
  · exact .ret (.ok hv)

theorem Mirrors.polled (hv : Mirrors len wbuf e revents v x) (revents' : List Revents) :
    Mirrors len wbuf e revents' (v.polled revents') x :=
  ⟨hv.xfer, hv.read, hv.write, hv.slice.polled revents'⟩

theorem roundRaw_sim (hw : len ≤ wbuf.length) (hv : Mirrors len wbuf e revents v x) :
    Sim (AgreeOn fun v' x' => ∃ revents', Mirrors len wbuf e revents' v' x')
      (roundRaw net len wbuf 0 e.iwr v) (ioRound net e x) := by
  have hunsent : decide (x.wp ≠ []) = decide (v.wleft ≠ 0) := by
    rw [hv.xfer]
    exact decide_eq_decide.2 (not_congr (unsent_eq_nil hw hv.write))
  rw [roundRaw, if_neg hv.slice.ntopoll_le, ioRound, hv.slice.pollfds, hunsent]
  refine .call fun y => ?_
  cases y with
  | timeout => exact .ret (.error .timeout)
  | error err => exact .ret (.error .error)
  | ready revents' =>
    refine (sendRaw_sim hw (hv.polled revents')).bind ?_
    rintro _ _ (hv₁ | _)
    · rw [onOk, ← Prog.bind_ret (receiveRaw len 0 _)]
      refine (receiveRaw_sim hv₁).bind ?_
      rintro _ _ (hv₂ | _)
      · exact .ret (.ok ⟨revents', hv₂⟩)
      · exact .ret (.error .error)
    · exact .ret (.error .error)

/-- The outer loops, after `loops` turns and `left` turns before the limit. -/
theorem pollRaw_sim (hw : len ≤ wbuf.length) {fuel loops left : ℕ} (hleft : left + loops = 10)
    (hfuel : left < fuel) (hv : Mirrors len wbuf e revents v x) :
    Sim (fun r r' => r = r'.mapError .fault) (pollRaw net len wbuf 0 e.iwr fuel loops v)
      (ioLoop net e left x) := by
  induction fuel generalizing loops left revents v x with
  | zero => exact absurd hfuel (Nat.not_lt_zero _)
  | succ fuel ih =>
    have hrleft : x.rleft = v.rleft := by
      rw [hv.xfer]
      rfl
    rw [pollRaw, ioLoop]
    by_cases h0 : v.rleft = 0
    · rw [if_pos h0, if_pos (hrleft.trans h0), hv.xfer]
      exact .ret rfl
    · rw [if_neg h0, if_neg fun h => h0 (hrleft.symm.trans h)]
      refine (roundRaw_sim hw hv).bind ?_
      rintro _ _ (⟨revents', hv'⟩ | f)
      · rw [onOk]
        cases left with
        | zero =>
          rw [if_pos (by omega)]
          refine .call fun _ => ?_
          rw [if_pos (by omega)]
          exact .call fun _ => .ret rfl
        | succ left =>
          dsimp only
          by_cases h5 : left < 5
          · rw [if_pos (by omega), if_pos h5]
            refine .call fun _ => ?_
            rw [if_neg (by omega)]
            exact ih (by omega) (by omega) hv'
          · rw [if_neg (by omega), if_neg h5]
            exact ih (by omega) (by omega) hv'
      · exact .ret rfl

variable (net e) in
/-- **The counters and pointers do what `connSendAndReceive` does with the bytes that are left.** -/
theorem sendAndReceiveRaw_eq {fuel : ℕ} (hfuel : 11 ≤ fuel) (rbuf wbuf : List UInt8) :
    sendAndReceiveRaw net wbuf.length wbuf fuel e.entries rbuf =
      (connSendAndReceive net e rbuf wbuf).bind fun r => .ret (r.mapError .fault) := by
  have hiwr : (if e.entries.length = 2 then 1 else 0) = e.iwr := by
    cases e <;> rfl
  refine Sim.eq_bind ?_
  rw [sendAndReceiveRaw, hiwr, connSendAndReceive]
  by_cases hnil : wbuf = []
  · subst hnil
    obtain ⟨fuel, rfl⟩ : ∃ n, fuel = n + 1 := Nat.exists_eq_succ_of_ne_zero (by omega)
    rw [pollRaw, ioLoop]
    exact .ret rfl
  · have hlen : wbuf.length ≠ 0 := mt List.length_eq_zero_iff.1 hnil
    have hslice : e.Slice []
        ⟨rbuf, 0, wbuf.length, 0, wbuf.length, e.entries, e.entries.length⟩ := by
      cases e with
      | accepted rd wd => exact ⟨(if_neg hlen).symm, {}, rfl, fun _ => rfl⟩
      | echo wd => exact ⟨rfl, by simp [Ends.entries, hlen]⟩
    refine pollRaw_sim le_rfl rfl hfuel ⟨?_, (Nat.zero_add _).le, (Nat.zero_add _).le, hslice⟩
    simp [Vars.xfer]

end

end Conn

end Autossh
