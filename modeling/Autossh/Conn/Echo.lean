import Autossh.Conn.Exchange
import Mathlib.Data.List.TakeWhile

/-!
# A test succeeds only on an echo

`conn_send_and_receive` also ends well when the peer closes the connection early, or when a write
takes nothing; what decides is the comparison of two C strings, one of them in a buffer that was
filled with zeros.

* `received`, `sent` are the bytes a trace reads from a descriptor, and writes to it;
* `Progress` ties the variables of an exchange to the bytes it has moved, and is kept by both
  transfer loops, however the transfers are cut up;
* `connTest_sound` : **a test that returns 1 has read back, in its last turn, exactly the message of
  that turn.**
-/

namespace Autossh

namespace Conn

open Prog

variable {p : Probe} {e : Ends} {fd : ℤ} {t u v w : List (Event Answer)}

/-! ### Bytes in a trace -/

/-- The bytes a call reads from a descriptor. -/
def readBy (fd : ℤ) : Event Answer → List UInt8
  | ⟨.read fd' _, .ok b⟩ => if fd' = fd then b.val else []
  | _ => []

/-- The bytes a call writes to a descriptor. -/
def writtenBy (fd : ℤ) : Event Answer → List UInt8
  | ⟨.write fd' b, .ok n⟩ => if fd' = fd then b.take n else []
  | _ => []

/-- The bytes a trace reads from a descriptor. -/
def received (fd : ℤ) (t : List (Event Answer)) : List UInt8 := t.flatMap (readBy fd)

/-- The bytes a trace writes to a descriptor. -/
def sent (fd : ℤ) (t : List (Event Answer)) : List UInt8 := t.flatMap (writtenBy fd)

theorem received_append : received fd (t ++ u) = received fd t ++ received fd u :=
  List.flatMap_append

theorem sent_append : sent fd (t ++ u) = sent fd t ++ sent fd u := List.flatMap_append

/-- Neither a read nor a write. -/
def idle : Call → Bool
  | .read _ _ => false
  | .write _ _ => false
  | _ => true

theorem received_of_idle (h : ∀ e ∈ t, idle e.1 = true) : received fd t = [] := by
  refine List.flatMap_eq_nil_iff.2 fun e he => ?_
  have hi := h e he
  obtain ⟨c, x⟩ := e
  cases c with
  | read _ _ => cases hi
  | _ => rfl

theorem sent_of_idle (h : ∀ e ∈ t, idle e.1 = true) : sent fd t = [] := by
  refine List.flatMap_eq_nil_iff.2 fun e he => ?_
  have hi := h e he
  obtain ⟨c, x⟩ := e
  cases c with
  | write _ _ => cases hi
  | _ => rfl

/-! ### The exchange -/

/-- What the variables of an exchange have to do with its trace so far. -/
structure Progress (e : Ends) (msg : List UInt8) (t : List (Event Answer)) (x : Xfer) : Prop where
  rbuf : x.rbuf = received e.rd t ++ List.replicate (bufSz - (received e.rd t).length) 0
  rp : x.rp = (received e.rd t).length
  rleft : (received e.rd t).length + x.rleft ≤ msg.length
  sent : sent e.wd t <+: msg
  wp : x.wp = [] ∨ Conn.sent e.wd t ++ x.wp = msg

variable {msg : List UInt8} {x x' : Xfer}

/-- Only the bytes count. -/
theorem Progress.append (h : Progress e msg t x) (hr : received e.rd u = [])
    (hw : Conn.sent e.wd u = []) : Progress e msg (t ++ u) x := by
  have hr' : received e.rd (t ++ u) = received e.rd t := by
    rw [received_append, hr, List.append_nil]
  have hw' : Conn.sent e.wd (t ++ u) = Conn.sent e.wd t := by rw [sent_append, hw, List.append_nil]
  constructor
  · rw [hr']
    exact h.rbuf
  · rw [hr']
    exact h.rp
  · rw [hr']
    exact h.rleft
  · rw [hw']
    exact h.sent
  · rw [hw']
    exact h.wp

/-- The buffer after a read: the bytes are put where the last ones ended. -/
theorem Progress.store (hmsg : msg.length < bufSz) (h : Progress e msg t x)
    (b : { b : List UInt8 // b.length ≤ x.rleft }) :
    Progress e msg (t ++ [⟨.read e.rd x.rleft, .ok b⟩]) (x.store b) := by
  have hb := b.property
  have hleft := h.rleft
  have hr : received e.rd [⟨.read e.rd x.rleft, .ok b⟩] = b.val := by
    simp [received, readBy]
  have hw : Conn.sent e.wd [⟨.read e.rd x.rleft, .ok b⟩] = [] := rfl
  constructor
  · have hdrop : (received e.rd t ++ List.replicate (bufSz - (received e.rd t).length) 0).drop
        ((received e.rd t).length + b.val.length) =
        List.replicate (bufSz - ((received e.rd t).length + b.val.length)) (0 : UInt8) := by
      rw [List.drop_append, List.drop_of_length_le (by omega), List.nil_append,
        List.drop_replicate]
      congr 1
      omega
    rw [received_append, hr, List.length_append, Xfer.store, h.rp, h.rbuf, List.take_left, hdrop]
  · rw [received_append, hr, List.length_append, Xfer.store, h.rp]
  · rw [received_append, hr, List.length_append, Xfer.store]
    show _ + (x.rleft - b.val.length) ≤ _
    omega
  · rw [sent_append, hw, List.append_nil]
    exact h.sent
  · rw [sent_append, hw, List.append_nil]
    exact h.wp

theorem Progress.write {wp : List UInt8} (h : Progress e msg t { x with wp }) (hne : wp ≠ [])
    (k : Fin (wp.length + 1)) :
    Progress e msg (t ++ [⟨.write e.wd wp, .ok k⟩]) { x with wp := wp.drop k } := by
  have hr : received e.rd [⟨.write e.wd wp, .ok k⟩] = [] := rfl
  have hw : Conn.sent e.wd [⟨.write e.wd wp, .ok k⟩] = wp.take k := by
    simp [Conn.sent, writtenBy]
  have hall : Conn.sent e.wd (t ++ [⟨.write e.wd wp, .ok k⟩]) ++ wp.drop k = msg := by
    rw [sent_append, hw, List.append_assoc, List.take_append_drop]
    exact h.wp.resolve_left hne
  have hr' : received e.rd (t ++ [⟨.write e.wd wp, .ok k⟩]) = received e.rd t := by
    rw [received_append, hr, List.append_nil]
  exact ⟨by rw [hr']; exact h.rbuf, by rw [hr']; exact h.rp, by rw [hr']; exact h.rleft,
    ⟨_, hall⟩, .inr hall⟩

theorem Progress.finish (h : Progress e msg t x) : Progress e msg t { x with rleft := 0 } :=
  ⟨h.rbuf, h.rp, (Nat.le_add_right _ _).trans h.rleft, h.sent, h.wp⟩

theorem Progress.giveUp (h : Progress e msg t x) : Progress e msg t { x with wp := [] } :=
  ⟨h.rbuf, h.rp, h.rleft, h.sent, .inl rfl⟩

theorem progress_readLoop (hmsg : msg.length < bufSz) (h : Progress e msg t x) {n : ℕ}
    (hr : (readLoop e.rd n x).Returns w (some x')) : Progress e msg (t ++ w) x' := by
  induction n generalizing x t w with
  | zero =>
    obtain ⟨rfl, hx⟩ := returns_ret.1 hr
    cases hx
    rwa [List.append_nil]
  | succ n ih =>
    rw [readLoop] at hr
    split_ifs at hr with h0
    · obtain ⟨rfl, hx⟩ := returns_ret.1 hr
      cases hx
      rwa [List.append_nil]
    · obtain ⟨r, w, rfl, hk⟩ := returns_call.1 hr
      rw [← List.singleton_append, ← List.append_assoc]
      cases r with
      | ok b =>
        dsimp only at hk
        split_ifs at hk with hb
        · -- the end of the stream
          obtain ⟨rfl, hx⟩ := returns_ret.1 hk
          cases hx
          have hnil : received e.rd [⟨.read e.rd x.rleft, .ok b⟩] = [] := by
            simp [received, readBy, hb]
          rw [List.append_nil]
          exact (h.append hnil rfl).finish
        · exact ih (h.store hmsg b) hk
      | error err =>
        dsimp only at hk
        split_ifs at hk with hagain
        · obtain ⟨rfl, hx⟩ := returns_ret.1 hk
          cases hx
          rw [List.append_nil]
          exact h.append rfl rfl
        · cases (returns_ret.1 hk).2

theorem progress_writeLoop {wp wp' : List UInt8} (h : Progress e msg t { x with wp }) {n : ℕ}
    (hr : (writeLoop e.wd n wp).Returns w (some wp')) :
    Progress e msg (t ++ w) { x with wp := wp' } := by
  induction n generalizing wp t w with
  | zero =>
    obtain ⟨rfl, hx⟩ := returns_ret.1 hr
    cases hx
    rwa [List.append_nil]
  | succ n ih =>
    rw [writeLoop] at hr
    split_ifs at hr with h0
    · obtain ⟨rfl, hx⟩ := returns_ret.1 hr
      cases hx
      rwa [List.append_nil]
    · obtain ⟨r, w, rfl, hk⟩ := returns_call.1 hr
      rw [← List.singleton_append, ← List.append_assoc]
      cases r with
      | ok k =>
        dsimp only at hk
        split_ifs at hk with hzero
        · -- a write that takes nothing is taken for the last one
          obtain ⟨rfl, hx⟩ := returns_ret.1 hk
          cases hx
          have hnil : Conn.sent e.wd [⟨.write e.wd wp, .ok k⟩] = [] := by
            simp [Conn.sent, writtenBy, hzero]
          rw [List.append_nil]
          exact (h.append rfl hnil).giveUp
        · exact ih (h.write h0 k) hk
      | error err =>
        dsimp only at hk
        split_ifs at hk with hagain
        · obtain ⟨rfl, hx⟩ := returns_ret.1 hk
          cases hx
          rw [List.append_nil]
          exact h.append rfl rfl
        · cases (returns_ret.1 hk).2

theorem progress_sendPart (h : Progress e msg t x) {revents : List Revents}
    (hr : (sendPart e revents x).Returns w (some x')) : Progress e msg (t ++ w) x' := by
  unfold sendPart at hr
  split_ifs at hr with hc
  · obtain ⟨u, r, v, rfl, hu, hv⟩ := returns_bind.1 hr
    obtain ⟨rfl, hx⟩ := returns_ret.1 hv
    obtain ⟨wp', rfl, rfl⟩ := Option.map_eq_some_iff.1 hx
    rw [List.append_nil]
    exact progress_writeLoop (x := x) h hu
  · obtain ⟨rfl, hx⟩ := returns_ret.1 hr
    cases hx
    rwa [List.append_nil]

theorem progress_receivePart (hmsg : msg.length < bufSz) (h : Progress e msg t x)
    {revents : List Revents} (hr : (receivePart e revents x).Returns w (some x')) :
    Progress e msg (t ++ w) x' := by
  unfold receivePart at hr
  split_ifs at hr with hc
  · exact progress_readLoop hmsg h hr
  · obtain ⟨rfl, hx⟩ := returns_ret.1 hr
    cases hx
    rwa [List.append_nil]

theorem progress_ioRound {net : ℤ} (hmsg : msg.length < bufSz) (h : Progress e msg t x)
    (hr : (ioRound net e x).Returns w (.ok x')) : Progress e msg (t ++ w) x' := by
  obtain ⟨r, w, rfl, hk⟩ := returns_call.1 hr
  cases r with
  | timeout => cases (returns_ret.1 hk).2
  | error err => cases (returns_ret.1 hk).2
  | ready revents =>
    obtain ⟨w₁, r₁, w, rfl, hw₁, hk₁⟩ := returns_bind.1 hk
    cases r₁ with
    | none => cases (returns_ret.1 hk₁).2
    | some x₁ =>
      obtain ⟨w₂, r₂, w, rfl, hw₂, hk₂⟩ := returns_bind.1 hk₁
      cases r₂ with
      | none => cases (returns_ret.1 hk₂).2
      | some x₂ =>
        obtain ⟨rfl, hx⟩ := returns_ret.1 hk₂
        cases hx
        have h₀ := h.append (u := [⟨.poll (e.pollfds (x.wp ≠ [])) net, .ready revents⟩]) rfl rfl
        have h₂ := progress_receivePart hmsg (progress_sendPart h₀ hw₁) hw₂
        simpa using h₂

/-- **However the transfers are cut up, the buffer holds what has been read**, and no more than the
length of the message. -/
theorem progress_ioLoop {net : ℤ} (hmsg : msg.length < bufSz) (h : Progress e msg t x) {left : ℕ}
    {rbuf : List UInt8} (hr : (ioLoop net e left x).Returns w (.ok rbuf)) :
    ∃ x', Progress e msg (t ++ w) x' ∧ x'.rbuf = rbuf := by
  induction left generalizing x t w with
  | zero =>
    rw [ioLoop] at hr
    split_ifs at hr with h0
    · obtain ⟨rfl, hx⟩ := returns_ret.1 hr
      cases hx
      exact ⟨x, by rwa [List.append_nil], rfl⟩
    · obtain ⟨w₁, r, w, rfl, hw₁, hk⟩ := returns_bind.1 hr
      cases r with
      | error r => cases (returns_ret.1 hk).2
      | ok x₁ =>
        -- the last turn never ends well
        obtain ⟨_, w, rfl, hk'⟩ := returns_call.1 hk
        obtain ⟨_, _, _, -, -, hret⟩ := returns_bind.1 hk'
        cases (returns_ret.1 hret).2
  | succ left ih =>
    rw [ioLoop] at hr
    split_ifs at hr with h0
    · obtain ⟨rfl, hx⟩ := returns_ret.1 hr
      cases hx
      exact ⟨x, by rwa [List.append_nil], rfl⟩
    · obtain ⟨w₁, r, w, rfl, hw₁, hk⟩ := returns_bind.1 hr
      cases r with
      | error r => cases (returns_ret.1 hk).2
      | ok x₁ =>
        have h₁ := progress_ioRound hmsg h hw₁
        dsimp only at hk
        split_ifs at hk with hsleep
        · obtain ⟨_, w, rfl, hk'⟩ := returns_call.1 hk
          obtain ⟨x', hx', rfl⟩ := ih (h₁.append (u := [⟨.sleep 1, ()⟩]) rfl rfl) hk'
          exact ⟨x', by simpa using hx', rfl⟩
        · obtain ⟨x', hx', rfl⟩ := ih h₁ hk
          exact ⟨x', by simpa using hx', rfl⟩

theorem ne_zero_of_mem_cstr {b : UInt8} {buf : List UInt8} (h : b ∈ cstr buf) : b ≠ 0 := by
  have hb := List.mem_takeWhile_imp h
  simpa using hb

/-- The C string in a buffer of zeros with at most as many bytes in it as the string has. -/
theorem eq_of_cstr {got msg : List UInt8} {k : ℕ} (hlen : got.length ≤ msg.length)
    (h : cstr (got ++ List.replicate k 0) = msg) : got = msg := by
  have hpre : msg <+: got ++ List.replicate k 0 := h ▸ List.takeWhile_prefix _
  obtain ⟨r, rfl⟩ := List.prefix_of_prefix_length_le (List.prefix_append _ _) hpre hlen
  have hr : r <+: List.replicate k 0 := (List.prefix_append_right_inj got).1 hpre
  -- what the string has beyond them would have to be zeros
  cases r with
  | nil => exact (List.append_nil got).symm
  | cons b r =>
    have hb : b = 0 := List.eq_of_mem_replicate (hr.subset List.mem_cons_self)
    have hmem : b ∈ cstr (got ++ List.replicate k 0) := by
      rw [h]
      exact List.mem_append_right _ List.mem_cons_self
    exact absurd hb (ne_zero_of_mem_cstr hmem)

theorem exchange_echo (hmsg : msg.length < bufSz)
    (hr : (connExchange p e msg).Returns w .echo) :
    received e.rd w = msg ∧ Conn.sent e.wd w <+: msg := by
  obtain ⟨w₁, r, w₂, rfl, hw₁, hk⟩ := returns_bind.1 hr
  cases r with
  | error r =>
    cases r with
    | timeout =>
      obtain ⟨_, _, _, -, -, hret⟩ := returns_bind.1 hk
      cases (returns_ret.1 hret).2
    | error =>
      obtain ⟨_, _, _, -, -, hret⟩ := returns_bind.1 hk
      cases (returns_ret.1 hret).2
  | ok rbuf =>
    dsimp only at hk
    split_ifs at hk with heq
    · obtain ⟨_, w₂, rfl, hk'⟩ := returns_call.1 hk
      obtain ⟨rfl, -⟩ := returns_ret.1 hk'
      have h₀ : Progress e msg [] ⟨msg, List.replicate bufSz 0, 0, msg.length⟩ :=
        ⟨rfl, rfl, (Nat.zero_add _).le, List.nil_prefix, .inr rfl⟩
      obtain ⟨x, hx, rfl⟩ := progress_ioLoop hmsg h₀ hw₁
      have hx' := hx.append (u := [⟨.errlog .connectionOk, ()⟩]) rfl rfl
      rw [List.nil_append] at hx'
      rw [hx'.rbuf] at heq
      exact ⟨eq_of_cstr ((Nat.le_add_right _ _).trans hx'.rleft) heq, hx'.sent⟩
    · obtain ⟨_, _, _, -, -, hret⟩ := returns_bind.1 hk
      cases (returns_ret.1 hret).2

/-! ### The last turn -/

/-- The descriptor that a turn with the trace `v` reads from: the write connection in echo mode, and
otherwise the connection it has accepted, or 0 if `poll` woke up without `POLLIN`. -/
def ReadsFrom (p : Probe) (wd : ℕ) (v : List (Event Answer)) (rd : ℤ) : Prop :=
  if p.sock = noRdSock then rd = wd
  else (∃ fd : ℕ, (⟨.accept p.sock, .ok fd⟩ : Event Answer) ∈ v ∧ rd = fd) ∨
    (∃ revents, (⟨.poll [⟨p.sock, true, false⟩] p.netTimeout, .ready revents⟩ : Event Answer) ∈ v ∧
      (revents.getD 0 {}).pollin = false ∧ rd = 0)

theorem ReadsFrom.mono {wd : ℕ} {rd : ℤ} (h : ReadsFrom p wd v rd) (hw : v ⊆ w) :
    ReadsFrom p wd w rd := by
  unfold ReadsFrom at h ⊢
  split_ifs at h ⊢ with hsock
  · exact h
  · rcases h with ⟨fd, hfd, hrd⟩ | ⟨revents, hrev, hin⟩
    · exact .inl ⟨fd, hw hfd, hrd⟩
    · exact .inr ⟨revents, hw hrev, hin⟩

/-- The last turn of a test with the trace `t`.  Every turn asks for the process id once, for its
message. -/
structure LastTurn (p : Probe) (t : List (Event Answer)) where
  nodename : Text
  id : ℤ
  pid : ℤ
  wd : ℕ
  rd : ℤ
  before : List (Event Answer)
  after : List (Event Answer)
  trace : t = ⟨.uname, nodename⟩ :: ⟨.random, id⟩ :: (before ++ ⟨.getpid, pid⟩ :: after)
  last : ∀ e ∈ after, e.1 ≠ .getpid
  connected : (⟨.socket, .ok wd⟩ : Event Answer) ∈ before
  reads : ReadsFrom p wd after rd

/-- The message of the last turn. -/
def LastTurn.message (l : LastTurn p t) : List UInt8 :=
  Conn.message l.nodename (p.progname.getD autossh) l.pid l.id p.echoMessage

theorem returns_connRemote {wd : ℤ} (h : (connRemote p).Returns w wd) (hne : wd ≠ -1) :
    ∃ fd : ℕ, (⟨.socket, .ok fd⟩ : Event Answer) ∈ w ∧ wd = fd := by
  obtain ⟨w₀, _, w, rfl, -, h⟩ := returns_bind.1 h
  obtain ⟨r, w, rfl, hk⟩ := returns_call.1 h
  cases r with
  | error err =>
    obtain ⟨r, -⟩ := returns_call.1 hk
    exact r.elim
  | ok fd =>
    refine ⟨fd, by simp, ?_⟩
    obtain ⟨r, w, rfl, hk'⟩ := returns_call.1 hk
    cases r with
    | error err =>
      obtain ⟨_, _, _, -, -, hclose⟩ := returns_bind.1 hk'
      obtain ⟨_, _, -, hret⟩ := returns_call.1 hclose
      exact absurd (returns_ret.1 hret).2.symm hne
    | ok _ => exact (returns_ret.1 hk').2.symm

theorem returns_connPollForAccept {rd : ℤ} (h : (connPollForAccept p).Returns w rd)
    (h0 : ¬rd < 0) : ∃ revents,
      (w = [⟨.poll [⟨p.sock, true, false⟩] p.netTimeout, .ready revents⟩] ∧
        (revents.getD 0 {}).pollin = false ∧ rd = 0) ∨
      ∃ fd : ℕ, w = [⟨.poll [⟨p.sock, true, false⟩] p.netTimeout, .ready revents⟩,
        ⟨.accept p.sock, .ok fd⟩] ∧ rd = fd := by
  obtain ⟨r, w, rfl, hk⟩ := returns_call.1 h
  cases r with
  | timeout =>
    obtain ⟨_, _, _, -, -, hret⟩ := returns_bind.1 hk
    obtain ⟨-, rfl⟩ := returns_ret.1 hret
    exact absurd (by decide) h0
  | error err =>
    obtain ⟨_, _, _, -, -, hret⟩ := returns_bind.1 hk
    obtain ⟨-, rfl⟩ := returns_ret.1 hret
    exact absurd (by decide) h0
  | ready revents =>
    refine ⟨revents, ?_⟩
    dsimp only at hk
    split_ifs at hk with hin
    · obtain ⟨r, w, rfl, hk'⟩ := returns_call.1 hk
      cases r with
      | error err =>
        obtain ⟨_, _, _, -, -, hret⟩ := returns_bind.1 hk'
        obtain ⟨-, rfl⟩ := returns_ret.1 hret
        exact absurd (by decide) h0
      | ok fd =>
        obtain ⟨rfl, rfl⟩ := returns_ret.1 hk'
        exact .inr ⟨fd, rfl, rfl⟩
    · obtain ⟨rfl, rfl⟩ := returns_ret.1 hk
      exact .inl ⟨rfl, Bool.eq_false_iff.2 hin, rfl⟩

theorem returns_hangUp {fd : ℤ} {r : Unit} (h : (hangUp fd).Returns w r) :
    w = [⟨.shutdown fd, ()⟩, ⟨.close fd, ()⟩] := by
  obtain ⟨_, w, rfl, hk⟩ := returns_call.1 h
  obtain ⟨_, w, rfl, hk'⟩ := returns_call.1 hk
  obtain ⟨rfl, -⟩ := returns_ret.1 hk'
  rfl

/-- Hanging up neither reads nor writes. -/
theorem returns_hangUpRead {rd : ℤ} {r : Unit} (h : (hangUpRead p rd).Returns w r) :
    ∀ e ∈ w, Conn.idle e.1 = true ∧ e.1 ≠ .getpid := by
  unfold hangUpRead at h
  split_ifs at h with hc
  · rw [returns_hangUp h]
    simp [Conn.idle]
  · obtain ⟨rfl, -⟩ := returns_ret.1 h
    simp

theorem ne_getpid_of_plain {c : Call} (h : plain c = true) : c ≠ .getpid := by
  rintro rfl
  cases h

/-- A turn that ends with an echo has read the message from its read connection. -/
theorem returns_connTurn {wd : ℕ} {rd : ℤ} (h : (connTurn p wd msg).Returns v (.echo, rd)) :
    ∃ rd, ReadsFrom p wd v rd ∧ received rd v = msg ∧ Conn.sent wd v <+: msg ∧
      ∀ e ∈ v, e.1 ≠ .getpid := by
  unfold connTurn at h
  split_ifs at h with hbuf hsock
  · obtain ⟨r, -⟩ := returns_call.1 h
    exact r.elim
  · obtain ⟨v₁, rd, v₂, rfl, hv₁, hk⟩ := returns_bind.1 h
    split_ifs at hk with hlt
    · cases (returns_ret.1 hk).2
    · obtain ⟨v₂, o, v₃, rfl, hv₂, hret⟩ := returns_bind.1 hk
      obtain ⟨rfl, ho⟩ := returns_ret.1 hret
      cases ho
      obtain ⟨hr, hw⟩ := exchange_echo (Nat.lt_of_not_le hbuf) hv₂
      have hpid := fun ev hev => ne_getpid_of_plain (exchange_plain hv₂ ev hev)
      have hsock' : ¬p.sock = noRdSock := hsock
      rw [List.append_nil]
      rcases returns_connPollForAccept hv₁ hlt with ⟨revents, ⟨rfl, hin, rfl⟩ | ⟨fd, rfl, rfl⟩⟩
      · refine ⟨0, ?_, hr, hw, ?_⟩
        · rw [ReadsFrom, if_neg hsock']
          exact .inr ⟨revents, by simp, hin, rfl⟩
        · simpa using hpid
      · refine ⟨fd, ?_, hr, hw, ?_⟩
        · rw [ReadsFrom, if_neg hsock']
          exact .inl ⟨fd, by simp, rfl⟩
        · simpa using hpid
  · obtain ⟨v₂, o, v₃, rfl, hv₂, hret⟩ := returns_bind.1 h
    obtain ⟨rfl, ho⟩ := returns_ret.1 hret
    cases ho
    obtain ⟨hr, hw⟩ := exchange_echo (Nat.lt_of_not_le hbuf) hv₂
    rw [List.append_nil]
    refine ⟨wd, ?_, hr, hw, fun ev hev => ne_getpid_of_plain (exchange_plain hv₂ ev hev)⟩
    rw [ReadsFrom, if_pos (not_not.1 hsock)]

/-- A retry loop that succeeds does so in its last turn. -/
theorem returns_connTries {wd : ℤ} {nodename : Text} {id : ℤ} {left : ℕ} {rd rd' : ℤ}
    (h : (connTries p wd nodename id left rd).Returns w (1, rd')) :
    ∃ u pid v, w = u ++ ⟨.getpid, pid⟩ :: v ∧
      (connTurn p wd (message nodename (p.progname.getD autossh) pid id p.echoMessage)).Returns v
        (.echo, rd') := by
  induction left generalizing rd w with
  | zero => cases (returns_ret.1 h).2
  | succ left ih =>
    rw [connTries] at h
    split_ifs at h with hlast
    · obtain ⟨_, _, _, -, -, hret⟩ := returns_bind.1 h
      cases (returns_ret.1 hret).2
    · obtain ⟨w₁, ⟨o, rd₁⟩, w₂, rfl, hw₁, hk⟩ := returns_bind.1 h
      cases o with
      | noRead => cases (returns_ret.1 hk).2
      | hardError => cases (returns_ret.1 hk).2
      | timeout =>
        obtain ⟨u, pid, v, rfl, hv⟩ := ih hk
        exact ⟨w₁ ++ u, pid, v, (List.append_assoc _ _ _).symm, hv⟩
      | garbled =>
        obtain ⟨u, pid, v, rfl, hv⟩ := ih hk
        exact ⟨w₁ ++ u, pid, v, (List.append_assoc _ _ _).symm, hv⟩
      | echo =>
        obtain ⟨rfl, hrd⟩ := returns_ret.1 hk
        cases hrd
        obtain ⟨u, _, v, rfl, -, hcall⟩ := returns_bind.1 hw₁
        obtain ⟨pid, v, rfl, hv⟩ := returns_call.1 hcall
        exact ⟨u, pid, v, List.append_nil _, hv⟩

/-- **A test returns 1 only if, in its last turn, the bytes it has read from the read connection are
the message of that turn**, in order and in full; what it has written is that message too, or the
beginning of it. -/
theorem connTest_sound (h : (connTest p).Returns t 1) :
    ∃ l : LastTurn p t,
      received l.rd l.after = l.message ∧ Conn.sent l.wd l.after <+: l.message := by
  obtain ⟨nodename, t, rfl, h₁⟩ := returns_call.1 h
  obtain ⟨id, t, rfl, h₂⟩ := returns_call.1 h₁
  obtain ⟨w, wd, t, rfl, hw, h₃⟩ := returns_bind.1 h₂
  split_ifs at h₃ with hwd
  · cases (returns_ret.1 h₃).2
  · obtain ⟨fd, hfd, rfl⟩ := returns_connRemote hw hwd
    obtain ⟨w₁, ⟨rval, rd⟩, t, rfl, hw₁, h₄⟩ := returns_bind.1 h₃
    obtain ⟨w₂, _, t, rfl, hw₂, h₅⟩ := returns_bind.1 h₄
    obtain ⟨w₃, _, t, rfl, hw₃, h₆⟩ := returns_bind.1 h₅
    obtain ⟨rfl, rfl⟩ := returns_ret.1 h₆
    obtain ⟨u, pid, v, rfl, hv⟩ := returns_connTries hw₁
    obtain ⟨rd', hreads, hr, hs, hpid⟩ := returns_connTurn hv
    -- hanging up at the end moves no bytes
    have hidle : ∀ e ∈ w₂ ++ (w₃ ++ []), Conn.idle e.1 = true ∧ e.1 ≠ .getpid := by
      intro e he
      rw [List.append_nil] at he
      rcases List.mem_append.1 he with he | he
      · rw [returns_hangUp hw₂] at he
        rcases List.mem_pair.1 he with rfl | rfl <;> simp [Conn.idle]
      · exact returns_hangUpRead hw₃ e he
    refine ⟨⟨nodename, id, pid, fd, rd', w ++ u, v ++ (w₂ ++ (w₃ ++ [])), by simp, ?_,
      List.mem_append_left _ hfd, hreads.mono (List.subset_append_left _ _)⟩, ?_, ?_⟩
    · intro e he
      rcases List.mem_append.1 he with he | he
      · exact hpid e he
      · exact (hidle e he).2
    · rw [received_append, received_of_idle fun e he => (hidle e he).1, List.append_nil]
      exact hr
    · rw [sent_append, sent_of_idle fun e he => (hidle e he).1, List.append_nil]
      exact hs

theorem connTest_sound_echoTrace : (connTest sample).Returns echoTrace 1 ∧
    ∃ l : LastTurn sample echoTrace, received l.rd l.after = l.message ∧
      Conn.sent l.wd l.after <+: l.message :=
  ⟨echoTrace_returns, connTest_sound echoTrace_returns⟩

end Conn

end Autossh
