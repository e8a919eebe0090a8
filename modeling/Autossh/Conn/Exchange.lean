import Autossh.Conn.Basic
import Autossh.Interact.Protocol

/-!
# What an exchange keeps

The calls of `conn_send_and_receive` and of what `conn_test` makes of its result are few: `poll`,
`write` on one end, `read` on the other, `sleep` and log lines.  A protocol that allows these, with
an invariant they keep, is followed by the whole exchange.

* `Exchange M I net e` : the protocol `M` allows the calls of an exchange between the ends `e`;
* `keeps_connExchange` : **then the exchange follows `M` and keeps `I`**;
* `keeps_connRemote`, `keeps_connPollForAccept`, `keeps_connTurn` : the same for the rest of a turn;
* `connTurn_plain` : past `getpid`, a turn makes none of the calls that mark a turn of the retry
  loop.
-/

namespace Autossh

namespace Conn

open Prog

variable {S : Type} {M : Machine S (Event Answer)} {I : S → Prop} {p : Probe}

theorem keeps_errlog {m : Msg} (h : Allows M I (.errlog m)) : Keeps M I (errlog m) :=
  keeps_call h fun _ => keeps_ret _

theorem wp_xerrlog {α : Type} {Q : α → S → Prop} {s : S} (m : Msg) :
    (xerrlog m : Io α).wp M Q s := fun x => x.elim

theorem keeps_xerrlog {α : Type} (m : Msg) : Keeps M I (xerrlog m : Io α) :=
  fun _ _ => wp_xerrlog m

theorem keeps_hangUp {fd : ℤ} (hs : Allows M I (.shutdown fd)) (hc : Allows M I (.close fd)) :
    Keeps M I (hangUp fd) :=
  keeps_call hs fun _ => keeps_call hc fun _ => keeps_ret _

/-- A protocol that allows the calls of an exchange between the ends `e`, and an invariant they
keep. -/
structure Exchange (M : Machine S (Event Answer)) (I : S → Prop) (net : ℤ) (e : Ends) : Prop where
  poll : ∀ unsent, Allows M I (.poll (e.pollfds unsent) net)
  write : ∀ b, Allows M I (.write e.wd b)
  read : ∀ n, Allows M I (.read e.rd n)
  sleep : Allows M I (.sleep 1)
  errlog : ∀ m, (∀ n, m ≠ .tried n) → Allows M I (.errlog m)

theorem keeps_writeLoop {fd : ℤ} (h : ∀ b, Allows M I (.write fd b)) (n : ℕ) (wp : List UInt8) :
    Keeps M I (writeLoop fd n wp) := by
  induction n generalizing wp with
  | zero => exact keeps_ret _
  | succ n ih =>
    refine keeps_ite (fun _ => keeps_ret _) fun _ => keeps_call (h wp) fun x => ?_
    cases x with
    | ok k => exact keeps_ite (fun _ => keeps_ret _) fun _ => ih _
    | error e => exact keeps_ite (fun _ => keeps_ret _) fun _ => keeps_ret _

theorem keeps_readLoop {fd : ℤ} (h : ∀ k, Allows M I (.read fd k)) (n : ℕ) (x : Xfer) :
    Keeps M I (readLoop fd n x) := by
  induction n generalizing x with
  | zero => exact keeps_ret _
  | succ n ih =>
    refine keeps_ite (fun _ => keeps_ret _) fun _ => keeps_call (h x.rleft) fun r => ?_
    cases r with
    | ok b => exact keeps_ite (fun _ => keeps_ret _) fun _ => ih _
    | error e => exact keeps_ite (fun _ => keeps_ret _) fun _ => keeps_ret _

namespace Exchange

variable {net : ℤ} {e : Ends} (h : Exchange M I net e)

include h

theorem keeps_sendPart (revents : List Revents) (x : Xfer) : Keeps M I (sendPart e revents x) :=
  keeps_ite (fun _ => keeps_bind (keeps_writeLoop h.write _ _) fun _ => keeps_ret _)
    fun _ => keeps_ret _

theorem keeps_receivePart (revents : List Revents) (x : Xfer) :
    Keeps M I (receivePart e revents x) :=
  keeps_ite (fun _ => keeps_readLoop h.read _ _) fun _ => keeps_ret _

theorem keeps_ioRound (x : Xfer) : Keeps M I (ioRound net e x) := by
  refine keeps_call (h.poll _) fun r => ?_
  cases r with
  | timeout => exact keeps_ret _
  | error _ => exact keeps_ret _
  | ready revents =>
    refine keeps_bind (h.keeps_sendPart _ _) fun o => ?_
    cases o with
    | none => exact keeps_ret _
    | some x =>
      refine keeps_bind (h.keeps_receivePart _ _) fun o => ?_
      cases o with
      | none => exact keeps_ret _
      | some x => exact keeps_ret _

theorem keeps_ioLoop (left : ℕ) (x : Xfer) : Keeps M I (ioLoop net e left x) := by
  induction left generalizing x with
  | zero =>
    rw [ioLoop]
    refine keeps_ite (fun _ => keeps_ret _) fun _ => keeps_bind (h.keeps_ioRound x) fun r => ?_
    cases r with
    | error r => exact keeps_ret _
    | ok x =>
      refine keeps_call h.sleep fun _ => ?_
      exact keeps_bind (keeps_errlog (h.errlog _ (by simp))) fun _ => keeps_ret _
  | succ left ih =>
    rw [ioLoop]
    refine keeps_ite (fun _ => keeps_ret _) fun _ => keeps_bind (h.keeps_ioRound x) fun r => ?_
    cases r with
    | error r => exact keeps_ret _
    | ok x => exact keeps_ite (fun _ => keeps_call h.sleep fun _ => ih _) fun _ => ih _

end Exchange

theorem keeps_connExchange {e : Ends} (h : Exchange M I p.netTimeout e) (wbuf : List UInt8) :
    Keeps M I (connExchange p e wbuf) := by
  refine keeps_bind (h.keeps_ioLoop _ _) fun r => ?_
  cases r with
  | ok rbuf =>
    exact keeps_ite (fun _ => keeps_bind (keeps_errlog (h.errlog _ (by simp))) fun _ => keeps_ret _)
      fun _ => keeps_bind (keeps_errlog (h.errlog _ (by simp))) fun _ => keeps_ret _
  | error r =>
    cases r with
    | timeout => exact keeps_bind (keeps_errlog (h.errlog _ (by simp))) fun _ => keeps_ret _
    | error => exact keeps_bind (keeps_errlog (h.errlog _ (by simp))) fun _ => keeps_ret _

theorem keeps_connRemote (hlog : ∀ m, (∀ n, m ≠ .tried n) → Allows M I (.errlog m))
    (hgai : Allows M I (.getaddrinfo p.host p.port)) (hsocket : Allows M I .socket)
    (hconnect : ∀ fd, Allows M I (.connect fd)) (hclose : ∀ fd, Allows M I (.close fd)) :
    Keeps M I (connRemote p) := by
  refine keeps_bind (keeps_ite (fun _ => keeps_ret _) fun _ => ?_) fun _ => ?_
  · refine keeps_call hgai fun r => ?_
    cases r with
    | error e => exact keeps_xerrlog _
    | ok _ => exact keeps_ret _
  · refine keeps_call hsocket fun r => ?_
    cases r with
    | error e => exact keeps_xerrlog _
    | ok sock =>
      refine keeps_call (hconnect sock) fun r => ?_
      cases r with
      | error e =>
        exact keeps_bind (keeps_errlog (hlog _ (by simp))) fun _ =>
          keeps_call (hclose sock) fun _ => keeps_ret _
      | ok _ => exact keeps_ret _

theorem keeps_connPollForAccept (hlog : ∀ m, (∀ n, m ≠ .tried n) → Allows M I (.errlog m))
    (hpoll : Allows M I (.poll [⟨p.sock, true, false⟩] p.netTimeout))
    (haccept : Allows M I (.accept p.sock)) : Keeps M I (connPollForAccept p) := by
  refine keeps_call hpoll fun r => ?_
  cases r with
  | timeout => exact keeps_bind (keeps_errlog (hlog _ (by simp))) fun _ => keeps_ret _
  | error e => exact keeps_bind (keeps_errlog (hlog _ (by simp))) fun _ => keeps_ret _
  | ready revents =>
    refine keeps_ite (fun _ => ?_) fun _ => keeps_ret _
    refine keeps_call haccept fun r => ?_
    cases r with
    | error e => exact keeps_bind (keeps_errlog (hlog _ (by simp))) fun _ => keeps_ret _
    | ok rd => exact keeps_ret _

/-- A turn, in a protocol whose invariant does not depend on what is accepted. -/
theorem keeps_connTurn {wd : ℤ} {wbuf : List UInt8} (haccept : Keeps M I (connPollForAccept p))
    (hexchange : ∀ e, Exchange M I p.netTimeout e) : Keeps M I (connTurn p wd wbuf) := by
  refine keeps_ite (fun _ => keeps_xerrlog _) fun _ => keeps_ite (fun _ => ?_) fun _ => ?_
  · exact keeps_bind haccept fun rd => keeps_ite (fun _ => keeps_ret _) fun _ =>
      keeps_bind (keeps_connExchange (hexchange _) _) fun _ => keeps_ret _
  · exact keeps_bind (keeps_connExchange (hexchange _) _) fun _ => keeps_ret _

/-! ### Calls that mark no turn -/

/-- The calls other than those that mark a turn of the retry loop: `getpid` for its message, and the
line about giving up. -/
def plain : Call → Bool
  | .getpid => false
  | .errlog (.tried _) => false
  | _ => true

theorem allows_plain {c : Call} (h : plain c = true) :
    Allows (A := Answer) (only fun c => plain c = true) (fun _ => True) c := allows_only h

theorem plain_errlog {m : Msg} (hm : ∀ n, m ≠ .tried n) : plain (.errlog m) = true := by
  cases m with
  | tried n => exact absurd rfl (hm n)
  | _ => rfl

theorem plain_exchange (net : ℤ) (e : Ends) :
    Exchange (only fun c => plain c = true) (fun _ => True) net e where
  poll _ := allows_plain rfl
  write _ := allows_plain rfl
  read _ := allows_plain rfl
  sleep := allows_plain rfl
  errlog _ hm := allows_plain (plain_errlog hm)

variable {w : List (Event Answer)}

theorem exchange_plain {e : Ends} {msg : List UInt8} {o : Outcome}
    (h : (connExchange p e msg).Returns w o) : ∀ ev ∈ w, plain ev.1 = true :=
  Steps.calls h (keeps_connExchange (plain_exchange _ e) msg)

theorem hangUp_plain {fd : ℤ} {r : Unit} (h : (hangUp fd).Returns w r) :
    ∀ ev ∈ w, plain ev.1 = true :=
  Steps.calls h (keeps_hangUp (allows_plain rfl) (allows_plain rfl))

theorem hangUpRead_plain {rd : ℤ} {r : Unit} (h : (hangUpRead p rd).Returns w r) :
    ∀ ev ∈ w, plain ev.1 = true :=
  Steps.calls h (keeps_ite (fun _ => keeps_hangUp (allows_plain rfl) (allows_plain rfl))
    fun _ => keeps_ret _)

theorem connTurn_plain {wd : ℤ} {wbuf : List UInt8} {r : Outcome × ℤ}
    (h : (connTurn p wd wbuf).Returns w r) : ∀ ev ∈ w, plain ev.1 = true :=
  Steps.calls h (keeps_connTurn (keeps_connPollForAccept
    (fun _ hm => allows_plain (plain_errlog hm)) (allows_plain rfl) (allows_plain rfl))
    (plain_exchange _))

theorem connRemote_plain {wd : ℤ} (h : (connRemote p).Returns w wd) :
    ∀ ev ∈ w, plain ev.1 = true :=
  Steps.calls h (keeps_connRemote (fun _ hm => allows_plain (plain_errlog hm)) (allows_plain rfl)
    (allows_plain rfl) (fun _ => allows_plain rfl) fun _ => allows_plain rfl)

end Conn

end Autossh
