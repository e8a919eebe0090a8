import Autossh.Conn.Exchange
import Mathlib.Algebra.Order.Group.Multiset
import Mathlib.Algebra.Order.Sub.Basic

/-!
# The descriptors of the network monitor

`conn_test` obtains the socket it connects and the connections it accepts.  Whether it gives them
all back, and keeps its hands off every other descriptor, depends on one thing: `poll` may wake up
on the listening socket without `POLLIN`, and `conn_poll_for_accept` then returns 0, which its
caller takes for a descriptor.

* `opens`, `closes`, `touches` say which descriptors a call obtains, closes or works on, and `held`
  what is obtained and not closed yet;
* `desk` is the protocol of a program that works on what it holds; a wake-up without `POLLIN` counts
  as if it had obtained descriptor 0;
* `connTest_desk` : `conn_test` follows it, and holds nothing at its end;
* `sockets_closed_iff` : **a test closes what it obtains, once, and touches nothing else, exactly if
  every wake-up on the listening socket has `POLLIN`.**
-/

namespace Autossh

namespace Conn

open Prog

variable {p : Probe} {t : List (Event Answer)}

/-- The descriptors a call obtains. -/
def opens : Event Answer → List ℤ
  | ⟨.socket, .ok fd⟩ => [(fd : ℤ)]
  | ⟨.accept _, .ok fd⟩ => [(fd : ℤ)]
  | _ => []

/-- The descriptors a call closes. -/
def closes : Event Answer → List ℤ
  | ⟨.close fd, _⟩ => [fd]
  | _ => []

/-- The descriptors a call works on, apart from polling and accepting. -/
def touches : Call → List ℤ
  | .connect fd => [fd]
  | .read fd _ => [fd]
  | .write fd _ => [fd]
  | .shutdown fd => [fd]
  | .close fd => [fd]
  | _ => []

/-- What has been obtained and not been closed. -/
def held (t : List (Event Answer)) : Multiset ℤ :=
  (↑(t.flatMap opens) : Multiset ℤ) - ↑(t.flatMap closes)

/-- Every call works on what is held at that time. -/
def TouchesHeld (t : List (Event Answer)) : Prop :=
  ∀ u e v, t = u ++ e :: v → ∀ fd ∈ touches e.1, fd ∈ held u

/-- Everything that is obtained is closed once. -/
def ClosedOnce (t : List (Event Answer)) : Prop :=
  ∀ fd, (t.flatMap closes).count fd = (t.flatMap opens).count fd

/-- A `poll` that reports something, but no `POLLIN` for its first descriptor. -/
def stray : Event Answer → Bool
  | ⟨.poll _ _, .ready revents⟩ => !(revents.getD 0 {}).pollin
  | _ => false

/-- Every wake-up on the listening socket has `POLLIN`.  The `poll` on it is the call right after
the `getpid` for the message. -/
def Prompt (p : Probe) (t : List (Event Answer)) : Prop :=
  p.sock ≠ noRdSock → ∀ u pid e v, t = u ++ ⟨.getpid, pid⟩ :: e :: v → stray e = false

/-! ### The protocol -/

/-- What is known after some calls: whether the last one was `getpid`, the number of wake-ups
without `POLLIN` on the listening socket, and what is held, with a 0 for each of them. -/
structure Desk where
  asked : Bool
  strays : ℕ
  held : Multiset ℤ

/-- Whether the call is a wake-up without `POLLIN` on the listening socket. -/
def Desk.misled (p : Probe) (s : Desk) (e : Event Answer) : ℕ :=
  if p.sock ≠ noRdSock ∧ s.asked ∧ stray e then 1 else 0

/-- What is known after one more call. -/
def Desk.after (p : Probe) (s : Desk) (e : Event Answer) : Desk where
  asked := e.1 = .getpid
  strays := s.strays + s.misled p e
  held := s.held - ↑(closes e) + (↑(opens e) + Multiset.replicate (s.misled p e) 0)

/-- The protocol of a program that works on what it holds. -/
def desk (p : Probe) : Machine Desk (Event Answer) where
  next s e := if ∀ fd ∈ touches e.1, fd ∈ s.held then some (s.after p e) else none

/-- What a run of the protocol says about its trace. -/
structure Recorded (p : Probe) (t : List (Event Answer)) (s : Desk) : Prop where
  asked : s.asked = true ↔ ∃ u pid, t = u ++ [⟨.getpid, pid⟩]
  strays : s.strays = 0 ↔ Prompt p t
  balance : (↑(t.flatMap opens) : Multiset ℤ) + Multiset.replicate s.strays 0 =
    (↑(t.flatMap closes) : Multiset ℤ) + s.held
  own : s.strays = 0 → TouchesHeld t

theorem prompt_concat {e : Event Answer} :
    Prompt p (t ++ [e]) ↔ Prompt p t ∧
      (p.sock ≠ noRdSock → (∃ u pid, t = u ++ [⟨.getpid, pid⟩]) → stray e = false) := by
  constructor
  · intro h
    refine ⟨fun hp u pid e' v ht => h hp u pid e' (v ++ [e]) ?_, ?_⟩
    · rw [ht]
      simp
    · rintro hp ⟨u, pid, rfl⟩
      exact h hp u pid e [] (by simp)
  · rintro ⟨h, he⟩ hp u pid e' v ht
    have ht' : t ++ [e] = (u ++ [⟨.getpid, pid⟩]) ++ e' :: v := by simpa using ht
    rcases concat_eq_append_cons ht' with ⟨-, rfl, rfl⟩ | ⟨v, -, rfl⟩
    · exact he hp ⟨u, pid, rfl⟩
    · exact h hp u pid e' v (by simp)

theorem touchesHeld_concat {e : Event Answer} (h : TouchesHeld t)
    (he : ∀ fd ∈ touches e.1, fd ∈ held t) : TouchesHeld (t ++ [e]) := by
  intro u e' v ht
  rcases concat_eq_append_cons ht with ⟨-, rfl, rfl⟩ | ⟨v, -, ht'⟩
  · exact he
  · exact h u e' v ht'

/-- What a call closes is what it works on. -/
theorem closes_le {e : Event Answer} {l : Multiset ℤ} (h : ∀ fd ∈ touches e.1, fd ∈ l) :
    (↑(closes e) : Multiset ℤ) ≤ l := by
  obtain ⟨c, x⟩ := e
  cases c with
  | close fd => exact Multiset.singleton_le.2 (h fd (List.mem_singleton.2 rfl))
  | _ => exact Multiset.zero_le l

theorem desk_next_eq_some {s s' : Desk} {e : Event Answer} :
    (desk p).next s e = some s' ↔ (∀ fd ∈ touches e.1, fd ∈ s.held) ∧ s' = s.after p e := by
  simp only [desk]
  split_ifs with h
  · rw [Option.some.injEq, eq_comm, and_iff_right h]
  · simp [h]

theorem Recorded.held_eq {s : Desk} (h : Recorded p t s) (h0 : s.strays = 0) : s.held = held t := by
  have hb := h.balance
  rw [h0, Multiset.replicate_zero, add_zero] at hb
  rw [held, hb, add_tsub_cancel_left]

theorem Recorded.concat {s s' : Desk} {e : Event Answer} (h : Recorded p t s)
    (hn : (desk p).next s e = some s') : Recorded p (t ++ [e]) s' := by
  obtain ⟨htouch, rfl⟩ := desk_next_eq_some.1 hn
  have hmisled : s.misled p e = 0 ↔
      (p.sock ≠ noRdSock → (∃ u pid, t = u ++ [⟨.getpid, pid⟩]) → stray e = false) := by
    rw [Desk.misled, ← h.asked]
    by_cases hp : p.sock = noRdSock <;> cases s.asked <;> cases stray e <;> simp [hp]
  refine ⟨?_, ?_, ?_, fun h0 => ?_⟩
  · rw [Desk.after, decide_eq_true_eq]
    constructor
    · intro he
      obtain ⟨c, x⟩ := e
      obtain rfl : c = .getpid := he
      exact ⟨t, x, rfl⟩
    · rintro ⟨u, pid, he⟩
      obtain ⟨-, rfl⟩ := List.append_singleton_inj.1 he
      rfl
  · rw [Desk.after, Nat.add_eq_zero_iff, h.strays, hmisled, prompt_concat]
  · have hle := closes_le htouch
    simp only [Desk.after, List.flatMap_append, List.flatMap_cons, List.flatMap_nil,
      List.append_nil, ← Multiset.coe_add, Multiset.replicate_add]
    calc (↑(t.flatMap opens) : Multiset ℤ) + ↑(opens e) +
          (Multiset.replicate s.strays 0 + Multiset.replicate (s.misled p e) 0)
        = (↑(t.flatMap opens) + Multiset.replicate s.strays 0) +
          (↑(opens e) + Multiset.replicate (s.misled p e) 0) := add_add_add_comm _ _ _ _
      _ = ↑(t.flatMap closes) + s.held + (↑(opens e) + Multiset.replicate (s.misled p e) 0) := by
          rw [h.balance]
      _ = ↑(t.flatMap closes) + ↑(closes e) +
          (s.held - ↑(closes e) + (↑(opens e) + Multiset.replicate (s.misled p e) 0)) := by
          rw [← add_assoc (_ + _) (_ - _), add_assoc _ (↑(closes e) : Multiset ℤ) (_ - _),
            add_tsub_cancel_of_le hle]
  · obtain ⟨hs, -⟩ := Nat.add_eq_zero_iff.1 h0
    exact touchesHeld_concat (h.own hs) fun fd hfd => h.held_eq hs ▸ htouch fd hfd

theorem desk_recorded {s : Desk} (h : (desk p).Run ⟨false, 0, 0⟩ t s) : Recorded p t s := by
  refine Machine.Run.induct (P := fun t s => Recorded p t s) ?_ ?_ h
  · refine ⟨by simp, ⟨fun _ _ u pid e v ht => ?_, fun _ => rfl⟩, rfl, fun _ u e v ht => ?_⟩
    · simp at ht
    · simp at ht
  · intro t s e s' _ hs hn
    exact hs.concat hn

/-! ### The test follows the protocol -/

/-- The descriptors `l` are held, and the next call is not the `poll` on the listening socket. -/
structure Quiet (p : Probe) (n : ℕ) (l : Multiset ℤ) (s : Desk) : Prop where
  strays : s.strays = n
  held : s.held = l
  asked : p.sock ≠ noRdSock → s.asked = false

variable {n : ℕ} {l : Multiset ℤ}

theorem Quiet.misled_eq {s : Desk} (h : Quiet p n l s) (e : Event Answer) : s.misled p e = 0 := by
  rw [Desk.misled, if_neg]
  rintro ⟨hp, ha, -⟩
  rw [h.asked hp] at ha
  cases ha

/-- A call on what is held that obtains and closes what `opens` and `closes` say. -/
theorem Quiet.next {s : Desk} (h : Quiet p n l s) {e : Event Answer}
    (ht : ∀ fd ∈ touches e.1, fd ∈ l) (hg : e.1 ≠ .getpid) :
    ∃ s', (desk p).next s e = some s' ∧ Quiet p n (l - ↑(closes e) + ↑(opens e)) s' := by
  refine ⟨_, desk_next_eq_some.2 ⟨h.held ▸ ht, rfl⟩, ?_, ?_, fun _ => decide_eq_false hg⟩
  · rw [Desk.after, h.misled_eq, h.strays, add_zero]
  · rw [Desk.after, h.misled_eq, h.held, Multiset.replicate_zero]
    simp only [add_zero]

/-- A call that only works on what is held leaves everything as it is. -/
theorem desk_allows {c : Call} (ht : ∀ fd ∈ touches c, fd ∈ l) (hg : c ≠ .getpid)
    (ho : ∀ x : Answer c, opens ⟨c, x⟩ = []) (hc : ∀ x : Answer c, closes ⟨c, x⟩ = []) :
    Allows (desk p) (Quiet p n l) c := by
  intro s x hs
  obtain ⟨s', hn, hs'⟩ := hs.next (e := ⟨c, x⟩) ht hg
  rw [ho x, hc x] at hs'
  refine ⟨s', hn, ?_⟩
  simpa using hs'

theorem desk_allows_errlog (m : Msg) : Allows (desk p) (Quiet p n l) (.errlog m) :=
  desk_allows (by simp [touches]) (by simp) (fun _ => rfl) fun _ => rfl

theorem desk_exchange {e : Ends} (hr : e.rd ∈ l) (hw : e.wd ∈ l) (net : ℤ) :
    Exchange (desk p) (Quiet p n l) net e where
  poll _ := desk_allows (by simp [touches]) (by simp) (fun _ => rfl) fun _ => rfl
  write _ := desk_allows (by simpa [touches] using hw) (by simp) (fun _ => rfl) fun _ => rfl
  read _ := desk_allows (by simpa [touches] using hr) (by simp) (fun _ => rfl) fun _ => rfl
  sleep := desk_allows (by simp [touches]) (by simp) (fun _ => rfl) fun _ => rfl
  errlog m _ := desk_allows_errlog m

/-- Closing a descriptor takes it away. -/
theorem Quiet.close {s : Desk} {fd : ℤ} (h : Quiet p n ({fd} + l) s) (x : Unit) :
    ∃ s', (desk p).next s ⟨.close fd, x⟩ = some s' ∧ Quiet p n l s' := by
  obtain ⟨s', hn, hs'⟩ := h.next (e := ⟨.close fd, x⟩) (by simp [touches]) (by simp)
  refine ⟨s', hn, ?_⟩
  have hl : {fd} + l - (↑(closes ⟨.close fd, x⟩) : Multiset ℤ) + ↑(opens ⟨.close fd, x⟩) = l := by
    show {fd} + l - {fd} + 0 = l
    rw [add_zero, add_tsub_cancel_left]
  rwa [hl] at hs'

theorem desk_hangUp {s : Desk} {fd : ℤ} (h : Quiet p n ({fd} + l) s) :
    (hangUp fd).wp (desk p) (fun _ s => Quiet p n l s) s := by
  intro x
  have hs : Allows (desk p) (Quiet p n ({fd} + l)) (.shutdown fd) :=
    desk_allows (by simp [touches]) (by simp) (fun _ => rfl) fun _ => rfl
  obtain ⟨s₁, hn₁, h₁⟩ := hs s x h
  refine ⟨s₁, hn₁, fun y => ?_⟩
  obtain ⟨s₂, hn₂, h₂⟩ := h₁.close y
  exact ⟨s₂, hn₂, h₂⟩

/-- What the variable `rd` stands for. -/
def reading (p : Probe) (rd : ℤ) : Multiset ℤ :=
  if p.sock ≠ noRdSock ∧ rd ≠ -1 then {rd} else 0

theorem desk_hangUpRead {s : Desk} {rd : ℤ} (h : Quiet p n (reading p rd + l) s) :
    (hangUpRead p rd).wp (desk p) (fun _ s => Quiet p n l s) s := by
  unfold hangUpRead
  unfold reading at h
  split_ifs at h ⊢ with hc
  · exact desk_hangUp h
  · rwa [zero_add] at h

/-- `conn_remote` gives the socket it has connected, and holds nothing otherwise. -/
theorem desk_connRemote {s : Desk} (h : Quiet p n 0 s) :
    (connRemote p).wp (desk p)
      (fun wd s => Quiet p n (if wd = -1 then 0 else {wd}) s) s := by
  have haddr : Keeps (desk p) (Quiet p n 0) (if p.resolved then .ret () else connAddr p) := by
    refine keeps_ite (fun _ => keeps_ret _) fun _ => keeps_call ?_ fun r => ?_
    · exact desk_allows (by simp [touches]) (by simp) (fun _ => rfl) fun _ => rfl
    · cases r with
      | error e => exact keeps_xerrlog _
      | ok _ => exact keeps_ret _
  unfold connRemote
  rw [wp_bind]
  refine wp_mono (fun _ s hs r => ?_) (haddr s h)
  obtain ⟨s₁, hn₁, h₁⟩ := hs.next (e := ⟨.socket, r⟩) (by simp [touches]) (by simp)
  refine ⟨s₁, hn₁, ?_⟩
  cases r with
  | error e => exact wp_xerrlog _
  | ok sock =>
    have hl : (0 : Multiset ℤ) - ↑(closes ⟨.socket, .ok sock⟩) + ↑(opens ⟨.socket, .ok sock⟩) =
        {(sock : ℤ)} + 0 := rfl
    rw [hl] at h₁
    have hconn : Allows (desk p) (Quiet p n ({(sock : ℤ)} + 0)) (.connect sock) :=
      desk_allows (by simp [touches]) (by simp) (fun _ => rfl) fun _ => rfl
    intro r
    obtain ⟨s₂, hn₂, h₂⟩ := hconn s₁ r h₁
    refine ⟨s₂, hn₂, ?_⟩
    cases r with
    | error e =>
      intro x
      obtain ⟨s₃, hn₃, h₃⟩ := desk_allows_errlog _ s₂ x h₂
      refine ⟨s₃, hn₃, fun y => ?_⟩
      obtain ⟨s₄, hn₄, h₄⟩ := h₃.close y
      exact ⟨s₄, hn₄, h₄⟩
    | ok _ =>
      have hne : ¬(sock : ℤ) = -1 := by omega
      simpa only [wp_ret, if_neg hne, add_zero] using h₂

/-- `conn_poll_for_accept` gives a connection it has accepted or 0, which counts as obtained after a
wake-up without `POLLIN`. -/
theorem desk_connPollForAccept {s : Desk} (hp : p.sock ≠ noRdSock) (ha : s.asked = true)
    (hs : s.strays = n) (hl : s.held = l) :
    (connPollForAccept p).wp (desk p)
      (fun rd s => ∃ n, Quiet p n (reading p rd + l) s ∧ (rd < 0 → rd = -1)) s := by
  have hnone : ∀ {n s}, Quiet p n l s → ∃ n, Quiet p n (reading p (-1) + l) s ∧
      ((-1 : ℤ) < 0 → (-1 : ℤ) = -1) := by
    intro n s h
    have hr : reading p (-1) = 0 := if_neg fun hc => hc.2 rfl
    exact ⟨n, by rwa [hr, zero_add], fun _ => rfl⟩
  have hsome : ∀ rd : ℤ, 0 ≤ rd → reading p rd = {rd} := fun rd h0 => if_pos ⟨hp, by omega⟩
  -- the wake-up counts when it has no `POLLIN`
  have hquiet : ∀ r, stray ⟨.poll [⟨p.sock, true, false⟩] p.netTimeout, r⟩ = false →
      Quiet p n l (s.after p ⟨.poll [⟨p.sock, true, false⟩] p.netTimeout, r⟩) := by
    intro r hr
    have hm : s.misled p ⟨.poll [⟨p.sock, true, false⟩] p.netTimeout, r⟩ = 0 :=
      if_neg fun hc => by simp [hr] at hc
    exact ⟨by simp [Desk.after, hm, hs], by simp [Desk.after, hm, hl, closes, opens], fun _ => rfl⟩
  intro r
  have htouch : ∀ fd ∈ touches (.poll [⟨p.sock, true, false⟩] p.netTimeout), fd ∈ s.held := by
    simp [touches]
  refine ⟨_, desk_next_eq_some.2 ⟨htouch, rfl⟩, ?_⟩
  cases r with
  | timeout =>
    intro x
    obtain ⟨s', hn', h'⟩ := desk_allows_errlog _ _ x (hquiet .timeout rfl)
    exact ⟨s', hn', hnone h'⟩
  | error e =>
    intro x
    obtain ⟨s', hn', h'⟩ := desk_allows_errlog _ _ x (hquiet (.error e) rfl)
    exact ⟨s', hn', hnone h'⟩
  | ready revents =>
    by_cases hin : (revents.getD 0 {}).pollin = true
    · have hq := hquiet (.ready revents) (by simp only [stray, hin, Bool.not_true])
      simp only [hin, if_true]
      intro r
      obtain ⟨s₁, hn₁, h₁⟩ := hq.next (e := ⟨.accept p.sock, r⟩) (by simp [touches]) (by simp)
      refine ⟨s₁, hn₁, ?_⟩
      cases r with
      | error e =>
        intro x
        have h₁' : Quiet p n l s₁ := by simpa [closes, opens] using h₁
        obtain ⟨s', hn', h'⟩ := desk_allows_errlog _ _ x h₁'
        exact ⟨s', hn', hnone h'⟩
      | ok rd =>
        refine ⟨n, ?_, fun hlt => absurd hlt (by omega)⟩
        rw [hsome rd (by omega), add_comm]
        simpa [closes, opens] using h₁
    · have hm : s.misled p ⟨.poll [⟨p.sock, true, false⟩] p.netTimeout, .ready revents⟩ = 1 :=
        if_pos ⟨hp, ha, by simp only [stray, hin, Bool.not_false]⟩
      simp only [hin]
      refine ⟨n + 1, ⟨?_, ?_, fun _ => rfl⟩, fun hlt => absurd hlt (by decide)⟩
      · simp [Desk.after, hm, hs]
      · simp [Desk.after, hm, hl, hsome, closes, opens, add_comm]

/-- A turn of the retry loop holds the connected socket and what `rd` stands for, before and
after. -/
theorem desk_connTurn {s : Desk} {wd : ℤ} (wbuf : List UInt8) (ha : s.asked = true)
    (hs : s.strays = n) (hl : s.held = {wd}) :
    (connTurn p wd wbuf).wp (desk p) (fun r s => ∃ n, Quiet p n (reading p r.2 + {wd}) s) s := by
  unfold connTurn
  split_ifs with hbuf hsock
  · exact wp_xerrlog _
  · rw [wp_bind]
    refine wp_mono ?_ (desk_connPollForAccept hsock ha hs hl)
    rintro rd s ⟨n, hq, hneg⟩
    split_ifs with hlt
    · exact ⟨n, hq⟩
    · have hr : reading p rd = {rd} := if_pos ⟨hsock, by omega⟩
      rw [wp_bind]
      refine wp_mono (fun o s hs => ⟨n, hs⟩) (keeps_connExchange (desk_exchange ?_ ?_ _) _ s hq)
      · simp [hr, Ends.rd]
      · simp [Ends.wd]
  · have hr : reading p (-1) = 0 := if_neg fun hc => hc.2 rfl
    have hq : Quiet p n (reading p (-1) + {wd}) s :=
      ⟨hs, by rw [hl, hr, zero_add], fun hc => absurd hc hsock⟩
    rw [wp_bind]
    refine wp_mono (fun o s hs => ⟨n, hs⟩) (keeps_connExchange (desk_exchange ?_ ?_ _) _ _ hq)
    · simp [Ends.rd]
    · simp [Ends.wd]

theorem desk_connAttempt {s : Desk} {wd rd : ℤ} {nodename : Text} {id : ℤ}
    (h : Quiet p n (reading p rd + {wd}) s) :
    (connAttempt p wd nodename id rd).wp (desk p)
      (fun r s => ∃ n, Quiet p n (reading p r.2 + {wd}) s) s := by
  unfold connAttempt
  rw [wp_bind]
  refine wp_mono (fun _ s hs pid => ?_) (desk_hangUpRead h)
  refine ⟨_, desk_next_eq_some.2 ⟨by simp [touches], rfl⟩, desk_connTurn _ rfl (n := n) ?_ ?_⟩
  · simp [Desk.after, Desk.misled, stray, hs.strays]
  · simp [Desk.after, Desk.misled, stray, hs.held, closes, opens]

theorem desk_connTries {s : Desk} {wd rd : ℤ} {nodename : Text} {id : ℤ} (left : ℕ)
    (h : Quiet p n (reading p rd + {wd}) s) :
    (connTries p wd nodename id left rd).wp (desk p)
      (fun r s => ∃ n, Quiet p n (reading p r.2 + {wd}) s) s := by
  induction left generalizing n s rd with
  | zero => exact ⟨n, h⟩
  | succ left ih =>
    simp only [connTries]
    split_ifs with hlast
    · intro x
      obtain ⟨s', hn', h'⟩ := desk_allows_errlog _ s x h
      exact ⟨s', hn', n, h'⟩
    · rw [wp_bind]
      refine wp_mono ?_ (desk_connAttempt h)
      rintro ⟨o, rd⟩ s ⟨n, hq⟩
      cases o with
      | noRead => exact ⟨n, hq⟩
      | timeout => exact ih hq
      | garbled => exact ih hq
      | hardError => exact ⟨n, hq⟩
      | echo => exact ⟨n, hq⟩

/-- **A test works on what it holds and gives everything back**, if a wake-up without `POLLIN`
counts as obtaining descriptor 0. -/
theorem connTest_desk :
    (connTest p).wp (desk p) (fun _ s => s.held = 0) ⟨false, 0, 0⟩ := by
  have hq : Quiet p 0 0 ⟨false, 0, 0⟩ := ⟨rfl, rfl, fun _ => rfl⟩
  have huname : Allows (desk p) (Quiet p 0 0) .uname :=
    desk_allows (by simp [touches]) (by simp) (fun _ => rfl) fun _ => rfl
  have hrandom : Allows (desk p) (Quiet p 0 0) .random :=
    desk_allows (by simp [touches]) (by simp) (fun _ => rfl) fun _ => rfl
  intro nodename
  obtain ⟨s₁, hn₁, h₁⟩ := huname _ nodename hq
  refine ⟨s₁, hn₁, fun id => ?_⟩
  obtain ⟨s₂, hn₂, h₂⟩ := hrandom _ id h₁
  refine ⟨s₂, hn₂, ?_⟩
  rw [wp_bind]
  refine wp_mono (fun wd s hs => ?_) (desk_connRemote h₂)
  split_ifs at hs ⊢ with hwd
  · exact hs.held
  · have hr : reading p (-1) = 0 := if_neg fun hc => hc.2 rfl
    rw [wp_bind]
    have hquiet : Quiet p 0 (reading p (-1) + {wd}) s := by rwa [hr, zero_add]
    refine wp_mono ?_ (desk_connTries maxConnTries hquiet)
    rintro ⟨rval, rd⟩ s ⟨n, hq⟩
    rw [wp_bind]
    refine wp_mono (fun _ s hs => ?_) (desk_hangUp (l := reading p rd) (by rwa [add_comm]))
    rw [wp_bind]
    exact wp_mono (fun _ s hs => hs.held) (desk_hangUpRead (l := 0) (by rwa [add_zero]))

/-- **A test closes what it obtains, once, and works on nothing else, exactly if every wake-up on
the listening socket has `POLLIN`.**  A test that is cut short, or ends the process, works on
nothing else either. -/
theorem sockets_closed_iff {q : Io ℕ} (h : (connTest p).Steps t q) :
    (Prompt p t → TouchesHeld t) ∧
      ∀ rval, q = .ret rval → (TouchesHeld t ∧ ClosedOnce t ↔ Prompt p t) := by
  obtain ⟨s, hrun, hq⟩ := h.wp connTest_desk
  have hs := desk_recorded hrun
  have hown : Prompt p t → TouchesHeld t := fun hp => hs.own (hs.strays.2 hp)
  refine ⟨hown, ?_⟩
  rintro rval rfl
  have hheld : s.held = 0 := hq
  have hbalance := hs.balance
  rw [hheld, add_zero] at hbalance
  have hcount : ∀ fd, (t.flatMap opens).count fd + (Multiset.replicate s.strays 0).count fd =
      (t.flatMap closes).count fd := by
    intro fd
    rw [← Multiset.coe_count, ← Multiset.coe_count, ← hbalance, Multiset.count_add]
  constructor
  · rintro ⟨-, hc⟩
    have h0 := hcount 0
    rw [hc 0, Multiset.count_replicate_self] at h0
    exact hs.strays.1 (by omega)
  · intro hp
    refine ⟨hown hp, fun fd => ?_⟩
    have hfd := hcount fd
    rw [hs.strays.2 hp, Multiset.replicate_zero, Multiset.count_zero, add_zero] at hfd
    exact hfd.symm

theorem sockets_closed_echoTrace :
    (connTest sample).Returns echoTrace 1 ∧ TouchesHeld echoTrace ∧ ClosedOnce echoTrace := by
  have h := echoTrace_returns
  have hdesk : ((desk sample).exec ⟨false, 0, 0⟩ echoTrace).map Desk.strays = some 0 := by
    decide +kernel
  obtain ⟨s, hs, h0⟩ := Option.map_eq_some_iff.1 hdesk
  exact ⟨h, ((sockets_closed_iff h).2 1 rfl).2 ((desk_recorded hs).strays.1 h0)⟩

/-- A run in which `poll` reports `POLLHUP` on the listening socket, and nothing happens within the
timeouts after it. -/
def strayTrace : List (Event Answer) :=
  [⟨.uname, sampleNode⟩, ⟨.random, 7⟩, ⟨.socket, .ok 5⟩, ⟨.connect 5, .ok ()⟩, ⟨.getpid, 42⟩,
    ⟨.poll [⟨3, true, false⟩] 15000, .ready [{ pollhup := true }]⟩,
    ⟨.poll [⟨0, true, false⟩, ⟨5, false, true⟩] 15000, .timeout⟩, ⟨.errlog .ioTimeout, ()⟩,
    ⟨.shutdown 0, ()⟩, ⟨.close 0, ()⟩, ⟨.getpid, 42⟩,
    ⟨.poll [⟨3, true, false⟩] 15000, .timeout⟩, ⟨.errlog .acceptTimeout, ()⟩,
    ⟨.shutdown 5, ()⟩, ⟨.close 5, ()⟩]

/-- The test closes standard input. -/
theorem strayTrace_closes_stdin :
    (connTest sample).Returns strayTrace 0 ∧ ¬ClosedOnce strayTrace ∧ ¬TouchesHeld strayTrace := by
  refine ⟨returns_of_replay (by decide +kernel), fun h => absurd (h 0) (by decide +kernel), ?_⟩
  intro h
  have h0 := h (strayTrace.take 8) ⟨.shutdown 0, ()⟩ (strayTrace.drop 9) rfl 0
    (List.mem_singleton.2 rfl)
  revert h0
  decide +kernel

end Conn

end Autossh
