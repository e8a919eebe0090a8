import Autossh.Conn.Exchange

/-!
# Which transfers are covered by a poll

The sockets of the monitor are blocking, so a transfer that was not announced by `poll` may block
for ever.  `conn_send_and_receive` polls once in a round and then repeats `write` and `read` until
everything has been transferred.

* `Polled t` : every transfer in the trace `t` has a report of `poll` of its own, with no other
  transfer on the descriptor in between;
* `Unhurried e t` : every transfer is whole or empty, and, if one descriptor serves both directions,
  `poll` does not report both of them at once;
* `turns` is the protocol that all exchanges follow: it says which transfer is due in a round;
* `polled_iff` : **an exchange polls before every transfer exactly if it is unhurried.**
-/

namespace Autossh

namespace Conn

open Prog

variable {e : Ends} {t : List (Event Answer)} {ev : Event Answer}

/-- A transfer on the descriptor. -/
def transfersOn (fd : ℤ) : Call → Bool
  | .read fd' _ => fd' = fd
  | .write fd' _ => fd' = fd
  | _ => false

/-- A `poll` that reports the descriptor ready for the transfer. -/
def Reports (pl : Event Answer) (c : Call) : Prop :=
  match pl, c with
  | ⟨.poll fds _, .ready revents⟩, .read fd _ =>
    ∃ i f, fds[i]? = some f ∧ f.fd = fd ∧ (revents.getD i {}).readable = true
  | ⟨.poll fds _, .ready revents⟩, .write fd _ =>
    ∃ i f, fds[i]? = some f ∧ f.fd = fd ∧ (revents.getD i {}).pollout = true
  | _, _ => False

/-- Before the transfer `c` on the descriptor, `poll` has reported it ready, and there has been no
other transfer on it since. -/
def Announced (t : List (Event Answer)) (fd : ℤ) (c : Call) : Prop :=
  ∃ u pl v, t = u ++ pl :: v ∧ Reports pl c ∧ ∀ e ∈ v, transfersOn fd e.1 = false

/-- Every transfer is announced. -/
def Polled (t : List (Event Answer)) : Prop :=
  ∀ u ev v, t = u ++ ev :: v → ∀ fd, transfersOn fd ev.1 = true → Announced u fd ev.1

/-- A transfer of some of the bytes, but not of all. -/
def short : Event Answer → Bool
  | ⟨.read _ n, .ok b⟩ => 0 < b.val.length ∧ b.val.length < n
  | ⟨.write _ b, .ok k⟩ => 0 < k.val ∧ k.val < b.length
  | _ => false

/-- A `poll` that has been asked about both directions and reports both. -/
def both (e : Ends) : Event Answer → Bool
  | ⟨.poll fds _, .ready revents⟩ =>
    fds.any (·.pollout) && (e.revWr revents).pollout && (Ends.revRd revents).readable
  | _ => false

/-- A write that does not fail for good. -/
def softWrite : Event Answer → Bool
  | ⟨.write _ _, .ok _⟩ => true
  | ⟨.write _ _, .error err⟩ => again err
  | _ => false

/-- Every transfer that succeeds moves all that was asked for, or nothing; and when both directions
are on one descriptor they are not reported together, unless the write then fails for good. -/
structure Unhurried (e : Ends) (t : List (Event Answer)) : Prop where
  whole : ∀ ev ∈ t, short ev = false
  apart : e.rd = e.wd → ∀ u pl ev v, t = u ++ pl :: ev :: v → both e pl = true →
    softWrite ev = false

/-! ### Traces that grow -/

theorem polled_concat : Polled (t ++ [ev]) ↔
    Polled t ∧ ∀ fd, transfersOn fd ev.1 = true → Announced t fd ev.1 := by
  constructor
  · intro h
    refine ⟨fun u ev' v ht => h u ev' (v ++ [ev]) ?_, h t ev [] rfl⟩
    rw [ht]
    simp
  · rintro ⟨h, hev⟩ u ev' v ht
    rcases concat_eq_append_cons ht with ⟨-, rfl, rfl⟩ | ⟨v, -, ht'⟩
    · exact hev
    · exact h u ev' v ht'

theorem unhurried_concat : Unhurried e (t ++ [ev]) ↔
    Unhurried e t ∧ short ev = false ∧
      (e.rd = e.wd → ∀ u pl, t = u ++ [pl] → both e pl = true → softWrite ev = false) := by
  constructor
  · intro h
    refine ⟨⟨fun ev' hev' => h.whole ev' (List.mem_append_left _ hev'), ?_⟩,
      h.whole ev (List.mem_append_right _ (List.mem_singleton.2 rfl)), ?_⟩
    · intro he u pl ev' v ht
      refine h.apart he u pl ev' (v ++ [ev]) ?_
      rw [ht]
      simp
    · rintro he u pl rfl
      exact h.apart he u pl ev [] (by simp)
  · rintro ⟨h, hshort, hlast⟩
    refine ⟨fun ev' hev' => ?_, fun he u pl ev' v ht => ?_⟩
    · rcases List.mem_append.1 hev' with hev' | hev'
      · exact h.whole ev' hev'
      · obtain rfl := List.mem_singleton.1 hev'
        exact hshort
    · have ht' : t ++ [ev] = (u ++ [pl]) ++ ev' :: v := by simpa using ht
      rcases concat_eq_append_cons ht' with ⟨-, rfl, rfl⟩ | ⟨v, -, rfl⟩
      · exact hlast he u pl rfl
      · exact h.apart he u pl ev' v (by simp)

/-- Right after a transfer on the descriptor, no other is announced. -/
theorem not_announced {fd : ℤ} {c : Call} (h : transfersOn fd ev.1 = true) :
    ¬Announced (t ++ [ev]) fd c := by
  rintro ⟨u, pl, v, ht, hpl, hv⟩
  rcases concat_eq_append_cons ht with ⟨-, -, rfl⟩ | ⟨v, rfl, -⟩
  · obtain ⟨c', x⟩ := ev
    cases c' with
    | read _ _ => exact hpl
    | write _ _ => exact hpl
    | _ => cases h
  · rw [hv ev (by simp)] at h
    cases h

/-! ### The protocol of an exchange -/

/-- Where an exchange stands in a round. -/
inductive Phase
  /-- Nothing is due. -/
  | calm
  /-- `poll` has just reported whether the writing end and the reading end are ready. -/
  | polled (w r : Bool)
  /-- The last call was the last write of the round; `r` is whether the reading end is ready. -/
  | wrote (r : Bool)
  /-- The last call was a short write. -/
  | shortWrite (r : Bool)
  /-- The last call was a short read. -/
  | shortRead
  deriving DecidableEq

namespace Phase

/-- A transfer is due. -/
def due : Phase → Bool
  | calm => false
  | polled w r => w || r
  | wrote r => r
  | shortWrite _ => true
  | shortRead => true

/-- A write may follow; the value is whether the reading end is ready. -/
def mayWrite : Phase → Option Bool
  | polled true r => some r
  | shortWrite r => some r
  | _ => none

/-- A read may follow. -/
def mayRead : Phase → Bool
  | polled false true => true
  | wrote true => true
  | shortRead => true
  | _ => false

/-- The phase after `poll`. -/
def afterPoll (e : Ends) (fds : List PollFd) : PollRes → Phase
  | .ready revents =>
    polled (fds.any (·.pollout) && (e.revWr revents).pollout) (Ends.revRd revents).readable
  | _ => calm

/-- The phase after a write. -/
def afterWrite (r : Bool) (n : ℕ) : Except Errno (Fin (n + 1)) → Phase
  | .ok k => if 0 < k.val ∧ k.val < n then shortWrite r else wrote r
  | .error err => if again err then wrote r else calm

/-- The phase after a read. -/
def afterRead (n : ℕ) : Except Errno { b : List UInt8 // b.length ≤ n } → Phase
  | .ok b => if 0 < b.val.length ∧ b.val.length < n then shortRead else calm
  | .error _ => calm

end Phase

/-- The protocol of an exchange: no other call while a transfer is due. -/
def turns (e : Ends) : Machine Phase (Event Answer) where
  next ph ev := match ev with
    | ⟨.poll fds _, r⟩ =>
      if ph.due = false ∧ ∃ unsent, fds = e.pollfds unsent then some (.afterPoll e fds r) else none
    | ⟨.write fd b, r⟩ =>
      if fd = e.wd then ph.mayWrite.map fun rd => .afterWrite rd b.length r else none
    | ⟨.read fd n, r⟩ => if fd = e.rd ∧ ph.mayRead = true then some (.afterRead n r) else none
    | ⟨.sleep _, _⟩ => if ph.due = false then some .calm else none
    | ⟨.errlog _, _⟩ => if ph.due = false then some .calm else none
    | _ => none

/-- The trace ends with a `poll` that reports whether the ends are ready. -/
def EndsPolled (e : Ends) (t : List (Event Answer)) (w r : Bool) : Prop :=
  ∃ u unsent timeout revents, t = u ++ [⟨.poll (e.pollfds unsent) timeout, .ready revents⟩] ∧
    w = (unsent && (e.revWr revents).pollout) ∧ r = (Ends.revRd revents).readable

/-- The trace ends with a `poll` that reports the writing end ready, and writes. -/
def EndsWriting (e : Ends) (t : List (Event Answer)) (r : Bool) : Prop :=
  ∃ u ev v, t = u ++ ev :: v ∧ EndsPolled e u true r ∧ softWrite ev = true ∧
    ∀ ev' ∈ ev :: v, ∃ b, ev'.1 = .write e.wd b

/-- The last call is a transfer on the descriptor that is not whole. -/
def EndsShort (t : List (Event Answer)) (fd : ℤ) : Prop :=
  ∃ u ev, t = u ++ [ev] ∧ transfersOn fd ev.1 = true ∧ short ev = true

/-- What the phase says about the trace. -/
def Phase.Fits (e : Ends) (t : List (Event Answer)) : Phase → Prop
  | calm => True
  | polled w r => EndsPolled e t w r
  | wrote r => EndsWriting e t r
  | shortWrite r => EndsWriting e t r ∧ EndsShort t e.wd
  | shortRead => EndsShort t e.rd

/-- The next transfer is one without a report of its own. -/
def Phase.pending (e : Ends) : Phase → Prop
  | wrote r => r = true ∧ e.rd = e.wd
  | shortWrite _ => True
  | shortRead => True
  | _ => False

theorem any_pollout (e : Ends) (unsent : Bool) : (e.pollfds unsent).any (·.pollout) = unsent := by
  cases e <;> cases unsent <;> rfl

theorem EndsPolled.announced_write {r : Bool} (h : EndsPolled e t true r) (b : List UInt8) :
    Announced t e.wd (.write e.wd b) := by
  obtain ⟨u, unsent, timeout, revents, rfl, hw, -⟩ := h
  refine ⟨u, _, [], rfl, ?_, fun _ he => absurd he List.not_mem_nil⟩
  have hunsent : unsent = true ∧ (e.revWr revents).pollout = true := by simpa using hw.symm
  obtain ⟨rfl, hout⟩ := hunsent
  cases e with
  | accepted rd wd => exact ⟨1, _, rfl, rfl, hout⟩
  | echo wd => exact ⟨0, _, rfl, rfl, hout⟩

theorem EndsPolled.announced_read {w : Bool} (h : EndsPolled e t w true) {v : List (Event Answer)}
    (hv : ∀ e' ∈ v, transfersOn e.rd e'.1 = false) (n : ℕ) :
    Announced (t ++ v) e.rd (.read e.rd n) := by
  obtain ⟨u, unsent, timeout, revents, rfl, -, hr⟩ := h
  refine ⟨u, ⟨.poll (e.pollfds unsent) timeout, .ready revents⟩, v, by simp, ?_, hv⟩
  cases e with
  | accepted rd wd => exact ⟨0, _, rfl, rfl, hr.symm⟩
  | echo wd => exact ⟨0, _, rfl, rfl, hr.symm⟩

/-- A `poll` that reports both ends. -/
theorem EndsPolled.both {w r : Bool} (h : EndsPolled e t w r) {u : List (Event Answer)}
    {pl : Event Answer} (ht : t = u ++ [pl]) : both e pl = (w && r) := by
  obtain ⟨u', unsent, timeout, revents, rfl, rfl, rfl⟩ := h
  obtain ⟨-, rfl⟩ := List.append_singleton_inj.1 ht
  simp only [Conn.both, any_pollout]

theorem EndsWriting.last {r : Bool} (h : EndsWriting e t r) :
    ∃ u ev, t = u ++ [ev] ∧ transfersOn e.wd ev.1 = true := by
  obtain ⟨u, ev, v, rfl, -, -, hall⟩ := h
  have hlast : (ev :: v).getLast (List.cons_ne_nil _ _) ∈ ev :: v := List.getLast_mem _
  obtain ⟨b, hb⟩ := hall _ hlast
  refine ⟨u ++ (ev :: v).dropLast, (ev :: v).getLast (List.cons_ne_nil _ _), ?_, ?_⟩
  · rw [List.append_assoc, List.dropLast_append_getLast]
  · rw [hb]
    exact decide_eq_true rfl

/-- What a run of the protocol says about its trace. -/
structure Stands (e : Ends) (t : List (Event Answer)) (ph : Phase) : Prop where
  fits : ph.Fits e t
  enough : Unhurried e t → Polled t
  needed : Polled t → Unhurried e t ∨ ph.pending e

/-- A transfer that is announced. -/
theorem Stands.announced {ph ph' : Phase} (h : Stands e t ph) (hph : ¬ph.pending e)
    (hann : ∀ fd, transfersOn fd ev.1 = true → Announced t fd ev.1)
    (hfits : ph'.Fits e (t ++ [ev]))
    (hnext : short ev = true ∨ (e.rd = e.wd ∧ ∃ u pl, t = u ++ [pl] ∧ both e pl = true ∧
      softWrite ev = true) → ph'.pending e) : Stands e (t ++ [ev]) ph' := by
  refine ⟨hfits, fun hu => ?_, fun hp => ?_⟩
  · exact polled_concat.2 ⟨h.enough (unhurried_concat.1 hu).1, hann⟩
  · have hu := (h.needed (polled_concat.1 hp).1).resolve_right hph
    by_cases hc : ph'.pending e
    · exact .inr hc
    · refine .inl (unhurried_concat.2 ⟨hu, ?_, fun he u pl ht hb => ?_⟩)
      · by_contra hs
        exact hc (hnext (.inl (Bool.eq_true_of_not_eq_false hs)))
      · by_contra hs
        exact hc (hnext (.inr ⟨he, u, pl, ht, hb, Bool.eq_true_of_not_eq_false hs⟩))

/-- A transfer that is not announced, after a trace that was hurried already. -/
theorem Stands.hurried {ph' : Phase} (hhurried : ¬Unhurried e t) {fd : ℤ}
    (hev : transfersOn fd ev.1 = true) {u : List (Event Answer)} {ev' : Event Answer}
    (ht : t = u ++ [ev']) (hlast : transfersOn fd ev'.1 = true)
    (hfits : ph'.Fits e (t ++ [ev])) : Stands e (t ++ [ev]) ph' := by
  refine ⟨hfits, fun hu => absurd (unhurried_concat.1 hu).1 hhurried, fun hp => ?_⟩
  have hann := (polled_concat.1 hp).2 fd hev
  rw [ht] at hann
  exact absurd hann (not_announced hlast)

theorem EndsShort.hurried {fd : ℤ} (h : EndsShort t fd) : ¬Unhurried e t := by
  obtain ⟨u, ev, rfl, -, hs⟩ := h
  intro hu
  rw [hu.whole ev (by simp)] at hs
  cases hs

/-- A call that is no transfer, when none is due. -/
theorem Stands.quiet {ph ph' : Phase} (h : Stands e t ph) (hdue : ph.due = false)
    (htr : ∀ fd, transfersOn fd ev.1 = false) (hs : short ev = false) (hw : softWrite ev = false)
    (hfits : ph'.Fits e (t ++ [ev])) : Stands e (t ++ [ev]) ph' := by
  refine h.announced ?_ (fun fd hfd => ?_) hfits ?_
  · cases ph with
    | wrote r =>
      rintro ⟨rfl, -⟩
      cases hdue
    | shortWrite r => cases hdue
    | shortRead => cases hdue
    | calm => exact id
    | polled w r => exact id
  · rw [htr fd] at hfd
    cases hfd
  · rintro (hs' | ⟨-, _, _, -, -, hw'⟩)
    · rw [hs] at hs'
      cases hs'
    · rw [hw] at hw'
      cases hw'

theorem short_write_iff {fd : ℤ} {b : List UInt8} {x : Except Errno (Fin (b.length + 1))}
    {r : Bool} :
    short ⟨.write fd b, x⟩ = true ↔ Phase.afterWrite r b.length x = .shortWrite r := by
  cases x with
  | error err =>
    simp only [short, Phase.afterWrite]
    split_ifs <;> simp
  | ok k =>
    simp only [short, Phase.afterWrite, decide_eq_true_eq]
    split_ifs with hk
    · exact iff_of_true hk rfl
    · exact iff_of_false hk fun h => by cases h

/-- The phases after a write, and what the trace ends with then. -/
theorem fits_afterWrite {b : List UInt8} {x : Except Errno (Fin (b.length + 1))} {r : Bool}
    (h : softWrite ⟨.write e.wd b, x⟩ = true → EndsWriting e (t ++ [⟨.write e.wd b, x⟩]) r) :
    (Phase.afterWrite r b.length x).Fits e (t ++ [⟨.write e.wd b, x⟩]) := by
  cases x with
  | error err =>
    simp only [Phase.afterWrite]
    split_ifs with ha
    · exact h ha
    · trivial
  | ok k =>
    simp only [Phase.afterWrite]
    split_ifs with hk
    · exact ⟨h rfl, t, _, rfl, decide_eq_true rfl, decide_eq_true hk⟩
    · exact h rfl

/-- After a write that does not fail for good, another transfer on the descriptor is pending if the
reading end is the same and ready. -/
theorem pending_afterWrite {fd : ℤ} {b : List UInt8} {x : Except Errno (Fin (b.length + 1))}
    (hw : softWrite ⟨.write fd b, x⟩ = true) (he : e.rd = e.wd) :
    (Phase.afterWrite true b.length x).pending e := by
  cases x with
  | error err =>
    have ha : again err = true := hw
    simp only [Phase.afterWrite, ha, if_true]
    exact ⟨rfl, he⟩
  | ok k =>
    simp only [Phase.afterWrite]
    split_ifs
    · trivial
    · exact ⟨rfl, he⟩

theorem Stands.write {ph : Phase} (h : Stands e t ph) {r : Bool} (hph : ph.mayWrite = some r)
    (b : List UInt8) (x : Except Errno (Fin (b.length + 1))) :
    Stands e (t ++ [⟨.write e.wd b, x⟩]) (.afterWrite r b.length x) := by
  have hon : transfersOn e.wd (.write e.wd b) = true := decide_eq_true rfl
  cases ph with
  | polled w r' =>
    cases w with
    | false => cases hph
    | true =>
      obtain rfl : r' = r := Option.some.inj hph
      have hpoll : EndsPolled e t true r' := h.fits
      refine h.announced id (fun fd hfd => ?_) (fits_afterWrite fun hw => ?_) ?_
      · obtain rfl : e.wd = fd := of_decide_eq_true hfd
        exact hpoll.announced_write b
      · exact ⟨t, _, [], rfl, hpoll, hw, by simp⟩
      · rintro (hs | ⟨he, u, pl, ht, hb, hw⟩)
        · rw [short_write_iff.1 hs]
          trivial
        · -- both ends were reported
          rw [hpoll.both ht, Bool.true_and] at hb
          rw [hb]
          exact pending_afterWrite hw he
  | shortWrite r' =>
    obtain rfl : r' = r := Option.some.inj hph
    obtain ⟨⟨u, ev, v, rfl, hpoll, hev, hall⟩, hshort⟩ := h.fits
    obtain ⟨u', ev', ht, hlast, -⟩ := id hshort
    refine .hurried hshort.hurried hon ht hlast (fits_afterWrite fun hw => ?_)
    refine ⟨u, ev, v ++ [⟨.write e.wd b, x⟩], by simp, hpoll, hev, ?_⟩
    intro ev'' hev''
    rcases List.mem_append.1 (show ev'' ∈ (ev :: v) ++ [_] from hev'') with h' | h'
    · exact hall ev'' h'
    · obtain rfl := List.mem_singleton.1 h'
      exact ⟨b, rfl⟩
  | calm => cases hph
  | wrote r' => cases hph
  | shortRead => cases hph

theorem fits_afterRead {n : ℕ} {x : Except Errno { b : List UInt8 // b.length ≤ n }} :
    (Phase.afterRead n x).Fits e (t ++ [⟨.read e.rd n, x⟩]) := by
  cases x with
  | error err => trivial
  | ok b =>
    simp only [Phase.afterRead]
    split_ifs with hb
    · exact ⟨t, _, rfl, decide_eq_true rfl, decide_eq_true hb⟩
    · trivial

theorem pending_afterRead {n : ℕ} {x : Except Errno { b : List UInt8 // b.length ≤ n }}
    (h : short ⟨.read e.rd n, x⟩ = true) : (Phase.afterRead n x).pending e := by
  cases x with
  | error err => cases h
  | ok b =>
    simp only [Phase.afterRead, if_pos (of_decide_eq_true h)]
    trivial

theorem Stands.read {ph : Phase} (h : Stands e t ph) (hph : ph.mayRead = true) (n : ℕ)
    (x : Except Errno { b : List UInt8 // b.length ≤ n }) :
    Stands e (t ++ [⟨.read e.rd n, x⟩]) (.afterRead n x) := by
  have hon : transfersOn e.rd (.read e.rd n) = true := decide_eq_true rfl
  have hnext : short ⟨.read e.rd n, x⟩ = true ∨ (e.rd = e.wd ∧ ∃ u pl, t = u ++ [pl] ∧
      both e pl = true ∧ softWrite ⟨.read e.rd n, x⟩ = true) → (Phase.afterRead n x).pending e := by
    rintro (hs | ⟨-, _, _, -, -, hw⟩)
    · exact pending_afterRead hs
    · cases hw
  have hann : Announced t e.rd (.read e.rd n) → ∀ fd, transfersOn fd (.read e.rd n) = true →
      Announced t fd (.read e.rd n) := by
    intro ha fd hfd
    obtain rfl : e.rd = fd := of_decide_eq_true hfd
    exact ha
  cases ph with
  | polled w r =>
    cases w with
    | true => cases hph
    | false =>
      obtain rfl : r = true := by
        cases r with
        | true => rfl
        | false => cases hph
      have hpoll : EndsPolled e t false true := h.fits
      have ha := hpoll.announced_read (v := []) (by simp) n
      rw [List.append_nil] at ha
      exact h.announced id (hann ha) fits_afterRead hnext
  | wrote r =>
    obtain rfl : r = true := by
      cases r with
      | true => rfl
      | false => cases hph
    have hwriting : EndsWriting e t true := h.fits
    obtain ⟨u, ev, v, ht, hpoll, hev, hall⟩ := id hwriting
    by_cases he : e.rd = e.wd
    · -- the write in between was on the same descriptor
      obtain ⟨u', ev', ht', hlast⟩ := hwriting.last
      refine .hurried (fun hu => ?_) hon ht' (he ▸ hlast) fits_afterRead
      obtain ⟨u₀, unsent, timeout, revents, rfl, -⟩ := id hpoll
      have hb := hpoll.both rfl
      have hsoft := hu.apart he u₀ _ ev v (by rw [ht]; simp) hb
      rw [hev] at hsoft
      cases hsoft
    · have ha : Announced t e.rd (.read e.rd n) := by
        rw [ht]
        refine hpoll.announced_read (fun ev' hev' => ?_) n
        obtain ⟨b, hb⟩ := hall ev' hev'
        rw [hb]
        exact decide_eq_false fun hc => he hc.symm
      exact h.announced (fun hc => he hc.2) (hann ha) fits_afterRead hnext
  | shortRead =>
    have hshort : EndsShort t e.rd := h.fits
    obtain ⟨u', ev', ht, hlast, -⟩ := id hshort
    exact .hurried hshort.hurried hon ht hlast fits_afterRead
  | calm => cases hph
  | shortWrite r => cases hph

theorem Stands.step {ph ph' : Phase} (h : Stands e t ph)
    (hn : (turns e).next ph ev = some ph') : Stands e (t ++ [ev]) ph' := by
  obtain ⟨c, x⟩ := ev
  cases c with
  | poll fds timeout =>
    obtain ⟨⟨hdue, unsent, rfl⟩, hn⟩ := Option.ite_none_right_eq_some.1 hn
    cases hn
    refine h.quiet hdue (fun _ => rfl) rfl rfl ?_
    cases x with
    | timeout => trivial
    | error err => trivial
    | ready revents => exact ⟨t, unsent, timeout, revents, rfl, by rw [any_pollout], rfl⟩
  | write fd b =>
    obtain ⟨rfl, hn⟩ := Option.ite_none_right_eq_some.1 hn
    obtain ⟨r, hr, rfl⟩ := Option.map_eq_some_iff.1 hn
    exact h.write hr b x
  | read fd n =>
    obtain ⟨⟨rfl, hr⟩, hn⟩ := Option.ite_none_right_eq_some.1 hn
    cases hn
    exact h.read hr n x
  | sleep n =>
    obtain ⟨hdue, hn⟩ := Option.ite_none_right_eq_some.1 hn
    cases hn
    exact h.quiet hdue (fun _ => rfl) rfl rfl trivial
  | errlog m =>
    obtain ⟨hdue, hn⟩ := Option.ite_none_right_eq_some.1 hn
    cases hn
    exact h.quiet hdue (fun _ => rfl) rfl rfl trivial
  | _ => cases hn

theorem turns_stands {ph : Phase} (h : (turns e).Run .calm t ph) : Stands e t ph := by
  refine Machine.Run.induct (P := fun t ph => Stands e t ph) ?_ ?_ h
  · refine ⟨trivial, fun _ u ev v ht => absurd ht (by simp), fun _ => .inl ⟨?_, ?_⟩⟩
    · exact fun _ hev => absurd hev List.not_mem_nil
    · exact fun _ u pl ev v ht => absurd ht (by simp)
  · intro t ph ev ph' _ hs hn
    exact hs.step hn

/-! ### Every exchange follows it -/

variable {net : ℤ}

theorem writeLoop_nil (fd : ℤ) (n : ℕ) : writeLoop fd n [] = .ret (some []) := by
  cases n <;> rfl

theorem turns_writeLoop {n : ℕ} {wp : List UInt8} {ph : Phase} {r : Bool} (hne : wp ≠ [])
    (hn : wp.length ≤ n) (hph : ph.mayWrite = some r) :
    (writeLoop e.wd n wp).wp (turns e)
      (fun o ph => ph = if o.isSome then .wrote r else .calm) ph := by
  induction n generalizing wp ph with
  | zero => exact absurd (List.length_eq_zero_iff.1 (Nat.le_zero.1 hn)) hne
  | succ n ih =>
    rw [writeLoop, if_neg hne]
    intro x
    refine ⟨.afterWrite r wp.length x, ?_, ?_⟩
    · simp only [turns, if_true, hph, Option.map_some]
    · cases x with
      | ok k =>
        by_cases h0 : k.val = 0
        · simp [h0, Phase.afterWrite]
        · rcases Nat.lt_or_ge k.val wp.length with hlt | hge
          · have hdrop : wp.drop k ≠ [] := by simpa using hlt
            have hlen : (wp.drop k).length ≤ n := by
              rw [List.length_drop]
              omega
            simp only [Phase.afterWrite, if_pos (And.intro (Nat.pos_of_ne_zero h0) hlt), h0,
              if_false]
            exact ih hdrop hlen rfl
          · simp [h0, Phase.afterWrite, Nat.not_lt.2 hge, List.drop_of_length_le hge, writeLoop_nil]
      | error err =>
        cases ha : again err <;> simp [Phase.afterWrite, ha]

theorem readLoop_of_rleft_eq_zero {fd : ℤ} {n : ℕ} {x : Xfer} (h : x.rleft = 0) :
    readLoop fd n x = .ret (some x) := by
  cases n with
  | zero => rfl
  | succ n => rw [readLoop, if_pos h]

theorem turns_readLoop {n : ℕ} {x : Xfer} {ph : Phase} (h0 : x.rleft ≠ 0) (hn : x.rleft ≤ n)
    (hph : ph.mayRead = true) :
    (readLoop e.rd n x).wp (turns e) (fun _ ph => ph = .calm) ph := by
  induction n generalizing x ph with
  | zero => exact absurd (Nat.le_zero.1 hn) h0
  | succ n ih =>
    rw [readLoop, if_neg h0]
    intro r
    refine ⟨.afterRead x.rleft r, ?_, ?_⟩
    · simp only [turns, hph, and_self, if_true]
    · cases r with
      | ok b =>
        have hb := b.property
        by_cases hnil : b.val = []
        · simp [hnil, Phase.afterRead]
        · have hpos : 0 < b.val.length := List.length_pos_iff.2 hnil
          rcases Nat.lt_or_ge b.val.length x.rleft with hlt | hge
          · have hleft : (x.store b).rleft ≠ 0 := Nat.sub_ne_zero_of_lt hlt
            have hlen : (x.store b).rleft ≤ n := by
              show x.rleft - b.val.length ≤ n
              omega
            simp only [Phase.afterRead, if_pos (And.intro hpos hlt), hnil, if_false]
            exact ih hleft hlen rfl
          · have hleft : (x.store b).rleft = 0 := Nat.sub_eq_zero_of_le hge
            simp [hnil, Phase.afterRead, Nat.not_lt.2 hge, readLoop_of_rleft_eq_zero hleft]
      | error err =>
        cases ha : again err <;> simp [Phase.afterRead, ha]

theorem turns_sendPart {revents : List Revents} {x : Xfer} {r : Bool} :
    (sendPart e revents x).wp (turns e)
      (fun o ph => match o with
        | none => ph = .calm
        | some x' => x'.rleft = x.rleft ∧ (ph = .polled false r ∨ ph = .wrote r))
      (.polled (x.wp ≠ [] && (e.revWr revents).pollout) r) := by
  unfold sendPart
  split_ifs with hc
  · rw [wp_bind]
    have hph : (Phase.polled (decide (x.wp ≠ []) && (e.revWr revents).pollout) r).mayWrite =
        some r := by
      rw [decide_eq_true hc.1, hc.2]
      rfl
    refine wp_mono (fun o ph ho => ?_) (turns_writeLoop hc.1 le_rfl hph)
    subst ho
    cases o with
    | none => rfl
    | some wp => exact ⟨rfl, .inr rfl⟩
  · refine ⟨rfl, .inl (congrArg (Phase.polled · r) ?_)⟩
    rw [Bool.and_eq_false_iff, decide_eq_false_iff_not]
    by_cases hx : x.wp ≠ []
    · exact .inr (Bool.eq_false_iff.2 fun hout => hc ⟨hx, hout⟩)
    · exact .inl hx

theorem turns_receivePart {revents : List Revents} {x : Xfer} {ph : Phase} (h0 : x.rleft ≠ 0)
    (hph : ph = .polled false (Ends.revRd revents).readable ∨
      ph = .wrote (Ends.revRd revents).readable) :
    (receivePart e revents x).wp (turns e) (fun _ ph => ph.due = false) ph := by
  unfold receivePart
  split_ifs with hr
  · rw [hr] at hph
    refine wp_mono (fun _ ph hph => ?_) (turns_readLoop h0 le_rfl ?_)
    · rw [hph]
      rfl
    · rcases hph with rfl | rfl <;> rfl
  · rw [Bool.eq_false_iff.2 hr] at hph
    rcases hph with rfl | rfl <;> rfl

theorem turns_ioRound {x : Xfer} {ph : Phase} (h0 : x.rleft ≠ 0) (hph : ph.due = false) :
    (ioRound net e x).wp (turns e) (fun _ ph => ph.due = false) ph := by
  intro r
  refine ⟨.afterPoll e (e.pollfds (x.wp ≠ [])) r, ?_, ?_⟩
  · simp only [turns, hph, true_and]
    exact if_pos ⟨_, rfl⟩
  · cases r with
    | timeout => rfl
    | error err => rfl
    | ready revents =>
      simp only [Phase.afterPoll, any_pollout]
      rw [wp_bind]
      refine wp_mono (fun o ph ho => ?_) turns_sendPart
      cases o with
      | none =>
        obtain rfl : ph = .calm := ho
        rfl
      | some x' =>
        rw [wp_bind]
        refine wp_mono (fun o ph hph => ?_) (turns_receivePart (by rw [ho.1]; exact h0) ho.2)
        cases o with
        | none => exact hph
        | some x'' => exact hph

theorem turns_ioLoop (left : ℕ) {x : Xfer} {ph : Phase} (hph : ph.due = false) :
    (ioLoop net e left x).wp (turns e) (fun _ ph => ph.due = false) ph := by
  have hquiet : ∀ {ph : Phase} {c : Call} {x : Answer c}, ph.due = false →
      ((∃ n, c = .sleep n) ∨ ∃ m, c = .errlog m) → (turns e).next ph ⟨c, x⟩ = some .calm := by
    rintro ph c x hph (⟨n, rfl⟩ | ⟨m, rfl⟩) <;> simp [turns, hph]
  induction left generalizing x ph with
  | zero =>
    rw [ioLoop]
    split_ifs with h0
    · exact hph
    · rw [wp_bind]
      refine wp_mono (fun r ph hph => ?_) (turns_ioRound h0 hph)
      cases r with
      | error r => exact hph
      | ok x =>
        exact fun _ => ⟨.calm, hquiet hph (.inl ⟨1, rfl⟩), fun _ =>
          ⟨.calm, hquiet rfl (.inr ⟨_, rfl⟩), rfl⟩⟩
  | succ left ih =>
    rw [ioLoop]
    split_ifs with h0
    · exact hph
    · rw [wp_bind]
      refine wp_mono (fun r ph hph => ?_) (turns_ioRound h0 hph)
      cases r with
      | error r => exact hph
      | ok x =>
        dsimp only
        split_ifs with hsleep
        · exact fun _ => ⟨.calm, hquiet hph (.inl ⟨1, rfl⟩), ih rfl⟩
        · exact ih hph

/-- **An exchange polls before every transfer exactly if it is unhurried**: every transfer that
succeeds is whole or empty, and one descriptor is not reported ready for both directions at once.
An exchange that is cut short and unhurried polls before every transfer too. -/
theorem polled_iff {rbuf wbuf : List UInt8} {q : Io (Except Fault (List UInt8))}
    (h : (connSendAndReceive net e rbuf wbuf).Steps t q) :
    (Unhurried e t → Polled t) ∧ ∀ r, q = .ret r → (Polled t ↔ Unhurried e t) := by
  obtain ⟨ph, hrun, hq⟩ := h.wp (turns_ioLoop 10 (rfl : Phase.calm.due = false))
  have hs := turns_stands hrun
  refine ⟨hs.enough, ?_⟩
  rintro r rfl
  refine ⟨fun hp => (hs.needed hp).resolve_right fun hc => ?_, hs.enough⟩
  have hdue : ph.due = false := hq
  cases ph with
  | wrote r =>
    obtain ⟨rfl, -⟩ := hc
    cases hdue
  | shortWrite r => cases hdue
  | shortRead => cases hdue
  | calm => exact hc
  | polled w r => exact hc

/-- An exchange in which the message comes back in one piece. -/
def wholeTrace : List (Event Answer) :=
  [⟨.poll [⟨6, true, false⟩, ⟨5, false, true⟩] 15000, .ready [{}, { pollout := true }]⟩,
    ⟨.write 5 sampleMessage, .ok (Fin.last _)⟩,
    ⟨.poll [⟨6, true, false⟩] 15000, .ready [{ pollin := true }]⟩,
    ⟨.read 6 sampleMessage.length, sampleEcho⟩]

theorem polled_wholeTrace :
    (connSendAndReceive 15000 (.accepted 6 5) (List.replicate bufSz 0) sampleMessage).Returns
      wholeTrace (.ok (sampleMessage ++ List.replicate (bufSz - sampleMessage.length) 0)) ∧
      Polled wholeTrace := by
  have h : (connSendAndReceive 15000 (.accepted 6 5) (List.replicate bufSz 0)
      sampleMessage).Returns wholeTrace
        (.ok (sampleMessage ++ List.replicate (bufSz - sampleMessage.length) 0)) :=
    returns_of_replay (by decide +kernel)
  exact ⟨h, (polled_iff h).1 ⟨by decide +kernel, fun he => absurd he (by decide)⟩⟩

/-- An exchange in which five bytes of the message come back first. -/
def shortTrace : List (Event Answer) :=
  [⟨.poll [⟨6, true, false⟩, ⟨5, false, true⟩] 15000, .ready [{}, { pollout := true }]⟩,
    ⟨.write 5 sampleMessage, .ok (Fin.last _)⟩,
    ⟨.poll [⟨6, true, false⟩] 15000, .ready [{ pollin := true }]⟩,
    ⟨.read 6 sampleMessage.length, .ok ⟨sampleMessage.take 5, by decide⟩⟩,
    ⟨.read 6 (sampleMessage.length - 5), .ok ⟨sampleMessage.drop 5, by decide⟩⟩]

/-- The second read is not covered by a `poll`: if the rest does not come, it blocks for ever. -/
theorem not_polled_shortTrace :
    (connSendAndReceive 15000 (.accepted 6 5) (List.replicate bufSz 0) sampleMessage).Returns
      shortTrace (.ok (sampleMessage ++ List.replicate (bufSz - sampleMessage.length) 0)) ∧
      ¬Polled shortTrace := by
  refine ⟨returns_of_replay (by decide +kernel), fun h => ?_⟩
  have hann : Announced (shortTrace.take 3 ++ [shortTrace.getD 3 ⟨.sleep 1, ()⟩]) 6 _ :=
    h (shortTrace.take 4) (shortTrace.getLast (by decide)) [] rfl 6 rfl
  exact not_announced rfl hann

end Conn

end Autossh
