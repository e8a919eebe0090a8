import Autossh.Args.Basic
import Autossh.Posix.Decimal

/-!
# Which port texts are accepted, and which forwards are complete

The text of the monitor port is a number, or two numbers with a colon between them.  `autossh_main`
reads both with `strtoul` and casts them to 32 bits before it looks at their range; it looks at the
range of the first only.

* `portValues` : the numbers in a text, of any size; `InRange` : they are ports;
* `Admitted` : what the casts let through; `passes_iff` : the texts that are accepted;
* `validates_iff` : acceptance means that the numbers are ports exactly if the casts do not bring a
  number into the range that was not in it;
* `whole_iff` : the texts of the forwards are complete, or autossh exits, exactly if the last of
  them does not have 256 bytes.
-/

namespace Autossh

namespace Args

open CString

/-! ### The numbers in a port text -/

/-- The echo port, if there is one. -/
def echoLiteral : Option CString → Option (Option ℤ)
  | none => some none
  | some t => (literal t).map some

/-- The monitor port and the echo port. -/
def portValues (p : CString) : Option (ℤ × Option ℤ) :=
  (literal (beforeColon p)).bind fun w => (echoLiteral (afterColon p)).map fun e => (w, e)

/-- The monitor port leaves room for the port after it, and the echo port is one. -/
def InRange (w : ℤ) (e : Option ℤ) : Prop :=
  (0 ≤ w ∧ w ≤ 65534) ∧ ∀ z ∈ e, 1 ≤ z ∧ z ≤ 65535

/-- What is left of the numbers after the casts is in the range that is checked. -/
def Admitted (w : ℤ) (e : Option ℤ) : Prop :=
  (w.natAbs < 2 ^ 64 ∧ w % 2 ^ 32 ≤ 65534) ∧ ∀ z ∈ e, 2 ^ 64 ≤ z.natAbs ∨ z % 2 ^ 32 ≠ 0

/-- The port text is accepted; the forwards may still turn out too long. -/
def Passes (mhost p : CString) : Prop :=
  monitorOf mhost p = .error .overflow ∨ ∃ m, monitorOf mhost p = .ok m

/-- What acceptance is to mean: the text holds ports, and these are the ports that are used. -/
structure Validates (mhost p : CString) : Prop where
  passes : Passes mhost p ↔ ∃ w e, portValues p = some (w, e) ∧ InRange w e
  values : ∀ w e m, portValues p = some (w, e) → monitorOf mhost p = .ok m →
    m.wp = w ∧ m.echo = e.isSome ∧
      (w ≠ 0 → snprintf (forwardText w mhost (e.getD w)) = .ok m.wmbuf)

theorem portValues_eq_some {p : CString} {w : ℤ} {e : Option ℤ} :
    portValues p = some (w, e) ↔
      literal (beforeColon p) = some w ∧ echoLiteral (afterColon p) = some e := by
  simp only [portValues, Option.bind_eq_some_iff, Option.map_eq_some_iff, Prod.mk.injEq]
  constructor
  · rintro ⟨w', hw, e', he, rfl, rfl⟩
    exact ⟨hw, he⟩
  · rintro ⟨hw, he⟩
    exact ⟨w, hw, e, he, rfl, rfl⟩

/-! ### The casts -/

theorem writePort_eq_ok {t : CString} {v : ℤ} :
    writePort t = .ok v ↔ ∃ w, literal t = some w ∧ v = i32Wrap (ulong w) := by
  unfold writePort
  constructor
  · intro h
    split_ifs at h with hc
    obtain ⟨ht, hend⟩ := not_or.1 hc
    rw [not_not, strtoul_snd] at hend
    obtain ⟨w, hw⟩ := exists_literal ht hend
    rw [strtoul_of_literal hw] at h
    exact ⟨w, hw, (Except.ok.inj h).symm⟩
  · rintro ⟨w, hw, hv⟩
    have ht : t ≠ [] := by
      rintro rfl
      cases hw
    rw [strtoul_of_literal hw, if_neg (not_or.2 ⟨ht, not_not.2 rfl⟩), hv]

theorem echoPort_eq_ok {o : Option CString} {ep : Option ℕ} :
    echoPort o = .ok ep ↔ ∃ e, echoLiteral o = some e ∧ (∀ z ∈ e, ulong z % 2 ^ 32 ≠ 0) ∧
      ep = e.map fun z => ulong z % 2 ^ 32 := by
  cases o with
  | none =>
    constructor
    · intro h
      exact ⟨none, rfl, by simp, (Except.ok.inj h).symm⟩
    · rintro ⟨e, he, -, rfl⟩
      cases he
      rfl
  | some t =>
    simp only [echoPort, echoLiteral, Option.map_eq_some_iff]
    constructor
    · intro h
      split_ifs at h with hc
      obtain ⟨ht, hend, hzero⟩ := not_or.1 hc |>.imp id not_or.1
      rw [not_not, strtoul_snd] at hend
      obtain ⟨z, hz⟩ := exists_literal ht hend
      rw [strtoul_of_literal hz] at h hzero
      exact ⟨some z, ⟨z, hz, rfl⟩, by simpa using hzero, (Except.ok.inj h).symm⟩
    · rintro ⟨e, ⟨z, hz, rfl⟩, hzero, rfl⟩
      have ht : t ≠ [] := by
        rintro rfl
        cases hz
      have hne := hzero z rfl
      rw [strtoul_of_literal hz, if_neg (not_or.2 ⟨ht, not_or.2 ⟨not_not.2 rfl, hne⟩⟩)]
      rfl

theorem i32Wrap_mem_iff (n : ℤ) : (0 ≤ i32Wrap n ∧ i32Wrap n ≤ 65534) ↔ n % 2 ^ 32 ≤ 65534 := by
  unfold i32Wrap
  rw [Int.bmod_def]
  split_ifs <;> omega

theorem i32Wrap_ulong_mem_iff (w : ℤ) :
    (0 ≤ i32Wrap (ulong w) ∧ i32Wrap (ulong w) ≤ 65534) ↔
      w.natAbs < 2 ^ 64 ∧ w % 2 ^ 32 ≤ 65534 := by
  rw [i32Wrap_mem_iff]
  unfold ulong
  split_ifs <;> omega

theorem ulong_mod_ne_zero_iff (z : ℤ) :
    ulong z % 2 ^ 32 ≠ 0 ↔ 2 ^ 64 ≤ z.natAbs ∨ z % 2 ^ 32 ≠ 0 := by
  unfold ulong
  split_ifs <;> omega

theorem ulong_of_mem {z : ℤ} (h₀ : 0 ≤ z) (h : z ≤ 65535) : (ulong z : ℤ) = z := by
  unfold ulong
  split_ifs <;> omega

/-! ### Acceptance -/

theorem echoPort_error {o : Option CString} {x : Exit} (h : echoPort o = .error x) :
    x ≠ .overflow := by
  rintro rfl
  cases o with
  | none => cases h
  | some t =>
    simp only [echoPort] at h
    split_ifs at h
    cases Except.error.inj h

theorem writePort_error {t : CString} {x : Exit} (h : writePort t = .error x) :
    x ≠ .overflow := by
  rintro rfl
  unfold writePort at h
  split_ifs at h
  cases Except.error.inj h

theorem snprintf_error {s : CString} {x : Exit} (h : snprintf s = .error x) : x = .overflow := by
  unfold snprintf at h
  split_ifs at h
  exact (Except.error.inj h).symm

section monitorOf

variable {mhost p : CString} {ep : Option ℕ} {v : ℤ}

theorem monitorOf_of_echoPort_error {x : Exit} (he : echoPort (afterColon p) = .error x) :
    monitorOf mhost p = .error x := by
  rw [monitorOf, he]
  rfl

theorem monitorOf_of_writePort_error {x : Exit} (he : echoPort (afterColon p) = .ok ep)
    (hw : writePort (beforeColon p) = .error x) : monitorOf mhost p = .error x := by
  rw [monitorOf, he, hw]
  rfl

theorem monitorOf_of_out (he : echoPort (afterColon p) = .ok ep)
    (hw : writePort (beforeColon p) = .ok v) (hout : ¬(0 ≤ v ∧ v ≤ 65534)) :
    monitorOf mhost p = .error (.outOfRange v) := by
  have hne : v ≠ 0 := by omega
  have hrange : 65534 < v ∨ v < 0 := by omega
  rw [monitorOf, he, hw]
  exact (if_neg hne).trans (if_pos hrange)

theorem monitorOf_of_mem (he : echoPort (afterColon p) = .ok ep)
    (hw : writePort (beforeColon p) = .ok v) (hne : v ≠ 0) (hin : 0 ≤ v ∧ v ≤ 65534) :
    monitorOf mhost p = do
      let wmbuf ← snprintf (forwardText v mhost (ep.elim v fun e => i32Wrap e))
      let rmbuf ← if ep.isSome then pure [] else snprintf (forwardText v mhost (v + 1))
      return ⟨v, ep.isSome, wmbuf, rmbuf⟩ := by
  have hrange : ¬(65534 < v ∨ v < 0) := by omega
  rw [monitorOf, he, hw]
  exact (if_neg hne).trans (if_neg hrange)

theorem passes_of_mem (he : echoPort (afterColon p) = .ok ep)
    (hw : writePort (beforeColon p) = .ok v) (hin : 0 ≤ v ∧ v ≤ 65534) : Passes mhost p := by
  by_cases hzero : v = 0
  · right
    rw [monitorOf, he, hw, hzero]
    exact ⟨_, rfl⟩
  · unfold Passes
    rw [monitorOf_of_mem he hw hzero hin]
    cases hL : snprintf (forwardText v mhost (ep.elim v fun e => i32Wrap e)) with
    | error x => exact .inl (congrArg Except.error (snprintf_error hL))
    | ok wmbuf =>
      cases ep with
      | some e => exact .inr ⟨_, rfl⟩
      | none =>
        cases hR : snprintf (forwardText v mhost (v + 1)) with
        | error x => exact .inl (congrArg Except.error (snprintf_error hR))
        | ok rmbuf => exact .inr ⟨_, rfl⟩

theorem mem_of_passes (h : Passes mhost p) :
    ∃ ep v, echoPort (afterColon p) = .ok ep ∧ writePort (beforeColon p) = .ok v ∧
      0 ≤ v ∧ v ≤ 65534 := by
  have hno : ∀ x, x ≠ .overflow → monitorOf mhost p ≠ .error x := by
    intro x hx hm
    obtain ho | ⟨m, hok⟩ := h
    · exact hx (Except.error.inj (hm.symm.trans ho))
    · cases hm.symm.trans hok
  cases he : echoPort (afterColon p) with
  | error x => exact absurd (monitorOf_of_echoPort_error he) (hno x (echoPort_error he))
  | ok ep =>
    cases hw : writePort (beforeColon p) with
    | error x => exact absurd (monitorOf_of_writePort_error he hw) (hno x (writePort_error hw))
    | ok v =>
      refine ⟨ep, v, rfl, rfl, ?_⟩
      by_contra hout
      exact hno (.outOfRange v) (by simp) (monitorOf_of_out he hw hout)

end monitorOf

/-- The texts that are accepted, by the numbers in them. -/
theorem passes_iff (mhost p : CString) :
    Passes mhost p ↔ ∃ w e, portValues p = some (w, e) ∧ Admitted w e := by
  constructor
  · intro h
    obtain ⟨ep, v, hep, hv, hin⟩ := mem_of_passes h
    obtain ⟨e, he, hne, -⟩ := echoPort_eq_ok.1 hep
    obtain ⟨w, hw, hcast⟩ := writePort_eq_ok.1 hv
    rw [hcast] at hin
    exact ⟨w, e, portValues_eq_some.2 ⟨hw, he⟩, (i32Wrap_ulong_mem_iff w).1 hin,
      fun z hz => (ulong_mod_ne_zero_iff z).1 (hne z hz)⟩
  · rintro ⟨w, e, hp, hadm, hecho⟩
    obtain ⟨hw, he⟩ := portValues_eq_some.1 hp
    have hep := echoPort_eq_ok.2
      ⟨e, he, fun z hz => (ulong_mod_ne_zero_iff z).2 (hecho z hz), rfl⟩
    exact passes_of_mem hep (writePort_eq_ok.2 ⟨w, hw, rfl⟩) ((i32Wrap_ulong_mem_iff w).2 hadm)

theorem InRange.admitted {w : ℤ} {e : Option ℤ} (h : InRange w e) : Admitted w e := by
  obtain ⟨hw, he⟩ := h
  refine ⟨by omega, ?_⟩
  intro z hz
  have hbounds := he z hz
  omega

section values

variable {mhost p : CString} {w : ℤ} {e : Option ℤ}

theorem writePort_of_inRange (hp : portValues p = some (w, e)) (hin : InRange w e) :
    writePort (beforeColon p) = .ok w := by
  have hw := (portValues_eq_some.1 hp).1
  have hcast : i32Wrap (ulong w) = w := by
    rw [ulong_of_mem hin.1.1 (by have := hin.1.2; omega)]
    exact i32Wrap_of_bounds (by have := hin.1.1; omega) (by have := hin.1.2; omega)
  exact writePort_eq_ok.2 ⟨w, hw, hcast.symm⟩

theorem echoPort_of_inRange (hp : portValues p = some (w, e)) (hin : InRange w e) :
    echoPort (afterColon p) = .ok (e.map Int.toNat) := by
  have hval : ∀ z ∈ e, ulong z % 2 ^ 32 = z.toNat ∧ z.toNat ≠ 0 := by
    intro z hz
    obtain ⟨hlo, hhi⟩ := hin.2 z hz
    have hz := ulong_of_mem (show 0 ≤ z by omega) hhi
    omega
  refine echoPort_eq_ok.2 ⟨e, (portValues_eq_some.1 hp).2, ?_, ?_⟩
  · intro z hz
    rw [(hval z hz).1]
    exact (hval z hz).2
  · cases e with
    | none => rfl
    | some z => exact congrArg some (hval z rfl).1.symm

/-- The far end of the first forward. -/
theorem elim_i32Wrap (hin : InRange w e) :
    ((e.map Int.toNat).elim w fun n => i32Wrap n) = e.getD w := by
  cases e with
  | none => rfl
  | some z =>
    obtain ⟨hlo, hhi⟩ := hin.2 z rfl
    have hcast : ((z.toNat : ℕ) : ℤ) = z := Int.toNat_of_nonneg (by omega)
    rw [Option.map_some, Option.elim_some, Option.getD_some, hcast]
    exact i32Wrap_of_bounds (by omega) (by omega)

end values

/-- **Acceptance means that the text holds ports, and that these are the ports used, exactly if no
number outside the range is brought into it by a cast.** -/
theorem validates_iff (mhost p : CString) :
    Validates mhost p ↔ ∀ w e, portValues p = some (w, e) → Admitted w e → InRange w e := by
  constructor
  · intro h w e hp hadm
    obtain ⟨w', e', hp', hin⟩ := h.passes.1 ((passes_iff mhost p).2 ⟨w, e, hp, hadm⟩)
    cases hp.symm.trans hp'
    exact hin
  · intro h
    have hrange : ∀ {w e}, portValues p = some (w, e) → Passes mhost p → InRange w e := by
      intro w e hp hpass
      obtain ⟨w', e', hp', hadm⟩ := (passes_iff mhost p).1 hpass
      cases hp.symm.trans hp'
      exact h w e hp hadm
    refine ⟨⟨?_, ?_⟩, ?_⟩
    · intro hpass
      obtain ⟨w, e, hp, -⟩ := (passes_iff mhost p).1 hpass
      exact ⟨w, e, hp, hrange hp hpass⟩
    · rintro ⟨w, e, hp, hin⟩
      exact (passes_iff mhost p).2 ⟨w, e, hp, hin.admitted⟩
    · intro w e m hp hm
      have hin := hrange hp (.inr ⟨m, hm⟩)
      obtain ⟨ep, hspec⟩ := monitorOf_spec hm
      obtain rfl := Except.ok.inj ((echoPort_of_inRange hp hin).symm.trans hspec.echoPort)
      have hwp := Except.ok.inj ((writePort_of_inRange hp hin).symm.trans hspec.writePort)
      refine ⟨hwp.symm, by rw [hspec.echo, Option.isSome_map], ?_⟩
      intro hne
      have hbuf := hspec.wmbuf (by rwa [← hwp])
      rwa [← hwp, elim_i32Wrap hin] at hbuf

/-- An echo port of 70000 is accepted. -/
theorem not_validates_echo :
    ¬Validates "127.0.0.1".toList "20000:70000".toList ∧
      (monitorOf "127.0.0.1".toList "20000:70000".toList).toOption.map Monitor.wmbuf =
        some "20000:127.0.0.1:70000".toList := by
  refine ⟨?_, by decide +kernel⟩
  intro h
  have hpass : Passes "127.0.0.1".toList "20000:70000".toList :=
    .inr (by
      obtain ⟨m, hm, -⟩ := exists_ok (f := Monitor.wp)
        (show (monitorOf "127.0.0.1".toList "20000:70000".toList).toOption.map Monitor.wp =
          some 20000 by decide +kernel)
      exact ⟨m, hm⟩)
  obtain ⟨w, e, hp, -, hecho⟩ := h.passes.1 hpass
  have hval : portValues "20000:70000".toList = some (20000, some 70000) := by decide +kernel
  cases hp.symm.trans hval
  exact absurd (hecho 70000 rfl).2 (by decide)

/-! ### The texts of the forwards -/

/-- The last text that is built: the second forward has none if there is an echo port. -/
def lastText (mhost : CString) (w : ℤ) (e : Option ℤ) : CString :=
  forwardText w mhost (e.getD (w + 1))

/-- The buffers hold the texts as a whole. -/
structure Monitor.Whole (mhost : CString) (w : ℤ) (e : Option ℤ) (m : Monitor) : Prop where
  wmbuf : m.wmbuf = forwardText w mhost (e.getD w)
  rmbuf : e = none → m.rmbuf = forwardText w mhost (w + 1)

theorem length_forwardText_le_lastText {w : ℤ} (mhost : CString) (e : Option ℤ) (hw : 0 ≤ w) :
    (forwardText w mhost (e.getD w)).length ≤ (lastText mhost w e).length := by
  cases e with
  | some z => exact le_rfl
  | none =>
    have hmono := length_decimal_mono hw (show w ≤ w + 1 by omega)
    simp only [lastText, forwardText, Option.getD_none, List.length_append, List.length_cons]
    omega

theorem snprintf_of_le {s : CString} (h : s.length ≤ 256) : snprintf s = .ok (s.take 255) :=
  if_neg (by omega)

theorem snprintf_eq_ok {s t : CString} (h : snprintf s = .ok t) :
    s.length ≤ 256 ∧ t = s.take 255 := by
  unfold snprintf at h
  split_ifs at h with hlong
  exact ⟨by omega, (Except.ok.inj h).symm⟩

/-- A text that fills the buffer is cut. -/
theorem snprintf_ne_self {s : CString} (h : s.length = 256) : snprintf s ≠ .ok s := by
  intro hs
  have hcut := congrArg List.length (snprintf_eq_ok hs).2
  rw [List.length_take] at hcut
  omega

theorem eq_of_snprintf {s t : CString} (h : snprintf s = .ok t) (hlen : s.length ≠ 256) :
    t = s := by
  obtain ⟨hle, rfl⟩ := snprintf_eq_ok h
  exact List.take_of_length_le (by omega)

section whole

variable {mhost p : CString} {w : ℤ} {e : Option ℤ}

/-- Up to 256 bytes no text is refused. -/
theorem monitorOf_ne_overflow (hp : portValues p = some (w, e)) (hin : InRange w e) (hne : w ≠ 0)
    (hlen : (lastText mhost w e).length ≤ 256) : monitorOf mhost p ≠ .error .overflow := by
  intro h
  have hfirst := length_forwardText_le_lastText mhost e hin.1.1
  rw [monitorOf_of_mem (echoPort_of_inRange hp hin) (writePort_of_inRange hp hin) hne hin.1,
    elim_i32Wrap hin, snprintf_of_le (hfirst.trans hlen)] at h
  cases e with
  | some z => cases h
  | none =>
    have hsecond : snprintf (forwardText w mhost (w + 1)) =
        .ok ((forwardText w mhost (w + 1)).take 255) := snprintf_of_le hlen
    rw [hsecond] at h
    cases h

/-- **autossh exits or has the complete texts of its forwards, exactly if the last text does not
have 256 bytes.** -/
theorem whole_iff (hp : portValues p = some (w, e)) (hin : InRange w e) (hne : w ≠ 0) :
    (monitorOf mhost p = .error .overflow ∨ ∃ m, monitorOf mhost p = .ok m ∧ m.Whole mhost w e) ↔
      (lastText mhost w e).length ≠ 256 := by
  -- the buffers, if there are any, are what `snprintf` has left of the texts
  have hbufs : ∀ m, monitorOf mhost p = .ok m →
      snprintf (forwardText w mhost (e.getD w)) = .ok m.wmbuf ∧
        (e = none → snprintf (forwardText w mhost (w + 1)) = .ok m.rmbuf) := by
    intro m hm
    obtain ⟨ep, hspec⟩ := monitorOf_spec hm
    obtain rfl := Except.ok.inj ((echoPort_of_inRange hp hin).symm.trans hspec.echoPort)
    have hwp := Except.ok.inj ((writePort_of_inRange hp hin).symm.trans hspec.writePort)
    have hw := hspec.wmbuf (hwp ▸ hne)
    have hr := hspec.rmbuf (hwp ▸ hne)
    rw [← hwp, elim_i32Wrap hin] at hw
    rw [← hwp] at hr
    exact ⟨hw, fun he => hr (by rw [he]; rfl)⟩
  constructor
  · rintro (h | ⟨m, hm, hwhole⟩) hlen
    · exact monitorOf_ne_overflow hp hin hne hlen.le h
    · obtain ⟨hw, hr⟩ := hbufs m hm
      cases e with
      | some z =>
        rw [hwhole.wmbuf] at hw
        exact snprintf_ne_self hlen hw
      | none =>
        have hr := hr rfl
        rw [hwhole.rmbuf rfl] at hr
        exact snprintf_ne_self hlen hr
  · intro hlen
    obtain h | ⟨m, hm⟩ := (passes_iff mhost p).2 ⟨w, e, hp, hin.admitted⟩
    · exact .inl h
    · obtain ⟨hw, hr⟩ := hbufs m hm
      refine .inr ⟨m, hm, ?_, fun he => ?_⟩
      · -- the first text is no longer than the last one
        have hle : (lastText mhost w e).length ≤ 256 := by
          cases e with
          | some z => exact (snprintf_eq_ok hw).1
          | none => exact (snprintf_eq_ok (hr rfl)).1
        have hfirst := length_forwardText_le_lastText mhost e hin.1.1
        exact eq_of_snprintf hw (by omega)
      · subst he
        exact eq_of_snprintf (hr rfl) hlen

end whole

theorem whole_default :
    monitorOf "127.0.0.1".toList "20000".toList = .error .overflow ∨
      ∃ m, monitorOf "127.0.0.1".toList "20000".toList = .ok m ∧
        m.Whole "127.0.0.1".toList 20000 none :=
  (whole_iff (show portValues "20000".toList = some (20000, none) by decide +kernel)
    ⟨by decide, fun z hz => by cases hz⟩ (by decide)).2 (by decide +kernel)

/-- With a host of 244 bytes the forwards have 256 bytes; the last digit of both is lost. -/
theorem not_whole_long_host :
    ∃ m, monitorOf (List.replicate 244 'a') "20000".toList = .ok m ∧
      m.wmbuf = "20000:".toList ++ List.replicate 244 'a' ++ ":2000".toList ∧
      m.rmbuf = "20000:".toList ++ List.replicate 244 'a' ++ ":2000".toList ∧
      ¬m.Whole (List.replicate 244 'a') 20000 none := by
  obtain ⟨m, hm, hbufs⟩ := exists_ok (f := fun m : Monitor => (m.wmbuf, m.rmbuf))
    (show (monitorOf (List.replicate 244 'a') "20000".toList).toOption.map
        (fun m => (m.wmbuf, m.rmbuf)) =
      some ("20000:".toList ++ List.replicate 244 'a' ++ ":2000".toList,
        "20000:".toList ++ List.replicate 244 'a' ++ ":2000".toList) by decide +kernel)
  obtain ⟨hw, hr⟩ := Prod.mk.inj hbufs
  refine ⟨m, hm, hw, hr, ?_⟩
  intro hwhole
  exact absurd (hw.symm.trans hwhole.wmbuf) (by decide +kernel)

end Args

end Autossh
