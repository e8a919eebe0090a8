import Autossh.Posix.CString
import Mathlib.Algebra.Field.Rat
import Mathlib.Algebra.GroupWithZero.Units.Basic
import Mathlib.Data.Int.Cast.Lemmas
import Mathlib.Tactic.IntervalCases

/-!
# Numbers that are printed and read back

`numeral` is the part that `strtoul` and `strtol` have in common: the sign, the digits in the base
the text announces, and what stands after them.  `numeral_signed` reads a printed number back; the
other results are cases of it:

* an integer that is printed with `decimal` is read back by `strtol` and `strtoul`, as far as 64
  bits hold it (`strtol_decimal`, `strtoul_decimal`);
* `literal` is the value of a text that is a number as a whole; `ulong` is what `strtoul` makes of
  it (`strtoul_of_literal`, `strtol_of_literal`);
* `Decimal` is a decimal fraction and `Decimal.text` the text that `{}` prints for it.  If it is no
  integer, the point is where both functions stop (`strtol_text_snd`, `strtoul_text_snd`).
-/

namespace Autossh

namespace CString

/-- The number a text starts with: whether it has a minus, the digits' value and the text after
them. -/
def numeral (s : CString) : Option (Bool × ℕ × CString) :=
  let u := sign (s.dropWhile isSpace)
  let l := literalBase u.2
  if (l.2.takeWhile fun c => digit c < l.1) = [] then none
  else some (u.1, digits l.1 (l.2.takeWhile fun c => digit c < l.1),
    l.2.dropWhile fun c => digit c < l.1)

/-- `strtol(s, &end, 0)`: a value that does not fit becomes `LONG_MIN` or `LONG_MAX`. -/
def strtol (s : CString) : ℤ × CString :=
  match numeral s with
  | none => (0, s)
  | some (minus, n, e) => (max (-2 ^ 63) (min (2 ^ 63 - 1) (if minus then -(n : ℤ) else n)), e)

theorem strtoul_eq (s : CString) :
    strtoul s = match numeral s with
      | none => (0, s)
      | some (minus, n, e) =>
        (if 2 ^ 64 ≤ n then 2 ^ 64 - 1 else if minus then (2 ^ 64 - n) % 2 ^ 64 else n, e) := by
  unfold strtoul numeral
  by_cases h : ((literalBase (sign (s.dropWhile isSpace)).2).2.takeWhile fun c =>
      digit c < (literalBase (sign (s.dropWhile isSpace)).2).1) = []
  · simp only [if_pos h]
  · simp only [if_neg h]

/-! ### Literals -/

/-- The mathematical value of a text that is an integer literal from its beginning to its end. -/
def literal (s : CString) : Option ℤ :=
  match numeral s with
  | some (minus, n, []) => some (if minus then -(n : ℤ) else n)
  | _ => none

/-- `strtoul` of a literal with this value: a number that is too large becomes `ULONG_MAX`. -/
def ulong (z : ℤ) : ℕ := if 2 ^ 64 ≤ z.natAbs then 2 ^ 64 - 1 else (z % 2 ^ 64).toNat

theorem literal_eq_some {s : CString} {z : ℤ} :
    literal s = some z ↔
      ∃ minus n, numeral s = some (minus, n, []) ∧ z = if minus then -(n : ℤ) else n := by
  unfold literal
  split
  · next minus n hs =>
    rw [hs, Option.some.injEq]
    constructor
    · rintro rfl
      exact ⟨minus, n, rfl, rfl⟩
    · rintro ⟨minus', n', h, rfl⟩
      cases h
      rfl
  · next hs =>
    constructor
    · intro h
      cases h
    · rintro ⟨minus, n, h, -⟩
      exact absurd h (hs minus n)

theorem strtoul_of_literal {s : CString} {z : ℤ} (h : literal s = some z) :
    strtoul s = (ulong z, []) := by
  obtain ⟨minus, n, hs, rfl⟩ := literal_eq_some.1 h
  rw [strtoul_eq, hs]
  refine Prod.ext ?_ rfl
  unfold ulong
  cases minus with
  | true =>
    simp only [if_true, Int.natAbs_neg, Int.natAbs_natCast]
    split_ifs <;> omega
  | false =>
    simp only [Bool.false_eq_true, if_false, Int.natAbs_natCast]
    split_ifs <;> omega

theorem strtol_of_literal {s : CString} {z : ℤ} (h : literal s = some z) :
    strtol s = (max (-2 ^ 63) (min (2 ^ 63 - 1) z), []) := by
  obtain ⟨minus, n, hs, rfl⟩ := literal_eq_some.1 h
  rw [strtol, hs]

theorem strtoul_snd (s : CString) : (strtoul s).2 = (numeral s).elim s fun x => x.2.2 := by
  rw [strtoul_eq]
  cases numeral s with
  | none => rfl
  | some x => rfl

theorem strtol_snd (s : CString) : (strtol s).2 = (numeral s).elim s fun x => x.2.2 := by
  rw [strtol]
  cases numeral s with
  | none => rfl
  | some x => rfl

/-- A text that is read to its end is a literal. -/
theorem exists_literal {s : CString} (hs : s ≠ [])
    (h : ((numeral s).elim s fun x => x.2.2) = []) : ∃ z, literal s = some z := by
  cases hn : numeral s with
  | none =>
    rw [hn] at h
    exact absurd h hs
  | some x =>
    obtain ⟨minus, n, e⟩ := x
    rw [hn] at h
    obtain rfl : e = [] := h
    exact ⟨_, literal_eq_some.2 ⟨minus, n, hn, rfl⟩⟩

/-! ### Digits -/

theorem digit_of_isDigit {c : Char} (h : c.isDigit = true) : digit c = c.toNat - '0'.toNat := by
  rw [digit, if_pos h]

theorem toNat_of_isDigit {c : Char} (h : c.isDigit = true) : 48 ≤ c.toNat ∧ c.toNat ≤ 57 :=
  Char.isDigit_iff_toNat.1 h

theorem digit_lt_of_isDigit {c : Char} (h : c.isDigit = true) : digit c < 10 := by
  have hzero : '0'.toNat = 48 := rfl
  rw [digit_of_isDigit h, hzero]
  have := toNat_of_isDigit h
  omega

theorem digits_of_isDigit {ds : List Char} (base : ℕ) (h : ∀ c ∈ ds, c.isDigit = true) :
    digits base ds = Nat.ofDigitChars base ds 0 := by
  unfold digits Nat.ofDigitChars
  refine List.foldl_ext _ _ 0 fun n c hc => ?_
  rw [digit_of_isDigit (h c hc), Nat.mul_comm]

theorem isDigit_of_mem_toDigits {n : ℕ} {c : Char} (h : c ∈ Nat.toDigits 10 n) :
    c.isDigit = true :=
  Nat.isDigit_of_mem_toDigits (by decide) le_rfl h

theorem digits_toDigits (n : ℕ) : digits 10 (Nat.toDigits 10 n) = n := by
  rw [digits_of_isDigit 10 fun _ => isDigit_of_mem_toDigits]
  exact Nat.ofDigitChars_toDigits (by decide) le_rfl

/-- Only zero is printed with a zero in front. -/
theorem head_toDigits_ne {n : ℕ} (hn : n ≠ 0) (ds : List Char) :
    Nat.toDigits 10 n ≠ '0' :: ds := by
  induction n using Nat.strongRecOn generalizing ds with
  | _ n ih =>
    intro h
    by_cases hlt : n < 10
    · rw [Nat.toDigits_of_lt_base hlt] at h
      obtain ⟨h, -⟩ := List.cons.inj h
      interval_cases n <;> simp_all [Nat.digitChar]
    · rw [Nat.toDigits_of_base_le (by decide) (by omega)] at h
      cases hd : Nat.toDigits 10 (n / 10) with
      | nil => exact Nat.toDigits_ne_nil hd
      | cons d ds' =>
        rw [hd, List.cons_append] at h
        obtain ⟨rfl, -⟩ := List.cons.inj h
        exact ih (n / 10) (by omega) (by omega) ds' hd

/-- A larger number is not printed with fewer digits. -/
theorem length_toDigits_mono {m n : ℕ} (h : m ≤ n) :
    (Nat.toDigits 10 m).length ≤ (Nat.toDigits 10 n).length := by
  induction n using Nat.strongRecOn generalizing m with
  | _ n ih =>
    by_cases hm : m < 10
    · rw [Nat.toDigits_of_lt_base hm]
      exact List.length_pos_iff.2 Nat.toDigits_ne_nil
    · rw [Nat.toDigits_of_base_le (b := 10) (by decide) (show 10 ≤ m by omega),
        Nat.toDigits_of_base_le (b := 10) (by decide) (show 10 ≤ n by omega),
        List.length_append, List.length_append]
      exact Nat.add_le_add_right (ih (n / 10) (by omega) (by omega)) 1

theorem length_decimal_mono {a b : ℤ} (ha : 0 ≤ a) (h : a ≤ b) :
    (decimal a).length ≤ (decimal b).length := by
  rw [decimal, decimal, if_neg (by omega), if_neg (by omega)]
  exact length_toDigits_mono (by omega)

/-! ### Reading a printed number -/

/-- Digits are read up to a character that is none in any base. -/
theorem span_digits {base : ℕ} {ds e : CString} (hb : base ≤ 36) (hd : ∀ c ∈ ds, digit c < base)
    (he : ∀ c ∈ e.head?, digit c = 36) :
    ((ds ++ e).takeWhile fun c => digit c < base) = ds ∧
      ((ds ++ e).dropWhile fun c => digit c < base) = e := by
  have hpos : ∀ c ∈ ds, decide (digit c < base) = true := fun c hc => decide_eq_true (hd c hc)
  rw [List.takeWhile_append_of_pos hpos, List.dropWhile_append_of_pos hpos]
  cases e with
  | nil => exact ⟨List.append_nil ds, rfl⟩
  | cons c e =>
    have hneg : ¬ decide (digit c < base) = true := by
      rw [decide_eq_true_iff, he c rfl]
      omega
    rw [List.takeWhile_cons, List.dropWhile_cons, if_neg hneg, if_neg hneg]
    exact ⟨List.append_nil ds, rfl⟩

theorem literalBase_of_ne {s : CString} (h : ∀ ds, s ≠ '0' :: ds) : literalBase s = (10, s) := by
  unfold literalBase
  split
  · exact absurd rfl (h _)
  · exact absurd rfl (h _)
  · rfl

/-- A zero that no hexadecimal prefix follows announces an octal number. -/
theorem literalBase_zero {e : CString} (he : ∀ c ∈ e.head?, digit c = 36) :
    literalBase ('0' :: e) = (8, '0' :: e) := by
  match e with
  | [] => rfl
  | [_] => rfl
  | x :: d :: ds =>
    rw [literalBase, if_neg]
    rintro ⟨rfl | rfl, -⟩
    · exact absurd (he _ rfl) (by decide)
    · exact absurd (he _ rfl) (by decide)

theorem sign_of_isDigit {c : Char} (h : c.isDigit = true) (s : CString) :
    sign ((c :: s).dropWhile isSpace) = (false, c :: s) := by
  have hc := toNat_of_isDigit h
  have hspace : isSpace c = false := by
    refine decide_eq_false ?_
    rintro (rfl | ⟨-, hle⟩)
    · exact absurd h (by decide)
    · omega
  rw [List.dropWhile_cons_of_neg (by rw [hspace]; exact Bool.false_ne_true)]
  unfold sign
  split
  · next heq => cases heq; exact absurd h (by decide)
  · next heq => cases heq; exact absurd h (by decide)
  · rfl

/-- The number is read back, up to a character that is no digit in any base. -/
theorem numeral_signed (minus : Bool) (n : ℕ) {e : CString} (he : ∀ c ∈ e.head?, digit c = 36) :
    numeral ((if minus then ['-'] else []) ++ (Nat.toDigits 10 n ++ e)) = some (minus, n, e) := by
  have hsign : sign (((if minus then ['-'] else []) ++ (Nat.toDigits 10 n ++ e)).dropWhile isSpace)
      = (minus, Nat.toDigits 10 n ++ e) := by
    cases minus with
    | true => rfl
    | false =>
      cases hd : Nat.toDigits 10 n with
      | nil => exact absurd hd Nat.toDigits_ne_nil
      | cons d ds =>
        exact sign_of_isDigit (isDigit_of_mem_toDigits (hd ▸ List.mem_cons_self)) (ds ++ e)
  unfold numeral
  simp only [hsign]
  by_cases hn : n = 0
  · subst hn
    -- zero is read in base 8
    have hzero : ∀ c ∈ ['0'], digit c < 8 := List.forall_mem_singleton.2 (by decide)
    have hspan := span_digits (by omega) hzero he
    rw [Nat.toDigits_zero, List.singleton_append] at *
    simp only [literalBase_zero he, hspan]
    rfl
  · have hb : literalBase (Nat.toDigits 10 n ++ e) = (10, Nat.toDigits 10 n ++ e) := by
      refine literalBase_of_ne fun ds h => ?_
      cases hd : Nat.toDigits 10 n with
      | nil => exact Nat.toDigits_ne_nil hd
      | cons d ds' =>
        rw [hd] at h
        cases h
        exact head_toDigits_ne hn _ hd
    have hspan := @span_digits 10 (Nat.toDigits 10 n) e (by decide)
      (fun c hc => digit_lt_of_isDigit (isDigit_of_mem_toDigits hc)) he
    simp only [hb, hspan, Nat.toDigits_ne_nil, if_false, digits_toDigits]

theorem numeral_decimal (z : ℤ) : numeral (decimal z) = some (decide (z < 0), z.natAbs, []) := by
  have h := numeral_signed (decide (z < 0)) z.natAbs (e := []) (by simp)
  rw [List.append_nil] at h
  simpa [decimal] using h

/-- `strtol` reads a printed integer back, as far as 64 bits hold it. -/
theorem strtol_decimal (z : ℤ) :
    strtol (decimal z) = (max (-2 ^ 63) (min (2 ^ 63 - 1) z), []) := by
  have hz : (if decide (z < 0) = true then -(z.natAbs : ℤ) else z.natAbs) = z := by
    simp only [decide_eq_true_eq]
    split_ifs <;> omega
  simp only [strtol, numeral_decimal, hz]

/-- `strtoul` reads a printed natural number back, as far as 64 bits hold it. -/
theorem strtoul_decimal {z : ℤ} (h : 0 ≤ z) :
    strtoul (decimal z) = (min (2 ^ 64 - 1) z.toNat, []) := by
  rw [strtoul_eq, numeral_decimal]
  have hz : decide (z < 0) = false := decide_eq_false (by omega)
  have hn : z.natAbs = z.toNat := by omega
  simp only [hz, hn, Bool.false_eq_true, if_false, Prod.mk.injEq, and_true]
  split_ifs <;> omega

theorem decimal_natCast (n : ℕ) : decimal n = Nat.toDigits 10 n := by
  have hn : ¬ (n : ℤ) < 0 := by omega
  rw [decimal, if_neg hn, List.nil_append, Int.natAbs_natCast]

theorem decimal_ne_nil (z : ℤ) : decimal z ≠ [] := by
  intro h
  exact Nat.toDigits_ne_nil (List.append_eq_nil_iff.1 h).2

end CString

/-! ### Decimal fractions -/

/-- A decimal fraction in lowest terms: `mantissa / 10 ^ scale`. -/
structure Decimal where
  mantissa : ℤ
  scale : ℕ
  lowest : scale = 0 ∨ ¬ 10 ∣ mantissa
  deriving DecidableEq, Repr

namespace Decimal

/-- The number. -/
def toRat (d : Decimal) : ℚ := d.mantissa / 10 ^ d.scale

/-- An integer. -/
def ofInt (n : ℤ) : Decimal := ⟨n, 0, .inl rfl⟩

/-- The text `{}` prints for it. -/
def text (d : Decimal) : CString :=
  (if d.mantissa < 0 then ['-'] else []) ++
    (Nat.toDigits 10 (d.mantissa.natAbs / 10 ^ d.scale) ++
      if d.scale = 0 then []
      else '.' :: (Nat.toDigits 10 (d.mantissa.natAbs % 10 ^ d.scale)).leftpad d.scale '0')

open CString

theorem toRat_eq_intCast {d : Decimal} {n : ℤ} :
    d.toRat = n ↔ d.scale = 0 ∧ d.mantissa = n := by
  have hpow : (10 : ℚ) ^ d.scale ≠ 0 := pow_ne_zero _ (by decide)
  rw [toRat, div_eq_iff hpow]
  have hcast : (d.mantissa : ℚ) = n * 10 ^ d.scale ↔ d.mantissa = n * 10 ^ d.scale := by
    norm_cast
  rw [hcast]
  constructor
  · intro h
    have hs : d.scale = 0 := by
      by_contra hs
      refine d.lowest.elim hs fun hnd => hnd ?_
      rw [h]
      exact (dvd_pow_self 10 hs).mul_left n
    rw [hs, pow_zero, mul_one] at h
    exact ⟨hs, h⟩
  · rintro ⟨hs, rfl⟩
    rw [hs, pow_zero, mul_one]

theorem text_of_scale_eq_zero {d : Decimal} (h : d.scale = 0) : d.text = decimal d.mantissa := by
  simp [text, decimal, h]

theorem numeral_text {d : Decimal} (h : d.scale ≠ 0) :
    ∃ e, e ≠ [] ∧ numeral d.text =
      some (decide (d.mantissa < 0), d.mantissa.natAbs / 10 ^ d.scale, e) := by
  refine ⟨'.' :: (Nat.toDigits 10 (d.mantissa.natAbs % 10 ^ d.scale)).leftpad d.scale '0',
    List.cons_ne_nil _ _, ?_⟩
  rw [← numeral_signed (decide (d.mantissa < 0)) _ (by simp; decide)]
  simp [text, h]

/-- `strtol` stops at the point. -/
theorem strtol_text_snd {d : Decimal} (h : d.scale ≠ 0) : (strtol d.text).2 ≠ [] := by
  obtain ⟨e, he, hnum⟩ := numeral_text h
  rw [strtol, hnum]
  exact he

/-- `strtoul` stops at the point. -/
theorem strtoul_text_snd {d : Decimal} (h : d.scale ≠ 0) : (strtoul d.text).2 ≠ [] := by
  obtain ⟨e, he, hnum⟩ := numeral_text h
  rw [strtoul_eq, hnum]
  exact he

example : (⟨-25, 3, by decide⟩ : Decimal).text = "-0.025".toList := by decide +kernel

end Decimal

end Autossh
