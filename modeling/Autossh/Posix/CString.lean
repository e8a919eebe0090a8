import Mathlib.Algebra.Group.Int.Defs
import Mathlib.Algebra.Group.Nat.Defs
import Mathlib.Data.Int.Notation
import Mathlib.Data.List.Basic
import Mathlib.Tactic.SplitIfs

/-!
# C strings and the numbers in them

* `strtoul` is `strtoul(s, &end, 0)` with a 64-bit `unsigned long`: the value, and the text `end`
  points to.  Without any digits that is the whole string;
* `strtol10` is `strtol(s, &end, 10)`, in the same way;
* `decimal` is the text `%d` prints.
-/

namespace Autossh

/-- A C string: its bytes before the NUL, each as the character with its code. -/
abbrev CString := List Char

namespace CString

/-- `isspace` in the C locale. -/
def isSpace (c : Char) : Bool := c = ' ' ∨ (9 ≤ c.toNat ∧ c.toNat ≤ 13)

/-- The value of a digit in bases up to 36; 36 if the character is none. -/
def digit (c : Char) : ℕ :=
  if c.isDigit then c.toNat - '0'.toNat
  else if c.isLower then c.toNat - 'a'.toNat + 10
  else if c.isUpper then c.toNat - 'A'.toNat + 10
  else 36

/-- The value of a sequence of digits. -/
def digits (base : ℕ) (ds : List Char) : ℕ := ds.foldl (fun n c => n * base + digit c) 0

/-- The base a literal announces, and the literal without the announcement. -/
def literalBase : CString → ℕ × CString
  | '0' :: x :: d :: ds =>
    if (x = 'x' ∨ x = 'X') ∧ digit d < 16 then (16, d :: ds) else (8, '0' :: x :: d :: ds)
  | '0' :: ds => (8, '0' :: ds)
  | ds => (10, ds)

/-- A sign: whether it is a minus, and the text after it. -/
def sign : CString → Bool × CString
  | '-' :: s => (true, s)
  | '+' :: s => (false, s)
  | s => (false, s)

/-- `strtoul(s, &end, 0)`: too large a value becomes `ULONG_MAX`, a minus is applied modulo
`2 ^ 64`. -/
def strtoul (s : CString) : ℕ × CString :=
  let u := sign (s.dropWhile isSpace)
  let l := literalBase u.2
  let n := digits l.1 (l.2.takeWhile fun c => digit c < l.1)
  if (l.2.takeWhile fun c => digit c < l.1) = [] then (0, s)
  else (if 2 ^ 64 ≤ n then 2 ^ 64 - 1 else if u.1 then (2 ^ 64 - n) % 2 ^ 64 else n,
    l.2.dropWhile fun c => digit c < l.1)

/-- `strtol(s, &end, 10)`: a value that does not fit becomes `LONG_MIN` or `LONG_MAX`. -/
def strtol10 (s : CString) : ℤ × CString :=
  let u := sign (s.dropWhile isSpace)
  let n := digits 10 (u.2.takeWhile Char.isDigit)
  if (u.2.takeWhile Char.isDigit) = [] then (0, s)
  else (max (-2 ^ 63) (min (2 ^ 63 - 1) (if u.1 then -(n : ℤ) else n)),
    u.2.dropWhile Char.isDigit)

/-- The text `%d` prints. -/
def decimal (n : ℤ) : CString :=
  (if n < 0 then ['-'] else []) ++ Nat.toDigits 10 n.natAbs

theorem strtol10_fst_lt (s : CString) : (strtol10 s).1 < 2 ^ 63 := by
  simp only [strtol10]
  split_ifs <;> simp only <;> omega

/-- A minus without a digit after it is no number. -/
theorem strtoul_minus {c : Char} (cs : CString) (h : 10 ≤ digit c) :
    strtoul ('-' :: c :: cs) = (0, '-' :: c :: cs) := by
  have hb : literalBase (c :: cs) = (10, c :: cs) := by
    unfold literalBase
    split
    · next heq => cases heq; exact absurd h (by decide)
    · next heq => cases heq; exact absurd h (by decide)
    · rfl
  have hs : ('-' :: c :: cs).dropWhile isSpace = '-' :: c :: cs := rfl
  simp only [strtoul, hs, sign, hb]
  rw [if_pos]
  exact List.takeWhile_cons_of_neg (by simpa using h)

example : strtoul " 0x1F".toList = (31, []) ∧ strtoul "08".toList = (0, ['8']) := by decide

end CString

end Autossh
