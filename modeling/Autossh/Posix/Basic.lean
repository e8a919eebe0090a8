import Mathlib.Algebra.Group.Int.Defs
import Mathlib.Algebra.Group.Nat.Defs
import Mathlib.Data.Int.Order.Basic
import Mathlib.Data.List.Infix
import Mathlib.Order.MinMax
import Mathlib.Tactic.SplitIfs

/-!
# C integers, C strings, errno values and wait statuses

The few pieces of the C ABI the programs below lean on.

* `i32Wrap` is the value of an `i32` after wrapping arithmetic or an `as i32` from another
  integer type, `i64Wrap` that of an `i64` after wrapping arithmetic, `u32Cast` an `as u32`,
  `usizeCast` an `as usize`, `i32Sat` the saturating `as i32` from a `c_double` (all doubles cast
  in the source hold integers, so no rounding is involved);
* `bytes` is the text of a string constant, `strstr` a substring search in a buffer;
* `wifexited`, `wexitstatus`, `wifsignaled`, `wtermsig` are the macros of `sys/wait.h` on the
  status word, and `terminated` is what every status reported by a `waitpid` without
  `WUNTRACED` and `WCONTINUED` satisfies;
* `bind_eq_ok` takes a `do` block of fallible steps apart, `exists_ok` reads off a result.
-/

namespace Autossh

/-- Two's complement wrap to 32 bits. -/
def i32Wrap (n : ℤ) : ℤ := n.bmod (2 ^ 32)

/-- Two's complement wrap to 64 bits. -/
def i64Wrap (n : ℤ) : ℤ := n.bmod (2 ^ 64)

/-- Conversion to an unsigned 32-bit integer. -/
def u32Cast (n : ℤ) : ℕ := (n % 2 ^ 32).toNat

/-- Conversion of a signed integer to `usize`. -/
def usizeCast (n : ℤ) : ℕ := (n % 2 ^ 64).toNat

/-- Saturating conversion to a signed 32-bit integer. -/
def i32Sat (n : ℤ) : ℤ := max (-2 ^ 31) (min n (2 ^ 31 - 1))

theorem i32Wrap_bounds (n : ℤ) : -2 ^ 31 ≤ i32Wrap n ∧ i32Wrap n < 2 ^ 31 := by
  have h₀ := Int.le_bmod (x := n) (m := 2 ^ 32) (by decide)
  have h₁ := Int.bmod_lt (x := n) (m := 2 ^ 32) (by decide)
  unfold i32Wrap
  omega

theorem i32Wrap_of_bounds {z : ℤ} (h₀ : -2 ^ 31 ≤ z) (h : z < 2 ^ 31) : i32Wrap z = z :=
  Int.bmod_eq_of_le (by omega) (by omega)

theorem i64Wrap_bounds (n : ℤ) : -2 ^ 63 ≤ i64Wrap n ∧ i64Wrap n < 2 ^ 63 := by
  have h₀ := Int.le_bmod (x := n) (m := 2 ^ 64) (by decide)
  have h₁ := Int.bmod_lt (x := n) (m := 2 ^ 64) (by decide)
  unfold i64Wrap
  omega

theorem i64Wrap_of_bounds {z : ℤ} (h₀ : -2 ^ 63 ≤ z) (h : z < 2 ^ 63) : i64Wrap z = z :=
  Int.bmod_eq_of_le (by omega) (by omega)

theorem u32Cast_of_nonneg {n : ℤ} (h₀ : 0 ≤ n) (h : n < 2 ^ 31) : (u32Cast n : ℤ) = n := by
  unfold u32Cast
  omega

theorem u32Cast_of_neg {n : ℤ} (h₀ : -2 ^ 31 ≤ n) (h : n < 0) : (u32Cast n : ℤ) = n + 2 ^ 32 := by
  unfold u32Cast
  omega

theorem usizeCast_natCast {n : ℕ} (h : n < 2 ^ 64) : usizeCast n = n := by
  unfold usizeCast
  omega

theorem i32Sat_of_mem {n : ℤ} (h₀ : -2 ^ 31 ≤ n) (h : n < 2 ^ 31) : i32Sat n = n := by
  unfold i32Sat
  omega

theorem i32Sat_bounds (n : ℤ) : -2 ^ 31 ≤ i32Sat n ∧ i32Sat n < 2 ^ 31 := by
  unfold i32Sat
  omega

/-- The bytes of an ASCII text, without the terminating NUL. -/
def bytes (t : String) : List UInt8 := t.toList.map fun c => c.toNat.toUInt8

/-- `strstr` on a buffer: only the bytes before the first NUL count. -/
def strstr (buf needle : List UInt8) : Bool :=
  (buf.takeWhile (· ≠ 0)).tails.any fun t => needle.isPrefixOf t

theorem strstr_iff {buf needle : List UInt8} :
    strstr buf needle = true ↔ needle <:+: buf.takeWhile (· ≠ 0) := by
  simp only [strstr, List.any_eq_true, List.mem_tails, List.isPrefixOf_iff_prefix,
    List.infix_iff_prefix_suffix]
  exact exists_congr fun t => and_comm

/-- The `errno` values the source tells apart. -/
inductive Errno
  | eintr
  | echild
  | other (n : ℕ)
  deriving DecidableEq, Repr

/-- The result of `waitpid(pid, &status, WNOHANG)` for one positive `pid`. -/
inductive WaitRes
  /-- 0: the child exists and has not changed state. -/
  | zero
  /-- The pid: the child has been reaped with this status. -/
  | pid (status : ℕ)
  /-- -1 with this `errno`. -/
  | err (e : Errno)
  deriving DecidableEq, Repr

/-- `WIFEXITED`. -/
def wifexited (st : ℕ) : Bool := st % 128 = 0

/-- `WEXITSTATUS`. -/
def wexitstatus (st : ℕ) : ℕ := st / 256 % 256

/-- `WIFSIGNALED`. -/
def wifsignaled (st : ℕ) : Bool := st % 128 ≠ 0 ∧ st % 128 ≠ 127

/-- `WTERMSIG`. -/
def wtermsig (st : ℕ) : ℕ := st % 128

/-- The status of a child that has terminated, not one of a stopped (low byte `0x7f`) or
continued (`0xffff`) child. -/
def terminated (st : ℕ) : Bool := st % 128 ≠ 127

theorem terminated_iff {st : ℕ} :
    terminated st = true ↔ wifexited st = true ∨ wifsignaled st = true := by
  simp only [terminated, wifexited, wifsignaled, decide_eq_true_eq]
  omega

/-! ### Fallible computations -/

theorem bind_eq_ok {ε α β : Type} {x : Except ε α} {f : α → Except ε β} {b : β} :
    (x >>= f) = .ok b ↔ ∃ a, x = .ok a ∧ f a = .ok b := by
  cases x with
  | error e => simp [bind, Except.bind]
  | ok a => simp [bind, Except.bind]

theorem exists_ok {ε α β : Type} {x : Except ε α} {f : α → β} {y : β}
    (h : x.toOption.map f = some y) : ∃ a, x = .ok a ∧ f a = y := by
  cases x with
  | error e => cases h
  | ok a => exact ⟨a, rfl, Option.some.inj h⟩

end Autossh
