import Mathlib.Data.List.Basic
import Mathlib.Tactic.SplitIfs

/-!
# Memory that is accessed with a check

A block of memory is a list of cells.  An access outside of it gives `none`, so that a program made
of these accesses that gives a result has made none.

* `load`, `store` : one cell; `loads` : a range of them;
* `memmove` : a range of cells is copied to another one, both in the block;
* `strlen`, `strchr` : searches for a cell from the beginning of the block, up to a terminator.
-/

namespace Autossh

namespace Memory

variable {α : Type} (m : List α)

/-- `m[i]`. -/
def load (i : ℕ) : Option α := m[i]?

/-- `m[i] = a`. -/
def store (i : ℕ) (a : α) : Option (List α) := if i < m.length then some (m.set i a) else none

/-- The cells `m[i..i + n]`. -/
def loads (i n : ℕ) : Option (List α) :=
  if i + n ≤ m.length then some ((m.drop i).take n) else none

/-- `memmove(m + dst, m + src, n)`. -/
def memmove (dst src n : ℕ) : Option (List α) :=
  if src + n ≤ m.length ∧ dst + n ≤ m.length then
    some (m.take dst ++ (m.drop src).take n ++ m.drop (dst + n))
  else none

section Search

variable [DecidableEq α] (nul : α)

/-- `strlen(m)`. -/
def strlen : List α → Option ℕ
  | [] => none
  | c :: m => if c = nul then some 0 else (strlen m).map (· + 1)

/-- `strchr(m, c)`: where the cell is, or `some none` if the terminator comes first. -/
def strchr (c : α) : List α → Option (Option ℕ)
  | [] => none
  | d :: m =>
    if d = c then some (some 0)
    else if d = nul then some none
    else (strchr c m).map fun o => o.map (· + 1)

end Search

variable {m}

theorem store_of_lt {i : ℕ} (h : i < m.length) (a : α) : store m i a = some (m.set i a) := if_pos h

theorem store_append (xs ys : List α) (a b : α) :
    store (xs ++ a :: ys) xs.length b = some (xs ++ b :: ys) := by
  simp [store]

theorem load_append (xs ys : List α) (a : α) : load (xs ++ a :: ys) xs.length = some a := by
  simp [load]

/-- The cells after a position are moved there, and the last one stays as well. -/
theorem memmove_shift (xs ys : List α) (a : α) :
    memmove (xs ++ a :: ys) xs.length (xs.length + 1) ys.length =
      some (xs ++ (ys ++ (a :: ys).drop ys.length)) := by
  have hlen : (xs ++ a :: ys).length = xs.length + ys.length + 1 := by
    simp only [List.length_append, List.length_cons]
    omega
  rw [memmove, if_pos (by omega)]
  simp [← List.drop_drop]

theorem strlen_append [DecidableEq α] {nul : α} {s : List α} (hs : nul ∉ s) (ys : List α) :
    strlen nul (s ++ nul :: ys) = some s.length := by
  induction s with
  | nil => simp [strlen]
  | cons c s ih =>
    rw [List.mem_cons, not_or] at hs
    rw [List.cons_append, strlen, if_neg (Ne.symm hs.1), ih hs.2]
    rfl

end Memory

end Autossh
