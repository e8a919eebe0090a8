import Autossh.Machine.Basic
import Mathlib.Algebra.Order.Group.Multiset
import Mathlib.Algebra.Order.Sub.Basic

/-!
# Accounts of what is open

A component opens resources and closes them again; a name is used again once its resource has
been closed.  Its *account* is the machine whose state is the multiset of the names that are open,
and which closes nothing else.

* `Account.count_closed_le` : every name has been closed at most as often as it was opened;
* `Account.count_closed_eq` : as often, when nothing is open.
-/

namespace Autossh

namespace Account

variable {A R : Type*} [DecidableEq R] (opens closes : A → List R)

/-- The account of what is open. -/
def account : Machine (Multiset R) A where
  next l a := if ↑(closes a) ≤ l then some (l - ↑(closes a) + ↑(opens a)) else none

variable {opens closes} {l l' : Multiset R} {as : List A} {a : A}

/-- What was open and what is opened is closed, or still open. -/
theorem account_next (h : l + ↑(opens a) = ↑(closes a) + l') (hle : ↑(closes a) ≤ l) :
    (account opens closes).next l a = some l' := by
  have hl' : l - ↑(closes a) + ↑(opens a) = l' := by
    rw [tsub_add_eq_add_tsub hle, h, add_tsub_cancel_left]
  rw [← hl']
  exact if_pos hle

theorem opened_eq (h : (account opens closes).Run 0 as l) :
    (↑(as.flatMap opens) : Multiset R) = ↑(as.flatMap closes) + l := by
  refine Machine.Run.induct (M := account opens closes)
    (P := fun as l => (↑(as.flatMap opens) : Multiset R) = ↑(as.flatMap closes) + l) rfl ?_ h
  intro as l a l' _ ih hn
  simp only [account] at hn
  split_ifs at hn with hle
  cases hn
  rw [List.flatMap_append, List.flatMap_append, ← Multiset.coe_add, ← Multiset.coe_add, ih]
  simp only [List.flatMap_cons, List.flatMap_nil, List.append_nil]
  rw [add_assoc, add_assoc, ← add_assoc (↑(closes a) : Multiset R), add_tsub_cancel_of_le hle]

/-- **Nothing is closed more often than it was opened.** -/
theorem count_closed_le (h : (account opens closes).Run 0 as l) (r : R) :
    (as.flatMap closes).count r ≤ (as.flatMap opens).count r := by
  rw [← Multiset.coe_count, ← Multiset.coe_count, opened_eq h, Multiset.count_add]
  exact Nat.le_add_right _ _

/-- **When nothing is open, everything has been closed as often as it was opened.** -/
theorem count_closed_eq (h : (account opens closes).Run 0 as 0) (r : R) :
    (as.flatMap closes).count r = (as.flatMap opens).count r := by
  rw [← Multiset.coe_count, ← Multiset.coe_count, opened_eq h, add_zero]

end Account

end Autossh
