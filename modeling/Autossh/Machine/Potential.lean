import Autossh.Machine.Basic

/-!
# Potentials

A *potential* of a machine is a number that its steps pay from: a step that costs `n` lowers it by
at least `n`, and no step raises it.  What a run costs is then bounded by the potential it begins
with, however long the run is.

* `Machine.spent` : what the steps of a run cost;
* `Run.spent_le` : the rule, in the states that satisfy an invariant.
-/

namespace Autossh

namespace Machine

variable {S A : Type*} (M : Machine S A) (cost : S → A → ℕ)

/-- What the actions cost, one after the other. -/
def spent : S → List A → ℕ
  | _, [] => 0
  | s, a :: as => cost s a + ((M.next s a).map fun s' => spent s' as).getD 0

variable {M cost}

theorem spent_cons {s s' : S} {a : A} (h : M.next s a = some s') (as : List A) :
    M.spent cost s (a :: as) = cost s a + M.spent cost s' as := by
  rw [spent, h]
  rfl

/-- **A run costs no more than the potential it begins with.** -/
theorem Run.spent_le {I : S → Prop} {rank : S → ℕ}
    (hstep : ∀ s a s', I s → M.next s a = some s' → I s' ∧ cost s a + rank s' ≤ rank s) {s s' : S}
    {as : List A} (hs : I s) (h : M.Run s as s') : M.spent cost s as + rank s' ≤ rank s := by
  induction as generalizing s with
  | nil =>
    obtain rfl : s = s' := by simpa [Run, exec] using h
    simp [spent]
  | cons a as ih =>
    obtain ⟨s₁, hn, hr⟩ := Option.bind_eq_some_iff.1 h
    obtain ⟨hs₁, hle⟩ := hstep s a s₁ hs hn
    have := ih hs₁ hr
    rw [spent_cons hn]
    omega

/-- Costs that only depend on the action are counted in the list of actions. -/
theorem Run.spent_eq_countP {p : A → Bool} {s s' : S} {as : List A} (h : M.Run s as s') :
    M.spent (fun _ a => if p a then 1 else 0) s as = as.countP p := by
  induction as generalizing s with
  | nil => rfl
  | cons a as ih =>
    obtain ⟨s₁, hn, hr⟩ := Option.bind_eq_some_iff.1 h
    rw [spent_cons hn, ih hr, List.countP_cons, Nat.add_comm]

end Machine

end Autossh
