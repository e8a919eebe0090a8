import Autossh.Machine.Basic

/-!
# What has happened since

To say *why* a machine does something is to point at an earlier step of its run.
`Machine.Since s₀ P R as` says that a step of the run `as` from `s₀` has met `P`, and that no action
since then has met `R`: the step still counts.

A proof does not look back at the run.  `since_concat` says how one more step changes `Since`, and
`Run.invariant_since` makes an induction rule of it: the steps are shown to keep an invariant that
relates the state to *ghosts*, one proposition for each kind of event, which become true when the
event occurs and false when it is forgotten.
-/

namespace Autossh

namespace Machine

variable {S A ι : Type*} (M : Machine S A)

/-- A step of the run has met `P`, and no action after it `R`. -/
def Since (s₀ : S) (P : S → A → Prop) (R : A → Prop) (as : List A) : Prop :=
  ∃ xs a ys s, as = xs ++ a :: ys ∧ M.Run s₀ xs s ∧ P s a ∧ ∀ b ∈ ys, ¬ R b

variable {M}

theorem not_since_nil (s₀ : S) (P : S → A → Prop) (R : A → Prop) : ¬ M.Since s₀ P R [] := by
  rintro ⟨xs, a, ys, s, h, -⟩
  simp at h

/-- One more step. -/
theorem since_concat {s₀ s : S} {P : S → A → Prop} {R : A → Prop} {as : List A}
    (h : M.Run s₀ as s) (a : A) :
    M.Since s₀ P R (as ++ [a]) ↔ P s a ∨ (M.Since s₀ P R as ∧ ¬ R a) := by
  constructor
  · rintro ⟨xs, b, ys, t, hsplit, hr, hP, hR⟩
    rcases List.eq_nil_or_concat ys with rfl | ⟨ys, b', rfl⟩
    · -- the step is the last one
      obtain ⟨rfl, hb⟩ := List.append_inj' hsplit rfl
      cases hb
      obtain rfl : s = t := Option.some.inj (h.symm.trans hr)
      exact .inl hP
    · have hsplit' : as ++ [a] = (xs ++ b :: ys) ++ [b'] := by simpa using hsplit
      obtain ⟨rfl, hb⟩ := List.append_inj' hsplit' rfl
      cases hb
      exact .inr ⟨⟨xs, b, ys, t, rfl, hr, hP, fun b hb => hR b (by simp [hb])⟩, hR a (by simp)⟩
  · rintro (hP | ⟨⟨xs, b, ys, t, rfl, hr, hP, hR⟩, ha⟩)
    · exact ⟨as, a, [], s, rfl, h, hP, by simp⟩
    · refine ⟨xs, b, ys ++ [a], t, by simp, hr, hP, fun b hb => ?_⟩
      rcases List.mem_append.1 hb with hb | hb
      · exact hR b hb
      · obtain rfl := List.mem_singleton.1 hb
        exact ha

/-- **The rule of invariants with ghosts** that say what has happened since when. -/
theorem Run.invariant_since {s₀ s : S} {as : List A} {P : ι → S → A → Prop} {R : ι → A → Prop}
    {I : S → (ι → Prop) → Prop} (h : M.Run s₀ as s) (h₀ : I s₀ fun _ => False)
    (hstep : ∀ s a s' q, I s q → M.next s a = some s' →
      I s' fun k => P k s a ∨ (q k ∧ ¬ R k a)) :
    I s fun k => M.Since s₀ (P k) (R k) as := by
  refine Run.induct (P := fun as s => I s fun k => M.Since s₀ (P k) (R k) as) ?_ ?_ h
  · simpa only [not_since_nil] using h₀
  · intro as s a s' hr hi hn
    simpa only [since_concat hr] using hstep s a s' _ hi hn

end Machine

end Autossh
