import Mathlib.Data.List.Induction
import Mathlib.Data.Option.Basic

/-!
# Labelled machines

Every stateful component in this development is a *labelled machine*: a partial function
`next : S → A → Option S` that says which state the action `a` leads to, or that `a` cannot
happen now.  The label carries everything an observer sees of the step (the system call with
its arguments and its result, or the move of the environment), so that a run is a list of
actions and every claim about "what the program does" is a claim about such lists.

* `Machine.exec s as` performs the actions `as` one after the other;
* `Machine.Run s as s'` says that it leads to `s'`, and `Machine.Reaches s s'` that some actions do;
* `Machine.guard P` is the machine whose steps are the steps of the original one that meet `P`;
* `Run.invariant`, `Run.invariant_hist` are the induction rules: what holds initially and is
  kept by every step holds after every run.  The second one carries a *history* along, a
  summary of the actions so far that the machine itself does not store;
* `Refines` and `Run.refines`: a machine refines an abstract one along a relation when every
  step can be answered by the same action there;
* `Simulates` and `Run.simulates`: an abstraction function maps states to abstract states and a
  step to an abstract action, or to no step at all.
-/

namespace Autossh

/-- The outcome of a step that can only be the action `b`. -/
def on {S A : Type*} [DecidableEq A] (b : A) (t : S) (a : A) : Option S :=
  if a = b then some t else none

@[simp] theorem on_eq_some {S A : Type*} [DecidableEq A] {a b : A} {t t' : S} :
    on b t a = some t' ↔ a = b ∧ t = t' := by
  simp [on]

/-- The same, when the state is a pair. -/
theorem on_pair_eq_some {S T A : Type*} [DecidableEq A] {a b : A} {x x' : S} {y y' : T} :
    on b (x, y) a = some (x', y') ↔ a = b ∧ x = x' ∧ y = y' := by
  rw [on_eq_some, Prod.mk.injEq]

/-- A labelled machine with states `S` and actions `A`. -/
structure Machine (S : Type*) (A : Type*) where
  /-- The state after the action, or `none` when the action is not possible. -/
  next : S → A → Option S

namespace Machine

variable {S A H T : Type*} (M : Machine S A)

/-- Perform a list of actions. -/
def exec : S → List A → Option S
  | s, [] => some s
  | s, a :: as => (M.next s a).bind fun s' => exec s' as

/-- The actions `as` lead from `s` to `s'`. -/
def Run (s : S) (as : List A) (s' : S) : Prop := M.exec s as = some s'

/-- The steps of `M` that meet `P`. -/
def guard (P : S → A → Prop) [∀ s a, Decidable (P s a)] : Machine S A where
  next s a := if P s a then M.next s a else none

variable {M}

theorem exec_append (s : S) (as bs : List A) :
    M.exec s (as ++ bs) = (M.exec s as).bind fun s' => M.exec s' bs := by
  induction as generalizing s with
  | nil => rfl
  | cons a as ih =>
    simp only [List.cons_append, exec]
    cases M.next s a with
    | none => rfl
    | some s' => exact ih s'

theorem run_concat {s s'' : S} {as : List A} {a : A} :
    M.Run s (as ++ [a]) s'' ↔ ∃ s', M.Run s as s' ∧ M.next s' a = some s'' := by
  simp only [Run, exec_append, Option.bind_eq_some_iff]
  refine exists_congr fun s' => and_congr_right fun _ => ?_
  cases h : M.next s' a <;> simp [exec, h]

theorem Run.append {s s' s'' : S} {as bs : List A} (h : M.Run s as s') (h' : M.Run s' bs s'') :
    M.Run s (as ++ bs) s'' := by
  rw [Run, exec_append, show M.exec s as = some s' from h]
  exact h'

/-- A run is a run up to one of its actions, the step, and the rest. -/
theorem run_append_cons {s s'' : S} {as bs : List A} {a : A} :
    M.Run s (as ++ a :: bs) s'' ↔
      ∃ s₁ s₂, M.Run s as s₁ ∧ M.next s₁ a = some s₂ ∧ M.Run s₂ bs s'' := by
  simp only [Run, exec_append, exec, Option.bind_eq_some_iff]
  constructor
  · rintro ⟨s₁, h₁, s₂, h₂, h⟩
    exact ⟨s₁, s₂, h₁, h₂, h⟩
  · rintro ⟨s₁, s₂, h₁, h₂, h⟩
    exact ⟨s₁, h₁, s₂, h₂, h⟩

/-- Actions that can be performed are a run and a last step. -/
theorem exists_run_concat {s : S} {as : List A} {a : A}
    (h : (M.exec s (as ++ [a])).isSome = true) :
    ∃ s' s'', M.Run s as s' ∧ M.next s' a = some s'' := by
  obtain ⟨s'', hs⟩ := Option.isSome_iff_exists.1 h
  obtain ⟨s', hr, hn⟩ := run_concat.1 hs
  exact ⟨s', s'', hr, hn⟩

theorem exists_run_append {s : S} {as bs : List A} (h : (M.exec s (as ++ bs)).isSome = true) :
    ∃ s' s'', M.Run s as s' ∧ M.Run s' bs s'' := by
  obtain ⟨s'', hs⟩ := Option.isSome_iff_exists.1 h
  rw [exec_append, Option.bind_eq_some_iff] at hs
  obtain ⟨s', hr, hr'⟩ := hs
  exact ⟨s', s'', hr, hr'⟩

variable (M) in
/-- Some actions lead from `s` to `s'`. -/
def Reaches (s s' : S) : Prop := ∃ as, M.Run s as s'

namespace Reaches

theorem refl (s : S) : M.Reaches s s := ⟨[], rfl⟩

theorem trans {s s' s'' : S} (h : M.Reaches s s') (h' : M.Reaches s' s'') : M.Reaches s s'' := by
  obtain ⟨as, has⟩ := h
  obtain ⟨bs, hbs⟩ := h'
  exact ⟨as ++ bs, has.append hbs⟩

theorem head {s s' s'' : S} {a : A} (hn : M.next s a = some s') (h : M.Reaches s' s'') :
    M.Reaches s s'' := by
  obtain ⟨as, has⟩ := h
  refine ⟨a :: as, ?_⟩
  rw [Run, exec, hn]
  exact has

end Reaches

namespace Run

/-- Induction on the length of a run, the last step split off. -/
theorem induct {s₀ : S} {P : List A → S → Prop} (h₀ : P [] s₀)
    (hstep : ∀ as s a s', M.Run s₀ as s → P as s → M.next s a = some s' → P (as ++ [a]) s') :
    ∀ {as : List A} {s : S}, M.Run s₀ as s → P as s := by
  intro as
  induction as using List.reverseRecOn with
  | nil =>
    intro s h
    obtain rfl : s₀ = s := by simpa [Run, exec] using h
    exact h₀
  | append_singleton as a ih =>
    intro s h
    obtain ⟨s', hr, hn⟩ := run_concat.1 h
    exact hstep as s' a s hr (ih hr) hn

/-- What holds initially and is kept by every step holds after every run. -/
theorem invariant {s₀ s : S} {as : List A} {I : S → Prop} (h : M.Run s₀ as s) (h₀ : I s₀)
    (hstep : ∀ s a s', I s → M.next s a = some s' → I s') : I s :=
  induct (P := fun _ s => I s) h₀ (fun _ s a s' _ hi hn => hstep s a s' hi hn) h

/-- The rule of invariants with a history variable: `upd` folds the actions of the run into a
summary that the machine does not store, and `I` relates it to the state. -/
theorem invariant_hist {s₀ s : S} {as : List A} {upd : H → A → H} {h₀ : H} {I : H → S → Prop}
    (h : M.Run s₀ as s) (hI : I h₀ s₀)
    (hstep : ∀ x s a s', I x s → M.next s a = some s' → I (upd x a) s') :
    I (as.foldl upd h₀) s := by
  refine induct (P := fun as s => I (as.foldl upd h₀) s) hI (fun as s a s' _ hi hn => ?_) h
  rw [List.foldl_append]
  exact hstep _ s a s' hi hn

theorem guard_mono {P : S → A → Prop} [∀ s a, Decidable (P s a)] {s s' : S} {as : List A}
    (h : (M.guard P).Run s as s') : M.Run s as s' := by
  induction as generalizing s with
  | nil => exact h
  | cons a as ih =>
    simp only [Run, exec, guard, Option.bind_eq_some_iff] at h ⊢
    obtain ⟨t, ht, hr⟩ := h
    split_ifs at ht
    exact ⟨t, ht, ih hr⟩

end Run

theorem guard_next {P : S → A → Prop} [∀ s a, Decidable (P s a)] {s s' : S} {a : A} :
    (M.guard P).next s a = some s' ↔ P s a ∧ M.next s a = some s' := by
  simp only [guard]
  split_ifs with h <;> simp [h]

/-- The steps of a run all meet `P` exactly if those of its beginning do, and the last one. -/
theorem guard_run_concat {P : S → A → Prop} [∀ s a, Decidable (P s a)] {s s' s'' : S}
    {as : List A} {a : A} (h : M.Run s as s') (hn : M.next s' a = some s'') :
    (M.guard P).Run s (as ++ [a]) s'' ↔ (M.guard P).Run s as s' ∧ P s' a := by
  rw [run_concat]
  constructor
  · rintro ⟨t, ht, hnt⟩
    obtain rfl : s' = t := Option.some.inj (h.symm.trans ht.guard_mono)
    exact ⟨ht, (guard_next.1 hnt).1⟩
  · rintro ⟨hr, hP⟩
    exact ⟨s', hr, guard_next.2 ⟨hP, hn⟩⟩

/-- `M` refines `N` along `R`: related states have related successors under the same action. -/
def Refines (M : Machine S A) (N : Machine T A) (R : S → T → Prop) : Prop :=
  ∀ s t a s', R s t → M.next s a = some s' → ∃ t', N.next t a = some t' ∧ R s' t'

/-- **Runs refine.**  Every run of a refining machine is, action by action, a run of the
abstract one. -/
theorem Run.refines {N : Machine T A} {R : S → T → Prop} (hR : M.Refines N R) {s₀ s : S} {t₀ : T}
    {as : List A} (h₀ : R s₀ t₀) (h : M.Run s₀ as s) : ∃ t, N.Run t₀ as t ∧ R s t := by
  refine Run.induct (P := fun as s => ∃ t, N.Run t₀ as t ∧ R s t) ⟨t₀, rfl, h₀⟩ ?_ h
  rintro as s a s' - ⟨t, ht, hr⟩ hn
  obtain ⟨t', ht', hr'⟩ := hR s t a s' hr hn
  exact ⟨t', run_concat.2 ⟨t, ht, ht'⟩, hr'⟩

/-- `N` simulates `M` along the abstraction `r`, in the states that satisfy the invariant `I`: the
step `a` from `s` is the abstract action `f s a`, or leaves the abstract state as it is. -/
def Simulates {B : Type*} (M : Machine S A) (N : Machine T B) (I : S → Prop) (r : S → T)
    (f : S → A → Option B) : Prop :=
  ∀ s a s', I s → M.next s a = some s' → I s' ∧ match f s a with
    | none => r s' = r s
    | some b => N.next (r s) b = some (r s')

/-- Every run is mapped to a run of the abstract machine. -/
theorem Run.simulates {B : Type*} {N : Machine T B} {I : S → Prop} {r : S → T}
    {f : S → A → Option B} (hsim : M.Simulates N I r f) {s₀ s : S} {as : List A} (h₀ : I s₀)
    (h : M.Run s₀ as s) : I s ∧ ∃ bs, N.Run (r s₀) bs (r s) := by
  refine Run.induct (P := fun _ s => I s ∧ ∃ bs, N.Run (r s₀) bs (r s)) ⟨h₀, [], rfl⟩ ?_ h
  rintro as s a s' - ⟨hi, bs, hbs⟩ hn
  obtain ⟨hi', hs⟩ := hsim s a s' hi hn
  refine ⟨hi', ?_⟩
  cases hf : f s a with
  | none =>
    rw [hf] at hs
    exact ⟨bs, by rw [hs]; exact hbs⟩
  | some b =>
    rw [hf] at hs
    exact ⟨bs ++ [b], run_concat.2 ⟨r s, hbs, hs⟩⟩

end Machine

end Autossh
