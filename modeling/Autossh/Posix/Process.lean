import Autossh.Posix.Basic
import Mathlib.Logic.Function.Basic
import Mathlib.Order.BooleanAlgebra.Set

/-!
# The process table, as a component of one process sees it

A component runs inside a process and forks children.  Its host process can have other children,
and there are processes that are no children of it at all; the component sees all of them by
their pids only, and a pid is used again once its process is gone.

* `ProcTable.waitpid` says which results `waitpid` can return, and removes the child it reaps.
  With a pid that is not positive it waits for any child (of a process group, which is not
  modelled), so every zombie child can be reaped then;
* `ProcTable.fork` adds a child of the component;
* `ProcTable.move` is what happens on its own: a process exits, another process appears, or one
  that the component has not forked is reaped by its parent;
* `ProcTable.own` is the set of children the component has forked and no one has reaped.
-/

namespace Autossh

/-- Whose child a process is. -/
inductive Kind
  /-- the component's: it has forked it -/
  | own
  /-- another child of the host process -/
  | host
  /-- no child of the host process -/
  | other
  deriving DecidableEq, Repr

/-- A process that has not been reaped. -/
structure Proc where
  kind : Kind
  /-- The status it has exited with. -/
  status : Option ℕ
  deriving DecidableEq, Repr

/-- The processes that have not been reaped, by pid. -/
abbrev ProcTable := ℤ → Option Proc

/-- What `waitpid` returned. -/
inductive Waited
  /-- 0: there is a child to wait for, and none has exited. -/
  | zero
  /-- The pid of the child that has been reaped, with its status. -/
  | reaped (pid : ℤ) (status : ℕ)
  /-- -1 with this `errno`. -/
  | err (e : Errno)
  deriving DecidableEq, Repr

namespace Waited

/-- The return value. -/
def rc : Waited → ℤ
  | zero => 0
  | reaped p _ => p
  | err _ => -1

/-- The status word, which was 0 before the call. -/
def status : Waited → ℕ
  | reaped _ st => st
  | _ => 0

end Waited

/-- What can happen to the processes while the component does nothing. -/
inductive Move
  | exit (pid : ℤ) (status : ℕ)
  | spawn (pid : ℤ) (kind : Kind)
  | vanish (pid : ℤ)
  deriving DecidableEq, Repr

namespace ProcTable

variable (k : ProcTable)

/-- There is a child `p` of the host process. -/
def child (p : ℤ) : Bool := (k p).any fun x => x.kind ≠ .other

/-- There is a child `p` that the component has forked. -/
def owns (p : ℤ) : Bool := (k p).any fun x => x.kind = .own

/-- The children the component has forked and no one has reaped. -/
def own : Set ℤ := {p | k.owns p = true}

/-- `waitpid(p, &status, nohang ? WNOHANG : 0)` returns `r`. -/
def waitpid (p : ℤ) (nohang : Bool) : Waited → Option ProcTable
  | .zero =>
    if nohang = true ∧ (0 < p → k.child p = true ∧ (k p).any (·.status = none) = true) then some k
    else none
  | .reaped q st =>
    if (0 < p → q = p) ∧ k.child q = true ∧ (k q).any (·.status = some st) = true then
      some (Function.update k q none)
    else none
  | .err .echild => if 0 < p ∧ k.child p = true then none else some k
  | .err .eintr => some k
  | .err (.other _) => none

/-- `fork` returns `r` in the parent: a new pid, or a negative number when it fails. -/
def fork (r : ℤ) : Option ProcTable :=
  if r < 0 then some k
  else if 0 < r ∧ k r = none then some (Function.update k r (some ⟨.own, none⟩))
  else none

/-- A move of the environment. -/
def move : Move → Option ProcTable
  | .exit p st => match k p with
    | some ⟨kind, none⟩ =>
      if terminated st then some (Function.update k p (some ⟨kind, some st⟩)) else none
    | _ => none
  | .spawn p kind =>
    if 0 < p ∧ k p = none ∧ kind ≠ .own then some (Function.update k p (some ⟨kind, none⟩))
    else none
  | .vanish p =>
    if k.owns p = false then some (Function.update k p none) else none

variable {k} {k' : ProcTable} {p r : ℤ}

theorem owns_update {q : ℤ} {x : Option Proc} :
    owns (Function.update k q x) p = if p = q then x.any (·.kind = .own) else k.owns p := by
  simp only [owns, Function.update_apply]
  split_ifs <;> rfl

theorem child_of_owns (h : k.owns p = true) : k.child p = true := by
  simp only [owns, child, Option.any_eq_true_iff_get, decide_eq_true_eq] at h ⊢
  obtain ⟨hs, hx⟩ := h
  exact ⟨hs, by simp [hx]⟩

/-- A child that is gone from the table, the others being as they were. -/
theorem own_update_none {q : ℤ} : own (Function.update k q none) = k.own \ {q} := by
  ext p
  simp only [own, Set.mem_ofPred_eq, Set.mem_sdiff, Set.mem_singleton_iff, owns_update]
  split_ifs with hp <;> simp [hp]

theorem own_update_of_kind {q : ℤ} {x : Proc} (h : k.owns q = decide (x.kind = .own)) :
    own (Function.update k q (some x)) = k.own := by
  ext p
  simp only [own, Set.mem_ofPred_eq, owns_update]
  split_ifs with hp
  · rw [hp, h, Option.any_some]
  · rfl

/-- A `waitpid` reaps a child, or leaves the table as it is and does not return the pid it was
called with; with `ECHILD` there is no child to wait for. -/
theorem waitpid_cases {nohang : Bool} {w : Waited} (h : k.waitpid p nohang w = some k') :
    (∃ q st, w = .reaped q st ∧ (0 < p → q = p) ∧ k'.own = k.own \ {q}) ∨
    (k' = k ∧ (0 < p → w.rc ≠ p) ∧ (w = .zero ∧ nohang = true ∨ w = .err .eintr ∨
      w = .err .echild ∧ (0 < p → p ∉ k.own))) := by
  cases w with
  | zero =>
    simp only [waitpid] at h
    split_ifs at h with hz
    cases h
    exact .inr ⟨rfl, fun hp => by simp only [Waited.rc]; omega, .inl ⟨rfl, hz.1⟩⟩
  | reaped q st =>
    simp only [waitpid] at h
    split_ifs at h with hr
    cases h
    exact .inl ⟨q, st, rfl, hr.1, own_update_none⟩
  | err e =>
    have hrc : 0 < p → (Waited.err e).rc ≠ p := fun hp => by simp only [Waited.rc]; omega
    cases e with
    | eintr =>
      cases h
      exact .inr ⟨rfl, hrc, .inr (.inl rfl)⟩
    | echild =>
      simp only [waitpid] at h
      split_ifs at h with hc
      cases h
      exact .inr ⟨rfl, hrc, .inr (.inr ⟨rfl, fun hp ho => hc ⟨hp, child_of_owns ho⟩⟩)⟩
    | other n => cases h

/-- A child is gone once a `waitpid` for it has reaped it or found none. -/
theorem notMem_own_of_waitpid {nohang : Bool} {w : Waited} (hp : 0 < p)
    (h : k.waitpid p nohang w = some k') (hw : w.rc = p ∨ w = .err .echild) : p ∉ k'.own := by
  rcases waitpid_cases h with ⟨r, st, rfl, hr, hown'⟩ | ⟨rfl, hne, hcase⟩
  · rw [hown', hr hp]
    exact fun hmem => hmem.2 rfl
  · obtain rfl := hw.resolve_left (hne hp)
    rcases hcase with ⟨he, -⟩ | he | ⟨-, hno⟩
    · cases he
    · cases he
    · exact hno hp

/-- The one child there can be is gone once a `waitpid` for it has reaped it or found none. -/
theorem own_eq_empty_of_waitpid {nohang : Bool} {w : Waited} (hp : 0 < p)
    (hown : ∀ q ∈ k.own, q = p) (h : k.waitpid p nohang w = some k')
    (hw : w.rc = p ∨ w = .err .echild) : k'.own = ∅ := by
  refine Set.eq_empty_iff_forall_notMem.2 fun q hq => ?_
  have hsub : q ∈ k.own := by
    rcases waitpid_cases h with ⟨r, st, -, -, hown'⟩ | ⟨rfl, -, -⟩
    · rw [hown'] at hq
      exact hq.1
    · exact hq
  rw [hown q hsub] at hq
  exact notMem_own_of_waitpid hp h hw hq

theorem fork_cases (h : k.fork r = some k') :
    (r < 0 ∧ k' = k) ∨ (0 < r ∧ r ∉ k.own ∧ k'.own = insert r k.own) := by
  unfold fork at h
  split_ifs at h with hr hk
  · cases h
    exact .inl ⟨hr, rfl⟩
  · cases h
    refine .inr ⟨hk.1, ?_, ?_⟩
    · simp [own, owns, hk.2]
    · ext p
      simp only [own, Set.mem_ofPred_eq, Set.mem_insert_iff, owns_update]
      split_ifs with hp <;> simp [hp]

/-- The environment neither forks nor reaps the component's children. -/
theorem own_move {m : Move} (h : k.move m = some k') : k'.own = k.own := by
  cases m with
  | exit p st =>
    simp only [move] at h
    split at h
    · rename_i kind hk
      split_ifs at h
      cases h
      exact own_update_of_kind (by simp [owns, hk])
    · cases h
  | spawn p kind =>
    simp only [move] at h
    split_ifs at h with hp
    cases h
    exact own_update_of_kind (by simp [owns, hp.2.1, hp.2.2])
  | vanish p =>
    simp only [move] at h
    split_ifs at h with hp
    cases h
    rw [own_update_none, Set.sdiff_singleton_eq_self]
    simp_all [own]

end ProcTable

end Autossh
