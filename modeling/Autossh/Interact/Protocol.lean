import Autossh.Interact.Basic
import Autossh.Machine.Basic
import Mathlib.Tactic.ByContra

/-!
# Programs that follow a protocol

A *protocol* is a machine whose actions are the calls of a program with their answers: it says
which calls may be made next, and keeps in its state what later calls depend on.  A program
follows it when, whatever the answers are, every call it makes is one the protocol allows.

* `Prog.wp M Q p s` : started in the state `s` of the protocol `M`, the program `p` follows it, and
  the result and the state of the protocol at the end are related by `Q`;
* `wp_bind`, `wp_mono` : the rules of composition and of consequence;
* `Steps.wp` : **a program that follows a protocol does so on every trace**, whole or
  cut short;
* `Allows M I c` : in the states that satisfy `I` the protocol allows the call `c`, and keeps `I`;
  `Keeps M I p` is the same for every call of a program;
* `only P` is the protocol without a state that allows the calls that satisfy `P`.
-/

namespace Autossh

namespace Prog

variable {C : Type} {A : C → Type} {α β S : Type} {M : Machine S (Event A)} {p q : Prog A α}
  {t : List (Event A)} {s : S}

/-- Whatever the answers are, the calls of the program are allowed, and `Q` holds at its end. -/
def wp (M : Machine S (Event A)) (Q : α → S → Prop) : Prog A α → S → Prop
  | ret a, s => Q a s
  | call c k, s => ∀ x, ∃ s', M.next s ⟨c, x⟩ = some s' ∧ (k x).wp M Q s'

@[simp] theorem wp_ret {Q : α → S → Prop} {a : α} : (ret a : Prog A α).wp M Q s ↔ Q a s := Iff.rfl

theorem wp_call {Q : α → S → Prop} {c : C} {k : A c → Prog A α} :
    (call c k).wp M Q s ↔ ∀ x, ∃ s', M.next s ⟨c, x⟩ = some s' ∧ (k x).wp M Q s' := Iff.rfl

theorem wp_bind {Q : β → S → Prop} {f : α → Prog A β} :
    (p.bind f).wp M Q s ↔ p.wp M (fun a s => (f a).wp M Q s) s := by
  induction p generalizing s with
  | ret a => exact Iff.rfl
  | call c k ih =>
    rw [call_bind, wp_call, wp_call]
    exact forall_congr' fun x => exists_congr fun s' => and_congr_right fun _ => ih x

theorem wp_mono {Q Q' : α → S → Prop} (hQ : ∀ a s, Q a s → Q' a s) (h : p.wp M Q s) :
    p.wp M Q' s := by
  induction p generalizing s with
  | ret a => exact hQ a s h
  | call c k ih =>
    intro x
    obtain ⟨s', hn, hs'⟩ := h x
    exact ⟨s', hn, ih x hs'⟩

/-- **Every trace of a program that follows a protocol is a run of the protocol**, and what is left
of the program follows it from there. -/
theorem Steps.wp {Q : α → S → Prop} (h : p.Steps t q) (hp : p.wp M Q s) :
    ∃ s', M.Run s t s' ∧ q.wp M Q s' := by
  induction h generalizing s with
  | nil p => exact ⟨s, rfl, hp⟩
  | cons h ih =>
    obtain ⟨s₁, hn, h₁⟩ := hp _
    obtain ⟨s', hr, hs'⟩ := ih h₁
    refine ⟨s', ?_, hs'⟩
    rw [Machine.Run, Machine.exec, hn]
    exact hr

/-! ### What every call keeps -/

/-- Whatever the answer is, the call is allowed where `I` holds, and `I` holds after it. -/
def Allows (M : Machine S (Event A)) (I : S → Prop) (c : C) : Prop :=
  ∀ s x, I s → ∃ s', M.next s ⟨c, x⟩ = some s' ∧ I s'

/-- The program follows the protocol from where `I` holds, and `I` holds at its end. -/
def Keeps (M : Machine S (Event A)) (I : S → Prop) (p : Prog A α) : Prop :=
  ∀ s, I s → p.wp M (fun _ s => I s) s

section Keeps

variable {I : S → Prop}

theorem keeps_ret (a : α) : Keeps M I (ret a : Prog A α) := fun _ hs => hs

theorem keeps_call {c : C} {k : A c → Prog A α} (hc : Allows M I c) (hk : ∀ x, Keeps M I (k x)) :
    Keeps M I (call c k) := by
  intro s hs x
  obtain ⟨s', hn, hs'⟩ := hc s x hs
  exact ⟨s', hn, hk x s' hs'⟩

theorem keeps_bind {f : α → Prog A β} (hp : Keeps M I p) (hf : ∀ a, Keeps M I (f a)) :
    Keeps M I (p.bind f) := by
  intro s hs
  rw [wp_bind]
  exact wp_mono (fun a s' hs' => hf a s' hs') (hp s hs)

theorem keeps_ite {c : Prop} [Decidable c] (hp : c → Keeps M I p) (hq : ¬c → Keeps M I q) :
    Keeps M I (if c then p else q) := by
  split_ifs with h
  · exact hp h
  · exact hq h

end Keeps

/-- The calls that satisfy `P`, in any order. -/
def only (P : C → Prop) [DecidablePred P] : Machine Unit (Event A) where
  next _ e := if P e.1 then some () else none

theorem allows_only {P : C → Prop} [DecidablePred P] {c : C} (h : P c) :
    Allows (A := A) (only P) (fun _ => True) c :=
  fun _ _ _ => ⟨(), if_pos h, trivial⟩

/-- **A program all of whose calls satisfy `P`** has no other call in a trace. -/
theorem Steps.calls {P : C → Prop} [DecidablePred P] (h : p.Steps t q)
    (hp : Keeps (only P) (fun _ => True) p) : ∀ e ∈ t, P e.1 := by
  obtain ⟨_, hr, -⟩ := h.wp (hp () trivial)
  refine Machine.Run.induct (P := fun t _ => ∀ e ∈ t, P e.1) (fun _ he => absurd he
    List.not_mem_nil) ?_ hr
  intro t _ e _ _ ih hn e' he'
  rcases List.mem_append.1 he' with h' | h'
  · exact ih e' h'
  · obtain rfl := List.mem_singleton.1 h'
    by_contra hP
    rw [only] at hn
    simp only [if_neg hP] at hn
    cases hn

end Prog

end Autossh
