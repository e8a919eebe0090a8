import Mathlib.Data.List.Basic
import Mathlib.Data.Option.Basic
import Mathlib.Tactic.SplitIfs

/-!
# Programs that interact with their environment

A program makes *calls* `c : C` and goes on with their answers, of type `A c`, until it returns.
The environment is whatever answers: a program says nothing about it, and what the program does
is the set of its traces, the lists of calls and answers it can go through.

* `Prog A α` is the type of such programs, `Prog.bind` their sequential composition;
* `p.Steps t q` says that the trace `t` leads from `p` to what is left of it, `q`, and
  `p.Returns t a` that it leads to the end, with the result `a`;
* `p.replay t` follows a trace by evaluation;
* `p.run h s` lets the program run against an environment `h` with the state `s`;
* `p.traced` is the program that returns what it has gone through along with its result.
-/

namespace Autossh

variable {C : Type} {A : C → Type} {α β σ : Type}

/-- A trace that has grown by one, split somewhere: at its end, or before. -/
theorem concat_eq_append_cons {E : Type} {t u v : List E} {a b : E} (h : t ++ [a] = u ++ b :: v) :
    (v = [] ∧ t = u ∧ a = b) ∨ ∃ v', v = v' ++ [a] ∧ t = u ++ b :: v' := by
  rcases List.eq_nil_or_concat v with rfl | ⟨v, c, rfl⟩
  · obtain ⟨rfl, rfl⟩ := List.append_singleton_inj.1 h
    exact .inl ⟨rfl, rfl, rfl⟩
  · have h' : t ++ [a] = (u ++ b :: v) ++ [c] := by simpa using h
    obtain ⟨rfl, rfl⟩ := List.append_singleton_inj.1 h'
    exact .inr ⟨v, List.concat_eq_append, rfl⟩

/-- A call and its answer. -/
abbrev Event (A : C → Type) := (c : C) × A c

/-- A program that makes calls and returns a value of type `α`. -/
inductive Prog (A : C → Type) (α : Type)
  /-- The program is over. -/
  | ret (a : α)
  /-- The program makes a call and goes on with the answer. -/
  | call (c : C) (k : A c → Prog A α)

namespace Prog

/-- Run `p`, then `f` on what it returns. -/
def bind : Prog A α → (α → Prog A β) → Prog A β
  | ret a, f => f a
  | call c k, f => call c fun x => (k x).bind f

@[simp] theorem ret_bind (a : α) (f : α → Prog A β) : (ret a : Prog A α).bind f = f a := rfl

theorem bind_assoc {γ : Type} (p : Prog A α) (f : α → Prog A β) (g : β → Prog A γ) :
    (p.bind f).bind g = p.bind fun a => (f a).bind g := by
  induction p with
  | ret a => rfl
  | call c k ih => exact congrArg (call c) (funext fun x => ih x)

@[simp] theorem call_bind (c : C) (k : A c → Prog A α) (f : α → Prog A β) :
    (call c k).bind f = call c fun x => (k x).bind f := rfl

/-- The trace `t` leads from `p` to `q`. -/
inductive Steps : Prog A α → List (Event A) → Prog A α → Prop
  | nil (p : Prog A α) : Steps p [] p
  | cons {c : C} {k : A c → Prog A α} {x : A c} {t : List (Event A)} {q : Prog A α}
      (h : Steps (k x) t q) : Steps (call c k) (⟨c, x⟩ :: t) q

/-- The trace `t` is a whole run, with the result `a`. -/
def Returns (p : Prog A α) (t : List (Event A)) (a : α) : Prop := p.Steps t (ret a)

theorem returns_ret {a b : α} {t : List (Event A)} :
    (ret a : Prog A α).Returns t b ↔ t = [] ∧ a = b := by
  constructor
  · intro h
    cases h
    exact ⟨rfl, rfl⟩
  · rintro ⟨rfl, rfl⟩
    exact .nil _

theorem returns_call {c : C} {k : A c → Prog A α} {t : List (Event A)} {b : α} :
    (call c k).Returns t b ↔ ∃ x t', t = ⟨c, x⟩ :: t' ∧ (k x).Returns t' b := by
  constructor
  · intro h
    cases h with
    | cons h => exact ⟨_, _, rfl, h⟩
  · rintro ⟨x, t', rfl, h⟩
    exact .cons h

/-- A run of a composition is a run of the one and then of the other. -/
theorem returns_bind {p : Prog A α} {f : α → Prog A β} {t : List (Event A)} {b : β} :
    (p.bind f).Returns t b ↔ ∃ u a v, t = u ++ v ∧ p.Returns u a ∧ (f a).Returns v b := by
  induction p generalizing t with
  | ret a =>
    constructor
    · intro h
      exact ⟨[], a, t, rfl, .nil _, h⟩
    · rintro ⟨u, a', v, rfl, hu, hv⟩
      obtain ⟨rfl, rfl⟩ := returns_ret.1 hu
      exact hv
  | call c k ih =>
    rw [call_bind, returns_call]
    constructor
    · rintro ⟨x, t', rfl, h⟩
      obtain ⟨u, a, v, rfl, hu, hv⟩ := (ih x).1 h
      exact ⟨⟨c, x⟩ :: u, a, v, rfl, .cons hu, hv⟩
    · rintro ⟨u, a, v, rfl, hu, hv⟩
      obtain ⟨x, u', rfl, hu'⟩ := returns_call.1 hu
      exact ⟨x, u' ++ v, rfl, (ih x).2 ⟨u', a, v, rfl, hu', hv⟩⟩

/-! ### Following a trace -/

section Replay

variable [DecidableEq C]

/-- What is left of the program after the trace, if the trace is one of its traces. -/
def replay : Prog A α → List (Event A) → Option (Prog A α)
  | p, [] => some p
  | ret _, _ :: _ => none
  | call c k, e :: t => if h : e.1 = c then (k (h ▸ e.2)).replay t else none

/-- The result of a program that is over. -/
def result : Prog A α → Option α
  | ret a => some a
  | call _ _ => none

theorem steps_of_replay {p q : Prog A α} {t : List (Event A)} (h : p.replay t = some q) :
    p.Steps t q := by
  induction t generalizing p with
  | nil =>
    cases p with
    | ret a => cases h; exact .nil _
    | call c k => cases h; exact .nil _
  | cons e t ih =>
    cases p with
    | ret a => cases h
    | call c k =>
      obtain ⟨c', x⟩ := e
      simp only [replay] at h
      split_ifs at h with hc
      subst hc
      exact .cons (ih h)

theorem returns_of_replay {p : Prog A α} {t : List (Event A)} {a : α}
    (h : (p.replay t).bind result = some a) : p.Returns t a := by
  obtain ⟨q, hq, hr⟩ := Option.bind_eq_some_iff.1 h
  cases q with
  | ret b => cases hr; exact steps_of_replay hq
  | call c k => cases hr

end Replay

/-! ### Environments -/

/-- The run of a program against an environment, which answers a call or ends the run: the trace,
the result and the state the environment is left in. -/
def run (h : σ → (c : C) → Option (A c × σ)) : Prog A α → σ → Option (List (Event A) × α × σ)
  | ret a, s => some ([], a, s)
  | call c k, s => (h s c).bind fun x => ((k x.1).run h x.2).map fun r => (⟨c, x.1⟩ :: r.1, r.2)

/-- What a run against an environment goes through is a trace of the program. -/
theorem returns_of_run {h : σ → (c : C) → Option (A c × σ)} {p : Prog A α} {s s' : σ}
    {t : List (Event A)} {a : α} (hr : p.run h s = some (t, a, s')) : p.Returns t a := by
  induction p generalizing s t with
  | ret b =>
    cases hr
    exact .nil _
  | call c k ih =>
    obtain ⟨x, -, hx⟩ := Option.bind_eq_some_iff.1 hr
    obtain ⟨⟨t', b, s''⟩, hr', he⟩ := Option.map_eq_some_iff.1 hx
    cases he
    exact .cons (ih x.1 hr')

/-- A run is known by its result. -/
theorem exists_trace {h : σ → (c : C) → Option (A c × σ)} {p : Prog A α} {s s' : σ} {a : α}
    (hr : (p.run h s).map (·.2) = some (a, s')) : ∃ t, p.run h s = some (t, a, s') := by
  obtain ⟨⟨t, r⟩, ht, he⟩ := Option.map_eq_some_iff.1 hr
  cases he
  exact ⟨t, ht⟩

theorem run_call_eq_some {h : σ → (c : C) → Option (A c × σ)} {c : C} {k : A c → Prog A α}
    {s s' : σ}
    {t : List (Event A)} {a : α} :
    (call c k).run h s = some (t, a, s') ↔ ∃ x s₁ u, h s c = some (x, s₁) ∧
      (k x).run h s₁ = some (u, a, s') ∧ t = ⟨c, x⟩ :: u := by
  simp only [run, Option.bind_eq_some_iff, Option.map_eq_some_iff]
  constructor
  · rintro ⟨⟨x, s₁⟩, hx, ⟨u, b, s₂⟩, hu, he⟩
    cases he
    exact ⟨x, s₁, u, hx, hu, rfl⟩
  · rintro ⟨x, s₁, u, hx, hu, rfl⟩
    exact ⟨(x, s₁), hx, (u, a, s'), hu, rfl⟩

/-- A composition runs as the one and then the other. -/
theorem run_bind_eq_some {h : σ → (c : C) → Option (A c × σ)} {p : Prog A α} {f : α → Prog A β}
    {s s' : σ} {t : List (Event A)} {b : β} :
    (p.bind f).run h s = some (t, b, s') ↔ ∃ u a s₁ v, p.run h s = some (u, a, s₁) ∧
      (f a).run h s₁ = some (v, b, s') ∧ t = u ++ v := by
  induction p generalizing s t with
  | ret a =>
    constructor
    · intro hr
      exact ⟨[], a, s, t, rfl, hr, rfl⟩
    · rintro ⟨u, a', s₁, v, hp, hf, rfl⟩
      cases hp
      exact hf
  | call c k ih =>
    rw [call_bind, run_call_eq_some]
    constructor
    · rintro ⟨x, s₁, t', hx, hk, rfl⟩
      obtain ⟨u, a, s₂, v, hp, hf, rfl⟩ := (ih x).1 hk
      exact ⟨⟨c, x⟩ :: u, a, s₂, v, run_call_eq_some.2 ⟨x, s₁, u, hx, hp, rfl⟩, hf, rfl⟩
    · rintro ⟨u, a, s₂, v, hp, hf, rfl⟩
      obtain ⟨x, s₁, u', hx, hk, rfl⟩ := run_call_eq_some.1 hp
      exact ⟨x, s₁, u' ++ v, hx, (ih x).2 ⟨u', a, s₂, v, hk, hf, rfl⟩, rfl⟩

/-- The program that returns its own trace as well. -/
def traced : Prog A α → Prog A (List (Event A) × α)
  | ret a => ret ([], a)
  | call c k => call c fun x => (k x).traced.bind fun r => ret (⟨c, x⟩ :: r.1, r.2)

/-- It makes the same run, and what it returns is the trace. -/
theorem run_traced {h : σ → (c : C) → Option (A c × σ)} {p : Prog A α} {s s' : σ}
    {t u : List (Event A)} {a : α} :
    p.traced.run h s = some (t, (u, a), s') ↔ p.run h s = some (t, a, s') ∧ u = t := by
  induction p generalizing s t u with
  | ret b =>
    simp only [traced, run, Option.some.injEq, Prod.mk.injEq]
    constructor
    · rintro ⟨rfl, ⟨rfl, rfl⟩, rfl⟩
      exact ⟨⟨rfl, rfl, rfl⟩, rfl⟩
    · rintro ⟨⟨rfl, rfl, rfl⟩, rfl⟩
      exact ⟨rfl, ⟨rfl, rfl⟩, rfl⟩
  | call c k ih =>
    rw [traced, run_call_eq_some, run_call_eq_some]
    constructor
    · rintro ⟨x, s₁, v, hx, hv, rfl⟩
      obtain ⟨w, ⟨w', b⟩, s₂, z, hw, hz, rfl⟩ := run_bind_eq_some.1 hv
      cases hz
      obtain ⟨hw, rfl⟩ := (ih x).1 hw
      exact ⟨⟨x, s₁, w', hx, hw, by simp⟩, by simp⟩
    · rintro ⟨⟨x, s₁, v, hx, hv, rfl⟩, rfl⟩
      refine ⟨x, s₁, v, hx,
        run_bind_eq_some.2 ⟨v, (v, a), s', [], (ih x).2 ⟨hv, rfl⟩, rfl, ?_⟩, rfl⟩
      exact (List.append_nil v).symm

/-- Two environments that answer alike from related states, and stay related, as long as the calls
are in `P`: a run that makes no other call goes the same way in both. -/
theorem run_rel {τ : Type} {h : σ → (c : C) → Option (A c × σ)}
    {h' : τ → (c : C) → Option (A c × τ)}
    {R : σ → τ → Prop} {P : C → Prop}
    (hstep : ∀ s r c x s₁, P c → R s r → h s c = some (x, s₁) →
      ∃ r₁, h' r c = some (x, r₁) ∧ R s₁ r₁)
    {p : Prog A α} {s s' : σ} {r : τ} {t : List (Event A)} {a : α} (hR : R s r)
    (hr : p.run h s = some (t, a, s')) (ht : ∀ e ∈ t, P e.1) :
    ∃ r', p.run h' r = some (t, a, r') ∧ R s' r' := by
  induction p generalizing s r t with
  | ret b =>
    cases hr
    exact ⟨r, rfl, hR⟩
  | call c k ih =>
    obtain ⟨x, s₁, u, hx, hk, rfl⟩ := run_call_eq_some.1 hr
    obtain ⟨r₁, hx', hR₁⟩ := hstep s r c x s₁ (ht _ List.mem_cons_self) hR hx
    obtain ⟨r', hk', hR'⟩ := ih x hR₁ hk fun e he => ht e (List.mem_cons_of_mem _ he)
    exact ⟨r', run_call_eq_some.2 ⟨x, r₁, u, hx', hk', rfl⟩, hR'⟩

end Prog

end Autossh
