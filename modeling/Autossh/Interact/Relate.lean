import Autossh.Interact.Basic

/-!
# Programs that make the same calls

* `Prog.Sim R p q` : the programs `p` and `q` make the same calls whatever the answers are, and
  their results are related by `R`;
* `Sim.bind`, `Sim.mono` : the rules of composition and of consequence;
* `Sim.eq_bind` : if `R` is the graph of a function, then `p` is `q` and then that function.
-/

namespace Autossh

namespace Prog

variable {C : Type} {A : C → Type} {α β γ δ : Type}

/-- The same calls, and related results. -/
inductive Sim (R : α → β → Prop) : Prog A α → Prog A β → Prop
  | ret {a : α} {b : β} (h : R a b) : Sim R (ret a) (ret b)
  | call {c : C} {k : A c → Prog A α} {l : A c → Prog A β} (h : ∀ x, Sim R (k x) (l x)) :
      Sim R (call c k) (call c l)

variable {R : α → β → Prop} {p : Prog A α} {q : Prog A β}

theorem bind_ret (p : Prog A α) : p.bind .ret = p := by
  induction p with
  | ret a => rfl
  | call c k ih => exact congrArg (Prog.call c) (funext ih)

theorem Sim.bind {R' : γ → δ → Prop} {f : α → Prog A γ} {g : β → Prog A δ} (h : Sim R p q)
    (hfg : ∀ a b, R a b → Sim R' (f a) (g b)) : Sim R' (p.bind f) (q.bind g) := by
  induction h with
  | ret h => exact hfg _ _ h
  | call _ ih => exact .call ih

theorem Sim.mono {R' : α → β → Prop} (h : Sim R p q) (hR : ∀ a b, R a b → R' a b) :
    Sim R' p q := by
  induction h with
  | ret h => exact .ret (hR _ _ h)
  | call _ ih => exact .call ih

theorem Sim.eq_bind {f : β → α} (h : Sim (fun a b => a = f b) p q) :
    p = q.bind fun b => .ret (f b) := by
  induction h with
  | ret h => exact congrArg Prog.ret h
  | call _ ih => exact congrArg (Prog.call _) (funext ih)

end Prog

end Autossh
