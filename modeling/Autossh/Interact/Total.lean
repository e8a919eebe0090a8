import Autossh.Interact.Basic

/-!
# Programs that end within a budget

A *budget* says which calls may be made and what each of them costs, whatever its answer is.

* `Prog.Within b Q p s` : with the budget `s`, every call of the program `p` is one that `b` allows,
  and the result and what is left of the budget at the end are related by `Q`;
* `within_bind`, `Within.mono` : the rules of composition and of consequence;
* `Within.exists_run` : **against an environment that answers the calls the program comes to an
  end**, within its budget;
* `Steps.within` : every trace, whole or cut short, stays within the budget.
-/

namespace Autossh

namespace Prog

variable {C : Type} {A : C → Type} {α β S σ : Type} {b : S → C → Option S} {p : Prog A α} {s : S}

/-- Whatever the answers are, the budget allows the calls of the program, and `Q` holds at its
end. -/
def Within (b : S → C → Option S) (Q : α → S → Prop) : Prog A α → S → Prop
  | ret a, s => Q a s
  | call c k, s => ∃ s', b s c = some s' ∧ ∀ x, (k x).Within b Q s'

theorem within_call {Q : α → S → Prop} {c : C} {k : A c → Prog A α} :
    (call c k).Within b Q s ↔ ∃ s', b s c = some s' ∧ ∀ x, (k x).Within b Q s' := Iff.rfl

theorem within_bind {Q : β → S → Prop} {f : α → Prog A β} :
    (p.bind f).Within b Q s ↔ p.Within b (fun a s => (f a).Within b Q s) s := by
  induction p generalizing s with
  | ret a => exact Iff.rfl
  | call c k ih =>
    rw [call_bind, within_call, within_call]
    exact exists_congr fun s' => and_congr_right fun _ => forall_congr' fun x => ih x

theorem Within.mono {Q Q' : α → S → Prop} (h : p.Within b Q s) (hQ : ∀ a s, Q a s → Q' a s) :
    p.Within b Q' s := by
  induction p generalizing s with
  | ret a => exact hQ a s h
  | call c k ih =>
    obtain ⟨s', hs, hk⟩ := h
    exact ⟨s', hs, fun x => ih x (hk x)⟩

/-- **Every trace stays within the budget**, and what is left of the program within the rest. -/
theorem Steps.within {Q : α → S → Prop} {q : Prog A α} {t : List (Event A)} (h : p.Steps t q)
    (hp : p.Within b Q s) : ∃ s', (t.map Sigma.fst).foldlM b s = some s' ∧ q.Within b Q s' := by
  induction h generalizing s with
  | nil p => exact ⟨s, rfl, hp⟩
  | cons _ ih =>
    obtain ⟨s₁, hs, hk⟩ := hp
    obtain ⟨s', hcost, hq⟩ := ih (hk _)
    refine ⟨s', ?_, hq⟩
    rw [List.map_cons, List.foldlM_cons, hs]
    exact hcost

/-- **The program comes to an end**, if the calls that the budget allows are answered. -/
theorem Within.exists_run {Q : α → S → Prop} {h : σ → (c : C) → Option (A c × σ)}
    (hp : p.Within b Q s) (hh : ∀ w c s s', b s c = some s' → (h w c).isSome = true) (w : σ) :
    ∃ t a w' s', p.run h w = some (t, a, w') ∧ (t.map Sigma.fst).foldlM b s = some s' ∧ Q a s' := by
  induction p generalizing s w with
  | ret a => exact ⟨[], a, w, s, rfl, rfl, hp⟩
  | call c k ih =>
    obtain ⟨s₁, hs, hk⟩ := hp
    obtain ⟨⟨x, w₁⟩, hx⟩ := Option.isSome_iff_exists.1 (hh w c s s₁ hs)
    obtain ⟨t, a, w', s', hrun, hcost, hQ⟩ := ih x (hk x) w₁
    refine ⟨⟨c, x⟩ :: t, a, w', s', run_call_eq_some.2 ⟨x, w₁, t, hx, hrun, rfl⟩, ?_, hQ⟩
    rw [List.map_cons, List.foldlM_cons, hs]
    exact hcost

end Prog

end Autossh
