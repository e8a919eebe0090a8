import Autossh.Custody.Basic

/-!
# Handing over one resource

When no resource is created any more, the resource `p` named in the cell is swapped out by at
most one call.  `Handed p o c` says where it is: in the cell, with the call `o` that has swapped
it out, or gone.  `Handed.next` keeps it along every step except the creation of a resource and
the one that gives up on a resource it holds, and never takes `p` from the call that got it.
-/

namespace Autossh

/-- The deeds that neither create a resource nor give up on one. -/
def Deed.retiring {P : Type*} : Deed P → Bool
  | create _ | abandon => false
  | _ => true

namespace Custody

variable {P T : Type*}

/-- The resource `p`, and the call `o` that has swapped it out of the cell. -/
structure Handed (p : P) (o : Option T) (c : Custody P T) : Prop where
  cell : c.cell = some p ∧ o = none ∨ c.cell = none
  holder : ∀ t q, c.role t = .holding q → q = p ∧ o = some t
  storing : ∀ t q, c.role t ≠ .storing q
  clearing : ∀ t, c.role t = .clearing p → p ∉ c.own
  /-- A resource that exists is in the cell or held by the call that swapped it out. -/
  own : p ∈ c.own → c.cell = some p ∨ ∃ t, c.role t = .holding p

namespace Handed

variable [DecidableEq T] {c : Custody P T} {t : T} {p q : P} {o : Option T}

theorem swap (h : Handed p o c) (hc : c.cell = some q) :
    o = none ∧ Handed p (some t) ({ c with cell := none }.assign t (.holding q)) := by
  -- the cell can only name `p`, and no call holds it yet
  obtain ⟨hcell, ho⟩ := h.cell.resolve_right fun hn => nomatch hn.symm.trans hc
  obtain rfl : p = q := Option.some.inj (hcell.symm.trans hc)
  refine ⟨ho, .inr rfl, fun t' r hr => ?_, fun t' r hr => ?_, fun t' hr => ?_, fun _ => ?_⟩
  · rw [assign_role] at hr
    split_ifs at hr with ht
    · cases hr
      exact ⟨rfl, congrArg some ht.symm⟩
    · have := (h.holder t' r hr).2
      rw [ho] at this
      cases this
  · exact h.storing t' r (of_assign_role hr nofun).2
  · exact h.clearing t' (of_assign_role hr nofun).2
  · exact .inr ⟨t, assign_role_self⟩

/-- The holder is done with `p`, which does not exist any more. -/
theorem drop (h : Handed p o c) (hr : c.role t = .holding q) {own : Set P}
    (hp : q ∉ own) : Handed p o ({ c with own := own }.assign t .none) := by
  obtain ⟨rfl, ho⟩ := h.holder t q hr
  refine ⟨h.cell, fun t' r hr' => h.holder t' r (of_assign_role hr' nofun).2,
    fun t' r hr' => h.storing t' r (of_assign_role hr' nofun).2, fun _ _ => hp,
    fun hown => absurd hown hp⟩

omit [DecidableEq T] in
theorem shrink (h : Handed p o c) (q : P) : Handed p o { c with own := c.own \ {q} } :=
  ⟨h.cell, h.holder, h.storing, fun t ht hp => h.clearing t ht hp.1, fun hp => h.own hp.1⟩

theorem take (h : Handed p o c) (hr : c.role t = .none) (q : P) :
    Handed p o ({ c with own := c.own \ {q} }.assign t (.clearing q)) := by
  refine ⟨h.cell, fun t' r hr' => h.holder t' r (of_assign_role hr' nofun).2,
    fun t' r hr' => h.storing t' r (of_assign_role hr' nofun).2, fun t' hr' => ?_, fun hp => ?_⟩
  · rw [assign_role] at hr'
    split_ifs at hr' with ht
    · cases hr'
      exact fun hp => hp.2 rfl
    · exact fun hp => h.clearing t' hr' hp.1
  · refine (h.own hp.1).imp_right fun ⟨t', ht'⟩ => ⟨t', ?_⟩
    exact (assign_role_of_ne (by rintro rfl; rw [hr] at ht'; cases ht')).trans ht'

open Classical in
theorem clear (h : Handed p o c) (hr : c.role t = .clearing q) :
    Handed p o ({ c with cell := if c.cell = some q then none else c.cell }.assign t .none) := by
  have hown : p ∈ c.own → (if c.cell = some q then none else c.cell) = c.cell := by
    intro hp
    refine if_neg fun hc => ?_
    rcases h.cell with ⟨hc', -⟩ | hc'
    · obtain rfl : p = q := Option.some.inj (hc'.symm.trans hc)
      exact h.clearing t hr hp
    · rw [hc'] at hc
      cases hc
  refine ⟨?_, fun t' r hr' => h.holder t' r (of_assign_role hr' nofun).2,
    fun t' r hr' => h.storing t' r (of_assign_role hr' nofun).2,
    fun t' hr' => h.clearing t' (of_assign_role hr' nofun).2, fun hp => ?_⟩
  · simp only [assign_cell]
    split_ifs
    · exact .inr rfl
    · exact h.cell
  · simp only [assign_cell, hown hp]
    refine (h.own hp).imp_right fun ⟨t', ht'⟩ => ⟨t', ?_⟩
    exact (assign_role_of_ne (by rintro rfl; rw [hr] at ht'; cases ht')).trans ht'

/-- A step may hand the resource over to a call, but not take it from one. -/
theorem next {c' : Custody P T} {d : Deed P} (h : Handed p o c) (hd : d.retiring = true)
    (hn : c.next (t, d) = some c') :
    ∃ o', (∀ t', o = some t' → o' = some t') ∧ Handed p o' c' := by
  cases does_of_next hn with
  | create | abandon => cases hd
  | store hr => exact absurd hr (h.storing _ _)
  | swap hr hp =>
    obtain ⟨ho, h'⟩ := h.swap (t := t) hp
    exact ⟨some t, by rw [ho]; exact nofun, h'⟩
  | destroy hr => exact ⟨o, fun _ => id, h.drop hr fun hp => hp.2 rfl⟩
  | release hr hp => exact ⟨o, fun _ => id, h.drop hr hp⟩
  | take hr => exact ⟨o, fun _ => id, h.take hr _⟩
  | clear hr => exact ⟨o, fun _ => id, h.clear hr⟩
  | lose hr => exact ⟨o, fun _ => id, h.shrink _⟩

end Handed

end Custody

end Autossh
