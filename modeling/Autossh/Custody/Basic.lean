import Autossh.Machine.Basic
import Mathlib.Order.BooleanAlgebra.Set

/-!
# Custody of a resource named in a shared cell

A shared cell holds the name of a resource, or nothing.  Calls run concurrently, each on behalf
of one role at a time:

* a call that has created a resource is `storing` its name until it has written it to the cell;
* a call that has swapped a name out of the cell is `holding` it, and means to destroy the
  resource;
* a call that has destroyed a resource it only looked up is `clearing` its name from the cell, by
  a compare-and-exchange.

A destroyed resource's name can be used again.  What a holder must be able to rely on is that the
name it took still names the resource (`Sound.held`).  It cannot in general: `custody.guard
Careful` says which orders of the steps have to be excluded, and `sound_of_run` that nothing else
has to.
-/

namespace Autossh

/-- What a call is responsible for. -/
inductive Role (P : Type*)
  | none
  | storing (p : P)
  | holding (p : P)
  | clearing (p : P)
  deriving DecidableEq, Repr

/-- The cell, the resources that exist, and the role of every call. -/
structure Custody (P T : Type*) where
  cell : Option P
  own : Set P
  role : T → Role P

/-- What a call does. -/
inductive Deed (P : Type*)
  /-- create a resource with this name -/
  | create (p : P)
  /-- write its name to the cell -/
  | store
  /-- swap the name out of the cell -/
  | swap
  /-- destroy the resource held -/
  | destroy
  /-- find that it is gone -/
  | release
  /-- give up on it -/
  | abandon
  /-- destroy a resource that was only looked up -/
  | take (p : P)
  /-- clear its name from the cell -/
  | clear
  /-- destroy a resource and tell no one -/
  | lose (p : P)

namespace Custody

variable {P T : Type*} [DecidableEq T]

/-- The call `t` passes to the role `r`. -/
def assign (c : Custody P T) (t : T) (r : Role P) : Custody P T :=
  { c with role := Function.update c.role t r }

open Classical in
/-- The custody machine: the call `t` does `d`. -/
noncomputable def next (c : Custody P T) : T × Deed P → Option (Custody P T)
  | (t, .create p) =>
    if c.role t = .none ∧ p ∉ c.own then
      some ({ c with own := insert p c.own }.assign t (.storing p))
    else none
  | (t, .store) => match c.role t with
    | .storing p => some ({ c with cell := some p }.assign t .none)
    | _ => none
  | (t, .swap) =>
    if c.role t = .none then
      c.cell.map fun p => { c with cell := none }.assign t (.holding p)
    else none
  | (t, .destroy) => match c.role t with
    | .holding p => some ({ c with own := c.own \ {p} }.assign t .none)
    | _ => none
  | (t, .release) => match c.role t with
    | .holding p => if p ∉ c.own then some (c.assign t .none) else none
    | _ => none
  | (t, .abandon) => match c.role t with
    | .holding _ => some (c.assign t .none)
    | _ => none
  | (t, .take p) =>
    if c.role t = .none then
      some ({ c with own := c.own \ {p} }.assign t (.clearing p))
    else none
  | (t, .clear) => match c.role t with
    | .clearing p =>
      some ({ c with cell := if c.cell = some p then none else c.cell }.assign t .none)
    | _ => none
  | (t, .lose p) =>
    if c.role t = .none then some { c with own := c.own \ {p} } else none

/-- The custody machine. -/
noncomputable def machine : Machine (Custody P T) (T × Deed P) := ⟨next⟩

/-- No call holds the name, or is about to store it. -/
def Free (c : Custody P T) (p : P) : Prop := ∀ t, c.role t ≠ .holding p ∧ c.role t ≠ .storing p

/-- The orders of steps on which a holder can rely: a resource that was looked up is destroyed only
while no call holds its name or is about to store it, and in secret only if moreover the cell does
not name it, or some call is about to clear the name; and a name is not swapped out that another
call is about to clear. -/
def Careful (c : Custody P T) : T × Deed P → Prop
  | (_, .lose p) => p ∈ c.own → c.Free p ∧ (c.cell = some p → ∃ t, c.role t = .clearing p)
  | (_, .take p) => p ∈ c.own → c.Free p
  | (_, .swap) => ∀ p, c.cell = some p → ∀ t, c.role t ≠ .clearing p
  | _ => True

/-- The invariant of careful runs. -/
structure Sound (c : Custody P T) : Prop where
  /-- The name a call holds still names the resource. -/
  held : ∀ t p, c.role t = .holding p → p ∈ c.own
  unique : ∀ t t' p, c.role t = .holding p → c.role t' = .holding p → t = t'
  apart : ∀ t p, c.role t = .holding p → c.cell ≠ some p
  stored : ∀ t p, c.role t = .storing p → p ∈ c.own
  storing_unique : ∀ t t' p, c.role t = .storing p → c.role t' = .storing p → t = t'
  storing_not_held : ∀ t t' p, c.role t = .storing p → c.role t' ≠ .holding p
  storing_not_named : ∀ t p, c.role t = .storing p → c.cell = some p →
    ∃ t', c.role t' = .clearing p
  /-- The cell names a resource, or one that is about to be cleared. -/
  named : ∀ p, c.cell = some p → p ∈ c.own ∨ ∃ t, c.role t = .clearing p

section assign

variable {c : Custody P T} {t t' : T} {r r' : Role P}

@[simp] theorem assign_cell : (c.assign t r).cell = c.cell := rfl

theorem assign_role : (c.assign t r).role t' = if t' = t then r else c.role t' :=
  Function.update_apply ..

@[simp] theorem assign_role_self : (c.assign t r).role t = r := Function.update_self ..

theorem assign_role_of_ne (h : t' ≠ t) : (c.assign t r).role t' = c.role t' :=
  Function.update_of_ne h ..

theorem assign_eq_self (h : c.role t = r) : c.assign t r = c := by
  unfold assign
  rw [← h, Function.update_eq_self]

/-- A role other than the new one belongs to another call. -/
theorem of_assign_role (h : (c.assign t r).role t' = r') (hr : r ≠ r') :
    t' ≠ t ∧ c.role t' = r' := by
  rw [assign_role] at h
  split_ifs at h with ht
  · exact absurd h hr
  · exact ⟨ht, h⟩

end assign

section next

variable {c : Custody P T} {t : T} {p : P}

theorem next_create (hr : c.role t = .none) (hp : p ∉ c.own) :
    c.next (t, .create p) = some ({ c with own := insert p c.own }.assign t (.storing p)) :=
  if_pos ⟨hr, hp⟩

theorem next_store (hr : c.role t = .storing p) :
    c.next (t, .store) = some ({ c with cell := some p }.assign t .none) := by
  simp only [next, hr]

theorem next_swap (hr : c.role t = .none) (hc : c.cell = some p) :
    c.next (t, .swap) = some ({ c with cell := none }.assign t (.holding p)) := by
  simp only [next, hr, hc, if_true, Option.map_some]

theorem next_destroy (hr : c.role t = .holding p) :
    c.next (t, .destroy) = some ({ c with own := c.own \ {p} }.assign t .none) := by
  simp only [next, hr]

theorem next_release (hr : c.role t = .holding p) (hp : p ∉ c.own) :
    c.next (t, .release) = some (c.assign t .none) := by
  simp only [next, hr, if_pos hp]

theorem next_abandon (hr : c.role t = .holding p) :
    c.next (t, .abandon) = some (c.assign t .none) := by
  simp only [next, hr]

theorem next_take (hr : c.role t = .none) :
    c.next (t, .take p) = some ({ c with own := c.own \ {p} }.assign t (.clearing p)) :=
  if_pos hr

open Classical in
theorem next_clear (hr : c.role t = .clearing p) : c.next (t, .clear) =
    some ({ c with cell := if c.cell = some p then none else c.cell }.assign t .none) := by
  simp only [next, hr]

theorem next_lose (hr : c.role t = .none) :
    c.next (t, .lose p) = some { c with own := c.own \ {p} } :=
  if_pos hr

variable {c' : Custody P T}

open Classical in
/-- What a call can do, and what becomes of it. -/
inductive Does (c : Custody P T) (t : T) : Deed P → Custody P T → Prop
  | create {p : P} : c.role t = .none → p ∉ c.own →
      Does c t (.create p) ({ c with own := insert p c.own }.assign t (.storing p))
  | store {p : P} : c.role t = .storing p →
      Does c t .store ({ c with cell := some p }.assign t .none)
  | swap {p : P} : c.role t = .none → c.cell = some p →
      Does c t .swap ({ c with cell := none }.assign t (.holding p))
  | destroy {p : P} : c.role t = .holding p →
      Does c t .destroy ({ c with own := c.own \ {p} }.assign t .none)
  | release {p : P} : c.role t = .holding p → p ∉ c.own → Does c t .release (c.assign t .none)
  | abandon {p : P} : c.role t = .holding p → Does c t .abandon (c.assign t .none)
  | take {p : P} : c.role t = .none →
      Does c t (.take p) ({ c with own := c.own \ {p} }.assign t (.clearing p))
  | clear {p : P} : c.role t = .clearing p →
      Does c t .clear
        ({ c with cell := if c.cell = some p then none else c.cell }.assign t .none)
  | lose {p : P} : c.role t = .none → Does c t (.lose p) { c with own := c.own \ {p} }

theorem does_of_next {d : Deed P} (h : c.next (t, d) = some c') : Does c t d c' := by
  cases d with
  | create p =>
    simp only [next] at h
    split_ifs at h with hr
    cases h
    exact .create hr.1 hr.2
  | store =>
    simp only [next] at h
    split at h <;> cases h
    exact .store ‹_›
  | swap =>
    simp only [next] at h
    split_ifs at h with hr
    obtain ⟨p, hp, rfl⟩ := Option.map_eq_some_iff.1 h
    exact .swap hr hp
  | destroy =>
    simp only [next] at h
    split at h <;> cases h
    exact .destroy ‹_›
  | release =>
    simp only [next] at h
    split at h
    · split_ifs at h with hp
      cases h
      exact .release ‹_› hp
    · cases h
  | abandon =>
    simp only [next] at h
    split at h <;> cases h
    exact .abandon ‹_›
  | take p =>
    simp only [next] at h
    split_ifs at h with hr
    cases h
    exact .take hr
  | clear =>
    simp only [next] at h
    split at h <;> cases h
    exact .clear ‹_›
  | lose p =>
    simp only [next] at h
    split_ifs at h with hr
    cases h
    exact .lose hr

/-- A cell is emptied by a swap, or by clearing the name in it. -/
theorem Does.cell_ne_none {d : Deed P} (h : Does c t d c') (hcell : c.cell ≠ Option.none)
    (hswap : d ≠ .swap) (hclear : d = .clear → ∀ p, c.role t = .clearing p → c.cell ≠ some p) :
    c'.cell ≠ Option.none := by
  cases h with
  | store hr => exact Option.some_ne_none _
  | swap hr hc => exact absurd rfl hswap
  | clear hr =>
    rw [assign_cell]
    simp only [if_neg (hclear rfl _ hr)]
    exact hcell
  | create hr hp | destroy hr | release hr hp | abandon hr | take hr | lose hr => exact hcell

end next

/-! ### Careful runs are sound -/

namespace Sound

variable {c : Custody P T} {t : T} {p : P}

theorem create (h : c.Sound) (hr : c.role t = .none) (hp : p ∉ c.own) :
    ({ c with own := insert p c.own }.assign t (.storing p)).Sound where
  -- the new resource differs from every one that a party or the cell can name
  held t' q hq := by
    obtain ⟨-, hq⟩ := of_assign_role hq nofun
    exact .inr (h.held t' q hq)
  unique t₁ t₂ q h₁ h₂ :=
    h.unique t₁ t₂ q (of_assign_role h₁ nofun).2 (of_assign_role h₂ nofun).2
  apart t' q hq := h.apart t' q (of_assign_role hq nofun).2
  stored t' q hq := by
    rw [assign_role] at hq
    split_ifs at hq
    · cases hq
      exact .inl rfl
    · exact .inr (h.stored t' q hq)
  storing_unique t₁ t₂ q h₁ h₂ := by
    rw [assign_role] at h₁ h₂
    split_ifs at h₁ h₂ with e₁ e₂ e₂
    · rw [e₁, e₂]
    · cases h₁
      exact absurd (h.stored t₂ _ h₂) hp
    · cases h₂
      exact absurd (h.stored t₁ _ h₁) hp
    · exact h.storing_unique t₁ t₂ q h₁ h₂
  storing_not_held t₁ t₂ q h₁ h₂ := by
    obtain ⟨-, h₂⟩ := of_assign_role h₂ nofun
    rw [assign_role] at h₁
    split_ifs at h₁
    · cases h₁
      exact hp (h.held t₂ _ h₂)
    · exact h.storing_not_held t₁ t₂ q h₁ h₂
  storing_not_named t' q hq hc := by
    -- a stale name in the cell is about to be cleared, by another party
    have hex : ∃ t', c.role t' = .clearing q := by
      rw [assign_role] at hq
      split_ifs at hq
      · cases hq
        exact (h.named _ hc).resolve_left hp
      · exact h.storing_not_named t' q hq hc
    obtain ⟨t', ht'⟩ := hex
    exact ⟨t', by rw [assign_role_of_ne (by rintro rfl; simp [hr] at ht'), ← ht']⟩
  named q hc := by
    rcases h.named q hc with hq | ⟨t', ht'⟩
    · exact .inl (.inr hq)
    · exact .inr ⟨t', by rw [assign_role_of_ne (by rintro rfl; simp [hr] at ht'), ← ht']⟩

theorem store (h : c.Sound) (hr : c.role t = .storing p) :
    ({ c with cell := some p }.assign t .none).Sound where
  held t' q hq := h.held t' q (of_assign_role hq nofun).2
  unique t₁ t₂ q h₁ h₂ :=
    h.unique t₁ t₂ q (of_assign_role h₁ nofun).2 (of_assign_role h₂ nofun).2
  apart t' q hq hc := by
    obtain rfl : p = q := Option.some.inj hc
    exact h.storing_not_held t t' p hr (of_assign_role hq nofun).2
  stored t' q hq := h.stored t' q (of_assign_role hq nofun).2
  storing_unique t₁ t₂ q h₁ h₂ :=
    h.storing_unique t₁ t₂ q (of_assign_role h₁ nofun).2 (of_assign_role h₂ nofun).2
  storing_not_held t₁ t₂ q h₁ h₂ :=
    h.storing_not_held t₁ t₂ q (of_assign_role h₁ nofun).2 (of_assign_role h₂ nofun).2
  storing_not_named t' q hq hc := by
    obtain rfl : p = q := Option.some.inj hc
    obtain ⟨hne, hq⟩ := of_assign_role hq nofun
    exact absurd (h.storing_unique t' t p hq hr) hne
  named q hc := by
    obtain rfl : p = q := Option.some.inj hc
    exact .inl (h.stored t p hr)

theorem swap (h : c.Sound) (hc : c.cell = some p)
    (hcl : ∀ t, c.role t ≠ .clearing p) :
    ({ c with cell := none }.assign t (.holding p)).Sound where
  held t' q hq := by
    rw [assign_role] at hq
    split_ifs at hq
    · cases hq
      exact (h.named p hc).resolve_right fun ⟨t', ht'⟩ => hcl t' ht'
    · exact h.held t' q hq
  unique t₁ t₂ q h₁ h₂ := by
    rw [assign_role] at h₁ h₂
    split_ifs at h₁ h₂ with e₁ e₂ e₂
    · rw [e₁, e₂]
    · cases h₁
      exact absurd hc (h.apart t₂ _ h₂)
    · cases h₂
      exact absurd hc (h.apart t₁ _ h₁)
    · exact h.unique t₁ t₂ q h₁ h₂
  apart t' q _ := nofun
  stored t' q hq := h.stored t' q (of_assign_role hq nofun).2
  storing_unique t₁ t₂ q h₁ h₂ :=
    h.storing_unique t₁ t₂ q (of_assign_role h₁ nofun).2 (of_assign_role h₂ nofun).2
  storing_not_held t₁ t₂ q h₁ h₂ := by
    obtain ⟨-, h₁⟩ := of_assign_role h₁ nofun
    rw [assign_role] at h₂
    split_ifs at h₂
    · cases h₂
      obtain ⟨t', ht'⟩ := h.storing_not_named t₁ p h₁ hc
      exact hcl t' ht'
    · exact h.storing_not_held t₁ t₂ q h₁ h₂
  storing_not_named t' q _ hc := nomatch hc
  named q hc := nomatch hc

omit [DecidableEq T] in
/-- Calls that leave their roles harm no one, as long as a name in the cell keeps the call that
is about to clear it. -/
theorem mono (h : c.Sound) {c' : Custody P T} (hown : c'.own = c.own)
    (hcell : ∀ p, c'.cell = some p → c.cell = some p)
    (hheld : ∀ t p, c'.role t = .holding p → c.role t = .holding p)
    (hstoring : ∀ t p, c'.role t = .storing p → c.role t = .storing p)
    (hclear : ∀ p t, c'.cell = some p → c.role t = .clearing p → ∃ t', c'.role t' = .clearing p) :
    c'.Sound where
  held t p hp := hown ▸ h.held t p (hheld t p hp)
  unique t₁ t₂ p h₁ h₂ := h.unique t₁ t₂ p (hheld t₁ p h₁) (hheld t₂ p h₂)
  apart t p hp hc := h.apart t p (hheld t p hp) (hcell p hc)
  stored t p hp := hown ▸ h.stored t p (hstoring t p hp)
  storing_unique t₁ t₂ p h₁ h₂ := h.storing_unique t₁ t₂ p (hstoring t₁ p h₁) (hstoring t₂ p h₂)
  storing_not_held t₁ t₂ p h₁ h₂ :=
    h.storing_not_held t₁ t₂ p (hstoring t₁ p h₁) (hheld t₂ p h₂)
  storing_not_named t p hp hc := by
    obtain ⟨t', ht'⟩ := h.storing_not_named t p (hstoring t p hp) (hcell p hc)
    exact hclear p t' hc ht'
  named p hc := by
    rcases h.named p (hcell p hc) with hp | ⟨t, ht⟩
    · exact .inl (hown ▸ hp)
    · exact .inr (hclear p t hc ht)

theorem drop (h : c.Sound) (hr : c.role t = .holding p) : (c.assign t .none).Sound := by
  refine h.mono rfl (fun _ => id) (fun t' q hq => (of_assign_role hq nofun).2)
    (fun t' q hq => (of_assign_role hq nofun).2) fun q t' _ ht' => ⟨t', ?_⟩
  rw [assign_role_of_ne (by rintro rfl; simp [hr] at ht'), ht']

omit [DecidableEq T] in
/-- A resource that no call holds or is about to store, and whose name is not in the cell or about
to be cleared, can be destroyed. -/
theorem shrink (h : c.Sound) (hheld : ∀ t, c.role t ≠ .holding p)
    (hstoring : ∀ t, c.role t ≠ .storing p)
    (hcell : c.cell = some p → ∃ t, c.role t = .clearing p) :
    Sound { c with own := c.own \ {p} } where
  held t q hq := ⟨h.held t q hq, by rintro rfl; exact hheld t hq⟩
  unique := h.unique
  apart := h.apart
  stored t q hq := ⟨h.stored t q hq, by rintro rfl; exact hstoring t hq⟩
  storing_unique := h.storing_unique
  storing_not_held := h.storing_not_held
  storing_not_named := h.storing_not_named
  named q hc := by
    by_cases hqp : q = p
    · subst hqp
      exact .inr (hcell hc)
    · exact (h.named q hc).imp_left fun hq => ⟨hq, hqp⟩

theorem destroy (h : c.Sound) (hr : c.role t = .holding p) :
    ({ c with own := c.own \ {p} }.assign t .none).Sound := by
  refine (h.drop hr).shrink (fun t' ht' => ?_) (fun t' ht' => ?_) fun hc => ?_
  · obtain ⟨hne, ht'⟩ := of_assign_role ht' nofun
    exact hne (h.unique t' t p ht' hr)
  · exact h.storing_not_held t' t p (of_assign_role ht' nofun).2 hr
  · exact absurd hc (h.apart t p hr)

theorem recast (h : c.Sound) (hr : c.role t = .none) (p : P) :
    (c.assign t (.clearing p)).Sound := by
  refine h.mono rfl (fun _ => id) (fun t' q hq => (of_assign_role hq nofun).2)
    (fun t' q hq => (of_assign_role hq nofun).2) fun q t' _ ht' => ⟨t', ?_⟩
  rw [assign_role_of_ne (by rintro rfl; simp [hr] at ht'), ht']

theorem take (h : c.Sound) (hr : c.role t = .none) (hp : p ∈ c.own → c.Free p) :
    ({ c with own := c.own \ {p} }.assign t (.clearing p)).Sound := by
  by_cases hown : p ∈ c.own
  · refine (h.recast hr p).shrink (fun t' ht' => ?_) (fun t' ht' => ?_) fun _ => ?_
    · exact (hp hown t').1 (of_assign_role ht' nofun).2
    · exact (hp hown t').2 (of_assign_role ht' nofun).2
    · exact ⟨t, assign_role_self⟩
  · rw [Set.sdiff_singleton_eq_self hown]
    exact h.recast hr p

omit [DecidableEq T] in
theorem lose (h : c.Sound)
    (hp : p ∈ c.own → c.Free p ∧ (c.cell = some p → ∃ t, c.role t = .clearing p)) :
    Sound { c with own := c.own \ {p} } := by
  by_cases hown : p ∈ c.own
  · obtain ⟨hfree, hcell⟩ := hp hown
    exact h.shrink (fun t => (hfree t).1) (fun t => (hfree t).2) hcell
  · rw [Set.sdiff_singleton_eq_self hown]
    exact h

open Classical in
theorem clear (h : c.Sound) (hr : c.role t = .clearing p) :
    ({ c with cell := if c.cell = some p then none else c.cell }.assign t .none).Sound := by
  have hcell : ∀ q, (if c.cell = some p then none else c.cell) = some q →
      c.cell = some q ∧ q ≠ p := by
    intro q hq
    split_ifs at hq with hc
    exact ⟨hq, by rintro rfl; exact hc hq⟩
  refine h.mono rfl (fun q hq => (hcell q hq).1) (fun t' q hq => (of_assign_role hq nofun).2)
    (fun t' q hq => (of_assign_role hq nofun).2) fun q t' hq ht' => ⟨t', ?_⟩
  -- a name that is still in the cell is cleared by another call
  rw [assign_role_of_ne, ht']
  rintro rfl
  rw [hr] at ht'
  cases ht'
  exact (hcell p hq).2 rfl

end Sound

variable {c c' : Custody P T} {x : T × Deed P}

theorem next_sound (h : c.Sound) (hc : c.Careful x) (hn : c.next x = some c') : c'.Sound := by
  obtain ⟨t, d⟩ := x
  cases does_of_next hn with
  | create hr hp => exact h.create hr hp
  | store hr => exact h.store hr
  | swap hr hp => exact h.swap hp (hc _ hp)
  | destroy hr => exact h.destroy hr
  | release hr hp => exact h.drop hr
  | abandon hr => exact h.drop hr
  | take hr => exact h.take hr hc
  | clear hr => exact h.clear hr
  | lose hr => exact h.lose hc

open Classical in
/-- Careful runs are sound. -/
theorem sound_of_run {c₀ c : Custody P T} {xs : List (T × Deed P)} (h₀ : c₀.Sound)
    (h : (machine.guard Careful).Run c₀ xs c) : c.Sound :=
  h.invariant h₀ fun _ _ _ hs hn => next_sound hs (Machine.guard_next.1 hn).1
    (Machine.guard_next.1 hn).2

end Custody

end Autossh
