import Autossh.Args.Basic

/-!
# What the second pass recognises

`getopt` and the second pass do not always agree on what belongs to the option `M`: the second
pass looks at the first characters of every element, whether it is an element with options, the
value of one, or an operand.

* `kept` : the elements the second pass copies, one element at a time.  Its state is what the pass
  knows before an element (`Sight`): whether it has seen a `--`, and whether it takes the element
  for the value of a `-M`;
* `filterMap_elem?_rewriteLoop` : the loop copies these elements;
* `clean` : the second pass leaves out every group in which `getopt` has found `M`;
* `forall_kept_iff` : then, and only then, it copies nothing that belongs to `M`.
-/

namespace Autossh

namespace Args

open Getopt

/-! ### What the second pass copies -/

/-- What the second pass knows before an element. -/
structure Sight where
  /-- It has seen a `--`. -/
  stop : Bool
  /-- It takes the element for the value of a `-M`. -/
  skip : Bool
  deriving DecidableEq, Repr

namespace Sight

/-- At the first element. -/
def start : Sight := ⟨false, false⟩

/-- After the element `a`. -/
def next (σ : Sight) (a : CString) : Sight :=
  if σ.skip then ⟨σ.stop, false⟩
  else if σ.stop then ⟨true, false⟩
  else if dashDash a then ⟨true, false⟩
  else ⟨false, a = ['-', 'M']⟩

/-- The element `a` is copied. -/
def keeps (σ : Sight) (a : CString) : Bool :=
  !σ.skip && (σ.stop || !(dashDash a || dashM a)) && stripArg optionString 'f' a ≠ []

end Sight

/-- The elements that are copied. -/
def kept : Sight → List Elem → List Elem
  | _, [] => []
  | σ, e :: es => (if σ.keeps e.text then [e] else []) ++ kept (σ.next e.text) es

theorem kept_append (σ : Sight) (xs ys : List Elem) :
    kept σ (xs ++ ys) = kept σ xs ++ kept ((xs.map Elem.text).foldl Sight.next σ) ys := by
  induction xs generalizing σ with
  | nil => rfl
  | cons x xs ih => simp only [List.cons_append, kept, ih, List.map_cons, List.foldl_cons,
      List.append_assoc]

section

variable {a : CString} {stop : Bool}

theorem Sight.next_dashDash (h : dashDash a = true) : Sight.next ⟨false, false⟩ a = ⟨true, false⟩ :=
  if_pos h

theorem Sight.next_dashM (h : dashDash a = false) :
    Sight.next ⟨false, false⟩ a = ⟨false, a = ['-', 'M']⟩ := by
  simp [Sight.next, h]

theorem Sight.next_plain (h : stop = false → dashDash a = false ∧ dashM a = false) :
    Sight.next ⟨stop, false⟩ a = ⟨stop, false⟩ := by
  cases stop with
  | true => rfl
  | false =>
    obtain ⟨hd, hm⟩ := h rfl
    have hne : a ≠ ['-', 'M'] := by
      rintro rfl
      cases hm
    simp [Sight.next, hd, hne]

theorem Sight.keeps_plain (h : stop = false → dashDash a = false ∧ dashM a = false) :
    Sight.keeps ⟨stop, false⟩ a = decide (stripArg optionString 'f' a ≠ []) := by
  cases stop with
  | true => rfl
  | false =>
    obtain ⟨hd, hm⟩ := h rfl
    simp [Sight.keeps, hd, hm]

end

theorem eq_of_mem_addArg {i j : Item} (h : i ∈ addArg j) : i = j := by
  unfold addArg at h
  split_ifs at h
  · cases h
  · exact List.mem_singleton.1 h

theorem filterMap_addArg {β : Type*} (f : Item → Option β) (i : Item) :
    (addArg i).filterMap f = if i.text = [] then [] else (f i).toList := by
  unfold addArg
  split_ifs
  · rfl
  · cases hf : f i <;> simp [hf]

theorem filterMap_addArg_of_none {β : Type*} {f : Item → Option β} {i : Item} (h : f i = none) :
    (addArg i).filterMap f = [] := by
  rw [filterMap_addArg, h]
  exact ite_self _

theorem filterMap_elem?_forwards (m : Monitor) : (forwards m).filterMap Item.elem? = [] := by
  unfold forwards
  split_ifs <;> simp [filterMap_addArg, Item.elem?]

theorem filterMap_elem?_copy (e : Elem) :
    (copy e).filterMap Item.elem? =
      if stripArg optionString 'f' e.text ≠ [] then [e] else [] := by
  rw [copy, filterMap_addArg]
  by_cases h : stripArg optionString 'f' e.text = [] <;> simp [Item.text, Item.elem?, h]

/-- Once the forwards of `AUTOSSH_PORT` are out of the way, the second pass copies what `kept`
says. -/
theorem filterMap_elem?_rewriteLoop {port : Bool} {m : Monitor} (stop done : Bool) (es : List Elem)
    (h : m.wp ≠ 0 → port = true → done = true) :
    (rewriteLoop port m stop done es).filterMap Item.elem? = kept ⟨stop, false⟩ es := by
  fun_induction rewriteLoop port m stop done es with
  | case1 => rfl
  | case2 stop done e es hd ih =>
    obtain ⟨hd, rfl⟩ := hd
    rw [ih h, kept, Sight.next_dashDash hd]
    simp [Sight.keeps, hd]
  | case3 stop done e es hd henv ih =>
    have := h henv.1 henv.2.1
    simp [henv.2.2] at this
  | case4 stop done e es hd henv hm ih₂ ih₁ =>
    obtain ⟨rfl, hm⟩ := hm
    have hdd : dashDash e.text = false := by simpa using hd
    have hdone : m.wp ≠ 0 → port = true → (done || decide (m.wp ≠ 0)) = true := by
      intro hw hp
      simp [h hw hp]
    have hfwd : List.filterMap Item.elem? (if m.wp ≠ 0 ∧ done = false then forwards m else []) =
        [] := by
      split_ifs
      exacts [filterMap_elem?_forwards m, rfl]
    have hkeep : Sight.keeps ⟨false, false⟩ e.text = false := by simp [Sight.keeps, hm]
    rw [List.filterMap_append, hfwd, kept, hkeep, Sight.next_dashM hdd]
    simp only [List.nil_append, Bool.false_eq_true, if_false]
    by_cases hb : e.text = ['-', 'M']
    · -- the value of the `-M` is left out with it
      rw [if_pos hb]
      cases es with
      | nil => rfl
      | cons x es =>
        rw [ih₂ hdone]
        simp [kept, hb, Sight.keeps, Sight.next]
    · rw [if_neg hb, ih₁ hdone]
      simp [hb]
  | case5 stop done e es hd henv hm ih =>
    have hplain : stop = false → dashDash e.text = false ∧ dashM e.text = false := by
      rintro rfl
      exact ⟨by simpa using hd, by simpa using hm⟩
    rw [List.filterMap_append, filterMap_elem?_copy, ih h, kept, Sight.keeps_plain hplain,
      Sight.next_plain hplain]
    simp

/-! ### Which groups of the option `M` it recognises -/

theorem takesValue_dash : takesValue optionString '-' = false := by decide +kernel

theorem stripLoop_fst_eq_nil {opts cs : CString} {ch c : Char} :
    (stripLoop opts ch (c :: cs)).1 = [] ↔ takesValue opts c = false ∧ c = ch ∧ cs = [] := by
  cases cs <;> simp only [stripLoop] <;> split_ifs <;> simp_all

theorem stripArg_eq_nil {a : CString} :
    stripArg optionString 'f' a = [] ↔ a = [] ∨ a = ['-', 'f'] := by
  unfold stripArg
  split
  · rename_i c cs
    have hdash : stripLoop optionString 'f' ('-' :: c :: cs) =
        ('-' :: (stripLoop optionString 'f' (c :: cs)).1,
          (stripLoop optionString 'f' (c :: cs)).2) := by
      rw [stripLoop, if_neg (by simp [takesValue_dash]), if_neg (by decide)]
    rw [hdash]
    dsimp only
    constructor
    · intro h
      split_ifs at h with hnil
      obtain ⟨-, rfl, rfl⟩ := stripLoop_fst_eq_nil.1 (List.length_eq_zero_iff.1
        (Nat.succ.inj hnil.2))
      exact .inr rfl
    · rintro (h | h)
      · cases h
      · cases h
        decide
  · rename_i h
    refine ⟨.inl, ?_⟩
    rintro (rfl | rfl)
    · rfl
    · exact absurd rfl (h 'f' [])

/-- The value of an `M` that the second pass looks at on its own and still leaves out. -/
def dropped (a : CString) : Bool := a = [] ∨ a = ['-', 'f'] ∨ dashM a = true ∨ dashDash a = true

theorem keeps_start (a : CString) : Sight.keeps .start a = !dropped a := by
  have := stripArg_eq_nil (a := a)
  simp only [Sight.keeps, Sight.start, dropped]
  grind

/-- The second pass leaves out the group with the option `M`: it has not seen a `--`, and the
option is the first one in its element.  When it takes the element for a value, what counts is
the value after it. -/
def recognised (σ : Sight) (g : Group) : Bool :=
  !σ.stop && if σ.skip then g.separateValue.all dropped else g.flags.isEmpty

/-- It leaves out every group with the option `M`. -/
def clean : Sight → List Group → Bool
  | _, [] => true
  | σ, g :: gs =>
    (!isMonitor g || recognised σ g) && clean (g.elems.foldl Sight.next σ) gs

section

variable {g : Group}

/-- The first option of an element. -/
theorem exists_first (h : g.Valid optionString) :
    ∃ c cs, g.elem = '-' :: c :: cs ∧ isOption optionString c = true ∧
      (takesValue optionString c = false ∧ g.flags ≠ [] ∨
        g.flags = [] ∧ ∃ o, g.opt = some o ∧ c = o.name ∧
          cs = if o.separate then [] else o.value) := by
  obtain ⟨flags, opt⟩ := g
  cases flags with
  | cons c fs =>
    obtain ⟨hopt, hval⟩ := h.flags c List.mem_cons_self
    exact ⟨c, _, rfl, hopt, .inl ⟨hval, nofun⟩⟩
  | nil =>
    cases opt with
    | none => exact absurd rfl (h.nonempty rfl)
    | some o => exact ⟨o.name, _, rfl, (h.opt o rfl).1, .inr ⟨rfl, o, rfl, rfl, rfl⟩⟩

theorem dashDash_elem (h : g.Valid optionString) : dashDash g.elem = false := by
  obtain ⟨c, cs, he, hopt, -⟩ := exists_first h
  have hc : c ≠ '-' := by
    rintro rfl
    revert hopt
    decide
  rw [he]
  simp [dashDash, hc]

theorem dashM_elem (h : g.Valid optionString) :
    dashM g.elem = (isMonitor g && g.flags.isEmpty) := by
  obtain ⟨c, cs, he, hopt, ⟨hval, hfs⟩ | ⟨hfs, o, ho, rfl, -⟩⟩ := exists_first h
  · have hc : c ≠ 'M' := by
      rintro rfl
      revert hval
      decide
    rw [he]
    simp [dashM, hc, hfs]
  · rw [he, hfs]
    by_cases hM : o.name = 'M' <;> simp [dashM, isMonitor, monitorValue, ho, hM]

theorem exists_opt (hm : isMonitor g = true) : ∃ o, g.opt = some o ∧ o.name = 'M' := by
  cases ho : g.opt with
  | none => simp [isMonitor, monitorValue, ho] at hm
  | some o => exact ⟨o, rfl, by simpa [isMonitor, monitorValue, ho] using hm⟩

theorem stripArg_elem_ne_nil (hm : isMonitor g = true) :
    stripArg optionString 'f' g.elem ≠ [] := by
  intro hnil
  rcases stripArg_eq_nil.1 hnil with he | he
  · cases he
  · -- an element `-f` has no option with a value
    obtain ⟨o, ho, hname⟩ := exists_opt hm
    have hmem : 'M' ∈ g.elem := by simp [Group.elem, ho, hname]
    rw [he] at hmem
    revert hmem
    decide

theorem elem_eq_dashM (hm : isMonitor g = true) (hfs : g.flags = []) {a : CString}
    (hv : g.separateValue = some a) : g.elem = ['-', 'M'] := by
  obtain ⟨o, ho, hname⟩ := exists_opt hm
  have hsep : o.separate = true := by
    by_contra hsep
    simp [Group.separateValue, ho, hsep] at hv
  simp [Group.elem, hfs, ho, hname, hsep]

theorem groupElems_eq (g : Group) : groupElems g =
    ⟨g.elem, isMonitor g⟩ :: g.separateValue.toList.map fun a => ⟨a, isMonitor g⟩ := by
  simp [groupElems, Group.elems]

theorem map_text_groupElems (g : Group) : (groupElems g).map Elem.text = g.elems := by
  simp [groupElems, Function.comp_def]

/-- The second pass copies nothing of a group with the option `M` exactly when it recognises it. -/
theorem kept_groupElems_eq_nil {σ : Sight} (hσ : σ.stop = true → σ.skip = false)
    (h : g.Valid optionString) (hm : isMonitor g = true) :
    kept σ (groupElems g) = [] ↔ recognised σ g = true := by
  obtain ⟨stop, skip⟩ := σ
  rw [groupElems_eq]
  have hstrip := stripArg_elem_ne_nil hm
  cases skip with
  | true =>
    obtain rfl : stop = false := by
      cases stop with
      | false => rfl
      | true => cases hσ rfl
    -- the element is taken for a value, and the value after it is looked at on its own
    have hkeep : Sight.keeps ⟨false, true⟩ g.elem = false := rfl
    have hnext : Sight.next ⟨false, true⟩ g.elem = .start := rfl
    rw [kept, hkeep, hnext]
    cases hv : g.separateValue with
    | none => simp [kept, recognised, hv]
    | some a => simp [kept, recognised, hv, keeps_start]
  | false =>
    cases stop with
    | true => simp [kept, Sight.keeps, recognised, hstrip]
    | false =>
      have hdd := dashDash_elem h
      have hM := dashM_elem h
      rw [hm, Bool.true_and] at hM
      cases hfs : g.flags with
      | cons c fs =>
        rw [hfs] at hM
        simp [kept, Sight.keeps, recognised, hdd, hM, hfs, hstrip]
      | nil =>
        rw [hfs] at hM
        have hkeep : Sight.keeps ⟨false, false⟩ g.elem = false := by simp [Sight.keeps, hM]
        rw [kept, hkeep, Sight.next_dashM hdd]
        -- an element with a separate value is `-M`, and takes the value with it
        cases hv : g.separateValue with
        | none => simp [kept, recognised, hfs]
        | some a =>
          have he : g.elem = ['-', 'M'] := elem_eq_dashM hm hfs hv
          simp [kept, Sight.keeps, recognised, hfs, he]

end

theorem foldl_next_consistent {σ : Sight} (hσ : σ.stop = true → σ.skip = false)
    (as : List CString) :
    (as.foldl Sight.next σ).stop = true → (as.foldl Sight.next σ).skip = false := by
  induction as generalizing σ with
  | nil => exact hσ
  | cons a as ih =>
    refine ih ?_
    unfold Sight.next
    split_ifs <;> simp

theorem mem_of_mem_kept {σ : Sight} {es : List Elem} {e : Elem} (h : e ∈ kept σ es) : e ∈ es := by
  induction es generalizing σ with
  | nil => exact h
  | cons x es ih =>
    rcases List.mem_append.1 h with h | h
    · split_ifs at h
      · exact List.mem_singleton.1 h ▸ List.mem_cons_self
      · cases h
    · exact List.mem_cons_of_mem x (ih h)

/-- The second pass copies nothing that belongs to the option `M` exactly when the groups are
clean. -/
theorem forall_kept_iff {σ : Sight} (hσ : σ.stop = true → σ.skip = false) {gs : List Group}
    (hgs : ∀ g ∈ gs, g.Valid optionString) {rest : List Elem}
    (hrest : ∀ e ∈ rest, e.monitor = false) :
    (∀ e ∈ kept σ (gs.flatMap groupElems ++ rest), e.monitor = false) ↔ clean σ gs = true := by
  induction gs generalizing σ with
  | nil => exact iff_of_true (fun e he => hrest e (mem_of_mem_kept he)) rfl
  | cons g gs ih =>
    -- the group is judged by what the pass knows before it, the rest by what it knows after it
    obtain ⟨hg, hgs⟩ := List.forall_mem_cons.1 hgs
    have ih := ih (foldl_next_consistent hσ g.elems) hgs
    simp only [List.flatMap_cons, List.append_assoc]
    rw [kept_append, map_text_groupElems, List.forall_mem_append, ih, clean, Bool.and_eq_true]
    refine and_congr_left fun _ => ?_
    have hmark : ∀ e ∈ kept σ (groupElems g), e.monitor = isMonitor g := by
      intro e he
      obtain ⟨a, -, rfl⟩ := List.mem_map.1 (mem_of_mem_kept he)
      rfl
    cases hm : isMonitor g with
    | false => exact iff_of_true (fun e he => (hmark e he).trans hm) rfl
    | true =>
      rw [Bool.not_true, Bool.false_or, ← kept_groupElems_eq_nil hσ hg hm]
      constructor
      · intro hall
        refine List.eq_nil_iff_forall_not_mem.2 fun e he => ?_
        exact nomatch ((hmark e he).trans hm).symm.trans (hall e he)
      · intro hnil e he
        rw [hnil] at he
        cases he

end Args

end Autossh
