import Autossh.Args.Forwards
import Autossh.Args.Strip
import Mathlib.Data.List.ReduceOption

/-!
# What ssh is given of the user's arguments

Apart from the monitor forwards, ssh should be given everything on autossh's command line except
the option `M` with its value, the first `--` and the flags `f`.  `wants` says so element by
element, from what `getopt` has found: the second pass should pass on nothing for some elements,
the others as they are, and an element with options without its flags `f`.

* `outcomes` : what the second pass does pass on, element by element;
* `outcomes_eq_iff` : the two agree exactly when the groups and the operands are `Plain` in the
  places where the pass takes a text for something else;
* `passed_on_iff` : the same for `newav`, at every point of the pass.
-/

namespace Autossh

namespace Args

open Getopt

/-! ### What is wanted -/

/-- The element of the group without the flags `f`, if anything is left of it. -/
def unflagged (g : Group) : Option CString :=
  if g.flags.all (· = 'f') ∧ g.opt = none then none
  else some (Group.elem { g with flags := g.flags.filter (· ≠ 'f') })

/-- What ssh is to be given for the elements of a group. -/
def groupWants (g : Group) : List (Option CString) :=
  if isMonitor g then g.elems.map fun _ => none
  else unflagged g :: g.separateValue.toList.map some

/-- What ssh is to be given for the elements that `getopt` has not read. -/
def restWants : List CString → List (Option CString)
  | [] => []
  | a :: as => if a = ['-', '-'] then none :: as.map some else some a :: restWants as

/-- What ssh is to be given, element by element. -/
def wants (gs : List Group) (rest : List CString) : List (Option CString) :=
  gs.flatMap groupWants ++ restWants rest

/-- The arguments that are not inserted. -/
def texts (is : List Item) : List CString :=
  (is.filter fun i => i.forward?.isNone).map Item.text

/-- What `newav` holds, the forwards apart, when the second pass has gone through these
elements. -/
def passed (v : Env) (m : Monitor) (es : List Elem) : List CString :=
  texts (addArg (.sshPath v.sshPath) ++ rewriteLoop v.port.isSome m false false es)

/-! ### Where it goes wrong -/

/-- `strip_arg` and `add_arg` leave the text as it is. -/
def Solid (a : CString) : Prop := a ≠ [] ∧ stripArg optionString 'f' a = a

/-- The second pass takes the text for nothing else than it is. -/
def Plain (a : CString) : Prop := Solid a ∧ dashDash a = false ∧ dashM a = false

/-- The second pass treats the elements of the group as it should. -/
def GroupPlain (g : Group) : Prop :=
  if isMonitor g then g.flags = []
  else Spaced optionString 'f' g.elem ∧ ∀ a ∈ g.separateValue, Plain a

/-- The second pass treats what `getopt` has not read as it should. -/
def RestPlain : List CString → Prop
  | [] => True
  | a :: as => if a = ['-', '-'] then ∀ b ∈ as, Solid b else Plain a ∧ RestPlain as

instance (a : CString) : Decidable (Solid a) := by unfold Solid; infer_instance

instance (a : CString) : Decidable (Plain a) := by unfold Plain; infer_instance

instance (g : Group) : Decidable (GroupPlain g) := by unfold GroupPlain; infer_instance

instance decidableRestPlain : (as : List CString) → Decidable (RestPlain as)
  | [] => isTrue trivial
  | a :: as => by
    have := decidableRestPlain as
    unfold RestPlain
    infer_instance

/-! ### Element by element -/

/-- What the second pass passes on, element by element. -/
def outcomes : Sight → List CString → List (Option CString)
  | _, [] => []
  | σ, a :: as =>
    (if σ.keeps a then some (stripArg optionString 'f' a) else none) :: outcomes (σ.next a) as

theorem length_outcomes (σ : Sight) (as : List CString) : (outcomes σ as).length = as.length := by
  induction as generalizing σ with
  | nil => rfl
  | cons a as ih => rw [outcomes, List.length_cons, ih, List.length_cons]

theorem outcomes_append (σ : Sight) (as bs : List CString) :
    outcomes σ (as ++ bs) = outcomes σ as ++ outcomes (as.foldl Sight.next σ) bs := by
  induction as generalizing σ with
  | nil => rfl
  | cons a as ih => simp only [List.cons_append, outcomes, ih, List.foldl_cons]

theorem outcomes_take (σ : Sight) (as : List CString) (k : ℕ) :
    outcomes σ (as.take k) = (outcomes σ as).take k := by
  induction as generalizing σ k with
  | nil => simp [outcomes]
  | cons a as ih =>
    cases k with
    | zero => rfl
    | succ k => simp only [List.take_succ_cons, outcomes, ih]

/-- The texts of the elements that are kept. -/
theorem map_kept (σ : Sight) (es : List Elem) :
    (kept σ es).map (fun e => stripArg optionString 'f' e.text) =
      (outcomes σ (es.map Elem.text)).reduceOption := by
  induction es generalizing σ with
  | nil => rfl
  | cons e es ih =>
    rw [kept, List.map_append, ih, List.map_cons, outcomes]
    split_ifs
    · rw [List.reduceOption_cons_of_some]
      rfl
    · rw [List.reduceOption_cons_of_none]
      rfl

/-- Two lists agree when what they hold agrees at every point. -/
theorem eq_of_reduceOption_take {α : Type} {xs ys : List (Option α)}
    (hlen : xs.length = ys.length)
    (h : ∀ k, (xs.take k).reduceOption = (ys.take k).reduceOption) : xs = ys := by
  induction xs generalizing ys with
  | nil => exact (List.length_eq_zero_iff.1 hlen.symm).symm
  | cons x xs ih =>
    cases ys with
    | nil => cases hlen
    | cons y ys =>
      have hhead : x = y := by
        have := h 1
        simp only [List.take_succ_cons, List.take_zero, List.reduceOption_singleton] at this
        cases x <;> cases y <;> simp_all
      subst hhead
      refine congrArg (List.cons x) (ih (Nat.succ.inj hlen) fun k => ?_)
      have := h (k + 1)
      cases x with
      | none => simpa using this
      | some a => simpa using this

/-! ### The loop -/

section loop

variable {port : Bool} {m : Monitor} {stop done : Bool} {es : List Elem}

theorem texts_append (is js : List Item) : texts (is ++ js) = texts is ++ texts js := by
  simp [texts]

/-- An inserted forward, or a copy of an element. -/
def Item.IsPass (i : Item) : Prop :=
  (∃ s, i = .forward s) ∨ ∃ e, i = .elem e (stripArg optionString 'f' e.text)

theorem isPass_forwards (m : Monitor) : ∀ i ∈ forwards m, i.IsPass := by
  have hadd (s : CString) : ∀ i ∈ addArg (.forward s), i.IsPass := fun i hi =>
    .inl ⟨s, eq_of_mem_addArg hi⟩
  refine List.forall_mem_append.2 ⟨List.forall_mem_append.2 ⟨hadd _, hadd _⟩, ?_⟩
  split_ifs
  · exact List.forall_mem_nil _
  · exact List.forall_mem_append.2 ⟨hadd _, hadd _⟩

theorem isPass_copy (e : Elem) : ∀ i ∈ copy e, i.IsPass := by
  intro i hi
  exact .inr ⟨e, eq_of_mem_addArg hi⟩

theorem isPass_rewriteLoop : ∀ i ∈ rewriteLoop port m stop done es, i.IsPass := by
  fun_induction rewriteLoop port m stop done es with
  | case1 => exact List.forall_mem_nil _
  | case2 stop done e es hd ih => exact ih
  | case3 stop done e es hd henv ih =>
    refine List.forall_mem_append.2 ⟨List.forall_mem_append.2 ⟨?_, isPass_copy e⟩, ih⟩
    exact isPass_forwards m
  | case4 stop done e es hd henv hm ih₂ ih₁ =>
    refine List.forall_mem_append.2 ⟨?_, ?_⟩
    · split_ifs
      · exact isPass_forwards m
      · exact List.forall_mem_nil _
    · split_ifs
      · cases es with
        | nil => exact List.forall_mem_nil _
        | cons x es => exact ih₂
      · exact ih₁
  | case5 stop done e es hd henv hm ih => exact List.forall_mem_append.2 ⟨isPass_copy e, ih⟩

/-- What is not inserted are the copies. -/
theorem texts_of_isPass {is : List Item} (h : ∀ i ∈ is, i.IsPass) :
    texts is = (is.filterMap Item.elem?).map fun e => stripArg optionString 'f' e.text := by
  induction is with
  | nil => rfl
  | cons i is ih =>
    obtain ⟨hi, his⟩ := List.forall_mem_cons.1 h
    have ih := ih his
    rcases hi with ⟨s, rfl⟩ | ⟨e, rfl⟩
    · exact ih
    · exact congrArg (List.cons (stripArg optionString 'f' e.text)) ih

/-- After a `--` the forwards of `AUTOSSH_PORT` do not get in the way. -/
theorem filterMap_elem?_stopped (es : List Elem) :
    (rewriteLoop port m true false es).filterMap Item.elem? = kept ⟨true, false⟩ es := by
  by_cases hfirst : m.wp ≠ 0 ∧ port = true
  · obtain ⟨hw, rfl⟩ := hfirst
    cases es with
    | nil => rfl
    | cons e es =>
      unfold rewriteLoop
      rw [if_neg (by simp), if_pos ⟨hw, rfl, rfl⟩, List.filterMap_append, List.filterMap_append,
        filterMap_elem?_forwards, filterMap_elem?_copy,
        filterMap_elem?_rewriteLoop true true es fun _ _ => rfl, List.nil_append, kept]
      simp [Sight.keeps, Sight.next]
  · exact filterMap_elem?_rewriteLoop true false es fun hw hp => absurd ⟨hw, hp⟩ hfirst

/-- The second pass copies what `kept` says, unless the forwards of `AUTOSSH_PORT` make it overlook
that the first element is a `-M`. -/
theorem filterMap_elem?_pass
    (h : m.wp ≠ 0 → port = true → ∀ e ∈ es.head?, dashM e.text = false) :
    (rewriteLoop port m false false es).filterMap Item.elem? = kept .start es := by
  by_cases hfirst : m.wp ≠ 0 ∧ port = true
  · obtain ⟨hw, rfl⟩ := hfirst
    cases es with
    | nil => rfl
    | cons e es =>
      have hm := h hw rfl e rfl
      by_cases hd : dashDash e.text = true
      · unfold rewriteLoop
        rw [if_pos ⟨hd, rfl⟩, filterMap_elem?_stopped, kept, Sight.start, Sight.next_dashDash hd]
        simp [Sight.keeps, hd]
      · rw [Bool.not_eq_true] at hd
        rw [filterMap_elem?_first hw hd, kept, Sight.start, Sight.keeps_plain fun _ => ⟨hd, hm⟩,
          Sight.next_plain fun _ => ⟨hd, hm⟩]
        simp
  · exact filterMap_elem?_rewriteLoop false false es fun hw hp => absurd ⟨hw, hp⟩ hfirst

end loop

theorem texts_addArg_sshPath (s : CString) :
    texts (addArg (.sshPath s)) = if s = [] then [] else [s] := by
  unfold addArg Item.text
  split_ifs <;> rfl

/-- What `newav` holds while the second pass goes on. -/
theorem passed_eq {v : Env} {m : Monitor} {es : List Elem}
    (h : m.wp ≠ 0 → v.port.isSome = true → ∀ e ∈ es.head?, dashM e.text = false) (k : ℕ) :
    passed v m (es.take k) = (if v.sshPath = [] then [] else [v.sshPath]) ++
      ((outcomes .start (es.map Elem.text)).take k).reduceOption := by
  have htake : m.wp ≠ 0 → v.port.isSome = true →
      ∀ e ∈ (es.take k).head?, dashM e.text = false := by
    intro hw hv e he
    refine h hw hv e ?_
    rw [List.head?_take] at he
    split_ifs at he
    · cases he
    · exact he
  rw [passed, texts_append, texts_addArg_sshPath, texts_of_isPass isPass_rewriteLoop,
    filterMap_elem?_pass htake, map_kept, List.map_take, outcomes_take]

/-! ### Groups -/

section group

variable {g : Group}

theorem withoutFlag_append {opts fs : CString} {ch : Char}
    (h : ∀ c ∈ fs, takesValue opts c = false) (t : CString) :
    withoutFlag opts ch (fs ++ t) = fs.filter (· ≠ ch) ++ withoutFlag opts ch t := by
  induction fs with
  | nil => rfl
  | cons c fs ih =>
    obtain ⟨hc, hfs⟩ := List.forall_mem_cons.1 h
    rw [List.cons_append]
    by_cases hne : c = ch
    · subst hne
      rw [withoutFlag_self hc, ih hfs]
      simp
    · rw [withoutFlag_of_ne hc hne, ih hfs]
      simp [hne]

/-- Without the flags `f`, the element is that of the group without them. -/
theorem withoutFlag_elem (h : g.Valid optionString) :
    withoutFlag optionString 'f' g.elem =
      Group.elem { g with flags := g.flags.filter (· ≠ 'f') } := by
  rw [Group.elem, withoutFlag_of_ne takesValue_dash (by decide),
    withoutFlag_append fun c hc => (h.flags c hc).2]
  cases ho : g.opt with
  | none => simp [Group.elem]
  | some o => simp [Group.elem, withoutFlag_of_value (h.opt o ho).2]

theorem elem_eq_dash {g : Group} : g.elem = ['-'] ↔ g.flags = [] ∧ g.opt = none := by
  cases ho : g.opt <;> simp [Group.elem, ho]

theorem stripped_elem (h : g.Valid optionString) :
    (if stripped optionString 'f' g.elem ≠ [] then some (stripped optionString 'f' g.elem)
      else none) = unflagged g := by
  obtain ⟨c, cs, he, -⟩ := exists_first h
  have hstripped : stripped optionString 'f' g.elem =
      if withoutFlag optionString 'f' g.elem = ['-'] then []
      else withoutFlag optionString 'f' g.elem := by
    rw [he]
    rfl
  have hempty : withoutFlag optionString 'f' g.elem = ['-'] ↔
      g.flags.all (· = 'f') ∧ g.opt = none := by
    rw [withoutFlag_elem h, elem_eq_dash]
    simp
  rw [hstripped, unflagged]
  by_cases hnone : withoutFlag optionString 'f' g.elem = ['-']
  · rw [if_pos hnone, if_pos (hempty.1 hnone)]
    simp
  · rw [if_neg hnone, if_neg fun h => hnone (hempty.2 h), withoutFlag_elem h]
    exact if_pos (List.cons_ne_nil _ _)

/-- The element of a group without `M`. -/
theorem keeps_elem (h : g.Valid optionString) (hm : isMonitor g = false) :
    Sight.keeps .start g.elem = decide (stripArg optionString 'f' g.elem ≠ []) ∧
      Sight.next .start g.elem = .start := by
  have hplain : dashDash g.elem = false ∧ dashM g.elem = false :=
    ⟨dashDash_elem h, by rw [dashM_elem h, hm, Bool.false_and]⟩
  exact ⟨Sight.keeps_plain fun _ => hplain, Sight.next_plain fun _ => hplain⟩

theorem outcome_elem_iff (h : g.Valid optionString) (hm : isMonitor g = false) :
    (if Sight.keeps .start g.elem then some (stripArg optionString 'f' g.elem) else none) =
        unflagged g ↔ Spaced optionString 'f' g.elem := by
  obtain ⟨c, cs, he, -⟩ := exists_first h
  have hstrip : stripArg optionString 'f' g.elem = stripped optionString 'f' g.elem ↔
      Spaced optionString 'f' g.elem := by
    rw [he]
    exact stripArg_eq_iff_of_ne takesValue_dash (by decide) cs
  rw [← hstrip, ← stripped_elem h, (keeps_elem h hm).1]
  by_cases h₁ : stripArg optionString 'f' g.elem = [] <;>
    by_cases h₂ : stripped optionString 'f' g.elem = [] <;> simp [h₁, h₂, Ne.symm]

theorem outcome_value_iff (a : CString) :
    (if Sight.keeps .start a then some (stripArg optionString 'f' a) else none) = some a ↔
      Plain a := by
  unfold Plain Solid Sight.keeps Sight.start
  by_cases hs : stripArg optionString 'f' a = a
  · simp only [hs]
    cases dashDash a <;> cases dashM a <;> simp
  · simp [hs]

theorem next_of_plain {a : CString} (h : Plain a) : Sight.next .start a = .start :=
  Sight.next_plain fun _ => h.2

theorem outcome_stopped_iff (a : CString) :
    (if Sight.keeps ⟨true, false⟩ a then some (stripArg optionString 'f' a) else none) = some a ↔
      Solid a := by
  unfold Solid Sight.keeps
  by_cases hs : stripArg optionString 'f' a = a <;> simp [hs]

/-- A value that is a part of its element is not empty. -/
def Filled (g : Group) : Prop := ∀ o ∈ g.opt, o.separate = false → o.value ≠ []

/-- A group with `M` is left out when the option comes first in its element. -/
theorem outcomes_monitor_iff (h : g.Valid optionString) (hm : isMonitor g = true) :
    outcomes .start g.elems = g.elems.map (fun _ => none) ↔ g.flags = [] := by
  have hd := dashDash_elem h
  have hM := dashM_elem h
  rw [hm, Bool.true_and] at hM
  cases hfs : g.flags with
  | cons c fs =>
    rw [hfs] at hM
    have hkeep : Sight.keeps .start g.elem = true := by
      have := stripArg_elem_ne_nil hm
      simp [Sight.keeps, Sight.start, hd, hM, this]
    simp [Group.elems, outcomes, hkeep]
  | nil =>
    rw [hfs] at hM
    have hkeep : Sight.keeps .start g.elem = false := by simp [Sight.keeps, hM, Sight.start]
    cases hv : g.separateValue with
    | none => simp [Group.elems, outcomes, hkeep, hv]
    | some a =>
      have he := elem_eq_dashM hm hfs hv
      have hskip : Sight.next .start g.elem = ⟨false, true⟩ := by
        rw [Sight.start, Sight.next_dashM hd, he]
        rfl
      have hvalue : Sight.keeps ⟨false, true⟩ a = false := rfl
      simp [Group.elems, outcomes, hkeep, hskip, hv, hvalue]

theorem foldl_next_monitor (h : g.Valid optionString) (hfill : Filled g) (hm : isMonitor g = true)
    (hfs : g.flags = []) : g.elems.foldl Sight.next .start = .start := by
  have hd := dashDash_elem h
  rw [Group.elems, List.foldl_cons, Sight.start, Sight.next_dashM hd]
  cases hv : g.separateValue with
  | some a =>
    rw [elem_eq_dashM hm hfs hv]
    rfl
  | none =>
    obtain ⟨o, ho, hname⟩ := exists_opt hm
    have hsep : o.separate = false := by
      by_contra hsep
      rw [Bool.not_eq_false] at hsep
      simp [Group.separateValue, ho, hsep] at hv
    have hne : g.elem ≠ ['-', 'M'] := by
      simp [Group.elem, hfs, ho, hname, hsep, hfill o ho hsep]
    simp [hne]

theorem outcomes_elems_iff (h : g.Valid optionString) :
    outcomes .start g.elems = groupWants g ↔ GroupPlain g := by
  unfold groupWants GroupPlain
  cases hm : isMonitor g with
  | true => exact outcomes_monitor_iff h hm
  | false =>
    rw [Group.elems, outcomes, (keeps_elem h hm).2]
    simp only [Bool.false_eq_true, if_false]
    rw [List.cons_eq_cons, outcome_elem_iff h hm]
    refine and_congr_right fun _ => ?_
    cases g.separateValue with
    | none => simp [outcomes]
    | some a => simpa [outcomes] using outcome_value_iff a

theorem foldl_next_of_groupPlain (h : g.Valid optionString) (hfill : Filled g)
    (hplain : GroupPlain g) : g.elems.foldl Sight.next .start = .start := by
  unfold GroupPlain at hplain
  cases hm : isMonitor g with
  | true =>
    rw [hm] at hplain
    exact foldl_next_monitor h hfill hm hplain
  | false =>
    rw [hm] at hplain
    rw [Group.elems, List.foldl_cons, (keeps_elem h hm).2]
    cases hv : g.separateValue with
    | none => rfl
    | some a => exact next_of_plain (hplain.2 a hv)

theorem length_groupWants (g : Group) : (groupWants g).length = g.elems.length := by
  unfold groupWants
  split_ifs <;> simp [Group.elems]

end group

/-! ### The whole vector -/

theorem outcomes_stopped_iff (as : List CString) :
    outcomes ⟨true, false⟩ as = as.map some ↔ ∀ a ∈ as, Solid a := by
  induction as with
  | nil => simp [outcomes]
  | cons a as ih =>
    have hnext : Sight.next ⟨true, false⟩ a = ⟨true, false⟩ := rfl
    rw [outcomes, hnext, List.map_cons, List.cons_eq_cons, outcome_stopped_iff, ih,
      List.forall_mem_cons]

theorem outcomes_rest_iff (rest : List CString) :
    outcomes .start rest = restWants rest ↔ RestPlain rest := by
  induction rest with
  | nil => simp [outcomes, restWants, RestPlain]
  | cons a as ih =>
    unfold restWants RestPlain
    by_cases ha : a = ['-', '-']
    · subst ha
      have hkeep : Sight.keeps .start ['-', '-'] = false := rfl
      have hnext : Sight.next .start ['-', '-'] = ⟨true, false⟩ := rfl
      rw [if_pos rfl, if_pos rfl, outcomes, hkeep, hnext, ← outcomes_stopped_iff]
      simp
    · rw [if_neg ha, if_neg ha, outcomes, List.cons_eq_cons, outcome_value_iff]
      refine and_congr_right fun hplain => ?_
      rw [next_of_plain hplain, ih]

/-- **Element by element, the second pass passes on what is wanted** exactly when it takes no text
for something else than it is. -/
theorem outcomes_eq_iff {gs : List Group} (hgs : ∀ g ∈ gs, g.Valid optionString)
    (hfill : ∀ g ∈ gs, Filled g) (rest : List CString) :
    outcomes .start (gs.flatMap Group.elems ++ rest) = wants gs rest ↔
      (∀ g ∈ gs, GroupPlain g) ∧ RestPlain rest := by
  unfold wants
  induction gs with
  | nil => simpa using outcomes_rest_iff rest
  | cons g gs ih =>
    obtain ⟨hg, hgs⟩ := List.forall_mem_cons.1 hgs
    obtain ⟨hfg, hfgs⟩ := List.forall_mem_cons.1 hfill
    have hlen : (outcomes .start g.elems).length = (groupWants g).length := by
      rw [length_outcomes, length_groupWants]
    rw [List.flatMap_cons, List.flatMap_cons, List.append_assoc, List.append_assoc,
      outcomes_append, List.forall_mem_cons, and_assoc]
    constructor
    · intro h
      -- after a group that is passed on as it should be, the pass knows nothing
      obtain ⟨hhead, htail⟩ := List.append_inj h hlen
      have hplain := (outcomes_elems_iff hg).1 hhead
      rw [foldl_next_of_groupPlain hg hfg hplain] at htail
      exact ⟨hplain, (ih hgs hfgs).1 htail⟩
    · rintro ⟨hplain, hrest⟩
      rw [foldl_next_of_groupPlain hg hfg hplain, (outcomes_elems_iff hg).2 hplain,
        (ih hgs hfgs).2 hrest]

/-! ### The vector after the colon is cut -/

section cut

variable {gs : List Group}

theorem filled_getopt (opts : CString) (as : List CString) :
    ∀ g ∈ (getopt opts as).groups, Filled g := by
  fun_induction getopt opts as with
  | case1 | case2 | case8 => exact List.forall_mem_nil _
  | case3 | case5 =>
    refine List.forall_mem_singleton.2 ?_
    rintro o ⟨⟩
  | case4 as c cs hc fs hcl ih =>
    refine List.forall_mem_cons.2 ⟨?_, ih⟩
    rintro o ⟨⟩
  | case6 c cs hc fs o hcl v as ih =>
    refine List.forall_mem_cons.2 ⟨?_, ih⟩
    rintro _ ⟨⟩ hsep
    cases hsep
  | case7 as c cs hc fs o x xs hcl ih =>
    refine List.forall_mem_cons.2 ⟨?_, ih⟩
    rintro _ ⟨⟩ -
    exact List.cons_ne_nil x xs

theorem filled_cutPort {p : CString} (hlast : (gs.filterMap monitorValue).getLast? = some p)
    (hp : beforeColon p ≠ []) (h : ∀ g ∈ gs, Filled g) : ∀ g ∈ cutPort gs, Filled g := by
  induction gs with
  | nil => exact h
  | cons g gs ih =>
    obtain ⟨hg, hgs⟩ := List.forall_mem_cons.1 h
    rw [cutPort]
    split_ifs with hany hm
    · rw [getLast?_monitorValue_cons g hany] at hlast
      exact List.forall_mem_cons.2 ⟨hg, ih hlast hgs⟩
    · refine List.forall_mem_cons.2 ⟨fun o ho hsep => ?_, hgs⟩
      obtain ⟨o', ho', rfl⟩ := Option.map_eq_some_iff.1 ho
      have hvalue := monitorValue_of_last hm (by simpa using hany) hlast
      obtain ⟨o'', ho'', hM⟩ := Option.bind_eq_some_iff.1 hvalue
      split_ifs at hM
      cases hM
      cases ho'.symm.trans ho''
      exact hp
    · exact h

theorem flatMap_cutPort {β : Type} {f : Group → List β}
    (hf : ∀ g, isMonitor g = true → f (cutValue g) = f g) (gs : List Group) :
    (cutPort gs).flatMap f = gs.flatMap f := by
  induction gs with
  | nil => rfl
  | cons g gs ih =>
    rw [cutPort]
    split_ifs with hany hm
    · rw [List.flatMap_cons, List.flatMap_cons, ih]
    · rw [List.flatMap_cons, List.flatMap_cons, hf g hm]
    · rfl

theorem forall_cutPort {P : Group → Prop} (hP : ∀ g, isMonitor g = true → (P (cutValue g) ↔ P g))
    (gs : List Group) : (∀ g ∈ cutPort gs, P g) ↔ ∀ g ∈ gs, P g := by
  induction gs with
  | nil => rfl
  | cons g gs ih =>
    rw [cutPort]
    split_ifs with hany hm
    · rw [List.forall_mem_cons, List.forall_mem_cons, ih]
    · rw [List.forall_mem_cons, List.forall_mem_cons, hP g hm]
    · rfl

theorem groupWants_cutValue {g : Group} (hm : isMonitor g = true) :
    groupWants (cutValue g) = groupWants g := by
  have hlen : (cutValue g).elems.length = g.elems.length := by
    obtain ⟨o, ho, -⟩ := exists_opt hm
    cases hs : o.separate <;> simp [Group.elems, Group.separateValue, cutValue, ho, hs]
  unfold groupWants
  rw [isMonitor_cutValue, hm]
  simp only [if_true]
  rw [List.map_const', List.map_const', hlen]

theorem groupPlain_cutValue {g : Group} (hm : isMonitor g = true) :
    GroupPlain (cutValue g) ↔ GroupPlain g := by
  unfold GroupPlain
  rw [isMonitor_cutValue, hm]
  rfl

end cut

/-! ### The result -/

/-- Apart from the inserted forwards, `newav` is `ssh_path` and what is wanted of the vector, and
was so at every point of the second pass. -/
structure PassedOn (v : Env) (gs : List Group) (rest : List CString) (b : Built) : Prop where
  newav : texts b.newav = v.sshPath :: (wants gs rest).reduceOption
  pass : ∀ k, passed v b.monitor ((vector v gs rest).take k) =
    v.sshPath :: ((wants gs rest).take k).reduceOption

section result

variable {v : Env} {argv : List CString} {b : Built} {gs : List Group} {rest : List CString}
  {m : Monitor} {p : CString}

theorem map_text_vector (v : Env) (gs : List Group) (rest : List CString) :
    (vector v gs rest).map Elem.text =
      (if v.port.isSome then gs else cutPort gs).flatMap Group.elems ++ rest := by
  simp [vector, List.map_flatMap, map_text_groupElems, Function.comp_def]

/-- The second pass agrees with `getopt` on the vector with the colon cut exactly when it does on
the groups that `getopt` has found. -/
theorem outcomes_vector_iff (hgs : ∀ g ∈ gs, g.Valid optionString) (hfill : ∀ g ∈ gs, Filled g)
    (hp : writep v gs = some p) {n : ℤ} (hn : writePort (beforeColon p) = .ok n)
    (rest : List CString) :
    outcomes .start ((vector v gs rest).map Elem.text) = wants gs rest ↔
      (∀ g ∈ gs, GroupPlain g) ∧ RestPlain rest := by
  rw [map_text_vector]
  cases hv : v.port with
  | some q => exact outcomes_eq_iff hgs hfill rest
  | none =>
    rw [writep, hv, Option.none_or] at hp
    have hne : beforeColon p ≠ [] := by
      intro hnil
      rw [hnil, writePort, if_pos (.inl rfl)] at hn
      cases hn
    have hcut := outcomes_eq_iff (valid_cutPort hgs) (filled_cutPort hp hne hfill) rest
    rw [forall_cutPort fun g => groupPlain_cutValue, wants,
      flatMap_cutPort fun g => groupWants_cutValue] at hcut
    exact hcut

theorem length_wants (v : Env) (gs : List Group) (rest : List CString) :
    (wants gs rest).length = (vector v gs rest).length := by
  have hrest : ∀ as, (restWants as).length = as.length := by
    intro as
    induction as with
    | nil => rfl
    | cons a as ih =>
      unfold restWants
      split_ifs <;> simp [ih]
  have hgroups : ∀ hs : List Group,
      (hs.flatMap groupWants).length = (hs.flatMap groupElems).length := by
    intro hs
    induction hs with
    | nil => rfl
    | cons g hs ih => simp [ih, length_groupWants, groupElems]
  rw [wants, vector, List.length_append, List.length_append, hrest, List.length_map]
  congr 1
  split_ifs
  · exact hgroups gs
  · rw [← hgroups, flatMap_cutPort fun g => groupWants_cutValue]

/-- The first element is not taken for a `-M`. -/
theorem dashM_head_vector (hgs : ∀ g ∈ gs, g.Valid optionString)
    (hrest : ∀ a ∈ rest.head?, a = ['-', '-'] ∨ ∀ c cs, a ≠ '-' :: c :: cs)
    (hv : v.port.isSome = true) (hfirst : ∀ g ∈ gs.head?, isMonitor g = false) :
    ∀ e ∈ (vector v gs rest).head?, dashM e.text = false := by
  rw [vector, if_pos hv]
  cases gs with
  | cons g gs =>
    rw [List.flatMap_cons, groupElems_eq]
    rintro e ⟨⟩
    rw [dashM_elem (hgs g List.mem_cons_self), hfirst g rfl, Bool.false_and]
  | nil =>
    cases rest with
    | nil => rintro e ⟨⟩
    | cons a rest =>
      rintro e ⟨⟩
      rcases hrest a rfl with rfl | hne
      · rfl
      · unfold dashM
        split
        · next heq => exact absurd heq (hne _ _)
        · rfl

/-- The first element is copied although `M` was found in it. -/
theorem passed_first {g : Group} (hg : g.Valid optionString) (hM : isMonitor g = true)
    (hv : v.port.isSome = true) (hw : m.wp ≠ 0) :
    passed v m ((vector v (g :: gs) rest).take 1) =
      (if v.sshPath = [] then [] else [v.sshPath]) ++ [stripArg optionString 'f' g.elem] := by
  rw [vector, if_pos hv, List.flatMap_cons, groupElems_eq, List.cons_append, List.cons_append,
    List.take_succ_cons, List.take_zero, passed, texts_append, texts_addArg_sshPath,
    texts_of_isPass isPass_rewriteLoop, hv, filterMap_elem?_first hw (dashDash_elem hg),
    if_pos (stripArg_elem_ne_nil hM)]
  rfl

/-- **What ssh is given of the user's arguments.** -/
theorem passed_on_iff (h : build v argv = .ok b)
    (hrest : (getopt optionString argv).rest = some rest) :
    PassedOn v (getopt optionString argv).groups rest b ↔
      v.sshPath ≠ [] ∧
        (v.monitors = true → ∀ g ∈ (getopt optionString argv).groups.head?, isMonitor g = false) ∧
        (∀ g ∈ (getopt optionString argv).groups, GroupPlain g) ∧ RestPlain rest := by
  obtain ⟨rest', p, hrest', -, hp, hm, hnew⟩ := build_ok h
  cases hrest.symm.trans hrest'
  obtain ⟨-, hgs, hhead⟩ := getopt_spec argv hrest
  have hwp := (monitorOf_ok hm).1
  have hmon := monitors_eq hp hwp
  have hiff := outcomes_vector_iff hgs (filled_getopt optionString argv) hp hwp rest
  generalize (getopt optionString argv).groups = gs at *
  have hport : b.monitor.wp ≠ 0 → v.port.isSome = true → v.monitors = true := by
    intro hw hv
    rw [hmon]
    simp [hw, hv]
  constructor
  · rintro ⟨-, hpass⟩
    have hpath : v.sshPath ≠ [] := by
      intro hnil
      have := hpass 0
      rw [List.take_zero, List.take_zero, passed, rewriteLoop, List.append_nil,
        texts_addArg_sshPath, if_pos hnil] at this
      cases this
    have hfirst : v.monitors = true → ∀ g ∈ gs.head?, isMonitor g = false := by
      intro hv g hg
      by_contra hM
      rw [Bool.not_eq_false] at hM
      obtain ⟨gs, rfl⟩ := List.head?_eq_some_iff.1 hg
      obtain ⟨hv, hw⟩ : v.port.isSome = true ∧ b.monitor.wp ≠ 0 := by simpa [hv] using hmon.symm
      have := hpass 1
      rw [passed_first (hgs g List.mem_cons_self) hM hv hw, if_neg hpath] at this
      simp [wants, groupWants, hM, Group.elems] at this
    have heq := fun k => (passed_eq (fun hw hv =>
      dashM_head_vector hgs hhead hv (hfirst (hport hw hv))) k).symm.trans (hpass k)
    simp only [if_neg hpath, List.singleton_append, List.cons_inj_right] at heq
    refine ⟨hpath, hfirst, hiff.1 (eq_of_reduceOption_take ?_ heq)⟩
    rw [length_outcomes, List.length_map, length_wants v]
  · rintro ⟨hpath, hfirst, hplain⟩
    have hpass : ∀ k, passed v b.monitor ((vector v gs rest).take k) =
        v.sshPath :: ((wants gs rest).take k).reduceOption := by
      intro k
      rw [passed_eq fun hw hv => dashM_head_vector hgs hhead hv (hfirst (hport hw hv)),
        if_neg hpath, hiff.2 hplain]
      rfl
    refine ⟨?_, hpass⟩
    have := hpass (vector v gs rest).length
    rw [List.take_length, ← length_wants v, List.take_length] at this
    rw [hnew]
    exact this

/-- `autossh -M 20000 -fN -o BatchMode=yes host`. -/
def tidy : List CString := ["-M", "20000", "-fN", "-o", "BatchMode=yes", "host"].map String.toList

theorem tidy_passed_on :
    ∃ b, build ⟨none, none, none⟩ tidy = .ok b ∧
      PassedOn ⟨none, none, none⟩ (getopt optionString tidy).groups ["host".toList] b := by
  obtain ⟨hbuild, hrest, hpath, hgroups, hplain⟩ :
      (build ⟨none, none, none⟩ tidy).toOption.map (fun _ => ()) = some () ∧
      (getopt optionString tidy).rest = some ["host".toList] ∧
      Env.sshPath ⟨none, none, none⟩ ≠ [] ∧
      (∀ g ∈ (getopt optionString tidy).groups, GroupPlain g) ∧ RestPlain ["host".toList] := by
    decide +kernel
  obtain ⟨b, hb, -⟩ := exists_ok hbuild
  refine ⟨b, hb, (passed_on_iff hb hrest).2 ⟨hpath, ?_, hgroups, hplain⟩⟩
  intro h
  cases h

/-- `autossh -M 0 -- host grep -f list`. -/
def remoteCommand : List CString :=
  ["-M", "0", "--", "host", "grep", "-f", "list"].map String.toList

/-- An option of the remote command is dropped. -/
theorem remote_flag_dropped :
    ∃ b, build ⟨none, none, none⟩ remoteCommand = .ok b ∧
      texts b.newav = ["/usr/bin/ssh", "host", "grep", "list"].map String.toList ∧
      ¬ PassedOn ⟨none, none, none⟩ (getopt optionString remoteCommand).groups
        (remoteCommand.drop 2) b := by
  obtain ⟨b, hb, htexts⟩ := exists_ok (show (build ⟨none, none, none⟩ remoteCommand).toOption.map
    (fun b => texts b.newav) = some (["/usr/bin/ssh", "host", "grep", "list"].map String.toList) by
      decide +kernel)
  refine ⟨b, hb, htexts, fun h => ?_⟩
  exact absurd (htexts.symm.trans h.newav) (by decide +kernel)

end result

end Args

end Autossh
