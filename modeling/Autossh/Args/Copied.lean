import Autossh.Args.Passed
import Autossh.Posix.Arrange

/-!
# Which words the second pass passes on

`rewriteLoop` builds `newav` from elements that know where they come from.  Which of them it copies
depends on their texts alone, and on whether the forwards of `AUTOSSH_PORT` are still to be inserted
(`copied`).

* `filterMap_elem?_eq_pick` : it copies those;
* `exists_rewriteLoop_eq` : what is passed on as a whole at the end of the vector is what `newav`
  ends in.
-/

namespace Autossh

namespace Args

open Getopt

/-- Which of the words are passed on.  The others autossh keeps for itself: the first that begins
with `--`; one that begins with `-M` before that, and the value after a bare `-M`; an empty one, and
one of which `strip_arg` leaves nothing.  While the forwards of `AUTOSSH_PORT` are `pending`, the
pass does not look for a `-M`. -/
def copied : Bool → Bool → List CString → List Bool
  | _, _, [] => []
  | stop, pending, a :: as =>
    if dashDash a = true ∧ stop = false then false :: copied true pending as
    else if pending = true then
      decide (stripArg optionString 'f' a ≠ []) :: copied stop false as
    else if stop = false ∧ dashM a = true then
      false ::
        if a = ['-', 'M'] then
          match as with
          | [] => []
          | _ :: as' => false :: copied stop false as'
        else copied stop false as
    else decide (stripArg optionString 'f' a ≠ []) :: copied stop false as

theorem length_copied (stop pending : Bool) (as : List CString) :
    (copied stop pending as).length = as.length := by
  fun_induction copied stop pending as with
  | case1 => rfl
  | case2 stop pending a as hd ih => exact congrArg Nat.succ ih
  | case3 stop a as hd ih => exact congrArg Nat.succ ih
  | case4 stop pending a as hd hp hm ih₂ ih₁ =>
    split_ifs
    · cases as with
      | nil => rfl
      | cons x as => exact congrArg (· + 2) ih₂
    · exact congrArg Nat.succ ih₁
  | case5 stop pending a as hd hp hm ih => exact congrArg Nat.succ ih

theorem exists_of_copied {stop pending : Bool} {as : List CString} {k : ℕ}
    (h : (copied stop pending as)[k]? = some true) :
    ∃ a, as[k]? = some a ∧ stripArg optionString 'f' a ≠ [] := by
  fun_induction copied stop pending as generalizing k with
  | case1 => cases h
  | case2 stop pending a as hd ih =>
    cases k with
    | zero => cases h
    | succ k => exact ih h
  | case3 stop a as hd ih =>
    cases k with
    | zero => exact ⟨a, rfl, of_decide_eq_true (Option.some.inj h)⟩
    | succ k => exact ih h
  | case4 stop pending a as hd hp hm ih₂ ih₁ =>
    cases k with
    | zero => cases h
    | succ k =>
      rw [List.getElem?_cons_succ] at h ⊢
      split_ifs at h
      · cases as with
        | nil => cases h
        | cons x as =>
          cases k with
          | zero => cases h
          | succ k => exact ih₂ h
      · exact ih₁ h
  | case5 stop pending a as hd hp hm ih =>
    cases k with
    | zero => exact ⟨a, rfl, of_decide_eq_true (Option.some.inj h)⟩
    | succ k => exact ih h

/-- A word more makes no difference to those before it. -/
theorem copied_concat (stop pending : Bool) (as : List CString) (a : CString) :
    ∃ f, copied stop pending (as ++ [a]) = copied stop pending as ++ [f] := by
  have hcons : ∀ {x : Bool} {fs gs : List Bool}, (∃ f, gs = fs ++ [f]) →
      ∃ f, x :: gs = x :: fs ++ [f] := by
    rintro x fs gs ⟨f, rfl⟩
    exact ⟨f, rfl⟩
  fun_induction copied stop pending as with
  | case1 stop pending =>
    have hlen := length_copied stop pending [a]
    exact List.length_eq_one_iff.1 hlen
  | case2 stop pending b as hd ih =>
    rw [List.cons_append, copied.eq_def]
    dsimp only
    rw [if_pos hd]
    exact hcons ih
  | case3 stop b as hd ih =>
    rw [List.cons_append, copied.eq_def]
    dsimp only
    rw [if_neg hd, if_pos rfl]
    exact hcons ih
  | case4 stop pending b as hd hp hm ih₂ ih₁ =>
    rw [List.cons_append, copied.eq_def]
    dsimp only
    rw [if_neg hd, if_neg hp, if_pos hm]
    refine hcons ?_
    by_cases hM : b = ['-', 'M']
    · rw [if_pos hM, if_pos hM]
      cases as with
      | nil => exact ⟨false, rfl⟩
      | cons x as => exact hcons ih₂
    · rw [if_neg hM, if_neg hM]
      exact ih₁
  | case5 stop pending b as hd hp hm ih =>
    rw [List.cons_append, copied.eq_def]
    dsimp only
    rw [if_neg hd, if_neg hp, if_neg hm]
    exact hcons ih

section loop

variable {port : Bool} {m : Monitor} {stop done pending : Bool} {es : List Elem} {k : ℕ}

/-- After a `-M` no forwards are pending. -/
theorem not_pending_dashM (port done : Bool) (m : Monitor) :
    ¬(m.wp ≠ 0 ∧ port = true ∧ (done || decide (m.wp ≠ 0)) = false) := by
  rintro ⟨hw, -, hd⟩
  simp [hw] at hd

theorem filterMap_elem?_copy_append (e : Elem) (ms : List Bool) (es : List Elem) :
    (copy e).filterMap Item.elem? ++ pick ms es =
      pick (decide (stripArg optionString 'f' e.text ≠ []) :: ms) (e :: es) := by
  rw [filterMap_elem?_copy]
  by_cases h : stripArg optionString 'f' e.text = [] <;> simp [h, pick]

/-- The second pass copies those. -/
theorem filterMap_elem?_eq_pick
    (hp : pending = true ↔ m.wp ≠ 0 ∧ port = true ∧ done = false) :
    (rewriteLoop port m stop done es).filterMap Item.elem? =
      pick (copied stop pending (es.map Elem.text)) es := by
  fun_induction rewriteLoop port m stop done es generalizing pending with
  | case1 => rfl
  | case2 stop done e es hd ih =>
    rw [List.map_cons]
    unfold copied
    rw [if_pos hd, ih hp]
    rfl
  | case3 stop done e es hd henv ih =>
    rw [List.map_cons]
    unfold copied
    rw [if_neg hd, if_pos (hp.2 henv), List.filterMap_append, List.filterMap_append,
      filterMap_elem?_forwards, List.nil_append, ih (iff_of_false Bool.false_ne_true (by simp)),
      filterMap_elem?_copy_append]
  | case4 stop done e es hd henv hm ih₂ ih₁ =>
    have hnone : (if m.wp ≠ 0 ∧ done = false then forwards m
        else []).filterMap Item.elem? = [] := by
      split_ifs
      exacts [filterMap_elem?_forwards m, rfl]
    have hdone := iff_of_false Bool.false_ne_true (not_pending_dashM port done m)
    rw [List.map_cons]
    unfold copied
    rw [if_neg hd, if_neg (mt hp.1 henv), if_pos hm, List.filterMap_append, hnone, List.nil_append]
    by_cases hM : e.text = ['-', 'M']
    · rw [if_pos hM, if_pos hM]
      cases es with
      | nil => rfl
      | cons x es => exact ih₂ hdone
    · rw [if_neg hM, if_neg hM]
      exact ih₁ hdone
  | case5 stop done e es hd henv hm ih =>
    rw [List.map_cons]
    unfold copied
    rw [if_neg hd, if_neg (mt hp.1 henv), if_neg hm, List.filterMap_append,
      ih (iff_of_false Bool.false_ne_true henv), filterMap_elem?_copy_append]

-- The `-M` and its value are kept, and so is the flag that `strip_arg` takes away.
example : copied false false (["-M", "0", "-f", "-N", "host"].map String.toList) =
    [false, false, false, true, true] := by decide +kernel

/-- With no forwards pending, a pass that passes on everything adds nothing to it. -/
theorem rewriteLoop_eq_copies (hp : ¬(m.wp ≠ 0 ∧ port = true ∧ done = false))
    (h : ∀ f ∈ copied stop false (es.map Elem.text), f = true) :
    rewriteLoop port m stop done es = es.flatMap copy := by
  fun_induction rewriteLoop port m stop done es with
  | case1 => rfl
  | case2 stop done e es hd ih =>
    rw [List.map_cons] at h
    unfold copied at h
    rw [if_pos hd] at h
    cases h false List.mem_cons_self
  | case3 stop done e es hd henv ih => exact absurd henv hp
  | case4 stop done e es hd henv hm ih₂ ih₁ =>
    rw [List.map_cons] at h
    unfold copied at h
    rw [if_neg hd, if_neg (by simp), if_pos hm] at h
    cases h false List.mem_cons_self
  | case5 stop done e es hd henv hm ih =>
    rw [List.map_cons] at h
    unfold copied at h
    rw [if_neg hd, if_neg (by simp), if_neg hm] at h
    rw [List.flatMap_cons, ih hp fun f hf => h f (List.mem_cons_of_mem _ hf)]

/-- If everything from the `k`th element on is passed on, that is what `newav` ends in. -/
theorem exists_rewriteLoop_eq (hp : pending = true ↔ m.wp ≠ 0 ∧ port = true ∧ done = false)
    (h : ∀ f ∈ (copied stop pending (es.map Elem.text)).drop k, f = true) :
    ∃ is, rewriteLoop port m stop done es = is ++ (es.drop k).flatMap copy := by
  fun_induction rewriteLoop port m stop done es generalizing pending k with
  | case1 => exact ⟨[], by simp⟩
  | case2 stop done e es hd ih =>
    rw [List.map_cons] at h
    unfold copied at h
    rw [if_pos hd] at h
    cases k with
    | zero => cases h false List.mem_cons_self
    | succ k => exact ih hp h
  | case3 stop done e es hd henv ih =>
    rw [List.map_cons] at h
    unfold copied at h
    rw [if_neg hd, if_pos (hp.2 henv)] at h
    cases k with
    | zero =>
      rw [rewriteLoop_eq_copies (by simp) fun f hf => h f (List.mem_cons_of_mem _ hf)]
      exact ⟨forwards m, List.append_assoc _ _ _⟩
    | succ k =>
      obtain ⟨is, his⟩ := ih (iff_of_false Bool.false_ne_true (by simp)) h
      exact ⟨forwards m ++ copy e ++ is, by rw [his, ← List.append_assoc]; rfl⟩
  | case4 stop done e es hd henv hm ih₂ ih₁ =>
    have hdone := iff_of_false Bool.false_ne_true (not_pending_dashM port done m)
    rw [List.map_cons] at h
    unfold copied at h
    rw [if_neg hd, if_neg (mt hp.1 henv), if_pos hm] at h
    cases k with
    | zero => cases h false List.mem_cons_self
    | succ k =>
      rw [List.drop_succ_cons] at h ⊢
      generalize (if m.wp ≠ 0 ∧ done = false then forwards m else []) = fs
      by_cases hM : e.text = ['-', 'M']
      · rw [if_pos hM] at h ⊢
        cases es with
        | nil => exact ⟨fs, by simp⟩
        | cons x es =>
          cases k with
          | zero => cases h false List.mem_cons_self
          | succ k =>
            obtain ⟨is, his⟩ := ih₂ hdone h
            exact ⟨fs ++ is, (congrArg (fs ++ ·) his).trans (List.append_assoc _ _ _).symm⟩
      · rw [if_neg hM] at h ⊢
        obtain ⟨is, his⟩ := ih₁ hdone h
        exact ⟨fs ++ is, by rw [his, List.append_assoc]⟩
  | case5 stop done e es hd henv hm ih =>
    rw [List.map_cons] at h
    unfold copied at h
    rw [if_neg hd, if_neg (mt hp.1 henv), if_neg hm] at h
    cases k with
    | zero =>
      rw [rewriteLoop_eq_copies henv fun f hf => h f (List.mem_cons_of_mem _ hf)]
      exact ⟨[], rfl⟩
    | succ k =>
      obtain ⟨is, his⟩ := ih (iff_of_false Bool.false_ne_true henv) h
      exact ⟨copy e ++ is, by rw [his, List.append_assoc]; rfl⟩

/-- What the pass makes of an element that it copies. -/
def Elem.item (e : Elem) : Item := .elem e (stripArg optionString 'f' e.text)

/-- With no forwards to come, the pass adds copies only. -/
theorem rewriteLoop_eq_map (h : m.wp ≠ 0 → done = true) :
    rewriteLoop port m stop done es =
      ((rewriteLoop port m stop done es).filterMap Item.elem?).map Elem.item := by
  have hitem : ∀ i ∈ rewriteLoop port m stop done es, ∃ e, i = Elem.item e := by
    intro i hi
    rcases isPass_rewriteLoop i hi with ⟨s, rfl⟩ | he
    · cases forward?_rewriteLoop h _ hi
    · exact he
  generalize rewriteLoop port m stop done es = is at hitem ⊢
  induction is with
  | nil => rfl
  | cons i is ih =>
    obtain ⟨⟨e, rfl⟩, his⟩ := List.forall_mem_cons.1 hitem
    exact congrArg (List.cons _) (ih his)

/-- A vector that begins with a bare `-M`: the forwards come first, then what is passed on. -/
theorem rewriteLoop_dashM {e : Elem} (he : e.text = ['-', 'M'])
    (hp : pending = true ↔ m.wp ≠ 0 ∧ port = true ∧ false = false) :
    rewriteLoop port m false false (e :: es) = (if m.wp ≠ 0 then forwards m else []) ++
      (pick (copied false pending ((e :: es).map Elem.text)) (e :: es)).map Elem.item := by
  have hdd : ¬(dashDash e.text = true ∧ false = false) := by simp [he, dashDash]
  have hcopies : (rewriteLoop port m false false (e :: es)).filterMap Item.elem? =
      pick (copied false pending ((e :: es).map Elem.text)) (e :: es) :=
    filterMap_elem?_eq_pick hp
  -- in both branches the forwards come first, and none are left for the rest
  obtain ⟨is, hloop, his⟩ : ∃ is, rewriteLoop port m false false (e :: es) =
      (if m.wp ≠ 0 then forwards m else []) ++ is ∧
        is = (is.filterMap Item.elem?).map Elem.item := by
    rw [rewriteLoop.eq_def]
    dsimp only
    rw [if_neg hdd]
    by_cases henv : m.wp ≠ 0 ∧ port = true ∧ false = false
    · have hcopy : copy e = ((copy e).filterMap Item.elem?).map Elem.item := by
        have hstrip : stripArg optionString 'f' e.text ≠ [] := by
          rw [he]
          decide
        rw [filterMap_elem?_copy, if_pos hstrip]
        exact if_neg hstrip
      refine ⟨copy e ++ rewriteLoop port m false true es, ?_, ?_⟩
      · rw [if_pos henv, if_pos henv.1, List.append_assoc]
      · rw [List.filterMap_append, List.map_append, ← hcopy, ← rewriteLoop_eq_map fun _ => rfl]
    · rw [if_neg henv, if_pos ⟨rfl, by simp [he, dashM]⟩, if_pos he]
      simp only [and_true]
      refine ⟨_, rfl, ?_⟩
      cases es with
      | nil => rfl
      | cons x es => exact rewriteLoop_eq_map fun hw => by simp [hw]
  have hforwards : (if m.wp ≠ 0 then forwards m else []).filterMap Item.elem? = [] := by
    split_ifs
    exacts [filterMap_elem?_forwards m, rfl]
  rw [← hcopies, hloop, List.filterMap_append, hforwards, List.nil_append, ← his]

end loop

/-! ### The arguments of ssh -/

/-- The argument, unless it is the path of ssh. -/
def Item.arg? : Item → Option CString
  | sshPath _ => none
  | forward s => some s
  | elem _ s => some s

/-- The arguments of ssh. -/
def Built.args (b : Built) : List CString := b.newav.filterMap Item.arg?

theorem filterMap_arg?_of_isPass {is : List Item} (h : ∀ i ∈ is, i.IsPass) :
    is.filterMap Item.arg? = is.map Item.text := by
  induction is with
  | nil => rfl
  | cons i is ih =>
    obtain ⟨hi, his⟩ := List.forall_mem_cons.1 h
    rcases hi with ⟨s, rfl⟩ | ⟨e, rfl⟩
    · exact congrArg (List.cons s) (ih his)
    · exact congrArg (List.cons _) (ih his)

/-- Whether the forwards of `AUTOSSH_PORT` are to be inserted when the pass begins. -/
theorem pending_iff {v : Env} {b : Built} {gs : List Group} {port : CString}
    (hport : writep v gs = some port) (hm : monitorOf v.mhost port = .ok b.monitor) :
    v.monitors = true ↔ b.monitor.wp ≠ 0 ∧ v.port.isSome = true ∧ false = false := by
  rw [monitors_eq hport (monitorOf_ok hm).1]
  simp [and_comm]

/-- What is passed on of these words. -/
def sent (v : Env) (words : List CString) : List CString :=
  (pick (copied false v.monitors words) words).map (stripArg optionString 'f')

theorem map_text_pick (v : Env) (es : List Elem) :
    ((pick (copied false v.monitors (es.map Elem.text)) es).map Elem.item).map Item.text =
      sent v (es.map Elem.text) := by
  rw [sent, pick_map, List.map_map, List.map_map]
  rfl

/-- The last word is passed on, or it is not. -/
theorem sent_concat (v : Env) (words : List CString) (a : CString) :
    sent v (words ++ [a]) = sent v words ∨
      sent v (words ++ [a]) = sent v words ++ [stripArg optionString 'f' a] := by
  obtain ⟨f, hf⟩ := copied_concat false v.monitors words a
  have hlen := length_copied false v.monitors words
  rw [sent, hf, pick_append, List.take_left' hlen, List.drop_left' hlen, List.map_append]
  cases f with
  | false => exact .inl (List.append_nil _)
  | true => exact .inr rfl

end Args

end Autossh
