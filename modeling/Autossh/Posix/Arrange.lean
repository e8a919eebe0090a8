import Autossh.Posix.Permute
import Mathlib.Data.List.Forall2

/-!
# The elements of a vector that `getopt` is given

Where they are moved, and what becomes of those that are appended.

* `pick` takes the elements of a list that are marked, `arrange` puts them in front of the others;
* `fronts` marks the elements with options, their values and the `--`;
* `left_eq_arrange` : the vector that `permute` leaves behind has the marked elements first, and the
  others after them;
* `permute_append` : what is appended to a vector is read on its own, unless the vector ends the
  options or ends in one that waits for its value (`operands_append_of_not_ok`).
-/

namespace Autossh

namespace Getopt

/-! ### Marked elements -/

/-- The elements that are marked. -/
def pick {α : Type*} : List Bool → List α → List α
  | true :: ms, x :: xs => x :: pick ms xs
  | false :: ms, _ :: xs => pick ms xs
  | _, _ => []

/-- The elements that are marked, and then the others. -/
def arrange {α : Type*} (ms : List Bool) (xs : List α) : List α :=
  pick ms xs ++ pick (ms.map not) xs

section pick

variable {α β : Type*}

theorem pick_nil (ms : List Bool) : pick ms ([] : List α) = [] := by
  cases ms with
  | nil => rfl
  | cons m ms => cases m <;> rfl

theorem pick_sublist (ms : List Bool) (xs : List α) : (pick ms xs).Sublist xs := by
  fun_induction pick ms xs with
  | case1 ms x xs ih => exact ih.cons_cons x
  | case2 ms x xs ih => exact ih.cons x
  | case3 => exact List.nil_sublist _

theorem pick_append (ms : List Bool) (xs ys : List α) :
    pick ms (xs ++ ys) = pick (ms.take xs.length) xs ++ pick (ms.drop xs.length) ys := by
  induction xs generalizing ms with
  | nil => simp [pick_nil]
  | cons x xs ih =>
    cases ms with
    | nil => rfl
    | cons m ms =>
      cases m with
      | true => exact congrArg (List.cons x) (ih ms)
      | false => exact ih ms

theorem pick_true (xs : List α) : pick (xs.map fun _ => true) xs = xs := by
  induction xs with
  | nil => rfl
  | cons x xs ih => exact congrArg (List.cons x) ih

theorem pick_false (xs : List α) : pick (xs.map fun _ => false) xs = [] := by
  induction xs with
  | nil => rfl
  | cons x xs ih => exact ih

theorem pick_map (ms : List Bool) (f : α → β) (xs : List α) :
    pick ms (xs.map f) = (pick ms xs).map f := by
  induction xs generalizing ms with
  | nil => simp [pick_nil]
  | cons x xs ih =>
    cases ms with
    | nil => rfl
    | cons m ms =>
      cases m with
      | true => exact congrArg (List.cons (f x)) (ih ms)
      | false => exact ih ms

theorem pick_of_forall {ms : List Bool} {xs : List α} (hlen : xs.length ≤ ms.length)
    (h : ∀ m ∈ ms, m = true) : pick ms xs = xs := by
  induction xs generalizing ms with
  | nil => exact pick_nil ms
  | cons x xs ih =>
    cases ms with
    | nil => cases hlen
    | cons m ms =>
      obtain ⟨rfl, hms⟩ := List.forall_mem_cons.1 h
      exact congrArg (List.cons x) (ih (Nat.le_of_succ_le_succ hlen) hms)

theorem exists_of_mem_pick {ms : List Bool} {xs : List α} {x : α} (h : x ∈ pick ms xs) :
    ∃ n : ℕ, ms[n]? = some true ∧ xs[n]? = some x := by
  fun_induction pick ms xs with
  | case1 ms y xs ih =>
    rcases List.mem_cons.1 h with rfl | h
    · exact ⟨0, rfl, rfl⟩
    · obtain ⟨n, hn⟩ := ih h
      exact ⟨n + 1, hn⟩
  | case2 ms y xs ih =>
    obtain ⟨n, hn⟩ := ih h
    exact ⟨n + 1, hn⟩
  | case3 => cases h

theorem mem_pick_of_mem_zip {ms : List Bool} {xs : List α} {x : α} (h : (x, true) ∈ xs.zip ms) :
    x ∈ pick ms xs := by
  induction xs generalizing ms with
  | nil => cases h
  | cons y xs ih =>
    cases ms with
    | nil => cases h
    | cons m ms =>
      rcases List.mem_cons.1 h with heq | hlater
      · cases heq
        exact List.mem_cons_self
      · cases m with
        | true => exact List.mem_cons_of_mem y (ih hlater)
        | false => exact ih hlater

theorem forall₂_pick {R : α → β → Prop} {xs : List α} {ys : List β} (h : List.Forall₂ R xs ys)
    (ms : List Bool) : List.Forall₂ R (pick ms xs) (pick ms ys) := by
  induction h generalizing ms with
  | nil =>
    rw [pick_nil, pick_nil]
    exact .nil
  | cons hxy _ ih =>
    cases ms with
    | nil => exact .nil
    | cons m ms =>
      cases m with
      | true => exact .cons hxy (ih ms)
      | false => exact ih ms

theorem forall₂_arrange {R : α → β → Prop} {xs : List α} {ys : List β} (h : List.Forall₂ R xs ys)
    (ms : List Bool) : List.Forall₂ R (arrange ms xs) (arrange ms ys) :=
  List.rel_append (forall₂_pick h ms) (forall₂_pick h (ms.map not))

/-- What is marked in front stays in front. -/
theorem arrange_append (ms : List Bool) (xs ys : List α) :
    arrange ((xs.map fun _ => true) ++ ms) (xs ++ ys) = xs ++ arrange ms ys := by
  have hfront : pick ((xs.map fun _ => true) ++ ms) (xs ++ ys) = xs ++ pick ms ys := by
    rw [pick_append, List.take_left' (List.length_map _), List.drop_left' (List.length_map _),
      pick_true]
  have hback : pick (((xs.map fun _ => true) ++ ms).map not) (xs ++ ys) =
      pick (ms.map not) ys := by
    rw [List.map_append, List.map_map, pick_append, List.take_left' (List.length_map _),
      List.drop_left' (List.length_map _)]
    exact congrArg (· ++ pick (ms.map not) ys) (pick_false xs)
  rw [arrange, hfront, hback, List.append_assoc]
  rfl

end pick

/-! ### The elements with options -/

/-- The elements that end up in front: those with options, their values, and the `--`. -/
def fronts (opts : CString) (posix : Bool) : List CString → List Bool
  | [] => []
  | a :: as =>
    match a with
    | ['-', '-'] => true :: as.map fun _ => false
    | '-' :: c :: cs =>
      match cluster opts (c :: cs) with
      | (_, _, false) => true :: as.map fun _ => false
      | (_, none, true) => true :: fronts opts posix as
      | (_, some (_, []), true) =>
        match as with
        | [] => [true]
        | _ :: as' => true :: true :: fronts opts posix as'
      | (_, some (_, _ :: _), true) => true :: fronts opts posix as
    | _ => if posix then false :: as.map fun _ => false else false :: fronts opts posix as

variable {opts : CString} {posix : Bool}

/-- An element that does not wait for a value. -/
theorem fronts_cons {c : Char} {cs fs : List Char} {o : Option (Char × CString)}
    (hc : c = '-' → cs = [] → False) (hcl : cluster opts (c :: cs) = (fs, o, true))
    (ho : ∀ n, o ≠ some (n, [])) (as : List CString) :
    fronts opts posix (('-' :: c :: cs) :: as) = true :: fronts opts posix as := by
  -- the definition looks at the next element as well
  cases as with
  | nil =>
    rw [fronts.eq_3 _ _ _ _ hc, hcl]
    rcases o with _ | ⟨n, _ | ⟨x, xs⟩⟩
    exacts [rfl, absurd rfl (ho n), rfl]
  | cons a as =>
    rw [fronts.eq_4 _ _ _ _ _ _ hc, hcl]
    rcases o with _ | ⟨n, _ | ⟨x, xs⟩⟩
    exacts [rfl, absurd rfl (ho n), rfl]

theorem length_fronts (as : List CString) : (fronts opts posix as).length = as.length := by
  -- the recursion is that of `permute`
  fun_induction permute opts posix as with
  | case1 => rfl
  | case2 as => simp [fronts]
  | case3 as c cs hc fs o hcl => cases as <;> simp [fronts, hcl]
  | case4 as c cs hc fs hcl ih =>
    rw [fronts_cons hc hcl fun n hn => by cases hn]
    exact congrArg Nat.succ ih
  | case5 c cs hc fs o hcl => simp [fronts, hcl]
  | case6 c cs hc fs o hcl v as ih => simp [fronts, hcl, ih]
  | case7 as c cs hc fs o x xs hcl ih =>
    rw [fronts_cons hc hcl fun n hn => by cases hn]
    exact congrArg Nat.succ ih
  | case8 a as hposix hdd hopt => simp [fronts, hposix]
  | case9 a as hposix hdd hopt ih =>
    rw [fronts, if_neg hposix]
    · exact congrArg Nat.succ ih
    · exact hdd
    · exact hopt

theorem pick_fronts (as : List CString) (h : (permute opts posix as).ok = true) :
    pick (fronts opts posix as) as = (permute opts posix as).groups.flatMap Group.elems ++
        (if (permute opts posix as).stopped then [['-', '-']] else []) ∧
      pick ((fronts opts posix as).map not) as = (permute opts posix as).operands := by
  fun_induction permute opts posix as with
  | case1 => exact ⟨rfl, rfl⟩
  | case2 as =>
    simp only [fronts, List.map_cons, List.map_map]
    exact ⟨congrArg (List.cons _) (pick_false as), pick_true as⟩
  | case3 | case5 => cases h
  | case4 as c cs hc fs hcl ih =>
    obtain ⟨hcs, -, -⟩ := cluster_eq _ hcl
    have helem : Group.elems ⟨fs, none⟩ = ['-' :: c :: cs] := by rw [hcs]; rfl
    obtain ⟨hf, hb⟩ := ih h
    rw [fronts_cons hc hcl fun n hn => by cases hn]
    refine ⟨?_, hb⟩
    simp only [Parsed.cons, List.flatMap_cons, helem, List.cons_append, List.nil_append]
    exact congrArg (List.cons _) hf
  | case6 c cs hc fs o hcl v as ih =>
    obtain ⟨hcs, -, -⟩ := cluster_eq _ hcl
    have helem : Group.elems ⟨fs, some ⟨o, v, true⟩⟩ = ['-' :: c :: cs, v] := by rw [hcs]; rfl
    rw [fronts, hcl]
    · obtain ⟨hf, hb⟩ := ih h
      refine ⟨?_, hb⟩
      simp only [Parsed.cons, List.flatMap_cons, helem, List.cons_append, List.nil_append]
      exact congrArg (fun xs => _ :: _ :: xs) hf
    · exact hc
  | case7 as c cs hc fs o x xs hcl ih =>
    obtain ⟨hcs, -, -⟩ := cluster_eq _ hcl
    have helem : Group.elems ⟨fs, some ⟨o, x :: xs, false⟩⟩ = ['-' :: c :: cs] := by rw [hcs]; rfl
    obtain ⟨hf, hb⟩ := ih h
    rw [fronts_cons hc hcl fun n hn => by cases hn]
    refine ⟨?_, hb⟩
    simp only [Parsed.cons, List.flatMap_cons, helem, List.cons_append, List.nil_append]
    exact congrArg (List.cons _) hf
  | case8 a as hposix hdd hopt =>
    rw [fronts, if_pos hposix]
    · simp only [List.map_cons, List.map_map]
      exact ⟨pick_false as, congrArg (List.cons a) (pick_true as)⟩
    · exact hdd
    · exact hopt
  | case9 a as hposix hdd hopt ih =>
    rw [fronts, if_neg hposix]
    · obtain ⟨hf, hb⟩ := ih h
      exact ⟨hf, congrArg (List.cons a) hb⟩
    · exact hdd
    · exact hopt

/-- **The vector that is left behind** is the given one, with the marked elements in front. -/
theorem left_eq_arrange (as : List CString) (h : (permute opts posix as).ok = true) :
    (permute opts posix as).left = arrange (fronts opts posix as) as := by
  obtain ⟨hf, hb⟩ := pick_fronts as h
  rw [arrange, hf, hb, Parsed.left, Parsed.rest, List.append_assoc]
  split_ifs <;> rfl

/-! ### Appending to a vector -/

/-- What is appended is read on its own, unless the options have ended before it. -/
theorem permute_append (as bs : List CString) (h : (permute opts posix as).ok = true) :
    permute opts posix (as ++ bs) = (permute opts posix as).append
      (if (permute opts posix as).ended posix then ⟨[], bs, (permute opts posix as).stopped, true⟩
      else permute opts posix bs) := by
  fun_induction permute opts posix as with
  | case1 =>
    rw [Parsed.ended]
    simp
    rfl
  | case2 as => rfl
  | case3 | case5 => cases h
  | case4 as c cs hc fs hcl ih =>
    rw [List.cons_append, permute, hcl]
    · exact congrArg (Parsed.cons _) (ih h)
    · exact hc
  | case6 c cs hc fs o hcl v as ih =>
    rw [List.cons_append, permute, hcl]
    · exact congrArg (Parsed.cons _) (ih h)
    · exact hc
  | case7 as c cs hc fs o x xs hcl ih =>
    rw [List.cons_append, permute, hcl]
    · exact congrArg (Parsed.cons _) (ih h)
    · exact hc
  | case8 a as hposix hdd hopt =>
    rw [List.cons_append, permute, if_pos hposix]
    · simp [Parsed.ended, Parsed.append, hposix]
    · exact hdd
    · exact hopt
  | case9 a as hposix hdd hopt ih =>
    rw [List.cons_append, permute, if_neg hposix]
    · rw [ih h]
      simp [Parsed.ended, Parsed.append, Parsed.operand, hposix]
    · exact hdd
    · exact hopt

/-- After an error nothing is read; a missing value is taken from what is appended.  Either way it
is not an operand. -/
theorem operands_append_of_not_ok (as : List CString) (b : CString)
    (h : (permute opts posix as).ok = false) (hok : (permute opts posix (as ++ [b])).ok = true) :
    (permute opts posix (as ++ [b])).operands = (permute opts posix as).operands := by
  fun_induction permute opts posix as with
  | case1 | case2 | case8 => cases h
  | case3 as c cs hc fs o hcl =>
    rw [List.cons_append, permute, hcl] at hok
    · cases hok
    · exact hc
  | case4 as c cs hc fs hcl ih =>
    rw [List.cons_append, permute, hcl] at hok ⊢
    · exact ih h hok
    · exact hc
    · exact hc
  | case5 c cs hc fs o hcl =>
    rw [List.cons_append, permute, hcl]
    · rfl
    · exact hc
  | case6 c cs hc fs o hcl v as ih =>
    rw [List.cons_append, permute, hcl] at hok ⊢
    · exact ih h hok
    · exact hc
    · exact hc
  | case7 as c cs hc fs o x xs hcl ih =>
    rw [List.cons_append, permute, hcl] at hok ⊢
    · exact ih h hok
    · exact hc
    · exact hc
  | case9 a as hposix hdd hopt ih =>
    rw [List.cons_append, permute, if_neg hposix] at hok ⊢
    · exact congrArg (List.cons a) (ih h hok)
    · exact hdd
    · exact hopt
    · exact hdd
    · exact hopt

end Getopt

end Autossh
