import Autossh.Args.Strip
import Autossh.Posix.Memory

/-!
# `strip_arg` in the buffer of its argument

`stripArg` is about texts.  The source works in place: it moves the bytes after a deleted one to
the left, the terminator among them, with a length that counts from the first state of the buffer.
The cursor goes on by one after a deletion, so it steps over the terminator when the last character
is deleted.  What keeps it in the buffer is that every move doubles the last byte: the text is
followed by one zero more than there were deletions (`stripLoopAt_spec`).

* `takesValueAt`, `slide`, `stripLoopAt`, `stripArgAt` : the function as the source has it, with
  every access checked;
* `stripArgAt_in_bounds` : it ends without an access out of bounds and leaves `stripArg`.
-/

namespace Autossh

namespace Args

open Getopt Memory

/-- The terminator. -/
def nul : Char := Char.ofNat 0

variable (opts : List Char) (ch : Char)

/-- `!o.is_null() && *o.add(1) == ':'` for `o = strchr(opts, c)`. -/
def takesValueAt (c : Char) : Option Bool := do
  match ← strchr nul c opts with
  | none => some false
  | some o => (load opts (o + 1)).map fun d => decide (d = ':')

/-- `if *f == ch { memmove(f, f + 1, len) }`, where `c` is the byte at `f`. -/
def slide (m : List Char) (f len : ℕ) (c : Char) : Option (List Char) :=
  if c = ch then memmove m f (f + 1) len else some m

/-- The loop of `strip_arg`, with fuel for the rounds: the buffer, and whether the loop went on to
a terminator. -/
def stripLoopAt : ℕ → List Char → ℕ → ℕ → Option (List Char × Bool)
  | 0, _, _, _ => none
  | fuel + 1, m, f, len => do
    let c ← load m f
    if c = nul then some (m, true)
    else
      let value ← takesValueAt opts c
      if value then some (m, false)
      else
        let m ← slide ch m f len c
        stripLoopAt fuel m (f + 1) (len - 1)

/-- `if *arg.add(1) == 0 { *arg = 0 }` -/
def clearLone (m : List Char) : Option (List Char) := do
  let c ← load m 1
  if c = nul then store m 0 nul else some m

/-- `strip_arg` on a buffer.  The second byte is read only after a dash. -/
def stripArgAt (m : List Char) : Option (List Char) := do
  let c ← load m 0
  if c ≠ '-' then some m
  else
    let d ← load m 1
    if d = nul then some m
    else
      let len ← strlen nul m
      let r ← stripLoopAt opts ch m.length m 0 len
      if r.2 then clearLone r.1 else some r.1

variable {opts ch}

theorem takesValueAt_eq {c : Char} (hc : c ≠ nul) (hopts : nul ∉ opts) :
    takesValueAt (opts ++ [nul]) c = some (takesValue opts c) := by
  induction opts with
  | nil => simp [takesValueAt, strchr, hc.symm, takesValue]
  | cons d opts ih =>
    rw [List.mem_cons, not_or] at hopts
    by_cases hd : d = c
    · -- the option is here; the byte after it may be the terminator
      subst hd
      cases opts with
      | nil =>
        have hcolon : nul ≠ ':' := by decide
        simp [takesValueAt, strchr, load, takesValue, hcolon]
      | cons e opts =>
        by_cases he : e = ':' <;> simp [takesValueAt, strchr, load, takesValue, he]
    · have ih := ih hopts.2
      have hval : takesValue (d :: opts) c = takesValue opts c := by
        simp [takesValue, hd]
      rw [hval, ← ih, takesValueAt, takesValueAt, List.cons_append, strchr, if_neg hd,
        if_neg (Ne.symm hopts.1)]
      cases hs : strchr nul c (opts ++ [nul]) with
      | none => rfl
      | some o => cases o <;> rfl

/-- `slide` at a byte to delete: the text moves up, and the zeros after it become one more. -/
theorem slide_self (xs cs : List Char) (k : ℕ) :
    slide ch (xs ++ ch :: (cs ++ List.replicate (k + 1) nul)) xs.length (cs.length + (k + 1)) ch =
      some (xs ++ (cs ++ List.replicate (k + 2) nul)) := by
  have hlen : cs.length + (k + 1) = (cs ++ List.replicate (k + 1) nul).length := by simp
  rw [slide, if_pos rfl, hlen, memmove_shift]
  congr 2
  rw [List.append_assoc]
  congr 1
  have hdrop : (ch :: (cs ++ List.replicate (k + 1) nul)).drop
      (cs ++ List.replicate (k + 1) nul).length = [nul] := by
    rw [List.replicate_succ', ← List.append_assoc, ← List.cons_append]
    exact List.drop_left' (by simp [Nat.add_assoc])
  rw [hdrop, ← List.replicate_succ']

variable (opts ch) in
/-- The loop ends at a zero. -/
theorem stripLoopAt_nul (fuel len k : ℕ) (xs : List Char) :
    stripLoopAt opts ch (fuel + 1) (xs ++ List.replicate (k + 1) nul) xs.length len =
      some (xs ++ List.replicate (k + 1) nul, true) := by
  rw [List.replicate_succ, stripLoopAt, load_append]
  rfl

/-- One round at the byte `c`. -/
theorem stripLoopAt_cons (hopts : nul ∉ opts) {c : Char} (hc : c ≠ nul) (fuel len : ℕ)
    (xs ys : List Char) :
    stripLoopAt (opts ++ [nul]) ch (fuel + 1) (xs ++ c :: ys) xs.length len =
      if takesValue opts c then some (xs ++ c :: ys, false)
      else (slide ch (xs ++ c :: ys) xs.length len c).bind fun m =>
        stripLoopAt (opts ++ [nul]) ch fuel m (xs.length + 1) (len - 1) := by
  rw [stripLoopAt, load_append, Option.bind_eq_bind, Option.bind_some, if_neg hc,
    takesValueAt_eq hc hopts]
  rfl

/-- What the loop leaves behind a byte that stays is what it leaves, with that byte. -/
theorem stripLoopAt_next {fuel k : ℕ} {xs ds : List Char} {d : Char} {r : List Char × Bool}
    (h : ∃ k', stripLoopAt opts ch fuel (xs ++ [d] ++ (ds ++ List.replicate (k + 1) nul))
        (xs ++ [d]).length (ds.length + k) =
      some (xs ++ [d] ++ (r.1 ++ List.replicate (k' + 1) nul), r.2) ∧
      r.1.length + k' = ds.length + k) :
    ∃ k', stripLoopAt opts ch fuel (xs ++ (d :: ds ++ List.replicate (k + 1) nul)) (xs.length + 1)
        ((d :: ds).length + k - 1) =
      some (xs ++ (d :: r.1 ++ List.replicate (k' + 1) nul), r.2) ∧
      (d :: r.1).length + k' = (d :: ds).length + k := by
  obtain ⟨k', hloop, hk⟩ := h
  refine ⟨k', ?_, ?_⟩
  · rw [List.append_assoc, List.append_assoc, List.length_append] at hloop
    rw [List.length_cons, Nat.add_right_comm, Nat.add_sub_cancel]
    exact hloop
  · rw [List.length_cons, List.length_cons]
    omega

variable (ch) in
/-- **The loop in the buffer**: it leaves the text of `stripLoop`, with a zero more for every byte
that is gone. -/
theorem stripLoopAt_spec (hopts : nul ∉ opts) (fuel : ℕ) (xs a : List Char) (k : ℕ)
    (ha : nul ∉ a) (hfuel : a.length < fuel) :
    ∃ k', stripLoopAt (opts ++ [nul]) ch fuel (xs ++ (a ++ List.replicate (k + 1) nul)) xs.length
        (a.length + k) =
      some (xs ++ ((stripLoop opts ch a).1 ++ List.replicate (k' + 1) nul),
        (stripLoop opts ch a).2) ∧
      (stripLoop opts ch a).1.length + k' = a.length + k := by
  induction fuel generalizing xs a k with
  | zero => exact absurd hfuel (Nat.not_lt_zero _)
  | succ fuel ih =>
    cases a with
    | nil => exact ⟨k, stripLoopAt_nul _ _ fuel _ k xs, rfl⟩
    | cons c cs =>
      rw [List.mem_cons, not_or] at ha
      rw [List.length_cons] at hfuel
      rw [List.cons_append, stripLoopAt_cons hopts (Ne.symm ha.1)]
      cases hval : takesValue opts c with
      | true =>
        rw [stripLoop_of_value hval]
        exact ⟨k, rfl, rfl⟩
      | false =>
        rw [if_neg Bool.false_ne_true]
        by_cases hdel : c = ch
        · subst hdel
          have hlen : (c :: cs).length + k = cs.length + (k + 1) := by
            rw [List.length_cons]
            omega
          rw [hlen, slide_self, Option.bind_some]
          cases cs with
          | nil =>
            -- the cursor steps over the terminator, onto the next zero
            obtain ⟨n, rfl⟩ : ∃ n, fuel = n + 1 := Nat.exists_eq_succ_of_ne_zero (by omega)
            rw [stripLoop_lone hval]
            refine ⟨k + 1, ?_, rfl⟩
            have hend := stripLoopAt_nul (opts ++ [nul]) c n (0 + (k + 1) - 1) k (xs ++ [nul])
            rw [List.append_assoc, List.length_append] at hend
            exact hend
          | cons d ds =>
            rw [List.mem_cons, not_or] at ha
            rw [List.length_cons] at hfuel
            rw [stripLoop_self hval]
            exact stripLoopAt_next (ih (xs ++ [d]) ds (k + 1) ha.2.2 (by omega))
        · rw [stripLoop_of_ne hval hdel, slide, if_neg hdel, Option.bind_some]
          exact stripLoopAt_next (ih (xs ++ [c]) cs k ha.2 (by omega))

theorem stripLoop_sublist (a : CString) : (stripLoop opts ch a).1.Sublist a := by
  fun_induction stripLoop opts ch a with
  | case1 => exact .slnil
  | case2 => exact .refl _
  | case3 => exact List.nil_sublist _
  | case4 d _ _ ih => exact (ih.cons_cons d).cons _
  | case5 c _ _ _ ih => exact ih.cons_cons c

theorem stripArg_sublist (a : CString) : (stripArg opts ch a).Sublist a := by
  unfold stripArg
  split
  · dsimp only
    split_ifs
    · exact List.nil_sublist _
    · exact stripLoop_sublist _
  · exact .refl _

/-- A lone character goes. -/
theorem clearLone_append {t : List Char} (ht : t ≠ []) (hnul : nul ∉ t) (k : ℕ) :
    clearLone (t ++ List.replicate (k + 1) nul) = some (if t.length = 1 then
      List.replicate (k + 2) nul else t ++ List.replicate (k + 1) nul) := by
  match t, ht with
  | [c], _ => rfl
  | c :: d :: t, _ =>
    have hd : d ≠ nul := fun h => hnul (by simp [h])
    simp [clearLone, load, hd]

variable (ch) in
/-- `strip_arg` on an element with options, by what its loop leaves. -/
theorem stripArgAt_dash {d : Char} {cs m : List Char} {toEnd : Bool} (hd : d ≠ nul)
    (ha : nul ∉ '-' :: d :: cs)
    (hloop : stripLoopAt opts ch ('-' :: d :: cs ++ [nul]).length ('-' :: d :: cs ++ [nul]) 0
      ('-' :: d :: cs).length = some (m, toEnd)) :
    stripArgAt opts ch ('-' :: d :: cs ++ [nul]) = if toEnd then clearLone m else some m := by
  have hfst : load ('-' :: d :: cs ++ [nul]) 0 = some '-' := rfl
  have hsnd : load ('-' :: d :: cs ++ [nul]) 1 = some d := rfl
  simp only [stripArgAt, hfst, hsnd, strlen_append ha [], hloop, Option.bind_eq_bind,
    Option.bind_some, hd, not_true_eq_false, if_false, ne_eq]

variable (ch) in
/-- The buffer that `strip_arg` leaves: `stripArg`, and zeros. -/
theorem stripArgAt_eq (hopts : nul ∉ opts) {a : List Char} (ha : nul ∉ a) :
    ∃ k, stripArgAt (opts ++ [nul]) ch (a ++ [nul]) =
        some (stripArg opts ch a ++ List.replicate (k + 1) nul) ∧
      (stripArg opts ch a).length + k = a.length := by
  match a with
  | [] => exact ⟨0, rfl, rfl⟩
  | [c] =>
    refine ⟨0, ?_, by simp [stripArg]⟩
    by_cases hc : c = '-' <;> simp [stripArgAt, stripArg, load, hc]
  | c :: d :: cs =>
    by_cases hc : c = '-'
    · subst hc
      have hd : d ≠ nul := fun h => ha (by simp [h])
      set r := stripLoop opts ch ('-' :: d :: cs) with hr
      have hne : r.1 ≠ [] := fun h => by simpa using (stripLoop_fst_eq_nil.1 h)
      have hnul : nul ∉ r.1 := fun h => ha ((stripLoop_sublist _).mem h)
      obtain ⟨k, hloop, hk⟩ := stripLoopAt_spec ch hopts
        ('-' :: d :: cs ++ [nul]).length [] ('-' :: d :: cs) 0 ha (by simp)
      rw [← hr, List.nil_append, List.nil_append] at hloop
      rw [← hr] at hk
      have hrun := stripArgAt_dash ch hd ha hloop
      have harg : stripArg opts ch ('-' :: d :: cs) =
          if r.2 = true ∧ r.1.length = 1 then [] else r.1 := rfl
      rw [hrun, harg]
      cases hend : r.2 with
      | false => exact ⟨k, by simp, by simpa using hk⟩
      | true =>
        rw [if_pos rfl, clearLone_append hne hnul]
        by_cases hone : r.1.length = 1
        · refine ⟨k + 1, by simp [hone], ?_⟩
          rw [if_pos ⟨rfl, hone⟩, List.length_nil]
          omega
        · refine ⟨k, by simp [hone], ?_⟩
          rw [if_neg fun h => hone h.2]
          exact hk
    · refine ⟨0, ?_, ?_⟩
      · simp [stripArgAt, stripArg, load, hc]
      · simp [stripArg, hc]

/-- **`strip_arg` stays in the buffer of its argument**: in a buffer that ends with the terminator
it comes to an end, every byte it reads, writes or moves is in the buffer, and the text it leaves
there is `stripArg`. -/
theorem stripArgAt_in_bounds (opts a : CString) (ch : Char) (hopts : nul ∉ opts) (ha : nul ∉ a) :
    ∃ m, stripArgAt (opts ++ [nul]) ch (a ++ [nul]) = some m ∧ m.length = a.length + 1 ∧
      m.takeWhile (· ≠ nul) = stripArg opts ch a := by
  obtain ⟨k, hrun, hk⟩ := stripArgAt_eq ch hopts ha
  refine ⟨_, hrun, ?_, ?_⟩
  · rw [List.length_append, List.length_replicate]
    omega
  · have hclean : ∀ c ∈ stripArg opts ch a, decide (c ≠ nul) = true := by
      intro c hc
      refine decide_eq_true fun h => ha ?_
      rw [← h]
      exact (stripArg_sublist a).mem hc
    rw [List.takeWhile_append_of_pos hclean, List.replicate_succ]
    simp

/-- Two flags are deleted and the cursor goes over the terminator. -/
theorem stripArgAt_in_bounds_fNf :
    nul ∉ "-fNf".toList ∧ ∃ m, stripArgAt (optionString ++ [nul]) 'f' ("-fNf".toList ++ [nul]) =
      some m ∧ m.length = "-fNf".toList.length + 1 ∧
      m.takeWhile (· ≠ nul) = stripArg optionString 'f' "-fNf".toList :=
  ⟨by decide, stripArgAt_in_bounds optionString "-fNf".toList 'f' (by decide +kernel) (by decide)⟩

end Args

end Autossh
