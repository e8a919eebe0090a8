import Autossh.Args.Recognise
import Mathlib.Data.List.Infix

/-!
# What `strip_arg` leaves of an element

`strip_arg(arg, ch, opts)` is there to take the flag `ch` out of an element with options.  An
option that takes a value ends the flags; from it on the element is the value and stays as it is.

* `stripped` : the element without its flags `ch`;
* `stripLoop_eq_iff` : the loop of `strip_arg` leaves the right text just if it never has to look
  at the character that follows one it has deleted (`Spaced`);
* `stripArg_strips_iff` : the whole function.
-/

namespace Autossh

namespace Args

open Getopt

/-! ### The flags of an element and the rest -/

section

variable (opts : CString) (ch : Char)

/-- The text before the first character that takes a value. -/
def flagPart (a : CString) : CString := a.takeWhile fun c => !takesValue opts c

/-- The first character that takes a value, and the text after it. -/
def valuePart (a : CString) : CString := a.dropWhile fun c => !takesValue opts c

/-- The text without the flags `ch`. -/
def withoutFlag (a : CString) : CString := (flagPart opts a).filter (· ≠ ch) ++ valuePart opts a

/-- The element without its flags `ch`, with nothing left of a lone `-`. -/
def stripped : CString → CString
  | '-' :: c :: cs =>
    if withoutFlag opts ch ('-' :: c :: cs) = ['-'] then []
    else withoutFlag opts ch ('-' :: c :: cs)
  | a => a

/-- No `ch` stands next to another one among the flags, and if one stands right before the
character that takes a value, then none among what would be flags in the text after it. -/
def Spaced (a : CString) : Prop :=
  ¬ [ch, ch] <:+: flagPart opts a ∧
    ((flagPart opts a).getLast? = some ch → ch ∉ flagPart opts (valuePart opts a).tail)

instance (a : CString) : Decidable (Spaced opts ch a) := by unfold Spaced; infer_instance

/-- The elements that `strip_arg` strips of `ch` as it should.  When `ch` is the dash itself, the
test for a lone dash at the end of the function finds any lone character. -/
def Strippable : CString → Prop
  | '-' :: c :: cs =>
    Spaced opts ch ('-' :: c :: cs) ∧
        (ch = '-' → takesValue opts '-' = true ∨ ¬ (cs = [] ∨ cs = ['-'])) ∨
      ch = '-' ∧ c = '-' ∧ (cs = [] ∨ cs = ['-'])
  | _ => True

instance (a : CString) : Decidable (Strippable opts ch a) := by
  unfold Strippable
  split <;> infer_instance

end

section

variable {opts : CString} {ch c : Char}

@[simp] theorem flagPart_nil : flagPart opts [] = [] := rfl

@[simp] theorem valuePart_nil : valuePart opts [] = [] := rfl

@[simp] theorem withoutFlag_nil : withoutFlag opts ch [] = [] := rfl

theorem flagPart_of_value (hc : takesValue opts c = true) (cs : CString) :
    flagPart opts (c :: cs) = [] := by
  simp [flagPart, hc]

theorem valuePart_of_value (hc : takesValue opts c = true) (cs : CString) :
    valuePart opts (c :: cs) = c :: cs := by
  simp [valuePart, hc]

theorem flagPart_of_flag (hc : takesValue opts c = false) (cs : CString) :
    flagPart opts (c :: cs) = c :: flagPart opts cs := by
  simp [flagPart, hc]

theorem valuePart_of_flag (hc : takesValue opts c = false) (cs : CString) :
    valuePart opts (c :: cs) = valuePart opts cs := by
  simp [valuePart, hc]

theorem withoutFlag_of_value (hc : takesValue opts c = true) (cs : CString) :
    withoutFlag opts ch (c :: cs) = c :: cs := by
  simp [withoutFlag, flagPart_of_value hc, valuePart_of_value hc]

theorem withoutFlag_self (hc : takesValue opts ch = false) (cs : CString) :
    withoutFlag opts ch (ch :: cs) = withoutFlag opts ch cs := by
  simp [withoutFlag, flagPart_of_flag hc, valuePart_of_flag hc]

theorem withoutFlag_of_ne (hc : takesValue opts c = false) (hne : c ≠ ch) (cs : CString) :
    withoutFlag opts ch (c :: cs) = c :: withoutFlag opts ch cs := by
  simp [withoutFlag, flagPart_of_flag hc, valuePart_of_flag hc, hne]

/-- A flag does not come first in the text without it. -/
theorem withoutFlag_ne_cons (hch : takesValue opts ch = false) (cs ds : CString) :
    withoutFlag opts ch cs ≠ ch :: ds := by
  induction cs with
  | nil => simp
  | cons c cs ih =>
    by_cases hc : takesValue opts c = true
    · rw [withoutFlag_of_value hc]
      intro h
      cases h
      rw [hch] at hc
      exact Bool.false_ne_true hc
    · rw [Bool.not_eq_true] at hc
      by_cases hne : c = ch
      · subst hne
        rw [withoutFlag_self hc]
        exact ih
      · rw [withoutFlag_of_ne hc hne]
        intro h
        exact hne (List.head_eq_of_cons_eq h)

theorem withoutFlag_eq_nil (hch : takesValue opts ch = false) {cs : CString} :
    withoutFlag opts ch cs = [] ↔ ∀ c ∈ cs, c = ch := by
  induction cs with
  | nil => simp
  | cons c cs ih =>
    by_cases hc : takesValue opts c = true
    · have hne : c ≠ ch := fun h => by simp [h, hch] at hc
      simp [withoutFlag_of_value hc, hne]
    · rw [Bool.not_eq_true] at hc
      by_cases hne : c = ch
      · subst hne
        rw [withoutFlag_self hc, ih, List.forall_mem_cons]
        exact ⟨fun h => ⟨rfl, h⟩, And.right⟩
      · simp [withoutFlag_of_ne hc hne, hne]

theorem spaced_of_value (hc : takesValue opts c = true) (cs : CString) :
    Spaced opts ch (c :: cs) := by
  simp [Spaced, flagPart_of_value hc]

/-- A character other than `ch` puts no two of them together. -/
theorem spaced_cons (hc : takesValue opts c = false) (hne : c ≠ ch) (cs : CString) :
    Spaced opts ch (c :: cs) ↔ Spaced opts ch cs := by
  have hpair : [ch, ch] <:+: c :: flagPart opts cs ↔ [ch, ch] <:+: flagPart opts cs := by
    rw [List.infix_cons_iff, List.cons_prefix_cons]
    exact ⟨fun h => h.resolve_left fun h => hne h.1.symm, .inr⟩
  have hlast : (c :: flagPart opts cs).getLast? = some ch ↔
      (flagPart opts cs).getLast? = some ch := by
    cases flagPart opts cs with
    | nil => simpa using hne
    | cons d ds => rw [List.getLast?_cons_cons]
  rw [Spaced, Spaced, flagPart_of_flag hc, valuePart_of_flag hc, hpair, hlast]

/-- One `ch` with another flag after it. -/
theorem spaced_self_cons (hch : takesValue opts ch = false) (hc : takesValue opts c = false)
    (hne : c ≠ ch) (cs : CString) : Spaced opts ch (ch :: c :: cs) ↔ Spaced opts ch cs := by
  have hpair : [ch, ch] <:+: ch :: c :: flagPart opts cs ↔
      [ch, ch] <:+: c :: flagPart opts cs := by
    rw [List.infix_cons_iff, List.cons_prefix_cons, List.cons_prefix_cons]
    exact ⟨fun h => h.resolve_left fun h => hne h.2.1.symm, .inr⟩
  have hstep : Spaced opts ch (ch :: c :: cs) ↔ Spaced opts ch (c :: cs) := by
    rw [Spaced, Spaced, flagPart_of_flag hch, flagPart_of_flag hc, valuePart_of_flag hch, hpair,
      List.getLast?_cons_cons]
  exact hstep.trans (spaced_cons hc hne cs)

/-! ### The loop -/

theorem stripLoop_of_value (hc : takesValue opts c = true) (cs : CString) :
    stripLoop opts ch (c :: cs) = (c :: cs, false) := by
  unfold stripLoop
  rw [if_pos hc]

theorem stripLoop_of_ne (hc : takesValue opts c = false) (hne : c ≠ ch) (cs : CString) :
    stripLoop opts ch (c :: cs) =
      (c :: (stripLoop opts ch cs).1, (stripLoop opts ch cs).2) := by
  rw [stripLoop.eq_def]
  simp [hc, hne]

/-- A deletion moves the next character to the cursor, which then goes past it. -/
theorem stripLoop_self (hch : takesValue opts ch = false) (d : Char) (ds : CString) :
    stripLoop opts ch (ch :: d :: ds) =
      (d :: (stripLoop opts ch ds).1, (stripLoop opts ch ds).2) := by
  rw [stripLoop, if_neg (by simp [hch]), if_pos rfl]

theorem stripLoop_lone (hch : takesValue opts ch = false) :
    stripLoop opts ch [ch] = ([], true) := by
  rw [stripLoop, if_neg (by simp [hch]), if_pos rfl]

theorem length_stripLoop_le (a : CString) : (stripLoop opts ch a).1.length ≤ a.length := by
  fun_induction stripLoop opts ch a with
  | case1 | case2 | case3 => simp
  | case4 d ds hc ih =>
    simp only [List.length_cons]
    omega
  | case5 c cs hc hne ih =>
    simp only [List.length_cons]
    omega

/-- The loop leaves a text as it is just if there is no `ch` among its flags. -/
theorem stripLoop_eq_self (a : CString) :
    (stripLoop opts ch a).1 = a ↔ ch ∉ flagPart opts a := by
  induction a with
  | nil => simp [stripLoop]
  | cons c cs ih =>
    by_cases hc : takesValue opts c = true
    · simp [stripLoop_of_value hc, flagPart_of_value hc]
    · rw [Bool.not_eq_true] at hc
      rw [flagPart_of_flag hc, List.mem_cons]
      by_cases hne : c = ch
      · subst hne
        -- the text is shorter than it was
        refine iff_of_false (fun h => ?_) (by simp)
        have hlen := congrArg List.length h
        cases cs with
        | nil => simp [stripLoop_lone hc] at hlen
        | cons d ds =>
          have hds := @length_stripLoop_le opts c ds
          rw [stripLoop_self hc, List.length_cons, List.length_cons, List.length_cons] at hlen
          omega
      · rw [stripLoop_of_ne hc hne, List.cons_inj_right, ih, not_or]
        exact ⟨fun h => ⟨Ne.symm hne, h⟩, And.right⟩

/-- **The loop leaves the text without its flags `ch`** just if they stand apart. -/
theorem stripLoop_eq_iff (a : CString) :
    (stripLoop opts ch a).1 = withoutFlag opts ch a ↔ Spaced opts ch a := by
  fun_induction stripLoop opts ch a with
  | case1 => simp [Spaced]
  | case2 c cs hc => simp [withoutFlag_of_value hc, spaced_of_value hc]
  | case3 hc =>
    rw [Bool.not_eq_true] at hc
    have hpair : ¬ [ch, ch] <:+: [ch] := fun h => by simpa using h.length_le
    simp [Spaced, withoutFlag_self hc, flagPart_of_flag hc, valuePart_of_flag hc, hpair]
  | case4 d ds hch ih =>
    rw [Bool.not_eq_true] at hch
    rw [withoutFlag_self hch]
    by_cases hd : takesValue opts d = true
    · -- the cursor goes past the character that should have ended the loop
      have hpair : ¬ [ch, ch] <:+: [ch] := fun h => by simpa using h.length_le
      rw [withoutFlag_of_value hd, List.cons_inj_right, stripLoop_eq_self, Spaced,
        flagPart_of_flag hch, flagPart_of_value hd, valuePart_of_flag hch, valuePart_of_value hd]
      exact ⟨fun h => ⟨hpair, fun _ => h⟩, fun h => h.2 rfl⟩
    · rw [Bool.not_eq_true] at hd
      by_cases hne : d = ch
      · -- the cursor goes past a second `ch`
        subst hne
        rw [withoutFlag_self hd]
        refine iff_of_false (withoutFlag_ne_cons hd ds _).symm fun h => h.1 ?_
        rw [flagPart_of_flag hd, flagPart_of_flag hd]
        exact (List.prefix_append [d, d] _).isInfix
      · rw [withoutFlag_of_ne hd hne, List.cons_inj_right, ih, spaced_self_cons hch hd hne]
  | case5 c cs hc hne ih =>
    rw [Bool.not_eq_true] at hc
    rw [withoutFlag_of_ne hc hne, List.cons_inj_right, ih, spaced_cons hc hne]

/-! ### The function -/

/-- A loop that leaves nothing has gone to the end. -/
theorem stripLoop_snd_of_fst_eq_nil {a : CString} (h : (stripLoop opts ch a).1 = []) :
    (stripLoop opts ch a).2 = true := by
  cases a with
  | nil => rfl
  | cons c cs =>
    obtain ⟨hc, rfl, rfl⟩ := stripLoop_fst_eq_nil.1 h
    rw [stripLoop_lone hc]

/-- With a flag other than the dash, only a lone dash is made empty. -/
theorem stripArg_eq_iff_of_ne (hdash : takesValue opts '-' = false) (hne : '-' ≠ ch)
    (cs : CString) : stripArg opts ch ('-' :: c :: cs) = stripped opts ch ('-' :: c :: cs) ↔
      Spaced opts ch ('-' :: c :: cs) := by
  rw [← stripLoop_eq_iff, stripArg, stripped, stripLoop_of_ne hdash hne,
    withoutFlag_of_ne hdash hne]
  simp only [List.length_cons, Nat.add_eq_right, List.length_eq_zero_iff, List.cons_inj_right]
  by_cases hleft : (stripLoop opts ch (c :: cs)).1 = []
  · rw [if_pos ⟨stripLoop_snd_of_fst_eq_nil hleft, hleft⟩, hleft]
    split_ifs with h
    · simp [h]
    · simpa using Ne.symm h
  · rw [if_neg fun h => hleft h.2]
    split_ifs with h
    · simpa [h] using hleft
    · rw [List.cons_inj_right]

/-- Without the dash, any lone character is made empty. -/
theorem stripArg_dash_eq_iff (hdash : takesValue opts '-' = false) (cs : CString) :
    stripArg opts '-' ('-' :: c :: cs) = stripped opts '-' ('-' :: c :: cs) ↔
      if cs = [] ∨ cs = ['-'] then c = '-' else Spaced opts '-' ('-' :: c :: cs) := by
  have hlone : withoutFlag opts '-' ('-' :: c :: cs) ≠ ['-'] := withoutFlag_ne_cons hdash _ _
  rw [← stripLoop_eq_iff, stripArg, stripped, if_neg hlone, stripLoop_self hdash,
    withoutFlag_self hdash]
  simp only [List.length_cons, Nat.add_eq_right, List.length_eq_zero_iff]
  by_cases hcs : cs = [] ∨ cs = ['-']
  · have hnil : (stripLoop opts '-' cs).1 = [] := by
      rcases hcs with rfl | rfl
      · rfl
      · rw [stripLoop_lone hdash]
    rw [if_pos ⟨stripLoop_snd_of_fst_eq_nil hnil, hnil⟩, if_pos hcs, eq_comm,
      withoutFlag_eq_nil hdash]
    rcases hcs with rfl | rfl <;> simp
  · have hleft : (stripLoop opts '-' cs).1 ≠ [] := by
      intro hnil
      cases cs with
      | nil => exact hcs (.inl rfl)
      | cons d ds =>
        obtain ⟨-, rfl, rfl⟩ := stripLoop_fst_eq_nil.1 hnil
        exact hcs (.inr rfl)
    rw [if_neg fun h => hleft h.2, if_neg hcs]

/-- **`strip_arg` takes the flag `ch` out of the element**, and leaves the rest of it as it is,
just if the element is `Strippable`. -/
theorem stripArg_strips_iff (opts : CString) (ch : Char) (a : CString) :
    stripArg opts ch a = stripped opts ch a ↔ Strippable opts ch a := by
  unfold Strippable
  split
  · next c cs =>
    by_cases hdash : takesValue opts '-' = true
    · -- the loop ends at the dash
      have hlong : '-' :: c :: cs ≠ ['-'] := by simp
      refine iff_of_true ?_ (.inl ⟨spaced_of_value hdash _, fun _ => .inl hdash⟩)
      rw [stripArg, stripped, stripLoop_of_value hdash, withoutFlag_of_value hdash, if_neg hlong]
      simp
    · rw [Bool.not_eq_true] at hdash
      by_cases hne : '-' = ch
      · subst hne
        rw [stripArg_dash_eq_iff hdash, hdash]
        split_ifs with hcs <;> simp [hcs]
      · rw [stripArg_eq_iff_of_ne hdash hne]
        simp [Ne.symm hne]
  · next hshort =>
    refine iff_of_true ?_ trivial
    rw [stripArg, stripped] <;> exact hshort

/-- The second of two adjacent flags stays. -/
theorem stripArg_skips_second :
    stripArg optionString 'f' "-ff".toList = "-f".toList ∧
      stripped optionString 'f' "-ff".toList = [] := by
  decide +kernel

-- The option after a deleted flag does not end the loop either: its value is stripped.
example : stripArg optionString 'f' "-fLfoo:80".toList = "-Loo:80".toList ∧
    stripped optionString 'f' "-fLfoo:80".toList = "-Lfoo:80".toList := by decide +kernel

end

end Args

end Autossh
