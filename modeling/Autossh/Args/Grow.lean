import Autossh.Args.Basic
import Autossh.Posix.Memory
import Mathlib.Data.List.ReduceOption

/-!
# The storage of `add_arg`

`addArg` is about lists.  The source keeps the array `newav`, the number `newac` of its elements and
the number `NEWAV_CAP` of its slots in three globals; one slot is for the null pointer at the end,
and when there is no other one left the array is reallocated at twice the size.

* `Slot`, `Av`, `addArgAt`, `addArgs` : the function as the source has it, with every write checked.
  The allocations succeed, and what a string points to is the string itself;
* `Stored` : what the array is to hold;
* `addArgs_stored_iff` : it does as long as `newac`, which is a `c_int`, can count the strings.
-/

namespace Autossh

namespace Args

open Memory

/-- A slot of `newav`. -/
inductive Slot
  | null
  | str (s : CString)
  /-- What `realloc` leaves in a slot that is new. -/
  | unset
  deriving DecidableEq, Repr

/-- `START_AV_SZ`. -/
def startAvSz : ℕ := 16

/-- `newav`, `newac` and `NEWAV_CAP`. -/
structure Av where
  newav : Option (List Slot)
  newac : ℤ
  cap : ℕ
  deriving DecidableEq, Repr

/-- The initial state. -/
def Av.init : Av := ⟨none, 0, startAvSz⟩

/-- `realloc`. -/
def realloc (slots : List Slot) (n : ℕ) : List Slot :=
  slots.take n ++ List.replicate (n - slots.length) .unset

/-- The first half of `add_arg`: the array and its capacity once there is room for a string. -/
def Av.room (v : Av) : List Slot × ℕ :=
  match v.newav with
  | none => (List.replicate startAvSz .null, startAvSz)
  | some slots =>
    if v.cap - 1 ≤ usizeCast v.newac then (realloc slots (v.cap * 2), v.cap * 2)
    else (slots, v.cap)

/-- The second half: the string and the null pointer after it. -/
def append (s : CString) (newac : ℤ) (room : List Slot × ℕ) : Option Av := do
  let slots ← store room.1 (usizeCast newac) (.str s)
  let newac := i32Wrap (newac + 1)
  let slots ← store slots (usizeCast newac) .null
  some ⟨some slots, newac, room.2⟩

/-- `add_arg`; `none` for the argument is a null pointer. -/
def addArgAt (v : Av) (arg : Option CString) : Option Av :=
  match arg with
  | none => some v
  | some s => if s = [] then some v else append s v.newac v.room

/-- A sequence of calls. -/
def addArgs (args : List (Option CString)) : Option Av := args.foldlM addArgAt .init

/-- The non-empty strings among the arguments. -/
def added (args : List (Option CString)) : List CString := args.reduceOption.filter (· ≠ [])

/-- `newav` holds the strings, in order and with a null pointer after them, and `newac` and
`NEWAV_CAP` are right. -/
structure Stored (ss : List CString) (v : Av) : Prop where
  null : ss = [] → v.newav = none
  holds : ss ≠ [] → ∃ tl, v.newav = some (ss.map .str ++ .null :: tl) ∧
    (ss.map Slot.str ++ .null :: tl).length = v.cap
  newac : v.newac = ss.length
  cap : v.newac + 1 ≤ v.cap

/-- `Stored`, and a bound on the capacity. -/
structure Grown (ss : List CString) (v : Av) : Prop extends Stored ss v where
  size : v.cap ≤ 2 * ss.length + startAvSz

variable {ss : List CString} {s : CString} {v : Av} {args : List (Option CString)}

theorem grown_init : Grown [] .init where
  null _ := rfl
  holds h := absurd rfl h
  newac := rfl
  cap := by decide
  size := by decide

/-! ### One call -/

theorem realloc_of_le {slots : List Slot} {n : ℕ} (h : slots.length ≤ n) :
    realloc slots n = slots ++ List.replicate (n - slots.length) .unset := by
  rw [realloc, List.take_of_length_le h]

/-- There is room for a string and the null pointer. -/
theorem Grown.room (hv : Grown ss v) (hlt : ss.length < 2 ^ 31) :
    ∃ a b tl, v.room = (ss.map .str ++ a :: b :: tl, ss.length + (tl.length + 2)) ∧
      ss.length + (tl.length + 2) ≤ 2 * (ss.length + 1) + startAvSz := by
  have hac : usizeCast v.newac = ss.length := by
    rw [hv.newac]
    exact usizeCast_natCast (by omega)
  have hcap := hv.cap
  have hsize := hv.size
  rw [hv.newac] at hcap
  by_cases hss : ss = []
  · subst hss
    refine ⟨.null, .null, List.replicate 14 .null, ?_, by decide⟩
    rw [Av.room, hv.null rfl]
    rfl
  · obtain ⟨tl, hav, hlen⟩ := hv.holds hss
    rw [List.length_append, List.length_map, List.length_cons] at hlen
    rw [Av.room, hav, hac]
    dsimp only
    by_cases hfull : v.cap - 1 ≤ ss.length
    · -- only the null pointer's slot is left, and the array doubles
      have htl : tl = [] := List.eq_nil_of_length_eq_zero (by omega)
      subst htl
      rw [List.length_nil] at hlen
      obtain ⟨n, hn⟩ : ∃ n, v.cap * 2 - v.cap = n + 1 := ⟨v.cap - 1, by omega⟩
      refine ⟨.null, .unset, List.replicate n .unset, ?_, ?_⟩
      · have hslots : (ss.map Slot.str ++ [Slot.null]).length = v.cap := by simpa using hlen
        rw [if_pos hfull, realloc_of_le (by omega), hslots, hn, List.replicate_succ,
          List.append_assoc, List.length_replicate]
        congr 1
        omega
      · rw [List.length_replicate]
        omega
    · obtain ⟨b, tl, rfl⟩ := List.exists_cons_of_length_pos (show 0 < tl.length by omega)
      rw [List.length_cons] at hlen
      refine ⟨.null, b, tl, ?_, by omega⟩
      rw [if_neg hfull, ← hlen]

theorem append_of_lt (a b : Slot) (tl : List Slot) (cap : ℕ) (hlt : ss.length + 1 < 2 ^ 31) :
    append s ss.length (ss.map .str ++ a :: b :: tl, cap) =
      some ⟨some ((ss ++ [s]).map .str ++ .null :: tl), (ss ++ [s]).length, cap⟩ := by
  have hac : i32Wrap ((ss.length : ℤ) + 1) = ((ss ++ [s]).length : ℕ) := by
    rw [i32Wrap_of_bounds (by omega) (by omega), List.length_append, List.length_singleton]
    rfl
  have hfst := store_append (ss.map Slot.str) (b :: tl) a (.str s)
  have hsnd := store_append ((ss ++ [s]).map Slot.str) tl b .null
  rw [List.length_map] at hfst hsnd
  rw [List.map_append, List.append_assoc] at hsnd
  have hlen : (ss ++ [s]).length < 2 ^ 64 := by
    rw [List.length_append, List.length_singleton]
    omega
  simp only [append, usizeCast_natCast (show ss.length < 2 ^ 64 by omega), hfst, hac,
    usizeCast_natCast hlen, Option.bind_eq_bind, Option.bind_some]
  rw [show ss.map Slot.str ++ .str s :: b :: tl =
    ss.map Slot.str ++ ([s].map Slot.str ++ b :: tl) from rfl, hsnd, Option.bind_some,
    List.map_append]

theorem addArgAt_of_ne (v : Av) (hs : s ≠ []) :
    addArgAt v (some s) = append s v.newac v.room := if_neg hs

/-- **One more string.** -/
theorem Grown.add (hv : Grown ss v) (hs : s ≠ []) (hlt : ss.length + 1 < 2 ^ 31) :
    ∃ v', addArgAt v (some s) = some v' ∧ Grown (ss ++ [s]) v' := by
  obtain ⟨a, b, tl, hroom, hsize⟩ := hv.room (by omega)
  have hlen : (ss ++ [s]).length = ss.length + 1 := by simp
  have hadd : addArgAt v (some s) = some ⟨some ((ss ++ [s]).map .str ++ .null :: tl),
      (ss ++ [s]).length, ss.length + (tl.length + 2)⟩ := by
    rw [addArgAt_of_ne v hs, hroom, hv.newac]
    exact append_of_lt a b tl _ hlt
  refine ⟨_, hadd, ⟨fun h => absurd h (by simp), fun _ => ⟨tl, rfl, ?_⟩, rfl, ?_⟩, ?_⟩
  · rw [List.length_append, List.length_map, hlen, List.length_cons]
    dsimp only
    omega
  · dsimp only
    omega
  · rw [hlen]
    exact hsize

/-- The `2 ^ 31`-th string: `newac` becomes negative, and the null pointer would go to a slot far
behind the last one. -/
theorem Grown.add_overflow (hv : Grown ss v) (hs : s ≠ []) (hlt : ss.length + 1 = 2 ^ 31) :
    addArgAt v (some s) = none := by
  obtain ⟨a, b, tl, hroom, hsize⟩ := hv.room (by omega)
  have hac : usizeCast (i32Wrap ((ss.length : ℤ) + 1)) = 2 ^ 64 - 2 ^ 31 := by
    rw [show (ss.length : ℤ) + 1 = 2 ^ 31 by exact_mod_cast hlt]
    decide
  have hfst := store_append (ss.map Slot.str) (b :: tl) a (.str s)
  rw [List.length_map] at hfst
  rw [addArgAt_of_ne v hs, hroom, hv.newac]
  simp only [append, usizeCast_natCast (show ss.length < 2 ^ 64 by omega), hfst, hac,
    Option.bind_eq_bind, Option.bind_some]
  rw [store, if_neg]
  · rfl
  · rw [List.length_append, List.length_map, List.length_cons, List.length_cons]
    rw [startAvSz] at hsize
    omega

/-! ### A sequence of calls -/

theorem added_concat (args : List (Option CString)) (arg : Option CString) :
    added (args ++ [arg]) = added args ++ added [arg] := by
  simp only [added, List.reduceOption_append, List.filter_append]

theorem addArgs_concat (args : List (Option CString)) (arg : Option CString) :
    addArgs (args ++ [arg]) = (addArgs args).bind fun v => addArgAt v arg := by
  rw [addArgs, List.foldlM_append]
  simp only [List.foldlM_cons, List.foldlM_nil, bind_pure]
  rfl

/-- A call either adds a string or does nothing. -/
theorem arg_cases (arg : Option CString) :
    (∃ s, s ≠ [] ∧ arg = some s ∧ added [arg] = [s]) ∨
      added [arg] = [] ∧ ∀ v, addArgAt v arg = some v := by
  cases arg with
  | none => exact .inr ⟨rfl, fun v => rfl⟩
  | some s =>
    by_cases hs : s = []
    · subst hs
      exact .inr ⟨rfl, fun v => rfl⟩
    · exact .inl ⟨s, hs, rfl, by simp [added, List.reduceOption_cons_of_some, hs]⟩

/-- **Every sequence of calls that `newac` can count.** -/
theorem addArgs_grown (hlt : (added args).length < 2 ^ 31) :
    ∃ v, addArgs args = some v ∧ Grown (added args) v := by
  induction args using List.reverseRecOn with
  | nil => exact ⟨.init, rfl, grown_init⟩
  | append_singleton args arg ih =>
    rw [added_concat, List.length_append] at hlt
    obtain ⟨v, hrun, hv⟩ := ih (by omega)
    rw [addArgs_concat, hrun, Option.bind_some, added_concat]
    obtain ⟨s, hs, rfl, hadd⟩ | ⟨hadd, hskip⟩ := arg_cases arg
    · rw [hadd] at hlt ⊢
      exact hv.add hs hlt
    · rw [hadd, List.append_nil]
      exact ⟨v, hskip v, hv⟩

theorem append_newac_lt {n : ℤ} {room : List Slot × ℕ} (h : append s n room = some v) :
    v.newac < 2 ^ 31 := by
  simp only [append, Option.bind_eq_bind, Option.bind_eq_some_iff, Option.some.injEq] at h
  obtain ⟨_, _, _, _, rfl⟩ := h
  exact (i32Wrap_bounds _).2

/-- `newac` is a `c_int`. -/
theorem addArgs_newac_lt (h : addArgs args = some v) : v.newac < 2 ^ 31 := by
  induction args using List.reverseRecOn generalizing v with
  | nil =>
    obtain rfl : Av.init = v := Option.some.inj h
    decide
  | append_singleton args arg ih =>
    rw [addArgs_concat, Option.bind_eq_some_iff] at h
    obtain ⟨v₀, hrun, hcall⟩ := h
    obtain ⟨s, hs, rfl, -⟩ | ⟨-, hskip⟩ := arg_cases arg
    · rw [addArgAt_of_ne v₀ hs] at hcall
      exact append_newac_lt hcall
    · obtain rfl : v₀ = v := Option.some.inj ((hskip v₀).symm.trans hcall)
      exact ih hrun

/-- **The array holds the strings after every call of a sequence exactly if they are fewer than
`2 ^ 31`**: `newac` is a `c_int` and wraps when it counts one more. -/
theorem addArgs_stored_iff (args : List (Option CString)) :
    (∀ bs, bs <+: args → ∃ v, addArgs bs = some v ∧ Stored (added bs) v) ↔
      (added args).length < 2 ^ 31 := by
  constructor
  · intro h
    obtain ⟨v, hrun, hv⟩ := h args List.prefix_rfl
    have hac := addArgs_newac_lt hrun
    rw [hv.newac] at hac
    exact_mod_cast hac
  · rintro hlt bs ⟨cs, rfl⟩
    have hle : (added bs).length ≤ (added (bs ++ cs)).length := by
      rw [added, added, List.reduceOption_append, List.filter_append, List.length_append]
      exact Nat.le_add_right _ _
    obtain ⟨v, hrun, hv⟩ := addArgs_grown (lt_of_le_of_lt hle hlt)
    exact ⟨v, hrun, hv.toStored⟩

theorem added_replicate (hs : s ≠ []) (n : ℕ) :
    added (List.replicate n (some s)) = List.replicate n s := by
  induction n with
  | zero => rfl
  | succ n ih =>
    rw [List.replicate_succ, List.replicate_succ, ← ih]
    simp [added, List.reduceOption_cons_of_some, hs]

/-- The last of `2 ^ 31` calls with the same string writes outside of the array. -/
theorem addArgs_replicate (hs : s ≠ []) {n : ℕ} (hn : n + 1 = 2 ^ 31) :
    addArgs (List.replicate (n + 1) (some s)) = none := by
  have hlen : (added (List.replicate n (some s))).length = n := by
    rw [added_replicate hs, List.length_replicate]
  have hlt : (added (List.replicate n (some s))).length < 2 ^ 31 := by omega
  obtain ⟨v, hrun, hv⟩ := addArgs_grown hlt
  rw [List.replicate_succ', addArgs_concat, hrun, Option.bind_some]
  exact hv.add_overflow hs (by omega)

/-- `x` is added `2 ^ 31` times. -/
theorem addArgs_overflow : addArgs (List.replicate (2 ^ 31) (some ['x'])) = none :=
  addArgs_replicate (by decide) (show 2 ^ 31 - 1 + 1 = 2 ^ 31 from rfl)

/-! ### The list and the array -/

theorem added_items (items : List Item) :
    added (items.map fun i => some i.text) = (items.flatMap addArg).map Item.text := by
  induction items with
  | nil => rfl
  | cons i items ih =>
    rw [List.map_cons, List.flatMap_cons, List.map_append, ← ih]
    by_cases hi : i.text = [] <;> simp [added, addArg, List.reduceOption_cons_of_some, hi]

/-- The array holds the list that `addArg` makes. -/
theorem addArgs_items {items : List Item} (hlt : (items.flatMap addArg).length < 2 ^ 31) :
    ∃ v, addArgs (items.map fun i => some i.text) = some v ∧
      Stored ((items.flatMap addArg).map Item.text) v := by
  rw [← added_items]
  have hlt' : (added (items.map fun i => some i.text)).length < 2 ^ 31 := by
    rw [added_items, List.length_map]
    exact hlt
  obtain ⟨v, hrun, hv⟩ := addArgs_grown hlt'
  exact ⟨v, hrun, hv.toStored⟩

end Args

end Autossh
