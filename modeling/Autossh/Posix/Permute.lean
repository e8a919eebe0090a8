import Autossh.Posix.Getopt

/-!
# `getopt` on an argument vector as it is given

The GNU `getopt` goes past an operand and looks for options behind it; in the end it has moved the
operands behind the options.  With `POSIXLY_CORRECT` set it stops at the first operand.

* `permute` scans a vector.  What it finds are the options, in order, and the operands;
* `getopt_left` : scanning the vector that it leaves behind finds the same options, in front of the
  same operands.
-/

namespace Autossh

namespace Getopt

/-- What the scan of a vector finds. -/
structure Parsed where
  groups : List Group
  operands : List CString
  /-- A `--` ended the options. -/
  stopped : Bool
  /-- There was no unknown option and no missing value. -/
  ok : Bool
  deriving DecidableEq, Repr

namespace Parsed

/-- One more group in front. -/
def cons (g : Group) (p : Parsed) : Parsed := { p with groups := g :: p.groups }

/-- One more operand in front. -/
def operand (a : CString) (p : Parsed) : Parsed := { p with operands := a :: p.operands }

/-- The operands with the `--` in front of them. -/
def rest (p : Parsed) : List CString := if p.stopped then ['-', '-'] :: p.operands else p.operands

/-- The vector that `getopt` leaves behind. -/
def left (p : Parsed) : List CString := p.groups.flatMap Group.elems ++ p.rest

/-- Nothing after it is taken for an option. -/
def ended (posix : Bool) (p : Parsed) : Bool := p.stopped || (posix && p.operands ≠ [])

/-- The scan goes on with `q`. -/
def append (p q : Parsed) : Parsed :=
  ⟨p.groups ++ q.groups, p.operands ++ q.operands, q.stopped, q.ok⟩

end Parsed

/-- The scan.  `posix` says that `POSIXLY_CORRECT` is set. -/
def permute (opts : CString) (posix : Bool) : List CString → Parsed
  | [] => ⟨[], [], false, true⟩
  | a :: as =>
    match a with
    | ['-', '-'] => ⟨[], as, true, true⟩
    | '-' :: c :: cs =>
      match cluster opts (c :: cs) with
      | (fs, _, false) => ⟨[⟨fs, none⟩], [], false, false⟩
      | (fs, none, true) => (permute opts posix as).cons ⟨fs, none⟩
      | (fs, some (o, []), true) =>
        match as with
        | [] => ⟨[⟨fs, none⟩], [], false, false⟩
        | v :: as' => (permute opts posix as').cons ⟨fs, some ⟨o, v, true⟩⟩
      | (fs, some (o, x :: xs), true) =>
        (permute opts posix as).cons ⟨fs, some ⟨o, x :: xs, false⟩⟩
    | _ => if posix then ⟨[], a :: as, false, true⟩ else (permute opts posix as).operand a

variable {opts : CString} {posix : Bool}

theorem permute_flags {c : Char} {cs fs : List Char} (h : cluster opts (c :: cs) = (fs, none, true))
    (hne : c :: cs ≠ ['-']) (as : List CString) :
    permute opts posix (('-' :: c :: cs) :: as) = (permute opts posix as).cons ⟨fs, none⟩ := by
  rw [permute, h]
  rintro rfl rfl
  exact hne rfl

theorem permute_value {c o : Char} {cs fs : List Char}
    (h : cluster opts (c :: cs) = (fs, some (o, []), true)) (hne : c :: cs ≠ ['-']) (v : CString)
    (as : List CString) :
    permute opts posix (('-' :: c :: cs) :: v :: as) =
      (permute opts posix as).cons ⟨fs, some ⟨o, v, true⟩⟩ := by
  rw [permute, h]
  rintro rfl rfl
  exact hne rfl

/-! ### The vector left behind -/

/-- The element is an operand. -/
def IsOperand (a : CString) : Prop := ∀ c cs, a ≠ '-' :: c :: cs

theorem permute_singleton_of_isOperand {a : CString} (h : IsOperand a) :
    permute opts posix [a] = ⟨[], [a], false, true⟩ := by
  unfold permute
  split
  · exact absurd rfl (h _ _)
  · exact absurd rfl (h _ _)
  · split_ifs <;> rfl

theorem isOperand_of_permute_singleton {a : CString} (h : a ∈ (permute opts posix [a]).operands) :
    IsOperand a := by
  rintro c cs rfl
  unfold permute at h
  split at h
  · cases h
  · split at h <;> cases h
  · next hopt => exact hopt _ _ rfl

theorem getopt_of_isOperand {a : CString} (h : IsOperand a) (as : List CString) :
    getopt opts (a :: as) = ⟨[], some (a :: as)⟩ := by
  unfold getopt
  split
  · exact absurd rfl (h _ _)
  · exact absurd rfl (h _ _)
  · rfl

/-- The options are found again, whatever stands behind them. -/
theorem getopt_groups (as xs : List CString) (h : (permute opts posix as).ok = true) :
    getopt opts ((permute opts posix as).groups.flatMap Group.elems ++ xs) =
      ⟨(permute opts posix as).groups ++ (getopt opts xs).groups, (getopt opts xs).rest⟩ := by
  fun_induction permute opts posix as with
  | case1 | case2 | case8 => rfl
  | case3 | case5 => cases h
  | case4 as c cs hc fs hcl ih =>
    obtain ⟨hcs, -, -⟩ := cluster_eq _ hcl
    have helem : Group.elems ⟨fs, none⟩ = ['-' :: c :: cs] := by rw [hcs]; rfl
    simp only [Parsed.cons, List.flatMap_cons, helem, List.cons_append, List.nil_append]
    rw [getopt, hcl]
    · simp only [ih h, Scan.cons]
    · exact hc
  | case6 c cs hc fs o hcl v as ih =>
    obtain ⟨hcs, -, -⟩ := cluster_eq _ hcl
    have helem : Group.elems ⟨fs, some ⟨o, v, true⟩⟩ = ['-' :: c :: cs, v] := by rw [hcs]; rfl
    simp only [Parsed.cons, List.flatMap_cons, helem, List.cons_append, List.nil_append]
    rw [getopt, hcl]
    · simp only [ih h, Scan.cons]
    · exact hc
  | case7 as c cs hc fs o x xs' hcl ih =>
    obtain ⟨hcs, -, -⟩ := cluster_eq _ hcl
    have helem : Group.elems ⟨fs, some ⟨o, x :: xs', false⟩⟩ = ['-' :: c :: cs] := by rw [hcs]; rfl
    simp only [Parsed.cons, List.flatMap_cons, helem, List.cons_append, List.nil_append]
    rw [getopt, hcl]
    · simp only [ih h, Scan.cons]
    · exact hc
  | case9 a as hdd hopt hposix ih => exact ih h

/-- What is left unread starts with an operand, unless a `--` stands there. -/
theorem isOperand_head_operands (as : List CString) (a : CString)
    (hs : (permute opts posix as).stopped = false)
    (h : a ∈ (permute opts posix as).operands.head?) : IsOperand a := by
  fun_induction permute opts posix as with
  | case1 | case3 | case5 => cases h
  | case2 => cases hs
  | case4 as c cs hc fs hcl ih => exact ih hs h
  | case6 c cs hc fs o hcl v as ih => exact ih hs h
  | case7 as c cs hc fs o x xs hcl ih => exact ih hs h
  | case8 b as hposix hdd hopt =>
    cases h
    exact hopt
  | case9 b as hposix hdd hopt ih =>
    cases h
    exact hopt

/-- **Scanning the vector that is left behind** finds the same options and operands. -/
theorem getopt_left (as : List CString) (h : (permute opts posix as).ok = true) :
    getopt opts (permute opts posix as).left =
      ⟨(permute opts posix as).groups, some (permute opts posix as).rest⟩ := by
  have hrest : getopt opts (permute opts posix as).rest =
      ⟨[], some (permute opts posix as).rest⟩ := by
    rw [Parsed.rest]
    split_ifs with hs
    · rfl
    · have hhead := fun a => @isOperand_head_operands opts posix as a (by simpa using hs)
      cases hr : (permute opts posix as).operands with
      | nil => rfl
      | cons a bs =>
        rw [hr] at hhead
        exact getopt_of_isOperand (hhead a rfl) bs
  rw [Parsed.left, getopt_groups as _ h, hrest, List.append_nil]

-- The option behind the operand is found, and moved in front of it.
example : (permute "ab:".toList false (["-a", "host", "-b", "v"].map String.toList)).left =
    ["-a", "-b", "v", "host"].map String.toList := by decide +kernel

end Getopt

end Autossh
