import Autossh.Posix.Permute

/-!
# How ssh reads its arguments

ssh scans its arguments with a `getopt` that stops at an operand.  The first operand is the
destination, and unless a `--` has ended the options ssh goes on to look for some behind it; the
next operand begins the remote command.  Nothing is assumed about the letters that are options: the
option string is a parameter.

* `sshScan` : the options ssh finds, and what it takes the next argument for;
* `sshScan_concat_iff` : **one more argument adds no option exactly if ssh does not wait for a value
  and the argument does not look like an option, or the options have ended.**
-/

namespace Autossh

namespace Args

open Getopt

/-- What ssh takes the next argument for. -/
inductive Next
  /-- an option, if it looks like one -/
  | option
  /-- the value of the option before it -/
  | value
  /-- no option: these have ended, or ssh has printed its usage -/
  | done
  deriving DecidableEq, Repr

/-- The options that ssh has found, and what it takes the next argument for. -/
structure SshScan where
  groups : List Group
  next : Next
  deriving DecidableEq, Repr

/-- One more group in front. -/
def SshScan.cons (g : Group) (s : SshScan) : SshScan := ⟨g :: s.groups, s.next⟩

/-- The scan.  `host` says that the destination has been read. -/
def sshScan (opts : CString) : Bool → List CString → SshScan
  | _, [] => ⟨[], .option⟩
  | host, a :: as =>
    match a with
    | ['-', '-'] => ⟨[], .done⟩
    | '-' :: c :: cs =>
      match cluster opts (c :: cs) with
      | (fs, _, false) => ⟨[⟨fs, none⟩], .done⟩
      | (fs, none, true) => (sshScan opts host as).cons ⟨fs, none⟩
      | (fs, some (o, []), true) =>
        match as with
        | [] => ⟨[⟨fs, none⟩], .value⟩
        | v :: as' => (sshScan opts host as').cons ⟨fs, some ⟨o, v, true⟩⟩
      | (fs, some (o, x :: xs), true) => (sshScan opts host as).cons ⟨fs, some ⟨o, x :: xs, false⟩⟩
    | _ => if host then ⟨[], .done⟩ else sshScan opts true as

variable {opts : CString} {host : Bool}

theorem sshScan_value {c o : Char} {cs fs : List Char}
    (h : cluster opts (c :: cs) = (fs, some (o, []), true)) (hne : c :: cs ≠ ['-']) (v : CString)
    (as : List CString) :
    sshScan opts host (('-' :: c :: cs) :: v :: as) =
      (sshScan opts host as).cons ⟨fs, some ⟨o, v, true⟩⟩ := by
  rw [sshScan, h]
  rintro rfl rfl
  exact hne rfl

/-- An argument that cannot be an option: it does not look like one, or it is the `--`. -/
def Harmless (a : CString) : Prop := IsOperand a ∨ a = ['-', '-']

theorem groups_singleton_eq_nil {a : CString} :
    (sshScan opts host [a]).groups = [] ↔ Harmless a := by
  unfold sshScan
  split
  · exact iff_of_true rfl (.inr rfl)
  · next c cs hne =>
    refine iff_of_false ?_ ?_
    · split <;> exact List.cons_ne_nil _ _
    · rintro (h | h)
      · exact h c cs rfl
      · cases h
        exact hne rfl rfl
  · next hdd hopt =>
    refine iff_of_true ?_ (.inl fun c cs h => hopt c cs h)
    split_ifs <;> rfl

theorem cons_groups_inj {g : Group} {s t : SshScan} :
    (s.cons g).groups = (t.cons g).groups ↔ s.groups = t.groups :=
  List.cons_inj_right g

/-- **When an argument adds no option.** -/
theorem sshScan_concat_iff (opts : CString) (host : Bool) (as : List CString) (a : CString) :
    (sshScan opts host (as ++ [a])).groups = (sshScan opts host as).groups ↔
      (sshScan opts host as).next = .done ∨ (sshScan opts host as).next = .option ∧ Harmless a := by
  fun_induction sshScan opts host as with
  | case1 host =>
    rw [List.nil_append, groups_singleton_eq_nil]
    simp
  | case2 host as => exact iff_of_true rfl (.inl rfl)
  | case3 host as c cs hc fs o hcl =>
    rw [List.cons_append, sshScan, hcl]
    · exact iff_of_true rfl (.inl rfl)
    · exact hc
  | case4 host as c cs hc fs hcl ih =>
    rw [List.cons_append, sshScan, hcl]
    · exact cons_groups_inj.trans ih
    · exact hc
  | case5 host c cs hc fs o hcl =>
    rw [List.cons_append, sshScan, hcl]
    · simp [SshScan.cons]
    · exact hc
  | case6 host c cs hc fs o hcl v as ih =>
    rw [List.cons_append, sshScan, hcl]
    · exact cons_groups_inj.trans ih
    · exact hc
  | case7 host as c cs hc fs o x xs hcl ih =>
    rw [List.cons_append, sshScan, hcl]
    · exact cons_groups_inj.trans ih
    · exact hc
  | case8 a as hdd hopt =>
    rw [List.cons_append, sshScan]
    · exact iff_of_true rfl (.inl rfl)
    · exact hdd
    · exact hopt
  | case9 host a as hhost hdd hopt ih =>
    rw [List.cons_append, sshScan, if_neg hhost]
    · exact ih
    · exact hdd
    · exact hopt

end Args

end Autossh
