import Autossh.Args.Basic
import Autossh.Posix.Permute

/-!
# `autossh_main` on the vector it is given

`build` starts from the vector as `getopt` leaves it.  `autosshMain` starts from the vector as it
is given, and from the index `optind` at which `getopt` begins to scan it.  `autossh_main` does not
set `optind`: it is 1 in a fresh process (0 asks GNU `getopt` to begin afresh, at 1).
`autosshMain_eq_build` connects the two.
-/

namespace Autossh

namespace Args

open Getopt

/-- `autossh_main` up to the end of the second pass.  The elements before `optind` are not scanned,
but the second pass goes through them. -/
def autosshMain (v : Env) (posix : Bool) (optind : ℕ) (argv : List CString) : Except Exit Built :=
  let p := permute optionString posix (argv.drop (optind - 1))
  if p.groups.any fun g => g.flags.contains 'V' then .error .version
  else if p.ok = false then .error .usage
  else match writep v p.groups with
    | none => .error .usage
    | some port =>
      if p.operands = [] then .error .usage
      else (monitorOf v.mhost port).map fun m =>
        { monitor := m
          daemon := p.groups.any fun g => g.flags.contains 'f'
          newav := addArg (.sshPath v.sshPath) ++
            rewriteLoop v.port.isSome m false false
              (((argv.take (optind - 1)).map fun a => ⟨a, false⟩) ++ vector v p.groups p.rest) }

/-- What has gone before when `newav` is built. -/
theorem autosshMain_ok {v : Env} {posix : Bool} {optind : ℕ} {argv : List CString} {b : Built}
    (h : autosshMain v posix optind argv = .ok b) :
    (permute optionString posix (argv.drop (optind - 1))).ok = true ∧ ∃ port,
      writep v (permute optionString posix (argv.drop (optind - 1))).groups = some port ∧
      monitorOf v.mhost port = .ok b.monitor ∧
      b.newav = addArg (.sshPath v.sshPath) ++ rewriteLoop v.port.isSome b.monitor false false
        (((argv.take (optind - 1)).map fun a => ⟨a, false⟩) ++
          vector v (permute optionString posix (argv.drop (optind - 1))).groups
            (permute optionString posix (argv.drop (optind - 1))).rest) := by
  unfold autosshMain at h
  dsimp only at h
  split_ifs at h with hversion hok hops
  · split at h <;> cases h
  · split at h
    · cases h
    · rename_i port hport
      cases hm : monitorOf v.mhost port with
      | error x => rw [hm] at h; cases h
      | ok m =>
        rw [hm] at h
        cases h
        exact ⟨by simpa using hok, port, hport, hm, rfl⟩

theorem operands_rest (posix : Bool) (as : List CString) :
    operands (permute optionString posix as).rest = (permute optionString posix as).operands := by
  rw [Parsed.rest]
  split_ifs with hs
  · rfl
  · unfold operands
    split
    · next bs hr =>
      have := @isOperand_head_operands optionString posix as ['-', '-'] (by simpa using hs)
        (by rw [hr]; rfl)
      exact absurd rfl (this _ _)
    · rfl

/-- In a fresh process this is `build` on the vector that `getopt` leaves behind. -/
theorem autosshMain_eq_build (v : Env) {posix : Bool} {optind : ℕ} {argv : List CString}
    (hoptind : optind ≤ 1) (hok : (permute optionString posix argv).ok = true) :
    autosshMain v posix optind argv = build v (permute optionString posix argv).left := by
  have hzero : optind - 1 = 0 := by omega
  cases hw : writep v (permute optionString posix argv).groups with
  | none | some port =>
    simp only [autosshMain, build, hzero, List.drop_zero, List.take_zero, List.map_nil,
      List.nil_append, getopt_left argv hok, operands_rest, hok, Bool.true_eq_false, if_false, hw]

end Args

end Autossh
