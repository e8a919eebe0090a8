import Autossh.Args.Copied
import Autossh.Args.Invoke
import Autossh.Args.SshScan
import Autossh.Config.Basic

/-!
# The command line of a supervisor

`build_child_argv` puts the options of a session first, then the extra arguments, then the
destination, with no `--` before it.  `getopt` should take this apart again into the session's own
options, what the extra arguments are on their own, and the destination as the last operand
(`Separated`), and ssh should read no option in the destination (`AddsNoOption`).

The two are not the same.  A `--` among the extra arguments ends the options for autossh, but the
second pass does not pass it on; and it does not pass on a value that begins with `--` or `-M`
either, so that the option before it takes its value from what follows.

* `args_of_separated` : what ssh is given with the destination, and without it;
* `destination_separated_iff` : **when the destination is an operand for autossh, and no option for
  ssh.**
-/

namespace Autossh

namespace Config

open Getopt Args

/-- The extra arguments. -/
def extras (c : SessionConfig) : List CString := c.extraSshArgs.map Subtype.val

/-- The options of the session itself. -/
def ownGroups (c : SessionConfig) : List Group :=
  [⟨[], some ⟨'M', monitorText c, true⟩⟩, ⟨['N'], none⟩,
    ⟨[], some ⟨'o', "ExitOnForwardFailure=yes".toList, true⟩⟩, ⟨[], some ⟨'L', forward c, true⟩⟩]

/-- `getopt` finds the options of the session, then those of the extra arguments, and the
destination as the last operand. -/
structure Separated (posix : Bool) (c : SessionConfig) (argv : List CString) : Prop where
  ok : (permute optionString posix argv).ok = true
  groups : (permute optionString posix argv).groups =
    ownGroups c ++ (permute optionString posix (extras c)).groups
  operands : (permute optionString posix argv).operands =
    (permute optionString posix (extras c)).operands ++ [c.sshDestination.1]

variable {posix : Bool} {c : SessionConfig}

theorem buildChildArgv_eq (hbind : isUtf8 c.bindHost = true)
    (htarget : isUtf8 c.targetHost.1 = true) (hdest : isUtf8 c.sshDestination.1 = true) :
    buildChildArgv c = .ok ((ownGroups c).flatMap Group.elems ++
      (extras c ++ [c.sshDestination.1])) := by
  simp only [buildChildArgv, stringFromCString, hbind, htarget, hdest, if_true]
  refine congrArg Except.ok ?_
  rw [List.append_assoc]
  rfl

/-- The options of the session are read as they are meant. -/
theorem permute_own (c : SessionConfig) (posix : Bool) (as : List CString) :
    permute optionString posix ((ownGroups c).flatMap Group.elems ++ as) =
      { permute optionString posix as with
        groups := ownGroups c ++ (permute optionString posix as).groups } := by
  have hM : cluster optionString ['M'] = ([], some ('M', []), true) := by decide +kernel
  have hN : cluster optionString ['N'] = (['N'], none, true) := by decide +kernel
  have ho : cluster optionString ['o'] = ([], some ('o', []), true) := by decide +kernel
  have hL : cluster optionString ['L'] = ([], some ('L', []), true) := by decide +kernel
  show permute optionString posix (['-', 'M'] :: monitorText c :: ['-', 'N'] :: ['-', 'o'] ::
    "ExitOnForwardFailure=yes".toList :: ['-', 'L'] :: forward c :: as) = _
  rw [permute_value hM (by decide), permute_flags hN (by decide), permute_value ho (by decide),
    permute_value hL (by decide)]
  rfl

/-- The destination is read on its own, as an operand. -/
theorem permute_concat (hcomplete : (permute optionString posix (extras c)).ok = true)
    (hend : (permute optionString posix (extras c)).ended posix = true ∨
      IsOperand c.sshDestination.1) :
    permute optionString posix (extras c ++ [c.sshDestination.1]) =
      { permute optionString posix (extras c) with
        operands := (permute optionString posix (extras c)).operands ++ [c.sshDestination.1] } := by
  rw [permute_append _ _ hcomplete]
  split_ifs with h
  · simp [Parsed.append, hcomplete]
  · have hstopped : (permute optionString posix (extras c)).stopped = false := by
      simp only [Parsed.ended, Bool.or_eq_true, not_or, Bool.not_eq_true] at h
      exact h.1
    rw [permute_singleton_of_isOperand (hend.resolve_left h)]
    simp [Parsed.append, hcomplete, hstopped]

/-- When the destination is an operand for autossh. -/
theorem separated_iff (posix : Bool) (c : SessionConfig) :
    Separated posix c ((ownGroups c).flatMap Group.elems ++ (extras c ++ [c.sshDestination.1])) ↔
      (permute optionString posix (extras c)).ok = true ∧
        ((permute optionString posix (extras c)).ended posix = true ∨
          IsOperand c.sshDestination.1) := by
  have hown := permute_own c posix (extras c ++ [c.sshDestination.1])
  constructor
  · rintro ⟨hok, hgroups, hoperands⟩
    rw [hown] at hok hgroups hoperands
    have hcomplete : (permute optionString posix (extras c)).ok = true := by
      by_contra herr
      have := operands_append_of_not_ok (extras c) c.sshDestination.1 (by simpa using herr) hok
      rw [this] at hoperands
      exact absurd (congrArg List.length hoperands) (by simp)
    refine ⟨hcomplete, ?_⟩
    by_cases hend : (permute optionString posix (extras c)).ended posix = true
    · exact .inl hend
    · refine .inr (@isOperand_of_permute_singleton optionString posix _ ?_)
      rw [permute_append _ _ hcomplete, if_neg hend] at hoperands
      have := List.append_cancel_left hoperands
      rw [this]
      exact List.mem_singleton_self _
  · rintro ⟨hcomplete, hend⟩
    rw [permute_concat hcomplete hend] at hown
    refine ⟨?_, ?_, ?_⟩
    · rw [hown]
      exact hcomplete
    · rw [hown]
    · rw [hown]

/-! ### What ssh reads -/

/-- The vector that `getopt` leaves behind, without the destination. -/
def leading (v : Env) (posix : Bool) (c : SessionConfig) : List Elem :=
  vector v (ownGroups c ++ (permute optionString posix (extras c)).groups)
    (permute optionString posix (extras c)).rest

/-- ssh finds the options that it would find without the destination. -/
def AddsNoOption (opts : CString) (v : Env) (posix : Bool) (c : SessionConfig) (b : Built) : Prop :=
  (sshScan opts false b.args).groups =
    (sshScan opts false ((rewriteLoop v.port.isSome b.monitor false false
      (leading v posix c)).map Item.text)).groups

/-- ssh takes the destination for no option: it is not passed on, or, when ssh has read what is
passed on of the words before it, the options have ended, or it does not wait for a value and the
destination does not look like an option. -/
def TakenForNoOption (opts : CString) (v : Env) (posix : Bool) (c : SessionConfig) : Prop :=
  let words := (leading v posix c).map Elem.text
  sent v (words ++ [c.sshDestination.1]) = sent v words ∨
    (sshScan opts false (sent v words)).next = .done ∨
    (sshScan opts false (sent v words)).next = .option ∧
      Harmless (stripArg optionString 'f' c.sshDestination.1)

/-- The vector begins with the `-M` of the session. -/
theorem exists_leading_eq (v : Env) (posix : Bool) (c : SessionConfig) :
    ∃ e es, leading v posix c = e :: es ∧ e.text = ['-', 'M'] := by
  unfold leading vector ownGroups
  split_ifs
  · exact ⟨_, _, rfl, rfl⟩
  · rw [List.cons_append, cutPort]
    split_ifs
    all_goals exact ⟨_, _, rfl, rfl⟩

/-- The forwards are options with a value, which ssh finds whatever comes behind them. -/
theorem sshScan_forwards {opts : CString} {m : Monitor}
    (hL : cluster opts ['L'] = ([], some ('L', []), true))
    (hR : cluster opts ['R'] = ([], some ('R', []), true))
    (hm : m.wp ≠ 0 → forwards m = monitorForwards m) :
    ∃ gs, ∀ as, sshScan opts false
        ((if m.wp ≠ 0 then forwards m else []).map Item.text ++ as) =
      ⟨gs ++ (sshScan opts false as).groups, (sshScan opts false as).next⟩ := by
  by_cases hw : m.wp = 0
  · rw [if_neg (not_not.2 hw)]
    exact ⟨[], fun as => rfl⟩
  · rw [if_pos hw, hm hw, monitorForwards, if_neg hw]
    cases m.echo with
    | true =>
      refine ⟨[⟨[], some ⟨'L', m.wmbuf, true⟩⟩], fun as => ?_⟩
      exact sshScan_value hL (by decide) _ _
    | false =>
      refine ⟨[⟨[], some ⟨'L', m.wmbuf, true⟩⟩, ⟨[], some ⟨'R', m.rmbuf, true⟩⟩], fun as => ?_⟩
      exact (sshScan_value hL (by decide) _ _).trans
        (congrArg (SshScan.cons _) (sshScan_value hR (by decide) _ _))

/-- **What ssh is given**, with the destination and without it. -/
theorem args_of_separated {v : Env} {b : Built} {argv : List CString}
    (hargv : argv = (ownGroups c).flatMap Group.elems ++ (extras c ++ [c.sshDestination.1]))
    (hsep : Separated posix c argv) (h : autosshMain v posix 1 argv = .ok b) :
    b.args = (if b.monitor.wp ≠ 0 then forwards b.monitor else []).map Item.text ++
        sent v ((leading v posix c).map Elem.text ++ [c.sshDestination.1]) ∧
      (rewriteLoop v.port.isSome b.monitor false false (leading v posix c)).map Item.text =
        (if b.monitor.wp ≠ 0 then forwards b.monitor else []).map Item.text ++
          sent v ((leading v posix c).map Elem.text) := by
  subst hargv
  obtain ⟨hcomplete, hend⟩ := (separated_iff posix c).1 hsep
  obtain ⟨-, port, hport, hm, hnewav⟩ := autosshMain_ok h
  have hparsed := permute_own c posix (extras c ++ [c.sshDestination.1])
  rw [permute_concat hcomplete hend] at hparsed
  have hvector : b.newav = addArg (.sshPath v.sshPath) ++
      rewriteLoop v.port.isSome b.monitor false false
        (leading v posix c ++ [⟨c.sshDestination.1, false⟩]) := by
    have hrest : (permute optionString posix ((ownGroups c).flatMap Group.elems ++
        (extras c ++ [c.sshDestination.1]))).rest =
          (permute optionString posix (extras c)).rest ++ [c.sshDestination.1] := by
      rw [hparsed, Parsed.rest, Parsed.rest]
      cases (permute optionString posix (extras c)).stopped <;> rfl
    rw [hnewav]
    simp only [Nat.sub_self, List.drop_zero, List.take_zero, List.map_nil, List.nil_append]
    rw [hrest, hparsed, leading, vector, vector, List.map_append, ← List.append_assoc]
    rfl
  have hloop : ∀ es, (∃ e es', es = e :: es' ∧ e.text = ['-', 'M']) →
      (rewriteLoop v.port.isSome b.monitor false false es).map Item.text =
        (if b.monitor.wp ≠ 0 then forwards b.monitor else []).map Item.text ++
          sent v (es.map Elem.text) := by
    rintro es ⟨e, es', rfl, he⟩
    rw [rewriteLoop_dashM he (pending_iff hport hm), List.map_append, map_text_pick]
  obtain ⟨e, es, hes, he⟩ := exists_leading_eq v posix c
  refine ⟨?_, hloop _ ⟨e, es, hes, he⟩⟩
  have hpath : (addArg (.sshPath v.sshPath)).filterMap Item.arg? = [] :=
    filterMap_addArg_of_none rfl
  rw [Built.args, hvector, List.filterMap_append, hpath, List.nil_append,
    filterMap_arg?_of_isPass isPass_rewriteLoop, hloop _ ⟨e, _, by rw [hes]; rfl, he⟩,
    List.map_append]
  rfl

/-- **When the destination is an operand** for autossh, and no option for ssh. -/
theorem destination_separated_iff (opts : CString)
    (hL : cluster opts ['L'] = ([], some ('L', []), true))
    (hR : cluster opts ['R'] = ([], some ('R', []), true)) (v : Env) (posix : Bool)
    (c : SessionConfig) (hbind : isUtf8 c.bindHost = true) (htarget : isUtf8 c.targetHost.1 = true)
    (hdest : isUtf8 c.sshDestination.1 = true) :
    ∃ argv, buildChildArgv c = .ok argv ∧
      (Separated posix c argv ↔
        (permute optionString posix (extras c)).ok = true ∧
          ((permute optionString posix (extras c)).ended posix = true ∨
            IsOperand c.sshDestination.1)) ∧
      ∀ b, autosshMain v posix 1 argv = .ok b → Separated posix c argv →
        (AddsNoOption opts v posix c b ↔ TakenForNoOption opts v posix c) := by
  refine ⟨_, buildChildArgv_eq hbind htarget hdest, separated_iff posix c, ?_⟩
  intro b h hsep
  obtain ⟨hargs, hwithout⟩ := args_of_separated rfl hsep h
  obtain ⟨-, port, -, hm, -⟩ := autosshMain_ok h
  obtain ⟨gs, hgs⟩ := sshScan_forwards hL hR (monitorOf_ok hm).2
  rw [AddsNoOption, hargs, hwithout, hgs, hgs, List.append_cancel_left_eq, TakenForNoOption]
  rcases sent_concat v ((leading v posix c).map Elem.text) c.sshDestination.1 with heq | heq
  · rw [heq]
    exact iff_of_true rfl (.inl rfl)
  · rw [heq, sshScan_concat_iff]
    refine (or_iff_right ?_).symm
    intro hnil
    exact absurd (congrArg List.length hnil) (by simp)

/-- A configuration with this destination, and the defaults otherwise. -/
def sample (dest : Text) : SessionConfig where
  sshPath := none
  sshDestination := dest
  targetHost := ⟨"db".toList, by decide⟩
  targetPort := 5432
  bindHost := "127.0.0.1".toList
  localPort := 15432
  monitorHost := none
  monitorPort := 0
  monitorDisabled := true
  pollTime := 0
  firstPollTime := 0
  gateTime := .ofInt 0
  maxStart := -1
  maxSession := .ofInt 0
  startTimeoutMs := startTimeout 0
  extraSshArgs := []
  targetPort_ne := by decide
  startTimeoutMs_pos := (startTimeout 0).2

theorem isUtf8_sample (dest : Text) :
    isUtf8 (sample dest).bindHost = true ∧ isUtf8 (sample dest).targetHost.1 = true := by
  constructor
  · exact (by decide +kernel : isUtf8 "127.0.0.1".toList = true)
  · exact (by decide +kernel : isUtf8 "db".toList = true)

/-- A `--` ends the options before a destination that starts with a dash. -/
def stopped : SessionConfig :=
  { sample ⟨"-oProxyCommand=sh".toList, by decide⟩ with
    extraSshArgs := [⟨"--".toList, by decide⟩] }

theorem bastion_separated :
    ∃ argv, buildChildArgv (sample ⟨"bastion".toList, by decide⟩) = .ok argv ∧
      Separated false (sample ⟨"bastion".toList, by decide⟩) argv ∧
      ∀ b, autosshMain ⟨none, none, none⟩ false 1 argv = .ok b →
        AddsNoOption optionString ⟨none, none, none⟩ false
          (sample ⟨"bastion".toList, by decide⟩) b := by
  obtain ⟨hL, hR, hstrip, hnext⟩ : cluster optionString ['L'] = ([], some ('L', []), true) ∧
      cluster optionString ['R'] = ([], some ('R', []), true) ∧
      stripArg optionString 'f' "bastion".toList = "bastion".toList ∧
      (sshScan optionString false (sent ⟨none, none, none⟩ ((leading ⟨none, none, none⟩ false
        (sample ⟨"bastion".toList, by decide⟩)).map Elem.text))).next = .option := by
    decide +kernel
  obtain ⟨argv, hargv, hsep, hadds⟩ := destination_separated_iff optionString hL hR
    ⟨none, none, none⟩ false (sample ⟨"bastion".toList, by decide⟩) (isUtf8_sample _).1
    (isUtf8_sample _).2 (by decide +kernel)
  have hoperand : IsOperand "bastion".toList := by
    intro c cs h
    cases h
  have hseparated := hsep.2 ⟨rfl, .inr hoperand⟩
  refine ⟨argv, hargv, hseparated, fun b hb => (hadds b hb hseparated).2 (.inr (.inr ?_))⟩
  exact ⟨hnext, .inl (hstrip.symm ▸ hoperand)⟩

/-- A destination that starts with a dash adds an option of ssh, and there is no operand.  With a
`--` before it, it is an operand for autossh, and adds the option all the same. -/
theorem destination_read_as_option :
    (∃ argv, buildChildArgv (sample ⟨"-oProxyCommand=sh".toList, by decide⟩) = .ok argv ∧
      (permute optionString false argv).groups =
        ownGroups (sample ⟨"-oProxyCommand=sh".toList, by decide⟩) ++
          [⟨[], some ⟨'o', "ProxyCommand=sh".toList, false⟩⟩] ∧
      (permute optionString false argv).operands = [] ∧
      ¬ Separated false (sample ⟨"-oProxyCommand=sh".toList, by decide⟩) argv) ∧
    ∃ argv b, buildChildArgv stopped = .ok argv ∧ Separated false stopped argv ∧
      autosshMain ⟨none, none, none⟩ false 1 argv = .ok b ∧
      (sshScan optionString false b.args).groups =
        [⟨['N'], none⟩, ⟨[], some ⟨'o', "ExitOnForwardFailure=yes".toList, true⟩⟩,
          ⟨[], some ⟨'L', forward stopped, true⟩⟩,
          ⟨[], some ⟨'o', "ProxyCommand=sh".toList, false⟩⟩] ∧
      ¬ AddsNoOption optionString ⟨none, none, none⟩ false stopped b := by
  constructor
  · have hread : (permute optionString false ((ownGroups (sample
        ⟨"-oProxyCommand=sh".toList, by decide⟩)).flatMap Group.elems ++
          ["-oProxyCommand=sh".toList])).groups =
        ownGroups (sample ⟨"-oProxyCommand=sh".toList, by decide⟩) ++
          [⟨[], some ⟨'o', "ProxyCommand=sh".toList, false⟩⟩] ∧
        (permute optionString false ((ownGroups (sample
          ⟨"-oProxyCommand=sh".toList, by decide⟩)).flatMap Group.elems ++
            ["-oProxyCommand=sh".toList])).operands = [] := by
      decide +kernel
    refine ⟨_, buildChildArgv_eq (isUtf8_sample _).1 (isUtf8_sample _).2 (by decide +kernel),
      hread.1, hread.2, ?_⟩
    rintro ⟨-, -, hoperands⟩
    exact List.append_ne_nil_of_right_ne_nil _ (List.cons_ne_nil _ _)
      (hoperands.symm.trans hread.2)
  · obtain ⟨hmain, hscan, hadds⟩ : (autosshMain ⟨none, none, none⟩ false 1
          ((ownGroups stopped).flatMap Group.elems ++
            (extras stopped ++ [stopped.sshDestination.1]))).toOption.map
              (fun b => (b.args, b.monitor)) = some
            (["-N", "-o", "ExitOnForwardFailure=yes", "-L", "127.0.0.1:15432:db:5432",
              "-oProxyCommand=sh"].map String.toList, ⟨0, false, [], []⟩) ∧
        (sshScan optionString false (["-N", "-o", "ExitOnForwardFailure=yes", "-L",
            "127.0.0.1:15432:db:5432", "-oProxyCommand=sh"].map String.toList)).groups =
          [⟨['N'], none⟩, ⟨[], some ⟨'o', "ExitOnForwardFailure=yes".toList, true⟩⟩,
            ⟨[], some ⟨'L', forward stopped, true⟩⟩,
            ⟨[], some ⟨'o', "ProxyCommand=sh".toList, false⟩⟩] ∧
        (sshScan optionString false (["-N", "-o", "ExitOnForwardFailure=yes", "-L",
            "127.0.0.1:15432:db:5432", "-oProxyCommand=sh"].map String.toList)).groups ≠
          (sshScan optionString false ((rewriteLoop false ⟨0, false, [], []⟩ false false
            (leading ⟨none, none, none⟩ false stopped)).map Item.text)).groups := by
      decide +kernel
    obtain ⟨b, hb, hval⟩ := exists_ok (f := fun b : Built => (b.args, b.monitor)) hmain
    obtain ⟨hargs, hm⟩ := Prod.mk.inj hval
    have hutf8 := isUtf8_sample stopped.sshDestination
    refine ⟨_, b, buildChildArgv_eq (c := stopped) hutf8.1 hutf8.2 (by decide +kernel),
      (separated_iff false stopped).2 ⟨rfl, .inl rfl⟩, hb, ?_, ?_⟩
    · rw [hargs]
      exact hscan
    · rw [AddsNoOption, hargs, hm]
      exact hadds

end Config

end Autossh
