import Autossh.Args.Forwards
import Autossh.Args.Invoke
import Autossh.Args.Monitor
import Autossh.Config.Command

/-!
# What a supervisor inherits from its host

The supervisor is a fork of the host, and calls `autossh_main` with the host's environment and the
host's `optind`.  `supervise` is the way from `child_main` to `ssh_run`.

The settings that reach `ssh_run` are not the configuration's alone.  `AUTOSSH_PORT` overrides the
monitor port of the configuration, as it overrides `-M` on a command line; `AUTOSSH_PATH` and
`AUTOSSH_MHOST` count where the configuration has NULL.  `inherited_settings` says that nothing else
does when `getopt` starts at the beginning of the vector.
-/

namespace Autossh

namespace Config

open Getopt Args Environ

/-- How a supervisor ends before `ssh_run`. -/
inductive Stop
  /-- `build_child_argv` fails: `_exit(2)`. -/
  | argv
  | environ (e : Environ.Exit)
  | args (e : Args.Exit)
  deriving DecidableEq, Repr

/-- The variables that `autossh_main` takes its arguments from. -/
def mainEnv (e : Environ) : Env := ⟨e .port, e .mhost, e .path⟩

/-- `child_main` up to the call of `ssh_run`, in a process that has inherited this environment and
this `optind`. -/
def supervise (fopen : CString → Bool) (now : ℤ) (posix : Bool) (c : SessionConfig)
    (host : Environ) (optind : ℕ) : Except Stop Built :=
  match buildChildArgv c with
  | .error _ => .error .argv
  | .ok argv =>
    match getEnvArgs fopen now (childEnviron c host) with
    | .error e => .error (.environ e)
    | .ok _ =>
      match autosshMain (mainEnv (childEnviron c host)) posix optind argv with
      | .error e => .error (.args e)
      | .ok b => .ok b

/-- The options that `getopt` finds behind those of the session itself. -/
def extraGroups (posix : Bool) (c : SessionConfig) : List Group :=
  (permute optionString posix (extras c ++ [c.sshDestination.1])).groups

/-- The text that the monitor port is taken from: `AUTOSSH_PORT`, the value of an `-M` among the
extra arguments, or the port of the configuration. -/
def portText (posix : Bool) (c : SessionConfig) (host : Environ) : CString :=
  ((host .port).filter (· ≠ [])).getD
    (((extraGroups posix c).filterMap monitorValue).getLast?.getD (monitorText c))

/-- The host of the monitor. -/
def mhost (c : SessionConfig) (host : Environ) : CString := (mainEnv (childEnviron c host)).mhost

/-- The environments agree where the configuration leaves a choice to them. -/
structure Agree (c : SessionConfig) (host host' : Environ) : Prop where
  port : (host .port).filter (· ≠ []) = (host' .port).filter (· ≠ [])
  mhost : c.monitorHost = none → (host .mhost).filter (· ≠ []) = (host' .mhost).filter (· ≠ [])
  path : c.sshPath = none → host .path = host' .path

section Variables

variable (c : SessionConfig) (host : Environ)

theorem childEnviron_port : childEnviron c host .port = host .port := by
  simp [childEnviron]

theorem childEnviron_mhost : childEnviron c host .mhost = c.monitorHost.or (host .mhost) := by
  simp [childEnviron]

theorem childEnviron_path : childEnviron c host .path = c.sshPath.or (host .path) := by
  simp [childEnviron]

end Variables

/-- `get_env_args` and `autossh_main` read the same port and the same path. -/
theorem getEnvArgs_mainEnv {fopen : CString → Bool} {now : ℤ} {e : Environ} {s : Settings}
    (h : getEnvArgs fopen now e = .ok s) :
    s.envPort = (mainEnv e).port ∧ s.sshPath = (mainEnv e).sshPath := by
  obtain ⟨p, f, h⟩ := getEnvArgs_eq_ok.1 h
  exact ⟨h.envPort, h.sshPath⟩

/-! ### The monitor port of the configuration -/

/-- The monitor port of a supervisor: 0 turns monitoring off. -/
def monitorPort (c : SessionConfig) : ℕ := if c.monitorDisabled then 0 else c.monitorPort.toNat

theorem monitorText_eq (c : SessionConfig) : monitorText c = CString.decimal (monitorPort c) := by
  unfold monitorText monitorPort
  split_ifs
  · decide
  · rfl

theorem monitorPort_lt (c : SessionConfig) : monitorPort c < 2 ^ 16 := by
  unfold monitorPort
  split_ifs
  · decide
  · exact c.monitorPort.toNat_lt

/-! ### What reaches `ssh_run` -/

theorem supervise_ok {fopen : CString → Bool} {now : ℤ} {posix : Bool} {c : SessionConfig}
    {host : Environ} {optind : ℕ} {b : Built}
    (h : supervise fopen now posix c host optind = .ok b) :
    ∃ argv, buildChildArgv c = .ok argv ∧
      autosshMain (mainEnv (childEnviron c host)) posix optind argv = .ok b := by
  unfold supervise at h
  split at h
  · cases h
  · next argv hargv =>
    split at h
    · cases h
    · split at h
      · cases h
      · next b' hb =>
        cases h
        exact ⟨argv, hargv, hb⟩

theorem buildChildArgv_ok {c : SessionConfig} {argv : List CString}
    (h : buildChildArgv c = .ok argv) :
    argv = (ownGroups c).flatMap Group.elems ++ (extras c ++ [c.sshDestination.1]) := by
  unfold buildChildArgv at h
  obtain ⟨bind, -, h⟩ := bind_eq_ok.1 h
  obtain ⟨target, -, h⟩ := bind_eq_ok.1 h
  obtain ⟨dest, hdest, h⟩ := bind_eq_ok.1 h
  unfold stringFromCString at hdest
  split_ifs at hdest
  cases hdest
  cases h
  rw [List.append_assoc]
  rfl

/-- `writep` in a supervisor. -/
theorem writep_supervise (posix : Bool) (c : SessionConfig) (host : Environ) :
    writep (mainEnv (childEnviron c host)) (permute optionString posix
      ((ownGroups c).flatMap Group.elems ++ (extras c ++ [c.sshDestination.1]))).groups =
      some (portText posix c host) := by
  have hport : (mainEnv (childEnviron c host)).port = (host .port).filter (· ≠ []) := by
    rw [Env.port, mainEnv, childEnviron_port]
  have hown : (ownGroups c).filterMap monitorValue = [monitorText c] := rfl
  have hlast : ∀ l : List CString, ([monitorText c] ++ l).getLast? =
      some (l.getLast?.getD (monitorText c)) := by
    intro l
    rw [List.getLast?_append, List.getLast?_singleton, Option.or_some]
  rw [permute_own, writep, hport, List.filterMap_append, hown, hlast, Option.or_some]
  rfl

theorem portText_of_config {posix : Bool} {c : SessionConfig} {host : Environ}
    (hport : (host .port).filter (· ≠ []) = none)
    (hextra : (extraGroups posix c).any isMonitor = false) :
    portText posix c host = monitorText c := by
  have hnone : (extraGroups posix c).filterMap monitorValue = [] := by
    rw [List.filterMap_eq_nil_iff]
    intro g hg
    have := List.any_eq_false.1 hextra g hg
    simpa [isMonitor] using this
  rw [portText, hport, hnone]
  rfl

section Agreement

variable {c : SessionConfig} {host host' : Environ}

theorem portText_of_agree {posix : Bool} (h : Agree c host host') :
    portText posix c host = portText posix c host' := by
  rw [portText, portText, h.port]

theorem mainEnv_of_agree (h : Agree c host host') :
    (mainEnv (childEnviron c host)).port = (mainEnv (childEnviron c host')).port ∧
      (mainEnv (childEnviron c host)).mhost = (mainEnv (childEnviron c host')).mhost ∧
      (mainEnv (childEnviron c host)).sshPath = (mainEnv (childEnviron c host')).sshPath := by
  refine ⟨?_, ?_, ?_⟩
  · simp only [Env.port, mainEnv, childEnviron_port]
    exact h.port
  · simp only [Env.mhost, mainEnv, childEnviron_mhost]
    cases hm : c.monitorHost with
    | none => simp only [Option.none_or, h.mhost hm]
    | some s => rfl
  · simp only [Env.sshPath, mainEnv, childEnviron_path]
    cases hp : c.sshPath with
    | none => simp only [Option.none_or, h.path hp]
    | some s => rfl

end Agreement

section Reached

variable {fopen fopen' : CString → Bool} {now now' : ℤ} {posix : Bool} {c : SessionConfig}
  {host host' : Environ} {optind optind' : ℕ} {b b' : Built}

/-- What `newav` is made of, when `getopt` starts at the beginning of the vector. -/
theorem supervise_newav (hoptind : optind ≤ 1)
    (h : supervise fopen now posix c host optind = .ok b) :
    let p := permute optionString posix
      ((ownGroups c).flatMap Group.elems ++ (extras c ++ [c.sshDestination.1]))
    let v := mainEnv (childEnviron c host)
    monitorOf v.mhost (portText posix c host) = .ok b.monitor ∧
      b.newav = addArg (.sshPath v.sshPath) ++
        rewriteLoop v.port.isSome b.monitor false false (vector v p.groups p.rest) := by
  obtain ⟨argv, hargv, hmain⟩ := supervise_ok h
  have hzero : optind - 1 = 0 := by omega
  obtain ⟨-, port, hport, hm, hnewav⟩ := autosshMain_ok hmain
  rw [hzero, List.drop_zero, buildChildArgv_ok hargv] at hport hnewav
  rw [writep_supervise] at hport
  cases hport
  exact ⟨hm, hnewav⟩

/-- **What reaches `ssh_run`.**  In a process whose `optind` is where it starts, the monitor setting
is the one of `AUTOSSH_PORT` if that is set, otherwise of the last `-M` on the command line, which
is the configuration's if there is no other.  With monitoring off there are no monitor forwards, and
`newav` is the same in all environments that agree on the variables the configuration leaves
open. -/
theorem inherited_settings (hoptind : optind ≤ 1) (hoptind' : optind' ≤ 1)
    (h : supervise fopen now posix c host optind = .ok b)
    (h' : supervise fopen' now' posix c host' optind' = .ok b') :
    monitorOf (mhost c host) (portText posix c host) = .ok b.monitor ∧
      ((host .port).filter (· ≠ []) = none → (extraGroups posix c).any isMonitor = false →
        b.monitor.wp = monitorPort c ∧ b.monitor.echo = false) ∧
      (b.monitor.wp = 0 → ∀ i ∈ b.newav, i.forward? = none) ∧
      (Agree c host host' → b.newav = b'.newav) := by
  obtain ⟨hm, hnewav⟩ := supervise_newav hoptind h
  obtain ⟨hm', hnewav'⟩ := supervise_newav hoptind' h'
  refine ⟨hm, ?_, ?_, ?_⟩
  · intro hport hextra
    rw [portText_of_config hport hextra, monitorText_eq] at hm
    exact monitorOf_decimal (monitorPort_lt c) hm
  · intro hzero
    rw [hnewav]
    refine List.forall_mem_append.2 ⟨?_, forward?_rewriteLoop fun hne => absurd hzero hne⟩
    intro i hi
    rw [eq_of_mem_addArg hi]
    rfl
  · intro hagree
    obtain ⟨hport, hmhost, hpath⟩ := mainEnv_of_agree hagree
    have hmonitor : b.monitor = b'.monitor := by
      rw [hmhost, portText_of_agree hagree, hm'] at hm
      exact (Except.ok.inj hm).symm
    simp only [vector, hport, hpath, hmonitor] at hnewav
    rw [hnewav, hnewav']
    rfl

end Reached

/-- A session with monitoring off. -/
def bastion : SessionConfig := sample ⟨"bastion".toList, by decide⟩

/-- The session in a host with this `AUTOSSH_PORT` and this `optind`. -/
def superviseBastion (port : Option CString) (optind : ℕ) : Except Stop Built :=
  supervise (fun _ => true) 0 false bastion (empty.put .port port) optind

/-- A host that has an empty `AUTOSSH_PORT` and `AUTOSSH_MHOST`, and tunes the polling. -/
def tuned : Environ :=
  ((empty.put .port (some [])).put .mhost (some [])).put .poll (some "60".toList)

theorem agree_tuned : Agree bastion (empty.put .port none) tuned :=
  ⟨by decide, fun _ => by decide, fun _ => by decide⟩

theorem bastion_unmonitored :
    ∃ b b', superviseBastion none 1 = .ok b ∧
      supervise (fun _ => false) 5 false bastion tuned 0 = .ok b' ∧
      b.monitor.wp = 0 ∧ (∀ i ∈ b.newav, i.forward? = none) ∧ b.newav = b'.newav := by
  obtain ⟨b, hb, -⟩ := exists_ok (show (superviseBastion none 1).toOption.map (fun _ => ()) =
    some () by decide +kernel)
  obtain ⟨b', hb', -⟩ := exists_ok (show (supervise (fun _ => false) 5 false bastion tuned
    0).toOption.map (fun _ => ()) = some () by decide +kernel)
  obtain ⟨-, hconfig, hforwards, hnewav⟩ := inherited_settings le_rfl (Nat.zero_le 1) hb hb'
  obtain ⟨hwp, -⟩ := hconfig (by decide +kernel) (by decide +kernel)
  exact ⟨b, b', hb, hb', hwp, hforwards hwp, hnewav agree_tuned⟩

/-- `AUTOSSH_PORT` in the host turns monitoring on. -/
theorem bastion_monitored :
    bastion.monitorDisabled = true ∧ ∃ b, superviseBastion (some "20000".toList) 1 = .ok b ∧
      (b.monitor.wp, b.newav.filterMap Item.forward?) =
        (20000, ["-L".toList, "20000:127.0.0.1:20000".toList, "-R".toList,
          "20000:127.0.0.1:20001".toList]) :=
  ⟨rfl, exists_ok (by decide +kernel)⟩

-- with the `optind` of a host that has used `getopt`, the session's own `-M` is not seen
example : superviseBastion none 3 = .error (.args .usage) := by decide +kernel

end Config

end Autossh
