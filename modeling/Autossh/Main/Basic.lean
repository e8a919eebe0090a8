import Autossh.Args.Basic
import Autossh.Supervisor.Causes
import Autossh.Supervisor.Settings

/-!
# The process around `ssh_run` (`src/main_logic.rs`, `src/util.rs`, `src/log.rs`)

When `autossh_main` has built ssh's arguments it becomes a daemon if it is asked to, opens the
monitor's listening socket (`conn_listen`), writes the pid file, calls `ssh_run`, closes the socket
and returns.  `main` passes the result to `exit`, which runs the handler that removes the pid file;
`child_main` (`src/api.rs`) passes it to `_exit`, which does not.  An error ends in `xerrlog_str`:
`ssh_kill`, `unlink_pid_file` and `_exit(1)`.

* `Plan` : what the environment and the command line have decided (`Plan.ofBuilt`);
* `Stage` : where the process is; in the stage `run` it is the supervisor;
* `process` : the machine.  The supervisor's state is there in every stage: it has the signals and
  the clock, and after `ssh_run` has returned its handlers are still installed;
* `run_sup` : the supervisor's part of a run is a run of the supervisor.

Before `ssh_run`, `ssh_kill` has nothing to do: `cchild` is 0 and `ssh_stderr_fd` is -1.
-/

namespace Autossh

namespace Main

open Supervisor

/-- What has been decided before. -/
structure Plan where
  cfg : Cfg
  /-- `runasdaemon` -/
  daemon : Bool
  /-- monitoring without an echo port: `conn_listen` is called -/
  listen : Bool
  /-- `pid_file_name` -/
  pidFile : Option CString
  /-- the process is the supervisor of a session, in `child_main` -/
  embedded : Bool

/-- The plan that follows from the environment and from the command line: `-f` sets `gate_time`
to 0. -/
def Plan.ofBuilt {fopen : CString → Bool} {now : ℤ} {e : Environ} {s : Environ.Settings}
    (h : Environ.getEnvArgs fopen now e = .ok s) (b : Args.Built) (embedded : Bool) : Plan where
  cfg :=
    { Cfg.ofSettings h (b.monitor.wp ≠ 0) with
      gateTime := if b.daemon then 0 else (Cfg.ofSettings h (b.monitor.wp ≠ 0)).gateTime }
  daemon := b.daemon
  listen := b.monitor.wp ≠ 0 && !b.monitor.echo
  pidFile := s.pidFileName
  embedded := embedded

/-- How the process has ended. -/
inductive End
  /-- `exit` or `_exit` with what `autossh_main` has returned -/
  | returned (status : ℕ)
  /-- `_exit(1)` in `xerrlog_str` -/
  | fatal
  /-- `_exit(1)` in `sig_catch`, at a second signal to exit -/
  | bailed
  /-- the default action of a signal -/
  | killed
  deriving DecidableEq, Repr

/-- Where the process is. -/
inductive Stage
  | daemon
  /-- `conn_listen` -/
  | getaddrinfo | socket | setsockopt | bind | listen
  /-- `fcntl(sock, F_SETFD, FD_CLOEXEC)` -/
  | cloexec
  | fopen
  /-- `pid_file_created = 1; atexit(unlink_pid_atexit)` -/
  | register
  | fprintf
  | fclose
  /-- `ssh_run` -/
  | run
  | shutdown (rc : Rc)
  | close (rc : Rc)
  /-- `exit` runs `unlink_pid_atexit` -/
  | atexit (rc : Rc)
  | exit (rc : Rc)
  /-- `unlink_pid_file` in `xerrlog_str` -/
  | unlink
  /-- `_exit(1)` in `xerrlog_str` -/
  | abort
  | done (e : End)
  deriving DecidableEq, Repr

/-- The calls of the process outside `ssh_run`, with their results. -/
inductive Call
  /-- `daemon(0, 0)`: the process goes on under a new pid. -/
  | daemon (r : Option ℤ)
  | getaddrinfo (ok : Bool)
  | socket (r : Option ℕ)
  | setsockopt (fd : ℤ) (ok : Bool)
  | bind (fd : ℤ) (ok : Bool)
  | listen (fd : ℤ) (ok : Bool)
  | cloexec (fd : ℤ)
  | fopen (path : CString) (ok : Bool)
  | atexit
  /-- `fprintf(pid_file, "%d\n", n)`, which returned `r`. -/
  | fprintf (n r : ℤ)
  | fclose
  | shutdown (fd : ℤ)
  | close (fd : ℤ)
  | unlink (path : CString)
  /-- `exit` or `_exit`. -/
  | exit (status : ℕ)
  deriving DecidableEq, Repr

/-- An action of the supervisor or its environment, or one of these calls. -/
inductive Act
  | sup (a : Supervisor.Act)
  | call (x : Call)

/-- The process. -/
structure Proc where
  stage : Stage
  sup : St
  pid : ℤ
  /-- `sock` -/
  sock : ℤ
  /-- `pid_file_created` -/
  created : Bool

/-- What `autossh_main` returns. -/
def status (rc : Rc) : ℕ := if rc = .exitErr then 1 else 0

namespace Plan

variable (P : Plan)

/-- The socket is open. -/
def afterListen : Stage := if P.pidFile.isSome then .fopen else .run

/-- The process is in the background. -/
def afterDaemon : Stage := if P.listen then .getaddrinfo else P.afterListen

/-- The first thing to do. -/
def first : Stage := if P.daemon then .daemon else P.afterDaemon

/-- `autossh_main` has returned: `exit` in `main`, `_exit` in `child_main`. -/
def afterClose (created : Bool) (rc : Rc) : Stage :=
  if created && !P.embedded then .atexit rc else .exit rc

end Plan

/-- Go on with a stage. -/
def Proc.to (p : Proc) (g : Stage) : Proc := { p with stage := g }

/-- `xerrlog_str`. -/
def Proc.fail (p : Proc) : Proc := p.to (if p.created then .unlink else .abort)

/-- The process before `getopt` has found anything else to do. -/
def Proc.start (P : Plan) (i : Inherited) (pid : ℤ) : Proc :=
  ⟨P.first, .init i, pid, if P.listen || !P.cfg.monitor then -1 else -2, false⟩

/-- One call. -/
def callStep (P : Plan) (p : Proc) (x : Call) : Option Proc :=
  match p.stage, x with
  | .daemon, .daemon r => some <| match r with
    | some pid => { p with pid := pid, stage := P.afterDaemon }
    | none => p.fail
  | .getaddrinfo, .getaddrinfo ok => some (if ok then p.to .socket else p.fail)
  | .socket, .socket r => some <| match r with
    | some fd => { p with sock := fd, stage := .setsockopt }
    | none => p.fail
  | .setsockopt, .setsockopt fd ok =>
    if fd = p.sock then some (if ok then p.to .bind else p.fail) else none
  | .bind, .bind fd ok => if fd = p.sock then some (if ok then p.to .listen else p.fail) else none
  | .listen, .listen fd ok =>
    if fd = p.sock then some (if ok then p.to .cloexec else p.fail) else none
  | .cloexec, .cloexec fd => if fd = p.sock then some (p.to P.afterListen) else none
  | .fopen, .fopen path ok =>
    if P.pidFile = some path then some (if ok then p.to .register else p.fail) else none
  | .register, .atexit => some { p with created := true, stage := .fprintf }
  -- an error is a negative result, which is not looked for
  | .fprintf, .fprintf n r =>
    if n = p.pid then some (if r = 0 then p.fail else p.to .fclose) else none
  | .fclose, .fclose => some (p.to .run)
  -- `xerrlog_str` in `ssh_run`
  | .run, .unlink path =>
    match p.sup.pc with
    | .exit =>
      if P.pidFile = some path ∧ p.created = true then some { p with created := false } else none
    | _ => none
  | .shutdown rc, .shutdown fd => if fd = p.sock then some (p.to (.close rc)) else none
  | .close rc, .close fd => if fd = p.sock then some (p.to (P.afterClose p.created rc)) else none
  | .atexit rc, .unlink path =>
    if P.pidFile = some path then some { p with created := false, stage := .exit rc } else none
  | .exit rc, .exit st => if st = status rc then some (p.to (.done (.returned st))) else none
  | .unlink, .unlink path =>
    if P.pidFile = some path then some { p with created := false, stage := .abort } else none
  | .abort, .exit st => if st = 1 then some (p.to (.done .fatal)) else none
  | _, _ => none

/-- The end of a process that a signal has ended, directly or in `sig_catch`. -/
def struck (a : Supervisor.Act) : Stage := .done (if a = .exit then .bailed else .killed)

/-- The stage after a step of the environment or of `sig_catch`. -/
def Stage.after (g : Stage) (a : Supervisor.Act) : Pc → Stage
  | .gone => struck a
  | _ => g

/-- One step of the supervisor. -/
def supStep (P : Plan) (p : Proc) (a : Supervisor.Act) : Option Proc :=
  if a.isEnv || !p.sup.frames.isEmpty then
    (next P.cfg p.sup a).map fun s => { p with sup := s, stage := p.stage.after a s.pc }
  else if p.stage = .run then
    match p.sup.pc with
    -- `ssh_run` returns; its handlers stay
    | .run (.ret rc) => on (.runRet rc)
        (p.to (if 0 ≤ p.sock then .shutdown rc else P.afterClose p.created rc)) a
    | .exit => if p.created then none else
        (next P.cfg p.sup a).map fun s => { p with sup := s, stage := .done .fatal }
    | _ => (next P.cfg p.sup a).map fun s => { p with sup := s }
  else none

/-- The process. -/
def process (P : Plan) : Machine Proc Act where
  next p a := match p.stage with
    | .done _ => none
    | _ => match a with
      | .sup a => supStep P p a
      | .call x => if p.sup.frames.isEmpty then callStep P p x else none

/-! ### Steps -/

variable {P : Plan} {p p' : Proc} {a : Act} {b : Supervisor.Act}

/-- A step is one of the supervisor, or a call with no activation of `sig_catch` in progress. -/
theorem process_next (h : (process P).next p a = some p') : (∀ e, p.stage ≠ .done e) ∧
    ((∃ b, a = .sup b ∧ supStep P p b = some p') ∨
      ∃ x, a = .call x ∧ p.sup.frames = [] ∧ callStep P p x = some p') := by
  simp only [process] at h
  split at h
  · cases h
  · rename_i hdone
    refine ⟨hdone, ?_⟩
    cases a with
    | sup b => exact .inl ⟨b, rfl, h⟩
    | call x =>
      simp only at h
      split_ifs at h with hf
      exact .inr ⟨x, rfl, List.isEmpty_iff.1 hf, h⟩

/-- What a step of the supervisor does to the process. -/
theorem supStep_cases (h : supStep P p b = some p') :
    (∃ s, (b.isEnv = true ∨ p.sup.frames ≠ []) ∧ next P.cfg p.sup b = some s ∧
      p' = { p with sup := s, stage := p.stage.after b s.pc }) ∨
    (p.stage = .run ∧ p.sup.frames = [] ∧
      ((∃ rc, p.sup.pc = .run (.ret rc) ∧ b = .runRet rc ∧
          p' = p.to (if 0 ≤ p.sock then .shutdown rc else P.afterClose p.created rc)) ∨
        (p.sup.pc = .exit ∧ p.created = false ∧ ∃ s, next P.cfg p.sup b = some s ∧
          p' = { p with sup := s, stage := .done .fatal }) ∨
        (p.sup.pc ≠ .exit ∧ (∀ rc, p.sup.pc ≠ .run (.ret rc)) ∧
          ∃ s, next P.cfg p.sup b = some s ∧ p' = { p with sup := s }))) := by
  unfold supStep at h
  by_cases hasync : (b.isEnv || !p.sup.frames.isEmpty) = true
  · rw [if_pos hasync] at h
    obtain ⟨s, hs, rfl⟩ := Option.map_eq_some_iff.1 h
    exact .inl ⟨s, by simpa using hasync, hs, rfl⟩
  · have hf : p.sup.frames = [] := by
      simp only [Bool.or_eq_true, not_or] at hasync
      simpa using hasync.2
    rw [if_neg hasync] at h
    by_cases hrun : p.stage = .run
    · rw [if_pos hrun] at h
      refine .inr ⟨hrun, hf, ?_⟩
      split at h
      · rename_i rc hp
        obtain ⟨rfl, rfl⟩ := on_eq_some.1 h
        exact .inl ⟨rc, hp, rfl, rfl⟩
      · rename_i hp
        split_ifs at h with hc
        obtain ⟨s, hs, rfl⟩ := Option.map_eq_some_iff.1 h
        exact .inr (.inl ⟨hp, by simpa using hc, s, hs, rfl⟩)
      · rename_i hret hp
        obtain ⟨s, hs, rfl⟩ := Option.map_eq_some_iff.1 h
        exact .inr (.inr ⟨hp, hret, s, hs, rfl⟩)
    · rw [if_neg hrun] at h
      cases h

/-- The stages before there is a pid file. -/
def Stage.opening : Stage → Bool
  | .daemon | .getaddrinfo | .socket | .setsockopt | .bind | .listen | .cloexec | .fopen => true
  | _ => false

/-- The call has nothing to do with the pid file. -/
def Call.quiet : Call → Bool
  | .fopen _ ok => !ok
  | .fprintf _ _ | .unlink _ => false
  | _ => true

/-- What a call does to the process. -/
inductive Calls (P : Plan) (p : Proc) : Call → Proc → Prop
  | opens {x : Call} {pid sock : ℤ} {g : Stage} (h : p.stage.opening = true)
      (hx : x.quiet = true) (hpid : p.stage ≠ .daemon → pid = p.pid)
      (hg : (g.opening = true ∧ g ≠ .daemon) ∨ (g = .run ∧ P.pidFile = none)) :
      Calls P p x { p with pid := pid, sock := sock, stage := g }
  | fails {x : Call} (h : p.stage.opening = true) (hx : x.quiet = true) : Calls P p x p.fail
  | fopen {path : CString} (h : p.stage = .fopen) (hpath : P.pidFile = some path) :
      Calls P p (.fopen path true) (p.to .register)
  | register (h : p.stage = .register) :
      Calls P p .atexit { p with created := true, stage := .fprintf }
  | fprintf {r : ℤ} (h : p.stage = .fprintf) : Calls P p (.fprintf p.pid r) (p.to .fclose)
  | unwritten (h : p.stage = .fprintf) : Calls P p (.fprintf p.pid 0) p.fail
  | fclose (h : p.stage = .fclose) : Calls P p .fclose (p.to .run)
  | unlinkRun {path : CString} (h : p.stage = .run) (hp : p.sup.pc = .exit)
      (hc : p.created = true) (hpath : P.pidFile = some path) :
      Calls P p (.unlink path) { p with created := false }
  | shutdown {rc : Rc} (h : p.stage = .shutdown rc) :
      Calls P p (.shutdown p.sock) (p.to (.close rc))
  | close {rc : Rc} (h : p.stage = .close rc) :
      Calls P p (.close p.sock) (p.to (P.afterClose p.created rc))
  | unlinkExit {path : CString} {rc : Rc} (h : p.stage = .atexit rc)
      (hpath : P.pidFile = some path) :
      Calls P p (.unlink path) { p with created := false, stage := .exit rc }
  | exit {rc : Rc} (h : p.stage = .exit rc) :
      Calls P p (.exit (status rc)) (p.to (.done (.returned (status rc))))
  | unlink {path : CString} (h : p.stage = .unlink) (hpath : P.pidFile = some path) :
      Calls P p (.unlink path) { p with created := false, stage := .abort }
  | abort (h : p.stage = .abort) : Calls P p (.exit 1) (p.to (.done .fatal))

theorem afterListen_cases (P : Plan) :
    (P.afterListen.opening = true ∧ P.afterListen ≠ .daemon) ∨
      (P.afterListen = .run ∧ P.pidFile = none) := by
  unfold Plan.afterListen
  cases P.pidFile with
  | none => exact .inr ⟨rfl, rfl⟩
  | some path => exact .inl ⟨rfl, by simp⟩

theorem afterDaemon_cases (P : Plan) :
    (P.afterDaemon.opening = true ∧ P.afterDaemon ≠ .daemon) ∨
      (P.afterDaemon = .run ∧ P.pidFile = none) := by
  unfold Plan.afterDaemon
  split_ifs
  · exact .inl ⟨rfl, by simp⟩
  · exact afterListen_cases P

theorem callStep_calls {x : Call} (h : callStep P p x = some p') : Calls P p x p' := by
  -- a call that leads on, or fails
  have hopen : ∀ {x : Call} {g : Stage} {ok : Bool}, p.stage.opening = true → x.quiet = true →
      g.opening = true ∧ g ≠ .daemon → Calls P p x (if ok then p.to g else p.fail) := by
    intro x g ok hp hx hg
    split_ifs
    · exact .opens hp hx (fun _ => rfl) (.inl hg)
    · exact .fails hp hx
  unfold callStep at h
  split at h <;> rename_i hp
  · cases h
    split
    · exact .opens (by rw [hp]; rfl) rfl (fun hne => absurd hp hne) (afterDaemon_cases P)
    · exact .fails (by rw [hp]; rfl) rfl
  · cases h
    exact hopen (by rw [hp]; rfl) rfl ⟨rfl, by simp⟩
  · cases h
    split
    · exact .opens (by rw [hp]; rfl) rfl (fun _ => rfl) (.inl ⟨rfl, by simp⟩)
    · exact .fails (by rw [hp]; rfl) rfl
  · obtain ⟨-, h⟩ := Option.ite_none_right_eq_some.1 h
    cases h
    exact hopen (by rw [hp]; rfl) rfl ⟨rfl, by simp⟩
  · obtain ⟨-, h⟩ := Option.ite_none_right_eq_some.1 h
    cases h
    exact hopen (by rw [hp]; rfl) rfl ⟨rfl, by simp⟩
  · obtain ⟨-, h⟩ := Option.ite_none_right_eq_some.1 h
    cases h
    exact hopen (by rw [hp]; rfl) rfl ⟨rfl, by simp⟩
  · obtain ⟨-, h⟩ := Option.ite_none_right_eq_some.1 h
    cases h
    exact .opens (by rw [hp]; rfl) rfl (fun _ => rfl) (afterListen_cases P)
  · rename_i path ok
    obtain ⟨hpath, h⟩ := Option.ite_none_right_eq_some.1 h
    cases h
    cases ok with
    | true => exact .fopen hp hpath
    | false => exact .fails (by rw [hp]; rfl) rfl
  · cases h
    exact .register hp
  · obtain ⟨rfl, h'⟩ := Option.ite_none_right_eq_some.1 h
    cases h'
    split_ifs with hr
    · subst hr
      exact .unwritten hp
    · exact .fprintf hp
  · cases h
    exact .fclose hp
  · split at h
    · rename_i hpc
      obtain ⟨⟨hpath, hc⟩, h⟩ := Option.ite_none_right_eq_some.1 h
      cases h
      exact .unlinkRun hp hpc hc hpath
    · cases h
  · obtain ⟨rfl, h'⟩ := Option.ite_none_right_eq_some.1 h
    cases h'
    exact .shutdown hp
  · obtain ⟨rfl, h'⟩ := Option.ite_none_right_eq_some.1 h
    cases h'
    exact .close hp
  · obtain ⟨hpath, h⟩ := Option.ite_none_right_eq_some.1 h
    cases h
    exact .unlinkExit hp hpath
  · obtain ⟨rfl, h'⟩ := Option.ite_none_right_eq_some.1 h
    cases h'
    exact .exit hp
  · obtain ⟨hpath, h⟩ := Option.ite_none_right_eq_some.1 h
    cases h
    exact .unlink hp hpath
  · obtain ⟨rfl, h'⟩ := Option.ite_none_right_eq_some.1 h
    cases h'
    exact .abort hp
  · cases h

theorem Calls.sup {x : Call} (h : Calls P p x p') : p'.sup = p.sup := by
  cases h <;> rfl

/-! ### The supervisor's part -/

/-- The actions of the supervisor and its environment.  The `return` of `ssh_run` is left out: the
process goes on with the supervisor's handlers. -/
def Act.sup? : Act → Option Supervisor.Act
  | .sup (.runRet _) => none
  | .sup b => some b
  | .call _ => none

/-- The supervisor's part of a run. -/
def supActs (as : List Act) : List Supervisor.Act := as.filterMap Act.sup?

/-- **The supervisor's part of a run is a run of the supervisor.** -/
theorem run_sup {i : Inherited} {pid : ℤ} {as : List Act}
    (h : (process P).Run (.start P i pid) as p) :
    (supervisor P.cfg).Run (.init i) (supActs as) p.sup := by
  have hinit : (supervisor P.cfg).Run (.init i) (supActs []) (Proc.start P i pid).sup := rfl
  refine Machine.Run.induct
    (P := fun as p => (supervisor P.cfg).Run (.init i) (supActs as) p.sup) hinit ?_ h
  rintro as p a p' - hr hn
  have hstep : ∀ b s, next P.cfg p.sup b = some s → (∀ rc, b ≠ .runRet rc) →
      (supervisor P.cfg).Run (.init i) (supActs (as ++ [.sup b])) s := by
    intro b s hs hne
    have hb : Act.sup? (.sup b) = some b := by
      cases b with
      | runRet rc => exact absurd rfl (hne rc)
      | _ => rfl
    rw [supActs, List.filterMap_append, List.filterMap_cons_some hb]
    exact Machine.run_concat.2 ⟨_, hr, hs⟩
  have hskip : ∀ a, Act.sup? a = none → supActs (as ++ [a]) = supActs as := by
    intro a ha
    rw [supActs, List.filterMap_append, List.filterMap_cons_none ha]
    simp [supActs]
  obtain ⟨-, ⟨b, rfl, hb⟩ | ⟨x, rfl, -, hx⟩⟩ := process_next hn
  · rcases supStep_cases hb with ⟨s, hasync, hs, rfl⟩ | ⟨-, hf, ⟨rc, hp, rfl, rfl⟩ |
      ⟨hp, -, s, hs, rfl⟩ | ⟨-, hret, s, hs, rfl⟩⟩
    · refine hstep b s hs fun rc hrc => ?_
      subst hrc
      obtain ⟨hf, -⟩ := next_call rfl hs
      exact hasync.elim (fun he => by cases he) (fun hne => hne hf)
    · rw [hskip _ rfl]
      exact hr
    · refine hstep b s hs fun rc hrc => ?_
      subst hrc
      obtain ⟨-, hsite, -⟩ := next_call rfl hs
      rw [show p.sup.pc = .run (.ret rc) from hsite] at hp
      cases hp
    · refine hstep b s hs fun rc hrc => ?_
      subst hrc
      obtain ⟨-, hsite, -⟩ := next_call rfl hs
      exact hret rc hsite
  · rw [hskip _ rfl, (callStep_calls hx).sup]
    exact hr

end Main

end Autossh
