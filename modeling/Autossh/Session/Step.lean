import Autossh.Session.Basic

/-!
# The calls on a session (`src/api.rs`)

`callStep` is one step of one call on the shared `World`; `session` is the machine of any number
of calls, made at any time, with their steps interleaved in any order.
-/

namespace Autossh

namespace Session

/-- `kill_pid` refuses a pid that is not positive. -/
def killPid (p : ℤ) (g : KillSig) : Sys := if p ≤ 0 then .tau else .kill p g

/-- `child_exited` after its `waitpid`. -/
def childExited (p : ℤ) (r : Waited) : Option ℕ := if r.rc = p then some r.status else none

/-- The failure path of `autossh_session_start`: stop, then `set_error`. -/
def Pc.giveUp (m : Msg) : Pc := .stop .swap (some m)

/-- One step of `autossh_session_start`, with `reserve_port` and `reserve_monitor_port`. -/
def startStep (c : Cfg) (w : World) (y : Sys) : StartPc → Option (World × Pc)
  | .load => on .tau (w, if 0 < w.pid then .setError .alreadyStarted else .start .host) y
  | .host => on .tau (w, if c.bindHost = none then .setError .nonUtf8 else .start .localPort) y
  | .localPort => on .tau (w, .start (if w.localPort = 0 then .reserve else .monitorPort)) y
  | .reserve =>
    (y.listen? 0).map fun
      | .port p => ({ w with localPort := p }, .start .monitorPort)
      | .err e => (w, .setError (e.msg 0))
  | .monitorPort =>
    on .tau (w, .start
      (if c.monitorDisabled = false ∧ w.monitorPort = 0 then .first 64 else .starting)) y
  | .first 0 => on .tau (w, .setError .noAdjacentPorts) y
  | .first (n + 1) =>
    (y.listen? 0).map fun
      -- `u16::MAX` has no port after it
      | .port p => (w, .start (if p = 2 ^ 16 - 1 then .first n else .second n p))
      | .err e => (w, .setError (e.msg 0))
  | .second n p =>
    (y.listen? (p + 1)).map fun
      | .port _ => ({ w with monitorPort := p }, .start .starting)
      | .err .resolve => (w, .setError (.resolve (p + 1)))
      | .err _ => (w, .start (.first n))
  | .starting => on .tau ({ w with state := .starting }, .start .fork) y
  | .fork =>
    y.fork?.bind fun r => (w.procs.fork r).map fun k =>
      ({ w with procs := k }, if h : 0 < r then .start (.store ⟨r, h⟩) else .setError .forkFailed)
  -- from here on the other calls see the pid
  | .store p => on .tau ({ w with pid := p }, .listen .resolve) y
  | .running => on .tau ({ w with state := .running, lastError := .empty }, .ret 0) y

/-- One step of `wait_for_listener`. -/
def waitForListenerStep (c : Cfg) (w : World) (y : Sys) : ListenPc → Option (World × Pc)
  | .resolve =>
    if c.bindHost = none then on .tau (w, .giveUp .nonUtf8) y
    else y.resolve?.map fun ok =>
      (w, if ok then .listen .deadline else .giveUp (.resolve w.localPort))
  | .deadline =>
    y.expired?.map fun b => (w, if b then .giveUp (.timedOut w.localPort) else .listen .load)
  -- the pid is loaded anew in every round
  | .load => on .tau (w, .listen (.poll w.pid)) y
  | .poll p =>
    w.waitpid p true y fun r => match childExited p r with
      | some st => .giveUp (.exitedEarly st)
      | none => .listen .connect
  | .connect => y.connect?.map fun ok => (w, if ok then .start .running else .listen .deadline)

/-- One step of `autossh_session_stop`. -/
def stopStep (w : World) (k : Option Msg) (y : Sys) : StopPc → Option (World × Pc)
  | .swap =>
    on .tau ({ w with pid := 0 },
      .stop (if h : 0 < w.pid then .term ⟨w.pid, h⟩ else .finish) k) y
  | .term p => on (killPid p .sigterm) (w, .stop (.poll 50 p) k) y
  -- five seconds have passed
  | .poll 0 p => on .tau (w, .stop (.kill p) k) y
  | .poll (n + 1) p =>
    w.waitpid p true y fun r =>
      .stop (if r.rc = p.1 ∨ r = .err .echild then .finish else .poll n p) k
  | .kill p => on (killPid p .sigkill) (w, .stop (.wait p) k) y
  -- whatever the result
  | .wait p => w.waitpid p false y fun _ => .stop .finish k
  | .finish =>
    on .tau ({ w with state := .stopped }, match k with
      | none => .ret 0
      | some m => .setError m) y

/-- One step of `autossh_session_state`. -/
def stateStep (w : World) (y : Sys) : StatePc → Option (World × Pc)
  | .load => on .tau (w, .state (if h : 0 < w.pid then .poll ⟨w.pid, h⟩ else .read)) y
  | .poll p =>
    w.waitpid p true y fun r => .state (if (childExited p r).isSome then .cas p else .read)
  -- `compare_exchange`: a pid that was stored meanwhile stays
  | .cas p => on .tau ({ w with pid := if w.pid = p then 0 else w.pid }, .state .exited) y
  | .exited => on .tau ({ w with state := .exited }, .state .read) y
  | .read => on .tau (w, .ret w.state.code) y

/-- One step of a call. -/
def callStep (c : Cfg) (w : World) (y : Sys) : Pc → Option (World × Pc)
  | .start p => startStep c w y p
  | .listen p => waitForListenerStep c w y p
  | .stop p k => stopStep w k y p
  | .state p => stateStep w y p
  | .setError m => on .tau ({ w with state := .error, lastError := m }, .ret (-1)) y
  | .ret v => on (.ret v) (w, .done v) y
  | .idle | .done _ => none

/-- One step of the session with its environment. -/
def next (c : Cfg) (s : St) : Act → Option St
  | .call f =>
    some { s with count := s.count + 1, pcs := Function.update s.pcs s.count f.entry }
  | .step t y =>
    (callStep c s.world y (s.pcs t)).map fun x =>
      { s with world := x.1, pcs := Function.update s.pcs t x.2 }
  | .env m =>
    (s.world.procs.move m).map fun k => { s with world := { s.world with procs := k } }

/-- The session with any calls on it. -/
def session (c : Cfg) : Machine St Act := ⟨next c⟩

/-- Not a blocking `waitpid` that a signal has interrupted. -/
def Sys.uninterrupted : Sys → Bool
  | .waitpid _ false (.err .eintr) => false
  | _ => true

/-- A call that takes no more steps. -/
def Pc.quiet : Pc → Bool
  | .idle | .done _ => true
  | _ => false

/-- The call `t` starts the supervisor `p` and enters `wait_for_listener`. -/
def launch (t : ℕ) (p : ℤ) : List Act :=
  .call .start :: ([.tau, .tau, .tau, .tau, .tau, .fork p, .tau, .resolve true, .expired false,
    .tau].map (.step t))

/-- The supervisor is running and its listener accepts a connection. -/
def launched (t : ℕ) (p : ℤ) : List Act :=
  launch t p ++ [.waitpid p true .zero, .connect true, .tau, .ret 0].map (.step t)

variable {c : Cfg} {s s' : St} {w w' : World} {t : ℕ} {y : Sys} {p p' : Pc}

theorem next_step : next c s (.step t y) = some s' ↔
    ∃ w p, callStep c s.world y (s.pcs t) = some (w, p) ∧
      s' = { s with world := w, pcs := Function.update s.pcs t p } := by
  simp only [next, Option.map_eq_some_iff, Prod.exists, eq_comm (b := s')]

theorem next_env {m : Move} : next c s (.env m) = some s' ↔
    ∃ k, s.world.procs.move m = some k ∧ s' = { s with world := { s.world with procs := k } } := by
  simp only [next, Option.map_eq_some_iff, eq_comm (b := s')]

theorem not_quiet_of_callStep (h : callStep c w y p = some (w', p')) : p.quiet = false := by
  cases p with
  | idle | done v => cases h
  | _ => rfl

/-- The numbers from `count` on have not been used. -/
def Fresh (s : St) : Prop := ∀ t, s.count ≤ t → s.pcs t = .idle

theorem next_fresh {a : Act} (hs : Fresh s) (h : next c s a = some s') : Fresh s' := by
  cases a with
  | call f =>
    cases h
    intro t ht
    exact (Function.update_of_ne (Nat.ne_of_gt ht) ..).trans (hs t (Nat.le_of_succ_le ht))
  | step t y =>
    obtain ⟨w, p, hc, rfl⟩ := next_step.1 h
    intro t' ht'
    have hne : t' ≠ t := by
      rintro rfl
      have hq := not_quiet_of_callStep hc
      rw [hs t' ht'] at hq
      cases hq
    exact (Function.update_of_ne hne ..).trans (hs t' ht')
  | env m =>
    obtain ⟨k, -, rfl⟩ := next_env.1 h
    exact hs

end Session

end Autossh
