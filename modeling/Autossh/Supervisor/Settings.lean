import Autossh.Environ.Exact
import Autossh.Supervisor.Basic

/-!
# The supervisor's settings

`Cfg` carries what `ssh_run` relies on: positive poll times, within the lifetime.  What
`get_env_args` leaves behind is such a `Cfg` (`Cfg.ofSettings`), whatever the environment.
-/

namespace Autossh

namespace Supervisor

open Environ

variable {fopen : CString → Bool} {now : ℤ} {e : Environ} {s : Settings}

/-- The settings with which `ssh_run` is called. -/
def Cfg.ofSettings (h : getEnvArgs fopen now e = .ok s) (monitor : Bool) : Cfg where
  maxStart := s.maxStart
  gateTime := s.rounded.gateTime
  pollTime := s.pollTime
  firstPollTime := s.firstPollTime
  maxLifetime := s.rounded.maxLifetime
  maxSession := s.rounded.maxSession
  pidStartTime := s.pidStartTime
  monitor := monitor
  pollTime_pos := (pollTimes_of_getEnvArgs h).1.1
  pollTime_lt := (pollTimes_of_getEnvArgs h).1.2.1
  firstPollTime_pos := (pollTimes_of_getEnvArgs h).2.1
  firstPollTime_lt := (pollTimes_of_getEnvArgs h).2.2.1
  maxLifetime_nonneg := Int.natCast_nonneg _
  maxSession_nonneg := Int.natCast_nonneg _
  pollTime_le := (pollTimes_of_getEnvArgs h).1.2.2
  firstPollTime_le := (pollTimes_of_getEnvArgs h).2.2.2

/-- Nothing is set. -/
theorem ofSettings_empty (h : getEnvArgs fopen now empty = .ok s) :
    Cfg.ofSettings h false = .default := by
  have hempty : getEnvArgs fopen now empty = getEnvArgs (fun _ => true) 0 empty := rfl
  obtain ⟨u, hu, hus⟩ := exists_ok (f := fun s : Settings => s) (show
    (getEnvArgs (fun _ => true) 0 empty).toOption.map (fun s => s) = some
      ⟨"/usr/bin/ssh".toList, false, 6, 600, 600, 30, -1, [], none, 0, 0, 0, none, none⟩ by
        decide +kernel)
  obtain rfl : s = u := Except.ok.inj (h.symm.trans (hempty.trans hu))
  subst hus
  rfl

end Supervisor

end Autossh
