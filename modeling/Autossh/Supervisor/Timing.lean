import Autossh.Supervisor.Basic

/-!
# Lifetime, alarm and back-off (`src/lifetime.rs`, `src/grace.rs`)
-/

namespace Autossh

namespace Supervisor

/-- The result of `exceeded_lifetime` at the time `now`. -/
def exceededLifetime (c : Cfg) (now : ℤ) : Bool :=
  0 < c.maxLifetime ∧ c.maxLifetime ≤ now - c.pidStartTime

/-- The seconds from `now` to the expiry. -/
def secsToShutdown (c : Cfg) (now : ℤ) : ℤ := c.pidStartTime + c.maxLifetime - now

/-- What `alarm` returns about a pending timer: the seconds left, rounded up to 1, or 0. -/
def timerLeft : Option ℕ → ℕ
  | none => 0
  | some r => max 1 r

/-- `N_FAST_TRIES`. -/
def nFastTries : ℤ := 5

/-- The minimum time `grace_time` asks a child to live. -/
def minTime (c : Cfg) : ℤ := max 10 (c.pollTime / 10)

/-- `TRIES` after `grace_time` has looked at the clock. -/
def graceTries (c : Cfg) (tries lastStart now : ℤ) : ℤ :=
  if minTime c ≤ now - lastStart then 0 else i32Wrap (tries + 1)

/-- The seconds `grace_time` sleeps as back-off: `poll_time / 100 * (t * (t / 3))` with
`t = TRIES - N_FAST_TRIES`, in exact arithmetic and truncated, and at most `poll_time`. -/
def graceInterval (c : Cfg) (tries : ℤ) : ℕ :=
  if nFastTries < tries then
    (min c.pollTime (i32Sat (c.pollTime * (tries - nFastTries) ^ 2 / 300))).toNat
  else 0

end Supervisor

end Autossh
