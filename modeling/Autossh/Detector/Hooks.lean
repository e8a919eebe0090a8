import Autossh.Detector.Basic

/-!
# The hooks, one atomic access at a time (`ssh-stuck-detector/src/lib.rs`)

`Autossh.Detector.Basic` takes `Tracker::enter`, `Tracker::leave` and a scan as one step each.  Here
every load and store of an atomic, every call that leaves the library and every reading of the clock
is a step of its own, so that the threads of ssh and the monitor interleave as they do in the
process.  The variables are sequentially consistent one by one; all results below are about one
variable at a time or about what `call_once` orders.

* `hookStep` : a hooked function, from the look-up of the real one to its own return.  The five have
  the same body, `Hook` says which it is;
* `monitorStep` : `monitor_main`;
* `library` : the process.  A hooked function can be called by a thread that is outside the library
  or inside a real function (`getaddrinfo` calls `connect`), not from a signal handler.

`dlsym` gives the address of the real function, or null; `raw` is `SSH_STUCK_THRESHOLD`.  Arguments,
results, addresses and threads are of arbitrary types.
-/

namespace Autossh

namespace Detector

namespace Hooks

/-- Control points of a hooked function; `p` is the address of the real one. -/
inductive HookPc (φ ρ : Type)
  /-- `REAL.load` -/
  | load
  /-- `next_fn`, the address being null -/
  | resolve
  /-- `REAL.store(p)` -/
  | cache (p : Option φ)
  /-- `MONITOR_STARTED.call_once` -/
  | once (p : Option φ)
  /-- `read_threshold` -/
  | readThreshold (p : Option φ)
  /-- `pthread_create` -/
  | spawn (p : Option φ)
  /-- `pthread_detach`, and `call_once` is done -/
  | finish (p : Option φ)
  /-- `start_sec.load` in `enter` -/
  | enterLoad (p : Option φ)
  /-- `now_secs` in `enter` -/
  | enterClock (p : Option φ)
  /-- `start_sec.store(now)` -/
  | enterStore (p : Option φ) (now : ℤ)
  /-- `real(..)` -/
  | call (p : Option φ) (prev : ℤ)
  /-- inside the real function -/
  | inside (prev : ℤ)
  /-- `if prev == 0`, `start_sec.store(0)` in `leave` -/
  | leaveStart (prev : ℤ) (r : ρ)
  /-- `last_warn_sec.store(0)` -/
  | leaveWarn (r : ρ)
  /-- the return -/
  | ret (r : ρ)
  deriving DecidableEq, Repr

/-- A hooked call that has not returned. -/
structure Frame (φ ι ρ : Type) where
  hook : Hook
  args : ι
  pc : HookPc φ ρ
  /-- History: the time `now_secs` gave to `enter`. -/
  entered : ℤ
  deriving DecidableEq, Repr

/-- `MONITOR_STARTED`. -/
inductive Once (τ : Type)
  | fresh
  /-- the thread `t` is in the closure, the others wait -/
  | running (t : τ)
  | done
  deriving DecidableEq, Repr

/-- Control points of `monitor_main`; `hs` are the trackers that are still to come. -/
inductive MonitorPc
  | sleep
  /-- `now_secs` -/
  | clock
  /-- `THRESHOLD_SECS.load` -/
  | limit (now : ℤ)
  /-- `start_sec.load` -/
  | observe (now threshold : ℤ) (hs : List Hook)
  /-- `last_warn_sec.load` -/
  | last (now threshold : ℤ) (h : Hook) (hs : List Hook) (start : ℤ)
  /-- `last_warn_sec.store(now)` -/
  | mark (now threshold : ℤ) (h : Hook) (hs : List Hook) (start : ℤ)
  /-- `warn_stderr` -/
  | warn (now threshold : ℤ) (h : Hook) (hs : List Hook) (start : ℤ)
  /-- `if elapsed >= threshold * 2` -/
  | test (now threshold : ℤ) (h : Hook) (hs : List Hook) (start : ℤ)
  /-- the final line -/
  | abort (now threshold : ℤ) (h : Hook) (start : ℤ)
  /-- `_exit(1)` -/
  | exit
  deriving DecidableEq, Repr

/-- What the threads share. -/
structure Shared (τ φ : Type) where
  startSec : Hook → ℤ
  lastWarnSec : Hook → ℤ
  /-- The `REAL_*` addresses. -/
  real : Hook → Option φ
  thresholdSecs : ℤ
  once : Once τ
  /-- The monitor thread, if there is one. -/
  monitor : Option MonitorPc
  /-- The monotonic clock. -/
  clock : ℤ

/-- The process. -/
structure Lib (τ φ ι ρ : Type) where
  sh : Shared τ φ
  /-- The hooked calls of every thread, the innermost first. -/
  stack : τ → List (Frame φ ι ρ)
  ended : Bool

/-- A step. -/
inductive Act (τ φ ι ρ : Type)
  /-- a thread calls a hooked function -/
  | call (t : τ) (h : Hook) (x : ι)
  /-- a load, a store or a test of a thread -/
  | tau (t : τ)
  /-- `dlsym` returns -/
  | dlsym (t : τ) (h : Hook) (p : Option φ)
  /-- `pthread_create` succeeds or fails -/
  | spawn (t : τ) (ok : Bool)
  /-- the real function is called -/
  | realCall (t : τ) (h : Hook) (p : φ) (x : ι)
  /-- the real function returns -/
  | realRet (t : τ) (r : ρ)
  /-- the hooked function returns -/
  | ret (t : τ) (h : Hook) (r : ρ)
  /-- a load, a store or a test of the monitor -/
  | monitor
  /-- the monitor reads `THRESHOLD_SECS` -/
  | limit (threshold : ℤ)
  /-- the monitor reads the `start_sec` of a tracker -/
  | observe (h : Hook) (start : ℤ)
  /-- the monitor writes to stderr -/
  | write (o : Out)
  /-- `_exit(1)` -/
  | exit
  /-- time passes -/
  | tick (d : ℕ)
  deriving DecidableEq

/-- Nothing has been called, at the time `now`. -/
def Lib.init {τ φ ι ρ : Type} (now : ℤ) : Lib τ φ ι ρ :=
  ⟨⟨fun _ => 0, fun _ => 0, fun _ => none, defaultThresholdSecs, .fresh, none, now⟩, fun _ => [],
    false⟩

section Results

variable {τ φ ι ρ : Type} [DecidableEq τ]

/-- The result of `pthread_create`. -/
def Act.spawn? (t : τ) : Act τ φ ι ρ → Option Bool
  | .spawn t' ok => if t' = t then some ok else none
  | _ => none

/-- The result of the real function. -/
def Act.realRet? (t : τ) : Act τ φ ι ρ → Option ρ
  | .realRet t' r => if t' = t then some r else none
  | _ => none

@[simp] theorem spawn?_eq_some {t : τ} {a : Act τ φ ι ρ} {ok : Bool} :
    a.spawn? t = some ok ↔ a = .spawn t ok := by
  cases a <;> simp [Act.spawn?]

@[simp] theorem realRet?_eq_some {t : τ} {a : Act τ φ ι ρ} {r : ρ} :
    a.realRet? t = some r ↔ a = .realRet t r := by
  cases a <;> simp [Act.realRet?]

end Results

section Moves

variable {τ φ ι ρ : Type}

/-- The thread whose step it is. -/
def Act.thread? : Act τ φ ι ρ → Option τ
  | .tau t | .dlsym t _ _ | .spawn t _ | .realCall t _ _ _ | .realRet t _ | .ret t _ _ => some t
  | _ => none

variable (raw : Option CString) (dlsym : Hook → Option φ)

/-- What a step of a hooked call does, case by case. -/
inductive Moves (t : τ) (s : Shared τ φ) :
    Frame φ ι ρ → Act τ φ ι ρ → Shared τ φ → Option (Frame φ ι ρ) → Prop
  | unknown {h x e} (hr : s.real h = none) :
    Moves t s ⟨h, x, .load, e⟩ (.tau t) s (some ⟨h, x, .resolve, e⟩)
  | known {h x e p} (hr : s.real h = some p) :
    Moves t s ⟨h, x, .load, e⟩ (.tau t) s (some ⟨h, x, .once (some p), e⟩)
  | resolve {h x e} :
    Moves t s ⟨h, x, .resolve, e⟩ (.dlsym t h (dlsym h)) s (some ⟨h, x, .cache (dlsym h), e⟩)
  | cache {h x p e} :
    Moves t s ⟨h, x, .cache p, e⟩ (.tau t) { s with real := Function.update s.real h p }
      (some ⟨h, x, .once p, e⟩)
  | first {h x p e} (ho : s.once = .fresh) :
    Moves t s ⟨h, x, .once p, e⟩ (.tau t) { s with once := .running t }
      (some ⟨h, x, .readThreshold p, e⟩)
  | later {h x p e} (ho : s.once = .done) :
    Moves t s ⟨h, x, .once p, e⟩ (.tau t) s (some ⟨h, x, .enterLoad p, e⟩)
  | readThreshold {h x p e} :
    Moves t s ⟨h, x, .readThreshold p, e⟩ (.tau t) { s with thresholdSecs := readThreshold raw }
      (some ⟨h, x, .spawn p, e⟩)
  | spawn {h x p e ok} :
    Moves t s ⟨h, x, .spawn p, e⟩ (.spawn t ok)
      { s with monitor := if ok then some .sleep else s.monitor } (some ⟨h, x, .finish p, e⟩)
  | finish {h x p e} :
    Moves t s ⟨h, x, .finish p, e⟩ (.tau t) { s with once := .done } (some ⟨h, x, .enterLoad p, e⟩)
  | idle {h x p e} (hs : s.startSec h = 0) :
    Moves t s ⟨h, x, .enterLoad p, e⟩ (.tau t) s (some ⟨h, x, .enterClock p, e⟩)
  | busy {h x p e} (hs : s.startSec h ≠ 0) :
    Moves t s ⟨h, x, .enterLoad p, e⟩ (.tau t) s (some ⟨h, x, .call p (s.startSec h), e⟩)
  | enterClock {h x p e} :
    Moves t s ⟨h, x, .enterClock p, e⟩ (.tau t) s (some ⟨h, x, .enterStore p s.clock, s.clock⟩)
  | enterStore {h x p now e} :
    Moves t s ⟨h, x, .enterStore p now, e⟩ (.tau t)
      { s with startSec := Function.update s.startSec h now } (some ⟨h, x, .call p 0, e⟩)
  | call {h x p prev e} :
    Moves t s ⟨h, x, .call (some p) prev, e⟩ (.realCall t h p x) s (some ⟨h, x, .inside prev, e⟩)
  | inside {h x prev r e} :
    Moves t s ⟨h, x, .inside prev, e⟩ (.realRet t r) s (some ⟨h, x, .leaveStart prev r, e⟩)
  | clear {h x r e} :
    Moves t s ⟨h, x, .leaveStart 0 r, e⟩ (.tau t)
      { s with startSec := Function.update s.startSec h 0 } (some ⟨h, x, .leaveWarn r, e⟩)
  | keep {h x prev r e} (hp : prev ≠ 0) :
    Moves t s ⟨h, x, .leaveStart prev r, e⟩ (.tau t) s (some ⟨h, x, .ret r, e⟩)
  | leaveWarn {h x r e} :
    Moves t s ⟨h, x, .leaveWarn r, e⟩ (.tau t)
      { s with lastWarnSec := Function.update s.lastWarnSec h 0 } (some ⟨h, x, .ret r, e⟩)
  | ret {h x r e} : Moves t s ⟨h, x, .ret r, e⟩ (.ret t h r) s none

variable {raw dlsym}

theorem Moves.thread {t : τ} {s sh : Shared τ φ} {f : Frame φ ι ρ} {a : Act τ φ ι ρ}
    {f' : Option (Frame φ ι ρ)} (h : Moves raw dlsym t s f a sh f') : a.thread? = some t := by
  cases h <;> rfl

end Moves

section Step

variable {τ φ ι ρ : Type} [DecidableEq τ] [DecidableEq φ] [DecidableEq ι] [DecidableEq ρ]

variable (raw : Option CString) (dlsym : Hook → Option φ)

/-- One step of the hooked call `f` of the thread `t`: the variables after it, and what is left of
the call. -/
def hookStep (t : τ) (s : Shared τ φ) (f : Frame φ ι ρ) (a : Act τ φ ι ρ) :
    Option (Shared τ φ × Option (Frame φ ι ρ)) :=
  match f.pc with
  | .load =>
    on (.tau t) (s, some { f with
      pc := if s.real f.hook = none then .resolve else .once (s.real f.hook) }) a
  | .resolve =>
    on (.dlsym t f.hook (dlsym f.hook)) (s, some { f with pc := .cache (dlsym f.hook) }) a
  | .cache p =>
    on (.tau t)
      ({ s with real := Function.update s.real f.hook p }, some { f with pc := .once p }) a
  | .once p =>
    match s.once with
    | .fresh =>
      on (.tau t) ({ s with once := .running t }, some { f with pc := .readThreshold p }) a
    | .running _ => none
    | .done => on (.tau t) (s, some { f with pc := .enterLoad p }) a
  | .readThreshold p =>
    -- `THRESHOLD_SECS` still holds the default, which is what is left if there is no number
    on (.tau t) ({ s with thresholdSecs := readThreshold raw }, some { f with pc := .spawn p }) a
  | .spawn p =>
    -- the result is ignored
    (a.spawn? t).map fun ok =>
      ({ s with monitor := if ok then some .sleep else s.monitor }, some { f with pc := .finish p })
  | .finish p => on (.tau t) ({ s with once := .done }, some { f with pc := .enterLoad p }) a
  | .enterLoad p =>
    on (.tau t) (s, some { f with
      pc := if s.startSec f.hook = 0 then .enterClock p else .call p (s.startSec f.hook) }) a
  | .enterClock p =>
    on (.tau t) (s, some { f with pc := .enterStore p s.clock, entered := s.clock }) a
  | .enterStore p now =>
    on (.tau t)
      ({ s with startSec := Function.update s.startSec f.hook now },
        some { f with pc := .call p 0 }) a
  | .call p prev =>
    -- a null address is not survived
    p.bind fun q => on (.realCall t f.hook q f.args) (s, some { f with pc := .inside prev }) a
  | .inside prev => (a.realRet? t).map fun r => (s, some { f with pc := .leaveStart prev r })
  | .leaveStart prev r =>
    if prev = 0 then
      on (.tau t)
        ({ s with startSec := Function.update s.startSec f.hook 0 },
          some { f with pc := .leaveWarn r }) a
    else on (.tau t) (s, some { f with pc := .ret r }) a
  | .leaveWarn r =>
    on (.tau t)
      ({ s with lastWarnSec := Function.update s.lastWarnSec f.hook 0 },
        some { f with pc := .ret r }) a
  | .ret r => on (.ret t f.hook r) (s, none) a

/-- Continue the monitor at `p`. -/
def Shared.goto (s : Shared τ φ) (p : MonitorPc) : Shared τ φ := { s with monitor := some p }

/-- One step of `monitor_main`; `_exit` is not one of the variables. -/
def monitorStep (s : Shared τ φ) (a : Act τ φ ι ρ) : MonitorPc → Option (Shared τ φ)
  | .sleep => on .monitor (s.goto .clock) a
  | .clock => on .monitor (s.goto (.limit s.clock)) a
  | .limit now =>
    on (.limit s.thresholdSecs) (s.goto (.observe now s.thresholdSecs trackers)) a
  | .observe _ _ [] => on .monitor (s.goto .sleep) a
  | .observe now th (h :: hs) =>
    on (.observe h (s.startSec h)) (s.goto
      (if s.startSec h = 0 ∨ i64Wrap (now - s.startSec h) < th then .observe now th hs
        else .last now th h hs (s.startSec h))) a
  | .last now th h hs start =>
    on .monitor (s.goto (if th ≤ i64Wrap (now - s.lastWarnSec h) then .mark now th h hs start
      else .test now th h hs start)) a
  | .mark now th h hs start =>
    on .monitor
      { s with
        lastWarnSec := Function.update s.lastWarnSec h now
        monitor := some (.warn now th h hs start) } a
  | .warn now th h hs start =>
    on (.write (.stuck h (i64Wrap (now - start)))) (s.goto (.test now th h hs start)) a
  | .test now th h hs start =>
    on .monitor (s.goto (if i64Wrap (th * 2) ≤ i64Wrap (now - start) then .abort now th h start
      else .observe now th hs)) a
  | .abort _ _ _ _ => on (.write .aborting) (s.goto .exit) a
  | .exit => on .exit s a

variable {raw dlsym}

theorem hookStep_moves {t : τ} {s sh : Shared τ φ} {f : Frame φ ι ρ} {a : Act τ φ ι ρ}
    {f' : Option (Frame φ ι ρ)} (h : hookStep raw dlsym t s f a = some (sh, f')) :
    Moves raw dlsym t s f a sh f' := by
  obtain ⟨g, x, pc, e⟩ := f
  cases pc with
  | load =>
    obtain ⟨rfl, rfl, rfl⟩ := on_pair_eq_some.1 h
    cases hr : s.real g with
    | none => exact .unknown hr
    | some p => exact .known hr
  | once p =>
    simp only [hookStep] at h
    split at h <;> rename_i ho
    · obtain ⟨rfl, rfl, rfl⟩ := on_pair_eq_some.1 h
      exact .first ho
    · cases h
    · obtain ⟨rfl, rfl, rfl⟩ := on_pair_eq_some.1 h
      exact .later ho
  | spawn p =>
    simp only [hookStep, Option.map_eq_some_iff, spawn?_eq_some] at h
    obtain ⟨ok, rfl, h⟩ := h
    cases h
    exact .spawn
  | enterLoad p =>
    obtain ⟨rfl, rfl, rfl⟩ := on_pair_eq_some.1 h
    dsimp only
    split_ifs with hs
    · exact .idle hs
    · exact .busy hs
  | call p prev =>
    simp only [hookStep, Option.bind_eq_some_iff] at h
    obtain ⟨q, rfl, h⟩ := h
    obtain ⟨rfl, rfl, rfl⟩ := on_pair_eq_some.1 h
    exact .call
  | inside prev =>
    simp only [hookStep, Option.map_eq_some_iff, realRet?_eq_some] at h
    obtain ⟨r, rfl, h⟩ := h
    cases h
    exact .inside
  | leaveStart prev r =>
    simp only [hookStep] at h
    split_ifs at h with hp
    · subst hp
      obtain ⟨rfl, rfl, rfl⟩ := on_pair_eq_some.1 h
      exact .clear
    · obtain ⟨rfl, rfl, rfl⟩ := on_pair_eq_some.1 h
      exact .keep hp
  | resolve | cache p | readThreshold p | finish p | enterClock p | enterStore p now | leaveWarn r
  | ret r =>
    obtain ⟨rfl, rfl, rfl⟩ := on_pair_eq_some.1 h
    constructor

theorem monitorStep_thread {s sh : Shared τ φ} {a : Act τ φ ι ρ} {p : MonitorPc}
    (h : monitorStep s a p = some sh) : a.thread? = none := by
  cases p with
  | observe now th hs => cases hs <;> rw [(on_eq_some.1 h).1] <;> rfl
  | _ =>
    rw [(on_eq_some.1 h).1]
    rfl

/-- A hooked function can be called here. -/
def callable : List (Frame φ ι ρ) → Bool
  | [] => true
  | f :: _ => match f.pc with
    | .inside _ => true
    | _ => false

variable (raw dlsym)

/-- A step inside the innermost hooked call of the thread. -/
def threadStep (s : Lib τ φ ι ρ) (t : τ) (a : Act τ φ ι ρ) : Option (Lib τ φ ι ρ) :=
  match s.stack t with
  | [] => none
  | f :: fs => (hookStep raw dlsym t s.sh f a).map fun x =>
      { s with sh := x.1, stack := Function.update s.stack t (x.2.toList ++ fs) }

/-- A step of the process. -/
def step (s : Lib τ φ ι ρ) : Act τ φ ι ρ → Option (Lib τ φ ι ρ)
  | .call t h x =>
    if callable (s.stack t) then
      some { s with stack := Function.update s.stack t (⟨h, x, .load, 0⟩ :: s.stack t) }
    else none
  | .tick d =>
    -- seconds since the machine was started
    if s.sh.clock + d < 2 ^ 62 then some { s with sh := { s.sh with clock := s.sh.clock + d } }
    else none
  | a => match a.thread? with
    | some t => threadStep raw dlsym s t a
    | none => s.sh.monitor.bind fun p => (monitorStep s.sh a p).map fun sh =>
        { s with sh := sh, ended := decide (a = .exit) }

/-- The process: nothing happens after `_exit`. -/
def library : Machine (Lib τ φ ι ρ) (Act τ φ ι ρ) where
  next s a := if s.ended then none else step raw dlsym s a

variable {raw dlsym} {s s' : Lib τ φ ι ρ} {a : Act τ φ ι ρ}

theorem threadStep_eq_some {t : τ} (h : threadStep raw dlsym s t a = some s') :
    ∃ f fs sh f', s.stack t = f :: fs ∧ Moves raw dlsym t s.sh f a sh f' ∧
      s' = { s with sh := sh, stack := Function.update s.stack t (f'.toList ++ fs) } := by
  unfold threadStep at h
  split at h
  · cases h
  · next f fs hst =>
    obtain ⟨⟨sh, f'⟩, hx, rfl⟩ := Option.map_eq_some_iff.1 h
    exact ⟨f, fs, sh, f', hst, hookStep_moves hx, rfl⟩

/-- A step is a call of a hooked function, a step inside one, a step of the monitor, or time
passes. -/
theorem library_next (h : (library raw dlsym).next s a = some s') :
    (∃ t h x, a = .call t h x ∧ callable (s.stack t) = true ∧
      s' = { s with stack := Function.update s.stack t (⟨h, x, .load, 0⟩ :: s.stack t) }) ∨
    (∃ t f fs sh f', s.stack t = f :: fs ∧ Moves raw dlsym t s.sh f a sh f' ∧
      s' = { s with sh := sh, stack := Function.update s.stack t (f'.toList ++ fs) }) ∨
    (∃ p sh, s.sh.monitor = some p ∧ monitorStep s.sh a p = some sh ∧
      s' = { s with sh := sh, ended := decide (a = .exit) }) ∨
    (∃ d : ℕ, a = .tick d ∧ s.sh.clock + d < 2 ^ 62 ∧
      s' = { s with sh := { s.sh with clock := s.sh.clock + d } }) := by
  simp only [library] at h
  split_ifs at h
  cases a with
  | call t g x =>
    simp only [step] at h
    split_ifs at h with hc
    cases h
    exact .inl ⟨t, g, x, rfl, hc, rfl⟩
  | tick d =>
    simp only [step] at h
    split_ifs at h with hd
    cases h
    exact .inr (.inr (.inr ⟨d, rfl, hd, rfl⟩))
  | tau t | dlsym t g p | spawn t ok | realCall t g p x | realRet t r | ret t g r =>
    exact .inr (.inl ⟨t, threadStep_eq_some h⟩)
  | monitor | limit th | observe g v | write o | exit =>
    obtain ⟨p, hp, hm⟩ := Option.bind_eq_some_iff.1 h
    obtain ⟨sh, hsh, rfl⟩ := Option.map_eq_some_iff.1 hm
    exact .inr (.inr (.inl ⟨p, sh, hp, hsh, rfl⟩))

end Step

end Hooks

end Detector

end Autossh
