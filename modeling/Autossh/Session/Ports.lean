import Autossh.Session.Alone

/-!
# The ports a start call chooses

A port that is 0 in the configuration is chosen by `autossh_session_start`: a listener is opened on
port 0, its port is written into the configuration, and the listener is closed again before the
next step.  The monitor needs two adjacent ports.

* `Reserves` : what the steps up to the fork do with the ports; `soloNext_ports` : no other step
  does anything with them;
* `failed_keeps_iff` : a start call that fails has left the ports as they were exactly if it had
  none to choose, or failed in choosing it;
* `reserved_distinct_iff` : the ports handed to the supervisor are distinct exactly if the kernel
  happened not to choose one that was chosen or configured before (`avoids`).
-/

namespace Autossh

namespace Session

/-- The listener that has been opened: the port asked for, and the port it has. -/
def Sys.opened : Sys → Option (ℕ × ℕ)
  | listen q (.port r) => some (q, r)
  | _ => none

/-- Up to the fork: before the state becomes `AUTOSSH_STATE_STARTING`. -/
def Pc.reserving : Pc → Bool
  | .start .load | .start .host | .start .localPort | .start .reserve | .start .monitorPort
  | .start (.first _) | .start (.second _ _) => true
  | _ => false

/-- The steps up to the fork. -/
inductive Reserves (c : Cfg) (w : World) : StartPc → Sys → World → Pc → Prop
  | fail {p y m} : y.opened = none → Reserves c w p y w (.setError m)
  | load : Reserves c w .load .tau w (.start .host)
  | host : Reserves c w .host .tau w (.start .localPort)
  | hasLocal : w.localPort ≠ 0 → Reserves c w .localPort .tau w (.start .monitorPort)
  | noLocal : w.localPort = 0 → Reserves c w .localPort .tau w (.start .reserve)
  | local {q} : 0 < q → q < 2 ^ 16 →
      Reserves c w .reserve (.listen 0 (.port q)) { w with localPort := q } (.start .monitorPort)
  | hasPair : ¬(c.monitorDisabled = false ∧ w.monitorPort = 0) →
      Reserves c w .monitorPort .tau w (.start .starting)
  | noPair : c.monitorDisabled = false → w.monitorPort = 0 →
      Reserves c w .monitorPort .tau w (.start (.first 64))
  | last {n} : Reserves c w (.first (n + 1)) (.listen 0 (.port (2 ^ 16 - 1))) w (.start (.first n))
  | first {n q} : 0 < q → q < 2 ^ 16 - 1 →
      Reserves c w (.first (n + 1)) (.listen 0 (.port q)) w (.start (.second n q))
  | taken {n q e} : Reserves c w (.second n q) (.listen (q + 1) (.err e)) w (.start (.first n))
  | pair {n q} : Reserves c w (.second n q) (.listen (q + 1) (.port (q + 1)))
      { w with monitorPort := q } (.start .starting)

variable {c : Cfg} {w w' : World} {y : Sys} {p p' : Pc}

theorem listen?_eq_some {port : ℕ} {r : Bound} :
    y.listen? port = some r ↔ y = .listen port r ∧ r.fits port = true := by
  cases y with
  | listen q r' =>
    simp only [Sys.listen?, Option.ite_none_right_eq_some, Option.some.injEq, Sys.listen.injEq]
    constructor
    · rintro ⟨⟨rfl, hfit⟩, rfl⟩
      exact ⟨⟨rfl, rfl⟩, hfit⟩
    · rintro ⟨⟨rfl, rfl⟩, hfit⟩
      exact ⟨⟨rfl, hfit⟩, rfl⟩
  | _ => simp [Sys.listen?]

theorem fits_zero {q : ℕ} (h : (Bound.port q).fits 0 = true) : 0 < q ∧ q < 2 ^ 16 :=
  of_decide_eq_true h

theorem fits_succ {q r : ℕ} (h : (Bound.port r).fits (q + 1) = true) : r = q + 1 :=
  of_decide_eq_true h

theorem startStep_reserves {q : StartPc} (hq : (Pc.start q).reserving = true)
    (h : startStep c w y q = some (w', p')) : Reserves c w q y w' p' := by
  cases q with
  | load =>
    obtain ⟨rfl, rfl, rfl⟩ := on_pair_eq_some.1 h
    split_ifs
    exacts [.fail rfl, .load]
  | host =>
    obtain ⟨rfl, rfl, rfl⟩ := on_pair_eq_some.1 h
    split_ifs
    exacts [.fail rfl, .host]
  | localPort =>
    obtain ⟨rfl, rfl, rfl⟩ := on_pair_eq_some.1 h
    split_ifs with hport
    exacts [.noLocal hport, .hasLocal hport]
  | reserve =>
    obtain ⟨r, hr, hx⟩ := Option.map_eq_some_iff.1 h
    obtain ⟨rfl, hfit⟩ := listen?_eq_some.1 hr
    cases r with
    | port q =>
      cases hx
      exact .local (fits_zero hfit).1 (fits_zero hfit).2
    | err e =>
      cases hx
      exact .fail rfl
  | monitorPort =>
    obtain ⟨rfl, rfl, rfl⟩ := on_pair_eq_some.1 h
    split_ifs with hport
    exacts [.noPair hport.1 hport.2, .hasPair hport]
  | first n =>
    cases n with
    | zero =>
      obtain ⟨rfl, rfl, rfl⟩ := on_pair_eq_some.1 h
      exact .fail rfl
    | succ n =>
      obtain ⟨r, hr, hx⟩ := Option.map_eq_some_iff.1 h
      obtain ⟨rfl, hfit⟩ := listen?_eq_some.1 hr
      cases r with
      | port q =>
        cases hx
        have hlt := (fits_zero hfit).2
        split_ifs with hlast
        · rw [hlast]
          exact .last
        · exact .first (fits_zero hfit).1 (by omega)
      | err e =>
        cases hx
        exact .fail rfl
  | second n q =>
    obtain ⟨r, hr, hx⟩ := Option.map_eq_some_iff.1 h
    obtain ⟨rfl, hfit⟩ := listen?_eq_some.1 hr
    cases r with
    | port r =>
      cases hx
      rw [fits_succ hfit]
      exact .pair
    | err e =>
      cases e with
      | resolve =>
        cases hx
        exact .fail rfl
      | bind | localAddress =>
        cases hx
        exact .taken
  | starting | fork | store q | running => cases hq

/-- A step that leaves the ports alone. -/
structure Settled (w w' : World) (y : Sys) (p' : Pc) : Prop where
  localPort : w'.localPort = w.localPort
  monitorPort : w'.monitorPort = w.monitorPort
  opened : y.opened = none
  reserving : p'.reserving = false
  starting : p' ≠ .start .starting

theorem waitpid_settled {q : ℤ} {nohang : Bool} {f : Waited → Pc}
    (hf : ∀ r, (f r).reserving = false ∧ f r ≠ .start .starting)
    (h : w.waitpid q nohang y f = some (w', p')) : Settled w w' y p' := by
  obtain ⟨r, k, rfl, -, rfl, rfl⟩ := World.waitpid_eq_some.1 h
  exact ⟨rfl, rfl, rfl, (hf r).1, (hf r).2⟩

theorem callStep_settled (hp : p.reserving = false) (h : callStep c w y p = some (w', p')) :
    Settled w w' y p' := by
  cases p with
  | idle | done v => cases h
  | start q =>
    cases q with
    | starting | store q | running =>
      obtain ⟨rfl, rfl, rfl⟩ := on_pair_eq_some.1 h
      exact ⟨rfl, rfl, rfl, rfl, by simp⟩
    | fork =>
      obtain ⟨r, hr, hx⟩ := Option.bind_eq_some_iff.1 h
      obtain ⟨k, -, hx⟩ := Option.map_eq_some_iff.1 hx
      obtain rfl := Sys.fork?_eq_some.1 hr
      cases hx
      refine ⟨rfl, rfl, rfl, ?_, ?_⟩ <;> split_ifs <;> first | rfl | simp
    | _ => cases hp
  | listen q =>
    cases q with
    | resolve =>
      simp only [callStep, waitForListenerStep] at h
      split_ifs at h
      · obtain ⟨rfl, rfl, rfl⟩ := on_pair_eq_some.1 h
        exact ⟨rfl, rfl, rfl, rfl, by simp [Pc.giveUp]⟩
      · obtain ⟨ok, hr, hx⟩ := Option.map_eq_some_iff.1 h
        cases y with
        | resolve ok' =>
          cases ok <;> cases hx <;> exact ⟨rfl, rfl, rfl, rfl, by simp [Pc.giveUp]⟩
        | _ => cases hr
    | deadline =>
      obtain ⟨b, hr, hx⟩ := Option.map_eq_some_iff.1 h
      cases y with
      | expired b' => cases b <;> cases hx <;> exact ⟨rfl, rfl, rfl, rfl, by simp [Pc.giveUp]⟩
      | _ => cases hr
    | load =>
      obtain ⟨rfl, rfl, rfl⟩ := on_pair_eq_some.1 h
      exact ⟨rfl, rfl, rfl, rfl, by simp⟩
    | poll q =>
      refine waitpid_settled (fun r => ?_) h
      cases childExited q r with
      | none => exact ⟨rfl, by simp⟩
      | some st => exact ⟨rfl, by simp [Pc.giveUp]⟩
    | connect =>
      obtain ⟨ok, hr, hx⟩ := Option.map_eq_some_iff.1 h
      cases y with
      | connect ok' => cases ok <;> cases hx <;> exact ⟨rfl, rfl, rfl, rfl, by simp⟩
      | _ => cases hr
  | stop q k =>
    cases q with
    | swap =>
      obtain ⟨rfl, rfl, rfl⟩ := on_pair_eq_some.1 h
      exact ⟨rfl, rfl, rfl, rfl, by simp⟩
    | term q | kill q =>
      obtain ⟨rfl, rfl, rfl⟩ := on_pair_eq_some.1 h
      refine ⟨rfl, rfl, ?_, rfl, by simp⟩
      unfold killPid
      split_ifs <;> rfl
    | poll n q =>
      cases n with
      | zero =>
        obtain ⟨rfl, rfl, rfl⟩ := on_pair_eq_some.1 h
        exact ⟨rfl, rfl, rfl, rfl, by simp⟩
      | succ n =>
        refine waitpid_settled (fun r => ?_) h
        exact ⟨rfl, by simp⟩
    | wait q =>
      refine waitpid_settled (fun r => ?_) h
      exact ⟨rfl, by simp⟩
    | finish =>
      obtain ⟨rfl, rfl, rfl⟩ := on_pair_eq_some.1 h
      cases k <;> exact ⟨rfl, rfl, rfl, rfl, by simp⟩
  | state q =>
    cases q with
    | load | cas q | exited | read =>
      obtain ⟨rfl, rfl, rfl⟩ := on_pair_eq_some.1 h
      exact ⟨rfl, rfl, rfl, rfl, by simp⟩
    | poll q =>
      refine waitpid_settled (fun r => ?_) h
      exact ⟨rfl, by simp⟩
  | setError m | ret v =>
    obtain ⟨rfl, rfl, rfl⟩ := on_pair_eq_some.1 h
    exact ⟨rfl, rfl, rfl, rfl, by simp⟩

/-! ### A start call that fails -/

/-- The kernel chooses a port. -/
def SoloAct.chosen : SoloAct → Bool
  | step (.listen 0 (.port _)) => true
  | _ => false

/-- A listener is opened on the port after a chosen one. -/
def SoloAct.paired : SoloAct → Bool
  | step (.listen (_ + 1) (.port _)) => true
  | _ => false

/-- A step that opens no listener is neither. -/
theorem unchosen_of_opened (h : y.opened = none) :
    (SoloAct.step y).chosen = false ∧ (SoloAct.step y).paired = false := by
  cases y with
  | listen q r =>
    cases r with
    | port r => cases h
    | err e => cases q <;> exact ⟨rfl, rfl⟩
  | _ => exact ⟨rfl, rfl⟩

/-- The ports of a start call on `w₀`: whether the local port is decided, and whether the kernel
has chosen a port (`o`) and a pair (`r`) so far. -/
structure PortsAre (c : Cfg) (w₀ w : World) (o r decided : Bool) : Prop where
  new : decided = false → w.localPort = w₀.localPort ∧ o = false
  kept : decided = true → w₀.localPort ≠ 0 → w.localPort = w₀.localPort
  chosen : decided = true → w₀.localPort = 0 → w.localPort ≠ 0 ∧ o = true
  pairNew : r = false → w.monitorPort = w₀.monitorPort
  pair : r = true → w₀.monitorPort = 0 ∧ c.monitorDisabled = false ∧ w.monitorPort ≠ 0

/-- The same at each control point. -/
def PortsAt (c : Cfg) (w₀ w : World) (o r : Bool) : Pc → Prop
  | .start .load | .start .host | .start .localPort => PortsAre c w₀ w o r false ∧ r = false
  | .start .reserve => PortsAre c w₀ w o r false ∧ r = false ∧ w.localPort = 0
  | .start .monitorPort => PortsAre c w₀ w o r true ∧ r = false
  | .start (.first _) =>
    PortsAre c w₀ w o r true ∧ r = false ∧ w₀.monitorPort = 0 ∧ c.monitorDisabled = false
  | .start (.second _ q) =>
    PortsAre c w₀ w o r true ∧ r = false ∧ w₀.monitorPort = 0 ∧ c.monitorDisabled = false ∧ q ≠ 0
  | _ => ∃ decided, PortsAre c w₀ w o r decided

theorem PortsAt.exists {w₀ : World} {o r : Bool} (h : PortsAt c w₀ w o r p) :
    ∃ decided, PortsAre c w₀ w o r decided := by
  cases p with
  | start q =>
    cases q with
    | load | host | localPort | reserve | monitorPort | first n | second n q => exact ⟨_, h.1⟩
    | _ => exact h
  | _ => exact h

theorem PortsAt.of_exists {w₀ : World} {o r : Bool} (hp : p.reserving = false)
    (h : ∃ decided, PortsAre c w₀ w o r decided) : PortsAt c w₀ w o r p := by
  cases p with
  | start q =>
    cases q with
    | load | host | localPort | reserve | monitorPort | first n | second n q => cases hp
    | _ => exact h
  | _ => exact h

theorem PortsAt.congr {w₀ : World} {o r : Bool} (hl : w'.localPort = w.localPort)
    (hm : w'.monitorPort = w.monitorPort) (h : PortsAt c w₀ w o r p) : PortsAt c w₀ w' o r p := by
  have hare : ∀ {decided}, PortsAre c w₀ w o r decided → PortsAre c w₀ w' o r decided := by
    intro decided h
    exact ⟨hl ▸ h.new, hl ▸ h.kept, hl ▸ h.chosen, hm ▸ h.pairNew, hm ▸ h.pair⟩
  cases p with
  | start q =>
    cases q with
    | load | host | localPort | monitorPort | first n | second n q => exact ⟨hare h.1, h.2⟩
    | reserve => exact ⟨hare h.1, h.2.1, hl.trans h.2.2⟩
    | _ => exact h.imp fun _ => hare
  | _ => exact h.imp fun _ => hare

theorem reserves_ports {w₀ : World} {o r : Bool} {q : StartPc}
    (hp : PortsAt c w₀ w o r (.start q)) (h : Reserves c w q y w' p') :
    PortsAt c w₀ w' (o || (SoloAct.step y).chosen) (r || (SoloAct.step y).paired) p' := by
  cases h with
  | fail hy =>
    obtain ⟨hchosen, hpaired⟩ := unchosen_of_opened hy
    rw [hchosen, hpaired, Bool.or_false, Bool.or_false]
    exact hp.exists
  | load | host =>
    obtain ⟨hchosen, hpaired⟩ := unchosen_of_opened (y := .tau) rfl
    rw [hchosen, hpaired, Bool.or_false, Bool.or_false]
    exact hp
  | hasLocal hport =>
    obtain ⟨hare, rfl⟩ := hp
    obtain ⟨hl, rfl⟩ := hare.new rfl
    exact ⟨⟨by simp, fun _ _ => hl, fun _ h0 => absurd (hl.trans h0) hport, hare.pairNew,
      hare.pair⟩,
      rfl⟩
  | noLocal hport =>
    obtain ⟨hare, rfl⟩ := hp
    obtain ⟨hl, rfl⟩ := hare.new rfl
    exact ⟨hare, rfl, hport⟩
  | «local» hpos _ =>
    obtain ⟨hare, rfl, hport⟩ := hp
    obtain ⟨hl, rfl⟩ := hare.new rfl
    exact ⟨⟨by simp, fun _ h0 => absurd (hl.symm.trans hport) h0,
      fun _ _ => ⟨Nat.pos_iff_ne_zero.1 hpos, rfl⟩, hare.pairNew, hare.pair⟩, rfl⟩
  | hasPair _ =>
    obtain ⟨hare, rfl⟩ := hp
    rw [(unchosen_of_opened rfl).1, Bool.or_false]
    exact ⟨true, hare⟩
  | noPair hen hport =>
    obtain ⟨hare, rfl⟩ := hp
    rw [(unchosen_of_opened rfl).1, Bool.or_false]
    exact ⟨hare, rfl, (hare.pairNew rfl).symm.trans hport, hen⟩
  | last =>
    obtain ⟨hare, rfl, hrest⟩ := hp
    exact ⟨⟨by simp, hare.kept, fun _ h0 => ⟨(hare.chosen rfl h0).1, Bool.or_true o⟩, hare.pairNew,
      hare.pair⟩, rfl, hrest⟩
  | first hpos _ =>
    obtain ⟨hare, rfl, hport, hen⟩ := hp
    exact ⟨⟨by simp, hare.kept, fun _ h0 => ⟨(hare.chosen rfl h0).1, Bool.or_true o⟩, hare.pairNew,
      hare.pair⟩, rfl, hport, hen, Nat.pos_iff_ne_zero.1 hpos⟩
  | taken =>
    obtain ⟨hare, rfl, hport, hen, -⟩ := hp
    rw [(unchosen_of_opened rfl).1, (unchosen_of_opened rfl).2, Bool.or_false]
    exact ⟨hare, rfl, hport, hen⟩
  | pair =>
    obtain ⟨hare, rfl, hport, hen, hq⟩ := hp
    refine ⟨true, by simp, hare.kept, fun _ h0 => ?_, ?_, fun _ => ⟨hport, hen, hq⟩⟩
    · obtain ⟨hl, rfl⟩ := hare.chosen rfl h0
      exact ⟨hl, rfl⟩
    · intro hunpaired
      cases hunpaired

/-- The ports at the end of a run of a start call. -/
theorem run_ports {w₀ : World} {as : List SoloAct}
    (h : (solo c).Run (w₀, Fn.start.entry) as (w, p)) :
    PortsAt c w₀ w (as.any SoloAct.chosen) (as.any SoloAct.paired) p := by
  refine Machine.Run.induct (P := fun as x =>
    PortsAt c w₀ x.1 (as.any SoloAct.chosen) (as.any SoloAct.paired) x.2) ?_ ?_ h
  · exact ⟨⟨fun _ => ⟨rfl, rfl⟩, by simp, by simp, fun _ => rfl, by simp⟩, rfl⟩
  · rintro as ⟨w, p⟩ b ⟨w', p'⟩ - ih hn
    simp only [List.any_append, List.any_cons, List.any_nil, Bool.or_false]
    cases b with
    | env m =>
      obtain ⟨k, -, hx⟩ := Option.map_eq_some_iff.1 hn
      cases hx
      simp only [SoloAct.chosen, SoloAct.paired, Bool.or_false]
      exact PortsAt.congr (w := w) rfl rfl ih
    | step y =>
      cases hp : p.reserving with
      | true =>
        cases p with
        | start q => exact reserves_ports ih (startStep_reserves hp hn)
        | _ => cases hp
      | false =>
        have hset := callStep_settled hp hn
        obtain ⟨hchosen, hpaired⟩ := unchosen_of_opened hset.opened
        rw [hchosen, hpaired, Bool.or_false, Bool.or_false]
        exact .congr hset.localPort hset.monitorPort (.of_exists hset.reserving ih.exists)

/-- **A start call that fails leaves the ports as they were exactly if it had no port to choose, or
could not choose it.** -/
theorem failed_keeps_iff {as : List SoloAct}
    (h : (solo c).Run (w, Fn.start.entry) as (w', .done (-1))) :
    (w'.localPort = w.localPort ∧ w'.monitorPort = w.monitorPort) ↔
      (w.localPort ≠ 0 ∨ as.any SoloAct.chosen = false) ∧
      (c.monitorDisabled = true ∨ w.monitorPort ≠ 0 ∨ as.any SoloAct.paired = false) := by
  obtain ⟨decided, hare⟩ := run_ports h
  refine and_congr ?_ ?_
  · cases decided with
    | false =>
      obtain ⟨hl, ho⟩ := hare.new rfl
      exact ⟨fun _ => .inr ho, fun _ => hl⟩
    | true =>
      by_cases h0 : w.localPort = 0
      · obtain ⟨hl, ho⟩ := hare.chosen rfl h0
        rw [h0, ho]
        simp [hl]
      · exact ⟨fun _ => .inl h0, fun _ => hare.kept rfl h0⟩
  · cases hr : as.any SoloAct.paired with
    | false => exact ⟨fun _ => .inr (.inr rfl), fun _ => hare.pairNew hr⟩
    | true =>
      obtain ⟨h0, hen, hm⟩ := hare.pair hr
      rw [h0, hen]
      simp [hm]

theorem plain_failed_keeps :
    ∃ w', (solo Cfg.plain).Run ((St.init Cfg.plain).world, Fn.start.entry)
        ([.tau, .tau, .tau, .tau, .tau, .fork (-1), .tau, .ret (-1)].map .step)
        (w', .done (-1)) ∧
      w'.localPort = 1 ∧ w'.monitorPort = 0 := by
  have hr : (solo Cfg.plain).Run ((St.init Cfg.plain).world, Fn.start.entry)
    ([.tau, .tau, .tau, .tau, .tau, .fork (-1), .tau, .ret (-1)].map .step) (_, .done (-1)) := rfl
  obtain ⟨hl, hm⟩ := (failed_keeps_iff hr).2 (by decide)
  exact ⟨_, hr, hl, hm⟩

/-- A tunnel on a port to be chosen, without monitoring. -/
def Cfg.ephemeral : Cfg := ⟨some "127.0.0.1", 0, 0, true⟩

/-- The local port is to be chosen, and `fork` fails.  The next start call does not ask for a port
again. -/
theorem failed_start_sets_port :
    ∃ s s', (session Cfg.ephemeral).Run (.init Cfg.ephemeral)
        (.call .start :: [.tau, .tau, .tau, .listen 0 (.port 40000), .tau, .tau, .fork (-1), .tau,
          .ret (-1)].map (.step 0)) s ∧
      s.pcs 0 = .done (-1) ∧ (St.init Cfg.ephemeral).world.localPort = 0 ∧
      s.world.localPort = 40000 ∧
      (session Cfg.ephemeral).Run s (.call .start :: [.tau, .tau, .tau].map (.step 1)) s' ∧
        s'.pcs 1 = .start .monitorPort :=
  ⟨_, _, rfl, rfl, rfl, rfl, rfl, rfl⟩

/-! ### The ports handed to the supervisor -/

/-- The ports of the tunnel and of the monitor. -/
def World.ports (w : World) : List ℕ := [w.localPort, w.monitorPort, w.monitorPort + 1]

/-- The kernel does not choose, for one of the two, a port that the other one has already.  The
listener that had the other one is closed by then, so nothing keeps it from doing so. -/
def avoids (x : World × Pc) : SoloAct → Bool
  | .step (.listen _ (.port p)) => match x.2 with
    | .start .reserve =>
      x.1.monitorPort = 0 ∨ p ≠ x.1.monitorPort ∧ p ≠ x.1.monitorPort + 1
    | .start (.second _ q) => x.1.localPort ≠ q ∧ x.1.localPort ≠ q + 1
    | _ => true
  | _ => true

theorem nodup_ports : w.ports.Nodup ↔ w.localPort ≠ w.monitorPort ∧
    w.localPort ≠ w.monitorPort + 1 := by
  simp [World.ports]

/-- Where a start call on `w₀` stands with the ports; `clear` says that the kernel has avoided the
ports in use up to here. -/
def ReservedAt (w₀ w : World) (clear : Prop) : Pc → Prop
  | .start .load | .start .host | .start .localPort =>
    w.localPort = w₀.localPort ∧ w.monitorPort = w₀.monitorPort ∧ clear
  | .start .reserve => w₀.localPort = 0 ∧ w.monitorPort = w₀.monitorPort ∧ clear
  | .start .monitorPort => w.monitorPort = w₀.monitorPort ∧
    ((w₀.localPort ≠ 0 ∨ w₀.monitorPort = 0) ∧ clear ∨
      w₀.localPort = 0 ∧ w₀.monitorPort ≠ 0 ∧ (clear ↔ w.ports.Nodup))
  | .start (.first _) => w₀.monitorPort = 0 ∧ clear
  | .start (.second _ q) => w₀.monitorPort = 0 ∧ clear ∧ 0 < q ∧ q < 2 ^ 16 - 1
  | .start .starting => (clear ↔ w.ports.Nodup) ∧
    (w₀.monitorPort = 0 → 0 < w.monitorPort ∧ w.monitorPort < 2 ^ 16 - 1)
  | _ => True

theorem ReservedAt.congr {w₀ : World} {C C' : Prop} (hl : w'.localPort = w.localPort)
    (hm : w'.monitorPort = w.monitorPort) (hC : C' ↔ C) (h : ReservedAt w₀ w C p) :
    ReservedAt w₀ w' C' p := by
  have hports : w'.ports = w.ports := by
    simp only [World.ports, hl, hm]
  cases p with
  | start q =>
    cases q with
    | load | host | localPort | reserve | monitorPort | first n | second n q | starting =>
      simpa only [ReservedAt, hl, hm, hC, hports] using h
    | _ => trivial
  | _ => trivial

theorem ReservedAt.of_settled {w₀ : World} {C : Prop} (hp : p.reserving = false)
    (hs : p ≠ .start .starting) : ReservedAt w₀ w C p := by
  cases p with
  | start q =>
    cases q with
    | load | host | localPort | reserve | monitorPort | first n | second n q => cases hp
    | starting => exact absurd rfl hs
    | _ => trivial
  | _ => trivial

theorem reserves_avoids {w₀ : World} {C C' : Prop} {q : StartPc} (hen : c.monitorDisabled = false)
    (hzero : w₀.localPort = 0 ∨ w₀.monitorPort = 0)
    (hC : C' ↔ C ∧ avoids (w, .start q) (.step y) = true)
    (hp : ReservedAt w₀ w C (.start q)) (h : Reserves c w q y w' p') :
    ReservedAt w₀ w' C' p' := by
  -- all but two steps leave `clear` as it is
  have hkeep : avoids (w, .start q) (.step y) = true → (C' ↔ C) := by
    intro ha
    rw [hC, ha]
    exact and_iff_left rfl
  cases h with
  | fail hy => trivial
  | load | host => exact .congr rfl rfl (hkeep rfl) hp
  | hasLocal hport =>
    obtain ⟨hl, hm, hclear⟩ := hp
    exact ⟨hm, .inl ⟨.inl (hl ▸ hport), (hkeep rfl).2 hclear⟩⟩
  | noLocal hport =>
    obtain ⟨hl, hm, hclear⟩ := hp
    exact ⟨hl.symm.trans hport, hm, (hkeep rfl).2 hclear⟩
  | «local» hpos _ =>
    obtain ⟨hl, hm, hclear⟩ := hp
    refine ⟨hm, ?_⟩
    by_cases h0 : w₀.monitorPort = 0
    · exact .inl ⟨.inr h0, (hkeep (by simp [avoids, hm, h0])).2 hclear⟩
    · refine .inr ⟨hl, h0, ?_⟩
      have hne : w.monitorPort ≠ 0 := hm ▸ h0
      rw [hC, and_iff_right hclear, nodup_ports]
      simp [avoids, hne]
  | hasPair hport =>
    obtain ⟨hm, hcase⟩ := hp
    have h0 : w₀.monitorPort ≠ 0 := fun h0 => hport ⟨hen, hm.trans h0⟩
    rcases hcase with ⟨hl | hm0, -⟩ | ⟨-, -, hiff⟩
    · exact absurd (hzero.resolve_left hl) h0
    · exact absurd hm0 h0
    · exact ⟨(hkeep rfl).trans hiff, fun h => absurd h h0⟩
  | noPair _ hport =>
    obtain ⟨hm, hcase⟩ := hp
    have h0 : w₀.monitorPort = 0 := hm.symm.trans hport
    rcases hcase with ⟨-, hclear⟩ | ⟨-, hne, -⟩
    · exact ⟨h0, (hkeep rfl).2 hclear⟩
    · exact absurd h0 hne
  | last => exact ⟨hp.1, (hkeep rfl).2 hp.2⟩
  | first hpos hlt => exact ⟨hp.1, (hkeep rfl).2 hp.2, hpos, hlt⟩
  | taken => exact ⟨hp.1, (hkeep rfl).2 hp.2.1⟩
  | pair =>
    obtain ⟨-, hclear, hpos, hlt⟩ := hp
    refine ⟨?_, fun _ => ⟨hpos, hlt⟩⟩
    rw [hC, and_iff_right hclear, nodup_ports]
    simp [avoids]

/-- **The ports handed to the supervisor.**  If at least one of the two is to be chosen, they are
distinct and a chosen monitor port leaves room for the port after it, exactly if the kernel has
avoided the ports in use. -/
theorem reserved_distinct_iff {as : List SoloAct} (hen : c.monitorDisabled = false)
    (hzero : w.localPort = 0 ∨ w.monitorPort = 0)
    (h : (solo c).Run (w, Fn.start.entry) as (w', .start .starting)) :
    (w'.ports.Nodup ∧ (w.monitorPort = 0 → 1 ≤ w'.monitorPort ∧ w'.monitorPort ≤ 65534)) ↔
      ((solo c).guard fun x a => avoids x a = true).Run (w, Fn.start.entry) as
        (w', .start .starting) := by
  have hinv : ReservedAt w w' (((solo c).guard fun x a => avoids x a = true).Run
      (w, Fn.start.entry) as (w', .start .starting)) (.start .starting) := by
    refine Machine.Run.induct (P := fun as x => ReservedAt w x.1
      (((solo c).guard fun x a => avoids x a = true).Run (w, Fn.start.entry) as x) x.2) ?_ ?_ h
    · exact ⟨rfl, rfl, rfl⟩
    · rintro as ⟨w₁, p⟩ b ⟨w₂, p'⟩ hr ih hn
      have hguard := Machine.guard_run_concat (P := fun x a => avoids x a = true) hr hn
      cases b with
      | env m =>
        obtain ⟨k, -, hx⟩ := Option.map_eq_some_iff.1 hn
        cases hx
        exact ReservedAt.congr (w := w₁) rfl rfl (hguard.trans (and_iff_left rfl)) ih
      | step y =>
        cases hp : p.reserving with
        | true =>
          cases p with
          | start q => exact reserves_avoids hen hzero hguard ih (startStep_reserves hp hn)
          | _ => cases hp
        | false =>
          have hset := callStep_settled hp hn
          exact .of_settled hset.reserving hset.starting
  obtain ⟨hclear, hrange⟩ := hinv
  rw [hclear, and_iff_left_iff_imp]
  intro _ h0
  have := hrange h0
  omega

/-- A monitored tunnel with all ports to be chosen. -/
def Cfg.monitored : Cfg := ⟨some "127.0.0.1", 0, 0, false⟩

/-- The steps up to the fork, with the ports the kernel chooses. -/
def choosing (l m : ℕ) : List SoloAct :=
  [.tau, .tau, .tau, .listen 0 (.port l), .tau, .listen 0 (.port m),
    .listen (m + 1) (.port (m + 1))].map .step

theorem monitored_distinct :
    ∃ w', (solo Cfg.monitored).Run ((St.init Cfg.monitored).world, Fn.start.entry)
        (choosing 40000 40002) (w', .start .starting) ∧
      w'.ports = [40000, 40002, 40003] ∧ w'.ports.Nodup := by
  have hr : (solo Cfg.monitored).Run ((St.init Cfg.monitored).world, Fn.start.entry)
    (choosing 40000 40002) (_, .start .starting) := rfl
  exact ⟨_, hr, rfl, ((reserved_distinct_iff rfl (.inl rfl) hr).2 rfl).1⟩

/-- The kernel chooses the local port again as the second port of the monitor. -/
theorem monitored_collides :
    ∃ w', (solo Cfg.monitored).Run ((St.init Cfg.monitored).world, Fn.start.entry)
        (choosing 40001 40000) (w', .start .starting) ∧
      w'.ports = [40001, 40000, 40001] ∧ ¬w'.ports.Nodup :=
  ⟨_, rfl, rfl, by decide⟩

end Session

end Autossh
