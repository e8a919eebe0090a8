import Autossh.Custody.Basic
import Autossh.Session.Step

/-!
# Custody of the supervisor

The pid in the session is a name that calls hand to each other, as in `Autossh.Custody.Basic`: a
start call that has forked a supervisor is about to store its pid, a stop call that has swapped
the pid out holds it until it has reaped the supervisor, and a state call that has reaped the
supervisor is about to clear its pid.

* `callStep_custody` : a step of a call is a deed of the custody machine, or does not matter to
  it;
* `session_simulates` : the custody machine simulates the session.
-/

namespace Autossh

namespace Session

/-- What a call is responsible for. -/
def Pc.role : Pc → Role ℤ
  | .start (.store p) => .storing p
  | .stop (.term p) _ | .stop (.poll _ p) _ | .stop (.kill p) _ | .stop (.wait p) _ => .holding p
  | .state (.cas p) => .clearing p
  | _ => .none

/-- The supervisor the session names. -/
def World.cell (w : World) : Option ℤ := if 0 < w.pid then some w.pid else none

/-- The custody of the supervisors. -/
def St.custody (s : St) : Custody ℤ ℕ := ⟨s.world.cell, s.world.procs.own, fun t => (s.pcs t).role⟩

/-- What a step of a call is for the custody, if it matters. -/
def deed (w : World) (y : Sys) : Pc → Option (Deed ℤ)
  | .start .fork => match y with
    | .fork r => if 0 < r then some (.create r) else none
    | _ => none
  | .start (.store _) => some .store
  | .listen (.poll _) => match y with
    | .waitpid _ _ (.reaped q _) => some (.lose q)
    | _ => none
  | .stop .swap _ => if 0 < w.pid then some .swap else none
  | .stop (.poll _ _) _ => match y with
    | .waitpid _ _ (.reaped _ _) => some .destroy
    | .waitpid _ _ (.err .echild) => some .release
    | _ => none
  | .stop (.wait _) _ => match y with
    | .waitpid _ _ (.reaped _ _) => some .destroy
    | .waitpid _ _ (.err .echild) => some .release
    | _ => some .abandon
  | .state (.poll _) => match y with
    | .waitpid _ _ (.reaped q _) => some (.take q)
    | _ => none
  | .state (.cas _) => some .clear
  | _ => none

section deed

variable {w : World} {y : Sys} {p : Pc} {q : ℤ}

theorem deed_create (h : deed w y p = some (.create q)) : p = .start .fork := by
  fun_cases deed w y p <;> simp_all [deed]

theorem deed_lose (h : deed w y p = some (.lose q)) :
    ∃ r r' b st, p = .listen (.poll r) ∧ y = .waitpid r' b (.reaped q st) := by
  fun_cases deed w y p <;> simp_all [deed]

theorem deed_swap (h : deed w y p = some .swap) : ∃ k, p = .stop .swap k ∧ 0 < w.pid := by
  fun_cases deed w y p <;> simp_all [deed]

theorem deed_clear (h : deed w y p = some .clear) : ∃ r, p = .state (.cas r) := by
  fun_cases deed w y p <;> simp_all [deed]

theorem deed_take (h : deed w y p = some (.take q)) :
    ∃ r r' b st, p = .state (.poll r) ∧ y = .waitpid r' b (.reaped q st) := by
  fun_cases deed w y p <;> simp_all [deed]

theorem deed_abandon (h : deed w y p = some .abandon) : ∃ r k, p = .stop (.wait r) k := by
  fun_cases deed w y p <;> simp_all [deed]

end deed

/-- The step from `w` and `p` to `w'` and `p'` is the deed `d`, or does not matter. -/
def Accounts (t : ℕ) (d : Option (Deed ℤ)) (w : World) (p : Pc) (w' : World) (p' : Pc) : Prop :=
  match d with
  | none => w'.cell = w.cell ∧ w'.procs.own = w.procs.own ∧ p'.role = p.role
  | some d => ∀ ρ : ℕ → Role ℤ, ρ t = p.role →
      Custody.next ⟨w.cell, w.procs.own, ρ⟩ (t, d) =
        some (Custody.assign ⟨w'.cell, w'.procs.own, ρ⟩ t p'.role)

variable {c : Cfg} {s s' : St} {w w' : World} {t : ℕ} {y : Sys} {p p' : Pc}

theorem World.cell_of_pos (h : 0 < w.pid) : w.cell = some w.pid := if_pos h

theorem World.cell_of_not_pos (h : ¬ 0 < w.pid) : w.cell = none := if_neg h

theorem startStep_custody {p : StartPc} (h : startStep c w y p = some (w', p')) :
    Accounts t (deed w y (.start p)) w (.start p) w' p' := by
  cases p with
  | load | host | localPort | monitorPort =>
    obtain ⟨-, rfl, rfl⟩ := on_pair_eq_some.1 h
    refine ⟨rfl, rfl, ?_⟩
    split_ifs <;> rfl
  | reserve =>
    obtain ⟨r, -, h⟩ := Option.map_eq_some_iff.1 h
    cases r <;> cases h <;> exact ⟨rfl, rfl, rfl⟩
  | first n =>
    cases n with
    | zero =>
      obtain ⟨-, rfl, rfl⟩ := on_pair_eq_some.1 h
      exact ⟨rfl, rfl, rfl⟩
    | succ n =>
      obtain ⟨r, -, h⟩ := Option.map_eq_some_iff.1 h
      cases r with
      | port p =>
        cases h
        refine ⟨rfl, rfl, ?_⟩
        split_ifs <;> rfl
      | err e =>
        cases h
        exact ⟨rfl, rfl, rfl⟩
  | second n p =>
    obtain ⟨r, -, hx⟩ := Option.map_eq_some_iff.1 h
    rcases r with _ | ⟨_ | _ | _⟩ <;> cases hx <;> exact ⟨rfl, rfl, rfl⟩
  | starting | running =>
    obtain ⟨-, rfl, rfl⟩ := on_pair_eq_some.1 h
    exact ⟨rfl, rfl, rfl⟩
  | fork =>
    obtain ⟨r, hr, hx⟩ := Option.bind_eq_some_iff.1 h
    obtain ⟨k, hk, hx⟩ := Option.map_eq_some_iff.1 hx
    obtain rfl := Sys.fork?_eq_some.1 hr
    cases hx
    rcases ProcTable.fork_cases hk with ⟨hneg, rfl⟩ | ⟨hpos, hnew, hown⟩
    · have hn : ¬ 0 < r := by omega
      simp only [deed, if_neg hn, dif_neg hn]
      exact ⟨rfl, rfl, rfl⟩
    · simp only [deed, if_pos hpos, dif_pos hpos]
      intro ρ hρ
      refine (Custody.next_create hρ hnew).trans ?_
      rw [hown]
      rfl
  | store p =>
    obtain ⟨-, rfl, rfl⟩ := on_pair_eq_some.1 h
    intro ρ hρ
    refine (Custody.next_store hρ).trans ?_
    rw [World.cell_of_pos (w := { w with pid := p }) p.2]
    rfl

theorem waitForListenerStep_custody {p : ListenPc}
    (h : waitForListenerStep c w y p = some (w', p')) :
    Accounts t (deed w y (.listen p)) w (.listen p) w' p' := by
  cases p with
  | resolve =>
    simp only [waitForListenerStep] at h
    split_ifs at h
    · obtain ⟨-, rfl, rfl⟩ := on_pair_eq_some.1 h
      exact ⟨rfl, rfl, rfl⟩
    · obtain ⟨ok, -, hx⟩ := Option.map_eq_some_iff.1 h
      cases ok <;> cases hx <;> exact ⟨rfl, rfl, rfl⟩
  | deadline | connect =>
    obtain ⟨b, -, hx⟩ := Option.map_eq_some_iff.1 h
    cases b <;> cases hx <;> exact ⟨rfl, rfl, rfl⟩
  | load =>
    obtain ⟨-, rfl, rfl⟩ := on_pair_eq_some.1 h
    exact ⟨rfl, rfl, rfl⟩
  | poll p =>
    obtain ⟨r, k, rfl, hk, rfl, hp'⟩ := World.waitpid_eq_some.1 h
    have hrole : p'.role = .none := by
      rw [hp']
      split <;> rfl
    rcases ProcTable.waitpid_cases hk with ⟨q, st, rfl, -, hown⟩ | ⟨rfl, -, hr⟩
    · intro ρ hρ
      refine (Custody.next_lose hρ).trans ?_
      rw [hown, hrole, Custody.assign_eq_self hρ]
      rfl
    · rcases hr with ⟨rfl, -⟩ | rfl | ⟨rfl, -⟩ <;> exact ⟨rfl, rfl, hrole⟩

theorem stopStep_custody {p : StopPc} {k : Option Msg}
    (h : stopStep w k y p = some (w', p')) :
    Accounts t (deed w y (.stop p k)) w (.stop p k) w' p' := by
  cases p with
  | swap =>
    obtain ⟨-, rfl, rfl⟩ := on_pair_eq_some.1 h
    simp only [deed]
    by_cases hp : 0 < w.pid
    · rw [if_pos hp, dif_pos hp]
      intro ρ hρ
      exact Custody.next_swap hρ (World.cell_of_pos hp)
    · rw [if_neg hp, dif_neg hp]
      exact ⟨(World.cell_of_not_pos hp).symm, rfl, rfl⟩
  | term p | kill p =>
    obtain ⟨-, rfl, rfl⟩ := on_pair_eq_some.1 h
    exact ⟨rfl, rfl, rfl⟩
  | poll n p =>
    cases n with
    | zero =>
      obtain ⟨rfl, rfl, rfl⟩ := on_pair_eq_some.1 h
      exact ⟨rfl, rfl, rfl⟩
    | succ n =>
      obtain ⟨r, k, rfl, hk, rfl, rfl⟩ := World.waitpid_eq_some.1 h
      rcases ProcTable.waitpid_cases hk with ⟨q, st, rfl, hq, hown⟩ | ⟨rfl, hne, hr⟩
      · obtain rfl := hq p.2
        intro ρ hρ
        refine (Custody.next_destroy hρ).trans ?_
        rw [hown, if_pos (.inl rfl)]
        rfl
      · rcases hr with ⟨rfl, -⟩ | rfl | ⟨rfl, hno⟩
        · rw [if_neg (not_or.2 ⟨hne p.2, nofun⟩)]
          exact ⟨rfl, rfl, rfl⟩
        · rw [if_neg (not_or.2 ⟨hne p.2, nofun⟩)]
          exact ⟨rfl, rfl, rfl⟩
        · intro ρ hρ
          refine (Custody.next_release hρ (hno p.2)).trans ?_
          rw [if_pos (.inr rfl)]
          rfl
  | wait p =>
    obtain ⟨r, k, rfl, hk, rfl, rfl⟩ := World.waitpid_eq_some.1 h
    rcases ProcTable.waitpid_cases hk with ⟨q, st, rfl, hq, hown⟩ | ⟨rfl, -, hr⟩
    · obtain rfl := hq p.2
      intro ρ hρ
      refine (Custody.next_destroy hρ).trans ?_
      rw [hown]
      rfl
    · rcases hr with ⟨-, hb⟩ | rfl | ⟨rfl, hno⟩
      · cases hb
      · exact fun ρ hρ => Custody.next_abandon hρ
      · exact fun ρ hρ => Custody.next_release hρ (hno p.2)
  | finish =>
    obtain ⟨-, rfl, rfl⟩ := on_pair_eq_some.1 h
    exact ⟨rfl, rfl, by cases k <;> rfl⟩

theorem stateStep_custody {p : StatePc} (h : stateStep w y p = some (w', p')) :
    Accounts t (deed w y (.state p)) w (.state p) w' p' := by
  cases p with
  | load =>
    obtain ⟨-, rfl, rfl⟩ := on_pair_eq_some.1 h
    refine ⟨rfl, rfl, ?_⟩
    split_ifs <;> rfl
  | poll p =>
    obtain ⟨r, k, rfl, hk, rfl, rfl⟩ := World.waitpid_eq_some.1 h
    rcases ProcTable.waitpid_cases hk with ⟨q, st, rfl, hq, hown⟩ | ⟨rfl, hne, hr⟩
    · obtain rfl := hq p.2
      intro ρ hρ
      refine (Custody.next_take hρ).trans ?_
      rw [hown, if_pos (by simp [childExited, Waited.rc])]
      rfl
    · rw [if_neg (by simp [childExited, hne p.2])]
      rcases hr with ⟨rfl, -⟩ | rfl | ⟨rfl, -⟩ <;> exact ⟨rfl, rfl, rfl⟩
  | cas p =>
    obtain ⟨-, rfl, rfl⟩ := on_pair_eq_some.1 h
    intro ρ hρ
    refine (Custody.next_clear hρ).trans ?_
    by_cases he : w.pid = p
    · have hc : w.cell = some p.1 := he ▸ World.cell_of_pos (he ▸ p.2)
      simp only [if_pos hc, if_pos he]
      rfl
    · have hc : w.cell ≠ some p.1 := by
        unfold World.cell
        split_ifs
        · exact fun hc => he (Option.some.inj hc)
        · exact (Option.some_ne_none _).symm
      simp only [if_neg hc, if_neg he]
      rfl
  | exited | read =>
    obtain ⟨-, rfl, rfl⟩ := on_pair_eq_some.1 h
    exact ⟨rfl, rfl, rfl⟩

theorem callStep_custody (h : callStep c w y p = some (w', p')) :
    Accounts t (deed w y p) w p w' p' := by
  cases p with
  | start p => exact startStep_custody h
  | listen p => exact waitForListenerStep_custody h
  | stop p k => exact stopStep_custody h
  | state p => exact stateStep_custody h
  | setError m | ret v =>
    obtain ⟨-, rfl, rfl⟩ := on_pair_eq_some.1 h
    exact ⟨rfl, rfl, rfl⟩
  | idle | done v => cases h

/-- Only a stop call that holds the pid signals it. -/
theorem role_of_kill {q : ℤ} {g : KillSig} {p : Pc} {x : World × Pc}
    (h : callStep c w (.kill q g) p = some x) : p.role = .holding q := by
  cases p with
  | start p =>
    rcases p with _ | _ | _ | _ | _ | ⟨_ | n⟩ | _ | _ | _ | _ | _ <;> cases h
  | listen p =>
    cases p with
    | resolve =>
      simp only [callStep, waitForListenerStep] at h
      split_ifs at h <;> cases h
    | _ => cases h
  | stop p k =>
    cases p with
    | term r | kill r =>
      obtain ⟨hk, -⟩ := on_eq_some.1 h
      rw [killPid, if_neg (Int.not_le.2 r.2)] at hk
      cases hk
      rfl
    | poll n r => cases n <;> cases h
    | _ => cases h
  | state p => cases p <;> cases h
  | _ => cases h

/-- What an action is for the custody, if it matters. -/
def St.deed (s : St) : Act → Option (ℕ × Deed ℤ)
  | .step t y => (Session.deed s.world y (s.pcs t)).map (t, ·)
  | _ => none

theorem custody_update (s : St) (w : World) (t : ℕ) (p : Pc) :
    St.custody { s with world := w, pcs := Function.update s.pcs t p } =
      Custody.assign ⟨w.cell, w.procs.own, s.custody.role⟩ t p.role := by
  simp only [St.custody, Custody.assign, Custody.mk.injEq, true_and]
  funext t'
  by_cases ht : t' = t
  · subst ht
    simp only [Function.update_self]
  · simp only [Function.update_of_ne ht]

/-- **The custody machine simulates the session.** -/
theorem session_simulates (c : Cfg) :
    (session c).Simulates Custody.machine Fresh St.custody St.deed := by
  intro s a s' hf h
  refine ⟨next_fresh hf h, ?_⟩
  cases a with
  | call f =>
    cases h
    -- the new call has no role, and neither had its number
    refine (custody_update s s.world s.count f.entry).trans (Custody.assign_eq_self ?_)
    change (s.pcs s.count).role = _
    rw [hf s.count le_rfl]
    cases f <;> rfl
  | step t y =>
    obtain ⟨w, p, hc, rfl⟩ := next_step.1 h
    have ha := callStep_custody (t := t) hc
    simp only [St.deed]
    cases hd : Session.deed s.world y (s.pcs t) with
    | none =>
      rw [hd] at ha
      obtain ⟨hcell, hown, hrole⟩ := ha
      simp only [Option.map_none]
      rw [custody_update, hcell, hown, hrole]
      exact Custody.assign_eq_self rfl
    | some d =>
      rw [hd] at ha
      simp only [Option.map_some]
      rw [custody_update]
      exact ha s.custody.role rfl
  | env m =>
    obtain ⟨k, hk, rfl⟩ := (next_env (c := c)).1 h
    simp only [St.deed, St.custody, ProcTable.own_move hk]
    rfl

end Session

end Autossh
