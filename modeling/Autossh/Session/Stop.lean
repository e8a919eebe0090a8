import Autossh.Custody.Handover
import Autossh.Session.Custody

/-!
# Concurrent stop and state calls

While no start call runs, the supervisor `P` in the session is taken by at most one stop call,
however many stop and state calls run concurrently.

* `Retired` : the invariant.  It is that of `Autossh.Custody.Handover`, with the calls that have
  signalled `P` so far;
* `stop_exclusive` : at most one call signals `P`, and once that call has returned, `P` has been
  reaped and the session's pid is 0 for good.
-/

namespace Autossh

namespace Session

/-- The call is one of `autossh_session_start`. -/
def Pc.ofStart : Pc → Bool
  | .start _ | .listen _ | .stop _ (some _) | .setError _ => true
  | _ => false

/-- No start call is made, and a blocking `waitpid` is not interrupted. -/
def Act.retiring : Act → Bool
  | .call .start => false
  | .step _ y => y.uninterrupted
  | _ => true

/-- No call is running. -/
def Resting (s : St) : Prop := Fresh s ∧ ∀ t, (s.pcs t).quiet = true

variable {c : Cfg} {s s' : St} {w w' : World} {t : ℕ} {y : Sys} {a : Act} {p p' : Pc} {P : ℤ}

/-- Stop and state calls only ever replace the pid by 0. -/
theorem callStep_retiring (hp : p.ofStart = false) (h : callStep c w y p = some (w', p')) :
    p'.ofStart = false ∧ (w'.pid = w.pid ∨ w'.pid = 0) := by
  cases p with
  | start p | listen p | setError m => cases hp
  | idle | done v => cases h
  | ret v =>
    obtain ⟨-, rfl, rfl⟩ := on_pair_eq_some.1 h
    exact ⟨rfl, .inl rfl⟩
  | stop p k =>
    cases k with
    | some m => cases hp
    | none =>
      cases p with
      | swap =>
        obtain ⟨-, rfl, rfl⟩ := on_pair_eq_some.1 h
        exact ⟨rfl, .inr rfl⟩
      | poll n p =>
        cases n with
        | zero =>
          obtain ⟨-, rfl, rfl⟩ := on_pair_eq_some.1 h
          exact ⟨rfl, .inl rfl⟩
        | succ n =>
          obtain ⟨r, k, -, -, rfl, rfl⟩ := World.waitpid_eq_some.1 h
          exact ⟨rfl, .inl rfl⟩
      | wait p =>
        obtain ⟨r, k, -, -, rfl, rfl⟩ := World.waitpid_eq_some.1 h
        exact ⟨rfl, .inl rfl⟩
      | term p | kill p | finish =>
        obtain ⟨-, rfl, rfl⟩ := on_pair_eq_some.1 h
        exact ⟨rfl, .inl rfl⟩
  | state p =>
    cases p with
    | poll p =>
      obtain ⟨r, k, -, -, rfl, rfl⟩ := World.waitpid_eq_some.1 h
      exact ⟨rfl, .inl rfl⟩
    | cas p =>
      obtain ⟨-, rfl, rfl⟩ := on_pair_eq_some.1 h
      refine ⟨rfl, ?_⟩
      split_ifs
      exacts [.inr rfl, .inl rfl]
    | load | exited | read =>
      obtain ⟨-, rfl, rfl⟩ := on_pair_eq_some.1 h
      exact ⟨rfl, .inl rfl⟩

theorem deed_retiring {d : Deed ℤ} (hp : p.ofStart = false) (hy : (Act.step t y).retiring = true)
    (h : callStep c w y p = some (w', p')) (hd : deed w y p = some d) : d.retiring = true := by
  cases d with
  | create q =>
    rw [deed_create hd] at hp
    cases hp
  | abandon =>
    obtain ⟨q, k, rfl⟩ := deed_abandon hd
    obtain ⟨r, k, rfl, hk, -, -⟩ := World.waitpid_eq_some.1 h
    rcases ProcTable.waitpid_cases hk with ⟨q, st, rfl, -, -⟩ | ⟨-, -, ⟨-, hb⟩ | rfl | ⟨rfl, -⟩⟩
    · cases hd
    · cases hb
    · cases hy
    · cases hd
  | _ => rfl

/-- The invariant of runs without start calls: where `P` is, and which calls have signalled it
along the actions `as`. -/
structure Retired (P : ℤ) (as : List Act) (s : St) : Prop where
  fresh : Fresh s
  noStart : ∀ t, (s.pcs t).ofStart = false
  nonneg : 0 ≤ s.world.pid
  handed : ∃ o, Custody.Handed P o s.custody ∧ ∀ t g, .step t (.kill P g) ∈ as → o = some t

theorem Retired.handed_next {as : List Act} (hs : Retired P as s) (ha : a.retiring = true)
    (h : next c s a = some s') :
    ∃ o, Custody.Handed P o s'.custody ∧ ∀ t g, .step t (.kill P g) ∈ as ++ [a] → o = some t := by
  obtain ⟨o, ho, hkill⟩ := hs.handed
  -- whoever signals `P` now holds it
  have hkill' : ∀ t g, .step t (.kill P g) ∈ as ++ [a] → o = some t := by
    intro t g hmem
    rcases List.mem_append.1 hmem with hmem | hmem
    · exact hkill t g hmem
    · obtain rfl := List.mem_singleton.1 hmem
      obtain ⟨w, p, hc, -⟩ := next_step.1 h
      exact (ho.holder t P (role_of_kill hc)).2
  obtain ⟨-, hsim⟩ := session_simulates c s a s' hs.fresh h
  cases hd : s.deed a with
  | none =>
    rw [hd] at hsim
    exact ⟨o, by rw [hsim]; exact ho, hkill'⟩
  | some x =>
    rw [hd] at hsim
    cases a with
    | call f | env m => cases hd
    | step t y =>
      obtain ⟨d, hdeed, rfl⟩ := Option.map_eq_some_iff.1 hd
      obtain ⟨w, p, hc, -⟩ := next_step.1 h
      obtain ⟨o', hle, ho'⟩ := ho.next (deed_retiring (hs.noStart t) ha hc hdeed) hsim
      exact ⟨o', ho', fun t g hmem => hle t (hkill' t g hmem)⟩

theorem Retired.next {as : List Act} (hs : Retired P as s) (ha : a.retiring = true)
    (h : next c s a = some s') : Retired P (as ++ [a]) s' := by
  suffices hpid : (∀ t, (s'.pcs t).ofStart = false) ∧ 0 ≤ s'.world.pid from
    ⟨next_fresh hs.fresh h, hpid.1, hpid.2, hs.handed_next ha h⟩
  cases a with
  | call f =>
    cases h
    refine ⟨fun t => ?_, hs.nonneg⟩
    by_cases ht : t = s.count
    · subst ht
      simp only [Function.update_self]
      cases f with
      | start => cases ha
      | stop | state => rfl
    · simp only [Function.update_of_ne ht]
      exact hs.noStart t
  | step t y =>
    obtain ⟨w, p, hc, rfl⟩ := next_step.1 h
    obtain ⟨hp, hw⟩ := callStep_retiring (hs.noStart t) hc
    refine ⟨fun t' => ?_, ?_⟩
    · by_cases ht : t' = t
      · subst ht
        simp only [Function.update_self]
        exact hp
      · simp only [Function.update_of_ne ht]
        exact hs.noStart t'
    · have := hs.nonneg
      rcases hw with hw | hw <;> simp only [hw] <;> omega
  | env m =>
    obtain ⟨k, -, rfl⟩ := (next_env (c := c)).1 h
    exact ⟨hs.noStart, hs.nonneg⟩

theorem retired_of_resting (hp : 0 < P) (hpid : s.world.pid = P)
    (hrest : Resting s) : Retired P [] s := by
  have hrole : ∀ t, (s.pcs t).role = .none := by
    intro t
    have := hrest.2 t
    cases hq : s.pcs t <;> rw [hq] at this <;> first | rfl | cases this
  have hno : ∀ t, (s.pcs t).ofStart = false := by
    intro t
    have := hrest.2 t
    cases hq : s.pcs t <;> rw [hq] at this <;> first | rfl | cases this
  have hcell : s.custody.cell = some P := by
    rw [← hpid]
    exact World.cell_of_pos (hpid ▸ hp)
  refine ⟨hrest.1, hno, by omega, none, ⟨.inl ⟨hcell, rfl⟩, fun t q h => ?_, fun t q h => ?_,
    fun t h => ?_, fun _ => .inl hcell⟩, nofun⟩
  all_goals exact nomatch (hrole t).symm.trans h

theorem run_retired {s₀ : St} {as : List Act} (hs : Retired P [] s₀)
    (h : ((session c).guard fun _ a => a.retiring = true).Run s₀ as s) : Retired P as s := by
  refine Machine.Run.induct hs (fun as s a s' _ hs hn => ?_) h
  obtain ⟨ha, hn⟩ := Machine.guard_next.1 hn
  exact hs.next ha hn

/-- A call that has signalled `P` and returned has left nothing behind. -/
theorem Retired.settled {as : List Act} {g : KillSig} (hs : Retired P as s)
    (hk : .step t (.kill P g) ∈ as) (hq : (s.pcs t).role = .none) :
    s.world.procs.owns P = false ∧ s.world.pid = 0 := by
  obtain ⟨o, ho, hkill⟩ := hs.handed
  obtain rfl := hkill t g hk
  have hcell : s.world.cell = none := ho.cell.resolve_left fun hc => nomatch hc.2
  constructor
  · refine Bool.eq_false_iff.2 fun hown => ?_
    rcases ho.own hown with hc | ⟨t', ht'⟩
    · exact nomatch hcell.symm.trans hc
    · obtain rfl := Option.some.inj (ho.holder t' P ht').2
      exact nomatch hq.symm.trans ht'
  · have hnonneg := hs.nonneg
    by_contra hpid
    exact nomatch hcell.symm.trans (World.cell_of_pos (by omega))

theorem next_done {v : ℤ} (hf : Fresh s) (hd : s.pcs t = .done v) (h : next c s a = some s') :
    s'.pcs t = .done v := by
  cases a with
  | call f =>
    cases h
    have hne : t ≠ s.count := by
      rintro rfl
      rw [hf s.count le_rfl] at hd
      cases hd
    exact (Function.update_of_ne hne ..).trans hd
  | step t' y =>
    obtain ⟨w, p, hc, rfl⟩ := next_step.1 h
    have hne : t ≠ t' := by
      rintro rfl
      have := not_quiet_of_callStep hc
      rw [hd] at this
      cases this
    exact (Function.update_of_ne hne ..).trans hd
  | env m =>
    obtain ⟨k, -, rfl⟩ := (next_env (c := c)).1 h
    exact hd

/-- **At most one stop call signals the supervisor**, however many stop and state calls run
concurrently; and once that call has returned, the supervisor has been reaped and the session's
pid is 0, then and in every later state. -/
theorem stop_exclusive (c : Cfg) {s₀ : St} {as : List Act} (hp : 0 < P) (hpid : s₀.world.pid = P)
    (hrest : Resting s₀)
    (hr : ((session c).guard fun _ a => a.retiring = true).Run s₀ as s) :
    (∀ t t' g g', .step t (.kill P g) ∈ as → .step t' (.kill P g') ∈ as → t = t') ∧
    ∀ t g v, .step t (.kill P g) ∈ as → s.pcs t = .done v →
      ∀ bs s', ((session c).guard fun _ a => a.retiring = true).Run s bs s' →
        s'.world.procs.owns P = false ∧ s'.world.pid = 0 := by
  have h₀ := retired_of_resting hp hpid hrest
  constructor
  · intro t t' g g' hk hk'
    obtain ⟨o, -, hkill⟩ := (run_retired h₀ hr).handed
    exact Option.some.inj ((hkill t g hk).symm.trans (hkill t' g' hk'))
  · intro t g v hk hd bs s' hr'
    have hf := (run_retired h₀ hr).fresh
    obtain ⟨-, hd'⟩ := hr'.invariant (I := fun s => Fresh s ∧ s.pcs t = .done v) ⟨hf, hd⟩
      fun s a s' hs hn => by
        obtain ⟨-, hn⟩ := Machine.guard_next.1 hn
        exact ⟨next_fresh hs.1 hn, next_done hs.1 hs.2 hn⟩
    exact (run_retired h₀ (hr.append hr')).settled (List.mem_append_left bs hk) (by rw [hd']; rfl)

/-- A session whose supervisor 100 is running, after a start call that has returned. -/
def running : St where
  world :=
    { pid := 100, state := .running, lastError := .empty, localPort := 1, monitorPort := 0
      procs := Function.update (fun _ => none) 100 (some ⟨.own, none⟩) }
  count := 1
  pcs t := if t = 0 then .done 0 else .idle

theorem running_resting : Resting running := by
  constructor
  · intro t ht
    exact if_neg (Nat.ne_of_gt ht)
  · intro t
    simp only [running]
    split_ifs <;> rfl

/-- Two stop calls and a state call race; the first stop call takes the supervisor. -/
def race : List Act :=
  [.call .stop, .call .stop, .call .state, .step 3 .tau, .step 1 .tau, .step 2 .tau,
    .step 1 (.kill 100 .sigterm), .step 2 .tau, .step 3 (.waitpid 100 true .zero),
    .env (.exit 100 15), .step 1 (.waitpid 100 true (.reaped 100 15)), .step 1 .tau,
    .step 1 (.ret 0)]

theorem race_exclusive :
    ∃ s, ((session Cfg.plain).guard fun _ a => a.retiring = true).Run
        running race s ∧ .step 1 (.kill 100 .sigterm) ∈ race ∧ s.pcs 1 = .done 0 ∧
      (∀ t g, .step t (.kill 100 g) ∈ race → t = 1) ∧
      s.world.procs.owns 100 = false ∧ s.world.pid = 0 := by
  have hr : ((session Cfg.plain).guard fun _ a => a.retiring = true).Run
      running race _ := rfl
  have hmem : .step 1 (.kill 100 .sigterm) ∈ race := by decide
  obtain ⟨huniq, hdone⟩ := stop_exclusive _ (by decide) rfl running_resting hr
  exact ⟨_, hr, hmem, rfl, fun t g hk => huniq t 1 g _ hk hmem, hdone 1 _ 0 hmem rfl [] _ rfl⟩

end Session

end Autossh
