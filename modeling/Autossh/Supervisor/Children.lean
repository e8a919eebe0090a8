import Autossh.Supervisor.Async
import Autossh.Supervisor.Ledger

/-!
# The supervisor and its children

The supervisor refines the orderly parent of `Autossh.Supervisor.Ledger`
(`supervisor_refines_ledger`): it forks and returns only when every earlier child has been
reaped or given up, and it never signals or waits for anything but its latest child.

The relation ties the ledger to `cchild` by control point (`KidsAt`).  From the `fork` to the
end of `ssh_watch` the latest record is fresh and `cchild` is its pid; `ssh_kill` turns this into
a settled record.  `ssh_wait` reaps the child and leaves `cchild` set, so what matters is that
no path leads from there to `ssh_kill`: the status of a reaped child never means "continue".

Main results: `forked_children_settled`, `signals_name_latest_child`.
-/

namespace Autossh

namespace Supervisor

/-- Every child has been reaped or given up. -/
def Settled (l : List Child) : Prop := ∀ x ∈ l, x.settled = true

/-- `pid` is the latest child, and nothing has happened to it yet. -/
def Live (pid : ℤ) (ch : ChildState) (l : List Child) : Prop :=
  0 < pid ∧ ch ≠ .none ∧ ∃ l', l = .fresh pid :: l'

/-- `ssh_kill` is at work on the latest child, whose record satisfies `P`. -/
def Killing (pid : ℤ) (P : Child → Prop) (l : List Child) : Prop :=
  0 < pid ∧ ∃ x l', l = x :: l' ∧ x.pid = pid ∧ x.reaped = false ∧ P x

/-- What `ssh_kill` has done to the child after `w` rounds of the grace loop `ph`. -/
def Phase.Progress (w : ℕ) : Phase → Child → Prop
  | .term, x => x.phase = some .term ∧ w ≤ x.termPolls
  | .kill, x => x.phase = some .kill ∧ sigtermGrace ≤ x.termPolls ∧ w ≤ x.killPolls

/-- The ledger at each control point. -/
def KidsAt : Pc → ℤ → ChildState → List Child → Prop
  | .run p, pid, ch, l => match p with
    | .parentClose | .parentFd | .setHandlers _ => Live pid ch l
    | .closeRd | .closeWr => Settled l ∧ pid = 0
    | _ => Settled l
  | .watch p, pid, ch, l => match p with
    | .status st => Settled l ∧ terminated st = true
    | .waited rc => if rc = .cont then Live pid ch l else Settled l
    | .ret _ | .leave _ => Settled l
    | _ => Live pid ch l
  | .drain _ k, pid, ch, l => match k with
    | .wait st => Settled l ∧ terminated st = true
    | _ => Live pid ch l
  | .kill p _, pid, ch, l => match p with
    | .close | .test => Live pid ch l ∨ (Settled l ∧ pid = 0)
    | .signal .term => Live pid ch l
    | .signal .kill => Killing pid (fun x => sigtermGrace ≤ x.termPolls) l
    | .poll ph w => Killing pid (ph.Progress w) l
    | .drop => Settled l
  | .errlog _ k, pid, ch, l => KidsAt k pid ch l
  | .sleep _ k, pid, ch, l => KidsAt k pid ch l
  | .exit, _, _, _ => True
  | .gone, _, _, _ => True

variable {c : Cfg} {s t : St} {a : Act} {l : List Child}

theorem Live.current {pid : ℤ} {ch : ChildState} (h : Live pid ch l) : Current l pid := by
  obtain ⟨hp, -, l', rfl⟩ := h
  exact ⟨hp, rfl, rfl⟩

theorem Killing.current {pid : ℤ} {P : Child → Prop} (h : Killing pid P l) : Current l pid := by
  obtain ⟨hp, x, l', rfl, hx, hr, -⟩ := h
  exact ⟨hp, hx, hr⟩

theorem settled_cons {x : Child} {l : List Child} (hx : x.settled = true)
    (hl : ∀ y ∈ l, y.settled = true) : Settled (x :: l) :=
  List.forall_mem_cons.2 ⟨hx, hl⟩

/-! ### One step of the main program -/

theorem sshRunStep_kids {p : RunPc} (hk : KidsAt (.run p) s.cchild s.child l)
    (h : sshRunStep c s a p = some t) :
    Orderly l a ∧ KidsAt t.pc t.cchild t.child (record l a) := by
  cases p with
  | setExit l | unsetHandlers rc l | setHandlers l =>
    cases l <;> obtain ⟨rfl, rfl⟩ := on_eq_some.1 h <;> exact ⟨trivial, hk⟩
  | head | lifetime | portDelay | testExit =>
    obtain ⟨rfl, rfl⟩ := on_eq_some.1 h
    refine ⟨trivial, ?_⟩
    simp only [St.goto]
    split_ifs <;> exact hk
  | grace =>
    obtain ⟨rfl, rfl⟩ := on_eq_some.1 h
    refine ⟨trivial, ?_⟩
    simp only
    split_ifs <;> exact hk
  | pipe =>
    simp only [sshRunStep, Option.bind_eq_some_iff, pipe?_eq_some] at h
    obtain ⟨r, rfl, h⟩ := h
    rcases r with - | ⟨r, w⟩ <;> cases h <;> exact ⟨trivial, hk⟩
  | fork =>
    simp only [sshRunStep, Option.bind_eq_some_iff, fork?_eq_some] at h
    obtain ⟨r, rfl, h⟩ := h
    split_ifs at h with h₁ h₂ <;> cases h <;> refine ⟨hk, ?_⟩
    -- a failed `fork` is not recorded
    · rw [record, if_neg (by omega)]
      exact hk
    · rw [record, if_pos h₂]
      exact ⟨h₂, by simp, l, rfl⟩
  | forkFailed =>
    obtain ⟨rfl, rfl⟩ := on_eq_some.1 h
    exact ⟨trivial, hk, rfl⟩
  | closeRd | parentClose =>
    obtain ⟨rfl, rfl⟩ := on_eq_some.1 h
    split_ifs <;> exact ⟨trivial, hk⟩
  | closeWr =>
    obtain ⟨rfl, rfl⟩ := on_eq_some.1 h
    split_ifs <;> exact ⟨trivial, .inr hk⟩
  | closeStderr rc =>
    simp only [sshRunStep] at h
    split_ifs at h <;> obtain ⟨rfl, rfl⟩ := on_eq_some.1 h <;> exact ⟨trivial, hk⟩
  | testRc rc =>
    obtain ⟨rfl, rfl⟩ := on_eq_some.1 h
    refine ⟨trivial, ?_⟩
    simp only [St.goto]
    split_ifs <;> exact hk
  | ret rc =>
    obtain ⟨rfl, rfl⟩ := on_eq_some.1 h
    exact ⟨hk, trivial⟩
  | _ =>
    obtain ⟨rfl, rfl⟩ := on_eq_some.1 h
    exact ⟨trivial, hk⟩

theorem sshWatchStep_kids {p : WatchPc} (hk : KidsAt (.watch p) s.cchild s.child l)
    (hl : ∀ x ∈ l.tail, x.settled = true) (h : sshWatchStep c s a p = some t) :
    Orderly l a ∧ KidsAt t.pc t.cchild t.child (record l a) := by
  cases p with
  | testRestart | alrm =>
    obtain ⟨rfl, rfl⟩ := on_eq_some.1 h
    refine ⟨trivial, ?_⟩
    simp only [St.goto]
    split_ifs
    · exact .inl hk
    · exact hk
  | wait =>
    simp only [sshWatchStep, Option.bind_eq_some_iff, waitpid?_eq_some] at h
    obtain ⟨r, rfl, h⟩ := h
    refine ⟨hk.current, ?_⟩
    obtain ⟨hp, hc, l', rfl⟩ := hk
    rw [record, amend_fresh]
    cases r with
    | pid st =>
      simp only at h
      split_ifs at h with ht
      cases h
      exact ⟨settled_cons rfl hl, ht⟩
    | zero | err e => cases h; exact ⟨hp, hc, l', rfl⟩
  | status st =>
    obtain ⟨rfl, rfl⟩ := on_eq_some.1 h
    refine ⟨trivial, ?_⟩
    obtain ⟨hd, ht⟩ := hk
    -- after a terminated child `ssh_wait` never says `P_CONTINUE`
    have hrc := sshWaitStatus_ne_cont c s.startCount s.startTime s.now ht
    simp only [St.goto]
    split <;> rename_i he <;> rw [he] at hrc <;> simp only [KidsAt, if_neg hrc] <;> exact hd
  | waited rc =>
    obtain ⟨rfl, rfl⟩ := on_eq_some.1 h
    refine ⟨trivial, ?_⟩
    simp only [KidsAt] at hk
    simp only [St.goto]
    split_ifs at hk ⊢ <;> exact hk
  | testExit | wake re | pollin re | pollhup re =>
    obtain ⟨rfl, rfl⟩ := on_eq_some.1 h
    refine ⟨trivial, ?_⟩
    simp only [St.goto]
    split_ifs <;> exact hk
  | dropJmp =>
    obtain ⟨rfl, rfl⟩ := on_eq_some.1 h
    exact ⟨trivial, .inl hk⟩
  | asleep old =>
    simp only [sshWatchStep] at h
    split_ifs at h
    simp only [Option.bind_eq_some_iff, poll?_eq_some, Option.some.injEq] at h
    obtain ⟨re, rfl, rfl⟩ := h
    exact ⟨trivial, hk⟩
  | dispatch v =>
    obtain ⟨rfl, rfl⟩ := on_eq_some.1 h
    refine ⟨trivial, ?_⟩
    cases v <;> first | exact .inl hk | exact hk
  | watchdog =>
    obtain ⟨rfl, rfl⟩ := on_eq_some.1 h
    refine ⟨trivial, ?_⟩
    simp only [St.goto, watchdogNext]
    split_ifs
    · exact .inl hk
    · exact .inl hk
    · exact hk
  | conn =>
    simp only [sshWatchStep] at h
    split_ifs at h
    · simp only [Option.bind_eq_some_iff, conn?_eq_some, Option.some.injEq] at h
      obtain ⟨r, rfl, rfl⟩ := h
      refine ⟨trivial, ?_⟩
      cases r with
      | up => exact hk
      | down => exact .inl hk
      | fatal => exact .inl hk
    · obtain ⟨rfl, rfl⟩ := on_eq_some.1 h
      exact ⟨trivial, hk⟩
  | _ =>
    obtain ⟨rfl, rfl⟩ := on_eq_some.1 h
    exact ⟨trivial, hk⟩

theorem DrainCont.resume_kids {pid : ℤ} {ch : ChildState} {p : DrainPc} {k : DrainCont} (b : Bool)
    (hk : KidsAt (.drain p k) pid ch l) : KidsAt (k.resume b) pid ch l := by
  cases k with
  | wait st => exact hk
  | pollin re | alrm =>
    cases b
    · exact hk
    · exact .inl hk

theorem checkSshStderrStep_kids {p : DrainPc} {k : DrainCont}
    (hk : KidsAt (.drain p k) s.cchild s.child l) (h : checkSshStderrStep s k a p = some t) :
    Orderly l a ∧ KidsAt t.pc t.cchild t.child (record l a) := by
  have ht : KidsAt t.pc s.cchild s.child l :=
    checkSshStderrStep_target (P := fun q => KidsAt q s.cchild s.child l) (fun _ => hk)
      (fun _ => hk) (fun b => DrainCont.resume_kids b hk) (fun _ => DrainCont.resume_kids true hk) h
  have ha : a = .tau ∨ ∃ fd r, a = .read fd r := checkSshStderrStep_act h
  obtain ⟨_, _, _, rfl⟩ := checkSshStderrStep_frame h
  rcases ha with rfl | ⟨fd, r, rfl⟩ <;> exact ⟨trivial, ht⟩

theorem KillCont.resume_kids {pid : ℤ} {ch : ChildState} (k : KillCont) (hl : Settled l) :
    KidsAt k.resume pid ch l := by
  cases k with
  | ret rc => exact hl
  | portWait => exact hl
  | fatal => trivial

/-- `ssh_kill` gives a child up for any error of `waitpid` but an interruption. -/
theorem settled_waited_err (x : Child) {e : Errno} (he : e ≠ .eintr) :
    (x.waited .sshKill (.err e)).settled = true := by
  simp [Child.settled, Child.givenUp, Child.waited, he]

theorem Phase.Progress.polled {w : ℕ} {ph : Phase} {x : Child} (h : ph.Progress w x) :
    x.polled.pid = x.pid ∧ x.polled.reaped = x.reaped ∧ ph.Progress (w + 1) x.polled := by
  cases ph with
  | term =>
    obtain ⟨hx, hw⟩ := h
    have he : x.polled = { x with termPolls := x.termPolls + 1 } := by simp only [Child.polled, hx]
    rw [he]
    exact ⟨rfl, rfl, hx, Nat.succ_le_succ hw⟩
  | kill =>
    obtain ⟨hx, ht, hw⟩ := h
    have he : x.polled = { x with killPolls := x.killPolls + 1 } := by simp only [Child.polled, hx]
    rw [he]
    exact ⟨rfl, rfl, hx, ht, Nat.succ_le_succ hw⟩

/-- A grace loop that has run out leads on to `SIGKILL`, or settles the child. -/
theorem Phase.timeout_kids {pid : ℤ} {ch : ChildState} {w : ℕ} {ph : Phase} (k : KillCont)
    (hk : Killing pid (ph.Progress w) l) (hl : ∀ x ∈ l.tail, x.settled = true)
    (hw : ¬ w < ph.rounds) : KidsAt (ph.timeout pid k) pid ch l := by
  obtain ⟨hp, x, l', rfl, hx, hr, hpr⟩ := hk
  cases ph with
  | term => exact ⟨hp, x, l', rfl, hx, hr, (Nat.le_of_not_lt hw).trans hpr.2⟩
  | kill =>
    have hkill : sigkillWait ≤ x.killPolls := (Nat.le_of_not_lt hw).trans hpr.2.2
    exact settled_cons (by simp [Child.settled, Child.givenUp, hpr.2.1, hkill]) hl

theorem sshKillStep_kids {p : KillPc} {k : KillCont} (hk : KidsAt (.kill p k) s.cchild s.child l)
    (hl : ∀ x ∈ l.tail, x.settled = true) (h : sshKillStep s k a p = some t) :
    Orderly l a ∧ KidsAt t.pc t.cchild t.child (record l a) := by
  cases p with
  | close =>
    simp only [sshKillStep] at h
    split_ifs at h <;> obtain ⟨rfl, rfl⟩ := on_eq_some.1 h <;> exact ⟨trivial, hk⟩
  | test =>
    obtain ⟨rfl, rfl⟩ := on_eq_some.1 h
    refine ⟨trivial, ?_⟩
    simp only [St.goto]
    split_ifs with h0
    -- no child: `ssh_run` has failed to fork one
    · rcases hk with hk | hk
      · exact absurd h0 hk.1.ne'
      · exact KillCont.resume_kids k hk.1
    · exact hk.resolve_right fun hk => h0 hk.2
  | signal ph =>
    obtain ⟨rfl, rfl⟩ := on_eq_some.1 h
    cases ph with
    | term =>
      refine ⟨hk.current, ?_⟩
      obtain ⟨hp, -, l', rfl⟩ := hk
      exact ⟨hp, _, l', amend_fresh _ _ l', rfl, rfl, rfl, le_rfl⟩
    | kill =>
      refine ⟨hk.current, ?_⟩
      obtain ⟨hp, x, l', rfl, hx, hr, ht⟩ := hk
      refine ⟨hp, { x with phase := some .kill }, l', ?_, hx, hr, rfl, ht, Nat.zero_le _⟩
      rw [record, ← hx, amend_cons_self]
  | poll ph w =>
    simp only [sshKillStep] at h
    split_ifs at h with hw
    · simp only [Option.bind_eq_some_iff, waitpid?_eq_some] at h
      obtain ⟨r, rfl, h⟩ := h
      refine ⟨hk.current, ?_⟩
      obtain ⟨hp, x, l', rfl, hx, hr, hpr⟩ := hk
      rw [record, ← hx, amend_cons_self]
      -- reaped, `ECHILD`, another error, and two results that lead to another round
      split at h
      · split_ifs at h
        cases h
        exact KillCont.resume_kids k (settled_cons rfl hl)
      · cases h
        exact KillCont.resume_kids k (settled_cons (settled_waited_err x (by simp)) hl)
      · cases h
        exact settled_cons (settled_waited_err x (by simp)) hl
      all_goals
        cases h
        obtain ⟨hx', hr', hpr'⟩ := hpr.polled
        exact ⟨hp, _, l', rfl, hx'.trans hx, hr'.trans hr, hpr'⟩
    · obtain ⟨rfl, rfl⟩ := on_eq_some.1 h
      exact ⟨trivial, Phase.timeout_kids k hk hl hw⟩
  | drop =>
    obtain ⟨rfl, rfl⟩ := on_eq_some.1 h
    exact ⟨trivial, KillCont.resume_kids k hk⟩

theorem mainStep_kids (hk : KidsAt s.pc s.cchild s.child l)
    (hl : ∀ x ∈ l.tail, x.settled = true) (h : mainStep c s a = some t) :
    Orderly l a ∧ KidsAt t.pc t.cchild t.child (record l a) := by
  rcases mainStep_cases h with ⟨p, hp, h⟩ | ⟨p, hp, h⟩ | ⟨p, k, hp, h⟩ | ⟨p, k, hp, h⟩ |
    ⟨k, ⟨m, hp⟩ | ⟨n, hp⟩, rfl, rfl⟩ | ⟨-, rfl, rfl⟩
  · exact sshRunStep_kids (hp ▸ hk) h
  · exact sshWatchStep_kids (hp ▸ hk) hl h
  · exact checkSshStderrStep_kids (hp ▸ hk) h
  · exact sshKillStep_kids (hp ▸ hk) hl h
  · rw [hp] at hk
    exact ⟨trivial, hk⟩
  · rw [hp] at hk
    exact ⟨trivial, hk⟩
  · exact ⟨trivial, trivial⟩

/-! ### The handler and the environment -/

theorem orderly_of_isCall (l : List Child) (ha : a.isCall = false) :
    Orderly l a ∧ record l a = l := by
  cases a <;> first | exact ⟨trivial, rfl⟩ | cases ha

theorem Live.child {pid : ℤ} {ch ch' : ChildState} (h : Live pid ch l) (hc : ch' ≠ .none) :
    Live pid ch' l :=
  ⟨h.1, hc, h.2.2⟩

theorem KidsAt.child {p : Pc} {pid : ℤ} {ch ch' : ChildState} (hk : KidsAt p pid ch l)
    (hc : ch' ≠ .none) : KidsAt p pid ch' l := by
  induction p with
  | run p => cases p <;> first | exact hk | exact Live.child hk hc
  | watch p =>
    cases p with
    | waited rc =>
      simp only [KidsAt] at hk ⊢
      split_ifs at hk ⊢
      · exact hk.child hc
      · exact hk
    | _ => first | exact hk | exact Live.child hk hc
  | drain p k => cases k <;> first | exact hk | exact Live.child hk hc
  | kill p k =>
    cases p with
    | close | test => exact hk.imp_left fun hk => hk.child hc
    | signal ph =>
      cases ph with
      | term => exact Live.child hk hc
      | kill => exact hk
    | poll ph w => exact hk
    | drop => exact hk
  | errlog m k ih => exact ih hk
  | sleep n k ih => exact ih hk
  | exit | gone => trivial

theorem Async.kids (h : Async s t) (hk : KidsAt s.pc s.cchild s.child l) :
    KidsAt t.pc t.cchild t.child l := by
  have hpc : KidsAt t.pc s.cchild s.child l :=
    h.pc.keeps (A := fun p => KidsAt p s.cchild s.child l) hk (fun _ _ _ hk => hk)
      (fun _ hk => hk) (fun _ hk => hk) trivial
  rw [h.cchild]
  rcases h.child with hc | hc
  · rwa [hc]
  · exact hpc.child hc

/-! ### Refinement -/

/-- The supervisor and the ledger agree. -/
structure Kids (s : St) (l : List Child) : Prop where
  sig : SigInv s
  atPc : KidsAt s.pc s.cchild s.child l
  tail : ∀ x ∈ l.tail, x.settled = true

theorem next_kids {s' : St} (hk : Kids s l) (h : next c s a = some s') :
    Orderly l a ∧ KidsAt s'.pc s'.cchild s'.child (record l a) := by
  rcases next_main_or_async hk.sig h with ⟨ha, hasync⟩ | ⟨-, t, hm, rfl⟩
  · obtain ⟨ho, hrec⟩ := orderly_of_isCall l ha
    rw [hrec]
    exact ⟨ho, hasync.kids hk.atPc⟩
  · have hm' := mainStep_kids hk.atPc hk.tail hm
    exact hm'

/-- **The supervisor is an orderly parent.** -/
theorem supervisor_refines_ledger (c : Cfg) : (supervisor c).Refines ledger Kids := by
  intro s l a s' hk hn
  obtain ⟨ho, hk'⟩ := next_kids hk hn
  exact ⟨record l a, ledger_next.2 ⟨ho, rfl⟩, next_sigInv hk.sig hn, hk', record_tail ho hk.tail⟩

theorem init_kids (i : Inherited) : Kids (.init i) [] :=
  ⟨init_sigInv i, nofun, nofun⟩

theorem run_kids {i : Inherited} {as : List Act} (h : (supervisor c).Run (.init i) as s) :
    Kids s (children as) := by
  obtain ⟨l, hl, hk⟩ := h.refines (supervisor_refines_ledger c) (init_kids i)
  rwa [← ledger_run hl]

theorem countP_open_le_one {l : List Child} (h : ∀ x ∈ l.tail, x.settled = true) :
    l.countP (fun x => !x.settled) ≤ 1 := by
  cases l with
  | nil => exact Nat.zero_le 1
  | cons x l =>
    have hl : l.countP (fun x => !x.settled) = 0 :=
      List.countP_eq_zero.2 fun y hy => by simp [h y hy]
    rw [List.countP_cons, hl]
    split_ifs <;> simp

/-- **No child is left behind.**  Whenever `ssh_run` forks and whenever it returns, every child it
has forked has been reaped, or given up by `ssh_kill`; and at no time is there more than one
child that is neither. -/
theorem forked_children_settled (c : Cfg) (i : Inherited) {as : List Act} {s s' : St} {a : Act}
    (hr : (supervisor c).Run (.init i) as s) (hn : (supervisor c).next s a = some s') :
    ((∃ r, a = .fork r) ∨ (∃ rc, a = .runRet rc) → ∀ x ∈ children as, x.settled = true) ∧
      (children (as ++ [a])).countP (fun x => !x.settled) ≤ 1 := by
  obtain ⟨ho, -⟩ := next_kids (run_kids hr) hn
  refine ⟨?_, countP_open_le_one (run_kids (Machine.run_concat.2 ⟨s, hr, hn⟩)).tail⟩
  rintro (⟨r, rfl⟩ | ⟨rc, rfl⟩) <;> exact ho

/-- The child exits and `ssh_wait` reaps it. -/
def childExits (pid : ℤ) (st : ℕ) : List Act :=
  ([.childExit st, .deliver .chld, .tau, .tau, .tau, .longjmp .chld] : List Act) ++
    List.replicate 5 Act.tau ++ ([.waitpid .sshWait pid (.pid st)] : List Act)

/-- From the end of the pipe to the last step of `ssh_run`, for a child that exits too early. -/
def wayOut (fd : ℤ) : List Act :=
  ([.read fd none] : List Act) ++ List.replicate 4 Act.tau ++
    ([.watchRet .exitErr, .tau, .alarm 0 600] : List Act) ++ List.replicate 7 Act.tau ++
    ([.close fd, .tau] : List Act)

theorem settled_on_return :
    ∃ s s', (supervisor .default).Run (.init .clean)
        (startup 100 600 ++ childExits 100 0 ++ wayOut 3) s ∧
      (supervisor .default).next s (.runRet .exitErr) = some s' ∧
      ∀ x ∈ children (startup 100 600 ++ childExits 100 0 ++ wayOut 3), x.settled = true := by
  obtain ⟨s, s', hr, hn⟩ := Machine.exists_run_concat (show Option.isSome
    ((supervisor .default).exec (.init .clean)
      (startup 100 600 ++ childExits 100 0 ++ wayOut 3 ++ [.runRet .exitErr])) = true by rfl)
  exact ⟨s, s', hr, hn, (forked_children_settled .default .clean hr hn).1 (.inr ⟨_, rfl⟩)⟩

/-- **Only the latest child is signalled or waited for.**  Every `kill` and every `waitpid` of the
supervisor names a positive pid: that of the child forked last, which has not been reaped. -/
theorem signals_name_latest_child (c : Cfg) (i : Inherited) {as : List Act} {s s' : St} {a : Act}
    {p : ℤ} (hr : (supervisor c).Run (.init i) as s) (hn : (supervisor c).next s a = some s')
    (hp : (∃ ph, a = .kill p ph) ∨ ∃ f r, a = .waitpid f p r) :
    0 < p ∧ ∃ x, (children as).head? = some x ∧ x.pid = p ∧ x.reaped = false := by
  obtain ⟨ho, -⟩ := next_kids (run_kids hr) hn
  have hcur : Current (children as) p := by
    rcases hp with ⟨ph, rfl⟩ | ⟨f, r, rfl⟩ <;> exact ho
  cases hl : children as with
  | nil => rw [hl] at hcur; exact hcur.elim
  | cons x l =>
    rw [hl] at hcur
    exact ⟨hcur.1, x, rfl, hcur.2.1, hcur.2.2⟩

/-- A termination signal ends the wait, up to the `kill` of `ssh_kill`. -/
def terminate (fd : ℤ) : List Act :=
  [.raise .term, .deliver .term, .tau, .tau, .tau, .tau, .longjmp .term, .tau, .tau, .tau,
    .close fd, .tau]

theorem sigterm_to_latest_child :
    ∃ s s', (supervisor .default).Run (.init .clean) (startup 100 600 ++ terminate 3) s ∧
      (supervisor .default).next s (.kill 100 .term) = some s' ∧ (0 : ℤ) < 100 ∧
      ∃ x, (children (startup 100 600 ++ terminate 3)).head? = some x ∧ x.pid = 100 ∧
        x.reaped = false := by
  obtain ⟨s, s', hr, hn⟩ := Machine.exists_run_concat (show Option.isSome
    ((supervisor .default).exec (.init .clean)
      (startup 100 600 ++ terminate 3 ++ [.kill 100 .term])) = true by rfl)
  exact ⟨s, s', hr, hn, signals_name_latest_child .default .clean hr hn (.inl ⟨_, rfl⟩)⟩

end Supervisor

end Autossh
