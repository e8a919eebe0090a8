import Autossh.Supervisor.Basic

/-!
# `ssh_kill` (`src/kill.rs`)
-/

namespace Autossh

namespace Supervisor

/-- `SIGTERM_GRACE`. -/
def sigtermGrace : ℕ := 2

/-- `SIGKILL_WAIT`. -/
def sigkillWait : ℕ := 2

/-- The rounds of `reap_with_grace` in each phase. -/
def Phase.rounds : Phase → ℕ
  | .term => sigtermGrace
  | .kill => sigkillWait

/-- Where the caller of `ssh_kill` goes on. -/
def KillCont.resume : KillCont → Pc
  | .ret rc => .watch (.ret rc)
  | .portWait => .errlog .portWait (.sleep portFwdFailDelay (.watch (.ret .restart)))
  | .fatal => .exit

/-- The end of a grace loop: `SIGKILL` after the first, giving up after the second. -/
def Phase.timeout (cchild : ℤ) (k : KillCont) : Phase → Pc
  | .term => .errlog (.escalate cchild) (.kill (.signal .kill) k)
  | .kill => .errlog (.abandoned cchild) (.kill .drop k)

/-- One step of `ssh_kill`. -/
def sshKillStep (s : St) (k : KillCont) (a : Act) : KillPc → Option St
  | .close =>
    if 0 ≤ s.sshStderrFd then
      on (.close s.sshStderrFd) { s with sshStderrFd := -1, pc := .kill .test k } a
    else on .tau (s.goto (.kill .test k)) a
  | .test =>
    on .tau (s.goto (if s.cchild = 0 then k.resume else .kill (.signal .term) k)) a
  | .signal ph => on (.kill s.cchild ph) (s.goto (.kill (.poll ph 0) k)) a
  | .poll ph w =>
    if w < ph.rounds then
      (a.waitpid? .sshKill s.cchild).bind fun
        | .pid st =>
          if terminated st then some { s with cchild := 0, child := .none, pc := k.resume }
          else none
        | .err .echild => some { s with cchild := 0, pc := k.resume }
        | .err (.other n) =>
          some (s.goto (.errlog (.waitpidError (ph = .kill) (.other n)) (.kill .drop k)))
        | .zero | .err .eintr => some (s.goto (.sleep 1 (.kill (.poll ph (w + 1)) k)))
    else on .tau (s.goto (ph.timeout s.cchild k)) a
  | .drop => on .tau { s with cchild := 0, pc := k.resume } a

/-- `ssh_kill` only touches the child and the stderr descriptor. -/
theorem sshKillStep_frame {s t : St} {k : KillCont} {p : KillPc} {a : Act}
    (h : sshKillStep s k a p = some t) :
    ∃ q pid ch fd, t = { s with pc := q, cchild := pid, child := ch, sshStderrFd := fd } := by
  cases p with
  | close =>
    simp only [sshKillStep] at h
    split_ifs at h <;> obtain ⟨-, rfl⟩ := on_eq_some.1 h <;> exact ⟨_, _, _, _, rfl⟩
  | poll ph w =>
    simp only [sshKillStep] at h
    split_ifs at h
    · simp only [Option.bind_eq_some_iff] at h
      obtain ⟨r, -, h⟩ := h
      split at h
      · split_ifs at h
        cases h
        exact ⟨_, _, _, _, rfl⟩
      all_goals cases h; exact ⟨_, _, _, _, rfl⟩
    · obtain ⟨-, rfl⟩ := on_eq_some.1 h
      exact ⟨_, _, _, _, rfl⟩
  | _ =>
    obtain ⟨-, rfl⟩ := on_eq_some.1 h
    exact ⟨_, _, _, _, rfl⟩

/-- The pid is dropped when the child is reaped or given up. -/
theorem sshKillStep_cchild {s t : St} {k : KillCont} {p : KillPc} {a : Act}
    (h : sshKillStep s k a p = some t) : t.cchild = s.cchild ∨ t.cchild = 0 := by
  cases p with
  | close =>
    simp only [sshKillStep] at h
    split_ifs at h <;> obtain ⟨-, rfl⟩ := on_eq_some.1 h <;> exact .inl rfl
  | poll ph w =>
    simp only [sshKillStep] at h
    split_ifs at h
    · simp only [Option.bind_eq_some_iff] at h
      obtain ⟨r, -, h⟩ := h
      split at h
      · split_ifs at h
        cases h
        exact .inr rfl
      all_goals cases h; first | exact .inl rfl | exact .inr rfl
    · obtain ⟨-, rfl⟩ := on_eq_some.1 h
      exact .inl rfl
  | drop =>
    obtain ⟨-, rfl⟩ := on_eq_some.1 h
    exact .inr rfl
  | _ =>
    obtain ⟨-, rfl⟩ := on_eq_some.1 h
    exact .inl rfl

/-- Where a step of `ssh_kill` can lead: on within the function, or to what follows the call. -/
theorem sshKillStep_target {P : Pc → Prop} {s t : St} {k : KillCont} {p : KillPc} {a : Act}
    (hkill : ∀ q, P (.kill q k)) (herrlog : ∀ m q, P (.errlog m (.kill q k)))
    (hsleep : ∀ n q, P (.sleep n (.kill q k))) (hresume : P k.resume)
    (h : sshKillStep s k a p = some t) : P t.pc := by
  cases p with
  | close =>
    simp only [sshKillStep] at h
    split_ifs at h <;> obtain ⟨-, rfl⟩ := on_eq_some.1 h <;> exact hkill _
  | test =>
    obtain ⟨-, rfl⟩ := on_eq_some.1 h
    simp only [St.goto]
    split_ifs
    · exact hresume
    · exact hkill _
  | signal ph =>
    obtain ⟨-, rfl⟩ := on_eq_some.1 h
    exact hkill _
  | poll ph w =>
    simp only [sshKillStep] at h
    split_ifs at h
    · simp only [Option.bind_eq_some_iff] at h
      obtain ⟨r, -, h⟩ := h
      split at h
      · split_ifs at h
        cases h
        exact hresume
      · cases h
        exact hresume
      · cases h
        exact herrlog _ _
      all_goals cases h; exact hsleep _ _
    · obtain ⟨-, rfl⟩ := on_eq_some.1 h
      cases ph <;> exact herrlog _ _
  | drop =>
    obtain ⟨-, rfl⟩ := on_eq_some.1 h
    exact hresume

end Supervisor

end Autossh
