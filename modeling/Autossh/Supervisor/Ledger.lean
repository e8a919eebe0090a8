import Autossh.Machine.Basic
import Autossh.Supervisor.Kill

/-!
# The ledger of ssh children

What the supervisor owes its children, in terms of its system calls only.  A ledger has one
record for each child ever forked, the latest first; `record` enters the outcome of every
`fork`, `kill` and `waitpid`.  A record is *settled* when the child has been reaped or given up:
both grace loops of `ssh_kill` have run out on it, or a `waitpid` of `ssh_kill` has failed with
an error other than `EINTR`.

`ledger` is the machine that only makes the calls an orderly parent makes: it forks and returns
when every record is settled, and it names in `kill` and `waitpid` only the latest child, as
long as it has not been reaped.  `Autossh.Supervisor.Children` shows that the supervisor refines
it.
-/

namespace Autossh

namespace Supervisor

/-- What is known about a child that was forked. -/
structure Child where
  pid : ℤ
  reaped : Bool
  /-- A `waitpid` of `ssh_kill` failed with an error other than `EINTR`. -/
  failed : Bool
  /-- The last signal `ssh_kill` sent. -/
  phase : Option Phase
  /-- Rounds of the first grace loop in which the child was not there to reap. -/
  termPolls : ℕ
  /-- The same for the second loop. -/
  killPolls : ℕ
  deriving DecidableEq, Repr

namespace Child

/-- A child just forked. -/
def fresh (pid : ℤ) : Child := ⟨pid, false, false, none, 0, 0⟩

/-- `ssh_kill` gave the child up. -/
def givenUp (x : Child) : Bool :=
  x.failed || (decide (sigtermGrace ≤ x.termPolls) && decide (sigkillWait ≤ x.killPolls))

/-- The child has been reaped or given up. -/
def settled (x : Child) : Bool := x.reaped || x.givenUp

/-- A grace loop goes on for another round. -/
def polled (x : Child) : Child :=
  match x.phase with
  | none => x
  | some .term => { x with termPolls := x.termPolls + 1 }
  | some .kill => { x with killPolls := x.killPolls + 1 }

/-- A `waitpid` for the child, and its result. -/
def waited (x : Child) (f : Caller) : WaitRes → Child
  | .pid _ => { x with reaped := true }
  | .zero => match f with
    | .sshWait => x
    | .sshKill => x.polled
  | .err e => match f with
    | .sshWait => x
    | .sshKill => if e = .eintr then x.polled else { x with failed := true }

end Child

/-- Change the latest record with this pid. -/
def amend (p : ℤ) (f : Child → Child) : List Child → List Child
  | [] => []
  | x :: l => if x.pid = p then f x :: l else x :: amend p f l

/-- Enter one action. -/
def record (l : List Child) : Act → List Child
  | .fork r => if 0 < r then .fresh r :: l else l
  | .kill p ph => amend p (fun x => { x with phase := some ph }) l
  | .waitpid f p r => amend p (fun x => x.waited f r) l
  | _ => l

/-- The children forked in a run, with what became of them. -/
def children (as : List Act) : List Child := as.foldl record []

/-- `p` is a positive pid, that of the latest child, and this child has not been reaped. -/
def Current : List Child → ℤ → Prop
  | [], _ => False
  | x :: _, p => 0 < p ∧ x.pid = p ∧ x.reaped = false

instance : ∀ l p, Decidable (Current l p)
  | [], _ => inferInstanceAs (Decidable False)
  | x :: _, p => inferInstanceAs (Decidable (0 < p ∧ x.pid = p ∧ x.reaped = false))

/-- The actions an orderly parent takes. -/
def Orderly (l : List Child) : Act → Prop
  | .fork _ | .runRet _ => ∀ x ∈ l, x.settled = true
  | .kill p _ | .waitpid _ p _ => Current l p
  | _ => True

instance (l : List Child) (a : Act) : Decidable (Orderly l a) := by
  cases a <;> simp only [Orderly] <;> infer_instance

/-- The orderly parent. -/
def ledger : Machine (List Child) Act := Machine.guard ⟨fun l a => some (record l a)⟩ Orderly

theorem ledger_next {l l' : List Child} {a : Act} :
    ledger.next l a = some l' ↔ Orderly l a ∧ record l a = l' := by
  simp [ledger, Machine.guard_next]

theorem ledger_run {as : List Act} {l : List Child} (h : ledger.Run [] as l) : l = children as :=
  h.invariant_hist (I := fun x l => l = x) rfl
    fun _ _ _ _ hx hn => by subst hx; exact (ledger_next.1 hn).2.symm

@[simp] theorem amend_cons_self (f : Child → Child) (x : Child) (l : List Child) :
    amend x.pid f (x :: l) = f x :: l := by simp [amend]

@[simp] theorem amend_fresh (f : Child → Child) (pid : ℤ) (l : List Child) :
    amend pid f (.fresh pid :: l) = f (.fresh pid) :: l := amend_cons_self f (.fresh pid) l

theorem Current.amend_tail {l : List Child} {p : ℤ} (h : Current l p) (f : Child → Child) :
    (amend p f l).tail = l.tail := by
  cases l with
  | nil => rfl
  | cons x l =>
    obtain ⟨-, rfl, -⟩ := h
    rw [amend_cons_self]
    rfl

/-- An orderly parent settles its children before it forks the next: only the latest record can
be open. -/
theorem record_tail {l : List Child} {a : Act} (ho : Orderly l a)
    (hl : ∀ x ∈ l.tail, x.settled = true) : ∀ x ∈ (record l a).tail, x.settled = true := by
  cases a with
  | fork r =>
    simp only [record]
    split_ifs
    · exact ho
    · exact hl
  | kill p ph | waitpid f p r =>
    rw [record, Current.amend_tail ho]
    exact hl
  | _ => exact hl

end Supervisor

end Autossh
