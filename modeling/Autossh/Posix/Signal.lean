import Mathlib.Logic.Function.Basic
import Mathlib.Tactic.SplitIfs

/-!
# Signals of a single-threaded process

What the kernel keeps for one process: the mask of blocked signals, the set of pending ones and
the disposition of each.  `Sig` lists the signals the programs below install handlers for,
block or test; a signal set is a characteristic function.

* `SigState.raise` : a signal is sent to the process.  It becomes pending, except when it is
  not blocked and ignored, in which case it is discarded;
* `SigState.sigaction` : a disposition is set.  Setting one that ignores the signal discards a
  pending instance;
* `SigState.deliverable` : the signal is pending and not blocked;
* `SigState.enter` : the mask a handler runs under.
-/

namespace Autossh

/-- The signals that matter to the supervisor. -/
inductive Sig
  | hup | int | quit | abrt | usr1 | usr2 | pipe | alrm | term | chld
  deriving DecidableEq, Repr

/-- A `sigset_t`. -/
abbrev SigSet := Sig → Bool

namespace SigSet

/-- The empty set, as `sigemptyset` leaves it. -/
def empty : SigSet := fun _ => false

/-- The set with exactly the signals of a list, as `sigaddset` builds it. -/
def ofList (l : List Sig) : SigSet := fun g => decide (g ∈ l)

/-- Union of two sets. -/
def union (a b : SigSet) : SigSet := fun g => a g || b g

@[simp] theorem union_apply (a b : SigSet) (g : Sig) : union a b g = (a g || b g) := rfl

@[simp] theorem ofList_apply (l : List Sig) (g : Sig) : ofList l g = decide (g ∈ l) := rfl

theorem union_union_self (a b : SigSet) : union (union a b) b = union a b := by
  funext g; simp

end SigSet

/-- The disposition of a signal; a handler is installed with its `sa_mask`. -/
inductive Disp
  | dfl
  | ign
  | catch (mask : SigSet)

/-- The default action is to ignore the signal (for the signals here: only `SIGCHLD`). -/
def Sig.dflIgnored : Sig → Bool
  | .chld => true
  | _ => false

/-- The disposition discards the signal. -/
def Disp.ignores : Disp → Sig → Bool
  | .dfl, g => g.dflIgnored
  | .ign, _ => true
  | .catch _, _ => false

/-- The signal state of a process. -/
structure SigState where
  /-- Blocked signals. -/
  mask : SigSet
  /-- Signals sent and not yet delivered. -/
  pending : SigSet
  /-- What happens on delivery. -/
  disp : Sig → Disp

namespace SigState

variable (k : SigState) (g : Sig)

/-- The signal `g` is sent to the process. -/
def raise : SigState :=
  if !k.mask g && (k.disp g).ignores g then k
  else { k with pending := Function.update k.pending g true }

/-- `sigaction(g, d)`. -/
def sigaction (d : Disp) : SigState :=
  { k with
    disp := Function.update k.disp g d
    pending := if d.ignores g then Function.update k.pending g false else k.pending }

/-- `sigprocmask(SIG_BLOCK, m)`. -/
def block (m : SigSet) : SigState := { k with mask := k.mask.union m }

/-- `sigprocmask(SIG_SETMASK, m)`, and what returning from a handler or `siglongjmp` does. -/
def setmask (m : SigSet) : SigState := { k with mask := m }

/-- The pending instance of `g` is consumed. -/
def take : SigState := { k with pending := Function.update k.pending g false }

/-- `g` can be delivered now. -/
def deliverable : Bool := k.pending g && !k.mask g

/-- Start the handler of `g`: the instance is consumed, and `g` and the handler's `sa_mask` are
blocked on top of the current mask. -/
def enter (m : SigSet) : SigState :=
  (k.take g).setmask ((k.mask.union m).union fun g' => decide (g' = g))

variable {k g}

@[simp] theorem raise_mask : (k.raise g).mask = k.mask := by
  unfold raise; split_ifs <;> rfl

@[simp] theorem raise_disp : (k.raise g).disp = k.disp := by
  unfold raise; split_ifs <;> rfl

/-- A blocked signal is never lost: it stays pending. -/
theorem raise_pending_of_blocked (h : k.mask g = true) : (k.raise g).pending g = true := by
  simp [raise, h]

theorem raise_pending_mono {g' : Sig} (h : k.pending g' = true) :
    (k.raise g).pending g' = true := by
  unfold raise
  split_ifs
  · exact h
  · by_cases hg : g' = g
    · subst hg; simp
    · simp [hg, h]

@[simp] theorem sigaction_disp (d : Disp) :
    (k.sigaction g d).disp = Function.update k.disp g d := rfl

@[simp] theorem block_mask (m : SigSet) : (k.block m).mask = k.mask.union m := rfl
@[simp] theorem setmask_mask (m : SigSet) : (k.setmask m).mask = m := rfl

theorem take_pending_of_ne {g' : Sig} (h : g' ≠ g) : (k.take g).pending g' = k.pending g' := by
  simp [take, h]

theorem deliverable_iff : k.deliverable g = true ↔ k.pending g = true ∧ k.mask g = false := by
  simp [deliverable]

theorem enter_mask (m : SigSet) (g' : Sig) :
    (k.enter g m).mask g' = (k.mask g' || m g' || decide (g' = g)) := rfl

end SigState

end Autossh
