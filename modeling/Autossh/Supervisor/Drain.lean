import Mathlib.Data.Nat.Find
import Autossh.Supervisor.Run

/-!
# What `check_ssh_stderr` finds in a stream

The child's stderr is a stream of bytes; `read` cuts it into chunks, and each call of
`check_ssh_stderr` takes what is there.  The two texts it looks for are searched in each chunk
alone, up to its first NUL.

* `checkSshStderr` is one call as a function of what its reads give, `drains` a row of calls for one
  child: the first that finds something is the last, the child is killed then;
* `run_drainActs` : the supervisor's steps in `check_ssh_stderr` are that function;
* `goodCut_of_whole` : cuts that leave every occurrence of the two texts intact are good ones, if no
  chunk has a line of the detector before the phrase;
* `detects_iff` : **what is found depends on the stream alone exactly if the cuts are where
  `GoodCut` allows them.**
-/

namespace Autossh

namespace Supervisor

/-! ### Calls -/

/-- `check_ssh_stderr`, if its reads give these chunks until there is nothing to read: it returns 0
if the verdict is `clean` and 1 otherwise, and sets `port_fwd_failed` if it is `fwdFailed`. -/
def checkSshStderr : List (List UInt8) → Verdict
  | [] => .clean
  | chunk :: rest => match scanChunk chunk with
    | .clean => checkSshStderr rest
    | v => v

/-- The verdicts of successive calls for one child, each with the chunks it finds. -/
def drains : List (List (List UInt8)) → List Verdict
  | [] => []
  | call :: rest => match checkSshStderr call with
    | .clean => .clean :: drains rest
    | v => [v]

/-- The supervisor's actions in one call. -/
def drainActs (fd : ℤ) : List (List UInt8) → List Act
  | [] => [.read fd none]
  | chunk :: rest => .read fd (some chunk) :: match scanChunk chunk with
    | .clean => drainActs fd rest
    | .stuck => [.tau]
    | .fwdFailed => [.tau, .tau]

section Steps

variable {c : Cfg} {s : St} {k : DrainCont} {chunk : List UInt8} (hf : s.frames = [])
  (hpc : s.pc = .drain .read k) (hfd : 0 ≤ s.sshStderrFd)

include hf hpc hfd

theorem run_read_none :
    (supervisor c).Run s [.read s.sshStderrFd none]
      { s with pc := k.resume false, interrupted := false } := by
  simp [Machine.Run, Machine.exec, supervisor, next, Act.isEnv, hf, mainStep, hpc,
    checkSshStderrStep, hfd, Act.read?, St.goto]

variable (hchunk : chunk ≠ [] ∧ chunk.length ≤ stderrReadMax)

include hchunk

theorem run_read_clean (hv : scanChunk chunk = .clean) :
    (supervisor c).Run s [.read s.sshStderrFd (some chunk)]
      { s with pc := .drain .read k, lastStderrTime := s.now, interrupted := false } := by
  simp [Machine.Run, Machine.exec, supervisor, next, Act.isEnv, hf, mainStep, hpc,
    checkSshStderrStep, hfd, Act.read?, hchunk, hv]

theorem run_read_stuck (hv : scanChunk chunk = .stuck) :
    (supervisor c).Run s [.read s.sshStderrFd (some chunk), .tau]
      { s with pc := k.resume true, lastStderrTime := s.now, interrupted := false } := by
  simp [Machine.Run, Machine.exec, supervisor, next, Act.isEnv, hf, mainStep, hpc,
    checkSshStderrStep, hfd, Act.read?, hchunk, hv, on, St.goto]

theorem run_read_fwdFailed (hv : scanChunk chunk = .fwdFailed) :
    (supervisor c).Run s [.read s.sshStderrFd (some chunk), .tau, .tau]
      { s with
        pc := k.resume true, lastStderrTime := s.now, portFwdFailed := true
        interrupted := false } := by
  simp [Machine.Run, Machine.exec, supervisor, next, Act.isEnv, hf, mainStep, hpc,
    checkSshStderrStep, hfd, Act.read?, hchunk, hv, on, St.goto]

end Steps

/-- **The steps of `check_ssh_stderr`** return what the function does, and set `port_fwd_failed` as
it does. -/
theorem run_drainActs (c : Cfg) {s : St} {k : DrainCont} {chunks : List (List UInt8)}
    (hf : s.frames = []) (hpc : s.pc = .drain .read k) (hfd : 0 ≤ s.sshStderrFd)
    (hread : ∀ chunk ∈ chunks, chunk ≠ [] ∧ chunk.length ≤ stderrReadMax) :
    ∃ t, (supervisor c).Run s (drainActs s.sshStderrFd chunks) t ∧
      t.pc = k.resume (checkSshStderr chunks ≠ .clean) ∧
      t.portFwdFailed = (s.portFwdFailed || checkSshStderr chunks = .fwdFailed) := by
  induction chunks generalizing s with
  | nil => exact ⟨_, run_read_none hf hpc hfd, rfl, by simp [checkSshStderr]⟩
  | cons chunk rest ih =>
    have hchunk := hread chunk List.mem_cons_self
    cases hv : scanChunk chunk with
    | clean =>
      obtain ⟨t, ht, hpc', hflag⟩ := ih
        (s := { s with pc := .drain .read k, lastStderrTime := s.now, interrupted := false }) hf rfl
        hfd fun ch hch => hread ch (List.mem_cons_of_mem _ hch)
      rw [drainActs, checkSshStderr, hv]
      exact ⟨t, (run_read_clean hf hpc hfd hchunk hv).append ht, hpc', hflag⟩
    | stuck =>
      rw [drainActs, checkSshStderr, hv]
      exact ⟨_, run_read_stuck hf hpc hfd hchunk hv, rfl, by simp⟩
    | fwdFailed =>
      rw [drainActs, checkSshStderr, hv]
      exact ⟨_, run_read_fwdFailed hf hpc hfd hchunk hv, rfl, by simp⟩

/-! ### What a row of calls finds -/

theorem checkSshStderr_append (xs ys : List (List UInt8)) :
    checkSshStderr (xs ++ ys) =
      if checkSshStderr xs = .clean then checkSshStderr ys else checkSshStderr xs := by
  induction xs with
  | nil => rfl
  | cons chunk xs ih =>
    rw [List.cons_append, checkSshStderr, checkSshStderr]
    cases scanChunk chunk with
    | clean => exact ih
    | stuck => rfl
    | fwdFailed => rfl

/-- The calls find what one call would find that reads all they read. -/
theorem mem_drains_iff {calls : List (List (List UInt8))} {v : Verdict} (hv : v ≠ .clean) :
    v ∈ drains calls ↔ checkSshStderr calls.flatten = v := by
  induction calls with
  | nil => simp [drains, checkSshStderr, hv.symm]
  | cons call rest ih =>
    rw [drains, List.flatten_cons, checkSshStderr_append]
    cases checkSshStderr call with
    | clean => simp [hv, ih]
    | stuck => simp [eq_comm]
    | fwdFailed => simp [eq_comm]

/-! ### The stream -/

/-- The text stands whole in the chunk, before its first NUL. -/
def Shows (needle chunk : List UInt8) : Prop := needle <:+: chunk.takeWhile (· ≠ 0)

theorem scanChunk_eq_fwdFailed {chunk : List UInt8} :
    scanChunk chunk = .fwdFailed ↔ Shows fwdFailedNeedle chunk := by
  rw [Shows, ← strstr_iff]
  unfold scanChunk
  split_ifs <;> simp_all

theorem scanChunk_eq_stuck {chunk : List UInt8} :
    scanChunk chunk = .stuck ↔ ¬Shows fwdFailedNeedle chunk ∧ Shows stuckNeedle chunk := by
  rw [Shows, Shows, ← strstr_iff, ← strstr_iff]
  unfold scanChunk
  split_ifs <;> simp_all

theorem scanChunk_ne_clean {chunk : List UInt8} :
    scanChunk chunk ≠ .clean ↔ Shows fwdFailedNeedle chunk ∨ Shows stuckNeedle chunk := by
  rw [Shows, Shows, ← strstr_iff, ← strstr_iff]
  unfold scanChunk
  split_ifs <;> simp_all

/-- The cut leaves the text intact in the `k`th chunk: it does not straddle the chunk's ends, and no
NUL of the chunk comes before it. -/
def Intact (needle : List UInt8) (cs : List (List UInt8)) (k : ℕ) : Prop :=
  ∃ chunk, cs[k]? = some chunk ∧ Shows needle chunk

section Intact

variable {needle chunk : List UInt8} {cs : List (List UInt8)} {k : ℕ}

@[simp] theorem not_intact_nil : ¬Intact needle [] k := by
  simp [Intact]

@[simp] theorem intact_cons_zero : Intact needle (chunk :: cs) 0 ↔ Shows needle chunk := by
  simp [Intact]

@[simp] theorem intact_cons_succ : Intact needle (chunk :: cs) (k + 1) ↔ Intact needle cs k := by
  simp [Intact]

theorem Intact.infix_flatten (h : Intact needle cs k) : needle <:+: cs.flatten := by
  obtain ⟨chunk, hk, hshow⟩ := h
  exact (hshow.trans (List.takeWhile_prefix _).isInfix).trans
    (List.infix_of_mem_flatten (List.mem_of_getElem? hk))

end Intact

/-- The phrase is found if it is intact in some chunk and no line of the stuck detector is in an
earlier one. -/
theorem checkSshStderr_eq_fwdFailed {cs : List (List UInt8)} :
    checkSshStderr cs = .fwdFailed ↔
      ∃ k, Intact fwdFailedNeedle cs k ∧ ∀ j < k, ¬Intact stuckNeedle cs j := by
  induction cs with
  | nil => simp [checkSshStderr]
  | cons chunk cs ih =>
    -- the chunk comes first, so the index is 0 or one of the rest's
    rw [← Nat.or_exists_add_one, intact_cons_zero, ← scanChunk_eq_fwdFailed]
    simp only [intact_cons_succ, Nat.not_lt_zero, false_imp_iff, implies_true, and_true,
      Nat.forall_lt_succ_left', intact_cons_zero]
    rw [checkSshStderr]
    cases h : scanChunk chunk with
    | fwdFailed => simp
    | stuck => simp [(scanChunk_eq_stuck.1 h).2]
    | clean =>
      have hno : ¬Shows stuckNeedle chunk := fun hs => scanChunk_ne_clean.2 (.inr hs) h
      simp [ih, hno]

/-- A line of the detector is found if it is intact in some chunk and the phrase is neither in that
chunk nor in an earlier one. -/
theorem checkSshStderr_eq_stuck {cs : List (List UInt8)} :
    checkSshStderr cs = .stuck ↔
      ∃ k, Intact stuckNeedle cs k ∧ ∀ j ≤ k, ¬Intact fwdFailedNeedle cs j := by
  induction cs with
  | nil => simp [checkSshStderr]
  | cons chunk cs ih =>
    have hle : ∀ k, (∀ j ≤ k + 1, ¬Intact fwdFailedNeedle (chunk :: cs) j) ↔
        ¬Shows fwdFailedNeedle chunk ∧ ∀ j ≤ k, ¬Intact fwdFailedNeedle cs j := by
      intro k
      simp only [← Nat.lt_succ_iff]
      rw [Nat.forall_lt_succ_left']
      simp only [intact_cons_zero, intact_cons_succ]
    rw [← Nat.or_exists_add_one]
    simp only [intact_cons_succ, hle, Nat.le_zero, forall_eq, intact_cons_zero]
    rw [checkSshStderr]
    cases h : scanChunk chunk with
    | fwdFailed => simp [scanChunk_eq_fwdFailed.1 h]
    | stuck => simp [scanChunk_eq_stuck.1 h]
    | clean =>
      have hno : ¬Shows fwdFailedNeedle chunk := fun hs => scanChunk_ne_clean.2 (.inl hs) h
      have hno' : ¬Shows stuckNeedle chunk := fun hs => scanChunk_ne_clean.2 (.inr hs) h
      simp [ih, hno, hno']

/-- The stream has the phrase, and no line of the stuck detector before it. -/
def FwdFirst (stream : List UInt8) : Prop :=
  ∃ pre post, stream = pre ++ fwdFailedNeedle ++ post ∧ ¬stuckNeedle <:+: pre

/-- The stream has one of the texts. -/
def HasNeedle (stream : List UInt8) : Prop :=
  fwdFailedNeedle <:+: stream ∨ stuckNeedle <:+: stream

/-- What the calls find is what is in the stream: a call returns 1 and sets `port_fwd_failed` if the
phrase comes first, and some call returns 1 if there is one of the texts. -/
structure Detects (calls : List (List (List UInt8))) : Prop where
  fwdFailed : Verdict.fwdFailed ∈ drains calls ↔ FwdFirst calls.flatten.flatten
  found : (∃ v ∈ drains calls, v ≠ .clean) ↔ HasNeedle calls.flatten.flatten

/-- Where the cuts may fall.  Of the text that comes first in the stream some occurrence is intact;
if it is the phrase, no intact line of the detector is in an earlier chunk, and if it is a line of
the detector, no intact phrase is in an earlier chunk or in the same. -/
structure GoodCut (cs : List (List UInt8)) : Prop where
  fwdFailed : FwdFirst cs.flatten →
    ∃ k, Intact fwdFailedNeedle cs k ∧ ∀ j < k, ¬Intact stuckNeedle cs j
  stuck : ¬FwdFirst cs.flatten →
    ∃ k, Intact stuckNeedle cs k ∧ ∀ j ≤ k, ¬Intact fwdFailedNeedle cs j

theorem FwdFirst.hasNeedle {stream : List UInt8} (h : FwdFirst stream) : HasNeedle stream := by
  obtain ⟨pre, post, rfl, -⟩ := h
  exact .inl ⟨pre, post, rfl⟩

/-- What is found depends on the stream alone exactly if the cut is a good one, or there is nothing
to find. -/
theorem detects_iff_goodCut (calls : List (List (List UInt8))) :
    Detects calls ↔ (HasNeedle calls.flatten.flatten → GoodCut calls.flatten) := by
  have hfwd : .fwdFailed ∈ drains calls ↔ checkSshStderr calls.flatten = .fwdFailed :=
    mem_drains_iff (by simp)
  have hfound : (∃ v ∈ drains calls, v ≠ .clean) ↔ checkSshStderr calls.flatten ≠ .clean :=
    ⟨fun ⟨v, hv, hne⟩ => (mem_drains_iff hne).1 hv ▸ hne,
      fun hne => ⟨_, (mem_drains_iff hne).2 rfl, hne⟩⟩
  constructor
  · intro h hneedle
    have hne := hfound.1 (h.found.2 hneedle)
    constructor
    · intro hfirst
      exact checkSshStderr_eq_fwdFailed.1 (hfwd.1 (h.fwdFailed.2 hfirst))
    · intro hfirst
      rw [← checkSshStderr_eq_stuck]
      cases hv : checkSshStderr calls.flatten with
      | clean => exact absurd hv hne
      | fwdFailed => exact absurd (h.fwdFailed.1 (hfwd.2 hv)) hfirst
      | stuck => rfl
  · intro h
    by_cases hneedle : HasNeedle calls.flatten.flatten
    · obtain ⟨hgood, hgood'⟩ := h hneedle
      by_cases hfirst : FwdFirst calls.flatten.flatten
      · have hv := checkSshStderr_eq_fwdFailed.2 (hgood hfirst)
        exact ⟨iff_of_true (hfwd.2 hv) hfirst, iff_of_true (hfound.2 (by simp [hv])) hneedle⟩
      · have hv := checkSshStderr_eq_stuck.2 (hgood' hfirst)
        exact ⟨iff_of_false (mt hfwd.1 (by simp [hv])) hfirst,
          iff_of_true (hfound.2 (by simp [hv])) hneedle⟩
    · -- a chunk shows only what is in the stream
      have hclean : checkSshStderr calls.flatten = .clean := by
        cases hv : checkSshStderr calls.flatten with
        | clean => rfl
        | fwdFailed =>
          obtain ⟨k, hk, -⟩ := checkSshStderr_eq_fwdFailed.1 hv
          exact absurd (.inl hk.infix_flatten) hneedle
        | stuck =>
          obtain ⟨k, hk, -⟩ := checkSshStderr_eq_stuck.1 hv
          exact absurd (.inr hk.infix_flatten) hneedle
      exact ⟨iff_of_false (mt hfwd.1 (by simp [hclean])) fun hfirst => hneedle hfirst.hasNeedle,
        iff_of_false (mt hfound.1 (by simp [hclean])) hneedle⟩

/-! ### Cuts that spare the texts -/

/-- Every occurrence of the text lies in one chunk, with no NUL before it there. -/
def Whole (needle : List UInt8) (cs : List (List UInt8)) : Prop :=
  ∀ pre post, cs.flatten = pre ++ needle ++ post →
    ∃ xs ys a b, cs = xs ++ (a ++ needle ++ b) :: ys ∧ 0 ∉ a ∧ pre = xs.flatten ++ a

/-- No chunk has a line of the detector before the phrase. -/
def Apart (cs : List (List UInt8)) : Prop :=
  ∀ a b, a ++ fwdFailedNeedle ++ b ∈ cs → ¬stuckNeedle <:+: a

theorem shows_of_whole {needle a : List UInt8} (hneedle : 0 ∉ needle) (ha : 0 ∉ a)
    (b : List UInt8) : Shows needle (a ++ needle ++ b) := by
  have hclear : ∀ {l : List UInt8}, 0 ∉ l → ∀ x ∈ l, decide (x ≠ 0) = true :=
    fun hl x hx => decide_eq_true fun h => hl (h ▸ hx)
  rw [Shows, List.append_assoc, List.takeWhile_append_of_pos (hclear ha),
    List.takeWhile_append_of_pos (hclear hneedle)]
  exact ⟨a, b.takeWhile (· ≠ 0), List.append_assoc _ _ _⟩

theorem Shows.split {needle chunk : List UInt8} (h : Shows needle chunk) :
    ∃ a b, chunk = a ++ needle ++ b := by
  obtain ⟨a, b, hab⟩ := h
  refine ⟨a, b ++ chunk.dropWhile (· ≠ 0), ?_⟩
  rw [← List.append_assoc, hab, List.takeWhile_append_dropWhile]

/-- An intact phrase that does not come first has a line of the detector before it. -/
theorem Intact.stuck_before {cs : List (List UInt8)} {j : ℕ} (h : Intact fwdFailedNeedle cs j)
    (hfirst : ¬FwdFirst cs.flatten) :
    ∃ xs ys a b, cs = xs ++ (a ++ fwdFailedNeedle ++ b) :: ys ∧ xs.length = j ∧
      stuckNeedle <:+: xs.flatten ++ a := by
  obtain ⟨chunk, hj, hshow⟩ := h
  obtain ⟨a, b, rfl⟩ := hshow.split
  obtain ⟨hlt, hget⟩ := List.getElem?_eq_some_iff.1 hj
  have hcs : cs = cs.take j ++ (a ++ fwdFailedNeedle ++ b) :: cs.drop (j + 1) := by
    rw [← hget, List.cons_getElem_drop_succ, List.take_append_drop]
  refine ⟨cs.take j, cs.drop (j + 1), a, b, hcs, List.length_take_of_le hlt.le, ?_⟩
  refine not_not.1 fun hno => hfirst ⟨(cs.take j).flatten ++ a, b ++ (cs.drop (j + 1)).flatten, ?_,
    hno⟩
  nth_rewrite 1 [hcs]
  simp

theorem exists_first_infix {needle stream : List UInt8} (h : needle <:+: stream) :
    ∃ pre post, stream = pre ++ needle ++ post ∧
      ∀ pre' post', stream = pre' ++ needle ++ post' → pre.length ≤ pre'.length := by
  classical
  have hex : ∃ n pre post, stream = pre ++ needle ++ post ∧ pre.length = n := by
    obtain ⟨pre, post, hpre⟩ := h
    exact ⟨pre.length, pre, post, hpre.symm, rfl⟩
  obtain ⟨pre, post, hpre, hlen⟩ := Nat.find_spec hex
  refine ⟨pre, post, hpre, fun pre' post' hpre' => ?_⟩
  rw [hlen]
  exact Nat.find_min' hex ⟨pre', post', hpre', rfl⟩

/-- An intact phrase that does not come first, in a chunk that is not behind the one of the first
line of the detector, has a line of the detector before it in its chunk. -/
theorem Intact.stuck_in_chunk {cs xs ys : List (List UInt8)} {a b : List UInt8} {j : ℕ}
    (h : Intact fwdFailedNeedle cs j) (hfirst : ¬FwdFirst cs.flatten)
    (hcs : cs = xs ++ (a ++ stuckNeedle ++ b) :: ys)
    (hmin : ∀ pre post, cs.flatten = pre ++ stuckNeedle ++ post →
      (xs.flatten ++ a).length ≤ pre.length) (hj : j ≤ xs.length) :
    ∃ a' b', a' ++ fwdFailedNeedle ++ b' ∈ cs ∧ stuckNeedle <:+: a' := by
  obtain ⟨xs', ys', a', b', hcs', rfl, p, q, hpq⟩ := h.stuck_before hfirst
  -- the detector's line before the phrase is not before the first of all
  have hle : (xs.flatten ++ a).length ≤ p.length := by
    refine hmin p (q ++ fwdFailedNeedle ++ b' ++ ys'.flatten) ?_
    calc cs.flatten = (xs'.flatten ++ a') ++ fwdFailedNeedle ++ b' ++ ys'.flatten := by
          rw [hcs']
          simp
      _ = _ := by
          rw [← hpq]
          simp
  have hlen := congrArg List.length hpq
  simp only [List.length_append] at hle hlen
  rcases hj.eq_or_lt with heq | hlt
  · obtain ⟨rfl, htail⟩ := List.append_inj (hcs'.symm.trans hcs) heq
    have hchunk : a' ++ fwdFailedNeedle ++ b' = a ++ stuckNeedle ++ b := (List.cons.inj htail).1
    have hbefore : a ++ stuckNeedle <+: a' := by
      refine List.prefix_of_prefix_length_le (List.prefix_append _ b) ?_ ?_
      · rw [← hchunk, List.append_assoc]
        exact List.prefix_append _ _
      · rw [List.length_append]
        omega
    refine ⟨a', b', ?_, (List.suffix_append a _).isInfix.trans hbefore.isInfix⟩
    rw [hcs']
    exact List.mem_append_right _ List.mem_cons_self
  · -- an earlier chunk has no room for the line before its phrase
    have hthere : xs' ++ [a' ++ fwdFailedNeedle ++ b'] <+: cs := by
      refine ⟨ys', ?_⟩
      rw [hcs', List.append_assoc]
      rfl
    have hsub : xs' ++ [a' ++ fwdFailedNeedle ++ b'] <+: xs := by
      refine List.prefix_of_prefix_length_le hthere ⟨_, hcs.symm⟩ ?_
      rw [List.length_append, List.length_singleton]
      omega
    obtain ⟨zs, rfl⟩ := hsub
    simp only [List.flatten_append, List.flatten_singleton, List.length_append] at hle hlen
    have hpos : 0 < stuckNeedle.length := by decide
    omega

theorem intact_of_clear {needle a b : List UInt8} {cs xs ys : List (List UInt8)}
    (hclear : 0 ∉ needle) (ha : 0 ∉ a) (hcs : cs = xs ++ (a ++ needle ++ b) :: ys) :
    Intact needle cs xs.length := by
  refine ⟨_, ?_, shows_of_whole hclear ha b⟩
  rw [hcs, List.getElem?_append_right le_rfl, Nat.sub_self, List.getElem?_cons_zero]

/-- Cuts that spare the texts are good ones: every occurrence lies in one chunk with no NUL
before it there, and no chunk has a line of the detector before the phrase. -/
theorem goodCut_of_whole {cs : List (List UInt8)} (hneedle : HasNeedle cs.flatten)
    (hfwd : Whole fwdFailedNeedle cs) (hstuck : Whole stuckNeedle cs) (hapart : Apart cs) :
    GoodCut cs := by
  constructor
  · rintro ⟨pre, post, hpre, hno⟩
    obtain ⟨xs, ys, a, b, hcs, ha, rfl⟩ := hfwd pre post hpre
    refine ⟨xs.length, intact_of_clear (by decide) ha hcs, ?_⟩
    rintro j hj ⟨d, hd, hshow⟩
    rw [hcs, List.getElem?_append_left hj] at hd
    obtain ⟨a', b', rfl⟩ := hshow.split
    have hmem := List.infix_of_mem_flatten (List.mem_of_getElem? hd)
    exact hno (((List.infix_append a' _ b').trans hmem).trans (List.prefix_append _ a).isInfix)
  · intro hfirst
    have hinfix : stuckNeedle <:+: cs.flatten := by
      rcases hneedle with ⟨pre, post, hpre⟩ | h
      · refine not_not.1 fun hno => hfirst ⟨pre, post, hpre.symm, fun h => hno ?_⟩
        rw [← hpre]
        exact h.trans ⟨[], _, (List.append_assoc _ _ _).symm⟩
      · exact h
    obtain ⟨pre, post, hpre, hmin⟩ := exists_first_infix hinfix
    obtain ⟨xs, ys, a, b, hcs, ha, rfl⟩ := hstuck pre post hpre
    refine ⟨xs.length, intact_of_clear (by decide) ha hcs, fun j hj hphrase => ?_⟩
    obtain ⟨a', b', hmem, hbefore⟩ := hphrase.stuck_in_chunk hfirst hcs hmin hj
    exact hapart a' b' hmem hbefore

/-- **What is found depends on the stream alone exactly if the cut is a good one**, or there is
nothing to find; it does if the cuts spare the texts, and none leaves a line of the detector and,
behind it, the phrase in one chunk. -/
theorem detects_iff (calls : List (List (List UInt8))) :
    (Detects calls ↔ (HasNeedle calls.flatten.flatten → GoodCut calls.flatten)) ∧
      (Whole fwdFailedNeedle calls.flatten ∧ Whole stuckNeedle calls.flatten ∧
        Apart calls.flatten → Detects calls) := by
  refine ⟨detects_iff_goodCut calls, ?_⟩
  rintro ⟨hfwd, hstuck, hapart⟩
  rw [detects_iff_goodCut]
  intro hneedle
  exact goodCut_of_whole hneedle hfwd hstuck hapart

/-- The phrase cut in two, the halves in two calls. -/
def cutInTwo : List (List (List UInt8)) :=
  [[bytes "Warning: remote port forward"], [bytes "ing failed for listen port 22\n"]]

/-- Both calls return 0, although the phrase is in the stream. -/
theorem not_detects_cutInTwo :
    drains cutInTwo = [.clean, .clean] ∧ FwdFirst cutInTwo.flatten.flatten ∧ ¬Detects cutInTwo := by
  have hdrains : drains cutInTwo = [.clean, .clean] := by decide +kernel
  have hfirst : FwdFirst cutInTwo.flatten.flatten := by
    refine ⟨bytes "Warning: ", bytes " for listen port 22\n", by decide +kernel, fun h => ?_⟩
    exact absurd h.length_le (by decide)
  refine ⟨hdrains, hfirst, fun h => ?_⟩
  have hmem := h.fwdFailed.2 hfirst
  rw [hdrains] at hmem
  simp at hmem

end Supervisor

end Autossh
