import Autossh.Config.Forward
import Autossh.Interact.Protocol

/-!
# Staging the stuck detector (`src/stuck_detector.rs`)

The detector is a library inside the autossh binary.  `ssh_run` writes it to a file and puts the
file into `LD_PRELOAD`, which the ssh child inherits.

* `extractOnce`, `path`, `installForChild` : the functions, as programs that make system calls;
  `Staged` is what they keep, the `OnceLock` and the variable.  `lossy` is `to_string_lossy`, `so`
  the bytes of the library;
* `disk` : what the calls do to the file, a protocol that lets a descriptor be written and closed
  only while it is open;
* `entries` : the libraries the dynamic loader finds in `LD_PRELOAD`;
* `staged_whole` : `LD_PRELOAD` names the library only when the file holds all of it.

Nobody else writes to the file here, which has a predictable name in `/tmp`.
-/

namespace Autossh

namespace Detector

namespace Staging

open Config

/-! ### The programs -/

/-- The system calls. -/
inductive Call
  | getpid
  /-- `open(path, O_WRONLY | O_CREAT | O_TRUNC, 0700)` -/
  | open (path : CString)
  | write (fd : ℕ) (b : List UInt8)
  | close (fd : ℕ)
  deriving DecidableEq, Repr

/-- Their results; `write` takes at most what it is given. -/
abbrev Answer : Call → Type
  | .getpid => ℕ
  | .open _ => Option ℕ
  | .write _ b => Option (Fin (b.length + 1))
  | .close _ => Unit

/-- A program of system calls. -/
abbrev Io (α : Type) := Prog Answer α

/-- What the tests of `install_for_child` look for. -/
def marker : CString := "autossh-stuck-detector".toList

/-- `/tmp/autossh-stuck-detector-<pid>.so`. -/
def soPath (pid : ℕ) : CString :=
  "/tmp/".toList ++ marker ++ '-' :: (CString.decimal pid ++ ".so".toList)

/-- The `while` loop of `extract_once`, with what is still to be written. -/
def writeLoop (fd : ℕ) (rest : List UInt8) : Io Bool :=
  if _h : rest = [] then .ret true
  else .call (.write fd rest) fun
    | none => .ret false
    | some n => if _hn : n.val = 0 then .ret false else writeLoop fd (rest.drop n)
  termination_by rest.length
  decreasing_by
    have := List.length_pos_of_ne_nil _h
    rw [List.length_drop]
    omega

/-- `extract_once`: the path, or the empty text. -/
def extractOnce (so : List UInt8) : Io CString :=
  .call .getpid fun pid => .call (.open (soPath pid)) fun
    | none => .ret []
    | some fd => (writeLoop fd so).bind fun ok =>
      .call (.close fd) fun _ => .ret (if ok then soPath pid else [])

/-- What the functions keep. -/
structure Staged where
  /-- `EXTRACTED`. -/
  extracted : Option CString
  ldPreload : Option CString
  deriving DecidableEq, Repr

/-- `path`. -/
def path (so : List UInt8) (s : Staged) : Io (CString × Staged) :=
  match s.extracted with
  | some p => .ret (p, s)
  | none => (extractOnce so).bind fun p => .ret (p, { s with extracted := some p })

/-- `str::contains`. -/
def contains (s needle : CString) : Bool := s.tails.any needle.isPrefixOf

/-- `LD_PRELOAD` with the library `p`, unless there is one already. -/
def newPreload (lossy : CString → CString) (p : CString) : Option CString → CString
  | none => p
  | some cur =>
    if cur = [] then p
    else if contains (lossy cur) marker then cur
    else p ++ ':' :: lossy cur

/-- `install_for_child`. -/
def installForChild (so : List UInt8) (lossy : CString → CString) (s : Staged) : Io Staged :=
  (path so s).bind fun x => .ret
    (if x.1 = [] then x.2 else { x.2 with ldPreload := some (newPreload lossy x.1 x.2.ldPreload) })

/-- A number of calls of `install_for_child`. -/
def installs (so : List UInt8) (lossy : CString → CString) : ℕ → Staged → Io Staged
  | 0, s => .ret s
  | n + 1, s => (installs so lossy n s).bind (installForChild so lossy)

/-! ### The file -/

/-- The file, the descriptor that is open on it, and how often one was asked for. -/
structure Disk where
  fd : Option ℕ
  file : Option (CString × List UInt8)
  opens : ℕ
  deriving DecidableEq, Repr

/-- What a call does to the file. -/
def diskStep (d : Disk) : Event Answer → Option Disk
  | ⟨.getpid, _⟩ => some d
  | ⟨.open p, r⟩ =>
    if d.fd = none then
      some { fd := r, file := if r.isSome then some (p, []) else d.file, opens := d.opens + 1 }
    else none
  | ⟨.write fd b, r⟩ =>
    if d.fd = some fd then
      some { d with file := d.file.map fun f => (f.1, f.2 ++ b.take ((r.map Fin.val).getD 0)) }
    else none
  | ⟨.close fd, _⟩ => if d.fd = some fd then some { d with fd := none } else none

/-- The protocol of the calls. -/
def disk : Machine Disk (Event Answer) := ⟨diskStep⟩

/-- No file, and nothing open. -/
def Disk.init : Disk := ⟨none, none, 0⟩

/-- The loop succeeds only when all is written, whatever `write` takes at a time. -/
theorem writeLoop_wp (fd : ℕ) (rest : List UInt8) {done : List UInt8} {p : CString} {d : Disk}
    (hfd : d.fd = some fd) (hfile : d.file = some (p, done)) :
    (writeLoop fd rest).wp disk (fun ok d' => d'.fd = some fd ∧ d'.opens = d.opens ∧
      (ok = true → d'.file = some (p, done ++ rest))) d := by
  -- by induction on what is left; `done` and `rest` together stay the same
  induction hlen : rest.length using Nat.strong_induction_on generalizing rest done d with
  | _ len ih =>
    rw [writeLoop]
    split_ifs with hnil
    · subst hnil
      exact ⟨hfd, rfl, fun _ => by rw [hfile, List.append_nil]⟩
    · rw [Prog.wp_call]
      rintro (- | n)
      · exact ⟨_, if_pos hfd, hfd, rfl, fun h => by cases h⟩
      · refine ⟨_, if_pos hfd, ?_⟩
        dsimp only
        split_ifs with hn
        · exact ⟨hfd, rfl, fun h => by cases h⟩
        · have hlt : (rest.drop n).length < len := by
            rw [List.length_drop]
            have := List.length_pos_of_ne_nil hnil
            omega
          have hfile' : d.file.map (fun f => (f.1, f.2 ++ rest.take n)) =
              some (p, done ++ rest.take n) := by
            rw [hfile]
            rfl
          refine Prog.wp_mono (fun ok d' hd' => ⟨hd'.1, hd'.2.1, fun hok => ?_⟩)
            (ih _ hlt (rest.drop n) (d := { d with file := _ }) hfd hfile' rfl)
          rw [hd'.2.2 hok, List.append_assoc, List.take_append_drop]

/-- The descriptor is closed, and a path is returned only for a file that holds the library. -/
theorem extractOnce_wp (so : List UInt8) {d : Disk} (hfd : d.fd = none) :
    (extractOnce so).wp disk (fun p d' => d'.fd = none ∧ d'.opens = d.opens + 1 ∧
      (p = [] ∨ ∃ pid, p = soPath pid ∧ d'.file = some (p, so))) d := by
  rw [extractOnce, Prog.wp_call]
  intro pid
  refine ⟨d, rfl, ?_⟩
  rw [Prog.wp_call]
  rintro (- | fd)
  · exact ⟨_, if_pos hfd, rfl, rfl, .inl rfl⟩
  · refine ⟨_, if_pos hfd, ?_⟩
    dsimp only
    rw [Prog.wp_bind]
    refine Prog.wp_mono (fun ok d' hd' => ?_) (writeLoop_wp fd so rfl rfl)
    rw [Prog.wp_call]
    rintro -
    refine ⟨_, if_pos hd'.1, rfl, hd'.2.1, ?_⟩
    cases ok with
    | false => exact .inl rfl
    | true => exact .inr ⟨pid, rfl, hd'.2.2 rfl⟩

/-! ### `LD_PRELOAD` -/

/-- The libraries the dynamic loader finds in `LD_PRELOAD`: they are separated by colons or
spaces. -/
def entries (v : Option CString) : List CString :=
  ((v.getD []).splitOnP fun c => c = ':' ∨ c = ' ').filter (· ≠ [])

theorem contains_iff {s needle : CString} : contains s needle = true ↔ needle <:+: s := by
  simp only [contains, List.any_eq_true, List.mem_tails, List.isPrefixOf_iff_prefix,
    List.infix_iff_prefix_suffix]
  exact exists_congr fun t => and_comm

/-- The pieces of a text, where `acc` is what has been collected of the first, are parts of it. -/
theorem infix_of_mem_splitOnPPrepend {p : Char → Bool} {x : CString} (s acc : CString)
    (h : x ∈ List.splitOnPPrepend p s acc) : x <:+: acc.reverse ++ s := by
  induction s generalizing acc with
  | nil =>
    rw [List.splitOnPPrepend_nil, List.mem_singleton] at h
    rw [h, List.append_nil]
  | cons c s ih =>
    rw [List.splitOnPPrepend_cons_eq_if] at h
    split_ifs at h
    · rcases List.mem_cons.1 h with rfl | h
      · exact (List.prefix_append ..).isInfix
      · exact (ih [] h).trans ((List.suffix_cons c s).trans (List.suffix_append ..)).isInfix
    · have hx := ih (c :: acc) h
      rwa [List.reverse_cons, List.append_assoc] at hx

theorem infix_of_mem_entries {v : Option CString} {x : CString} (h : x ∈ entries v) :
    x <:+: v.getD [] :=
  infix_of_mem_splitOnPPrepend _ [] (List.mem_filter.1 h).1

theorem marker_infix_soPath (pid : ℕ) : marker <:+: soPath pid :=
  ⟨"/tmp/".toList, '-' :: (CString.decimal pid ++ ".so".toList), rfl⟩

theorem soPath_ne_nil (pid : ℕ) : soPath pid ≠ [] := by
  intro h
  cases h

/-- The characters of the path. -/
theorem mem_soPath {pid : ℕ} {c : Char} (hc : c ∈ soPath pid) :
    c.toNat < 0x80 ∧ c ≠ ':' ∧ c ≠ ' ' := by
  have hall : ("/tmp/".toList ++ marker ++ ['-'] ++ ".so".toList).all
      (fun c => c.toNat < 0x80 ∧ c ≠ ':' ∧ c ≠ ' ') = true := by decide
  have hfix : ∀ c ∈ "/tmp/".toList ++ marker ++ ['-'] ++ ".so".toList,
      c.toNat < 0x80 ∧ c ≠ ':' ∧ c ≠ ' ' :=
    fun c hc => of_decide_eq_true (List.all_eq_true.1 hall c hc)
  have hdigit : ∀ c ∈ CString.decimal pid, c.toNat < 0x80 ∧ c ≠ ':' ∧ c ≠ ' ' := by
    intro c hc
    rw [CString.decimal_natCast] at hc
    have hb := CString.toNat_of_isDigit (CString.isDigit_of_mem_toDigits hc)
    refine ⟨by omega, ?_, ?_⟩
    · rintro rfl
      exact absurd hb (by decide)
    · rintro rfl
      exact absurd hb (by decide)
  unfold soPath at hc
  rcases List.mem_append.1 hc with hfront | hback
  · exact hfix c (List.mem_append_left _ (List.mem_append_left _ hfront))
  · rcases List.mem_cons.1 hback with rfl | hback
    · exact hfix '-' (List.mem_append_left _ (List.mem_append_right _ (List.mem_singleton.2 rfl)))
    · rcases List.mem_append.1 hback with hc | hc
      · exact hdigit c hc
      · exact hfix c (List.mem_append_right _ hc)

theorem isUtf8_append {s t : CString} (hs : ∀ c ∈ s, c.toNat < 0x80) :
    isUtf8 (s ++ t) = isUtf8 t := by
  induction s with
  | nil => rfl
  | cons c s ih =>
    rw [List.cons_append, isUtf8_of_lt (hs c List.mem_cons_self)]
    exact ih fun x hx => hs x (List.mem_cons_of_mem c hx)

section Preload

variable {lossy : CString → CString} (hlossy : ∀ s, isUtf8 s = true → lossy s = s)
  {v : Option CString} (hv : ∀ cur, v = some cur → isUtf8 cur = true) (pid : ℕ)
include hlossy hv

/-- The variable is as it was, or has the library in front, which it did not have before. -/
theorem newPreload_cases : v = some (newPreload lossy (soPath pid) v) ∨
    (newPreload lossy (soPath pid) v = soPath pid ∧ v.getD [] = []) ∨
    newPreload lossy (soPath pid) v = soPath pid ++ ':' :: v.getD [] ∧
      ¬marker <:+: v.getD [] := by
  cases v with
  | none => exact .inr (.inl ⟨rfl, rfl⟩)
  | some cur =>
    simp only [newPreload, Option.getD_some]
    split_ifs with hnil hmark
    · exact .inr (.inl ⟨rfl, hnil⟩)
    · exact .inl rfl
    · rw [hlossy cur (hv cur rfl)] at hmark ⊢
      exact .inr (.inr ⟨rfl, fun h => hmark (contains_iff.2 h)⟩)

/-- With the library in it the variable is left alone. -/
theorem newPreload_idem : newPreload lossy (soPath pid)
    (some (newPreload lossy (soPath pid) v)) = newPreload lossy (soPath pid) v := by
  have hmarked : ∀ w : CString, soPath pid <+: w → isUtf8 w = true →
      newPreload lossy (soPath pid) (some w) = w := by
    rintro _ ⟨u, rfl⟩ hutf
    have hne : soPath pid ++ u ≠ [] := fun h => soPath_ne_nil pid (List.append_eq_nil_iff.1 h).1
    have hmark : contains (soPath pid ++ u) marker = true :=
      contains_iff.2 ((marker_infix_soPath pid).trans (List.prefix_append ..).isInfix)
    simp only [newPreload, hlossy _ hutf, if_neg hne, if_pos hmark]
  have hascii : ∀ c ∈ soPath pid, c.toNat < 0x80 := fun c hc => (mem_soPath hc).1
  rcases newPreload_cases hlossy hv pid with h | ⟨h, -⟩ | ⟨h, -⟩
  · rw [← h]
  · rw [h]
    refine hmarked _ (List.prefix_refl _) ?_
    rw [← List.append_nil (soPath pid), isUtf8_append hascii]
    rfl
  · rw [h]
    refine hmarked _ (List.prefix_append ..) ?_
    rw [isUtf8_append hascii, isUtf8_of_lt (by decide)]
    cases v with
    | none => rfl
    | some cur => exact hv cur rfl

/-- The loader finds the library first, and then what it found before, where the library was not. -/
theorem entries_newPreload : v = some (newPreload lossy (soPath pid) v) ∨
    entries (some (newPreload lossy (soPath pid) v)) = soPath pid :: entries v ∧
      soPath pid ∉ entries v := by
  have hsep : ∀ c ∈ soPath pid, decide (c = ':' ∨ c = ' ') = false := by
    intro c hc
    have := mem_soPath hc
    simp [this.2.1, this.2.2]
  rcases newPreload_cases hlossy hv pid with h | ⟨h, hnil⟩ | ⟨h, hmark⟩
  · exact .inl h
  · right
    rw [h, entries, entries, hnil, Option.getD_some, List.splitOnP_eq_singleton hsep]
    simp [soPath_ne_nil]
  · right
    refine ⟨?_, fun hmem => hmark ((marker_infix_soPath pid).trans (infix_of_mem_entries hmem))⟩
    rw [h, entries, entries, Option.getD_some,
      List.splitOnP_append_cons_of_forall_mem hsep ':' rfl]
    simp [soPath_ne_nil]

end Preload

/-! ### Any number of calls -/

/-- What is kept, and the file, after some calls: nothing has happened, the library could not be
written, or all of it is there and in `LD_PRELOAD`. -/
def StagedInv (so : List UInt8) (lossy : CString → CString) (v : Option CString) (s : Staged)
    (d : Disk) : Prop :=
  d.fd = none ∧ ((s = ⟨none, v⟩ ∧ d.opens = 0) ∨ (s = ⟨some [], v⟩ ∧ d.opens = 1) ∨
    ∃ pid, s = ⟨some (soPath pid), some (newPreload lossy (soPath pid) v)⟩ ∧
      d.file = some (soPath pid, so) ∧ d.opens = 1)

section Installs

variable (so : List UInt8) {lossy : CString → CString}
  (hlossy : ∀ s, isUtf8 s = true → lossy s = s) {v : Option CString}
  (hv : ∀ cur, v = some cur → isUtf8 cur = true)
include hlossy hv

theorem installForChild_wp {s : Staged} {d : Disk} (h : StagedInv so lossy v s d) :
    (installForChild so lossy s).wp disk (StagedInv so lossy v) d := by
  obtain ⟨hfd, ⟨rfl, hopens⟩ | ⟨rfl, hopens⟩ | ⟨pid, rfl, hfile, hopens⟩⟩ := h
  · rw [installForChild, Prog.wp_bind, path, Prog.wp_bind]
    refine Prog.wp_mono ?_ (extractOnce_wp so hfd)
    rintro p d' ⟨hfd', hopens', rfl | ⟨pid, rfl, hfile⟩⟩
    · exact ⟨hfd', .inr (.inl ⟨rfl, by omega⟩)⟩
    · refine ⟨hfd', .inr (.inr ⟨pid, ?_, hfile, by omega⟩)⟩
      exact if_neg (soPath_ne_nil pid)
  · exact ⟨hfd, .inr (.inl ⟨rfl, hopens⟩)⟩
  · refine ⟨hfd, .inr (.inr ⟨pid, ?_, hfile, hopens⟩)⟩
    simp only [if_neg (soPath_ne_nil pid), newPreload_idem hlossy hv]

theorem installs_wp (n : ℕ) :
    (installs so lossy n ⟨none, v⟩).wp disk (StagedInv so lossy v) .init := by
  induction n with
  | zero => exact ⟨rfl, .inl ⟨rfl, rfl⟩⟩
  | succ n ih =>
    rw [installs, Prog.wp_bind]
    exact Prog.wp_mono (fun s d h => installForChild_wp so hlossy hv h) ih

end Installs

/-- **Only the whole library is preloaded.**  However often `install_for_child` is called and
whatever the system calls give, with any partial writes: a file is opened at most once, and closed
again.  `LD_PRELOAD` is as it was, or the file holds the whole library and the loader finds it once:
first, and then what was in `LD_PRELOAD` before.  (`to_string_lossy` does not change UTF-8.) -/
theorem staged_whole (so : List UInt8) {lossy : CString → CString}
    (hlossy : ∀ s, isUtf8 s = true → lossy s = s) {v : Option CString}
    (hv : ∀ cur, v = some cur → isUtf8 cur = true) (n : ℕ) {t : List (Event Answer)} {s : Staged}
    (h : (installs so lossy n ⟨none, v⟩).Returns t s) :
    ∃ d, disk.Run .init t d ∧ d.fd = none ∧ d.opens ≤ 1 ∧ (s.ldPreload = v ∨
      ∃ pid, d.file = some (soPath pid, so) ∧ entries s.ldPreload = soPath pid :: entries v ∧
        soPath pid ∉ entries v) := by
  obtain ⟨d, hrun, hfd, hinv⟩ := Prog.Steps.wp h (installs_wp so hlossy hv n)
  refine ⟨d, hrun, hfd, ?_⟩
  obtain ⟨rfl, hopens⟩ | ⟨rfl, hopens⟩ | ⟨pid, rfl, hfile, hopens⟩ := hinv
  · exact ⟨by omega, .inl rfl⟩
  · exact ⟨by omega, .inl rfl⟩
  · refine ⟨by omega, ?_⟩
    rcases entries_newPreload hlossy hv pid with heq | heq
    · exact .inl heq.symm
    · exact .inr ⟨pid, hfile, heq⟩

/-- A library of three bytes is written in two pieces. -/
def twoPieces : List (Event Answer) :=
  [⟨.getpid, (4711 : ℕ)⟩, ⟨.open (soPath 4711), some 3⟩, ⟨.write 3 [1, 2, 3], some ⟨2, by decide⟩⟩,
    ⟨.write 3 [3], some ⟨1, by decide⟩⟩, ⟨.close 3, ()⟩]

theorem returns_twoPieces : (extractOnce [1, 2, 3]).Returns twoPieces (soPath 4711) := by
  refine .cons (.cons (Prog.returns_bind.2 ⟨[⟨.write 3 [1, 2, 3], some ⟨2, by decide⟩⟩,
    ⟨.write 3 [3], some ⟨1, by decide⟩⟩], true, [⟨.close 3, ()⟩], rfl, ?_, .cons (.nil _)⟩))
  rw [writeLoop, dif_neg (by decide)]
  refine .cons ?_
  dsimp only
  rw [dif_neg (by decide), writeLoop, dif_neg (by decide)]
  refine .cons ?_
  dsimp only
  rw [dif_neg (by decide), writeLoop, dif_pos (by decide)]
  exact .nil _

theorem staged_whole_twoPieces :
    ∃ (s : Staged) (d : Disk), disk.Run .init twoPieces d ∧ d.fd = none ∧
      s.ldPreload ≠ some "libmine.so".toList ∧ (s.ldPreload = some "libmine.so".toList ∨
        ∃ pid, d.file = some (soPath pid, [1, 2, 3]) ∧
          entries s.ldPreload = soPath pid :: entries (some "libmine.so".toList) ∧
          soPath pid ∉ entries (some "libmine.so".toList)) := by
  have hrun : (installForChild [1, 2, 3] id ⟨none, some "libmine.so".toList⟩).Returns twoPieces
      ⟨some (soPath 4711), some (soPath 4711 ++ ":libmine.so".toList)⟩ := by
    refine Prog.returns_bind.2 ⟨twoPieces, (soPath 4711, ⟨some (soPath 4711), _⟩), [], rfl,
      Prog.returns_bind.2 ⟨twoPieces, _, [], rfl, returns_twoPieces, .nil _⟩, ?_⟩
    exact Prog.returns_ret.2 ⟨rfl, by decide +kernel⟩
  have hutf : ∀ cur, some "libmine.so".toList = some cur → isUtf8 cur = true := by
    rintro _ ⟨⟩
    decide +kernel
  obtain ⟨d, hd, hfd, -, h⟩ := staged_whole [1, 2, 3] (fun _ _ => rfl) hutf 1 hrun
  exact ⟨_, d, hd, hfd, by decide +kernel, h⟩

end Staging

end Detector

end Autossh
