import Autossh.Main.Basic

/-!
# The pid file and the exit status

The pid file is made once, by the process that goes on to call `ssh_run`, and it is there as long as
`ssh_run` is at work.  It is removed by `unlink_pid_file`, in `exit` or in `xerrlog_str`, whichever
the process ends with; a second signal to exit, the default action of a signal, and the `_exit` of a
session's supervisor leave it behind.

* `FileAt` : how often the file has been made and removed, at each stage;
* `pid_file_lifecycle` : **what becomes of the pid file**, in every run;
* `exit_status_explained` : **what the exit status says**, from what is known of `ssh_run`;
* `daemon_status` : what it says of a daemon, which has no gate time.
-/

namespace Autossh

namespace Main

open Supervisor

/-- The pid file is made. -/
def Act.makes : Act → Bool
  | .call (.fopen _ ok) => ok
  | _ => false

/-- The pid file is removed. -/
def Act.removes : Act → Bool
  | .call (.unlink _) => true
  | _ => false

/-- How many pid files there are to be. -/
def Plan.files (P : Plan) : ℕ := if P.pidFile.isSome then 1 else 0

/-- How often the file has been made and removed at each stage; `c` is `pid_file_created` and `q`
the control point of the supervisor. -/
def FileAt (P : Plan) (c : Bool) (q : Pc) (made removed : ℕ) : Stage → Prop
  | .daemon | .getaddrinfo | .socket | .setsockopt | .bind | .listen | .cloexec | .fopen =>
    c = false ∧ made = 0 ∧ removed = 0
  | .register => c = false ∧ P.files = 1 ∧ made = 1 ∧ removed = 0
  | .fprintf | .fclose | .unlink => c = true ∧ P.files = 1 ∧ made = 1 ∧ removed = 0
  | .run => made = P.files ∧
      ((c.toNat = made ∧ removed = 0) ∨ (c = false ∧ removed = made ∧ q = .exit))
  | .shutdown _ | .close _ => made = P.files ∧ c.toNat = made ∧ removed = 0
  | .atexit _ => P.embedded = false ∧ made = P.files ∧ c.toNat = made ∧ removed = 0
  | .exit _ | .done (.returned _) =>
    made = P.files ∧ removed = if P.embedded then 0 else made
  | .abort | .done .fatal => made ≤ 1 ∧ removed = made
  | .done _ => made ≤ 1 ∧ removed ≤ made

variable {P : Plan} {p p' : Proc} {a : Act} {made removed : ℕ}

theorem files_le_one (P : Plan) : P.files ≤ 1 := by
  unfold Plan.files
  split_ifs <;> omega

theorem files_of_some {path : CString} (h : P.pidFile = some path) : P.files = 1 := by
  simp [Plan.files, h]

theorem FileAt.le {c : Bool} {q : Pc} {g : Stage} (h : FileAt P c q made removed g) :
    made ≤ 1 ∧ removed ≤ made := by
  have hfiles := files_le_one P
  cases g with
  | run =>
    obtain ⟨rfl, ⟨-, rfl⟩ | ⟨-, rfl, -⟩⟩ := h
    · exact ⟨hfiles, Nat.zero_le _⟩
    · exact ⟨hfiles, le_rfl⟩
  | register | fprintf | fclose | unlink =>
    obtain ⟨-, -, rfl, rfl⟩ := h
    exact ⟨le_rfl, Nat.zero_le _⟩
  | shutdown rc | close rc =>
    obtain ⟨rfl, -, rfl⟩ := h
    exact ⟨hfiles, Nat.zero_le _⟩
  | atexit rc =>
    obtain ⟨-, rfl, -, rfl⟩ := h
    exact ⟨hfiles, Nat.zero_le _⟩
  | exit rc =>
    obtain ⟨rfl, rfl⟩ := h
    refine ⟨hfiles, ?_⟩
    split_ifs <;> omega
  | abort => exact ⟨h.1, h.2.le⟩
  | done e =>
    cases e with
    | returned st =>
      obtain ⟨rfl, rfl⟩ := h
      refine ⟨hfiles, ?_⟩
      split_ifs <;> omega
    | fatal => exact ⟨h.1, h.2.le⟩
    | bailed | killed => exact h
  | _ =>
    obtain ⟨-, rfl, rfl⟩ := h
    exact ⟨Nat.zero_le _, le_rfl⟩

/-- The stage after a return of `ssh_run`, or after the socket has been closed. -/
theorem fileAt_afterClose {c : Bool} {q : Pc} {rc : Rc} (hm : made = P.files)
    (hc : c.toNat = made) : FileAt P c q made 0 (P.afterClose c rc) := by
  unfold Plan.afterClose
  cases hcr : c with
  | false =>
    rw [hcr] at hc
    refine ⟨hm, ?_⟩
    split_ifs <;> simp_all
  | true =>
    cases he : P.embedded with
    | false => exact ⟨he, hm, hcr ▸ hc, rfl⟩
    | true => exact ⟨hm, by simp [he]⟩

theorem FileAt.opening {c : Bool} {q : Pc} {g : Stage} (hg : g.opening = true) :
    FileAt P c q made removed g ↔ c = false ∧ made = 0 ∧ removed = 0 := by
  cases g <;> first | exact Iff.rfl | cases hg

theorem quiet_makes {x : Call} (h : x.quiet = true) :
    (Act.call x).makes = false ∧ (Act.call x).removes = false := by
  cases x with
  | fopen path ok => exact ⟨by simpa [Call.quiet, Act.makes] using h, rfl⟩
  | fprintf n r | unlink path => cases h
  | _ => exact ⟨rfl, rfl⟩

theorem Calls.fileAt {x : Call} (h : Calls P p x p')
    (hs : FileAt P p.created p.sup.pc made removed p.stage) :
    FileAt P p'.created p'.sup.pc (made + (Act.call x).makes.toNat)
      (removed + (Act.call x).removes.toNat) p'.stage := by
  cases h with
  | opens hp hx hpid hg =>
    obtain ⟨hc, rfl, rfl⟩ := (FileAt.opening hp).1 hs
    obtain ⟨hmakes, hremoves⟩ := quiet_makes hx
    rw [hmakes, hremoves]
    rcases hg with ⟨hg, -⟩ | ⟨rfl, hnone⟩
    · exact (FileAt.opening hg).2 ⟨hc, rfl, rfl⟩
    · exact ⟨by simp [Plan.files, hnone], .inl ⟨by simp [hc], rfl⟩⟩
  | fails hp hx =>
    obtain ⟨hc, rfl, rfl⟩ := (FileAt.opening hp).1 hs
    obtain ⟨hmakes, hremoves⟩ := quiet_makes hx
    rw [hmakes, hremoves]
    simp only [Proc.fail, Proc.to, hc]
    exact ⟨Nat.zero_le 1, rfl⟩
  | fopen hp hpath =>
    rw [hp] at hs
    obtain ⟨hc, rfl, rfl⟩ := hs
    exact ⟨hc, files_of_some hpath, rfl, rfl⟩
  | register hp =>
    rw [hp] at hs
    exact ⟨rfl, hs.2⟩
  | fprintf hp =>
    rw [hp] at hs
    exact hs
  | unwritten hp =>
    rw [hp] at hs
    simp only [Proc.fail, Proc.to, hs.1, if_true]
    exact ⟨rfl, hs.2⟩
  | fclose hp =>
    rw [hp] at hs
    obtain ⟨hc, hfiles, rfl, rfl⟩ := hs
    exact ⟨hfiles.symm, .inl ⟨by simp [Proc.to, hc, Act.makes], rfl⟩⟩
  | unlinkRun hp hpc hc hpath =>
    rw [hp, hc] at hs
    obtain ⟨hm, ⟨hcm, rfl⟩ | ⟨hfalse, -⟩⟩ := hs
    · simp only [hp]
      exact ⟨hm, .inr ⟨rfl, hcm, hpc⟩⟩
    · cases hfalse
  | shutdown hp =>
    rw [hp] at hs
    exact hs
  | close hp =>
    rw [hp] at hs
    obtain ⟨hm, hc, rfl⟩ := hs
    exact fileAt_afterClose hm hc
  | unlinkExit hp hpath =>
    rw [hp] at hs
    obtain ⟨he, hm, -, rfl⟩ := hs
    refine ⟨hm, ?_⟩
    rw [files_of_some hpath] at hm
    simp [he, hm, Act.removes, Act.makes]
  | exit hp =>
    rw [hp] at hs
    exact hs
  | unlink hp hpath =>
    rw [hp] at hs
    obtain ⟨-, -, rfl, rfl⟩ := hs
    exact ⟨le_rfl, rfl⟩
  | abort hp =>
    rw [hp] at hs
    exact hs

/-- What the stages after `ssh_run` remember of it; `q` is the control point of the supervisor. -/
def RetAt (q : Pc) : Stage → Prop
  | .shutdown rc | .close rc | .atexit rc | .exit rc => q = .run (.ret rc)
  | .done (.returned st) => ∃ rc, q = .run (.ret rc) ∧ st = status rc
  | _ => True

theorem retAt_afterClose {c : Bool} {q : Pc} {rc : Rc} (hq : q = .run (.ret rc)) :
    RetAt q (P.afterClose c rc) := by
  unfold Plan.afterClose
  split_ifs <;> exact hq

theorem Calls.retAt {x : Call} (h : Calls P p x p') (hs : RetAt p.sup.pc p.stage) :
    RetAt p'.sup.pc p'.stage := by
  have hopening : ∀ {q : Pc} {g : Stage}, g.opening = true → RetAt q g := by
    intro q g hg
    cases g <;> trivial
  have hfail : RetAt p.sup.pc p.fail.stage := by
    unfold Proc.fail Proc.to
    dsimp only
    split_ifs <;> trivial
  cases h with
  | opens hp hx hpid hg =>
    rcases hg with ⟨hg, -⟩ | ⟨rfl, -⟩
    · exact hopening hg
    · trivial
  | fails hp hx => exact hfail
  | unwritten hp => exact hfail
  | unlinkRun hp hpc hc hpath => exact hs
  | shutdown hp =>
    rw [hp] at hs
    exact hs
  | close hp =>
    rw [hp] at hs
    exact retAt_afterClose hs
  | unlinkExit hp hpath =>
    rw [hp] at hs
    exact hs
  | exit hp =>
    rw [hp] at hs
    exact ⟨_, hs, rfl⟩
  | _ => trivial

/-- While the program itself does nothing, its control point stays where it is, if it is not in a
`sleep` or in the wait. -/
theorem Slides.eq_or_gone {q q' : Pc} (h : Slides q q') (hsleep : ∀ n k, q ≠ .sleep n k)
    (hwatch : ∀ w, q ≠ .watch w) : q' = q ∨ q' = .gone := by
  cases h with
  | stay => exact .inl rfl
  | elapse dt =>
    left
    cases q with
    | sleep n k => exact absurd rfl (hsleep n k)
    | _ => rfl
  | woken old => exact absurd rfl (hwatch _)
  | caught v => exact absurd rfl (hwatch _)
  | gone => exact .inr rfl

theorem struck_fileAt {c : Bool} {q q' : Pc} {g : Stage} (b : Supervisor.Act)
    (hs : FileAt P c q made removed g) : FileAt P c q' made removed (struck b) := by
  unfold struck
  split_ifs <;> exact hs.le

/-- A step of `sig_catch` or of the environment. -/
theorem after_fileAt {c : Bool} {q q' : Pc} {g : Stage} (b : Supervisor.Act) (h : Slides q q')
    (hs : FileAt P c q made removed g) (hr : RetAt q g) :
    FileAt P c q' made removed (g.after b q') ∧ RetAt q' (g.after b q') := by
  have hgone : q' = .gone →
      FileAt P c q' made removed (g.after b q') ∧ RetAt q' (g.after b q') := by
    rintro rfl
    refine ⟨struck_fileAt b hs, ?_⟩
    simp only [Stage.after, struck]
    split_ifs <;> trivial
  by_cases hq : q' = .gone
  · exact hgone hq
  · have hafter : g.after b q' = g := by
      cases q' <;> first | rfl | exact absurd rfl hq
    rw [hafter]
    have hstay : ∀ {q₀ : Pc}, q = q₀ → (∀ n k, q₀ ≠ .sleep n k) → (∀ w, q₀ ≠ .watch w) →
        q' = q₀ := by
      rintro q₀ rfl hsleep hwatch
      exact (Slides.eq_or_gone h hsleep hwatch).resolve_right hq
    constructor
    · cases g with
      | run =>
        obtain ⟨hm, hc | ⟨hc, hrm, hexit⟩⟩ := hs
        · exact ⟨hm, .inl hc⟩
        · exact ⟨hm, .inr ⟨hc, hrm, hstay hexit (by simp) (by simp)⟩⟩
      | done e => cases e <;> exact hs
      | _ => exact hs
    · cases g with
      | shutdown rc | close rc | atexit rc | exit rc => exact hstay hr (by simp) (by simp)
      | done e =>
        cases e with
        | returned st =>
          obtain ⟨rc, hrc, hst⟩ := hr
          exact ⟨rc, hstay hrc (by simp) (by simp), hst⟩
        | _ => trivial
      | _ => trivial

theorem slides_of_async {s s' : St} {c : Cfg} {b : Supervisor.Act} (hs : SigInv s)
    (hasync : b.isEnv = true ∨ s.frames ≠ []) (h : next c s b = some s') : Slides s.pc s'.pc := by
  obtain ⟨-, he | ⟨f, fs, hf, hc⟩ | ⟨hf, t, hm, -⟩⟩ := next_cases h
  · exact (envStep_async he).pc
  · exact (sigCatchStep_async hs hf hc).pc
  · have henv : b.isEnv = true := hasync.resolve_right fun hne => hne hf
    have hsite := mainStep_callSite hm
    cases b <;> first | exact hsite.elim | cases henv

theorem supStep_fileAt {b : Supervisor.Act} (hinv : SigInv p.sup)
    (hs : FileAt P p.created p.sup.pc made removed p.stage) (hr : RetAt p.sup.pc p.stage)
    (h : supStep P p b = some p') :
    FileAt P p'.created p'.sup.pc made removed p'.stage ∧ RetAt p'.sup.pc p'.stage := by
  rcases supStep_cases h with ⟨s, hasync, hn, rfl⟩ | ⟨hrun, hf, hmain⟩
  · exact after_fileAt b (slides_of_async hinv hasync hn) hs hr
  · rw [hrun] at hs
    obtain ⟨hm, hcase⟩ := hs
    rcases hmain with ⟨rc, hp, rfl, rfl⟩ | ⟨hp, hc, s, hn, rfl⟩ | ⟨hp, hret, s, hn, rfl⟩
    · obtain ⟨hc, rfl⟩ | ⟨-, -, hexit⟩ := hcase
      · simp only [Proc.to]
        split_ifs
        · exact ⟨⟨hm, hc, rfl⟩, hp⟩
        · exact ⟨fileAt_afterClose hm hc, retAt_afterClose hp⟩
      · rw [hp] at hexit
        cases hexit
    · refine ⟨⟨hm ▸ files_le_one P, ?_⟩, trivial⟩
      obtain ⟨hcm, rfl⟩ | ⟨-, hrm, -⟩ := hcase
      · rw [hc] at hcm
        exact hcm
      · exact hrm
    · obtain hc | ⟨-, -, hexit⟩ := hcase
      · simp only [hrun]
        exact ⟨⟨hm, .inl hc⟩, trivial⟩
      · exact absurd hexit hp

/-- The invariant. -/
structure Kept (P : Plan) (p : Proc) (as : List Act) : Prop where
  file : FileAt P p.created p.sup.pc (as.countP Act.makes) (as.countP Act.removes) p.stage
  ret : RetAt p.sup.pc p.stage
  pid : ∀ n r, .call (.fprintf n r) ∈ as → n = p.pid
  foreground : p.stage = .daemon → ∀ n r, .call (.fprintf n r) ∉ as

theorem Calls.pid_eq {x : Call} (h : Calls P p x p') (hp : p.stage ≠ .daemon) :
    p'.pid = p.pid := by
  cases h with
  | opens hopening hx hpid hg => exact hpid hp
  | _ => rfl

theorem Calls.fprintf_eq {n r : ℤ} (h : Calls P p (.fprintf n r) p') :
    n = p.pid ∧ p.stage = .fprintf := by
  cases h with
  | opens hopening hx => cases hx
  | fails hopening hx => cases hx
  | fprintf hp => exact ⟨rfl, hp⟩
  | unwritten hp => exact ⟨rfl, hp⟩

theorem Calls.ne_daemon {x : Call} (h : Calls P p x p') : p'.stage ≠ .daemon := by
  have hfail : p.fail.stage ≠ .daemon := by
    unfold Proc.fail Proc.to
    dsimp only
    split_ifs <;> simp
  cases h with
  | opens hopening hx hpid hg => exact hg.elim And.right fun hrun => by rw [hrun.1]; simp
  | fails hopening hx => exact hfail
  | unwritten hp => exact hfail
  | unlinkRun hp hpc hc hpath => simp [hp]
  | close hp =>
    simp only [Proc.to, Plan.afterClose]
    split_ifs <;> simp
  | _ => simp [Proc.to]

theorem supStep_pid {b : Supervisor.Act} (h : supStep P p b = some p') :
    p'.pid = p.pid ∧ (p'.stage = .daemon → p.stage = .daemon) := by
  rcases supStep_cases h with ⟨s, -, -, rfl⟩ | ⟨hrun, -, ⟨rc, -, -, rfl⟩ | ⟨-, -, s, -, rfl⟩ |
    ⟨-, -, s, -, rfl⟩⟩
  · refine ⟨rfl, fun hd => ?_⟩
    simp only [Stage.after, struck] at hd
    split at hd
    · cases hd
    · exact hd
  · refine ⟨rfl, fun hd => ?_⟩
    simp only [Proc.to, Plan.afterClose] at hd
    split_ifs at hd
  · exact ⟨rfl, fun hd => by cases hd⟩
  · exact ⟨rfl, id⟩

theorem next_kept {as : List Act} (hinv : SigInv p.sup) (hs : Kept P p as)
    (h : (process P).next p a = some p') : Kept P p' (as ++ [a]) := by
  have hmem : ∀ {n r : ℤ}, Act.call (.fprintf n r) ∈ as ++ [a] →
      Act.call (.fprintf n r) ∈ as ∨ a = .call (.fprintf n r) := by
    intro n r hm
    rcases List.mem_append.1 hm with hm | hm
    · exact .inl hm
    · exact .inr (List.mem_singleton.1 hm).symm
  have hcount : ∀ q : Act → Bool, (as ++ [a]).countP q = as.countP q + (q a).toNat := by
    intro q
    rw [List.countP_append, List.countP_singleton]
    cases q a <;> rfl
  obtain ⟨-, ⟨b, rfl, hb⟩ | ⟨x, rfl, -, hx⟩⟩ := process_next h
  · obtain ⟨hfile, hret⟩ := supStep_fileAt hinv hs.file hs.ret hb
    obtain ⟨hpid, hstage⟩ := supStep_pid hb
    refine ⟨?_, hret, ?_, ?_⟩
    · rw [hcount, hcount]
      exact hfile
    · intro n r hm
      rw [hpid]
      exact hs.pid n r ((hmem hm).resolve_right (by simp))
    · intro hd n r hm
      exact hs.foreground (hstage hd) n r ((hmem hm).resolve_right (by simp))
  · have hcalls := callStep_calls hx
    refine ⟨?_, hcalls.retAt hs.ret, ?_, fun hd => absurd hd hcalls.ne_daemon⟩
    · rw [hcount, hcount]
      exact hcalls.fileAt hs.file
    · intro n r hm
      rcases hmem hm with hm | hm
      · rw [hcalls.pid_eq fun hd => hs.foreground hd n r hm]
        exact hs.pid n r hm
      · cases hm
        obtain ⟨hn, hst⟩ := hcalls.fprintf_eq
        rw [hcalls.pid_eq (by simp [hst])]
        exact hn

theorem start_kept (P : Plan) (i : Inherited) (pid : ℤ) : Kept P (.start P i pid) [] := by
  have hfirst : (P.first.opening = true) ∨ (P.first = .run ∧ P.pidFile = none) := by
    unfold Plan.first
    split_ifs
    · exact .inl rfl
    · exact (afterDaemon_cases P).imp_left And.left
  refine ⟨?_, ?_, by simp, by simp⟩
  · rcases hfirst with hopening | ⟨hrun, hnone⟩
    · exact (FileAt.opening hopening).2 ⟨rfl, rfl, rfl⟩
    · simp only [Proc.start, hrun]
      exact ⟨by simp [Plan.files, hnone], .inl ⟨rfl, rfl⟩⟩
  · rcases hfirst with hopening | ⟨hrun, -⟩
    · simp only [Proc.start]
      cases hf : P.first <;> first | trivial | (rw [hf] at hopening; cases hopening)
    · simp only [Proc.start, hrun]
      trivial

theorem run_kept {i : Inherited} {pid : ℤ} {as : List Act}
    (h : (process P).Run (.start P i pid) as p) : Kept P p as :=
  Machine.Run.induct (P := fun as p => Kept P p as) (start_kept P i pid)
    (fun _ _ _ _ hr hs hn => next_kept (run_sigInv (run_sup hr)) hs hn) h

/-! ### The two results -/

/-- **What becomes of the pid file.**  In every run of the process, whatever calls fail and whatever
signals arrive: the file is made at most once, and removed at most once and not before.  It carries
the pid of the process that goes on.  While `ssh_run` is at work, up to the `_exit` of a fatal
error, it is there if it was asked for.  It has been removed when the process has ended with a fatal
error, and when `autossh_main` has returned to `main`; it has not when it has returned to
`child_main`. -/
theorem pid_file_lifecycle (P : Plan) (i : Inherited) (pid : ℤ) {as : List Act} {p : Proc}
    (h : (process P).Run (.start P i pid) as p) :
    as.countP Act.makes ≤ 1 ∧ as.countP Act.removes ≤ as.countP Act.makes ∧
      (∀ n r, .call (.fprintf n r) ∈ as → n = p.pid) ∧
      (p.stage = .run → p.sup.pc ≠ .exit →
        as.countP Act.makes = P.files ∧ as.countP Act.removes = 0) ∧
      (p.stage = .done .fatal → as.countP Act.removes = as.countP Act.makes) ∧
      ∀ st, p.stage = .done (.returned st) → as.countP Act.makes = P.files ∧
        as.countP Act.removes = if P.embedded then 0 else P.files := by
  have hs := run_kept h
  have hfile := hs.file
  obtain ⟨hmade, hremoved⟩ := hfile.le
  refine ⟨hmade, hremoved, hs.pid, fun hrun hexit => ?_, fun hd => ?_, fun st hd => ?_⟩
  · rw [hrun] at hfile
    obtain ⟨hm, ⟨-, hr⟩ | ⟨-, -, hq⟩⟩ := hfile
    · exact ⟨hm, hr⟩
    · exact absurd hq hexit
  · rw [hd] at hfile
    exact hfile.2
  · rw [hd] at hfile
    exact ⟨hfile.1, hfile.1 ▸ hfile.2⟩

/-- No monitoring, a pid file. -/
def withPidFile : Plan := ⟨.default, false, false, some "a.pid".toList, false⟩

/-- The pid file is written, the first child exits at once, and the file is removed. -/
def briefLife : List Act :=
  ([.call (.fopen "a.pid".toList true), .call .atexit, .call (.fprintf 7 2), .call .fclose] :
      List Act) ++
    (startup 100 600 ++ childExits 100 0 ++ wayOut 3 ++
      [Supervisor.Act.runRet .exitErr]).map .sup ++
    [.call (.unlink "a.pid".toList), .call (.exit 1)]

theorem pid_file_lifecycle_briefLife :
    ∃ p, (process withPidFile).Run (.start withPidFile .clean 7) briefLife p ∧
      p.stage = .done (.returned 1) ∧ briefLife.countP Act.makes = 1 ∧
      briefLife.countP Act.removes = 1 := by
  obtain ⟨p, hp⟩ := Option.isSome_iff_exists.1 (show
    ((process withPidFile).exec (.start withPidFile .clean 7) briefLife).isSome = true by rfl)
  have hst : p.stage = .done (.returned 1) := by
    cases hp
    rfl
  obtain ⟨-, -, -, -, -, hret⟩ := pid_file_lifecycle withPidFile .clean 7 hp
  exact ⟨p, hp, hst, hret 1 hst⟩

/-- The exit status is what `ssh_run` has returned, for a reason. -/
theorem returned_reason {i : Inherited} {pid : ℤ} (hmax : P.cfg.maxStart < 2 ^ 31) {as : List Act}
    (hforks : (supActs as).countP Supervisor.Act.isFork < 2 ^ 31 - 1) {st : ℕ}
    (h : (process P).Run (.start P i pid) as p) (hst : p.stage = .done (.returned st)) :
    ∃ rc, st = status rc ∧ Reason P.cfg i (supActs as) rc := by
  have hret := (run_kept h).ret
  rw [hst] at hret
  obtain ⟨rc, hp, rfl⟩ := hret
  exact ⟨rc, rfl, run_ret_reason hmax hforks (run_sup h) hp⟩

/-- **What the exit status says.**  When `autossh_main` has returned, the exit status is 0 or 1.  It
is 0 only if `max_start` children have been started, the lifetime was over, or the last child has
exited with status 0; and 1 only if a signal to exit was delivered, or the last child has exited, as
the first one with a gate time or with a status other than 0, 1, 2 and 255. -/
theorem exit_status_explained (P : Plan) (i : Inherited) (pid : ℤ)
    (hmax : P.cfg.maxStart < 2 ^ 31) {as : List Act}
    (hforks : (supActs as).countP Supervisor.Act.isFork < 2 ^ 31 - 1) {p : Proc} {st : ℕ}
    (h : (process P).Run (.start P i pid) as p) (hst : p.stage = .done (.returned st)) :
    (st = 0 ∧ Reason P.cfg i (supActs as) .exitOk) ∨
      (st = 1 ∧ Reason P.cfg i (supActs as) .exitErr) := by
  obtain ⟨rc, rfl, hreason⟩ := returned_reason hmax hforks h hst
  cases rc with
  | exitOk => exact .inl ⟨rfl, hreason⟩
  | exitErr => exact .inr ⟨rfl, hreason⟩
  | cont | restart => exact hreason.elim

theorem exit_status_explained_briefLife :
    ∃ p, (process withPidFile).Run (.start withPidFile .clean 7) briefLife p ∧
      Reason .default .clean (supActs briefLife) .exitErr := by
  obtain ⟨p, hp⟩ := Option.isSome_iff_exists.1 (show
    ((process withPidFile).exec (.start withPidFile .clean 7) briefLife).isSome = true by rfl)
  have hst : p.stage = .done (.returned 1) := by
    cases hp
    rfl
  obtain ⟨hzero, -⟩ | ⟨-, hreason⟩ :=
    exit_status_explained withPidFile .clean 7 (by decide) (by decide) hp hst
  · cases hzero
  · exact ⟨p, hp, hreason⟩

/-- **A daemon does not end because its first child has ended early.**  With `-f` the exit status is
1 only if a signal to exit was delivered, or the last child has exited with a status other than 0,
1, 2 and 255. -/
theorem daemon_status {fopen : CString → Bool} {now : ℤ} {e : Environ} {s : Environ.Settings}
    (hs : Environ.getEnvArgs fopen now e = .ok s) {b : Args.Built} (hb : b.daemon = true)
    (embedded : Bool) {i : Inherited} {pid : ℤ} {as : List Act}
    (hforks : (supActs as).countP Supervisor.Act.isFork < 2 ^ 31 - 1)
    (h : (process (.ofBuilt hs b embedded)).Run (.start (.ofBuilt hs b embedded) i pid) as p)
    (hst : p.stage = .done (.returned 1)) :
    Given (Plan.ofBuilt hs b embedded).cfg i (supActs as) .exitSignal ∨
      ∃ st, Given (Plan.ofBuilt hs b embedded).cfg i (supActs as) (.reaped st) ∧
        wifexited st = true ∧ wexitstatus st ∉ [0, 1, 2, 255] := by
  have hgate : (Plan.ofBuilt hs b embedded).cfg.gateTime = 0 := if_pos hb
  obtain ⟨rc, hrc, hreason⟩ := returned_reason (Environ.maxStart_lt hs) hforks h hst
  cases rc with
  | exitErr =>
    refine hreason.imp_right ?_
    rintro ⟨st, hreaped, hexited, ⟨-, hne⟩ | hstatus⟩
    · exact absurd hgate hne
    · exact ⟨st, hreaped, hexited, hstatus⟩
  | exitOk => cases hrc
  | cont | restart => exact hreason.elim

end Main

end Autossh
