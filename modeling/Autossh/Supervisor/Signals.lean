import Autossh.Supervisor.Basic

/-!
# `sig_catch` and the signal dispositions (`src/signals.rs`)

`sig_catch` is the one handler.  It runs as a stack of activations on top of the main program:
with the empty `sa_mask` of `set_exit_sig_handler` a second signal can interrupt it, with the
full one of `set_sig_handlers` none of the signals it handles can.
-/

namespace Autossh

namespace Supervisor

/-- The signals `build_blockmask` (`src/watch.rs`) puts together: those `sig_catch` handles. -/
def blockmask : SigSet := .ofList [.chld, .alrm, .int, .term, .hup, .usr1, .usr2]

/-- The `sa_mask` of `set_sig_handlers`. -/
def actMask : SigSet := .ofList [.term, .int, .hup, .usr1, .usr2, .chld, .alrm, .pipe]

/-- The signals `set_sig_handlers` sets, in order. -/
def handledSignals : List Sig := [.term, .int, .hup, .usr1, .usr2, .chld, .alrm, .pipe]

/-- The disposition `set_sig_handlers` gives to a signal: `SIGPIPE` is ignored, the others are
caught.  (`SA_RESTART` on `SIGALRM` only concerns calls that the handler returns into.) -/
def handlerDisp (g : Sig) : Disp := if g = .pipe then .ign else .catch actMask

/-- The signals `unset_sig_handlers` resets, in order; `SIGTERM` and `SIGINT` stay caught. -/
def unsetSignals : List Sig := [.hup, .usr1, .usr2, .chld, .alrm, .pipe]

/-- One step of the innermost activation `f` of `sig_catch`, with `fs` below it. -/
def sigCatchStep (s : St) (f : Frame) (fs : List Frame) (a : Act) : Option St :=
  match f.pc with
  | .enter =>
    if f.sig = .usr1 then
      on .tau { s with restartSsh := true, frames := { f with pc := .testJmp } :: fs } a
    else if f.sig = .term ∨ f.sig = .int then
      -- a second termination signal ends the process
      if s.exitSignalled then on .exit { s with pc := .gone, frames := [] } a
      else on .tau { s with frames := { f with pc := .setExit } :: fs } a
    else on .tau { s with frames := { f with pc := .testJmp } :: fs } a
  | .setExit =>
    on .tau { s with exitSignalled := true, frames := { f with pc := .testJmp } :: fs } a
  | .testJmp =>
    on .tau
      { s with frames := { f with pc := if s.dolongjmp then .clearJmp else .leave } :: fs } a
  | .clearJmp => on .tau { s with dolongjmp := false, frames := { f with pc := .jump } :: fs } a
  | .jump =>
    on (.longjmp f.sig)
      { s with pc := .watch (.caught f.sig), frames := [], sg := s.sg.setmask s.jumpbuf } a
  | .leave => on .tau { s with frames := fs, sg := s.sg.setmask f.saved } a

/-- Start `sig_catch` for `g`.  A signal that ends `ppoll` or `sigsuspend` runs its handler
while the call is still in progress, and on return the mask from before the call is back. -/
def pushFrame (s : St) (g : Sig) (m : SigSet) : St :=
  match s.frames, s.pc with
  | [], .watch (.asleep old) =>
    { s with
      pc := .watch .woken, frames := [⟨g, old, .enter⟩], sg := s.sg.enter g m, interrupted := true }
  | fs, _ =>
    { s with frames := ⟨g, s.sg.mask, .enter⟩ :: fs, sg := s.sg.enter g m, interrupted := true }

/-- Delivery of a pending signal: the default action, or a new activation of `sig_catch`. -/
def deliver (s : St) (g : Sig) : Option St :=
  if s.sg.deliverable g then
    match s.sg.disp g with
    | .dfl =>
      if g.dflIgnored then some { s with sg := s.sg.take g }
      else some { s with pc := .gone, frames := [] }
    | .ign => some { s with sg := s.sg.take g }
    | .catch m => some (pushFrame s g m)
  else none

/-- A delivered signal was pending and not blocked; it is discarded, ends the process or starts
an activation of `sig_catch`. -/
theorem deliver_cases {s s' : St} {g : Sig} (h : deliver s g = some s') :
    s.sg.pending g = true ∧ s.sg.mask g = false ∧
      (s' = { s with sg := s.sg.take g } ∨ s' = { s with pc := .gone, frames := [] } ∨
        ∃ m, s.sg.disp g = .catch m ∧ s' = pushFrame s g m) := by
  unfold deliver at h
  by_cases hdel : s.sg.deliverable g = true
  · rw [if_pos hdel] at h
    obtain ⟨hp, hm⟩ := SigState.deliverable_iff.1 hdel
    refine ⟨hp, hm, ?_⟩
    cases hd : s.sg.disp g with
    | dfl =>
      simp only [hd] at h
      split_ifs at h <;> cases h <;> simp
    | ign =>
      simp only [hd] at h
      cases h
      simp
    | «catch» m =>
      simp only [hd] at h
      cases h
      exact .inr (.inr ⟨m, rfl, rfl⟩)
  · rw [if_neg hdel] at h
    cases h

end Supervisor

end Autossh
