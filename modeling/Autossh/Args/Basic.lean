import Autossh.Posix.Basic
import Autossh.Posix.Getopt

/-!
# From the command line to ssh's arguments (`src/main_logic.rs`, `src/args.rs`)

`autossh_main` reads its options with `getopt`, takes the monitor port from `AUTOSSH_PORT` or from
`-M`, and then goes through the argument vector a second time to build `newav`, the arguments of
ssh: it leaves out `-M` with its value, strips `-f` and inserts the monitor forwards.  `build` is
this part of the function.

An element of the vector carries a mark (`Elem.monitor`) that says whether `getopt` found the
option `M` in it or took it for the value of that option.  The second pass does not read it; what
it adds to `newav` (`Item`) keeps track of where it comes from.
-/

namespace Autossh

namespace Args

open Getopt

/-- `OPTION_STRING`. -/
def optionString : CString :=
  "M:V1246ab:c:e:fgi:kl:m:no:p:qstvw:xyACD:E:F:GI:MJKL:NO:PQ:R:S:TW:XYB:".toList

/-- The environment variables that are read here. -/
structure Env where
  autosshPort : Option CString
  autosshMhost : Option CString
  autosshPath : Option CString
  deriving DecidableEq, Repr

namespace Env

/-- `env_port`: an empty `AUTOSSH_PORT` does not count. -/
def port (v : Env) : Option CString := v.autosshPort.filter (· ≠ [])

/-- `mhost`. -/
def mhost (v : Env) : CString := (v.autosshMhost.filter (· ≠ [])).getD "127.0.0.1".toList

/-- `ssh_path`. -/
def sshPath (v : Env) : CString := v.autosshPath.getD "/usr/bin/ssh".toList

end Env

/-- How `autossh_main` ends before it has built `newav`. -/
inductive Exit
  /-- `usage(1)` -/
  | usage
  /-- the version is printed -/
  | version
  /-- "invalid echo port  \"{}\"" -/
  | invalidEchoPort (s : CString)
  /-- "invalid port \"{}\"" -/
  | invalidPort (s : CString)
  /-- "monitor port ({}) out of range" -/
  | outOfRange (wp : ℤ)
  /-- "overflow building forwarding string" -/
  | overflow
  deriving DecidableEq, Repr

/-! ### The monitor port -/

/-- What the port text gives. -/
structure Monitor where
  /-- 0 turns monitoring off. -/
  wp : ℤ
  /-- An echo port is given. -/
  echo : Bool
  wmbuf : CString
  rmbuf : CString
  deriving DecidableEq, Repr

/-- The text before the first colon. -/
def beforeColon (s : CString) : CString := s.takeWhile (· ≠ ':')

/-- The text after the first colon, if there is one. -/
def afterColon (s : CString) : Option CString :=
  match s.dropWhile (· ≠ ':') with
  | [] => none
  | _ :: e => some e

/-- The echo port `ep`. -/
def echoPort : Option CString → Except Exit (Option ℕ)
  | none => .ok none
  | some e =>
    if e = [] ∨ (CString.strtoul e).2 ≠ [] ∨ (CString.strtoul e).1 % 2 ^ 32 = 0 then
      .error (.invalidEchoPort e)
    else .ok (some ((CString.strtoul e).1 % 2 ^ 32))

/-- The monitor port `wp`, before its range is checked. -/
def writePort (w : CString) : Except Exit ℤ :=
  if w = [] ∨ (CString.strtoul w).2 ≠ [] then .error (.invalidPort w)
  else .ok (i32Wrap (CString.strtoul w).1)

/-- `"%d:%s:%d"`. -/
def forwardText (a : ℤ) (host : CString) (b : ℤ) : CString :=
  CString.decimal a ++ ':' :: host ++ ':' :: CString.decimal b

/-- `snprintf` into a buffer of 256 bytes, and the check of its result. -/
def snprintf (s : CString) : Except Exit CString :=
  if 256 < s.length then .error .overflow else .ok (s.take 255)

/-- The monitor settings of the text `writep`. -/
def monitorOf (mhost writep : CString) : Except Exit Monitor := do
  let ep ← echoPort (afterColon writep)
  let wp ← writePort (beforeColon writep)
  if wp = 0 then
    return ⟨0, ep.isSome, [], []⟩
  else if 65534 < wp ∨ wp < 0 then
    throw (.outOfRange wp)
  else
    let wmbuf ← snprintf (forwardText wp mhost (ep.elim wp fun e => i32Wrap e))
    let rmbuf ← if ep.isSome then pure [] else snprintf (forwardText wp mhost (wp + 1))
    return ⟨wp, ep.isSome, wmbuf, rmbuf⟩

/-- What the settings are taken from.  `ep` is the echo port. -/
structure Monitor.Spec (mhost p : CString) (ep : Option ℕ) (m : Monitor) : Prop where
  echoPort : echoPort (afterColon p) = .ok ep
  writePort : writePort (beforeColon p) = .ok m.wp
  echo : m.echo = ep.isSome
  range : 0 ≤ m.wp ∧ m.wp ≤ 65534
  wmbuf : m.wp ≠ 0 →
    snprintf (forwardText m.wp mhost (ep.elim m.wp fun e => i32Wrap e)) = .ok m.wmbuf
  rmbuf : m.wp ≠ 0 → ep = none → snprintf (forwardText m.wp mhost (m.wp + 1)) = .ok m.rmbuf

theorem monitorOf_spec {mhost p : CString} {m : Monitor} (h : monitorOf mhost p = .ok m) :
    ∃ ep, m.Spec mhost p ep := by
  unfold monitorOf at h
  obtain ⟨ep, hep, h⟩ := bind_eq_ok.1 h
  obtain ⟨wp, hwp, h⟩ := bind_eq_ok.1 h
  refine ⟨ep, ?_⟩
  by_cases hzero : wp = 0
  · rw [if_pos hzero] at h
    cases h
    subst hzero
    exact ⟨hep, hwp, rfl, ⟨le_rfl, show (0 : ℤ) ≤ 65534 by decide⟩,
      fun hne => absurd rfl hne, fun hne => absurd rfl hne⟩
  · rw [if_neg hzero] at h
    by_cases hrange : 65534 < wp ∨ wp < 0
    · rw [if_pos hrange] at h
      cases h
    · rw [if_neg hrange] at h
      obtain ⟨wmbuf, hL, h⟩ := bind_eq_ok.1 h
      have hbounds : 0 ≤ wp ∧ wp ≤ 65534 := by omega
      cases ep with
      | none =>
        obtain ⟨rmbuf, hR, h⟩ := bind_eq_ok.1 h
        cases h
        exact ⟨hep, hwp, rfl, hbounds, fun _ => hL, fun _ _ => hR⟩
      | some e =>
        cases h
        exact ⟨hep, hwp, rfl, hbounds, fun _ => hL, fun _ hnone => by cases hnone⟩

/-! ### The elements of the vector -/

/-- The value of the option `M`, if the group has it. -/
def monitorValue (g : Group) : Option CString :=
  g.opt.bind fun o => if o.name = 'M' then some o.value else none

/-- The group has the option `M`. -/
def isMonitor (g : Group) : Bool := (monitorValue g).isSome

/-- `writep`: `AUTOSSH_PORT`, or the value of the last `M`. -/
def writep (v : Env) (gs : List Group) : Option CString :=
  v.port.or (gs.filterMap monitorValue).getLast?

/-- The value of the option ends at its first colon. -/
def cutValue (g : Group) : Group :=
  { g with opt := g.opt.map fun o => { o with value := beforeColon o.value } }

theorem isMonitor_cutValue (g : Group) : isMonitor (cutValue g) = isMonitor g := by
  unfold isMonitor monitorValue cutValue
  cases g.opt with
  | none => rfl
  | some o =>
    simp only [Option.map_some, Option.bind_some]
    split_ifs <;> rfl

/-- `*colon = 0` in the value of the last `M`, which is a part of the vector. -/
def cutPort : List Group → List Group
  | [] => []
  | g :: gs =>
    if gs.any isMonitor then g :: cutPort gs
    else if isMonitor g then cutValue g :: gs
    else g :: gs

/-- An element, and whether it belongs to the option `M`. -/
structure Elem where
  text : CString
  monitor : Bool
  deriving DecidableEq, Repr

/-- The elements of a group. -/
def groupElems (g : Group) : List Elem := g.elems.map fun a => ⟨a, isMonitor g⟩

/-- The vector the second pass goes through. -/
def vector (v : Env) (gs : List Group) (rest : List CString) : List Elem :=
  (if v.port.isSome then gs else cutPort gs).flatMap groupElems ++ rest.map fun a => ⟨a, false⟩

/-! ### The second pass -/

/-- What is added to `newav`, and where it comes from. -/
inductive Item
  | sshPath (s : CString)
  | forward (s : CString)
  | elem (e : Elem) (s : CString)
  deriving DecidableEq, Repr

namespace Item

/-- The argument of ssh. -/
def text : Item → CString
  | sshPath s | forward s | elem _ s => s

/-- The text of an inserted forward. -/
def forward? : Item → Option CString
  | forward s => some s
  | _ => none

/-- The element it is a copy of. -/
def elem? : Item → Option Elem
  | elem e _ => some e
  | _ => none

end Item

/-- `add_arg`, which ignores an empty string. -/
def addArg (i : Item) : List Item := if i.text = [] then [] else [i]

/-- The loop of `strip_arg`.  The character after a deleted one takes its place and is not looked
at; the second component says that the loop went on to the end. -/
def stripLoop (opts : CString) (ch : Char) : CString → CString × Bool
  | [] => ([], true)
  | c :: cs =>
    if takesValue opts c then (c :: cs, false)
    else if c = ch then
      match cs with
      | [] => ([], true)
      | d :: ds => (d :: (stripLoop opts ch ds).1, (stripLoop opts ch ds).2)
    else (c :: (stripLoop opts ch cs).1, (stripLoop opts ch cs).2)

/-- `strip_arg`. -/
def stripArg (opts : CString) (ch : Char) : CString → CString
  | '-' :: c :: cs =>
    let r := stripLoop opts ch ('-' :: c :: cs)
    if r.2 = true ∧ r.1.length = 1 then [] else r.1
  | a => a

/-- The element starts with `--`. -/
def dashDash : CString → Bool
  | '-' :: '-' :: _ => true
  | _ => false

/-- The element starts with `-M`. -/
def dashM : CString → Bool
  | '-' :: 'M' :: _ => true
  | _ => false

/-- The monitor forwards. -/
def forwards (m : Monitor) : List Item :=
  addArg (.forward "-L".toList) ++ addArg (.forward m.wmbuf) ++
    if m.echo then [] else addArg (.forward "-R".toList) ++ addArg (.forward m.rmbuf)

/-- `strip_arg` and `add_arg` on an element. -/
def copy (e : Elem) : List Item := addArg (.elem e (stripArg optionString 'f' e.text))

/-- The loop, with `sawargstop` and `done_fwds`; `port` says that `env_port` is set. -/
def rewriteLoop (port : Bool) (m : Monitor) : Bool → Bool → List Elem → List Item
  | _, _, [] => []
  | stop, done, e :: es =>
    -- the first `--` is for autossh
    if dashDash e.text = true ∧ stop = false then rewriteLoop port m true done es
    else if m.wp ≠ 0 ∧ port = true ∧ done = false then
      -- the element itself is not looked at any further
      forwards m ++ copy e ++ rewriteLoop port m stop true es
    else if stop = false ∧ dashM e.text = true then
      (if m.wp ≠ 0 ∧ done = false then forwards m else []) ++
        -- the value is the next element
        if e.text = ['-', 'M'] then
          match es with
          | [] => []
          | _ :: es' => rewriteLoop port m stop (done || m.wp ≠ 0) es'
        else rewriteLoop port m stop (done || m.wp ≠ 0) es
    else copy e ++ rewriteLoop port m stop done es

/-- What `autossh_main` has when it has built `newav`. -/
structure Built where
  monitor : Monitor
  /-- `runasdaemon` -/
  daemon : Bool
  newav : List Item
  deriving DecidableEq, Repr

/-- The operands: `--` is not one. -/
def operands : List CString → List CString
  | ['-', '-'] :: as => as
  | as => as

/-- `autossh_main` up to the end of the second pass, on the vector (without the program's name) as
`getopt` leaves it. -/
def build (v : Env) (argv : List CString) : Except Exit Built :=
  let scan := getopt optionString argv
  if scan.groups.any fun g => g.flags.contains 'V' then .error .version
  else match scan.rest with
    | none => .error .usage
    | some rest =>
      match writep v scan.groups with
      | none => .error .usage
      | some p =>
        if operands rest = [] then .error .usage
        else (monitorOf v.mhost p).map fun m =>
          { monitor := m
            daemon := scan.groups.any fun g => g.flags.contains 'f'
            newav := addArg (.sshPath v.sshPath) ++
              rewriteLoop v.port.isSome m false false (vector v scan.groups rest) }

end Args

end Autossh
