import Autossh.Posix.CString

/-!
# `getopt` on an argument vector as it leaves it

The GNU `getopt` moves the operands behind the options while it scans.  What it leaves behind is
read here from left to right: elements with options, each with the value that follows it if it
takes one, then `--` or the first operand.

* `Group` is an element with options.  The element itself and the value after it are computed
  from what was found in it (`Group.elem`, `Group.elems`);
* `getopt` scans a vector.  It stops at an unknown option or a missing value, with what it has
  found until then;
* `getopt_spec` : the groups and the rest are the vector, and the options found are options, with
  a value exactly when they take one.
-/

namespace Autossh

namespace Getopt

/-- `strchr(opts, c)` is followed by a colon: the option takes a value. -/
def takesValue (opts : CString) (c : Char) : Bool :=
  match opts.dropWhile (· ≠ c) with
  | _ :: ':' :: _ => true
  | _ => false

/-- The character is an option. -/
def isOption (opts : CString) (c : Char) : Bool := decide (c ∈ opts ∧ c ≠ ':' ∧ c ≠ ';')

/-- An option with its value. -/
structure Opt where
  name : Char
  value : CString
  /-- The value is the next element, not the rest of this one. -/
  separate : Bool
  deriving DecidableEq, Repr

/-- An element with options: some without a value, then possibly one with a value. -/
structure Group where
  flags : List Char
  opt : Option Opt
  deriving DecidableEq, Repr

namespace Group

/-- The element. -/
def elem (g : Group) : CString :=
  '-' :: (g.flags ++ match g.opt with
    | none => []
    | some o => o.name :: if o.separate then [] else o.value)

/-- The value that is an element of its own. -/
def separateValue (g : Group) : Option CString :=
  g.opt.bind fun o => if o.separate then some o.value else none

/-- The element and the value after it. -/
def elems (g : Group) : List CString := g.elem :: g.separateValue.toList

/-- There is an option, and each of them is one, with a value exactly when it takes one. -/
structure Valid (opts : CString) (g : Group) : Prop where
  flags : ∀ c ∈ g.flags, isOption opts c = true ∧ takesValue opts c = false
  opt : ∀ o ∈ g.opt, isOption opts o.name = true ∧ takesValue opts o.name = true
  nonempty : g.flags = [] → g.opt ≠ none

end Group

/-- The options in the characters of one element: those without a value, and the first that takes
one, with what stands after it.  The last component says that all of them are options. -/
def cluster (opts : CString) : List Char → List Char × Option (Char × CString) × Bool
  | [] => ([], none, true)
  | c :: cs =>
    if isOption opts c = false then ([], none, false)
    else if takesValue opts c = true then ([], some (c, cs), true)
    else ((c :: (cluster opts cs).1), (cluster opts cs).2)

/-- What `getopt` has found, and what it leaves unread: nothing if it stopped at an error. -/
structure Scan where
  groups : List Group
  rest : Option (List CString)
  deriving DecidableEq, Repr

/-- One more group in front. -/
def Scan.cons (g : Group) (s : Scan) : Scan := ⟨g :: s.groups, s.rest⟩

theorem Scan.groups_cons (g : Group) (s : Scan) : (s.cons g).groups = g :: s.groups := rfl

/-- The scan.  What it leaves unread starts with `--`, with an operand, or is empty. -/
def getopt (opts : CString) : List CString → Scan
  | [] => ⟨[], some []⟩
  | a :: as =>
    match a with
    | ['-', '-'] => ⟨[], some (a :: as)⟩
    | '-' :: c :: cs =>
      match cluster opts (c :: cs) with
      | (fs, _, false) => ⟨[⟨fs, none⟩], none⟩
      | (fs, none, true) => (getopt opts as).cons ⟨fs, none⟩
      | (fs, some (o, []), true) =>
        match as with
        | [] => ⟨[⟨fs, none⟩], none⟩
        | v :: as' => (getopt opts as').cons ⟨fs, some ⟨o, v, true⟩⟩
      | (fs, some (o, x :: xs), true) => (getopt opts as).cons ⟨fs, some ⟨o, x :: xs, false⟩⟩
    | _ => ⟨[], some (a :: as)⟩

variable {opts : CString}

/-- The characters of an element, put together again. -/
theorem cluster_eq (cs : List Char) {fs : List Char} {o : Option (Char × CString)}
    (h : cluster opts cs = (fs, o, true)) :
    cs = fs ++ (o.elim [] fun x => x.1 :: x.2) ∧
      (∀ c ∈ fs, isOption opts c = true ∧ takesValue opts c = false) ∧
      ∀ x ∈ o, isOption opts x.1 = true ∧ takesValue opts x.1 = true := by
  induction cs generalizing fs o with
  | nil =>
    cases h
    exact ⟨rfl, nofun, nofun⟩
  | cons c cs ih =>
    simp only [cluster] at h
    split_ifs at h with hopt hval
    · cases h
    · cases h
      refine ⟨rfl, nofun, ?_⟩
      rintro _ ⟨⟩
      exact ⟨by simpa using hopt, hval⟩
    · obtain ⟨rfl, hx⟩ := Prod.mk.inj h
      have hcs : cluster opts cs = ((cluster opts cs).1, o, true) := by rw [← hx]
      obtain ⟨heq, hfs, ho⟩ := ih hcs
      refine ⟨by rw [List.cons_append, ← heq], ?_, ho⟩
      intro d hd
      rcases List.mem_cons.1 hd with rfl | hd
      · exact ⟨by simpa using hopt, by simpa using hval⟩
      · exact hfs d hd

theorem valid_of_cluster {c : Char} {cs fs : List Char} {o : Option (Char × CString)}
    (h : cluster opts (c :: cs) = (fs, o, true)) {x : Option Opt}
    (hname : x.map Opt.name = o.map Prod.fst) : Group.Valid opts ⟨fs, x⟩ := by
  obtain ⟨heq, hfs, ho⟩ := cluster_eq _ h
  refine ⟨hfs, fun y hy => ?_, fun hnil hnone => ?_⟩
  · cases hy
    obtain ⟨z, hz, hz'⟩ := Option.map_eq_some_iff.1 hname.symm
    rw [← hz']
    exact ho z hz
  · obtain rfl : x = none := hnone
    obtain rfl : fs = [] := hnil
    obtain rfl : o = none := Option.map_eq_none_iff.1 hname.symm
    cases heq

/-- What a scan that goes on to its end has found: valid groups, which with the rest are the
vector, and a rest that starts with `--` or with an operand. -/
theorem getopt_spec (as : List CString) {rest : List CString}
    (h : (getopt opts as).rest = some rest) :
    as = (getopt opts as).groups.flatMap Group.elems ++ rest ∧
      (∀ g ∈ (getopt opts as).groups, g.Valid opts) ∧
      ∀ a ∈ rest.head?, a = ['-', '-'] ∨ ∀ c cs, a ≠ '-' :: c :: cs := by
  fun_induction getopt opts as with
  | case1 =>
    cases h
    exact ⟨rfl, nofun, nofun⟩
  | case2 as =>
    cases h
    exact ⟨rfl, nofun, fun a ha => .inl (Option.some.inj ha).symm⟩
  | case3 | case5 => cases h
  | case4 as c cs hc fs hcl ih =>
    obtain ⟨heq, hval, hrest⟩ := ih h
    obtain ⟨hcs, -, -⟩ := cluster_eq _ hcl
    refine ⟨?_, List.forall_mem_cons.2 ⟨valid_of_cluster hcl rfl, hval⟩, hrest⟩
    rw [Scan.groups_cons, List.flatMap_cons, List.append_assoc, ← heq, hcs]
    rfl
  | case6 c cs hc fs o hcl v as ih =>
    obtain ⟨heq, hval, hrest⟩ := ih h
    obtain ⟨hcs, -, -⟩ := cluster_eq _ hcl
    refine ⟨?_, List.forall_mem_cons.2 ⟨valid_of_cluster hcl rfl, hval⟩, hrest⟩
    rw [Scan.groups_cons, List.flatMap_cons, List.append_assoc, ← heq, hcs]
    rfl
  | case7 as c cs hc fs o x xs hcl ih =>
    obtain ⟨heq, hval, hrest⟩ := ih h
    obtain ⟨hcs, -, -⟩ := cluster_eq _ hcl
    refine ⟨?_, List.forall_mem_cons.2 ⟨valid_of_cluster hcl rfl, hval⟩, hrest⟩
    rw [Scan.groups_cons, List.flatMap_cons, List.append_assoc, ← heq, hcs]
    rfl
  | case8 a as hdd hopt =>
    cases h
    exact ⟨rfl, nofun, fun b hb => .inr fun c cs hcs => hopt _ _ ((Option.some.inj hb).trans hcs)⟩

end Getopt

end Autossh
