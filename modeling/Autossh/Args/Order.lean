import Autossh.Args.Copied
import Autossh.Args.Invoke
import Autossh.Args.Passed

/-!
# The order of ssh's arguments

The second pass goes through the vector as `getopt` has left it: with the operands behind the
options, so that an option of a remote command has moved in front of the destination.  Here the
elements of `newav` are followed back to the places at which they were typed.

* `positions` : where the words were typed that the pass comes to; `passedFrom` : the same for those
  it passes on;
* `command` : the remote command, which begins at the second operand;
* `in_order_iff` : **the arguments are in the order in which they were typed, and end in the remote
  command as it was typed, exactly if no option was typed behind an operand and the remote command
  has none**, those apart that autossh keeps for itself.
-/

namespace Autossh

namespace Args

open Getopt

/-! ### Where the elements were typed -/

section positions

variable (v : Env) (posix : Bool) (optind : ℕ) (argv : List CString)

/-- The elements that are not moved behind others: those before `optind`, and those that `getopt`
takes for options, their values, or the `--`. -/
def stays : List Bool :=
  ((argv.take (optind - 1)).map fun _ => true) ++
    fronts optionString posix (argv.drop (optind - 1))

/-- Where the elements of the vector were typed that the second pass goes through. -/
def positions : List ℕ := arrange (stays posix optind argv) (List.range argv.length)

/-- The vector that the second pass goes through. -/
def secondPass : List Elem :=
  ((argv.take (optind - 1)).map fun a => ⟨a, false⟩) ++
    vector v (permute optionString posix (argv.drop (optind - 1))).groups
      (permute optionString posix (argv.drop (optind - 1))).rest

/-- Where the words were typed that autossh does not keep for itself, in the order in which the
second pass comes to them. -/
def passedFrom : List ℕ :=
  pick (copied false v.monitors ((secondPass v posix optind argv).map Elem.text))
    (positions posix optind argv)

/-- Where the operands were typed. -/
def operandsAt : List ℕ := pick ((stays posix optind argv).map not) (List.range argv.length)

/-- Where the remote command begins: at the second operand, the first being the destination. -/
def commandAt : ℕ := (operandsAt posix optind argv)[1]?.getD argv.length

/-- The words of the remote command, each with its place. -/
def command : List (CString × Option ℕ) :=
  ((argv.drop (commandAt posix optind argv)).zipIdx (commandAt posix optind argv)).map
    fun w => (w.1, some w.2)

end positions

/-- The arguments of ssh with the places at which they were typed, which are given for the elements
of the vector. -/
def placed : List Item → List ℕ → List (CString × Option ℕ)
  | [], _ => []
  | i :: is, ps =>
    if i.elem?.isSome then (i.text, ps.head?) :: placed is ps.tail
    else (i.text, none) :: placed is ps

/-- The element was typed there.  The value of `M` has been cut at its colon. -/
def TypedAt (argv : List CString) (e : Elem) (i : ℕ) : Prop :=
  i < argv.length ∧ (e.monitor = false → argv[i]? = some e.text)

/-- ssh is given what it is given in the order in which it was typed, and `newav` ends in the
remote command as it was typed. -/
structure AsTyped (v : Env) (posix : Bool) (optind : ℕ) (argv : List CString) (b : Built) :
    Prop where
  inOrder : (passedFrom v posix optind argv).Pairwise (· < ·)
  command : command posix optind argv <:+ placed b.newav (passedFrom v posix optind argv)

/-- The condition on the command line. -/
structure OptionsFirst (v : Env) (posix : Bool) (optind : ℕ) (argv : List CString) : Prop where
  /-- No option that autossh does not keep for itself was typed behind such an operand. -/
  options : ∀ i ∈ passedFrom v posix optind argv, ∀ j ∈ passedFrom v posix optind argv, i < j →
    (stays posix optind argv)[j]? = some true → (stays posix optind argv)[i]? = some true
  /-- No word of the remote command is taken for an option or kept, and `strip_arg` leaves them
  as they are. -/
  command : ∀ i a, commandAt posix optind argv ≤ i → argv[i]? = some a →
    (stays posix optind argv)[i]? = some false ∧ i ∈ passedFrom v posix optind argv ∧
      stripArg optionString 'f' a = a

variable {v : Env} {posix : Bool} {optind : ℕ} {argv : List CString}

/-- The element has the text, or belongs to the option `M`. -/
def Shows (e : Elem) (a : CString) : Prop := e.monitor = false → e.text = a

theorem shows_groupElems (g : Group) : List.Forall₂ Shows (groupElems g) g.elems := by
  rw [groupElems, List.forall₂_map_left_iff, List.forall₂_same]
  intro a _ _
  rfl

theorem shows_groups (gs : List Group) :
    List.Forall₂ Shows (gs.flatMap groupElems) (gs.flatMap Group.elems) := by
  induction gs with
  | nil => exact .nil
  | cons g gs ih => exact List.rel_append (shows_groupElems g) ih

/-- A group that is cut belongs to `M`. -/
theorem shows_cutValue {g : Group} (h : isMonitor g = true) :
    List.Forall₂ Shows (groupElems (cutValue g)) g.elems := by
  have hlen : (cutValue g).elems.length = g.elems.length := by
    unfold Group.elems Group.separateValue cutValue
    cases g.opt with
    | none => rfl
    | some o =>
      simp only [Option.map_some, Option.bind_some]
      split_ifs <;> rfl
  rw [groupElems, List.forall₂_map_left_iff, isMonitor_cutValue, h]
  exact List.forall₂_iff_get.2 ⟨hlen, fun _ _ _ hm => by cases hm⟩

theorem shows_cutPort (gs : List Group) :
    List.Forall₂ Shows ((cutPort gs).flatMap groupElems) (gs.flatMap Group.elems) := by
  induction gs with
  | nil => exact .nil
  | cons g gs ih =>
    unfold cutPort
    split_ifs with hlater hm
    · exact List.rel_append (shows_groupElems g) ih
    · exact List.rel_append (shows_cutValue hm) (shows_groups gs)
    · exact shows_groups (g :: gs)

theorem shows_secondPass (hok : (permute optionString posix (argv.drop (optind - 1))).ok = true) :
    List.Forall₂ Shows (secondPass v posix optind argv)
      (arrange (stays posix optind argv) argv) := by
  have hmap : ∀ (as : List CString), List.Forall₂ Shows (as.map fun a => ⟨a, false⟩) as := by
    intro as
    rw [List.forall₂_map_left_iff, List.forall₂_same]
    intro a _ _
    rfl
  have harr : arrange (stays posix optind argv) argv = argv.take (optind - 1) ++
      (permute optionString posix (argv.drop (optind - 1))).left := by
    rw [left_eq_arrange _ hok, ← arrange_append, List.take_append_drop]
    rfl
  rw [harr, secondPass, vector, Parsed.left]
  refine List.rel_append (hmap _) (List.rel_append ?_ (hmap _))
  split_ifs with hport
  · exact shows_groups _
  · exact shows_cutPort _

theorem forall₂_range (xs : List CString) :
    List.Forall₂ (fun a i => xs[i]? = some a) xs (List.range xs.length) := by
  refine List.forall₂_iff_get.2 ⟨List.length_range.symm, ?_⟩
  intro i hi hi'
  simp only [List.get_eq_getElem, List.getElem_range]
  exact List.getElem?_eq_getElem hi

theorem typedAt_secondPass
    (hok : (permute optionString posix (argv.drop (optind - 1))).ok = true) :
    List.Forall₂ (TypedAt argv) (secondPass v posix optind argv) (positions posix optind argv) := by
  have hshow := shows_secondPass (v := v) hok
  have hplace := forall₂_arrange (forall₂_range argv) (stays posix optind argv)
  obtain ⟨hlen₁, hshow⟩ := List.forall₂_iff_get.1 hshow
  obtain ⟨hlen₂, hplace⟩ := List.forall₂_iff_get.1 hplace
  refine List.forall₂_iff_get.2 ⟨hlen₁.trans hlen₂, fun i hi hi' => ?_⟩
  have htext := hplace i (hlen₁ ▸ hi) hi'
  refine ⟨?_, fun hm => ?_⟩
  · exact (List.getElem?_eq_some_iff.1 htext).1
  · rw [hshow i hi (hlen₁ ▸ hi) hm]
    exact htext

/-- The places marked in a range. -/
theorem marked_of_mem_pick_range {ms : List Bool} {n i : ℕ} (h : i ∈ pick ms (List.range n)) :
    ms[i]? = some true := by
  obtain ⟨k, hk, hi⟩ := exists_of_mem_pick h
  obtain ⟨hlt, rfl⟩ := List.getElem?_eq_some_iff.1 hi
  rw [List.getElem_range]
  exact hk

theorem pairwise_pick_range (ms : List Bool) (n : ℕ) :
    (pick ms (List.range n)).Pairwise (· < ·) :=
  List.pairwise_lt_range.sublist (pick_sublist ms _)

/-- A selection from a rearranged range is increasing exactly if no marked place in it comes after
one that is not marked. -/
theorem pairwise_pick_arrange_iff (cs ms : List Bool) (n : ℕ) :
    (pick cs (arrange ms (List.range n))).Pairwise (· < ·) ↔
      ∀ i ∈ pick cs (arrange ms (List.range n)), ∀ j ∈ pick cs (arrange ms (List.range n)),
        i < j → ms[j]? = some true → ms[i]? = some true := by
  rw [arrange, pick_append]
  generalize cs.take (pick ms (List.range n)).length = cs₁
  generalize cs.drop (pick ms (List.range n)).length = cs₂
  have hfront : ∀ i ∈ pick cs₁ (pick ms (List.range n)), ms[i]? = some true := by
    intro i hi
    exact marked_of_mem_pick_range ((pick_sublist _ _).subset hi)
  have hback : ∀ i ∈ pick cs₂ (pick (ms.map not) (List.range n)), ms[i]? ≠ some true := by
    intro i hi hm
    have hnot := marked_of_mem_pick_range ((pick_sublist _ _).subset hi)
    rw [List.getElem?_map, hm] at hnot
    cases hnot
  have hincr₁ := (pairwise_pick_range ms n).sublist (pick_sublist cs₁ _)
  have hincr₂ := (pairwise_pick_range (ms.map not) n).sublist (pick_sublist cs₂ _)
  rw [List.pairwise_append]
  constructor
  · rintro ⟨-, -, hcross⟩ i hi j hj hlt hm
    rcases List.mem_append.1 hi with hi | hi
    · exact hfront i hi
    · rcases List.mem_append.1 hj with hj | hj
      · have := hcross j hj i hi
        omega
      · exact absurd hm (hback j hj)
  · intro h
    refine ⟨hincr₁, hincr₂, fun j hj i hi => ?_⟩
    by_contra hge
    have hne : i ≠ j := by
      rintro rfl
      exact hback i hi (hfront i hj)
    exact hback i hi (h i (List.mem_append_right _ hi) j (List.mem_append_left _ hj) (by omega)
      (hfront j hj))

/-! ### The places of the operands -/

theorem length_stays (posix : Bool) (optind : ℕ) (argv : List CString) :
    (stays posix optind argv).length = argv.length := by
  simp only [stays, List.length_append, List.length_map, List.length_take, length_fronts,
    List.length_drop]
  omega

theorem nodup_positions : (positions posix optind argv).Nodup := by
  have hpick : ∀ ms : List Bool, (pick ms (List.range argv.length)).Nodup := fun ms =>
    List.nodup_range.sublist (pick_sublist ms _)
  rw [positions, arrange, List.nodup_append]
  refine ⟨hpick _, hpick _, ?_⟩
  rintro i hi j hj rfl
  have hnot := marked_of_mem_pick_range hj
  rw [List.getElem?_map, marked_of_mem_pick_range hi] at hnot
  cases hnot

theorem unmarked_of_mem_operandsAt {i : ℕ} (h : i ∈ operandsAt posix optind argv) :
    (stays posix optind argv)[i]? = some false := by
  have hnot := marked_of_mem_pick_range h
  rw [List.getElem?_map, Option.map_eq_some_iff] at hnot
  obtain ⟨m, hm, hfalse⟩ := hnot
  rw [hm]
  cases m with
  | false => rfl
  | true => cases hfalse

theorem commandAt_cases :
    commandAt posix optind argv = argv.length ∨
      commandAt posix optind argv ∈ operandsAt posix optind argv := by
  unfold commandAt
  cases h : (operandsAt posix optind argv)[1]? with
  | none => exact .inl rfl
  | some i => exact .inr (List.mem_of_getElem? h)

theorem commandAt_le : commandAt posix optind argv ≤ argv.length := by
  have hcases : commandAt posix optind argv = argv.length ∨ _ := commandAt_cases
  rcases hcases with h | h
  · exact h.le
  · exact (List.mem_range.1 ((pick_sublist _ _).subset h)).le

theorem length_operandsAt
    (hok : (permute optionString posix (argv.drop (optind - 1))).ok = true) :
    (operandsAt posix optind argv).length =
      (permute optionString posix (argv.drop (optind - 1))).operands.length := by
  have hlen := (forall₂_pick (forall₂_range argv) ((stays posix optind argv).map not)).length_eq
  have hback : pick ((stays posix optind argv).map not) argv =
      (permute optionString posix (argv.drop (optind - 1))).operands := by
    rw [← (pick_fronts _ hok).2]
    nth_rewrite 2 [← List.take_append_drop (optind - 1) argv]
    rw [stays, List.map_append, List.map_map, pick_append, List.take_left' (List.length_map _),
      List.drop_left' (List.length_map _)]
    exact congrArg (· ++ _) (pick_false _)
  rw [operandsAt, ← hlen, hback]

/-- What belongs to the option `M` was read by `getopt`. -/
theorem stays_of_monitor (hok : (permute optionString posix (argv.drop (optind - 1))).ok = true) :
    List.Forall₂ (fun e i => e.monitor = true → (stays posix optind argv)[i]? = some true)
      (secondPass v posix optind argv) (positions posix optind argv) := by
  have hrest : (permute optionString posix (argv.drop (optind - 1))).operands <:+
      (permute optionString posix (argv.drop (optind - 1))).rest := by
    rw [Parsed.rest]
    split_ifs
    exacts [List.suffix_cons _ _, List.suffix_rfl]
  obtain ⟨front, hfront⟩ := ((hrest.map fun a => (⟨a, false⟩ : Elem)).trans
    (List.suffix_append _ _)).trans (List.suffix_append _ _)
  have hlen := (typedAt_secondPass (v := v) hok).length_eq
  have hops := length_operandsAt hok
  rw [operandsAt] at hops
  rw [secondPass, vector, ← hfront, positions, arrange] at hlen ⊢
  rw [List.length_append, List.length_append, List.length_map, hops] at hlen
  refine List.rel_append (List.forall₂_iff_get.2 ⟨Nat.add_right_cancel hlen, ?_⟩)
    (List.forall₂_iff_get.2 ⟨?_, ?_⟩)
  · intro k hk hk' _
    exact marked_of_mem_pick_range (List.get_mem _ _)
  · rw [List.length_map, hops]
  · intro k hk hk' hm
    simp at hm

/-- An operand has the text that was typed. -/
theorem text_of_operand (hok : (permute optionString posix (argv.drop (optind - 1))).ok = true) :
    List.Forall₂ (fun e i => (stays posix optind argv)[i]? = some false → argv[i]? = some e.text)
      (secondPass v posix optind argv) (positions posix optind argv) := by
  refine List.Forall₂.mp ?_ (typedAt_secondPass hok) (stays_of_monitor hok)
  rintro e i ⟨-, htext⟩ hmonitor hread
  refine htext (Bool.eq_false_iff.2 fun hm => ?_)
  rw [hmonitor hm] at hread
  cases hread

/-! ### The arguments with their places -/

section placed

variable {i : Item} {is js : List Item} {p : ℕ} {ps qs : List ℕ}

theorem placed_cons_of_none (hi : i.elem? = none) :
    placed (i :: is) ps = (i.text, none) :: placed is ps := by
  rw [placed, hi]
  rfl

theorem placed_cons_of_some {e : Elem} (hi : i.elem? = some e) :
    placed (i :: is) (p :: ps) = (i.text, some p) :: placed is ps := by
  rw [placed, hi]
  rfl

theorem placed_append (h : ps.length = (is.filterMap Item.elem?).length) :
    placed (is ++ js) (ps ++ qs) = placed is ps ++ placed js qs := by
  induction is generalizing ps with
  | nil =>
    obtain rfl := List.length_eq_zero_iff.1 h
    rfl
  | cons i is ih =>
    cases hi : i.elem? with
    | none =>
      rw [List.filterMap_cons_none hi] at h
      rw [List.cons_append, placed_cons_of_none hi, placed_cons_of_none hi, ih h,
        List.cons_append]
    | some e =>
      rw [List.filterMap_cons_some hi] at h
      cases ps with
      | nil => cases h
      | cons p ps =>
        rw [List.cons_append, List.cons_append, placed_cons_of_some hi, placed_cons_of_some hi,
          ih (Nat.succ.inj h), List.cons_append]

/-- An argument with a place is an element that was typed there. -/
theorem exists_of_mem_placed {R : Elem → ℕ → Prop} {s : CString}
    (hR : List.Forall₂ R (is.filterMap Item.elem?) ps) (h : (s, some p) ∈ placed is ps) :
    p ∈ ps ∧ ∃ e, Item.elem e s ∈ is ∧ R e p := by
  induction is generalizing ps with
  | nil => cases h
  | cons i is ih =>
    cases i with
    | elem e t =>
      have hR' : List.Forall₂ R (e :: is.filterMap Item.elem?) ps := hR
      cases hR' with
      | cons he hR' =>
        rw [placed_cons_of_some rfl] at h
        rcases List.mem_cons.1 h with heq | h
        · cases heq
          exact ⟨List.mem_cons_self, e, List.mem_cons_self, he⟩
        · obtain ⟨hp, e', he', hRe⟩ := ih hR' h
          exact ⟨List.mem_cons_of_mem _ hp, e', List.mem_cons_of_mem _ he', hRe⟩
    | _ =>
      rw [placed_cons_of_none rfl] at h
      rcases List.mem_cons.1 h with heq | h
      · cases heq
      · obtain ⟨hp, e', he', hRe⟩ := ih hR h
        exact ⟨hp, e', List.mem_cons_of_mem _ he', hRe⟩

end placed

/-- What becomes of elements that `strip_arg` leaves as they are. -/
theorem flatMap_copy_eq_map {es : List Elem} (h : ∀ e ∈ es, Solid e.text) :
    es.flatMap copy = es.map fun e => .elem e e.text := by
  induction es with
  | nil => rfl
  | cons e es ih =>
    obtain ⟨⟨hne, hstrip⟩, hes⟩ := List.forall_mem_cons.1 h
    have hcopy : copy e = [.elem e e.text] := by
      rw [copy, hstrip, addArg, if_neg]
      exact hne
    rw [List.flatMap_cons, hcopy, ih hes]
    rfl

theorem placed_map (es : List Elem) (c : ℕ) :
    placed (es.map fun e => .elem e e.text) (List.range' c es.length) =
      ((es.map Elem.text).zipIdx c).map fun w => (w.1, some w.2) := by
  induction es generalizing c with
  | nil => rfl
  | cons e es ih =>
    rw [List.map_cons, List.length_cons, List.range'_succ, placed_cons_of_some rfl, ih (c + 1)]
    rfl

/-! ### The result -/

variable {b : Built}

theorem stripArg_of_mem_newav (h : autosshMain v posix optind argv = .ok b) {e : Elem}
    {s : CString} (hmem : Item.elem e s ∈ b.newav) : s = stripArg optionString 'f' e.text := by
  obtain ⟨-, -, -, -, hnewav⟩ := autosshMain_ok h
  rw [hnewav] at hmem
  rcases List.mem_append.1 hmem with hmem | hmem
  · cases eq_of_mem_addArg hmem
  · rcases isPass_rewriteLoop _ hmem with ⟨t, ht⟩ | ⟨e', he'⟩
    · cases ht
    · cases he'
      rfl

/-- What is in `newav` was typed at the places of `passedFrom`. -/
theorem forall₂_newav {R : Elem → ℕ → Prop} (h : autosshMain v posix optind argv = .ok b)
    (hR : List.Forall₂ R (secondPass v posix optind argv) (positions posix optind argv)) :
    List.Forall₂ R (b.newav.filterMap Item.elem?) (passedFrom v posix optind argv) := by
  obtain ⟨-, port, hport, hm, hnewav⟩ := autosshMain_ok h
  have hpath : (addArg (.sshPath v.sshPath)).filterMap Item.elem? = [] :=
    filterMap_addArg_of_none rfl
  rw [hnewav, List.filterMap_append, hpath, List.nil_append,
    filterMap_elem?_eq_pick (pending_iff hport hm)]
  exact forall₂_pick hR _

/-- The places of the remote command are those of operands, so they come last. -/
theorem exists_positions_eq (h : ∀ i a, commandAt posix optind argv ≤ i → argv[i]? = some a →
    (stays posix optind argv)[i]? = some false) :
    ∃ front, positions posix optind argv =
      front ++ (List.range argv.length).drop (commandAt posix optind argv) := by
  have hle : commandAt posix optind argv ≤ argv.length := commandAt_le
  have hmarks : ∀ m ∈ ((stays posix optind argv).map not).drop (commandAt posix optind argv),
      m = true := by
    intro m hmem
    obtain ⟨k, hk⟩ := List.mem_iff_getElem?.1 hmem
    rw [List.getElem?_drop, List.getElem?_map, Option.map_eq_some_iff] at hk
    obtain ⟨x, hx, rfl⟩ := hk
    have hlt := (List.getElem?_eq_some_iff.1 hx).1
    rw [length_stays] at hlt
    rw [h _ _ (Nat.le_add_right _ k) (List.getElem?_eq_getElem hlt)] at hx
    cases hx
    rfl
  rw [positions, arrange]
  nth_rewrite 2 [← List.take_append_drop (commandAt posix optind argv) (List.range argv.length)]
  rw [pick_append, ← List.append_assoc, List.length_take, List.length_range, min_eq_left hle,
    pick_of_forall _ hmarks]
  · exact ⟨_, rfl⟩
  · rw [List.length_drop, List.length_drop, List.length_range, List.length_map, length_stays]

section

variable {front : List ℕ} (hfirst : OptionsFirst v posix optind argv)
  (hpos : positions posix optind argv =
    front ++ (List.range argv.length).drop (commandAt posix optind argv))

include hfirst hpos

/-- The elements that come last are the words of the remote command. -/
theorem map_text_drop (hok : (permute optionString posix (argv.drop (optind - 1))).ok = true) :
    ((secondPass v posix optind argv).drop front.length).map Elem.text =
      argv.drop (commandAt posix optind argv) := by
  have htext := List.forall₂_drop front.length (text_of_operand (v := v) hok)
  rw [hpos, List.drop_left] at htext
  have hback : List.Forall₂ (fun a i => argv[i]? = some a)
      (((secondPass v posix optind argv).drop front.length).map Elem.text)
      ((List.range argv.length).drop (commandAt posix optind argv)) := by
    rw [List.forall₂_map_left_iff]
    refine List.forall₂_iff_zip.2 ⟨htext.length_eq, fun hmem => List.forall₂_zip htext hmem ?_⟩
    obtain ⟨k, hk⟩ := List.mem_iff_getElem?.1 (List.of_mem_zip hmem).2
    rw [List.getElem?_drop, List.getElem?_eq_some_iff] at hk
    obtain ⟨hlt, rfl⟩ := hk
    rw [List.length_range] at hlt
    rw [List.getElem_range]
    exact (hfirst.command _ _ (Nat.le_add_right _ k) (List.getElem?_eq_getElem hlt)).1
  refine List.left_unique_forall₂' ?_ hback (List.forall₂_drop _ (forall₂_range argv))
  intro a i a' ha ha'
  exact Option.some.inj (ha.symm.trans ha')

/-- They are all passed on. -/
theorem copied_drop (hok : (permute optionString posix (argv.drop (optind - 1))).ok = true) :
    ∀ m ∈ (copied false v.monitors ((secondPass v posix optind argv).map Elem.text)).drop
      front.length, m = true := by
  intro m hmem
  have hlen := (text_of_operand (v := v) hok).length_eq
  obtain ⟨k, hk⟩ := List.mem_iff_getElem?.1 hmem
  rw [List.getElem?_drop] at hk
  have hlt := (List.getElem?_eq_some_iff.1 hk).1
  rw [length_copied, List.length_map, hlen] at hlt
  have hin : commandAt posix optind argv + k < argv.length := by
    rw [hpos, List.length_append, List.length_drop, List.length_range] at hlt
    omega
  have hplace : (positions posix optind argv)[front.length + k]? =
      some (commandAt posix optind argv + k) := by
    rw [hpos, List.getElem?_append_right (Nat.le_add_right _ k), Nat.add_sub_cancel_left,
      List.getElem?_drop, List.getElem?_range hin]
  obtain ⟨-, hfrom, -⟩ :=
    hfirst.command _ _ (Nat.le_add_right _ k) (List.getElem?_eq_getElem hin)
  obtain ⟨t, htrue, ht⟩ := exists_of_mem_pick hfrom
  have heq := (List.getElem?_inj hlt nodup_positions).1 (hplace.trans ht.symm)
  rw [← heq, hk] at htrue
  exact Option.some.inj htrue

/-- `strip_arg` leaves them as they are. -/
theorem solid_drop (hok : (permute optionString posix (argv.drop (optind - 1))).ok = true) :
    ∀ e ∈ (secondPass v posix optind argv).drop front.length, Solid e.text := by
  intro e he
  have hstrip : stripArg optionString 'f' e.text = e.text := by
    have hmem := List.mem_map_of_mem (f := Elem.text) he
    rw [map_text_drop hfirst hpos hok] at hmem
    obtain ⟨k, hk⟩ := List.mem_iff_getElem?.1 hmem
    rw [List.getElem?_drop] at hk
    exact (hfirst.command _ _ (Nat.le_add_right _ k) hk).2.2
  refine ⟨fun hnil => ?_, hstrip⟩
  obtain ⟨k, hk⟩ := List.mem_iff_getElem?.1 he
  rw [List.getElem?_drop] at hk
  have hlt := (List.getElem?_eq_some_iff.1 hk).1
  rw [← List.length_map Elem.text, ← length_copied false v.monitors] at hlt
  have htrue := copied_drop hfirst hpos hok _
    (List.mem_of_getElem? (List.getElem?_drop.trans (List.getElem?_eq_getElem hlt)))
  obtain ⟨a, ha, hne⟩ :=
    exists_of_copied ((List.getElem?_eq_getElem hlt).trans (congrArg some htrue))
  rw [List.getElem?_map, hk] at ha
  obtain rfl := Option.some.inj ha
  exact hne (hstrip.trans hnil)

end

/-- What is passed on of the remote command is what `newav` ends in. -/
theorem command_suffix (h : autosshMain v posix optind argv = .ok b)
    (hfirst : OptionsFirst v posix optind argv) :
    command posix optind argv <:+ placed b.newav (passedFrom v posix optind argv) := by
  obtain ⟨hok, port, hport, hm, hnewav⟩ := autosshMain_ok h
  obtain ⟨front, hpos⟩ := exists_positions_eq fun i a hi ha => (hfirst.command i a hi ha).1
  have hwords := map_text_drop hfirst hpos hok
  have hall := copied_drop hfirst hpos hok
  have hlen := congrArg List.length hwords
  rw [List.length_map] at hlen
  obtain ⟨is, his⟩ := exists_rewriteLoop_eq (pending_iff hport hm) hall
  -- so much for the arguments; the places are split alike
  have hnew : b.newav = (addArg (.sshPath v.sshPath) ++ is) ++
      ((secondPass v posix optind argv).drop front.length).map fun e => .elem e e.text := by
    rw [hnewav, ← flatMap_copy_eq_map (solid_drop hfirst hpos hok), List.append_assoc, ← his]
    rfl
  have hplaces : passedFrom v posix optind argv =
      pick ((copied false v.monitors ((secondPass v posix optind argv).map Elem.text)).take
        front.length) front ++ (List.range argv.length).drop (commandAt posix optind argv) := by
    rw [passedFrom, hpos, pick_append, pick_of_forall _ hall]
    rw [List.length_drop, List.length_range, ← List.length_drop, ← hlen, List.length_drop,
      List.length_drop, length_copied, List.length_map]
  have hrange : (List.range argv.length).drop (commandAt posix optind argv) =
      List.range' (commandAt posix optind argv)
        ((secondPass v posix optind argv).drop front.length).length := by
    rw [hlen, List.range_eq_range', List.drop_range', List.length_drop, Nat.zero_add, Nat.mul_one]
  have hcount := (forall₂_newav h (typedAt_secondPass hok)).length_eq
  rw [hnew, hplaces, List.filterMap_append, List.length_append, List.length_append,
    List.filterMap_map, hrange, List.length_range'] at hcount
  rw [hnew, hplaces, placed_append, hrange, placed_map, hwords]
  · exact ⟨_, rfl⟩
  · have hsome : (((secondPass v posix optind argv).drop front.length).filterMap
        (Item.elem? ∘ fun e => .elem e e.text)).length =
          ((secondPass v posix optind argv).drop front.length).length :=
      congrArg List.length List.filterMap_some
    omega

/-- **The order of the arguments.**  The elements that are passed on to ssh come from the command
line.  They are in the order in which they were typed, with the remote command as it was typed,
exactly if no option was typed behind an operand and the remote command has none. -/
theorem in_order_iff (h : autosshMain v posix optind argv = .ok b) :
    List.Forall₂ (TypedAt argv) (b.newav.filterMap Item.elem?) (passedFrom v posix optind argv) ∧
      (AsTyped v posix optind argv b ↔ OptionsFirst v posix optind argv) := by
  have hok := (autosshMain_ok h).1
  have horder := pairwise_pick_arrange_iff
    (copied false v.monitors ((secondPass v posix optind argv).map Elem.text))
    (stays posix optind argv) argv.length
  refine ⟨forall₂_newav h (typedAt_secondPass hok), fun has => ?_,
    fun hfirst => ⟨horder.2 hfirst.options, command_suffix h hfirst⟩⟩
  have hoptions := horder.1 has.inOrder
  -- a word of the command is an argument, with its place
  have hword : ∀ i a, commandAt posix optind argv ≤ i → argv[i]? = some a →
      i ∈ passedFrom v posix optind argv ∧ ∃ e, Item.elem e a ∈ b.newav ∧
        ((stays posix optind argv)[i]? = some false → argv[i]? = some e.text) := by
    intro i a hi ha
    refine exists_of_mem_placed (forall₂_newav h (text_of_operand hok))
      (has.command.subset (List.mem_map.2 ⟨(a, i), ?_, rfl⟩))
    obtain ⟨k, rfl⟩ := Nat.exists_eq_add_of_le hi
    refine List.mem_of_getElem? (i := k) ?_
    rw [List.getElem?_zipIdx, List.getElem?_drop, ha]
    rfl
  refine ⟨hoptions, fun i a hi ha => ?_⟩
  obtain ⟨hfrom, e, he, htext⟩ := hword i a hi ha
  have hlt : i < argv.length := (List.getElem?_eq_some_iff.1 ha).1
  have hread : (stays posix optind argv)[i]? = some false := by
    have hc := (commandAt_cases.resolve_left (hi.trans_lt hlt).ne :
      commandAt posix optind argv ∈ operandsAt posix optind argv)
    have hclt := hi.trans_lt hlt
    obtain ⟨hcfrom, -⟩ := hword _ _ le_rfl (List.getElem?_eq_getElem hclt)
    rcases hi.eq_or_lt with rfl | hci
    · exact unmarked_of_mem_operandsAt hc
    · -- an option behind the first word of the command would be out of order
      rw [← length_stays posix optind] at hlt
      rw [List.getElem?_eq_getElem hlt, Option.some_inj, ← Bool.not_eq_true]
      intro htrue
      have := hoptions _ hcfrom i hfrom hci (by rw [List.getElem?_eq_getElem hlt, htrue])
      rw [unmarked_of_mem_operandsAt hc] at this
      cases this
  refine ⟨hread, hfrom, ?_⟩
  obtain rfl : a = e.text := Option.some.inj (ha.symm.trans (htext hread))
  exact (stripArg_of_mem_newav h he).symm

/-- No variable is set. -/
def Env.none : Env := ⟨.none, .none, .none⟩

theorem in_order_options_first :
    ∃ b, autosshMain .none false 1 (["-M", "0", "-N", "host", "uname"].map String.toList) = .ok b ∧
      AsTyped .none false 1 (["-M", "0", "-N", "host", "uname"].map String.toList) b := by
  obtain ⟨b, hb, -⟩ := exists_ok (f := Built.daemon)
    (show (autosshMain .none false 1
        (["-M", "0", "-N", "host", "uname"].map String.toList)).toOption.map Built.daemon =
      some false by decide +kernel)
  refine ⟨b, hb, (in_order_iff hb).2.2 ⟨by decide +kernel, ?_⟩⟩
  have hword : ∀ i < 5, 4 ≤ i → i = 4 := by omega
  intro i a hi ha
  obtain rfl := hword i (List.getElem?_eq_some_iff.1 ha).1 hi
  cases ha
  decide +kernel

/-- An option of the remote command goes to ssh, or is lost on the way. -/
theorem remote_option_moves :
    (∃ b, autosshMain .none false 1
          (["-M", "0", "host", "uname", "-a"].map String.toList) = .ok b ∧
        b.newav.map Item.text = ["/usr/bin/ssh", "-a", "host", "uname"].map String.toList ∧
        ¬AsTyped .none false 1 (["-M", "0", "host", "uname", "-a"].map String.toList) b) ∧
      ∃ b, autosshMain .none false 1
          (["-M", "0", "host", "tail", "-f", "log"].map String.toList) = .ok b ∧
        b.newav.map Item.text = ["/usr/bin/ssh", "host", "tail", "log"].map String.toList ∧
        ¬AsTyped .none false 1 (["-M", "0", "host", "tail", "-f", "log"].map String.toList) b := by
  constructor
  · obtain ⟨hmain, horder⟩ : (autosshMain .none false 1
          (["-M", "0", "host", "uname", "-a"].map String.toList)).toOption.map
            (fun b => b.newav.map Item.text) =
          some (["/usr/bin/ssh", "-a", "host", "uname"].map String.toList) ∧
        ¬(passedFrom .none false 1
          (["-M", "0", "host", "uname", "-a"].map String.toList)).Pairwise (· < ·) := by
      decide +kernel
    obtain ⟨b, hb, hnewav⟩ := exists_ok (f := fun b : Built => b.newav.map Item.text) hmain
    exact ⟨b, hb, hnewav, fun h => horder h.inOrder⟩
  · -- the `-f` is not among the arguments
    obtain ⟨hmain, hmem, hfrom⟩ : (autosshMain .none false 1
          (["-M", "0", "host", "tail", "-f", "log"].map String.toList)).toOption.map
            (fun b => b.newav.map Item.text) =
          some (["/usr/bin/ssh", "host", "tail", "log"].map String.toList) ∧
        (['-', 'f'], some 4) ∈ command false 1
          (["-M", "0", "host", "tail", "-f", "log"].map String.toList) ∧
        4 ∉ passedFrom .none false 1
          (["-M", "0", "host", "tail", "-f", "log"].map String.toList) := by
      decide +kernel
    obtain ⟨b, hb, hnewav⟩ := exists_ok (f := fun b : Built => b.newav.map Item.text) hmain
    refine ⟨b, hb, hnewav, fun h => hfrom ?_⟩
    exact (exists_of_mem_placed (forall₂_newav hb (typedAt_secondPass (autosshMain_ok hb).1))
      (h.command.subset hmem)).1

end Args

end Autossh
