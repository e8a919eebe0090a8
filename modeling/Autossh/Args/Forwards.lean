import Autossh.Args.Recognise

/-!
# Monitor forwards and the option `M` in ssh's arguments

`newav` should hold the monitor forwards once, and nothing of the option `M`.

* `clean_cutPort` : the colon that is overwritten in the vector makes no difference to what the
  second pass recognises;
* `inserted_first`, `inserted_or_copied` : the second pass inserts the forwards once; without
  `AUTOSSH_PORT` it may instead see no `-M` at all, and then copies every `M`;
* `copied_iff` : when it copies nothing that belongs to the option `M`;
* `forwards_once_iff` : the forwards are inserted once and nothing of `M` is left exactly when the
  vector is `clean` and, with a port other than 0 from `AUTOSSH_PORT`, does not start with an `M`.
-/

namespace Autossh

namespace Args

open Getopt

/-! ### The vector after the colon is cut -/

section cut

variable {g : Group} {gs : List Group} {σ : Sight}

theorem valid_cutValue (h : g.Valid optionString) : (cutValue g).Valid optionString := by
  refine ⟨h.flags, fun o ho => ?_, fun hfs hnone => ?_⟩
  · obtain ⟨o', ho', rfl⟩ := Option.map_eq_some_iff.1 ho
    exact h.opt o' ho'
  · exact h.nonempty hfs (Option.map_eq_none_iff.1 hnone)

theorem valid_cutPort (h : ∀ g ∈ gs, g.Valid optionString) :
    ∀ g ∈ cutPort gs, g.Valid optionString := by
  induction gs with
  | nil => exact h
  | cons g gs ih =>
    obtain ⟨hg, hgs⟩ := List.forall_mem_cons.1 h
    rw [cutPort]
    split_ifs
    · exact List.forall_mem_cons.2 ⟨hg, ih hgs⟩
    · exact List.forall_mem_cons.2 ⟨valid_cutValue hg, hgs⟩
    · exact h

theorem any_isMonitor_cutPort (gs : List Group) :
    (cutPort gs).any isMonitor = gs.any isMonitor := by
  induction gs with
  | nil => rfl
  | cons g gs ih =>
    rw [cutPort]
    split_ifs <;> simp [ih, isMonitor_cutValue]

theorem dropped_cases {a : CString} (h : dropped a = true) :
    a = [] ∨ ∃ c cs, a = '-' :: c :: cs ∧ (c = 'f' ∧ cs = [] ∨ c = 'M' ∨ c = '-') := by
  rcases of_decide_eq_true h with rfl | rfl | h | h
  · exact .inl rfl
  · exact .inr ⟨'f', [], rfl, .inl ⟨rfl, rfl⟩⟩
  · unfold dashM at h
    split at h
    · exact .inr ⟨'M', _, rfl, .inr (.inl rfl)⟩
    · cases h
  · unfold dashDash at h
    split at h
    · exact .inr ⟨'-', _, rfl, .inr (.inr rfl)⟩
    · cases h

/-- A port is not one of the texts that are left out. -/
theorem dropped_of_writePort {w : CString} {n : ℤ} (h : writePort w = .ok n) :
    dropped w = false := by
  unfold writePort at h
  split_ifs at h with hbad
  obtain ⟨hne, hend⟩ := not_or.1 hbad
  refine Bool.eq_false_iff.2 fun hd => ?_
  obtain ⟨c, cs, rfl, hc⟩ := (dropped_cases hd).resolve_left hne
  refine hend ?_
  have hdigit : 10 ≤ CString.digit c := by
    rcases hc with ⟨rfl, -⟩ | rfl | rfl <;> decide
  rw [CString.strtoul_minus cs hdigit]
  exact List.cons_ne_nil _ _

theorem dropped_beforeColon {a : CString} (h : dropped a = true) :
    dropped (beforeColon a) = true := by
  rcases dropped_cases h with rfl | ⟨c, cs, rfl, ⟨rfl, rfl⟩ | rfl | rfl⟩
  · rfl
  · decide
  · simp [beforeColon, dropped, dashM]
  · simp [beforeColon, dropped, dashDash]

/-- The value of an `M` that gives the port is left out only with its element, before and after
the cut. -/
theorem recognised_cutValue {p : CString} {n : ℤ} (hg : monitorValue g = some p)
    (hp : writePort (beforeColon p) = .ok n) (σ : Sight) :
    recognised σ (cutValue g) = recognised σ g := by
  have hcut := dropped_of_writePort hp
  have hval : dropped p = false := by
    refine Bool.eq_false_iff.2 fun hd => ?_
    exact nomatch hcut.symm.trans (dropped_beforeColon hd)
  obtain ⟨o, ho, hM⟩ := Option.bind_eq_some_iff.1 hg
  split_ifs at hM
  cases hM
  cases hs : o.separate <;>
    simp [recognised, cutValue, Group.separateValue, ho, hs, hcut, hval]

theorem clean_of_none (h : gs.any isMonitor = false) (σ : Sight) : clean σ gs = true := by
  induction gs generalizing σ with
  | nil => rfl
  | cons g gs ih =>
    simp only [List.any_cons, Bool.or_eq_false_iff] at h
    simp [clean, h.1, ih h.2]

theorem getLast?_monitorValue_cons (g : Group) (h : gs.any isMonitor = true) :
    ((g :: gs).filterMap monitorValue).getLast? = (gs.filterMap monitorValue).getLast? := by
  have hne : gs.filterMap monitorValue ≠ [] := by
    obtain ⟨g', hg', hm⟩ := List.any_eq_true.1 h
    obtain ⟨p, hp⟩ := Option.isSome_iff_exists.1 hm
    exact List.ne_nil_of_mem (List.mem_filterMap.2 ⟨g', hg', hp⟩)
  obtain ⟨p, ps, hps⟩ := List.exists_cons_of_ne_nil hne
  rw [List.filterMap_cons, hps]
  cases monitorValue g with
  | none => rfl
  | some q => exact List.getLast?_cons_cons

/-- The port comes from a group with `M` behind which there is none. -/
theorem monitorValue_of_last {p : CString} (hm : isMonitor g = true)
    (hnone : gs.any isMonitor = false)
    (hlast : ((g :: gs).filterMap monitorValue).getLast? = some p) : monitorValue g = some p := by
  obtain ⟨q, hq⟩ := Option.isSome_iff_exists.1 hm
  have hnil : gs.filterMap monitorValue = [] := by
    refine List.filterMap_eq_nil_iff.2 fun g' hg' => ?_
    have := List.any_eq_false.1 hnone g' hg'
    simpa [isMonitor] using this
  rw [List.filterMap_cons, hq, hnil] at hlast
  exact hq.trans hlast

/-- The cut makes no difference to what the second pass recognises. -/
theorem clean_cutPort (σ : Sight) {p : CString} {n : ℤ}
    (hlast : (gs.filterMap monitorValue).getLast? = some p)
    (hp : writePort (beforeColon p) = .ok n) : clean σ (cutPort gs) = clean σ gs := by
  induction gs generalizing σ with
  | nil => rfl
  | cons g gs ih =>
    rw [cutPort]
    split_ifs with hany hm
    · rw [getLast?_monitorValue_cons g hany] at hlast
      rw [clean, clean, ih _ hlast]
    · -- the last `M`: nothing after it counts
      have hnone : gs.any isMonitor = false := by simpa using hany
      rw [clean, clean, clean_of_none hnone, clean_of_none hnone, isMonitor_cutValue,
        recognised_cutValue (monitorValue_of_last hm hnone hlast) hp]
    · rfl

end cut

/-! ### The forwards are inserted once -/

/-- The monitor forwards that ssh should get. -/
def monitorForwards (m : Monitor) : List Item :=
  if m.wp = 0 then []
  else [.forward "-L".toList, .forward m.wmbuf] ++
    if m.echo then [] else [.forward "-R".toList, .forward m.rmbuf]

/-- The forwards among the items are exactly `fs`, in one piece. -/
def Inserted (fs items : List Item) : Prop :=
  ∃ before after, items = before ++ fs ++ after ∧ ∀ i ∈ before ++ after, i.forward? = none

namespace Inserted

variable {fs is js : List Item}

theorem nil_iff : Inserted [] is ↔ ∀ i ∈ is, i.forward? = none := by
  constructor
  · rintro ⟨before, after, rfl, h⟩
    simpa using h
  · intro h
    exact ⟨is, [], by simp, by simpa using h⟩

theorem of_append (h : ∀ i ∈ js, i.forward? = none) : Inserted fs (fs ++ js) :=
  ⟨[], js, rfl, h⟩

theorem append (his : ∀ i ∈ is, i.forward? = none) (h : Inserted fs js) :
    Inserted fs (is ++ js) := by
  obtain ⟨before, after, rfl, hnone⟩ := h
  refine ⟨is ++ before, after, by simp, ?_⟩
  rw [List.append_assoc]
  exact List.forall_mem_append.2 ⟨his, hnone⟩

end Inserted

theorem ne_nil_of_snprintf {a b : ℤ} {host t : CString}
    (h : snprintf (forwardText a host b) = .ok t) : t ≠ [] := by
  unfold snprintf at h
  split_ifs at h
  cases h
  simp [forwardText, List.take_eq_nil_iff]

theorem forwards_eq {m : Monitor} (hw : m.wp ≠ 0) (hL : m.wmbuf ≠ [])
    (hR : m.echo = false → m.rmbuf ≠ []) : forwards m = monitorForwards m := by
  cases he : m.echo with
  | true => simp [forwards, monitorForwards, addArg, Item.text, hw, hL, he]
  | false => simp [forwards, monitorForwards, addArg, Item.text, hw, hL, hR he, he]

/-- The port of the settings is the one in the text, and with a port the forwards are not empty. -/
theorem monitorOf_ok {mhost p : CString} {m : Monitor} (h : monitorOf mhost p = .ok m) :
    writePort (beforeColon p) = .ok m.wp ∧ (m.wp ≠ 0 → forwards m = monitorForwards m) := by
  obtain ⟨ep, hspec⟩ := monitorOf_spec h
  refine ⟨hspec.writePort, fun hw => forwards_eq hw (ne_nil_of_snprintf (hspec.wmbuf hw)) ?_⟩
  intro hecho
  have hnone : ep = none := by simpa [hspec.echo] using hecho
  exact ne_nil_of_snprintf (hspec.rmbuf hw hnone)

section pass

variable {port : Bool} {m : Monitor} {stop done : Bool} {e : Elem} {es : List Elem}

theorem forward?_copy (e : Elem) : ∀ i ∈ copy e, i.forward? = none := by
  intro i hi
  rw [eq_of_mem_addArg hi]
  rfl

/-- After the forwards, or with monitoring off, nothing is inserted. -/
theorem forward?_rewriteLoop (h : m.wp ≠ 0 → done = true) :
    ∀ i ∈ rewriteLoop port m stop done es, i.forward? = none := by
  fun_induction rewriteLoop port m stop done es with
  | case1 => exact List.forall_mem_nil _
  | case2 stop done e es hd ih => exact ih h
  | case3 stop done e es hd henv ih =>
    have := h henv.1
    simp [henv.2.2] at this
  | case4 stop done e es hd henv hm ih₂ ih₁ =>
    have hdone : m.wp ≠ 0 → (done || decide (m.wp ≠ 0)) = true := by
      intro hw
      simp [hw]
    have hno : ¬ (m.wp ≠ 0 ∧ done = false) := by
      rintro ⟨hw, hf⟩
      simp [h hw] at hf
    rw [if_neg hno, List.nil_append]
    split_ifs
    · cases es with
      | nil => exact List.forall_mem_nil _
      | cons x es => exact ih₂ hdone
    · exact ih₁ hdone
  | case5 stop done e es hd henv hm ih =>
    exact List.forall_mem_append.2 ⟨forward?_copy e, ih h⟩

/-- With `AUTOSSH_PORT` the forwards come before the first element that is not the `--`. -/
theorem inserted_first (hf : forwards m = monitorForwards m) (hw : m.wp ≠ 0)
    (he : stop = false → dashDash e.text = false) :
    Inserted (monitorForwards m) (rewriteLoop true m stop false (e :: es)) := by
  have hdd : ¬ (dashDash e.text = true ∧ stop = false) := by
    rintro ⟨hd, hs⟩
    exact nomatch hd.symm.trans (he hs)
  unfold rewriteLoop
  rw [if_neg hdd, if_pos ⟨hw, rfl, rfl⟩, hf, List.append_assoc]
  exact .of_append (List.forall_mem_append.2 ⟨forward?_copy e, forward?_rewriteLoop fun _ => rfl⟩)

/-- With `-M` the forwards come once, or the second pass has not seen a `-M` at all, and has
copied every element except a `--` and what `strip_arg` empties. -/
theorem inserted_or_copied (hf : forwards m = monitorForwards m) (hw : m.wp ≠ 0)
    (hp : port = false) (hd : done = false) :
    Inserted (monitorForwards m) (rewriteLoop port m stop done es) ∨
      ∀ e ∈ es, dashDash e.text = true ∨ stripArg optionString 'f' e.text = [] ∨
        e ∈ (rewriteLoop port m stop done es).filterMap Item.elem? := by
  -- the cases follow the branches of the loop; `case4` is the first `-M` it sees
  fun_induction rewriteLoop port m stop done es with
  | case1 => exact .inr (List.forall_mem_nil _)
  | case2 stop done e es hdd ih =>
    exact (ih hd).imp_right fun h => List.forall_mem_cons.2 ⟨.inl hdd.1, h⟩
  | case3 stop done e es hdd henv ih => exact absurd (hp.symm.trans henv.2.1) Bool.false_ne_true
  | case4 stop done e es hdd henv hm ih₂ ih₁ =>
    left
    rw [if_pos ⟨hw, hd⟩, hf]
    have hdone : m.wp ≠ 0 → (done || decide (m.wp ≠ 0)) = true := by
      intro hw
      simp [hw]
    refine .of_append ?_
    split_ifs
    · cases es with
      | nil => exact List.forall_mem_nil _
      | cons x es => exact forward?_rewriteLoop hdone
    · exact forward?_rewriteLoop hdone
  | case5 stop done e es hdd henv hm ih =>
    rw [List.filterMap_append, filterMap_elem?_copy]
    refine (ih hd).imp (.append (forward?_copy e)) fun h => List.forall_mem_cons.2 ⟨?_, ?_⟩
    · by_cases hs : stripArg optionString 'f' e.text = []
      · exact .inr (.inl hs)
      · simp [hs]
    · intro x hx
      refine (h x hx).imp_right (Or.imp_right fun hmem => ?_)
      exact List.mem_append_right _ hmem

/-- The element the forwards of `AUTOSSH_PORT` are inserted before is copied without a look at
what it is. -/
theorem filterMap_elem?_first (hw : m.wp ≠ 0) (hd : dashDash e.text = false) :
    (rewriteLoop true m false false (e :: es)).filterMap Item.elem? =
      (if stripArg optionString 'f' e.text ≠ [] then [e] else []) ++ kept .start es := by
  unfold rewriteLoop
  rw [if_neg (by simp [hd]), if_pos ⟨hw, rfl, rfl⟩, List.filterMap_append, List.filterMap_append,
    filterMap_elem?_forwards, filterMap_elem?_copy,
    filterMap_elem?_rewriteLoop false true es fun _ _ => rfl]
  rfl

theorem mem_of_mem_copy {x : Elem} (h : x ∈ (copy e).filterMap Item.elem?) : x = e := by
  rw [filterMap_elem?_copy] at h
  split_ifs at h
  · exact List.mem_singleton.1 h
  · cases h

theorem mem_of_mem_rewriteLoop {x : Elem}
    (h : x ∈ (rewriteLoop port m stop done es).filterMap Item.elem?) : x ∈ es := by
  fun_induction rewriteLoop port m stop done es with
  | case1 => cases h
  | case2 stop done e es hd ih => exact List.mem_cons_of_mem e (ih h)
  | case3 stop done e es hd henv ih =>
    simp only [List.filterMap_append, filterMap_elem?_forwards, List.nil_append] at h
    rcases List.mem_append.1 h with h | h
    · exact mem_of_mem_copy h ▸ List.mem_cons_self
    · exact List.mem_cons_of_mem e (ih h)
  | case4 stop done e es hd henv hm ih₂ ih₁ =>
    refine List.mem_cons_of_mem e ?_
    rw [List.filterMap_append] at h
    rcases List.mem_append.1 h with h | h
    · split_ifs at h
      · rw [filterMap_elem?_forwards] at h
        cases h
      · cases h
    · split_ifs at h
      · cases es with
        | nil => cases h
        | cons y es => exact List.mem_cons_of_mem y (ih₂ h)
      · exact ih₁ h
  | case5 stop done e es hd henv hm ih =>
    rw [List.filterMap_append] at h
    rcases List.mem_append.1 h with h | h
    · exact mem_of_mem_copy h ▸ List.mem_cons_self
    · exact List.mem_cons_of_mem e (ih h)

end pass

/-! ### The result -/

section result

variable {v : Env} {argv : List CString} {b : Built}

/-- `AUTOSSH_PORT` gives a port other than 0. -/
def Env.monitors (v : Env) : Bool :=
  v.port.any fun p => (writePort (beforeColon p)).toOption.any (· ≠ 0)

/-- What has gone before when `newav` is built. -/
theorem build_ok (h : build v argv = .ok b) : ∃ rest p,
    (getopt optionString argv).rest = some rest ∧ operands rest ≠ [] ∧
      writep v (getopt optionString argv).groups = some p ∧
      monitorOf v.mhost p = .ok b.monitor ∧
      b.newav = addArg (.sshPath v.sshPath) ++ rewriteLoop v.port.isSome b.monitor false false
        (vector v (getopt optionString argv).groups rest) := by
  unfold build at h
  dsimp only at h
  split_ifs at h
  split at h
  · cases h
  · rename_i rest hrest
    split at h
    · cases h
    · rename_i p hp
      split_ifs at h with hops
      cases hm : monitorOf v.mhost p with
      | error x => rw [hm] at h; cases h
      | ok m =>
        rw [hm] at h
        cases h
        exact ⟨rest, p, hrest, hops, hp, hm, rfl⟩

variable {m : Monitor} {p : CString} {gs : List Group} {rest : List CString}

/-- What `writep` and the settings say about `AUTOSSH_PORT`. -/
theorem monitors_eq (hp : writep v gs = some p) (hm : writePort (beforeColon p) = .ok m.wp) :
    v.monitors = (v.port.isSome && m.wp ≠ 0) := by
  cases hv : v.port with
  | none => simp [Env.monitors, hv]
  | some q =>
    obtain rfl : q = p := by simpa [writep, hv] using hp
    simp [Env.monitors, hv, hm, Except.toOption]

theorem valid_vector (hgs : ∀ g ∈ gs, g.Valid optionString) :
    ∀ g ∈ (if v.port.isSome then gs else cutPort gs), g.Valid optionString := by
  split_ifs
  exacts [hgs, valid_cutPort hgs]

theorem clean_vector (hp : writep v gs = some p) {n : ℤ} (hn : writePort (beforeColon p) = .ok n) :
    clean .start (if v.port.isSome then gs else cutPort gs) = clean .start gs := by
  split_ifs with hv
  · rfl
  · have hnone : v.port = none := by simpa using hv
    rw [writep, hnone, Option.none_or] at hp
    exact clean_cutPort .start hp hn

theorem monitor_rest (rest : List CString) :
    ∀ e ∈ rest.map fun a => (⟨a, false⟩ : Elem), e.monitor = false := by
  intro e he
  obtain ⟨a, -, rfl⟩ := List.mem_map.1 he
  rfl

/-- The second pass copies nothing that belongs to the option `M` exactly under the condition of
the result. -/
theorem copied_iff (hgs : ∀ g ∈ gs, g.Valid optionString) (hp : writep v gs = some p)
    (hm : writePort (beforeColon p) = .ok m.wp) :
    (∀ e ∈ (rewriteLoop v.port.isSome m false false (vector v gs rest)).filterMap Item.elem?,
        e.monitor = false) ↔
      (v.monitors = true → ∀ g ∈ gs.head?, isMonitor g = false) ∧ clean .start gs = true := by
  have hstart : Sight.start.stop = true → Sight.start.skip = false := fun _ => rfl
  have hkept := forall_kept_iff hstart (valid_vector (v := v) hgs) (monitor_rest rest)
  rw [clean_vector hp hm] at hkept
  have hmon := monitors_eq hp hm
  cases hfirst : v.monitors with
  | false =>
    rw [hfirst] at hmon
    have hdone : m.wp ≠ 0 → v.port.isSome = true → false = true := by
      intro hw hv
      simp [hw, hv] at hmon
    rw [filterMap_elem?_rewriteLoop false false _ hdone]
    exact hkept.trans (by simp)
  | true =>
    rw [hfirst] at hmon
    obtain ⟨hv, hw⟩ : v.port.isSome = true ∧ m.wp ≠ 0 := by simpa using hmon.symm
    cases gs with
    | nil =>
      refine iff_of_true (fun e he => ?_) ⟨nofun, rfl⟩
      have := mem_of_mem_rewriteLoop he
      simp only [vector, hv, if_true, List.flatMap_nil, List.nil_append] at this
      exact monitor_rest rest e this
    | cons g gs =>
      have hg := hgs g List.mem_cons_self
      simp only [vector, hv, if_true, List.flatMap_cons, groupElems_eq, List.cons_append] at hkept ⊢
      rw [filterMap_elem?_first hw (dashDash_elem hg)]
      cases hM : isMonitor g with
      | true =>
        -- the first element is copied although `M` was found in it
        rw [if_pos (stripArg_elem_ne_nil hM)]
        refine iff_of_false (fun hall => ?_) fun hcond => ?_
        · exact nomatch hall _ List.mem_cons_self
        · exact nomatch hM.symm.trans (hcond.1 trivial g rfl)
      | false =>
        have hplain : dashDash g.elem = false ∧ dashM g.elem = false :=
          ⟨dashDash_elem hg, by rw [dashM_elem hg, hM, Bool.false_and]⟩
        rw [hM, kept, Sight.start, Sight.keeps_plain fun _ => hplain,
          Sight.next_plain fun _ => hplain] at hkept
        simpa [hM, Sight.start] using hkept

/-- With `AUTOSSH_PORT`: there is an element to insert the forwards before. -/
theorem inserted_env (hgs : ∀ g ∈ gs, g.Valid optionString)
    (hrest : ∀ a ∈ rest.head?, a = ['-', '-'] ∨ ∀ c cs, a ≠ '-' :: c :: cs)
    (hops : operands rest ≠ []) (hf : forwards m = monitorForwards m) (hw : m.wp ≠ 0)
    (hv : v.port.isSome = true) :
    Inserted (monitorForwards m) (rewriteLoop true m false false (vector v gs rest)) := by
  rw [vector, if_pos hv]
  cases gs with
  | cons g gs =>
    rw [List.flatMap_cons, groupElems_eq]
    exact inserted_first hf hw fun _ => dashDash_elem (hgs g List.mem_cons_self)
  | nil =>
    cases rest with
    | nil => exact absurd rfl hops
    | cons a rest =>
      rcases hrest a rfl with rfl | hne
      · -- after the `--` there is an operand
        cases rest with
        | nil => exact absurd rfl hops
        | cons x rest =>
          change Inserted _ (rewriteLoop true m true false (⟨x, false⟩ :: rest.map _))
          exact inserted_first hf hw nofun
      · refine inserted_first hf hw fun _ => ?_
        unfold dashDash
        split
        · rename_i heq
          exact absurd heq (hne _ _)
        · rfl

/-- With `-M`: a group with the option `M` is recognised, or copied. -/
theorem inserted_flag (hgs : ∀ g ∈ gs, g.Valid optionString) (hp : writep v gs = some p)
    (hf : forwards m = monitorForwards m) (hw : m.wp ≠ 0) (hv : v.port = none)
    (hcopied : ∀ e ∈ (rewriteLoop false m false false (vector v gs rest)).filterMap Item.elem?,
      e.monitor = false) :
    Inserted (monitorForwards m) (rewriteLoop false m false false (vector v gs rest)) := by
  refine (inserted_or_copied hf hw rfl rfl).resolve_right fun hall => ?_
  have hany : (cutPort gs).any isMonitor = true := by
    rw [writep, hv, Option.none_or] at hp
    obtain ⟨g, hg, hpg⟩ := List.mem_filterMap.1 (List.mem_of_getLast? hp)
    rw [any_isMonitor_cutPort]
    exact List.any_eq_true.2 ⟨g, hg, Option.isSome_of_eq_some hpg⟩
  -- the port comes from some `M`, and its element would have been copied
  obtain ⟨g, hg, hM⟩ := List.any_eq_true.1 hany
  have hmem : (⟨g.elem, true⟩ : Elem) ∈ vector v gs rest := by
    rw [vector, hv]
    refine List.mem_append_left _ (List.mem_flatMap.2 ⟨g, hg, ?_⟩)
    rw [groupElems_eq, hM]
    exact List.mem_cons_self
  rcases hall _ hmem with hd | hs | hc
  · exact nomatch hd.symm.trans (dashDash_elem (valid_cutPort hgs g hg))
  · exact stripArg_elem_ne_nil hM hs
  · exact nomatch hcopied _ hc

/-- **What ssh is given of the monitoring options.**  The monitor forwards are in `newav` exactly
once (not at all when monitoring is off) and nothing that belongs to the option `M` is, exactly
when the vector does not start with an `M` while `AUTOSSH_PORT` gives a port, and the second pass
recognises every `M` that `getopt` has found. -/
theorem forwards_once_iff (h : build v argv = .ok b) :
    (Inserted (monitorForwards b.monitor) b.newav ∧
        ∀ e ∈ b.newav.filterMap Item.elem?, e.monitor = false) ↔
      (v.monitors = true → ∀ g ∈ (getopt optionString argv).groups.head?, isMonitor g = false) ∧
        clean .start (getopt optionString argv).groups = true := by
  obtain ⟨rest, p, hrest, hops, hp, hm, hnew⟩ := build_ok h
  obtain ⟨-, hgs, hhead⟩ := getopt_spec argv hrest
  obtain ⟨hwp, hf⟩ := monitorOf_ok hm
  have hpath : ∀ i ∈ addArg (.sshPath v.sshPath), i.forward? = none ∧ i.elem? = none := by
    intro i hi
    rw [eq_of_mem_addArg hi]
    exact ⟨rfl, rfl⟩
  rw [hnew, List.filterMap_append, List.filterMap_eq_nil_iff.2 fun i hi => (hpath i hi).2,
    List.nil_append, ← copied_iff hgs hp hwp]
  -- what is copied decides: if nothing of `M` is, the forwards are there
  refine and_iff_right_of_imp fun hcopied => .append (fun i hi => (hpath i hi).1) ?_
  by_cases hw : b.monitor.wp = 0
  · rw [monitorForwards, if_pos hw, Inserted.nil_iff]
    exact forward?_rewriteLoop fun hne => absurd hw hne
  · cases hv : v.port with
    | none =>
      rw [hv] at hcopied
      exact inserted_flag hgs hp (hf hw) hw hv hcopied
    | some q => exact inserted_env hgs hhead hops (hf hw) hw (by rw [hv]; rfl)

/-- What `autossh -M 20000 -N host` builds, with none of the variables set. -/
def fromFlag : Built where
  monitor := ⟨20000, false, "20000:127.0.0.1:20000".toList, "20000:127.0.0.1:20001".toList⟩
  daemon := false
  newav := [.sshPath "/usr/bin/ssh".toList, .forward "-L".toList,
    .forward "20000:127.0.0.1:20000".toList, .forward "-R".toList,
    .forward "20000:127.0.0.1:20001".toList, .elem ⟨"-N".toList, false⟩ "-N".toList,
    .elem ⟨"host".toList, false⟩ "host".toList]

theorem fromFlag_forwards_once :
    build ⟨none, none, none⟩ (["-M", "20000", "-N", "host"].map String.toList) = .ok fromFlag ∧
      Inserted (monitorForwards fromFlag.monitor) fromFlag.newav ∧
      ∀ e ∈ fromFlag.newav.filterMap Item.elem?, e.monitor = false := by
  have h : build ⟨none, none, none⟩ (["-M", "20000", "-N", "host"].map String.toList) =
      .ok fromFlag := by decide +kernel
  exact ⟨h, (forwards_once_iff h).2 ⟨nofun, by decide +kernel⟩⟩

/-- What `AUTOSSH_PORT=20000 autossh -M 0 host` builds. -/
def fromEnv : Built where
  monitor := ⟨20000, false, "20000:127.0.0.1:20000".toList, "20000:127.0.0.1:20001".toList⟩
  daemon := false
  newav := [.sshPath "/usr/bin/ssh".toList, .forward "-L".toList,
    .forward "20000:127.0.0.1:20000".toList, .forward "-R".toList,
    .forward "20000:127.0.0.1:20001".toList, .elem ⟨"-M".toList, true⟩ "-M".toList,
    .elem ⟨"0".toList, true⟩ "0".toList, .elem ⟨"host".toList, false⟩ "host".toList]

/-- What `autossh -NM20000 host` builds. -/
def fromCluster : Built where
  monitor := ⟨20000, false, "20000:127.0.0.1:20000".toList, "20000:127.0.0.1:20001".toList⟩
  daemon := false
  newav := [.sshPath "/usr/bin/ssh".toList, .elem ⟨"-NM20000".toList, true⟩ "-NM20000".toList,
    .elem ⟨"host".toList, false⟩ "host".toList]

/-- ssh is given an `M`, in two ways.  The element before which the forwards of `AUTOSSH_PORT` are
inserted is copied unseen, and the value after it is then an element like any other.  And an `M`
behind another option is not seen at all: ssh is not even given the forwards. -/
theorem monitor_option_copied :
    (build ⟨some "20000".toList, none, none⟩ (["-M", "0", "host"].map String.toList) =
        .ok fromEnv ∧
      ¬ ∀ e ∈ fromEnv.newav.filterMap Item.elem?, e.monitor = false) ∧
    build ⟨none, none, none⟩ (["-NM20000", "host"].map String.toList) = .ok fromCluster ∧
      ¬ Inserted (monitorForwards fromCluster.monitor) fromCluster.newav ∧
      ¬ ∀ e ∈ fromCluster.newav.filterMap Item.elem?, e.monitor = false := by
  refine ⟨by decide +kernel, by decide +kernel, ?_, by decide +kernel⟩
  rintro ⟨before, after, h, -⟩
  have hL : Item.forward "-L".toList ∈ fromCluster.newav := by
    rw [h]
    exact List.mem_append_left _ (List.mem_append_right _ List.mem_cons_self)
  revert hL
  decide +kernel

end result

end Args

end Autossh
