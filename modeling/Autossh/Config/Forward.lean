import Autossh.Args.Monitor
import Autossh.Config.Command

/-!
# The forward of a session

`build_child_argv` joins the four parts of a forward with colons into the value of `-L`.  The hosts
are put in as they are, and may contain colons themselves.

* `pieces` : the parts of a text between its colons;
* `Unambiguous` : no piece of `bind_host` after its first one, and no piece of `target_host` that
  more text follows, is the decimal text of a port;
* `forward_denotes_iff` : a configuration is the only one with its `-L` value, up to what is not
  part of the forward, exactly if it is `Unambiguous`.
-/

namespace Autossh

namespace Config

open Args

/-! ### Texts and their pieces -/

/-- The parts of a text between its colons. -/
def pieces (s : CString) : List CString := s.splitOn ':'

theorem pieces_ne_nil (s : CString) : pieces s ≠ [] := List.splitOn_ne_nil _ _

theorem pieces_append (s t : CString) : pieces (s ++ ':' :: t) = pieces s ++ pieces t :=
  List.splitOn_append_cons_self s t

theorem pieces_of_notMem {s : CString} (h : ':' ∉ s) : pieces s = [s] :=
  List.splitOn_eq_singleton h

theorem join_pieces (s : CString) : [':'].intercalate (pieces s) = s := List.intercalate_splitOn ':'

theorem pieces_injective : Function.Injective pieces := by
  intro s t h
  rw [← join_pieces s, h, join_pieces]

theorem colon_notMem_of_mem_pieces {s p : CString} (h : p ∈ pieces s) : ':' ∉ p := by
  induction s generalizing p with
  | nil =>
    obtain rfl : p = [] := by simpa [pieces] using h
    exact List.not_mem_nil
  | cons c s ih =>
    rw [pieces, List.splitOn_cons_eq_if_modifyHead] at h
    by_cases hc : c = ':'
    · rw [if_pos (beq_iff_eq.2 hc)] at h
      rcases List.mem_cons.1 h with rfl | h
      · exact List.not_mem_nil
      · exact ih h
    · rw [if_neg (by simpa using hc)] at h
      obtain ⟨q, qs, hq⟩ := List.exists_cons_of_ne_nil (pieces_ne_nil s)
      have hq' : s.splitOn ':' = q :: qs := hq
      rw [hq', List.modifyHead_cons] at h
      rcases List.mem_cons.1 h with rfl | h
      · rw [List.mem_cons, not_or]
        exact ⟨Ne.symm hc, ih (hq ▸ List.mem_cons_self)⟩
      · exact ih (hq ▸ List.mem_cons_of_mem q h)

/-- A list of texts without colons is the list of pieces of a text. -/
theorem exists_pieces {ps : List CString} (hne : ps ≠ []) (h : ∀ p ∈ ps, ':' ∉ p) :
    ∃ s, pieces s = ps :=
  ⟨_, List.splitOn_intercalate ':' h hne⟩

/-! ### UTF-8 -/

section

variable {a : Char} {s : CString}

theorem isUtf8_colon : isUtf8 (':' :: s) = isUtf8 s := isUtf8_of_lt (by decide)

theorem continuation_colon : continuation ':' = false := rfl

theorem second₃_colon : second₃ a ':' = false := by
  have hcode : ':'.toNat = 58 := rfl
  simp [second₃, continuation, hcode]

theorem second₄_colon : second₄ a ':' = false := by
  have hcode : ':'.toNat = 58 := rfl
  simp [second₄, continuation, hcode]

/-- A colon ends the text before it. -/
theorem isUtf8_append_colon (s t : CString) :
    isUtf8 (s ++ ':' :: t) = (isUtf8 s && isUtf8 t) := by
  fun_induction isUtf8 s with
  | case1 => rw [List.nil_append, isUtf8_colon, Bool.true_and]
  | case2 a s ha ih => rw [List.cons_append, isUtf8_of_lt ha, ih]
  | case3 a ha =>
    -- one byte of several
    rw [Bool.false_and, List.singleton_append]
    by_cases h₂ : 0xC2 ≤ a.toNat ∧ a.toNat ≤ 0xDF
    · rw [isUtf8_two ha h₂, continuation_colon, Bool.false_and]
    · rcases t with _ | ⟨x, _ | ⟨y, t⟩⟩
      · rw [isUtf8.eq_def]
        exact (if_neg ha).trans (if_neg h₂)
      · rw [isUtf8.eq_def]
        exact (if_neg ha).trans ((if_neg h₂).trans (if_neg (by simp [second₃_colon])))
      · rw [isUtf8_four ha h₂ (by simp [second₃_colon]), second₄_colon]
        rfl
  | case4 a ha b s h₂ ih =>
    rw [List.cons_append, List.cons_append, isUtf8_two ha h₂, ih, Bool.and_assoc]
  | case5 a ha b h₂ =>
    -- two bytes of three or four
    rw [Bool.false_and, List.cons_append, List.singleton_append]
    by_cases h₃ : second₃ a b = true
    · rw [isUtf8_three ha h₂ h₃, continuation_colon, Bool.false_and]
    · cases t with
      | nil =>
        rw [isUtf8.eq_def]
        exact (if_neg ha).trans ((if_neg h₂).trans (if_neg h₃))
      | cons x t => simp [isUtf8_four ha h₂ h₃, continuation_colon]
  | case6 a ha b h₂ c s h₃ ih =>
    rw [List.cons_append, List.cons_append, List.cons_append, isUtf8_three ha h₂ h₃, ih,
      Bool.and_assoc]
  | case7 a ha b h₂ c h₃ =>
    -- three bytes of four
    rw [Bool.false_and, List.cons_append, List.cons_append, List.singleton_append,
      isUtf8_four ha h₂ h₃, continuation_colon, Bool.and_false, Bool.false_and]
  | case8 a ha b h₂ c h₃ d s ih =>
    rw [List.cons_append, List.cons_append, List.cons_append, List.cons_append,
      isUtf8_four ha h₂ h₃, ih]
    simp only [Bool.and_assoc]

end

theorem isUtf8_of_isDigit {s : CString} (h : ∀ c ∈ s, c.isDigit = true) : isUtf8 s = true := by
  induction s with
  | nil => rfl
  | cons c s ih =>
    have hc := CString.toNat_of_isDigit (h c List.mem_cons_self)
    rw [isUtf8_of_lt (by omega)]
    exact ih fun d hd => h d (List.mem_cons_of_mem c hd)

/-- A text is UTF-8 exactly if its pieces are. -/
theorem isUtf8_iff_pieces {s : CString} {ps : List CString} (h : pieces s = ps) :
    isUtf8 s = true ↔ ∀ p ∈ ps, isUtf8 p = true := by
  have hs : s = [':'].intercalate ps := by rw [← h, join_pieces]
  rw [hs]
  clear hs h
  induction ps with
  | nil => simp [isUtf8]
  | cons p ps ih =>
    cases ps with
    | nil => simp
    | cons q ps =>
      rw [List.intercalate_cons_cons, List.append_assoc, List.singleton_append,
        isUtf8_append_colon, Bool.and_eq_true]
      exact (and_congr_right fun _ => ih).trans (List.forall_mem_cons (p := (isUtf8 · = true))).symm

/-! ### Ports among the pieces -/

/-- The text is a port as `build_child_argv` writes it. -/
def isPortText (s : CString) : Bool :=
  (portNumber s).any fun n : ℕ => n < 2 ^ 16 ∧ CString.decimal n = s

theorem isPortText_decimal (p : UInt16) : isPortText (CString.decimal p.toNat) = true := by
  have hlt := p.toNat_lt
  rw [isPortText, portNumber_decimal, Option.any_some, decide_eq_true_eq]
  exact ⟨hlt, rfl⟩

theorem exists_of_isPortText {s : CString} (h : isPortText s = true) :
    ∃ p : UInt16, CString.decimal p.toNat = s := by
  obtain ⟨n, -, hn⟩ := (Option.any_eq_true _ _).1 h
  obtain ⟨hlt, rfl⟩ := of_decide_eq_true hn
  exact ⟨UInt16.ofNat n, by rw [UInt16.toNat_ofNat_of_lt' hlt]⟩

theorem decimal_toNat_injective {p q : UInt16}
    (h : CString.decimal p.toNat = CString.decimal q.toNat) : p = q := by
  have hp := congrArg portNumber h
  rw [portNumber_decimal, portNumber_decimal] at hp
  exact UInt16.toNat_inj.1 (Option.some.inj hp)

/-- The pieces that a colon and more text follow. -/
def followed : List CString → List CString
  | [] => []
  | p :: ps => if ps = [] ∨ ps = [[]] then [] else p :: followed ps

theorem mem_followed {p : CString} {ps : List CString} :
    p ∈ followed ps ↔ ∃ qs rs, ps = qs ++ p :: rs ∧ rs ≠ [] ∧ rs ≠ [[]] := by
  induction ps with
  | nil => simp [followed]
  | cons q ps ih =>
    rw [followed]
    constructor
    · intro h
      split_ifs at h with hend
      · cases h
      · rw [not_or] at hend
        rcases List.mem_cons.1 h with rfl | h
        · exact ⟨[], ps, rfl, hend⟩
        · obtain ⟨qs, rs, rfl, hrs⟩ := ih.1 h
          exact ⟨q :: qs, rs, rfl, hrs⟩
    · rintro ⟨qs, rs, heq, hrs⟩
      cases qs with
      | nil =>
        obtain ⟨rfl, rfl⟩ := List.cons.inj heq
        rw [if_neg (not_or.2 hrs)]
        exact List.mem_cons_self
      | cons q' qs =>
        rw [List.cons_append] at heq
        obtain ⟨rfl, rfl⟩ := List.cons.inj heq
        have hlong : ¬(qs ++ p :: rs = [] ∨ qs ++ p :: rs = [[]]) := by
          have hlen := List.length_pos_iff.2 hrs.1
          rintro (h | h)
          · simp at h
          · have := congrArg List.length h
            simp at this
            omega
        rw [if_neg hlong]
        exact List.mem_cons_of_mem _ (ih.2 ⟨qs, rs, rfl, hrs⟩)

/-! ### The forward -/

/-- What the value of `-L` stands for. -/
structure Denoted where
  bindHost : CString
  localPort : UInt16
  targetHost : CString
  targetPort : UInt16
  deriving DecidableEq, Repr

/-- The forward of the session. -/
def denoted (c : SessionConfig) : Denoted :=
  ⟨c.bindHost, c.localPort, c.targetHost.1, c.targetPort⟩

/-- The value of `-L` in the vector `build_child_argv` gives. -/
def forwardArg (argv : List CString) : Option CString := argv[6]?

/-- No piece of the hosts can be taken for the local port. -/
def Unambiguous (c : SessionConfig) : Prop :=
  (∀ p ∈ (pieces c.bindHost).tail, isPortText p = false) ∧
    ∀ p ∈ followed (pieces c.targetHost.1), isPortText p = false

instance (c : SessionConfig) : Decidable (Unambiguous c) := by unfold Unambiguous; infer_instance

variable {c c' : SessionConfig} {argv : List CString}

theorem buildChildArgv_eq_ok (h : buildChildArgv c = .ok argv) :
    isUtf8 c.bindHost = true ∧ isUtf8 c.targetHost.1 = true ∧
      isUtf8 c.sshDestination.1 = true ∧ forwardArg argv = some (forward c) := by
  have hutf8 : ∀ {t u : CString}, stringFromCString t = .ok u → isUtf8 t = true := by
    intro t u ht
    unfold stringFromCString at ht
    split_ifs at ht with hu
    exact hu
  obtain ⟨b, hb, h⟩ := bind_eq_ok.1 h
  obtain ⟨t, ht, h⟩ := bind_eq_ok.1 h
  obtain ⟨d, hd, h⟩ := bind_eq_ok.1 h
  cases h
  exact ⟨hutf8 hb, hutf8 ht, hutf8 hd, rfl⟩

theorem pieces_forward (c : SessionConfig) :
    pieces (forward c) = pieces c.bindHost ++ CString.decimal c.localPort.toNat ::
      pieces c.targetHost.1 ++ [CString.decimal c.targetPort.toNat] := by
  rw [forward, pieces_append, List.append_assoc, List.cons_append, pieces_append, pieces_append,
    pieces_of_notMem (colon_notMem_decimal _), pieces_of_notMem (colon_notMem_decimal _)]
  simp only [List.append_assoc, List.cons_append, List.nil_append]

/-- Two forwards with one text: the target ports are the same, and the rest is a split of one list
of pieces. -/
theorem forward_eq_iff : forward c' = forward c ↔ c'.targetPort = c.targetPort ∧
    pieces c'.bindHost ++ CString.decimal c'.localPort.toNat :: pieces c'.targetHost.1 =
      pieces c.bindHost ++ CString.decimal c.localPort.toNat :: pieces c.targetHost.1 := by
  rw [← pieces_injective.eq_iff, pieces_forward, pieces_forward, List.append_singleton_inj,
    and_comm]
  refine and_congr_left fun _ => ⟨decimal_toNat_injective, fun h => by rw [h]⟩

theorem denoted_eq_of_split (hport : c'.targetPort = c.targetPort)
    (hbind : pieces c'.bindHost = pieces c.bindHost)
    (hrest : CString.decimal c'.localPort.toNat :: pieces c'.targetHost.1 =
      CString.decimal c.localPort.toNat :: pieces c.targetHost.1) : denoted c' = denoted c := by
  obtain ⟨hlocal, htarget⟩ := List.cons.inj hrest
  rw [denoted, denoted, pieces_injective hbind, decimal_toNat_injective hlocal,
    pieces_injective htarget, hport]

theorem pieces_target_ne (c : SessionConfig) : pieces c.targetHost.1 ≠ [[]] := by
  intro h
  exact c.targetHost.2 (pieces_injective h)

/-- Without a port among the pieces of the hosts there is one split. -/
theorem denoted_eq_of_unambiguous (hc : Unambiguous c) (h : forward c' = forward c) :
    denoted c' = denoted c := by
  obtain ⟨hport, hsplit⟩ := forward_eq_iff.1 h
  rcases List.append_eq_append_iff.1 hsplit with ⟨X, hbind, hrest⟩ | ⟨X, hbind, hrest⟩
  · cases X with
    | nil => exact denoted_eq_of_split hport (by simpa using hbind.symm) hrest
    | cons p X =>
      -- the local port of `c'` is a piece of the other's `bind_host`
      obtain ⟨rfl, -⟩ := List.cons.inj hrest
      have hmem : CString.decimal c'.localPort.toNat ∈ (pieces c.bindHost).tail := by
        rw [hbind, List.tail_append_of_ne_nil (pieces_ne_nil _)]
        simp
      exact absurd (isPortText_decimal c'.localPort) (by simp [hc.1 _ hmem])
  · cases X with
    | nil => exact denoted_eq_of_split hport (by simpa using hbind) hrest.symm
    | cons p X =>
      -- the local port of `c'` is a piece of the other's `target_host`
      rw [List.cons_append] at hrest
      obtain ⟨-, htarget⟩ := List.cons.inj hrest
      have hmem : CString.decimal c'.localPort.toNat ∈ followed (pieces c.targetHost.1) :=
        mem_followed.2 ⟨X, _, htarget, pieces_ne_nil _, pieces_target_ne c'⟩
      exact absurd (isPortText_decimal c'.localPort) (by simp [hc.2 _ hmem])

/-- Another split of the pieces is another configuration with the same text. -/
theorem exists_forward_eq (p : UInt16) (bs ts : List CString)
    (hbind : isUtf8 c.bindHost = true) (htarget : isUtf8 c.targetHost.1 = true) (hbs : bs ≠ [])
    (hts : ts ≠ []) (hts' : ts ≠ [[]]) (hsplit : bs ++ CString.decimal p.toNat :: ts =
      pieces c.bindHost ++ CString.decimal c.localPort.toNat :: pieces c.targetHost.1) :
    ∃ c', isUtf8 c'.bindHost = true ∧ isUtf8 c'.targetHost.1 = true ∧
      c'.sshDestination = c.sshDestination ∧ forward c' = forward c ∧ pieces c'.bindHost = bs := by
  have hall : ∀ q ∈ bs ++ CString.decimal p.toNat :: ts, ':' ∉ q ∧ isUtf8 q = true := by
    intro q hq
    rw [hsplit, List.mem_append, List.mem_cons] at hq
    rcases hq with hq | rfl | hq
    · exact ⟨colon_notMem_of_mem_pieces hq, (isUtf8_iff_pieces rfl).1 hbind q hq⟩
    · refine ⟨colon_notMem_decimal _, isUtf8_of_isDigit fun d hd => ?_⟩
      rw [CString.decimal_natCast] at hd
      exact CString.isDigit_of_mem_toDigits hd
    · exact ⟨colon_notMem_of_mem_pieces hq, (isUtf8_iff_pieces rfl).1 htarget q hq⟩
  have hmem_bs : ∀ q ∈ bs, ':' ∉ q ∧ isUtf8 q = true := fun q hq =>
    hall q (List.mem_append_left _ hq)
  have hmem_ts : ∀ q ∈ ts, ':' ∉ q ∧ isUtf8 q = true := fun q hq =>
    hall q (List.mem_append_right _ (List.mem_cons_of_mem _ hq))
  obtain ⟨b, hb⟩ := exists_pieces hbs fun q hq => (hmem_bs q hq).1
  obtain ⟨t, ht⟩ := exists_pieces hts fun q hq => (hmem_ts q hq).1
  have hne : t ≠ [] := by
    rintro rfl
    exact hts' ht.symm
  refine ⟨{ c with bindHost := b, localPort := p, targetHost := ⟨t, hne⟩ }, ?_, ?_, rfl, ?_, hb⟩
  · exact (isUtf8_iff_pieces hb).2 fun q hq => (hmem_bs q hq).2
  · exact (isUtf8_iff_pieces ht).2 fun q hq => (hmem_ts q hq).2
  · exact forward_eq_iff.2 ⟨rfl, by rw [hb, ht, hsplit]⟩

/-- A port among the pieces of the hosts makes another split. -/
theorem exists_collision (hbind : isUtf8 c.bindHost = true) (htarget : isUtf8 c.targetHost.1 = true)
    (hc : ¬Unambiguous c) :
    ∃ c', isUtf8 c'.bindHost = true ∧ isUtf8 c'.targetHost.1 = true ∧
      c'.sshDestination = c.sshDestination ∧ forward c' = forward c ∧
      pieces c'.bindHost ≠ pieces c.bindHost := by
  rw [Unambiguous, not_and_or] at hc
  rcases hc with hc | hc
  · push Not at hc
    obtain ⟨q, hq, hport⟩ := hc
    obtain ⟨p, rfl⟩ := exists_of_isPortText (eq_true_of_ne_false hport)
    obtain ⟨first, qs, hqs⟩ := List.exists_cons_of_ne_nil (pieces_ne_nil c.bindHost)
    rw [hqs, List.tail_cons] at hq
    obtain ⟨xs, ys, rfl⟩ := List.append_of_mem hq
    obtain ⟨c', hb, ht, hd, hf, hp⟩ := exists_forward_eq p (first :: xs)
      (ys ++ CString.decimal c.localPort.toNat :: pieces c.targetHost.1) hbind htarget
      (by simp) (by simp) (by simp [List.append_eq_singleton_iff, pieces_ne_nil]) (by simp [hqs])
    refine ⟨c', hb, ht, hd, hf, ?_⟩
    rw [hp, hqs]
    intro heq
    have hlen := congrArg List.length heq
    simp at hlen
  · push Not at hc
    obtain ⟨q, hq, hport⟩ := hc
    obtain ⟨p, rfl⟩ := exists_of_isPortText (eq_true_of_ne_false hport)
    obtain ⟨qs, rs, hqs, hrs, hrs'⟩ := mem_followed.1 hq
    obtain ⟨c', hb, ht, hd, hf, hp⟩ := exists_forward_eq p
      (pieces c.bindHost ++ CString.decimal c.localPort.toNat :: qs) rs hbind htarget
      (by simp) hrs hrs' (by simp [hqs])
    refine ⟨c', hb, ht, hd, hf, ?_⟩
    rw [hp]
    intro heq
    have hlen := congrArg List.length heq
    simp at hlen

/-- **The value of `-L` tells the forward of a session exactly if no piece of its hosts can be taken
for the local port.** -/
theorem forward_denotes_iff (c : SessionConfig) (argv : List CString)
    (hbuild : buildChildArgv c = .ok argv) :
    (∀ raw c' argv', parseConfig (some raw) = .ok c' → buildChildArgv c' = .ok argv' →
      forwardArg argv' = forwardArg argv → denoted c' = denoted c) ↔ Unambiguous c := by
  obtain ⟨hbind, htarget, hdest, hfwd⟩ := buildChildArgv_eq_ok hbuild
  constructor
  · intro h
    by_contra hc
    obtain ⟨c', hb, ht, hd, hf, hne⟩ := exists_collision hbind htarget hc
    obtain ⟨raw, hraw⟩ := exists_parseConfig c'
    have hbuild' := buildChildArgv_eq hb ht (hd ▸ hdest)
    obtain ⟨-, -, -, hfwd'⟩ := buildChildArgv_eq_ok hbuild'
    have hsame := h raw c' _ hraw hbuild' (by rw [hfwd', hf, hfwd])
    exact hne (congrArg (fun x => pieces x.bindHost) hsame)
  · intro hc raw c' argv' _ hbuild' heq
    obtain ⟨-, -, -, hfwd'⟩ := buildChildArgv_eq_ok hbuild'
    rw [hfwd', hfwd] at heq
    exact denoted_eq_of_unambiguous hc (Option.some.inj heq)

/-- Host names and IPv4 addresses have no colons. -/
theorem bastion_denotes :
    ∃ argv, buildChildArgv (sample ⟨"bastion".toList, by decide⟩) = .ok argv ∧
      ∀ raw c' argv', parseConfig (some raw) = .ok c' → buildChildArgv c' = .ok argv' →
        forwardArg argv' = forwardArg argv →
          denoted c' = denoted (sample ⟨"bastion".toList, by decide⟩) := by
  have hbuild := buildChildArgv_eq (c := sample ⟨"bastion".toList, by decide⟩)
    (isUtf8_sample _).1 (isUtf8_sample _).2 (by decide +kernel)
  exact ⟨_, hbuild, (forward_denotes_iff _ _ hbuild).2 (by decide +kernel)⟩

/-- Port 2 of `::1`, for `5:6::7`. -/
def colonsA : SessionConfig :=
  { sample ⟨"gateway".toList, by decide⟩ with
    bindHost := "::1".toList, localPort := 2, targetHost := ⟨"5:6::7".toList, by decide⟩ }

/-- Port 5 of `::1:2`, for `6::7`. -/
def colonsB : SessionConfig :=
  { sample ⟨"gateway".toList, by decide⟩ with
    bindHost := "::1:2".toList, localPort := 5, targetHost := ⟨"6::7".toList, by decide⟩ }

/-- Two forwards between IPv6 addresses with one `-L` value. -/
theorem colons_collide :
    ∃ raw raw' argv argv', parseConfig (some raw) = .ok colonsA ∧
      parseConfig (some raw') = .ok colonsB ∧ buildChildArgv colonsA = .ok argv ∧
      buildChildArgv colonsB = .ok argv' ∧
      forwardArg argv = some "::1:2:5:6::7:5432".toList ∧ forwardArg argv' = forwardArg argv ∧
      denoted colonsB ≠ denoted colonsA := by
  obtain ⟨raw, hraw⟩ := exists_parseConfig colonsA
  obtain ⟨raw', hraw'⟩ := exists_parseConfig colonsB
  have hbuild := buildChildArgv_eq (c := colonsA) (by decide +kernel) (by decide +kernel)
    (by decide +kernel)
  have hbuild' := buildChildArgv_eq (c := colonsB) (by decide +kernel) (by decide +kernel)
    (by decide +kernel)
  refine ⟨raw, raw', _, _, hraw, hraw', hbuild, hbuild', ?_, ?_, ?_⟩
  · decide +kernel
  · decide +kernel
  · decide +kernel

end Config

end Autossh
