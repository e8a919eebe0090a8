import Autossh.Args.Basic
import Autossh.Posix.Decimal

/-!
# The texts of the monitor ports

`autossh_main` reads the monitor port from a text, prints it into the texts of the two forwards, and
ssh reads it there.

* `monitorOf_decimal` : a port in decimal is read as itself;
* `parseForward` : how ssh reads a forward; `parseForward_of_fits`, `parseForward_snprintf` : it is
  the forward that is meant, unless the host has a colon or the text is cut.
-/

namespace Autossh

namespace Args

/-! ### Texts with colons -/

theorem ne_colon {s : CString} (h : ':' ∉ s) : ∀ c ∈ s, decide (c ≠ ':') = true := by
  intro c hc
  rw [decide_eq_true_iff]
  rintro rfl
  exact h hc

theorem beforeColon_append {s : CString} (h : ':' ∉ s) (t : CString) :
    beforeColon (s ++ ':' :: t) = s := by
  rw [beforeColon, List.takeWhile_append_of_pos (ne_colon h)]
  exact List.append_nil s

theorem afterColon_append {s : CString} (h : ':' ∉ s) (t : CString) :
    afterColon (s ++ ':' :: t) = some t := by
  rw [afterColon, List.dropWhile_append_of_pos (ne_colon h)]
  rfl

theorem beforeColon_of_notMem {s : CString} (h : ':' ∉ s) : beforeColon s = s := by
  have hs : (s ++ []).takeWhile (· ≠ ':') = s ++ [].takeWhile (· ≠ ':') :=
    List.takeWhile_append_of_pos (ne_colon h)
  rwa [List.append_nil, List.takeWhile_nil, List.append_nil] at hs

theorem afterColon_of_notMem {s : CString} (h : ':' ∉ s) : afterColon s = none := by
  have hs : (s ++ []).dropWhile (· ≠ ':') = [].dropWhile (· ≠ ':') :=
    List.dropWhile_append_of_pos (ne_colon h)
  rw [List.append_nil, List.dropWhile_nil] at hs
  rw [afterColon, hs]

theorem colon_notMem_decimal (n : ℕ) : ':' ∉ CString.decimal n := by
  intro h
  rw [CString.decimal_natCast] at h
  exact absurd (CString.isDigit_of_mem_toDigits h) (by decide)

/-- A port in decimal is read as itself, without an echo port. -/
theorem monitorOf_decimal {mhost : CString} {n : ℕ} (hn : n < 2 ^ 16) {m : Monitor}
    (h : monitorOf mhost (CString.decimal n) = .ok m) : m.wp = n ∧ m.echo = false := by
  obtain ⟨ep, hspec⟩ := monitorOf_spec h
  have hread := CString.strtoul_decimal (show (0 : ℤ) ≤ n by omega)
  have hmin : min (2 ^ 64 - 1) (n : ℤ).toNat = n := by omega
  have hport : writePort (CString.decimal n) = .ok (n : ℤ) := by
    rw [writePort, hread, hmin, if_neg (by simp [CString.decimal_ne_nil])]
    exact congrArg Except.ok (i32Wrap_of_bounds (by omega) (by omega))
  have hwp := hspec.writePort
  have hep := hspec.echoPort
  rw [beforeColon_of_notMem (colon_notMem_decimal n), hport] at hwp
  rw [afterColon_of_notMem (colon_notMem_decimal n)] at hep
  refine ⟨(Except.ok.inj hwp).symm, ?_⟩
  rw [hspec.echo, ← Except.ok.inj hep]
  rfl

/-- The text is a port number. -/
def portNumber (s : CString) : Option ℕ :=
  if s ≠ [] ∧ s.all Char.isDigit then some (CString.digits 10 s) else none

theorem portNumber_toDigits (n : ℕ) : portNumber (Nat.toDigits 10 n) = some n := by
  have hdigits : (Nat.toDigits 10 n).all Char.isDigit = true :=
    List.all_eq_true.2 fun _ => CString.isDigit_of_mem_toDigits
  rw [portNumber, if_pos ⟨Nat.toDigits_ne_nil, hdigits⟩, CString.digits_toDigits]

theorem portNumber_decimal (n : ℕ) : portNumber (CString.decimal n) = some n := by
  rw [CString.decimal_natCast, portNumber_toDigits]

theorem portNumber_of_colon {s : CString} (h : ':' ∈ s) : portNumber s = none := by
  refine if_neg ?_
  rintro ⟨-, hs⟩
  exact absurd (List.all_eq_true.1 hs ':' h) (by decide)

/-- Without its last digit a number is another one, or none. -/
theorem portNumber_dropLast (n : ℕ) :
    portNumber (CString.decimal n).dropLast ≠ some n := by
  rw [CString.decimal_natCast]
  by_cases hlt : n < 10
  · rw [Nat.toDigits_of_lt_base hlt]
    simp [portNumber]
  · rw [Nat.toDigits_of_base_le (by decide) (by omega), List.dropLast_concat, portNumber_toDigits]
    intro h
    have := Option.some.inj h
    omega

/-! ### The texts of the forwards -/

/-- A forward: a connection to `port` goes on to `hostPort` of the host. -/
structure Forward where
  port : ℕ
  host : CString
  hostPort : ℕ
  deriving DecidableEq, Repr

/-- How ssh reads `port:host:hostport`. -/
def parseForward (s : CString) : Option Forward := do
  let port ← portNumber (beforeColon s)
  let t ← afterColon s
  let q ← afterColon t
  let hostPort ← portNumber q
  if beforeColon t = [] then none else return ⟨port, beforeColon t, hostPort⟩

theorem parseForward_eq (a : ℕ) (host q : CString) :
    parseForward (CString.decimal a ++ ':' :: (host ++ ':' :: q)) =
      if ':' ∈ host ∨ host = [] then none
      else (portNumber q).map fun n => ⟨a, host, n⟩ := by
  unfold parseForward
  rw [beforeColon_append (colon_notMem_decimal a), afterColon_append (colon_notMem_decimal a),
    portNumber_decimal]
  by_cases hcolon : ':' ∈ host
  · -- the second field ends in the middle of the host, and a colon stands in what follows
    obtain ⟨h₁, h₂, rfl, hh₁⟩ := List.eq_append_cons_of_mem hcolon
    have hrest : portNumber (h₂ ++ ':' :: q) = none := portNumber_of_colon (by simp)
    rw [if_pos (.inl hcolon), List.append_assoc, List.cons_append]
    simp [afterColon_append hh₁, hrest]
  · simp only [Option.bind_eq_bind, Option.bind_some, afterColon_append hcolon,
      beforeColon_append hcolon, hcolon, false_or]
    cases portNumber q with
    | none => simp
    | some n => rfl

/-- A text of 256 bytes loses the last digit of its second port. -/
theorem snprintf_forwardText {a b : ℕ} {host t : CString}
    (h : snprintf (forwardText a host b) = .ok t) :
    ((forwardText a host b).length ≤ 255 ∧
        t = CString.decimal a ++ ':' :: (host ++ ':' :: CString.decimal b)) ∨
      (255 < (forwardText a host b).length ∧
        t = CString.decimal a ++ ':' :: (host ++ ':' :: (CString.decimal b).dropLast)) := by
  have htext : forwardText a host b =
      CString.decimal a ++ ':' :: (host ++ ':' :: CString.decimal b) := by
    simp [forwardText]
  unfold snprintf at h
  split_ifs at h with hlong
  cases h
  by_cases hfits : (forwardText a host b).length ≤ 255
  · exact .inl ⟨hfits, by rw [List.take_of_length_le hfits, htext]⟩
  · refine .inr ⟨by omega, ?_⟩
    have hlen : 255 = (forwardText a host b).length - 1 := by omega
    rw [hlen, ← List.dropLast_eq_take, htext]
    rw [List.dropLast_append_of_ne_nil (List.cons_ne_nil _ _),
      List.dropLast_cons_of_ne_nil (by simp), List.dropLast_append_of_ne_nil (List.cons_ne_nil _ _),
      List.dropLast_cons_of_ne_nil (CString.decimal_ne_nil _)]

/-- What ssh reads is the forward that is meant, unless the host has a colon or the text is cut. -/
theorem parseForward_snprintf {a b : ℕ} {host t : CString}
    (h : snprintf (forwardText a host b) = .ok t) {f : Forward} (hf : parseForward t = some f) :
    f.port = a ∧ f.host = host ∧ ':' ∉ host ∧
      (f.hostPort = b → (forwardText a host b).length ≤ 255) := by
  rcases snprintf_forwardText h with ⟨hfits, rfl⟩ | ⟨hlong, rfl⟩
  · rw [parseForward_eq] at hf
    split_ifs at hf with hcolon
    rw [portNumber_decimal] at hf
    cases hf
    exact ⟨rfl, rfl, fun hc => hcolon (.inl hc), fun _ => hfits⟩
  · rw [parseForward_eq] at hf
    split_ifs at hf with hcolon
    obtain ⟨n, hn, rfl⟩ := Option.map_eq_some_iff.1 hf
    refine ⟨rfl, rfl, fun hc => hcolon (.inl hc), ?_⟩
    rintro rfl
    exact absurd hn (portNumber_dropLast n)

theorem parseForward_of_fits {a b : ℕ} {host t : CString} (hhost : host ≠ []) (hcolon : ':' ∉ host)
    (hfits : (forwardText a host b).length ≤ 255)
    (h : snprintf (forwardText a host b) = .ok t) : parseForward t = some ⟨a, host, b⟩ := by
  rcases snprintf_forwardText h with ⟨-, rfl⟩ | ⟨hlong, -⟩
  · rw [parseForward_eq, if_neg (by simp [hcolon, hhost]), portNumber_decimal]
    rfl
  · omega

end Args

end Autossh
