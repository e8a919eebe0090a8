import Autossh.Detector.Basic
import Autossh.Posix.Decimal
import Autossh.Posix.Memory
import Autossh.Supervisor.Wait

/-!
# The line about a stuck call (`warn_stderr`)

`warn_stderr` must not allocate: it puts the line together in an array of 128 bytes on the stack,
and the number in one of 20.  A byte for which the line has no room is dropped.

* `put`, `putDigits` : the loops that append to the line;
* `itoaLoop` : the digits of a number, the last one first;
* `warnStderr` : the bytes that are written, or `none` if an array is accessed out of its bounds or
  the digits do not end;
* `Written` : the line holds a text, or as much of it as it has room for;
* `warnStderr_writes` : what is written is `warning`, as a whole, and autossh recognises it.
-/

namespace Autossh

namespace Detector

open Memory

/-- The name `Tracker::new` is called with. -/
def Hook.name : Hook → String
  | .connect => "connect"
  | .getaddrinfo => "getaddrinfo"
  | .recv => "recv"
  | .recvfrom => "recvfrom"
  | .recvmsg => "recvmsg"

/-! ### The line -/

/-- `buf` and `n`. -/
abbrev Line := List UInt8 × ℕ

/-- `if n < buf.len() { buf[n] = b; n += 1; }` -/
def putByte (x : Line) (b : UInt8) : Option Line :=
  if x.2 < x.1.length then (store x.1 x.2 b).map fun buf => (buf, x.2 + 1) else some x

/-- `for &b in bs { .. }` -/
def put (bs : List UInt8) (x : Line) : Option Line := bs.foldlM putByte x

/-- `if n < buf.len() { buf[n] = digits[i]; n += 1; }` -/
def putDigit (digits : List UInt8) (i : ℕ) (x : Line) : Option Line :=
  if x.2 < x.1.length then load digits i >>= putByte x else some x

/-- `for i in (0..dn).rev() { .. }` -/
def putDigits (digits : List UInt8) : ℕ → Line → Option Line
  | 0, x => some x
  | i + 1, x => putDigit digits i x >>= putDigits digits i

/-- `while s > 0 { .. }`, with fuel for the rounds. -/
def itoaLoop : ℕ → ℕ → List UInt8 → ℕ → Option (List UInt8 × ℕ)
  | 0, _, _, _ => none
  | fuel + 1, s, digits, dn =>
    if 0 < s then do
      let digits ← store digits dn (48 + (s % 10).toUInt8)
      itoaLoop fuel (s / 10) digits (dn + 1)
    else some (digits, dn)

/-- `digits` and `dn` for the number `s`. -/
def itoa (s : ℕ) : Option (List UInt8 × ℕ) :=
  let digits := List.replicate 20 0
  if s = 0 then (store digits 0 48).map fun digits => (digits, 1)
  else itoaLoop (digits.length + 1) s digits 0

/-- `warn_stderr`: what is written to stderr. -/
def warnStderr (name : List UInt8) (secs : ℤ) : Option (List UInt8) := do
  let x ← put (bytes "ssh-stuck-detector: STUCK in ") (List.replicate 128 0, 0)
  let x ← put name x
  let x ← put (bytes "() for ") x
  let s := if secs < 0 then 0 else secs
  let (digits, dn) ← itoa s.toNat
  let x ← putDigits digits dn x
  let x ← put (bytes " secs\n") x
  loads x.1 0 x.2

/-- The line that is meant. -/
def warning (h : Hook) (d : ℤ) : String :=
  "ssh-stuck-detector: STUCK in " ++ h.name ++ "() for " ++ String.ofList (CString.decimal d) ++
    " secs\n"

/-! ### Appending -/

/-- The line holds the text `t`, or its beginning if there is no room for more. -/
structure Written (cap : ℕ) (t : List UInt8) (x : Line) : Prop where
  length : x.1.length = cap
  pos : x.2 = min t.length cap
  take : x.1.take x.2 = t.take cap

variable {cap : ℕ} {t : List UInt8} {x : Line}

theorem written_nil (m : List UInt8) : Written m.length [] (m, 0) := by
  refine ⟨rfl, ?_, ?_⟩ <;> simp

theorem Written.putByte (hx : Written cap t x) (b : UInt8) :
    ∃ x', putByte x b = some x' ∧ Written cap (t ++ [b]) x' := by
  have hpos := hx.pos
  by_cases hroom : x.2 < x.1.length
  · have htlen : x.2 = t.length := by
      rw [hx.length] at hroom
      omega
    refine ⟨(x.1.set x.2 b, x.2 + 1), ?_, ?_, ?_, ?_⟩
    · rw [Detector.putByte, if_pos hroom, store_of_lt hroom]
      rfl
    · rw [List.length_set, hx.length]
    · rw [List.length_append, List.length_singleton]
      rw [hx.length] at hroom
      omega
    · have hcap : t.length < cap := by rwa [← htlen, ← hx.length]
      have htake := hx.take
      rw [List.take_of_length_le hcap.le] at htake
      rw [List.take_add_one, List.take_set_of_le le_rfl, htake, List.getElem?_set_self hroom,
        List.take_of_length_le (by simpa using Nat.succ_le_of_lt hcap)]
      rfl
  · refine ⟨x, if_neg hroom, hx.length, ?_, ?_⟩
    · rw [List.length_append, List.length_singleton]
      rw [hx.length] at hroom
      omega
    · rw [hx.length] at hroom
      rw [List.take_append_of_le_length (by omega)]
      exact hx.take

theorem Written.put (hx : Written cap t x) (bs : List UInt8) :
    ∃ x', put bs x = some x' ∧ Written cap (t ++ bs) x' := by
  induction bs generalizing t x with
  | nil => exact ⟨x, rfl, by rwa [List.append_nil]⟩
  | cons b bs ih =>
    obtain ⟨x₁, h₁, hx₁⟩ := hx.putByte b
    obtain ⟨x₂, h₂, hx₂⟩ := ih hx₁
    refine ⟨x₂, ?_, ?_⟩
    · rw [Detector.put, List.foldlM_cons, h₁]
      exact h₂
    · rwa [List.append_cons]

/-- The line is a text that fits. -/
theorem Written.loads (hx : Written cap t x) (ht : t.length ≤ cap) :
    loads x.1 0 x.2 = some t := by
  have hpos := hx.pos
  have hlen := hx.length
  rw [Memory.loads, if_pos (by omega), List.drop_zero, hx.take, List.take_of_length_le ht]

theorem putDigit_eq_putByte {digits : List UInt8} {i : ℕ} (hi : i < digits.length) (x : Line) :
    putDigit digits i x = putByte x digits[i] := by
  by_cases hroom : x.2 < x.1.length
  · rw [putDigit, if_pos hroom, load, List.getElem?_eq_getElem hi]
    rfl
  · rw [putDigit, if_neg hroom, putByte, if_neg hroom]

/-- The digits are appended in reverse. -/
theorem putDigits_eq_put {digits : List UInt8} {i : ℕ} (hi : i ≤ digits.length) (x : Line) :
    putDigits digits i x = put (digits.take i).reverse x := by
  induction i generalizing x with
  | zero => rfl
  | succ i ih =>
    have hrev : (digits.take (i + 1)).reverse = digits[i] :: (digits.take i).reverse := by
      rw [List.take_add_one, List.getElem?_eq_getElem hi, Option.toList_some,
        List.reverse_append, List.reverse_singleton, List.singleton_append]
    rw [putDigits, putDigit_eq_putByte hi, hrev, put, List.foldlM_cons]
    exact bind_congr fun x' => ih (by omega) x'

/-! ### The number -/

/-- The bytes of a number that is printed. -/
def ascii (n : ℕ) : List UInt8 := (Nat.toDigits 10 n).map fun c => c.toNat.toUInt8

/-- What the loop has to write for `s`: nothing for zero, which has its own branch. -/
def rest (s : ℕ) : List UInt8 := if s = 0 then [] else ascii s

theorem rest_of_pos {s : ℕ} (hs : 0 < s) : rest s = rest (s / 10) ++ [48 + (s % 10).toUInt8] := by
  have hdigit : (Nat.digitChar (s % 10)).toNat.toUInt8 = 48 + (s % 10).toUInt8 := by
    have hlt : s % 10 < 10 := Nat.mod_lt s (by decide)
    rw [Nat.toNat_digitChar_of_lt_ten hlt]
    generalize s % 10 = k at hlt
    interval_cases k <;> rfl
  rw [rest, if_neg (by omega), ← hdigit, ascii]
  by_cases hlt : s < 10
  · rw [Nat.div_eq_of_lt hlt, Nat.mod_eq_of_lt hlt, Nat.toDigits_of_lt_base hlt]
    rfl
  · rw [rest, if_neg (by omega), Nat.toDigits_of_base_le (by decide) (by omega), List.map_append]
    rfl

/-- The loop leaves the digits behind those that are there, if there is room for them. -/
theorem itoaLoop_spec {s : ℕ} (fuel : ℕ) (ds zs : List UInt8) (hfuel : (rest s).length < fuel)
    (hroom : (rest s).length ≤ zs.length) :
    ∃ zs', itoaLoop fuel s (ds ++ zs) ds.length =
      some (ds ++ (rest s).reverse ++ zs', ds.length + (rest s).length) := by
  induction fuel generalizing s zs ds with
  | zero => exact absurd hfuel (Nat.not_lt_zero _)
  | succ fuel ih =>
    by_cases hs : 0 < s
    · rw [rest_of_pos hs, List.length_append, List.length_singleton] at hfuel hroom
      obtain ⟨z, zs, rfl⟩ := List.exists_cons_of_length_pos (show 0 < zs.length by omega)
      rw [List.length_cons] at hroom
      obtain ⟨zs', hloop⟩ := ih (ds ++ [48 + (s % 10).toUInt8]) zs (by omega)
        (Nat.le_of_succ_le_succ hroom)
      refine ⟨zs', ?_⟩
      rw [itoaLoop, if_pos hs, store_append, Option.bind_eq_bind, Option.bind_some,
        List.append_cons, ← List.length_singleton (a := 48 + (s % 10).toUInt8),
        ← List.length_append, hloop, rest_of_pos hs]
      simp [Nat.add_assoc, Nat.add_comm 1]
    · obtain rfl : s = 0 := by omega
      exact ⟨zs, by simp [itoaLoop, rest]⟩

/-- The digits of a number that fits into 64 bits fit into the array. -/
theorem length_ascii_le {s : ℕ} (hs : s < 2 ^ 63) : (ascii s).length ≤ 19 := by
  rw [ascii, List.length_map]
  have hmax : (Nat.toDigits 10 (2 ^ 63 - 1)).length = 19 := by decide +kernel
  rw [← hmax]
  exact CString.length_toDigits_mono (by omega)

theorem itoa_spec {s : ℕ} (hs : s < 2 ^ 63) :
    ∃ zs, itoa s = some ((ascii s).reverse ++ zs, (ascii s).length) := by
  have hlen := length_ascii_le hs
  by_cases h0 : s = 0
  · subst h0
    exact ⟨List.replicate 19 0, by decide +kernel⟩
  · have hrest : rest s = ascii s := if_neg h0
    have hroom : (rest s).length ≤ (List.replicate 20 (0 : UInt8)).length := by
      rw [hrest, List.length_replicate]
      omega
    obtain ⟨zs, hloop⟩ := itoaLoop_spec _ [] _ (Nat.lt_succ_of_le hroom) hroom
    rw [hrest] at hloop
    refine ⟨zs, ?_⟩
    rw [itoa, if_neg h0]
    simpa using hloop

/-! ### The whole line -/

theorem length_name_le (h : Hook) : (bytes h.name).length ≤ 11 := by
  cases h <;> decide +kernel

-- over variables: `simp` would try to split the literals of `warning`
theorem bytes_append (a b c d e : String) :
    bytes (a ++ b ++ c ++ d ++ e) = bytes a ++ bytes b ++ bytes c ++ bytes d ++ bytes e := by
  simp [bytes]

theorem bytes_decimal (s : ℕ) : bytes (String.ofList (CString.decimal s)) = ascii s := by
  rw [CString.decimal_natCast, bytes, String.toList_ofList]
  rfl

theorem bytes_warning (h : Hook) (d : ℤ) :
    bytes (warning h d) = bytes "ssh-stuck-detector: STUCK in " ++ bytes h.name ++
      bytes "() for " ++ bytes (String.ofList (CString.decimal d)) ++ bytes " secs\n" :=
  bytes_append _ _ _ _ _

/-- There is room for the line about any tracker. -/
theorem length_warning_le (h : Hook) {s : ℕ} (hs : s < 2 ^ 63) :
    (bytes (warning h s)).length ≤ 128 := by
  have hname := length_name_le h
  have hascii := length_ascii_le hs
  have hprefix : (bytes "ssh-stuck-detector: STUCK in ").length = 29 := by decide +kernel
  have hmid : (bytes "() for ").length = 7 := by decide +kernel
  have hsuffix : (bytes " secs\n").length = 6 := by decide +kernel
  rw [bytes_warning, bytes_decimal]
  simp only [List.length_append]
  omega

theorem warnStderr_eq (h : Hook) {secs : ℤ} (hsecs : secs < 2 ^ 63) :
    warnStderr (bytes h.name) secs = some (bytes (warning h (max secs 0))) := by
  obtain ⟨s, hs⟩ := Int.eq_ofNat_of_zero_le (le_max_right secs 0)
  have hclamp : (if secs < 0 then 0 else secs) = (s : ℤ) := by
    rw [← hs]
    split_ifs <;> omega
  have hlt : s < 2 ^ 63 := by omega
  obtain ⟨zs, hitoa⟩ := itoa_spec hlt
  obtain ⟨x₁, h₁, hx₁⟩ :=
    (written_nil (List.replicate 128 0)).put (bytes "ssh-stuck-detector: STUCK in ")
  obtain ⟨x₂, h₂, hx₂⟩ := hx₁.put (bytes h.name)
  obtain ⟨x₃, h₃, hx₃⟩ := hx₂.put (bytes "() for ")
  obtain ⟨x₄, h₄, hx₄⟩ := hx₃.put (ascii s)
  obtain ⟨x₅, h₅, hx₅⟩ := hx₄.put (bytes " secs\n")
  have hdigits : putDigits ((ascii s).reverse ++ zs) (ascii s).length x₃ = some x₄ := by
    have htake : ((ascii s).reverse ++ zs).take (ascii s).length = (ascii s).reverse :=
      List.take_left' List.length_reverse
    rw [putDigits_eq_put (by simp), htake, List.reverse_reverse, h₄]
  rw [List.nil_append, ← bytes_decimal, ← bytes_warning, List.length_replicate] at hx₅
  simp only [warnStderr, hclamp, Int.toNat_natCast, hitoa, h₁, h₂, h₃, hdigits, h₅, hs,
    Option.bind_eq_bind, Option.bind_some]
  exact hx₅.loads (length_warning_le h hlt)

/-- autossh finds its pattern in the line. -/
theorem strstr_warning (h : Hook) (d : ℤ) :
    strstr (bytes (warning h d)) Supervisor.stuckNeedle = true := by
  have hneedle : ∀ b ∈ Supervisor.stuckNeedle, decide (b ≠ 0) = true := by decide +kernel
  have hsplit : bytes "ssh-stuck-detector: STUCK in " = Supervisor.stuckNeedle ++ bytes " in " := by
    decide +kernel
  rw [strstr_iff]
  simp only [bytes_warning, hsplit, List.append_assoc]
  rw [List.takeWhile_append_of_pos hneedle]
  exact (List.prefix_append _ _).isInfix

/-- **The line about a stuck call is written as a whole**: for every tracker and every number of
seconds all accesses to the two arrays are in bounds, nothing is cut off, and the line has the
pattern that autossh looks for. -/
theorem warnStderr_writes (h : Hook) (secs : Int64) :
    warnStderr (bytes h.name) secs.toInt = some (bytes (warning h (max secs.toInt 0))) ∧
      strstr (bytes (warning h (max secs.toInt 0))) Supervisor.stuckNeedle = true :=
  ⟨warnStderr_eq h secs.toInt_lt, strstr_warning h _⟩

/-- Every line that a scan writes about a tracker comes out so. -/
theorem warnStderr_of_mem_out {threshold now e : ℤ} {h : Hook} {hs : List Hook}
    {ts : Hook → Tracker} (hmem : .stuck h e ∈ (scanLoop threshold now hs ts).out) :
    warnStderr (bytes h.name) e = some (bytes (warning h (max e 0))) := by
  refine warnStderr_eq h ?_
  induction hs generalizing ts with
  | nil => simp [scanLoop] at hmem
  | cons g hs ih =>
    have hline : .stuck h e ∈ line threshold now g (ts g) → e < 2 ^ 63 := by
      intro hin
      unfold line at hin
      split_ifs at hin
      · obtain ⟨-, rfl⟩ := Out.stuck.inj (List.mem_singleton.1 hin)
        exact (i64Wrap_bounds _).2
      · exact absurd hin List.not_mem_nil
    simp only [scanLoop] at hmem
    split_ifs at hmem
    · rcases List.mem_append.1 hmem with hin | hin
      · exact hline hin
      · exact absurd (List.mem_singleton.1 hin) (by simp)
    · rcases List.mem_append.1 hmem with hin | hin
      · exact hline hin
      · exact ih hin

example : warning .recvmsg 90 = "ssh-stuck-detector: STUCK in recvmsg() for 90 secs\n" := by
  decide +kernel

end Detector

end Autossh
