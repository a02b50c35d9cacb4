import Cfgms.Go.Duration
import Cfgms.Text.Netstring

/-! # JSON texts

`json.Unmarshal` into an empty interface. The text is checked byte by byte by a scanner with a
stack of the objects and arrays it is in. A text that passes is still refused if one of its
numbers does not fit a `float64`.
-/

namespace Cfgms.Go.Json

open Text List Option

def ascii (c : Char) : UInt8 := UInt8.ofNat c.toNat

def isSpace (c : UInt8) : Bool :=
  c = ascii ' ' ∨ c = ascii '\t' ∨ c = ascii '\r' ∨ c = ascii '\n'

def isDigit (c : UInt8) : Bool := ascii '0' ≤ c ∧ c ≤ ascii '9'

def isHexDigit (c : UInt8) : Bool :=
  isDigit c ∨ ascii 'a' ≤ c ∧ c ≤ ascii 'f' ∨ ascii 'A' ≤ c ∧ c ≤ ascii 'F'

structure Literal where
  negative : Bool
  mantissa : ℕ
  exponent : ℤ

def digitsValue (digits : List UInt8) : ℕ :=
  digits.foldl (fun n d => 10 * n + (d.toNat - 48)) 0

/-- The digits of an exponent past the first five are not read. -/
def exponentDigits (digits : List UInt8) : ℕ :=
  digits.foldl (fun e d => if e < 10000 then e * 10 + (d.toNat - 48) else e) 0

def exponentValue : List UInt8 → ℤ
  | [] => 0
  | c :: digits =>
    if c = ascii '-' then -(exponentDigits digits : ℤ)
    else if c = ascii '+' then exponentDigits digits
    else exponentDigits (c :: digits)

def splitFraction : List UInt8 → List UInt8 × List UInt8
  | [] => ([], [])
  | c :: rest =>
    if c = ascii '.' then (rest.takeWhile isDigit, rest.dropWhile isDigit) else ([], c :: rest)

def readUnsigned (text : List UInt8) : ℕ × ℤ :=
  let fraction := splitFraction (text.dropWhile isDigit)
  (digitsValue (text.takeWhile isDigit ++ fraction.1),
    exponentValue fraction.2.tail - fraction.1.length)

def readLiteral : List UInt8 → Literal
  | [] => ⟨false, 0, 0⟩
  | c :: rest =>
    if c = ascii '-' then ⟨true, (readUnsigned rest).1, (readUnsigned rest).2⟩
    else ⟨false, (readUnsigned (c :: rest)).1, (readUnsigned (c :: rest)).2⟩

def Literal.magnitude (l : Literal) : ℚ := l.mantissa * 10 ^ l.exponent

/-- What rounds to infinity: half a last place above the greatest `float64`, or more. -/
def Literal.outOfRange (l : Literal) : Bool := 2 ^ 1024 - 2 ^ 970 ≤ l.magnitude

/-- The `float64` nearest to a nonnegative rational; below the normal range the last place weighs
the same for all. -/
def nearestFloat64 (q : ℚ) : ℚ :=
  if q = 0 then 0
  else
    let ulp : ℚ := 2 ^ (max (Int.log 2 q) (-1022) - 52)
    roundHalfEven (q / ulp) * ulp

def Literal.toFloat64 (l : Literal) : ℚ :=
  if l.negative then -nearestFloat64 l.magnitude else nearestFloat64 l.magnitude

inductive ParseState where
  | objectKey
  | objectValue
  | arrayValue
deriving DecidableEq

inductive Step where
  | beginValueOrEmpty
  | beginValue
  | beginStringOrEmpty
  | beginString
  | endValue
  | endTop
  | inString
  | inStringEsc
  /-- In a code unit escape, with so many digits to come. -/
  | inStringEscU (digits : ℕ)
  | neg
  | one
  | zero
  | dot
  | dot0
  | e
  | eSign
  | e0
  /-- In `true`, `false` or `null`, before these letters. -/
  | literal (rest : List UInt8)
deriving DecidableEq

structure Scanner where
  step : Step
  parseState : List ParseState
  /-- The number that is read, or was read last. -/
  number : List UInt8
  /-- A number did not fit. -/
  outOfRange : Bool
deriving DecidableEq

def maxNestingDepth : ℕ := 10000

namespace Scanner

variable (s : Scanner) (c : UInt8)

def start : Scanner := ⟨.beginValue, [], [], false⟩

def goto (step : Step) : Scanner := { s with step := step }

def pushParseState (state : ParseState) (step : Step) : Option Scanner :=
  if s.parseState.length < maxNestingDepth then
    some { s with step := step, parseState := state :: s.parseState }
  else none

def popParseState (rest : List ParseState) : Scanner :=
  { s with step := if rest = [] then .endTop else .endValue, parseState := rest }

def stateEndTop : Option Scanner := if isSpace c then some (s.goto .endTop) else none

def stateEndValue : Option Scanner :=
  match s.parseState with
  | [] => s.stateEndTop c
  | state :: rest =>
    if isSpace c then some (s.goto .endValue)
    else
      match state with
      | .objectKey =>
        if c = ascii ':' then
          some { s with step := .beginValue, parseState := .objectValue :: rest }
        else none
      | .objectValue =>
        if c = ascii ',' then
          some { s with step := .beginString, parseState := .objectKey :: rest }
        else if c = ascii '}' then some (s.popParseState rest)
        else none
      | .arrayValue =>
        if c = ascii ',' then some (s.goto .beginValue)
        else if c = ascii ']' then some (s.popParseState rest)
        else none

def beginNumber (step : Step) : Scanner := { s with step := step, number := [c] }

def inNumber (step : Step) : Scanner := { s with step := step, number := s.number ++ [c] }

def endNumber : Option Scanner :=
  { s with outOfRange := s.outOfRange || (readLiteral s.number).outOfRange }.stateEndValue c

def stateBeginValue : Option Scanner :=
  if isSpace c then some (s.goto .beginValue)
  else if c = ascii '{' then s.pushParseState .objectKey .beginStringOrEmpty
  else if c = ascii '[' then s.pushParseState .arrayValue .beginValueOrEmpty
  else if c = ascii '"' then some (s.goto .inString)
  else if c = ascii '-' then some (s.beginNumber c .neg)
  else if c = ascii '0' then some (s.beginNumber c .zero)
  else if c = ascii 't' then some (s.goto (.literal [ascii 'r', ascii 'u', ascii 'e']))
  else if c = ascii 'f' then
    some (s.goto (.literal [ascii 'a', ascii 'l', ascii 's', ascii 'e']))
  else if c = ascii 'n' then some (s.goto (.literal [ascii 'u', ascii 'l', ascii 'l']))
  else if isDigit c then some (s.beginNumber c .one)
  else none

def stateBeginString : Option Scanner :=
  if isSpace c then some (s.goto .beginString)
  else if c = ascii '"' then some (s.goto .inString)
  else none

def stateBeginStringOrEmpty : Option Scanner :=
  if isSpace c then some (s.goto .beginStringOrEmpty)
  else if c = ascii '}' then
    { s with parseState := .objectValue :: s.parseState.tail }.stateEndValue c
  else s.stateBeginString c

def state0 : Option Scanner :=
  if c = ascii '.' then some (s.inNumber c .dot)
  else if c = ascii 'e' ∨ c = ascii 'E' then some (s.inNumber c .e)
  else s.endNumber c

def stateESign : Option Scanner := if isDigit c then some (s.inNumber c .e0) else none

def next : Option Scanner :=
  match s.step with
  | .beginValueOrEmpty =>
    if isSpace c then some s
    else if c = ascii ']' then s.stateEndValue c
    else s.stateBeginValue c
  | .beginValue => s.stateBeginValue c
  | .beginStringOrEmpty => s.stateBeginStringOrEmpty c
  | .beginString => s.stateBeginString c
  | .endValue => s.stateEndValue c
  | .endTop => s.stateEndTop c
  | .inString =>
    if c = ascii '"' then some (s.goto .endValue)
    else if c = ascii '\\' then some (s.goto .inStringEsc)
    else if c < 0x20 then none
    else some s
  | .inStringEsc =>
    if c ∈ "bfnrt\\/\"".toList.map ascii then some (s.goto .inString)
    else if c = ascii 'u' then some (s.goto (.inStringEscU 4))
    else none
  | .inStringEscU digits =>
    if isHexDigit c then
      some (s.goto (if digits ≤ 1 then .inString else .inStringEscU (digits - 1)))
    else none
  | .neg =>
    if c = ascii '0' then some (s.inNumber c .zero)
    else if isDigit c then some (s.inNumber c .one)
    else none
  | .one => if isDigit c then some (s.inNumber c .one) else s.state0 c
  | .zero => s.state0 c
  | .dot => if isDigit c then some (s.inNumber c .dot0) else none
  | .dot0 =>
    if isDigit c then some (s.inNumber c .dot0)
    else if c = ascii 'e' ∨ c = ascii 'E' then some (s.inNumber c .e)
    else s.endNumber c
  | .e =>
    if c = ascii '+' ∨ c = ascii '-' then some (s.inNumber c .eSign) else s.stateESign c
  | .eSign => s.stateESign c
  | .e0 => if isDigit c then some (s.inNumber c .e0) else s.endNumber c
  | .literal [] => none
  | .literal (l :: rest) =>
    if c = l then some (s.goto (if rest = [] then .endValue else .literal rest)) else none

/-- The end of the text is read as a space, unless the value has ended. -/
def eof : Option Scanner :=
  if s.step = .endTop then some s
  else
    match s.next (ascii ' ') with
    | some s => if s.step = .endTop then some s else none
    | none => none

def scan (data : List UInt8) : Option Scanner := (data.foldlM next start).bind eof

end Scanner

/-- What an interface holds after decoding. -/
inductive Value where
  | string
  | number (f : ℚ)
  /-- A boolean, nil, a list or a map. -/
  | other
deriving DecidableEq

def unmarshal (data : List UInt8) : Option Value :=
  match Scanner.scan data with
  | none => none
  | some s =>
    if s.outOfRange then none
    else
      match data.dropWhile isSpace with
      | [] => none
      | c :: _ =>
        if c = ascii '"' then some .string
        else if c = ascii '-' ∨ isDigit c then some (.number (readLiteral s.number).toFloat64)
        else some .other

def marshalInt (n : ℤ) : List UInt8 :=
  if n < 0 then ascii '-' :: digitBytes n.natAbs else digitBytes n.natAbs

theorem ne_of_isDigit {c x : UInt8} (h : isDigit c) (hx : isDigit x = false) : c ≠ x := by
  rintro rfl
  exact absurd (hx.symm.trans h) (by decide)

theorem isSpace_of_isDigit {c : UInt8} (h : isDigit c) : isSpace c = false := by
  simp only [isSpace, decide_eq_false_iff_not, not_or]
  exact ⟨ne_of_isDigit h (by decide), ne_of_isDigit h (by decide), ne_of_isDigit h (by decide),
    ne_of_isDigit h (by decide)⟩

theorem nearestFloat64_natCast (n : ℕ) : nearestFloat64 n = Go.toFloat64 n := by
  unfold nearestFloat64 Go.toFloat64
  have hlog : max (Int.log 2 (n : ℚ)) (-1022) = Int.log 2 (n : ℚ) := by
    rw [Int.log_natCast]
    omega
  rw [hlog]

theorem digitChar_byte {d : ℕ} (h : d < 10) :
    (UInt8.ofNat (Nat.digitChar d).toNat).toNat = 48 + d := by
  rw [Nat.toNat_digitChar_of_lt_ten h, UInt8.toNat_ofNat']
  omega

theorem isDigit_digitChar {d : ℕ} (h : d < 10) :
    isDigit (UInt8.ofNat (Nat.digitChar d).toNat) := by
  simp only [isDigit, decide_eq_true_eq, UInt8.le_iff_toNat_le, digitChar_byte h]
  exact ⟨by simp [ascii], by simp [ascii]; omega⟩

theorem digitBytes_of_lt {n : ℕ} (h : n < 10) :
    digitBytes n = [UInt8.ofNat (Nat.digitChar n).toNat] := by
  rw [digitBytes, Nat.toDigits_of_lt_base h, map_singleton]

theorem digitBytes_of_le {n : ℕ} (h : 10 ≤ n) :
    digitBytes n = digitBytes (n / 10) ++ [UInt8.ofNat (Nat.digitChar (n % 10)).toNat] := by
  rw [digitBytes, Nat.toDigits_of_base_le (by decide) h, map_append, map_singleton]
  rfl

theorem digitBytes_rec {motive : ℕ → Prop} (hlt : ∀ n < 10, motive n)
    (hle : ∀ n, 10 ≤ n → motive (n / 10) → motive n) (n : ℕ) : motive n := by
  induction n using Nat.strong_induction_on with
  | _ n ih =>
    rcases lt_or_ge n 10 with h | h
    · exact hlt n h
    · exact hle n h (ih _ (by omega))

theorem isDigit_of_mem_digitBytes {n : ℕ} : ∀ c ∈ digitBytes n, isDigit c := by
  induction n using digitBytes_rec with
  | hlt n h =>
    rw [digitBytes_of_lt h, forall_mem_singleton]
    exact isDigit_digitChar h
  | hle n h ih =>
    rw [digitBytes_of_le h, forall_mem_append, forall_mem_singleton]
    exact ⟨ih, isDigit_digitChar (Nat.mod_lt _ (by decide))⟩

theorem digitsValue_digitBytes (n : ℕ) : digitsValue (digitBytes n) = n := by
  induction n using digitBytes_rec with
  | hlt n h =>
    rw [digitBytes_of_lt h]
    simp only [digitsValue, foldl_cons, foldl_nil, digitChar_byte h]
    omega
  | hle n h ih =>
    rw [digitBytes_of_le h, digitsValue, foldl_append, ← digitsValue, ih]
    simp only [foldl_cons, foldl_nil, digitChar_byte (Nat.mod_lt n (by decide : 0 < 10))]
    omega

theorem readUnsigned_digitBytes (n : ℕ) : readUnsigned (digitBytes n) = (n, 0) := by
  have htake : (digitBytes n).takeWhile isDigit = digitBytes n :=
    takeWhile_eq_self_iff.mpr isDigit_of_mem_digitBytes
  have hdrop : (digitBytes n).dropWhile isDigit = [] :=
    dropWhile_eq_nil_iff.mpr isDigit_of_mem_digitBytes
  simp [readUnsigned, htake, hdrop, splitFraction, exponentValue, digitsValue_digitBytes]

namespace Scanner

theorem foldlM_digitBytes {s : Scanner} {n : ℕ} (hpos : 0 < n)
    (hfirst : ∀ c, isDigit c → c ≠ ascii '0' →
      s.next c = some { s with step := .one, number := s.number ++ [c] }) :
    (digitBytes n).foldlM next s =
      some { s with step := .one, number := s.number ++ digitBytes n } := by
  induction n using digitBytes_rec with
  | hlt n h =>
    have hzero : UInt8.ofNat (Nat.digitChar n).toNat ≠ ascii '0' := by
      intro heq
      have hnat := congrArg UInt8.toNat heq
      rw [digitChar_byte h] at hnat
      simp [ascii] at hnat
      omega
    rw [digitBytes_of_lt h, foldlM_cons, hfirst _ (isDigit_digitChar h) hzero]
    rfl
  | hle n h ih =>
    have hdigit := isDigit_digitChar (Nat.mod_lt n (by decide : 0 < 10))
    rw [digitBytes_of_le h, foldlM_append, ih (by omega)]
    simp [next, hdigit, inNumber]

theorem eof_one (s : Scanner) (hstep : s.step = .one) (hstate : s.parseState = []) :
    s.eof = some { s with
      step := .endTop, outOfRange := s.outOfRange || (readLiteral s.number).outOfRange } := by
  have hspace : isDigit (ascii ' ') = false ∧ isSpace (ascii ' ') = true := by decide
  have hother : ascii ' ' ≠ ascii '.' ∧ ¬ (ascii ' ' = ascii 'e' ∨ ascii ' ' = ascii 'E') := by
    decide
  simp only [eof, hstep, next, hspace.1, Bool.false_eq_true, state0, hother.1, hother.2, if_false,
    endNumber, stateEndValue, hstate, stateEndTop, hspace.2, if_true, goto, reduceCtorEq]

theorem scan_marshalInt (n : ℤ) :
    scan (marshalInt n) =
      some ⟨.endTop, [], marshalInt n, (readLiteral (marshalInt n)).outOfRange⟩ := by
  have hfirst : ∀ (s : Scanner), s.step = .beginValue ∧ s.number = [] ∨ s.step = .neg →
      ∀ c, isDigit c → c ≠ ascii '0' →
        s.next c = some { s with step := .one, number := s.number ++ [c] } := by
    intro s hs c hc hzero
    have hother : ∀ x ∈ ['{', '[', '"', '-', 't', 'f', 'n'], c ≠ ascii x := by
      intro x hx
      apply ne_of_isDigit hc
      fin_cases hx <;> decide
    rcases hs with ⟨hstep, hnumber⟩ | hstep
    · simp [next, hstep, stateBeginValue, beginNumber, isSpace_of_isDigit hc, hother, hc, hzero,
        hnumber]
    · simp [next, hstep, inNumber, hc, hzero]
  rcases lt_trichotomy n 0 with hneg | rfl | hpos
  · have hminus : start.next (ascii '-') = some ⟨.neg, [], [ascii '-'], false⟩ := by decide
    rw [scan, marshalInt, if_pos hneg, foldlM_cons, hminus]
    simp only [bind_eq_bind, bind_some]
    rw [foldlM_digitBytes (by omega) (hfirst _ (.inr rfl)), bind_some, eof_one _ rfl rfl]
    rfl
  · decide +kernel
  · rw [scan, marshalInt, if_neg (by omega),
      foldlM_digitBytes (by omega) (hfirst _ (.inl ⟨rfl, rfl⟩)), bind_some,
      eof_one _ rfl rfl]
    rfl

theorem next_comma {s : Scanner} (h : s.eof.isSome) : s.next (ascii ',') = none := by
  obtain ⟨step, stack, number, outOfRange⟩ := s
  unfold eof at h
  cases step with
  | literal rest =>
    cases rest with
    | nil => rfl
    | cons l rest =>
      simp +decide [next, goto] at h
      split_ifs at h <;> simp at h
  | _ =>
    cases stack <;>
      simp +decide [next, stateBeginValue, stateBeginString, stateBeginStringOrEmpty, stateEndTop,
        state0, stateESign, endNumber, stateEndValue, goto] at h ⊢

/-- No text goes on after a whole value with a comma. -/
theorem scan_append_comma {t u : List UInt8} (h : (scan t).isSome) :
    scan (t ++ ascii ',' :: u) = none := by
  rw [scan] at h ⊢
  rw [foldlM_append]
  cases hs : t.foldlM next start with
  | none => rfl
  | some s =>
    rw [hs] at h
    simp [next_comma h]

end Scanner

theorem readLiteral_marshalInt (n : ℤ) : readLiteral (marshalInt n) = ⟨n < 0, n.natAbs, 0⟩ := by
  unfold marshalInt
  split
  · next hneg => simp [readLiteral, readUnsigned_digitBytes, hneg]
  next hpos =>
  cases hdigits : digitBytes n.natAbs with
  | nil =>
    simp [digitBytes, Nat.toDigits_ne_nil] at hdigits
  | cons c rest =>
    have hc : isDigit c := isDigit_of_mem_digitBytes c (hdigits ▸ mem_cons_self)
    have hminus : c ≠ ascii '-' := by
      rintro rfl
      exact absurd hc (by decide)
    simp [readLiteral, hminus, ← hdigits, readUnsigned_digitBytes, hpos]

/-- An integer of 64 bits comes back as the nearest `float64`. -/
theorem unmarshal_marshalInt {n : ℤ} (h : n.natAbs < 2 ^ 64) :
    unmarshal (marshalInt n) = some (.number
      (if n < 0 then -Go.toFloat64 n.natAbs else Go.toFloat64 n.natAbs)) := by
  have hrange : (readLiteral (marshalInt n)).outOfRange = false := by
    rw [readLiteral_marshalInt]
    simp only [Literal.outOfRange, Literal.magnitude, zpow_zero, mul_one, decide_eq_false_iff_not,
      not_le]
    calc (n.natAbs : ℚ) < 2 ^ 64 := by exact_mod_cast h
      _ ≤ 2 ^ 970 := pow_le_pow_right₀ (by norm_num) (by norm_num)
      _ ≤ 2 ^ 970 * (2 ^ 54 - 1) := le_mul_of_one_le_right (by positivity) (by norm_num)
      _ = 2 ^ (970 + 54) - 2 ^ 970 := by rw [mul_sub_one, ← pow_add]
  have hfloat : (readLiteral (marshalInt n)).toFloat64 =
      if n < 0 then -Go.toFloat64 n.natAbs else Go.toFloat64 n.natAbs := by
    rw [readLiteral_marshalInt]
    simp only [Literal.toFloat64, Literal.magnitude, zpow_zero, mul_one, nearestFloat64_natCast,
      decide_eq_true_eq]
  have hhead : ∃ c rest, marshalInt n = c :: rest ∧ (c = ascii '-' ∨ isDigit c) := by
    unfold marshalInt
    split
    · exact ⟨_, _, rfl, .inl rfl⟩
    cases hdigits : digitBytes n.natAbs with
    | nil => simp [digitBytes, Nat.toDigits_ne_nil] at hdigits
    | cons c rest =>
      exact ⟨c, rest, rfl, .inr (isDigit_of_mem_digitBytes c (hdigits ▸ mem_cons_self))⟩
  obtain ⟨c, rest, hcons, hc⟩ := hhead
  have hspace : isSpace c = false ∧ c ≠ ascii '"' := by
    rcases hc with rfl | hc
    · decide
    · exact ⟨isSpace_of_isDigit hc, ne_of_isDigit hc (by decide)⟩
  have hdrop : (marshalInt n).dropWhile isSpace = c :: rest := by
    rw [hcons, dropWhile_cons, hspace.1]
    rfl
  rw [unmarshal, Scanner.scan_marshalInt]
  simp only [hrange, Bool.false_eq_true, if_false, hdrop, hspace.2, hc, if_true, hfloat]

theorem unmarshal_nil : unmarshal [] = none := by decide

example : unmarshal (bytes "[1, -2.5e3, null]") = some .other := by decide +kernel
example : unmarshal (bytes "1e400") = none := by decide +kernel

def codeUnit (n : ℕ) : List Char :=
  '\\' :: 'u' :: [n / 4096, n / 256 % 16, n / 16 % 16, n % 16].map Nat.digitChar

def escapes : List (Char × List Char) :=
  [('"', '"'), ('\\', '\\'), ('\x08', 'b'), ('\x0c', 'f'), ('\n', 'n'), ('\r', 'r'),
    ('\t', 't')].map (fun e => (e.1, ['\\', e.2])) ++
    (range 0x20 ++ [0x3c, 0x3e, 0x26, 0x2028, 0x2029]).map fun n => (Char.ofNat n, codeUnit n)

def escape (c : Char) : List Char := (escapes.lookup c).getD [c]

def runesAfter : ℕ → List UInt8 → List Char
  | _, [] => []
  | skip + 1, _ :: s => runesAfter skip s
  | 0, b :: s =>
    let c := ByteArray.utf8DecodeChar? ⟨(b :: s).toArray⟩ 0
    c.getD '\ufffd' :: runesAfter (c.elim 0 (·.utf8Size - 1)) s

/-- The characters of a string; a byte that belongs to none is read as U+FFFD. -/
def runes (s : List UInt8) : List Char := runesAfter 0 s

def quote (s : List UInt8) : List Char := '"' :: (runes s).flatMap escape ++ ['"']

def array {α : Type*} (text : α → List Char) : List α → List Char
  | [] => ['[', ']']
  | x :: xs => '[' :: text x ++ xs.flatMap (',' :: text ·) ++ [']']

def boolText : Bool → List Char
  | true => ['t', 'r', 'u', 'e']
  | false => ['f', 'a', 'l', 's', 'e']

/-- What `json.Marshal` can make of a value. -/
abbrev JsonText := { t : String // (Scanner.scan (bytes t)).isSome }

theorem head?_escape : ∀ e ∈ escapes, (escape e.1).head? = some '\\' := by
  decide +kernel

theorem eq_of_isPrefix_escape : ∀ e ∈ escapes, ∀ e' ∈ escapes, escape e.1 <+: escape e'.1 →
    e.1 = e'.1 := by
  decide +kernel

theorem escape_cases (a : Char) : ∃ x t, escape a = x :: t ∧ x ≠ '"' ∧
    ((∃ e ∈ escapes, e.1 = a) ∧ x = '\\' ∨ a = x ∧ x ≠ '\\') := by
  by_cases ha : ∃ e ∈ escapes, e.1 = a
  · obtain ⟨e, he, rfl⟩ := ha
    obtain ⟨t, ht⟩ := head?_eq_some_iff.mp (head?_escape e he)
    exact ⟨_, t, ht, by decide, .inl ⟨⟨e, he, rfl⟩, rfl⟩⟩
  have hlookup : escapes.lookup a = none := by
    rw [lookup_eq_none_iff]
    exact fun e he => bne_iff_ne.mpr fun hc => ha ⟨e, he, hc.symm⟩
  refine ⟨a, [], by simp [escape, hlookup], ?_, .inr ⟨rfl, ?_⟩⟩
  all_goals
    rintro rfl
    exact absurd ha (by decide)

theorem escape_append_inj {a b : Char} {s t : List Char}
    (h : escape a ++ s = escape b ++ t) : a = b ∧ s = t := by
  have hab : a = b := by
    obtain ⟨x, u, ha, -, hx⟩ := escape_cases a
    obtain ⟨y, v, hb, -, hy⟩ := escape_cases b
    obtain rfl : x = y := by
      rw [ha, hb] at h
      exact (cons.inj h).1
    rcases hx with ⟨⟨e, he, rfl⟩, rfl⟩ | ⟨rfl, hx⟩ <;>
      rcases hy with ⟨⟨e', he', rfl⟩, hx'⟩ | ⟨rfl, hy⟩
    · rcases prefix_or_prefix_of_prefix ⟨s, h⟩ ⟨t, rfl⟩ with hp | hp
      · exact eq_of_isPrefix_escape e he e' he' hp
      · exact (eq_of_isPrefix_escape e' he' e he hp).symm
    · exact absurd rfl hy
    · exact absurd hx' hx
    · rfl
  exact ⟨hab, append_cancel_left (hab ▸ h)⟩

/-- What a text stands for can be told from the text with anything after it. -/
def Reads {α β : Type*} (text : α → List Char) (f : α → β) : Prop :=
  ∀ {a b s t}, text a ++ s = text b ++ t → f a = f b ∧ s = t

theorem quote_reads : Reads quote runes := by
  intro a b s t h
  have hend : ∀ (u : List Char) a s, escape a ++ s ≠ '"' :: u := by
    intro u a s
    obtain ⟨x, v, ha, hx, -⟩ := escape_cases a
    simp [ha, hx]
  simp only [quote, cons_append, append_assoc, nil_append] at h
  have hrest := flatMap_append_inj (g := id) (fun _ _ _ _ _ _ => escape_append_inj) (hend s) (hend t)
    (cons.inj h).2
  simpa using hrest

theorem array_reads {α β : Type*} {text : α → List Char} {f : α → β} (h : Reads text f)
    (hopen : ∀ x s t, text x ++ s ≠ ']' :: t) : Reads (array text) (map f) := by
  intro xs ys s t heq
  rcases xs with _ | ⟨x, xs⟩ <;> rcases ys with _ | ⟨y, ys⟩ <;>
    simp only [array, cons_append, append_assoc, nil_append, cons.injEq, true_and] at heq
  · exact ⟨rfl, heq⟩
  · exact absurd heq.symm (hopen y _ _)
  · exact absurd heq (hopen x _ _)
  · obtain ⟨hf, hrest⟩ := h heq
    obtain ⟨hmap, hend⟩ := flatMap_append_inj (fun _ _ _ _ _ _ hst => h (cons.inj hst).2)
      (by simp) (by simp) hrest
    exact ⟨by rw [map_cons, map_cons, hf, hmap], (cons.inj hend).2⟩

theorem array_eq {α : Type*} (text : α → List Char) (xs : List α) :
    array text xs = array id (xs.map text) := by
  cases xs with
  | nil => rfl
  | cons x xs => simp [array, flatMap_map]

theorem boolText_reads : Reads boolText id := by
  intro a b s t h
  cases a <;> cases b <;> simp_all [boolText]

theorem JsonText.append_inj {d d' : JsonText} {s t : List Char}
    (h : d.1.toList ++ ',' :: s = d'.1.toList ++ ',' :: t) : d = d' ∧ s = t := by
  -- neither text goes on after the other
  have hnil : ∀ {d d' : JsonText} {u s t : List Char}, d'.1.toList = d.1.toList ++ u →
      ',' :: s = u ++ ',' :: t → u = [] := by
    rintro d d' (_ | ⟨c, u⟩) s t hd hu
    · rfl
    obtain rfl := (cons.inj hu).1
    have hbytes : bytes d'.1 = bytes d.1 ++ ascii ',' :: bytes (.ofList u) := by
      rw [← String.ofList_toList (s := d'.1), hd]
      simp [bytes]
      rfl
    have hvalid := d'.2
    rw [hbytes, Scanner.scan_append_comma d.2] at hvalid
    cases hvalid
  rcases append_eq_append_iff.mp h with ⟨u, hd, hu⟩ | ⟨u, hd, hu⟩
  all_goals
    obtain rfl := hnil hd hu
    simp_all [Subtype.ext_iff, ← String.toList_inj]

end Cfgms.Go.Json
