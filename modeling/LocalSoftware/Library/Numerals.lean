import Mathlib.Algebra.GroupWithZero.Nat
import Mathlib.Algebra.Ring.Int.Defs
import Mathlib.Data.List.Basic
import Mathlib.Tactic.Common

/-!
# Numbers as bytes and as text

Two encodings of a number and their readers: the bytes of a word of fixed width, the lowest first,
and the decimal text of an integer, read by a scanner with the directives of `scanf`. Both readers
give back what was written (`ofLittleEndian_littleEndian`, `scanInteger_decimal`).
-/

set_option autoImplicit false

namespace LocalSoftware.Library.Numerals

/-! ## Words of bytes -/

/-- The `width` lowest bytes of `n`, the lowest first. -/
def littleEndian : Nat → Nat → List UInt8
  | 0, _ => []
  | width + 1, n => UInt8.ofNat n :: littleEndian width (n / 256)

/-- The number with these bytes. -/
def ofLittleEndian : List UInt8 → Nat
  | [] => 0
  | b :: bs => b.toNat + 256 * ofLittleEndian bs

@[simp] theorem length_littleEndian (width n : Nat) : (littleEndian width n).length = width := by
  induction width generalizing n with
  | zero => rfl
  | succ width ih => rw [littleEndian, List.length_cons, ih]

theorem ofLittleEndian_littleEndian {width n : Nat} (h : n < 256 ^ width) :
    ofLittleEndian (littleEndian width n) = n := by
  induction width generalizing n with
  | zero =>
    rw [Nat.pow_zero] at h
    exact (Nat.lt_one_iff.mp h).symm
  | succ width ih =>
    have hdiv : n / 256 < 256 ^ width := by
      rw [Nat.div_lt_iff_lt_mul (by decide), ← Nat.pow_succ]
      exact h
    have hbyte : (UInt8.ofNat n).toNat = n % 256 := UInt8.toNat_ofNat'
    rw [littleEndian, ofLittleEndian, ih hdiv, hbyte]
    exact Nat.mod_add_div n 256

/-! ## Decimal text -/

/-- The white space of the C locale. -/
def isSpace (c : Char) : Bool :=
  c = ' ' ∨ c = '\t' ∨ c = '\n' ∨ c = '\x0b' ∨ c = '\x0c' ∨ c = '\r'

/-- The decimal text of an integer. -/
def decimal : Int → List Char
  | .ofNat n => Nat.toDigits 10 n
  | .negSucc n => '-' :: Nat.toDigits 10 (n + 1)

/-- A directive of a format. An integer is converted from its sign and its magnitude. -/
inductive Directive where
  | space
  | literal (c : Char)
  | integer (convert : Bool → Nat → Int)

/-- An optional sign. -/
def scanSign : List Char → Bool × List Char
  | '-' :: text => (true, text)
  | '+' :: text => (false, text)
  | text => (false, text)

/-- White space, a sign and digits: the sign, the magnitude and the rest. -/
def scanInteger (text : List Char) : Option (Bool × Nat × List Char) :=
  let (negative, text) := scanSign (text.dropWhile isSpace)
  let digits := text.takeWhile Char.isDigit
  if digits = [] then none
  else some (negative, Nat.ofDigitChars 10 digits 0, text.dropWhile Char.isDigit)

/-- The integers that the directives read, when each of them succeeds. -/
def scan : List Directive → List Char → Option (List Int)
  | [], _ => some []
  | .space :: format, text => scan format (text.dropWhile isSpace)
  | .literal c :: format, text =>
    match text with
    | c' :: text => if c' = c then scan format text else none
    | [] => none
  | .integer convert :: format, text =>
    match scanInteger text with
    | none => none
    | some (negative, magnitude, rest) => (scan format rest).map (convert negative magnitude :: ·)

section Decimal

variable {digits text : List Char} {c : Char} {format : List Directive} {convert : Bool → Nat → Int}

theorem isSpace_of_isDigit (h : c.isDigit = true) : isSpace c = false := by
  rw [Bool.eq_false_iff]
  intro hspace
  simp only [isSpace, decide_eq_true_eq] at hspace
  rcases hspace with rfl | rfl | rfl | rfl | rfl | rfl <;> exact absurd h (by decide)

theorem ne_sign_of_isDigit (h : c.isDigit = true) : c ≠ '-' ∧ c ≠ '+' := by
  constructor <;> rintro rfl <;> exact absurd h (by decide)

/-- Digits are no sign. -/
theorem scanSign_digits (hdigits : ∀ c ∈ digits, c.isDigit = true) (hne : digits ≠ []) :
    scanSign (digits ++ text) = (false, digits ++ text) := by
  cases digits with
  | nil => exact absurd rfl hne
  | cons c digits =>
    obtain ⟨hminus, hplus⟩ := ne_sign_of_isDigit (hdigits c List.mem_cons_self)
    rw [List.cons_append]
    unfold scanSign
    split
    · rename_i heq
      exact absurd (List.cons.inj heq).1 hminus
    · rename_i heq
      exact absurd (List.cons.inj heq).1 hplus
    · rfl

theorem dropWhile_head {p : Char → Bool} (h : ∀ c, text.head? = some c → p c = false) :
    text.dropWhile p = text := by
  cases text with
  | nil => rfl
  | cons c text => rw [List.dropWhile_cons_of_neg (by rw [h c rfl]; exact Bool.false_ne_true)]

theorem takeWhile_head {p : Char → Bool} (h : ∀ c, text.head? = some c → p c = false) :
    text.takeWhile p = [] := by
  cases text with
  | nil => rfl
  | cons c text => rw [List.takeWhile_cons_of_neg (by rw [h c rfl]; exact Bool.false_ne_true)]

/-- What is left behind white space and a sign: digits, and a text that does not begin with one. -/
theorem scanInteger_eq {negative : Bool} {rest : List Char}
    (hsign : scanSign (text.dropWhile isSpace) = (negative, digits ++ rest))
    (hdigits : ∀ c ∈ digits, c.isDigit = true) (hne : digits ≠ [])
    (hrest : ∀ c, rest.head? = some c → c.isDigit = false) :
    scanInteger text = some (negative, Nat.ofDigitChars 10 digits 0, rest) := by
  unfold scanInteger
  rw [hsign]
  simp only [List.takeWhile_append_of_pos hdigits, List.dropWhile_append_of_pos hdigits,
    takeWhile_head hrest, dropWhile_head hrest, List.append_nil, if_neg hne]

/-- Digits in front of a text that does not begin with one. -/
theorem scanInteger_digits (hdigits : ∀ c ∈ digits, c.isDigit = true) (hne : digits ≠ [])
    (htext : ∀ c, text.head? = some c → c.isDigit = false) :
    scanInteger (digits ++ text) = some (false, Nat.ofDigitChars 10 digits 0, text) := by
  refine scanInteger_eq ?_ hdigits hne htext
  rw [dropWhile_head, scanSign_digits hdigits hne]
  intro c hc
  rw [List.head?_append_of_ne_nil _ hne] at hc
  exact isSpace_of_isDigit (hdigits c (List.mem_of_head? hc))

/-- The same behind a minus sign. -/
theorem scanInteger_minus (hdigits : ∀ c ∈ digits, c.isDigit = true) (hne : digits ≠ [])
    (htext : ∀ c, text.head? = some c → c.isDigit = false) :
    scanInteger ('-' :: digits ++ text) = some (true, Nat.ofDigitChars 10 digits 0, text) :=
  scanInteger_eq rfl hdigits hne htext

theorem isDigit_toDigits (n : Nat) : ∀ c ∈ Nat.toDigits 10 n, c.isDigit = true :=
  fun _ hc => Nat.isDigit_of_mem_toDigits (by decide) (by decide) hc

/-- An integer in front of a text that does not begin with a digit. -/
theorem scanInteger_decimal (z : Int) (htext : ∀ c, text.head? = some c → c.isDigit = false) :
    scanInteger (decimal z ++ text) = some (decide (z < 0), z.natAbs, text) := by
  cases z with
  | ofNat n =>
    have hnonneg : ¬ Int.ofNat n < 0 := Int.not_lt.2 (Int.natCast_nonneg n)
    refine (scanInteger_digits (isDigit_toDigits n) Nat.toDigits_ne_nil htext).trans ?_
    rw [Nat.ofDigitChars_ten_toDigits, decide_eq_false hnonneg]
    rfl
  | negSucc n =>
    refine (scanInteger_minus (isDigit_toDigits (n + 1)) Nat.toDigits_ne_nil htext).trans ?_
    rw [Nat.ofDigitChars_ten_toDigits, decide_eq_true (Int.negSucc_lt_zero n)]
    rfl

/-- Zeros in front of a number without a sign change nothing. -/
theorem scanInteger_padded (k n : Nat) (htext : ∀ c, text.head? = some c → c.isDigit = false) :
    scanInteger (List.replicate k '0' ++ Nat.toDigits 10 n ++ text) = some (false, n, text) := by
  refine (scanInteger_digits (fun c hc => ?_) ?_ htext).trans ?_
  · rcases List.mem_append.1 hc with hzero | hdigit
    · rw [(List.mem_replicate.1 hzero).2]
      rfl
    · exact isDigit_toDigits n c hdigit
  · exact List.append_ne_nil_of_right_ne_nil _ Nat.toDigits_ne_nil
  · rw [Nat.ofDigitChars_append, Nat.ofDigitChars_replicate_zero, Nat.mul_zero,
      Nat.ofDigitChars_ten_toDigits]

theorem decimal_ne_nil (z : Int) : decimal z ≠ [] := by
  cases z with
  | ofNat n => exact Nat.toDigits_ne_nil
  | negSucc n => exact List.cons_ne_nil _ _

/-- The characters of the decimal text of an integer. -/
theorem mem_decimal {z : Int} (hc : c ∈ decimal z) : c.isDigit = true ∨ c = '-' := by
  cases z with
  | ofNat n => exact Or.inl (isDigit_toDigits n c hc)
  | negSucc n =>
    rcases List.mem_cons.1 hc with rfl | hc
    · exact Or.inr rfl
    · exact Or.inl (isDigit_toDigits (n + 1) c hc)

/-- A text that begins with digits or a sign does not begin with white space. -/
theorem isSpace_head (hdigits : ∀ c ∈ digits, c.isDigit = true ∨ c = '-') (hne : digits ≠ [])
    (h : (digits ++ text).head? = some c) : isSpace c = false := by
  rw [List.head?_append_of_ne_nil _ hne] at h
  rcases hdigits c (List.mem_of_head? h) with hdigit | rfl
  · exact isSpace_of_isDigit hdigit
  · rfl

/-! ## The directives of a scan -/

theorem scan_literal (text : List Char) :
    scan (.literal c :: format) (c :: text) = scan format text := if_pos rfl

/-- One space in front of a text that does not begin with white space. -/
theorem scan_space (htext : ∀ c, text.head? = some c → isSpace c = false) :
    scan (.space :: format) (' ' :: text) = scan format text := by
  rw [scan, List.dropWhile_cons_of_pos (by decide), dropWhile_head htext]

theorem scan_integer {negative : Bool} {magnitude : Nat} {rest : List Char}
    (h : scanInteger text = some (negative, magnitude, rest)) :
    scan (.integer convert :: format) text =
      (scan format rest).map (convert negative magnitude :: ·) := by
  rw [scan, h]

end Decimal

end LocalSoftware.Library.Numerals
