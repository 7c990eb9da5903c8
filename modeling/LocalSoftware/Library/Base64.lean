import Mathlib.Data.List.Basic
import Mathlib.Tactic.Common

/-!
# Base64

The alphabet of RFC 4648, section 4, and its decoder. A group of four letters stands for three octets.
The last group may end in one or two padding characters, and the bits under them must be zero.

`decode_full`, `decode_two` and `decode_one` give back the octets of a group from their six-bit digits.
-/

set_option autoImplicit false

namespace LocalSoftware.Library.Base64

/-- The letters of the 64 digits. -/
def alphabet : List Char :=
  "ABCDEFGHIJKLMNOPQRSTUVWXYZabcdefghijklmnopqrstuvwxyz0123456789+/".toList

/-- The letter of a digit. -/
def letter (n : Nat) : Char := alphabet.getD n '='

/-- The digit of a letter. -/
def digit (c : Char) : Option Nat := alphabet.idxOf? c

/-- The decoder. -/
def decode : List Char → Option (List UInt8)
  | [] => some []
  | w :: x :: y :: z :: rest => do
    let p ← digit w
    let q ← digit x
    if y = '=' ∧ z = '=' ∧ rest = [] then
      if q % 16 = 0 then some [UInt8.ofNat (p * 4 + q / 16)] else none
    else do
      let r ← digit y
      if z = '=' ∧ rest = [] then
        if r % 4 = 0 then
          some [UInt8.ofNat (p * 4 + q / 16), UInt8.ofNat (q % 16 * 16 + r / 4)]
        else none
      else do
        let s ← digit z
        let octets ← decode rest
        some (UInt8.ofNat (p * 4 + q / 16) :: UInt8.ofNat (q % 16 * 16 + r / 4) ::
          UInt8.ofNat (r % 4 * 64 + s) :: octets)
  | _ => none

/-- The padding character is no letter. -/
theorem letter_ne_pad {n : Nat} (h : n < 64) : letter n ≠ '=' := by
  have hall : ∀ n < 64, letter n ≠ '=' := by decide +kernel
  exact hall n h

theorem digit_letter {n : Nat} (h : n < 64) : digit (letter n) = some n := by
  have hall : ∀ n < 64, digit (letter n) = some n := by decide +kernel
  exact hall n h

section Groups

variable {a b c : UInt8}

/-- A group without padding, in front of the rest. -/
theorem decode_full {rest : List Char} {octets : List UInt8} (h : decode rest = some octets) :
    decode (letter (a.toNat / 4) :: letter (a.toNat % 4 * 16 + b.toNat / 16) ::
      letter (b.toNat % 16 * 4 + c.toNat / 64) :: letter (c.toNat % 64) :: rest) =
        some (a :: b :: c :: octets) := by
  have ha := a.toNat_lt
  have hb := b.toNat_lt
  have hc := c.toNat_lt
  have hfirst : a.toNat / 4 * 4 + (a.toNat % 4 * 16 + b.toNat / 16) / 16 = a.toNat := by omega
  have hsecond : (a.toNat % 4 * 16 + b.toNat / 16) % 16 * 16 +
      (b.toNat % 16 * 4 + c.toNat / 64) / 4 = b.toNat := by omega
  have hthird : (b.toNat % 16 * 4 + c.toNat / 64) % 4 * 64 + c.toNat % 64 = c.toNat := by omega
  rw [decode, digit_letter (by omega), digit_letter (by omega)]
  simp only [Option.bind_eq_bind, Option.bind_some]
  rw [if_neg fun hpad => letter_ne_pad (by omega) hpad.1, digit_letter (by omega)]
  simp only [Option.bind_some]
  rw [if_neg fun hpad => letter_ne_pad (by omega) hpad.1, digit_letter (by omega), h]
  simp only [Option.bind_some, hfirst, hsecond, hthird, UInt8.ofNat_toNat]

/-- Two octets at the end. -/
theorem decode_two :
    decode [letter (a.toNat / 4), letter (a.toNat % 4 * 16 + b.toNat / 16),
      letter (b.toNat % 16 * 4), '='] = some [a, b] := by
  have ha := a.toNat_lt
  have hb := b.toNat_lt
  have hfirst : a.toNat / 4 * 4 + (a.toNat % 4 * 16 + b.toNat / 16) / 16 = a.toNat := by omega
  have hsecond : (a.toNat % 4 * 16 + b.toNat / 16) % 16 * 16 + b.toNat % 16 * 4 / 4 =
      b.toNat := by omega
  rw [decode, digit_letter (by omega), digit_letter (by omega)]
  simp only [Option.bind_eq_bind, Option.bind_some]
  rw [if_neg fun hpad => letter_ne_pad (by omega) hpad.1, digit_letter (by omega)]
  simp only [Option.bind_some]
  rw [if_pos (by simp), if_pos (by omega)]
  simp only [hfirst, hsecond, UInt8.ofNat_toNat]

/-- One octet at the end. -/
theorem decode_one :
    decode [letter (a.toNat / 4), letter (a.toNat % 4 * 16), '=', '='] = some [a] := by
  have ha := a.toNat_lt
  have hfirst : a.toNat / 4 * 4 + a.toNat % 4 * 16 / 16 = a.toNat := by omega
  rw [decode, digit_letter (by omega), digit_letter (by omega)]
  simp only [Option.bind_eq_bind, Option.bind_some]
  rw [if_pos (by simp), if_pos (by omega)]
  simp only [hfirst, UInt8.ofNat_toNat]

end Groups

end LocalSoftware.Library.Base64
