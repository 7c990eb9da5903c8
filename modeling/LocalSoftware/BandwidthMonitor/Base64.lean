import LocalSoftware.BandwidthMonitor.Handshake
import LocalSoftware.Library.Base64
import Mathlib.Algebra.GroupWithZero.Nat

/-!
# The memory that `base64_encode` writes

`Indexed.base64Encode` is `base64_encode` with its indices, the arithmetic of its types and the bounds
of its string: a write outside it is undefined behaviour. `Indexed.base64Encode_eq` says that no write
is, and that the string is the one of `base64Encode`. Decoded, it gives back the octets
(`Indexed.base64Encode_decodes`).
-/

set_option autoImplicit false

namespace LocalSoftware.BandwidthMonitor

open Library.Base64 (letter decode decode_full decode_two decode_one)

/-! ## The encoding is decoded -/

theorem base64Letter_eq {n : Nat} (h : n < 64) : base64Letter n = letter n := by
  have hall : ∀ n < 64, base64Letter n = letter n := by decide +kernel
  exact hall n h

/-- Group by group, the decoder gives back the octets. -/
theorem decode_base64 : ∀ data : List UInt8, decode (base64 data) = some data
  | [] => rfl
  | [a] => by
    have ha := a.toNat_lt
    rw [base64, base64Letter_eq (by omega), base64Letter_eq (by omega)]
    exact decode_one
  | [a, b] => by
    have ha := a.toNat_lt
    have hb := b.toNat_lt
    rw [base64, base64Letter_eq (by omega), base64Letter_eq (by omega), base64Letter_eq (by omega)]
    exact decode_two
  | a :: b :: c :: data => by
    have ha := a.toNat_lt
    have hb := b.toNat_lt
    have hc := c.toNat_lt
    rw [base64, base64Letter_eq (by omega), base64Letter_eq (by omega), base64Letter_eq (by omega),
      base64Letter_eq (by omega)]
    exact decode_full (decode_base64 data)

theorem length_base64 : ∀ data : List UInt8, (base64 data).length = 4 * ((data.length + 2) / 3)
  | [] => rfl
  | [_] => by simp [base64]
  | [_, _] => by simp [base64]
  | a :: b :: c :: data => by
    have hrec := length_base64 data
    simp only [base64, List.length_cons, hrec]
    omega

namespace Indexed

/-! ## The code -/

/-- `output_length`, a `size_t`. -/
def outputLength (inputLength : Nat) : Nat := 4 * ((inputLength + 2) % 2 ^ 64 / 3) % 2 ^ 64

/-- `i < input_length ? data[i++] : 0`: the octet, and `i` afterwards. -/
def octet (data : List UInt8) (i : Nat) : UInt32 × Nat :=
  match data[i]? with
  | some b => (b.toUInt32, i + 1)
  | none => (0, i)

/-- `encoded_data[j] = c`. -/
def store (encodedData : Str) (j : Nat) (c : Char) : Except Fault Str :=
  if j < encodedData.length then .ok (encodedData.set j c) else .error .undefinedBehaviour

/-- `encoding_table[(triple >> shift) & 0x3F]`. -/
def letterOf (triple shift : UInt32) : Char :=
  encodingTable.getD ((triple >>> shift) &&& 0x3F).toNat '\x00'

/-- The four assignments of an iteration. -/
def storeTriple (encodedData : Str) (j : Nat) (triple : UInt32) : Except Fault Str := do
  let encodedData ← store encodedData j (letterOf triple (3 * 6))
  let encodedData ← store encodedData (j + 1) (letterOf triple (2 * 6))
  let encodedData ← store encodedData (j + 2) (letterOf triple (1 * 6))
  store encodedData (j + 3) (letterOf triple (0 * 6))

/-- The first loop, with a bound on the number of its iterations. -/
def loop (data : List UInt8) : Nat → Nat → Nat → Str → Except Fault Str
  | 0, _, _, _ => .error .nonTermination
  | fuel + 1, i, j, encodedData =>
    if i < data.length then do
      let (octetA, i) := octet data i
      let (octetB, i) := octet data i
      let (octetC, i) := octet data i
      let triple := (octetA <<< 0x10) + (octetB <<< 0x08) + octetC
      let encodedData ← storeTriple encodedData j triple
      loop data fuel i (j + 4) encodedData
    else .ok encodedData

/-- The second loop: `'='` over the last `n` characters. -/
def padLoop (outputLength n : Nat) (encodedData : Str) : Except Fault Str :=
  (List.range n).foldlM (fun out i => store out (outputLength - 1 - i) '=') encodedData

/-- `base64_encode`. -/
def base64Encode (data : List UInt8) : Except Fault Str := do
  let outputLength := outputLength data.length
  let encodedData ← loop data (data.length + 1) 0 0 (List.replicate outputLength '\x00')
  padLoop outputLength (modTable (data.length % 3)) encodedData

/-! ## Its writes -/

theorem octet_of_drop {data rest : List UInt8} {i : Nat} {b : UInt8} (h : data.drop i = b :: rest) :
    octet data i = (b.toUInt32, i + 1) ∧ data.drop (i + 1) = rest := by
  have hget : data[i]? = some b := by
    rw [← List.head?_drop, h]
    rfl
  refine ⟨?_, ?_⟩
  · rw [octet, hget]
  · rw [← List.tail_drop, h]
    rfl

theorem octet_at_end {data : List UInt8} {i : Nat} (h : data.drop i = []) :
    octet data i = (0, i) := by
  have hget : data[i]? = none := List.getElem?_eq_none (List.drop_eq_nil_iff.mp h)
  rw [octet, hget]

theorem store_eq {out : Str} {j : Nat} (h : j < out.length) (c : Char) :
    store out j c = .ok (out.set j c) := if_pos h

theorem store_bind {out : Str} {j : Nat} (h : j < out.length) (c : Char)
    (next : Str → Except Fault Str) : (store out j c >>= next) = next (out.set j c) := by
  rw [store_eq h]
  rfl

/-- The shift and the mask take out six bits. -/
theorem letterOf_eq (triple : UInt32) {shift : UInt32} (h : shift.toNat < 32) :
    letterOf triple shift = encodeBits (triple.toNat / 2 ^ shift.toNat) := by
  have hmask : (63 : UInt32).toNat = 2 ^ 6 - 1 := rfl
  rw [letterOf, encodeBits, UInt32.toNat_and, UInt32.toNat_shiftRight, Nat.mod_eq_of_lt h, hmask,
    Nat.and_two_pow_sub_one_eq_mod, Nat.shiftRight_eq_div_pow]

/-- No bit of a triple is lost. -/
theorem toNat_triple {a b c : UInt32} (ha : a.toNat < 256) (hb : b.toNat < 256)
    (hc : c.toNat < 256) :
    ((a <<< 0x10) + (b <<< 0x08) + c).toNat = a.toNat * 65536 + b.toNat * 256 + c.toNat := by
  simp only [UInt32.toNat_add, UInt32.toNat_shiftLeft, UInt32.reduceToNat, Nat.shiftLeft_eq,
    Nat.reduceMod, Nat.reducePow]
  omega

/-- The letters of a triple go to the next four cells. -/
theorem storeTriple_append (front rest : Str) (x₀ x₁ x₂ x₃ : Char) {a b c : UInt32}
    (ha : a.toNat < 256) (hb : b.toNat < 256) (hc : c.toNat < 256) :
    storeTriple (front ++ x₀ :: x₁ :: x₂ :: x₃ :: rest) front.length
        ((a <<< 0x10) + (b <<< 0x08) + c) =
      .ok (front ++ tripleLetters a.toNat b.toNat c.toNat ++ rest) := by
  rw [← encodeTriple_append front rest x₀ x₁ x₂ x₃, storeTriple, encodeTriple]
  rw [letterOf_eq _ (by decide), letterOf_eq _ (by decide), letterOf_eq _ (by decide),
    letterOf_eq _ (by decide), toNat_triple ha hb hc]
  rw [store_bind (by simp), store_bind (by simp), store_bind (by simp), store_eq (by simp)]
  have hlast : (0 * 6 : UInt32).toNat = 0 := rfl
  rw [hlast, Nat.pow_zero, Nat.div_one]
  rfl

/-- An iteration stores the triple of the octets that it reads, and goes on behind it. -/
theorem loop_succ {data : List UInt8} {fuel i i₁ i₂ i₃ m : Nat} {a b c : UInt32} {front : Str}
    (hi : i < data.length) (ha : octet data i = (a, i₁)) (hb : octet data i₁ = (b, i₂))
    (hc : octet data i₂ = (c, i₃)) (hbytes : a.toNat < 256 ∧ b.toNat < 256 ∧ c.toNat < 256) :
    loop data (fuel + 1) i front.length (front ++ List.replicate (4 + m) '\x00') =
      loop data fuel i₃ (front ++ tripleLetters a.toNat b.toNat c.toNat).length
        (front ++ tripleLetters a.toNat b.toNat c.toNat ++ List.replicate m '\x00') := by
  have hcells : List.replicate (4 + m) '\x00' =
      '\x00' :: '\x00' :: '\x00' :: '\x00' :: List.replicate m '\x00' := List.replicate_add 4 m _
  have hstore := storeTriple_append front (List.replicate m '\x00') '\x00' '\x00' '\x00' '\x00'
    hbytes.1 hbytes.2.1 hbytes.2.2
  rw [loop, if_pos hi, hcells]
  simp only [ha, hb, hc, hstore, List.length_append]
  rfl

theorem toUInt32_lt (b : UInt8) : b.toUInt32.toNat < 256 := b.toNat_lt

/-- The first loop fills the cells that are left, four for each triple. -/
theorem loop_append (data : List UInt8) {fuel : Nat} : ∀ {i n : Nat} (front : Str),
    data.length - i < fuel → n = 4 * ((data.length - i + 2) / 3) →
      loop data fuel i front.length (front ++ List.replicate n '\x00') =
        .ok (front ++ loopLetters (data.drop i)) := by
  induction fuel with
  | zero =>
    intro i n front hfuel
    omega
  | succ fuel ih =>
    intro i n front hfuel hn
    have hlen : data.length - i = (data.drop i).length := List.length_drop.symm
    -- what is left is nothing, the end of the last triple, or a whole triple and more
    match hdrop : data.drop i with
    | [] =>
      rw [hdrop, List.length_nil] at hlen
      obtain rfl : n = 0 := by omega
      rw [loop, if_neg (by omega)]
      rfl
    | [a] =>
      rw [hdrop, List.length_singleton] at hlen
      obtain ⟨ha, hrest⟩ := octet_of_drop hdrop
      have hend := octet_at_end hrest
      obtain rfl : n = 4 + 0 := by omega
      rw [loop_succ (by omega) ha hend hend ⟨toUInt32_lt a, by decide, by decide⟩,
        ih _ (by omega) (by omega), hrest]
      exact congrArg Except.ok (List.append_nil _)
    | [a, b] =>
      rw [hdrop, List.length_cons, List.length_singleton] at hlen
      obtain ⟨ha, hsecond⟩ := octet_of_drop hdrop
      obtain ⟨hb, hrest⟩ := octet_of_drop hsecond
      have hend := octet_at_end hrest
      obtain rfl : n = 4 + 0 := by omega
      rw [loop_succ (by omega) ha hb hend ⟨toUInt32_lt a, toUInt32_lt b, by decide⟩,
        ih _ (by omega) (by omega), hrest]
      exact congrArg Except.ok (List.append_nil _)
    | a :: b :: c :: rest =>
      rw [hdrop, List.length_cons, List.length_cons, List.length_cons] at hlen
      obtain ⟨ha, hsecond⟩ := octet_of_drop hdrop
      obtain ⟨hb, hthird⟩ := octet_of_drop hsecond
      obtain ⟨hc, hrest⟩ := octet_of_drop hthird
      obtain ⟨m, rfl, hm⟩ : ∃ m, n = 4 + m ∧ m = 4 * ((rest.length + 2) / 3) :=
        ⟨4 * ((rest.length + 2) / 3), by omega, rfl⟩
      rw [loop_succ (by omega) ha hb hc ⟨toUInt32_lt a, toUInt32_lt b, toUInt32_lt c⟩,
        ih _ (by omega) (by omega), hrest]
      exact congrArg Except.ok (List.append_assoc _ _ _)

theorem length_pad (size n : Nat) (out : Str) : (pad size n out).length = out.length := by
  induction n with
  | zero => rfl
  | succ n ih => rw [pad_succ, List.length_set, ih]

/-- The padding is written inside the string. -/
theorem padLoop_eq {out : Str} {n : Nat} (h : n ≤ out.length) :
    padLoop out.length n out = .ok (pad out.length n out) := by
  induction n with
  | zero => rfl
  | succ n ih =>
    have hinside : out.length - 1 - n < (pad out.length n out).length := by
      rw [length_pad]
      omega
    rw [pad_succ, padLoop, List.range_succ, List.foldlM_append]
    change (padLoop out.length n out >>= _) = _
    rw [ih (by omega)]
    change (store _ _ _ >>= pure) = _
    rw [store_eq hinside]
    rfl

/-- There is room for the padding. -/
theorem modTable_le (n : Nat) : modTable (n % 3) ≤ 4 * ((n + 2) / 3) := by
  have htable : ∀ r < 3, modTable r ≤ r * 2 := by decide
  have hr := htable _ (Nat.mod_lt n (by decide))
  omega

/-- Every write falls inside the string, and the string is that of `base64Encode`. -/
theorem base64Encode_eq {data : List UInt8} (h : data.length < 2 ^ 31) :
    base64Encode data = .ok (BandwidthMonitor.base64Encode data) := by
  have hsize : outputLength data.length = (loopLetters data).length := by
    rw [length_loopLetters, outputLength, Nat.mod_eq_of_lt (by omega), Nat.mod_eq_of_lt (by omega)]
  have hloop : loop data (data.length + 1) 0 0
      (List.replicate (loopLetters data).length '\x00') = .ok (loopLetters data) :=
    loop_append data [] (Nat.lt_succ_self data.length) (length_loopLetters data)
  have hpad : modTable (data.length % 3) ≤ (loopLetters data).length := by
    rw [length_loopLetters]
    exact modTable_le data.length
  rw [BandwidthMonitor.base64Encode_eq, ← pad_loopLetters, ← padLoop_eq hpad]
  simp only [base64Encode, hsize, hloop]
  rfl

/-- The string has four letters for every three octets begun, and it is decoded to the octets. -/
theorem base64Encode_decodes (data : List UInt8) (h : data.length < 2 ^ 31) :
    ∃ out, base64Encode data = .ok out ∧ out.length = 4 * ((data.length + 2) / 3) ∧
      decode out = some data := by
  refine ⟨base64 data, ?_, length_base64 data, decode_base64 data⟩
  rw [base64Encode_eq h, BandwidthMonitor.base64Encode_eq]

/-- Four octets take eight characters, two of them padding. -/
theorem base64Encode_decodes_four :
    ∃ out, base64Encode [0x66, 0x6f, 0x6f, 0x62] = .ok out ∧ out.length = 8 ∧
      decode out = some [0x66, 0x6f, 0x6f, 0x62] :=
  base64Encode_decodes [0x66, 0x6f, 0x6f, 0x62] (by decide)

/-- The first vector of RFC 4648 with padding. -/
example : base64Encode [0x66] = .ok "Zg==".toList := by decide +kernel

end Indexed

end LocalSoftware.BandwidthMonitor
