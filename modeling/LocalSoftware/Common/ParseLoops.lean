import LocalSoftware.Common.ReadWriteHttpC
import LocalSoftware.Library.DoWhile

/-!
# The loops of `try_parse`

`ReadWriteHTTP` and `ReadWriteHTTPC` both call `put` until the parser is done, and differ in what they
do when it asks for more. `putLoop_terminates` says that the loop of the first ends. The second asks
again, and `agree_iff` says when its loop ends as well, with the same bytes left.
-/

set_option autoImplicit false

namespace LocalSoftware.Http

open Library.DoWhile

namespace Beast

variable (B : Beast)

/-- A client with the same parser. -/
def client (get : B.Parser → Response) (serialize : Request → Str) : ClientBeast where
  Parser := B.Parser
  fresh := B.fresh
  put := B.put
  isDone := B.isDone
  get := get
  serialize := serialize

/-- On bytes, `put` takes one, or sets an error, or completes the message. -/
def Progresses : Prop :=
  ∀ p data, data ≠ [] →
    0 < (B.put p data).1 ∨ (B.put p data).2.1 ≠ none ∨ B.isDone (B.put p data).2.2 = true

/-- The parser, the buffer and the last error. -/
abbrev ParseState := B.Parser × FlatBuffer × Option ParseError

variable {B}

/-- A call of `put`, and of `consume`. -/
def putStep (x : B.ParseState) : B.ParseState :=
  let (consumed, ec, p) := B.put x.1 x.2.1.data
  (p, x.2.1.consume consumed, ec)

/-- The message is open, and bytes are left. -/
def Open (x : B.ParseState) : Prop := ¬ B.isDone x.1 = true ∧ x.2.1.data ≠ []

/-- The loop condition of `ReadWriteHTTP`. -/
def Again (x : B.ParseState) : Prop := x.2.2 = none ∧ Open x

/-- The loop condition of `ReadWriteHTTPC`. -/
def AgainC (x : B.ParseState) : Prop := (x.2.2 = none ∨ x.2.2 = some .needMore) ∧ Open x

/-- The parser asks for more, though bytes are left. -/
def Asks (x : B.ParseState) : Prop := x.2.2 = some .needMore ∧ Open x

/-- The parser reports an error other than the wish for more, or the message is complete. -/
def Ends (x : B.ParseState) : Prop := x.2.2 = some .malformed ∨ B.isDone x.1 = true

instance (x : B.ParseState) : Decidable (Again x) := inferInstanceAs (Decidable (_ ∧ _ ∧ _))

instance (x : B.ParseState) : Decidable (AgainC x) :=
  inferInstanceAs (Decidable ((_ ∨ _) ∧ _ ∧ _))

variable {get : B.Parser → Response} {serialize : Request → Str}

theorem putLoop_eq (fuel : Nat) (p : B.Parser) (b : FlatBuffer) (ec : Option ParseError) :
    ReadWriteHttp.putLoop B fuel p b = doWhile putStep Again fuel (p, b, ec) := by
  induction fuel generalizing p b ec with
  | zero => rfl
  | succ fuel ih =>
    rw [ReadWriteHttp.putLoop, doWhile, ← ih]
    rfl

theorem putLoopC_eq (get : B.Parser → Response) (serialize : Request → Str) (fuel : Nat)
    (p : B.Parser) (b : FlatBuffer) (ec : Option ParseError) :
    ReadWriteHttpC.putLoop (B.client get serialize) fuel p b =
      doWhile putStep AgainC fuel (p, b, ec) := by
  induction fuel generalizing p b ec with
  | zero => rfl
  | succ fuel ih =>
    rw [doWhile, ← ih]
    rfl

/-- Without an error, a call that leaves the message open takes a byte. -/
theorem Progresses.length_lt (h : B.Progresses) (x : B.ParseState) (hx : Again (putStep x)) :
    (putStep x).2.1.data.length < x.2.1.data.length := by
  have hlength : (putStep x).2.1.data.length =
      x.2.1.data.length - (B.put x.1 x.2.1.data).1 := List.length_drop
  have hleft : 0 < (putStep x).2.1.data.length := List.length_pos_of_ne_nil hx.2.2
  have hdata : x.2.1.data ≠ [] := List.ne_nil_of_length_pos (by omega)
  rcases h x.1 x.2.1.data hdata with htaken | herror | hdone
  · omega
  · exact absurd hx.1 herror
  · exact absurd hdone hx.2.1

/-- The loop of `ReadWriteHTTP` ends after at most one call for each byte, and one more. -/
theorem putLoop_terminates (h : B.Progresses) (p : B.Parser) (b : FlatBuffer) :
    ∃ x, ReadWriteHttp.putLoop B (b.data.length + 1) p b = some x := by
  rw [putLoop_eq _ p b none]
  exact doWhile_of_measure (fun x : B.ParseState => x.2.1.data.length) h.length_lt (p, b, none)

/-! ## The bytes that are left -/

theorem Again.againC {x : B.ParseState} (h : Again x) : AgainC x := ⟨Or.inl h.1, h.2⟩

theorem Asks.againC {x : B.ParseState} (h : Asks x) : AgainC x := ⟨Or.inr h.1, h.2⟩

theorem Asks.not_again {x : B.ParseState} (h : Asks x) : ¬ Again x := by
  intro hagain
  exact absurd (hagain.1.symm.trans h.1) (by decide)

/-- The loop of `ReadWriteHTTPC` goes on where that of `ReadWriteHTTP` does, and where the parser asks
for more. -/
theorem AgainC.cases {x : B.ParseState} (h : AgainC x) : Again x ∨ Asks x := by
  rcases h with ⟨hnone | hmore, hopen⟩
  · exact Or.inl ⟨hnone, hopen⟩
  · exact Or.inr ⟨hmore, hopen⟩

theorem Ends.not_againC {x : B.ParseState} (h : Ends x) : ¬ AgainC x := by
  rintro ⟨hec, hopen, -⟩
  rcases h with hmalformed | hdone
  · rw [hmalformed] at hec
    exact absurd hec (by decide)
  · exact hopen hdone

/-- A loop that stops with bytes left has been told to. -/
theorem ends_of_not_againC {x : B.ParseState} (h : ¬ AgainC x) (hleft : x.2.1.data ≠ []) :
    Ends x := by
  by_contra hends
  rw [Ends, not_or] at hends
  refine h ⟨?_, hends.2, hleft⟩
  cases hec : x.2.2 with
  | none => exact Or.inl rfl
  | some e =>
    cases e with
    | needMore => exact Or.inr rfl
    | malformed => exact absurd hec hends.1

/-- Calls of `put` take bytes from the front. -/
theorem data_iterate_suffix (x : B.ParseState) (k : Nat) :
    (putStep^[k] x).2.1.data <:+ x.2.1.data := by
  induction k with
  | zero => exact List.suffix_rfl
  | succ k ih =>
    rw [Function.iterate_succ_apply']
    exact (List.drop_suffix _ _).trans ih

theorem data_suffix_of_le (x : B.ParseState) {n k : Nat} (h : n ≤ k) :
    (putStep^[k + 1] x).2.1.data <:+ (putStep^[n + 1] x).2.1.data := by
  obtain ⟨d, rfl⟩ := Nat.exists_eq_add_of_le h
  rw [show n + d + 1 = d + (n + 1) by omega, Function.iterate_add_apply]
  exact data_iterate_suffix _ d

/-- Both loops end, and leave the same bytes. -/
def Agree (get : B.Parser → Response) (serialize : Request → Str) (p : B.Parser) (b : FlatBuffer) :
    Prop :=
  ∃ fuel fuelC x xC, ReadWriteHttp.putLoop B fuel p b = some x ∧
    ReadWriteHttpC.putLoop (B.client get serialize) fuelC p b = some xC ∧
    x.2.1.data = xC.2.1.data

/-- In terms of the calls after which the loops end. -/
theorem agree_iff_endsAt {p : B.Parser} {b : FlatBuffer} :
    Agree get serialize p b ↔ ∃ n k, EndsAt putStep Again (p, b, none) n ∧
      EndsAt putStep AgainC (p, b, none) k ∧
      (putStep^[n + 1] (p, b, none)).2.1.data = (putStep^[k + 1] (p, b, none)).2.1.data := by
  constructor
  · rintro ⟨fuel, fuelC, x, xC, hx, hxC, hsame⟩
    obtain ⟨n, -, hn, rfl⟩ := doWhile_eq_some_iff.1 ((putLoop_eq fuel p b none).symm.trans hx)
    obtain ⟨k, -, hk, rfl⟩ := doWhile_eq_some_iff.1 ((putLoopC_eq get serialize fuelC p b none).symm.trans hxC)
    exact ⟨n, k, hn, hk, hsame⟩
  · rintro ⟨n, k, hn, hk, hsame⟩
    have hx := (putLoop_eq (n + 1) p b none).trans (hn.doWhile_eq (Nat.lt_succ_self n))
    have hxC := (putLoopC_eq get serialize (k + 1) p b none).trans
      (hk.doWhile_eq (Nat.lt_succ_self k))
    exact ⟨n + 1, k + 1, _, _, hx, hxC, hsame⟩

/-- Both loops end with the same bytes left exactly when a parser that asks for more in front of bytes,
and is asked again, takes none of them before it reports an error or completes the message. -/
theorem agree_iff (h : B.Progresses) (get : B.Parser → Response) (serialize : Request → Str)
    (p : B.Parser) (b : FlatBuffer) :
    Agree get serialize p b ↔
      ∀ n, (∀ m < n, Again (putStep^[m + 1] (p, b, none))) →
        Asks (putStep^[n + 1] (p, b, none)) →
          ∃ k > n, Ends (putStep^[k + 1] (p, b, none)) ∧
            (putStep^[k + 1] (p, b, none)).2.1.data = (putStep^[n + 1] (p, b, none)).2.1.data := by
  rw [agree_iff_endsAt]
  constructor
  · rintro ⟨n₀, k, hn₀, hk, hsame⟩ n hbefore hasks
    -- the loop of `ReadWriteHTTP` ends where the parser asks, and the other one later
    obtain rfl := hn₀.unique ⟨hbefore, hasks.not_again⟩
    have hle : n₀ ≤ k := hn₀.le fun hagain => hk.stop hagain.againC
    have hne : n₀ ≠ k := by
      rintro rfl
      exact hk.stop hasks.againC
    refine ⟨k, Nat.lt_of_le_of_ne hle hne, ends_of_not_againC hk.stop ?_, hsame.symm⟩
    rw [← hsame]
    exact hasks.2.2
  · intro hall
    obtain ⟨x, hx⟩ := putLoop_terminates h p b
    rw [putLoop_eq _ _ _ none, doWhile_eq_some_iff] at hx
    obtain ⟨n, -, hn, -⟩ := hx
    by_cases hasks : Asks (putStep^[n + 1] (p, b, none))
    · obtain ⟨k, hlt, hends, hsame⟩ := hall n hn.before hasks
      obtain ⟨k', hk', hendsAt⟩ := exists_endsAt hends.not_againC
      have hle : n ≤ k' := hn.le fun hagain => hendsAt.stop hagain.againC
      -- what is left at `k'` is between what is left at `k` and at `n`
      have hupper := data_suffix_of_le (p, b, none) hle
      have hlower := data_suffix_of_le (p, b, none) hk'
      refine ⟨n, k', hn, hendsAt, ?_⟩
      rw [hsame] at hlower
      exact hlower.eq_of_length_le hupper.length_le
    · refine ⟨n, n, hn, ⟨fun m hm => (hn.before m hm).againC, fun hagain => ?_⟩, rfl⟩
      rcases hagain.cases with hserver | hmore
      · exact hn.stop hserver
      · exact hasks hmore

/-! ## A header -/

/-- The length of a header, up to the empty line that ends it. -/
def headerLength : Str → Option Nat
  | [] => none
  | c :: data =>
    if "\r\n\r\n".toList <+: c :: data then some 4 else (headerLength data).map (· + 1)

/-- A parser for a message without a body: it takes nothing as long as the header is incomplete. -/
def header : Beast where
  Parser := Bool
  fresh := false
  put done data :=
    match headerLength data with
    | some n => (n, none, true)
    | none => (0, some .needMore, done)
  isDone := id
  get _ := { method := .get, target := [] }
  serialize _ := []

theorem progresses_header : header.Progresses := by
  intro p data _
  cases hlength : headerLength data with
  | some n =>
    refine Or.inr (Or.inr ?_)
    have hput : header.put p data = (n, none, true) := by simp only [header, hlength]
    rw [hput]
    rfl
  | none =>
    refine Or.inr (Or.inl ?_)
    have hput : header.put p data = (0, some .needMore, p) := by simp only [header, hlength]
    rw [hput]
    exact Option.some_ne_none _

/-- The client of the parser. -/
def headerResponse (_ : header.Parser) : Response := { status := .ok, version := 11 }

/-- A response without a body. -/
def wholeHeader : FlatBuffer where
  data := "HTTP/1.1 200 OK\r\nContent-Length: 0\r\n\r\n".toList

/-- With the whole header in the buffer both loops end. -/
theorem agree_wholeHeader :
    Agree (B := header) headerResponse (fun _ => []) false wholeHeader := by
  refine (agree_iff progresses_header headerResponse (fun _ => []) false _).2 fun n hbefore hasks => ?_
  cases n with
  | zero => exact absurd hasks.2.1 (by decide)
  | succ n => exact absurd (hbefore 0 (Nat.succ_pos n)).2.1 (by decide)

/-- The first part of the first line. -/
def partLine : FlatBuffer := { data := "HTTP/1.1 200".toList }

/-- The parser has asked for the rest of the line. -/
def asked : header.ParseState := (false, partLine, some .needMore)

/-- Asked again, it answers the same, as often as it is asked. -/
theorem doWhile_asked (fuel : Nat) : doWhile putStep AgainC fuel asked = none := by
  have hsame : putStep asked = asked := rfl
  have hagain : AgainC asked := by decide
  induction fuel with
  | zero => rfl
  | succ fuel ih => rw [doWhile, hsame, if_pos hagain, ih]

/-- The loop of `ReadWriteHTTPC` never ends. -/
theorem partLine_hangs :
    header.Progresses ∧
      (∃ x, ReadWriteHttp.putLoop header 1 false partLine = some x ∧ x.2.1 = partLine) ∧
      (∀ fuel, ReadWriteHttpC.putLoop (header.client headerResponse fun _ => []) fuel false partLine =
        none) ∧
      ¬ ∀ B : Beast, B.Progresses → ∀ get serialize p b, Agree (B := B) get serialize p b := by
  have hhangs : ∀ fuel, ReadWriteHttpC.putLoop (header.client headerResponse fun _ => []) fuel false
      partLine = none := fun fuel =>
    (@putLoopC_eq header headerResponse (fun _ => []) fuel false partLine (some .needMore)).trans
      (doWhile_asked fuel)
  refine ⟨progresses_header, ⟨asked, rfl, rfl⟩, hhangs, fun hall => ?_⟩
  obtain ⟨fuel, fuelC, x, xC, -, hxC, -⟩ :=
    hall header progresses_header headerResponse (fun _ => []) false partLine
  rw [hhangs fuelC] at hxC
  cases hxC

end Beast

end LocalSoftware.Http
