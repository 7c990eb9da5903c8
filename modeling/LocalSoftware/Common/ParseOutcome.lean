import LocalSoftware.Common.ReadWriteHttp

/-!
# What a read leaves in the parser

`try_parse` reports a parse error as done. `outcome` is what its calls of `put` return on the bytes of
a completed read, `Parsed` says that the message is complete then, and `Failed` that the last call
reported an error other than the wish for more. `read_cases` is the rule for a completed read: it ends
the task with a message that is complete or failed.
-/

set_option autoImplicit false

namespace LocalSoftware.Http.ReadWriteHttp

variable {B : Beast} {s s' : ReadWriteHttp B} {es es' : EventState vocabulary} {y : Yielded}
  {c : ChildTaskCompletion}

/-- What the `put` calls return after a read of `code` bytes: the parser, the bytes that are left,
and the last error. -/
def outcome (s : ReadWriteHttp B) (code : Int) :
    Option (B.Parser × FlatBuffer × Option ParseError) :=
  let buffer := s.buffer.commit code.toNat
  s.parser.bind fun p => putLoop B (buffer.data.length + 1) p buffer

/-- The parser is done, and reported no error. -/
def Parsed (x : B.Parser × FlatBuffer × Option ParseError) : Prop :=
  B.isDone x.1 = true ∧ (x.2.2 = none ∨ x.2.2 = some .needMore)

/-- The parser reported an error. -/
def Failed (x : B.Parser × FlatBuffer × Option ParseError) : Prop := x.2.2 = some .malformed

theorem Failed.not_parsed {x : B.Parser × FlatBuffer × Option ParseError} (h : Failed x) :
    ¬ Parsed x := by
  rintro ⟨-, hnone | hmore⟩
  · exact absurd (hnone.symm.trans h) (by decide)
  · exact absurd (hmore.symm.trans h) (by decide)

/-- What `try_parse` makes of the outcome. -/
theorem tryParse_outcome {code : Int} {done : Bool}
    (h : ({ s with buffer := s.buffer.commit code.toNat } : ReadWriteHttp B).tryParse =
      .ok (done, s')) :
    ∃ x, s.outcome code = some x ∧ s' = { s with parser := some x.1, buffer := x.2.1 } ∧
      (done = true ↔ Failed x ∨ Parsed x) := by
  unfold tryParse at h
  split at h
  · cases h
  · rename_i p hp
    split at h
    · cases h
    · rename_i p' b' ec hput
      obtain ⟨rfl, rfl⟩ := Prod.mk.inj (Except.ok.inj h)
      refine ⟨(p', b', ec), ?_, rfl, ?_⟩
      · unfold outcome
        rw [show s.parser = some p from hp]
        exact hput
      · unfold Failed Parsed
        cases ec with
        | none => simp
        | some e => cases e <;> simp

theorem armRead_eq (h : (armRead s).run es = .ok (s', es')) :
    ∃ id, s' = { s with buffer := s.buffer.prepare 4096, taskidReader := id } := by
  simp only [armRead, Script.run_bind, Script.run_c] at h
  split at h
  · simp only [Script.run_pure, Except.ok.injEq, Prod.mk.injEq] at h
    exact ⟨_, h.1.symm⟩
  · cases h

theorem armWrite_eq (h : (armWrite s).run es = .ok (s', es')) :
    ∃ id, s' = { s with taskidWriter := id } := by
  by_cases hempty : s.writeBuffer.data = []
  · simp only [armWrite, if_pos hempty, Script.run_pure, Except.ok.injEq, Prod.mk.injEq] at h
    exact ⟨s.taskidWriter, h.1.symm⟩
  · simp only [armWrite, if_neg hempty, Script.run_bind, Script.run_c] at h
    split at h
    · simp only [Script.run_pure, Except.ok.injEq, Prod.mk.injEq] at h
      exact ⟨_, h.1.symm⟩
    · cases h

/-- A completed read goes on reading, or ends the task with a message that is complete or failed. -/
theorem read_cases (hop : s.readOp = true) (hpos : 0 < c.returnCode)
    (h : (s.onYield (.childTaskCompletion c)).run es = .ok ((y, s'), es')) :
    ∃ x, s.outcome c.returnCode = some x ∧ s'.readOp = true ∧ s'.writeBuffer = s.writeBuffer ∧
      ((y = none ∧ ¬ Failed x) ∨
        (y = some (false, 1) ∧ (Failed x ∨ Parsed x) ∧ s'.parser = some x.1)) := by
  rw [onYield_read hop hpos] at h
  obtain ⟨done, s₁, hparse, hcases⟩ := handleRead_eq_ok hpos h
  obtain ⟨x, hx, rfl, hdone⟩ := tryParse_outcome hparse
  refine ⟨x, hx, ?_⟩
  rcases hcases with ⟨rfl, rfl, rfl, -⟩ | ⟨rfl, rfl, harm⟩
  · exact ⟨hop, rfl, Or.inr ⟨rfl, hdone.1 rfl, rfl⟩⟩
  · obtain ⟨id, rfl⟩ := armRead_eq harm
    exact ⟨hop, rfl, Or.inl ⟨rfl, fun hfailed => Bool.false_ne_true (hdone.2 (Or.inl hfailed))⟩⟩

/-- A completed write, or an event that ends the task, takes bytes from the response at most. -/
theorem write_cases (hop : s.readOp = false ∨ c.returnCode ≤ 0)
    (h : (s.onYield (.childTaskCompletion c)).run es = .ok ((y, s'), es')) :
    s'.readOp = s.readOp ∧ s'.writeBuffer.data <:+ s.writeBuffer.data ∧ s'.parser = s.parser ∧
      ∀ r, y = some r → (0 < r.2 → 0 < c.returnCode ∧ s.readOp = false) := by
  by_cases hneg : c.returnCode ≤ 0
  · simp only [onYield, if_pos hneg, Script.run_pure, Except.ok.injEq, Prod.mk.injEq] at h
    obtain ⟨⟨rfl, rfl⟩, rfl⟩ := h
    refine ⟨rfl, List.suffix_rfl, rfl, ?_⟩
    rintro r hr hpos
    obtain rfl := Option.some.inj hr
    simp only at hpos
    omega
  · have hpos : 0 < c.returnCode := Int.not_le.1 hneg
    have hwrite := hop.resolve_right hneg
    rw [onYield_write hwrite hpos] at h
    have hsuffix : s.writeBuffer.data.drop c.returnCode.toNat <:+ s.writeBuffer.data :=
      List.drop_suffix _ _
    obtain ⟨-, rfl, harm⟩ | ⟨rfl, rfl, -⟩ := handleWrite_eq_ok hpos h
    · obtain ⟨id, rfl⟩ := armWrite_eq harm
      exact ⟨rfl, hsuffix, rfl, fun r hr => by cases hr⟩
    · exact ⟨rfl, hsuffix, rfl, fun r _ _ => ⟨hpos, hwrite⟩⟩

/-- `read_http` leaves the response. -/
theorem readHttp_eq (h : (readHttp s).run es = .ok (s', es')) :
    s'.readOp = true ∧ s'.writeBuffer = s.writeBuffer := by
  obtain ⟨id, rfl⟩ := armRead_eq h
  exact ⟨rfl, rfl⟩

/-- `write_http` puts the response behind what is left of the last one. -/
theorem writeHttp_eq {res : Response} (h : (writeHttp s res).run es = .ok (s', es')) :
    s'.readOp = false ∧ s'.writeBuffer.data = s.writeBuffer.data ++ B.serialize res := by
  obtain ⟨id, rfl⟩ := armWrite_eq h
  exact ⟨rfl, rfl⟩

end LocalSoftware.Http.ReadWriteHttp
