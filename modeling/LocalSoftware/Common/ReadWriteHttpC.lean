import LocalSoftware.Common.ReadWriteHttp

/-!
# Sending requests and reading responses

`ReadWriteHTTPC` of `readwrite_httpc.h` and `readwrite_httpc.cpp`, the client side of
`ReadWriteHTTP`. It tries to parse what its buffer holds before it reads, so that a response may be
complete in the call of `read_http`, and it goes on parsing as long as the parser asks for more and
the buffer is not empty.

`readHttp_cases` and `onNewData_cases` say what the handlers do with the bytes in the buffer.
-/

set_option autoImplicit false

namespace LocalSoftware.Http

open ReadWriteHttp (ChildType ChildConstruct ChildCall vocabulary Continues)

/-- `http::response_parser` and `http::request_serializer`. -/
structure ClientBeast where
  Parser : Type
  fresh : Parser
  /-- `put`: the number of bytes consumed, the error, and the parser afterwards. -/
  put : Parser → Str → Nat × Option ParseError × Parser
  isDone : Parser → Bool
  get : Parser → Response
  serialize : Request → Str

/-- `ReadWriteHTTPC`. A null `parser_` is `none`. -/
structure ReadWriteHttpC (B : ClientBeast) where
  tlsEnabled : Bool
  readOp : Bool := true
  taskidWriter : Id := none
  taskidReader : Id := none
  parser : Option B.Parser := none
  buffer : FlatBuffer := {}
  writeBuffer : FlatBuffer := {}

namespace ReadWriteHttpC

variable {B : ClientBeast}

/-- The class of the child. -/
def child (s : ReadWriteHttpC B) : ChildType := if s.tlsEnabled then .tlsSocket else .readWriteBytes

/-- The constructor. -/
def constructor (useSsl : Bool) : Script vocabulary Unit := do
  if useSsl then
    let _ ← Script.i (V := vocabulary) .tlsSocket (.tlsSocket false)
  else
    let _ ← Script.i (V := vocabulary) .readWriteBytes .readWriteBytes

/-- `arm_read`. -/
def armRead (s : ReadWriteHttpC B) : Script vocabulary (ReadWriteHttpC B) := do
  let s := { s with buffer := s.buffer.prepare 4096 }
  let taskid ← Script.cAt (V := vocabulary) s.child 0 (.read 4096 false)
  return { s with taskidReader := taskid }

/-- `arm_write`. -/
def armWrite (s : ReadWriteHttpC B) : Script vocabulary (ReadWriteHttpC B) := do
  if s.writeBuffer.data = [] then
    return s
  else
    let taskid ← Script.cAt (V := vocabulary) s.child 0 (.write s.writeBuffer.data)
    return { s with taskidWriter := taskid }

/-- `write_http`. -/
def writeHttp (s : ReadWriteHttpC B) (res : Request) : Script vocabulary (ReadWriteHttpC B) :=
  armWrite { s with
    readOp := false
    writeBuffer := { s.writeBuffer with data := s.writeBuffer.data ++ B.serialize res } }

/-- The `put` calls of `try_parse`: the first one, and those of its loop. A parser that asks for more
without having consumed anything is asked again and again: `fuel` above the number of bytes is used
up only then. -/
def putLoop (B : ClientBeast) : Nat → B.Parser → FlatBuffer →
    Option (B.Parser × FlatBuffer × Option ParseError)
  | 0, _, _ => none
  | fuel + 1, p, buffer =>
    let (consumed, ec, p) := B.put p buffer.data
    let buffer := buffer.consume consumed
    if (ec = none ∨ ec = some .needMore) ∧ ¬ B.isDone p ∧ buffer.data ≠ [] then
      putLoop B fuel p buffer
    else some (p, buffer, ec)

/-- `try_parse`. A parse error counts as done. -/
def tryParse (s : ReadWriteHttpC B) : Except Fault (Bool × ReadWriteHttpC B) :=
  match s.parser with
  | none => .error .undefinedBehaviour
  | some p =>
    match putLoop B (s.buffer.data.length + 1) p s.buffer with
    | none => .error .nonTermination
    | some (p, buffer, ec) =>
      let done := if ec ≠ none ∧ ec ≠ some .needMore then true else B.isDone p
      .ok (done, { s with parser := some p, buffer })

/-- `handle_read`. -/
def handleRead (s : ReadWriteHttpC B) (res : Int) :
    Script vocabulary (Yielded × ReadWriteHttpC B) := do
  let s := if 0 < res then { s with buffer := s.buffer.commit res.toNat } else s
  let (done, s) ← Script.ofExcept s.tryParse
  if done then
    return (some (false, 1), s)
  else
    let s ← s.armRead
    return (none, s)

/-- `read_http`: the task may be complete at once. -/
def readHttp (s : ReadWriteHttpC B) : Script vocabulary (Yielded × ReadWriteHttpC B) :=
  handleRead { s with readOp := true, parser := some B.fresh } 0

/-- `handle_write`. -/
def handleWrite (s : ReadWriteHttpC B) (res : Int) :
    Script vocabulary (Yielded × ReadWriteHttpC B) := do
  let s := if 0 < res then { s with writeBuffer := s.writeBuffer.consume res.toNat } else s
  if s.writeBuffer.data ≠ [] then
    let s ← s.armWrite
    return (none, s)
  else
    return (some (false, 1), s)

/-- `on_new_data`. -/
def onNewData (s : ReadWriteHttpC B) : EventType → Script vocabulary (Yielded × ReadWriteHttpC B)
  | .childTaskCompletion res =>
    if res.returnCode ≤ 0 then return (some (true, res.returnCode), s)
    else if s.readOp then s.handleRead res.returnCode
    else s.handleWrite res.returnCode
  | _ => .throw .badVariantAccess

/-! ## What a handler leaves behind -/

section Inversion

variable {s s' : ReadWriteHttpC B} {es es' : EventState vocabulary} {y : Yielded}

theorem armWrite_cases (h : (armWrite s).run es = .ok (s', es')) :
    s'.readOp = s.readOp ∧ s'.buffer = s.buffer ∧ (s.writeBuffer.data = [] ∧ es' = es ∨
      es'.function.map (·.fn) = es.function.map (·.fn) ++ [.write s.writeBuffer.data]) := by
  by_cases hempty : s.writeBuffer.data = []
  · simp only [armWrite, if_pos hempty, Script.run_pure, Except.ok.injEq, Prod.mk.injEq] at h
    obtain ⟨rfl, rfl⟩ := h
    exact ⟨rfl, rfl, Or.inl ⟨hempty, rfl⟩⟩
  · simp only [armWrite, if_neg hempty, Script.run_bind, Script.run_cAt, Script.run_pure,
      Except.ok.injEq, Prod.mk.injEq] at h
    obtain ⟨rfl, rfl⟩ := h
    exact ⟨rfl, rfl, Or.inr List.map_append⟩

/-- The parser takes bytes from the front of the buffer only. -/
theorem putLoop_drop : ∀ {fuel : Nat} {p p' : B.Parser} {b b' : FlatBuffer}
    {ec : Option ParseError}, putLoop B fuel p b = some (p', b', ec) →
      ∃ k, b'.data = b.data.drop k
  | 0, _, _, _, _, _, h => by cases h
  | fuel + 1, p, p', b, b', ec, h => by
    simp only [putLoop] at h
    split at h
    · obtain ⟨k, hk⟩ := putLoop_drop h
      exact ⟨(B.put p b.data).1 + k, by rw [hk, FlatBuffer.data_consume, List.drop_drop]⟩
    · simp only [Option.some.injEq, Prod.mk.injEq] at h
      obtain ⟨-, rfl, -⟩ := h
      exact ⟨_, rfl⟩

theorem tryParse_cases {done : Bool} (h : s.tryParse = .ok (done, s')) :
    s'.readOp = s.readOp ∧ ∃ k, s'.buffer.data = s.buffer.data.drop k := by
  unfold tryParse at h
  split at h
  · cases h
  · split at h
    · cases h
    · rename_i p' b' ec hput
      simp only [Except.ok.injEq, Prod.mk.injEq] at h
      obtain ⟨-, rfl⟩ := h
      exact ⟨rfl, putLoop_drop hput⟩

/-- `handle_read` puts the bytes that were read behind those of the buffer, and the parser takes some
from its front. -/
theorem handleRead_cases {res : Int} (hop : s.readOp = true)
    (h : (s.handleRead res).run es = .ok ((y, s'), es')) :
    s'.readOp = true ∧ Continues true es y es' ∧
      ∃ k, s'.buffer.data =
        (if 0 < res then (s.buffer.commit res.toNat).data else s.buffer.data).drop k := by
  have hcommit : (if 0 < res then { s with buffer := s.buffer.commit res.toNat } else s).readOp =
      true := by
    split
    · exact hop
    · exact hop
  have hdata : (if 0 < res then { s with buffer := s.buffer.commit res.toNat } else s).buffer.data =
      if 0 < res then (s.buffer.commit res.toNat).data else s.buffer.data := by
    split
    · rfl
    · rfl
  simp only [handleRead, Script.run_bind, Script.run_ofExcept] at h
  generalize (if 0 < res then { s with buffer := s.buffer.commit res.toNat } else s) = s₀ at *
  cases hparse : s₀.tryParse with
  | error e => simp [hparse, Except.map] at h
  | ok r =>
    obtain ⟨done, s₁⟩ := r
    obtain ⟨hop₁, k, hk⟩ := tryParse_cases hparse
    simp only [hparse, Except.map] at h
    cases done with
    | true =>
      simp only [if_true, Script.run_pure, Except.ok.injEq, Prod.mk.injEq] at h
      obtain ⟨⟨rfl, rfl⟩, rfl⟩ := h
      exact ⟨hop₁.trans hcommit, .done, k, by rw [hk, hdata]⟩
    | false =>
      simp only [Bool.false_eq_true, if_false, Script.run_bind, armRead, Script.run_cAt,
        Script.run_pure, Except.ok.injEq, Prod.mk.injEq] at h
      obtain ⟨⟨rfl, rfl⟩, rfl⟩ := h
      exact ⟨hop₁.trans hcommit, .reading rfl List.map_append, k, hk.trans (by rw [hdata])⟩

/-- The call of `read_http`. -/
theorem readHttp_cases (h : s.readHttp.run es = .ok ((y, s'), es')) :
    s'.readOp = true ∧ Continues true es y es' ∧
      ∃ k, s'.buffer.data = s.buffer.data.drop k := handleRead_cases rfl h

/-- A completion that succeeded. -/
theorem onNewData_cases {c : ChildTaskCompletion} (hpos : 0 < c.returnCode)
    (h : (s.onNewData (.childTaskCompletion c)).run es = .ok ((y, s'), es')) :
    s'.readOp = s.readOp ∧ Continues s.readOp es y es' ∧
      ∃ k, s'.buffer.data = if s.readOp then (s.buffer.commit c.returnCode.toNat).data.drop k
        else s.buffer.data := by
  have hneg : ¬ c.returnCode ≤ 0 := Int.not_le.mpr hpos
  cases hop : s.readOp with
  | true =>
    simp only [onNewData, if_neg hneg, hop, if_true] at h
    have hcases := handleRead_cases hop h
    rw [if_pos hpos] at hcases
    exact hcases
  | false =>
    simp only [onNewData, if_neg hneg, hop, Bool.false_eq_true, if_false, handleWrite,
      if_pos hpos] at h
    split at h
    · rename_i hrest
      obtain ⟨rfl, harm⟩ := Script.run_wait_ok h
      obtain ⟨hop₂, hbuffer, ⟨hempty, -⟩ | hcalls⟩ := armWrite_cases harm
      · exact absurd hempty hrest
      · exact ⟨hop₂, .writing _ rfl hcalls, 0, by rw [hbuffer]; rfl⟩
    · simp only [Script.run_pure, Except.ok.injEq, Prod.mk.injEq] at h
      obtain ⟨⟨rfl, rfl⟩, rfl⟩ := h
      exact ⟨rfl, .done, 0, rfl⟩

end Inversion

end ReadWriteHttpC

end LocalSoftware.Http
