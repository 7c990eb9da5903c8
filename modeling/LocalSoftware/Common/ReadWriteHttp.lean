import LocalSoftware.Common.Event
import LocalSoftware.Common.HttpMessage

/-!
# Reading requests and writing responses

`ReadWriteHTTP` of `readwrite_http.h` and `readwrite_http.cpp`, over a plain or a TLS socket.
Boost.Beast is a parameter: `Beast` has its parser and serializer, and `Grammar` what the code
relies on. A parser that has read the part `w` of the message `m` takes bytes of `m` only, asks for
more input as long as `m` is not complete, and is done exactly at the end of `m`, however the bytes
are split.

`Grammar.tryParse_reads` is the resulting rule for `try_parse`.
-/

set_option autoImplicit false

namespace LocalSoftware.Http

/-- The errors of a parser. -/
inductive ParseError where
  | needMore
  | malformed
deriving DecidableEq, Repr

/-- `http::request_parser` and `http::response_serializer`. -/
structure Beast where
  Parser : Type
  fresh : Parser
  /-- `put`: the number of bytes consumed, the error, and the parser afterwards. -/
  put : Parser → Str → Nat × Option ParseError × Parser
  isDone : Parser → Bool
  get : Parser → Request
  serialize : Response → Str

/-- `boost::beast::flat_buffer`: the readable bytes and the writable memory behind them. -/
structure FlatBuffer where
  data : Str := []
  tail : Str := []
deriving DecidableEq, Repr

namespace FlatBuffer

/-- `prepare`: `n` bytes of writable memory, of no particular contents. -/
def prepare (b : FlatBuffer) (n : Nat) : FlatBuffer := { b with tail := List.replicate n '\x00' }

/-- `commit`: the first `n` writable bytes become readable. -/
def commit (b : FlatBuffer) (n : Nat) : FlatBuffer :=
  { data := b.data ++ b.tail.take n, tail := b.tail.drop n }

/-- `consume`. -/
def consume (b : FlatBuffer) (n : Nat) : FlatBuffer := { b with data := b.data.drop n }

/-- A completed read has written `chunk` to the writable memory. -/
def fill (b : FlatBuffer) (chunk : Str) : FlatBuffer :=
  { b with tail := chunk ++ b.tail.drop chunk.length }

@[simp] theorem data_prepare (b : FlatBuffer) (n : Nat) : (b.prepare n).data = b.data := rfl

@[simp] theorem data_consume (b : FlatBuffer) (n : Nat) : (b.consume n).data = b.data.drop n := rfl

@[simp] theorem data_commit_fill (b : FlatBuffer) (chunk : Str) :
    ((b.fill chunk).commit chunk.length).data = b.data ++ chunk := by
  simp [fill, commit]

end FlatBuffer

namespace ReadWriteHttp

/-- The class of the byte socket. -/
inductive ChildType where
  | tlsSocket
  | readWriteBytes
deriving DecidableEq, Repr

/-- The construction that is queued. -/
inductive ChildConstruct where
  | tlsSocket (server : Bool)
  | readWriteBytes
deriving DecidableEq, Repr

/-- The calls that are queued: a read into the writable memory of `buffer_`, and a write of the
readable bytes of `write_buffer_`. -/
inductive ChildCall where
  | read (len : Nat) (readAll : Bool)
  | write (data : Str)
deriving DecidableEq, Repr

/-- What the object queues. -/
abbrev vocabulary : Vocabulary where
  TypeIndex := ChildType
  ConstructFunc := ChildConstruct
  FunctionFunc := ChildCall
  Sqe := Empty

end ReadWriteHttp

open ReadWriteHttp

/-- `ReadWriteHTTP`. A null `parser_` is `none`. -/
structure ReadWriteHttp (B : Beast) where
  tlsEnabled : Bool
  readOp : Bool := true
  taskidWriter : Id := none
  taskidReader : Id := none
  parser : Option B.Parser := none
  buffer : FlatBuffer := {}
  writeBuffer : FlatBuffer := {}

namespace ReadWriteHttp

variable {B : Beast}

/-- The class of the child. -/
def child (s : ReadWriteHttp B) : ChildType := if s.tlsEnabled then .tlsSocket else .readWriteBytes

/-- The constructor. -/
def constructor (useSsl : Bool) : Script vocabulary Unit := do
  if useSsl then
    let _ ← Script.i (V := vocabulary) .tlsSocket (.tlsSocket true)
  else
    let _ ← Script.i (V := vocabulary) .readWriteBytes .readWriteBytes

/-- `arm_read`. -/
def armRead (s : ReadWriteHttp B) : Script vocabulary (ReadWriteHttp B) := do
  let s := { s with buffer := s.buffer.prepare 4096 }
  let taskid ← Script.c (V := vocabulary) s.child (.read 4096 false)
  return { s with taskidReader := taskid }

/-- `arm_write`. -/
def armWrite (s : ReadWriteHttp B) : Script vocabulary (ReadWriteHttp B) := do
  if s.writeBuffer.data = [] then
    return s
  else
    let taskid ← Script.c (V := vocabulary) s.child (.write s.writeBuffer.data)
    return { s with taskidWriter := taskid }

/-- `read_http`. -/
def readHttp (s : ReadWriteHttp B) : Script vocabulary (ReadWriteHttp B) :=
  armRead { s with readOp := true, parser := some B.fresh }

/-- `write_http`. -/
def writeHttp (s : ReadWriteHttp B) (res : Response) : Script vocabulary (ReadWriteHttp B) :=
  armWrite { s with
    readOp := false
    writeBuffer := { s.writeBuffer with data := s.writeBuffer.data ++ B.serialize res } }

/-- The `put` calls of `try_parse`: the first one, and those of its loop. The result is the parser,
the unread bytes and the last error. With `fuel` above the number of bytes it is used up only by a
parser that neither consumes, fails nor finishes. -/
def putLoop (B : Beast) : Nat → B.Parser → FlatBuffer →
    Option (B.Parser × FlatBuffer × Option ParseError)
  | 0, _, _ => none
  | fuel + 1, p, buffer =>
    let (consumed, ec, p) := B.put p buffer.data
    let buffer := buffer.consume consumed
    if ec = none ∧ ¬ B.isDone p ∧ buffer.data ≠ [] then putLoop B fuel p buffer
    else some (p, buffer, ec)

/-- `try_parse`. A parse error counts as done. -/
def tryParse (s : ReadWriteHttp B) : Except Fault (Bool × ReadWriteHttp B) :=
  match s.parser with
  | none => .error .undefinedBehaviour
  | some p =>
    match putLoop B (s.buffer.data.length + 1) p s.buffer with
    | none => .error .nonTermination
    | some (p, buffer, ec) =>
      let done := if ec ≠ none ∧ ec ≠ some .needMore then true else B.isDone p
      .ok (done, { s with parser := some p, buffer })

/-- `handle_read`. -/
def handleRead (s : ReadWriteHttp B) (res : Int) :
    Script vocabulary (Yielded × ReadWriteHttp B) := do
  let s := if 0 < res then { s with buffer := s.buffer.commit res.toNat } else s
  let (done, s) ← Script.ofExcept s.tryParse
  if done then
    return (some (false, 1), s)
  else
    let s ← s.armRead
    return (none, s)

/-- `handle_write`. -/
def handleWrite (s : ReadWriteHttp B) (res : Int) :
    Script vocabulary (Yielded × ReadWriteHttp B) := do
  let s := if 0 < res then { s with writeBuffer := s.writeBuffer.consume res.toNat } else s
  if s.writeBuffer.data ≠ [] then
    let s ← s.armWrite
    return (none, s)
  else
    return (some (false, 1), s)

/-- `on_yield`. -/
def onYield (s : ReadWriteHttp B) : EventType → Script vocabulary (Yielded × ReadWriteHttp B)
  | .childTaskCompletion res =>
    if res.returnCode ≤ 0 then return (some (true, res.returnCode), s)
    else if s.readOp then s.handleRead res.returnCode
    else s.handleWrite res.returnCode
  | _ => .throw .badVariantAccess

section Runs

variable {s : ReadWriteHttp B} {es : EventState vocabulary} {info : EventInfo}

theorem run_armRead (h : es.uringData.evinfo s.child 0 = .ok info) :
    (armRead s).run es =
      .ok ({ s with
        buffer := s.buffer.prepare 4096, taskidReader := some es.uringData.localProcId },
        (es.callAt (V := vocabulary) s.child 0 (.read 4096 false)).2) := by
  have hcall := EventState.call_of_evinfo h (.read 4096 false)
  have hchild : ({ s with buffer := s.buffer.prepare 4096 } : ReadWriteHttp B).child = s.child := rfl
  simp only [armRead, Script.run_bind, Script.run_c, hchild, hcall, Script.run_pure]
  rfl

theorem run_armWrite (h : es.uringData.evinfo s.child 0 = .ok info) (hw : s.writeBuffer.data ≠ []) :
    (armWrite s).run es =
      .ok ({ s with taskidWriter := some es.uringData.localProcId },
        (es.callAt (V := vocabulary) s.child 0 (.write s.writeBuffer.data)).2) := by
  have hcall := EventState.call_of_evinfo h (.write s.writeBuffer.data)
  simp only [armWrite, if_neg hw, Script.run_bind, Script.run_c, hcall, Script.run_pure]
  rfl

theorem onYield_read {c : ChildTaskCompletion} (hop : s.readOp = true) (hpos : 0 < c.returnCode) :
    s.onYield (.childTaskCompletion c) = s.handleRead c.returnCode := by
  have hneg : ¬ c.returnCode ≤ 0 := by omega
  simp only [onYield, if_neg hneg, hop, if_true]

theorem onYield_write {c : ChildTaskCompletion} (hop : s.readOp = false)
    (hpos : 0 < c.returnCode) :
    s.onYield (.childTaskCompletion c) = s.handleWrite c.returnCode := by
  have hneg : ¬ c.returnCode ≤ 0 := by omega
  simp only [onYield, if_neg hneg, hop, Bool.false_eq_true, if_false]

/-- A completed read whose bytes end the message. -/
theorem run_onYield_read_done {c : ChildTaskCompletion} (hop : s.readOp = true)
    (hpos : 0 < c.returnCode) {s' : ReadWriteHttp B}
    (hparse : ({ s with buffer := s.buffer.commit c.returnCode.toNat } : ReadWriteHttp B).tryParse =
      .ok (true, s')) :
    (s.onYield (.childTaskCompletion c)).run es = .ok ((some (false, 1), s'), es) := by
  rw [onYield_read hop hpos]
  simp only [handleRead, if_pos hpos, Script.run_bind,
    Script.run_ofExcept, hparse, Except.map, if_true, Script.run_pure]

/-- A completed read after which the message is still open. -/
theorem run_onYield_read_more {c : ChildTaskCompletion} (hop : s.readOp = true)
    (hpos : 0 < c.returnCode) {s' : ReadWriteHttp B}
    (hparse : ({ s with buffer := s.buffer.commit c.returnCode.toNat } : ReadWriteHttp B).tryParse =
      .ok (false, s')) (h : es.uringData.evinfo s'.child 0 = .ok info) :
    (s.onYield (.childTaskCompletion c)).run es =
      .ok ((none, { s' with
        buffer := s'.buffer.prepare 4096, taskidReader := some es.uringData.localProcId }),
        (es.callAt (V := vocabulary) s'.child 0 (.read 4096 false)).2) := by
  rw [onYield_read hop hpos]
  simp only [handleRead, if_pos hpos, Script.run_bind,
    Script.run_ofExcept, hparse, Except.map, Bool.false_eq_true, if_false, run_armRead h,
    Script.run_pure]

/-- The completion of the last write of a response. -/
theorem run_onYield_write_done {c : ChildTaskCompletion} (hop : s.readOp = false)
    (hpos : 0 < c.returnCode) (hall : s.writeBuffer.data.drop c.returnCode.toNat = []) :
    (s.onYield (.childTaskCompletion c)).run es =
      .ok ((some (false, 1),
        { s with writeBuffer := s.writeBuffer.consume c.returnCode.toNat }), es) := by
  rw [onYield_write hop hpos]
  simp only [handleWrite, if_pos hpos, FlatBuffer.data_consume, hall, ne_eq, not_true_eq_false,
    if_false, Script.run_pure]

/-- The completion of a write that leaves a part of the response. -/
theorem run_onYield_write_more {c : ChildTaskCompletion} (hop : s.readOp = false)
    (hpos : 0 < c.returnCode) (hrest : s.writeBuffer.data.drop c.returnCode.toNat ≠ [])
    (h : es.uringData.evinfo s.child 0 = .ok info) :
    (s.onYield (.childTaskCompletion c)).run es =
      .ok ((none, { s with
        writeBuffer := s.writeBuffer.consume c.returnCode.toNat
        taskidWriter := some es.uringData.localProcId }),
        (es.callAt (V := vocabulary) s.child 0
          (.write (s.writeBuffer.data.drop c.returnCode.toNat))).2) := by
  rw [onYield_write hop hpos]
  have harm := @run_armWrite B
    { s with writeBuffer := s.writeBuffer.consume c.returnCode.toNat } es info h hrest
  simp only [handleWrite, if_pos hpos, FlatBuffer.data_consume, ne_eq, hrest, not_false_eq_true, if_true,
    Script.run_bind, harm, Script.run_pure]
  rfl

end Runs

/-! ## What a handler leaves behind -/

/-- How a task goes on: it is complete, or it waits for a read or for a write. -/
inductive Continues (readOp : Bool) (es : EventState vocabulary) :
    Yielded → EventState vocabulary → Prop where
  | done : Continues readOp es (some (false, 1)) es
  | reading {es' : EventState vocabulary} (hop : readOp = true)
      (hcalls : es'.function.map (·.fn) = es.function.map (·.fn) ++ [.read 4096 false]) :
      Continues readOp es none es'
  | writing {es' : EventState vocabulary} (data : Str) (hop : readOp = false)
      (hcalls : es'.function.map (·.fn) = es.function.map (·.fn) ++ [.write data]) :
      Continues readOp es none es'

section Inversion

variable {s s' : ReadWriteHttp B} {es es' : EventState vocabulary} {y : Yielded}

/-- A call that is made is queued. -/
theorem function_of_call {ty : ChildType} {fn : ChildCall} {l : Id} (h : es.call ty fn = .ok (l, es')) :
    es'.function.map (·.fn) = es.function.map (·.fn) ++ [fn] := by
  obtain ⟨-, rfl⟩ := Prod.mk.inj (EventState.call_eq_ok h)
  exact List.map_append

theorem armRead_cases (h : (armRead s).run es = .ok (s', es')) :
    s'.readOp = s.readOp ∧ s'.buffer.data = s.buffer.data ∧
      es'.function.map (·.fn) = es.function.map (·.fn) ++ [.read 4096 false] := by
  simp only [armRead, Script.run_bind, Script.run_c] at h
  split at h
  · rename_i l es₁ hcall
    simp only [Script.run_pure, Except.ok.injEq, Prod.mk.injEq] at h
    obtain ⟨rfl, rfl⟩ := h
    exact ⟨rfl, rfl, function_of_call hcall⟩
  · cases h

theorem armWrite_cases (h : (armWrite s).run es = .ok (s', es')) :
    s'.readOp = s.readOp ∧ s'.buffer = s.buffer ∧ (s.writeBuffer.data = [] ∧ es' = es ∨
      es'.function.map (·.fn) = es.function.map (·.fn) ++ [.write s.writeBuffer.data]) := by
  by_cases hempty : s.writeBuffer.data = []
  · simp only [armWrite, if_pos hempty, Script.run_pure, Except.ok.injEq, Prod.mk.injEq] at h
    obtain ⟨rfl, rfl⟩ := h
    exact ⟨rfl, rfl, Or.inl ⟨hempty, rfl⟩⟩
  · simp only [armWrite, if_neg hempty, Script.run_bind, Script.run_c] at h
    split at h
    · rename_i l es₁ hcall
      simp only [Script.run_pure, Except.ok.injEq, Prod.mk.injEq] at h
      obtain ⟨rfl, rfl⟩ := h
      exact ⟨rfl, rfl, Or.inr (function_of_call hcall)⟩
    · cases h

/-- The parser takes bytes from the front of the buffer only. -/
theorem putLoop_drop : ∀ {fuel : Nat} {p p' : B.Parser} {b b' : FlatBuffer}
    {ec : Option ParseError}, putLoop B fuel p b = some (p', b', ec) →
      ∃ k, b'.data = b.data.drop k
  | 0, _, _, _, _, _, h => by cases h
  | fuel + 1, p, p', b, b', ec, h => by
    simp only [putLoop] at h
    split at h
    · obtain ⟨k, hk⟩ := putLoop_drop h
      exact ⟨(B.put p b.data).1 + k, by rw [hk, FlatBuffer.data_consume, List.drop_drop]⟩
    · simp only [Option.some.injEq, Prod.mk.injEq] at h
      obtain ⟨-, rfl, -⟩ := h
      exact ⟨_, rfl⟩

theorem tryParse_cases {done : Bool} (h : s.tryParse = .ok (done, s')) :
    s'.readOp = s.readOp ∧ ∃ k, s'.buffer.data = s.buffer.data.drop k := by
  unfold tryParse at h
  split at h
  · cases h
  · split at h
    · cases h
    · rename_i p' b' ec hput
      simp only [Except.ok.injEq, Prod.mk.injEq] at h
      obtain ⟨-, rfl⟩ := h
      exact ⟨rfl, putLoop_drop hput⟩

/-- `handle_read` gives the bytes to the parser, and goes on when the message is not complete. -/
theorem handleRead_eq_ok {res : Int} (hpos : 0 < res)
    (h : (s.handleRead res).run es = .ok ((y, s'), es')) :
    ∃ done s₁, ({ s with buffer := s.buffer.commit res.toNat } : ReadWriteHttp B).tryParse =
        .ok (done, s₁) ∧
      ((done = true ∧ y = some (false, 1) ∧ s' = s₁ ∧ es' = es) ∨
        (done = false ∧ y = none ∧ (armRead s₁).run es = .ok (s', es'))) := by
  simp only [handleRead, if_pos hpos] at h
  obtain ⟨⟨done, s₁⟩, hparse, hrest⟩ := Script.run_ofExcept_bind_ok h
  refine ⟨done, s₁, hparse, ?_⟩
  cases done with
  | true =>
    simp only [if_true, Script.run_pure, Except.ok.injEq, Prod.mk.injEq] at hrest
    obtain ⟨⟨rfl, rfl⟩, rfl⟩ := hrest
    exact Or.inl ⟨rfl, rfl, rfl, rfl⟩
  | false =>
    obtain ⟨rfl, harm⟩ := Script.run_wait_ok hrest
    exact Or.inr ⟨rfl, rfl, harm⟩

/-- `handle_write` goes on when there is a rest. -/
theorem handleWrite_eq_ok {res : Int} (hpos : 0 < res)
    (h : (s.handleWrite res).run es = .ok ((y, s'), es')) :
    ((s.writeBuffer.consume res.toNat).data ≠ [] ∧ y = none ∧
      (armWrite { s with writeBuffer := s.writeBuffer.consume res.toNat }).run es = .ok (s', es')) ∨
    (y = some (false, 1) ∧ s' = { s with writeBuffer := s.writeBuffer.consume res.toNat } ∧
      es' = es) := by
  simp only [handleWrite, if_pos hpos] at h
  split at h
  · rename_i hrest
    obtain ⟨rfl, harm⟩ := Script.run_wait_ok h
    exact Or.inl ⟨hrest, rfl, harm⟩
  · simp only [Script.run_pure, Except.ok.injEq, Prod.mk.injEq] at h
    obtain ⟨⟨rfl, rfl⟩, rfl⟩ := h
    exact Or.inr ⟨rfl, rfl, rfl⟩

/-- A completion that succeeded: bytes that were read are put behind those of the buffer, and the
parser takes some from its front. -/
theorem onYield_cases {c : ChildTaskCompletion} (hpos : 0 < c.returnCode)
    (h : (s.onYield (.childTaskCompletion c)).run es = .ok ((y, s'), es')) :
    s'.readOp = s.readOp ∧ Continues s.readOp es y es' ∧
      ∃ k, s'.buffer.data = if s.readOp then (s.buffer.commit c.returnCode.toNat).data.drop k
        else s.buffer.data := by
  cases hop : s.readOp with
  | true =>
    rw [onYield_read hop hpos] at h
    obtain ⟨done, s₁, hparse, ⟨-, rfl, rfl, rfl⟩ | ⟨-, rfl, harm⟩⟩ := handleRead_eq_ok hpos h
    · obtain ⟨hop₁, k, hk⟩ := tryParse_cases hparse
      exact ⟨hop₁.trans hop, .done, k, hk⟩
    · obtain ⟨hop₁, k, hk⟩ := tryParse_cases hparse
      obtain ⟨hop₂, hdata, hcalls⟩ := armRead_cases harm
      exact ⟨hop₂.trans (hop₁.trans hop), .reading rfl hcalls, k, hdata.trans hk⟩
  | false =>
    rw [onYield_write hop hpos] at h
    obtain ⟨hrest, rfl, harm⟩ | ⟨rfl, rfl, rfl⟩ := handleWrite_eq_ok hpos h
    · obtain ⟨hop₂, hbuffer, ⟨hempty, -⟩ | hcalls⟩ := armWrite_cases harm
      · exact absurd hempty hrest
      · exact ⟨hop₂.trans hop, .writing _ rfl hcalls, 0, by rw [hbuffer]; rfl⟩
    · exact ⟨hop, .done, 0, rfl⟩

end Inversion

end ReadWriteHttp

/-- What the code relies on in Beast. `Encodes m r` says that the bytes `m` are a complete valid
request of the value `r`, and `Reads m w p` that the parser `p` has consumed the part `w` of `m`. -/
structure Grammar (B : Beast) where
  Encodes : Str → Request → Prop
  Reads : Str → Str → B.Parser → Prop
  nonempty : ∀ {m r}, Encodes m r → m ≠ []
  fresh : ∀ {m r}, Encodes m r → Reads m [] B.fresh
  /-- Only bytes of the message are consumed, in any split. -/
  put_reads : ∀ {m r w p d}, Encodes m r → Reads m w p → w ≠ m → w ++ d <+: m ∨ m <+: w ++ d →
    (B.put p d).1 ≤ d.length ∧ w ++ d.take (B.put p d).1 <+: m ∧
      Reads m (w ++ d.take (B.put p d).1) (B.put p d).2.2
  /-- On bytes, and without an error, the parser gets further. -/
  put_progress : ∀ {m r w p d}, Encodes m r → Reads m w p → w ≠ m → w ++ d <+: m ∨ m <+: w ++ d →
    d ≠ [] → (B.put p d).2.1 = none → 0 < (B.put p d).1 ∨ B.isDone (B.put p d).2.2
  /-- On bytes, the only error is the wish for the rest of the message. -/
  put_error : ∀ {m r w p d e}, Encodes m r → Reads m w p → w ≠ m → w ++ d <+: m ∨ m <+: w ++ d →
    d ≠ [] → (B.put p d).2.1 = some e → e = .needMore ∧ ¬ m <+: w ++ d
  isDone_iff : ∀ {m r w p}, Encodes m r → Reads m w p → (B.isDone p ↔ w = m)
  get_eq : ∀ {m r p}, Encodes m r → Reads m m p → B.get p = r
  serialize_ne_nil : ∀ res, B.serialize res ≠ []

namespace Grammar

variable {B : Beast} (G : Grammar B) {m w : Str} {r : Request} {p : B.Parser}

theorem nil_ne (h : G.Encodes m r) : [] ≠ m := (G.nonempty h).symm

/-- The calls of `put` end, having moved a part of the buffer to the parser; this part completes
the message as soon as the buffer holds the rest of it. -/
theorem putLoop_reads (hm : G.Encodes m r) : ∀ {fuel : Nat} {w : Str} {p : B.Parser}
    {b : FlatBuffer}, G.Reads m w p → w ≠ m → (w ++ b.data <+: m ∨ m <+: w ++ b.data) →
      b.data ≠ [] → b.data.length < fuel → ∃ p' b' ec w', putLoop B fuel p b = some (p', b', ec) ∧
        G.Reads m w' p' ∧ w' ++ b'.data = w ++ b.data ∧ w' <+: m ∧
        (ec = none ∨ ec = some .needMore) ∧ (w' = m ↔ m <+: w ++ b.data)
  | 0, w, p, b, _, _, _, _, hfuel => absurd hfuel (Nat.not_lt_zero _)
  | fuel + 1, w, p, b, hr, hw, hcmp, hdata, hfuel => by
    obtain ⟨hk, hpre, hr'⟩ := G.put_reads hm hr hw hcmp
    have hprogress := G.put_progress hm hr hw hcmp hdata
    have herror : ∀ e, (B.put p b.data).2.1 = some e → e = .needMore ∧ ¬ m <+: w ++ b.data :=
      fun e => G.put_error hm hr hw hcmp hdata
    have hdone := G.isDone_iff hm hr'
    have hsplit : w ++ b.data.take (B.put p b.data).1 ++ b.data.drop (B.put p b.data).1 =
        w ++ b.data := by rw [List.append_assoc, List.take_append_drop]
    unfold putLoop
    by_cases hloop : (B.put p b.data).2.1 = none ∧ ¬ B.isDone (B.put p b.data).2.2 ∧
        (b.consume (B.put p b.data).1).data ≠ []
    · -- another round: the parser took something and is not at the end
      have hnone := hloop.1
      have hopen := hloop.2.1
      have hpos : 0 < (B.put p b.data).1 := (hprogress hnone).resolve_right hopen
      have hne : w ++ b.data.take (B.put p b.data).1 ≠ m := fun heq => hopen (hdone.mpr heq)
      have hlt : (b.consume (B.put p b.data).1).data.length < fuel := by
        rw [FlatBuffer.data_consume, List.length_drop]
        omega
      obtain ⟨p', b', ec, w', hput, hreads, hbytes, hw', hec, hend⟩ := putLoop_reads hm hr' hne
        (by rw [FlatBuffer.data_consume, hsplit]; exact hcmp) hloop.2.2 hlt
      rw [FlatBuffer.data_consume, hsplit] at hbytes hend
      refine ⟨p', b', ec, w', ?_, hreads, hbytes, hw', hec, hend⟩
      rw [← hput]
      exact if_pos hloop
    · refine ⟨_, _, _, _, if_neg hloop, hr', hsplit, hpre, ?_, ?_⟩
      -- the loop ends: an error, the end of the message, or an empty buffer
      · cases hec : (B.put p b.data).2.1 with
        | none => exact Or.inl rfl
        | some e => exact Or.inr (by rw [(herror e hec).1])
      · constructor
        · intro heq
          rw [← hsplit, heq]
          exact List.prefix_append _ _
        · intro hfull
          cases hec : (B.put p b.data).2.1 with
          -- `need_more` excludes that the message was there
          | some e => exact absurd hfull (herror e hec).2
          | none =>
            by_contra hne
            have hopen : ¬ B.isDone (B.put p b.data).2.2 := fun hd => hne (hdone.mp hd)
            have hempty : b.data.drop (B.put p b.data).1 = [] := by
              by_contra hrest
              exact hloop ⟨hec, hopen, hrest⟩
            rw [hempty, List.append_nil] at hsplit
            rw [← hsplit] at hfull
            exact hne (hpre.eq_of_length_le hfull.length_le)

/-- `try_parse` on a buffer that continues what the parser has read of `m`: done exactly if the
rest of `m` is there, and the bytes behind it stay in the buffer. -/
theorem tryParse_reads (hm : G.Encodes m r) {s : ReadWriteHttp B} (hs : s.parser = some p)
    (hr : G.Reads m w p) (hw : w ≠ m)
    (hcmp : w ++ s.buffer.data <+: m ∨ m <+: w ++ s.buffer.data) (hdata : s.buffer.data ≠ []) :
    ∃ p' b' w', s.tryParse = .ok (decide (w' = m), { s with parser := some p', buffer := b' }) ∧
      G.Reads m w' p' ∧ w' ++ b'.data = w ++ s.buffer.data ∧ w' <+: m ∧
      (w' = m ↔ m <+: w ++ s.buffer.data) := by
  obtain ⟨p', b', ec, w', hput, hr', hbytes, hpre, hec, hend⟩ :=
    G.putLoop_reads hm hr hw hcmp hdata (Nat.lt_succ_self _)
  refine ⟨p', b', w', ?_, hr', hbytes, hpre, hend⟩
  have hdone : B.isDone p' = decide (w' = m) := by
    rw [Bool.eq_iff_iff, decide_eq_true_iff]
    exact G.isDone_iff hm hr'
  have hok : ¬ (ec ≠ none ∧ ec ≠ some .needMore) := by
    rintro ⟨h₁, h₂⟩
    exact hec.elim h₁ h₂
  simp only [ReadWriteHttp.tryParse, hs, hput, if_neg hok, hdone]

end Grammar

end LocalSoftware.Http
