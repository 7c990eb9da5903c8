import LocalSoftware.Common.Event

/-!
# The TLS socket

`TLSSocket` of `tls_socket.h` and `tls_socket.cpp`: it reads and writes through OpenSSL, whose
input is the memory `e_read_` and whose output is the BIO `writebuf_`, and it moves the encrypted
bytes with the `read` and `write` of a `ReadWriteBytes` child. OpenSSL is an oracle: a handler gets
the list of its answers, one for each call of `SSL_accept`, `SSL_read_ex` or `SSL_write_ex`.

`Need` is what a list of answers amounts to, and `handleRead_turn` and `handleWrite_turn` say what
a handler does about it: it reports a result, or it starts an operation of the child or attaches to
one.
-/

set_option autoImplicit false

namespace LocalSoftware.Tls

/-- `TLSState`. -/
inductive TlsState where
  | waitHello
  | full
  | failed
deriving DecidableEq, Repr

/-- `SSL_get_error` after a call: no error with the decrypted bytes or the number of bytes that
were taken, the wish for input, or any other error. -/
inductive SslOutcome where
  | none (bytes : Str)
  | wantRead
  | error
deriving DecidableEq, Repr

/-- A call into OpenSSL: it asks the read BIO for these numbers of bytes, one after the other, and
leaves `produced` in the write BIO. -/
structure SslAnswer where
  asks : List Nat := []
  produced : Str := []
  outcome : SslOutcome := .wantRead
deriving DecidableEq, Repr

/-- The calls that are queued on the child. -/
inductive ChildCall where
  | read (len : Nat) (readAll : Bool)
  | write (data : Str)
deriving DecidableEq, Repr

/-- What the object queues; its child is of the class `ReadWriteBytes`. -/
abbrev vocabulary : Vocabulary where
  TypeIndex := Unit
  ConstructFunc := Unit
  FunctionFunc := ChildCall
  Sqe := Empty

/-- `sizeof(e_read_)` and `sizeof(e_write_)`: both are pointers. -/
def sizeofPtr : Nat := 8

/-- `MAXUFRAMELENGTH`. -/
def maxUFrameLength : Nat := 15360

/-- `TLSSocket`. A task identifier that was never assigned is that of no task. `eRead` are the bytes
at `e_read_` as far as they were ever written, `uRead` those at `u_read_` up to `u_read_p_`, and
`uWrite` those at `u_write_` up to `u_writelen_`. The history of `ssl_` is what it took through
`osslcb_read` and what it left in `writebuf_`, since the start. -/
structure TlsSocket where
  taskBytesRead : Id := none
  taskBytesWrite : Id := none
  taskBytesRFin : Bool := true
  taskBytesWFin : Bool := true
  taskRead : Id := none
  taskWrite : Id := none
  server : Bool
  stickyRead : Bool := false
  uRead : Str := []
  uReadlen : Nat := 0
  uWrite : Str := []
  uWriteP : Nat := 0
  writebuf : Str := []
  eWrite : Str := []
  eRead : Str := []
  eReadS : Nat := 0
  state : TlsState := .waitHello
  taken : Str := []
  produced : Str := []
deriving DecidableEq, Repr

namespace TlsSocket

/-- The constructor. -/
def constructor (server : Bool) : Script vocabulary TlsSocket := do
  let _ ← Script.i (V := vocabulary) () ()
  return { server }

/-- `osslcb_read`: it copies the first bytes and moves the others to the front, or reports that
there is nothing. -/
def osslcbRead (s : TlsSocket) (len : Nat) : TlsSocket :=
  if s.eReadS = 0 then s
  else
    let towrite := min s.eReadS len
    let size := s.eReadS - towrite
    { s with
      taken := s.taken ++ s.eRead.take towrite
      eRead := (s.eRead.drop towrite).take size ++ s.eRead.drop size
      eReadS := size }

/-- OpenSSL adds to the write BIO. -/
def addOutput (s : TlsSocket) (bytes : Str) : TlsSocket :=
  { s with writebuf := s.writebuf ++ bytes, produced := s.produced ++ bytes }

/-- OpenSSL takes bytes with `osslcb_read` and adds to the write BIO. -/
def exchange (s : TlsSocket) (a : SslAnswer) : TlsSocket :=
  (a.asks.foldl osslcbRead s).addOutput a.produced

/-- `arm_read`. -/
def armRead (s : TlsSocket) : Script vocabulary TlsSocket := do
  if s.taskBytesRFin then
    let taskid ← Script.c (V := vocabulary) () (.read (sizeofPtr - s.eReadS) false)
    return { s with taskBytesRead := taskid, taskBytesRFin := false }
  else
    Script.attachTo s.taskBytesRead
    return s

/-- `arm_write`. -/
def armWrite (s : TlsSocket) : Script vocabulary TlsSocket := do
  if s.taskBytesWFin then
    let eWrite := s.writebuf.take sizeofPtr
    let taskid ← Script.c (V := vocabulary) () (.write eWrite)
    return { s with
      eWrite, writebuf := s.writebuf.drop sizeofPtr
      taskBytesWrite := taskid, taskBytesWFin := false }
  else
    Script.attachTo s.taskBytesWrite
    return s

/-- The reaction to `SSL_ERROR_WANT_READ`: output that is pending goes first. -/
def armWanted (s : TlsSocket) : Script vocabulary TlsSocket :=
  if s.writebuf ≠ [] then s.armWrite else s.armRead

/-- `handle_handshake`. -/
def handleHandshake (s : TlsSocket) (a : SslAnswer) : Script vocabulary (Yielded × TlsSocket) := do
  let s := s.exchange a
  match a.outcome with
  | .wantRead =>
    let s ← s.armWanted
    return (none, s)
  | .error => return (some (true, -1), { s with state := .failed })
  | .none _ => return (none, { s with state := .full })

/-- `SSL_read_ex` writes to the rest of the caller's buffer. -/
def got (s : TlsSocket) (bytes : Str) : TlsSocket :=
  { s with uRead := s.uRead ++ bytes.take (s.uReadlen - s.uRead.length) }

/-- The read is done, or it received an initial message only. -/
def Filled (s : TlsSocket) : Prop :=
  s.uReadlen - s.uRead.length = 0 ∨ (¬ s.stickyRead ∧ s.uRead ≠ [])

instance (s : TlsSocket) : Decidable s.Filled := inferInstanceAs (Decidable (_ ∨ _))

/-- The loop of `handle_read`. After the last answer OpenSSL asks for input. -/
def readLoop : List SslAnswer → TlsSocket → Script vocabulary (Yielded × TlsSocket)
  | [], s => do
    let s ← s.armWanted
    return (none, s)
  | a :: answers, s => do
    let s := s.exchange a
    match a.outcome with
    | .wantRead =>
      let s ← s.armWanted
      return (none, s)
    | .error => return (some (true, -1), s)
    | .none bytes =>
      let s := s.got bytes
      -- done, or the first bytes when not all are asked for
      if s.Filled then
        return (some (false, toInt s.uRead.length), s)
      else if s.eReadS = 0 then
        let s ← s.armRead
        return (none, s)
      else readLoop answers s

/-- `SSL_write_ex` takes at most a frame of the caller's bytes. -/
def sent (s : TlsSocket) (n : Nat) : TlsSocket :=
  { s with uWriteP := s.uWriteP + min n (min (s.uWrite.length - s.uWriteP) maxUFrameLength) }

/-- There is output to move, or a part of the caller's bytes is left. -/
def Unsent (s : TlsSocket) : Prop := s.writebuf ≠ [] ∨ s.uWrite.length - s.uWriteP ≠ 0

instance (s : TlsSocket) : Decidable s.Unsent := inferInstanceAs (Decidable (_ ∨ _))

/-- The `Full` part of `handle_write`. -/
def writeFrame (answers : List SslAnswer) (s : TlsSocket) :
    Script vocabulary (Yielded × TlsSocket) := do
  let a := answers.headD {}
  let s := s.exchange a
  match a.outcome with
  | .wantRead =>
    let s ← s.armWanted
    return (none, s)
  | .error => return (some (true, -1), s)
  | .none bytes =>
    let s := s.sent bytes.length
    if s.Unsent then
      let s ← s.armWrite
      return (none, s)
    else
      return (some (false, toInt s.uWrite.length), s)

/-- What `handle_read` and `handle_write` share: the handshake as long as it is not complete, then
the part for the state `Full`. -/
def handle (full : List SslAnswer → TlsSocket → Script vocabulary (Yielded × TlsSocket))
    (s : TlsSocket) (answers : List SslAnswer) : Script vocabulary (Yielded × TlsSocket) :=
  match s.state with
  | .waitHello => do
    let (res, s) ← s.handleHandshake (answers.headD {})
    if res.isSome then
      return (res, s)
    else if s.state = .full then
      full answers.tail s
    else
      return (none, s)
  | .full => full answers s
  | .failed => return (none, s)

/-- `handle_read`. -/
def handleRead : TlsSocket → List SslAnswer → Script vocabulary (Yielded × TlsSocket) :=
  handle readLoop

/-- `handle_write`. -/
def handleWrite : TlsSocket → List SslAnswer → Script vocabulary (Yielded × TlsSocket) :=
  handle writeFrame

/-- The assignments of `read`. -/
def startRead (s : TlsSocket) (id : Id) (len : Nat) (readAll : Bool) : TlsSocket :=
  { s with stickyRead := readAll, taskRead := id, uRead := [], uReadlen := len }

/-- The assignments of `write`. -/
def startWrite (s : TlsSocket) (id : Id) (data : Str) : TlsSocket :=
  { s with taskWrite := id, uWrite := data, uWriteP := 0 }

/-- What `read` returns. -/
def readResponse : CallResponse where
  description := "Read len bytes into buf TLS"
  success := true
  ret := none
  opHint := opHintRead + opHintNetwork

/-- What `write` returns. -/
def writeResponse : CallResponse where
  description := "Write len bytes from buf TLS"
  success := true
  ret := none
  opHint := opHintWrite + opHintNetwork

/-- `read`. What `handle_read` returns is dropped. -/
def read (s : TlsSocket) (id : Id) (len : Nat) (readAll : Bool) (answers : List SslAnswer) :
    Script vocabulary (CallResponse × TlsSocket) := do
  let (_, s) ← (s.startRead id len readAll).handleRead answers
  return (readResponse, s)

/-- `write`. What `handle_write` returns is dropped. -/
def write (s : TlsSocket) (id : Id) (data : Str) (answers : List SslAnswer) :
    Script vocabulary (CallResponse × TlsSocket) := do
  let (_, s) ← (s.startWrite id data).handleWrite answers
  return (writeResponse, s)

/-- The bookkeeping of `on_yield` for an operation of the child that succeeded. -/
def finish (s : TlsSocket) (res : ChildTaskCompletion) : TlsSocket :=
  if res.taskId = s.taskBytesRead ∧ ¬ s.taskBytesRFin then
    { s with taskBytesRFin := true, eReadS := s.eReadS + res.returnCode.toNat }
  else if res.taskId = s.taskBytesWrite then
    { s with taskBytesWFin := true }
  else s

/-- `on_yield`. -/
def onYield (s : TlsSocket) (answers : List SslAnswer) :
    EventType → Script vocabulary (Yielded × TlsSocket)
  | .childTaskCompletion res =>
    if res.returnCode ≤ 0 then return (some (true, res.returnCode), s)
    else
      let s := s.finish res
      if res.callingId = s.taskRead then s.handleRead answers
      else if res.callingId = s.taskWrite then s.handleWrite answers
      else .throw (.runtimeError "Unknown task type")
  | _ => .throw .badVariantAccess

/-! ## What the answers of OpenSSL ask for -/

/-- The two operations of the child. -/
inductive Direction where
  | read
  | write
deriving DecidableEq, Repr

/-- What a task needs in the end, going by the answers of OpenSSL: nothing more, because they
complete or fail it, an operation of the child, or something that never comes. -/
inductive Need where
  | result
  | operation (d : Direction)
  | nothing
deriving DecidableEq, Repr

/-- The operation that gives OpenSSL more input. -/
def wanted (s : TlsSocket) : Direction := if s.writebuf ≠ [] then .write else .read

/-- The need of a read after the handshake. -/
def readLoopNeed : List SslAnswer → TlsSocket → Need
  | [], s => .operation s.wanted
  | a :: answers, s =>
    let s := s.exchange a
    match a.outcome with
    | .wantRead => .operation s.wanted
    | .error => .result
    | .none bytes =>
      let s := s.got bytes
      if s.Filled then .result
      else if s.eReadS = 0 then .operation .read
      else readLoopNeed answers s

/-- The need of a write after the handshake. -/
def writeFrameNeed (answers : List SslAnswer) (s : TlsSocket) : Need :=
  let a := answers.headD {}
  let s := s.exchange a
  match a.outcome with
  | .wantRead => .operation s.wanted
  | .error => .result
  | .none bytes => if (s.sent bytes.length).Unsent then .operation .write else .result

/-- The need of a task, which is `after` once the handshake is complete. -/
def need (after : List SslAnswer → TlsSocket → Need) (s : TlsSocket) (answers : List SslAnswer) :
    Need :=
  match s.state with
  | .failed => .nothing
  | .full => after answers s
  | .waitHello =>
    let a := answers.headD {}
    match a.outcome with
    | .wantRead => .operation (s.exchange a).wanted
    | .error => .result
    | .none _ => after answers.tail { s.exchange a with state := .full }

/-! ## What a handler does about it -/

/-- The operation that was started last in a direction, and whether it is known to be complete. -/
def ops (s : TlsSocket) : Direction → Id × Bool
  | .read => (s.taskBytesRead, s.taskBytesRFin)
  | .write => (s.taskBytesWrite, s.taskBytesWFin)

/-- The part of the object that decides which task a completion is for, and what happens to it. -/
structure SameTasks (s s' : TlsSocket) : Prop where
  ops : s'.ops = s.ops
  taskRead : s'.taskRead = s.taskRead
  taskWrite : s'.taskWrite = s.taskWrite

/-- One turn of a task: what it yields, its object, and what it queues. -/
inductive Turn (s : TlsSocket) (es : EventState vocabulary) :
    Need → Yielded → TlsSocket → EventState vocabulary → Prop where
  /-- It has a result. -/
  | result (r : Bool × Int) {s' : TlsSocket} (h : SameTasks s s') : Turn s es .result (some r) s' es
  /-- It starts an operation. -/
  | start (d : Direction) (fn : ChildCall) {s' : TlsSocket} (hfin : (s.ops d).2 = true)
      (hops : s'.ops = Function.update s.ops d (some es.uringData.localProcId, false))
      (hread : s'.taskRead = s.taskRead) (hwrite : s'.taskWrite = s.taskWrite) :
      Turn s es (.operation d) none s' (es.callAt (V := vocabulary) () 0 fn).2
  /-- It attaches to the operation that is under way. -/
  | attach (d : Direction) {s' : TlsSocket} (hfin : (s.ops d).2 = false) (h : SameTasks s s') :
      Turn s es (.operation d) none s' (es.queueAttach (s.ops d).1)
  /-- It does nothing. -/
  | idle {s' : TlsSocket} (h : SameTasks s s') : Turn s es .nothing none s' es

section Turns

variable {s s' s'' : TlsSocket} {es es' : EventState vocabulary} {info : EventInfo} {n : Need}
  {y : Yielded}

theorem SameTasks.refl (s : TlsSocket) : SameTasks s s := ⟨rfl, rfl, rfl⟩

theorem SameTasks.trans (h : SameTasks s s') (h' : SameTasks s' s'') : SameTasks s s'' :=
  ⟨h'.ops.trans h.ops, h'.taskRead.trans h.taskRead, h'.taskWrite.trans h.taskWrite⟩

/-- A turn may begin with steps that concern only the data. -/
theorem Turn.of_same (h : SameTasks s s') (ht : Turn s' es n y s'' es') :
    Turn s es n y s'' es' := by
  cases ht with
  | result r hs => exact .result r (h.trans hs)
  | start d fn hfin hops hread hwrite =>
    rw [h.ops] at hfin hops
    exact .start d fn hfin hops (hread.trans h.taskRead) (hwrite.trans h.taskWrite)
  | attach d hfin hs =>
    rw [h.ops] at hfin ⊢
    exact .attach d hfin (h.trans hs)
  | idle hs => exact .idle (h.trans hs)

theorem osslcbRead_same (s : TlsSocket) (len : Nat) : SameTasks s (s.osslcbRead len) := by
  unfold osslcbRead
  split
  · exact SameTasks.refl s
  · refine ⟨?_, rfl, rfl⟩
    funext d
    cases d <;> rfl

theorem foldl_osslcbRead_same (asks : List Nat) (s : TlsSocket) :
    SameTasks s (asks.foldl osslcbRead s) := by
  induction asks generalizing s with
  | nil => exact SameTasks.refl s
  | cons len asks ih => exact (osslcbRead_same s len).trans (ih (s.osslcbRead len))

theorem addOutput_same (s : TlsSocket) (bytes : Str) : SameTasks s (s.addOutput bytes) := by
  refine ⟨?_, rfl, rfl⟩
  funext d
  cases d <;> rfl

theorem exchange_same (s : TlsSocket) (a : SslAnswer) : SameTasks s (s.exchange a) :=
  (foldl_osslcbRead_same a.asks s).trans (addOutput_same _ a.produced)

theorem osslcbRead_state (s : TlsSocket) (len : Nat) : (s.osslcbRead len).state = s.state := by
  unfold osslcbRead
  split <;> rfl

theorem exchange_state (s : TlsSocket) (a : SslAnswer) : (s.exchange a).state = s.state := by
  have hstate : ∀ asks : List Nat, ∀ s, (asks.foldl osslcbRead s).state = s.state := by
    intro asks
    induction asks with
    | nil => intro s; rfl
    | cons len asks ih => intro s; exact (ih (s.osslcbRead len)).trans (osslcbRead_state s len)
  exact hstate a.asks s

theorem armRead_turn (h : es.uringData.evinfo () 0 = .ok info) (s : TlsSocket) :
    ∃ s' es', s.armRead.run es = .ok (s', es') ∧ Turn s es (.operation .read) none s' es' ∧
      s'.state = s.state := by
  cases hfin : s.taskBytesRFin with
  | true =>
    have hcall := EventState.call_of_evinfo h (.read (sizeofPtr - s.eReadS) false)
    refine ⟨{ s with taskBytesRead := some es.uringData.localProcId, taskBytesRFin := false },
      (es.callAt (V := vocabulary) () 0 (.read (sizeofPtr - s.eReadS) false)).2, ?_, ?_⟩
    · simp only [armRead, hfin, if_true, Script.run_bind, Script.run_c, hcall, Script.run_pure]
      rfl
    · refine ⟨.start .read _ hfin ?_ rfl rfl, rfl⟩
      funext d
      cases d <;> rfl
  | false =>
    refine ⟨s, es.queueAttach s.taskBytesRead, ?_, .attach .read hfin (SameTasks.refl s), rfl⟩
    simp only [armRead, hfin, Bool.false_eq_true, if_false, Script.run_bind, Script.run_attachTo,
      Script.run_pure]

theorem armWrite_turn (h : es.uringData.evinfo () 0 = .ok info) (s : TlsSocket) :
    ∃ s' es', s.armWrite.run es = .ok (s', es') ∧ Turn s es (.operation .write) none s' es' ∧
      s'.state = s.state := by
  cases hfin : s.taskBytesWFin with
  | true =>
    have hcall := EventState.call_of_evinfo h (.write (s.writebuf.take sizeofPtr))
    refine ⟨{ s with
        eWrite := s.writebuf.take sizeofPtr, writebuf := s.writebuf.drop sizeofPtr
        taskBytesWrite := some es.uringData.localProcId, taskBytesWFin := false },
      (es.callAt (V := vocabulary) () 0 (.write (s.writebuf.take sizeofPtr))).2, ?_, ?_⟩
    · simp only [armWrite, hfin, if_true, Script.run_bind, Script.run_c, hcall, Script.run_pure]
      rfl
    · refine ⟨.start .write _ hfin ?_ rfl rfl, rfl⟩
      funext d
      cases d <;> rfl
  | false =>
    refine ⟨s, es.queueAttach s.taskBytesWrite, ?_, .attach .write hfin (SameTasks.refl s), rfl⟩
    simp only [armWrite, hfin, Bool.false_eq_true, if_false, Script.run_bind, Script.run_attachTo,
      Script.run_pure]

theorem armWanted_turn (h : es.uringData.evinfo () 0 = .ok info) (s : TlsSocket) :
    ∃ s' es', s.armWanted.run es = .ok (s', es') ∧
      Turn s es (.operation s.wanted) none s' es' ∧ s'.state = s.state := by
  unfold armWanted wanted
  by_cases hbuf : s.writebuf ≠ []
  · rw [if_pos hbuf, if_pos hbuf]
    exact armWrite_turn h s
  · rw [if_neg hbuf, if_neg hbuf]
    exact armRead_turn h s

/-- The handlers wait in this form. -/
theorem run_waiting {arm : Script vocabulary TlsSocket}
    (h : ∃ s' es', arm.run es = .ok (s', es') ∧ Turn s es n none s' es' ∧ s'.state = s.state) :
    ∃ y s' es', (do
        let s ← arm
        return (none, s) : Script vocabulary (Yielded × TlsSocket)).run es = .ok ((y, s'), es') ∧
      Turn s es n y s' es' := by
  obtain ⟨s', es', hrun, hturn, -⟩ := h
  refine ⟨none, s', es', ?_, hturn⟩
  simp only [Script.run_bind, hrun, Script.run_pure]

theorem got_same (s : TlsSocket) (bytes : Str) : SameTasks s (s.got bytes) := by
  refine ⟨?_, rfl, rfl⟩
  funext d
  cases d <;> rfl

theorem sent_same (s : TlsSocket) (n : Nat) : SameTasks s (s.sent n) := by
  refine ⟨?_, rfl, rfl⟩
  funext d
  cases d <;> rfl

theorem state_same (s : TlsSocket) (state : TlsState) : SameTasks s { s with state } := by
  refine ⟨?_, rfl, rfl⟩
  funext d
  cases d <;> rfl

theorem readLoop_turn (h : es.uringData.evinfo () 0 = .ok info) (answers : List SslAnswer)
    (s : TlsSocket) :
    ∃ y s' es', (readLoop answers s).run es = .ok ((y, s'), es') ∧
      Turn s es (readLoopNeed answers s) y s' es' := by
  induction answers generalizing s with
  | nil => exact run_waiting (armWanted_turn h s)
  | cons a answers ih =>
    have hsame := exchange_same s a
    cases hout : a.outcome with
    | wantRead =>
      obtain ⟨y, s', es', hrun, hturn⟩ := run_waiting (armWanted_turn h (s.exchange a))
      simp only [readLoop, readLoopNeed, hout]
      exact ⟨y, s', es', hrun, hturn.of_same hsame⟩
    | error =>
      simp only [readLoop, readLoopNeed, hout]
      exact ⟨_, _, _, rfl, .result _ hsame⟩
    | none bytes =>
      have hgot := hsame.trans (got_same (s.exchange a) bytes)
      simp only [readLoop, readLoopNeed, hout]
      by_cases hfilled : ((s.exchange a).got bytes).Filled
      · simp only [if_pos hfilled]
        exact ⟨_, _, _, rfl, .result _ hgot⟩
      · by_cases hempty : ((s.exchange a).got bytes).eReadS = 0
        · -- nothing is left to decrypt
          obtain ⟨y, s', es', hrun, hturn⟩ :=
            run_waiting (armRead_turn h ((s.exchange a).got bytes))
          simp only [if_neg hfilled, if_pos hempty]
          exact ⟨y, s', es', hrun, hturn.of_same hgot⟩
        · obtain ⟨y, s', es', hrun, hturn⟩ := ih ((s.exchange a).got bytes)
          simp only [if_neg hfilled, if_neg hempty]
          exact ⟨y, s', es', hrun, hturn.of_same hgot⟩

theorem writeFrame_turn (h : es.uringData.evinfo () 0 = .ok info) (answers : List SslAnswer)
    (s : TlsSocket) :
    ∃ y s' es', (writeFrame answers s).run es = .ok ((y, s'), es') ∧
      Turn s es (writeFrameNeed answers s) y s' es' := by
  have hsame := exchange_same s (answers.headD {})
  cases hout : (answers.headD {}).outcome with
  | wantRead =>
    obtain ⟨y, s', es', hrun, hturn⟩ := run_waiting (armWanted_turn h (s.exchange (answers.headD {})))
    simp only [writeFrame, writeFrameNeed, hout]
    exact ⟨y, s', es', hrun, hturn.of_same hsame⟩
  | error =>
    simp only [writeFrame, writeFrameNeed, hout]
    exact ⟨_, _, _, rfl, .result _ hsame⟩
  | none bytes =>
    have hsent := hsame.trans (sent_same (s.exchange (answers.headD {})) bytes.length)
    simp only [writeFrame, writeFrameNeed, hout]
    by_cases hunsent : ((s.exchange (answers.headD {})).sent bytes.length).Unsent
    · obtain ⟨y, s', es', hrun, hturn⟩ :=
        run_waiting (armWrite_turn h ((s.exchange (answers.headD {})).sent bytes.length))
      simp only [if_pos hunsent]
      exact ⟨y, s', es', hrun, hturn.of_same hsent⟩
    · simp only [if_neg hunsent]
      exact ⟨_, _, _, rfl, .result _ hsent⟩

/-- A task follows its `Full` part once the handshake is complete. -/
theorem handle_turn {full : List SslAnswer → TlsSocket → Script vocabulary (Yielded × TlsSocket)}
    {after : List SslAnswer → TlsSocket → Need}
    (hfull : ∀ answers s, ∃ y s' es', (full answers s).run es = .ok ((y, s'), es') ∧
      Turn s es (after answers s) y s' es')
    (h : es.uringData.evinfo () 0 = .ok info) (s : TlsSocket) (answers : List SslAnswer) :
    ∃ y s' es', (handle full s answers).run es = .ok ((y, s'), es') ∧
      Turn s es (need after s answers) y s' es' := by
  cases hstate : s.state with
  | failed =>
    simp only [handle, need, hstate]
    exact ⟨_, _, _, rfl, .idle (SameTasks.refl s)⟩
  | full =>
    simp only [handle, need, hstate]
    exact hfull answers s
  | waitHello =>
    have hsame := exchange_same s (answers.headD {})
    cases hout : (answers.headD {}).outcome with
    | wantRead =>
      -- the handshake waits, and the state stays as it is
      obtain ⟨s', es', hrun, hturn, hkeep⟩ := armWanted_turn h (s.exchange (answers.headD {}))
      have hhello : ¬ s'.state = .full := by
        have heq : s'.state = .waitHello :=
          (hkeep.trans (exchange_state s _)).trans hstate
        simp [heq]
      simp only [handle, need, handleHandshake, hstate, hout, Script.run_bind, hrun,
        Script.run_pure, Option.isSome_none, Bool.false_eq_true, if_false, hhello]
      exact ⟨_, _, _, rfl, hturn.of_same hsame⟩
    | error =>
      simp only [handle, need, handleHandshake, hstate, hout]
      exact ⟨_, _, _, rfl, .result _ (hsame.trans (state_same _ .failed))⟩
    | none bytes =>
      have hopen := hsame.trans (state_same (s.exchange (answers.headD {})) .full)
      obtain ⟨y, s', es', hrun, hturn⟩ :=
        hfull answers.tail { s.exchange (answers.headD {}) with state := .full }
      simp only [handle, need, handleHandshake, hstate, hout]
      exact ⟨y, s', es', hrun, hturn.of_same hopen⟩

theorem handleRead_turn (h : es.uringData.evinfo () 0 = .ok info) (s : TlsSocket)
    (answers : List SslAnswer) :
    ∃ y s' es', (s.handleRead answers).run es = .ok ((y, s'), es') ∧
      Turn s es (need readLoopNeed s answers) y s' es' :=
  handle_turn (readLoop_turn h) h s answers

theorem handleWrite_turn (h : es.uringData.evinfo () 0 = .ok info) (s : TlsSocket)
    (answers : List SslAnswer) :
    ∃ y s' es', (s.handleWrite answers).run es = .ok ((y, s'), es') ∧
      Turn s es (need writeFrameNeed s answers) y s' es' :=
  handle_turn (writeFrame_turn h) h s answers

end Turns

end TlsSocket

end LocalSoftware.Tls
