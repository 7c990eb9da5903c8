import LocalSoftware.Common.HttpManager
import LocalSoftware.Common.ReadWriteHttp

/-!
# The landing page's connection object

`AioLandingHTTP` of `landing_server.h` and `landing_server.cpp`, and `Connection`, which puts it
together with its `ReadWriteHTTP` child and a byte socket: the client sends a stream of requests,
the kernel delivers it in pieces, and responses are written in pieces. Between two events of the
socket a connection is `Waiting` for input or `Writing` a response, and each kind of event has its
lemma.
-/

set_option autoImplicit false

namespace LocalSoftware.AioLanding

open Http

namespace AioLandingHttp

/-- The construction that is queued. -/
structure ChildConstruct where
  useSsl : Bool
deriving DecidableEq, Repr

/-- The calls that are queued. -/
inductive ChildCall where
  | readHttp
  | writeHttp (res : Response)
deriving DecidableEq, Repr

/-- What the object queues; its child is of the class `ReadWriteHTTP`. -/
abbrev vocabulary : Vocabulary where
  TypeIndex := Unit
  ConstructFunc := ChildConstruct
  FunctionFunc := ChildCall
  Sqe := Empty

end AioLandingHttp

open AioLandingHttp

/-- The file tree and endpoints behind a connection. No endpoint throws. -/
structure Site where
  fs : FileSystem
  httpManager : HttpManager
  responds : ∀ req, ∃ res, (httpManager.handleRequest fs req).2 = .ok res

/-- `AioLandingHTTP`; `handled` are the requests that it passed to its manager. -/
structure AioLandingHttp where
  opRead : Bool
  timer : Id := some 0
  handled : List Request := []

namespace AioLandingHttp

/-- `ts`: a client may take three minutes for a request. -/
def ts : Timespec := ⟨180, 0⟩

/-- The constructor. -/
def constructor (enableTls : Bool) : Script vocabulary Unit := do
  let _ ← Script.i (V := vocabulary) () ⟨enableTls⟩

/-- `start`. -/
def start : Script vocabulary AioLandingHttp := do
  let _ ← Script.c (V := vocabulary) () .readHttp
  let timer ← Script.startTimer ts
  return { opRead := true, timer }

/-- `handle_request`. -/
def handleRequest (site : Site) (s : AioLandingHttp) (req : Request) :
    Script vocabulary AioLandingHttp := do
  let res ← Script.ofExcept (site.httpManager.handleRequest site.fs req).2
  let _ ← Script.c (V := vocabulary) () (.writeHttp res)
  return { s with opRead := false, handled := s.handled ++ [req] }

/-- `handle_response`. -/
def handleResponse (s : AioLandingHttp) : Script vocabulary AioLandingHttp := do
  let _ ← Script.c (V := vocabulary) () .readHttp
  return { s with opRead := true }

/-- `on_yield`. `peer` is `get_data` of the living HTTP objects. -/
def onYield (site : Site) (peer : Id → Option (Option Request)) (s : AioLandingHttp) :
    EventType → Script vocabulary (Yielded × AioLandingHttp)
  | .childTaskCompletion child => do
    if child.returnCode ≤ 0 then
      return (some (true, child.returnCode), s)
    else if s.opRead then
      Script.stopTimer s.timer
      let req ← Script.directAccess (V := vocabulary) () 0 peer
      let s ← s.handleRequest site req
      return (none, s)
    else
      let timer ← Script.startTimer ts
      let s ← { s with timer }.handleResponse
      return (none, s)
  | .timeout _ => return (some (true, -1), s)
  | _ => return (none, s)

end AioLandingHttp

/-- A connection: the two objects with their contexts, and the calls of the HTTP object on its
byte socket that are not complete. The HTTP object has the identifier 1. -/
structure Connection (B : Beast) where
  server : AioLandingHttp
  serverData : IoUringData AioLandingHttp.vocabulary
  http : ReadWriteHttp B
  httpData : IoUringData ReadWriteHttp.vocabulary
  pending : List ReadWriteHttp.ChildCall := []
  closed : Bool := false

/-- What the byte socket reports. -/
inductive SocketEvent where
  /-- A read completes with these bytes. -/
  | received (chunk : Str)
  /-- A write completes with this many bytes. -/
  | sent (n : Nat)

namespace Connection

variable {B : Beast}

/-- The completion of a task that returned `code`. -/
def completion (code : Int) : EventType :=
  .childTaskCompletion { callingId := none, taskId := none, status := .finished, returnCode := code }

/-- A queued call on the HTTP object is carried out. -/
def callHttp (c : Connection B) (fn : AioLandingHttp.ChildCall) : Except Fault (Connection B) :=
  let call := match fn with
    | .readHttp => c.http.readHttp
    | .writeHttp res => c.http.writeHttp res
  match call.run { uringData := c.httpData } with
  | .error e => .error e
  | .ok (http, es) => .ok { c with
      http, httpData := es.uringData, pending := c.pending ++ es.function.map (·.fn) }

/-- `get_data` of the HTTP object. -/
def peer (c : Connection B) : Id → Option (Option Request)
  | some 1 => some (c.http.parser.map B.get)
  | _ => none

/-- A completion reaches the server object. `get_data` takes the parser. -/
def serverEvent (site : Site) (c : Connection B) (code : Int) : Except Fault (Connection B) :=
  match (c.server.onYield site c.peer (completion code)).run { uringData := c.serverData } with
  | .error e => .error e
  | .ok ((y, server), es) =>
    let http := if c.server.opRead ∧ 0 < code then { c.http with parser := none } else c.http
    es.function.foldlM (fun c q => c.callHttp q.fn)
      { c with server, serverData := es.uringData, http, closed := c.closed || y.isSome }

/-- A completion reaches the HTTP object, and from there the server object when it was the last. -/
def httpEvent (site : Site) (c : Connection B) (code : Int) : Except Fault (Connection B) :=
  match (c.http.onYield (completion code)).run { uringData := c.httpData } with
  | .error e => .error e
  | .ok ((y, http), es) =>
    let c := { c with
      http, httpData := es.uringData, pending := c.pending ++ es.function.map (·.fn) }
    match y with
    | none => .ok c
    | some (_, code) => c.serverEvent site code

/-- One completion of the byte socket. -/
def step (site : Site) (c : Connection B) : SocketEvent → Except Fault (Connection B)
  | .received chunk =>
    ({ c with
      pending := c.pending.tail
      http := { c.http with buffer := c.http.buffer.fill chunk } }).httpEvent site chunk.length
  | .sent n => ({ c with pending := c.pending.tail }).httpEvent site n

/-- The contexts as the constructors leave them, with the objects in their slots. -/
def constructed (tls : Bool) : Connection B where
  server := { opRead := true }
  serverData := (({} : IoUringData AioLandingHttp.vocabulary)).setSlots () [some { event := some 1 }]
  http := { tlsEnabled := tls }
  httpData := (({} : IoUringData ReadWriteHttp.vocabulary)).setSlots
    (if tls then .tlsSocket else .readWriteBytes) [some { event := some 2 }]

/-- The connection after `start`. -/
def start (B : Beast) (tls : Bool) : Except Fault (Connection B) :=
  match AioLandingHttp.start.run { uringData := (constructed tls : Connection B).serverData } with
  | .error e => .error e
  | .ok (server, es) =>
    es.function.foldlM (fun c q => c.callHttp q.fn)
      { (constructed tls : Connection B) with server, serverData := es.uringData }

/-! ## The runs of the two objects -/

/-- Both objects have their child, and the connection is not closed. -/
structure Live (c : Connection B) : Prop where
  serverSlot : ∃ info, c.serverData.evinfo () 0 = .ok info ∧ info.event = some 1
  httpSlot : ∃ info, c.httpData.evinfo c.http.child 0 = .ok info
  isOpen : c.closed = false

variable {G : Grammar B} {site : Site} {c : Connection B}

/-- No handler of the two objects changes the slots. -/
theorem Live.congr {c' : Connection B} (h : c.Live)
    (hserver : c'.serverData.subEvents = c.serverData.subEvents)
    (hhttp : c'.httpData.subEvents = c.httpData.subEvents)
    (htls : c'.http.tlsEnabled = c.http.tlsEnabled) (hclosed : c'.closed = c.closed) : c'.Live where
  serverSlot := by
    rw [IoUringData.evinfo_congr hserver]
    exact h.serverSlot
  httpSlot := by
    have hchild : c'.http.child = c.http.child := by simp only [ReadWriteHttp.child, htls]
    rw [hchild, IoUringData.evinfo_congr hhttp]
    exact h.httpSlot
  isOpen := hclosed.trans h.isOpen

theorem constructed_live (B : Beast) (tls : Bool) : (constructed tls : Connection B).Live where
  serverSlot := ⟨{ event := some 1 }, rfl, rfl⟩
  httpSlot := ⟨{ event := some 2 }, by cases tls <;> rfl⟩
  isOpen := rfl

/-- The HTTP object starts to read the next request. -/
theorem callHttp_readHttp (h : c.Live) :
    ∃ reader data, c.callHttp .readHttp = .ok { c with
        http := { c.http with
          readOp := true, parser := some B.fresh, buffer := c.http.buffer.prepare 4096
          taskidReader := reader }
        httpData := data, pending := c.pending ++ [.read 4096 false] } ∧
      data.subEvents = c.httpData.subEvents := by
  obtain ⟨info, hslot⟩ := h.httpSlot
  have hrun := @ReadWriteHttp.run_armRead B
    { c.http with readOp := true, parser := some B.fresh } { uringData := c.httpData } info hslot
  refine ⟨some c.httpData.localProcId,
    { c.httpData with localProcId := c.httpData.localProcId + 1 }, ?_, rfl⟩
  simp only [callHttp, ReadWriteHttp.readHttp, hrun]
  rfl

/-- The HTTP object starts to write a response. -/
theorem callHttp_writeHttp (G : Grammar B) (h : c.Live) (hempty : c.http.writeBuffer.data = [])
    (res : Response) :
    ∃ writer data, c.callHttp (.writeHttp res) = .ok { c with
        http := { c.http with
          readOp := false, taskidWriter := writer
          writeBuffer := { c.http.writeBuffer with data := B.serialize res } }
        httpData := data, pending := c.pending ++ [.write (B.serialize res)] } ∧
      data.subEvents = c.httpData.subEvents := by
  obtain ⟨info, hslot⟩ := h.httpSlot
  have hrun := @ReadWriteHttp.run_armWrite B
    { c.http with
      readOp := false, writeBuffer := { c.http.writeBuffer with data := B.serialize res } }
    { uringData := c.httpData } info hslot (G.serialize_ne_nil res)
  refine ⟨some c.httpData.localProcId,
    { c.httpData with localProcId := c.httpData.localProcId + 1 }, ?_, rfl⟩
  simp only [callHttp, ReadWriteHttp.writeHttp, hempty, List.nil_append, hrun]
  rfl

/-- A completed read hands the request to the manager and its response to the HTTP object. -/
theorem serverEvent_request (h : c.Live) (hop : c.server.opRead = true) {p : B.Parser}
    (hp : c.http.parser = some p) :
    ∃ res data, c.serverEvent site 1 = callHttp { c with
        server := { c.server with
          opRead := false, handled := c.server.handled ++ [B.get p] }
        serverData := data, http := { c.http with parser := none } } (.writeHttp res) ∧
      data.subEvents = c.serverData.subEvents := by
  obtain ⟨info, hslot, hevent⟩ := h.serverSlot
  obtain ⟨res, hres⟩ := site.responds (B.get p)
  have hpeer : c.peer info.event = some (some (B.get p)) := by simp [hevent, peer, hp]
  let es : EventState AioLandingHttp.vocabulary :=
    ({ uringData := c.serverData } : EventState AioLandingHttp.vocabulary).cancelTimer c.server.timer
  have haccess : (Script.directAccess (V := AioLandingHttp.vocabulary) () 0 c.peer).run es =
      .ok (B.get p, es) := Script.run_directAccess hslot hpeer
  have hcall : es.call () (.writeHttp res) = .ok (es.callAt () 0 (.writeHttp res)) :=
    EventState.call_of_evinfo hslot _
  have hrun : (c.server.onYield site c.peer (completion 1)).run { uringData := c.serverData } =
      .ok ((none, { c.server with
        opRead := false, handled := c.server.handled ++ [B.get p] }),
        (es.callAt () 0 (.writeHttp res)).2) := by
    simp only [completion, AioLandingHttp.onYield, hop, AioLandingHttp.handleRequest,
      Script.run_bind, Script.run_stopTimer, es, haccess, hres, hcall, if_true, Int.reduceLE,
      if_false, Script.run_ofExcept, Except.map, Script.run_c, Script.run_pure]
  refine ⟨res, { c.serverData with localProcId := c.serverData.localProcId + 1 }, ?_, rfl⟩
  simp only [serverEvent, hrun, hop, true_and, Int.reduceLT, if_true]
  show List.foldlM _ _ [_] = _
  simp only [List.foldlM_cons, List.foldlM_nil, bind_pure, Option.isSome_none, Bool.or_false]
  rfl

/-- A written response makes the server object ask for the next request. -/
theorem serverEvent_response (h : c.Live) (hop : c.server.opRead = false) :
    ∃ timer data, c.serverEvent site 1 = callHttp { c with
        server := { c.server with opRead := true, timer }
        serverData := data } .readHttp ∧
      data.subEvents = c.serverData.subEvents := by
  obtain ⟨info, hslot, -⟩ := h.serverSlot
  let es : EventState AioLandingHttp.vocabulary :=
    (({ uringData := c.serverData } : EventState AioLandingHttp.vocabulary).queueTimer ts).2
  have hcall : es.call () .readHttp = .ok (es.callAt () 0 .readHttp) :=
    EventState.call_of_evinfo hslot _
  have hrun : (c.server.onYield site c.peer (completion 1)).run { uringData := c.serverData } =
      .ok ((none, { c.server with opRead := true, timer := some c.serverData.localTimerId }),
        (es.callAt () 0 .readHttp).2) := by
    simp only [completion, AioLandingHttp.onYield, hop, AioLandingHttp.handleResponse,
      Script.run_bind, Script.run_startTimer, es, hcall, Bool.false_eq_true, Int.reduceLE,
      if_false, Script.run_c, Script.run_pure]
    rfl
  refine ⟨some c.serverData.localTimerId, (es.callAt () 0 .readHttp).2.uringData, ?_, rfl⟩
  simp only [serverEvent, hrun, hop, Bool.false_eq_true, false_and, if_false]
  show List.foldlM _ _ [_] = _
  simp only [List.foldlM_cons, List.foldlM_nil, bind_pure, Option.isSome_none, Bool.or_false]

/-- The encodings of a list of requests, one after the other. -/
def encoding (stream : List (Str × Request)) : Str := stream.flatMap Prod.fst

/-- The connection waits for input: it has handed on `done`, the requests `todo` are still to come,
and the bytes `avail` of them were received. The parser has read a proper part of the first one. -/
structure Waiting (G : Grammar B) (c : Connection B) (done todo : List (Str × Request))
    (avail : Str) : Prop where
  live : c.Live
  pending : c.pending = [.read 4096 false]
  opRead : c.server.opRead = true
  readOp : c.http.readOp = true
  handled : c.server.handled = done.map Prod.snd
  empty : c.http.writeBuffer.data = []
  received : avail <+: encoding todo
  parser : ∃ p w, c.http.parser = some p ∧ w ++ c.http.buffer.data = avail ∧
    ∀ m r rest, todo = (m, r) :: rest → G.Reads m w p ∧ w ≠ m

/-- The connection writes the response to the last of the requests `done`. -/
structure Writing (c : Connection B) (done todo : List (Str × Request)) (avail : Str) : Prop where
  live : c.Live
  pending : c.pending = [.write c.http.writeBuffer.data]
  unsent : c.http.writeBuffer.data ≠ []
  opRead : c.server.opRead = false
  readOp : c.http.readOp = false
  handled : c.server.handled = done.map Prod.snd
  received : avail <+: encoding todo
  buffer : c.http.buffer.data = avail

variable {done todo : List (Str × Request)} {avail chunk m : Str} {r : Request}

theorem start_waiting (hstream : ∀ x ∈ todo, G.Encodes x.1 x.2) (tls : Bool) :
    ∃ c, start B tls = .ok c ∧ Waiting G c [] todo [] := by
  let c₀ : Connection B := constructed tls
  have hlive : c₀.Live := constructed_live B tls
  let es : EventState AioLandingHttp.vocabulary := { uringData := c₀.serverData }
  have hcall : es.call () .readHttp = .ok (es.callAt () 0 .readHttp) :=
    EventState.call_of_evinfo (hlive.serverSlot.choose_spec.1) _
  have hrun : AioLandingHttp.start.run es = .ok ({ opRead := true, timer := some 0 },
      ((es.callAt () 0 .readHttp).2.queueTimer ts).2) := by
    simp only [AioLandingHttp.start, Script.run_bind, Script.run_c, hcall, Script.run_startTimer,
      Script.run_pure]
    rfl
  let c₁ : Connection B := { c₀ with
    server := { opRead := true, timer := some 0 }
    serverData := ((es.callAt () 0 .readHttp).2.queueTimer ts).2.uringData }
  have hlive₁ : c₁.Live := hlive.congr rfl rfl rfl rfl
  obtain ⟨reader, data, hread, hdata⟩ := callHttp_readHttp hlive₁
  have hstart : start B tls = c₁.callHttp .readHttp := by
    unfold start
    rw [show AioLandingHttp.start.run { uringData := (constructed tls : Connection B).serverData } =
      _ from hrun]
    show List.foldlM _ _ [_] = _
    simp only [List.foldlM_cons, List.foldlM_nil, bind_pure]
    rfl
  refine ⟨_, hstart.trans hread, ?_⟩
  exact {
    live := hlive₁.congr rfl hdata rfl rfl
    pending := rfl
    opRead := rfl
    readOp := rfl
    handled := rfl
    empty := rfl
    received := List.nil_prefix
    parser := ⟨B.fresh, [], rfl, rfl, fun m r rest heq => by
      have hm : G.Encodes m r := hstream (m, r) (heq ▸ List.mem_cons_self)
      exact ⟨G.fresh hm, G.nil_ne hm⟩⟩ }

/-- What `try_parse` does with the next piece. -/
theorem Waiting.parse (h : Waiting G c done ((m, r) :: todo) avail) (hm : G.Encodes m r)
    (hchunk : chunk ≠ []) (hpre : avail ++ chunk <+: encoding ((m, r) :: todo)) :
    ∃ p' b' w', ({ c.http with buffer := (c.http.buffer.fill chunk).commit chunk.length } :
        ReadWriteHttp B).tryParse =
          .ok (decide (w' = m), { c.http with parser := some p', buffer := b' }) ∧
      G.Reads m w' p' ∧ w' ++ b'.data = avail ++ chunk ∧
      (w' = m ↔ m.length ≤ (avail ++ chunk).length) := by
  obtain ⟨p, w, hp, hbuf, hreads⟩ := h.parser
  obtain ⟨hr, hw⟩ := hreads m r todo rfl
  have hdata : w ++ ((c.http.buffer.fill chunk).commit chunk.length).data = avail ++ chunk := by
    rw [FlatBuffer.data_commit_fill, ← List.append_assoc, hbuf]
  have hm' : m <+: encoding ((m, r) :: todo) := List.prefix_append _ _
  have hne : ((c.http.buffer.fill chunk).commit chunk.length).data ≠ [] := by
    rw [FlatBuffer.data_commit_fill]
    exact List.append_ne_nil_of_right_ne_nil _ hchunk
  obtain ⟨p', b', w', hparse, hr', hbytes, -, hend⟩ := @Grammar.tryParse_reads B G m w r p hm
    { c.http with buffer := (c.http.buffer.fill chunk).commit chunk.length } hp hr hw
    (by rw [hdata]; exact List.prefix_or_prefix_of_prefix hpre hm') hne
  rw [hdata] at hbytes hend
  refine ⟨p', b', w', hparse, hr', hbytes, hend.trans ?_⟩
  exact ⟨fun hle => hle.length_le, fun hle => List.prefix_of_prefix_length_le hm' hpre hle⟩

/-- A piece that does not end the current request. -/
theorem Waiting.received_more (h : Waiting G c done ((m, r) :: todo) avail) (site : Site)
    (hm : G.Encodes m r) (hchunk : chunk ≠ [])
    (hpre : avail ++ chunk <+: encoding ((m, r) :: todo))
    (hopen : ¬ m.length ≤ (avail ++ chunk).length) :
    ∃ c', c.step site (.received chunk) = .ok c' ∧
      Waiting G c' done ((m, r) :: todo) (avail ++ chunk) := by
  obtain ⟨p', b', w', hparse, hr', hbytes, hend⟩ := h.parse hm hchunk hpre
  -- the parser is not at the end of the request, so another read is started
  have hne : w' ≠ m := fun heq => hopen (hend.mp heq)
  rw [decide_eq_false hne] at hparse
  obtain ⟨info, hslot⟩ := h.live.httpSlot
  have hpos : (0 : Int) < chunk.length := by
    have := List.length_pos_iff.mpr hchunk
    omega
  have hrun := @ReadWriteHttp.run_onYield_read_more B
    { c.http with buffer := c.http.buffer.fill chunk } { uringData := c.httpData } info
    { callingId := none, taskId := none, status := .finished, returnCode := chunk.length }
    h.readOp hpos _ hparse hslot
  have hstep : c.step site (.received chunk) = .ok { c with
      pending := c.pending.tail ++ [.read 4096 false]
      http := { c.http with
        parser := some p', buffer := b'.prepare 4096
        taskidReader := some c.httpData.localProcId }
      httpData := { c.httpData with localProcId := c.httpData.localProcId + 1 } } := by
    simp only [step, httpEvent, completion, hrun]
    rfl
  refine ⟨_, hstep, ?_⟩
  exact {
    live := h.live.congr rfl rfl rfl rfl
    pending := by rw [h.pending]; rfl
    opRead := h.opRead
    readOp := h.readOp
    handled := h.handled
    empty := h.empty
    received := hpre
    parser := ⟨p', w', rfl, hbytes, fun m₁ r₁ rest heq => by
      obtain ⟨⟨rfl, rfl⟩, rfl⟩ : (m = m₁ ∧ r = r₁) ∧ todo = rest := by simpa using heq
      exact ⟨hr', hne⟩⟩ }

/-- A piece that ends the current request. -/
theorem Waiting.received_last (h : Waiting G c done ((m, r) :: todo) avail) (site : Site)
    (hm : G.Encodes m r) (hchunk : chunk ≠ [])
    (hpre : avail ++ chunk <+: encoding ((m, r) :: todo))
    (hlast : m.length ≤ (avail ++ chunk).length) :
    ∃ c', c.step site (.received chunk) = .ok c' ∧
      Writing c' (done ++ [(m, r)]) todo ((avail ++ chunk).drop m.length) := by
  obtain ⟨p', b', w', hparse, hr', hbytes, hend⟩ := h.parse hm hchunk hpre
  -- the parser is at the end of the request, and the rest of the piece stays in the buffer
  obtain rfl : w' = m := hend.mpr hlast
  rw [decide_eq_true rfl] at hparse
  have hpos : (0 : Int) < chunk.length := by
    have := List.length_pos_iff.mpr hchunk
    omega
  have hrun := @ReadWriteHttp.run_onYield_read_done B
    { c.http with buffer := c.http.buffer.fill chunk } { uringData := c.httpData }
    { callingId := none, taskId := none, status := .finished, returnCode := chunk.length }
    h.readOp hpos _ hparse
  let c₁ : Connection B := { c with
    pending := c.pending.tail, http := { c.http with parser := some p', buffer := b' } }
  have hlive₁ : c₁.Live := h.live.congr rfl rfl rfl rfl
  -- the HTTP object reports the end of its task to the server object
  have hfirst : c.step site (.received chunk) = c₁.serverEvent site 1 := by
    simp only [step, httpEvent, completion, hrun]
    have hpend : c.pending.tail ++ ([] : List (EventQueuedFunction
        ReadWriteHttp.vocabulary)).map (·.fn) = c.pending.tail := by simp
    simp only [c₁, hpend]
  obtain ⟨res, data, hserver, hdata⟩ := @serverEvent_request B site c₁ hlive₁ h.opRead p' rfl
  let c₂ : Connection B := { c₁ with
    server := { c.server with opRead := false, handled := c.server.handled ++ [B.get p'] }
    serverData := data, http := { c₁.http with parser := none } }
  have hlive₂ : c₂.Live := hlive₁.congr hdata rfl rfl rfl
  obtain ⟨writer, data', hwrite, hdata'⟩ := callHttp_writeHttp G hlive₂ h.empty res
  refine ⟨_, hfirst.trans (hserver.trans hwrite), ?_⟩
  have hbytes' : b'.data = (avail ++ chunk).drop w'.length := by rw [← hbytes]; simp
  exact {
    live := hlive₂.congr rfl hdata' rfl rfl
    pending := by
      show c.pending.tail ++ _ = _
      rw [h.pending]
      rfl
    unsent := G.serialize_ne_nil res
    opRead := rfl
    readOp := rfl
    handled := by
      show c.server.handled ++ [B.get p'] = _
      rw [h.handled, G.get_eq hm hr', List.map_append]
      rfl
    received := by
      rw [← hbytes', ← List.prefix_append_right_inj w', hbytes]
      exact hpre
    buffer := hbytes' }

/-- A write that leaves a part of the response. -/
theorem Writing.sent_part (h : Writing c done todo avail) (site : Site) {n : Nat} (hpos : 0 < n)
    (hrest : c.http.writeBuffer.data.drop n ≠ []) :
    ∃ c', c.step site (.sent n) = .ok c' ∧ Writing c' done todo avail := by
  have hpos' : (0 : Int) < n := by omega
  obtain ⟨info, hslot⟩ := h.live.httpSlot
  have hrun := @ReadWriteHttp.run_onYield_write_more B c.http { uringData := c.httpData } info
    { callingId := none, taskId := none, status := .finished, returnCode := n }
    h.readOp hpos' hrest hslot
  have hstep : c.step site (.sent n) = .ok { c with
      pending := c.pending.tail ++ [.write (c.http.writeBuffer.data.drop n)]
      http := { c.http with
        writeBuffer := c.http.writeBuffer.consume n
        taskidWriter := some c.httpData.localProcId }
      httpData := { c.httpData with localProcId := c.httpData.localProcId + 1 } } := by
    simp only [step, httpEvent, completion, hrun]
    rfl
  refine ⟨_, hstep, ?_⟩
  exact {
    live := h.live.congr rfl rfl rfl rfl
    pending := by rw [h.pending]; rfl
    unsent := hrest
    opRead := h.opRead
    readOp := h.readOp
    handled := h.handled
    received := h.received
    buffer := h.buffer }

/-- The write that completes the response. The next `read_http` starts with a fresh parser and
leaves the bytes in the buffer alone. -/
theorem Writing.sent_all (h : Writing c done todo avail) (site : Site)
    (htodo : ∀ x ∈ todo, G.Encodes x.1 x.2) {n : Nat} (hpos : 0 < n)
    (hall : c.http.writeBuffer.data.drop n = []) :
    ∃ c', c.step site (.sent n) = .ok c' ∧ Waiting G c' done todo avail := by
  have hpos' : (0 : Int) < n := by omega
  have hrun := @ReadWriteHttp.run_onYield_write_done B c.http { uringData := c.httpData }
    { callingId := none, taskId := none, status := .finished, returnCode := n }
    h.readOp hpos' hall
  let c₁ : Connection B := { c with
    pending := c.pending.tail
    http := { c.http with writeBuffer := c.http.writeBuffer.consume n } }
  have hlive₁ : c₁.Live := h.live.congr rfl rfl rfl rfl
  -- the HTTP object reports the end of its task to the server object
  have hfirst : c.step site (.sent n) = c₁.serverEvent site 1 := by
    simp only [step, httpEvent, completion, hrun]
    have hpend : c.pending.tail ++ ([] : List (EventQueuedFunction
        ReadWriteHttp.vocabulary)).map (·.fn) = c.pending.tail := by simp
    simp only [c₁, hpend]
    rfl
  obtain ⟨timer, data, hserver, hdata⟩ := @serverEvent_response B site c₁ hlive₁ h.opRead
  let c₂ : Connection B := { c₁ with
    server := { c.server with opRead := true, timer }, serverData := data }
  have hlive₂ : c₂.Live := hlive₁.congr hdata rfl rfl rfl
  obtain ⟨reader, data', hread, hdata'⟩ := callHttp_readHttp hlive₂
  refine ⟨_, hfirst.trans (hserver.trans hread), ?_⟩
  exact {
    live := hlive₂.congr rfl hdata' rfl rfl
    pending := by
      show c.pending.tail ++ _ = _
      rw [h.pending]
      rfl
    opRead := rfl
    readOp := rfl
    handled := h.handled
    empty := hall
    received := h.received
    parser := ⟨B.fresh, [], rfl, h.buffer, fun m r rest heq => by
      have hm : G.Encodes m r := htodo (m, r) (heq ▸ List.mem_cons_self)
      exact ⟨G.fresh hm, G.nil_ne hm⟩⟩ }

end Connection

end LocalSoftware.AioLanding
