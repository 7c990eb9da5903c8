import LocalSoftware.AioLanding.PassedRequests
import LocalSoftware.AioLanding.Segmentation
import LocalSoftware.BandwidthMonitor.MonitoringServer

/-!
# The requests that the monitor passes on

`Connection` puts `BandwidthMonitoringServer` together with its `ReadWriteHTTP` child, the byte socket
and the calls of its other children. Like the landing page it takes the message of the parser when a
read is reported as done, but it drops a message that is no `GET` request or has other values in the
headers of an upgrade. `step_passed_iff` is the exact condition for it, and `passed_complete_iff` puts
both classes together.
-/

set_option autoImplicit false

namespace LocalSoftware.BandwidthMonitor

open Http

/-- The object, its HTTP child, and the calls that are not complete: `pending` of the byte socket, and
`others` of the timer and the WebSocket. `handled` are the requests that were passed to the manager;
the HTTP object has the identifier 1. -/
structure Connection (B : Beast) where
  server : MonitoringServer
  serverData : IoUringData vocabulary
  http : ReadWriteHttp B
  httpData : IoUringData ReadWriteHttp.vocabulary
  pending : List ReadWriteHttp.ChildCall := []
  others : List ChildCall := []
  handled : List Request := []
  closed : Bool := false

/-- What can happen to a connection. -/
inductive ConnectionEvent where
  /-- A read of the byte socket completes with these bytes. -/
  | received (chunk : Str)
  /-- A write of the byte socket completes with this many bytes. -/
  | sent (n : Nat)
  /-- A call of the timer or of the WebSocket completes. -/
  | other (index : Nat) (child : ChildTaskCompletion)
  /-- A timer of the object expires. -/
  | timeout (timerId : Id)

namespace Connection

variable {B : Beast}

/-- A queued call is carried out, or waits for its completion. -/
def callChild (c : Connection B) (fn : ChildCall) : Except Fault (Connection B) :=
  let http := match fn with
    | .readHttp => some c.http.readHttp
    | .writeHttp res => some (c.http.writeHttp res)
    | _ => none
  match http with
  | none => .ok { c with others := c.others ++ [fn] }
  | some call =>
    match call.run { uringData := c.httpData } with
    | .error e => .error e
    | .ok (http, es) => .ok { c with
        http, httpData := es.uringData, pending := c.pending ++ es.function.map (·.fn) }

/-- `get_data` of the HTTP object. -/
def peer (c : Connection B) : Id → Option (Option Request)
  | some 1 => some (c.http.parser.map B.get)
  | _ => none

/-- A completed read is taken from the HTTP object. -/
def takes (c : Connection B) : EventType → Bool
  | .childTaskCompletion child => decide (c.server.currentOp = .read ∧ 0 < child.returnCode)
  | _ => false

/-- An event reaches the server object. `stage_http_read` turns to `Write` where it has passed the
request to the manager, and only there. -/
def serverEvent (env : Environment) (c : Connection B) (event : EventType) :
    Except Fault (Connection B) :=
  match (c.server.onYield { env with getData := c.peer } event).run { uringData := c.serverData } with
  | .error e => .error e
  | .ok ((y, server), es) =>
    let passed := c.takes event ∧ server.currentOp = .write
    es.function.foldlM (fun c q => c.callChild q.fn)
      { c with
        server, serverData := es.uringData
        http := if c.takes event then { c.http with parser := none } else c.http
        handled := if passed then c.handled ++ (c.http.parser.map B.get).toList else c.handled
        closed := c.closed || y.isSome }

/-- A completion of the byte socket reaches the HTTP object, and from there the server object when it
was the last. -/
def httpEvent (env : Environment) (c : Connection B) (code : Int) : Except Fault (Connection B) :=
  match (c.http.onYield (AioLanding.Connection.completion code)).run { uringData := c.httpData } with
  | .error e => .error e
  | .ok ((y, http), es) =>
    let c := { c with
      http, httpData := es.uringData, pending := c.pending ++ es.function.map (·.fn) }
    match y with
    | none => .ok c
    | some (_, code) => c.serverEvent env (AioLanding.Connection.completion code)

/-- One event. An index without a call stands for no event. -/
def step (env : Environment) (c : Connection B) : ConnectionEvent → Except Fault (Connection B)
  | .received chunk =>
    ({ c with
      pending := c.pending.tail
      http := { c.http with buffer := c.http.buffer.fill chunk } }).httpEvent env chunk.length
  | .sent n => ({ c with pending := c.pending.tail }).httpEvent env n
  | .other index child =>
    if index < c.others.length then
      ({ c with others := c.others.eraseIdx index }).serverEvent env (.childTaskCompletion child)
    else .ok c
  | .timeout timerId => c.serverEvent env (.timeout timerId)

/-- The contexts as the constructors leave them, with the objects in their slots. -/
def constructed (tls : Bool) : Connection B where
  server := { tlsEnabled := tls, currentOp := .read, timer := some 0 }
  serverData := (({} : IoUringData vocabulary)).setSlots .readWriteHttp [some { event := some 1 }]
  http := { tlsEnabled := tls }
  httpData := (({} : IoUringData ReadWriteHttp.vocabulary)).setSlots
    (if tls then .tlsSocket else .readWriteBytes) [some { event := some 2 }]

/-- The connection after `start`. -/
def start (B : Beast) (tls : Bool) : Except Fault (Connection B) :=
  match (MonitoringServer.start (constructed tls : Connection B).server).run
      { uringData := (constructed tls : Connection B).serverData } with
  | .error e => .error e
  | .ok (server, es) =>
    es.function.foldlM (fun c q => c.callChild q.fn)
      { (constructed tls : Connection B) with server, serverData := es.uringData }

end Connection

/-! ## The handler -/

/-- A request that goes to the manager: a `GET` request that lacks a header of an upgrade. -/
def Passable (req : Request) : Prop :=
  req.method = .get ∧
    (req.fields.find Field.connection = none ∨ req.fields.find Field.upgrade = none)

/-- The state of the stream. -/
def Streaming (s : MonitoringServer) : Prop :=
  s.currentOp = .websocketLogs ∨ s.currentOp = .websocketLive

/-- A call of the timer or of the WebSocket. -/
def ChildCall.isOther : ChildCall → Bool
  | .readHttp => false
  | .writeHttp _ => false
  | _ => true

section Handler

variable {env : Environment} {s s' : MonitoringServer} {es es' : EventState vocabulary} {y : Yielded}

/-- `stage_http_read` drops the request, accepts an upgrade, or passes the request on. -/
theorem stageHttpRead_cases (h : (MonitoringServer.stageHttpRead env s).run es = .ok ((y, s'), es')) :
    ∃ id req, env.getData id = some (some req) ∧
      ((¬ Passable req ∧ s' = s ∧ es'.function.map (·.fn) = es.function.map (·.fn)) ∨
      (¬ Passable req ∧ s' = { s with currentOp := .websocketInit } ∧ ∃ key res,
        MonitoringServer.upgradeResponse env req key = .ok res ∧
        es'.function.map (·.fn) = es.function.map (·.fn) ++ [.writeHttp res]) ∨
      (Passable req ∧ (∃ effects, s' = { s with currentOp := .write, effects }) ∧ ∃ res,
        (env.httpManager.handleRequest env.fs req).2 = .ok res ∧
        es'.function.map (·.fn) = es.function.map (·.fn) ++ [.writeHttp res])) := by
  obtain ⟨req, es₁, haccess, hrest⟩ := Script.run_bind_ok h
  obtain ⟨hes, info, -, hreq⟩ := Script.run_directAccess_ok haccess
  simp only at hes hreq
  refine ⟨info.event, req, hreq, ?_⟩
  rw [hes] at hrest
  split at hrest
  · rename_i hget
    split at hrest
    -- a GET with both fields is an upgrade, and never passed on
    · rename_i hfields
      have hnot : ¬ Passable req := by
        rintro ⟨-, hnone | hnone⟩
        · rw [hnone] at hfields
          exact Bool.false_ne_true hfields.1
        · rw [hnone] at hfields
          exact Bool.false_ne_true hfields.2
      obtain ⟨connection, -, hrest⟩ := Script.run_ofExcept_bind_ok hrest
      obtain ⟨upgrade, -, hrest⟩ := Script.run_ofExcept_bind_ok hrest
      split at hrest
      · obtain ⟨hr, rfl⟩ := Prod.mk.inj (Except.ok.inj hrest)
        exact Or.inl ⟨hnot, (Prod.mk.inj hr).2.symm, rfl⟩
      · obtain ⟨key, -, hrest⟩ := Script.run_ofExcept_bind_ok hrest
        obtain ⟨res, hres, hrest⟩ := Script.run_ofExcept_bind_ok hrest
        obtain ⟨idx, hrest⟩ := Script.run_c_bind_ok hrest
        obtain ⟨hr, rfl⟩ := Prod.mk.inj (Except.ok.inj hrest)
        obtain ⟨-, rfl⟩ := Prod.mk.inj hr
        exact Or.inr (Or.inl ⟨hnot, rfl, key, res, hres, List.map_append⟩)
    -- a field is missing: the request is for the HTTP manager
    · rename_i hfields
      have hpassable : Passable req := by
        refine ⟨hget, ?_⟩
        by_contra hboth
        rw [not_or] at hboth
        exact hfields ⟨Option.isSome_iff_ne_none.2 hboth.1, Option.isSome_iff_ne_none.2 hboth.2⟩
      obtain ⟨res, hres, hrest⟩ := Script.run_ofExcept_bind_ok hrest
      obtain ⟨idx, hrest⟩ := Script.run_c_bind_ok hrest
      obtain ⟨hr, rfl⟩ := Prod.mk.inj (Except.ok.inj hrest)
      obtain ⟨-, rfl⟩ := Prod.mk.inj hr
      exact Or.inr (Or.inr ⟨hpassable, ⟨_, rfl⟩, res, hres, List.map_append⟩)
  -- another method is dropped without an answer
  · rename_i hget
    obtain ⟨hr, rfl⟩ := Prod.mk.inj (Except.ok.inj hrest)
    exact Or.inl ⟨fun hpassable => hget hpassable.1, (Prod.mk.inj hr).2.symm, rfl⟩

/-- `stage_websocket_logs` makes one call of the WebSocket. -/
theorem stageWebsocketLogs_cases (hop : s.currentOp = .websocketLogs)
    (h : (MonitoringServer.stageWebsocketLogs env s).run es = .ok (s', es')) :
    Streaming s' ∧ ∃ fn, fn.isOther = true ∧
      es'.function.map (·.fn) = es.function.map (·.fn) ++ [fn] := by
  unfold MonitoringServer.stageWebsocketLogs at h
  simp only at h
  split at h
  · obtain ⟨idx, hrest⟩ := Script.run_c_bind_ok h
    obtain ⟨rfl, rfl⟩ := Prod.mk.inj (Except.ok.inj hrest)
    exact ⟨Or.inr rfl, _, rfl, List.map_append⟩
  · obtain ⟨idx, hrest⟩ := Script.run_c_bind_ok h
    obtain ⟨rfl, rfl⟩ := Prod.mk.inj (Except.ok.inj hrest)
    exact ⟨Or.inl hop, _, rfl, List.map_append⟩

/-- `stage_websocket_live` makes no call or starts the next tick. -/
theorem stageWebsocketLive_cases {child : ChildTaskCompletion} (hop : s.currentOp = .websocketLive)
    (h : (MonitoringServer.stageWebsocketLive env s child).run es = .ok (s', es')) :
    Streaming s' ∧ ∃ calls : List ChildCall, (∀ fn ∈ calls, fn.isOther = true) ∧
      es'.function.map (·.fn) = es.function.map (·.fn) ++ calls := by
  unfold MonitoringServer.stageWebsocketLive at h
  generalize hs : (if child.taskId = s.websocketWriterid then { s with writeOccurred := true }
    else if child.taskId = s.timerid then { s with timeoutOccurred := true } else s) = marked at h
  have hmarked : marked.currentOp = .websocketLive := by
    rw [← hs]
    split
    · exact hop
    · split <;> exact hop
  simp only at h
  split at h
  · obtain ⟨tidx, hrest⟩ := Script.run_c_bind_ok h
    obtain ⟨widx, hrest⟩ := Script.run_c_bind_ok hrest
    obtain ⟨rfl, rfl⟩ := Prod.mk.inj (Except.ok.inj hrest)
    refine ⟨Or.inr hmarked, [.prepareTimer, .writeFrame .record], by simp [ChildCall.isOther], ?_⟩
    simp [EventState.callAt]
  · obtain ⟨rfl, rfl⟩ := Prod.mk.inj (Except.ok.inj h)
    exact ⟨Or.inr hmarked, [], by simp, (List.append_nil _).symm⟩

/-- What the server object does with an event: it makes no call, takes the request of its HTTP child,
asks for the next one, or goes on with the stream. -/
theorem onYield_cases {event : EventType}
    (h : (s.onYield env event).run es = .ok ((y, s'), es')) :
    (s' = s ∧ es'.function.map (·.fn) = es.function.map (·.fn) ∧
      ∀ child, event = .childTaskCompletion child → child.returnCode ≤ 0) ∨
    (∃ child, event = .childTaskCompletion child ∧ 0 < child.returnCode ∧
      ((s.currentOp = .read ∧
        (MonitoringServer.stageHttpRead env s).run (es.cancelTimer s.timer) = .ok ((y, s'), es')) ∨
      (s.currentOp = .write ∧ (∃ timer, s' = { s with timer, currentOp := .read }) ∧
        es'.function.map (·.fn) = es.function.map (·.fn) ++ [.readHttp]) ∨
      ((s.currentOp = .websocketInit ∨ Streaming s) ∧ Streaming s' ∧
        ∃ calls : List ChildCall, (∀ fn ∈ calls, fn.isOther = true) ∧
          es'.function.map (·.fn) = es.function.map (·.fn) ++ calls))) := by
  cases event with
  | childTaskCompletion child =>
    unfold MonitoringServer.onYield at h
    simp only at h
    split at h
    · rename_i hneg
      obtain ⟨hr, rfl⟩ := Prod.mk.inj (Except.ok.inj h)
      refine Or.inl ⟨(Prod.mk.inj hr).2.symm, rfl, fun child' hchild => ?_⟩
      obtain rfl := EventType.childTaskCompletion.inj hchild
      exact hneg
    · rename_i hneg
      refine Or.inr ⟨child, rfl, Int.not_le.1 hneg, ?_⟩
      -- by the stage: read, write, and the three of the stream
      split at h
      · rename_i hop
        obtain ⟨_, es₁, hstop, h⟩ := Script.run_bind_ok h
        obtain ⟨-, rfl⟩ := Prod.mk.inj (Except.ok.inj hstop)
        exact Or.inl ⟨hop, h⟩
      · rename_i hop
        obtain ⟨timer, es₁, hstart, h⟩ := Script.run_bind_ok h
        obtain ⟨-, rfl⟩ := Prod.mk.inj (Except.ok.inj hstart)
        obtain ⟨idx, h⟩ := Script.run_c_bind_ok h
        obtain ⟨hr, rfl⟩ := Prod.mk.inj (Except.ok.inj h)
        obtain ⟨-, rfl⟩ := Prod.mk.inj hr
        exact Or.inr (Or.inl ⟨hop, ⟨_, rfl⟩, List.map_append⟩)
      · rename_i hop
        obtain ⟨timer, es₁, hstart, h⟩ := Script.run_bind_ok h
        obtain ⟨-, rfl⟩ := Prod.mk.inj (Except.ok.inj hstart)
        obtain ⟨s₁, es₂, hinit, h⟩ := Script.run_bind_ok h
        obtain ⟨s₂, es₃, hlogs, h⟩ := Script.run_bind_ok h
        obtain ⟨hr, rfl⟩ := Prod.mk.inj (Except.ok.inj h)
        obtain ⟨-, rfl⟩ := Prod.mk.inj hr
        obtain ⟨rfl, rfl⟩ := Prod.mk.inj (Except.ok.inj hinit)
        obtain ⟨hstreaming, fn, hother, hcalls⟩ := stageWebsocketLogs_cases rfl hlogs
        refine Or.inr (Or.inr ⟨Or.inl hop, hstreaming, [fn], ?_, hcalls⟩)
        simpa using hother
      · rename_i hop
        obtain ⟨s₁, es₁, hlogs, h⟩ := Script.run_bind_ok h
        obtain ⟨hr, rfl⟩ := Prod.mk.inj (Except.ok.inj h)
        obtain ⟨-, rfl⟩ := Prod.mk.inj hr
        obtain ⟨hstreaming, fn, hother, hcalls⟩ := stageWebsocketLogs_cases hop hlogs
        refine Or.inr (Or.inr ⟨Or.inr (Or.inl hop), hstreaming, [fn], ?_, hcalls⟩)
        simpa using hother
      · rename_i hop
        obtain ⟨s₁, es₁, hlive, h⟩ := Script.run_bind_ok h
        obtain ⟨hr, rfl⟩ := Prod.mk.inj (Except.ok.inj h)
        obtain ⟨-, rfl⟩ := Prod.mk.inj hr
        obtain ⟨hstreaming, hcalls⟩ := stageWebsocketLive_cases hop hlive
        exact Or.inr (Or.inr ⟨Or.inr (Or.inr hop), hstreaming, hcalls⟩)
  | _ =>
    obtain ⟨hr, rfl⟩ := Prod.mk.inj (Except.ok.inj h)
    exact Or.inl ⟨(Prod.mk.inj hr).2.symm, rfl, fun child hchild => by cases hchild⟩

end Handler

/-! ## The connection -/

namespace Connection

variable {B : Beast} {env : Environment} {c c' : Connection B} {code : Int}

/-- The state in which an event reaches the objects. -/
def arrived (c : Connection B) : ConnectionEvent → Connection B
  | .received chunk => { c with
      pending := c.pending.tail
      http := { c.http with buffer := c.http.buffer.fill chunk } }
  | .sent _ => { c with pending := c.pending.tail }
  | .other index _ => { c with others := c.others.eraseIdx index }
  | .timeout _ => c

/-- The number of bytes that an event of the byte socket reports. -/
def reported : ConnectionEvent → Int
  | .received chunk => chunk.length
  | .sent n => n
  | .other _ _ => 0
  | .timeout _ => 0

/-- What the parser returns on an event, when the server object waits for a request. -/
def parsed (c : Connection B) (e : ConnectionEvent) :
    Option (B.Parser × FlatBuffer × Option ParseError) :=
  if c.server.currentOp = .read ∧ 0 < reported e then (c.arrived e).http.outcome (reported e)
  else none

/-- A step adds nothing to the response but the acceptance of an upgrade. -/
def Unserved (env : Environment) (c c' : Connection B) : Prop :=
  c'.http.writeBuffer.data <:+ c.http.writeBuffer.data ∨
    ∃ req key res, MonitoringServer.upgradeResponse env req key = .ok res ∧
      c'.http.writeBuffer.data = c.http.writeBuffer.data ++ B.serialize res

/-- A step adds the manager's answer to a request. -/
def Served (env : Environment) (c c' : Connection B) (req : Request) : Prop :=
  c'.handled = c.handled ++ [req] ∧ ∃ res,
    (env.httpManager.handleRequest env.fs req).2 = .ok res ∧
      c'.http.writeBuffer.data = c.http.writeBuffer.data ++ B.serialize res

/-- The step from `c` to `c'` passes on complete messages only, and what it adds to the response is
the manager's answer to such a message or the acceptance of an upgrade. -/
def PassesComplete (env : Environment) (c : Connection B) (e : ConnectionEvent)
    (c' : Connection B) : Prop :=
  (∀ req, c'.handled = c.handled ++ [req] →
    ∃ x, c.parsed e = some x ∧ ReadWriteHttp.Parsed x ∧ req = B.get x.1) ∧
    (Unserved env c c' ∨ ∃ req, Served env c c' req)

/-- The server object waits for a request exactly when the HTTP object reads one, and the timer and
the WebSocket are called by the stream only. -/
structure InStep (c : Connection B) : Prop where
  reads : c.server.currentOp = .read ↔ c.http.readOp = true
  streams : c.others ≠ [] → Streaming c.server

theorem callChild_writeHttp {res : Response} (h : c.callChild (.writeHttp res) = .ok c') :
    c'.server = c.server ∧ c'.handled = c.handled ∧ c'.others = c.others ∧ c'.http.readOp = false ∧
      c'.http.writeBuffer.data = c.http.writeBuffer.data ++ B.serialize res := by
  unfold callChild at h
  simp only at h
  split at h
  · cases h
  · rename_i http es hrun
    obtain rfl := Except.ok.inj h
    exact ⟨rfl, rfl, rfl, ReadWriteHttp.writeHttp_eq hrun⟩

theorem callChild_readHttp (h : c.callChild .readHttp = .ok c') :
    c'.server = c.server ∧ c'.handled = c.handled ∧ c'.others = c.others ∧ c'.http.readOp = true ∧
      c'.http.writeBuffer = c.http.writeBuffer := by
  unfold callChild at h
  simp only at h
  split at h
  · cases h
  · rename_i http es hrun
    obtain rfl := Except.ok.inj h
    exact ⟨rfl, rfl, rfl, ReadWriteHttp.readHttp_eq hrun⟩

theorem callChild_other {fn : ChildCall} (hfn : fn.isOther = true) :
    c.callChild fn = .ok { c with others := c.others ++ [fn] } := by
  cases fn with
  | readHttp => cases hfn
  | writeHttp res => cases hfn
  | prepareTimer => rfl
  | writeFrame buf => rfl
  | writeFrame2 chunk => rfl

/-- The calls of the stream leave the two objects. -/
theorem callChildren_other {calls : List (EventQueuedFunction vocabulary)}
    (hcalls : ∀ fn ∈ calls.map (·.fn), fn.isOther = true)
    (h : calls.foldlM (fun c q => c.callChild q.fn) c = .ok c') :
    c'.server = c.server ∧ c'.handled = c.handled ∧ c'.http = c.http := by
  induction calls generalizing c with
  | nil =>
    obtain rfl := Except.ok.inj h
    exact ⟨rfl, rfl, rfl⟩
  | cons q calls ih =>
    rw [List.map_cons, List.forall_mem_cons] at hcalls
    rw [List.foldlM_cons, callChild_other hcalls.1] at h
    have hrest : calls.foldlM (fun c q => c.callChild q.fn) { c with others := c.others ++ [q.fn] } =
        .ok c' := h
    have hsame := ih hcalls.2 hrest
    exact hsame

/-- The message that is taken is that of the parser. -/
theorem peer_eq {id : Id} {req : Request} (h : c.peer id = some (some req)) :
    ∃ p, c.http.parser = some p ∧ B.get p = req := by
  unfold peer at h
  split at h
  · exact Option.map_eq_some_iff.1 (Option.some.inj h)
  · cases h

/-- What taking the message of the parser leads to: the connection is dropped, the upgrade is
accepted, or the message is passed on and answered. -/
def Takes (env : Environment) (c c' : Connection B) (p : B.Parser) : Prop :=
  (¬ Passable (B.get p) ∧ c'.server = c.server ∧ c'.handled = c.handled ∧
    c'.http.readOp = c.http.readOp ∧ c'.http.writeBuffer = c.http.writeBuffer) ∨
  (¬ Passable (B.get p) ∧ c'.server.currentOp = .websocketInit ∧ c'.handled = c.handled ∧
    c'.http.readOp = false ∧ ∃ key res,
      MonitoringServer.upgradeResponse env (B.get p) key = .ok res ∧
        c'.http.writeBuffer.data = c.http.writeBuffer.data ++ B.serialize res) ∨
  (Passable (B.get p) ∧ c'.server.currentOp = .write ∧ c'.http.readOp = false ∧
    Served env c c' (B.get p))

/-- An event reaches the server object: nothing changes, the message of the parser is taken, the next
request is read, or the stream goes on. -/
theorem serverEvent_cases {event : EventType} (h : c.serverEvent env event = .ok c') :
    (c'.server = c.server ∧ c'.http = c.http ∧ c'.handled = c.handled ∧ c'.others = c.others ∧
      ∀ child, event = .childTaskCompletion child → child.returnCode ≤ 0) ∨
    (∃ child, event = .childTaskCompletion child ∧ 0 < child.returnCode ∧
      ((c.server.currentOp = .read ∧ c'.others = c.others ∧
        ∃ p, c.http.parser = some p ∧ Takes env c c' p) ∨
      (c.server.currentOp = .write ∧ c'.server.currentOp = .read ∧ c'.http.readOp = true ∧
        c'.handled = c.handled ∧ c'.others = c.others ∧
        c'.http.writeBuffer = c.http.writeBuffer) ∨
      ((c.server.currentOp = .websocketInit ∨ Streaming c.server) ∧ Streaming c'.server ∧
        c'.handled = c.handled ∧ c'.http = c.http))) := by
  unfold serverEvent at h
  split at h
  · cases h
  · rename_i y server es hrun
    rcases onYield_cases hrun with ⟨rfl, hcalls, hneg⟩ | ⟨child, rfl, hpos, hcases⟩
    -- no call, so nothing was taken
    · have htakes : c.takes event = false := by
        cases event with
        | childTaskCompletion child =>
          exact decide_eq_false fun h => absurd h.2 (Int.not_lt.2 (hneg child rfl))
        | _ => rfl
      rw [List.map_eq_nil_iff.1 hcalls, htakes] at h
      simp only [Bool.false_eq_true, false_and, if_false, List.foldlM_nil] at h
      obtain rfl := Except.ok.inj h
      exact Or.inl ⟨rfl, rfl, rfl, rfl, hneg⟩
    · refine Or.inr ⟨child, rfl, hpos, ?_⟩
      -- one case for each of the stages: read, write, and stream
      rcases hcases with ⟨hop, hread⟩ | ⟨hop, ⟨timer, rfl⟩, hcalls⟩ |
        ⟨hop, hstreaming, calls, hother, hcalls⟩
      · refine Or.inl ⟨hop, ?_⟩
        have htakes : c.takes (.childTaskCompletion child) = true := decide_eq_true ⟨hop, hpos⟩
        rw [htakes] at h
        simp only [if_true, true_and] at h
        obtain ⟨id, req, hreq, hcases⟩ := stageHttpRead_cases hread
        obtain ⟨p, hp, rfl⟩ := peer_eq hreq
        rw [hp] at h
        rcases hcases with ⟨hnot, rfl, hcalls⟩ | ⟨hnot, rfl, key, res, hres, hcalls⟩ |
          ⟨hpassable, ⟨effects, rfl⟩, res, hres, hcalls⟩
        · rw [List.map_eq_nil_iff.1 hcalls, hop] at h
          obtain rfl := Except.ok.inj h
          exact ⟨rfl, p, hp, Or.inl ⟨hnot, rfl, rfl, rfl, rfl⟩⟩
        · obtain ⟨q, hq, hfn⟩ := AioLanding.Connection.eq_singleton hcalls
          simp only [hq, List.foldlM_cons, List.foldlM_nil, bind_pure, hfn] at h
          obtain ⟨hserver, hhandled, hothers, hreadOp, hdata⟩ := callChild_writeHttp h
          refine ⟨hothers, p, hp, Or.inr (Or.inl ⟨hnot, ?_, hhandled, hreadOp, key, res, hres, hdata⟩)⟩
          rw [hserver]
        · obtain ⟨q, hq, hfn⟩ := AioLanding.Connection.eq_singleton hcalls
          simp only [hq, List.foldlM_cons, List.foldlM_nil, bind_pure, hfn] at h
          obtain ⟨hserver, hhandled, hothers, hreadOp, hdata⟩ := callChild_writeHttp h
          refine ⟨hothers, p, hp, Or.inr (Or.inr ⟨hpassable, ?_, hreadOp, hhandled, res, hres, hdata⟩)⟩
          rw [hserver]
      · have htakes : c.takes (.childTaskCompletion child) = false :=
          decide_eq_false fun h => by rw [hop] at h; exact absurd h.1 (by decide)
        obtain ⟨q, hq, hfn⟩ := AioLanding.Connection.eq_singleton hcalls
        rw [htakes] at h
        simp only [hq, Bool.false_eq_true, false_and, if_false, List.foldlM_cons, List.foldlM_nil,
          bind_pure, hfn] at h
        obtain ⟨hserver, hhandled, hothers, hreadOp, hbuffer⟩ := callChild_readHttp h
        refine Or.inr (Or.inl ⟨hop, ?_, hreadOp, hhandled, hothers, hbuffer⟩)
        rw [hserver]
      · have htakes : c.takes (.childTaskCompletion child) = false := by
          refine decide_eq_false fun h => ?_
          rcases hop with hop | hop | hop <;> exact absurd (h.1.symm.trans hop) (by decide)
        rw [htakes] at h
        simp only [Bool.false_eq_true, false_and, if_false] at h
        have hmade : es.function.map (·.fn) = calls := hcalls
        rw [← hmade] at hother
        obtain ⟨hserver, hhandled, hhttp⟩ := callChildren_other hother h
        refine Or.inr (Or.inr ⟨hop, ?_, hhandled, hhttp⟩)
        rw [hserver]
        exact hstreaming

/-- A completed read: more is read, or the message of the parser is taken. -/
theorem httpEvent_read (hin : InStep c) (hop : c.http.readOp = true) (hpos : 0 < code)
    (h : c.httpEvent env code = .ok c') :
    InStep c' ∧ ∃ x, c.http.outcome code = some x ∧
      ((c'.handled = c.handled ∧ ¬ ReadWriteHttp.Failed x ∧
        c'.http.writeBuffer = c.http.writeBuffer) ∨
      (c'.handled = c.handled ∧ ¬ Passable (B.get x.1) ∧ Unserved env c c') ∨
      ((ReadWriteHttp.Failed x ∨ ReadWriteHttp.Parsed x) ∧ Passable (B.get x.1) ∧
        Served env c c' (B.get x.1))) := by
  have hserver : c.server.currentOp = .read := hin.reads.2 hop
  unfold httpEvent AioLanding.Connection.completion at h
  split at h
  · cases h
  · rename_i y http es hrun
    obtain ⟨x, hx, hop', hbuffer, ⟨rfl, hok⟩ | ⟨rfl, hdone, hparser⟩⟩ :=
      ReadWriteHttp.read_cases hop hpos hrun
    · obtain rfl := Except.ok.inj h
      exact ⟨⟨iff_of_true hserver hop', hin.streams⟩, x, hx, Or.inl ⟨rfl, hok, hbuffer⟩⟩
    -- a session that reads requests does not stream
    · have hothers : c.others = [] := by
        by_contra hne
        rcases hin.streams hne with hstream | hstream <;>
          exact absurd (hserver.symm.trans hstream) (by decide)
      rcases serverEvent_cases h with ⟨-, -, -, -, hneg⟩ |
        ⟨child, hchild, -, ⟨-, hothers', p, hp, htakes⟩ | ⟨hop₁, -⟩ | ⟨hop₁, -⟩⟩
      · exact absurd (hneg _ rfl) (by decide)
      · obtain rfl : x.1 = p := Option.some.inj (hparser.symm.trans hp)
        have hnone : c'.others ≠ [] → Streaming c'.server := fun hne =>
          absurd (hothers'.trans hothers) hne
        -- the three ways to take a request: dropped, upgraded, passed on
        rcases htakes with ⟨hnot, hsame, hhandled, hreadOp, hdata⟩ |
          ⟨hnot, hop₁, hhandled, hreadOp, key, res, hres, hdata⟩ | ⟨hpassable, hop₁, hreadOp, hserved⟩
        · refine ⟨⟨?_, hnone⟩, x, hx, Or.inr (Or.inl ⟨hhandled, hnot, Or.inl ?_⟩)⟩
          · rw [hsame, hreadOp]
            exact iff_of_true hserver hop'
          · rw [hdata, hbuffer]
        · refine ⟨⟨?_, hnone⟩, x, hx,
            Or.inr (Or.inl ⟨hhandled, hnot, Or.inr ⟨_, key, res, hres, ?_⟩⟩)⟩
          · rw [hop₁, hreadOp]
            decide
          · rw [hdata, hbuffer]
        · obtain ⟨hhandled, res, hres, hdata⟩ := hserved
          refine ⟨⟨?_, hnone⟩, x, hx, Or.inr (Or.inr ⟨hdone, hpassable, hhandled, res, hres, ?_⟩)⟩
          · rw [hop₁, hreadOp]
            decide
          · rw [hdata, hbuffer]
      · exact absurd (hserver.symm.trans hop₁) (by decide)
      · rcases hop₁ with hop₁ | hop₁ | hop₁ <;> exact absurd (hserver.symm.trans hop₁) (by decide)

/-- An event that reaches a server object that waits for no request passes nothing on. -/
theorem serverEvent_write {event : EventType} (hin : InStep c)
    (hwrite : ∀ child, event = .childTaskCompletion child → 0 < child.returnCode →
      c.server.currentOp ≠ .read) (h : c.serverEvent env event = .ok c') :
    InStep c' ∧ c'.handled = c.handled ∧ c'.http.writeBuffer = c.http.writeBuffer := by
  rcases serverEvent_cases h with ⟨hserver, hhttp, hhandled, hothers, -⟩ |
    ⟨child, hchild, hpos, ⟨hop, -⟩ | ⟨hop, hop', hreadOp, hhandled, hothers, hbuffer⟩ |
      ⟨hop, hop', hhandled, hhttp⟩⟩
  · refine ⟨⟨?_, ?_⟩, hhandled, by rw [hhttp]⟩
    · rw [hserver, hhttp]
      exact hin.reads
    · rw [hserver, hothers]
      exact hin.streams
  · exact absurd hop (hwrite child hchild hpos)
  · refine ⟨⟨iff_of_true hop' hreadOp, fun hne => ?_⟩, hhandled, hbuffer⟩
    rw [hothers] at hne
    rcases hin.streams hne with hstream | hstream <;>
      exact absurd (hop.symm.trans hstream) (by decide)
  · refine ⟨⟨iff_of_false ?_ ?_, fun _ => hop'⟩, hhandled, by rw [hhttp]⟩
    · intro hread
      rcases hop' with hstream | hstream <;> exact absurd (hread.symm.trans hstream) (by decide)
    · rw [hhttp, ← hin.reads]
      exact hwrite child hchild hpos

/-- A completed write, or an event that ends the task, passes nothing on. -/
theorem httpEvent_write (hin : InStep c) (hop : c.http.readOp = false ∨ code ≤ 0)
    (h : c.httpEvent env code = .ok c') :
    InStep c' ∧ c'.handled = c.handled ∧
      c'.http.writeBuffer.data <:+ c.http.writeBuffer.data := by
  unfold httpEvent AioLanding.Connection.completion at h
  split at h
  · cases h
  · rename_i y http es hrun
    obtain ⟨hop', hsuffix, -, hcontinues⟩ := ReadWriteHttp.write_cases hop hrun
    have hreads : c.server.currentOp = .read ↔ http.readOp = true := by
      rw [hop']
      exact hin.reads
    cases y with
    | none =>
      obtain rfl := Except.ok.inj h
      exact ⟨⟨hreads, hin.streams⟩, rfl, hsuffix⟩
    | some r =>
      obtain ⟨failure, code'⟩ := r
      have hwrite : ∀ child, AioLanding.Connection.completion code' = .childTaskCompletion child →
          0 < child.returnCode → c.server.currentOp ≠ .read := by
        intro child hchild hpos hread
        obtain rfl := EventType.childTaskCompletion.inj hchild
        have hwriting := (hcontinues _ rfl hpos).2
        exact absurd ((hin.reads.1 hread).symm.trans hwriting) (by decide)
      have hin₁ : InStep { c with
          http, httpData := es.uringData
          pending := c.pending ++ es.function.map (·.fn) } := ⟨hreads, hin.streams⟩
      obtain ⟨hin', hhandled, hbuffer⟩ := serverEvent_write hin₁ hwrite h
      refine ⟨hin', hhandled, ?_⟩
      rw [hbuffer]
      exact hsuffix

/-- What a step leads to: nothing is passed on, and the parser did not fail on a request that goes to
the manager; or the message of the parser is passed on and answered. -/
def Outcome (env : Environment) (c : Connection B) (e : ConnectionEvent) (c' : Connection B) : Prop :=
  (c'.handled = c.handled ∧ Unserved env c c' ∧
    ∀ x, c.parsed e = some x → Passable (B.get x.1) → ¬ ReadWriteHttp.Failed x) ∨
  ∃ x, c.parsed e = some x ∧ (ReadWriteHttp.Failed x ∨ ReadWriteHttp.Parsed x) ∧
    Passable (B.get x.1) ∧ Served env c c' (B.get x.1)

/-- An event of the byte socket. -/
theorem socketEvent_cases {e : ConnectionEvent} (hserver : (c.arrived e).server = c.server)
    (hhandled : (c.arrived e).handled = c.handled)
    (hwrite : (c.arrived e).http.writeBuffer = c.http.writeBuffer) (hin : InStep (c.arrived e))
    (h : (c.arrived e).httpEvent env (reported e) = .ok c') : InStep c' ∧ Outcome env c e c' := by
  unfold Outcome parsed Unserved Served
  by_cases hread : c.server.currentOp = .read ∧ 0 < reported e
  · have hop : (c.arrived e).http.readOp = true := by
      rw [← hin.reads, hserver]
      exact hread.1
    rw [if_pos hread, ← hhandled, ← hwrite]
    obtain ⟨hin', x, hx, ⟨hsame, hok, hbuffer⟩ | ⟨hsame, hnot, hunserved⟩ |
      ⟨hdone, hpassable, hserved⟩⟩ := httpEvent_read hin hop hread.2 h
    · refine ⟨hin', Or.inl ⟨hsame, Or.inl (by rw [hbuffer]), fun x' hx' _ => ?_⟩⟩
      obtain rfl := Option.some.inj (hx.symm.trans hx')
      exact hok
    · refine ⟨hin', Or.inl ⟨hsame, hunserved, fun x' hx' hpassable => ?_⟩⟩
      obtain rfl := Option.some.inj (hx.symm.trans hx')
      exact absurd hpassable hnot
    · exact ⟨hin', Or.inr ⟨x, hx, hdone, hpassable, hserved⟩⟩
  · have hop : (c.arrived e).http.readOp = false ∨ reported e ≤ 0 := by
      by_cases hwaiting : c.server.currentOp = .read
      · exact Or.inr (Int.not_lt.1 fun hpos => hread ⟨hwaiting, hpos⟩)
      · refine Or.inl (Bool.eq_false_iff.2 fun hreadOp => hwaiting ?_)
        rw [← hserver]
        exact hin.reads.2 hreadOp
    rw [if_neg hread, ← hhandled, ← hwrite]
    obtain ⟨hin', hsame, hsuffix⟩ := httpEvent_write hin hop h
    exact ⟨hin', Or.inl ⟨hsame, Or.inl hsuffix, fun x hx => by cases hx⟩⟩

theorem parsed_of_reported {e : ConnectionEvent} (h : reported e = 0) : c.parsed e = none :=
  if_neg fun hread => by
    rw [h] at hread
    exact absurd hread.2 (by decide)

/-- An event that is not of the byte socket. -/
theorem otherEvent_cases {e : ConnectionEvent} {event : EventType}
    (hserver : (c.arrived e).server = c.server)
    (hhandled : (c.arrived e).handled = c.handled) (hhttp : (c.arrived e).http = c.http)
    (hreported : reported e = 0) (hin : InStep (c.arrived e))
    (hwrite : ∀ child, event = .childTaskCompletion child → 0 < child.returnCode →
      c.server.currentOp ≠ .read)
    (h : (c.arrived e).serverEvent env event = .ok c') : InStep c' ∧ Outcome env c e c' := by
  rw [← hserver] at hwrite
  obtain ⟨hin', hsame, hbuffer⟩ := serverEvent_write hin hwrite h
  refine ⟨hin', Or.inl ⟨hsame.trans hhandled, Or.inl ?_, fun x hx => ?_⟩⟩
  · rw [hbuffer, hhttp]
  · rw [parsed_of_reported hreported] at hx
    cases hx

/-- One event, of the byte socket, the timer, the WebSocket or a timer of the object. -/
theorem step_cases (hin : InStep c) {e : ConnectionEvent} (h : c.step env e = .ok c') :
    InStep c' ∧ Outcome env c e c' := by
  cases e with
  | received chunk => exact socketEvent_cases rfl rfl rfl ⟨hin.reads, hin.streams⟩ h
  | sent n => exact socketEvent_cases rfl rfl rfl ⟨hin.reads, hin.streams⟩ h
  | other index child =>
    simp only [step] at h
    split at h
    · rename_i hindex
      have hstream : Streaming c.server := by
        refine hin.streams fun hnil => ?_
        rw [hnil] at hindex
        exact absurd hindex (Nat.not_lt_zero _)
      refine otherEvent_cases (e := .other index child) rfl rfl rfl rfl
        ⟨hin.reads, fun _ => hstream⟩ (fun _ _ _ hread => ?_) h
      rcases hstream with hop | hop <;> exact absurd (hread.symm.trans hop) (by decide)
    · obtain rfl := Except.ok.inj h
      refine ⟨hin, Or.inl ⟨rfl, Or.inl List.suffix_rfl, fun x hx => ?_⟩⟩
      rw [parsed_of_reported (e := .other index child) rfl] at hx
      cases hx
  | timeout timerId =>
    have hserver : c.serverEvent env (.timeout timerId) = .ok c' := h
    refine otherEvent_cases (e := .timeout timerId) rfl rfl rfl rfl hin (fun child hchild => ?_) hserver
    cases hchild

theorem start_inStep {tls : Bool} (h : start B tls = .ok c) : InStep c := by
  unfold start at h
  split at h
  · cases h
  · rename_i server es hrun
    have hstart : server.currentOp = .read ∧ es.function.map (·.fn) = [.readHttp] := by
      obtain ⟨idx, hrun⟩ := Script.run_c_bind_ok hrun
      obtain ⟨timer, es₁, htimer, hrun⟩ := Script.run_bind_ok hrun
      obtain ⟨-, rfl⟩ := Prod.mk.inj (Except.ok.inj htimer)
      obtain ⟨rfl, rfl⟩ := Prod.mk.inj (Except.ok.inj hrun)
      exact ⟨rfl, rfl⟩
    obtain ⟨q, hq, hfn⟩ := AioLanding.Connection.eq_singleton hstart.2
    simp only [hq, List.foldlM_cons, List.foldlM_nil, bind_pure, hfn] at h
    obtain ⟨hserver, -, hothers, hreadOp, -⟩ := callChild_readHttp h
    refine ⟨iff_of_true ?_ hreadOp, fun hne => absurd hothers hne⟩
    rw [hserver]
    exact hstart.1

/-- An event of the connection, with what the handlers find outside then. -/
def run (c : Connection B) (a : Environment × ConnectionEvent) : Except Fault (Connection B) :=
  c.step a.1 a.2

/-- Over any events of the connection, an event passes on complete messages only exactly if the parser
does not fail on a request that goes to the manager. -/
theorem step_passed_iff {tls : Bool} {c₀ : Connection B} (hstart : start B tls = .ok c₀)
    (hreached : Reached run (fun _ _ => True) c₀ c) {e : ConnectionEvent}
    (h : c.step env e = .ok c') :
    PassesComplete env c e c' ↔
      ∀ x, c.parsed e = some x → Passable (B.get x.1) → ¬ ReadWriteHttp.Failed x := by
  have hin : InStep c := hreached.invariant (start_inStep hstart)
    fun s a s' hs _ hstep => (step_cases hs hstep).1
  obtain ⟨-, ⟨hsame, hunserved, hok⟩ | ⟨x, hx, hdone, hpassable, hserved⟩⟩ := step_cases hin h
  · refine iff_of_true ⟨fun req hreq => ?_, Or.inl hunserved⟩ hok
    rw [hsame] at hreq
    exact absurd hreq (by simp)
  · constructor
    · rintro ⟨hcomplete, -⟩ x' hx' - hfailed
      obtain ⟨x'', hx'', hparsed, -⟩ := hcomplete _ hserved.1
      obtain rfl := Option.some.inj (hx'.symm.trans hx'')
      exact hfailed.not_parsed hparsed
    · intro hok
      have hparsed := hdone.resolve_left (hok x hx hpassable)
      refine ⟨fun req hreq => ⟨x, hx, hparsed, ?_⟩, Or.inr ⟨_, hserved⟩⟩
      exact (List.cons.inj (List.append_cancel_left (hserved.1.symm.trans hreq))).1.symm

end Connection

/-- Both classes: over any events of a connection, an event passes on complete messages only, and
answers no other bytes from the endpoints or the file tree, exactly if the parser does not fail on it
while the landing page waits for a request, or while the monitor does and the message would go to its
manager. -/
theorem passed_complete_iff (B : Beast) (tls : Bool) :
    (∀ (c₀ c c' : AioLanding.Connection B) (site : AioLanding.Site) (e : AioLanding.SocketEvent),
      AioLanding.Connection.start B tls = .ok c₀ →
      Reached AioLanding.Connection.run (fun _ _ => True) c₀ c → c.step site e = .ok c' →
      (AioLanding.Connection.PassesComplete site c e c' ↔
        ∀ x, c.parsed e = some x → ¬ ReadWriteHttp.Failed x)) ∧
    ∀ (c₀ c c' : Connection B) (env : Environment) (e : ConnectionEvent),
      Connection.start B tls = .ok c₀ →
      Reached Connection.run (fun _ _ => True) c₀ c → c.step env e = .ok c' →
      (Connection.PassesComplete env c e c' ↔
        ∀ x, c.parsed e = some x → Passable (B.get x.1) → ¬ ReadWriteHttp.Failed x) :=
  ⟨fun _ _ _ _ _ hstart hreached h => AioLanding.Connection.step_passed_iff hstart hreached h,
    fun _ _ _ _ _ hstart hreached h => Connection.step_passed_iff hstart hreached h⟩

/-! ## A header field without a name -/

/-- The bytes of a request with a header field that has no name. -/
def namelessText : Str := "GET / HTTP/1.1\r\n: x\r\n\r\n".toList

/-- A parser of `pageText`, which fails on the header field of `namelessText` and keeps what it read
before: the state 1 is that of a parser that failed, 2 that of one that is done. -/
def pageParser : Beast where
  Parser := Nat
  fresh := 0
  put p d := if p = 0 ∧ namelessText <+: d then (16, some .malformed, 1)
    else if p = 0 ∧ AioLanding.pageText <+: d then (AioLanding.pageText.length, none, 2)
    else (0, some .needMore, p)
  isDone p := p == 2
  get _ := AioLanding.pageRequest
  serialize := AioLanding.responseText

/-- The page of `/srv/www`. -/
def homeFile : AbsPath := ⟨["srv".toList, "www".toList, "index.html".toList], by decide⟩

/-- A file system with this page. -/
def homeFileSystem : FileSystem where
  isDirectory path := .ok (path == "/srv/www/".toList)
  canonical path :=
    if path = "/srv/www".toList then .ok HttpManager.wwwDirectory
    else if path = "/srv/www/index.html".toList then .ok homeFile
    else .error .filesystemError
  exists' _ := .ok true
  contents _ := .ok (some "home".toList)

/-- The manager of `/srv/www`. -/
def homeManager : HttpManager where
  service := "/srv/www:".toList
  basePath := HttpManager.wwwDirectory
  handlers _ := none

/-- A landing page over it. -/
def homeSite : AioLanding.Site where
  fs := homeFileSystem
  httpManager := homeManager
  responds := HttpManager.handleRequest_isOk fun _ => rfl

/-- A monitor over it. -/
def homeEnvironment : Environment where
  fs := homeFileSystem
  httpManager := homeManager
  created := ⟨"/srv/www".toList, rfl⟩
  getData _ := none
  sha1 _ := []
  logFile := []
  scanRecord _ := none
  live := ⟨0, 0, 0, 0⟩

/-- Both classes pass on a request that is complete. -/
theorem passed_complete_page :
    (∃ c c', AioLanding.Connection.start pageParser false = .ok c ∧
      c.step homeSite (.received AioLanding.pageText) = .ok c' ∧
      c'.server.handled = [AioLanding.pageRequest] ∧
      AioLanding.Connection.PassesComplete homeSite c (.received AioLanding.pageText) c') ∧
    ∃ c c', Connection.start pageParser false = .ok c ∧
      c.step homeEnvironment (.received AioLanding.pageText) = .ok c' ∧
      c'.handled = [AioLanding.pageRequest] ∧
      Connection.PassesComplete homeEnvironment c (.received AioLanding.pageText) c' := by
  obtain ⟨hlanding, hmonitor⟩ := passed_complete_iff pageParser false
  refine ⟨⟨_, _, rfl, rfl, rfl, (hlanding _ _ _ _ _ rfl .start rfl).2 ?_⟩,
    ⟨_, _, rfl, rfl, rfl, (hmonitor _ _ _ _ _ rfl .start rfl).2 ?_⟩⟩
  · rintro x ⟨⟩
    exact fun hfailed => by cases hfailed
  · rintro x ⟨⟩ -
    exact fun hfailed => by cases hfailed

/-- The answer to `pageRequest`. -/
def homePage : Response :=
  { status := .ok, version := 11, body := "home".toList
    fields := [(Field.server, "AIO-Landing".toList), (Field.contentType, "text/html".toList),
      (Field.contentLength, "4".toList)] }

/-- Both classes pass on the request before the header field without a name, and answer with the
page. -/
theorem not_passed_complete :
    (∃ c c', AioLanding.Connection.start pageParser false = .ok c ∧
      c.step homeSite (.received namelessText) = .ok c' ∧
      c'.server.handled = [AioLanding.pageRequest] ∧
      (∃ res, res.body = "home".toList ∧
        c'.http.writeBuffer.data = AioLanding.responseText res) ∧
      ¬ AioLanding.Connection.PassesComplete homeSite c (.received namelessText) c') ∧
    ∃ c c', Connection.start pageParser false = .ok c ∧
      c.step homeEnvironment (.received namelessText) = .ok c' ∧
      c'.handled = [AioLanding.pageRequest] ∧
      (∃ res, res.body = "home".toList ∧
        c'.http.writeBuffer.data = AioLanding.responseText res) ∧
      ¬ Connection.PassesComplete homeEnvironment c (.received namelessText) c' := by
  refine ⟨⟨_, _, rfl, rfl, rfl, ?_, ?_⟩, ⟨_, _, rfl, rfl, rfl, ?_, ?_⟩⟩
  · exact ⟨homePage, rfl, rfl⟩
  · rintro ⟨hcomplete, -⟩
    obtain ⟨x, ⟨⟩, hparsed, -⟩ := hcomplete _ rfl
    exact absurd hparsed.1 (by decide)
  · exact ⟨homePage, rfl, rfl⟩
  · rintro ⟨hcomplete, -⟩
    obtain ⟨x, ⟨⟩, hparsed, -⟩ := hcomplete _ rfl
    exact absurd hparsed.1 (by decide)

end LocalSoftware.BandwidthMonitor
