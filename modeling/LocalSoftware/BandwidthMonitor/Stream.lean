import LocalSoftware.BandwidthMonitor.Handshake
import LocalSoftware.BandwidthMonitor.PassedRequests
import LocalSoftware.Common.Operations
import LocalSoftware.Common.WebsocketSocket
import LocalSoftware.Library.Numerals
import Mathlib.Data.List.InsertIdx

/-!
# The stream of the monitor

`Session` puts `BandwidthMonitoringServer` together with its `WebsocketSocket` and the calls of its
children that are not complete. A call waits in the queue, runs, is done, and then its completion
reaches the server object; what happens next is arbitrary, and other objects of the shared context
may take identifiers in between.

`live_protocol` is the rule for the live stage: at most one write and one timer call are open, the
buffer of a write that runs is in `w_buf_`, and a tick is issued exactly when both calls of the last
one have succeeded.
-/

set_option autoImplicit false

namespace LocalSoftware.BandwidthMonitor

open Http Websocket Library.Numerals

/-! ## The frames -/

/-- The bytes of a packed `LogRecord`. -/
def LogRecord.bytes (r : LogRecord) : List UInt8 :=
  littleEndian 8 r.timestamp ++ littleEndian 8 r.txBytes ++ littleEndian 8 r.rxBytes ++
    littleEndian 4 r.hour

/-- The bytes of `marker`. -/
def markerBytes : List UInt8 := List.replicate 24 0xFF

/-- A call of the WebSocket. -/
def ChildCall.isWrite : ChildCall → Bool
  | .writeFrame _ => true
  | .writeFrame2 _ => true
  | _ => false

theorem ChildCall.isOther_of_isWrite {fn : ChildCall} (h : fn.isWrite = true) : fn.isOther = true := by
  cases fn with
  | writeFrame buf => rfl
  | writeFrame2 chunk => rfl
  | readHttp => cases h
  | writeHttp res => cases h
  | prepareTimer => cases h

/-- A call of the timer. -/
def ChildCall.isTimer : ChildCall → Bool
  | .prepareTimer => true
  | _ => false

/-- The payload that a call of the WebSocket reads when it runs. -/
def MonitoringServer.payload (s : MonitoringServer) : ChildCall → List UInt8
  | .writeFrame .marker => markerBytes
  | .writeFrame .record => s.record.bytes
  | .writeFrame2 chunk => chunk.flatMap LogRecord.bytes
  | _ => []

/-! ## Sessions -/

/-- How far a call is: in the queue of the child, running, with the write that it made below, or done
with this code. -/
inductive Phase where
  | queued
  | running (write : Option ChildWrite)
  | done (code : Int)
deriving DecidableEq, Repr

/-- A call whose completion did not reach the server object. -/
structure OpenCall where
  id : Id
  fn : ChildCall
  phase : Phase := .queued
deriving DecidableEq, Repr

/-- The server object with its context, the WebSocket and the open calls. The other fields are a
history: `sent` are the calls of the WebSocket so far and `written` those that ran, with the payload
that each one read; `acks` counts those that succeeded, `succeeded` are the calls that did, and `tick`
are the timer call and the write of the last tick. -/
structure Session where
  server : MonitoringServer
  data : IoUringData vocabulary
  socket : WebsocketSocket
  calls : List OpenCall := []
  sent : List ChildCall := []
  written : List (ChildCall × List UInt8) := []
  acks : Nat := 0
  succeeded : List Id := []
  tick : Option (Id × Id) := none

/-- What can happen to a session. An index without a fitting call stands for no event. -/
inductive SessionEvent where
  /-- The function of a child is called. -/
  | run (i : Nat)
  /-- The child has the result of a call that runs. -/
  | finish (i : Nat) (code : Int)
  /-- The completion of a call that is done reaches the server object. -/
  | deliver (i : Nat)
  /-- A timer of the server object expires. -/
  | timeout (timerId : Id)
  /-- Other objects of the context take identifiers. -/
  | taken (n : Nat)
  /-- A constructor or the runtime fills in a slot that is occupied. -/
  | placed (ty : ChildType) (idx : Nat) (info : EventInfo)

namespace Session

/-- The tick among the calls of a handler: the timer and the write of the record. -/
def newTick : List (EventQueuedFunction vocabulary) → Option (Id × Id)
  | [{ localId := tid, fn := .prepareTimer, .. },
      { localId := wid, fn := .writeFrame .record, .. }] => some (tid, wid)
  | _ => none

/-- An event reaches the server object. -/
def serverEvent (env : Environment) (s : Session) (event : EventType) : Except Fault Session :=
  match (s.server.onYield env event).run { uringData := s.data } with
  | .error e => .error e
  | .ok ((_, server), es) => .ok { s with
      server, data := es.uringData
      calls := s.calls ++ es.function.map fun q => { id := q.localId, fn := q.fn }
      sent := s.sent ++ (es.function.map (·.fn)).filter ChildCall.isWrite
      tick := (newTick es.function).or s.tick }

/-- `write_frame` runs for a call of the WebSocket. -/
def run (s : Session) (i : Nat) : Except Fault Session :=
  match s.calls[i]? with
  | some { id, fn, phase := .queued } =>
    if fn.isWrite then
      match s.socket.writeFrame (s.server.payload fn) with
      | none => .error .undefinedBehaviour
      | some (socket, write, _) => .ok { s with
          socket, calls := s.calls.set i { id, fn, phase := .running (some write) }
          written := s.written ++ [(fn, s.server.payload fn)] }
    else .ok { s with calls := s.calls.set i { id, fn, phase := .running none } }
  | _ => .ok s

/-- The completion of a call. -/
def completion (id : Id) (code : Int) : ChildTaskCompletion :=
  { callingId := none, taskId := id, status := if 0 < code then .finished else .failed
    returnCode := code }

/-- `on_yield` of the child for a call that runs. -/
def finish (s : Session) (i : Nat) (code : Int) : Session :=
  match s.calls[i]? with
  | some { id, fn, phase := .running _ } => { s with
      socket := if fn.isWrite then (s.socket.onYield (completion none code)).2 else s.socket
      calls := s.calls.set i { id, fn, phase := .done code } }
  | _ => s

/-- A completion is on its way to the server object. -/
def acknowledge (s : Session) (i : Nat) (id : Id) (fn : ChildCall) (code : Int) : Session := { s with
  calls := s.calls.eraseIdx i
  acks := if 0 < code ∧ fn.isWrite then s.acks + 1 else s.acks
  succeeded := if 0 < code then s.succeeded ++ [id] else s.succeeded }

/-- It reaches the server object. -/
def deliver (env : Environment) (s : Session) (i : Nat) : Except Fault Session :=
  match s.calls[i]? with
  | some { id, fn, phase := .done code } =>
    (s.acknowledge i id fn code).serverEvent env
      (.childTaskCompletion (completion id code))
  | _ => .ok s

/-- One event. -/
def step (env : Environment) (s : Session) : SessionEvent → Except Fault Session
  | .run i => s.run i
  | .finish i code => .ok (s.finish i code)
  | .deliver i => s.deliver env i
  | .timeout timerId => s.serverEvent env (.timeout timerId)
  | .taken n => .ok { s with data := { s.data with localProcId := s.data.localProcId + n } }
  | .placed ty idx info => .ok { s with
      data := s.data.setSlots ty ((s.data.slots ty).modify idx fun o => o.map fun _ => info) }

/-- The server object after its constructor and `start`. -/
def start (tls : Bool) : Except Fault Session :=
  match (MonitoringServer.constructor tls).run {} with
  | .error e => .error e
  | .ok (_, es) =>
    match (MonitoringServer.start { tlsEnabled := tls, currentOp := .read, timer := some 0 }).run
        { uringData := es.uringData } with
    | .error e => .error e
    | .ok (server, es) => .ok {
        server, data := es.uringData, socket := { tlsEnabled := tls }
        calls := es.function.map fun q => { id := q.localId, fn := q.fn } }

end Session

/-! ## The handlers of the stream -/

/-- The context has an object of this class. -/
def HasChild (d : IoUringData vocabulary) (ty : ChildType) : Prop := ∃ info, some info ∈ d.slots ty

section Handlers

variable {env : Environment} {s : MonitoringServer} {es : EventState vocabulary}

theorem HasChild.congr {d d' : IoUringData vocabulary} {ty : ChildType} (h : HasChild d ty)
    (hd : d'.subEvents = d.subEvents) : HasChild d' ty := by
  unfold HasChild IoUringData.slots at *
  rw [hd]
  exact h

/-- A call on a class with an object goes to one. -/
theorem call_of_hasChild {ty : ChildType} (h : HasChild es.uringData ty) (fn : ChildCall) :
    ∃ idx, es.call ty fn = .ok (es.callAt ty idx fn) := by
  obtain ⟨info, hinfo⟩ := h
  unfold EventState.call
  cases hslots : es.uringData.subEvents ty with
  | none =>
    rw [IoUringData.slots, hslots] at hinfo
    exact absurd hinfo List.not_mem_nil
  | some slots =>
    rw [IoUringData.slots, hslots, Option.getD_some] at hinfo
    have hlt : slots.findIdx (fun o => o.isSome) < slots.length :=
      List.findIdx_lt_length_of_exists ⟨some info, hinfo, rfl⟩
    exact ⟨_, if_neg (Nat.ne_of_lt hlt)⟩

/-- A construction puts an object into a slot of its class. -/
theorem hasChild_queueConstruct (shared : Bool) (ty : ChildType) (fn : ChildConstruct) :
    HasChild (es.queueConstruct (V := vocabulary) shared ty fn).2.uringData ty := by
  refine ⟨{}, ?_⟩
  simp only [EventState.queueConstruct, IoUringData.slots_setSlots_self]
  refine List.mem_of_getElem? (i := IoUringData.freeSlot (es.uringData.slots ty)) ?_
  rw [IoUringData.getElem?_place (IoUringData.freeSlot_le _), if_pos rfl]

/-- It leaves the other classes. -/
theorem HasChild.queueConstruct {ty ty' : ChildType} (h : HasChild es.uringData ty') (shared : Bool)
    (fn : ChildConstruct) (hne : ty' ≠ ty) :
    HasChild (es.queueConstruct (V := vocabulary) shared ty fn).2.uringData ty' := by
  obtain ⟨info, hinfo⟩ := h
  refine ⟨info, ?_⟩
  unfold EventState.queueConstruct IoUringData.setSlots IoUringData.slots
  simp only [Function.update_of_ne hne]
  exact hinfo

/-- Information of an object is filled in where there is some. -/
theorem HasChild.modify {d : IoUringData vocabulary} {ty : ChildType} (h : HasChild d ty)
    (ty' : ChildType) (idx : Nat) (info : EventInfo) :
    HasChild (d.setSlots ty' ((d.slots ty').modify idx fun o => o.map fun _ => info)) ty := by
  obtain ⟨info', hinfo⟩ := h
  by_cases hty : ty = ty'
  · subst hty
    obtain ⟨i, hi⟩ := List.getElem?_of_mem hinfo
    unfold HasChild
    rw [IoUringData.slots_setSlots_self]
    have hget := List.getElem?_modify (fun o : Option EventInfo => o.map fun _ => info) idx
      (d.slots ty) i
    rw [hi, Option.map_eq_map, Option.map_some] at hget
    by_cases hidx : idx = i
    · rw [if_pos hidx] at hget
      exact ⟨info, List.mem_of_getElem? hget⟩
    · rw [if_neg hidx] at hget
      exact ⟨info', List.mem_of_getElem? hget⟩
  · refine ⟨info', ?_⟩
    unfold IoUringData.setSlots IoUringData.slots
    simp only [Function.update_of_ne hty]
    exact hinfo

/-- What `stage_websocket_logs` sends next: the records of the next lines, or the marker when there
are none. -/
def nextFrame (env : Environment) (log : List Str) : ChildCall × List Str × State :=
  let (chunk, rest) := MonitoringServer.readRecords env 15 log
  if chunk = [] then (.writeFrame .marker, rest, .websocketLive)
  else (.writeFrame2 chunk, rest, .websocketLogs)

theorem run_stageWebsocketLogs (env : Environment) (hop : s.currentOp = .websocketLogs)
    (hchild : HasChild es.uringData .websocketSocket) : ∃ idx,
    (MonitoringServer.stageWebsocketLogs env s).run es =
      .ok ({ s with log := (nextFrame env s.log).2.1, currentOp := (nextFrame env s.log).2.2 },
        (es.callAt (V := vocabulary) .websocketSocket idx (nextFrame env s.log).1).2) := by
  obtain ⟨idx, hcall⟩ := call_of_hasChild hchild (nextFrame env s.log).1
  refine ⟨idx, ?_⟩
  unfold MonitoringServer.stageWebsocketLogs
  simp only
  unfold nextFrame at hcall ⊢
  simp only at hcall ⊢
  split
  · rename_i hempty
    simp only [if_pos hempty] at hcall ⊢
    rw [Script.run_bind, Script.run_c, hcall]
    rfl
  · rename_i hempty
    simp only [if_neg hempty] at hcall ⊢
    rw [Script.run_bind, Script.run_c, hcall, ← hop]
    rfl

/-- The flags after a completion. -/
def marked (s : MonitoringServer) (taskId : Id) : MonitoringServer :=
  if taskId = s.websocketWriterid then { s with writeOccurred := true }
  else if taskId = s.timerid then { s with timeoutOccurred := true } else s

/-- `stage_websocket_live` issues a tick. -/
def Ticks (s : MonitoringServer) : Prop :=
  (s.writeOccurred = true ∧ s.timeoutOccurred = true) ∨ s.timerid = some 0

theorem run_stageWebsocketLive_tick (env : Environment) {child : ChildTaskCompletion}
    (hticks : Ticks (marked s child.taskId)) (htimer : HasChild es.uringData .bandwidthDataTimer)
    (hsocket : HasChild es.uringData .websocketSocket) : ∃ tidx widx,
    (MonitoringServer.stageWebsocketLive env s child).run es =
      .ok ({ marked s child.taskId with
          record := env.live, writeOccurred := false, timeoutOccurred := false
          timerid := some es.uringData.localProcId
          websocketWriterid := some (es.uringData.localProcId + 1) },
        ((es.callAt (V := vocabulary) .bandwidthDataTimer tidx .prepareTimer).2.callAt
          (V := vocabulary) .websocketSocket widx (.writeFrame .record)).2) := by
  obtain ⟨tidx, htcall⟩ := call_of_hasChild htimer .prepareTimer
  have hsocket' : HasChild (es.callAt (V := vocabulary) .bandwidthDataTimer tidx
      .prepareTimer).2.uringData .websocketSocket := hsocket.congr rfl
  obtain ⟨widx, hwcall⟩ := call_of_hasChild hsocket' (.writeFrame .record)
  refine ⟨tidx, widx, ?_⟩
  unfold MonitoringServer.stageWebsocketLive
  simp only
  rw [if_pos]
  · rw [Script.run_bind, Script.run_c, htcall]
    simp only
    rw [Script.run_bind, Script.run_c, hwcall]
    rfl
  · exact hticks

theorem run_stageWebsocketLive_wait (env : Environment) {child : ChildTaskCompletion}
    (hticks : ¬ Ticks (marked s child.taskId)) :
    (MonitoringServer.stageWebsocketLive env s child).run es =
      .ok (marked s child.taskId, es) := by
  unfold MonitoringServer.stageWebsocketLive
  simp only
  rw [if_neg]
  · rfl
  · exact hticks

end Handlers

/-! ## Events of the server object -/

namespace Session

variable {env : Environment} {s s' : Session} {id : Id} {code : Int}

/-- The context after `n` identifiers are taken. -/
def takeIds (d : IoUringData vocabulary) (n : Nat) : IoUringData vocabulary :=
  { d with localProcId := d.localProcId + n }

theorem isWrite_nextFrame (env : Environment) (log : List Str) :
    (nextFrame env log).1.isWrite = true := by
  unfold nextFrame
  simp only
  split <;> rfl

/-- One more call of the WebSocket. -/
def addFrame (s : Session) (server : MonitoringServer) (data : IoUringData vocabulary)
    (fn : ChildCall) : Session := { s with
  server, data
  calls := s.calls ++ [{ id := some s.data.localProcId, fn }]
  sent := s.sent ++ [fn] }

/-- One more tick. -/
def addTick (s : Session) (server : MonitoringServer) : Session := { s with
  server, data := takeIds s.data 2
  calls := s.calls ++ [{ id := some s.data.localProcId, fn := .prepareTimer },
    { id := some (s.data.localProcId + 1), fn := .writeFrame .record }]
  sent := s.sent ++ [.writeFrame .record]
  tick := some (some s.data.localProcId, some (s.data.localProcId + 1)) }

theorem serverEvent_timeout (env : Environment) (timerId : Id) : s.serverEvent env (.timeout timerId) = .ok s := by
  unfold serverEvent MonitoringServer.onYield
  simp [newTick]

theorem serverEvent_failed (env : Environment) (hneg : code ≤ 0) :
    s.serverEvent env (.childTaskCompletion (completion id code)) = .ok s := by
  unfold serverEvent MonitoringServer.onYield completion
  simp [newTick, hneg]

theorem serverEvent_logs (env : Environment) (hop : s.server.currentOp = .websocketLogs)
    (hchild : HasChild s.data .websocketSocket) (hpos : 0 < code) :
    s.serverEvent env (.childTaskCompletion (completion id code)) = .ok (s.addFrame
      { s.server with
        log := (nextFrame env s.server.log).2.1, currentOp := (nextFrame env s.server.log).2.2 }
      (takeIds s.data 1) (nextFrame env s.server.log).1) := by
  have hchild' : HasChild ({ uringData := s.data } : EventState vocabulary).uringData
      .websocketSocket := hchild
  obtain ⟨idx, hrun⟩ := run_stageWebsocketLogs env hop hchild'
  unfold serverEvent MonitoringServer.onYield completion
  simp only [if_neg (Int.not_le.2 hpos), hop]
  rw [Script.run_bind, hrun]
  simp [addFrame, takeIds, newTick, EventState.callAt, isWrite_nextFrame]

/-- The state of the object when `stage_websocket_init` is through: the two children are constructed. -/
def afterInit (s : Session) : EventState vocabulary :=
  let es : EventState vocabulary := { uringData := s.data }
  let es := (es.queueTimer ⟨1200, 0⟩).2
  let es := (es.queueConstruct true .bandwidthDataTimer .bandwidthDataTimer).2
  (es.queueConstruct true .websocketSocket (.websocketSocket s.server.tlsEnabled)).2

theorem hasChild_afterInit (s : Session) : HasChild s.afterInit.uringData .bandwidthDataTimer ∧
    HasChild s.afterInit.uringData .websocketSocket :=
  ⟨(hasChild_queueConstruct true .bandwidthDataTimer .bandwidthDataTimer).queueConstruct true
      (.websocketSocket s.server.tlsEnabled) (by decide),
    hasChild_queueConstruct true .websocketSocket (.websocketSocket s.server.tlsEnabled)⟩

theorem serverEvent_init (env : Environment) (hop : s.server.currentOp = .websocketInit) (hpos : 0 < code) :
    s.serverEvent env (.childTaskCompletion (completion id code)) = .ok (s.addFrame
      { s.server with
        timer := some s.data.localTimerId, log := (nextFrame env env.logFile).2.1
        currentOp := (nextFrame env env.logFile).2.2 }
      (takeIds s.afterInit.uringData 1) (nextFrame env env.logFile).1) := by
  obtain ⟨idx, hrun⟩ := run_stageWebsocketLogs env
    (s := { s.server with
      timer := some s.data.localTimerId, log := env.logFile, currentOp := .websocketLogs })
    rfl (hasChild_afterInit s).2
  have hinit : (MonitoringServer.stageWebsocketInit env { s.server with
      timer := some s.data.localTimerId }).run
        (({ uringData := s.data } : EventState vocabulary).queueTimer ⟨1200, 0⟩).2 =
      .ok ({ s.server with
        timer := some s.data.localTimerId, log := env.logFile, currentOp := .websocketLogs },
        s.afterInit) := rfl
  have hyield : (s.server.onYield env (.childTaskCompletion (completion id code))).run
      { uringData := s.data } = .ok ((none, { s.server with
        timer := some s.data.localTimerId, log := (nextFrame env env.logFile).2.1
        currentOp := (nextFrame env env.logFile).2.2 }),
        (s.afterInit.callAt (V := vocabulary) .websocketSocket idx
          (nextFrame env env.logFile).1).2) := by
    unfold MonitoringServer.onYield
    simp only [completion, if_neg (Int.not_le.2 hpos), hop]
    rw [Script.run_bind, Script.run_startTimer]
    simp only
    rw [Script.run_bind]
    erw [hinit]
    simp only
    rw [Script.run_bind, hrun]
    rfl
  unfold serverEvent
  rw [hyield]
  simp [addFrame, takeIds, newTick, EventState.callAt, isWrite_nextFrame, afterInit,
    EventState.queueConstruct, EventState.queueTimer, IoUringData.setSlots]

theorem serverEvent_tick (env : Environment) (hop : s.server.currentOp = .websocketLive)
    (hticks : Ticks (marked s.server id)) (htimer : HasChild s.data .bandwidthDataTimer)
    (hsocket : HasChild s.data .websocketSocket) (hpos : 0 < code) :
    s.serverEvent env (.childTaskCompletion (completion id code)) = .ok (s.addTick
      { marked s.server id with
        record := env.live, writeOccurred := false, timeoutOccurred := false
        timerid := some s.data.localProcId, websocketWriterid := some (s.data.localProcId + 1) }) := by
  have htimer' : HasChild ({ uringData := s.data } : EventState vocabulary).uringData
      .bandwidthDataTimer := htimer
  have hticks' : Ticks (marked s.server (completion id code).taskId) := hticks
  obtain ⟨tidx, widx, hrun⟩ := run_stageWebsocketLive_tick env hticks' htimer' hsocket
  unfold serverEvent MonitoringServer.onYield
  simp only [completion, if_neg (Int.not_le.2 hpos), hop]
  simp only [completion] at hrun
  rw [Script.run_bind, hrun]
  simp [addTick, takeIds, newTick, EventState.callAt, ChildCall.isWrite]

theorem serverEvent_wait (env : Environment) (hop : s.server.currentOp = .websocketLive)
    (hticks : ¬ Ticks (marked s.server id)) (hpos : 0 < code) :
    s.serverEvent env (.childTaskCompletion (completion id code)) =
      .ok { s with server := marked s.server id } := by
  have hrun : (MonitoringServer.stageWebsocketLive env s.server (completion id code)).run
      { uringData := s.data } = .ok (marked s.server id, { uringData := s.data }) :=
    run_stageWebsocketLive_wait env hticks
  unfold serverEvent MonitoringServer.onYield
  simp only [completion, if_neg (Int.not_le.2 hpos), hop]
  simp only [completion] at hrun
  rw [Script.run_bind, hrun]
  simp [newTick]

/-! ## The invariant -/

/-- What does not change while a call waits or runs. -/
def keys (s : Session) : List (Id × ChildCall) := s.calls.map fun c => (c.id, c.fn)

/-- The identifier was taken from the counter. -/
def Issued (d : IoUringData vocabulary) (id : Id) : Prop := ∃ n < d.localProcId, id = some n

theorem Issued.mono {d d' : IoUringData vocabulary} (h : Issued d id)
    (hle : d.localProcId ≤ d'.localProcId) : Issued d' id := by
  obtain ⟨n, hn, rfl⟩ := h
  exact ⟨n, Nat.lt_of_lt_of_le hn hle, rfl⟩

/-- A handler takes the identifiers of its calls from the counter. -/
theorem run_issued {α : Type} {x : Script vocabulary α} {d : IoUringData vocabulary} {a : α}
    {es : EventState vocabulary} (h : x.run { uringData := d } = .ok (a, es)) :
    d.localProcId ≤ es.uringData.localProcId ∧ ∀ q ∈ es.function, Issued es.uringData q.localId := by
  refine Script.run_invariant (A := fun _ => True) (K := fun es =>
    d.localProcId ≤ es.uringData.localProcId ∧ ∀ q ∈ es.function, Issued es.uringData q.localId)
    (Script.uses_of_forall (fun _ => trivial) x) h ⟨Nat.le_refl _, fun q hq => ?_⟩ ?_
  · exact absurd hq List.not_mem_nil
  · intro es op es' hes _ hop
    -- the counter only grows, and a call gets the identifier before it
    have hcall : ∀ ty idx fn, es' = (es.callAt (V := vocabulary) ty idx fn).2 →
        d.localProcId ≤ es'.uringData.localProcId ∧
          ∀ q ∈ es'.function, Issued es'.uringData q.localId := by
      rintro ty idx fn rfl
      refine ⟨Nat.le_succ_of_le hes.1, fun q hq => ?_⟩
      rcases List.mem_append.1 hq with hq | hq
      · exact (hes.2 q hq).mono (Nat.le_succ _)
      · rw [List.mem_singleton.1 hq]
        exact ⟨_, Nat.lt_succ_self _, rfl⟩
    cases op with
    | callAt ty idx fn => exact hcall ty idx fn (Except.ok.inj hop).symm
    | call ty fn =>
      simp only [EventState.apply] at hop
      cases hc : es.call ty fn with
      | error e =>
        rw [hc] at hop
        cases hop
      | ok r =>
        rw [hc] at hop
        obtain rfl := EventState.call_eq_ok hc
        exact hcall ty _ fn (Except.ok.inj hop).symm
    | delete ty idx =>
      obtain ⟨info, locator, -, -, rfl⟩ := EventState.queueDelete_eq_ok hop
      exact hes
    | construct shared ty fn =>
      obtain rfl := Except.ok.inj hop
      exact hes
    | uring op fn =>
      obtain rfl := Except.ok.inj hop
      exact hes
    | attach id =>
      obtain rfl := Except.ok.inj hop
      exact hes
    | timer ts =>
      obtain rfl := Except.ok.inj hop
      exact hes
    | cancelTimer id =>
      obtain rfl := Except.ok.inj hop
      exact hes

/-- The calls of the last tick: one of the timer and one of the WebSocket. The flags of the server
object say which succeeded. -/
structure TickCalls (s : Session) (tid wid : Id) : Prop where
  tick : s.tick = some (tid, wid)
  timerid : s.server.timerid = tid
  websocketWriterid : s.server.websocketWriterid = wid
  ne : tid ≠ wid
  nonzero : tid ≠ some 0
  nodup : (s.keys.map Prod.fst).Nodup
  calls : ∀ k ∈ s.keys, k.1 ∉ s.succeeded ∧
    (k = (tid, .prepareTimer) ∨ k = (wid, .writeFrame .record))
  timeout : s.server.timeoutOccurred = true ↔ tid ∈ s.succeeded
  write : s.server.writeOccurred = true ↔ wid ∈ s.succeeded

/-- At least one of them did not succeed yet. -/
structure Ticking (s : Session) (tid wid : Id) : Prop extends TickCalls s tid wid where
  waits : ¬ (tid ∈ s.succeeded ∧ wid ∈ s.succeeded)

/-- The stages of a session, with what is open in each. -/
inductive Stage (s : Session) : Prop where
  | request (hop : s.server.currentOp = .read ∨ s.server.currentOp = .write ∨
        s.server.currentOp = .websocketInit)
      (hcalls : s.keys.length ≤ 1 ∧ ∀ k ∈ s.keys, k.2.isOther = false)
      (htick : s.tick = none) (htimerid : s.server.timerid = some 0)
  | history (hop : s.server.currentOp = .websocketLogs ∨ s.server.currentOp = .websocketLive)
      (htimer : HasChild s.data .bandwidthDataTimer) (hsocket : HasChild s.data .websocketSocket)
      (hcalls : s.keys.length ≤ 1 ∧ ∀ k ∈ s.keys, k.2.isWrite = true ∧
        (k.2 = .writeFrame .marker ↔ s.server.currentOp = .websocketLive))
      (htick : s.tick = none) (htimerid : s.server.timerid = some 0)
  | live (hop : s.server.currentOp = .websocketLive)
      (htimer : HasChild s.data .bandwidthDataTimer) (hsocket : HasChild s.data .websocketSocket)
      (tid wid : Id) (h : Ticking s tid wid)

/-- What holds of the identifiers and the buffer in every stage. -/
structure Base (s : Session) : Prop where
  started : 0 < s.data.localProcId
  issued : ∀ k ∈ s.keys, Issued s.data k.1
  succeeded : ∀ id ∈ s.succeeded, Issued s.data id
  buffer : ∀ c ∈ s.calls, ∀ write, c.phase = .running (some write) →
    c.fn.isWrite = true ∧ s.socket.wBuf = some write.buf

/-- The invariant of a session. -/
structure Inv (s : Session) : Prop extends Base s where
  stage : Stage s

theorem length_le_one_of_nodup {α : Type} {l : List α} {a : α} (hnodup : l.Nodup)
    (h : ∀ b ∈ l, b = a) : l.length ≤ 1 := by
  have hreplicate := List.eq_replicate_of_mem h
  rw [hreplicate, List.nodup_replicate] at hnodup
  exact hnodup

/-- Calls of one kind have one identifier. -/
theorem countP_le_one (p : ChildCall → Bool) (id : Id) (hnodup : (s.keys.map Prod.fst).Nodup)
    (h : ∀ k ∈ s.keys, p k.2 = true → k.1 = id) : s.calls.countP (fun c => p c.fn) ≤ 1 := by
  have hkeys : s.keys.countP (fun k => p k.2) ≤ 1 := by
    rw [List.countP_eq_length_filter, ← List.length_map Prod.fst]
    refine length_le_one_of_nodup ?_ (a := id) fun b hb => ?_
    · exact hnodup.sublist (List.filter_sublist.map _)
    · obtain ⟨k, hk, rfl⟩ := List.mem_map.1 hb
      obtain ⟨hmem, hp⟩ := List.mem_filter.1 hk
      exact h k hmem hp
  unfold keys at hkeys
  rw [List.countP_map] at hkeys
  exact hkeys

/-- In every stage at most one write and at most one call of the timer are open. -/
theorem Stage.single (h : Stage s) : s.calls.countP (fun c => c.fn.isWrite) ≤ 1 ∧
    s.calls.countP (fun c => c.fn.isTimer) ≤ 1 := by
  have hone : s.keys.length ≤ 1 → s.calls.countP (fun c => c.fn.isWrite) ≤ 1 ∧
      s.calls.countP (fun c => c.fn.isTimer) ≤ 1 := by
    intro hlength
    unfold keys at hlength
    rw [List.length_map] at hlength
    exact ⟨List.countP_le_length.trans hlength, List.countP_le_length.trans hlength⟩
  cases h with
  | request hop hcalls htick htimerid => exact hone hcalls.1
  | history hop htimer hsocket hcalls htick htimerid => exact hone hcalls.1
  | live hop htimer hsocket tid wid h =>
    refine ⟨countP_le_one ChildCall.isWrite wid h.nodup fun k hk hp => ?_,
      countP_le_one ChildCall.isTimer tid h.nodup fun k hk hp => ?_⟩
    · rcases (h.calls k hk).2 with rfl | rfl
      · cases hp
      · rfl
    · rcases (h.calls k hk).2 with rfl | rfl
      · rfl
      · cases hp

/-! ## The calls of the children -/

theorem eq_of_countP_le_one {α : Type} {p : α → Bool} {l : List α} (h : l.countP p ≤ 1) {i j : Nat}
    {a b : α} (hi : l[i]? = some a) (hj : l[j]? = some b) (ha : p a = true) (hb : p b = true) :
    i = j := by
  induction l generalizing i j with
  | nil => cases hi
  | cons c l ih =>
    have hrest : ∀ (k : Nat) (d : α), p c = true → p d = true → l[k]? ≠ some d := by
      intro k d hc hd hk
      have hpos : 0 < l.countP p := List.countP_pos_iff.2 ⟨d, List.mem_of_getElem? hk, hd⟩
      rw [List.countP_cons_of_pos hc] at h
      omega
    cases i with
    | zero =>
      obtain rfl := Option.some.inj hi
      cases j with
      | zero => rfl
      | succ j => exact absurd hj (hrest j b ha hb)
    | succ i =>
      cases j with
      | zero =>
        obtain rfl := Option.some.inj hj
        exact absurd hi (hrest i a hb ha)
      | succ j =>
        have hle : l.countP p ≤ 1 := (List.Sublist.countP_le (List.sublist_cons_self c l)).trans h
        rw [ih hle hi hj]

theorem keys_set {i : Nat} {c : OpenCall} (c' : OpenCall) (hc : s.calls[i]? = some c) (hid : c'.id = c.id)
    (hfn : c'.fn = c.fn) : (s.calls.set i c').map (fun c => (c.id, c.fn)) = s.keys := by
  unfold keys
  apply List.ext_getElem?
  intro j
  rw [List.getElem?_map, List.getElem?_map, List.getElem?_set]
  by_cases hj : i = j
  · subst hj
    obtain ⟨hlt, -⟩ := List.getElem?_eq_some_iff.1 hc
    rw [if_pos rfl, if_pos hlt, hc, Option.map_some, Option.map_some, hid, hfn]
  · rw [if_neg hj]

/-- A stage is a matter of the server object, the calls and the history; a call may go away. -/
theorem Stage.congr (h : Stage s) (hserver : s'.server = s.server) (hkeys : s'.keys.Sublist s.keys)
    (hchild : ∀ ty, HasChild s.data ty → HasChild s'.data ty) (htick : s'.tick = s.tick)
    (hsucceeded : s'.succeeded = s.succeeded) : Stage s' := by
  cases h with
  | request hop hcalls hnone htimerid =>
    rw [← hserver] at hop htimerid
    exact .request hop ⟨hkeys.length_le.trans hcalls.1, fun k hk => hcalls.2 k (hkeys.subset hk)⟩
      (htick.trans hnone) htimerid
  | history hop htimer hsocket hcalls hnone htimerid =>
    rw [← hserver] at hop hcalls htimerid
    exact .history hop (hchild _ htimer) (hchild _ hsocket)
      ⟨hkeys.length_le.trans hcalls.1, fun k hk => hcalls.2 k (hkeys.subset hk)⟩
      (htick.trans hnone) htimerid
  | live hop htimer hsocket tid wid h =>
    rw [← hserver] at hop
    refine .live hop (hchild _ htimer) (hchild _ hsocket) tid wid ?_
    obtain ⟨⟨htick', htimerid, hwriterid, hne, hnonzero, hnodup, hcalls, htimeout, hwrite⟩, hwaits⟩ := h
    rw [← hserver] at htimerid hwriterid htimeout hwrite
    rw [← hsucceeded] at hcalls htimeout hwrite hwaits
    exact ⟨⟨htick.trans htick', htimerid, hwriterid, hne, hnonzero, hnodup.sublist (hkeys.map _),
      fun k hk => hcalls k (hkeys.subset hk), htimeout, hwrite⟩, hwaits⟩

/-- `write_frame` leaves its buffer in `w_buf_`. -/
theorem wBuf_writeFrame {socket socket' : WebsocketSocket} {buf : List UInt8} {write : ChildWrite}
    {resp : CallResponse} (h : socket.writeFrame buf = some (socket', write, resp)) :
    socket'.wBuf = some write.buf := by
  unfold WebsocketSocket.writeFrame at h
  simp only [Option.bind_eq_bind, Option.bind_eq_some_iff] at h
  obtain ⟨cells, -, -, -, cells', -, h⟩ := h
  obtain ⟨rfl, hrest⟩ := Prod.mk.inj (Option.some.inj h)
  obtain ⟨rfl, -⟩ := Prod.mk.inj hrest
  unfold WebsocketSocket.armWrite
  simp only
  split <;> rfl

theorem run_inv (h : Inv s) {i : Nat} (hrun : s.run i = .ok s') : Inv s' := by
  unfold run at hrun
  split at hrun
  · rename_i id fn hcall
    have hsame : ∀ c', c'.id = id → c'.fn = fn →
        (s.calls.set i c').map (fun c => (c.id, c.fn)) = s.keys := fun c' hid hfn =>
      keys_set c' hcall hid hfn
    split at hrun
    · rename_i hwrite
      split at hrun
      · cases hrun
      -- the call that runs is the only write, so its frame is what the buffer holds
      · rename_i socket write resp hframe
        obtain rfl := Except.ok.inj hrun
        have hkeys := hsame { id, fn, phase := .running (some write) } rfl rfl
        refine ⟨⟨h.started, ?_, h.succeeded, ?_⟩, h.stage.congr rfl (hkeys ▸ .refl _) (fun _ hc => hc) rfl rfl⟩
        · rw [keys, hkeys]
          exact h.issued
        · intro c hc write' hphase
          obtain ⟨j, hj⟩ := List.getElem?_of_mem hc
          rw [List.getElem?_set] at hj
          split at hj
          · split at hj
            · obtain rfl := Option.some.inj hj
              obtain rfl := Option.some.inj (Phase.running.inj hphase)
              exact ⟨hwrite, wBuf_writeFrame hframe⟩
            · cases hj
          · rename_i hne
            obtain ⟨hcwrite, -⟩ := h.buffer c (List.mem_of_getElem? hj) write' hphase
            have hle := h.stage.single.1
            exact absurd (eq_of_countP_le_one hle hcall hj hwrite hcwrite) hne
    · obtain rfl := Except.ok.inj hrun
      have hkeys := hsame { id, fn, phase := .running none } rfl rfl
      refine ⟨⟨h.started, ?_, h.succeeded, ?_⟩, h.stage.congr rfl (hkeys ▸ .refl _) (fun _ hc => hc) rfl rfl⟩
      · rw [keys, hkeys]
        exact h.issued
      · intro c hc write hphase
        rcases List.mem_or_eq_of_mem_set hc with hmem | rfl
        · exact h.buffer c hmem write hphase
        · cases hphase
  · obtain rfl := Except.ok.inj hrun
    exact h

theorem finish_inv (h : Inv s) (i : Nat) (code : Int) : Inv (s.finish i code) := by
  unfold finish
  split
  · rename_i id fn write hcall
    have hkeys := keys_set { id, fn, phase := .done code } hcall rfl rfl
    refine ⟨⟨h.started, ?_, h.succeeded, ?_⟩, h.stage.congr rfl (hkeys ▸ .refl _) (fun _ hc => hc) rfl rfl⟩
    · rw [keys, hkeys]
      exact h.issued
    · intro c hc write' hphase
      obtain ⟨j, hj⟩ := List.getElem?_of_mem hc
      rw [List.getElem?_set] at hj
      split at hj
      · split at hj
        · obtain rfl := Option.some.inj hj
          cases hphase
        · cases hj
      · rename_i hne
        obtain ⟨hcwrite, hbuf⟩ := h.buffer c (List.mem_of_getElem? hj) write' hphase
        refine ⟨hcwrite, ?_⟩
        simp only
        split
        · rename_i hwrite
          have hle := h.stage.single.1
          exact absurd (eq_of_countP_le_one hle hcall hj hwrite hcwrite) hne
        · exact hbuf
  · exact h

/-- The context only changes. -/
theorem Inv.withData (h : Inv s) {data : IoUringData vocabulary}
    (hids : s.data.localProcId ≤ data.localProcId)
    (hchild : ∀ ty, HasChild s.data ty → HasChild data ty) : Inv { s with data } :=
  ⟨⟨Nat.lt_of_lt_of_le h.started hids, fun k hk => (h.issued k hk).mono hids,
    fun id hid => (h.succeeded id hid).mono hids, h.buffer⟩,
    h.stage.congr rfl (.refl _) hchild rfl rfl⟩

/-! ## Completions -/

theorem keys_acknowledge (i : Nat) (id : Id) (fn : ChildCall) (code : Int) :
    (s.acknowledge i id fn code).keys = s.keys.eraseIdx i := (List.eraseIdx_map _ _ _).symm

theorem acknowledge_base (h : Base s) {i : Nat} {fn : ChildCall} {phase : Phase}
    (hcall : s.calls[i]? = some { id, fn, phase }) : Base (s.acknowledge i id fn code) := by
  have hsub : (s.acknowledge i id fn code).calls.Sublist s.calls := List.eraseIdx_sublist _ _
  refine ⟨h.started, fun k hk => ?_, fun id' hid => ?_, fun c hc => h.buffer c (hsub.subset hc)⟩
  · exact h.issued k ((hsub.map _).subset hk)
  · unfold acknowledge at hid
    simp only at hid
    split at hid
    · rcases List.mem_append.1 hid with hid | hid
      · exact h.succeeded id' hid
      · rw [List.mem_singleton.1 hid]
        exact h.issued (id, fn) (List.mem_map_of_mem (List.mem_of_getElem? hcall))
    · exact h.succeeded id' hid

/-- A handler only adds calls, with new identifiers. -/
theorem serverEvent_base (h : Base s) {event : EventType} (hstep : s.serverEvent env event = .ok s') :
    Base s' := by
  unfold serverEvent at hstep
  split at hstep
  · cases hstep
  · rename_i y server es hrun
    obtain ⟨hle, hissued⟩ := run_issued hrun
    obtain rfl := Except.ok.inj hstep
    refine ⟨Nat.lt_of_lt_of_le h.started hle, fun k hk => ?_,
      fun id hid => (h.succeeded id hid).mono hle, fun c hc write hphase => ?_⟩
    · unfold keys at hk
      rw [List.map_append] at hk
      rcases List.mem_append.1 hk with hk | hk
      · exact (h.issued k hk).mono hle
      · rw [List.map_map] at hk
        obtain ⟨q, hq, rfl⟩ := List.mem_map.1 hk
        exact hissued q hq
    · rcases List.mem_append.1 hc with hc | hc
      · exact h.buffer c hc write hphase
      · obtain ⟨q, hq, rfl⟩ := List.mem_map.1 hc
        cases hphase

theorem newTick_of_length {calls : List (EventQueuedFunction vocabulary)} (h : calls.length ≤ 1) :
    newTick calls = none := by
  unfold newTick
  split
  · rw [List.length_cons, List.length_singleton] at h
    omega
  · rfl

/-- What a completion makes of a session that waits for HTTP: at most one more HTTP call. -/
theorem serverEvent_request (hop : s.server.currentOp = .read ∨ s.server.currentOp = .write)
    (hpos : 0 < code)
    (h : s.serverEvent env (.childTaskCompletion (completion id code)) = .ok s') :
    (s'.server.currentOp = .read ∨ s'.server.currentOp = .write ∨
      s'.server.currentOp = .websocketInit) ∧ s'.server.timerid = s.server.timerid ∧
    ∃ data, ∃ calls : List OpenCall,
      s' = { s with server := s'.server, data, calls := s.calls ++ calls } ∧
      calls.length ≤ 1 ∧ ∀ c ∈ calls, c.fn.isOther = false := by
  unfold serverEvent at h
  split at h
  · cases h
  · rename_i y server es hrun
    obtain rfl := Except.ok.inj h
    have hsent : (server.currentOp = .read ∨ server.currentOp = .write ∨
          server.currentOp = .websocketInit) ∧ server.timerid = s.server.timerid ∧
        (es.function.map (·.fn)).length ≤ 1 ∧ ∀ fn ∈ es.function.map (·.fn), fn.isOther = false := by
      rcases onYield_cases hrun with ⟨-, -, hneg⟩ | ⟨child, -, -, ⟨-, hread⟩ |
        ⟨-, ⟨timer, rfl⟩, hcalls⟩ | ⟨hstream, -, -⟩⟩
      · exact absurd (hneg _ rfl) (Int.not_le.2 hpos)
      · obtain ⟨-, -, -, ⟨-, rfl, hcalls⟩ | ⟨-, rfl, -, res, -, hcalls⟩ |
          ⟨-, ⟨effects, rfl⟩, res, -, hcalls⟩⟩ := stageHttpRead_cases hread
        · rw [hcalls]
          exact ⟨hop.imp_right Or.inl, rfl, by simp [EventState.cancelTimer]⟩
        · rw [hcalls]
          exact ⟨Or.inr (Or.inr rfl), rfl, by simp [EventState.cancelTimer, ChildCall.isOther]⟩
        · rw [hcalls]
          exact ⟨Or.inr (Or.inl rfl), rfl, by simp [EventState.cancelTimer, ChildCall.isOther]⟩
      · rw [hcalls]
        exact ⟨Or.inl rfl, rfl, by simp [ChildCall.isOther]⟩
      -- the stream has not begun
      · rcases hop with hop | hop <;> rcases hstream with hstream | hstream | hstream <;>
          exact absurd (hop.symm.trans hstream) (by decide)
    obtain ⟨hop', htimerid, hlength, hother⟩ := hsent
    rw [List.length_map] at hlength
    -- a call for the HTTP child is no frame
    have hwrites : (es.function.map (·.fn)).filter ChildCall.isWrite = [] := by
      rw [List.filter_eq_nil_iff]
      intro fn hfn hwrite
      have hyes := ChildCall.isOther_of_isWrite hwrite
      exact Bool.false_ne_true ((hother fn hfn).symm.trans hyes)
    refine ⟨hop', htimerid, es.uringData, es.function.map fun q => { id := q.localId, fn := q.fn }, ?_,
      ?_, fun c hc => ?_⟩
    · rw [hwrites, List.append_nil, newTick_of_length hlength, Option.none_or]
    · rw [List.length_map]
      exact hlength
    · obtain ⟨q, hq, rfl⟩ := List.mem_map.1 hc
      exact hother q.fn (List.mem_map_of_mem hq)

/-- The stage after it, when no call was open. -/
theorem request_stage (hop : s.server.currentOp = .read ∨ s.server.currentOp = .write)
    (hkeys : s.keys = []) (htick : s.tick = none) (htimerid : s.server.timerid = some 0)
    (hpos : 0 < code)
    (h : s.serverEvent env (.childTaskCompletion (completion id code)) = .ok s') :
    Stage s' ∧ s'.tick = none := by
  obtain ⟨hop', htimerid', data, calls, hs', hlength, hother⟩ := serverEvent_request hop hpos h
  have hnone : s'.tick = none := by
    rw [hs']
    exact htick
  have hkeys' : s'.keys = calls.map fun c => (c.id, c.fn) := by
    unfold keys at hkeys ⊢
    rw [hs', List.map_append, hkeys, List.nil_append]
  refine ⟨.request hop' ⟨?_, fun k hk => ?_⟩ hnone (htimerid'.trans htimerid), hnone⟩
  · rw [hkeys', List.length_map]
    exact hlength
  · rw [hkeys'] at hk
    obtain ⟨c, hc, rfl⟩ := List.mem_map.1 hk
    exact hother c hc

/-- The stage after the first or a further frame of the history. -/
theorem history_stage {server : MonitoringServer} {data : IoUringData vocabulary} {log : List Str}
    (hkeys : s.keys = []) (htick : s.tick = none) (htimerid : server.timerid = some 0)
    (hop : server.currentOp = (nextFrame env log).2.2)
    (htimer : HasChild data .bandwidthDataTimer) (hsocket : HasChild data .websocketSocket) :
    Stage (s.addFrame server data (nextFrame env log).1) := by
  have hkeys' : (s.addFrame server data (nextFrame env log).1).keys =
      [(some s.data.localProcId, (nextFrame env log).1)] := by
    unfold keys at hkeys ⊢
    simp only [addFrame, List.map_append, hkeys, List.nil_append]
    rfl
  have hframe : ((nextFrame env log).1 = .writeFrame .marker ↔
      (nextFrame env log).2.2 = .websocketLive) ∧
      ((nextFrame env log).2.2 = .websocketLogs ∨ (nextFrame env log).2.2 = .websocketLive) := by
    unfold nextFrame
    simp only
    split
    · exact ⟨iff_of_true rfl rfl, Or.inr rfl⟩
    · exact ⟨iff_of_false ChildCall.noConfusion State.noConfusion, Or.inl rfl⟩
  rw [← hop] at hframe
  refine .history hframe.2 htimer hsocket ?_ htick htimerid
  rw [hkeys']
  refine ⟨Nat.le_refl 1, fun k hk => ?_⟩
  rw [List.mem_singleton.1 hk]
  exact ⟨isWrite_nextFrame env log, hframe.1⟩

/-- Before the first tick one call is open. -/
theorem Stage.length_le_one (h : Stage s) (hnone : s.tick = none) : s.keys.length ≤ 1 := by
  cases h with
  | request _ hcalls => exact hcalls.1
  | history _ _ _ hcalls => exact hcalls.1
  | live _ _ _ tid wid h => exact absurd (hnone.symm.trans h.tick) (by simp)

/-- A completion before the live stage, when no other call is open. -/
theorem serverEvent_before (h : Base s) (hkeys : s.keys = []) (htick : s.tick = none)
    (htimerid : s.server.timerid = some 0) (hop : s.server.currentOp ≠ .websocketLive)
    (hchild : s.server.currentOp = .websocketLogs →
      HasChild s.data .bandwidthDataTimer ∧ HasChild s.data .websocketSocket) (hpos : 0 < code)
    (hstep : s.serverEvent env (.childTaskCompletion (completion id code)) = .ok s') :
    Inv s' ∧ s'.keys.length ≤ 1 ∧ s'.tick = none := by
  have hstage : Stage s' ∧ s'.tick = none := by
    cases hstate : s.server.currentOp with
    | read => exact request_stage (Or.inl hstate) hkeys htick htimerid hpos hstep
    | write => exact request_stage (Or.inr hstate) hkeys htick htimerid hpos hstep
    | websocketInit =>
      rw [serverEvent_init env hstate hpos] at hstep
      obtain rfl := Except.ok.inj hstep
      obtain ⟨htimer, hsocket⟩ := hasChild_afterInit s
      exact ⟨history_stage hkeys htick htimerid rfl (htimer.congr rfl) (hsocket.congr rfl), htick⟩
    | websocketLogs =>
      obtain ⟨htimer, hsocket⟩ := hchild hstate
      rw [serverEvent_logs env hstate hsocket hpos] at hstep
      obtain rfl := Except.ok.inj hstep
      exact ⟨history_stage hkeys htick htimerid rfl (htimer.congr rfl) (hsocket.congr rfl), htick⟩
    | websocketLive => exact absurd hstate hop
  exact ⟨⟨serverEvent_base h hstep, hstage.1⟩, hstage.1.length_le_one hstage.2, hstage.2⟩

theorem Base.fresh (h : Base s) {n : Nat} (hn : s.data.localProcId ≤ n) : some n ∉ s.succeeded := by
  intro hmem
  obtain ⟨m, hm, heq⟩ := h.succeeded _ hmem
  obtain rfl := Option.some.inj heq
  exact absurd hm (Nat.not_lt.2 hn)

/-- The stage after a tick. -/
theorem tick_stage {server : MonitoringServer} (h : Base s) (hkeys : s.keys = [])
    (hop : server.currentOp = .websocketLive) (htimer : HasChild s.data .bandwidthDataTimer)
    (hsocket : HasChild s.data .websocketSocket)
    (hids : server.timerid = some s.data.localProcId ∧
      server.websocketWriterid = some (s.data.localProcId + 1))
    (hflags : server.timeoutOccurred = false ∧ server.writeOccurred = false) :
    Stage (s.addTick server) := by
  have hkeys' : (s.addTick server).keys = [(some s.data.localProcId, .prepareTimer),
      (some (s.data.localProcId + 1), .writeFrame .record)] := by
    unfold keys at hkeys ⊢
    simp only [addTick, List.map_append, hkeys, List.nil_append]
    rfl
  have htid : some s.data.localProcId ∉ s.succeeded := h.fresh (Nat.le_refl _)
  have hwid : some (s.data.localProcId + 1) ∉ s.succeeded := h.fresh (Nat.le_succ _)
  have hne : some s.data.localProcId ≠ some (s.data.localProcId + 1) := by simp
  have hstarted : some s.data.localProcId ≠ some 0 := by
    rw [Ne, Option.some.injEq]
    exact Nat.ne_of_gt h.started
  refine .live hop (htimer.congr rfl) (hsocket.congr rfl) _ _
    ⟨⟨rfl, hids.1, hids.2, hne, hstarted, ?_, ?_, ?_, ?_⟩, fun hboth => htid hboth.1⟩
  · rw [hkeys']
    simp
  · rw [hkeys']
    intro k hk
    rcases List.mem_cons.1 hk with rfl | hk
    · exact ⟨htid, Or.inl rfl⟩
    · rw [List.mem_singleton.1 hk]
      exact ⟨hwid, Or.inr rfl⟩
  · exact iff_of_false (fun hflag => Bool.false_ne_true (hflags.1.symm.trans hflag)) htid
  · exact iff_of_false (fun hflag => Bool.false_ne_true (hflags.2.symm.trans hflag)) hwid

@[simp] theorem marked_timerid (server : MonitoringServer) (id : Id) :
    (marked server id).timerid = server.timerid := by
  unfold marked
  split
  · rfl
  · split <;> rfl

@[simp] theorem marked_websocketWriterid (server : MonitoringServer) (id : Id) :
    (marked server id).websocketWriterid = server.websocketWriterid := by
  unfold marked
  split
  · rfl
  · split <;> rfl

@[simp] theorem marked_currentOp (server : MonitoringServer) (id : Id) :
    (marked server id).currentOp = server.currentOp := by
  unfold marked
  split
  · rfl
  · split <;> rfl

/-- The identifier of a call that goes away is not among those that stay. -/
theorem ne_of_mem_eraseIdx {α β : Type} {f : α → β} {l : List α} (hnodup : (l.map f).Nodup) {i : Nat}
    {a b : α} (ha : l[i]? = some a) (hb : b ∈ l.eraseIdx i) : f b ≠ f a := by
  obtain ⟨j, hne, hj⟩ := List.mem_eraseIdx_iff_getElem?.1 hb
  intro heq
  obtain ⟨hlt, -⟩ := List.getElem?_eq_some_iff.1 hj
  have hmap : (l.map f)[j]? = (l.map f)[i]? := by
    rw [List.getElem?_map, List.getElem?_map, ha, hj, Option.map_some, Option.map_some, heq]
  exact hne ((List.getElem?_inj (by rwa [List.length_map]) hnodup).1 hmap)

/-- The flags follow the completions of a tick. -/
theorem TickCalls.acknowledge {tid wid : Id} (h : TickCalls s tid wid) {i : Nat} {fn : ChildCall}
    {phase : Phase} (hcall : s.calls[i]? = some { id, fn, phase }) (hpos : 0 < code) :
    TickCalls { s.acknowledge i id fn code with server := marked s.server id } tid wid := by
  have hkey : s.keys[i]? = some (id, fn) := by
    unfold keys
    rw [List.getElem?_map, hcall, Option.map_some]
  have hsucceeded : (s.acknowledge i id fn code).succeeded = s.succeeded ++ [id] := if_pos hpos
  -- the call that is completed is one of the two of the tick
  have hids : id = tid ∨ id = wid := by
    rcases (h.calls _ (List.mem_of_getElem? hkey)).2 with heq | heq
    · exact Or.inl (Prod.mk.inj heq).1
    · exact Or.inr (Prod.mk.inj heq).1
  -- its flag is set, and the other one stays
  have hflags : ((marked s.server id).timeoutOccurred = true ↔
        tid ∈ s.succeeded ∨ tid = id) ∧
      ((marked s.server id).writeOccurred = true ↔ wid ∈ s.succeeded ∨ wid = id) := by
    unfold marked
    rw [h.websocketWriterid, h.timerid]
    rcases hids with hid | hid
    · rw [hid, if_neg h.ne, if_pos rfl]
      exact ⟨iff_of_true rfl (Or.inr rfl), h.write.trans (or_iff_left h.ne.symm).symm⟩
    · rw [hid, if_pos rfl]
      exact ⟨h.timeout.trans (or_iff_left h.ne).symm, iff_of_true rfl (Or.inr rfl)⟩
  refine ⟨h.tick, ?_, ?_, h.ne, h.nonzero, ?_, fun k hk => ?_, ?_, ?_⟩
  · exact (marked_timerid _ _).trans h.timerid
  · exact (marked_websocketWriterid _ _).trans h.websocketWriterid
  · exact h.nodup.sublist ((List.eraseIdx_sublist _ _).map _ |>.map _)
  · have hmem : k ∈ s.keys.eraseIdx i := by
      rw [← keys_acknowledge i id fn code]
      exact hk
    obtain ⟨hnot, hcalls⟩ := h.calls k ((List.eraseIdx_sublist _ _).subset hmem)
    refine ⟨?_, hcalls⟩
    simp only [hsucceeded, List.mem_append, List.mem_singleton, not_or]
    exact ⟨hnot, ne_of_mem_eraseIdx h.nodup hkey hmem⟩
  · simp only [hsucceeded, List.mem_append, List.mem_singleton]
    exact hflags.1
  · simp only [hsucceeded, List.mem_append, List.mem_singleton]
    exact hflags.2

/-- A tick is issued when both calls of the last one have succeeded. -/
theorem TickCalls.ticks_iff {tid wid : Id} (h : TickCalls s tid wid) :
    Ticks s.server ↔ tid ∈ s.succeeded ∧ wid ∈ s.succeeded := by
  unfold Ticks
  rw [or_iff_left, h.write, h.timeout, and_comm]
  rw [h.timerid]
  exact h.nonzero

/-- No call is open then. -/
theorem TickCalls.keys_eq_nil {tid wid : Id} (h : TickCalls s tid wid)
    (hboth : tid ∈ s.succeeded ∧ wid ∈ s.succeeded) : s.keys = [] := by
  rw [List.eq_nil_iff_forall_not_mem]
  intro k hk
  obtain ⟨hnot, rfl | rfl⟩ := h.calls k hk
  · exact hnot hboth.1
  · exact hnot hboth.2

/-- The calls of a tick that is issued now. -/
def tickCalls (s : Session) : List OpenCall :=
  [{ id := some s.data.localProcId, fn := .prepareTimer },
    { id := some (s.data.localProcId + 1), fn := .writeFrame .record }]

/-- The completion of a call is the one after which a tick is issued: the marker is written, or both
calls of the last tick have succeeded. -/
def Due (s : Session) (id : Id) (fn : ChildCall) (code : Int) : Prop :=
  0 < code ∧
    match s.tick with
    | none => fn = .writeFrame .marker
    | some (tid, wid) => tid ∈ s.succeeded ++ [id] ∧ wid ∈ s.succeeded ++ [id]

section Deliver

variable {i : Nat} {fn : ChildCall} (hcall : s.calls[i]? = some { id, fn, phase := .done code })
include hcall

theorem deliver_eq (env : Environment) : s.deliver env i =
    (s.acknowledge i id fn code).serverEvent env
      (.childTaskCompletion (completion id code)) := by
  unfold deliver
  rw [hcall]

theorem key_of_call : (id, fn) ∈ s.keys :=
  List.mem_map_of_mem (f := fun c => (c.id, c.fn)) (List.mem_of_getElem? hcall)

/-- No other call is open. -/
theorem keys_acknowledge_single (hlength : s.keys.length ≤ 1) :
    (s.acknowledge i id fn code).keys = [] := by
  rw [keys_acknowledge]
  obtain ⟨hlt, -⟩ := List.getElem?_eq_some_iff.1 hcall
  have hkeys : s.keys.length = s.calls.length := List.length_map _
  apply List.eq_nil_of_length_eq_zero
  rw [List.length_eraseIdx_of_lt (hkeys ▸ hlt)]
  omega

/-- The completion of a call that failed. -/
theorem deliver_failed (env : Environment) (h : Inv s) (hneg : code ≤ 0) :
    s.deliver env i = .ok (s.acknowledge i id fn code) ∧
      Inv (s.acknowledge i id fn code) := by
  refine ⟨(deliver_eq hcall env).trans (serverEvent_failed env hneg), acknowledge_base h.toBase hcall, ?_⟩
  refine h.stage.congr rfl ?_ (fun _ hchild => hchild) rfl (if_neg (Int.not_lt.2 hneg))
  rw [keys_acknowledge]
  exact List.eraseIdx_sublist _ _

theorem deliver_tick (env : Environment) (h : Inv s) (hop : s.server.currentOp = .websocketLive)
    (htimer : HasChild s.data .bandwidthDataTimer) (hsocket : HasChild s.data .websocketSocket)
    (hkeys : (s.acknowledge i id fn code).keys = []) (hticks : Ticks (marked s.server id))
    (hpos : 0 < code) : ∃ server : MonitoringServer, server.currentOp = .websocketLive ∧
      s.deliver env i = .ok ((s.acknowledge i id fn code).addTick server) ∧
      Inv ((s.acknowledge i id fn code).addTick server) := by
  have hack : Base (s.acknowledge i id fn code) := acknowledge_base h.toBase hcall
  have hstep := (deliver_eq hcall env).trans (serverEvent_tick env hop hticks htimer hsocket hpos)
  have hop' : (marked s.server id).currentOp = .websocketLive := (marked_currentOp _ _).trans hop
  refine ⟨_, ?_, hstep, serverEvent_base hack ((deliver_eq hcall env).symm.trans hstep), ?_⟩
  · exact hop'
  · exact tick_stage hack hkeys hop' htimer hsocket ⟨rfl, rfl⟩ ⟨rfl, rfl⟩

/-- The completion after which a tick is issued. -/
theorem deliver_due (env : Environment) (h : Inv s) (hdue : s.Due id fn code) :
    ∃ server : MonitoringServer, server.currentOp = .websocketLive ∧
      s.deliver env i = .ok ((s.acknowledge i id fn code).addTick server) ∧
      Inv ((s.acknowledge i id fn code).addTick server) := by
  obtain ⟨hpos, hdue⟩ := hdue
  cases h.stage with
  | request hop hcalls htick htimerid =>
    rw [htick] at hdue
    have hother := hcalls.2 _ (key_of_call hcall)
    rw [show fn = .writeFrame .marker from hdue] at hother
    cases hother
  | history hop htimer hsocket hcalls htick htimerid =>
    rw [htick] at hdue
    refine deliver_tick hcall env h ((hcalls.2 _ (key_of_call hcall)).2.1 hdue) htimer hsocket
      (keys_acknowledge_single hcall hcalls.1) (Or.inr ?_) hpos
    exact (marked_timerid _ _).trans htimerid
  | live hop htimer hsocket tid wid hticking =>
    rw [hticking.tick] at hdue
    have hcalls := hticking.toTickCalls.acknowledge hcall hpos
    have hsucceeded : (s.acknowledge i id fn code).succeeded = s.succeeded ++ [id] := if_pos hpos
    rw [← hsucceeded] at hdue
    exact deliver_tick hcall env h hop htimer hsocket (hcalls.keys_eq_nil hdue)
      (hcalls.ticks_iff.2 hdue) hpos

/-- Any other completion in the live stage. -/
theorem deliver_waits (env : Environment) (h : Inv s) (hop : s.server.currentOp = .websocketLive)
    (hdue : ¬ s.Due id fn code) :
    ∃ server : MonitoringServer, server.currentOp = .websocketLive ∧
      s.deliver env i = .ok { s.acknowledge i id fn code with server } ∧
      Inv { s.acknowledge i id fn code with server } := by
  by_cases hpos : 0 < code
  · have hack : Base (s.acknowledge i id fn code) := acknowledge_base h.toBase hcall
    cases h.stage with
    | request hop' =>
      rcases hop' with hop' | hop' | hop' <;> exact absurd (hop.symm.trans hop') (by decide)
    | history hop' htimer hsocket hcalls htick htimerid =>
      refine absurd ⟨hpos, ?_⟩ hdue
      rw [htick]
      exact (hcalls.2 _ (key_of_call hcall)).2.2 hop
    | live hop' htimer hsocket tid wid hticking =>
      have hcalls := hticking.toTickCalls.acknowledge hcall hpos
      have hsucceeded : (s.acknowledge i id fn code).succeeded = s.succeeded ++ [id] := if_pos hpos
      have hwaits : ¬ (tid ∈ (s.acknowledge i id fn code).succeeded ∧
          wid ∈ (s.acknowledge i id fn code).succeeded) := by
        intro hboth
        refine hdue ⟨hpos, ?_⟩
        rw [hticking.tick]
        rw [hsucceeded] at hboth
        exact hboth
      have hstep := (deliver_eq hcall env).trans (serverEvent_wait env hop
        (fun hticks => hwaits (hcalls.ticks_iff.1 hticks)) hpos)
      have hop'' : (marked s.server id).currentOp = .websocketLive :=
        (marked_currentOp _ _).trans hop
      refine ⟨_, hop'', hstep, serverEvent_base hack ((deliver_eq hcall env).symm.trans hstep), ?_⟩
      exact .live hop'' htimer hsocket tid wid ⟨hcalls, hwaits⟩
  · obtain ⟨hstep, hinv⟩ := deliver_failed hcall env h (Int.not_lt.1 hpos)
    exact ⟨s.server, hop, hstep, hinv⟩

/-- A completion before the live stage. -/
theorem deliver_before (h : Inv s) (hop : s.server.currentOp ≠ .websocketLive)
    (hstep : s.deliver env i = .ok s') : Inv s' ∧ s'.keys.length ≤ 1 ∧ s'.tick = s.tick := by
  by_cases hpos : 0 < code
  · have hack : Base (s.acknowledge i id fn code) := acknowledge_base h.toBase hcall
    rw [deliver_eq hcall env] at hstep
    cases h.stage with
    | request hop' hcalls htick htimerid =>
      have hnot : s.server.currentOp ≠ .websocketLogs := by
        intro hlogs
        rcases hop' with hop' | hop' | hop' <;> exact absurd (hlogs.symm.trans hop') (by decide)
      rw [htick]
      exact serverEvent_before hack (keys_acknowledge_single hcall hcalls.1) htick htimerid hop
        (fun hlogs => absurd hlogs hnot) hpos hstep
    | history hop' htimer hsocket hcalls htick htimerid =>
      rw [htick]
      exact serverEvent_before hack (keys_acknowledge_single hcall hcalls.1) htick htimerid hop
        (fun _ => ⟨htimer, hsocket⟩) hpos hstep
    | live hop' => exact absurd hop' hop
  · obtain ⟨hstep', hinv⟩ := deliver_failed hcall env h (Int.not_lt.1 hpos)
    obtain rfl := Except.ok.inj (hstep'.symm.trans hstep)
    refine ⟨hinv, hinv.stage.length_le_one ?_, rfl⟩
    cases h.stage with
    | request _ _ htick => exact htick
    | history _ _ _ _ htick => exact htick
    | live hop' => exact absurd hop' hop

end Deliver

/-! ## Runs -/

/-- One event, with what the handlers find outside then. -/
def act (s : Session) (a : Environment × SessionEvent) : Except Fault Session := s.step a.1 a.2

theorem deliver_inv (h : Inv s) {i : Nat} (hstep : s.deliver env i = .ok s') : Inv s' := by
  have hsame := hstep
  unfold deliver at hsame
  split at hsame
  · rename_i id fn code hcall
    by_cases hop : s.server.currentOp = .websocketLive
    · by_cases hdue : s.Due id fn code
      · obtain ⟨server, -, hstep', hinv⟩ := deliver_due hcall env h hdue
        obtain rfl := Except.ok.inj (hstep'.symm.trans hstep)
        exact hinv
      · obtain ⟨server, -, hstep', hinv⟩ := deliver_waits hcall env h hop hdue
        obtain rfl := Except.ok.inj (hstep'.symm.trans hstep)
        exact hinv
    · exact (deliver_before hcall h hop hstep).1
  · obtain rfl := Except.ok.inj hsame
    exact h

theorem step_inv (h : Inv s) {event : SessionEvent} (hstep : s.step env event = .ok s') : Inv s' := by
  cases event with
  | run i => exact run_inv h hstep
  | finish i code =>
    obtain rfl := Except.ok.inj hstep
    exact finish_inv h i code
  | deliver i => exact deliver_inv h hstep
  | timeout timerId =>
    have hevent : s.serverEvent env (.timeout timerId) = .ok s' := hstep
    rw [serverEvent_timeout] at hevent
    obtain rfl := Except.ok.inj hevent
    exact h
  | taken n =>
    obtain rfl := Except.ok.inj hstep
    exact h.withData (Nat.le_add_right _ _) fun _ hchild => hchild.congr rfl
  | placed ty idx info =>
    obtain rfl := Except.ok.inj hstep
    exact h.withData (Nat.le_refl _) fun _ hchild => hchild.modify ty idx info

theorem start_inv {tls : Bool} (h : start tls = .ok s) : Inv s := by
  obtain rfl := Except.ok.inj h
  refine ⟨⟨Nat.one_pos, ?_, ?_, ?_⟩, .request (Or.inl rfl) ⟨Nat.le_refl 1, ?_⟩ rfl rfl⟩
  · rintro k (_ | ⟨_, ⟨⟩⟩)
    exact ⟨0, Nat.one_pos, rfl⟩
  · rintro id ⟨⟩
  · rintro c (_ | ⟨_, ⟨⟩⟩) write ⟨⟩
  · rintro k (_ | ⟨_, ⟨⟩⟩)
    rfl

theorem reached_inv {tls : Bool} {s₀ : Session} (hstart : start tls = .ok s₀)
    (h : Reached act (fun _ _ => True) s₀ s) : Inv s :=
  h.invariant (start_inv hstart) fun _ _ _ hs _ hstep => step_inv hs hstep

/-! ## The live protocol -/

/-- While a frame is sent, no call of a child touches the WebSocket. -/
theorem run_socket (h : Inv s) {i : Nat} (hrun : s.run i = .ok s') {c : OpenCall}
    (hc : c ∈ s.calls) {write : ChildWrite} (hphase : c.phase = .running (some write)) :
    s'.socket = s.socket := by
  unfold run at hrun
  split at hrun
  · rename_i id fn hcall
    split at hrun
    · rename_i hwrite
      obtain ⟨j, hj⟩ := List.getElem?_of_mem hc
      have hle := h.stage.single.1
      obtain rfl := eq_of_countP_le_one hle hcall hj hwrite (h.buffer c hc write hphase).1
      obtain rfl := Option.some.inj (hcall.symm.trans hj)
      cases hphase
    · obtain rfl := Except.ok.inj hrun
      rfl
  · obtain rfl := Except.ok.inj hrun
    rfl

/-- Only a completion makes the server object queue calls. -/
theorem step_others {event : SessionEvent} (hevent : ∀ i, event ≠ .deliver i)
    (hstep : s.step env event = .ok s') : s'.keys = s.keys ∧ s'.tick = s.tick ∧
      s'.server = s.server ∧ s'.sent = s.sent ∧ s'.acks = s.acks := by
  cases event with
  | run i =>
    unfold step run at hstep
    simp only at hstep
    split at hstep
    · rename_i id fn hcall
      split at hstep
      · split at hstep
        · cases hstep
        · obtain rfl := Except.ok.inj hstep
          exact ⟨keys_set _ hcall rfl rfl, rfl, rfl, rfl, rfl⟩
      · obtain rfl := Except.ok.inj hstep
        exact ⟨keys_set _ hcall rfl rfl, rfl, rfl, rfl, rfl⟩
    · obtain rfl := Except.ok.inj hstep
      exact ⟨rfl, rfl, rfl, rfl, rfl⟩
  | finish i code =>
    obtain rfl := Except.ok.inj hstep
    unfold finish
    split
    · rename_i hcall
      exact ⟨keys_set _ hcall rfl rfl, rfl, rfl, rfl, rfl⟩
    · exact ⟨rfl, rfl, rfl, rfl, rfl⟩
  | deliver i => exact absurd rfl (hevent i)
  | timeout timerId =>
    have hsame : s.serverEvent env (.timeout timerId) = .ok s' := hstep
    rw [serverEvent_timeout] at hsame
    obtain rfl := Except.ok.inj hsame
    exact ⟨rfl, rfl, rfl, rfl, rfl⟩
  | taken n =>
    obtain rfl := Except.ok.inj hstep
    exact ⟨rfl, rfl, rfl, rfl, rfl⟩
  | placed ty idx info =>
    obtain rfl := Except.ok.inj hstep
    exact ⟨rfl, rfl, rfl, rfl, rfl⟩

/-- The rule of the live stage, for one state. -/
structure LiveProtocol (s : Session) : Prop where
  /-- At most one write and at most one call of the timer are open. -/
  write : s.calls.countP (fun c => c.fn.isWrite) ≤ 1
  timer : s.calls.countP (fun c => c.fn.isTimer) ≤ 1
  /-- The buffer of a write that runs is in `w_buf_`, and no other call replaces it. -/
  buffer : ∀ c ∈ s.calls, ∀ write, c.phase = .running (some write) →
    s.socket.wBuf = some write.buf ∧ ∀ i s', s.run i = .ok s' → s'.socket = s.socket
  /-- The completion of the marker, or the second one of a tick, issues a tick. -/
  due : ∀ env i id fn code, s.calls[i]? = some { id, fn, phase := .done code } →
    s.Due id fn code → ∃ s', s.deliver env i = .ok s' ∧
      s'.calls = s.calls.eraseIdx i ++ s.tickCalls ∧
      s'.tick = some (some s.data.localProcId, some (s.data.localProcId + 1))
  /-- No other completion does, and those of the live stage issue nothing. -/
  waits : ∀ env i id fn code, s.calls[i]? = some { id, fn, phase := .done code } →
    ¬ s.Due id fn code → (∀ s', s.deliver env i = .ok s' →
      s'.tick = s.tick ∧ s'.calls ≠ s.calls.eraseIdx i ++ s.tickCalls) ∧
    (s.server.currentOp = .websocketLive →
      ∃ s', s.deliver env i = .ok s' ∧ s'.calls = s.calls.eraseIdx i)
  /-- No other event makes the object queue calls. -/
  others : ∀ env event s', (∀ i, event ≠ .deliver i) → s.step env event = .ok s' →
    s'.keys = s.keys ∧ s'.tick = s.tick
  /-- The two calls of the last tick have not both succeeded: a tick is issued at once then. -/
  last : ∀ tid wid, s.tick = some (tid, wid) → ¬ (tid ∈ s.succeeded ∧ wid ∈ s.succeeded)

/-- Over any run of a session, the calls follow the rule of the live stage. -/
theorem live_protocol (tls : Bool) {s₀ : Session} (hstart : start tls = .ok s₀)
    (hreached : Reached act (fun _ _ => True) s₀ s) : LiveProtocol s := by
  have h : Inv s := reached_inv hstart hreached
  have hsingle := h.stage.single
  refine
    { write := hsingle.1
      timer := hsingle.2
      buffer := fun c hc write hphase => ⟨(h.buffer c hc write hphase).2,
        fun i s' hrun => run_socket h hrun hc hphase⟩
      due := fun env i id fn code hcall hdue => ?_
      waits := fun env i id fn code hcall hdue => ⟨fun s' hstep => ?_, fun hop => ?_⟩
      others := fun env event s' hevent hstep => ?_
      last := fun tid wid htick hboth => ?_ }
  · obtain ⟨server, -, hstep, -⟩ := deliver_due hcall env h hdue
    exact ⟨_, hstep, rfl, rfl⟩
  -- before the live stage no tick is started at all
  · by_cases hop : s.server.currentOp = .websocketLive
    · obtain ⟨server, -, hstep', -⟩ := deliver_waits hcall env h hop hdue
      obtain rfl := Except.ok.inj (hstep'.symm.trans hstep)
      refine ⟨rfl, ?_⟩
      simp [acknowledge, tickCalls]
    · obtain ⟨-, hlength, htick⟩ := deliver_before hcall h hop hstep
      refine ⟨htick, fun hcalls => ?_⟩
      unfold keys at hlength
      rw [List.length_map, hcalls, List.length_append] at hlength
      exact absurd hlength (by simp [tickCalls])
  · obtain ⟨server, -, hstep, -⟩ := deliver_waits hcall env h hop hdue
    exact ⟨_, hstep, rfl⟩
  · obtain ⟨hkeys, htick, -⟩ := step_others hevent hstep
    exact ⟨hkeys, htick⟩
  -- only in the live stage there is a tick
  · cases h.stage with
    | request _ _ hnone => exact absurd (hnone.symm.trans htick) (by simp)
    | history _ _ _ _ hnone => exact absurd (hnone.symm.trans htick) (by simp)
    | live _ _ _ tid' wid' hticking =>
      obtain ⟨rfl, rfl⟩ := Prod.mk.inj (Option.some.inj (hticking.tick.symm.trans htick))
      exact hticking.waits hboth

/-- The client of a monitor of `/srv/www` asks for the stream. -/
def upgradeEnvironment : Environment :=
  MonitoringServer.siteEnvironment (MonitoringServer.upgradeRequest connectionUpgrade)

/-- The upgrade, the marker and the first tick, whose write is through before its timer. -/
def tickActions : List (Environment × SessionEvent) :=
  [.placed .readWriteHttp 0 {}, .run 0, .finish 0 1, .deliver 0, .run 0, .finish 0 1, .deliver 0,
    .run 0, .finish 0 26, .deliver 0, .run 1, .run 0, .finish 1 30, .deliver 1].map
      (upgradeEnvironment, ·)

theorem live_protocol_tick : ∃ s₀ s, start false = .ok s₀ ∧ runActions act tickActions s₀ = .ok s ∧
    s.calls = [{ id := some 3, fn := .prepareTimer, phase := .running none }] ∧
    s.tick = some (some 3, some 4) ∧ LiveProtocol s := by
  refine ⟨_, _, rfl, rfl, rfl, rfl, live_protocol false rfl ?_⟩
  exact reached_of_runActions .start (meets_true tickActions _) rfl

end Session

end LocalSoftware.BandwidthMonitor
