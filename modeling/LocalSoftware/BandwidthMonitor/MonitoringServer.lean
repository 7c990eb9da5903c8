import LocalSoftware.Common.Event
import LocalSoftware.Common.HttpManager

/-!
# The bandwidth monitor's connection object

`BandwidthMonitoringServer` of `monitoring_server.h` and `monitoring_server.cpp`: it reads HTTP
requests, answers them from the file tree, and on an upgrade turns into a stream of WebSocket
frames. What it reads from outside is its `Environment`: the request parsed by its HTTP child, the
file tree, the log file, the speeds and the clock, `SHA1`, and `sscanf` on a log line.

`read_returns_iff` names the one kind of request that makes the handler throw.
-/

set_option autoImplicit false

namespace LocalSoftware.BandwidthMonitor

open Http

/-- The classes of the children. -/
inductive ChildType where
  | readWriteHttp
  | bandwidthDataTimer
  | websocketSocket
deriving DecidableEq, Repr

/-- The constructions that are queued, with their arguments. -/
inductive ChildConstruct where
  | readWriteHttp (enableTls : Bool)
  | bandwidthDataTimer
  | websocketSocket (tlsEnabled : Bool)
deriving DecidableEq, Repr

/-- `LogRecord`. -/
structure LogRecord where
  timestamp : Nat
  txBytes : Nat
  rxBytes : Nat
  hour : Nat
deriving DecidableEq, Repr

/-- The memory that `write_frame` is pointed at. -/
inductive FrameSource where
  | marker
  | record
deriving DecidableEq, Repr

/-- The calls that are queued, with their arguments. -/
inductive ChildCall where
  | readHttp
  | writeHttp (res : Response)
  | prepareTimer
  | writeFrame (buf : FrameSource)
  | writeFrame2 (chunk : List LogRecord)
deriving DecidableEq, Repr

/-- What the object queues. It prepares no request of its own. -/
abbrev vocabulary : Vocabulary where
  TypeIndex := ChildType
  ConstructFunc := ChildConstruct
  FunctionFunc := ChildCall
  Sqe := Empty

/-- What the handlers read from outside. The manager is the one that `BandwidthMonitorAccept`
constructs, to which no endpoint is added. -/
structure Environment where
  fs : FileSystem
  httpManager : HttpManager
  created : ∃ baseDir, HttpManager.create fs baseDir [] = .ok httpManager
  /-- `direct_access` of `get_data`: nothing when the object is gone, then nothing when its parser
  was already taken. -/
  getData : Id → Option (Option Request)
  sha1 : Str → List UInt8
  logFile : List Str
  /-- `sscanf` with the record format, when all seven fields are read. -/
  scanRecord : Str → Option LogRecord
  /-- The record of the current speeds and time. -/
  live : LogRecord

/-- `State`. -/
inductive State where
  | read
  | write
  | websocketInit
  | websocketLogs
  | websocketLive
deriving DecidableEq, Repr

/-- `BandwidthMonitoringServer`; `log` are the lines of `log_` not yet read and `effects` what its
requests did. -/
structure MonitoringServer where
  tlsEnabled : Bool
  currentOp : State
  timer : Id
  timerid : Id := some 0
  websocketWriterid : Id := some 0
  writeOccurred : Bool := false
  timeoutOccurred : Bool := false
  log : List Str := []
  record : LogRecord := ⟨0, 0, 0, 0⟩
  effects : List Effect := []

/-- `encoding_table`. -/
def encodingTable : Str :=
  "ABCDEFGHIJKLMNOPQRSTUVWXYZabcdefghijklmnopqrstuvwxyz0123456789+/".toList

/-- The letter of the lowest six bits of `n`. -/
def encodeBits (n : Nat) : Char := encodingTable.getD (n % 64) '\x00'

/-- The four letters written for one triple of octets, from position `j` on. -/
def encodeTriple (out : Str) (j a b c : Nat) : Str :=
  let triple := a * 65536 + b * 256 + c
  (((out.set j (encodeBits (triple / 262144))).set (j + 1) (encodeBits (triple / 4096))).set
    (j + 2) (encodeBits (triple / 64))).set (j + 3) (encodeBits triple)

/-- The loop of `base64_encode`: octets after the end of the data count as 0. -/
def encodeLoop : List UInt8 → Nat → Str → Str
  | [], _, out => out
  | [a], j, out => encodeTriple out j a.toNat 0 0
  | [a, b], j, out => encodeTriple out j a.toNat b.toNat 0
  | a :: b :: c :: data, j, out =>
    encodeLoop data (j + 4) (encodeTriple out j a.toNat b.toNat c.toNat)

/-- `mod_table`. -/
def modTable (n : Nat) : Nat := [0, 2, 1].getD n 0

/-- `base64_encode`. -/
def base64Encode (data : List UInt8) : Str :=
  let outputLength := 4 * ((data.length + 2) / 3)
  let encoded := encodeLoop data 0 (List.replicate outputLength '\x00')
  (List.range (modTable (data.length % 3))).foldl
    (fun out k => out.set (outputLength - 1 - k) '=') encoded

/-- `GUID`. -/
def guid : Str := "258EAFA5-E914-47DA-95CA-C5AB0DC85B11".toList

/-- The value that `Connection` must have for an upgrade. -/
def connectionUpgrade : Str := "Upgrade".toList

/-- The value that `Upgrade` must have for an upgrade. -/
def upgradeWebsocket : Str := "websocket".toList

/-- `ts`: a client may take a minute for a request. -/
def ts : Timespec := ⟨60, 0⟩

namespace MonitoringServer

/-- The constructor. -/
def constructor (enableTls : Bool) : Script vocabulary Unit := do
  let _ ← Script.iS (V := vocabulary) .readWriteHttp (.readWriteHttp enableTls)

/-- `start`. -/
def start (s : MonitoringServer) : Script vocabulary MonitoringServer := do
  let _ ← Script.c (V := vocabulary) .readWriteHttp .readHttp
  let timer ← Script.startTimer ts
  return { s with timer, currentOp := .read }

/-- `direct_access(0, &ReadWriteHTTP::get_data, task_id).value()->get()`. -/
def takeRequest (env : Environment) : Script vocabulary Request :=
  Script.directAccess (V := vocabulary) .readWriteHttp 0 env.getData

/-- The response that accepts an upgrade. -/
def upgradeResponse (env : Environment) (req : Request) (key : Str) : Except Fault Response :=
  let acceptKey := base64Encode (env.sha1 (key ++ guid))
  Response.preparePayload
    { status := .switchingProtocols
      version := req.version
      fields := ((Fields.set [] Field.connection connectionUpgrade).set
        Field.upgrade upgradeWebsocket).set Field.secWebsocketAccept acceptKey }

/-- `stage_http_read`. -/
def stageHttpRead (env : Environment) (s : MonitoringServer) :
    Script vocabulary (Yielded × MonitoringServer) := do
  let req ← takeRequest env
  if req.method = .get then
    if (req.fields.find Field.connection).isSome ∧ (req.fields.find Field.upgrade).isSome then
      let connection ← Script.ofExcept (req.fields.at' Field.connection)
      let upgrade ← Script.ofExcept (req.fields.at' Field.upgrade)
      -- the fields are compared to the letter
      if connection ≠ connectionUpgrade ∨ upgrade ≠ upgradeWebsocket then
        return (some (true, -1), s)
      else
        let s := { s with currentOp := .websocketInit }
        let key ← Script.ofExcept (req.fields.at' Field.secWebsocketKey)
        let res ← Script.ofExcept (upgradeResponse env req key)
        let _ ← Script.c (V := vocabulary) .readWriteHttp (.writeHttp res)
        return (none, s)
    else
      let (effects, res) := env.httpManager.handleRequest env.fs req
      let res ← Script.ofExcept res
      let _ ← Script.c (V := vocabulary) .readWriteHttp (.writeHttp res)
      return (none, { s with currentOp := .write, effects := s.effects ++ effects })
  else
    return (some (true, -1), s)

/-- `stage_websocket_init`. -/
def stageWebsocketInit (env : Environment) (s : MonitoringServer) :
    Script vocabulary MonitoringServer := do
  let _ ← Script.iS (V := vocabulary) .bandwidthDataTimer .bandwidthDataTimer
  let _ ← Script.iS (V := vocabulary) .websocketSocket (.websocketSocket s.tlsEnabled)
  return { s with log := env.logFile, currentOp := .websocketLogs }

/-- The loop of `stage_websocket_logs`: lines are read until `room` records are found. -/
def readRecords (env : Environment) : Nat → List Str → List LogRecord × List Str
  | 0, log => ([], log)
  | _, [] => ([], [])
  | room + 1, line :: log =>
    match env.scanRecord line with
    | some r =>
      let (chunk, rest) := readRecords env room log
      (r :: chunk, rest)
    | none => readRecords env (room + 1) log

/-- `stage_websocket_logs`. -/
def stageWebsocketLogs (env : Environment) (s : MonitoringServer) :
    Script vocabulary MonitoringServer := do
  let (chunk, log) := readRecords env 15 s.log
  if chunk = [] then
    let _ ← Script.c (V := vocabulary) .websocketSocket (.writeFrame .marker)
    return { s with log, currentOp := .websocketLive }
  else
    let _ ← Script.c (V := vocabulary) .websocketSocket (.writeFrame2 chunk)
    return { s with log }

/-- `stage_websocket_live`. -/
def stageWebsocketLive (env : Environment) (s : MonitoringServer) (result : ChildTaskCompletion) :
    Script vocabulary MonitoringServer := do
  let s := if result.taskId = s.websocketWriterid then { s with writeOccurred := true }
    else if result.taskId = s.timerid then { s with timeoutOccurred := true } else s
  -- the first completion of the stage finds no timer yet
  if (s.writeOccurred ∧ s.timeoutOccurred) ∨ s.timerid = some 0 then
    let tid ← Script.c (V := vocabulary) .bandwidthDataTimer .prepareTimer
    let wid ← Script.c (V := vocabulary) .websocketSocket (.writeFrame .record)
    return { s with
      record := env.live, writeOccurred := false, timeoutOccurred := false
      timerid := tid, websocketWriterid := wid }
  else
    return s

/-- `on_yield`. -/
def onYield (env : Environment) (s : MonitoringServer) :
    EventType → Script vocabulary (Yielded × MonitoringServer)
  | .childTaskCompletion child => do
    if child.returnCode ≤ 0 then
      return (some (true, child.returnCode), s)
    else
      match s.currentOp with
      | .read =>
        Script.stopTimer s.timer
        stageHttpRead env s
      | .write =>
        let timer ← Script.startTimer ts
        let _ ← Script.c (V := vocabulary) .readWriteHttp .readHttp
        return (none, { s with timer, currentOp := .read })
      | .websocketInit =>
        -- the stream is allowed for 20 minutes; control falls through to the logs
        let timer ← Script.startTimer ⟨1200, 0⟩
        let s ← stageWebsocketInit env { s with timer }
        let s ← stageWebsocketLogs env s
        return (none, s)
      | .websocketLogs =>
        let s ← stageWebsocketLogs env s
        return (none, s)
      | .websocketLive =>
        let s ← stageWebsocketLive env s child
        return (none, s)
  | .timeout _ => return (some (true, -1), s)
  | _ => return (none, s)

/-! ## Requests -/

/-- The completed `read_http` left `req` in the parser of the HTTP child, which is alive. -/
structure Delivered (env : Environment) (d : IoUringData vocabulary) (req : Request) : Prop where
  parsed : ∃ info, d.evinfo .readWriteHttp 0 = .ok info ∧ env.getData info.event = some (some req)

/-- A handler run that returned with a result, or queued one `write_http` and no other call. -/
def Answered (es : EventState vocabulary)
    (r : Except Fault ((Yielded × MonitoringServer) × EventState vocabulary)) : Prop :=
  ∃ y s es', r = .ok ((y, s), es') ∧
    ((∃ result, y = some result) ∧ es'.function = es.function ∨
      y = none ∧ ∃ vidx localId res, es'.function =
        es.function ++ [{ idx := .readWriteHttp, vidx, localId, fn := .writeHttp res }])

/-- A `GET` request with the two headers of an upgrade, but without the key. -/
def UpgradeWithoutKey (req : Request) : Prop :=
  req.method = .get ∧ req.fields.find Field.connection = some connectionUpgrade ∧
    req.fields.find Field.upgrade = some upgradeWebsocket ∧
    req.fields.find Field.secWebsocketKey = none

variable {env : Environment} {s : MonitoringServer} {es : EventState vocabulary} {req : Request}

theorem Delivered.run_takeRequest (h : Delivered env es.uringData req) :
    (takeRequest env).run es = .ok (req, es) := by
  obtain ⟨info, hslot, hreq⟩ := h.parsed
  exact Script.run_directAccess hslot hreq

theorem Delivered.call (h : Delivered env es.uringData req) (fn : ChildCall) :
    es.call .readWriteHttp fn = .ok (es.callAt .readWriteHttp 0 fn) := by
  obtain ⟨info, hslot, -⟩ := h.parsed
  exact EventState.call_of_evinfo hslot fn

theorem upgradeResponse_ok (env : Environment) (req : Request) (key : Str) :
    ∃ res, upgradeResponse env req key = .ok res := by
  simp [upgradeResponse, Response.preparePayload]

theorem Environment.no_handlers (env : Environment) (endpoint : Str) :
    env.httpManager.handlers endpoint = none := by
  obtain ⟨baseDir, hm⟩ := env.created
  cases hc : env.fs.canonical baseDir with
  | error e => simp [HttpManager.create, hc, bind, Except.bind] at hm
  | ok base =>
    simp only [HttpManager.create, hc, bind, Except.bind, pure, Except.pure, Except.ok.injEq] at hm
    rw [← hm]

/-- The manager has no endpoints, so it always has a response. -/
theorem Environment.handleRequest_ok (env : Environment) (req : Request) :
    ∃ res, (env.httpManager.handleRequest env.fs req).2 = .ok res :=
  HttpManager.handleRequest_isOk (Environment.no_handlers env) req

theorem answered_of_result (es : EventState vocabulary) (result : Bool × Int)
    (s : MonitoringServer) : Answered es (.ok ((some result, s), es)) :=
  ⟨_, _, _, rfl, Or.inl ⟨⟨result, rfl⟩, rfl⟩⟩

theorem answered_of_writeHttp (es : EventState vocabulary) (res : Response)
    (s : MonitoringServer) :
    Answered es (.ok ((none, s),
      (es.callAt (V := vocabulary) .readWriteHttp 0 (.writeHttp res)).2)) :=
  ⟨_, _, _, rfl, Or.inr ⟨rfl, 0, _, res, rfl⟩⟩

theorem not_answered_of_error (es : EventState vocabulary) (e : Fault) :
    ¬ Answered es (.error e) := by
  rintro ⟨y, s, es', h, -⟩
  cases h

/-- A `GET` request that lacks one of the two headers of an upgrade goes to the manager. -/
theorem run_stageHttpRead_manager (h : Delivered env es.uringData req) (hget : req.method = .get)
    (hfields : req.fields.find Field.connection = none ∨ req.fields.find Field.upgrade = none) :
    ∃ res s', (env.httpManager.handleRequest env.fs req).2 = .ok res ∧
      (stageHttpRead env s).run es =
        .ok ((none, s'), (es.callAt (V := vocabulary) .readWriteHttp 0 (.writeHttp res)).2) := by
  obtain ⟨res, hres⟩ := Environment.handleRequest_ok env req
  have hnot : ¬ ((req.fields.find Field.connection).isSome = true ∧
      (req.fields.find Field.upgrade).isSome = true) := by
    rcases hfields with hnone | hnone <;> simp [hnone]
  refine ⟨res, { s with
    currentOp := .write
    effects := s.effects ++ (env.httpManager.handleRequest env.fs req).1 }, hres, ?_⟩
  unfold stageHttpRead
  rw [Script.run_bind, h.run_takeRequest]
  simp [hget, hnot, hres, h.call, Except.map]

/-- Other values of the two headers than those of an upgrade end the task. -/
theorem run_stageHttpRead_drop (h : Delivered env es.uringData req) (hget : req.method = .get)
    {connection upgrade : Str} (hc : req.fields.find Field.connection = some connection)
    (hu : req.fields.find Field.upgrade = some upgrade)
    (hw : connection ≠ connectionUpgrade ∨ upgrade ≠ upgradeWebsocket) :
    (stageHttpRead env s).run es = .ok ((some (true, -1), s), es) := by
  unfold stageHttpRead
  rw [Script.run_bind, h.run_takeRequest]
  simp [hget, hc, hu, Fields.at'_eq_ok_iff.mpr hc, Fields.at'_eq_ok_iff.mpr hu, hw, Except.map]

/-- An upgrade with a key is accepted. -/
theorem run_stageHttpRead_upgrade (h : Delivered env es.uringData req) (hget : req.method = .get)
    (hc : req.fields.find Field.connection = some connectionUpgrade)
    (hu : req.fields.find Field.upgrade = some upgradeWebsocket) {key : Str}
    (hk : req.fields.find Field.secWebsocketKey = some key) :
    ∃ res, upgradeResponse env req key = .ok res ∧
      (stageHttpRead env s).run es = .ok ((none, { s with currentOp := .websocketInit }),
        (es.callAt (V := vocabulary) .readWriteHttp 0 (.writeHttp res)).2) := by
  obtain ⟨res, hres⟩ := upgradeResponse_ok env req key
  refine ⟨res, hres, ?_⟩
  unfold stageHttpRead
  rw [Script.run_bind, h.run_takeRequest]
  simp [hget, hc, hu, Fields.at'_eq_ok_iff.mpr hc, Fields.at'_eq_ok_iff.mpr hu,
    Fields.at'_eq_ok_iff.mpr hk, hres, h.call, Except.map]

/-- `stage_http_read`: each branch ends with a result or one `write_http`, but for the upgrade,
which first asks for the key. -/
theorem stageHttpRead_answered_iff (h : Delivered env es.uringData req) :
    Answered es ((stageHttpRead env s).run es) ↔ ¬ UpgradeWithoutKey req := by
  unfold UpgradeWithoutKey
  by_cases hget : req.method = .get
  · simp only [hget, true_and]
    cases hc : req.fields.find Field.connection with
    | none =>
      obtain ⟨res, s', -, hrun⟩ := run_stageHttpRead_manager (s := s) h hget (Or.inl hc)
      simpa [hrun] using answered_of_writeHttp es res _
    | some connection =>
      cases hu : req.fields.find Field.upgrade with
      | none =>
        obtain ⟨res, s', -, hrun⟩ := run_stageHttpRead_manager (s := s) h hget (Or.inr hu)
        simpa [hrun] using answered_of_writeHttp es res _
      | some upgrade =>
        by_cases hw : connection ≠ connectionUpgrade ∨ upgrade ≠ upgradeWebsocket
        · refine iff_of_true ?_ ?_
          · rw [run_stageHttpRead_drop h hget hc hu hw]
            exact answered_of_result es (true, -1) s
          · rintro ⟨hc', hu', -⟩
            exact hw.elim (fun h => h (Option.some.inj hc')) fun h => h (Option.some.inj hu')
        · obtain ⟨rfl, rfl⟩ : connection = connectionUpgrade ∧ upgrade = upgradeWebsocket := by tauto
          cases hk : req.fields.find Field.secWebsocketKey with
          | none =>
            unfold stageHttpRead
            rw [Script.run_bind, h.run_takeRequest]
            simpa [hget, hc, hu, Fields.at'_eq_ok_iff.mpr hc, Fields.at'_eq_ok_iff.mpr hu, Except.map,
              Fields.at'_eq_error_iff.mpr ⟨hk, rfl⟩] using not_answered_of_error es .outOfRange
          | some key =>
            obtain ⟨res, -, hrun⟩ := run_stageHttpRead_upgrade (s := s) h hget hc hu hk
            simpa [hrun] using answered_of_writeHttp es res _
  · unfold stageHttpRead
    rw [Script.run_bind, h.run_takeRequest]
    simpa [hget] using answered_of_result es (true, -1) s

theorem onYield_read (hop : s.currentOp = .read) {child : ChildTaskCompletion}
    (hpos : 0 < child.returnCode) :
    (onYield env s (.childTaskCompletion child)).run es =
      (stageHttpRead env s).run (es.cancelTimer s.timer) := by
  have hneg : ¬ child.returnCode ≤ 0 := by omega
  simp [onYield, hneg, hop]

/-- A completed read is answered, for every request but an upgrade without a key; on that the
handler throws. -/
theorem read_returns_iff (hop : s.currentOp = .read) (hreq : Delivered env es.uringData req)
    (child : ChildTaskCompletion) :
    Answered es ((onYield env s (.childTaskCompletion child)).run es) ↔
      (0 < child.returnCode → ¬ UpgradeWithoutKey req) := by
  by_cases hpos : 0 < child.returnCode
  · rw [onYield_read hop hpos]
    have hstage : Answered es ((stageHttpRead env s).run (es.cancelTimer s.timer)) ↔ _ :=
      stageHttpRead_answered_iff hreq
    simpa [hpos] using hstage
  · have hneg : child.returnCode ≤ 0 := by omega
    simpa [onYield, hneg, hpos] using answered_of_result es (true, child.returnCode) s

/-- The key of the clients here. -/
def sampleKey : Str := "dGhlIHNhbXBsZSBub25jZQ==".toList

/-- The digest of the key and the `GUID`. -/
def sampleDigest : List UInt8 :=
  [0xb3, 0x7a, 0x4f, 0x2c, 0xc0, 0x62, 0x4f, 0x16, 0x90, 0xf6, 0x46, 0x06, 0xcf, 0x38, 0x59, 0x45,
    0xb2, 0xbe, 0xc4, 0xea]

/-- The environment of a monitor of `/srv/www` whose client sent `req`. -/
def siteEnvironment (req : Request) : Environment where
  fs := HttpManager.siblingFileSystem
  httpManager :=
    { service := "/srv/www:".toList
      basePath := HttpManager.wwwDirectory
      handlers := fun _ => none }
  created := ⟨"/srv/www".toList, rfl⟩
  getData _ := some (some req)
  sha1 text := if text = sampleKey ++ guid then sampleDigest else []
  logFile := []
  scanRecord _ := none
  live := ⟨0, 0, 0, 0⟩

/-- A server that waits for a request. -/
def readingServer : MonitoringServer := { tlsEnabled := false, currentOp := .read, timer := some 0 }

/-- Its object after the constructor. -/
def readingState : EventState vocabulary :=
  (EventState.queueConstruct (V := vocabulary) {} true .readWriteHttp (.readWriteHttp false)).2.clear

example : ((constructor false).run {}).map (fun r => r.2.clear) = .ok readingState := rfl

/-- The completion of `read_http`. -/
def readCompletion : ChildTaskCompletion :=
  { callingId := some 0, taskId := some 0, status := .finished, returnCode := 1 }

theorem delivered_readingState (req : Request) :
    Delivered (siteEnvironment req) readingState.uringData req :=
  ⟨{}, rfl, rfl⟩

/-- A request for a page is answered. -/
theorem read_returns_page :
    Answered readingState
      ((onYield (siteEnvironment { method := .get, target := "/".toList }) readingServer
        (.childTaskCompletion readCompletion)).run readingState) :=
  (read_returns_iff rfl (delivered_readingState _) readCompletion).mpr
    (fun _ h => absurd h.2.1 (by decide))

/-- `GET / HTTP/1.1`, with `Connection: Upgrade` and `Upgrade: websocket` and no other header. -/
def keylessUpgrade : Request :=
  { method := .get, target := "/".toList
    fields := [(Field.connection, connectionUpgrade), (Field.upgrade, upgradeWebsocket)] }

/-- On such an upgrade the exception leaves the handler. -/
theorem keylessUpgrade_throws :
    readingServer.currentOp = .read ∧
      Delivered (siteEnvironment keylessUpgrade) readingState.uringData keylessUpgrade ∧
      (onYield (siteEnvironment keylessUpgrade) readingServer
        (.childTaskCompletion readCompletion)).run readingState = .error .outOfRange :=
  ⟨rfl, delivered_readingState _, rfl⟩

end MonitoringServer

end LocalSoftware.BandwidthMonitor
