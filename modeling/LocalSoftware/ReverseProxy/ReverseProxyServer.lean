import LocalSoftware.Common.Event
import LocalSoftware.Common.HttpManager
import LocalSoftware.ReverseProxy.ReverseProxyManager

/-!
# The connections of the reverse proxy

`ReverseProxyServer` of `reverse_proxy_server.cpp`, with the manager of `reverse_proxy_accept.cpp`
that it answers requests from. The operations of the runtime have their former names there:
`call_dependent_function` is `c`, `initialize_dependent_event` is `i`, and
`finalize_current_task` gives the task its result.
-/

set_option autoImplicit false

namespace LocalSoftware.ReverseProxy

open Http

/-- The classes of the children. -/
inductive ChildType where
  | readWriteHttp
  | readWriteHttpC
  | tlsSocket
  | readWriteBytes
deriving DecidableEq, Repr

/-- The constructions that are queued. -/
inductive ChildConstruct where
  | readWriteHttp (useSsl : Bool)
  | readWriteHttpC (file : Int) (useSsl : Bool)
deriving DecidableEq, Repr

/-- The buffers of the object: `e_buf_` and `i_buf_`. -/
inductive Buffer where
  | eBuf
  | iBuf
deriving DecidableEq, Repr

/-- The calls that are queued. -/
inductive ChildCall where
  | readHttp
  | writeHttp (res : Response)
  | clientReadHttp
  | clientWriteHttp (req : Request)
  | read (buf : Buffer) (len : Nat) (readAll : Bool)
  | write (buf : Buffer) (len : Nat)
deriving DecidableEq, Repr

/-- What the object queues. -/
abbrev vocabulary : Vocabulary where
  TypeIndex := ChildType
  ConstructFunc := ChildConstruct
  FunctionFunc := ChildCall
  Sqe := Empty

/-- A handler that also uses what the runtime does at once. -/
abbrev Handler := StateT (EventState vocabulary) (Except Fault)

instance : MonadLift (Script vocabulary) Handler := ⟨Script.run⟩

/-! ## What surrounds a connection -/

/-- The endpoint `/login` of `ReverseProxyAccept`. `tok` is the token that `create_new_token` draws,
and `cookies` are the headers that earlier logins left in `keep_alive_headers`. -/
def login (password redirectUrl tok : Str) (cookies : Fields) : Http.Handler := fun req =>
  let keepAliveHeaders : Fields := [(Field.contentType, "text/plain".toList),
    (Field.connection, "keep-alive".toList)] ++ cookies
  if req.body ≠ password then
    HttpManager.prepareResponse keepAliveHeaders .unauthorized
  else
    HttpManager.prepareResponse (keepAliveHeaders ++ [(Field.setCookie,
      "token=".toList ++ tok ++ "; HttpOnly; Secure; SameSite=lax".toList)]) .ok redirectUrl

/-- The system calls of `init_peer`. An address is that of an entry of the list that `getaddrinfo`
returns, which is an error code otherwise. -/
structure Network where
  getaddrinfo : Str → Str → Except Int (List Str)
  socket : Str → Int
  connect : Int → Str → Int

/-- The parts of a `ReverseProxyAccept` that its connections use. -/
structure Site where
  /-- `http_manager_` as its constructor leaves it. -/
  base : HttpManager
  noEndpoint : ∀ endpoint, base.handlers endpoint = none
  password : Str
  redirectUrl : Str
  peerAddr : Str
  /-- What `move_subevents_up`, which is not in the repository, does to the slots of an object. -/
  moveSlots : ChildType → ChildType → Nat → (ChildType → Option (List (Option EventInfo))) →
    ChildType → Option (List (Option EventInfo))

/-- What a handler finds: the clock, the file system, the network, a random token, the cookies of
earlier logins, and `get_data` of the two HTTP objects, where there is such an object and its
pointer is set. -/
structure World where
  now : Nat
  fs : FileSystem
  net : Network
  tok : Str
  cookies : Fields
  http : Option (Option Request)
  httpC : Option (Option Response)

/-- `http_manager_` with its endpoint. The token that a login adds to the store is a change of the
store like those of the other connections. -/
def Site.httpManager (site : Site) (w : World) : HttpManager :=
  site.base.addEndpoint "/login".toList (login site.password site.redirectUrl w.tok w.cookies) .post

/-- `get_data(...).value()->get()`. -/
def getData {α : Type} : Option (Option α) → Except Fault α
  | none => .error .badOptionalAccess
  | some none => .error .undefinedBehaviour
  | some (some a) => .ok a

/-! ## The object -/

/-- `ReverseProxyServer::State`. -/
inductive State where
  | readExternalPeer
  | readInternalPeer
  | writeExternalPeer
  | writePeerBranch
  | websocket
deriving DecidableEq, Repr

/-- `ReverseProxyServer`, with the map of the manager that `proxy_manager_` refers to. -/
structure ReverseProxyServer where
  checkWebsocket : Bool := false
  eRead : Bool := true
  iRead : Bool := true
  eBuf : Str := []
  iBuf : Str := []
  eToI : Id := some 0
  iToE : Id := some 0
  connectedInternPeer : Bool := false
  nextOp : State
  authdUuids : AuthdUuids := ∅

/-- `sizeof(e_buf_)` and `sizeof(i_buf_)`. -/
def sizeofBuf : Nat := 16384

/-- `check_websocket`. -/
def checkWebsocket (req : Request) : Bool :=
  match req.fields.find Field.connection, req.fields.find Field.upgrade with
  | some connection, some upgrade =>
    connection == "Upgrade".toList && upgrade == "websocket".toList
  | _, _ => false

namespace ReverseProxyServer

/-- The constructor. -/
def constructor : Script vocabulary Unit := do
  let _ ← Script.i (V := vocabulary) .readWriteHttp (.readWriteHttp true)

/-- `start`. -/
def start (store : AuthdUuids) : Script vocabulary ReverseProxyServer := do
  let _ ← Script.cAt (V := vocabulary) .readWriteHttp 0 .readHttp
  return { nextOp := .writePeerBranch, authdUuids := store }

/-- `init_peer`. -/
def initPeer (site : Site) (w : World) (s : ReverseProxyServer) :
    Script vocabulary (Bool × ReverseProxyServer) := do
  match w.net.getaddrinfo site.peerAddr "18789".toList with
  | .error _ => return (false, s)
  | .ok [] => return (false, s)
  | .ok (res :: _) =>
    let sock := w.net.socket res
    if sock = -1 then return (false, s)
    else if w.net.connect sock res ≠ 0 then return (false, s)
    else
      let _ ← Script.i (V := vocabulary) .readWriteHttpC (.readWriteHttpC sock false)
      return (true, { s with connectedInternPeer := true })

/-- `token && check_auth(*token) && (connected_intern_peer_ || init_peer())`. -/
def letIn (site : Site) (w : World) (s : ReverseProxyServer) (token : Option Str) :
    Script vocabulary (Bool × ReverseProxyServer) := do
  match token with
  | none => return (false, s)
  | some token =>
    let (accepted, store) := checkAuth s.authdUuids token w.now
    let s := { s with authdUuids := store }
    if ¬ accepted then return (false, s)
    else if s.connectedInternPeer then return (true, s)
    else s.initPeer site w

/-- The predicate that `on_new_data` passes to `handle_request_with_pred`. -/
def preEval (site : Site) (w : World) (s : ReverseProxyServer) (req : Request) (skip : Bool) :
    Script vocabulary (Option Response × Bool × ReverseProxyServer) := do
  match req.fields.find Field.cookie with
  | none => return (none, true, s)
  | some cookie =>
    let (admitted, s) ← s.letIn site w (getToken cookie)
    if admitted then return (none, false, s)
    else if ¬ (site.httpManager w).endpointServiceable w.fs req.target then
      let res ← Script.ofExcept
        (HttpManager.errorResponse req .unauthorized "No authentication.".toList)
      return (some res, skip, s)
    else return (none, true, s)

/-- The case `WritePeerBranch` of `on_new_data`. -/
def writePeerBranch (site : Site) (w : World) (s : ReverseProxyServer) :
    Handler (Yielded × ReverseProxyServer) := do
  let req ← getData w.http
  let (resp, s) ← (site.httpManager w).handleRequestWithPred (M := Handler) w.fs req fun req skip =>
    s.preEval site w req skip
  match resp with
  | some resp =>
    let _ ← Script.cAt (V := vocabulary) .readWriteHttp 0 (.writeHttp resp)
    return (none, { s with nextOp := .readExternalPeer })
  | none =>
    let s := if ReverseProxy.checkWebsocket req then { s with checkWebsocket := true } else s
    let _ ← Script.cAt (V := vocabulary) .readWriteHttpC 0 (.clientWriteHttp req)
    return (none, { s with nextOp := .readInternalPeer })

/-- The case `WriteExternalPeer` of `on_new_data`. -/
def writeExternalPeer (w : World) (s : ReverseProxyServer) :
    Handler (Yielded × ReverseProxyServer) := do
  let resp ← getData w.httpC
  let _ ← Script.cAt (V := vocabulary) .readWriteHttp 0 (.writeHttp resp)
  if s.checkWebsocket ∧ resp.status = .switchingProtocols then
    return (none, { s with nextOp := .websocket })
  else
    return (none, { s with nextOp := .readExternalPeer })

/-- `move_subevents_up<Child, Socket>(this, idx)`. -/
def moveSubeventsUp (site : Site) (child socket : ChildType) (idx : Nat) : Handler Unit :=
  modify fun es => { es with uringData := { es.uringData with
    subEvents := site.moveSlots child socket idx es.uringData.subEvents } }

/-- What the case `Websocket` of `on_new_data` does at first. -/
def enterWebsocket (site : Site) (s : ReverseProxyServer) : Handler ReverseProxyServer := do
  if s.checkWebsocket then
    -- the sockets are taken out of the HTTP objects
    moveSubeventsUp site .readWriteHttp .tlsSocket 0
    moveSubeventsUp site .readWriteHttpC .readWriteBytes 0
    let eid ← Script.cAt (V := vocabulary) .tlsSocket 0 (.read .eBuf sizeofBuf false)
    let iid ← Script.cAt (V := vocabulary) .readWriteBytes 0 (.read .iBuf sizeofBuf false)
    return { s with eToI := eid, iToE := iid, checkWebsocket := false }
  else return s

/-- The rest of the case `Websocket` of `on_new_data`. -/
def relay (s : ReverseProxyServer) (res : ChildTaskCompletion) :
    Script vocabulary ReverseProxyServer := do
  if res.taskId = s.eToI then
    -- what came from the client goes to the peer
    if s.eRead then
      let eid ← Script.cAt (V := vocabulary) .readWriteBytes 0 (.write .eBuf res.returnCode.toNat)
      return { s with eToI := eid, eRead := false }
    else
      let eid ← Script.cAt (V := vocabulary) .tlsSocket 0 (.read .eBuf sizeofBuf false)
      return { s with eToI := eid, eRead := true }
  else if res.taskId = s.iToE then
    -- what came from the peer goes to the client
    if s.iRead then
      let iid ← Script.cAt (V := vocabulary) .tlsSocket 0 (.write .iBuf res.returnCode.toNat)
      return { s with iToE := iid, iRead := false }
    else
      let iid ← Script.cAt (V := vocabulary) .readWriteBytes 0 (.read .iBuf sizeofBuf false)
      return { s with iToE := iid, iRead := true }
  else return s

/-- `on_new_data`. -/
def onNewData (site : Site) (w : World) (s : ReverseProxyServer) :
    EventType → Handler (Yielded × ReverseProxyServer)
  | .childTaskCompletion res => do
    if res.returnCode ≤ 0 then return (some (true, -1), s)
    else
      match s.nextOp with
      | .writePeerBranch => s.writePeerBranch site w
      | .readInternalPeer =>
        let _ ← Script.cAt (V := vocabulary) .readWriteHttpC 0 .clientReadHttp
        return (none, { s with nextOp := .writeExternalPeer })
      | .writeExternalPeer => s.writeExternalPeer w
      | .readExternalPeer =>
        let _ ← Script.cAt (V := vocabulary) .readWriteHttp 0 .readHttp
        return (none, { s with nextOp := .writePeerBranch })
      | .websocket =>
        let s ← s.enterWebsocket site
        let s ← s.relay res
        return (none, s)
  | _ => throw .badVariantAccess

end ReverseProxyServer

end LocalSoftware.ReverseProxy
