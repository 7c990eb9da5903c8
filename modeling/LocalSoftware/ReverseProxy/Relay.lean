import LocalSoftware.Common.ReadWriteHttpC
import LocalSoftware.ReverseProxy.ServerSteps

/-!
# The byte relay of the reverse proxy

A `Relay` is a connection of the reverse proxy with its two HTTP objects, between the client and the
internal peer. Both parties send bytes at any time; the byte sockets complete reads with any number
of them and writes when everything is written, and report to the object that called them. The socket
of the client is a `TLSSocket`, which drops the result of a call that OpenSSL decides at once. After
an upgrade the connection is to hand on the bytes of each party unchanged.

`relays_iff` says when it does: exactly if the HTTP object of a party had nothing left in its buffer
when the state `websocket` was entered, and the `TLSSocket` dropped nothing that the direction needs.
-/

set_option autoImplicit false

namespace LocalSoftware.ReverseProxy

open Http

/-- The two parties. -/
inductive Side where
  | client
  | peer
deriving DecidableEq, Repr

namespace Side

/-- The party that the bytes of a party are for. -/
def other : Side → Side
  | .client => .peer
  | .peer => .client

/-- The class of the byte socket of a party. -/
def socket : Side → ChildType
  | .client => .tlsSocket
  | .peer => .readWriteBytes

/-- The buffer for the bytes of a party. -/
def buffer : Side → Buffer
  | .client => .eBuf
  | .peer => .iBuf

end Side

namespace ReverseProxyServer

/-- `e_buf_` or `i_buf_`. -/
def buf (s : ReverseProxyServer) : Buffer → Str
  | .eBuf => s.eBuf
  | .iBuf => s.iBuf

/-- Bytes are read to the start of a buffer. -/
def fill (s : ReverseProxyServer) (chunk : Str) : Buffer → ReverseProxyServer
  | .eBuf => { s with eBuf := chunk ++ s.eBuf.drop chunk.length }
  | .iBuf => { s with iBuf := chunk ++ s.iBuf.drop chunk.length }

end ReverseProxyServer

/-- The bytes of a party: all that it sent, and those of them that its socket was not yet asked for.
The others were taken by the parser of its HTTP object, are on their way, or were written to the
other party by the relay. -/
structure Stream where
  sent : Str := []
  unread : Str := []
  parsed : Str := []
  relayed : Str := []
deriving DecidableEq, Repr

/-- What is under way: an operation of a byte socket, called by an HTTP object or by the connection
object, or the end of a task that the connection object will be told. The history variable `held`
counts the bytes at the start of the buffer that are not written. -/
inductive Pending where
  | http (side : Side) (call : ReadWriteHttp.ChildCall)
  | server (side : Side) (task : Id) (call : ChildCall)
  | report (task : Id) (rc : Int) (held : Nat)
deriving DecidableEq, Repr

/-- The task of the connection object that an entry is about. -/
def Pending.task : Pending → Id
  | .http _ _ => none
  | .server _ task _ => task
  | .report task _ _ => task

/-- A connection with its HTTP objects and the tasks that they work on. -/
structure Relay (B : Beast) (C : ClientBeast) where
  server : ReverseProxyServer
  data : IoUringData vocabulary
  http : ReadWriteHttp B
  httpData : IoUringData ReadWriteHttp.vocabulary
  httpTask : Id := none
  httpC : ReadWriteHttpC C
  httpCData : IoUringData ReadWriteHttp.vocabulary := {}
  httpCTask : Id := none
  streams : Side → Stream := fun _ => {}
  pending : List Pending := []
  closed : Bool := false

/-- What happens to a relay. -/
inductive Action where
  /-- A party sends bytes. -/
  | sends (side : Side) (bytes : Str)
  /-- An operation completes with `n` bytes. -/
  | completes (i n : Nat)
  /-- An operation fails, or a read meets the end of the stream. -/
  | fails (i : Nat) (rc : Int)
  /-- OpenSSL decides an operation of the client's socket with `n` bytes in the call itself, or with an
  error. The result is dropped, and the operation is never reported. -/
  | drops (i n : Nat)
  /-- The connection object is told the end of a task. -/
  | delivers (i : Nat) (w : World)

namespace Relay

variable {B : Beast} {C : ClientBeast}

/-- The completion of a task. -/
def completion (task : Id) (rc : Int) : ChildTaskCompletion where
  callingId := none
  taskId := task
  status := if 0 < rc then .finished else .failed
  returnCode := rc

/-- The bytes that are gone from the front of a buffer. -/
def taken (before after : Str) : Str := before.take (before.length - after.length)

/-- An HTTP object has run: its parser took bytes from its buffer, it queued calls, and its task may
be complete. -/
def settle (c : Relay B C) (side : Side) (task : Id) (before after : Str) (y : Yielded)
    (calls : List ReadWriteHttp.ChildCall) : Relay B C :=
  { c with
    streams := Function.update c.streams side { c.streams side with
      parsed := (c.streams side).parsed ++ taken before after }
    pending := c.pending ++ calls.map (Pending.http side) ++
      y.toList.map fun r => Pending.report task r.2 0 }

/-- The HTTP object of the client runs, with `chunk` just read behind its buffer. -/
def runHttp (c : Relay B C) (task : Id) (chunk : Str)
    (x : Script ReadWriteHttp.vocabulary (Yielded × ReadWriteHttp B)) :
    Except Fault (Relay B C) :=
  match x.run { uringData := c.httpData } with
  | .error e => .error e
  | .ok ((y, http), es) => .ok (({ c with http, httpData := es.uringData, httpTask := task }).settle
      .client task (c.http.buffer.data ++ chunk) http.buffer.data y (es.function.map EventQueuedFunction.fn))

/-- The HTTP object of the internal peer runs, with `chunk` just read behind its buffer. -/
def runHttpC (c : Relay B C) (task : Id) (chunk : Str)
    (x : Script ReadWriteHttp.vocabulary (Yielded × ReadWriteHttpC C)) :
    Except Fault (Relay B C) :=
  match x.run { uringData := c.httpCData } with
  | .error e => .error e
  | .ok ((y, httpC), es) => .ok (({ c with
      httpC, httpCData := es.uringData, httpCTask := task }).settle
        .peer task (c.httpC.buffer.data ++ chunk) httpC.buffer.data y (es.function.map EventQueuedFunction.fn))

/-- A call that the connection object queued. -/
def exec (c : Relay B C) (q : EventQueuedFunction vocabulary) : Except Fault (Relay B C) :=
  match q.idx, q.fn with
  | .readWriteHttp, .readHttp => c.runHttp q.localId [] do
      let http ← c.http.readHttp
      return (none, http)
  | .readWriteHttp, .writeHttp res => c.runHttp q.localId [] do
      let http ← c.http.writeHttp res
      return (none, http)
  | .readWriteHttpC, .clientReadHttp => c.runHttpC q.localId [] c.httpC.readHttp
  | .readWriteHttpC, .clientWriteHttp req => c.runHttpC q.localId [] do
      let httpC ← c.httpC.writeHttp req
      return (none, httpC)
  | .tlsSocket, fn => .ok { c with pending := c.pending ++ [.server .client q.localId fn] }
  | .readWriteBytes, fn => .ok { c with pending := c.pending ++ [.server .peer q.localId fn] }
  | _, _ => .error .undefinedBehaviour

/-- The HTTP object of a party is told the end of an operation of its socket. -/
def httpEvent (c : Relay B C) (side : Side) (chunk : Str) (rc : Int) : Except Fault (Relay B C) :=
  match side with
  | .client => ({ c with http := { c.http with buffer := c.http.buffer.fill chunk } }).runHttp
      c.httpTask chunk
      (({ c.http with buffer := c.http.buffer.fill chunk } : ReadWriteHttp B).onYield
        (.childTaskCompletion (completion none rc)))
  | .peer => ({ c with httpC := { c.httpC with buffer := c.httpC.buffer.fill chunk } }).runHttpC
      c.httpCTask chunk
      (({ c.httpC with buffer := c.httpC.buffer.fill chunk } : ReadWriteHttpC C).onNewData
        (.childTaskCompletion (completion none rc)))

/-- `get_data` takes the parser of the object that it is called for. -/
def takeParser (c : Relay B C) : Relay B C :=
  match c.server.nextOp with
  | .writePeerBranch => { c with http := { c.http with parser := none } }
  | .writeExternalPeer => { c with httpC := { c.httpC with parser := none } }
  | _ => c

/-- A new HTTP object, on a new connection to the internal peer. -/
def connect (c : Relay B C) : Relay B C :=
  { c with
    httpC := { tlsEnabled := false }, httpCData := {}
    streams := Function.update c.streams .peer {} }

/-- What the handlers of the connection object find. -/
def world (c : Relay B C) (w : World) : World :=
  { w with http := some (c.http.parser.map B.get), httpC := some (c.httpC.parser.map C.get) }

/-- The end of a task reaches the connection object, without the report in `c`. -/
def deliver (site : Site) (c : Relay B C) (w : World) (task : Id) (rc : Int) :
    Except Fault (Option (Relay B C)) :=
  match c.server.onNewData site (c.world w) (.childTaskCompletion (completion task rc))
      { uringData := c.data } with
  | .error e => .error e
  | .ok ((some _, _), _) => .ok none
  | .ok ((none, server), es) =>
    let c := if es.construct.isEmpty then c.takeParser else c.takeParser.connect
    (es.function.foldlM exec { c with server, data := es.uringData }).map some

/-- Bytes leave the socket of a party. -/
def readStream (c : Relay B C) (side : Side) (n : Nat) : Side → Stream :=
  Function.update c.streams side { c.streams side with unread := (c.streams side).unread.drop n }

/-- One event. A connection whose task has ended stays as it is. -/
def step (site : Site) (c : Relay B C) : Action → Except Fault (Relay B C)
  | .sends side bytes => .ok { c with
      streams := Function.update c.streams side { c.streams side with
        sent := (c.streams side).sent ++ bytes, unread := (c.streams side).unread ++ bytes } }
  | .completes i n =>
    let rest := c.pending.eraseIdx i
    match c.pending[i]? with
    | some (.http side (.read _ _)) =>
      ({ c with pending := rest, streams := c.readStream side n }).httpEvent side
        ((c.streams side).unread.take n) n
    | some (.http side (.write _)) => ({ c with pending := rest }).httpEvent side [] n
    | some (.server side task (.read b _ _)) => .ok { c with
        server := c.server.fill ((c.streams side).unread.take n) b
        streams := c.readStream side n, pending := rest ++ [.report task n n] }
    | some (.server side task (.write b len)) => .ok { c with
        streams := Function.update c.streams side.other { c.streams side.other with
          relayed := (c.streams side.other).relayed ++ (c.server.buf b).take len }
        pending := rest ++ [.report task n 0] }
    | _ => .error .undefinedBehaviour
  | .fails i rc =>
    let rest := c.pending.eraseIdx i
    match c.pending[i]? with
    | some (.http side _) => ({ c with pending := rest }).httpEvent side [] rc
    | some (.server _ task (.write _ len)) => .ok { c with pending := rest ++ [.report task rc len] }
    | some (.server _ task _) => .ok { c with pending := rest ++ [.report task rc 0] }
    | _ => .error .undefinedBehaviour
  | .drops i n =>
    let rest := c.pending.eraseIdx i
    match c.pending[i]? with
    | some (.http .client (.read _ _)) => .ok { c with
        http := { c.http with buffer := c.http.buffer.fill ((c.streams .client).unread.take n) }
        streams := c.readStream .client n, pending := rest }
    | some (.http .client (.write _)) => .ok { c with pending := rest }
    | some (.server .client _ (.read b _ _)) => .ok { c with
        server := c.server.fill ((c.streams .client).unread.take n) b
        streams := c.readStream .client n, pending := rest }
    | some (.server .client _ (.write b _)) => .ok { c with
        streams := Function.update c.streams .peer { c.streams .peer with
          relayed := (c.streams .peer).relayed ++ (c.server.buf b).take n }
        pending := rest }
    | _ => .error .undefinedBehaviour
  | .delivers i w =>
    match c.pending[i]? with
    | some (.report task rc _) =>
      match deliver site { c with pending := c.pending.eraseIdx i } w task rc with
      | .error e => .error e
      | .ok none => .ok { c with closed := true }
      | .ok (some c) => .ok c
    | _ => .error .undefinedBehaviour

/-- A read completes with bytes that are there, a write of an HTTP object with a part of its bytes, and
one of the connection object with all of them. -/
def CompletesWith (c : Relay B C) (n : Nat) : Option Pending → Prop
  | some (.http side (.read len _)) => n ≤ len ∧ n ≤ (c.streams side).unread.length
  | some (.http _ (.write data)) => n ≤ data.length
  | some (.server side _ (.read _ len _)) => n ≤ len ∧ n ≤ (c.streams side).unread.length
  | some (.server _ _ (.write _ len)) => n = len
  | _ => False

instance (c : Relay B C) (n : Nat) : (p : Option Pending) → Decidable (c.CompletesWith n p)
  | some (.http side (.read len _)) =>
    inferInstanceAs (Decidable (n ≤ len ∧ n ≤ (c.streams side).unread.length))
  | some (.http _ (.write data)) => inferInstanceAs (Decidable (n ≤ data.length))
  | some (.server side _ (.read _ len _)) =>
    inferInstanceAs (Decidable (n ≤ len ∧ n ≤ (c.streams side).unread.length))
  | some (.server _ _ (.write _ len)) => inferInstanceAs (Decidable (n = len))
  | some (.server _ _ .readHttp) => isFalse id
  | some (.server _ _ (.writeHttp _)) => isFalse id
  | some (.server _ _ .clientReadHttp) => isFalse id
  | some (.server _ _ (.clientWriteHttp _)) => isFalse id
  | some (.report _ _ _) => isFalse id
  | none => isFalse id

/-- What can happen. -/
def Possible (c : Relay B C) : Action → Prop
  | .sends _ _ => True
  | .completes i n => c.closed = false ∧ 0 < n ∧ c.CompletesWith n c.pending[i]?
  | .fails _ rc => c.closed = false ∧ rc ≤ 0
  | .drops i n => c.closed = false ∧ (n = 0 ∨ c.CompletesWith n c.pending[i]?)
  | .delivers _ _ => c.closed = false

instance (c : Relay B C) : (a : Action) → Decidable (c.Possible a)
  | .sends _ _ => isTrue trivial
  | .completes i n =>
    inferInstanceAs (Decidable (c.closed = false ∧ 0 < n ∧ c.CompletesWith n c.pending[i]?))
  | .fails _ rc => inferInstanceAs (Decidable (c.closed = false ∧ rc ≤ 0))
  | .drops i n =>
    inferInstanceAs (Decidable (c.closed = false ∧ (n = 0 ∨ c.CompletesWith n c.pending[i]?)))
  | .delivers _ _ => inferInstanceAs (Decidable (c.closed = false))

/-- A connection whose objects are constructed. -/
def constructed (store : AuthdUuids) : Relay B C where
  server := { nextOp := .writePeerBranch, authdUuids := store }
  data := (({} : EventState vocabulary).queueConstruct false .readWriteHttp
    (.readWriteHttp true)).2.uringData
  http := { tlsEnabled := true }
  httpData := ({} : IoUringData ReadWriteHttp.vocabulary).setSlots .tlsSocket [some { event := some 1 }]
  httpC := { tlsEnabled := false }

/-- A connection after `start`. -/
def start (store : AuthdUuids) : Except Fault (Relay B C) :=
  match (ReverseProxyServer.start store).run
      { uringData := (constructed store : Relay B C).data } with
  | .error e => .error e
  | .ok (server, es) =>
    es.function.foldlM exec { (constructed store : Relay B C) with server, data := es.uringData }

/-- The bytes of a party that the parser of its HTTP object has left in the buffer. -/
def buffered (c : Relay B C) : Side → Str
  | .client => c.http.buffer.data
  | .peer => c.httpC.buffer.data

end Relay

namespace ReverseProxyServer

/-- `e_to_i_` or `i_to_e_`: the task that the bytes of a party are on their way with. -/
def loopTask (s : ReverseProxyServer) : Side → Id
  | .client => s.eToI
  | .peer => s.iToE

/-- `e_read_` or `i_read_`: the task reads. -/
def loopReads (s : ReverseProxyServer) : Side → Bool
  | .client => s.eRead
  | .peer => s.iRead

end ReverseProxyServer

namespace Relay

variable {B : Beast} {C : ClientBeast}

/-- The relay has begun. -/
def Relaying (c : Relay B C) : Prop :=
  c.server.nextOp = .websocket ∧ c.server.checkWebsocket = false

instance (c : Relay B C) : Decidable c.Relaying := inferInstanceAs (Decidable (_ ∧ _))

/-- The number of bytes in the buffer for a party that an entry takes care of. -/
def Pending.heldFor (s : ReverseProxyServer) (side : Side) : Pending → Nat
  | .report task _ held => if task = s.loopTask side then held else 0
  | .server _ task (.write _ len) => if task = s.loopTask side then len else 0
  | _ => 0

/-- The bytes of a party that were read by the relay and are not yet written. -/
def onTheWay (c : Relay B C) (side : Side) : Str :=
  c.pending.flatMap fun p => (c.server.buf side.buffer).take (Pending.heldFor c.server side p)

/-- What a party has sent since the upgrade exchange, that is, behind the bytes that the parser of its
HTTP object took, is what was written to the other party, what is on its way, and what is still to be
read, in this order. -/
def Lossless (c : Relay B C) (side : Side) : Prop :=
  (c.streams side).relayed ++ c.onTheWay side ++ (c.streams side).unread =
    (c.streams side).sent.drop (c.streams side).parsed.length

instance (c : Relay B C) (side : Side) : Decidable (c.Lossless side) :=
  inferInstanceAs (Decidable (_ = _))

/-- An entry by which the bytes of a party get on: one of their task, or before the relay has begun
any one, since the exchange of messages has to come to its end. -/
def Carries (c : Relay B C) (side : Side) (p : Pending) : Prop :=
  c.Relaying → p.task = c.server.loopTask side

instance (c : Relay B C) (side : Side) (p : Pending) : Decidable (c.Carries side p) :=
  inferInstanceAs (Decidable (_ → _))

/-- Exactly one operation or report is pending by which the bytes of a party get on. -/
def Running (c : Relay B C) (side : Side) : Prop := c.pending.countP (c.Carries side ·) = 1

instance (c : Relay B C) (side : Side) : Decidable (c.Running side) :=
  inferInstanceAs (Decidable (_ = _))

/-- The bytes of a party are relayed: all of them, in their order and once, and they get on. -/
def Relays (c : Relay B C) (side : Side) : Prop := c.Lossless side ∧ c.Running side

instance (c : Relay B C) (side : Side) : Decidable (c.Relays side) :=
  inferInstanceAs (Decidable (_ ∧ _))

/-- The `TLSSocket` does not drop what the bytes of a party need. -/
def Answered (side : Side) (c : Relay B C) : Action → Prop
  | .drops i _ => ∀ p ∈ c.pending[i]?, ¬ c.Carries side p
  | _ => True

instance (side : Side) (c : Relay B C) : (a : Action) → Decidable (c.Answered side a)
  | .sends _ _ => isTrue trivial
  | .completes _ _ => isTrue trivial
  | .fails _ _ => isTrue trivial
  | .drops i _ => inferInstanceAs (Decidable (∀ p ∈ c.pending[i]?, ¬ c.Carries side p))
  | .delivers _ _ => isTrue trivial

end Relay

end LocalSoftware.ReverseProxy
