import LocalSoftware.Library.Preceded
import LocalSoftware.ReverseProxy.ServerSteps

/-!
# The authentication gate of the reverse proxy

A `Session` is a connection of the reverse proxy together with the events that it handled, whatever
requests, responses and completions it is given and whatever other connections do to the tokens.
`gated_and_answered`: bytes go to the internal peer only for a request that was accepted when it was
handled, or after such a request has led to the state `websocket`; any other request is answered from
the endpoints and files of the proxy or with an error.
-/

set_option autoImplicit false

namespace LocalSoftware.ReverseProxy

open Http

/-- An event that a connection handled: the object before it, and the calls that it queued. -/
structure Entry where
  before : ReverseProxyServer
  world : World
  event : EventType
  calls : List (EventQueuedFunction vocabulary)

/-- The request that is handled with the event. -/
def Entry.request (e : Entry) : Option Request :=
  match e.event with
  | .childTaskCompletion res =>
    if 0 < res.returnCode ∧ e.before.nextOp = .writePeerBranch then e.world.http.join else none
  | _ => none

/-- The event handles an accepted request, and passes it on. -/
def Entry.Admits (e : Entry) : Prop :=
  ∃ req, e.request = some req ∧ Accepted e.before.authdUuids e.world.now req ∧
    ∃ q ∈ e.calls, q.fn = .clientWriteHttp req

/-- A call that writes to the internal peer. -/
def ToPeer (q : EventQueuedFunction vocabulary) : Prop :=
  (q.idx = .readWriteHttpC ∨ q.idx = .readWriteBytes) ∧
    match q.fn with
    | .clientWriteHttp _ => True
    | .writeHttp _ => True
    | .write _ _ => True
    | _ => False

/-- The last request of a history was accepted and passed on. -/
def LastAdmitted (log : List Entry) : Prop :=
  ∃ front e back, log = front ++ e :: back ∧ e.Admits ∧ ∀ x ∈ back, x.request = none

/-- An event writes to the internal peer only the accepted request that it handles, or bytes of a
connection that its last request has turned into a websocket. -/
def Gated (e : Entry) (front : List Entry) : Prop :=
  ∀ q ∈ e.calls, ToPeer q →
    (∃ req, e.request = some req ∧ Accepted e.before.authdUuids e.world.now req ∧
      q.fn = .clientWriteHttp req) ∨
    (e.before.nextOp = .websocket ∧ LastAdmitted front)

/-- A connection and its history. -/
structure Session where
  server : ReverseProxyServer
  data : IoUringData vocabulary
  log : List Entry := []

/-- What happens to a connection. -/
inductive Input where
  /-- An event is delivered. -/
  | event (w : World) (event : EventType)
  /-- Another object uses the tokens. -/
  | elsewhere (store : AuthdUuids)

namespace Session

/-- A connection after `start`. -/
def start (store : AuthdUuids) : Session where
  server := { nextOp := .writePeerBranch, authdUuids := store }
  data := ((({} : EventState vocabulary).queueConstruct false .readWriteHttp
    (.readWriteHttp true)).2.callAt .readWriteHttp 0 .readHttp).2.uringData

example (store : AuthdUuids) :
    (((do
      ReverseProxyServer.constructor
      ReverseProxyServer.start store : Script vocabulary ReverseProxyServer)).run {}).map
        (fun r => ({ server := r.1, data := r.2.uringData } : Session)) = .ok (start store) := rfl

/-- One event. -/
def step (site : Site) (c : Session) : Input → Except Fault Session
  | .event w event =>
    match c.server.onNewData site w event { uringData := c.data } with
    | .error e => .error e
    | .ok ((_, server), es) => .ok {
        server, data := es.uringData
        log := c.log ++ [{ before := c.server, world := w, event, calls := es.function }] }
  | .elsewhere store => .ok { c with server := { c.server with authdUuids := store } }

/-- The states that a connection passes through between an accepted request and the next one. -/
def Passing : State → Prop
  | .readInternalPeer => True
  | .writeExternalPeer => True
  | .websocket => True
  | _ => False

/-- What every event keeps. -/
structure Inv (c : Session) : Prop where
  gated : Preceded Gated c.log
  lastAdmitted : Passing c.server.nextOp → LastAdmitted c.log

variable {site : Site} {c c' : Session} {w : World} {e : Entry}

theorem start_inv (store : AuthdUuids) : (start store).Inv where
  gated := preceded_nil
  lastAdmitted h := h.elim

theorem lastAdmitted_concat {log : List Entry} (h : LastAdmitted log) (he : e.request = none) :
    LastAdmitted (log ++ [e]) := by
  obtain ⟨front, a, back, rfl, hadmits, hback⟩ := h
  refine ⟨front, a, back ++ [e], by simp, hadmits, fun x hx => ?_⟩
  rcases List.mem_append.mp hx with hx | hx
  · exact hback x hx
  · rw [List.mem_singleton.mp hx]
    exact he

theorem lastAdmitted_of_admits {log : List Entry} (h : e.Admits) : LastAdmitted (log ++ [e]) :=
  ⟨log, e, [], rfl, h, fun _ hx => absurd hx List.not_mem_nil⟩

/-! ## The entries of the history -/

section Entries

variable {res : ChildTaskCompletion} {s : ReverseProxyServer} {req : Request}
  {calls : List (EventQueuedFunction vocabulary)}

theorem request_of_ne (hop : s.nextOp ≠ .writePeerBranch) :
    (⟨s, w, .childTaskCompletion res, calls⟩ : Entry).request = none :=
  if_neg fun h => hop h.2

theorem request_of_eq (hrc : 0 < res.returnCode) (hop : s.nextOp = .writePeerBranch)
    (hreq : w.http = some (some req)) :
    (⟨s, w, .childTaskCompletion res, calls⟩ : Entry).request = some req := by
  show (if _ then _ else _) = _
  rw [if_pos ⟨hrc, hop⟩, hreq]
  rfl

theorem request_of_failed (hrc : res.returnCode ≤ 0) :
    (⟨s, w, .childTaskCompletion res, calls⟩ : Entry).request = none :=
  if_neg fun h => absurd h.1 (Int.not_lt.mpr hrc)

/-- An event that writes nothing to the internal peer. -/
theorem gated_of_silent {log : List Entry} (h : ∀ q ∈ e.calls, ¬ ToPeer q) : Gated e log :=
  fun q hq hpeer => absurd hpeer (h q hq)

/-- The one call of an event whose object had nothing queued. -/
theorem function_of_calls {d : IoUringData vocabulary} {idx : ChildType} {fn : ChildCall}
    {es' : EventState vocabulary}
    (h : Calls idx fn ({ uringData := d } : EventState vocabulary) es') :
    es'.function = [{ idx, vidx := 0, localId := some d.localProcId, fn }] := h.function

end Entries

/-- An event of a connection. -/
theorem step_event (h : c.Inv) {res : ChildTaskCompletion} {y : Yielded} {s' : ReverseProxyServer}
    {es' : EventState vocabulary}
    (hcase : ReverseProxyServer.Handled site w c.server { uringData := c.data } res y s' es') :
    ({ server := s', data := es'.uringData
       log := c.log ++ [⟨c.server, w, .childTaskCompletion res, es'.function⟩] } : Session).Inv := by
  cases hcase with
  -- nothing is sent
  | failed hrc =>
    have hnone := @request_of_failed w res c.server [] hrc
    exact ⟨preceded_concat.mpr ⟨h.gated, gated_of_silent fun _ hq => absurd hq List.not_mem_nil⟩,
      fun hpass => lastAdmitted_concat (h.lastAdmitted hpass) hnone⟩
  | @branch req s' es' hrc hop hreq hbranch =>
    have hsome := @request_of_eq w res c.server req es'.function hrc hop hreq
    cases hbranch with
    -- the request passed the gate, and is the one that is sent to the peer
    | forwarded haccepted hkept check hs hcalls =>
      have hfun := function_of_calls hcalls
      have hadmits : (⟨c.server, w, .childTaskCompletion res, es'.function⟩ : Entry).Admits := by
        refine ⟨req, hsome, haccepted,
          ⟨.readWriteHttpC, 0, some c.data.localProcId, .clientWriteHttp req⟩, ?_, rfl⟩
        show _ ∈ es'.function
        rw [hfun]
        exact List.mem_cons_self
      refine ⟨preceded_concat.mpr ⟨h.gated, fun q hq _ => Or.inl ⟨req, hsome, haccepted, ?_⟩⟩,
        fun _ => lastAdmitted_of_admits hadmits⟩
      change q ∈ es'.function at hq
      rw [hfun] at hq
      rw [List.mem_singleton.mp hq]
    -- the proxy answers itself: the client is written to, not the peer
    | answered hown hkept hs hcalls =>
      refine ⟨preceded_concat.mpr ⟨h.gated, gated_of_silent fun q hq => ?_⟩, fun hpass => ?_⟩
      · rw [function_of_calls hcalls] at hq
        rw [List.mem_singleton.mp hq]
        rintro ⟨hidx | hidx, -⟩
        · cases hidx
        · cases hidx
      · rw [hs] at hpass
        exact hpass.elim
  | askPeer hrc hop hcalls =>
    have hnone := @request_of_ne w res c.server es'.function (by rw [hop]; decide)
    refine ⟨preceded_concat.mpr ⟨h.gated, gated_of_silent fun q hq => ?_⟩, fun _ => ?_⟩
    · rw [function_of_calls hcalls] at hq
      rw [List.mem_singleton.mp hq]
      exact fun hpeer => hpeer.2
    · exact lastAdmitted_concat (h.lastAdmitted (by rw [hop]; trivial)) hnone
  | @respond resp es' hrc hop hresp hcalls =>
    have hnone := @request_of_ne w res c.server es'.function (by rw [hop]; decide)
    refine ⟨preceded_concat.mpr ⟨h.gated, gated_of_silent fun q hq => ?_⟩, fun _ => ?_⟩
    · rw [function_of_calls hcalls] at hq
      rw [List.mem_singleton.mp hq]
      rintro ⟨hidx | hidx, -⟩
      · cases hidx
      · cases hidx
    · exact lastAdmitted_concat (h.lastAdmitted (by rw [hop]; trivial)) hnone
  | askClient hrc hop hcalls =>
    refine ⟨preceded_concat.mpr ⟨h.gated, gated_of_silent fun q hq => ?_⟩, fun hpass => hpass.elim⟩
    rw [function_of_calls hcalls] at hq
    rw [List.mem_singleton.mp hq]
    exact fun hpeer => hpeer.2
  -- the relay is open only behind a request that passed the gate
  | websocket hrc hop henter hrelay hconstruct =>
    have hnone := @request_of_ne w res c.server es'.function (by rw [hop]; decide)
    have hlast := h.lastAdmitted (by rw [hop]; trivial)
    exact ⟨preceded_concat.mpr ⟨h.gated, fun _ _ _ => Or.inr ⟨hop, hlast⟩⟩,
      fun _ => lastAdmitted_concat hlast hnone⟩

theorem step_inv (h : c.Inv) {i : Input} (hstep : c.step site i = .ok c') : c'.Inv := by
  cases i with
  | elsewhere store =>
    obtain rfl := Except.ok.inj hstep
    exact ⟨h.gated, h.lastAdmitted⟩
  | event w event =>
    simp only [step] at hstep
    split at hstep
    · cases hstep
    · rename_i y s' es' hrun
      obtain rfl := Except.ok.inj hstep
      obtain ⟨res, rfl, hcase⟩ := ReverseProxyServer.onNewData_cases hrun
      exact step_event h hcase

/-- A request that is not accepted is answered by the proxy. -/
theorem step_answered {res : ChildTaskCompletion} {req : Request}
    (hop : c.server.nextOp = .writePeerBranch) (hrc : 0 < res.returnCode)
    (hreq : w.http = some (some req))
    (hrefused : ¬ Accepted c.server.authdUuids w.now req) :
    ∃ c' l resp, c.step site (.event w (.childTaskCompletion res)) = .ok c' ∧
      OwnAnswer (site.httpManager w) w.fs req resp ∧
      c'.log = c.log ++ [⟨c.server, w, .childTaskCompletion res,
        [⟨.readWriteHttp, 0, l, .writeHttp resp⟩]⟩] := by
  obtain ⟨s', es', hrun, hbranch⟩ :=
    @ReverseProxyServer.run_writePeerBranch site w c.server { uringData := c.data } req hreq
  have hneg : ¬ res.returnCode ≤ 0 := Int.not_le.mpr hrc
  have hnew : c.server.onNewData site w (.childTaskCompletion res) { uringData := c.data } =
      .ok ((none, s'), es') := by
    simp only [ReverseProxyServer.onNewData, if_neg hneg, hop]
    exact hrun
  cases hbranch with
  | forwarded haccepted hkept check hs hcalls => exact absurd haccepted hrefused
  | @answered s₁ s' es' resp hown hkept hs hcalls =>
    refine ⟨{ server := s', data := es'.uringData
              log := c.log ++ [⟨c.server, w, .childTaskCompletion res, es'.function⟩] },
      some c.data.localProcId, resp, ?_, hown, ?_⟩
    · simp only [step, hnew]
    · rw [← function_of_calls hcalls]

/-- In every run of a connection, bytes are written to the internal peer only for a request that was
accepted when it was handled, or once the last request, which was accepted, led to a websocket; and a
request that is not accepted is answered from the endpoints and files of the proxy or with an
error. -/
theorem gated_and_answered (site : Site) (store : AuthdUuids)
    (h : Reached (step site) (fun _ _ => True) (start store) c) :
    Preceded Gated c.log ∧
    ∀ (w : World) (res : ChildTaskCompletion) (req : Request),
      c.server.nextOp = .writePeerBranch → 0 < res.returnCode → w.http = some (some req) →
        ¬ Accepted c.server.authdUuids w.now req →
          ∃ c' l resp, c.step site (.event w (.childTaskCompletion res)) = .ok c' ∧
            OwnAnswer (site.httpManager w) w.fs req resp ∧
            c'.log = c.log ++ [⟨c.server, w, .childTaskCompletion res,
              [⟨.readWriteHttp, 0, l, .writeHttp resp⟩]⟩] :=
  ⟨(h.invariant (start_inv store) fun _ _ _ hinv _ hstep => step_inv hinv hstep).gated,
    fun _ _ _ hop hrc hreq hrefused => step_answered hop hrc hreq hrefused⟩

/-- A proxy with an empty file tree. -/
def door : Site where
  base := { service := [], basePath := rootPath, handlers := fun _ => none }
  noEndpoint _ := rfl
  password := "secret".toList
  redirectUrl := "/".toList
  peerAddr := "peer".toList
  moveSlots _ _ _ slots := slots

/-- What its handlers find after the request `req`, when the peer has answered with `resp`. -/
def doorWorld (req : Request) (resp : Response) : World where
  now := 5
  fs := { isDirectory := fun _ => .ok false, canonical := fun _ => .error .filesystemError,
          exists' := fun _ => .ok false, contents := fun _ => .ok none }
  net := { getaddrinfo := fun _ _ => .ok [[]], socket := fun _ => 3, connect := fun _ _ => 0 }
  tok := []
  cookies := []
  http := some (some req)
  httpC := some (some resp)

/-- A request with the token `t`. -/
def knock : Request := { method := .get, target := "/".toList, fields := [(Field.cookie, "token=t".toList)] }

/-- A completion that succeeded. -/
def doorEvent (req : Request) : Input :=
  .event (doorWorld req { status := .ok, version := 11 })
    (.childTaskCompletion { callingId := none, taskId := none, status := .finished, returnCode := 1 })

/-- A request with a token that is known goes to the peer, and one without a token gets an error. -/
theorem door_gated : ∃ c, runActions (step door) [doorEvent knock, doorEvent knock, doorEvent knock,
      doorEvent knock, doorEvent { knock with fields := [] }]
        (start (createNewToken ∅ ['t'] 0)) = .ok c ∧
    c.log.map (fun e => e.calls.map (·.idx)) = [[.readWriteHttpC], [.readWriteHttpC],
      [.readWriteHttp], [.readWriteHttp], [.readWriteHttp]] ∧
    Preceded Gated c.log := by
  obtain ⟨c, hrun, hcalls⟩ := exists_of_map_eq_ok (f := fun c : Session =>
    c.log.map fun e => e.calls.map (·.idx)) (b := [[.readWriteHttpC], [.readWriteHttpC],
      [.readWriteHttp], [.readWriteHttp], [.readWriteHttp]])
    (x := runActions (step door) [doorEvent knock, doorEvent knock, doorEvent knock,
      doorEvent knock, doorEvent { knock with fields := [] }] (start (createNewToken ∅ ['t'] 0)))
    (by decide +kernel)
  exact ⟨c, hrun, hcalls, (gated_and_answered door _
    (reached_of_runActions .start (meets_true _ _) hrun)).1⟩

end Session

end LocalSoftware.ReverseProxy
