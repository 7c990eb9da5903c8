import LocalSoftware.ReverseProxy.ReverseProxyServer

/-!
# What the handlers of a proxy connection do

The rules for the handlers of `ReverseProxyServer`: each says which calls a handler queues and what
it changes in its object. `run_writePeerBranch` is the one about requests: an accepted one may go to
the internal peer, and any other one gets an answer of the proxy. `onNewData_cases` puts them
together.
-/

set_option autoImplicit false

namespace LocalSoftware.ReverseProxy

open Http

/-! ## Running a handler -/

namespace Handler

variable {α β : Type} {es : EventState vocabulary}

@[simp] theorem apply_pure (a : α) : (pure a : Handler α) es = .ok (a, es) := rfl

@[simp] theorem apply_bind (x : Handler α) (f : α → Handler β) : (x >>= f) es =
    match x es with
    | .ok (a, es') => f a es'
    | .error e => .error e := by
  show StateT.bind x f es = _
  unfold StateT.bind
  cases x es <;> rfl

@[simp] theorem apply_script (x : Script vocabulary α) : (liftM x : Handler α) es = x.run es := rfl

@[simp] theorem apply_ok (a : α) : (liftM (.ok a : Except Fault α) : Handler α) es = .ok (a, es) :=
  rfl

@[simp] theorem apply_error (e : Fault) :
    (liftM (.error e : Except Fault α) : Handler α) es = .error e := rfl

end Handler

/-! ## Answers of the proxy itself -/

/-- The token in the cookie of a request is accepted. -/
def Accepted (store : AuthdUuids) (now : Nat) (req : Request) : Prop :=
  ∃ cookie token, req.fields.find Field.cookie = some cookie ∧ getToken cookie = some token ∧
    (checkAuth store token now).1 = true

/-- A response of the proxy: from an endpoint, with a file, or for an error. -/
inductive OwnAnswer (m : HttpManager) (fs : FileSystem) (req : Request) (res : Response) : Prop where
  | endpoint {methods : Verb → Option Http.Handler} {handler : Http.Handler}
      (hmethods : m.handlers (HttpManager.stripQuery req.target) = some methods)
      (hhandler : methods req.method = some handler) (hres : handler req = .ok res)
  | file {p : AbsPath} (hserve : Effect.serve p ∈ (m.handleRequest fs req).1)
      (hres : (m.handleRequest fs req).2 = .ok res)
  | error (hstatus : res.status = .unauthorized ∨ res.status = .notFound ∨
      res.status = .methodNotAllowed)

section Answers

variable {site : Site} {w : World} {req : Request}

theorem prepareResponse_status {headers : Fields} {status : Status} {body : Str} {version : Nat}
    (h : status.bodiless = false) : ∃ res,
      HttpManager.prepareResponse headers status body version = .ok res ∧ res.status = status :=
  ⟨_, Response.preparePayload_ok h, rfl⟩

/-- The only endpoint is `/login`, for `POST`. -/
theorem handlers_httpManager (endpoint : Str) :
    (site.httpManager w).handlers endpoint =
      if endpoint = "/login".toList then
        some (Function.update (fun _ => none) .post
          (some (login site.password site.redirectUrl w.tok w.cookies)))
      else none := by
  unfold Site.httpManager HttpManager.addEndpoint
  simp only [Function.update_apply, site.noEndpoint, Option.getD_none]

/-- A login is always answered. -/
theorem login_isOk (password redirectUrl tok : Str) (cookies : Fields) (req : Request) :
    ∃ res, login password redirectUrl tok cookies req = .ok res := by
  unfold login
  split
  · exact ⟨_, Response.preparePayload_ok rfl⟩
  · exact ⟨_, Response.preparePayload_ok rfl⟩

/-- `handle_request` answers every request of a connection. -/
theorem handleRequest_own : ∃ res, ((site.httpManager w).handleRequest w.fs req).2 = .ok res ∧
    OwnAnswer (site.httpManager w) w.fs req res := by
  have hhandlers := @handlers_httpManager site w (HttpManager.stripQuery req.target)
  by_cases hlogin : HttpManager.stripQuery req.target = "/login".toList
  · rw [if_pos hlogin] at hhandlers
    rw [HttpManager.handleRequest_endpoint hhandlers]
    by_cases hpost : req.method = .post
    · -- a login
      obtain ⟨res, hres⟩ := login_isOk site.password site.redirectUrl w.tok w.cookies req
      have hmethod : Function.update (fun _ => none) Verb.post
          (some (login site.password site.redirectUrl w.tok w.cookies)) req.method =
            some (login site.password site.redirectUrl w.tok w.cookies) := by
        rw [hpost, Function.update_self]
      refine ⟨res, ?_, .endpoint hhandlers hmethod hres⟩
      simp only [hmethod, hres]
    -- another method at the endpoint: the answer says so
    · have hmethod : Function.update (fun _ => none) Verb.post
          (some (login site.password site.redirectUrl w.tok w.cookies)) req.method = none :=
        Function.update_of_ne hpost ..
      obtain ⟨res, hres, hstatus⟩ := @prepareResponse_status (HttpManager.getResponseHeaders req)
        .methodNotAllowed [] 11 rfl
      refine ⟨res, ?_, .error (Or.inr (Or.inr hstatus))⟩
      simp only [hmethod, hres]
  · rw [if_neg hlogin] at hhandlers
    obtain ⟨missing, hmissing, hstatus⟩ := @prepareResponse_status
      (HttpManager.getResponseHeaders req ++ [(Field.contentType, "text/plain".toList)])
      .notFound "Not Found".toList 11 rfl
    have hnotFound : HttpManager.errorResponse req .notFound "Not Found".toList = .ok missing :=
      hmissing
    -- every other path is one of a file: not readable, not there, or served
    cases hserve : (site.httpManager w).serveFile w.fs req (HttpManager.stripQuery req.target) with
    | error e =>
      refine ⟨missing, ?_, .error (Or.inr (Or.inl hstatus))⟩
      rw [HttpManager.handleRequest_file hhandlers, hserve]
      exact hnotFound
    | ok served? =>
      cases served? with
      | none =>
        refine ⟨missing, ?_, .error (Or.inr (Or.inl hstatus))⟩
        rw [HttpManager.handleRequest_file hhandlers, hserve]
        exact hnotFound
      | some served =>
        obtain ⟨effects, res⟩ := served
        obtain ⟨p, content, -, -, heffects, -⟩ := HttpManager.serveFile_eq_ok_some_iff.mp hserve
        have hres : (site.httpManager w).handleRequest w.fs req = (effects, .ok res) := by
          rw [HttpManager.handleRequest_file hhandlers, hserve]
        refine ⟨res, by rw [hres], .file (p := p) ?_ (by rw [hres])⟩
        rw [hres, heffects]
        exact List.mem_cons_self

end Answers

/-! ## The handlers -/

/-- No call was queued. -/
structure Silent (es es' : EventState vocabulary) : Prop where
  function : es'.function = es.function
  localProcId : es'.uringData.localProcId = es.uringData.localProcId

/-- One call was queued. -/
structure Calls (idx : ChildType) (fn : ChildCall) (es es' : EventState vocabulary) : Prop where
  function : es'.function =
    es.function ++ [{ idx, vidx := 0, localId := some es.uringData.localProcId, fn }]
  localProcId : es'.uringData.localProcId = es.uringData.localProcId + 1

theorem Silent.calls {es es' : EventState vocabulary} (h : Silent es es') (idx : ChildType)
    (fn : ChildCall) : Calls idx fn es (es'.callAt (V := vocabulary) idx 0 fn).2 := by
  constructor
  · simp only [EventState.callAt, h.function, h.localProcId]
  · simp only [EventState.callAt, h.localProcId]

/-- Only the connection to the internal peer and the tokens changed. -/
def Kept (s s' : ReverseProxyServer) : Prop :=
  ∃ connected store, s' = { s with connectedInternPeer := connected, authdUuids := store }

/-- What the predicate says about a request: it goes to the internal peer, is answered with an error,
or is answered by `handle_request`. -/
inductive Verdict (s : ReverseProxyServer) (w : World) (req : Request) :
    Option Response → Bool → Prop where
  | forward (h : Accepted s.authdUuids w.now req) : Verdict s w req none false
  | refuse {res : Response} (skip : Bool)
      (h : HttpManager.errorResponse req .unauthorized "No authentication.".toList = .ok res) :
      Verdict s w req (some res) skip
  | handle : Verdict s w req none true

namespace ReverseProxyServer

variable {site : Site} {w : World} {s s' : ReverseProxyServer} {es : EventState vocabulary}
  {req : Request}

/-- A connection to the internal peer changes nothing else. -/
theorem run_initPeer : ∃ b s' es', (s.initPeer site w).run es = .ok ((b, s'), es') ∧
    Silent es es' ∧ ∃ connected, s' = { s with connectedInternPeer := connected } := by
  unfold initPeer
  split
  · exact ⟨_, _, _, rfl, ⟨rfl, rfl⟩, _, rfl⟩
  · exact ⟨_, _, _, rfl, ⟨rfl, rfl⟩, _, rfl⟩
  · dsimp only
    split
    · exact ⟨_, _, _, rfl, ⟨rfl, rfl⟩, _, rfl⟩
    · split
      · exact ⟨_, _, _, rfl, ⟨rfl, rfl⟩, _, rfl⟩
      · exact ⟨_, _, _, rfl, ⟨rfl, rfl⟩, _, rfl⟩

/-- Only an accepted token is admitted. -/
theorem run_letIn (token : Option Str) :
    ∃ b s' es', (s.letIn site w token).run es = .ok ((b, s'), es') ∧ Silent es es' ∧ Kept s s' ∧
      (b = true → ∃ t, token = some t ∧ (checkAuth s.authdUuids t w.now).1 = true) := by
  cases token with
  | none => exact ⟨_, _, _, rfl, ⟨rfl, rfl⟩, ⟨_, _, rfl⟩, fun h => absurd h Bool.false_ne_true⟩
  | some token =>
    unfold letIn
    dsimp only
    by_cases haccepted : (checkAuth s.authdUuids token w.now).1 = true
    · rw [if_neg (not_not.mpr haccepted)]
      split
      · exact ⟨_, _, _, rfl, ⟨rfl, rfl⟩, ⟨_, _, rfl⟩, fun _ => ⟨token, rfl, haccepted⟩⟩
      · obtain ⟨b, s', es', hrun, hsilent, connected, rfl⟩ := @run_initPeer site w
          { s with authdUuids := (checkAuth s.authdUuids token w.now).2 } es
        exact ⟨b, _, es', hrun, hsilent, ⟨_, _, rfl⟩, fun _ => ⟨token, rfl, haccepted⟩⟩
    · rw [if_pos haccepted]
      exact ⟨_, _, _, rfl, ⟨rfl, rfl⟩, ⟨_, _, rfl⟩, fun h => absurd h Bool.false_ne_true⟩

/-- The predicate lets a request through to the internal peer only if it is accepted. -/
theorem run_preEval (req : Request) (skip : Bool) :
    ∃ resp skip' s' es', (s.preEval site w req skip).run es = .ok ((resp, skip', s'), es') ∧
      Silent es es' ∧ Kept s s' ∧ Verdict s w req resp skip' := by
  unfold preEval
  cases hcookie : req.fields.find Field.cookie with
  | none => exact ⟨_, _, _, _, rfl, ⟨rfl, rfl⟩, ⟨_, _, rfl⟩, .handle⟩
  | some cookie =>
    obtain ⟨b, s', es', hrun, hsilent, hkept, hadmit⟩ :=
      @run_letIn site w s es (getToken cookie)
    simp only [Script.run_bind, hrun]
    cases b with
    | true =>
      obtain ⟨token, htoken, haccepted⟩ := hadmit rfl
      exact ⟨_, _, _, _, rfl, hsilent, hkept, .forward ⟨cookie, token, hcookie, htoken, haccepted⟩⟩
    | false =>
      simp only [Bool.false_eq_true, if_false]
      split
      · obtain ⟨res, hres, -⟩ := @prepareResponse_status
          (HttpManager.getResponseHeaders req ++ [(Field.contentType, "text/plain".toList)])
          .unauthorized "No authentication.".toList 11 rfl
        have herror : HttpManager.errorResponse req .unauthorized "No authentication.".toList =
          .ok res := hres
        simp only [Script.run_bind, Script.run_ofExcept, herror, Except.map]
        exact ⟨_, _, _, _, rfl, hsilent, hkept, .refuse skip herror⟩
      · exact ⟨_, _, _, _, rfl, hsilent, hkept, .handle⟩

/-- A request goes to the internal peer only if it is accepted, and is answered otherwise. -/
theorem run_handleRequestWithPred (req : Request) :
    ∃ resp s' es', (site.httpManager w).handleRequestWithPred (M := Handler) w.fs req
        (fun req skip => s.preEval site w req skip) es = .ok ((resp, s'), es') ∧
      Silent es es' ∧ Kept s s' ∧
      (resp = none ∧ Accepted s.authdUuids w.now req ∨
        ∃ res, resp = some res ∧ OwnAnswer (site.httpManager w) w.fs req res) := by
  obtain ⟨resp, skip, s', es', hrun, hsilent, hkept, hverdict⟩ := @run_preEval site w s es req true
  unfold HttpManager.handleRequestWithPred
  simp only [Handler.apply_bind, Handler.apply_script, hrun]
  cases hverdict with
  | forward h => exact ⟨_, _, _, rfl, hsilent, hkept, Or.inl ⟨rfl, h⟩⟩
  | refuse skip h =>
    obtain ⟨res', hres', hstatus⟩ := @prepareResponse_status
      (HttpManager.getResponseHeaders req ++ [(Field.contentType, "text/plain".toList)])
      .unauthorized "No authentication.".toList 11 rfl
    obtain rfl := Except.ok.inj (h.symm.trans hres')
    exact ⟨_, _, _, rfl, hsilent, hkept, Or.inr ⟨_, rfl, .error (Or.inl hstatus)⟩⟩
  | handle =>
    obtain ⟨res, hres, hown⟩ := @handleRequest_own site w req
    simp only [Option.isSome_none, Option.isNone_none, Bool.false_eq_true, not_true_eq_false,
      and_false, or_false, if_false, Handler.apply_bind, hres, Handler.apply_ok]
    exact ⟨_, _, _, rfl, hsilent, hkept, Or.inr ⟨res, rfl, hown⟩⟩

/-- What the case `WritePeerBranch` does with a request: an accepted one may go to the internal peer,
and any other one is answered. -/
inductive Branched (site : Site) (w : World) (s : ReverseProxyServer) (es : EventState vocabulary)
    (req : Request) : ReverseProxyServer → EventState vocabulary → Prop where
  | forwarded {s₁ s' : ReverseProxyServer} {es' : EventState vocabulary}
      (h : Accepted s.authdUuids w.now req) (hkept : Kept s s₁) (check : Bool)
      (hs : s' = { s₁ with checkWebsocket := check, nextOp := .readInternalPeer })
      (hcalls : Calls .readWriteHttpC (.clientWriteHttp req) es es') :
      Branched site w s es req s' es'
  | answered {s₁ s' : ReverseProxyServer} {es' : EventState vocabulary} {res : Response}
      (h : OwnAnswer (site.httpManager w) w.fs req res) (hkept : Kept s s₁)
      (hs : s' = { s₁ with nextOp := .readExternalPeer })
      (hcalls : Calls .readWriteHttp (.writeHttp res) es es') : Branched site w s es req s' es'

/-- Every request is forwarded or answered. -/
theorem run_writePeerBranch (hreq : w.http = some (some req)) :
    ∃ s' es', s.writePeerBranch site w es = .ok ((none, s'), es') ∧
      Branched site w s es req s' es' := by
  obtain ⟨resp, s₁, es₁, hrun, hsilent, hkept, hresp⟩ :=
    @run_handleRequestWithPred site w s es req
  have hdata : getData w.http = .ok req := by rw [hreq]; rfl
  unfold writePeerBranch
  simp only [Handler.apply_bind, hdata, Handler.apply_ok, hrun]
  rcases hresp with ⟨rfl, h⟩ | ⟨res, rfl, h⟩
  · refine ⟨_, _, rfl, .forwarded h hkept 
      (if ReverseProxy.checkWebsocket req then true else s₁.checkWebsocket) ?_ (hsilent.calls _ _)⟩
    split
    · rfl
    · rfl
  · exact ⟨_, _, rfl, .answered h hkept rfl (hsilent.calls _ _)⟩

/-- The two ways through the start of the case `Websocket`. -/
inductive Entered (s : ReverseProxyServer) (es : EventState vocabulary) :
    ReverseProxyServer → EventState vocabulary → Prop where
  | first {es₀ es₁ es' : EventState vocabulary} (hcheck : s.checkWebsocket = true)
      (hmove : Silent es es₀) (he : Calls .tlsSocket (.read .eBuf sizeofBuf false) es₀ es₁)
      (hi : Calls .readWriteBytes (.read .iBuf sizeofBuf false) es₁ es') :
      Entered s es { s with
        eToI := some es₀.uringData.localProcId
        iToE := some es₁.uringData.localProcId, checkWebsocket := false } es'
  | later (hcheck : s.checkWebsocket = false) : Entered s es s es

theorem run_enterWebsocket : ∃ s' es', s.enterWebsocket site es = .ok (s', es') ∧
    Entered s es s' es' ∧ es'.construct = es.construct := by
  unfold enterWebsocket
  cases hcheck : s.checkWebsocket with
  | true =>
    refine ⟨_, _, rfl, @Entered.first s es { es with uringData := { es.uringData with
      subEvents := site.moveSlots .readWriteHttpC .readWriteBytes 0
        (site.moveSlots .readWriteHttp .tlsSocket 0 es.uringData.subEvents) } } _ _
      hcheck ⟨rfl, rfl⟩ ⟨rfl, rfl⟩ ⟨rfl, rfl⟩, rfl⟩
  | false => exact ⟨_, _, rfl, .later hcheck, rfl⟩

/-- What the rest of the case `Websocket` does: it writes the bytes that were read, or reads on, or
the completion is not that of one of its tasks. -/
inductive Relayed (s : ReverseProxyServer) (res : ChildTaskCompletion)
    (es : EventState vocabulary) : ReverseProxyServer → EventState vocabulary → Prop where
  | writeToPeer {es' : EventState vocabulary} (htask : res.taskId = s.eToI) (hread : s.eRead = true)
      (hcalls : Calls .readWriteBytes (.write .eBuf res.returnCode.toNat) es es') :
      Relayed s res es { s with eToI := some es.uringData.localProcId, eRead := false } es'
  | readFromClient {es' : EventState vocabulary} (htask : res.taskId = s.eToI)
      (hread : s.eRead = false) (hcalls : Calls .tlsSocket (.read .eBuf sizeofBuf false) es es') :
      Relayed s res es { s with eToI := some es.uringData.localProcId, eRead := true } es'
  | writeToClient {es' : EventState vocabulary} (hother : res.taskId ≠ s.eToI)
      (htask : res.taskId = s.iToE) (hread : s.iRead = true)
      (hcalls : Calls .tlsSocket (.write .iBuf res.returnCode.toNat) es es') :
      Relayed s res es { s with iToE := some es.uringData.localProcId, iRead := false } es'
  | readFromPeer {es' : EventState vocabulary} (hother : res.taskId ≠ s.eToI)
      (htask : res.taskId = s.iToE) (hread : s.iRead = false)
      (hcalls : Calls .readWriteBytes (.read .iBuf sizeofBuf false) es es') :
      Relayed s res es { s with iToE := some es.uringData.localProcId, iRead := true } es'
  | ignored (he : res.taskId ≠ s.eToI) (hi : res.taskId ≠ s.iToE) : Relayed s res es s es

theorem run_relay (res : ChildTaskCompletion) : ∃ s' es', (s.relay res).run es = .ok (s', es') ∧
    Relayed s res es s' es' ∧ es'.construct = es.construct := by
  unfold relay
  by_cases he : res.taskId = s.eToI
  · simp only [if_pos he]
    cases hread : s.eRead with
    | true => exact ⟨_, _, rfl, .writeToPeer he hread ⟨rfl, rfl⟩, rfl⟩
    | false => exact ⟨_, _, rfl, .readFromClient he hread ⟨rfl, rfl⟩, rfl⟩
  · simp only [if_neg he]
    by_cases hi : res.taskId = s.iToE
    · simp only [if_pos hi]
      cases hread : s.iRead with
      | true => exact ⟨_, _, rfl, .writeToClient he hi hread ⟨rfl, rfl⟩, rfl⟩
      | false => exact ⟨_, _, rfl, .readFromPeer he hi hread ⟨rfl, rfl⟩, rfl⟩
    · simp only [if_neg hi]
      exact ⟨_, _, rfl, .ignored he hi, rfl⟩

/-- What `on_new_data` does with a completion. -/
inductive Handled (site : Site) (w : World) (s : ReverseProxyServer) (es : EventState vocabulary)
    (res : ChildTaskCompletion) :
    Yielded → ReverseProxyServer → EventState vocabulary → Prop where
  | failed (hrc : res.returnCode ≤ 0) : Handled site w s es res (some (true, -1)) s es
  | branch {req : Request} {s' : ReverseProxyServer} {es' : EventState vocabulary}
      (hrc : 0 < res.returnCode) (hop : s.nextOp = .writePeerBranch)
      (hreq : w.http = some (some req)) (h : Branched site w s es req s' es') :
      Handled site w s es res none s' es'
  | askPeer {es' : EventState vocabulary} (hrc : 0 < res.returnCode)
      (hop : s.nextOp = .readInternalPeer) (hcalls : Calls .readWriteHttpC .clientReadHttp es es') :
      Handled site w s es res none { s with nextOp := .writeExternalPeer } es'
  | respond {resp : Response} {es' : EventState vocabulary} (hrc : 0 < res.returnCode)
      (hop : s.nextOp = .writeExternalPeer) (hresp : w.httpC = some (some resp))
      (hcalls : Calls .readWriteHttp (.writeHttp resp) es es') :
      Handled site w s es res none { s with
        nextOp := if s.checkWebsocket ∧ resp.status = .switchingProtocols then .websocket
          else .readExternalPeer } es'
  | askClient {es' : EventState vocabulary} (hrc : 0 < res.returnCode)
      (hop : s.nextOp = .readExternalPeer) (hcalls : Calls .readWriteHttp .readHttp es es') :
      Handled site w s es res none { s with nextOp := .writePeerBranch } es'
  | websocket {s₁ s' : ReverseProxyServer} {es₁ es' : EventState vocabulary}
      (hrc : 0 < res.returnCode) (hop : s.nextOp = .websocket) (henter : Entered s es s₁ es₁)
      (hrelay : Relayed s₁ res es₁ s' es') (hconstruct : es'.construct = es.construct) :
      Handled site w s es res none s' es'

/-- `on_new_data` takes completions only. -/
theorem onNewData_cases {event : EventType} {y : Yielded} {es' : EventState vocabulary}
    (h : s.onNewData site w event es = .ok ((y, s'), es')) :
    ∃ res, event = .childTaskCompletion res ∧ Handled site w s es res y s' es' := by
  cases event with
  | childTaskCompletion res =>
    refine ⟨res, rfl, ?_⟩
    by_cases hrc : res.returnCode ≤ 0
    · simp only [onNewData, if_pos hrc, Handler.apply_pure, Except.ok.injEq, Prod.mk.injEq] at h
      obtain ⟨⟨rfl, rfl⟩, rfl⟩ := h
      exact .failed hrc
    · have hpos : 0 < res.returnCode := Int.not_le.mp hrc
      simp only [onNewData, if_neg hrc] at h
      -- by `next_op_`, as the source dispatches
      cases hop : s.nextOp with
      | writePeerBranch =>
        simp only [hop] at h
        cases hhttp : w.http with
        | none => simp [writePeerBranch, hhttp, getData] at h
        | some req? =>
          cases req? with
          | none => simp [writePeerBranch, hhttp, getData] at h
          | some req =>
            obtain ⟨s₁, es₁, hrun, hbranch⟩ := @run_writePeerBranch site w s es req hhttp
            rw [hrun] at h
            obtain ⟨⟨rfl, rfl⟩, rfl⟩ : (none = y ∧ s₁ = s') ∧ es₁ = es' := by simpa using h
            exact .branch hpos hop hhttp hbranch
      | readInternalPeer =>
        simp only [hop, Handler.apply_bind, Handler.apply_script, Script.run_cAt,
          Handler.apply_pure, Except.ok.injEq, Prod.mk.injEq] at h
        obtain ⟨⟨rfl, rfl⟩, rfl⟩ := h
        exact .askPeer hpos hop ⟨rfl, rfl⟩
      | writeExternalPeer =>
        simp only [hop] at h
        cases hhttp : w.httpC with
        | none => simp [writeExternalPeer, hhttp, getData] at h
        | some resp? =>
          cases resp? with
          | none => simp [writeExternalPeer, hhttp, getData] at h
          | some resp =>
            have hcase : s.writeExternalPeer w es = .ok ((none, { s with
                nextOp := if s.checkWebsocket ∧ resp.status = .switchingProtocols then .websocket
                  else .readExternalPeer }),
                (es.callAt (V := vocabulary) .readWriteHttp 0 (.writeHttp resp)).2) := by
              unfold writeExternalPeer
              simp only [hhttp, getData, Handler.apply_bind, Handler.apply_ok,
                Handler.apply_script, Script.run_cAt]
              split
              · rfl
              · rfl
            rw [hcase] at h
            simp only [Except.ok.injEq, Prod.mk.injEq] at h
            obtain ⟨⟨rfl, rfl⟩, rfl⟩ := h
            exact .respond hpos hop hhttp ⟨rfl, rfl⟩
      | readExternalPeer =>
        simp only [hop, Handler.apply_bind, Handler.apply_script, Script.run_cAt,
          Handler.apply_pure, Except.ok.injEq, Prod.mk.injEq] at h
        obtain ⟨⟨rfl, rfl⟩, rfl⟩ := h
        exact .askClient hpos hop ⟨rfl, rfl⟩
      | websocket =>
        obtain ⟨s₁, es₁, hrun, henter, hconstruct⟩ := @run_enterWebsocket site s es
        obtain ⟨s₂, es₂, hrun₂, hrelay, hconstruct₂⟩ := @run_relay s₁ es₁ res
        simp only [hop, Handler.apply_bind, hrun, Handler.apply_script, hrun₂, Handler.apply_pure,
          Except.ok.injEq, Prod.mk.injEq] at h
        obtain ⟨⟨rfl, rfl⟩, rfl⟩ := h
        exact .websocket hpos hop henter hrelay (hconstruct₂.trans hconstruct)
  | callStarted id => cases h
  | timeout id => cases h
  | ioUringResult r => cases h
  | wakeup id => cases h

end ReverseProxyServer

end LocalSoftware.ReverseProxy
