import LocalSoftware.AioLanding.LandingServer
import LocalSoftware.Common.ParseOutcome
import LocalSoftware.Library.Transition

/-!
# The requests that are passed on

`AioLandingHTTP` takes the message of the parser when the read is reported as done and passes it to
its manager, whatever the parser reported. `step_passed_iff` shows, for every stream of bytes in every
segmentation, that an event passes on complete messages only exactly if it is no read on which the
parser fails.
-/

set_option autoImplicit false

namespace LocalSoftware.AioLanding.Connection

open Http

variable {B : Beast} {site : Site} {c c' : Connection B} {code : Int}

/-- The state in which an event of the socket reaches the HTTP object. -/
def arrived (c : Connection B) : SocketEvent → Connection B
  | .received chunk => { c with
      pending := c.pending.tail
      http := { c.http with buffer := c.http.buffer.fill chunk } }
  | .sent _ => { c with pending := c.pending.tail }

/-- The number of bytes that an event of the socket reports. -/
def reported : SocketEvent → Int
  | .received chunk => chunk.length
  | .sent n => n

theorem step_eq (c : Connection B) (e : SocketEvent) :
    c.step site e = (c.arrived e).httpEvent site (reported e) := by
  cases e <;> rfl

/-- What the parser returns on an event, when the server object waits for a request. -/
def parsed (c : Connection B) (e : SocketEvent) :
    Option (B.Parser × FlatBuffer × Option ParseError) :=
  if c.server.opRead ∧ 0 < reported e then (c.arrived e).http.outcome (reported e) else none

/-- The step from `c` to `c'` passes on complete messages only, and what it adds to the response is
the manager's answer to such a message. -/
def PassesComplete (site : Site) (c : Connection B) (e : SocketEvent) (c' : Connection B) : Prop :=
  (∀ req, c'.server.handled = c.server.handled ++ [req] →
    ∃ x, c.parsed e = some x ∧ ReadWriteHttp.Parsed x ∧ req = B.get x.1) ∧
    (c'.http.writeBuffer.data <:+ c.http.writeBuffer.data ∨
      ∃ req res, c'.server.handled = c.server.handled ++ [req] ∧
        (site.httpManager.handleRequest site.fs req).2 = .ok res ∧
        c'.http.writeBuffer.data = c.http.writeBuffer.data ++ B.serialize res)

/-- The server object waits for a request exactly when the HTTP object reads one. -/
def InStep (c : Connection B) : Prop := c.server.opRead = c.http.readOp

theorem callHttp_writeHttp_eq {res : Response} (h : c.callHttp (.writeHttp res) = .ok c') :
    c'.server = c.server ∧ c'.http.readOp = false ∧
      c'.http.writeBuffer.data = c.http.writeBuffer.data ++ B.serialize res := by
  unfold callHttp at h
  simp only at h
  split at h
  · cases h
  · rename_i http es hrun
    obtain rfl := Except.ok.inj h
    exact ⟨rfl, ReadWriteHttp.writeHttp_eq hrun⟩

theorem callHttp_readHttp_eq (h : c.callHttp .readHttp = .ok c') :
    c'.server = c.server ∧ c'.http.readOp = true ∧ c'.http.writeBuffer = c.http.writeBuffer := by
  unfold callHttp at h
  simp only at h
  split at h
  · cases h
  · rename_i http es hrun
    obtain rfl := Except.ok.inj h
    exact ⟨rfl, ReadWriteHttp.readHttp_eq hrun⟩

/-- The message that is taken is that of the parser. -/
theorem peer_eq {id : Id} {req : Request} (h : c.peer id = some (some req)) :
    ∃ p, c.http.parser = some p ∧ B.get p = req := by
  unfold peer at h
  split at h
  · exact Option.map_eq_some_iff.1 (Option.some.inj h)
  · cases h

/-- What the server object does with a completion of the HTTP object: it ends, passes on the message
of the parser, or asks for the next request. -/
theorem onYield_cases {s s' : AioLandingHttp} {es es' : EventState AioLandingHttp.vocabulary}
    {y : Yielded} (h : (s.onYield site c.peer (completion code)).run es = .ok ((y, s'), es')) :
    (code ≤ 0 ∧ s' = s ∧ es'.function = es.function) ∨
    (0 < code ∧ s.opRead = true ∧ ∃ p res, c.http.parser = some p ∧
      (site.httpManager.handleRequest site.fs (B.get p)).2 = .ok res ∧
      s' = { s with opRead := false, handled := s.handled ++ [B.get p] } ∧
      es'.function.map (·.fn) = es.function.map (·.fn) ++ [.writeHttp res]) ∨
    (0 < code ∧ s.opRead = false ∧ s'.opRead = true ∧ s'.handled = s.handled ∧
      es'.function.map (·.fn) = es.function.map (·.fn) ++ [.readHttp]) := by
  unfold completion AioLandingHttp.onYield at h
  simp only at h
  split at h
  · rename_i hneg
    obtain ⟨hr, rfl⟩ := Prod.mk.inj (Except.ok.inj h)
    exact Or.inl ⟨hneg, (Prod.mk.inj hr).2.symm, rfl⟩
  · rename_i hneg
    have hpos : 0 < code := Int.not_le.1 hneg
    split at h
    · rename_i hop
      -- a request: the timer is stopped, and the response is written
      obtain ⟨_, es₁, hstop, h⟩ := Script.run_bind_ok h
      obtain ⟨-, rfl⟩ := Prod.mk.inj (Except.ok.inj hstop)
      obtain ⟨req, es₂, haccess, h⟩ := Script.run_bind_ok h
      obtain ⟨rfl, info, -, hpeer⟩ := Script.run_directAccess_ok haccess
      obtain ⟨p, hp, rfl⟩ := peer_eq hpeer
      obtain ⟨s₁, es₃, hrequest, h⟩ := Script.run_bind_ok h
      obtain ⟨hr, rfl⟩ := Prod.mk.inj (Except.ok.inj h)
      obtain ⟨-, rfl⟩ := Prod.mk.inj hr
      obtain ⟨res, es₄, hres, hrequest⟩ := Script.run_bind_ok hrequest
      obtain ⟨hres, rfl⟩ := Script.run_ofExcept_ok hres
      obtain ⟨l, es₅, hcall, hrequest⟩ := Script.run_bind_ok hrequest
      obtain ⟨rfl, rfl⟩ := Prod.mk.inj (Except.ok.inj hrequest)
      rw [Script.run_c] at hcall
      obtain ⟨-, rfl⟩ := Prod.mk.inj (EventState.call_eq_ok hcall)
      exact Or.inr (Or.inl ⟨hpos, hop, p, res, hp, hres, rfl, List.map_append⟩)
    · rename_i hop
      -- the response is written: the timer is started, and the next request read
      obtain ⟨timer, es₁, hstart, h⟩ := Script.run_bind_ok h
      obtain ⟨-, rfl⟩ := Prod.mk.inj (Except.ok.inj hstart)
      obtain ⟨s₁, es₂, hresponse, h⟩ := Script.run_bind_ok h
      obtain ⟨hr, rfl⟩ := Prod.mk.inj (Except.ok.inj h)
      obtain ⟨-, rfl⟩ := Prod.mk.inj hr
      obtain ⟨l, es₃, hcall, hresponse⟩ := Script.run_bind_ok hresponse
      obtain ⟨rfl, rfl⟩ := Prod.mk.inj (Except.ok.inj hresponse)
      rw [Script.run_c] at hcall
      obtain ⟨-, rfl⟩ := Prod.mk.inj (EventState.call_eq_ok hcall)
      exact Or.inr (Or.inr ⟨hpos, by simpa using hop, rfl, rfl, List.map_append⟩)

/-- The calls that a handler queued, when it made one. -/
theorem eq_singleton {V : Vocabulary} {calls : List (EventQueuedFunction V)} {fn : V.FunctionFunc}
    (h : calls.map (·.fn) = [fn]) : ∃ q, calls = [q] ∧ q.fn = fn := by
  obtain ⟨q, rfl, hq⟩ := List.map_eq_singleton_iff.1 h
  exact ⟨q, rfl, hq⟩

/-- A completion reaches the server object: nothing changes, the message of the parser is passed on
and answered, or the next request is read. -/
theorem serverEvent_cases (h : c.serverEvent site code = .ok c') :
    (code ≤ 0 ∧ c'.server = c.server ∧ c'.http = c.http) ∨
    (0 < code ∧ c.server.opRead = true ∧ c'.server.opRead = false ∧ c'.http.readOp = false ∧
      ∃ p res, c.http.parser = some p ∧ c'.server.handled = c.server.handled ++ [B.get p] ∧
        (site.httpManager.handleRequest site.fs (B.get p)).2 = .ok res ∧
        c'.http.writeBuffer.data = c.http.writeBuffer.data ++ B.serialize res) ∨
    (0 < code ∧ c.server.opRead = false ∧ c'.server.opRead = true ∧ c'.http.readOp = true ∧
      c'.server.handled = c.server.handled ∧ c'.http.writeBuffer = c.http.writeBuffer) := by
  unfold serverEvent at h
  split at h
  · cases h
  · rename_i y server es hrun
    rcases onYield_cases hrun with ⟨hneg, rfl, hcalls⟩ |
      ⟨hpos, hop, p, res, hp, hres, rfl, hcalls⟩ | ⟨hpos, hop, hop', hhandled, hcalls⟩
    · have hnot : ¬ (0 : Int) < code := Int.not_lt.2 hneg
      simp only [hcalls, hnot, and_false, if_false] at h
      obtain rfl := Except.ok.inj h
      exact Or.inl ⟨hneg, rfl, rfl⟩
    · obtain ⟨q, hq, hfn⟩ := eq_singleton hcalls
      simp only [hq, hop, hpos, true_and, if_true, List.foldlM_cons, List.foldlM_nil, bind_pure,
        hfn] at h
      obtain ⟨hserver, hreadOp, hdata⟩ := callHttp_writeHttp_eq h
      rw [hserver]
      exact Or.inr (Or.inl ⟨hpos, hop, rfl, hreadOp, p, res, hp, rfl, hres, hdata⟩)
    · obtain ⟨q, hq, hfn⟩ := eq_singleton hcalls
      simp only [hq, hop, Bool.false_eq_true, false_and, if_false, List.foldlM_cons,
        List.foldlM_nil, bind_pure, hfn] at h
      obtain ⟨hserver, hreadOp, hdata⟩ := callHttp_readHttp_eq h
      rw [hserver]
      exact Or.inr (Or.inr ⟨hpos, hop, hop', hreadOp, hhandled, hdata⟩)

/-- A completed read: more is read, or the message of the parser is passed on and answered. -/
theorem httpEvent_read (hin : InStep c) (hop : c.http.readOp = true) (hpos : 0 < code)
    (h : c.httpEvent site code = .ok c') :
    InStep c' ∧ ∃ x, c.http.outcome code = some x ∧
      ((c'.server.handled = c.server.handled ∧ ¬ ReadWriteHttp.Failed x ∧
        c'.http.writeBuffer.data <:+ c.http.writeBuffer.data) ∨
      ((ReadWriteHttp.Failed x ∨ ReadWriteHttp.Parsed x) ∧
        ∃ res, c'.server.handled = c.server.handled ++ [B.get x.1] ∧
          (site.httpManager.handleRequest site.fs (B.get x.1)).2 = .ok res ∧
          c'.http.writeBuffer.data = c.http.writeBuffer.data ++ B.serialize res)) := by
  have hserver : c.server.opRead = true := hin.trans hop
  unfold httpEvent completion at h
  split at h
  · cases h
  · rename_i y http es hrun
    obtain ⟨x, hx, hop', hbuffer, ⟨rfl, hok⟩ | ⟨rfl, hdone, hparser⟩⟩ :=
      ReadWriteHttp.read_cases hop hpos hrun
    · obtain rfl := Except.ok.inj h
      exact ⟨hserver.trans hop'.symm, x, hx, Or.inl ⟨rfl, hok, by rw [hbuffer]⟩⟩
    · rcases serverEvent_cases h with ⟨hneg, -⟩ |
        ⟨-, -, hop₁, hop₂, p, res, hp, hhandled, hres, hdata⟩ | ⟨-, hop₁, -⟩
      · exact absurd hneg (by decide)
      · obtain rfl : x.1 = p := Option.some.inj (hparser.symm.trans hp)
        refine ⟨hop₁.trans hop₂.symm, x, hx, Or.inr ⟨hdone, res, hhandled, hres, ?_⟩⟩
        rw [hdata, hbuffer]
      · exact absurd (hserver.symm.trans hop₁) (by decide)

/-- A completed write, or an event that ends the task, passes nothing on. -/
theorem httpEvent_write (hin : InStep c) (hop : c.http.readOp = false ∨ code ≤ 0)
    (h : c.httpEvent site code = .ok c') :
    InStep c' ∧ c'.server.handled = c.server.handled ∧
      c'.http.writeBuffer.data <:+ c.http.writeBuffer.data := by
  unfold httpEvent completion at h
  split at h
  · cases h
  · rename_i y http es hrun
    obtain ⟨hop', hsuffix, -, hcontinues⟩ := ReadWriteHttp.write_cases hop hrun
    have hin' : c.server.opRead = http.readOp := hin.trans hop'.symm
    cases y with
    | none =>
      obtain rfl := Except.ok.inj h
      exact ⟨hin', rfl, hsuffix⟩
    | some r =>
      obtain ⟨failure, code'⟩ := r
      rcases serverEvent_cases h with ⟨-, hsame, hhttp⟩ | ⟨hpos, hop₁, -⟩ |
        ⟨-, -, hop₁, hop₂, hhandled, hdata⟩
      · unfold InStep
        rw [hsame, hhttp]
        exact ⟨hin', rfl, hsuffix⟩
      · have hwriting := (hcontinues _ rfl hpos).2
        exact absurd ((hin.symm.trans hop₁).symm.trans hwriting) (by decide)
      · refine ⟨hop₁.trans hop₂.symm, hhandled, ?_⟩
        rw [hdata]
        exact hsuffix

/-- One event of the socket: nothing is passed on, and the parser did not fail on a request; or the
message of the parser is passed on and answered. -/
theorem step_cases (hin : InStep c) {e : SocketEvent} (h : c.step site e = .ok c') :
    InStep c' ∧
      ((c'.server.handled = c.server.handled ∧ (∀ x, c.parsed e = some x → ¬ ReadWriteHttp.Failed x) ∧
        c'.http.writeBuffer.data <:+ c.http.writeBuffer.data) ∨
      ∃ x res, c.parsed e = some x ∧ (ReadWriteHttp.Failed x ∨ ReadWriteHttp.Parsed x) ∧
        c'.server.handled = c.server.handled ++ [B.get x.1] ∧
        (site.httpManager.handleRequest site.fs (B.get x.1)).2 = .ok res ∧
        c'.http.writeBuffer.data = c.http.writeBuffer.data ++ B.serialize res) := by
  have hserver : (c.arrived e).server = c.server := by cases e <;> rfl
  have hreadOp : (c.arrived e).http.readOp = c.http.readOp := by cases e <;> rfl
  have hwrite : (c.arrived e).http.writeBuffer = c.http.writeBuffer := by cases e <;> rfl
  have hin' : InStep (c.arrived e) := by
    unfold InStep
    rw [hserver, hreadOp]
    exact hin
  rw [step_eq] at h
  unfold parsed
  by_cases hread : c.server.opRead = true ∧ 0 < reported e
  · rw [if_pos hread, ← hserver, ← hwrite]
    obtain ⟨hin₁, x, hx, ⟨hsame, hok, hsuffix⟩ | ⟨hdone, res, hhandled, hres, hdata⟩⟩ :=
      httpEvent_read hin' (hreadOp.trans (hin.symm.trans hread.1)) hread.2 h
    · refine ⟨hin₁, Or.inl ⟨hsame, fun x' hx' => ?_, hsuffix⟩⟩
      obtain rfl := Option.some.inj (hx.symm.trans hx')
      exact hok
    · exact ⟨hin₁, Or.inr ⟨x, res, hx, hdone, hhandled, hres, hdata⟩⟩
  · rw [if_neg hread, ← hserver, ← hwrite]
    have hwriting : (c.arrived e).http.readOp = false ∨ reported e ≤ 0 := by
      rw [hreadOp, ← hin]
      by_cases hop : c.server.opRead = true
      · exact Or.inr (Int.not_lt.1 fun hpos => hread ⟨hop, hpos⟩)
      · exact Or.inl (by simpa using hop)
    obtain ⟨hin₁, hsame, hsuffix⟩ := httpEvent_write hin' hwriting h
    exact ⟨hin₁, Or.inl ⟨hsame, fun x hx => absurd hx (by simp), hsuffix⟩⟩

theorem start_inStep {tls : Bool} (h : start B tls = .ok c) : InStep c := by
  unfold start at h
  split at h
  · cases h
  · rename_i server es hrun
    have hstart : server.opRead = true ∧ es.function.map (·.fn) = [.readHttp] := by
      obtain ⟨l, es₁, hcall, hrun⟩ := Script.run_bind_ok hrun
      obtain ⟨timer, es₂, htimer, hrun⟩ := Script.run_bind_ok hrun
      obtain ⟨rfl, rfl⟩ := Prod.mk.inj (Except.ok.inj hrun)
      obtain ⟨-, rfl⟩ := Prod.mk.inj (Except.ok.inj htimer)
      rw [Script.run_c] at hcall
      obtain ⟨-, rfl⟩ := Prod.mk.inj (EventState.call_eq_ok hcall)
      exact ⟨rfl, rfl⟩
    obtain ⟨q, hq, hfn⟩ := eq_singleton hstart.2
    simp only [hq, List.foldlM_cons, List.foldlM_nil, bind_pure, hfn] at h
    obtain ⟨hserver, hreadOp, -⟩ := callHttp_readHttp_eq h
    unfold InStep
    rw [hserver, hreadOp]
    exact hstart.1

/-- An event of the socket, with the file tree that the manager finds then. -/
def run (c : Connection B) (a : Site × SocketEvent) : Except Fault (Connection B) := c.step a.1 a.2

/-- Over any events of the socket, an event passes on complete messages only exactly if the parser
does not fail on a request. -/
theorem step_passed_iff {tls : Bool} {c₀ : Connection B} (hstart : start B tls = .ok c₀)
    (hreached : Reached run (fun _ _ => True) c₀ c) {e : SocketEvent} (h : c.step site e = .ok c') :
    PassesComplete site c e c' ↔ ∀ x, c.parsed e = some x → ¬ ReadWriteHttp.Failed x := by
  have hin : InStep c := hreached.invariant (start_inStep hstart)
    fun s a s' hs _ hstep => (step_cases hs hstep).1
  obtain ⟨-, ⟨hsame, hok, hsuffix⟩ | ⟨x, res, hx, hdone, hhandled, hres, hdata⟩⟩ := step_cases hin h
  · refine iff_of_true ⟨fun req hreq => ?_, Or.inl hsuffix⟩ hok
    rw [hsame] at hreq
    exact absurd hreq (by simp)
  · constructor
    · rintro ⟨hcomplete, -⟩ x' hx' hfailed
      obtain ⟨x'', hx'', hparsed, -⟩ := hcomplete _ hhandled
      obtain rfl := Option.some.inj (hx'.symm.trans hx'')
      exact hfailed.not_parsed hparsed
    · intro hok
      have hparsed := hdone.resolve_left (hok x hx)
      refine ⟨fun req hreq => ⟨x, hx, hparsed, ?_⟩, Or.inr ⟨_, res, hhandled, hres, hdata⟩⟩
      exact (List.cons.inj (List.append_cancel_left (hhandled.symm.trans hreq))).1.symm

end LocalSoftware.AioLanding.Connection
