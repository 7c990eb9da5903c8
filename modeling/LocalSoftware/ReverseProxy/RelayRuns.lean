import LocalSoftware.Library.Transition
import LocalSoftware.ReverseProxy.AuthGate
import LocalSoftware.ReverseProxy.RelayPhases

/-!
# The runs of the byte relay

What an event does to a relay in each of its phases (`Keeps`), and from it the runs. When the
`TLSSocket` drops an operation, what depended on it stops for good; otherwise the bytes of both parties
get on, and `relays_iff` says which of them arrive.
-/

set_option autoImplicit false

namespace LocalSoftware.ReverseProxy

open Http

namespace Relay

variable {B : Beast} {C : ClientBeast} {site : Site} {c c' : Relay B C}

/-! ## The connection object -/

theorem runHttp_server {task : Id} {chunk : Str}
    {x : Script ReadWriteHttp.vocabulary (Yielded × ReadWriteHttp B)}
    (h : c.runHttp task chunk x = .ok c') : c'.server = c.server := by
  unfold runHttp at h
  split at h
  · cases h
  · rw [← Except.ok.inj h]
    rfl

theorem runHttpC_server {task : Id} {chunk : Str}
    {x : Script ReadWriteHttp.vocabulary (Yielded × ReadWriteHttpC C)}
    (h : c.runHttpC task chunk x = .ok c') : c'.server = c.server := by
  unfold runHttpC at h
  split at h
  · cases h
  · rw [← Except.ok.inj h]
    rfl

/-- A call of the connection object does not change the object. -/
theorem exec_server {q : EventQueuedFunction vocabulary} (h : c.exec q = .ok c') :
    c'.server = c.server := by
  unfold exec at h
  split at h
  · exact runHttp_server h
  · exact runHttp_server h
  · exact runHttpC_server h
  · exact runHttpC_server h
  · rw [← Except.ok.inj h]
  · rw [← Except.ok.inj h]
  · cases h

/-- The parser that `get_data` takes does not matter to the bytes. -/
theorem Calm.takeParser (h : c.Calm c.buffered) : c.takeParser.Calm c.takeParser.buffered := by
  unfold Relay.takeParser
  split
  · exact ⟨fun side => by cases side <;> exact h.acct _, h.relayed, h.reads, h.httpTask, h.httpCTask⟩
  · exact ⟨fun side => by cases side <;> exact h.acct _, h.relayed, h.reads, h.httpTask, h.httpCTask⟩
  · exact h

/-- A new connection to the internal peer has no bytes yet. -/
theorem Calm.connect (h : c.Calm c.buffered) : c.connect.Calm c.connect.buffered := by
  refine ⟨fun side => ?_, fun side => ?_, h.reads, h.httpTask, h.httpCTask⟩
  · cases side with
    | client => exact h.acct .client
    | peer => rfl
  · cases side with
    | client => exact h.relayed .client
    | peer => rfl

/-- The objects before the calls of a handler are carried out. -/
def prepared (c : Relay B C) (constructs : Bool) : Relay B C :=
  if constructs then c.takeParser else c.takeParser.connect

section Deliver

variable {w : World} {task : Id} {rc : Int} {s' : ReverseProxyServer} {d : IoUringData vocabulary}

theorem takeParser_pending : c.takeParser.pending = c.pending := by
  unfold takeParser
  split <;> rfl

theorem prepared_pending (b : Bool) : (c.prepared b).pending = c.pending := by
  unfold prepared
  split
  · exact takeParser_pending
  · exact takeParser_pending

/-- The phase of HTTP messages goes on with another state of the connection object. -/
theorem Calm.prepared (h : c.Calm c.buffered) (b : Bool)
    (hreads : ∀ side, s'.loopReads side = true) (hd : c.data.localProcId ≤ d.localProcId) :
    ({ c.prepared b with server := s', data := d } : Relay B C).Calm
      ({ c.prepared b with server := s', data := d } : Relay B C).buffered := by
  have hcalm : (c.prepared b).Calm (c.prepared b).buffered := by
    unfold Relay.prepared
    split
    · exact h.takeParser
    · exact h.takeParser.connect
  have hdata : (c.prepared b).data = c.data := by
    unfold Relay.prepared Relay.takeParser
    split
    · split <;> rfl
    · split <;> rfl
  refine ⟨hcalm.acct, hcalm.relayed, hreads, fun k hk => ?_, fun k hk => ?_⟩
  · exact Nat.lt_of_lt_of_le (hdata ▸ hcalm.httpTask k hk) hd
  · exact Nat.lt_of_lt_of_le (hdata ▸ hcalm.httpCTask k hk) hd

/-- A handler has queued one call for an HTTP object. -/
theorem inv_of_exec (hserial : Serializes B C) (h : c.Calm c.buffered) (hpending : c.pending = [])
    {b : Bool}
    {idx : ChildType} {fn : ChildCall} {es' : EventState vocabulary}
    (hcalls : Calls idx fn ({ uringData := c.data } : EventState vocabulary) es')
    (hexec : es'.function.foldlM exec ({ c.prepared b with server := s', data := es'.uringData } :
      Relay B C) = .ok c')
    (he : s'.eRead = c.server.eRead) (hi : s'.iRead = c.server.iRead)
    (hidx : idx = .readWriteHttp ∨ idx = .readWriteHttpC)
    (hop : s'.nextOp = .websocket →
      s'.checkWebsocket = true ∧ idx = .readWriteHttp ∧ ∃ res, fn = .writeHttp res) :
    ¬ c'.Relaying ∧ c'.HttpInv := by
  have hfun : es'.function = [{ idx, vidx := 0, localId := some c.data.localProcId, fn }] :=
    hcalls.function
  have hid : es'.uringData.localProcId = c.data.localProcId + 1 := hcalls.localProcId
  -- the handler leaves the two flags as they were constructed
  have hreads : ∀ side, s'.loopReads side = true := by
    intro side
    cases side with
    | client => exact he.trans (h.reads .client)
    | peer => exact hi.trans (h.reads .peer)
  rw [hfun] at hexec
  simp only [List.foldlM_cons, List.foldlM_nil, bind_pure] at hexec
  have hd : c.data.localProcId ≤ es'.uringData.localProcId := by
    rw [hid]
    exact Nat.le_succ _
  have hcalm := h.prepared b hreads hd
  have hserver : c'.server = s' := exec_server hexec
  refine ⟨fun hrel => ?_, exec_inv hserial hexec hcalm ((prepared_pending b).trans hpending)
    (fun k hk => ?_) hidx fun hsocket => (hop hsocket).2⟩
  · obtain ⟨hnext, hfalse⟩ := hrel
    rw [hserver] at hnext hfalse
    exact Bool.false_ne_true (hfalse.symm.trans (hop hnext).1)
  · show k < es'.uringData.localProcId
    rw [hid, ← Option.some.inj hk]
    exact Nat.lt_succ_self _

/-- The relay begins with a read from each party. -/
theorem relayInv_of_begin (h : c.Calm c.buffered) (hpending : c.pending = [])
    {s₁ : ReverseProxyServer} {es₁ es' : EventState vocabulary}
    (hcheck : c.server.checkWebsocket = true)
    (htask : ∀ k, task = some k → k < c.data.localProcId)
    (henter : ReverseProxyServer.Entered c.server { uringData := c.data } s₁ es₁)
    (hrelay : ReverseProxyServer.Relayed s₁ (completion task rc) es₁ s' es')
    (hexec : es'.function.foldlM exec ({ c with server := s', data := es'.uringData } :
      Relay B C) = .ok c') :
    (∃ p, c'.RelayInv p ∧ ∀ side, (p side).isSome) ∧ c'.buffered = c.buffered ∧ c'.server = s' ∧
      s'.checkWebsocket = false ∧ s'.nextOp = c.server.nextOp := by
  cases henter with
  -- `check_websocket_` is still set, so the two reads are started here
  | later hfalse => exact absurd (hfalse.symm.trans hcheck) Bool.false_ne_true
  | @first es₀ es₂ _ _ hmove he hi =>
    have hzero : es₀.uringData.localProcId = c.data.localProcId := hmove.localProcId
    have hone : es₂.uringData.localProcId = c.data.localProcId + 1 := by
      rw [he.localProcId, hzero]
    have htwo : es₁.uringData.localProcId = c.data.localProcId + 2 := by
      rw [hi.localProcId, hone]
    -- the completion that is handled belongs to an older task than the two new ones
    have hold : ∀ k, c.data.localProcId ≤ k → task ≠ some k := fun k hk heq =>
      absurd (htask k heq) (Nat.not_lt.mpr hk)
    have hefirst : (completion task rc).taskId ≠ some es₀.uringData.localProcId :=
      hold _ (Nat.le_of_eq hzero.symm)
    have hifirst : (completion task rc).taskId ≠ some es₂.uringData.localProcId :=
      hold _ (by rw [hone]; exact Nat.le_succ _)
    have hfun : es₁.function = [⟨.tlsSocket, 0, some c.data.localProcId, .read .eBuf sizeofBuf false⟩,
        ⟨.readWriteBytes, 0, some (c.data.localProcId + 1), .read .iBuf sizeofBuf false⟩] := by
      rw [hi.function, he.function, hmove.function, hzero, hone]
      rfl
    -- so it is none of theirs, and is ignored
    cases hrelay with
    | writeToPeer htask' _ _ => exact absurd htask' hefirst
    | readFromClient htask' _ _ => exact absurd htask' hefirst
    | writeToClient _ htask' _ _ => exact absurd htask' hifirst
    | readFromPeer _ htask' _ _ => exact absurd htask' hifirst
    | ignored _ _ =>
      rw [hfun] at hexec
      obtain rfl := Except.ok.inj hexec
      refine ⟨⟨Function.update (fun _ => some (.server .client (some c.data.localProcId)
        (.read .eBuf sizeofBuf false))) .peer (some (.server .peer (some (c.data.localProcId + 1))
          (.read .iBuf sizeofBuf false))), ?_, fun side => by cases side <;> rfl⟩, rfl, rfl, rfl, rfl⟩
      rw [hzero, hone]
      have hne : (some c.data.localProcId : Id) ≠ some (c.data.localProcId + 1) := fun heq =>
        absurd (Option.some.inj heq) (Nat.ne_of_lt (Nat.lt_succ_self _))
      have hpend : c.pending ++ [Pending.server .client (some c.data.localProcId)
            (.read .eBuf sizeofBuf false)] ++
          [Pending.server .peer (some (c.data.localProcId + 1)) (.read .iBuf sizeofBuf false)] =
          [.server .client (some c.data.localProcId) (.read .eBuf sizeofBuf false),
            .server .peer (some (c.data.localProcId + 1)) (.read .iBuf sizeofBuf false)] := by
        rw [hpending]
        rfl
      refine relayInv_of_advance hpend ?_ ?_ (fun side => ?_) hne ?_ ?_
      · rintro x ⟨⟩
        exact .reading (h.reads .peer)
      · rintro x ⟨⟩
        exact .reading (h.reads .client)
      · cases side with
        | client => exact ⟨_, rfl, by rw [htwo]; exact Nat.lt_add_of_pos_right (by decide)⟩
        | peer => exact ⟨_, rfl, by rw [htwo]; exact Nat.lt_succ_self _⟩
      · rintro x ⟨⟩
        have hacct := h.acct .peer
        unfold Accounts
        show _ = _ ++ _ ++ (c.streams .peer).relayed ++ [] ++ _
        rw [h.relayed .peer, List.append_nil, List.append_nil]
        exact hacct
      · rintro x ⟨⟩
        have hacct := h.acct .client
        unfold Accounts
        show _ = _ ++ _ ++ (c.streams .client).relayed ++ [] ++ _
        rw [h.relayed .client, List.append_nil, List.append_nil]
        exact hacct

/-- In the phase of HTTP messages both directions depend on the one thing that is under way. -/
theorem HttpInv.running (h : c.HttpInv) (hrelay : ¬ c.Relaying) (side : Side) : c.Running side := by
  obtain ⟨p, hpending, -⟩ := h.single
  have hcarries : c.Carries side p := fun hrel => absurd hrel hrelay
  unfold Running
  rw [hpending]
  simp [hcarries]

/-- A completion reaches the connection object before the relay has begun. What the parsers have left
in the buffers stays there when the state is `websocket`. -/
theorem deliver_http (hserial : Serializes B C) (h : c.Calm c.buffered) (hpending : c.pending = [])
    (hrelay : ¬ c.Relaying) (htask : ∀ k, task = some k → k < c.data.localProcId)
    (hd : deliver site c w task rc = .ok (some c')) :
    (c'.Inv ∧ ∀ side, c'.Running side) ∧ (c.server.nextOp = .websocket →
      c'.server.nextOp = .websocket ∧ c'.buffered = c.buffered) := by
  unfold deliver at hd
  split at hd
  · cases hd
  · cases hd
  · rename_i s' es' hrun
    cases hexec : es'.function.foldlM exec
        ({ c.prepared es'.construct.isEmpty with server := s', data := es'.uringData } :
          Relay B C) with
    | error e =>
      change (es'.function.foldlM exec ({ c.prepared es'.construct.isEmpty with
        server := s', data := es'.uringData } : Relay B C)).map some = _ at hd
      rw [hexec] at hd
      cases hd
    | ok c₁ =>
      change (es'.function.foldlM exec ({ c.prepared es'.construct.isEmpty with
        server := s', data := es'.uringData } : Relay B C)).map some = _ at hd
      rw [hexec] at hd
      obtain rfl := Option.some.inj (Except.ok.inj hd)
      obtain ⟨res, hres, hcase⟩ := ReverseProxyServer.onNewData_cases hrun
      obtain rfl := EventType.childTaskCompletion.inj hres
      -- in the states before `websocket` nothing is asked about the buffers
      have hnot : ∀ {op : State}, c.server.nextOp = op → op ≠ .websocket →
          (c.server.nextOp = .websocket → c₁.server.nextOp = .websocket ∧
            c₁.buffered = c.buffered) := by
        intro op hop hne hsocket
        exact absurd (hop.symm.trans hsocket) hne
      have hhttp : ¬ c₁.Relaying ∧ c₁.HttpInv → c₁.Inv ∧ ∀ side, c₁.Running side := by
        rintro ⟨hrel, hinv⟩
        exact ⟨Or.inr ⟨hrel, Or.inl hinv⟩, hinv.running hrel⟩
      -- every branch but the last queues one call for an HTTP object
      cases hcase with
      | branch _ hop _ hbranch =>
        refine ⟨?_, hnot hop (by decide)⟩
        cases hbranch with
        | forwarded _ hkept check hs hcalls =>
          obtain ⟨connected, store, rfl⟩ := hkept
          subst hs
          exact hhttp (inv_of_exec hserial h hpending hcalls hexec rfl rfl (Or.inr rfl) fun heq => by
            cases heq)
        | answered _ hkept hs hcalls =>
          obtain ⟨connected, store, rfl⟩ := hkept
          subst hs
          exact hhttp (inv_of_exec hserial h hpending hcalls hexec rfl rfl (Or.inl rfl) fun heq => by
            cases heq)
      | askPeer _ hop hcalls =>
        refine ⟨hhttp ?_, hnot hop (by decide)⟩
        exact inv_of_exec hserial h hpending hcalls hexec rfl rfl (Or.inr rfl) fun heq => by cases heq
      | @respond resp _ _ hop _ hcalls =>
        refine ⟨hhttp ?_, hnot hop (by decide)⟩
        refine inv_of_exec hserial h hpending hcalls hexec rfl rfl (Or.inl rfl) fun heq =>
          ⟨?_, rfl, _, rfl⟩
        -- the state becomes `websocket` only after a response that switches the protocol
        by_cases hboth : c.server.checkWebsocket = true ∧ resp.status = .switchingProtocols
        · exact hboth.1
        · rw [if_neg hboth] at heq
          cases heq
      | askClient _ hop hcalls =>
        refine ⟨hhttp ?_, hnot hop (by decide)⟩
        exact inv_of_exec hserial h hpending hcalls hexec rfl rfl (Or.inl rfl) fun heq => by cases heq
      | websocket _ hop henter hrelayed hconstruct =>
        have hcheck : c.server.checkWebsocket = true := by
          cases hc : c.server.checkWebsocket with
          | true => rfl
          | false => exact absurd ⟨hop, hc⟩ hrelay
        have hempty : es'.construct.isEmpty = true := by
          rw [hconstruct]
          rfl
        have hsame : c.prepared es'.construct.isEmpty = c := by
          unfold prepared takeParser
          rw [hempty, hop]
          rfl
        rw [hsame] at hexec
        obtain ⟨⟨p, hinv, hsome⟩, hbuffered, hserver, hfalse, hnext⟩ :=
          relayInv_of_begin h hpending hcheck htask henter hrelayed hexec
        have hnow : c₁.server.nextOp = .websocket := by rw [hserver, hnext, hop]
        have hrel : c₁.Relaying := ⟨hnow, by rw [hserver, hfalse]⟩
        exact ⟨⟨Or.inl ⟨hrel, p, hinv⟩, fun side => (hinv.running_iff hrel side).mpr (hsome side)⟩,
          fun _ => ⟨hnow, hbuffered⟩⟩

end Deliver

/-! ## Events -/

theorem httpEvent_server {side : Side} {chunk : Str} {rc : Int}
    (h : c.httpEvent side chunk rc = .ok c') : c'.server = c.server := by
  cases side with
  | client => exact (runHttp_server h).trans rfl
  | peer => exact (runHttpC_server h).trans rfl

/-- An object that does not read leaves its buffer as it is. -/
theorem httpEvent_buffered {side : Side} {rc : Int} (h : c.httpEvent side [] rc = .ok c')
    (hidle : c.readOp side = false ∨ rc ≤ 0) : c'.buffered = c.buffered := by
  have hpos : ∀ {readOp : Bool}, readOp = false ∨ rc ≤ 0 → 0 < rc → ¬ readOp = true := by
    intro readOp hor hrc hread
    rcases hor with hfalse | hle
    · exact Bool.false_ne_true (hfalse.symm.trans hread)
    · exact absurd hrc (Int.not_lt.mpr hle)
  cases side with
  | client =>
    simp only [httpEvent, runHttp] at h
    split at h
    · cases h
    · rename_i y http es hrun
      obtain rfl := Except.ok.inj h
      funext side
      cases side with
      | peer => rfl
      | client =>
        show http.buffer.data = c.http.buffer.data
        -- an acknowledged write, or a failure
        by_cases hrc : 0 < rc
        · obtain ⟨-, -, k, hk⟩ :=
            ReadWriteHttp.onYield_cases (c := completion none rc) hrc hrun
          exact hk.trans (if_neg (hpos hidle hrc))
        · have hle : (completion none rc).returnCode ≤ 0 := Int.not_lt.mp hrc
          simp only [ReadWriteHttp.onYield, if_pos hle, Script.run_pure, Except.ok.injEq,
            Prod.mk.injEq] at hrun
          obtain ⟨⟨-, rfl⟩, -⟩ := hrun
          rfl
  | peer =>
    simp only [httpEvent, runHttpC] at h
    split at h
    · cases h
    · rename_i y httpC es hrun
      obtain rfl := Except.ok.inj h
      funext side
      cases side with
      | client => rfl
      | peer =>
        show httpC.buffer.data = c.httpC.buffer.data
        -- an acknowledged write, or a failure
        by_cases hrc : 0 < rc
        · obtain ⟨-, -, k, hk⟩ :=
            ReadWriteHttpC.onNewData_cases (c := completion none rc) hrc hrun
          exact hk.trans (if_neg (hpos hidle hrc))
        · have hle : (completion none rc).returnCode ≤ 0 := Int.not_lt.mp hrc
          simp only [ReadWriteHttpC.onNewData, if_pos hle, Script.run_pure, Except.ok.injEq,
            Prod.mk.injEq] at hrun
          obtain ⟨⟨-, rfl⟩, -⟩ := hrun
          rfl

/-- The one entry of a relay that has not begun. -/
theorem only_entry (h : c.HttpInv) {i : Nat} {x : Pending} (hx : c.pending[i]? = some x) :
    c.pending.eraseIdx i = [] ∧ c.Fits x ∧ c.pending = [x] := by
  obtain ⟨p, hp, hfits⟩ := h.single
  rw [hp] at hx ⊢
  cases i with
  | zero =>
    obtain rfl := Option.some.inj hx
    exact ⟨rfl, hfits, rfl⟩
  | succ i => cases hx

theorem Calm.sends {avail : Side → Str} (h : c.Calm avail) (side : Side) (bytes : Str) :
    ({ c with streams := Function.update c.streams side { c.streams side with
        sent := (c.streams side).sent ++ bytes, unread := (c.streams side).unread ++ bytes } } :
      Relay B C).Calm avail := by
  refine ⟨fun side' => ?_, fun side' => ?_, h.reads, h.httpTask, h.httpCTask⟩
  · rcases Side.eq_or_other side side' with rfl | rfl
    · simp only [Function.update_self]
      rw [h.acct side', List.append_assoc]
    · simp only [Function.update_of_ne (Side.other_ne side)]
      exact h.acct _
  · rcases Side.eq_or_other side side' with rfl | rfl
    · simp only [Function.update_self]
      exact h.relayed side'
    · simp only [Function.update_of_ne (Side.other_ne side)]
      exact h.relayed _

theorem HttpInv.sends (h : c.HttpInv) (side : Side) (bytes : Str) :
    ({ c with streams := Function.update c.streams side { c.streams side with
        sent := (c.streams side).sent ++ bytes, unread := (c.streams side).unread ++ bytes } } :
      Relay B C).HttpInv :=
  ⟨h.calm.sends side bytes, h.single, h.upgrading⟩

theorem RelayInv.sends {p : Side → Option Pending} (h : c.RelayInv p) (side : Side) (bytes : Str) :
    ({ c with streams := Function.update c.streams side { c.streams side with
        sent := (c.streams side).sent ++ bytes, unread := (c.streams side).unread ++ bytes } } :
      Relay B C).RelayInv p := by
  refine ⟨h.pending, h.loops, h.tasks, h.distinct, fun {side' x} hx => ?_⟩
  have hacct := h.accounts hx
  unfold Accounts at hacct ⊢
  rcases Side.eq_or_other side side' with rfl | rfl
  · simp only [Function.update_self]
    rw [hacct, List.append_assoc _ _ bytes]
    rfl
  · simp only [Function.update_of_ne (Side.other_ne side)]
    exact hacct

section Events

variable {side : Side} {n i : Nat} {rc : Int}

/-- A read of an HTTP object is complete. -/
theorem http_read (h : c.HttpInv) {len : Nat} {readAll : Bool}
    (hx : c.pending[i]? = some (.http side (.read len readAll))) (hn : 0 < n)
    (hlen : n ≤ (c.streams side).unread.length)
    (hevent : ({ c with pending := c.pending.eraseIdx i, streams := c.readStream side n } :
      Relay B C).httpEvent side ((c.streams side).unread.take n) n = .ok c') :
    c'.HttpInv ∧ c.server.nextOp ≠ .websocket := by
  obtain ⟨hempty, hfits, hpending⟩ := only_entry h hx
  have hread : c.readOp side = true := hfits
  -- a pending read excludes the upgrade, which leaves a write to the client only
  have hweb : c.server.nextOp ≠ .websocket := by
    intro hsocket
    obtain ⟨hop, hclient⟩ := h.upgrading hsocket
    obtain rfl := hclient side _ (hpending ▸ List.mem_singleton_self _)
    exact Bool.false_ne_true (hop.symm.trans hread)
  refine ⟨@httpEvent_inv _ _ _ _ (Function.update c.buffered side
    (c.buffered side ++ (c.streams side).unread.take n)) _ _ _ hevent ?_ hempty ?_ ?_ ?_
    fun hsocket => absurd hsocket hweb, hweb⟩
  -- the bytes move from the socket to the buffer of the parser
  · refine ⟨fun side' => ?_, fun side' => ?_, h.calm.reads, h.calm.httpTask, h.calm.httpCTask⟩
    · simp only [readStream]
      rcases Side.eq_or_other side side' with rfl | rfl
      · simp only [Function.update_self]
        rw [h.calm.acct side', List.append_assoc, List.append_assoc, List.append_assoc,
          List.take_append_drop]
      · simp only [Function.update_of_ne (Side.other_ne side)]
        exact h.calm.acct _
    · simp only [readStream]
      rcases Side.eq_or_other side side' with rfl | rfl
      · simp only [Function.update_self]
        exact h.calm.relayed side'
      · simp only [Function.update_of_ne (Side.other_ne side)]
        exact h.calm.relayed _
  · exact Function.update_self ..
  · exact Function.update_of_ne (Side.other_ne side) ..
  · refine Or.inl ⟨Int.natCast_pos.mpr hn, Or.inl ⟨hread, ?_⟩⟩
    rw [List.length_take_of_le hlen]

/-- An operation of an HTTP object has ended without bytes. -/
theorem http_other (h : c.HttpInv) {call : ReadWriteHttp.ChildCall}
    (hx : c.pending[i]? = some (.http side call))
    (hidle : c.readOp side = false ∨ rc ≤ 0)
    (hevent : ({ c with pending := c.pending.eraseIdx i } : Relay B C).httpEvent side [] rc =
      .ok c') : c'.HttpInv ∧ c'.buffered = c.buffered := by
  obtain ⟨hempty, -, hpending⟩ := only_entry h hx
  refine ⟨@httpEvent_inv _ _ _ _ c.buffered _ _ _ hevent
    ⟨h.calm.acct, h.calm.relayed, h.calm.reads, h.calm.httpTask, h.calm.httpCTask⟩ hempty
    (List.append_nil _).symm rfl ?_ fun hsocket => ?_,
    (httpEvent_buffered hevent hidle).trans rfl⟩
  · by_cases hrc : 0 < rc
    · rcases hidle with hread | hle
      · exact Or.inl ⟨hrc, Or.inr ⟨hread, rfl⟩⟩
      · exact absurd hrc (Int.not_lt.mpr hle)
    · exact Or.inr ⟨Int.not_lt.mp hrc, rfl⟩
  · obtain ⟨hop, hclient⟩ := h.upgrading hsocket
    exact ⟨hclient side _ (hpending ▸ List.mem_singleton_self _), hop⟩

end Events

/-- What an event keeps, what stays as it is once the state is `websocket`, and when the bytes of a
party still get on. -/
structure Keeps (c : Relay B C) (a : Action) (c' : Relay B C) : Prop where
  inv : c'.Inv
  stays : c.server.nextOp = .websocket → c'.server.nextOp = .websocket ∧ c'.buffered = c.buffered
  running : ∀ side, c'.Running side ↔ c.Running side ∧ c.Answered side a

/-- An event after which everything still gets on. -/
theorem Keeps.of_running {a : Action} (hinv : c'.Inv)
    (hstays : c.server.nextOp = .websocket →
      c'.server.nextOp = .websocket ∧ c'.buffered = c.buffered)
    (hrun : ∀ side, c.Running side) (hrun' : ∀ side, c'.Running side)
    (ha : ∀ side, c.Answered side a) : c.Keeps a c' :=
  ⟨hinv, hstays, fun side => iff_of_true (hrun' side) ⟨hrun side, ha side⟩⟩

/-- An event that stops a relay which has not begun. -/
theorem Keeps.of_dropped {i n : Nat} {x : Pending} (hrelay : ¬ c.Relaying)
    (hx : c.pending[i]? = some x) (hserver : c'.server = c.server) (hpending : c'.pending = [])
    (hbuffered : c'.buffered = c.buffered) : c.Keeps (.drops i n) c' := by
  have hcarries : ∀ side, c.Carries side x := fun side hrel => absurd hrel hrelay
  refine ⟨Or.inr ⟨fun hrel => hrelay ?_, Or.inr hpending⟩, fun hop => ⟨hserver ▸ hop, hbuffered⟩,
    fun side => iff_of_false ?_ fun h => h.2 x hx (hcarries side)⟩
  · unfold Relaying at hrel ⊢
    rw [hserver] at hrel
    exact hrel
  · unfold Running
    rw [hpending]
    exact Nat.zero_ne_one

/-- An event before the relay has begun. -/
theorem step_http (hserial : Serializes B C) (h : c.HttpInv) (hrelay : ¬ c.Relaying) {a : Action}
    (hp : c.Possible a) (hstep : c.step site a = .ok c') : c.Keeps a c' := by
  -- an HTTP object does not start the relay
  have hsame : ∀ {c₁ : Relay B C}, c₁.HttpInv → c₁.server = c.server →
      c₁.Inv ∧ ∀ side, c₁.Running side := by
    intro c₁ hinv hserver
    have hrel : ¬ c₁.Relaying := by
      unfold Relaying at hrelay ⊢
      rw [hserver]
      exact hrelay
    exact ⟨Or.inr ⟨hrel, Or.inl hinv⟩, hinv.running hrel⟩
  cases a with
  | sends side bytes =>
    obtain rfl := Except.ok.inj hstep
    obtain ⟨hinv, hrun⟩ := hsame (h.sends side bytes) rfl
    exact .of_running hinv (fun hop => ⟨hop, rfl⟩) (h.running hrelay) hrun fun _ => trivial
  | completes i n =>
    obtain ⟨-, hn, hfit⟩ := hp
    simp only [step] at hstep
    split at hstep
    · rename_i side len readAll hx
      rw [hx] at hfit
      obtain ⟨hinv, hweb⟩ := http_read h hx hn hfit.2 hstep
      obtain ⟨hinv, hrun⟩ := hsame hinv ((httpEvent_server hstep).trans rfl)
      exact .of_running hinv (fun hop => absurd hop hweb) (h.running hrelay) hrun fun _ => trivial
    · rename_i side data hx
      obtain ⟨-, hfits, -⟩ := only_entry h hx
      obtain ⟨hinv, hbuffered⟩ := http_other h hx (Or.inl hfits) hstep
      have hserver : c'.server = c.server := (httpEvent_server hstep).trans rfl
      obtain ⟨hinv, hrun⟩ := hsame hinv hserver
      exact .of_running hinv (fun hop => ⟨hserver ▸ hop, hbuffered⟩) (h.running hrelay) hrun
        fun _ => trivial
    -- an operation of the relay does not fit to this phase
    · rename_i side task b len readAll hx
      exact absurd (only_entry h hx).2.1 id
    · rename_i side task b len hx
      exact absurd (only_entry h hx).2.1 id
    · cases hstep
  | fails i rc =>
    obtain ⟨-, hrc⟩ := hp
    simp only [step] at hstep
    split at hstep
    · rename_i side call hx
      obtain ⟨hinv, hbuffered⟩ := http_other h hx (Or.inr hrc) hstep
      have hserver : c'.server = c.server := (httpEvent_server hstep).trans rfl
      obtain ⟨hinv, hrun⟩ := hsame hinv hserver
      exact .of_running hinv (fun hop => ⟨hserver ▸ hop, hbuffered⟩) (h.running hrelay) hrun
        fun _ => trivial
    · rename_i side task b len hx
      exact absurd (only_entry h hx).2.1 id
    · rename_i side task call hx
      exact absurd (only_entry h hx).2.1 id
    · cases hstep
  | drops i n =>
    simp only [step] at hstep
    split at hstep
    · rename_i len readAll hx
      obtain rfl := Except.ok.inj hstep
      exact .of_dropped hrelay hx rfl (only_entry h hx).1 (by funext side; cases side <;> rfl)
    · rename_i data hx
      obtain rfl := Except.ok.inj hstep
      exact .of_dropped hrelay hx rfl (only_entry h hx).1 rfl
    · rename_i task b len readAll hx
      exact absurd (only_entry h hx).2.1 id
    · rename_i task b len hx
      exact absurd (only_entry h hx).2.1 id
    · cases hstep
  | delivers i w =>
    simp only [step] at hstep
    split at hstep
    · rename_i task rc held hx
      obtain ⟨hempty, hfits, -⟩ := only_entry h hx
      split at hstep
      · cases hstep
      · obtain rfl := Except.ok.inj hstep
        have hclosed : ({ c with closed := true } : Relay B C).HttpInv := ⟨⟨h.calm.acct,
          h.calm.relayed, h.calm.reads, h.calm.httpTask, h.calm.httpCTask⟩, h.single, h.upgrading⟩
        obtain ⟨hinv, hrun⟩ := hsame hclosed rfl
        exact .of_running hinv (fun hop => ⟨hop, rfl⟩) (h.running hrelay) hrun fun _ => trivial
      · rename_i c₁ hd
        obtain rfl := Except.ok.inj hstep
        obtain ⟨⟨hinv, hrun⟩, hstays⟩ := deliver_http
          (c := { c with pending := c.pending.eraseIdx i }) hserial
          ⟨h.calm.acct, h.calm.relayed, h.calm.reads, h.calm.httpTask, h.calm.httpCTask⟩ hempty
          hrelay hfits.1 hd
        exact .of_running hinv hstays (h.running hrelay) hrun fun _ => trivial
    · cases hstep

/-- When nothing is pending, the parties can still send, and nothing else happens. -/
theorem step_stopped (hrelay : ¬ c.Relaying) (hpending : c.pending = []) {a : Action}
    (hstep : c.step site a = .ok c') : c.Keeps a c' := by
  have hnone : ∀ i : Nat, c.pending[i]? = none := fun i => by rw [hpending]; rfl
  have hstopped : ∀ side, ¬ c.Running side := by
    intro side
    unfold Running
    rw [hpending]
    exact Nat.zero_ne_one
  cases a with
  | sends side bytes =>
    obtain rfl := Except.ok.inj hstep
    exact ⟨Or.inr ⟨hrelay, Or.inr hpending⟩, fun hop => ⟨hop, rfl⟩,
      fun side => iff_of_false (hstopped side) fun h => hstopped side h.1⟩
  | completes i n =>
    simp only [step, hnone i] at hstep
    cases hstep
  | fails i rc =>
    simp only [step, hnone i] at hstep
    cases hstep
  | drops i n =>
    simp only [step, hnone i] at hstep
    cases hstep
  | delivers i w =>
    simp only [step, hnone i] at hstep
    cases hstep

theorem nextOp_fill (s : ReverseProxyServer) (chunk : Str) (b : Buffer) :
    (s.fill chunk b).nextOp = s.nextOp := by
  cases b <;> rfl

theorem checkWebsocket_fill (s : ReverseProxyServer) (chunk : Str) (b : Buffer) :
    (s.fill chunk b).checkWebsocket = s.checkWebsocket := by
  cases b <;> rfl

/-- An event of one direction that gets on. -/
theorem Keeps.of_advance {p : Side → Option Pending} {side : Side} {x x' : Pending} {a : Action}
    (h : c.RelayInv p) (hrelay : c.Relaying) (hx : p side = some x)
    (h' : c'.RelayInv (Function.update p side (some x'))) (hrelay' : c'.Relaying)
    (hbuffered : c'.buffered = c.buffered) (ha : ∀ side, c.Answered side a) : c.Keeps a c' := by
  refine ⟨Or.inl ⟨hrelay', _, h'⟩, fun _ => ⟨hrelay'.1, hbuffered⟩, fun side' => ?_⟩
  rw [h'.running_iff hrelay', h.running_iff hrelay, and_iff_left (ha side')]
  rcases Side.eq_or_other side side' with rfl | rfl
  · rw [Function.update_self, hx]
    exact iff_of_true rfl rfl
  · rw [Function.update_of_ne (Side.other_ne side)]

/-- The `TLSSocket` has dropped the operation of one direction. -/
theorem Keeps.of_stopped {p : Side → Option Pending} {side : Side} {x : Pending} {i n : Nat}
    (h : c.RelayInv p) (hrelay : c.Relaying) (hi : c.pending[i]? = some x) (hx : p side = some x)
    (h' : c'.RelayInv (Function.update p side none)) (hrelay' : c'.Relaying)
    (hbuffered : c'.buffered = c.buffered) : c.Keeps (.drops i n) c' := by
  have htask := (h.loops hx).task_eq
  refine ⟨Or.inl ⟨hrelay', _, h'⟩, fun _ => ⟨hrelay'.1, hbuffered⟩, fun side' => ?_⟩
  rw [h'.running_iff hrelay', h.running_iff hrelay]
  rcases Side.eq_or_other side side' with rfl | rfl
  · rw [Function.update_self]
    exact iff_of_false Bool.false_ne_true fun ⟨_, hanswered⟩ => hanswered x hi fun _ => htask
  -- the other direction does not depend on the operation
  · rw [Function.update_of_ne (Side.other_ne side)]
    refine (and_iff_left fun y hy hcarries => ?_).symm
    obtain rfl : x = y := Option.some.inj (hi.symm.trans hy)
    exact loopTask_other_ne h.distinct side ((hcarries hrelay).symm.trans htask)

/-- The connection object is told the end of the task of a direction. -/
theorem relay_deliver {p : Side → Option Pending} (h : c.RelayInv p) (hrelay : c.Relaying)
    {i : Nat} {side : Side} {rc : Int} {held : Nat} {w : World}
    (hx : p side = some (.report (c.server.loopTask side) rc held))
    (hstep : (match deliver site { c with pending := (p side.other).toList } w
        (c.server.loopTask side) rc with
      | .error e => .error e
      | .ok none => .ok { c with closed := true }
      | .ok (some c) => .ok c : Except Fault (Relay B C)) = .ok c') :
    c.Keeps (.delivers i w) c' := by
  split at hstep
  · cases hstep
  · obtain rfl := Except.ok.inj hstep
    have hinv : ({ c with closed := true } : Relay B C).RelayInv p :=
      ⟨h.pending, h.loops, h.tasks, h.distinct, h.accounts⟩
    refine ⟨Or.inl ⟨hrelay, p, hinv⟩, fun hop => ⟨hop, rfl⟩, fun side => ?_⟩
    rw [hinv.running_iff hrelay, h.running_iff hrelay]
    exact (and_iff_left trivial).symm
  · rename_i c₁ hd
    obtain rfl := Except.ok.inj hstep
    unfold deliver at hd
    split at hd
    · cases hd
    · cases hd
    · rename_i s' es' hrun
      obtain ⟨res, hres, hcase⟩ := ReverseProxyServer.onNewData_cases hrun
      obtain rfl := EventType.childTaskCompletion.inj hres
      have hop : c.server.nextOp = .websocket := hrelay.1
      -- in the state `websocket` only the last branch is left, and the reads were started before
      cases hcase with
      | branch _ hop' _ _ => cases hop'.symm.trans hop
      | askPeer _ hop' _ => cases hop'.symm.trans hop
      | respond _ hop' _ _ => cases hop'.symm.trans hop
      | askClient _ hop' _ => cases hop'.symm.trans hop
      | websocket hrc _ henter hrelayed hconstruct =>
        cases henter with
        | first hcheck _ _ _ => exact absurd (hrelay.2.symm.trans hcheck) Bool.false_ne_true
        | later _ =>
          obtain ⟨rfl, hcalls⟩ := relayed_loop hrelayed h.distinct rfl
          have hempty : es'.construct.isEmpty = true := by
            rw [hconstruct]
            rfl
          -- nothing is constructed, so no parser gives its buffer away
          have hsame : ∀ c₀ : Relay B C, c₀.server.nextOp = .websocket → c₀.takeParser = c₀ := by
            intro c₀ hc₀
            unfold takeParser
            rw [hc₀]
          have hfun : es'.function = [⟨if c.server.loopReads side then side.other.socket
              else side.socket, 0, some c.data.localProcId, if c.server.loopReads side then
                .write side.buffer (completion (c.server.loopTask side) rc).returnCode.toNat
                else .read side.buffer sizeofBuf false⟩] := hcalls.function
          rw [hempty, if_pos rfl, hsame { c with pending := (p side.other).toList } hop, hfun] at hd
          have hinv := relay_delivered h hrc hx (d := es'.uringData) hcalls.localProcId
          have hnext := (@nextOp_setLoop side c.server (some c.data.localProcId)
            (!c.server.loopReads side)).trans hop
          have hcheck := (@checkWebsocket_setLoop side c.server (some c.data.localProcId)
            (!c.server.loopReads side)).trans hrelay.2
          cases hreads : c.server.loopReads side with
          | true =>
            rw [hreads] at hd hinv hnext hcheck
            simp only [if_true, List.foldlM_cons, exec_socket] at hd
            obtain rfl := Option.some.inj (Except.ok.inj hd)
            exact .of_advance h hrelay hx hinv ⟨hnext, hcheck⟩ rfl fun _ => trivial
          | false =>
            rw [hreads] at hd hinv hnext hcheck
            simp only [Bool.false_eq_true, if_false, List.foldlM_cons, exec_socket] at hd
            obtain rfl := Option.some.inj (Except.ok.inj hd)
            exact .of_advance h hrelay hx hinv ⟨hnext, hcheck⟩ rfl fun _ => trivial

/-- The `TLSSocket` drops an operation of the relay. -/
theorem relay_dropped {p : Side → Option Pending} (h : c.RelayInv p) (hrelay : c.Relaying)
    {i n : Nat} {side : Side} {x : Pending} (hi : c.pending[i]? = some x) (hx : p side = some x)
    (herase : c.pending.eraseIdx i = (p side.other).toList)
    (hstep : c.step site (.drops i n) = .ok c') : c.Keeps (.drops i n) c' := by
  have hloop := h.loops hx
  simp only [step, hi, herase] at hstep
  cases hloop with
  -- a read of the client's socket
  | reading hreads =>
    cases side with
    | peer => cases hstep
    | client =>
      obtain rfl := Except.ok.inj hstep
      have hinv := h.moves .client n none (fun _ hnone => by cases hnone) fun _ hnone => by
        cases hnone
      rw [show (none : Option Pending).toList = [] from rfl, List.append_nil] at hinv
      refine .of_stopped h hrelay hi hx hinv ⟨?_, ?_⟩ rfl
      · exact (nextOp_fill ..).trans hrelay.1
      · exact (checkWebsocket_fill ..).trans hrelay.2
  -- a write to it
  | writing hreads len =>
    cases side with
    | client => cases hstep
    | peer =>
      obtain rfl := Except.ok.inj hstep
      have hinv := h.writes .peer n none (fun _ hnone => by cases hnone) fun _ hnone => by
        cases hnone
      rw [show (none : Option Pending).toList = [] from rfl, List.append_nil] at hinv
      exact .of_stopped h hrelay hi hx hinv hrelay rfl
  | hasRead _ _ _ _ => cases hstep
  | written _ _ _ _ => cases hstep

/-- An event of the relay. -/
theorem step_relay {p : Side → Option Pending} (h : c.RelayInv p) (hrelay : c.Relaying) {a : Action}
    (hp : c.Possible a) (hstep : c.step site a = .ok c') : c.Keeps a c' := by
  cases a with
  | sends side bytes =>
    obtain rfl := Except.ok.inj hstep
    have hinv := h.sends side bytes
    refine ⟨Or.inl ⟨hrelay, p, hinv⟩, fun hop => ⟨hop, rfl⟩, fun side => ?_⟩
    rw [hinv.running_iff hrelay, h.running_iff hrelay]
    exact (and_iff_left trivial).symm
  | completes i n =>
    obtain ⟨-, hn, hfit⟩ := hp
    cases hi : c.pending[i]? with
    | none =>
      simp only [step, hi] at hstep
      cases hstep
    | some x =>
      obtain ⟨side, hx, herase⟩ := h.pick hi
      simp only [step, hi, herase] at hstep
      rw [hi] at hfit
      cases h.loops hx with
      | reading hreads =>
        obtain rfl := Except.ok.inj hstep
        refine .of_advance h hrelay hx (relay_read h hreads hx hfit.2) ⟨?_, ?_⟩ rfl fun _ => trivial
        · exact (nextOp_fill ..).trans hrelay.1
        · exact (checkWebsocket_fill ..).trans hrelay.2
      | hasRead _ _ _ _ => cases hstep
      -- a socket reports a write only when all of its bytes were sent
      | writing hreads len =>
        obtain rfl : n = len := hfit
        obtain rfl := Except.ok.inj hstep
        rw [Side.other_other]
        exact .of_advance h hrelay hx (relay_written h hreads hx) hrelay rfl fun _ => trivial
      | written _ _ _ _ => cases hstep
  | fails i rc =>
    obtain ⟨-, hrc⟩ := hp
    cases hi : c.pending[i]? with
    | none =>
      simp only [step, hi] at hstep
      cases hstep
    | some x =>
      obtain ⟨side, hx, herase⟩ := h.pick hi
      simp only [step, hi, herase] at hstep
      cases h.loops hx with
      | reading hreads =>
        obtain rfl := Except.ok.inj hstep
        exact .of_advance h hrelay hx (relay_failed h hx hrc rfl) hrelay rfl fun _ => trivial
      | hasRead _ _ _ _ => cases hstep
      | writing hreads len =>
        obtain rfl := Except.ok.inj hstep
        exact .of_advance h hrelay hx (relay_failed h hx hrc (if_pos rfl).symm) hrelay rfl
          fun _ => trivial
      | written _ _ _ _ => cases hstep
  | drops i n =>
    cases hi : c.pending[i]? with
    | none =>
      simp only [step, hi] at hstep
      cases hstep
    | some x =>
      obtain ⟨side, hx, herase⟩ := h.pick hi
      exact relay_dropped h hrelay hi hx herase hstep
  | delivers i w =>
    cases hi : c.pending[i]? with
    | none =>
      simp only [step, hi] at hstep
      cases hstep
    | some x =>
      obtain ⟨side, hx, herase⟩ := h.pick hi
      simp only [step, hi, herase] at hstep
      cases h.loops hx with
      | reading _ => cases hstep
      | writing _ _ => cases hstep
      | hasRead _ rc held _ => exact relay_deliver h hrelay hx hstep
      | written _ rc held _ => exact relay_deliver h hrelay hx hstep

/-! ## Runs -/

theorem constructed_calm (store : AuthdUuids) :
    (constructed store : Relay B C).Calm (constructed store : Relay B C).buffered := by
  refine ⟨fun side => ?_, fun _ => rfl, fun side => ?_, fun _ hk => ?_, fun _ hk => ?_⟩
  · cases side <;> rfl
  · cases side <;> rfl
  · cases hk
  · cases hk

theorem start_inv (hserial : Serializes B C) {store : AuthdUuids} (hstart : start store = .ok c) :
    c.Inv ∧ ∀ side, c.Running side := by
  obtain ⟨hrelay, hinv⟩ := inv_of_exec (c := (constructed store : Relay B C)) (b := true) hserial
    (constructed_calm store) rfl ⟨rfl, rfl⟩ hstart rfl rfl (Or.inl rfl) fun heq => by cases heq
  exact ⟨Or.inr ⟨hrelay, Or.inl hinv⟩, hinv.running hrelay⟩

theorem step_keeps (hserial : Serializes B C) (h : c.Inv) {a : Action} (hp : c.Possible a)
    (hstep : c.step site a = .ok c') : c.Keeps a c' := by
  rcases h with ⟨hrelay, p, hinv⟩ | ⟨hrelay, hinv | hpending⟩
  · exact step_relay hinv hrelay hp hstep
  · exact step_http hserial hinv hrelay hp hstep
  · exact step_stopped hrelay hpending hstep

/-- A run keeps the invariant, and the bytes of a party get on after it if the `TLSSocket` dropped
nothing that they needed. -/
theorem run_keeps (hserial : Serializes B C) (h : c.Inv) {actions : List Action}
    (hpossible : Meets (step site) Possible actions c)
    (hrun : runActions (step site) actions c = .ok c') :
    c'.Inv ∧ (c.server.nextOp = .websocket →
        c'.server.nextOp = .websocket ∧ c'.buffered = c.buffered) ∧
      ∀ side, c'.Running side ↔ c.Running side ∧ Meets (step site) (Answered side) actions c := by
  induction actions generalizing c with
  | nil =>
    obtain rfl := Except.ok.inj hrun
    exact ⟨h, fun hop => ⟨hop, rfl⟩, fun side => (and_iff_left trivial).symm⟩
  | cons a actions ih =>
    obtain ⟨hp, hrest⟩ := hpossible
    cases hstep : c.step site a with
    | error e =>
      simp only [runActions, hstep] at hrun
      cases hrun
    | ok c₁ =>
      simp only [runActions, hstep] at hrun
      simp only [hstep] at hrest
      have hkeeps := step_keeps hserial h hp hstep
      obtain ⟨hinv, hstays, hrunning⟩ := ih hkeeps.inv hrest hrun
      refine ⟨hinv, fun hop => ?_, fun side => ?_⟩
      · obtain ⟨hop₁, hbuffered₁⟩ := hkeeps.stays hop
        obtain ⟨hop', hbuffered'⟩ := hstays hop₁
        exact ⟨hop', hbuffered'.trans hbuffered₁⟩
      · rw [hrunning side, hkeeps.running side, and_assoc]
        simp only [Meets, hstep]

/-- What the two invariants say about the bytes of a party that get on. -/
theorem acct_of_running (h : c.Inv) {side : Side} (hrun : c.Running side) :
    (c.streams side).sent = (c.streams side).parsed ++ (c.buffered side ++
      ((c.streams side).relayed ++ c.onTheWay side ++ (c.streams side).unread)) := by
  rcases h with ⟨hrelay, p, hinv⟩ | ⟨-, hinv | hpending⟩
  · obtain ⟨x, hx⟩ := Option.isSome_iff_exists.mp ((hinv.running_iff hrelay side).mp hrun)
    have hacct := hinv.accounts hx
    unfold Accounts at hacct
    rw [hacct, hinv.onTheWay_eq hx]
    simp only [List.append_assoc]
  · obtain ⟨p, hpending, hfits⟩ := hinv.single
    have hheld : Pending.heldFor c.server side p = 0 := by
      cases p with
      | http _ _ => rfl
      | server _ _ _ => exact hfits.elim
      | report task rc held =>
        obtain rfl : held = 0 := hfits.2
        exact ite_self 0
    have hnone : c.onTheWay side = [] := by
      unfold onTheWay
      rw [hpending, List.flatMap_singleton, hheld, List.take_zero]
    rw [hinv.calm.acct side, hnone, hinv.calm.relayed side]
    simp only [List.append_assoc, List.nil_append]
  · unfold Running at hrun
    rw [hpending] at hrun
    exact absurd hrun Nat.zero_ne_one

/-- The request for a websocket, with the token `t`. -/
def chatText : Str :=
  "GET /chat HTTP/1.1\r\nConnection: Upgrade\r\nUpgrade: websocket\r\nCookie: token=t\r\n\r\n".toList

/-- Its value. -/
def chatRequest : Request where
  method := .get
  target := "/chat".toList
  fields := [(Field.connection, "Upgrade".toList), (Field.upgrade, "websocket".toList),
    (Field.cookie, "token=t".toList)]

/-- The answer of the internal peer. -/
def switchText : Str := "HTTP/1.1 101 Switching Protocols\r\n\r\n".toList

/-- A parser of the request, which takes it whole. -/
def chatBeast : Beast where
  Parser := Bool
  fresh := false
  put p d := if p then (0, none, p)
    else if chatText.isPrefixOf d then (chatText.length, none, true) else (0, some .needMore, false)
  isDone p := p
  get _ := chatRequest
  serialize _ := switchText

/-- A parser of the answer, which takes it whole. -/
def chatClientBeast : ClientBeast where
  Parser := Bool
  fresh := false
  put p d := if p then (0, none, p)
    else if switchText.isPrefixOf d then (switchText.length, none, true)
    else (0, some .needMore, false)
  isDone p := p
  get _ := { status := .switchingProtocols, version := 11 }
  serialize _ := chatText

/-- The connection of the chat. -/
abbrev Chat : Type := Relay chatBeast chatClientBeast

/-- What the handlers of the connection find. -/
def chatWorld : World := Session.doorWorld chatRequest { status := .switchingProtocols, version := 11 }

/-- The connection up to the first reads of the relay. The answer comes in one read with the bytes
`behind`. -/
def chatUpgrade (behind : Str) : List Action :=
  [.sends .client chatText, .completes 0 chatText.length, .delivers 0 chatWorld,
    .completes 0 chatText.length, .delivers 0 chatWorld, .sends .peer (switchText ++ behind),
    .completes 0 (switchText ++ behind).length, .delivers 0 chatWorld,
    .completes 0 switchText.length, .delivers 0 chatWorld]

/-- The connection when it is upgraded. -/
def chatUpgraded (behind : Str) : Except Fault Chat :=
  match start (createNewToken ∅ ['t'] 0) with
  | .error e => .error e
  | .ok c => runActions (step Session.door) (chatUpgrade behind) c

/-- Its runs up to the upgrade meet a condition. -/
def chatMeets (G : Chat → Action → Prop) [∀ c a, Decidable (G c a)] (behind : Str) : Bool :=
  match start (createNewToken ∅ ['t'] 0) with
  | .error _ => false
  | .ok c => decide (Meets (step Session.door) G (chatUpgrade behind) c)

theorem meets_of_chatMeets {G : Chat → Action → Prop} [∀ c a, Decidable (G c a)] {behind : Str}
    {c₀ : Chat} (hstart : start (createNewToken ∅ ['t'] 0) = .ok c₀)
    (h : chatMeets G behind = true) :
    Meets (step Session.door) G (chatUpgrade behind) c₀ := by
  unfold chatMeets at h
  rw [hstart] at h
  exact of_decide_eq_true h

theorem start_of_chatUpgraded {behind : Str} {c : Chat} (h : chatUpgraded behind = .ok c) :
    ∃ c₀, start (createNewToken ∅ ['t'] 0) = .ok c₀ ∧
      runActions (step Session.door) (chatUpgrade behind) c₀ = .ok c := by
  unfold chatUpgraded at h
  split at h
  · cases h
  · exact ⟨_, ‹_›, h⟩

theorem chat_serializes : Serializes chatBeast chatClientBeast :=
  ⟨fun _ => (by decide : switchText ≠ []), fun _ => (by decide : chatText ≠ [])⟩

/-- After the upgrade the peer says hi and the client yo, in two reads. -/
def chatTalk : List Action :=
  [.sends .peer "hi".toList, .sends .client "yo".toList, .completes 1 2, .completes 0 1,
    .delivers 0 chatWorld, .delivers 0 chatWorld, .completes 0 2, .completes 0 1]

/-- The first frame of the client is in the TLS record of its request: OpenSSL has decrypted it when
it is read. -/
example : (chatUpgraded []).toOption.bind (fun c =>
    (runActions (step Session.door) [.sends .client "yo".toList, .drops 0 2] c).toOption.map
      fun c' => (c.buffered .client, decide (c'.Relays .client), decide (c'.Relays .peer))) =
    some ([], false, true) := by decide +kernel

end Relay

end LocalSoftware.ReverseProxy
