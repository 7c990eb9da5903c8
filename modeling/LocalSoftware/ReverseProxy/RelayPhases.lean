import LocalSoftware.ReverseProxy.Relay

/-!
# The phases of the byte relay

Up to the first event in the state `websocket` a relay has one thing under way, and every byte of a
party was taken by its parser, is in the buffer of its HTTP object, or is unread (`HttpInv`). From then
on each direction has one task of its own, and the bytes left in the buffers stay there (`RelayInv`).
-/

set_option autoImplicit false

namespace LocalSoftware.ReverseProxy

open Http

namespace Side

@[simp] theorem other_other (side : Side) : side.other.other = side := by
  cases side <;> rfl

@[simp] theorem other_ne (side : Side) : side.other ≠ side := by
  cases side <;> decide

theorem eq_or_other (side side' : Side) : side' = side ∨ side' = side.other := by
  cases side <;> cases side' <;> simp [other]

end Side

namespace Relay

variable {B : Beast} {C : ClientBeast} {c c' : Relay B C}

theorem taken_append_drop (before : Str) (k : Nat) :
    taken before (before.drop k) ++ before.drop k = before := by
  unfold taken
  rw [List.length_drop]
  rcases Nat.le_total k before.length with hk | hk
  · rw [Nat.sub_sub_self hk, List.take_append_drop]
  · rw [List.drop_eq_nil_of_le hk, Nat.sub_eq_zero_of_le hk, Nat.sub_zero, List.take_length,
      List.append_nil]

/-- What the code relies on in Beast's serializers: a message is never empty. -/
structure Serializes (B : Beast) (C : ClientBeast) : Prop where
  response : ∀ res, B.serialize res ≠ []
  request : ∀ req, C.serialize req ≠ []

/-! ## The phase of HTTP messages -/

/-- `read_op_` of the HTTP object of a party. -/
def readOp (c : Relay B C) : Side → Bool
  | .client => c.http.readOp
  | .peer => c.httpC.readOp

/-- What holds while nothing is relayed. `avail` are the bytes that the parser of each party may
take. -/
structure Calm (c : Relay B C) (avail : Side → Str) : Prop where
  acct : ∀ side, (c.streams side).sent =
    (c.streams side).parsed ++ avail side ++ (c.streams side).unread
  relayed : ∀ side, (c.streams side).relayed = []
  reads : ∀ side, c.server.loopReads side = true
  httpTask : ∀ k, c.httpTask = some k → k < c.data.localProcId
  httpCTask : ∀ k, c.httpCTask = some k → k < c.data.localProcId

/-- An entry that an HTTP object is responsible for. -/
def Fits (c : Relay B C) : Pending → Prop
  | .http side (.read _ _) => c.readOp side = true
  | .http side (.write _) => c.readOp side = false
  | .report task _ held => (∀ k, task = some k → k < c.data.localProcId) ∧ held = 0
  | .server _ _ _ => False

/-- The invariant of the phase of HTTP messages. -/
structure HttpInv (c : Relay B C) : Prop where
  calm : c.Calm c.buffered
  single : ∃ p, c.pending = [p] ∧ c.Fits p
  /-- The last operation before the relay begins is the write of the response. -/
  upgrading : c.server.nextOp = .websocket →
    c.http.readOp = false ∧ ∀ side call, .http side call ∈ c.pending → side = .client

/-- How an HTTP object goes on: its task is complete, or it has queued one call. -/
def Goes (readOp : Bool) (y : Yielded) (calls : List ReadWriteHttp.ChildCall) : Prop :=
  (∃ r, y = some r) ∧ calls = [] ∨ y = none ∧ ((readOp = true ∧ calls = [.read 4096 false]) ∨
    readOp = false ∧ ∃ data, calls = [.write data])

theorem goes_of_continues {d : IoUringData ReadWriteHttp.vocabulary} {readOp : Bool} {y : Yielded}
    {es' : EventState ReadWriteHttp.vocabulary}
    (h : ReadWriteHttp.Continues readOp { uringData := d } y es') :
    Goes readOp y (es'.function.map EventQueuedFunction.fn) := by
  cases h with
  | done => exact Or.inl ⟨⟨_, rfl⟩, rfl⟩
  | reading hop hcalls => exact Or.inr ⟨rfl, Or.inl ⟨hop, hcalls⟩⟩
  | writing data hop hcalls => exact Or.inr ⟨rfl, Or.inr ⟨hop, data, hcalls⟩⟩

/-- An HTTP object has run, and took some of the bytes that were there. -/
theorem settle_inv {avail : Side → Str} (h : c.Calm avail) (hpending : c.pending = []) {side : Side}
    (hother : c.buffered side.other = avail side.other) {k : Nat}
    (hside : c.buffered side = (avail side).drop k) {task : Id}
    (htask : ∀ k, task = some k → k < c.data.localProcId) {y : Yielded}
    {calls : List ReadWriteHttp.ChildCall} (hgoes : Goes (c.readOp side) y calls)
    (hup : c.server.nextOp = .websocket → side = .client ∧ c.http.readOp = false) :
    (c.settle side task (avail side) (c.buffered side) y calls).HttpInv := by
  constructor
  -- what the parser took is counted as parsed, and the party on the other side is not touched
  · refine ⟨fun side' => ?_, fun side' => ?_, h.reads, h.httpTask, h.httpCTask⟩
    · show (Function.update c.streams side _ side').sent = _
      rcases Side.eq_or_other side side' with rfl | rfl
      · show _ = (Function.update c.streams side' _ side').parsed ++ c.buffered side' ++
          (Function.update c.streams side' _ side').unread
        rw [Function.update_self]
        show (c.streams side').sent = (c.streams side').parsed ++
          taken (avail side') (c.buffered side') ++ c.buffered side' ++ (c.streams side').unread
        rw [hside, List.append_assoc (c.streams side').parsed, taken_append_drop]
        exact h.acct side'
      · show _ = (Function.update c.streams side _ side.other).parsed ++ c.buffered side.other ++
          (Function.update c.streams side _ side.other).unread
        rw [Function.update_of_ne (Side.other_ne side), hother]
        exact h.acct side.other
    · show (Function.update c.streams side _ side').relayed = []
      rcases Side.eq_or_other side side' with rfl | rfl
      · rw [Function.update_self]
        exact h.relayed side'
      · rw [Function.update_of_ne (Side.other_ne side)]
        exact h.relayed side.other
  -- what is pending now: the report of the task, or its next operation
  · show ∃ p, c.pending ++ calls.map (Pending.http side) ++ _ = [p] ∧ _
    rw [hpending]
    rcases hgoes with ⟨⟨r, rfl⟩, rfl⟩ | ⟨rfl, ⟨hop, rfl⟩ | ⟨hop, data, rfl⟩⟩
    · exact ⟨.report task r.2 0, rfl, htask, rfl⟩
    · exact ⟨.http side (.read 4096 false), rfl, hop⟩
    · exact ⟨.http side (.write data), rfl, hop⟩
  -- after the upgrade only the response is still written to the client
  · intro hop
    obtain ⟨rfl, hread⟩ := hup hop
    refine ⟨hread, fun side' call hmem => ?_⟩
    change _ ∈ c.pending ++ calls.map (Pending.http .client) ++
      y.toList.map (fun r => Pending.report task r.2 0) at hmem
    rw [hpending, List.nil_append, List.mem_append] at hmem
    rcases hmem with hmem | hmem
    · obtain ⟨call', -, heq⟩ := List.mem_map.mp hmem
      cases heq
      rfl
    · obtain ⟨r, -, heq⟩ := List.mem_map.mp hmem
      cases heq

/-- What a run of an HTTP object may do to the bytes `avail` that its parser may take. -/
structure Takes (readOp : Bool) (avail after : Str) (y : Yielded)
    (calls : List ReadWriteHttp.ChildCall) : Prop where
  goes : Goes readOp y calls
  drops : ∃ k, after = avail.drop k

section Http

variable {avail : Side → Str} {task : Id} {chunk : Str}

theorem runHttp_inv {x : Script ReadWriteHttp.vocabulary (Yielded × ReadWriteHttp B)}
    (hrun : c.runHttp task chunk x = .ok c') (h : c.Calm avail) (hpending : c.pending = [])
    (hclient : avail .client = c.http.buffer.data ++ chunk)
    (hpeer : avail .peer = c.httpC.buffer.data)
    (htask : ∀ k, task = some k → k < c.data.localProcId)
    (hx : ∀ y http es, x.run { uringData := c.httpData } = .ok ((y, http), es) →
      Takes http.readOp (c.http.buffer.data ++ chunk) http.buffer.data y
        (es.function.map EventQueuedFunction.fn) ∧
      (c.server.nextOp = .websocket → http.readOp = false)) : c'.HttpInv := by
  unfold runHttp at hrun
  split at hrun
  · cases hrun
  · rename_i y http es hrun'
    obtain rfl := Except.ok.inj hrun
    obtain ⟨⟨hgoes, k, hk⟩, hup⟩ := hx y http es hrun'
    rw [← hclient] at hk ⊢
    exact @settle_inv B C { c with http, httpData := es.uringData, httpTask := task } avail
      ⟨h.acct, h.relayed, h.reads, htask, h.httpCTask⟩ hpending .client hpeer.symm k hk task
      htask _ _ hgoes fun hop => ⟨rfl, hup hop⟩

theorem runHttpC_inv {x : Script ReadWriteHttp.vocabulary (Yielded × ReadWriteHttpC C)}
    (hrun : c.runHttpC task chunk x = .ok c') (h : c.Calm avail) (hpending : c.pending = [])
    (hclient : avail .client = c.http.buffer.data)
    (hpeer : avail .peer = c.httpC.buffer.data ++ chunk)
    (htask : ∀ k, task = some k → k < c.data.localProcId)
    (hop : c.server.nextOp ≠ .websocket)
    (hx : ∀ y httpC es, x.run { uringData := c.httpCData } = .ok ((y, httpC), es) →
      Takes httpC.readOp (c.httpC.buffer.data ++ chunk) httpC.buffer.data y
        (es.function.map EventQueuedFunction.fn)) : c'.HttpInv := by
  unfold runHttpC at hrun
  split at hrun
  · cases hrun
  · rename_i y httpC es hrun'
    obtain rfl := Except.ok.inj hrun
    obtain ⟨hgoes, k, hk⟩ := hx y httpC es hrun'
    rw [← hpeer] at hk ⊢
    exact @settle_inv B C { c with httpC, httpCData := es.uringData, httpCTask := task } avail
      ⟨h.acct, h.relayed, h.reads, h.httpTask, htask⟩ hpending .peer hclient.symm k hk task
      htask _ _ hgoes fun hsocket => absurd hsocket hop

/-- The calls that start a task of an HTTP object. -/
theorem exec_inv (hserial : Serializes B C) {q : EventQueuedFunction vocabulary}
    (hexec : c.exec q = .ok c')
    (h : c.Calm c.buffered) (hpending : c.pending = [])
    (htask : ∀ k, q.localId = some k → k < c.data.localProcId)
    (hidx : q.idx = .readWriteHttp ∨ q.idx = .readWriteHttpC)
    (hop : c.server.nextOp = .websocket → q.idx = .readWriteHttp ∧ ∃ res, q.fn = .writeHttp res) :
    c'.HttpInv := by
  -- a socket is written to through the client's object only
  have hweb : q.idx = .readWriteHttpC → c.server.nextOp ≠ .websocket := by
    intro hclass hsocket
    cases hclass.symm.trans (hop hsocket).1
  obtain ⟨idx, vidx, l, fn⟩ := q
  unfold exec at hexec
  split at hexec
  · -- `read_http` of the client's object
    rename_i hfn
    refine runHttp_inv hexec h hpending (List.append_nil _).symm rfl htask fun y http es hx => ?_
    obtain ⟨rfl, harm⟩ := Script.run_wait_ok hx
    obtain ⟨hread, hdata, hcalls⟩ := ReadWriteHttp.armRead_cases harm
    refine ⟨⟨Or.inr ⟨rfl, Or.inl ⟨hread, hcalls⟩⟩, 0, by rw [hdata, List.append_nil]; rfl⟩,
      fun hsocket => ?_⟩
    obtain ⟨-, res, hres⟩ := hop hsocket
    simp only at hfn hres
    rw [hfn] at hres
    cases hres
  · -- `write_http` of the client's object
    refine runHttp_inv hexec h hpending (List.append_nil _).symm rfl htask fun y http es hx => ?_
    obtain ⟨rfl, harm⟩ := Script.run_wait_ok hx
    obtain ⟨hread, hbuffer, hcalls⟩ := ReadWriteHttp.armWrite_cases harm
    refine ⟨⟨?_, 0, by rw [hbuffer, List.append_nil]; rfl⟩, fun _ => hread⟩
    rcases hcalls with ⟨hempty, -⟩ | hcalls
    · exact absurd (List.append_eq_nil_iff.mp hempty).2 (hserial.response _)
    · exact Or.inr ⟨rfl, Or.inr ⟨hread, _, hcalls⟩⟩
  · -- `read_http` of the peer's object
    rename_i hclass hfn
    refine runHttpC_inv hexec h hpending rfl (List.append_nil _).symm htask (hweb hclass)
      fun y httpC es hx => ?_
    obtain ⟨hread, hcont, k, hk⟩ := ReadWriteHttpC.readHttp_cases hx
    rw [hread, List.append_nil]
    exact ⟨goes_of_continues hcont, k, hk⟩
  · -- `write_http` of the peer's object
    rename_i hclass hfn
    refine runHttpC_inv hexec h hpending rfl (List.append_nil _).symm htask (hweb hclass)
      fun y httpC es hx => ?_
    obtain ⟨rfl, harm⟩ := Script.run_wait_ok hx
    obtain ⟨hread, hbuffer, hcalls⟩ := ReadWriteHttpC.armWrite_cases harm
    refine ⟨?_, 0, by rw [hbuffer, List.append_nil]; rfl⟩
    rcases hcalls with ⟨hempty, -⟩ | hcalls
    · exact absurd (List.append_eq_nil_iff.mp hempty).2 (hserial.request _)
    · exact Or.inr ⟨rfl, Or.inr ⟨hread, _, hcalls⟩⟩
  · rename_i hclass
    simp only at hclass hidx
    rw [hclass] at hidx
    rcases hidx with heq | heq
    · cases heq
    · cases heq
  · rename_i hclass
    simp only at hclass hidx
    rw [hclass] at hidx
    rcases hidx with heq | heq
    · cases heq
    · cases heq
  · cases hexec

/-- What an operation has brought: bytes for an object that reads, an acknowledgement for one that
writes, or a failure. -/
def Brings (readOp : Bool) (chunk : Str) (rc : Int) : Prop :=
  0 < rc ∧ (readOp = true ∧ rc = chunk.length ∨ readOp = false ∧ chunk = []) ∨ rc ≤ 0 ∧ chunk = []

/-- The client's object is told the end of an operation. -/
theorem onYield_takes {s : ReadWriteHttp B} {rc : Int} (hbrings : Brings s.readOp chunk rc)
    {d : IoUringData ReadWriteHttp.vocabulary} {y : Yielded} {s' : ReadWriteHttp B}
    {es : EventState ReadWriteHttp.vocabulary}
    (hrun : (({ s with buffer := s.buffer.fill chunk } : ReadWriteHttp B).onYield
      (.childTaskCompletion (completion none rc))).run { uringData := d } = .ok ((y, s'), es)) :
    Takes s'.readOp (s.buffer.data ++ chunk) s'.buffer.data y
      (es.function.map EventQueuedFunction.fn) ∧ s'.readOp = s.readOp := by
  rcases hbrings with ⟨hpos, hchunk⟩ | ⟨hneg, rfl⟩
  · obtain ⟨hop, hcont, k, hk⟩ := ReadWriteHttp.onYield_cases (c := completion none rc) hpos hrun
    refine ⟨?_, hop⟩
    rw [hop]
    refine ⟨goes_of_continues hcont, ?_⟩
    -- a read commits the bytes that were brought, a write has none
    rcases hchunk with ⟨hread, hlen⟩ | ⟨hread, rfl⟩
    · have hnat : (completion none rc).returnCode.toNat = chunk.length := by
        show rc.toNat = _
        rw [hlen, Int.toNat_natCast]
      rw [if_pos hread, hnat, FlatBuffer.data_commit_fill] at hk
      exact ⟨k, hk⟩
    · rw [if_neg (by rw [hread]; exact Bool.false_ne_true)] at hk
      exact ⟨0, by rw [hk, List.append_nil]; rfl⟩
  -- a failure is passed on, and the buffer stays as it is
  · have hle : (completion none rc).returnCode ≤ 0 := hneg
    simp only [ReadWriteHttp.onYield, if_pos hle, Script.run_pure, Except.ok.injEq,
      Prod.mk.injEq] at hrun
    obtain ⟨⟨rfl, rfl⟩, rfl⟩ := hrun
    exact ⟨⟨Or.inl ⟨⟨_, rfl⟩, rfl⟩, 0, by rw [List.append_nil]; rfl⟩, rfl⟩

/-- The peer's object is told the end of an operation. -/
theorem onNewData_takes {s : ReadWriteHttpC C} {rc : Int} (hbrings : Brings s.readOp chunk rc)
    {d : IoUringData ReadWriteHttp.vocabulary} {y : Yielded} {s' : ReadWriteHttpC C}
    {es : EventState ReadWriteHttp.vocabulary}
    (hrun : (({ s with buffer := s.buffer.fill chunk } : ReadWriteHttpC C).onNewData
      (.childTaskCompletion (completion none rc))).run { uringData := d } = .ok ((y, s'), es)) :
    Takes s'.readOp (s.buffer.data ++ chunk) s'.buffer.data y
      (es.function.map EventQueuedFunction.fn) := by
  rcases hbrings with ⟨hpos, hchunk⟩ | ⟨hneg, rfl⟩
  · obtain ⟨hop, hcont, k, hk⟩ := ReadWriteHttpC.onNewData_cases (c := completion none rc) hpos hrun
    rw [hop]
    refine ⟨goes_of_continues hcont, ?_⟩
    rcases hchunk with ⟨hread, hlen⟩ | ⟨hread, rfl⟩
    · have hnat : (completion none rc).returnCode.toNat = chunk.length := by
        show rc.toNat = _
        rw [hlen, Int.toNat_natCast]
      rw [if_pos hread, hnat, FlatBuffer.data_commit_fill] at hk
      exact ⟨k, hk⟩
    · rw [if_neg (by rw [hread]; exact Bool.false_ne_true)] at hk
      exact ⟨0, by rw [hk, List.append_nil]; rfl⟩
  · have hle : (completion none rc).returnCode ≤ 0 := hneg
    simp only [ReadWriteHttpC.onNewData, if_pos hle, Script.run_pure, Except.ok.injEq,
      Prod.mk.injEq] at hrun
    obtain ⟨⟨rfl, rfl⟩, rfl⟩ := hrun
    exact ⟨Or.inl ⟨⟨_, rfl⟩, rfl⟩, 0, by rw [List.append_nil]; rfl⟩

theorem httpEvent_inv {side : Side} {rc : Int} (hevent : c.httpEvent side chunk rc = .ok c')
    (h : c.Calm avail) (hpending : c.pending = []) (hside : avail side = c.buffered side ++ chunk)
    (hother : avail side.other = c.buffered side.other)
    (hbrings : Brings (c.readOp side) chunk rc)
    (hup : c.server.nextOp = .websocket → side = .client ∧ c.http.readOp = false) : c'.HttpInv := by
  cases side with
  | client =>
    refine runHttp_inv (c := { c with http := { c.http with buffer := c.http.buffer.fill chunk } })
      hevent ⟨h.acct, h.relayed, h.reads, h.httpTask, h.httpCTask⟩ hpending hside hother h.httpTask
      fun y http es hx => ?_
    obtain ⟨htakes, hop⟩ := onYield_takes hbrings hx
    exact ⟨htakes, fun hsocket => hop.trans (hup hsocket).2⟩
  | peer =>
    exact runHttpC_inv
      (c := { c with httpC := { c.httpC with buffer := c.httpC.buffer.fill chunk } })
      hevent ⟨h.acct, h.relayed, h.reads, h.httpTask, h.httpCTask⟩ hpending hother hside h.httpCTask
      (fun hsocket => absurd (hup hsocket).1 (by decide)) fun y httpC es hx =>
        onNewData_takes hbrings hx

end Http

/-! ## The phase of the relay -/

/-- What the task of one direction is doing. -/
inductive Loop (s : ReverseProxyServer) (side : Side) : Pending → Prop where
  | reading (h : s.loopReads side = true) :
      Loop s side (.server side (s.loopTask side) (.read side.buffer sizeofBuf false))
  | hasRead (h : s.loopReads side = true) (rc : Int) (held : Nat)
      (hheld : 0 < rc → held = rc.toNat) : Loop s side (.report (s.loopTask side) rc held)
  | writing (h : s.loopReads side = false) (len : Nat) :
      Loop s side (.server side.other (s.loopTask side) (.write side.buffer len))
  | written (h : s.loopReads side = false) (rc : Int) (held : Nat) (hheld : 0 < rc → held = 0) :
      Loop s side (.report (s.loopTask side) rc held)

/-- The bytes of a party, of which the entry `x` takes care. -/
def Accounts (c : Relay B C) (side : Side) (x : Pending) : Prop :=
  (c.streams side).sent = (c.streams side).parsed ++ c.buffered side ++
    (c.streams side).relayed ++
      (c.server.buf side.buffer).take (Pending.heldFor c.server side x) ++ (c.streams side).unread

/-- The invariant of the phase of the relay. Each direction has the entry of its task, unless its
operation was dropped. -/
structure RelayInv (c : Relay B C) (p : Side → Option Pending) : Prop where
  pending : ∃ first, c.pending = (p first).toList ++ (p first.other).toList
  loops : ∀ {side x}, p side = some x → Loop c.server side x
  tasks : ∀ side, ∃ k, c.server.loopTask side = some k ∧ k < c.data.localProcId
  distinct : c.server.eToI ≠ c.server.iToE
  accounts : ∀ {side x}, p side = some x → c.Accounts side x

/-- What every event keeps: the exchange of messages goes on or was stopped, or the relay has begun. -/
def Inv (c : Relay B C) : Prop :=
  c.Relaying ∧ (∃ p, c.RelayInv p) ∨ ¬ c.Relaying ∧ (c.HttpInv ∨ c.pending = [])

theorem loopTask_other_ne {s : ReverseProxyServer} (h : s.eToI ≠ s.iToE) (side : Side) :
    s.loopTask side.other ≠ s.loopTask side := by
  cases side with
  | client => exact h.symm
  | peer => exact h

theorem Loop.task_eq {s : ReverseProxyServer} {side : Side} {x : Pending} (hx : Loop s side x) :
    x.task = s.loopTask side := by
  cases hx <;> rfl

theorem heldFor_other {s : ReverseProxyServer} (h : s.eToI ≠ s.iToE) {side : Side} {x : Pending}
    (hx : Loop s side.other x) : Pending.heldFor s side x = 0 := by
  have hne := loopTask_other_ne h side
  cases hx with
  | reading _ => rfl
  | hasRead _ rc held _ => exact if_neg hne
  | writing _ len => exact if_neg hne
  | written _ rc held _ => exact if_neg hne

section Entries

variable {p : Side → Option Pending} {side : Side} {x : Pending}

/-- The entries of the other direction. -/
theorem RelayInv.other (h : c.RelayInv p) (hx : x ∈ (p side.other).toList) :
    Loop c.server side.other x := h.loops (Option.mem_toList.mp hx)

/-- The entries in any order of the directions. -/
theorem RelayInv.perm (h : c.RelayInv p) (side : Side) :
    c.pending.Perm ((p side).toList ++ (p side.other).toList) := by
  obtain ⟨first, hpending⟩ := h.pending
  rw [hpending]
  rcases Side.eq_or_other first side with rfl | rfl
  · exact .refl _
  · rw [Side.other_other]
    exact List.perm_append_comm

/-- The bytes on the way are those that the task of their direction holds. -/
theorem RelayInv.onTheWay_eq (h : c.RelayInv p) (hx : p side = some x) : c.onTheWay side =
    (c.server.buf side.buffer).take (Pending.heldFor c.server side x) := by
  have hnone : ∀ y ∈ (p side.other).toList,
      (c.server.buf side.buffer).take (Pending.heldFor c.server side y) = [] := by
    intro y hy
    rw [heldFor_other h.distinct (h.other hy), List.take_zero]
  obtain ⟨first, hpending⟩ := h.pending
  unfold onTheWay
  rw [hpending]
  rcases Side.eq_or_other side first with rfl | rfl
  · rw [hx, List.flatMap_append, List.flatMap_eq_nil_iff.mpr hnone, List.append_nil]
    exact List.flatMap_singleton ..
  · rw [Side.other_other, hx, List.flatMap_append, List.flatMap_eq_nil_iff.mpr hnone, List.nil_append]
    exact List.flatMap_singleton ..

/-- A direction gets on as long as it has an entry. -/
theorem RelayInv.running_iff (h : c.RelayInv p) (hrelay : c.Relaying) (side : Side) :
    c.Running side ↔ (p side).isSome := by
  have hother : (p side.other).toList.countP (c.Carries side ·) = 0 := by
    refine List.countP_eq_zero.mpr fun y hy hcarries => ?_
    have htask := of_decide_eq_true hcarries hrelay
    rw [(h.other hy).task_eq] at htask
    exact loopTask_other_ne h.distinct side htask
  unfold Running
  rw [(h.perm side).countP_eq, List.countP_append, hother]
  cases hx : p side with
  | none => simp
  | some x =>
    have hcarries : c.Carries side x := fun _ => (h.loops hx).task_eq
    simp [hcarries]

/-- An entry is that of one of the directions. -/
theorem RelayInv.pick (h : c.RelayInv p) {i : Nat} (hx : c.pending[i]? = some x) :
    ∃ side, p side = some x ∧ c.pending.eraseIdx i = (p side.other).toList := by
  obtain ⟨first, hpending⟩ := h.pending
  rw [hpending] at hx ⊢
  cases hfirst : p first with
  | none =>
    rw [hfirst] at hx
    cases hother : p first.other with
    | none =>
      rw [hother] at hx
      cases hx
    | some y =>
      rw [hother] at hx
      cases i with
      | zero =>
        refine ⟨first.other, hother.trans hx, ?_⟩
        rw [Side.other_other, hfirst]
        rfl
      | succ i => cases hx
  | some y =>
    rw [hfirst] at hx
    cases i with
    | zero => exact ⟨first, hfirst.trans hx, rfl⟩
    | succ i =>
      cases hother : p first.other with
      | none =>
        rw [hother] at hx
        cases hx
      | some z =>
        rw [hother] at hx
        cases i with
        | zero =>
          refine ⟨first.other, hother.trans hx, ?_⟩
          rw [Side.other_other, hfirst]
          rfl
        | succ i => cases hx

/-- One direction has got on, or was stopped. -/
theorem relayInv_of_advance {x' : Option Pending}
    (hpending : c.pending = (p side.other).toList ++ x'.toList)
    (hloop : ∀ x, x' = some x → Loop c.server side x)
    (hother : ∀ x, p side.other = some x → Loop c.server side.other x)
    (htasks : ∀ side, ∃ k, c.server.loopTask side = some k ∧ k < c.data.localProcId)
    (hne : c.server.eToI ≠ c.server.iToE) (hacct : ∀ x, x' = some x → c.Accounts side x)
    (hacct' : ∀ x, p side.other = some x → c.Accounts side.other x) :
    c.RelayInv (Function.update p side x') := by
  have hp : ∀ side', Function.update p side x' side' = x' ∧ side' = side ∨
      Function.update p side x' side' = p side.other ∧ side' = side.other := by
    intro side'
    rcases Side.eq_or_other side side' with rfl | rfl
    · exact Or.inl ⟨Function.update_self .., rfl⟩
    · exact Or.inr ⟨Function.update_of_ne (Side.other_ne side) .., rfl⟩
  refine ⟨⟨side.other, ?_⟩, fun {side' x} hx => ?_, htasks, hne, fun {side' x} hx => ?_⟩
  · rw [Side.other_other, Function.update_self, Function.update_of_ne (Side.other_ne side)]
    exact hpending
  · rcases hp side' with ⟨heq, rfl⟩ | ⟨heq, rfl⟩
    · exact hloop x (heq.symm.trans hx)
    · exact hother x (heq.symm.trans hx)
  · rcases hp side' with ⟨heq, rfl⟩ | ⟨heq, rfl⟩
    · exact hacct x (heq.symm.trans hx)
    · exact hacct' x (heq.symm.trans hx)

end Entries

section Relaying

variable {p : Side → Option Pending} {i n : Nat} {side : Side}

theorem loop_congr {s s' : ReverseProxyServer} (htask : s'.loopTask side = s.loopTask side)
    (hreads : s'.loopReads side = s.loopReads side) {p : Pending} (h : Loop s side p) :
    Loop s' side p := by
  cases h with
  | reading h =>
    rw [← htask]
    exact .reading (hreads.trans h)
  | hasRead h rc held hheld =>
    rw [← htask]
    exact .hasRead (hreads.trans h) rc held hheld
  | writing h len =>
    rw [← htask]
    exact .writing (hreads.trans h) len
  | written h rc held hheld =>
    rw [← htask]
    exact .written (hreads.trans h) rc held hheld

theorem loopTask_fill (s : ReverseProxyServer) (chunk : Str) (b : Buffer) (side : Side) :
    (s.fill chunk b).loopTask side = s.loopTask side := by
  cases b <;> cases side <;> rfl

theorem loopReads_fill (s : ReverseProxyServer) (chunk : Str) (b : Buffer) (side : Side) :
    (s.fill chunk b).loopReads side = s.loopReads side := by
  cases b <;> cases side <;> rfl

theorem buf_fill (s : ReverseProxyServer) (chunk : Str) (side : Side) :
    (s.fill chunk side.buffer).buf side.buffer =
      chunk ++ (s.buf side.buffer).drop chunk.length := by
  cases side <;> rfl

theorem buf_fill_other (s : ReverseProxyServer) (chunk : Str) (side : Side) :
    (s.fill chunk side.buffer).buf side.other.buffer = s.buf side.other.buffer := by
  cases side <;> rfl

theorem heldFor_congr {s s' : ReverseProxyServer} (h : s'.loopTask side = s.loopTask side)
    (p : Pending) : Pending.heldFor s' side p = Pending.heldFor s side p := by
  unfold Pending.heldFor
  rw [h]

/-- Bytes of a party have moved from the socket to the buffer, and `x'` is what is pending for them. -/
theorem RelayInv.moves (h : c.RelayInv p) (side : Side) (n : Nat) (x' : Option Pending)
    (hloop : ∀ x, x' = some x →
      Loop (c.server.fill ((c.streams side).unread.take n) side.buffer) side x)
    (hacct : ∀ x, x' = some x → ({ c with
      server := c.server.fill ((c.streams side).unread.take n) side.buffer
      streams := c.readStream side n } : Relay B C).Accounts side x) :
    ({ c with
      server := c.server.fill ((c.streams side).unread.take n) side.buffer
      streams := c.readStream side n
      pending := (p side.other).toList ++ x'.toList } :
        Relay B C).RelayInv (Function.update p side x') := by
  have htask := loopTask_fill c.server ((c.streams side).unread.take n) side.buffer
  refine relayInv_of_advance rfl hloop (fun x hx => ?_) (fun side' => ?_) ?_ hacct fun x hx => ?_
  · exact loop_congr (htask side.other) (loopReads_fill ..) (h.loops hx)
  · rw [htask side']
    exact h.tasks side'
  · have heq := h.distinct
    rw [← show c.server.loopTask .client = c.server.eToI from rfl,
      ← show c.server.loopTask .peer = c.server.iToE from rfl, ← htask, ← htask] at heq
    exact heq
  · have hacct' := h.accounts hx
    unfold Accounts at hacct' ⊢
    show (Function.update c.streams side _ side.other).sent =
      (Function.update c.streams side _ side.other).parsed ++ c.buffered side.other ++
        (Function.update c.streams side _ side.other).relayed ++ _ ++
          (Function.update c.streams side _ side.other).unread
    rw [Function.update_of_ne (Side.other_ne side), buf_fill_other,
      heldFor_congr (htask side.other)]
    exact hacct'

/-- Bytes of a party have moved from the buffer to the other party, and `x'` is what is pending for the
rest. -/
theorem RelayInv.writes (h : c.RelayInv p) (side : Side) (n : Nat) (x' : Option Pending)
    (hloop : ∀ x, x' = some x → Loop c.server side x)
    (hacct : ∀ x, x' = some x → ({ c with
      streams := Function.update c.streams side { c.streams side with
        relayed := (c.streams side).relayed ++ (c.server.buf side.buffer).take n } } :
          Relay B C).Accounts side x) :
    ({ c with
      streams := Function.update c.streams side { c.streams side with
        relayed := (c.streams side).relayed ++ (c.server.buf side.buffer).take n }
      pending := (p side.other).toList ++ x'.toList } :
        Relay B C).RelayInv (Function.update p side x') := by
  refine relayInv_of_advance rfl hloop (fun x hx => h.loops hx) h.tasks h.distinct hacct fun x hx => ?_
  have hacct' := h.accounts hx
  unfold Accounts at hacct' ⊢
  show (Function.update c.streams side _ side.other).sent =
    (Function.update c.streams side _ side.other).parsed ++ c.buffered side.other ++
      (Function.update c.streams side _ side.other).relayed ++ _ ++
        (Function.update c.streams side _ side.other).unread
  rw [Function.update_of_ne (Side.other_ne side)]
  exact hacct'

/-- A read of the relay has brought `n` bytes. -/
theorem relay_read (h : c.RelayInv p) (hreads : c.server.loopReads side = true)
    (hx : p side = some (.server side (c.server.loopTask side) (.read side.buffer sizeofBuf false)))
    (hn : n ≤ (c.streams side).unread.length) :
    ({ c with
      server := c.server.fill ((c.streams side).unread.take n) side.buffer
      streams := c.readStream side n
      pending := (p side.other).toList ++ [.report (c.server.loopTask side) n n] } :
        Relay B C).RelayInv
          (Function.update p side (some (.report (c.server.loopTask side) n n))) := by
  have hacct := h.accounts hx
  have hlen : ((c.streams side).unread.take n).length = n := List.length_take_of_le hn
  have htask := loopTask_fill c.server ((c.streams side).unread.take n) side.buffer
  refine h.moves side n (some _) ?_ ?_
  · rintro x ⟨⟩
    rw [← htask side]
    exact .hasRead ((loopReads_fill ..).trans hreads) _ _ fun _ => (Int.toNat_natCast n).symm
  -- the bytes move from the socket to the buffer
  · rintro x ⟨⟩
    unfold Accounts at hacct ⊢
    rw [show Pending.heldFor c.server side (.server side _ (.read _ _ _)) = 0 from rfl,
      List.take_zero, List.append_nil] at hacct
    show (Function.update c.streams side _ side).sent =
      (Function.update c.streams side _ side).parsed ++ c.buffered side ++
        (Function.update c.streams side _ side).relayed ++ _ ++
          (Function.update c.streams side _ side).unread
    rw [Function.update_self, buf_fill, heldFor_congr (htask side)]
    show (c.streams side).sent = (c.streams side).parsed ++ c.buffered side ++
      (c.streams side).relayed ++
        List.take (if c.server.loopTask side = c.server.loopTask side then n else 0) _ ++
          (c.streams side).unread.drop n
    rw [if_pos rfl, List.take_append_of_le_length (by rw [hlen]), List.take_take, Nat.min_self,
      List.append_assoc _ ((c.streams side).unread.take n), List.take_append_drop]
    exact hacct

/-- A write of the relay is complete. -/
theorem relay_written (h : c.RelayInv p) (hreads : c.server.loopReads side = false)
    (hx : p side = some (.server side.other (c.server.loopTask side) (.write side.buffer n))) :
    ({ c with
      streams := Function.update c.streams side { c.streams side with
        relayed := (c.streams side).relayed ++ (c.server.buf side.buffer).take n }
      pending := (p side.other).toList ++ [.report (c.server.loopTask side) n 0] } :
        Relay B C).RelayInv
          (Function.update p side (some (.report (c.server.loopTask side) n 0))) := by
  have hacct := h.accounts hx
  refine h.writes side n (some _) ?_ ?_
  · rintro x ⟨⟩
    exact .written hreads _ _ fun _ => rfl
  -- the bytes move from the buffer to the other party
  · rintro x ⟨⟩
    unfold Accounts at hacct ⊢
    show (Function.update c.streams side _ side).sent =
      (Function.update c.streams side _ side).parsed ++ c.buffered side ++
        (Function.update c.streams side _ side).relayed ++ _ ++
          (Function.update c.streams side _ side).unread
    rw [Function.update_self]
    have hheld : Pending.heldFor c.server side
        (.server side.other (c.server.loopTask side) (.write side.buffer n)) = n := if_pos rfl
    have hzero : Pending.heldFor c.server side (.report (c.server.loopTask side) n 0) = 0 :=
      if_pos rfl
    rw [hheld] at hacct
    rw [hzero, List.take_zero, List.append_nil, ← List.append_assoc _ (c.streams side).relayed]
    exact hacct

/-- An operation of the relay has failed. -/
theorem relay_failed (h : c.RelayInv p) {x : Pending} (hx : p side = some x) {rc : Int} (hrc : rc ≤ 0)
    {held : Nat} (hheld : held = Pending.heldFor c.server side x) :
    ({ c with pending := (p side.other).toList ++ [.report (c.server.loopTask side) rc held] } :
      Relay B C).RelayInv
        (Function.update p side (some (.report (c.server.loopTask side) rc held))) := by
  have hacct := h.accounts hx
  refine relayInv_of_advance rfl ?_ (fun x hx => h.loops hx) h.tasks h.distinct ?_
    fun x hx => h.accounts hx
  -- a failed operation keeps what it held, which is never passed on
  · rintro y ⟨⟩
    cases hreads : c.server.loopReads side with
    | true => exact .hasRead hreads _ _ fun hpos => absurd hpos (Int.not_lt.mpr hrc)
    | false => exact .written hreads _ _ fun hpos => absurd hpos (Int.not_lt.mpr hrc)
  · rintro y ⟨⟩
    unfold Accounts at hacct ⊢
    have hreport : Pending.heldFor c.server side (.report (c.server.loopTask side) rc held) =
        Pending.heldFor c.server side x := by
      rw [← hheld]
      exact if_pos rfl
    show _ = _ ++ List.take (Pending.heldFor c.server side _) _ ++ _
    rw [hreport]
    exact hacct

/-- The next task of a direction. -/
def setLoop (s : ReverseProxyServer) (side : Side) (task : Id) (reads : Bool) :
    ReverseProxyServer :=
  match side with
  | .client => { s with eToI := task, eRead := reads }
  | .peer => { s with iToE := task, iRead := reads }

/-- What the relay does with the completion of the task of a direction. -/
theorem relayed_loop {s s' : ReverseProxyServer} {res : ChildTaskCompletion}
    {es es' : EventState vocabulary} (h : ReverseProxyServer.Relayed s res es s' es')
    (hne : s.eToI ≠ s.iToE) (htask : res.taskId = s.loopTask side) :
    s' = setLoop s side (some es.uringData.localProcId) (!s.loopReads side) ∧
      Calls (if s.loopReads side then side.other.socket else side.socket)
        (if s.loopReads side then .write side.buffer res.returnCode.toNat
          else .read side.buffer sizeofBuf false) es es' := by
  cases side with
  | client =>
    cases h with
    | writeToPeer _ hread hcalls =>
      simp only [ReverseProxyServer.loopReads, hread, if_true]
      exact ⟨rfl, hcalls⟩
    | readFromClient _ hread hcalls =>
      simp only [ReverseProxyServer.loopReads, hread, Bool.false_eq_true, if_false]
      exact ⟨rfl, hcalls⟩
    | writeToClient hother _ _ _ => exact absurd htask hother
    | readFromPeer hother _ _ _ => exact absurd htask hother
    | ignored hother _ => exact absurd htask hother
  | peer =>
    -- the identifiers of the two tasks differ, so the branches of the client are excluded
    have hpeer : res.taskId ≠ s.eToI := fun heq => hne (heq.symm.trans htask)
    cases h with
    | writeToPeer htask' _ _ => exact absurd htask' hpeer
    | readFromClient htask' _ _ => exact absurd htask' hpeer
    | writeToClient _ _ hread hcalls =>
      simp only [ReverseProxyServer.loopReads, hread, if_true]
      exact ⟨rfl, hcalls⟩
    | readFromPeer _ _ hread hcalls =>
      simp only [ReverseProxyServer.loopReads, hread, Bool.false_eq_true, if_false]
      exact ⟨rfl, hcalls⟩
    | ignored _ hother => exact absurd htask hother

section SetLoop

variable {s : ReverseProxyServer} {task : Id} {reads : Bool}

theorem loopTask_setLoop : (setLoop s side task reads).loopTask side = task := by
  cases side <;> rfl

theorem loopTask_setLoop_other :
    (setLoop s side task reads).loopTask side.other = s.loopTask side.other := by
  cases side <;> rfl

theorem loopReads_setLoop : (setLoop s side task reads).loopReads side = reads := by
  cases side <;> rfl

theorem loopReads_setLoop_other :
    (setLoop s side task reads).loopReads side.other = s.loopReads side.other := by
  cases side <;> rfl

theorem buf_setLoop (b : Buffer) : (setLoop s side task reads).buf b = s.buf b := by
  cases side <;> cases b <;> rfl

theorem nextOp_setLoop : (setLoop s side task reads).nextOp = s.nextOp := by
  cases side <;> rfl

theorem checkWebsocket_setLoop :
    (setLoop s side task reads).checkWebsocket = s.checkWebsocket := by
  cases side <;> rfl

end SetLoop

/-- A call of the relay becomes an operation of the socket. -/
theorem exec_socket (c : Relay B C) (side : Side) (vidx : Nat) (l : Id) (fn : ChildCall) :
    c.exec ⟨side.socket, vidx, l, fn⟩ =
      .ok { c with pending := c.pending ++ [.server side l fn] } := by
  cases side <;> rfl

/-- The completion of the task of a direction starts its next task. -/
theorem relay_delivered (h : c.RelayInv p) {rc : Int} {held : Nat} (hrc : 0 < rc)
    (hx : p side = some (.report (c.server.loopTask side) rc held)) {d : IoUringData vocabulary}
    (hd : d.localProcId = c.data.localProcId + 1) :
    ({ c with
      server := setLoop c.server side (some c.data.localProcId) (!c.server.loopReads side)
      data := d
      pending := (p side.other).toList ++ [.server
        (if c.server.loopReads side then side.other else side) (some c.data.localProcId)
        (if c.server.loopReads side then .write side.buffer rc.toNat
          else .read side.buffer sizeofBuf false)] } : Relay B C).RelayInv
      (Function.update p side (some (.server
        (if c.server.loopReads side then side.other else side) (some c.data.localProcId)
        (if c.server.loopReads side then .write side.buffer rc.toNat
          else .read side.buffer sizeofBuf false)))) := by
  have hacct := h.accounts hx
  have hside := h.loops hx
  -- the identifier of the new task is not that of a task that runs
  have hnew : ∀ side, c.server.loopTask side ≠ some c.data.localProcId := by
    intro side' heq
    obtain ⟨k, hk, hlt⟩ := h.tasks side'
    rw [hk] at heq
    exact absurd (Option.some.inj heq) (Nat.ne_of_lt hlt)
  refine relayInv_of_advance rfl ?_
    (fun x hx => loop_congr loopTask_setLoop_other loopReads_setLoop_other (h.loops hx))
    (fun side' => ?_) ?_ ?_ fun x hx => ?_
  · -- the new task does the other half of the loop
    rintro x ⟨⟩
    cases hreads : c.server.loopReads side with
    | true =>
      rw [if_pos rfl, if_pos rfl]
      have hw : (setLoop c.server side (some c.data.localProcId) (!true)).loopReads side = false :=
        loopReads_setLoop
      have hl := @Loop.writing _ side hw rc.toNat
      rw [loopTask_setLoop] at hl
      exact hl
    | false =>
      rw [if_neg Bool.false_ne_true, if_neg Bool.false_ne_true]
      have hr : (setLoop c.server side (some c.data.localProcId) (!false)).loopReads side = true :=
        loopReads_setLoop
      have hl := @Loop.reading _ side hr
      rw [loopTask_setLoop] at hl
      exact hl
  · show ∃ k, (setLoop c.server side _ _).loopTask side' = some k ∧ k < d.localProcId
    rw [hd]
    rcases Side.eq_or_other side side' with rfl | rfl
    · exact ⟨_, loopTask_setLoop, Nat.lt_succ_self _⟩
    · obtain ⟨k, hk, hlt⟩ := h.tasks side.other
      exact ⟨k, loopTask_setLoop_other.trans hk, Nat.lt_succ_of_lt hlt⟩
  · cases side with
    | client => exact (hnew .peer).symm
    | peer => exact hnew .client
  -- the bytes that the read brought are those that the write takes over
  · rintro x ⟨⟩
    unfold Accounts at hacct ⊢
    show _ = (c.streams side).parsed ++ c.buffered side ++ (c.streams side).relayed ++
      List.take (Pending.heldFor (setLoop c.server side (some c.data.localProcId)
        (!c.server.loopReads side)) side _) ((setLoop c.server side _ _).buf side.buffer) ++ _
    rw [buf_setLoop]
    have hheld : Pending.heldFor c.server side (.report (c.server.loopTask side) rc held) = held :=
      if_pos rfl
    rw [hheld] at hacct
    have htask : (setLoop c.server side (some c.data.localProcId)
        (!c.server.loopReads side)).loopTask side = some c.data.localProcId := loopTask_setLoop
    cases hreads : c.server.loopReads side with
    | true =>
      have heq : held = rc.toNat := by
        cases hside with
        | hasRead _ _ _ hheld' => exact hheld' hrc
        | written hfalse _ _ _ => exact absurd (hfalse.symm.trans hreads) Bool.false_ne_true
      rw [hreads] at htask
      have hnow : Pending.heldFor (setLoop c.server side (some c.data.localProcId) (!true)) side
          (.server side.other (some c.data.localProcId) (.write side.buffer rc.toNat)) =
            rc.toNat := if_pos htask.symm
      rw [if_pos rfl, if_pos rfl, hnow, ← heq]
      exact hacct
    | false =>
      have heq : held = 0 := by
        cases hside with
        | hasRead htrue _ _ _ => exact absurd (hreads.symm.trans htrue) Bool.false_ne_true
        | written _ _ _ hheld' => exact hheld' hrc
      rw [if_neg Bool.false_ne_true, if_neg Bool.false_ne_true]
      rw [heq] at hacct
      exact hacct
  · have hacct' := h.accounts hx
    unfold Accounts at hacct' ⊢
    show _ = (c.streams side.other).parsed ++ c.buffered side.other ++
      (c.streams side.other).relayed ++
      List.take (Pending.heldFor (setLoop c.server side (some c.data.localProcId)
        (!c.server.loopReads side)) side.other _)
          ((setLoop c.server side _ _).buf side.other.buffer) ++ _
    rw [buf_setLoop, heldFor_congr loopTask_setLoop_other]
    exact hacct'

end Relaying

end Relay

end LocalSoftware.ReverseProxy
