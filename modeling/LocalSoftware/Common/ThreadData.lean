import LocalSoftware.Common.ThreadShared

/-!
# The worker threads

`ThreadData` of `thread_data.h` and `thread_data.cpp`, without the coroutines: `process_queued`
turns what a handler queued into messages and requests, `construct_call`, `function_call` and
`data_received` run the handlers, `handle_dequeue` takes a message from the queue of a thread, and
`process_uring` reads the completions of its ring. `step` is one of these, or an action of the
kernel or of the `AsyncHandler`.

`processQueued_queued` says once what `process_queued` can do to a world: a sequence of the updates
of `Queued`.
-/

set_option autoImplicit false

namespace LocalSoftware

variable {V : Vocabulary} {σ : Type}

namespace ThreadData

/-- `obj_info[id]`. -/
def object (td : ThreadData V) (id : Id) : ObjectDataThreaded := (td.objInfo id).getD {}

/-- Assignment to `obj_info[id]`. -/
def setObject (td : ThreadData V) (id : Id) (o : ObjectDataThreaded) : ThreadData V :=
  { td with objInfo := Function.update td.objInfo id (some o) }

/-- `proc_to_dat[id]`. -/
def proc (td : ThreadData V) (id : Id) : CallDataThreaded := (td.procToDat id).getD {}

/-- Assignment to `proc_to_dat[id]`. -/
def setProc (td : ThreadData V) (id : Id) (d : CallDataThreaded) : ThreadData V :=
  { td with procToDat := Function.update td.procToDat id (some d) }

end ThreadData

/-- `children[id]` of an object, with an assignment. -/
def setChild : List (Id × ChildObjectInfo) → Id → (ChildObjectInfo → ChildObjectInfo) →
    List (Id × ChildObjectInfo)
  | [], id, f => [(id, f {})]
  | (id', info) :: children, id, f =>
    if id' = id then (id', f info) :: children else (id', info) :: setChild children id f

/-- `-ETIME`. -/
def eTime : Int := -62

namespace World

/-- Something that happened. -/
def note (w : World V σ) (n : Note) : World V σ := { w with log := w.log ++ [n] }

/-- A push to the queue of a thread that exists. -/
def enqueue (w : World V σ) (t : Nat) (m : EventVariant V) : World V σ :=
  { w with queues := Function.update w.queues t (w.queues t ++ [m]) }

/-- `per_thread_data[t].q.push(m)`. -/
def push (w : World V σ) (t : ThreadId) (m : EventVariant V) : Except Fault (World V σ) :=
  match t with
  | none => .error .undefinedBehaviour
  | some t => if t < w.size then .ok (w.enqueue t m) else .error .undefinedBehaviour

/-- Assignment to the tables of a thread. -/
def setThread (w : World V σ) (t : Nat) (td : ThreadData V) : World V σ :=
  { w with threads := Function.update w.threads t td }

/-- Assignment to a context. -/
def setContext (w : World V σ) (ctx : Nat) (d : IoUringData V) : World V σ :=
  { w with contexts := Function.update w.contexts ctx d }

section Fields

variable (w : World V σ) (t t' : Nat) (m : EventVariant V) (n : Note) (td : ThreadData V)
  (d : IoUringData V)

@[simp] theorem log_note : (w.note n).log = w.log ++ [n] := rfl
@[simp] theorem queues_note : (w.note n).queues = w.queues := rfl
@[simp] theorem threads_note : (w.note n).threads = w.threads := rfl
@[simp] theorem procIds_note : (w.note n).procIds = w.procIds := rfl
@[simp] theorem attached_note : (w.note n).attached = w.attached := rfl
@[simp] theorem log_enqueue : (w.enqueue t m).log = w.log := rfl
@[simp] theorem threads_enqueue : (w.enqueue t m).threads = w.threads := rfl
@[simp] theorem procIds_enqueue : (w.enqueue t m).procIds = w.procIds := rfl
@[simp] theorem attached_enqueue : (w.enqueue t m).attached = w.attached := rfl
@[simp] theorem log_setThread : (w.setThread t td).log = w.log := rfl
@[simp] theorem queues_setThread : (w.setThread t td).queues = w.queues := rfl
@[simp] theorem procIds_setThread : (w.setThread t td).procIds = w.procIds := rfl
@[simp] theorem attached_setThread : (w.setThread t td).attached = w.attached := rfl
@[simp] theorem log_setContext : (w.setContext t d).log = w.log := rfl
@[simp] theorem queues_setContext : (w.setContext t d).queues = w.queues := rfl
@[simp] theorem threads_setContext : (w.setContext t d).threads = w.threads := rfl
@[simp] theorem procIds_setContext : (w.setContext t d).procIds = w.procIds := rfl
@[simp] theorem attached_setContext : (w.setContext t d).attached = w.attached := rfl

theorem queues_enqueue : (w.enqueue t m).queues t' =
    if t' = t then w.queues t' ++ [m] else w.queues t' := by
  unfold enqueue
  by_cases h : t' = t
  · subst h
    rw [if_pos rfl]
    exact Function.update_self ..
  · rw [if_neg h]
    exact Function.update_of_ne h ..

theorem threads_setThread : (w.setThread t td).threads t' = if t' = t then td else w.threads t' := by
  unfold setThread
  by_cases h : t' = t
  · subst h
    rw [if_pos rfl]
    exact Function.update_self ..
  · rw [if_neg h]
    exact Function.update_of_ne h ..

/-- A part of the tables that an assignment keeps. -/
theorem proj_setThread {α : Type} (f : ThreadData V → α) (h : f td = f (w.threads t)) :
    f ((w.setThread t td).threads t') = f (w.threads t') := by
  rw [threads_setThread]
  by_cases ht : t' = t
  · subst ht
    rw [if_pos rfl, h]
  · rw [if_neg ht]

@[simp] theorem threads_setThread_self : (w.setThread t td).threads t = td := Function.update_self ..

end Fields

/-- `io_uring_get_sqe` finds an entry, the ring having 512 of them. -/
def HasSqe (w : World V σ) (t : Nat) : Prop := (w.threads t).ring.sq.length < 512

instance (w : World V σ) (t : Nat) : Decidable (w.HasSqe t) := inferInstanceAs (Decidable (_ < _))

/-- An entry is prepared. -/
def prepare (w : World V σ) (t : Nat) (r : Submission V) : World V σ :=
  let td := w.threads t
  w.setThread t { td with ring := { td.ring with sq := td.ring.sq ++ [r] } }

/-- `load_avg` of a thread. -/
def loadAvg (w : World V σ) (i : Nat) : Rat := w.loads w.decisions i

/-- One round of the loop of `find_target_thread`, over `min_amt`, `min_thread` and
`min_thread_0`. -/
def scanThread (w : World V σ) (threads : List Nat) (acc : Rat × Option Nat × Option Nat) (i : Nat) :
    Rat × Option Nat × Option Nat :=
  if threads ≠ [] ∧ i ∉ threads then acc
  else if w.loadAvg i < acc.1 then
    -- an idle thread leaves `min_amt` as it is
    if 1 / 50 < w.loadAvg i then (w.loadAvg i, some i, acc.2.2) else (acc.1, acc.2.1, some i)
  else acc

/-- `find_target_thread`. A `min_thread` that was never assigned is no index. -/
def findTargetThread (w : World V σ) (t : Nat) (threads : List Nat) : Except Fault Nat :=
  if (threads = [] ∨ t ∈ threads) ∧ w.loadAvg t < 4 / 5 then .ok t
  else
    let (minAmt, minThread, minThread0) :=
      (List.range w.size).foldl (w.scanThread threads) (1, none, none)
    match if 1 / 5 < minAmt ∧ minThread0 ≠ none then minThread0 else minThread with
    | some i => .ok i
    | none => .error .undefinedBehaviour

/-- A decision was made. -/
def decided (w : World V σ) : World V σ := { w with decisions := w.decisions + 1 }

/-! ## What a handler queued -/

section Queues

variable (t ctx : Nat) (ti : TargetInfo)

/-- A construction is sent to this thread, and the object is entered as a child. -/
def addChild (w : World V σ) (q : EventQueuedConstruct V) (runThread : Nat) : World V σ :=
  let id := (getId w.objIds (some t)).1
  let td := w.threads t
  let o := td.object ti.objId
  let call : ConstructorCall V :=
    { constructor := { fn := q.fn, slot := some (ti.objId, q.idx, q.vidx) }
      ci := { threadId := some runThread, objId := ti.objId, procId := ti.procId }
      ti := { objId := id, procId := none }
      uringData := if q.shared then some ctx else none }
  (({ w with objIds := (getId w.objIds (some t)).2 }.setContext ctx
    ((w.contexts ctx).setLocator q.idx q.vidx { objectId := id, threadId := [runThread] })).setThread
    t (td.setObject ti.objId { o with children := setChild o.children id fun _ => {} })).enqueue
    t (.constructorCall call)

/-- One round of `process_queued_construct`. -/
def queuedConstruct (w : World V σ) (q : EventQueuedConstruct V) : Except Fault (World V σ) :=
  match ((w.contexts ctx).slots q.idx)[q.vidx]? with
  | none => .error .undefinedBehaviour
  -- an empty slot is passed over
  | some none => .ok w
  | some (some _) =>
    match w.findTargetThread t [] with
    | .error e => .error e
    | .ok runThread => .ok (w.decided.addChild t ctx ti q runThread)

/-- A call is sent to the thread `target`. -/
def addCall (w : World V σ) (q : EventQueuedFunction V) (objectId : Id) (target : Nat) : World V σ :=
  let id := (getId w.procIds (some t)).1
  let td := w.threads t
  let o := td.object ti.objId
  let call : FunctionCall V :=
    { call := q.fn
      ci := { threadId := some t, objId := ti.objId, procId := ti.procId }
      ti := { objId := objectId, procId := id } }
  ((({ w with procIds := (getId w.procIds (some t)).2 }.setThread t
    (td.setObject ti.objId { o with
      children := setChild o.children objectId fun info =>
        { thread := t, procedures := info.procedures ++ [id] } })).setContext ctx
    ((w.contexts ctx).globalToLocal id q.localId)).enqueue target (.functionCall call)).note
    (.called t ti.objId ti.procId id q.localId)

/-- One round of `process_queued_function`. -/
def queuedFunction (w : World V σ) (q : EventQueuedFunction V) : Except Fault (World V σ) :=
  match ((w.contexts ctx).slots q.idx)[q.vidx]? with
  | none => .error .undefinedBehaviour
  -- the object was deleted after the call was queued
  | some none => .ok w
  | some (some info) =>
    match info.locator with
    | none => .error (.invalidArgument "Object was not initialized")
    | some locator =>
      match w.findTargetThread t locator.threadId with
      | .error e => .error e
      | .ok target =>
        if target < w.size then .ok (w.decided.addCall t ctx ti q locator.objectId target)
        else .error .undefinedBehaviour

/-- A request is prepared with a new attachment. No allocator returns memory that is in use. -/
def addRequest (w : World V σ) (prep : Prep V) (a : IoUringAttached) : World V σ :=
  let address := w.malloc w.mallocs
  { w with
    mallocs := w.mallocs + 1
    attached := Function.update w.attached address (some a) }.prepare t { prep, userData := address }

/-- One round of `process_queued_uring`. Without an entry the request is dropped. -/
def queuedUring (w : World V σ) (q : EventQueuedUring V) : Except Fault (World V σ) :=
  if w.HasSqe t then
    if w.attached (w.malloc w.mallocs) = none then
      .ok (w.addRequest t (.request q.fn) (.eventData q.op ti.objId ti.procId))
    else .error .undefinedBehaviour
  else .ok w

/-- What `process_queued_timers` notes. -/
def noteTimer (w : World V σ) (q : EventQueuedTimer) (id : Id) : World V σ :=
  w.note (if q.cancels then .timerCancelled t ti.objId q.localId
    else .timerSet t ti.objId q.localId id)

/-- A timer is entered under a new identifier. -/
def addTimer (w : World V σ) (q : EventQueuedTimer) : World V σ :=
  let id := (getId w.timIds (some t)).1
  let td := w.threads t
  let data : TimerData := { ptr := w.malloc w.mallocs, objId := ti.objId, ts := q.time }
  ((({ w with timIds := (getId w.timIds (some t)).2 }.setContext ctx
    ((w.contexts ctx).globalToLocalTim id q.localId)).setThread t
    { td with timers := Function.update td.timers id (some data) }).addRequest t
    (.timeout q.time) (.timer id ti.objId ti.procId)).noteTimer t ti q id

/-- A timer that is in the table is removed. -/
def removeTimer (w : World V σ) (q : EventQueuedTimer) (id : Id) (data : TimerData) : World V σ :=
  (w.addRequest t (.timeoutRemove data.ptr) (.timerUpdate id true)).noteTimer t ti q id

/-- A timer that is in the table gets another time. -/
def updateTimer (w : World V σ) (q : EventQueuedTimer) (id : Id) (data : TimerData) : World V σ :=
  let td := w.threads t
  let timers := Function.update td.timers id (some { data with ts := q.time })
  ((w.setThread t { td with timers }).addRequest t
    (.timeoutUpdate q.time data.ptr) (.timerUpdate id false)).noteTimer t ti q id

/-- One round of `process_queued_timers`. The entry of the ring is used without a check. -/
def queuedTimer (w : World V σ) (q : EventQueuedTimer) : Except Fault (World V σ) :=
  if w.HasSqe t ∧ w.attached (w.malloc w.mallocs) = none then
    match (w.threads t).timers ((w.contexts ctx).translateTimLocal q.localId) with
    | some data =>
      let id := (w.contexts ctx).translateTimLocal q.localId
      if q.time = ⟨0, 0⟩ then .ok (w.removeTimer t ti q id data)
      else .ok (w.updateTimer t ti q id data)
    -- also for the cancellation of a timer that has no entry
    | none => .ok (w.addTimer t ctx ti q)
  else .error .undefinedBehaviour

/-- `process_queued_delete`: the pushes for one entry. -/
def pushDeletes (w : World V σ) (objId : Id) : List Nat → Except Fault (World V σ)
  | [] => .ok w
  | thread :: threads =>
    match w.push (some thread) (.delete
        { ci := { threadId := some t, objId := ti.objId, procId := ti.procId }
          ti := { objId, procId := none } }) with
    | .error e => .error e
    | .ok w => pushDeletes w objId threads

/-- A child is no longer one. -/
def dropChild (w : World V σ) (objId : Id) : World V σ :=
  let td := w.threads t
  let o := td.object ti.objId
  let children := o.children.filter fun child => child.1 ≠ objId
  w.setThread t (td.setObject ti.objId { o with children })

/-- One round of `process_queued_delete`. -/
def queuedDelete (w : World V σ) (q : EventQueuedDelete) : Except Fault (World V σ) :=
  match w.pushDeletes t ti q.objId q.thread with
  | .error e => .error e
  | .ok w => .ok (w.dropChild t ti q.objId)

/-- One round of `process_queued_attach`. -/
def queuedAttach (w : World V σ) (q : EventQueuedAttach) : World V σ :=
  let callee := (w.contexts ctx).translateProcLocal q.targetLocalId
  let td := w.threads t
  let attachers := td.alsoNotify callee ++ [(ti.objId, ti.procId)]
  (w.setThread t { td with alsoNotify := Function.update td.alsoNotify callee attachers }).note
    (.attached t ti.objId ti.procId q.targetLocalId callee)

/-- A loop over one of the lists. -/
def each {α : Type} (f : World V σ → α → Except Fault (World V σ)) :
    List α → World V σ → Except Fault (World V σ)
  | [], w => .ok w
  | a :: l, w =>
    match f w a with
    | .error e => .error e
    | .ok w => each f l w

/-- `process_queued`. -/
def processQueued (w : World V σ) (es : EventState V) : Except Fault (World V σ) := do
  let w ← each (queuedConstruct t ctx ti) es.construct w
  let w ← each (queuedFunction t ctx ti) es.function w
  let w ← each (queuedUring t ti) es.uring w
  let w ← each (queuedTimer t ctx ti) es.timer w
  let w ← each (queuedDelete t ti) es.delete w
  each (fun w q => .ok (w.queuedAttach t ctx ti q)) es.attach w

end Queues

/-! ## The messages -/

section Messages

variable (P : Program V σ) (t : Nat)

/-- The closure of `construct` enters the new object in the slot, through the object that queued
the construction. -/
def fillSlot (w : World V σ) (slot : Option (Id × V.TypeIndex × Nat)) (id : Id) :
    Except Fault (World V σ) :=
  match slot with
  | none => .ok w
  | some (parent, ty, idx) =>
    match ((w.threads t).objInfo parent).bind (·.ptr) with
    | none => .error .undefinedBehaviour
    | some ctx =>
      match ((w.contexts ctx).slots ty)[idx]? with
      | some (some info) =>
        let slots := ((w.contexts ctx).slots ty).set idx (some { info with event := id })
        .ok (w.setContext ctx ((w.contexts ctx).setSlots ty slots))
      | _ => .error .undefinedBehaviour

/-- What a handler leaves behind: its context and the state of the objects. -/
def afterHandler (w : World V σ) (ctx : Nat) (es : EventState V) (heap : σ) : World V σ :=
  { w.setContext ctx es.uringData with heap }

/-- The context of a new object: the shared one, or a new one. -/
def takeContext (w : World V σ) (shared : Option Nat) : Nat × World V σ :=
  match shared with
  | some ctx => (ctx, w)
  | none => (w.nextContext, { w.setContext w.nextContext {} with nextContext := w.nextContext + 1 })

/-- `construct_call`. -/
def constructCall (w : World V σ) (c : ConstructorCall V) : Except Fault (World V σ) :=
  let (ctx, w) := w.takeContext c.uringData
  match (P.construct c.constructor.fn c.ti.objId w.heap).run { uringData := w.contexts ctx } with
  | .error e => .error e
  | .ok (heap, es) =>
    match (w.afterHandler ctx es heap).fillSlot t c.constructor.slot c.ti.objId with
    | .error e => .error e
    | .ok w =>
      match (w.threads t).objInfo c.ti.objId with
      | some _ => .ok w
      | none => (w.setThread t ((w.threads t).setObject c.ti.objId { ptr := some ctx })).processQueued
          t ctx c.ti es

/-- The message that a procedure has a result. -/
def completion (ti : TargetInfo) (callerObj callerProc : Id) (status : CallStatus) (code : Int) :
    Data where
  ci := { threadId := some t, objId := ti.objId, procId := ti.procId }
  ti := { objId := callerObj, procId := callerProc }
  data := .childTaskCompletion
    { callingId := callerProc, taskId := ti.procId, status := status, returnCode := code }

/-- The status of a procedure with a result. -/
def resultStatus (failed : Bool) : CallStatus := if failed then .failed else .finished

/-- The end of `function_call`. -/
def respond (w : World V σ) (f : FunctionCall V) (resp : CallResponse) :
    Except Fault (World V σ) :=
  let td := w.threads t
  let d : CallDataThreaded := { td.proc f.ti.procId with
    opHint := resp.opHint, description := resp.description
    status := if resp.success then .running else .degraded }
  match resp.ret with
  | none => .ok (w.setThread t (td.setProc f.ti.procId d))
  | some (failed, code) =>
    let w := (w.setThread t (td.setProc f.ti.procId { d with
      status := resultStatus failed, returnCode := code })).note
      (.reported f.ti.procId (resultStatus failed) code)
    match f.ci.threadId with
    -- as a `uint64_t`, the thread -1 is behind every index
    | none => .ok w
    | some t' =>
      if w.size ≤ t' then .ok w
      else w.push (some t')
        (.data (completion t f.ti f.ci.objId f.ci.procId (resultStatus failed) code))

/-- The tables at the beginning of `function_call`. -/
def enter (w : World V σ) (f : FunctionCall V) (o : ObjectDataThreaded) : World V σ :=
  let td := (w.threads t).setObject f.ti.objId { o with
    assocProcs := o.assocProcs ++ [f.ti.procId] }
  let d : CallDataThreaded := { td.proc f.ti.procId with
    assocObj := f.ti.objId, backNotify := (f.ci.threadId, f.ci.objId, f.ci.procId)
    status := .running }
  (w.setThread t (td.setProc f.ti.procId d)).note (.started t f.ti.objId f.ti.procId)

/-- `function_call`. A call of a function of an object that is not there is one through a null
pointer. -/
def functionCall (w : World V σ) (f : FunctionCall V) : Except Fault (World V σ) :=
  match (w.threads t).objInfo f.ti.objId with
  | none => .error .undefinedBehaviour
  | some o =>
    match o.ptr with
    | none => .error .undefinedBehaviour
    | some ctx =>
      let w := w.enter t f o
      match (P.function f.call f.ti.objId f.ti.procId w.heap).run { uringData := w.contexts ctx } with
      | .error e => .error e
      | .ok ((resp, heap), es) =>
        match (w.afterHandler ctx es heap).processQueued t ctx f.ti es with
        | .error e => .error e
        | .ok w => w.respond t f resp

/-- The part of `data_received` for a result. -/
def report (w : World V σ) (ti : TargetInfo) : Yielded → Except Fault (World V σ)
  | none => .ok w
  | some (failed, code) =>
    let td := w.threads t
    let d : CallDataThreaded := { td.proc ti.procId with status := resultStatus failed }
    ((w.setThread t (td.setProc ti.procId d)).note
      (.reported ti.procId (resultStatus failed) code)).push d.backNotify.1
        (.data (completion t ti d.backNotify.2.1 d.backNotify.2.2 (resultStatus failed) code))

/-- The copies for the attached procedures. -/
def forward (w : World V σ) (m : Data) : List (Id × Id) → World V σ
  | [] => w
  | (obj, proc) :: attachers => forward (w.enqueue t
      (.data { m with ti := { objId := obj, procId := proc }, copy := true })) m attachers

/-- `data_received`. -/
def dataReceived (w : World V σ) (m : Data) : Except Fault (World V σ) :=
  match (w.threads t).objInfo m.ti.objId, (w.threads t).procToDat m.ti.procId with
  | some o, some _ =>
    match o.ptr with
    | none => .error .undefinedBehaviour
    | some ctx =>
      let (event, data) := (w.contexts ctx).mapEventData m.data
      match (P.onYield m.ti.objId event w.heap).run { uringData := data } with
      | .error e => .error e
      | .ok ((y, heap), es) =>
        match ((w.note (.delivered t m event)).afterHandler ctx es heap).processQueued
            t ctx m.ti es with
        | .error e => .error e
        | .ok w =>
          match w.report t m.ti y with
          | .error e => .error e
          -- the attached tasks get a copy of what was received, not of the result
          | .ok w => .ok (w.forward t { m with data := event }
              ((w.threads t).alsoNotify m.ti.procId))
  | _, _ => .ok w

/-- The pushes of `Delete` for the children, in the order of the iteration. -/
def deleteChildren (w : World V σ) (ci : CallerInfo) :
    List (Id × ChildObjectInfo) → Except Fault (World V σ)
  | [] => .ok w
  | (id, info) :: children =>
    match w.push (some info.thread) (.delete { ci, ti := { objId := id, procId := none } }) with
    | .error e => .error e
    | .ok w => deleteChildren w ci children

/-- The end of an object: its procedures and the object itself leave the tables. -/
def erase (w : World V σ) (id : Id) : World V σ :=
  let td := w.threads t
  let o := td.object id
  ({ w with heap := if o.ptr.isSome then P.destroy id w.heap else w.heap }.setThread t { td with
    procToDat := fun p => if p ∈ o.assocProcs then none else td.procToDat p
    objInfo := Function.update td.objInfo id none }).note (.deleted t id)

/-- The case `Delete` of `handle_dequeue`. -/
def deleteReceived (w : World V σ) (d : Delete) : Except Fault (World V σ) :=
  match w.deleteChildren d.ci (w.siblings.order ((w.threads t).object d.ti.objId).children) with
  | .error e => .error e
  | .ok w => .ok (w.erase P t d.ti.objId)

/-- A `RootStart` becomes a construction and a call. -/
def rootReceived (w : World V σ) (r : RootStart V) : World V σ :=
  let ci : CallerInfo := { threadId := none, objId := none, procId := none }
  (w.enqueue t (.constructorCall
    { constructor := { fn := r.constructor, slot := none }, ci
      ti := { objId := r.ti.objId, procId := none }, uringData := none })).enqueue t
    (.functionCall { call := r.init, ci, ti := r.ti })

/-- `io_uring_submit`. -/
def submit (w : World V σ) : World V σ :=
  let td := w.threads t
  w.setThread t { td with ring := { td.ring with sq := [], inflight := td.ring.inflight ++ td.ring.sq } }

/-- The message of `handle_dequeue`. -/
def receive (w : World V σ) : EventVariant V → Except Fault (World V σ)
  | .constructorCall c => w.constructCall P t c
  | .functionCall f => w.functionCall P t f
  | .delete d => w.deleteReceived P t d
  | .data m => w.dataReceived P t m
  | .rootStart r => .ok (w.rootReceived t r)

/-- `handle_dequeue`. -/
def handleDequeue (w : World V σ) : Except Fault (World V σ) :=
  match w.queues t with
  | [] => .ok w
  | m :: rest =>
    match { w with queues := Function.update w.queues t rest }.receive P t m with
    | .error e => .error e
    | .ok w => .ok (w.submit t)

/-- The message for a completion that nobody sent. -/
def ringData (objId procId : Id) (data : EventType) : Data where
  ci := { threadId := none, objId := none, procId := none }
  ti := { objId := objId, procId := procId }
  data := data

/-- The reaction of `process_uring` to a completion, by its attachment. -/
def attachment (w : World V σ) (res : Int) : IoUringAttached → World V σ
  | .eventData op objId procId =>
    w.enqueue t (.data (ringData objId procId (.ioUringResult { callingId := procId, op, res })))
  | .timer timerId objId procId =>
    if res = eTime then w.enqueue t (.data (ringData objId procId (.timeout timerId))) else w
  | .timerUpdate timerId remove =>
    let td := w.threads t
    -- the entry goes when the removal has succeeded, not when the timer expires
    if 0 ≤ res ∧ remove then
      w.setThread t { td with timers := Function.update td.timers timerId none }
    else w

/-- The loop of `process_uring`. An attachment is read and freed. -/
def readCqes (w : World V σ) : List (Nat × Int) → Except Fault (World V σ)
  | [] => .ok w
  | (address, res) :: cqes =>
    match w.attached address with
    | none => .error .undefinedBehaviour
    | some a =>
      readCqes ({ w.attachment t res a with
        attached := Function.update w.attached address none }) cqes

/-- `process_uring`. -/
def processUring (w : World V σ) : Except Fault (World V σ) :=
  match w.readCqes t (w.threads t).ring.cq with
  | .error e => .error e
  | .ok w =>
    let td := w.threads t
    .ok (w.setThread t { td with ring := { td.ring with cq := [] } })

/-- The kernel completes a request. -/
def complete (w : World V σ) (k : Nat) (res : Int) : World V σ :=
  let td := w.threads t
  match td.ring.inflight[k]? with
  | none => w
  | some r => w.setThread t { td with ring := { td.ring with
      inflight := td.ring.inflight.eraseIdx k, cq := td.ring.cq ++ [(r.userData, res)] } }

/-- `initialize_root_event`, which always starts on the first thread. -/
def initializeRootEvent (w : World V σ) (constructor : V.ConstructFunc) (init : V.FunctionFunc) :
    Except Fault (World V σ) :=
  let (objId, objIds) := getId w.objIds none
  let (procId, procIds) := getId w.procIds none
  { w with objIds, procIds }.push (some 0)
    (.rootStart { constructor, init, ti := { objId, procId } })

end Messages

/-- What can happen next. The loads of the threads at the coming decisions are arbitrary, and so is
the order in which the next deletion takes the children. -/
inductive Action (V : Vocabulary) where
  | dequeue (t : Nat)
  | uring (t : Nat)
  | complete (t k : Nat) (res : Int)
  | root (constructor : V.ConstructFunc) (init : V.FunctionFunc)
  | load (loads : Nat → Nat → Rat)
  | iterate (siblings : Iteration)

/-- A step of the runtime. Only the threads that exist take steps. -/
def step (P : Program V σ) (w : World V σ) : Action V → Except Fault (World V σ)
  | .dequeue t => if t < w.size then w.handleDequeue P t else .ok w
  | .uring t => if t < w.size then w.processUring t else .ok w
  | .complete t k res => .ok (w.complete t k res)
  | .root constructor init => w.initializeRootEvent constructor init
  | .load loads => .ok { w with loads }
  | .iterate siblings => .ok { w with siblings }

end World

end LocalSoftware
