import LocalSoftware.AioLanding.AcceptRequests

/-!
# Accepting connections of the bandwidth monitor

`BandwidthMonitorAccept` of `bandwidth_accept.h` and `bandwidth_accept.cpp`. It queues the same entries
as `LandingAccept`, with children of the class `BandwidthMonitoringServer`, and its accept requests are
made again in the same way (`monitor_accepts_armed`). It differs in two things. It does not reset the
lengths beside the addresses, of which it never sets the one for IPv6: its requests pass what the kernel
wrote last. And it keeps what it entered in `indices_`: as long as no task completes twice this makes no
difference (`trace_eq_landing`), but the slot of a connection that was closed is used again by each later
completion of its task (`completion_deletes_slot`).
-/

set_option autoImplicit false

namespace LocalSoftware.BandwidthMonitor

/-- `BandwidthMonitorAccept`, as far as its handlers read it. -/
structure BandwidthMonitorAccept where
  enableTls : Bool
  -- the constructor sets only the length for IPv4
  lengths : AioLanding.AddrLengths := ⟨some 16, none⟩
  indices : Id → Option Nat := fun _ => none

namespace BandwidthMonitorAccept

/-- What the object queues; its children are all of the class `BandwidthMonitoringServer`. -/
abbrev vocabulary : Vocabulary := AioLanding.vocabulary

/-- `queue_accept`. -/
def queueAccept (s : BandwidthMonitorAccept) (op : Int) : Script vocabulary Unit :=
  Script.cUring (V := vocabulary) op ⟨op, s.lengths.get op⟩

/-- `init`. -/
def init (s : BandwidthMonitorAccept) : Script vocabulary (CallResponse × BandwidthMonitorAccept) := do
  s.queueAccept 0
  s.queueAccept 1
  return ({ description := "Bandwidth Monitor accept", success := true, ret := none,
            opHint := opHintNetwork }, s)

/-- `indices_[res.task_id]`, which inserts slot 0 where there is no entry. -/
def subscript (s : BandwidthMonitorAccept) (taskId : Id) : Nat × BandwidthMonitorAccept :=
  match s.indices taskId with
  | some idx => (idx, s)
  | none => (0, { s with indices := Function.update s.indices taskId (some 0) })

/-- `on_yield`. -/
def onYield (s : BandwidthMonitorAccept) :
    EventType → Script vocabulary (Yielded × BandwidthMonitorAccept)
  | .childTaskCompletion res => do
    -- the entry stays
    let (idx, s) := s.subscript res.taskId
    Script.d (V := vocabulary) () idx
    return (none, s)
  | .ioUringResult res => do
    if 0 ≤ res.res then
      let idx ← Script.i (V := vocabulary) () ⟨res.res, s.enableTls⟩
      let taskid ← Script.cAt (V := vocabulary) () idx .start
      let s := { s with indices := Function.update s.indices taskid (some idx) }
      s.queueAccept res.op
      return (none, s)
    else
      s.queueAccept res.op
      return (none, s)
  | _ => .throw .badVariantAccess

/-- The handlers of the class. -/
def handlers : Acceptor vocabulary BandwidthMonitorAccept where
  init := init
  onYield := onYield

theorem handlers_rearms : handlers.Rearms [0, 1] where
  few := by decide
  init _ := ⟨[1], rfl, [], rfl, rfl⟩
  onYield s event := by
    cases event with
    | ioUringResult res =>
      show (s.onYield (.ioUringResult res)).Plans [res.op]
      simp only [onYield]
      split
      · exact fun _ _ => ⟨[], rfl, rfl⟩
      · exact ⟨[], rfl, rfl⟩
    | childTaskCompletion res => exact rfl
    | callStarted procedureId => exact trivial
    | timeout timerId => exact trivial
    | wakeup taskId => exact trivial

end BandwidthMonitorAccept

/-- In every run on any number of threads, each of the two sockets of a `BandwidthMonitorAccept` has one
accept request for each procedure of it that was started. -/
theorem monitor_accepts_armed {V : Vocabulary} {σ : Type} (P : Program V σ) (o : Id)
    (hosts : Hosts P o BandwidthMonitorAccept.handlers) (size : Nat) (malloc : Nat → Nat) (heap : σ)
    (s : RequestHistory V σ)
    (h : Reached (RequestHistory.step P) (fun _ _ => True)
      { history := { world := { size, malloc, heap } } } s)
    (t p : Nat) (hstarted : .started t o (some p) ∈ s.history.world.log)
    (hdeleted : .deleted t o ∉ s.history.world.log) (op : Int) (hop : op = 0 ∨ op = 1) :
    (s.history.world.pending t).count (op, o, some p) +
      ((s.history.world.queues t).filterMap EventVariant.answer).count (op, o, some p) = 1 := by
  refine hosts.armed BandwidthMonitorAccept.handlers_rearms h hstarted hdeleted ?_
  rcases hop with rfl | rfl <;> rfl

namespace BandwidthMonitorAccept

/-! ## The slots of closed connections -/

variable {s s' : BandwidthMonitorAccept} {id : Id} {idx : Nat}

/-- A handler, with the tables that the runtime has at its event. -/
def handle (s : BandwidthMonitorAccept) (x : EventType × IoUringData vocabulary) :
    Except Fault BandwidthMonitorAccept :=
  ((s.onYield x.1).run { uringData := x.2 }).map (·.1.2)

theorem subscript_kept (h : s.indices id = some idx) (taskId : Id) :
    (s.subscript taskId).2.indices id = some idx := by
  simp only [subscript]
  split
  · exact h
  · rename_i hnone
    have hne : id ≠ taskId := fun heq => by rw [heq, hnone] at h; cases h
    exact (Function.update_of_ne hne ..).trans h

/-- A handler enters the slots of new calls, and leaves the others. -/
theorem handle_kept {x : EventType × IoUringData vocabulary} (h : s.indices id = some idx)
    (hfresh : id ≠ some x.2.localProcId) (hhandle : s.handle x = .ok s') :
    s'.indices id = some idx := by
  obtain ⟨event, data⟩ := x
  obtain ⟨⟨⟨y, s₁⟩, es⟩, hrun, rfl⟩ := exists_of_map_eq_ok hhandle
  cases event with
  | childTaskCompletion res =>
    obtain ⟨u, es₁, -, hreturn⟩ := Script.run_bind_ok hrun
    obtain ⟨hresult, -⟩ := Prod.mk.inj (Except.ok.inj hreturn)
    obtain ⟨-, rfl⟩ := Prod.mk.inj hresult
    exact subscript_kept h res.taskId
  | ioUringResult res =>
    by_cases hres : 0 ≤ res.res
    · simp [onYield, hres, queueAccept] at hrun
      obtain ⟨⟨-, rfl⟩, -⟩ := hrun
      exact (Function.update_of_ne hfresh ..).trans h
    · simp [onYield, hres, queueAccept] at hrun
      obtain ⟨⟨-, rfl⟩, -⟩ := hrun
      exact h
  | callStarted procedureId => cases hrun
  | timeout timerId => cases hrun
  | wakeup taskId => cases hrun

/-- The slot of a connection is never given up: however many events came since, a completion of its
task deletes the object that is in the slot by then, as long as no other call got the same identifier. -/
theorem completion_deletes_slot (h : s.indices id = some idx)
    (hrun : Reached handle (fun _ x => id ≠ some x.2.localProcId) s s')
    {res : ChildTaskCompletion} (hres : res.taskId = id) :
    s'.onYield (.childTaskCompletion res) =
      Script.d (V := vocabulary) () idx >>= fun _ => pure (none, s') := by
  have hkept : s'.indices id = some idx :=
    hrun.invariant (I := fun s => s.indices id = some idx) h
      fun _ _ _ hs hfresh hhandle => handle_kept hs hfresh hhandle
  simp only [onYield, subscript, hres, hkept]

/-! ## Connections that end once -/

/-- An event with the tables that the runtime has at it. With the result of an accept, the kernel may
have written the length of the address of the client. -/
structure Occurrence where
  event : EventType
  data : IoUringData vocabulary
  written : Option Nat := none

/-- What the kernel wrote before the event. -/
def Occurrence.write (x : Occurrence) (l : AioLanding.AddrLengths) : AioLanding.AddrLengths :=
  match x.event, x.written with
  | .ioUringResult res, some len => l.write res.op len
  | _, _ => l

/-- `BandwidthMonitorAccept` at an event. -/
def written (s : BandwidthMonitorAccept) (x : Occurrence) : BandwidthMonitorAccept :=
  { s with lengths := x.write s.lengths }

/-- `LandingAccept` at an event. -/
def landingWritten (l : AioLanding.LandingAccept) (x : Occurrence) : AioLanding.LandingAccept :=
  { l with lengths := x.write l.lengths }

/-- The outcomes of the handlers of a class on a sequence of events. What is queued is in the outcome. -/
def trace {S : Type} (C : Acceptor vocabulary S) (written : S → Occurrence → S) :
    S → List Occurrence → List (Except Fault (Yielded × EventState vocabulary))
  | _, [] => []
  | s, x :: xs =>
    match (C.onYield (written s x) x.event).run { uringData := x.data } with
    | .error e => [.error e]
    | .ok ((y, s'), es) => .ok (y, es) :: trace C written s' xs

/-- The handlers of `BandwidthMonitorAccept` on a sequence of events. -/
abbrev monitorTrace (enableTls : Bool) (events : List Occurrence) :
    List (Except Fault (Yielded × EventState vocabulary)) :=
  trace handlers written { enableTls } events

/-- The handlers of `LandingAccept` on the same events. -/
abbrev landingTrace (enableTls : Bool) (events : List Occurrence) :
    List (Except Fault (Yielded × EventState vocabulary)) :=
  trace AioLanding.LandingAccept.handlers landingWritten { useTls := enableTls } events

/-- What is queued, but for the lengths in the accept requests. -/
def withoutLengths (es : EventState vocabulary) : EventState vocabulary :=
  { es with uring := es.uring.map fun q => { q with fn := { q.fn with addrLen := none } } }

/-- An outcome without the lengths in its accept requests. -/
def outcome (r : Except Fault (Yielded × EventState vocabulary)) :
    Except Fault (Yielded × EventState vocabulary) :=
  r.map fun x => (x.1, withoutLengths x.2)

theorem withoutLengths_queueUring (es : EventState vocabulary) (op : Int) (len : Option Nat) :
    withoutLengths (es.queueUring op ⟨op, len⟩) =
      (withoutLengths es).queueUring op ⟨op, none⟩ := by
  simp [withoutLengths, EventState.queueUring]

variable {l l' : AioLanding.LandingAccept} {closed : List Id}

/-- The two classes have the same entries for the tasks that are not closed. -/
structure Agrees (closed : List Id) (s : BandwidthMonitorAccept) (l : AioLanding.LandingAccept) :
    Prop where
  tls : s.enableTls = l.useTls
  indices : ∀ id, id ∉ closed → s.indices id = l.indices id

/-- The tasks that are closed after an event. -/
def closedAfter (closed : List Id) : EventType → List Id
  | .childTaskCompletion res => res.taskId :: closed
  | _ => closed

theorem subscript_other (s : BandwidthMonitorAccept) {taskId : Id} (hne : id ≠ taskId) :
    (s.subscript taskId).2.indices id = s.indices id := by
  simp only [subscript]
  split
  · rfl
  · exact Function.update_of_ne hne ..

theorem subscript_tls (s : BandwidthMonitorAccept) (taskId : Id) :
    (s.subscript taskId).2.enableTls = s.enableTls := by
  simp only [subscript]
  split <;> rfl

/-- A completion closes the task in both. -/
theorem Agrees.close (h : Agrees closed s l) (taskId : Id) :
    Agrees (taskId :: closed) (s.subscript taskId).2 ((l.subscript taskId).2.erase taskId) := by
  constructor
  · rw [subscript_tls, h.tls]
    simp only [AioLanding.LandingAccept.subscript]
    split <;> rfl
  · intro id hid
    obtain ⟨hne, hopen⟩ := not_or.mp fun hor => hid (List.mem_cons.mpr hor)
    rw [subscript_other s hne, h.indices id hopen]
    have herase : ((l.subscript taskId).2.erase taskId).indices id =
        (l.subscript taskId).2.indices id := Function.update_of_ne hne ..
    rw [herase]
    simp only [AioLanding.LandingAccept.subscript]
    split
    · rfl
    · exact (Function.update_of_ne hne ..).symm

/-- A new call is entered in both. -/
theorem Agrees.enter (h : Agrees closed s l) (taskid : Id) (idx : Nat)
    (lengths : AioLanding.AddrLengths) :
    Agrees closed { s with indices := Function.update s.indices taskid (some idx) }
      { l with lengths, indices := Function.update l.indices taskid (some idx) } := by
  constructor
  · exact h.tls
  · intro id hopen
    simp only [Function.update_apply]
    split
    · rfl
    · exact h.indices id hopen

theorem Agrees.written (h : Agrees closed s l) (x : Occurrence) :
    Agrees closed (s.written x) (landingWritten l x) := ⟨h.tls, h.indices⟩

/-- On an event that closes no task again, the handlers do the same. -/
theorem Agrees.onYield (h : Agrees closed s l) {event : EventType}
    (hevent : (closedAfter closed event).Nodup) (es : EventState vocabulary) :
    (∃ e, (s.onYield event).run es = .error e ∧ (l.onYield event).run es = .error e) ∨
    ∃ y s' l' es₁ es₂, (s.onYield event).run es = .ok ((y, s'), es₁) ∧
      (l.onYield event).run es = .ok ((y, l'), es₂) ∧ withoutLengths es₁ = withoutLengths es₂ ∧
      Agrees (closedAfter closed event) s' l' := by
  cases event with
  | childTaskCompletion res =>
    have hopen : res.taskId ∉ closed := (List.nodup_cons.mp hevent).1
    have hslot : (s.subscript res.taskId).1 = (l.subscript res.taskId).1 := by
      simp only [subscript, AioLanding.LandingAccept.subscript, h.indices _ hopen]
      cases l.indices res.taskId <;> rfl
    cases hdelete : es.queueDelete () (l.subscript res.taskId).1 with
    | error e =>
      left
      refine ⟨e, ?_, ?_⟩
      · simp [BandwidthMonitorAccept.onYield, hslot, hdelete, Except.map]
      · simp [AioLanding.LandingAccept.onYield, hdelete, Except.map]
    | ok es' =>
      right
      refine ⟨none, _, _, es', es', ?_, ?_, rfl, h.close res.taskId⟩
      · simp [BandwidthMonitorAccept.onYield, hslot, hdelete, Except.map]
      · simp [AioLanding.LandingAccept.onYield, hdelete, Except.map]
  | ioUringResult res =>
    right
    by_cases hres : 0 ≤ res.res
    · let queued := es.queueConstruct (V := vocabulary) false () ⟨res.res, l.useTls⟩
      let called := queued.2.callAt () queued.1 .start
      refine ⟨none, _, _, called.2.queueUring res.op ⟨res.op, s.lengths.get res.op⟩,
        called.2.queueUring res.op ⟨res.op, AioLanding.AddrLengths.sizes.get res.op⟩, ?_, ?_, ?_,
        h.enter called.1 queued.1 .sizes⟩
      · simp [BandwidthMonitorAccept.onYield, queueAccept, hres, h.tls, queued, called]
      · simp [AioLanding.LandingAccept.onYield, AioLanding.LandingAccept.queueAccept, hres, queued,
          called]
      · rw [withoutLengths_queueUring, withoutLengths_queueUring]
    · refine ⟨none, s, { l with lengths := .sizes },
        es.queueUring res.op ⟨res.op, s.lengths.get res.op⟩,
        es.queueUring res.op ⟨res.op, AioLanding.AddrLengths.sizes.get res.op⟩, ?_, ?_, ?_,
        ⟨h.tls, h.indices⟩⟩
      · simp [BandwidthMonitorAccept.onYield, queueAccept, hres]
      · simp [AioLanding.LandingAccept.onYield, AioLanding.LandingAccept.queueAccept, hres]
      · rw [withoutLengths_queueUring, withoutLengths_queueUring]
  | callStarted procedureId => exact Or.inl ⟨_, rfl, rfl⟩
  | timeout timerId => exact Or.inl ⟨_, rfl, rfl⟩
  | wakeup taskId => exact Or.inl ⟨_, rfl, rfl⟩

theorem Agrees.trace_eq {events : List Occurrence} (h : Agrees closed s l)
    (hnodup : (AioLanding.completions (events.map (·.event)) ++ closed).Nodup) :
    (trace handlers BandwidthMonitorAccept.written s events).map outcome =
      (trace AioLanding.LandingAccept.handlers landingWritten l events).map outcome := by
  induction events generalizing s l closed with
  | nil => rfl
  | cons x events ih =>
    have hnext : (AioLanding.completions (events.map (·.event)) ++
        closedAfter closed x.event).Nodup := by
      obtain ⟨event, data, len⟩ := x
      cases event with
      | childTaskCompletion res => exact List.nodup_middle.mpr hnodup
      | _ => exact hnodup
    have hevent : (closedAfter closed x.event).Nodup := (List.nodup_append.mp hnext).2.1
    obtain ⟨e, hs, hl⟩ | ⟨y, s', l', es₁, es₂, hs, hl, hsame, hagrees⟩ :=
      (h.written x).onYield hevent { uringData := x.data }
    · simp only [trace, handlers, AioLanding.LandingAccept.handlers, hs, hl]
    · have hrest := ih hagrees hnext
      simp only [trace, handlers, AioLanding.LandingAccept.handlers, hs, hl] at hrest ⊢
      rw [List.map_cons, List.map_cons, hrest]
      simp only [outcome, Except.map, hsame]

/-! ## The lengths in the accept requests -/

theorem subscript_lengths (s : BandwidthMonitorAccept) (taskId : Id) :
    (s.subscript taskId).2.lengths = s.lengths := by
  simp only [subscript]
  split <;> rfl

theorem uring_queueDelete {es es' : EventState vocabulary} {idx : Nat}
    (h : es.queueDelete () idx = .ok es') : es'.uring = es.uring := by
  unfold EventState.queueDelete at h
  split at h
  · cases h
  · split at h
    · cases h
    · obtain rfl := Except.ok.inj h
      rfl

/-- A request that was queued alone. -/
theorem addrLen_of_queueUring {es : EventState vocabulary} (hes : es.uring = [])
    (lengths : AioLanding.AddrLengths) (op : Int) :
    ∀ q ∈ (es.queueUring (V := vocabulary) op ⟨op, lengths.get op⟩).uring,
      q.fn.addrLen = lengths.get q.fn.op := by
  intro q hq
  simp only [EventState.queueUring, hes, List.nil_append, List.mem_singleton] at hq
  rw [hq]

variable {event : EventType} {data : IoUringData vocabulary} {y : Yielded}
  {es : EventState vocabulary}

/-- A handler of `BandwidthMonitorAccept` leaves the lengths, and passes the one of the socket. -/
theorem onYield_lengths (h : (s.onYield event).run { uringData := data } = .ok ((y, s'), es)) :
    s'.lengths = s.lengths ∧ ∀ q ∈ es.uring, q.fn.addrLen = s.lengths.get q.fn.op := by
  cases event with
  | childTaskCompletion res =>
    obtain ⟨u, es₁, hdelete, hreturn⟩ := Script.run_bind_ok h
    obtain ⟨hresult, rfl⟩ := Prod.mk.inj (Except.ok.inj hreturn)
    obtain ⟨-, rfl⟩ := Prod.mk.inj hresult
    rw [Script.run_d] at hdelete
    obtain ⟨es₂, hqueue, heq⟩ := exists_of_map_eq_ok hdelete
    obtain ⟨-, rfl⟩ := Prod.mk.inj heq
    refine ⟨subscript_lengths s res.taskId, fun q hq => ?_⟩
    rw [uring_queueDelete hqueue] at hq
    cases hq
  | ioUringResult res =>
    by_cases hres : 0 ≤ res.res
    · simp [onYield, hres, queueAccept] at h
      obtain ⟨⟨-, rfl⟩, rfl⟩ := h
      exact ⟨rfl, addrLen_of_queueUring rfl s.lengths res.op⟩
    · simp [onYield, hres, queueAccept] at h
      obtain ⟨⟨-, rfl⟩, rfl⟩ := h
      exact ⟨rfl, addrLen_of_queueUring rfl s.lengths res.op⟩
  | callStarted procedureId => cases h
  | timeout timerId => cases h
  | wakeup taskId => cases h

/-- A handler of `LandingAccept` passes the size of the address. -/
theorem landing_lengths (h : (l.onYield event).run { uringData := data } = .ok ((y, l'), es)) :
    ∀ q ∈ es.uring, q.fn.addrLen = AioLanding.AddrLengths.sizes.get q.fn.op := by
  cases event with
  | childTaskCompletion res =>
    obtain ⟨u, es₁, hdelete, hreturn⟩ := Script.run_bind_ok h
    obtain ⟨-, rfl⟩ := Prod.mk.inj (Except.ok.inj hreturn)
    rw [Script.run_d] at hdelete
    obtain ⟨es₂, hqueue, heq⟩ := exists_of_map_eq_ok hdelete
    obtain ⟨-, rfl⟩ := Prod.mk.inj heq
    intro q hq
    rw [uring_queueDelete hqueue] at hq
    cases hq
  | ioUringResult res =>
    by_cases hres : 0 ≤ res.res
    · simp [AioLanding.LandingAccept.onYield, hres, AioLanding.LandingAccept.queueAccept] at h
      obtain ⟨-, rfl⟩ := h
      exact addrLen_of_queueUring rfl .sizes res.op
    · simp [AioLanding.LandingAccept.onYield, hres, AioLanding.LandingAccept.queueAccept] at h
      obtain ⟨-, rfl⟩ := h
      exact addrLen_of_queueUring rfl .sizes res.op
  | callStarted procedureId => cases h
  | timeout timerId => cases h
  | wakeup taskId => cases h

/-- The accept requests of an outcome pass these lengths. -/
def Passes (lengths : AioLanding.AddrLengths) (r : Except Fault (Yielded × EventState vocabulary)) :
    Prop :=
  ∀ y es, r = .ok (y, es) → ∀ q ∈ es.uring, q.fn.addrLen = lengths.get q.fn.op

/-- What the lengths hold when the kernel has written what it did with these events. -/
def held (lengths : AioLanding.AddrLengths) (events : List Occurrence) : AioLanding.AddrLengths :=
  events.foldl (fun lengths x => x.write lengths) lengths

theorem passes_monitor {events : List Occurrence} {k : Nat}
    {r : Except Fault (Yielded × EventState vocabulary)}
    (h : (trace handlers written s events)[k]? = some r) :
    Passes (held s.lengths (events.take (k + 1))) r := by
  induction events generalizing s k with
  | nil => cases h
  | cons x events ih =>
    simp only [trace, handlers] at h
    split at h
    · rename_i e hrun
      cases k with
      | zero =>
        obtain rfl := Option.some.inj h
        intro y es hr
        cases hr
      | succ k => cases h
    · rename_i y₁ s₁ es₁ hrun
      obtain ⟨hkept, hrequests⟩ := onYield_lengths hrun
      cases k with
      | zero =>
        obtain rfl := Option.some.inj h
        intro y es hr
        obtain ⟨-, rfl⟩ := Prod.mk.inj (Except.ok.inj hr)
        exact hrequests
      | succ k =>
        have hrest := ih h
        rw [hkept] at hrest
        exact hrest

theorem passes_landing {events : List Occurrence} {r : Except Fault (Yielded × EventState vocabulary)}
    (h : r ∈ trace AioLanding.LandingAccept.handlers landingWritten l events) : Passes .sizes r := by
  induction events generalizing l with
  | nil => cases h
  | cons x events ih =>
    simp only [trace, AioLanding.LandingAccept.handlers] at h
    split at h
    · obtain rfl := List.mem_singleton.mp h
      intro y es hr
      cases hr
    · rename_i y₁ l₁ es₁ hrun
      rcases List.mem_cons.mp h with rfl | h
      · intro y es hr
        obtain ⟨-, rfl⟩ := Prod.mk.inj (Except.ok.inj hr)
        exact landing_lengths hrun
      · exact ih h

/-- As long as no task completes twice, the handlers of both classes queue the same, whatever the
runtime does between the events, but for the lengths in the accept requests: `LandingAccept` passes the
sizes of the addresses, and `BandwidthMonitorAccept` what the kernel wrote last or what was there at
first, which is indeterminate for IPv6. -/
theorem trace_eq_landing (enableTls : Bool) (events : List Occurrence)
    (h : (AioLanding.completions (events.map (·.event))).Nodup) :
    (monitorTrace enableTls events).map outcome = (landingTrace enableTls events).map outcome ∧
    (∀ r ∈ landingTrace enableTls events, Passes .sizes r) ∧
    ∀ k r, (monitorTrace enableTls events)[k]? = some r →
      Passes (held ⟨some 16, none⟩ (events.take (k + 1))) r := by
  have hagrees : Agrees [] { enableTls } { useTls := enableTls } := ⟨rfl, fun _ _ => rfl⟩
  refine ⟨hagrees.trace_eq ?_, fun r => passes_landing, fun k r => passes_monitor⟩
  rw [List.append_nil]
  exact h

/-- The tables when the connections have these objects in their slots, after `calls` calls. -/
def slotsOf (objects : List (Option Nat)) (calls : Nat) : IoUringData vocabulary :=
  { ({} : IoUringData vocabulary).setSlots () (objects.map fun o =>
      o.map fun n => { locator := some ⟨some n, [0]⟩ }) with
    localProcId := calls }

/-- The accept of a client over IPv6 that fails with `-ECONNABORTED`. -/
def aborted : EventType := .ioUringResult { callingId := some 0, op := 1, res := -103 }

/-- Two clients connect, the second one leaves, one over IPv6 fails, and a third one gets the slot. -/
def threeClients : List Occurrence :=
  [⟨AioLanding.accepted 7, slotsOf [] 0, some 16⟩,
    ⟨AioLanding.accepted 8, slotsOf [some 0] 1, some 16⟩,
    ⟨AioLanding.finished 1, slotsOf [some 0, some 1] 2, none⟩,
    ⟨aborted, slotsOf [some 0, none] 2, none⟩,
    ⟨AioLanding.accepted 9, slotsOf [some 0, none] 2, some 16⟩]

/-- The objects that a handler deletes. -/
def deleted (r : Except Fault (Yielded × EventState vocabulary)) : Except Fault (List Id) :=
  r.map fun x => x.2.delete.map (·.objId)

/-- The accept requests of a handler. -/
def accepts (r : Except Fault (Yielded × EventState vocabulary)) :
    Except Fault (List AioLanding.AcceptRequest) :=
  r.map fun x => x.2.uring.map (·.fn)

/-- Both classes delete the second client. Their requests for IPv6 differ. -/
theorem threeClients_trace :
    (monitorTrace true threeClients).map deleted = [.ok [], .ok [], .ok [some 1], .ok [], .ok []] ∧
    (monitorTrace true threeClients).map accepts =
      [.ok [⟨0, some 16⟩], .ok [⟨0, some 16⟩], .ok [], .ok [⟨1, none⟩], .ok [⟨0, some 16⟩]] ∧
    (landingTrace true threeClients).map accepts =
      [.ok [⟨0, some 16⟩], .ok [⟨0, some 16⟩], .ok [], .ok [⟨1, some 28⟩], .ok [⟨0, some 16⟩]] ∧
    (monitorTrace true threeClients).map outcome = (landingTrace true threeClients).map outcome ∧
    (∀ r ∈ landingTrace true threeClients, Passes .sizes r) ∧
    ∀ k r, (monitorTrace true threeClients)[k]? = some r →
      Passes (held ⟨some 16, none⟩ (threeClients.take (k + 1))) r := by
  refine ⟨?_, ?_, ?_, trace_eq_landing true threeClients (by decide)⟩
  · decide +kernel
  · decide +kernel
  · decide +kernel

/-- The task of the second client completes again: one class deletes the third client, the other one
the first. -/
theorem second_completion_differs :
    let events := threeClients ++ [⟨AioLanding.finished 1, slotsOf [some 0, some 2] 3, none⟩]
    (monitorTrace true events).map deleted =
      [.ok [], .ok [], .ok [some 1], .ok [], .ok [], .ok [some 2]] ∧
    (landingTrace true events).map deleted =
      [.ok [], .ok [], .ok [some 1], .ok [], .ok [], .ok [some 0]] := by
  decide +kernel

end BandwidthMonitorAccept

end LocalSoftware.BandwidthMonitor
