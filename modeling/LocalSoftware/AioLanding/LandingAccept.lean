import LocalSoftware.Common.Event
import Mathlib.Data.List.Nodup

/-!
# Accepting connections of the landing page

`LandingAccept` of `landing_accept.h` and `landing_accept.cpp`. For every accepted socket it
constructs an `AioLandingHTTP`, calls its `start`, and remembers the slot of the object under the
identifier of the call; when the call completes it deletes the object in that slot.

`Listener` puts the handler into the part of the runtime that it meets: constructed objects get fresh
identifiers, a call goes to the object in its slot, and events are the results of accepts and the
completions of start tasks, in any order and also more than once.
`isolated_iff_nodup` says for which event sequences connections are kept apart.
-/

set_option autoImplicit false

namespace LocalSoftware.AioLanding

/-- The constructions that are queued: an `AioLandingHTTP` over an accepted socket. -/
structure ChildConstruct where
  file : Int
  useTls : Bool
deriving DecidableEq, Repr

/-- The calls that are queued. -/
inductive ChildCall where
  | start
deriving DecidableEq, Repr

/-- The requests that are queued: an accept on one of the two listening sockets, with what the length
beside the address of the client holds. `none` is an indeterminate value. -/
structure AcceptRequest where
  op : Int
  addrLen : Option Nat
deriving DecidableEq, Repr

/-- `client_addr_len_` and `client_addr6_len_`. -/
structure AddrLengths where
  clientAddrLen : Option Nat
  clientAddr6Len : Option Nat
deriving DecidableEq, Repr

namespace AddrLengths

/-- `sizeof(sockaddr_in)` and `sizeof(sockaddr_in6)`. -/
def sizes : AddrLengths := ⟨some 16, some 28⟩

/-- The length that the request for a socket points to. -/
def get (l : AddrLengths) (op : Int) : Option Nat := if op = 0 then l.clientAddrLen else l.clientAddr6Len

/-- The kernel writes the length of an address. -/
def write (l : AddrLengths) (op : Int) (len : Nat) : AddrLengths :=
  if op = 0 then { l with clientAddrLen := some len } else { l with clientAddr6Len := some len }

end AddrLengths

/-- What the object queues; its children are all of the class `AioLandingHTTP`. -/
abbrev vocabulary : Vocabulary where
  TypeIndex := Unit
  ConstructFunc := ChildConstruct
  FunctionFunc := ChildCall
  Sqe := AcceptRequest

/-- `LandingAccept`, as far as its handlers read it. -/
structure LandingAccept where
  useTls : Bool
  lengths : AddrLengths := .sizes
  indices : Id → Option Nat := fun _ => none

namespace LandingAccept

/-- `queue_accept`. -/
def queueAccept (s : LandingAccept) (op : Int) : Script vocabulary Unit :=
  Script.cUring (V := vocabulary) op ⟨op, s.lengths.get op⟩

/-- `init`. -/
def init (s : LandingAccept) : Script vocabulary LandingAccept := do
  s.queueAccept 0
  s.queueAccept 1
  return s

/-- `indices[taskId]`, which inserts slot 0 where there is no entry. -/
def subscript (s : LandingAccept) (taskId : Id) : Nat × LandingAccept :=
  match s.indices taskId with
  | some idx => (idx, s)
  | none => (0, { s with indices := Function.update s.indices taskId (some 0) })

/-- `indices.erase(taskId)`. -/
def erase (s : LandingAccept) (taskId : Id) : LandingAccept :=
  { s with indices := Function.update s.indices taskId none }

/-- `on_yield`. -/
def onYield (s : LandingAccept) : EventType → Script vocabulary (Yielded × LandingAccept)
  | .childTaskCompletion res => do
    -- `indices[..]` enters a slot 0 for a task that is not there
    let (idx, s) := s.subscript res.taskId
    Script.d (V := vocabulary) () idx
    return (none, s.erase res.taskId)
  | .ioUringResult res => do
    if 0 ≤ res.res then
      let idx ← Script.i (V := vocabulary) () ⟨res.res, s.useTls⟩
      let taskid ← Script.cAt (V := vocabulary) () idx .start
      let s := { s with
        lengths := .sizes
        indices := Function.update s.indices taskid (some idx) }
      -- the request is made again whether or not it was successful
      s.queueAccept res.op
      return (none, s)
    else
      let s := { s with lengths := .sizes }
      s.queueAccept res.op
      return (none, s)
  | _ => .throw .badVariantAccess

end LandingAccept

/-- The accepting object and what the runtime knows of its connections: the number of objects
constructed for it, and the object on which each start task was called. -/
structure Listener where
  accept : LandingAccept
  data : IoUringData vocabulary := {}
  objects : Nat := 0
  connection : Id → Option Id := fun _ => none

namespace Listener

/-- `process_queued_construct` for the queued constructions, with the next identifiers. -/
def processConstruct (s : Listener) (thread : Nat) :
    List (EventQueuedConstruct vocabulary) → Listener
  | [] => s
  | q :: qs =>
    match s.data.evinfo q.idx q.vidx with
    | .error _ => s.processConstruct thread qs
    | .ok _ =>
      { s with
        data := s.data.setLocator q.idx q.vidx ⟨some s.objects, [thread]⟩
        objects := s.objects + 1 }.processConstruct thread qs

/-- `process_queued_function` for the queued calls. -/
def processFunction (s : Listener) : List (EventQueuedFunction vocabulary) → Except Fault Listener
  | [] => .ok s
  | q :: qs =>
    match s.data.evinfo q.idx q.vidx with
    | .error _ => s.processFunction qs
    | .ok info =>
      match info.locator with
      | none => .error (.invalidArgument "Object was not initialized")
      | some locator =>
        { s with
          connection := Function.update s.connection q.localId (some locator.objectId)
        }.processFunction qs

/-- One event: the handler runs, then its queues are processed. The result has the deletions that
the handler asked for. -/
def step (s : Listener) (thread : Nat) (event : EventType) :
    Except Fault (List EventQueuedDelete × Listener) :=
  match (s.accept.onYield event).run { uringData := s.data } with
  | .error e => .error e
  | .ok ((_, accept), es) =>
    (({ s with accept, data := es.uringData }.processConstruct thread es.construct).processFunction
      es.function).map fun s' => (es.delete, s')

/-- The state after `init`. -/
def initial (useTls : Bool) : Listener := { accept := { useTls } }

end Listener

/-- The start tasks whose completions are among the events. -/
def completions (events : List EventType) : List Id :=
  events.filterMap fun
    | .childTaskCompletion res => some res.taskId
    | _ => none

/-- The event sequences that the runtime can deliver, when `n` connections have been accepted:
results of accepts, and completions of the start tasks 0, 1, … of connections accepted so far. A
start task may complete more than once. -/
def Deliverable : Nat → List EventType → Prop
  | _, [] => True
  | n, .ioUringResult res :: events => Deliverable (if 0 ≤ res.res then n + 1 else n) events
  | n, .childTaskCompletion res :: events =>
    (∃ k < n, res.taskId = some k) ∧ Deliverable n events
  | _, _ :: _ => False

/-- A deletion made for an event: the event completes a start task, and the deleted object is the
one on which that task was called and is still in its slot. -/
def OwnDelete (s : Listener) (event : EventType) (del : EventQueuedDelete) : Prop :=
  ∃ res, event = .childTaskCompletion res ∧ s.connection res.taskId = some del.objId ∧
    ∃ idx info, s.data.evinfo () idx = .ok info ∧ info.locator = some ⟨del.objId, del.thread⟩

/-- Along the whole run no handler throws and every deletion is the event's own. -/
def Isolated : Listener → List (Nat × EventType) → Prop
  | _, [] => True
  | s, (thread, event) :: events =>
    ∃ deletes s', s.step thread event = .ok (deletes, s') ∧
      (∀ del ∈ deletes, OwnDelete s event del) ∧ Isolated s' events

/-! ## What one event does -/

namespace Listener

open LandingAccept

variable {s : Listener} {n : Nat} {closed : List Id} {thread : Nat}

/-- The slot that the next connection is put into. -/
def nextSlot (s : Listener) : Nat := IoUringData.freeSlot (s.data.slots ())

/-- The state after a connection is accepted. -/
def opened (s : Listener) (thread : Nat) : Listener where
  accept := { s.accept with
    lengths := .sizes
    indices := Function.update s.accept.indices (some s.data.localProcId) (some s.nextSlot) }
  data := { s.data.setSlots () (IoUringData.place (s.data.slots ()) s.nextSlot
    { locator := some ⟨some s.objects, [thread]⟩ }) with
      localProcId := s.data.localProcId + 1 }
  objects := s.objects + 1
  connection := Function.update s.connection (some s.data.localProcId) (some (some s.objects))

/-- The state after a failed accept: only the lengths are reset. -/
def rejected (s : Listener) : Listener := { s with accept := { s.accept with lengths := .sizes } }

/-- The state after the object in slot `idx` is deleted for the task `t`. -/
def closedAt (s : Listener) (t : Id) (idx : Nat) : Listener :=
  { s with
    accept := s.accept.erase t
    data := s.data.setSlots () ((s.data.slots ()).set idx none) }

/-- A queued construction and the call made on it, processed together. -/
theorem process_accept {s : Listener} {slots : List (Option EventInfo)} {loc : Nat}
    (hslots : s.data.slots () = IoUringData.place slots loc {}) (hloc : loc ≤ slots.length)
    (q : EventQueuedConstruct vocabulary) (hq : q.vidx = loc)
    (f : EventQueuedFunction vocabulary) (hf : f.vidx = loc) :
    (s.processConstruct thread [q]).processFunction [f] =
      .ok { s with
        data := s.data.setSlots () (IoUringData.place slots loc
          { locator := some ⟨some s.objects, [thread]⟩ })
        objects := s.objects + 1
        connection := Function.update s.connection f.localId (some (some s.objects)) } := by
  have hinfo : s.data.evinfo () loc = .ok {} := by
    rw [IoUringData.evinfo_eq_ok_iff, hslots, IoUringData.getElem?_place hloc, if_pos rfl]
  have hdata : s.data.setLocator () loc ⟨some s.objects, [thread]⟩ =
      s.data.setSlots () (IoUringData.place slots loc
        { locator := some ⟨some s.objects, [thread]⟩ }) := by
    rw [IoUringData.setLocator, hslots, IoUringData.modify_place hloc]
  have hinfo' : (s.data.setSlots () (IoUringData.place slots loc
      { locator := some ⟨some s.objects, [thread]⟩ })).evinfo () loc =
      .ok { locator := some ⟨some s.objects, [thread]⟩ } := by
    rw [IoUringData.evinfo_eq_ok_iff, IoUringData.slots_setSlots_self,
      IoUringData.getElem?_place hloc, if_pos rfl]
  simp only [processConstruct, hq, hinfo, hdata, processFunction, hf, hinfo']

/-- The object of `LandingAccept` after the handler run for an accepted connection. -/
def acceptedState (s : Listener) (res : IoUringResult) : EventState vocabulary :=
  ((EventState.queueConstruct (V := vocabulary) { uringData := s.data } false ()
    ⟨res.res, s.accept.useTls⟩).2.callAt () s.nextSlot .start).2.queueUring res.op
      ⟨res.op, AddrLengths.sizes.get res.op⟩

theorem onYield_accept {res : IoUringResult} (h : 0 ≤ res.res) :
    (s.accept.onYield (.ioUringResult res)).run { uringData := s.data } =
      .ok ((none, (s.opened thread).accept), s.acceptedState res) := by
  simp [onYield, h, queueAccept, opened, nextSlot]
  exact ⟨rfl, rfl⟩

theorem step_accept {res : IoUringResult} (h : 0 ≤ res.res) :
    s.step thread (.ioUringResult res) = .ok ([], s.opened thread) := by
  have hslots : (s.acceptedState res).uringData.slots () =
      IoUringData.place (s.data.slots ()) s.nextSlot {} := by
    simp [acceptedState, EventState.queueUring, EventState.callAt, EventState.queueConstruct,
      nextSlot, IoUringData.slots, IoUringData.setSlots]
  have hprocess := @process_accept thread
    { s with accept := (s.opened thread).accept, data := (s.acceptedState res).uringData } _ _
    hslots (IoUringData.freeSlot_le _) ⟨(), s.nextSlot, ⟨res.res, s.accept.useTls⟩, false⟩ rfl
    ⟨(), s.nextSlot, some s.data.localProcId, .start⟩ rfl
  unfold step
  rw [onYield_accept h]
  refine (congrArg (Except.map _) hprocess).trans ?_
  simp only [Except.map, Except.ok.injEq, Prod.mk.injEq]
  refine ⟨rfl, ?_⟩
  simp [acceptedState, EventState.queueUring, EventState.callAt, EventState.queueConstruct,
    opened, nextSlot, IoUringData.setSlots]

theorem step_reject {res : IoUringResult} (h : ¬ 0 ≤ res.res) :
    s.step thread (.ioUringResult res) = .ok ([], s.rejected) := by
  have hrun : (s.accept.onYield (.ioUringResult res)).run { uringData := s.data } =
      .ok ((none, s.rejected.accept), EventState.queueUring (V := vocabulary) { uringData := s.data }
        res.op ⟨res.op, AddrLengths.sizes.get res.op⟩) := by
    simp [onYield, h, queueAccept, rejected]
  unfold step
  rw [hrun]
  rfl

theorem erase_subscript (a : LandingAccept) (t : Id) : (a.subscript t).2.erase t = a.erase t := by
  unfold subscript erase
  cases a.indices t <;> simp

/-- A completion deletes the object in the slot that `indices` gives for its task. -/
theorem step_completion {res : ChildTaskCompletion} {info : EventInfo} {locator : Locator}
    (hinfo : s.data.evinfo () (s.accept.subscript res.taskId).1 = .ok info)
    (hloc : info.locator = some locator) :
    s.step thread (.childTaskCompletion res) =
      .ok ([⟨locator.threadId, locator.objectId⟩],
        s.closedAt res.taskId (s.accept.subscript res.taskId).1) := by
  unfold step
  simp [onYield, EventState.queueDelete, hinfo, hloc, Except.map, erase_subscript, closedAt,
    processConstruct, processFunction]

/-- Where that slot holds no object, the handler throws. -/
theorem step_completion_throws {res : ChildTaskCompletion} {e : Fault}
    (h : s.data.evinfo () (s.accept.subscript res.taskId).1 = .error e) :
    s.step thread (.childTaskCompletion res) = .error e := by
  unfold step
  simp [onYield, EventState.queueDelete, h, Except.map]

/-- The invariant of a run in which `n` connections were accepted and the start tasks `closed`
have completed: the open connections are in slots of their own, and no other slot is occupied. -/
structure Tracked (s : Listener) (n : Nat) (closed : List Id) : Prop where
  procs : s.data.localProcId = n
  started : ∀ t, (s.connection t).isSome ↔ ∃ k < n, t = some k
  fresh : ∀ t o, s.connection t = some o → ∃ m < s.objects, o = some m
  apart : ∀ t t' o, s.connection t = some o → s.connection t' = some o → t = t'
  closedStarted : ∀ t ∈ closed, (s.connection t).isSome
  isOpen : ∀ t, (s.accept.indices t).isSome ↔ (s.connection t).isSome ∧ t ∉ closed
  holds : ∀ t idx, s.accept.indices t = some idx → ∃ info o thread,
    (s.data.slots ())[idx]? = some (some info) ∧ s.connection t = some o ∧
      info.locator = some ⟨o, thread⟩
  owned : ∀ idx info, (s.data.slots ())[idx]? = some (some info) →
    ∃ t, s.accept.indices t = some idx

theorem tracked_initial (useTls : Bool) : Tracked (initial useTls) 0 [] where
  procs := rfl
  started t := by simp [initial]
  fresh t o h := by simp [initial] at h
  apart t t' o h := by simp [initial] at h
  closedStarted t h := by simp at h
  isOpen t := by simp [initial]
  holds t idx h := by simp [initial] at h
  owned idx info h := by simp [initial, IoUringData.slots] at h

/-- No task has the identifier that the next call gets. -/
theorem Tracked.connection_next (h : Tracked s n closed) : s.connection (some n) = none := by
  rw [← Option.not_isSome_iff_eq_none, h.started]
  rintro ⟨k, hk, hnk⟩
  simp only [Option.some.injEq] at hnk
  omega

theorem Tracked.indices_next (h : Tracked s n closed) : s.accept.indices (some n) = none := by
  rw [← Option.not_isSome_iff_eq_none, h.isOpen, h.connection_next]
  simp

/-- A slot belongs to at most one open connection. -/
theorem Tracked.indices_injective (h : Tracked s n closed) {t t' : Id} {idx : Nat}
    (ht : s.accept.indices t = some idx) (ht' : s.accept.indices t' = some idx) : t = t' := by
  obtain ⟨info, o, thread, hslot, hconn, hloc⟩ := h.holds t idx ht
  obtain ⟨info', o', thread', hslot', hconn', hloc'⟩ := h.holds t' idx ht'
  obtain rfl : info = info' := by simpa [hslot] using hslot'
  obtain ⟨rfl, -⟩ : o = o' ∧ thread = thread' := by simpa [hloc] using hloc'
  exact h.apart t t' o hconn hconn'

theorem Tracked.rejected (h : Tracked s n closed) : Tracked s.rejected n closed := { h with }

theorem slots_opened (s : Listener) (thread idx : Nat) :
    ((s.opened thread).data.slots ())[idx]? =
      if idx = s.nextSlot then some (some { locator := some ⟨some s.objects, [thread]⟩ })
      else (s.data.slots ())[idx]? := by
  have hslots : (s.opened thread).data.slots () = IoUringData.place (s.data.slots ()) s.nextSlot
      { locator := some ⟨some s.objects, [thread]⟩ } := by
    simp [opened, IoUringData.slots, IoUringData.setSlots]
  rw [hslots]
  exact IoUringData.getElem?_place (IoUringData.freeSlot_le _) _ idx

theorem Tracked.opened (h : Tracked s n closed) (thread : Nat) :
    Tracked (s.opened thread) (n + 1) closed := by
  obtain rfl := h.procs
  have hconn : ∀ t, t ≠ some s.data.localProcId →
      (s.opened thread).connection t = s.connection t :=
    fun t ht => Function.update_of_ne ht _ _
  have hind : ∀ t, t ≠ some s.data.localProcId →
      (s.opened thread).accept.indices t = s.accept.indices t :=
    fun t ht => Function.update_of_ne ht _ _
  have hconnNew : (s.opened thread).connection (some s.data.localProcId) = some (some s.objects) :=
    Function.update_self ..
  have hindNew : (s.opened thread).accept.indices (some s.data.localProcId) = some s.nextSlot :=
    Function.update_self ..
  -- the object of the connection is a new one
  have hnew : ∀ t o, s.connection t = some o → o ≠ some s.objects := by
    rintro t o ht rfl
    obtain ⟨m, hm, heq⟩ := h.fresh t _ ht
    simp only [Option.some.injEq] at heq
    omega
  refine ⟨rfl, fun t => ?_, fun t o ht => ?_, fun t t' o ht ht' => ?_, fun t ht => ?_, fun t => ?_,
    fun t idx ht => ?_, fun idx info hslot => ?_⟩
  -- by the task: the one that is started, or an older one
  · by_cases htn : t = some s.data.localProcId
    · subst htn
      exact iff_of_true (by rw [hconnNew]; rfl) ⟨_, Nat.lt_succ_self _, rfl⟩
    · rw [hconn t htn, h.started]
      constructor
      · rintro ⟨k, hk, rfl⟩
        exact ⟨k, by omega, rfl⟩
      · rintro ⟨k, hk, rfl⟩
        have hne : k ≠ s.data.localProcId := fun heq => htn (by rw [heq])
        exact ⟨k, by omega, rfl⟩
  · by_cases htn : t = some s.data.localProcId
    · subst htn
      rw [hconnNew] at ht
      exact ⟨s.objects, Nat.lt_succ_self _, (Option.some.inj ht).symm⟩
    · rw [hconn t htn] at ht
      obtain ⟨m, hm, rfl⟩ := h.fresh t o ht
      exact ⟨m, Nat.lt_succ_of_lt hm, rfl⟩
  · by_cases htn : t = some s.data.localProcId
    · by_cases htn' : t' = some s.data.localProcId
      · rw [htn, htn']
      · rw [htn, hconnNew] at ht
        rw [hconn t' htn'] at ht'
        exact absurd (Option.some.inj ht).symm (hnew t' o ht')
    · by_cases htn' : t' = some s.data.localProcId
      · rw [htn', hconnNew] at ht'
        rw [hconn t htn] at ht
        exact absurd (Option.some.inj ht').symm (hnew t o ht)
      · rw [hconn t htn] at ht
        rw [hconn t' htn'] at ht'
        exact h.apart t t' o ht ht'
  · by_cases htn : t = some s.data.localProcId
    · rw [htn, hconnNew]
      rfl
    · rw [hconn t htn]
      exact h.closedStarted t ht
  · by_cases htn : t = some s.data.localProcId
    · subst htn
      have hnot : some s.data.localProcId ∉ closed := fun hmem => by
        have hsome := h.closedStarted _ hmem
        rw [h.connection_next] at hsome
        cases hsome
      exact iff_of_true (by rw [hindNew]; rfl) ⟨by rw [hconnNew]; rfl, hnot⟩
    · rw [hind t htn, hconn t htn]
      exact h.isOpen t
  · rw [slots_opened]
    by_cases htn : t = some s.data.localProcId
    · subst htn
      rw [hindNew] at ht
      exact ⟨_, _, _, if_pos (Option.some.inj ht).symm, hconnNew, rfl⟩
    · rw [hind t htn] at ht
      obtain ⟨info, o, th, hslot, hc, hl⟩ := h.holds t idx ht
      -- an occupied slot is not the free one
      have hne : idx ≠ s.nextSlot := by
        rintro rfl
        exact IoUringData.not_isSome_freeSlot _ info hslot
      exact ⟨info, o, th, by rw [if_neg hne]; exact hslot, by rw [hconn t htn]; exact hc, hl⟩
  · rw [slots_opened] at hslot
    by_cases hidx : idx = s.nextSlot
    · exact ⟨_, by rw [hindNew, hidx]⟩
    · rw [if_neg hidx] at hslot
      obtain ⟨t, ht⟩ := h.owned idx info hslot
      have htn : t ≠ some s.data.localProcId := by
        rintro rfl
        rw [h.indices_next] at ht
        cases ht
      exact ⟨t, by rw [hind t htn]; exact ht⟩

theorem slots_closedAt (s : Listener) (t : Id) (idx j : Nat) (info : EventInfo) :
    ((s.closedAt t idx).data.slots ())[j]? = some (some info) ↔
      j ≠ idx ∧ (s.data.slots ())[j]? = some (some info) := by
  simp only [closedAt, IoUringData.slots_setSlots_self, List.getElem?_set]
  by_cases hj : idx = j
  · subst hj
    by_cases hlt : idx < (s.data.slots ()).length <;> simp [hlt]
  · simp [hj, Ne.symm hj]

theorem Tracked.closedAt (h : Tracked s n closed) {t : Id} {idx : Nat}
    (ht : s.accept.indices t = some idx) : Tracked (s.closedAt t idx) n (t :: closed) := by
  have hself : (s.closedAt t idx).accept.indices t = none := Function.update_self ..
  have hind : ∀ t', t' ≠ t → (s.closedAt t idx).accept.indices t' = s.accept.indices t' :=
    fun t' ht' => Function.update_of_ne ht' _ _
  refine ⟨h.procs, h.started, h.fresh, h.apart, fun t' ht' => ?_, fun t' => ?_,
    fun t' j hj => ?_, fun j info hj => ?_⟩
  · rcases List.mem_cons.mp ht' with rfl | hmem
    · exact ((h.isOpen t').mp (by rw [ht]; rfl)).1
    · exact h.closedStarted t' hmem
  · by_cases htt : t' = t
    · subst htt
      rw [hself]
      exact iff_of_false (by simp) fun hc => hc.2 List.mem_cons_self
    · rw [hind t' htt, h.isOpen]
      simp [htt, Listener.closedAt]
  · have htt : t' ≠ t := by
      rintro rfl
      rw [hself] at hj
      cases hj
    rw [hind t' htt] at hj
    obtain ⟨info, o, th, hslot, hc, hl⟩ := h.holds t' j hj
    have hne : j ≠ idx := by
      rintro rfl
      exact htt (h.indices_injective hj ht)
    exact ⟨info, o, th, (slots_closedAt s t idx j info).mpr ⟨hne, hslot⟩, hc, hl⟩
  · obtain ⟨hne, hslot⟩ := (slots_closedAt s t idx j info).mp hj
    obtain ⟨t', ht'⟩ := h.owned j info hslot
    have htt : t' ≠ t := by
      rintro rfl
      rw [ht] at ht'
      exact hne (Option.some.inj ht').symm
    exact ⟨t', by rw [hind t' htt]; exact ht'⟩

/-- The first completion of a start task deletes its own connection. -/
theorem Tracked.step_first (h : Tracked s n closed) (thread : Nat) {res : ChildTaskCompletion}
    (hstarted : ∃ k < n, res.taskId = some k) (hfirst : res.taskId ∉ closed) :
    ∃ idx del, s.accept.indices res.taskId = some idx ∧
      s.step thread (.childTaskCompletion res) = .ok ([del], s.closedAt res.taskId idx) ∧
      OwnDelete s (.childTaskCompletion res) del := by
  obtain ⟨idx, hidx⟩ := Option.isSome_iff_exists.mp
    ((h.isOpen res.taskId).mpr ⟨(h.started _).mpr hstarted, hfirst⟩)
  obtain ⟨info, o, th, hslot, hconn, hloc⟩ := h.holds _ _ hidx
  have hsub : (s.accept.subscript res.taskId).1 = idx := by simp [subscript, hidx]
  have hinfo : s.data.evinfo () idx = .ok info := IoUringData.evinfo_eq_ok_iff.mpr hslot
  refine ⟨idx, ⟨th, o⟩, hidx, ?_, res, rfl, hconn, idx, info, hinfo, hloc⟩
  have hstep := @step_completion s thread res info ⟨o, th⟩ (by rw [hsub]; exact hinfo) hloc
  rw [hsub] at hstep
  exact hstep

/-- A further completion of a start task throws, or deletes the connection in slot 0. -/
theorem Tracked.not_ownDelete_again (h : Tracked s n closed) (thread : Nat)
    {res : ChildTaskCompletion} (hagain : res.taskId ∈ closed) :
    ¬ ∃ deletes s', s.step thread (.childTaskCompletion res) = .ok (deletes, s') ∧
      ∀ del ∈ deletes, OwnDelete s (.childTaskCompletion res) del := by
  rintro ⟨deletes, s', hstep, hown⟩
  have hnone : s.accept.indices res.taskId = none := by
    rw [← Option.not_isSome_iff_eq_none, h.isOpen]
    exact fun hc => hc.2 hagain
  have hsub : (s.accept.subscript res.taskId).1 = 0 := by simp [subscript, hnone]
  cases hinfo : s.data.evinfo () 0 with
  | error e =>
    rw [step_completion_throws (by rw [hsub]; exact hinfo)] at hstep
    cases hstep
  | ok info =>
    obtain ⟨t, ht⟩ := h.owned 0 info (IoUringData.evinfo_eq_ok_iff.mp hinfo)
    obtain ⟨info', o, th, hslot, hconn, hloc⟩ := h.holds t 0 ht
    obtain rfl : info' = info := by
      simpa [hslot] using IoUringData.evinfo_eq_ok_iff.mp hinfo
    rw [step_completion (by rw [hsub]; exact hinfo) hloc] at hstep
    obtain ⟨rfl, -⟩ := Prod.mk.inj (Except.ok.inj hstep)
    obtain ⟨res', hres, hconn', -⟩ := hown _ List.mem_cons_self
    obtain rfl := EventType.childTaskCompletion.inj hres
    obtain rfl := h.apart _ _ _ hconn hconn'
    rw [hnone] at ht
    cases ht

/-- From a tracked state, a run keeps connections apart exactly if each further completion is the
first one of its start task. -/
theorem Tracked.isolated_iff {s : Listener} {n : Nat} {closed : List Id}
    {events : List (Nat × EventType)} (h : Tracked s n closed)
    (hdel : Deliverable n (events.map Prod.snd)) :
    Isolated s events ↔ (completions (events.map Prod.snd)).Nodup ∧
      ∀ t ∈ completions (events.map Prod.snd), t ∉ closed := by
  -- on the events, with the tasks whose connection was closed
  induction events generalizing s n closed with
  | nil => simp [Isolated, completions]
  | cons e events ih =>
    obtain ⟨thread, event⟩ := e
    cases event with
    | ioUringResult res =>
      simp only [List.map_cons, Deliverable] at hdel
      have hcomp : completions (.ioUringResult res :: events.map Prod.snd) =
          completions (events.map Prod.snd) := rfl
      by_cases hres : 0 ≤ res.res
      · rw [if_pos hres] at hdel
        rw [List.map_cons, hcomp, ← ih (h.opened thread) hdel]
        simp [Isolated, step_accept hres]
      · rw [if_neg hres] at hdel
        rw [List.map_cons, hcomp, ← ih h.rejected hdel]
        simp [Isolated, step_reject hres]
    | childTaskCompletion res =>
      obtain ⟨hstarted, hdel⟩ := hdel
      have hcomp : completions (.childTaskCompletion res :: events.map Prod.snd) =
          res.taskId :: completions (events.map Prod.snd) := rfl
      rw [List.map_cons, hcomp]
      by_cases hmem : res.taskId ∈ closed
      -- a second completion of a task finds its slot taken by another connection, or free
      · refine iff_of_false ?_ fun hc => hc.2 _ List.mem_cons_self hmem
        rintro ⟨deletes, s', hstep, hown, -⟩
        exact h.not_ownDelete_again thread hmem ⟨deletes, s', hstep, hown⟩
      -- the first completion deletes its own object, and the task is closed
      · obtain ⟨idx, del, hidx, hstep, hown⟩ := h.step_first thread hstarted hmem
        have hrest := ih (h.closedAt hidx) hdel
        have hcons : Isolated s ((thread, .childTaskCompletion res) :: events) ↔
            Isolated (s.closedAt res.taskId idx) events := by
          constructor
          · rintro ⟨deletes, s', hstep', -, hiso⟩
            rw [hstep] at hstep'
            obtain ⟨-, rfl⟩ := Prod.mk.inj (Except.ok.inj hstep')
            exact hiso
          · intro hiso
            exact ⟨_, _, hstep, by simpa using hown, hiso⟩
        rw [hcons, hrest, List.nodup_cons]
        constructor
        · rintro ⟨hnodup, hfresh⟩
          refine ⟨⟨fun hmem' => hfresh _ hmem' List.mem_cons_self, hnodup⟩, fun t ht hc => ?_⟩
          rcases List.mem_cons.mp ht with rfl | ht
          · exact hmem hc
          · exact hfresh t ht (List.mem_cons_of_mem _ hc)
        · rintro ⟨⟨hnot, hnodup⟩, hfresh⟩
          refine ⟨hnodup, fun t ht hc => ?_⟩
          rcases List.mem_cons.mp hc with rfl | hc
          · exact hnot ht
          · exact hfresh t (List.mem_cons_of_mem _ ht) hc
    | callStarted id => exact hdel.elim
    | timeout id => exact hdel.elim
    | wakeup id => exact hdel.elim

end Listener

/-- Connections are kept apart, and no handler throws, exactly in the runs in which no start task
completes twice. -/
theorem isolated_iff_nodup (useTls : Bool) (events : List (Nat × EventType))
    (h : Deliverable 0 (events.map Prod.snd)) :
    Isolated (Listener.initial useTls) events ↔ (completions (events.map Prod.snd)).Nodup := by
  rw [(Listener.tracked_initial useTls).isolated_iff h]
  simp

/-- A client whose connection got the file descriptor `fd`. -/
def accepted (fd : Int) : EventType := .ioUringResult { callingId := some 0, op := 0, res := fd }

/-- A completion of the start task `t`: the client closed the connection. -/
def finished (t : Nat) : EventType :=
  .childTaskCompletion
    { callingId := some 0, taskId := some t, status := .failed, returnCode := 0 }

/-- Two clients that come and go. -/
theorem isolated_two_clients :
    Isolated (Listener.initial false)
      [(0, accepted 7), (0, accepted 8), (0, finished 1), (0, finished 0)] := by
  refine (isolated_iff_nodup false _ ?_).mpr (by decide)
  exact ⟨⟨1, by decide, rfl⟩, ⟨0, by decide, rfl⟩, trivial⟩

/-- The start task of the second client completes twice, as when a timeout and a failed read of
its connection are both queued. The second completion deletes the object of the first client. -/
theorem second_completion_deletes_other :
    Deliverable 0 [accepted 7, accepted 8, finished 1, finished 1] ∧
      ∃ s₁ s₂ s₃ s₄, (Listener.initial false).step 0 (accepted 7) = .ok ([], s₁) ∧
        s₁.step 0 (accepted 8) = .ok ([], s₂) ∧
        s₂.step 0 (finished 1) = .ok ([⟨[0], some 1⟩], s₃) ∧
        s₃.step 0 (finished 1) = .ok ([⟨[0], some 0⟩], s₄) ∧
        s₃.connection (some 0) = some (some 0) ∧ s₃.connection (some 1) = some (some 1) ∧
        s₃.accept.indices (some 0) = some 0 := by
  refine ⟨⟨⟨1, by decide, rfl⟩, ⟨1, by decide, rfl⟩, trivial⟩, ?_⟩
  exact ⟨_, _, _, _, rfl, rfl, rfl, rfl, rfl, rfl, rfl⟩

end LocalSoftware.AioLanding
