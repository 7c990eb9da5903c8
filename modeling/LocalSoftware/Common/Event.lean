import LocalSoftware.Common.Defs
import Mathlib.Data.List.Basic

/-!
# Event objects and the operations of a handler

`Event` of `event.h`, `event.cpp` and `event.t.cpp`. A handler never acts on the runtime directly:
it queues constructions, calls, requests, timers, deletions and attachments in its object and reads
its context, the `IoUringData` that several objects may share. `Script` is the set of all handlers
that use these operations, over the `Vocabulary` of a program, and `Script.run` is their effect on
an object.
-/

set_option autoImplicit false

namespace LocalSoftware

/-- The types and closures of a program: its event classes, the closures that construct objects
and call their functions, and the requests prepared for `io_uring`. -/
structure Vocabulary where
  TypeIndex : Type
  ConstructFunc : Type
  FunctionFunc : Type
  Sqe : Type
  [decEq : DecidableEq TypeIndex]

attribute [instance] Vocabulary.decEq

/-- `__kernel_timespec`. -/
structure Timespec where
  sec : Int
  nsec : Int
deriving DecidableEq, Repr

/-- `EventInfo::Locator`. -/
structure Locator where
  objectId : Id
  threadId : List Nat
deriving DecidableEq, Repr

/-- `EventInfo`; `event` is the object that the weak pointer was set to. -/
structure EventInfo where
  locator : Option Locator := none
  event : Id := none
deriving DecidableEq, Repr

/-- `IoUringData`, the context of one or more objects. -/
structure IoUringData (V : Vocabulary) where
  subEvents : V.TypeIndex → Option (List (Option EventInfo)) := fun _ => none
  localProcId : Nat := 0
  localTimerId : Nat := 0
  globalProcToLocalProc : Id → Option Id := fun _ => none
  localProcToGlobalProc : Id → Option Id := fun _ => none
  globalTimToLocalTim : Id → Option Id := fun _ => none
  localTimToGlobalTim : Id → Option Id := fun _ => none

/-- `EventQueuedConstruct`; `shared` says whether the context is passed on. -/
structure EventQueuedConstruct (V : Vocabulary) where
  idx : V.TypeIndex
  vidx : Nat
  fn : V.ConstructFunc
  shared : Bool

/-- `EventQueuedFunction`. -/
structure EventQueuedFunction (V : Vocabulary) where
  idx : V.TypeIndex
  vidx : Nat
  localId : Id
  fn : V.FunctionFunc

/-- `EventQueuedUring`. -/
structure EventQueuedUring (V : Vocabulary) where
  op : Int
  fn : V.Sqe

/-- `EventQueuedTimer`. The history variable `cancels` tells the entry of `cancel_timer` from that
of a timer without delay; the runtime does not read it. -/
structure EventQueuedTimer where
  localId : Id
  time : Timespec
  cancels : Bool := false
deriving DecidableEq, Repr

/-- `EventQueuedDelete`. -/
structure EventQueuedDelete where
  thread : List Nat
  objId : Id
deriving DecidableEq, Repr

/-- `EventQueuedAttach`. -/
structure EventQueuedAttach where
  targetLocalId : Id
deriving DecidableEq, Repr

/-- The data of an `Event` during one handler run: its context and its queues. -/
structure EventState (V : Vocabulary) where
  uringData : IoUringData V := {}
  construct : List (EventQueuedConstruct V) := []
  function : List (EventQueuedFunction V) := []
  uring : List (EventQueuedUring V) := []
  timer : List EventQueuedTimer := []
  delete : List EventQueuedDelete := []
  attach : List EventQueuedAttach := []

variable {V : Vocabulary}

namespace IoUringData

/-- The slots of a class; `sub_events[ty]` creates them. -/
def slots (d : IoUringData V) (ty : V.TypeIndex) : List (Option EventInfo) :=
  (d.subEvents ty).getD []

/-- Assignment to the slots of a class. -/
def setSlots (d : IoUringData V) (ty : V.TypeIndex) (slots : List (Option EventInfo)) :
    IoUringData V :=
  { d with subEvents := Function.update d.subEvents ty (some slots) }

/-- `global_to_local`. -/
def globalToLocal (d : IoUringData V) (global l : Id) : IoUringData V :=
  { d with
    globalProcToLocalProc := Function.update d.globalProcToLocalProc global (some l)
    localProcToGlobalProc := Function.update d.localProcToGlobalProc l (some global) }

/-- `global_to_local_tim`. -/
def globalToLocalTim (d : IoUringData V) (global l : Id) : IoUringData V :=
  { d with
    globalTimToLocalTim := Function.update d.globalTimToLocalTim global (some l)
    localTimToGlobalTim := Function.update d.localTimToGlobalTim l (some global) }

/-- `translate_proc_local`. -/
def translateProcLocal (d : IoUringData V) (l : Id) : Id := (d.localProcToGlobalProc l).getD none

/-- `translate_tim_local`. -/
def translateTimLocal (d : IoUringData V) (l : Id) : Id := (d.localTimToGlobalTim l).getD none

/-- A subscript of one of the identifier maps, which inserts 0 where there is no entry. -/
def subscript (table : Id → Option Id) (key : Id) : Id × (Id → Option Id) :=
  match table key with
  | some value => (value, table)
  | none => (some 0, Function.update table key (some (some 0)))

/-- `map_event_data`: the identifiers of an event become local ones. -/
def mapEventData (d : IoUringData V) : EventType → EventType × IoUringData V
  | .childTaskCompletion c =>
    let (l, table) := subscript d.globalProcToLocalProc c.taskId
    (.childTaskCompletion { c with taskId := l }, { d with globalProcToLocalProc := table })
  | .timeout id =>
    let (l, table) := subscript d.globalTimToLocalTim id
    (.timeout l, { d with globalTimToLocalTim := table })
  | .callStarted id =>
    let (l, table) := subscript d.globalProcToLocalProc id
    (.callStarted l, { d with globalProcToLocalProc := table })
  | event => (event, d)

/-- The first slot of a class without an object, or the slot after the last. -/
def freeSlot (slots : List (Option EventInfo)) : Nat := slots.findIdx fun o => o.isNone

/-- An object put into a slot, which may be the one after the last. -/
def place (slots : List (Option EventInfo)) (loc : Nat) (info : EventInfo) :
    List (Option EventInfo) :=
  if loc = slots.length then slots ++ [some info] else slots.set loc (some info)

/-- `sub_events.at(ty).at(idx).value()`. -/
def evinfo (d : IoUringData V) (ty : V.TypeIndex) (idx : Nat) : Except Fault EventInfo :=
  match d.subEvents ty with
  | none => .error .outOfRange
  | some slots =>
    match slots[idx]? with
    | none => .error .outOfRange
    | some none => .error .badOptionalAccess
    | some (some info) => .ok info

/-- What `process_queued_construct` writes to the slot of an object it sends to a thread. -/
def setLocator (d : IoUringData V) (ty : V.TypeIndex) (idx : Nat) (locator : Locator) :
    IoUringData V :=
  d.setSlots ty ((d.slots ty).modify idx fun o =>
    o.map fun info => { info with locator := some locator })

@[simp] theorem slots_setSlots_self (d : IoUringData V) (ty : V.TypeIndex)
    (slots : List (Option EventInfo)) : (d.setSlots ty slots).slots ty = slots := by
  simp [setSlots, IoUringData.slots]

@[simp] theorem setSlots_setSlots (d : IoUringData V) (ty : V.TypeIndex)
    (slots slots' : List (Option EventInfo)) :
    (d.setSlots ty slots).setSlots ty slots' = d.setSlots ty slots' := by
  simp [setSlots]

@[simp] theorem localProcId_setSlots (d : IoUringData V) (ty : V.TypeIndex)
    (slots : List (Option EventInfo)) : (d.setSlots ty slots).localProcId = d.localProcId := rfl

/-- A slot is found where it holds an object. -/
theorem evinfo_eq_ok_iff {d : IoUringData V} {ty : V.TypeIndex} {idx : Nat} {info : EventInfo} :
    d.evinfo ty idx = .ok info ↔ (d.slots ty)[idx]? = some (some info) := by
  unfold evinfo slots
  cases d.subEvents ty with
  | none => simp
  | some slots =>
    simp only [Option.getD_some]
    cases slots[idx]? with
    | none => simp
    | some o => cases o <;> simp

/-- The slots are all that matters for finding an object. -/
theorem evinfo_congr {d d' : IoUringData V} (h : d'.subEvents = d.subEvents) (ty : V.TypeIndex)
    (idx : Nat) : d'.evinfo ty idx = d.evinfo ty idx := by
  simp only [evinfo, h]

theorem freeSlot_le (slots : List (Option EventInfo)) : freeSlot slots ≤ slots.length :=
  List.findIdx_le_length

/-- The free slot holds no object. -/
theorem not_isSome_freeSlot (slots : List (Option EventInfo)) (info : EventInfo) :
    slots[freeSlot slots]? ≠ some (some info) := by
  intro h
  obtain ⟨hlt, hget⟩ := List.getElem?_eq_some_iff.mp h
  have hnone : (slots[freeSlot slots]).isNone = true := List.findIdx_getElem (w := hlt)
  simp [hget] at hnone

theorem getElem?_place {slots : List (Option EventInfo)} {loc : Nat} (h : loc ≤ slots.length)
    (info : EventInfo) (idx : Nat) :
    (place slots loc info)[idx]? = if idx = loc then some (some info) else slots[idx]? := by
  unfold place
  rcases Nat.lt_or_eq_of_le h with hlt | rfl
  · rw [if_neg (Nat.ne_of_lt hlt), List.getElem?_set]
    by_cases hi : idx = loc
    · subst hi
      simp [hlt]
    · rw [if_neg (Ne.symm hi), if_neg hi]
  · rw [if_pos rfl]
    by_cases hi : idx = slots.length
    · subst hi
      simp
    · rw [if_neg hi]
      rcases Nat.lt_or_gt_of_ne hi with hlt | hgt
      · exact List.getElem?_append_left hlt
      · have hnil : slots[idx]? = none := List.getElem?_eq_none (by omega)
        rw [hnil]
        exact List.getElem?_eq_none (by simp; omega)

/-- Filling in the locator of an object that was just put into its slot. -/
theorem modify_place {slots : List (Option EventInfo)} {loc : Nat} (h : loc ≤ slots.length)
    (info : EventInfo) (f : EventInfo → EventInfo) :
    (place slots loc info).modify loc (fun o => o.map f) = place slots loc (f info) := by
  apply List.ext_getElem?
  intro idx
  rw [List.getElem?_modify, getElem?_place h, getElem?_place h]
  by_cases hi : idx = loc
  · simp [hi]
  · simp [hi, Ne.symm hi]

end IoUringData

namespace EventState

/-- `construct`, the common part of `i` and `i_s`. -/
def queueConstruct (s : EventState V) (shared : Bool) (ty : V.TypeIndex) (fn : V.ConstructFunc) :
    Nat × EventState V :=
  let slots := s.uringData.slots ty
  let loc := IoUringData.freeSlot slots
  (loc, { s with
    uringData := s.uringData.setSlots ty (IoUringData.place slots loc {})
    construct := s.construct ++ [{ idx := ty, vidx := loc, fn, shared }] })

/-- `c(idx, fun, args...)`. -/
def callAt (s : EventState V) (ty : V.TypeIndex) (idx : Nat) (fn : V.FunctionFunc) :
    Id × EventState V :=
  let localId : Id := some s.uringData.localProcId
  (localId, { s with
    uringData := { s.uringData with localProcId := s.uringData.localProcId + 1 }
    function := s.function ++ [{ idx := ty, vidx := idx, localId, fn }] })

/-- `c(fun, args...)`: a call on the first object of the class. -/
def call (s : EventState V) (ty : V.TypeIndex) (fn : V.FunctionFunc) :
    Except Fault (Id × EventState V) :=
  match s.uringData.subEvents ty with
  | none => .error .outOfRange
  | some slots =>
    let idx := slots.findIdx fun o => o.isSome
    if idx = slots.length then .error (.runtimeError "No event for call found.")
    else .ok (s.callAt ty idx fn)

/-- `c(op, liburing, args...)`. -/
def queueUring (s : EventState V) (op : Int) (fn : V.Sqe) : EventState V :=
  { s with uring := s.uring ++ [{ op, fn }] }

/-- `d`. -/
def queueDelete (s : EventState V) (ty : V.TypeIndex) (idx : Nat) :
    Except Fault (EventState V) :=
  match s.uringData.evinfo ty idx with
  | .error e => .error e
  | .ok info =>
    match info.locator with
    | none => .error .undefinedBehaviour
    | some locator => .ok { s with
        delete := s.delete ++ [{ thread := locator.threadId, objId := locator.objectId }]
        uringData := s.uringData.setSlots ty ((s.uringData.slots ty).set idx none) }

/-- With an object in slot 0, a call on the class goes to it. -/
theorem call_of_evinfo {s : EventState V} {ty : V.TypeIndex} {info : EventInfo}
    (h : s.uringData.evinfo ty 0 = .ok info) (fn : V.FunctionFunc) :
    s.call ty fn = .ok (s.callAt ty 0 fn) := by
  unfold call
  unfold IoUringData.evinfo at h
  cases hsub : s.uringData.subEvents ty with
  | none => simp [hsub] at h
  | some slots =>
    cases slots with
    | nil => simp [hsub] at h
    | cons o slots =>
      cases o with
      | none => simp [hsub] at h
      | some o => simp [List.findIdx_cons]

/-- A call changes the counter only, and queues one entry. -/
theorem call_eq_ok {s : EventState V} {ty : V.TypeIndex} {fn : V.FunctionFunc} {r : Id × EventState V}
    (h : s.call ty fn = .ok r) :
    r = s.callAt ty ((s.uringData.slots ty).findIdx fun o => o.isSome) fn := by
  unfold call at h
  split at h
  · cases h
  · rename_i slots hslots
    simp only at h
    split at h
    · cases h
    · rw [← Except.ok.inj h, IoUringData.slots, hslots, Option.getD_some]

/-- `attach`. -/
def queueAttach (s : EventState V) (id : Id) : EventState V :=
  { s with attach := s.attach ++ [{ targetLocalId := id }] }

/-- `timer`. -/
def queueTimer (s : EventState V) (ts : Timespec) : Id × EventState V :=
  let id : Id := some s.uringData.localTimerId
  (id, { s with
    uringData := { s.uringData with localTimerId := s.uringData.localTimerId + 1 }
    timer := s.timer ++ [{ localId := id, time := ts }] })

/-- `cancel_timer`. -/
def cancelTimer (s : EventState V) (timerid : Id) : EventState V :=
  { s with timer := s.timer ++ [{ localId := timerid, time := ⟨0, 0⟩, cancels := true }] }

/-- `clear`. -/
def clear (s : EventState V) : EventState V := { uringData := s.uringData }

end EventState

/-- A handler: the operations it makes one after the other, each depending on what the earlier ones
returned. `child` is the part of `direct_access` that finds the object. -/
inductive Script (V : Vocabulary) (α : Type) where
  | pure (a : α)
  | throw (e : Fault)
  | construct (shared : Bool) (ty : V.TypeIndex) (fn : V.ConstructFunc) (k : Nat → Script V α)
  | callAt (ty : V.TypeIndex) (idx : Nat) (fn : V.FunctionFunc) (k : Id → Script V α)
  | call (ty : V.TypeIndex) (fn : V.FunctionFunc) (k : Id → Script V α)
  | uring (op : Int) (fn : V.Sqe) (k : Script V α)
  | delete (ty : V.TypeIndex) (idx : Nat) (k : Script V α)
  | attach (id : Id) (k : Script V α)
  | timer (ts : Timespec) (k : Id → Script V α)
  | cancelTimer (id : Id) (k : Script V α)
  | child (ty : V.TypeIndex) (idx : Nat) (k : Id → Script V α)

namespace Script

variable {α β : Type}

/-- One handler after another. -/
def bind : Script V α → (α → Script V β) → Script V β
  | .pure a, f => f a
  | .throw e, _ => .throw e
  | .construct shared ty fn k, f => .construct shared ty fn fun n => (k n).bind f
  | .callAt ty idx fn k, f => .callAt ty idx fn fun l => (k l).bind f
  | .call ty fn k, f => .call ty fn fun l => (k l).bind f
  | .uring op fn k, f => .uring op fn (k.bind f)
  | .delete ty idx k, f => .delete ty idx (k.bind f)
  | .attach id k, f => .attach id (k.bind f)
  | .timer ts k, f => .timer ts fun l => (k l).bind f
  | .cancelTimer id k, f => .cancelTimer id (k.bind f)
  | .child ty idx k, f => .child ty idx fun o => (k o).bind f

instance : Monad (Script V) where
  pure := Script.pure
  bind := Script.bind

/-- The effect of a handler on its object. -/
def run : Script V α → EventState V → Except Fault (α × EventState V)
  | .pure a, s => .ok (a, s)
  | .throw e, _ => .error e
  | .construct shared ty fn k, s => (k (s.queueConstruct shared ty fn).1).run
      (s.queueConstruct shared ty fn).2
  | .callAt ty idx fn k, s => (k (s.callAt ty idx fn).1).run (s.callAt ty idx fn).2
  | .call ty fn k, s =>
    match s.call ty fn with
    | .error e => .error e
    | .ok (l, s') => (k l).run s'
  | .uring op fn k, s => k.run (s.queueUring op fn)
  | .delete ty idx k, s =>
    match s.queueDelete ty idx with
    | .error e => .error e
    | .ok s' => k.run s'
  | .attach id k, s => k.run (s.queueAttach id)
  | .timer ts k, s => (k (s.queueTimer ts).1).run (s.queueTimer ts).2
  | .cancelTimer id k, s => k.run (s.cancelTimer id)
  | .child ty idx k, s =>
    match s.uringData.evinfo ty idx with
    | .error e => .error e
    | .ok info => (k info.event).run s

/-! The operations under their names in `event.h`. -/

/-- `i<Obj>(args...)`. -/
def i (ty : V.TypeIndex) (fn : V.ConstructFunc) : Script V Nat := .construct false ty fn .pure

/-- `i_s<Obj>(args...)`. -/
def iS (ty : V.TypeIndex) (fn : V.ConstructFunc) : Script V Nat := .construct true ty fn .pure

/-- `c(idx, fun, args...)`. -/
def cAt (ty : V.TypeIndex) (idx : Nat) (fn : V.FunctionFunc) : Script V Id :=
  .callAt ty idx fn .pure

/-- `c(fun, args...)`. -/
def c (ty : V.TypeIndex) (fn : V.FunctionFunc) : Script V Id := .call ty fn .pure

/-- `c(op, liburing, args...)`. -/
def cUring (op : Int) (fn : V.Sqe) : Script V Unit := .uring op fn (.pure ())

/-- `d<Obj>(idx)`. -/
def d (ty : V.TypeIndex) (idx : Nat) : Script V Unit := .delete ty idx (.pure ())

/-- `timer(ts)`. -/
def startTimer (ts : Timespec) : Script V Id := .timer ts .pure

/-- `cancel_timer(timerid)`. -/
def stopTimer (timerid : Id) : Script V Unit := .cancelTimer timerid (.pure ())

/-- `attach(id)`. -/
def attachTo (id : Id) : Script V Unit := .attach id (.pure ())

/-- `direct_access(idx, &Obj::get, id).value()->…` for a function that hands out a `unique_ptr`:
`peer` says for each object whether it is alive, and what its pointer holds. -/
def directAccess (ty : V.TypeIndex) (idx : Nat) (peer : Id → Option (Option α)) : Script V α :=
  .child ty idx fun o =>
    match peer o with
    | none => .throw .badOptionalAccess
    | some none => .throw .undefinedBehaviour
    | some (some a) => .pure a

/-- A computation outside the runtime. -/
def ofExcept : Except Fault α → Script V α
  | .ok a => .pure a
  | .error e => .throw e

@[simp] theorem run_pure (a : α) (s : EventState V) :
    (Pure.pure a : Script V α).run s = .ok (a, s) := rfl

@[simp] theorem run_throw (e : Fault) (s : EventState V) :
    (Script.throw e : Script V α).run s = .error e := rfl

@[simp] theorem run_bind (x : Script V α) (f : α → Script V β) (s : EventState V) :
    (x >>= f).run s =
      match x.run s with
      | .ok (a, s') => (f a).run s'
      | .error e => .error e := by
  show (x.bind f).run s = _
  induction x generalizing s with
  | pure a => rfl
  | throw e => rfl
  | construct shared ty fn k ih => exact ih _ _
  | callAt ty idx fn k ih => exact ih _ _
  | call ty fn k ih =>
    simp only [bind, run]
    cases s.call ty fn with
    | error e => rfl
    | ok r => exact ih _ _
  | uring op fn k ih => exact ih _
  | delete ty idx k ih =>
    simp only [bind, run]
    cases s.queueDelete ty idx with
    | error e => rfl
    | ok r => exact ih _
  | attach id k ih => exact ih _
  | timer ts k ih => exact ih _ _
  | cancelTimer id k ih => exact ih _
  | child ty idx k ih =>
    simp only [bind, run]
    cases s.uringData.evinfo ty idx with
    | error e => rfl
    | ok r => exact ih _ _

@[simp] theorem run_i (ty : V.TypeIndex) (fn : V.ConstructFunc) (s : EventState V) :
    (i ty fn).run s = .ok (s.queueConstruct false ty fn) := rfl

@[simp] theorem run_iS (ty : V.TypeIndex) (fn : V.ConstructFunc) (s : EventState V) :
    (iS ty fn).run s = .ok (s.queueConstruct true ty fn) := rfl

@[simp] theorem run_cAt (ty : V.TypeIndex) (idx : Nat) (fn : V.FunctionFunc) (s : EventState V) :
    (cAt ty idx fn).run s = .ok (s.callAt ty idx fn) := rfl

@[simp] theorem run_c (ty : V.TypeIndex) (fn : V.FunctionFunc) (s : EventState V) :
    (c ty fn).run s = s.call ty fn := by
  simp only [c, run]
  cases s.call ty fn <;> rfl

@[simp] theorem run_cUring (op : Int) (fn : V.Sqe) (s : EventState V) :
    (cUring op fn).run s = .ok ((), s.queueUring op fn) := rfl

@[simp] theorem run_d (ty : V.TypeIndex) (idx : Nat) (s : EventState V) :
    (d ty idx).run s = (s.queueDelete ty idx).map fun s' => ((), s') := by
  simp only [d, run]
  cases s.queueDelete ty idx <;> rfl

@[simp] theorem run_startTimer (ts : Timespec) (s : EventState V) :
    (startTimer ts).run s = .ok (s.queueTimer ts) := rfl

@[simp] theorem run_stopTimer (timerid : Id) (s : EventState V) :
    (stopTimer timerid).run s = .ok ((), s.cancelTimer timerid) := rfl

@[simp] theorem run_attachTo (id : Id) (s : EventState V) :
    (attachTo id).run s = .ok ((), s.queueAttach id) := rfl

/-- The access succeeds on a living object whose pointer holds something. -/
theorem run_directAccess {ty : V.TypeIndex} {idx : Nat} {peer : Id → Option (Option α)}
    {s : EventState V} {info : EventInfo} {a : α} (hslot : s.uringData.evinfo ty idx = .ok info)
    (hpeer : peer info.event = some (some a)) : (directAccess ty idx peer).run s = .ok (a, s) := by
  simp only [directAccess, run, hslot, hpeer]

@[simp] theorem run_ofExcept (x : Except Fault α) (s : EventState V) :
    (ofExcept x).run s = x.map fun a => (a, s) := by
  cases x <;> rfl

/-- A handler that returns: the first part returned, and then the rest. -/
theorem run_bind_ok {x : Script V α} {f : α → Script V β} {s : EventState V} {r : β × EventState V}
    (h : (x >>= f).run s = .ok r) : ∃ a s', x.run s = .ok (a, s') ∧ (f a).run s' = .ok r := by
  rw [run_bind] at h
  split at h
  · rename_i a s' hx
    exact ⟨a, s', hx, h⟩
  · cases h

/-- A handler that only waits for what it started. -/
theorem run_wait_ok {arm : Script V α} {s s' : EventState V} {y : Yielded} {a : α}
    (h : (do
      let a ← arm
      return (none, a) : Script V (Yielded × α)).run s = .ok ((y, a), s')) :
    y = none ∧ arm.run s = .ok (a, s') := by
  obtain ⟨a', s₁, harm, hrest⟩ := run_bind_ok h
  obtain ⟨⟨rfl, rfl⟩, rfl⟩ := (Prod.mk.inj (Except.ok.inj hrest)).imp_left Prod.mk.inj
  exact ⟨rfl, harm⟩

theorem run_ofExcept_ok {x : Except Fault α} {s : EventState V} {r : α × EventState V}
    (h : (ofExcept x : Script V α).run s = .ok r) : x = .ok r.1 ∧ r.2 = s := by
  cases x with
  | error e => cases h
  | ok a =>
    obtain rfl := Except.ok.inj h
    exact ⟨rfl, rfl⟩

/-- An access that succeeded found a living object whose pointer holds something. -/
theorem run_directAccess_ok {ty : V.TypeIndex} {idx : Nat} {peer : Id → Option (Option α)}
    {s : EventState V} {r : α × EventState V} (h : (directAccess ty idx peer).run s = .ok r) :
    r.2 = s ∧ ∃ info, s.uringData.evinfo ty idx = .ok info ∧ peer info.event = some (some r.1) := by
  simp only [directAccess, run] at h
  cases hslot : s.uringData.evinfo ty idx with
  | error e =>
    rw [hslot] at h
    cases h
  | ok info =>
    rw [hslot] at h
    simp only at h
    split at h
    · cases h
    · cases h
    · rename_i a hpeer
      obtain rfl := Except.ok.inj h
      exact ⟨rfl, info, rfl, hpeer⟩

/-- A computation outside the runtime, and then the rest. -/
theorem run_ofExcept_bind_ok {x : Except Fault α} {f : α → Script V β} {s : EventState V}
    {r : β × EventState V} (h : (ofExcept x >>= f).run s = .ok r) :
    ∃ a, x = .ok a ∧ (f a).run s = .ok r := by
  obtain ⟨a, s', hrun, hf⟩ := run_bind_ok h
  obtain ⟨hx, hs⟩ := run_ofExcept_ok hrun
  simp only at hx hs
  rw [hs] at hf
  exact ⟨a, hx, hf⟩

/-- A call, and then the rest: the entry is the last one queued. -/
theorem run_c_bind_ok {ty : V.TypeIndex} {fn : V.FunctionFunc} {f : Id → Script V β}
    {s : EventState V} {r : β × EventState V} (h : (c ty fn >>= f).run s = .ok r) :
    ∃ idx, (f (s.callAt ty idx fn).1).run (s.callAt ty idx fn).2 = .ok r := by
  obtain ⟨l, s', hc, hf⟩ := run_bind_ok h
  rw [run_c] at hc
  obtain ⟨rfl, rfl⟩ := Prod.mk.inj (EventState.call_eq_ok hc)
  exact ⟨_, hf⟩

end Script

end LocalSoftware
