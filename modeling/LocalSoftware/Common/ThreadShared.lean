import LocalSoftware.Common.Event
import LocalSoftware.Library.BlockIds

/-!
# What the worker threads share

The work queue messages and the identifier blocks of `async_thread_shared.h`, the attachments of
`io_uring` requests of `defs.h`, the tables of one `ThreadData`, and the `World`: the tables and
queues of all worker threads, the event contexts, and the state of the objects. A `Program` is the
code of the event classes.
-/

set_option autoImplicit false

namespace LocalSoftware

/-- `thread_id` as an `int`; `none` is -1. -/
abbrev ThreadId := Option Nat

/-- `CallerInfo`. -/
structure CallerInfo where
  threadId : ThreadId
  objId : Id
  procId : Id
deriving DecidableEq, Repr

/-- `TargetInfo`. -/
structure TargetInfo where
  objId : Id
  procId : Id
deriving DecidableEq, Repr

/-- The closure that `Event::construct` makes: what it constructs, and the slot that it fills in
through the object that queued it. A root has no such object. -/
structure Constructor (V : Vocabulary) where
  fn : V.ConstructFunc
  slot : Option (Id × V.TypeIndex × Nat)

/-- `ConstructorCall`; `uringData` is the shared context. -/
structure ConstructorCall (V : Vocabulary) where
  constructor : Constructor V
  ci : CallerInfo
  ti : TargetInfo
  uringData : Option Nat

/-- `FunctionCall`. -/
structure FunctionCall (V : Vocabulary) where
  call : V.FunctionFunc
  ci : CallerInfo
  ti : TargetInfo

/-- `Delete`. -/
structure Delete where
  ci : CallerInfo
  ti : TargetInfo
deriving DecidableEq, Repr

/-- `Data`. The history variable `copy` marks what `data_received` forwards to attached procedures;
the runtime does not read it. -/
structure Data where
  ci : CallerInfo
  ti : TargetInfo
  data : EventType
  copy : Bool := false
deriving DecidableEq, Repr

/-- `RootStart`. -/
structure RootStart (V : Vocabulary) where
  constructor : V.ConstructFunc
  init : V.FunctionFunc
  ti : TargetInfo

/-- `PerThread::EventVariant`. -/
inductive EventVariant (V : Vocabulary) where
  | constructorCall (c : ConstructorCall V)
  | functionCall (f : FunctionCall V)
  | delete (d : Delete)
  | data (d : Data)
  | rootStart (r : RootStart V)

/-- `IoUringAttached`: `EventData`, `Timer` or `TimerUpdate`. -/
inductive IoUringAttached where
  | eventData (op : Int) (objId procId : Id)
  | timer (timerId objId procId : Id)
  | timerUpdate (timerId : Id) (remove : Bool)
deriving DecidableEq, Repr

/-- What a submission queue entry asks for. A timeout is named by the address of its attachment. -/
inductive Prep (V : Vocabulary) where
  | request (fn : V.Sqe)
  | timeout (ts : Timespec)
  | timeoutRemove (target : Nat)
  | timeoutUpdate (ts : Timespec) (target : Nat)

/-- A submission queue entry with its user data. -/
structure Submission (V : Vocabulary) where
  prep : Prep V
  userData : Nat

/-- `io_uring`: entries that are not submitted, requests in flight, and completions. -/
structure Ring (V : Vocabulary) where
  sq : List (Submission V) := []
  inflight : List (Submission V) := []
  cq : List (Nat × Int) := []

/-- `ChildObjectInfo`. -/
structure ChildObjectInfo where
  thread : Nat := 0
  procedures : List Id := []
deriving DecidableEq, Repr

/-- The order in which an `unordered_map` of children is iterated: any order of its entries. -/
structure Iteration where
  order : List (Id × ChildObjectInfo) → List (Id × ChildObjectInfo)
  perm : ∀ children, (order children).Perm children

namespace Iteration

/-- The order of the insertions. -/
def inserted : Iteration := ⟨id, fun _ => .refl _⟩

/-- The last insertion first. -/
def reversed : Iteration := ⟨List.reverse, List.reverse_perm⟩

variable (siblings : Iteration) {children : List (Id × ChildObjectInfo)}

@[simp] theorem order_nil : siblings.order [] = [] := (siblings.perm []).eq_nil

@[simp] theorem mem_order {child : Id × ChildObjectInfo} :
    child ∈ siblings.order children ↔ child ∈ children := (siblings.perm children).mem_iff

theorem nodup_order (h : (children.map (·.1)).Nodup) :
    ((siblings.order children).map (·.1)).Nodup :=
  ((siblings.perm children).map (·.1)).nodup_iff.mpr h

end Iteration

/-- `ObjectDataThreaded`; of `ptr` the model has the context that the object uses. -/
structure ObjectDataThreaded where
  ptr : Option Nat := none
  assocProcs : List Id := []
  children : List (Id × ChildObjectInfo) := []
deriving DecidableEq, Repr

/-- `CallDataThreaded`. -/
structure CallDataThreaded where
  assocObj : Id := some 0
  status : CallStatus := .degraded
  description : String := ""
  opHint : Nat := 0
  backNotify : ThreadId × Id × Id := (some 0, some 0, some 0)
  returnCode : Int := 0
deriving DecidableEq, Repr

/-- `TimerData`. -/
structure TimerData where
  ptr : Nat
  objId : Id
  ts : Timespec
deriving DecidableEq, Repr

/-- The tables of a `ThreadData`. -/
structure ThreadData (V : Vocabulary) where
  procToDat : Id → Option CallDataThreaded := fun _ => none
  objInfo : Id → Option ObjectDataThreaded := fun _ => none
  timers : Id → Option TimerData := fun _ => none
  alsoNotify : Id → List (Id × Id) := fun _ => []
  ring : Ring V := {}

/-- The identifiers of one kind: blocks of 1000, for each thread and for the `AsyncHandler`. -/
abbrev Ids := BlockIds ThreadId 1000

/-- Nothing was drawn yet. -/
def noIds : Ids := {}

/-- `get_proc_id`, `get_obj_id` and `get_tim_id`. -/
def getId (ids : Ids) (t : ThreadId) : Id × Ids :=
  let r := ids.next t (by decide)
  (some r.1, r.2)

/-- The identifiers that were handed out. -/
def Taken (ids : Ids) (id : Id) : Prop := ∃ n, id = some n ∧ ids.Issued n

theorem not_taken_getId (ids : Ids) (t : ThreadId) : ¬ Taken ids (getId ids t).1 := by
  rintro ⟨n, h, hissued⟩
  obtain rfl := Option.some.inj h
  exact ids.not_issued_next t (by decide) hissued

theorem taken_getId (ids : Ids) (t : ThreadId) (id : Id) :
    Taken (getId ids t).2 id ↔ Taken ids id ∨ id = (getId ids t).1 := by
  constructor
  · rintro ⟨n, rfl, h⟩
    rcases (ids.issued_next t (by decide) n).mp h with h | rfl
    · exact Or.inl ⟨n, rfl, h⟩
    · exact Or.inr rfl
  · rintro (⟨n, rfl, h⟩ | rfl)
    · exact ⟨n, rfl, (ids.issued_next t (by decide) n).mpr (Or.inl h)⟩
    · exact ⟨_, rfl, (ids.issued_next t (by decide) _).mpr (Or.inr rfl)⟩

theorem taken_ne_none {ids : Ids} {id : Id} (h : Taken ids id) : id ≠ none := by
  obtain ⟨n, rfl, -⟩ := h
  exact Option.some_ne_none n

/-- What happened in a run so far. -/
inductive Note where
  /-- The procedure `procId` of the object `objId` queued a call, which became the procedure
  `callee`. A constructor has no procedure. -/
  | called (thread : Nat) (objId procId callee localId : Id)
  /-- A function call was carried out. -/
  | started (thread : Nat) (objId procId : Id)
  /-- A procedure reported a result. -/
  | reported (procId : Id) (status : CallStatus) (returnCode : Int)
  /-- `on_yield` was called with `event`, for the message `d`. -/
  | delivered (thread : Nat) (d : Data) (event : EventType)
  /-- An object was deleted. -/
  | deleted (thread : Nat) (objId : Id)
  /-- A procedure attached to the call `callee`, whose local identifier is `localId`. -/
  | attached (thread : Nat) (objId procId localId callee : Id)
  /-- `timer` was called. -/
  | timerSet (thread : Nat) (objId localId timerId : Id)
  /-- `cancel_timer` was called. -/
  | timerCancelled (thread : Nat) (objId localId : Id)
deriving DecidableEq, Repr

/-- The event classes: constructors, functions, `on_yield` and destructors, over the state `σ` of
all objects and of the world outside. -/
structure Program (V : Vocabulary) (σ : Type) where
  construct : V.ConstructFunc → Id → σ → Script V σ
  function : V.FunctionFunc → Id → Id → σ → Script V (CallResponse × σ)
  onYield : Id → EventType → σ → Script V (Yielded × σ)
  destroy : Id → σ → σ

/-- The runtime with `size` worker threads. `loads k` are the values of `load_avg` at the `k`-th
decision of `find_target_thread`, of which `decisions` were made. `siblings` is the order in which
the next deletion takes the children of the object. `malloc` are the addresses that the attachments
get, in the order of their allocation, and `log` is a history variable. -/
structure World (V : Vocabulary) (σ : Type) where
  size : Nat
  queues : Nat → List (EventVariant V) := fun _ => []
  loads : Nat → Nat → Rat := fun _ _ => 0
  decisions : Nat := 0
  siblings : Iteration := .inserted
  threads : Nat → ThreadData V := fun _ => {}
  contexts : Nat → IoUringData V := fun _ => {}
  nextContext : Nat := 0
  malloc : Nat → Nat
  mallocs : Nat := 0
  attached : Nat → Option IoUringAttached := fun _ => none
  procIds : Ids := noIds
  objIds : Ids := noIds
  timIds : Ids := noIds
  heap : σ
  log : List Note := []

end LocalSoftware
