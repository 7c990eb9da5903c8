import Mathlib.Logic.Function.Basic

/-!
# Shared definitions

The event types of `defs.h`, the identifiers they carry, and the ways in which a handler can fail
to return.
-/

set_option autoImplicit false

namespace LocalSoftware

/-- `std::string` as its bytes. -/
abbrev Str := List Char

/-- A `uint64_t` identifier; `none` is `numeric_limits<uint64_t>::max()`, the identifier of no
procedure, object or timer. -/
abbrev Id := Option Nat

instance : LawfulBEq Id := inferInstance

/-- What ends a handler other than returning: the exceptions of the code and of the library calls
it makes, and undefined behaviour. -/
inductive Fault where
  | outOfRange
  | badOptionalAccess
  | badVariantAccess
  | invalidArgument (what : String)
  | runtimeError (what : String)
  | filesystemError
  | undefinedBehaviour
  | nonTermination
deriving DecidableEq, Repr

/-- `CallStatus`. -/
inductive CallStatus where
  | degraded
  | failed
  | running
  | finished
  | stopped
deriving DecidableEq, Repr

/-- `IoUringResult`. -/
structure IoUringResult where
  callingId : Id
  op : Int
  res : Int
deriving DecidableEq, Repr

/-- `ChildTaskCompletion`. -/
structure ChildTaskCompletion where
  callingId : Id
  taskId : Id
  status : CallStatus
  returnCode : Int
deriving DecidableEq, Repr

/-- `EventType`, the variant passed to `on_yield`. -/
inductive EventType where
  | callStarted (procedureId : Id)
  | timeout (timerId : Id)
  | ioUringResult (r : IoUringResult)
  | wakeup (taskId : Id)
  | childTaskCompletion (c : ChildTaskCompletion)
deriving DecidableEq, Repr

/-- `RequestID`: the operation numbers that `ReadWriteBytes` gives to its requests. -/
def idRead : Int := 2

/-- `ID_WRITE`. -/
def idWrite : Int := 4

/-- What `on_yield` returns: `some (failure, return_code)` when the task is complete. -/
abbrev Yielded := Option (Bool × Int)

/-- `OP_HINT_NETWORK`. -/
def opHintNetwork : Nat := 2

/-- `OP_HINT_READ`. -/
def opHintRead : Nat := 16

/-- `OP_HINT_WRITE`. -/
def opHintWrite : Nat := 32

/-- `CallResponse`, what a called function returns; `ret` is its result if it has one already. -/
structure CallResponse where
  description : String
  success : Bool
  ret : Yielded
  opHint : Nat
deriving DecidableEq, Repr

/-- The conversion of a `size_t` to the `int` of a return code. -/
def toInt (n : Nat) : Int := Int.bmod n 4294967296

end LocalSoftware
