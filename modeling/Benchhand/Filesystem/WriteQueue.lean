/-
Benchhand.Filesystem.WriteQueue — writes of one target wait for each other.

`#serializeWrite` chains every operation behind the tail of the last call with
its key. The promises a call makes are named by the number of the call; a
promise is pending (none) or settled. What is registered on a promise runs as a
job of its own, once it has settled; which job runs next is left open here, so
the runs of the model contain all orders in which an engine runs them, with
calls and settlements of operations in between.
-/
import Benchhand.Text.Unicode
import Mathlib.Logic.Function.Basic

namespace Benchhand.Filesystem

open Text

/-! ## Promises -/

/-- How a promise ends; it is fulfilled with a value or with undefined. -/
inductive Settlement (α ε : Type) where
  | fulfilled (value : Option α)
  | rejected (error : ε)
  deriving DecidableEq

/-- What `promise.catch(() => {})` makes of it. -/
def Settlement.caught {α ε : Type} : Settlement α ε → Settlement α ε
  | .fulfilled value => .fulfilled value
  | .rejected _ => .fulfilled none

/-! ## The queue -/

/-- A call of `#serializeWrite`. -/
structure WriteCall where
  key : JsString
  /-- The call whose tail was in the map; none for `Promise.resolve()`. -/
  previous : Option Nat
  deriving DecidableEq

structure WriteQueue (α ε : Type) where
  calls : List WriteCall
  /-- `#writeTails`: the call whose tail it is. -/
  writeTails : JsString → Option Nat
  /-- `previous.catch(() => {})`. -/
  caught : Nat → Option (Settlement α ε)
  /-- The calls whose operations have started, in this order. -/
  started : List Nat
  /-- What `operation()` returns. -/
  operation : Nat → Option (Settlement α ε)
  /-- `previous.catch(() => {}).then(operation)`. -/
  result : Nat → Option (Settlement α ε)
  tail : Nat → Option (Settlement α ε)
  /-- What the caller of `#serializeWrite` waits for. -/
  caller : Nat → Option (Settlement α ε)

/-- What is registered on the promises of a call. -/
inductive Job where
  /-- `previous.catch(() => {})`. -/
  | caught
  /-- `.then(operation)`. -/
  | start
  /-- `result` follows the promise that the operation has returned. -/
  | adopt
  /-- `result.then(() => undefined, () => undefined)`. -/
  | tail
  /-- `await result`, the `finally` block, and the end of the call. -/
  | owner
  deriving DecidableEq

inductive WriteAction (α ε : Type) where
  | call (key : JsString)
  | react (job : Job) (i : Nat)
  /-- An operation that is running resolves or rejects. -/
  | settle (i : Nat) (outcome : Settlement α ε)

namespace WriteQueue

variable {α ε : Type}

def init : WriteQueue α ε where
  calls := []
  writeTails _ := none
  caught _ := none
  started := []
  operation _ := none
  result _ := none
  tail _ := none
  caller _ := none

variable (s : WriteQueue α ε)

/-- `#serializeWrite(key, operation)` up to its `await`. -/
def serializeWrite (key : JsString) : WriteQueue α ε :=
  { s with
    calls := s.calls ++ [⟨key, s.writeTails key⟩]
    writeTails := Function.update s.writeTails key (some s.calls.length) }

/-- The promise `previous` of a call. -/
def previousSettled (call : WriteCall) : Option (Settlement α ε) :=
  match call.previous with
  | none => some (.fulfilled none)
  | some j => s.tail j

/-- A job of call `i`, if it is waiting and its promise has settled. -/
def react (call : WriteCall) (i : Nat) : Job → Option (WriteQueue α ε)
  | .caught =>
      if (s.caught i).isSome then none
      else (s.previousSettled call).map fun previous =>
        { s with caught := Function.update s.caught i (some previous.caught) }
  | .start =>
      if s.started.elem i || (s.result i).isSome then none
      else (s.caught i).map fun
        | .fulfilled _ => { s with started := s.started ++ [i] }
        | .rejected e => { s with result := Function.update s.result i (some (.rejected e)) }
  | .adopt =>
      if (s.result i).isSome then none
      else (s.operation i).map fun outcome =>
        { s with result := Function.update s.result i (some outcome) }
  | .tail =>
      if (s.tail i).isSome then none
      else (s.result i).map fun _ =>
        { s with tail := Function.update s.tail i (some (.fulfilled none)) }
  | .owner =>
      if (s.caller i).isSome then none
      else (s.result i).map fun outcome =>
        { s with
          writeTails :=
            if s.writeTails call.key = some i then Function.update s.writeTails call.key none
            else s.writeTails
          caller := Function.update s.caller i (some outcome) }

/-- One action, if it is possible. -/
def step : WriteAction α ε → Option (WriteQueue α ε)
  | .call key => some (s.serializeWrite key)
  | .react job i => (s.calls[i]?).bind fun call => s.react call i job
  | .settle i outcome =>
      if s.started.elem i && (s.operation i).isNone then
        some { s with operation := Function.update s.operation i (some outcome) }
      else none

/-- The queue after some actions; one that is not possible changes nothing. -/
def run (actions : List (WriteAction α ε)) : WriteQueue α ε :=
  actions.foldl (fun s a => (s.step a).getD s) init

/-- The operation of the call has started and not settled. -/
def Running (i : Nat) : Prop := i ∈ s.started ∧ s.operation i = none

end WriteQueue

end Benchhand.Filesystem
