/-
Benchhand.Contracts.JsonValue — the run-time checks on wire values.

`isJsonValue` walks a value with the set `seen` of the objects it is inside
of. The set is passed on from call to call, as the shared WeakSet is, so that
what an object adds and deletes can be followed. `parseSchema` accepts a value
that passes the walk and its schema, and hands back the value itself.
-/
import Benchhand.Js.JsonTheorems
import Mathlib.Data.Finset.Card

namespace Benchhand.Contracts

open Benchhand.Text Benchhand.Js

/-! ## isJsonValue -/

/-- `values.every(item => p(item, seen))`: stops at the first false. -/
def every (p : Value → Finset Ref → Bool × Finset Ref) :
    List Value → Finset Ref → Bool × Finset Ref
  | [], seen => (true, seen)
  | v :: vs, seen =>
      let (valid, seen) := p v seen
      if valid then every p vs seen else (false, seen)

/-- `isJsonValue(value, seen)`. Going into an object takes one unit of `fuel`;
as an object is gone into only when it is not in `seen`, as many units as there
are objects outside `seen` are enough. `every` on an array skips the holes. -/
def isJsonValue (h : Heap) : Nat → Value → Finset Ref → Bool × Finset Ref
  | _, .null, seen => (true, seen)
  | _, .string _, seen => (true, seen)
  | _, .boolean _, seen => (true, seen)
  | _, .number n, seen => (n.isFinite, seen)
  | _, .undefined, seen => (false, seen)
  | _, .bigint _, seen => (false, seen)
  | _, .symbol, seen => (false, seen)
  | _, .function, seen => (false, seen)
  | fuel, .object r, seen =>
      if r ∈ seen then (false, seen)
      else match fuel with
      | 0 => (false, seen)
      | fuel + 1 =>
          let seen := insert r seen
          match h.objs[r]? with
          | some (.array items) =>
              let (valid, seen) := every (isJsonValue h fuel) (items.filterMap id) seen
              (valid, seen.erase r)
          | some (.plain proto props) =>
              if proto ≠ .objectPrototype && proto ≠ .null then (false, seen.erase r)
              else
                let (valid, seen) :=
                  every (isJsonValue h fuel) (props.entries.map Prod.snd) seen
                (valid, seen.erase r)
          | none => (false, seen.erase r)

/-- `isJsonValue(value)`, with nothing seen. -/
def Graph.isJsonValue (g : Graph) : Bool :=
  (Contracts.isJsonValue g.heap g.heap.objs.length g.root ∅).1

/-! ## Schemas -/

/-- `parseSchema`: the value itself, or `invalid <label>`. -/
def parseSchema (check : Graph → Bool) (value : Graph) (label : String) :
    Except JsError Graph :=
  if !Graph.isJsonValue value || !check value then
    .error (.typeError (js "invalid " ++ js label))
  else .ok value

/-- ResultEnvelopeSchema: `ok` is true, `result` is there, `requestId` is a
string of 1 to 256 units if it is there, and nothing else is. -/
def ResultEnvelopeSchema.checkProps (props : Properties) : Bool :=
  props.entries.lookup (js "ok") == some (.boolean true) &&
  (props.entries.lookup (js "result")).isSome &&
  (match props.entries.lookup (js "requestId") with
    | none => true
    | some (.string s) => 1 ≤ s.length && s.length ≤ 256
    | some _ => false) &&
  props.entries.all fun e =>
    e.1 == js "ok" || e.1 == js "result" || e.1 == js "requestId"

def ResultEnvelopeSchema.check (g : Graph) : Bool :=
  match g.root with
  | .object r =>
      match g.heap.objs[r]? with
      | some (.plain _ props) => ResultEnvelopeSchema.checkProps props
      | _ => false
  | _ => false

/-- `parseResultEnvelope(value)`. -/
def parseResultEnvelope (value : Graph) : Except JsError Graph :=
  parseSchema ResultEnvelopeSchema.check value "result envelope"

/-! ## The envelope of a result -/

def envelopeProps (result : Value) : Properties :=
  ⟨[(js "ok", .boolean true), (js "result", result)], by simp; decide⟩

/-- The fresh object `{ ok: true, result }`. -/
def envelopeObj (result : Value) : Obj := .plain .objectPrototype (envelopeProps result)

theorem envelopeObj_refs (result : Value) : (envelopeObj result).refs = result.refs := by
  simp [envelopeObj, envelopeProps, Obj.refs, Value.refs]

/-- `{ ok: true, result: value }`. -/
def envelope (value : Graph) : Graph where
  heap :=
    { objs := value.heap.objs ++ [envelopeObj value.root]
      closed := closedObjs_push value.heap.closed fun r hr =>
        value.closed r (envelopeObj_refs value.root ▸ hr) }
  root := .object value.heap.objs.length
  closed := by simp [Value.refs]

/-- Reading `.result` gives a value with the same objects. -/
theorem property_lt {h : Heap} {v : Value} {key : JsString} :
    ∀ r ∈ (h.property v key).refs, r < h.objs.length := by
  intro r hr
  unfold Heap.property at hr
  split at hr
  · rename_i o
    split at hr
    · rename_i proto props hlook
      cases hval : props.entries.lookup key with
      | none => simp [hval, Value.refs] at hr
      | some v =>
          rw [hval, Option.getD_some] at hr
          refine h.closed _ (List.mem_of_getElem? hlook) r (List.mem_flatMap.mpr ⟨(key, v), ?_, hr⟩)
          obtain ⟨before, after, hsplit, -⟩ := List.lookup_eq_some_iff.mp hval
          rw [hsplit]
          exact List.mem_append_right _ List.mem_cons_self
    · simp [Value.refs] at hr
  · simp [Value.refs] at hr

/-- `value[key]`. -/
def property (value : Graph) (key : String) : Graph :=
  ⟨value.heap, value.heap.property value.root (js key), property_lt⟩

/-- `parseResultEnvelope({ ok: true, result }).result`. -/
def wireResult (result : Graph) : Except JsError Graph :=
  (parseResultEnvelope (envelope result)).map fun e => property e "result"

/-! ## Journal columns -/

/-- The states of OperationStateSchema. -/
inductive OperationState where
  | accepted
  | running
  | committed
  | failed
  | unknownNeedsReconcile
  | rolledBack
  deriving DecidableEq

/-- `parseEntityVersion` on an integer. -/
def parseEntityVersion (value : Int) : Except JsError Nat :=
  if 0 ≤ value then .ok value.toNat else .error (.typeError (js "invalid entity version"))

/-- `parseEntityId(kind, value)`. -/
def parseEntityId (kind : String) (value : JsString) : Except JsError JsString :=
  if value.length = 0 then .error (.typeError (js kind ++ js " id must not be empty"))
  else .ok value

end Benchhand.Contracts
