/-
Benchhand.Contracts.LiveValue — the check on a value that code has made.

`Live.isJsonValue` is `isJsonValue` on a value whose properties may be read by
code: what is read is what its objects show the check, and what such code
throws, the check throws. `every` reads an item when it comes to it;
`Object.values` has read all properties before the first is checked. Neither
looks at a symbol key, or at what an array has beside its items.
-/
import Benchhand.Contracts.JsonValueTheorems
import Benchhand.Js.LiveTheorems

namespace Benchhand.Contracts

open Benchhand.Text Benchhand.Js

/-- `values.every(item => p(item, seen))`, reading item after item. -/
def everyRead (p : Value → Finset Ref → Except ThrownValue (Bool × Finset Ref)) :
    List Read → Finset Ref → Except ThrownValue (Bool × Finset Ref)
  | [], seen => .ok (true, seen)
  | read :: reads, seen => do
      let v ← read
      let (valid, seen) ← p v seen
      if valid then everyRead p reads seen else pure (false, seen)

/-- `isJsonValue(value, seen)`; the `fuel` is that of `isJsonValue`. -/
def liveJsonValue (objs : List LiveObject) :
    Nat → Value → Finset Ref → Except ThrownValue (Bool × Finset Ref)
  | _, .null, seen => .ok (true, seen)
  | _, .string _, seen => .ok (true, seen)
  | _, .boolean _, seen => .ok (true, seen)
  | _, .number n, seen => .ok (n.isFinite, seen)
  | _, .undefined, seen => .ok (false, seen)
  | _, .bigint _, seen => .ok (false, seen)
  | _, .symbol, seen => .ok (false, seen)
  | _, .function, seen => .ok (false, seen)
  | fuel, .object r, seen =>
      if r ∈ seen then .ok (false, seen)
      else match fuel with
      | 0 => .ok (false, seen)
      | fuel + 1 =>
          let seen := insert r seen
          match (objs[r]?).map LiveObject.checked with
          | some (.array _ items _) => do
              let (valid, seen) ← everyRead (liveJsonValue objs fuel) (items.filterMap id) seen
              pure (valid, seen.erase r)
          | some (.object proto members) =>
              if proto ≠ .objectPrototype && proto ≠ .null then .ok (false, seen.erase r)
              else do
                let values ← members.named.mapM Prod.snd
                let (valid, seen) ← everyRead (liveJsonValue objs fuel) (values.map .ok) seen
                pure (valid, seen.erase r)
          | some (.throws thrown) => .error thrown
          | none => .ok (false, seen.erase r)

/-- `isJsonValue(value)`. -/
def Live.isJsonValue (v : Live) : Except ThrownValue Bool :=
  (liveJsonValue v.objs v.objs.length v.root ∅).map Prod.fst

/-- `{ ok: true, result: value }`. -/
def Live.envelope (value : Live) : Live where
  objs := value.objs ++ [(envelopeObj value.root).live]
  closed := by
    intro o ho r hr
    rw [List.length_append]
    rcases List.mem_append.mp ho with ho | ho
    · exact Nat.lt_add_right _ (value.closed o ho r hr)
    · obtain rfl := List.mem_singleton.mp ho
      rw [Obj.refs_live, envelopeObj_refs] at hr
      exact Nat.lt_add_right _ (value.root_lt r hr)
  root := .object value.objs.length
  root_lt := by simp [Value.refs]

/-- `parseResultEnvelope({ ok: true, result }).result`: the value itself, or
what the check throws. -/
def Live.wireResult (result : Live) : Except ThrownValue Live := do
  let valid ← Live.isJsonValue (Live.envelope result)
  if !valid || !ResultEnvelopeSchema.checkProps (envelopeProps result.root) then
    .error (.error (.typeError (js "invalid " ++ js "result envelope")))
  else pure result

end Benchhand.Contracts
