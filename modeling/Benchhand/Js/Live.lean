/-
Benchhand.Js.Live — values as the code that reads them finds them.

Reading an object can run code: a getter, a `toJSON` method, a trap of a proxy.
What that code gives may differ from one reader to the next, and it may throw.
A `Live` value therefore says of each of its objects what it shows to each of
the three readers an effect's result has: the check of `isJsonValue`,
`JSON.stringify`, and the caller it is returned to. An object that shows one
reader two things stands there once for each. Of a property that is not
enumerable only `toJSON` is read by anyone.

`Live.told` is the tree that `JSON.stringify` writes, and `Live.stringify` its
text. `Live.Finds v t` says that the caller finds exactly the tree `t`: arrays
of `Array.prototype` without other properties, objects of `Object.prototype`
without symbol keys. `Live.ofGraph` is a graph of plain data, which shows
everyone the same.
-/
import Benchhand.Js.JsonTheorems

namespace Benchhand.Js

open Benchhand.Text

/-! ## Objects -/

/-- A thrown value: an Error, or anything else with what `String(value)` gives;
none when that throws. -/
inductive ThrownValue where
  | error (e : JsError)
  | value (asString : Option JsString)
  deriving DecidableEq

/-- What reading a property gives, or what its getter throws. -/
abbrev Read := Except ThrownValue Value

def Read.refs : Read → List Ref
  | .ok v => v.refs
  | .error _ => []

inductive Key where
  | string (s : JsString)
  | symbol (id : Nat)
  deriving DecidableEq

def Key.name : Key → Option JsString
  | .string s => some s
  | .symbol _ => none

/-- Own enumerable properties, each key once. -/
structure Members where
  entries : List (Key × Read)
  nodup : (entries.map Prod.fst).Nodup

def Members.empty : Members := ⟨[], List.nodup_nil⟩

/-- What `Object.keys` lists. -/
def Members.named (ms : Members) : List (JsString × Read) :=
  ms.entries.filterMap fun e => e.1.name.map fun key => (key, e.2)

/-- What an object shows to one reader. -/
inductive Face where
  /-- `Array.isArray` holds. `plain` says that its prototype is
  `Array.prototype`; an item that is none is a hole; `more` are its other
  properties. -/
  | array (plain : Bool) (items : List (Option Read)) (more : Members)
  | object (proto : Prototype) (members : Members)
  /-- Looking at it throws, as a revoked proxy does. -/
  | throws (thrown : ThrownValue)

def Face.refs : Face → List Ref
  | .array _ items more =>
      (items.flatMap fun item => item.elim [] Read.refs) ++
        more.entries.flatMap fun e => Read.refs e.2
  | .object _ members => members.entries.flatMap fun e => Read.refs e.2
  | .throws _ => []

structure LiveObject where
  /-- For `isJsonValue`. An array with an `every` of its own shows the items
  that one goes over. -/
  checked : Face
  /-- For `JSON.stringify`. -/
  encoded : Face
  /-- For the caller. -/
  returned : Face
  /-- What `JSON.stringify` writes in its place: what its `toJSON` method
  gives, or the primitive that it boxes. -/
  toJSON : Option Read

def LiveObject.refs (o : LiveObject) : List Ref :=
  o.checked.refs ++ o.encoded.refs ++ o.returned.refs ++ o.toJSON.elim [] Read.refs

/-- A value together with the objects it can reach. -/
structure Live where
  objs : List LiveObject
  closed : ∀ o ∈ objs, ∀ r ∈ o.refs, r < objs.length
  root : Value
  root_lt : ∀ r ∈ root.refs, r < objs.length

/-! ## Plain data -/

def Properties.members (ps : Properties) : Members where
  entries := ps.entries.map fun e => (.string e.1, .ok e.2)
  nodup := by
    rw [List.map_map]
    have h := ps.nodup.map (f := Key.string) fun _ _ => Key.string.inj
    rwa [List.map_map] at h

def Obj.face : Obj → Face
  | .array items => .array true (items.map fun item => item.map .ok) .empty
  | .plain proto props => .object proto props.members

theorem Obj.refs_face (o : Obj) : o.face.refs = o.refs := by
  have hok : ∀ v : Value, Read.refs (.ok v) = v.refs := fun _ => rfl
  cases o with
  | array items =>
      simp only [Obj.face, Face.refs, Members.empty, List.flatMap_nil, List.append_nil, Obj.refs,
        List.flatMap_map]
      congr 1
      funext item
      cases item <;> rfl
  | plain proto props =>
      simp only [Obj.face, Face.refs, Properties.members, Obj.refs, List.flatMap_map, hok]

/-- An object that runs no code. -/
def Obj.live (o : Obj) : LiveObject := ⟨o.face, o.face, o.face, none⟩

theorem Obj.refs_live {o : Obj} {r : Ref} : r ∈ o.live.refs ↔ r ∈ o.refs := by
  simp [LiveObject.refs, Obj.live, Obj.refs_face]

/-- A graph as its readers find it. -/
def Live.ofGraph (g : Graph) : Live where
  objs := g.heap.objs.map Obj.live
  closed := by
    intro o ho r hr
    obtain ⟨o', ho', rfl⟩ := List.mem_map.mp ho
    rw [List.length_map]
    exact g.heap.closed o' ho' r (Obj.refs_live.mp hr)
  root := g.root
  root_lt := by
    rw [List.length_map]
    exact g.closed

/-- No object has a `toJSON` or shows one reader what it does not show another. -/
def Live.Inert (v : Live) : Prop :=
  ∀ o ∈ v.objs, o.checked = o.returned ∧ o.encoded = o.returned ∧ o.toJSON = none

/-! ## JSON.stringify -/

/-- The TypeError for an object inside itself. -/
def circularError : ThrownValue :=
  .error (.typeError (js "Converting circular structure to JSON"))

def bigintError : ThrownValue :=
  .error (.typeError (js "Do not know how to serialize a BigInt"))

def StringifyError.thrown : StringifyError → ThrownValue
  | .circular => circularError
  | .bigint => bigintError

/-- The value that is written for a value. -/
def jsonForm (objs : List LiveObject) : Value → Read
  | .object r => ((objs[r]?).bind LiveObject.toJSON).getD (.ok (.object r))
  | v => .ok v

/-- A property is read, and what is written for its value is written. -/
def tellRead (objs : List LiveObject) (tell : Value → Except ThrownValue (Option Tree))
    (read : Read) : Except ThrownValue (Option Tree) := do
  let v ← read
  let form ← jsonForm objs v
  tell form

/-- SerializeJSONArray: the items in order; what is undefined, and what is not
there, is null. -/
def tellItems (tell : Read → Except ThrownValue (Option Tree)) :
    List (Option Read) → Except ThrownValue (Node .items)
  | [] => .ok .noItems
  | none :: items => do
      let rest ← tellItems tell items
      pure (.item .null rest)
  | some read :: items => do
      let head ← tell read
      let rest ← tellItems tell items
      pure (.item (head.getD .null) rest)

/-- SerializeJSONObject: the members in order, without those that are
undefined. -/
def tellProps (tell : Read → Except ThrownValue (Option Tree)) :
    List (JsString × Read) → Except ThrownValue (Node .props)
  | [] => .ok .noProps
  | (key, read) :: members => do
      let head ← tell read
      let rest ← tellProps tell members
      match head with
      | none => pure rest
      | some head => pure (.prop key head rest)

/-- SerializeJSONProperty, with the tree for the text; `none` is undefined. A
number that is not finite is null, and -0 is 0. The `stack` and the `fuel` are
those of `Json.serialize`. -/
def Live.tell (objs : List LiveObject) :
    Nat → List Ref → Value → Except ThrownValue (Option Tree)
  | _, _, .null => .ok (some .null)
  | _, _, .boolean b => .ok (some (.boolean b))
  | _, _, .number n => .ok (some (Node.number n).wire)
  | _, _, .string s => .ok (some (.string s))
  | _, _, .undefined => .ok none
  | _, _, .symbol => .ok none
  | _, _, .function => .ok none
  | _, _, .bigint _ => .error bigintError
  | fuel, stack, .object r =>
      if r ∈ stack then .error circularError
      else match fuel with
      | 0 => .error circularError
      | fuel + 1 =>
          match (objs[r]?).map LiveObject.encoded with
          | none => .ok none
          | some (.throws thrown) => .error thrown
          | some (.array _ items _) => do
              let items ← tellItems (tellRead objs (Live.tell objs fuel (r :: stack))) items
              pure (some (.array items))
          | some (.object _ members) => do
              let props ← tellProps (tellRead objs (Live.tell objs fuel (r :: stack))) members.named
              pure (some (.object props))

/-- The tree `JSON.stringify(value)` writes; none when it gives undefined. -/
def Live.told (v : Live) : Except ThrownValue (Option Tree) :=
  tellRead v.objs (Live.tell v.objs v.objs.length []) (.ok v.root)

/-- `JSON.stringify(value)`. -/
def Live.stringify (v : Live) : Except ThrownValue (Option JsString) := do
  let tree ← v.told
  pure (tree.map Node.text)

/-! ## What the caller finds -/

/-- What a `Node` of each kind is found in. -/
abbrev Sight : Kind → Type
  | .value => Read
  | .items => List (Option Read)
  | .props => List (Key × Read)

/-- How plain data is found. -/
def Sight.ofSource : ∀ {k : Kind}, Source k → Sight k
  | .value, v => .ok v
  | .items, vs => vs.map fun item => item.map .ok
  | .props, ps => ps.map fun e => (.string e.1, .ok e.2)

/-- What is found is the tree, and nothing else. -/
def Finds (objs : List LiveObject) : ∀ {k : Kind}, Sight k → Node k → Prop
  | _, read, .null => read = .ok .null
  | _, read, .boolean b => read = .ok (.boolean b)
  | _, read, .number n => read = .ok (.number n)
  | _, read, .string s => read = .ok (.string s)
  | _, read, .array items => ∃ r found, read = .ok (.object r) ∧
      (objs[r]?).map LiveObject.returned = some (.array true found .empty) ∧
      Finds objs (k := .items) found items
  | _, read, .object props => ∃ r members, read = .ok (.object r) ∧
      (objs[r]?).map LiveObject.returned = some (.object .objectPrototype members) ∧
      Finds objs (k := .props) members.entries props
  | _, found, .noItems => found = []
  | _, found, .hole rest => ∃ found', found = none :: found' ∧ Finds objs (k := .items) found' rest
  | _, found, .item head rest => ∃ read found', found = some read :: found' ∧
      Finds objs (k := .value) read head ∧ Finds objs (k := .items) found' rest
  | _, found, .noProps => found = []
  | _, found, .prop key head rest => ∃ read found', found = (.string key, read) :: found' ∧
      Finds objs (k := .value) read head ∧ Finds objs (k := .props) found' rest

/-- The caller finds the tree. -/
def Live.Finds (v : Live) (t : Tree) : Prop := Js.Finds v.objs (k := .value) (.ok v.root) t

end Benchhand.Js
