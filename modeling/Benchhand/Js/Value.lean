/-
Benchhand.Js.Value — JavaScript values and the trees they unfold to.

Objects live in a `Heap` and values refer to them, so two places can share an
object and an object can contain itself. Arrays keep their holes. A plain
object is its own enumerable string-keyed data properties in the order
`Object.keys` lists them, and no key twice; of its prototype only what the
program asks about is kept. Objects that run code when they are read are in
`Js.Live`.

A `Tree` is a JSON value without identity. `Denotes h v t` says that following
the references of `v` in `h` ends everywhere and yields `t`; it is the way to
say that the objects reachable from `v` are acyclic and made of JSON kinds
only. `Graph.ofTree` builds fresh objects for a tree, as `JSON.parse` does.
-/
import Benchhand.Js.Number
import Benchhand.Text.Unicode

namespace Benchhand.Js

open Benchhand.Text

/-! ## Values and objects -/

/-- The place of an object in the heap. -/
abbrev Ref := Nat

inductive Value where
  | undefined
  | null
  | boolean (b : Bool)
  | number (n : Number)
  | bigint (n : Int)
  | string (s : JsString)
  | symbol
  | function
  | object (r : Ref)
  deriving DecidableEq

/-- `Object.getPrototypeOf`, as far as it is compared with anything. -/
inductive Prototype where
  | objectPrototype
  | null
  | other
  deriving DecidableEq

/-- Own enumerable data properties, each key once. -/
structure Properties where
  entries : List (JsString × Value)
  nodup : (entries.map Prod.fst).Nodup
  deriving DecidableEq

inductive Obj where
  /-- An array; `none` is a hole. -/
  | array (items : List (Option Value))
  | plain (proto : Prototype) (props : Properties)
  deriving DecidableEq

/-- The places a value refers to: none or one. -/
def Value.refs : Value → List Ref
  | .object r => [r]
  | _ => []

def Obj.refs : Obj → List Ref
  | .array items => items.flatMap fun item => item.elim [] Value.refs
  | .plain _ props => props.entries.flatMap fun e => e.2.refs

/-- The objects of a run; every reference in them is to one of them. -/
structure Heap where
  objs : List Obj
  closed : ∀ o ∈ objs, ∀ r ∈ o.refs, r < objs.length

/-- A value together with the objects it can reach. -/
structure Graph where
  heap : Heap
  root : Value
  closed : ∀ r ∈ root.refs, r < heap.objs.length

def Heap.empty : Heap := ⟨[], fun _ h => absurd h List.not_mem_nil⟩

/-- A value that is no object needs no heap. -/
def Graph.scalar (v : Value) (h : v.refs = []) : Graph :=
  ⟨.empty, v, fun _ hr => absurd (h ▸ hr) List.not_mem_nil⟩

/-- An `Error` instance: the two fields the program reads. -/
structure JsError where
  name : JsString
  message : JsString
  deriving DecidableEq

/-- `new TypeError(message)`. -/
def JsError.typeError (message : JsString) : JsError := ⟨js "TypeError", message⟩

/-- `new Error(message)`. -/
def JsError.error (message : JsString) : JsError := ⟨js "Error", message⟩

/-- The value of an own property of a plain object; undefined otherwise. -/
def Heap.property (h : Heap) (v : Value) (key : JsString) : Value :=
  match v with
  | .object r =>
      match h.objs[r]? with
      | some (.plain _ props) => (props.entries.lookup key).getD .undefined
      | _ => .undefined
  | _ => .undefined

/-! ## Trees -/

/-- What a `Node` is: a JSON value, the rest of an array, the rest of an
object. -/
inductive Kind where
  | value
  | items
  | props

inductive Node : Kind → Type where
  | null : Node .value
  | boolean (b : Bool) : Node .value
  | number (n : Number) : Node .value
  | string (s : JsString) : Node .value
  | array (items : Node .items) : Node .value
  | object (props : Node .props) : Node .value
  | noItems : Node .items
  | hole (rest : Node .items) : Node .items
  | item (head : Node .value) (rest : Node .items) : Node .items
  | noProps : Node .props
  | prop (key : JsString) (head : Node .value) (rest : Node .props) : Node .props
  deriving DecidableEq

/-- A JSON value without object identity. -/
abbrev Tree := Node .value

namespace Node

/-- The number of constructors. -/
def size : ∀ {k : Kind}, Node k → Nat
  | _, .array items => items.size + 1
  | _, .object props => props.size + 1
  | _, .hole rest => rest.size + 1
  | _, .item head rest => head.size + rest.size + 1
  | _, .prop _ head rest => head.size + rest.size + 1
  | _, .null | _, .boolean _ | _, .number _ | _, .string _ | _, .noItems | _, .noProps => 1

/-- Every number is finite. -/
def AllFinite : ∀ {k : Kind}, Node k → Prop
  | _, .number n => n.isFinite = true
  | _, .array items => items.AllFinite
  | _, .object props => props.AllFinite
  | _, .hole rest => rest.AllFinite
  | _, .item head rest => head.AllFinite ∧ rest.AllFinite
  | _, .prop _ head rest => head.AllFinite ∧ rest.AllFinite
  | _, .null | _, .boolean _ | _, .string _ | _, .noItems | _, .noProps => True

/-- No array has a hole. -/
def NoHoles : ∀ {k : Kind}, Node k → Prop
  | _, .array items => items.NoHoles
  | _, .object props => props.NoHoles
  | _, .hole _ => False
  | _, .item head rest => head.NoHoles ∧ rest.NoHoles
  | _, .prop _ head rest => head.NoHoles ∧ rest.NoHoles
  | _, .null | _, .boolean _ | _, .number _ | _, .string _ | _, .noItems | _, .noProps => True

/-- No number is -0. -/
def NoNegZero : ∀ {k : Kind}, Node k → Prop
  | _, .number n => n ≠ .finite (.zero true)
  | _, .array items => items.NoNegZero
  | _, .object props => props.NoNegZero
  | _, .hole rest => rest.NoNegZero
  | _, .item head rest => head.NoNegZero ∧ rest.NoNegZero
  | _, .prop _ head rest => head.NoNegZero ∧ rest.NoNegZero
  | _, .null | _, .boolean _ | _, .string _ | _, .noItems | _, .noProps => True

/-- The keys of an object, in order. -/
def keys : Node .props → List JsString
  | .noProps => []
  | .prop key _ rest => key :: rest.keys

/-- No object has a key twice. -/
def KeysNodup : ∀ {k : Kind}, Node k → Prop
  | _, .array items => items.KeysNodup
  | _, .object props => props.keys.Nodup ∧ props.KeysNodup
  | _, .hole rest => rest.KeysNodup
  | _, .item head rest => head.KeysNodup ∧ rest.KeysNodup
  | _, .prop _ head rest => head.KeysNodup ∧ rest.KeysNodup
  | _, .null | _, .boolean _ | _, .number _ | _, .string _ | _, .noItems | _, .noProps => True

/-- The value of a key. -/
def get? (key : JsString) : Node .props → Option (Node .value)
  | .noProps => none
  | .prop k head rest => if k = key then some head else rest.get? key

/-- The other properties. -/
def without (key : JsString) : Node .props → Node .props
  | .noProps => .noProps
  | .prop k head rest => if k = key then rest else .prop k head (rest.without key)

/-- Structural equality, with numbers compared by `same`: the same kinds, the
same holes, the same keys in any order, equal leaves. -/
def Equal (same : Number → Number → Prop) : ∀ {k : Kind}, Node k → Node k → Prop
  | _, .null, .null => True
  | _, .boolean a, .boolean b => a = b
  | _, .number m, .number n => same m n
  | _, .string s, .string t => s = t
  | _, .array xs, .array ys => xs.Equal same ys
  | _, .object ps, .object qs => ps.Equal same qs
  | _, .noItems, .noItems => True
  | _, .hole xs, .hole ys => xs.Equal same ys
  | _, .item x xs, .item y ys => x.Equal same y ∧ xs.Equal same ys
  | _, .noProps, .noProps => True
  | _, .prop k x xs, ps => ∃ y, ps.get? k = some y ∧ x.Equal same y ∧ xs.Equal same (ps.without k)
  | _, _, _ => False

end Node

/-! ## Unfolding a value -/

/-- What a `Node` of each kind is read from. -/
abbrev Source : Kind → Type
  | .value => Value
  | .items => List (Option Value)
  | .props => List (JsString × Value)

/-- The places a source refers to. -/
def Source.refs : ∀ {k : Kind}, Source k → List Ref
  | .value, v => Value.refs v
  | .items, vs => vs.flatMap fun item => item.elim [] Value.refs
  | .props, ps => ps.flatMap fun e => e.2.refs

/-- Following the references of `v` in `h` yields the tree. Only arrays and
plain objects with `Object.prototype` or no prototype have one. -/
def Denotes (h : Heap) : ∀ {k : Kind}, Source k → Node k → Prop
  | _, v, .null => v = .null
  | _, v, .boolean b => v = .boolean b
  | _, v, .number n => v = .number n
  | _, v, .string s => v = .string s
  | _, v, .array items => ∃ r vs, v = .object r ∧ h.objs[r]? = some (.array vs) ∧
      Denotes h (k := .items) vs items
  | _, v, .object props => ∃ r proto ps, v = .object r ∧ h.objs[r]? = some (.plain proto ps) ∧
      proto ≠ .other ∧ Denotes h (k := .props) ps.entries props
  | _, vs, .noItems => vs = []
  | _, vs, .hole rest => ∃ vs', vs = none :: vs' ∧ Denotes h (k := .items) vs' rest
  | _, vs, .item head rest => ∃ v vs', vs = some v :: vs' ∧ Denotes h (k := .value) v head ∧
      Denotes h (k := .items) vs' rest
  | _, ps, .noProps => ps = []
  | _, ps, .prop key head rest => ∃ v ps', ps = (key, v) :: ps' ∧
      Denotes h (k := .value) v head ∧ Denotes h (k := .props) ps' rest

/-- The tree of a value with its objects. -/
def Graph.Denotes (g : Graph) (t : Tree) : Prop := Js.Denotes g.heap (k := .value) g.root t

/-! ## Building objects -/

/-- `CreateDataProperty`: a key that is there keeps its place. -/
def setEntry (key : JsString) (v : Value) : List (JsString × Value) → List (JsString × Value)
  | [] => [(key, v)]
  | (k, w) :: rest => if k = key then (key, v) :: rest else (k, w) :: setEntry key v rest

theorem keys_setEntry (key : JsString) (v : Value) : ∀ entries : List (JsString × Value),
    (setEntry key v entries).map Prod.fst =
      if key ∈ entries.map Prod.fst then entries.map Prod.fst
      else entries.map Prod.fst ++ [key]
  | [] => by simp [setEntry]
  | (k, w) :: rest => by
      unfold setEntry
      by_cases hk : k = key
      · simp [hk]
      · have ih := keys_setEntry key v rest
        have hne : key ≠ k := Ne.symm hk
        simp only [if_neg hk, List.map_cons, ih, List.mem_cons, hne, false_or]
        split <;> rfl

def Properties.empty : Properties := ⟨[], List.nodup_nil⟩

def Properties.set (ps : Properties) (key : JsString) (v : Value) : Properties where
  entries := setEntry key v ps.entries
  nodup := by
    rw [keys_setEntry]
    split
    · exact ps.nodup
    · rename_i hkey
      rw [List.nodup_append]
      exact ⟨ps.nodup, List.nodup_singleton _, fun a ha b hb => by
        rintro rfl; exact hkey (List.mem_singleton.mp hb ▸ ha)⟩

def Properties.ofList (entries : List (JsString × Value)) : Properties :=
  entries.foldl (fun ps e => ps.set e.1 e.2) .empty

/-- Fresh objects for a tree, after the ones that exist. -/
def Node.alloc : ∀ {k : Kind}, Node k → List Obj → List Obj × Source k
  | _, .null, objs => (objs, .null)
  | _, .boolean b, objs => (objs, .boolean b)
  | _, .number n, objs => (objs, .number n)
  | _, .string s, objs => (objs, .string s)
  | _, .array items, objs =>
      let (objs', vs) := items.alloc objs
      (objs' ++ [.array vs], .object objs'.length)
  | _, .object props, objs =>
      let (objs', ps) := props.alloc objs
      (objs' ++ [.plain .objectPrototype (.ofList ps)], .object objs'.length)
  | _, .noItems, objs => (objs, [])
  | _, .hole rest, objs =>
      let (objs', vs) := rest.alloc objs
      (objs', none :: vs)
  | _, .item head rest, objs =>
      let (objs', v) := head.alloc objs
      let (objs'', vs) := rest.alloc objs'
      (objs'', some v :: vs)
  | _, .noProps, objs => (objs, [])
  | _, .prop key head rest, objs =>
      let (objs', v) := head.alloc objs
      let (objs'', ps) := rest.alloc objs'
      (objs'', (key, v) :: ps)

end Benchhand.Js
