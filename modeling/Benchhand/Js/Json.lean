/-
Benchhand.Js.Json — `JSON.stringify` and `JSON.parse`.

`Json.stringify` follows SerializeJSONProperty over the heap: the stack of
objects being written detects cycles, holes and unwritable items become null,
unwritable properties are left out, numbers are printed by `Number::toString`
and strings by QuoteJSONString, which escapes lone surrogates. Values with
`toJSON` methods or getters are written in `Js.Live`.

`Json.parse` is the grammar of the JSON text: white space, literals, numbers,
strings with escapes, arrays and objects. The value it returns is made of fresh
objects; a repeated key keeps its place and takes the last value.

`Node.text` prints a tree and `Node.wire` is the tree that reading the text
gives: a hole and a number that is not finite come back as null, -0 as 0.
-/
import Benchhand.Js.ValueTheorems

namespace Benchhand.Js

open Benchhand.Text

/-! ## Numerals -/

/-- Decimal digits, most significant first. -/
def decimalDigits (n : Nat) : List Nat := (Nat.digits 10 n).reverse

/-- The number the digits name. -/
def ofDecimalDigits (ds : List Nat) : Nat := ds.foldl (fun acc d => 10 * acc + d) 0

def digitsText (ds : List Nat) : JsString := ds.map fun d => UInt16.ofNat (48 + d)

/-- The parts of a JSON number. -/
structure Numeral where
  neg : Bool
  int : List Nat
  frac : List Nat
  exp : Option Int
  deriving DecidableEq

def Numeral.signText (m : Numeral) : JsString := if m.neg then [ch '-'] else []

def Numeral.fracText (m : Numeral) : JsString :=
  if m.frac = [] then [] else ch '.' :: digitsText m.frac

def Numeral.expText (m : Numeral) : JsString :=
  match m.exp with
  | none => []
  | some e => ch 'e' :: (if e < 0 then ch '-' else ch '+') :: digitsText (decimalDigits e.natAbs)

def Numeral.text (m : Numeral) : JsString :=
  m.signText ++ (digitsText m.int ++ (m.fracText ++ m.expText))

/-- The Number value the numeral denotes. -/
def Numeral.value (m : Numeral) : Number :=
  .ofMagnitude m.neg
    ((ofDecimalDigits (m.int ++ m.frac) : ℚ) * 10 ^ (m.exp.getD 0 - (m.frac.length : Int)))

/-- Where `Number::toString` puts the point: `ds` are the digits and `n` the
place of the first. -/
def Numeral.format (neg : Bool) (ds : List Nat) (n : Int) : Numeral :=
  let k : Int := ds.length
  if k ≤ n ∧ n ≤ 21 then ⟨neg, ds ++ List.replicate (n - k).toNat 0, [], none⟩
  else if 0 < n ∧ n ≤ 21 then ⟨neg, ds.take n.toNat, ds.drop n.toNat, none⟩
  else if -6 < n ∧ n ≤ 0 then ⟨neg, [0], List.replicate (-n).toNat 0 ++ ds, none⟩
  else ⟨neg, ds.take 1, ds.drop 1, some (n - 1)⟩

/-- `Number::toString` of a finite value. -/
def Double.numeral (x : Double) : Numeral :=
  if x.isZero then ⟨false, [0], [], none⟩
  else .format x.neg (decimalDigits (shortestDigits x).1) (shortestDigits x).2

def Number.text : Number → JsString
  | .finite x => x.numeral.text
  | .infinity _ => js "null"
  | .nan => js "null"

/-! ## Strings -/

def hexDigitUnit (d : Nat) : UInt16 := UInt16.ofNat (if d < 10 then 48 + d else 87 + d)

/-- `\uXXXX`, in lower case. -/
def unicodeEscape (u : UInt16) : JsString :=
  [ch '\\', ch 'u', hexDigitUnit (u.toNat / 4096), hexDigitUnit (u.toNat / 256 % 16),
    hexDigitUnit (u.toNat / 16 % 16), hexDigitUnit (u.toNat % 16)]

/-- The two-character escapes: the unit and the letter that stands for it. -/
def shortEscapes : List (UInt16 × UInt16) :=
  [(0x08, ch 'b'), (0x09, ch 't'), (0x0A, ch 'n'), (0x0C, ch 'f'), (0x0D, ch 'r'),
    (ch '"', ch '"'), (ch '\\', ch '\\')]

/-- A unit that is not part of a surrogate pair. -/
def quoteUnit (u : UInt16) : JsString :=
  match shortEscapes.lookup u with
  | some letter => [ch '\\', letter]
  | none => if u.toNat < 0x20 || isHigh u || isLow u then unicodeEscape u else [u]

/-- The characters QuoteJSONString writes between the quotation marks. -/
def quoteUnits : JsString → JsString
  | [] => []
  | [u] => quoteUnit u
  | u :: v :: rest =>
      if isHigh u && isLow v then u :: v :: quoteUnits rest
      else quoteUnit u ++ quoteUnits (v :: rest)

def quote (s : JsString) : JsString := ch '"' :: (quoteUnits s ++ [ch '"'])

/-! ## Printing -/

/-- Parts with commas between them. -/
def commaJoin : List JsString → JsString
  | [] => []
  | [part] => part
  | part :: rest => part ++ ch ',' :: commaJoin rest

def Node.isEmpty : ∀ {k : Kind}, Node k → Bool
  | _, .noItems | _, .noProps => true
  | _, _ => false

/-- The comma before the rest of an array or object. -/
def Node.comma {k : Kind} (rest : Node k) : JsString := if rest.isEmpty then [] else [ch ',']

/-- The JSON text of a tree. -/
def Node.text : ∀ {k : Kind}, Node k → JsString
  | _, .null => js "null"
  | _, .boolean b => if b then js "true" else js "false"
  | _, .number n => n.text
  | _, .string s => quote s
  | _, .array items => ch '[' :: (items.text ++ [ch ']'])
  | _, .object props => ch '{' :: (props.text ++ [ch '}'])
  | _, .noItems | _, .noProps => []
  | _, .hole rest => js "null" ++ (rest.comma ++ rest.text)
  | _, .item head rest => head.text ++ (rest.comma ++ rest.text)
  | _, .prop key head rest =>
      quote key ++ (ch ':' :: (head.text ++ (rest.comma ++ rest.text)))

/-- The tree its text stands for. -/
def Node.wire : ∀ {k : Kind}, Node k → Node k
  | _, .null => .null
  | _, .boolean b => .boolean b
  | _, .number (.finite x) => .number (.finite (if x.isZero then .zero false else x))
  | _, .number (.infinity _) => .null
  | _, .number .nan => .null
  | _, .string s => .string s
  | _, .array items => .array items.wire
  | _, .object props => .object props.wire
  | _, .noItems => .noItems
  | _, .hole rest => .item .null rest.wire
  | _, .item head rest => .item head.wire rest.wire
  | _, .noProps => .noProps
  | _, .prop key head rest => .prop key head.wire rest.wire

inductive StringifyError where
  | circular
  | bigint
  deriving DecidableEq

/-- SerializeJSONArray's element: what is undefined, and what is not there, is
written as null. -/
def Json.serializeItem (ser : Value → Except StringifyError (Option JsString)) :
    Option Value → Except StringifyError JsString
  | none => .ok (js "null")
  | some v => (ser v).map fun part => part.getD (js "null")

/-- SerializeJSONObject's member; none when the value is undefined. -/
def Json.serializeProp (ser : Value → Except StringifyError (Option JsString))
    (e : JsString × Value) : Except StringifyError (Option JsString) :=
  (ser e.2).map fun part => part.map fun text => quote e.1 ++ ch ':' :: text

/-- SerializeJSONProperty; `none` is undefined. A step into an object takes one
unit of `fuel`; an object is on the `stack` at most once, so as many units as
there are objects are enough. -/
def Json.serialize (h : Heap) :
    Nat → List Ref → Value → Except StringifyError (Option JsString)
  | _, _, .null => .ok (some (js "null"))
  | _, _, .boolean b => .ok (some (if b then js "true" else js "false"))
  | _, _, .number n => .ok (some n.text)
  | _, _, .string s => .ok (some (quote s))
  | _, _, .undefined => .ok none
  | _, _, .symbol => .ok none
  | _, _, .function => .ok none
  | _, _, .bigint _ => .error .bigint
  | fuel, stack, .object r =>
      if r ∈ stack then .error .circular
      else match fuel with
      | 0 => .error .circular
      | fuel + 1 =>
          match h.objs[r]? with
          | none => .ok none
          | some (.array items) =>
              (items.mapM (Json.serializeItem (Json.serialize h fuel (r :: stack)))).map
                fun parts => some (ch '[' :: (commaJoin parts ++ [ch ']']))
          | some (.plain _ props) =>
              (props.entries.mapM (Json.serializeProp (Json.serialize h fuel (r :: stack)))).map
                fun parts => some (ch '{' :: (commaJoin (parts.filterMap id) ++ [ch '}']))

/-- `JSON.stringify(value)`. -/
def Json.stringify (g : Graph) : Except StringifyError (Option JsString) :=
  Json.serialize g.heap g.heap.objs.length [] g.root

/-! ## Parsing -/

def isSpaceUnit (u : UInt16) : Bool := u == 0x09 || u == 0x0A || u == 0x0D || u == 0x20

def skipSpace : JsString → JsString := List.dropWhile isSpaceUnit

def isDigitUnit (u : UInt16) : Bool := 48 ≤ u.toNat && u.toNat ≤ 57

/-- The digits a text starts with, and the rest. -/
def spanDigits : JsString → List Nat × JsString
  | [] => ([], [])
  | u :: rest =>
      if isDigitUnit u then ((u.toNat - 48) :: (spanDigits rest).1, (spanDigits rest).2)
      else ([], u :: rest)

/-- One zero, or digits that do not start with it. -/
def parseInt (s : JsString) : Option (List Nat × JsString) :=
  match spanDigits s with
  | ([], _) => none
  | (0 :: _, _) => some ([0], s.tail)
  | (ds, rest) => some (ds, rest)

def parseFrac : JsString → Option (List Nat × JsString)
  | [] => some ([], [])
  | u :: rest =>
      if u = ch '.' then
        match spanDigits rest with
        | ([], _) => none
        | (ds, rest) => some (ds, rest)
      else some ([], u :: rest)

def parseExpDigits (neg : Bool) (s : JsString) : Option (Option Int × JsString) :=
  match spanDigits s with
  | ([], _) => none
  | (ds, rest) =>
      let e : Int := ofDecimalDigits ds
      some (some (if neg then -e else e), rest)

def parseExp : JsString → Option (Option Int × JsString)
  | [] => some (none, [])
  | u :: rest =>
      if u = ch 'e' || u = ch 'E' then
        match rest with
        | [] => none
        | v :: rest' =>
            if v = ch '-' then parseExpDigits true rest'
            else if v = ch '+' then parseExpDigits false rest'
            else parseExpDigits false rest
      else some (none, u :: rest)

def parseUnsigned (neg : Bool) (s : JsString) : Option (Numeral × JsString) := do
  let (int, s) ← parseInt s
  let (frac, s) ← parseFrac s
  let (exp, s) ← parseExp s
  pure (⟨neg, int, frac, exp⟩, s)

def parseNumeral : JsString → Option (Numeral × JsString)
  | [] => none
  | u :: rest => if u = ch '-' then parseUnsigned true rest else parseUnsigned false (u :: rest)

def hexValue (u : UInt16) : Option Nat :=
  let n := u.toNat
  if 48 ≤ n ∧ n ≤ 57 then some (n - 48)
  else if 97 ≤ n ∧ n ≤ 102 then some (n - 87)
  else if 65 ≤ n ∧ n ≤ 70 then some (n - 55)
  else none

/-- The unit a letter after a backslash stands for; `\/` is read and never
written. -/
def shortEscapeValue (letter : UInt16) : Option UInt16 :=
  (((ch '/', ch '/') :: shortEscapes).find? fun e => e.2 == letter).map Prod.fst

/-- The characters up to the closing quotation mark, and the rest. -/
def parseChars : JsString → Option (JsString × JsString)
  | [] => none
  | u :: rest =>
      if u = ch '"' then some ([], rest)
      else if u = ch '\\' then
        match rest with
        | [] => none
        | e :: rest =>
            if e = ch 'u' then
              match rest with
              | a :: b :: c :: d :: rest => do
                  let a ← hexValue a
                  let b ← hexValue b
                  let c ← hexValue c
                  let d ← hexValue d
                  let (s, rest) ← parseChars rest
                  pure (UInt16.ofNat (4096 * a + 256 * b + 16 * c + d) :: s, rest)
              | _ => none
            else do
              let v ← shortEscapeValue e
              let (s, rest) ← parseChars rest
              pure (v :: s, rest)
      else if u.toNat < 0x20 then none
      else do
        let (s, rest) ← parseChars rest
        pure (u :: s, rest)

/-- A value, the rest of an array after `[` or `,`, or the rest of an object
after `{` or `,`. Every call that reads a unit or opens a value takes one unit
of `fuel`. -/
def parseNode : Nat → (k : Kind) → JsString → Option (Node k × JsString)
  | 0, _, _ => none
  | fuel + 1, .value, s =>
      match skipSpace s with
      | [] => none
      | u :: rest =>
          if u = ch '"' then do
            let (t, rest) ← parseChars rest
            pure (.string t, rest)
          else if u = ch '[' then
            if (skipSpace rest).head? = some (ch ']') then
              some (.array .noItems, (skipSpace rest).tail)
            else do
              let (items, rest) ← parseNode fuel .items rest
              pure (.array items, rest)
          else if u = ch '{' then
            if (skipSpace rest).head? = some (ch '}') then
              some (.object .noProps, (skipSpace rest).tail)
            else do
              let (props, rest) ← parseNode fuel .props rest
              pure (.object props, rest)
          else if u = ch 'n' then
            ((js "null").isPrefixOf? (u :: rest)).map fun rest => (.null, rest)
          else if u = ch 't' then
            ((js "true").isPrefixOf? (u :: rest)).map fun rest => (.boolean true, rest)
          else if u = ch 'f' then
            ((js "false").isPrefixOf? (u :: rest)).map fun rest => (.boolean false, rest)
          else
            (parseNumeral (u :: rest)).map fun (m, rest) => (.number m.value, rest)
  | fuel + 1, .items, s => do
      let (head, s) ← parseNode fuel .value s
      match skipSpace s with
      | [] => none
      | u :: s =>
          if u = ch ',' then do
            let (rest, s) ← parseNode fuel .items s
            pure (.item head rest, s)
          else if u = ch ']' then some (.item head .noItems, s)
          else none
  | fuel + 1, .props, s =>
      match skipSpace s with
      | [] => none
      | u :: s =>
          if u = ch '"' then do
            let (key, s) ← parseChars s
            match skipSpace s with
            | [] => none
            | u :: s =>
                if u = ch ':' then do
                  let (head, s) ← parseNode fuel .value s
                  match skipSpace s with
                  | [] => none
                  | u :: s =>
                      if u = ch ',' then do
                        let (rest, s) ← parseNode fuel .props s
                        pure (.prop key head rest, s)
                      else if u = ch '}' then some (.prop key head .noProps, s)
                      else none
                else none
          else none

attribute [grind =] Numeral.text Number.text quoteUnit Node.comma Node.text Node.wire parseChars
  parseNode

/-- The tree of a JSON text; none when it is not one. -/
def Json.parseTree (s : JsString) : Option Tree := do
  let (t, rest) ← parseNode (2 * s.length + 1) .value s
  if skipSpace rest = [] then some t else none

/-- `JSON.parse(text)`; none is a SyntaxError. -/
def Json.parse (s : JsString) : Option Graph := (Json.parseTree s).map Graph.ofTree

end Benchhand.Js
