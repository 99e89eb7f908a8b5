/-
Benchhand.Posix.Path — path strings.

The functions of `node:path` for POSIX, as Node documents them, on the UTF-16
strings a program has; and the names an operating system sees. A name is a
list of scalar values: the encoder has written U+FFFD for a lone surrogate
before a path leaves the program, so two strings can be one name
(`components`).
-/
import Benchhand.Text.Unicode

namespace Benchhand.Posix

open Text

/-! ## `node:path` -/

def slash : UInt16 := ch '/'

def dot : JsString := [ch '.']

def dotDot : JsString := [ch '.', ch '.']

/-- `path.posix.isAbsolute`. -/
def isAbsolute (p : JsString) : Bool := p.head? == some slash

def isWindowsSeparator (u : UInt16) : Bool := u == slash || u == ch '\\'

/-- A letter of either case. -/
def isWindowsDeviceRoot (u : UInt16) : Bool :=
  (ch 'A' ≤ u && u ≤ ch 'Z') || (ch 'a' ≤ u && u ≤ ch 'z')

/-- `path.win32.isAbsolute`: a separator, or a drive with a separator. -/
def win32IsAbsolute : JsString → Bool
  | [] => false
  | a :: rest => isWindowsSeparator a ||
      match rest with
      | b :: c :: _ => isWindowsDeviceRoot a && b == ch ':' && isWindowsSeparator c
      | _ => false

/-- One segment of `normalizeString`; `kept` has the last kept segment first.
Above the root `..` is dropped, or kept where that is allowed. -/
def pushSegment (allowAboveRoot : Bool) (kept : List JsString) (segment : JsString) :
    List JsString :=
  if segment = [] ∨ segment = dot then kept
  else if segment = dotDot then
    match kept with
    | [] => if allowAboveRoot then [dotDot] else []
    | last :: before =>
        if last = dotDot then (if allowAboveRoot then dotDot :: kept else kept) else before
  else segment :: kept

def joinSegments (segments : List JsString) : JsString := [slash].intercalate segments

/-- `normalizeString`, as the list of its segments. -/
def normalizeSegments (allowAboveRoot : Bool) (p : JsString) : List JsString :=
  ((p.splitOn slash).foldl (pushSegment allowAboveRoot) []).reverse

/-- `path.posix.normalize`. -/
def normalize (p : JsString) : JsString :=
  if p = [] then dot
  else
    let body := joinSegments (normalizeSegments (!isAbsolute p) p)
    let trailing := p.getLast? == some slash
    if body = [] then
      if isAbsolute p then [slash] else if trailing then dot ++ [slash] else dot
    else
      let body := if trailing then body ++ [slash] else body
      if isAbsolute p then slash :: body else body

/-- `path.posix.join(base, name)` with two non-empty arguments. -/
def join (base name : JsString) : JsString := normalize (base ++ slash :: name)

/-- The path `path.posix.resolve` normalises: the last absolute argument and
what follows it. The program always starts from an absolute one. -/
def resolvePending (paths : List JsString) : JsString :=
  paths.foldl (fun pending p =>
    if p = [] then pending else if isAbsolute p then p else pending ++ slash :: p) []

/-- `path.posix.resolve(...paths)`. -/
def resolve (paths : List JsString) : JsString :=
  slash :: joinSegments (normalizeSegments false (resolvePending paths))

/-- The number of leading segments two lists share. -/
def commonSegments : List JsString → List JsString → Nat
  | a :: as, b :: bs => if a = b then commonSegments as bs + 1 else 0
  | _, _ => 0

/-- `path.posix.relative(from, to)` between absolute paths. -/
def relative (base target : JsString) : JsString :=
  let base := normalizeSegments false (resolvePending [base])
  let target := normalizeSegments false (resolvePending [target])
  let common := commonSegments base target
  joinSegments (List.replicate (base.length - common) dotDot ++ target.drop common)

/-- `path.posix.basename(p)`. -/
def basename (p : JsString) : JsString :=
  ((p.reverse.dropWhile (· == slash)).takeWhile (· != slash)).reverse

/-- `path.posix.dirname(p)`. -/
def dirname (p : JsString) : JsString :=
  match (p.reverse.dropWhile (· == slash)).dropWhile (· != slash) with
  | [] => if isAbsolute p then [slash] else dot
  | _ :: before =>
      if before = [] then [slash]
      else if isAbsolute p && before.length == 1 then [slash, slash]
      else before.reverse

/-! ## Names -/

/-- A name in a directory, as the scalar values of its UTF-8 bytes. -/
abbrev Name := List Char

/-- The names from the root of the file system to an object. -/
abbrev Path := List Name

/-- A name as a program reads it. -/
def Name.text (name : Name) : JsString := name.flatMap units

/-- The names of a path; `.` and repeated separators do not count. -/
def components (p : List Char) : List Name :=
  (p.splitOn '/').filter fun name => name ≠ [] && name ≠ ['.']

def parentName : Name := ['.', '.']

/-- The absolute path string of an object. -/
def Path.text (path : Path) : JsString := slash :: joinSegments (path.map Name.text)

/-- A name an object can have: not empty, no `.` or `..`, no separator. -/
structure Name.Plain (name : Name) : Prop where
  ne_nil : name ≠ []
  ne_dot : name ≠ ['.']
  ne_dotDot : name ≠ parentName
  noSlash : '/' ∉ name

/-- The bytes of a name. -/
def Name.size (name : Name) : Nat := (name.flatMap String.utf8EncodeChar).length

end Benchhand.Posix
