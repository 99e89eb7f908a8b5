/-
Benchhand.Filesystem.List — FilesystemService.list and its cursors.

A page is cut out of the sorted entries of a directory, behind the name that a
cursor remembers (`pageOf`). A cursor is a JSON object in base64url.
-/
import Benchhand.Filesystem.Workspace
import Benchhand.Js.JsonTheorems
import Benchhand.Text.Buffer
import Mathlib.Data.List.Sort

namespace Benchhand.Filesystem

open Text Posix Js

/-! ## Requests and results -/

structure ListRequest where
  workspaceId : JsString
  path : Option JsString
  limit : Option Js.Number
  cursor : Option JsString

structure ListEntry where
  name : JsString
  path : JsString
  type : ObjectType
  size : Option Nat
  deriving DecidableEq

structure ListResult where
  path : JsString
  entries : List ListEntry
  nextCursor : Option JsString
  deriving DecidableEq

def defaultListLimit : Nat := 100

def maxListLimit : Nat := 1000

/-! ## The order of names -/

/-- The loop of `compareCodePoints`. -/
def comparePoints : List Nat → List Nat → Int
  | left :: lefts, right :: rights =>
      if (left : Int) - right ≠ 0 then left - right else comparePoints lefts rights
  | lefts, rights => (lefts.length : Int) - rights.length

/-- `compareCodePoints(left, right)`. -/
def compareCodePoints (left right : JsString) : Int :=
  comparePoints (codePoints left) (codePoints right)

/-! ## Cursors -/

/-- A cursor of version 1. -/
structure ListCursor where
  path : JsString
  after : JsString
  deriving DecidableEq

/-- The object literal of a cursor. -/
def ListCursor.tree (cursor : ListCursor) : Tree :=
  .object (.prop (js "version") (.number (.finite .one))
    (.prop (js "path") (.string cursor.path)
      (.prop (js "after") (.string cursor.after) .noProps)))

/-- `encodeListCursor(cursor)`; the text is always there. -/
def encodeListCursor (cursor : ListCursor) : JsString :=
  match Json.stringify (Graph.ofTree cursor.tree) with
  | .ok (some text) => base64Url (encodeUtf8 text)
  | _ => []

def invalidCursor (path : JsString) : FilesystemError :=
  { code := .invalidCursor, path := some path, message := js "directory cursor is invalid" }

/-- `decodeListCursor(encoded, path)`. -/
def decodeListCursor (encoded path : JsString) : Except FilesystemError ListCursor :=
  match Json.parse (decodeUtf8Lossy (ofBase64 encoded)) with
  | none => .error (invalidCursor path)
  | some parsed =>
      let field := fun name => parsed.heap.property parsed.root (js name)
      if field "version" = .number (.finite .one) ∧ field "path" = .string path then
        match field "after" with
        | .string after =>
            if after = [] then .error (invalidCursor path) else .ok { path, after }
        | _ => .error (invalidCursor path)
      else .error (invalidCursor path)

/-- The cursor of a request, if it has one. -/
def cursorOption (cursor : Option JsString) (path : JsString) :
    Except FilesystemError (Option ListCursor) :=
  match cursor with
  | none => .ok none
  | some encoded => (decodeListCursor encoded path).map some

/-! ## Pages -/

/-- The page of sorted entries behind a cursor, and the cursor of the next. -/
def pageOf (path : JsString) (cursor : Option ListCursor) (limit : Nat) (listed : List ListEntry) :
    ListResult :=
  let start := match cursor with
    | none => 0
    | some cursor =>
        (listed.findIdx? fun entry => 0 < compareCodePoints entry.name cursor.after).getD
          listed.length
  let page := (listed.drop start).take limit
  let hasMore := start + page.length < listed.length
  { path
    entries := page
    nextCursor :=
      if hasMore ∧ 0 < page.length then
        some (encodeListCursor ⟨path, (page.getLast?.map ListEntry.name).getD []⟩)
      else none }

/-- `listed.sort(...)`, which is stable. -/
def sortEntries (listed : List ListEntry) : List ListEntry :=
  listed.insertionSort fun left right => compareCodePoints left.name right.name ≤ 0

/-- `readEntryMetadata(path, symlink)`, as the size it returns. -/
def readEntryMetadata (path : JsString) (symlink : Bool) : Async Nat :=
  if symlink then pure 0
  else do
    let stats ← lstat path
    return if stats.size ≤ maxSafeInteger then stats.size else 0

/-- The loop over the directory entries. -/
def listEntries (path absolutePath : JsString) : List Dirent → Async (List ListEntry)
  | [] => pure []
  | dirent :: rest => do
      let size ← readEntryMetadata (join absolutePath dirent.name) (dirent.type = .symlink)
      let listed ← listEntries path absolutePath rest
      return { name := dirent.name, path := joinPortable path dirent.name, type := dirent.type
               size := if dirent.type = .file then some size else none } :: listed

/-- `FilesystemService.list(request)`. -/
def Service.list (service : Service) (request : ListRequest) : Async ListResult := do
  let root ← service.accessWorkspace request.workspaceId
  let path ← ofExcept (normalizeRelativePath (request.path.getD dot) true)
  let limit ← ofExcept (boundedOption request.limit defaultListLimit "limit" 1 maxListLimit)
  let cursor ← ofExcept (cursorOption request.cursor path)
  let absolutePath ← resolveExistingPath root path
  let entries ← (readdir absolutePath).mapError (mapFilesystemError path)
  let listed ← listEntries path absolutePath entries
  return pageOf path cursor limit (sortEntries listed)

end Benchhand.Filesystem
