/-
Benchhand.Filesystem.Read — FilesystemService.read.

A read returns one range of a file. The range is text when it is UTF-8 without
a NUL, whatever the rest of the file is (`classifyBuffer`).
-/
import Benchhand.Filesystem.Workspace
import Benchhand.Text.Buffer

namespace Benchhand.Filesystem

open Text Posix

/-! ## Requests and results -/

structure ReadRequest where
  workspaceId : JsString
  path : JsString
  offset : Option Js.Number
  maxBytes : Option Js.Number

inductive FileClassification where
  | text
  | binary
  deriving DecidableEq

structure ReadResult where
  path : JsString
  classification : FileClassification
  size : Nat
  offset : Nat
  bytesRead : Nat
  eof : Bool
  truncated : Bool
  content : Option JsString
  deriving DecidableEq

def defaultReadBytes : Nat := 64 * 1024

def maxReadBytes : Nat := 1024 * 1024

/-! ## Text of a buffer -/

/-- `classifyBuffer(buffer)`. -/
def classifyBuffer (buffer : Bytes) : FileClassification :=
  if (0 : UInt8) ∈ buffer then .binary
  else if (decodeUtf8Fatal buffer).isSome then .text
  else .binary

/-- `decodeUtf8(buffer)`. -/
def decodeUtf8 (buffer : Bytes) : Async JsString :=
  match decodeUtf8Fatal buffer with
  | some text => pure text
  | none =>
      throw (.error (.typeError (js "The encoded data was not valid for encoding utf-8")))

/-! ## Reading -/

/-- The body of the `try`, on an open file. -/
def readRange (handle : Handle) (path : JsString) (offset maxBytes : Nat) : Async ReadResult := do
  let stats ← Handle.stat handle
  failWhen (stats.type ≠ .file) .pathNotFile path (js "path is not a regular file: " ++ path)
  failWhen (maxSafeInteger < stats.size) .fileTooLarge path
    (js "file size exceeds safe integer range: " ++ path)
  let length := min maxBytes (stats.size - offset)
  let data ← (if length = 0 then pure [] else Handle.read handle offset length)
  let eof := stats.size ≤ offset + data.length
  let content ← (if classifyBuffer data = .text then some <$> decodeUtf8 data else pure none)
  return { path, classification := classifyBuffer data, size := stats.size, offset
           bytesRead := data.length, eof, truncated := !eof, content }

/-- `FilesystemService.read(request)`. -/
def Service.read (service : Service) (request : ReadRequest) : Async ReadResult := do
  let root ← service.accessWorkspace request.workspaceId
  let path ← ofExcept (normalizeRelativePath request.path false)
  let offset ← ofExcept (boundedOption request.offset 0 "offset" 0 maxSafeInteger)
  let maxBytes ← ofExcept
    (boundedOption request.maxBytes defaultReadBytes "maxBytes" 1 maxReadBytes)
  let absolutePath ← resolveExistingPath root path
  let handle ← (openRead absolutePath).mapError (mapFilesystemError path)
  tryFinally (readRange handle path offset maxBytes) (Handle.close handle)

end Benchhand.Filesystem
