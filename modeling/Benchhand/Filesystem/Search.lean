/-
Benchhand.Filesystem.Search — FilesystemService.search.

The walk goes through a directory tree and adds matches to its state as long
as they fit (`appendSearchMatch`); when one does not, it goes on. The source
counts the depth up to `maxDepth`; here `levels` counts what is left of it down.
-/
import Benchhand.Filesystem.List
import Benchhand.Filesystem.Read
import Benchhand.Text.IndexOf

namespace Benchhand.Filesystem

open Text Posix

/-! ## Requests and results -/

structure SearchRequest where
  workspaceId : JsString
  path : Option JsString
  glob : Option JsString
  query : Option JsString
  maxResults : Option Js.Number
  maxBytes : Option Js.Number
  maxDepth : Option Js.Number
  maxFileBytes : Option Js.Number

structure SearchMatch where
  path : JsString
  line : Option Nat
  column : Option Nat
  preview : Option JsString
  deriving DecidableEq

structure SearchResult where
  path : JsString
  glob : JsString
  query : Option JsString
  «matches» : List SearchMatch
  truncated : Bool
  scannedFiles : Nat
  skippedBinary : Nat
  skippedOversized : Nat
  deriving DecidableEq

def defaultSearchResults : Nat := 100

def maxSearchResults : Nat := 1000

def defaultSearchOutputBytes : Nat := 256 * 1024

def maxSearchOutputBytes : Nat := 1024 * 1024

def defaultSearchDepth : Nat := 20

def maxSearchDepth : Nat := 100

def defaultSearchFileBytes : Nat := 1024 * 1024

def maxSearchFileBytes : Nat := 8 * 1024 * 1024

def maxSearchEntries : Nat := 50000

def previewCharacters : Nat := 300

/-! ## The state of a search -/

structure SearchState where
  «matches» : List SearchMatch
  truncated : Bool
  outputBytes : Nat
  scannedEntries : Nat
  scannedFiles : Nat
  skippedBinary : Nat
  skippedOversized : Nat
  deriving DecidableEq

def SearchState.initial : SearchState := ⟨[], false, 0, 0, 0, 0, 0⟩

/-- What a search has to know besides the directory it is in. -/
structure SearchOptions where
  workspaceRoot : JsString
  glob : JsString
  query : Option JsString
  maxDepth : Nat
  maxFileBytes : Nat
  maxResults : Nat
  maxBytes : Nat

/-- The `estimatedBytes` of a match. -/
def SearchMatch.estimatedBytes (m : SearchMatch) : Nat :=
  (encodeUtf8 m.path).length + (m.preview.elim 0 fun preview => (encodeUtf8 preview).length) + 64

/-- `appendSearchMatch(state, match, maxResults, maxBytes)`. -/
def appendSearchMatch (maxResults maxBytes : Nat) (state : SearchState) (m : SearchMatch) :
    SearchState :=
  if maxResults ≤ state.matches.length ∨ maxBytes < state.outputBytes + m.estimatedBytes then
    { state with truncated := true }
  else
    { state with
      «matches» := state.matches ++ [m]
      outputBytes := state.outputBytes + m.estimatedBytes }

/-- `boundedPreview(line)`. -/
def boundedPreview (line : JsString) : JsString :=
  if line.length ≤ previewCharacters then line else line.take previewCharacters ++ [ch '…']

/-! ## One file -/

/-- The matches of a line; the loop goes on behind each. -/
def lineMatches (relativePath query : JsString) (lineIndex : Nat) (line : JsString) :
    List SearchMatch :=
  (occurrencesFrom line query (max 1 query.length) (line.length + 1) 0).map fun found =>
    { path := relativePath, line := some (lineIndex + 1), column := some (found + 1)
      preview := some (boundedPreview line) }

/-- The matches of a text. -/
def textMatches (relativePath query text : JsString) : List SearchMatch :=
  (text.splitOn (ch '\n')).zipIdx.flatMap fun (line, lineIndex) =>
    lineMatches relativePath query lineIndex line

def SearchOptions.append (options : SearchOptions) : SearchState → SearchMatch → SearchState :=
  appendSearchMatch options.maxResults options.maxBytes

/-- The body of the `try`, on an open file. -/
def searchOpenFile (options : SearchOptions) (query relativePath : JsString) (handle : Handle)
    (state : SearchState) : Async SearchState := do
  let stats ← Handle.stat handle
  if stats.type ≠ .file then return state
  else if options.maxFileBytes < stats.size ∨ maxSafeInteger < stats.size then
    return { state with skippedOversized := state.skippedOversized + 1 }
  else do
    let data ← (if stats.size = 0 then pure [] else Handle.read handle 0 stats.size)
    if classifyBuffer data = .binary then
      return { state with skippedBinary := state.skippedBinary + 1 }
    else do
      let text ← decodeUtf8 data
      return (textMatches relativePath query text).foldl options.append state

/-- A file that the glob matches. -/
def searchFile (options : SearchOptions) (relativePath childPath : JsString)
    (state : SearchState) : Async SearchState :=
  match options.query with
  | none => return options.append state ⟨relativePath, none, none, none⟩
  | some query => do
      let canonicalFile ← tryCatch (some <$> realpath childPath) fun _ => pure none
      match canonicalFile with
      | none => return state
      | some canonicalFile =>
          if !isSameOrDescendant options.workspaceRoot canonicalFile then return state
          else do
            let handle ← tryCatch (some <$> openRead canonicalFile) fun _ => pure none
            match handle with
            | none => return state
            | some handle =>
                tryFinally (searchOpenFile options query relativePath handle state)
                  (Handle.close handle)

/-! ## The walk -/

/-- How the walk goes on in a directory, by its path and its portable path. -/
abbrev Descent := JsString → JsString → SearchState → Async SearchState

/-- A directory below the one that is walked; `descend` is none at the depth
limit. -/
def searchDirectory (options : SearchOptions) (descend : Option Descent)
    (relativePath childPath : JsString) (state : SearchState) : Async SearchState :=
  match descend with
  | none => return state
  | some descend => do
      let canonicalDirectory ← tryCatch (some <$> realpath childPath) fun _ => pure none
      match canonicalDirectory with
      | none => return state
      | some canonicalDirectory =>
          if !isSameOrDescendant options.workspaceRoot canonicalDirectory then return state
          else descend canonicalDirectory relativePath state

/-- One entry of a directory. -/
def Service.searchEntry (service : Service) (options : SearchOptions) (descend : Option Descent)
    (directory directoryPath : JsString) (entry : Dirent) (state : SearchState) :
    Async SearchState :=
  let relativePath := joinPortable directoryPath entry.name
  let childPath := join directory entry.name
  match entry.type with
  | .symlink => return state
  | .directory => searchDirectory options descend relativePath childPath state
  | .other => return state
  | .file =>
      if !service.minimatch relativePath options.glob then return state
      else
        searchFile options relativePath childPath
          { state with scannedFiles := state.scannedFiles + 1 }

/-- The loop over the entries of a directory. -/
def Service.searchEntries (service : Service) (options : SearchOptions) (descend : Option Descent)
    (directory directoryPath : JsString) : List Dirent → SearchState → Async SearchState
  | [], state => return state
  | entry :: rest, state =>
      let state := { state with scannedEntries := state.scannedEntries + 1 }
      if maxSearchEntries < state.scannedEntries then return { state with truncated := true }
      else do
        let state ← service.searchEntry options descend directory directoryPath entry state
        service.searchEntries options descend directory directoryPath rest state

/-- `entries.sort(...)`, which is stable. -/
def sortDirents (entries : List Dirent) : List Dirent :=
  entries.insertionSort fun left right => compareCodePoints left.name right.name ≤ 0

/-- One directory. -/
def Service.searchIn (service : Service) (options : SearchOptions) (descend : Option Descent) :
    Descent := fun directory directoryPath state =>
  if maxSearchEntries ≤ state.scannedEntries then return { state with truncated := true }
  else do
    let entries ← readdir directory
    service.searchEntries options descend directory directoryPath (sortDirents entries) state

/-- `#walkSearch(options)`. -/
def Service.walkSearch (service : Service) (options : SearchOptions) : Nat → Descent
  | 0 => service.searchIn options none
  | levels + 1 => service.searchIn options (some (service.walkSearch options levels))

/-! ## Searching -/

/-- What a search checks before it looks at the tree, with the path to search. -/
def Service.prepareSearch (service : Service) (request : SearchRequest) :
    Async (JsString × SearchOptions) := do
  let workspaceRoot ← service.accessWorkspace request.workspaceId
  let path ← ofExcept (normalizeRelativePath (request.path.getD dot) true)
  let glob ← ofExcept (validateSearchString (request.glob.getD (js "**/*")) "glob" 1 1024)
  let query ← ofExcept (match request.query with
    | none => .ok none
    | some query => (validateSearchString query "query" 1 4096).map some)
  let maxResults ← ofExcept
    (boundedOption request.maxResults defaultSearchResults "maxResults" 1 maxSearchResults)
  let maxBytes ← ofExcept
    (boundedOption request.maxBytes defaultSearchOutputBytes "maxBytes" 1 maxSearchOutputBytes)
  let maxDepth ← ofExcept
    (boundedOption request.maxDepth defaultSearchDepth "maxDepth" 0 maxSearchDepth)
  let maxFileBytes ← ofExcept
    (boundedOption request.maxFileBytes defaultSearchFileBytes "maxFileBytes" 1 maxSearchFileBytes)
  return (path, { workspaceRoot, glob, query, maxDepth, maxFileBytes, maxResults, maxBytes })

/-- The state a search of a path ends with. -/
def Service.searchPath (service : Service) (options : SearchOptions) (path : JsString) :
    Async SearchState := do
  let absolutePath ← resolveExistingPath options.workspaceRoot path
  service.walkSearch options options.maxDepth absolutePath path .initial

def SearchState.result (state : SearchState) (options : SearchOptions) (path : JsString) :
    SearchResult :=
  { path, glob := options.glob, query := options.query, «matches» := state.matches
    truncated := state.truncated, scannedFiles := state.scannedFiles
    skippedBinary := state.skippedBinary, skippedOversized := state.skippedOversized }

/-- `FilesystemService.search(request)`. -/
def Service.search (service : Service) (request : SearchRequest) : Async SearchResult := do
  let (path, options) ← service.prepareSearch request
  let state ← service.searchPath options path
  return state.result options path

end Benchhand.Filesystem
