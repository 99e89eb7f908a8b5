/-
Benchhand.Instructions.History — an InstructionsService while files change.

The hosts of a `World` are a timeline. Before each call the outside may change
the host, any number of times and in any way; what a provider writes is among
these changes. A file is known by its path, and a `Version` is what `stat`
says of it together with its bytes. A read has the bytes of a version when the
path has that version from the moment the file is opened to the moment its
bytes are there; a read that a modification overlaps has what the outside
likes. A modification gives a file a fingerprint that it never had
(`Possible`).
-/
import Benchhand.Instructions.Host
import Benchhand.Instructions.Resolve
import Benchhand.Process.Pool
import Benchhand.Process.Timeline

namespace Benchhand.Instructions

open Text Posix Process Store

/-! ## Versions -/

/-- A regular file at some moment. -/
structure Version where
  stats : FileStats
  bytes : Bytes
  deriving DecidableEq

def Version.fingerprint (version : Version) : JsString := version.stats.fingerprint

/-- The regular file that a path leads to. -/
def Host.version (host : Host) (path : JsString) : Option Version :=
  match host.vol.lookup true "stat" path with
  | .ok (place, .file bytes mode) => some ⟨host.fileStats place (.file bytes mode), bytes⟩
  | _ => none

/-- The canonical path of what a path leads to. -/
def Host.realPath (host : Host) (path : JsString) : Option JsString :=
  (host.vol.lookup true "realpath" path).toOption.map fun found => found.1.text

/-! ## Calls -/

/-- The hosts up to now, and the file cache of the service. -/
structure World where
  timeline : Timeline Host
  cache : FileCache

/-- A service that has just been made. -/
def World.start (host : Host) : World := ⟨⟨[], host⟩, .empty⟩

/-- What the outside does around a call: it leaves one host after the other,
and it has an answer for a read that it disturbs. -/
structure Turn where
  modifications : List Host
  torn : Except Errno Bytes

/-- The version a path has had since a read began, if that is only one. -/
def undisturbed (timeline : Timeline Host) (reading : Reading) : Option Version :=
  match timeline.now.version reading.path with
  | none => none
  | some version =>
      if (List.range (timeline.present + 1)).all fun n =>
          n < reading.moment || (timeline.at? n).bind (·.version reading.path) = some version then
        some version
      else none

/-- The answer of a call at the present moment, and the cache it leaves. -/
def respond (turn : Turn) (timeline : Timeline Host) :
    (c : Call) → FileCache → c.Answer × FileCache
  | .openFile path, cache =>
      (timeline.now.permit (.openFile path)
        ((timeline.now.vol.lookup true "open" path).map fun _ => ⟨path, timeline.present⟩), cache)
  | .readAll reading, cache =>
      (match undisturbed timeline reading with
        | some version => timeline.now.permit (.readAll reading) (.ok version.bytes)
        | none => turn.torn, cache)
  | c, cache => answer timeline.now c cache

/-- One call. -/
def happen (turn : Turn) : Handler Call Call.Answer World := fun c w =>
  let timeline := w.timeline.advance turn.modifications
  let out := respond turn timeline c w.cache
  (out.1, ⟨timeline, out.2⟩)

/-- Every modification gives the file a fingerprint that it never had. -/
def Possible (w : World) (turn : Turn) : Prop :=
  Meets Timeline.next (Timeline.Fresh Host.version Version.fingerprint) w.timeline
    turn.modifications

/-! ## Resolving at once -/

/-- A request and the moment at which it is made. -/
structure Visit where
  request : InstructionsResolveRequest
  began : Nat
  deriving DecidableEq

/-- Any number of resolves of one service, running at once. -/
abbrev Running :=
  Pool Visit Call Call.Answer World (Except Thrown InstructionsResolveResult)

def Service.program (service : Service) (visit : Visit) :
    Prog Call Call.Answer (Except Thrown InstructionsResolveResult) :=
  (service.resolve visit.request).run

/-- A request is made now. -/
def Begins (visit : Visit) (w : World) : Prop := visit.began = w.timeline.present

/-- A step of a history: a resolve begins, or one of them makes a call. -/
def HistoryStep (s : Running) (a : Pool.Action Visit Turn) : Prop :=
  Pool.Allowed Begins (fun _ _ _ => Possible) s a

/-! ## What was read -/

/-- At some moment since the beginning. -/
def Since (timeline : Timeline Host) (began : Nat) (P : Host → Prop) : Prop :=
  ∃ n host, began ≤ n ∧ timeline.at? n = some host ∧ P host

/-- A path leads to this version of a file inside the root. -/
structure Host.Shows (host : Host) (root candidate realPath : JsString) (version : Version) :
    Prop where
  real : host.realPath candidate = some realPath
  inside : isSameOrDescendant root realPath = true
  version : host.version realPath = some version

/-- A host on which no call fails that can be carried out. -/
def Host.permissive (host : Host) : Host := { host with denied := fun _ => none }

/-- What a service without a cached file returns for a file. -/
def Host.fresh (host : Host) (sha256 : Bytes → JsString) (context : ProviderContext)
    (filename : JsString) : Except Thrown (Option CachedInstructionFile) :=
  (value host.permissive (readInstructionFile sha256 context filename) .empty).1

/-- The directory of a scope, as a path that may lead through symbolic links. -/
def scopeCandidate (root scopePath : JsString) : JsString :=
  if scopePath = dot then root
  else Posix.resolve (root :: (scopePath.splitOn slash).filter fun s => s ≠ [])

/-- A document has the content of this version, and the digest of its content:
during the call, the file in the directory of its scope was this version,
complete, and a service without a cache would have returned the same content. -/
structure ReadFrom (service : Service) (visit : Visit) (timeline : Timeline Host)
    (filename : JsString) (document : InstructionDocument) (version : Version) : Prop where
  path : document.path = some (portableJoin document.scopePath filename)
  digest : document.sha256 = service.sha256 (encodeUtf8 document.content)
  size : version.bytes.length ≤ maxInstructionBytes
  decoded : decodeInstructionText version.bytes filename = .ok document.content
  during : ∃ workspace root directory,
    service.requireWorkspace visit.request.workspaceId = .ok workspace ∧
    Since timeline visit.began (fun host => host.realPath workspace.canonicalPath = some root) ∧
    Since timeline visit.began (fun host =>
      host.realPath (scopeCandidate root document.scopePath) = some directory) ∧
    Since timeline visit.began (fun host => ∃ realPath,
      host.Shows root (join directory filename) realPath version ∧
      ∃ entry, entry.content = document.content ∧
        host.fresh service.sha256 ⟨workspace, root, document.scopePath, directory⟩ filename =
          .ok (some entry))

/-- The files of the built-in providers. -/
def builtinFiles : List (JsString × JsString) :=
  [(js "builtin.claude", js "CLAUDE.md"), (js "builtin.agents", js "AGENTS.md")]

end Benchhand.Instructions
