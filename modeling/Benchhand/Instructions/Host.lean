/-
Benchhand.Instructions.Host — the functions of the package on a host that
stays as it is.

No function of the package changes a file. On a `Host`, where nobody else does
either, a run is a value: `value` of the function from a cache. Each way to
build a function has its rule; a call that the host denies fails every time.
-/
import Benchhand.Instructions.Call
import Benchhand.Posix.VolumeTheorems
import Benchhand.Process.ProgramTheorems

namespace Benchhand.Instructions

open Text Posix Process Store

/-- A file system during a request: its objects, what `stat` says of them
beside their type and size, and the calls that fail although the objects are
there. -/
structure Host where
  vol : Volume
  stamp : Path → Node → Int × Int × Int × Int
  denied : Call → Option Errno

/-- The file cache of the service. -/
abbrev FileCache := Table JsString CachedInstructionFile

def Host.fileStats (host : Host) (place : Path) (node : Node) : FileStats :=
  let (dev, ino, mtimeNs, ctimeNs) := host.stamp place node
  ⟨node.type, dev, ino, node.stats.size, mtimeNs, ctimeNs⟩

/-- The bytes of the file at a path. -/
def Host.bytes (host : Host) (p : JsString) : Except Errno Bytes :=
  match host.vol.lookup true "open" p with
  | .error e => .error e
  | .ok (_, .file bytes _) => .ok bytes
  | .ok _ => .error (Reason.EISDIR.errno "read" [])

/-- The answer of a call, unless the call is denied. -/
def Host.permit {α : Type} (host : Host) (c : Call) (r : Except Errno α) : Except Errno α :=
  match host.denied c with
  | some e => .error e
  | none => r

/-- One call on the host. -/
def answer (host : Host) : (c : Call) → FileCache → c.Answer × FileCache
  | .os c, cache => (host.permit (.os c) (perform c host.vol).1, cache)
  | .stat p, cache =>
      (host.permit (.stat p) ((host.vol.lookup true "stat" p).map fun found =>
        host.fileStats found.1 found.2), cache)
  | .openFile p, cache =>
      (host.permit (.openFile p) ((host.vol.lookup true "open" p).map fun _ => ⟨p, 0⟩), cache)
  | .readAll reading, cache =>
      (host.permit (.readAll reading) (host.bytes reading.path), cache)
  | .getCached candidate, cache => (cache.find? candidate, cache)
  | .setCached candidate entry, cache => (⟨⟩, cache.put candidate entry)
  | .deleteCached candidate, cache => (⟨⟩, cache.erase candidate)

/-- What a function resolves or rejects with, and the cache it leaves. -/
def value {α : Type} (host : Host) (p : Async α) (cache : FileCache) : Except Thrown α × FileCache :=
  Prog.run (answer host) p.run cache

section
variable {α β : Type} {host : Host} {cache : FileCache} {p : Async α}

@[simp] theorem value_pure (a : α) : value host (pure a) cache = (.ok a, cache) := rfl

@[simp] theorem value_throw (e : Thrown) :
    value host (throw e : Async α) cache = (.error e, cache) := rfl

theorem value_bind (f : α → Async β) : value host (p >>= f) cache =
    match value host p cache with
    | (.ok a, cache') => value host (f a) cache'
    | (.error e, cache') => (.error e, cache') := by
  unfold value
  refine (Prog.run_bind p.run _ cache).trans ?_
  generalize Prog.run (answer host) p.run cache = out
  obtain ⟨outcome, cache'⟩ := out
  cases outcome <;> rfl

theorem value_bind_ok {f : α → Async β} {a : α} {cache' : FileCache}
    (h : value host p cache = (.ok a, cache')) :
    value host (p >>= f) cache = value host (f a) cache' := by
  rw [value_bind, h]

theorem value_map (g : α → β) :
    value host (g <$> p) cache = ((value host p cache).1.map g, (value host p cache).2) := by
  unfold value
  refine (Prog.run_bind p.run _ cache).trans ?_
  cases (Prog.run (answer host) p.run cache).1 <;> rfl

theorem value_tryCatch (handle : Thrown → Async α) : value host (tryCatch p handle) cache =
    match value host p cache with
    | (.ok a, cache') => (.ok a, cache')
    | (.error e, cache') => value host (handle e) cache' := by
  unfold value
  refine (Prog.run_bind p.run _ cache).trans ?_
  generalize Prog.run (answer host) p.run cache = out
  obtain ⟨outcome, cache'⟩ := out
  cases outcome <;> rfl

theorem value_tryFinally_ok {cleanup : Async PUnit} {r : Except Thrown α}
    {cache' cache'' : FileCache} (hp : value host p cache = (r, cache'))
    (hcleanup : value host cleanup cache' = (.ok ⟨⟩, cache'')) :
    value host (tryFinally p cleanup) cache = (r, cache'') := by
  unfold value at hp hcleanup ⊢
  rw [Async.run_tryFinally, Prog.run_bind, hp]
  refine (Prog.run_bind cleanup.run _ cache').trans ?_
  rw [hcleanup]
  rfl

@[simp] theorem value_ofExcept (r : Except Thrown α) :
    value host (ofExcept r) cache = (r, cache) := rfl

@[simp] theorem value_fail (code : ErrorCode) (path : Option JsString) (message : JsString) :
    value host (fail code path message : Async α) cache =
      (.error (.instructions { code, path, message }), cache) := rfl

theorem value_os (c : Posix.Call) : value host (os c) cache =
    ((host.permit (.os c) (perform c host.vol).1).mapError Thrown.errno, cache) := rfl

theorem Host.permit_none {c : Call} (h : host.denied c = none) (r : Except Errno α) :
    host.permit c r = r := by
  rw [Host.permit, h]

/-- A call that is carried out. -/
theorem value_os_ok {c : Posix.Call} {a : c.Returns} {v' : Volume}
    (hdenied : host.denied (.os c) = none) (h : perform c host.vol = (.ok a, v')) :
    value host (os c) cache = (.ok a, cache) := by
  rw [value_os, Host.permit_none hdenied, h]
  rfl

end

end Benchhand.Instructions
