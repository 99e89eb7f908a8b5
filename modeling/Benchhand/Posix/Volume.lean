/-
Benchhand.Posix.Volume — a file system and the calls on it.

A `Volume` has the objects of a file system by their paths. `Volume.locate`
walks a path string from the root, through symbolic links, to the place it
names; every call that takes a path starts there. `perform` is one call that
the operating system carries out. A file is replaced, never edited in place,
by anybody but the process that created it: an open handle reads the bytes the
file had when it was opened.
-/
import Benchhand.Posix.Path
import Benchhand.Store.Table

namespace Benchhand.Posix

open Text Store

/-! ## Objects -/

/-- Permission bits, `mode & 0o7777`. -/
abbrev Mode := BitVec 12

inductive Node where
  | file (bytes : Bytes) (mode : Mode)
  | directory
  | symlink (target : List Char)
  | other
  deriving DecidableEq

inductive ObjectType where
  | file
  | directory
  | symlink
  | other
  deriving DecidableEq

def Node.type : Node → ObjectType
  | .file _ _ => .file
  | .directory => .directory
  | .symlink _ => .symlink
  | .other => .other

/-- What `lstat` and `handle.stat` report; `mode` has the type bits too. -/
structure Stats where
  type : ObjectType
  mode : Nat
  size : Nat
  deriving DecidableEq

def Node.stats : Node → Stats
  | .file bytes mode => ⟨.file, 0o100000 + mode.toNat, bytes.length⟩
  | .directory => ⟨.directory, 0o040755, 0⟩
  | .symlink target => ⟨.symlink, 0o120777, Name.size target⟩
  | .other => ⟨.other, 0o010644, 0⟩

/-- An entry of `readdir` with `withFileTypes`. -/
structure Dirent where
  name : JsString
  type : ObjectType
  deriving DecidableEq

/-- The objects of a file system by their paths. -/
structure Volume where
  nodes : Table Path Node
  umask : Mode

/-- The object at a path; the root is a directory. -/
def Volume.node? (v : Volume) (path : Path) : Option Node :=
  if path = [] then some .directory else v.nodes.find? path

def Volume.put (v : Volume) (path : Path) (node : Node) : Volume :=
  { v with nodes := v.nodes.put path node }

def Volume.erase (v : Volume) (path : Path) : Volume :=
  { v with nodes := v.nodes.erase path }

/-- The entries of a directory. -/
def Volume.children (v : Volume) (dir : Path) : List Dirent :=
  v.nodes.entries.filterMap fun e =>
    match e.1.getLast? with
    | some name => if e.1.dropLast = dir then some ⟨Name.text name, e.2.type⟩ else none
    | none => none

/-! ## Errors -/

/-- Why a call on a volume fails. -/
inductive Reason where
  | ENOENT
  | ENOTDIR
  | ELOOP
  | ENAMETOOLONG
  | EEXIST
  | EISDIR
  | EPERM
  | EINVAL
  deriving DecidableEq

def Reason.code : Reason → String
  | .ENOENT => "ENOENT"
  | .ENOTDIR => "ENOTDIR"
  | .ELOOP => "ELOOP"
  | .ENAMETOOLONG => "ENAMETOOLONG"
  | .EEXIST => "EEXIST"
  | .EISDIR => "EISDIR"
  | .EPERM => "EPERM"
  | .EINVAL => "EINVAL"

def Reason.description : Reason → String
  | .ENOENT => "no such file or directory"
  | .ENOTDIR => "not a directory"
  | .ELOOP => "too many symbolic links encountered"
  | .ENAMETOOLONG => "name too long"
  | .EEXIST => "file already exists"
  | .EISDIR => "illegal operation on a directory"
  | .EPERM => "operation not permitted"
  | .EINVAL => "invalid argument"

/-- A `NodeJS.ErrnoException`. -/
structure Errno where
  code : JsString
  message : JsString
  deriving DecidableEq

/-- The exception of a failed system call; `operand` names its paths. -/
def Reason.errno (r : Reason) (syscall : String) (operand : JsString) : Errno :=
  ⟨js r.code, js r.code ++ js ": " ++ js r.description ++ js ", " ++ js syscall ++ operand⟩

def quoted (p : JsString) : JsString := js " '" ++ p ++ js "'"

/-! ## Walking a path -/

/-- The longest name, in bytes. -/
def nameMax : Nat := 255

/-- Symbolic links followed in one walk. -/
def linkMax : Nat := 40

/-- One name after another from a directory; `jump` goes on behind a symbolic
link. The last name may be free, and is not followed unless `follow`. -/
def Volume.steps (v : Volume) (follow : Bool) (jump : Path → List Name → Except Reason Path) :
    Path → List Name → Except Reason Path
  | dir, [] => .ok dir
  | dir, name :: rest =>
      if name = parentName then v.steps follow jump dir.dropLast rest
      else if nameMax < name.size then .error .ENAMETOOLONG
      else
        match v.node? (dir ++ [name]) with
        | some (.symlink target) =>
            if rest = [] ∧ follow = false then .ok (dir ++ [name])
            else jump (if target.head? = some '/' then [] else dir) (components target ++ rest)
        | some .directory => v.steps follow jump (dir ++ [name]) rest
        | some _ => if rest = [] then .ok (dir ++ [name]) else .error .ENOTDIR
        | none => if rest = [] then .ok (dir ++ [name]) else .error .ENOENT

def Volume.walk (v : Volume) (follow : Bool) : Nat → Path → List Name → Except Reason Path
  | 0 => v.steps follow fun _ _ => .error .ELOOP
  | links + 1 => v.steps follow (v.walk follow links)

/-- The place an absolute path string names. -/
def Volume.locate (v : Volume) (follow : Bool) (p : JsString) : Except Reason Path :=
  v.walk follow linkMax [] (components (scalars p))

/-- The object a path string names, and where it is. -/
def Volume.lookup (v : Volume) (follow : Bool) (syscall : String) (p : JsString) :
    Except Errno (Path × Node) :=
  match v.locate follow p with
  | .error r => .error (r.errno syscall (quoted p))
  | .ok path =>
      match v.node? path with
      | some node => .ok (path, node)
      | none => .error (Reason.ENOENT.errno syscall (quoted p))

/-! ## Calls -/

/-- An open file. -/
structure Handle where
  path : Path
  node : Node
  deriving DecidableEq

/-- The calls of the program. -/
inductive Call where
  | realpath (path : JsString)
  | lstat (path : JsString)
  | readdir (path : JsString)
  | openRead (path : JsString)
  | openExclusive (path : JsString) (mode : Mode)
  | stat (handle : Handle)
  | read (handle : Handle) (position length : Nat)
  | readFile (handle : Handle)
  | chmod (handle : Handle) (mode : Mode)
  | writeFile (handle : Handle) (content : Bytes)
  | sync (handle : Handle)
  | close (handle : Handle)
  | link (existing new : JsString)
  | rename (old new : JsString)
  | rm (path : JsString)
  deriving DecidableEq

/-- What a call resolves with. -/
def Call.Returns : Call → Type
  | .realpath _ => JsString
  | .lstat _ => Stats
  | .readdir _ => List Dirent
  | .openRead _ => Handle
  | .openExclusive _ _ => Handle
  | .stat _ => Stats
  | .read _ _ _ => Bytes
  | .readFile _ => Bytes
  | _ => PUnit

abbrev Answer (c : Call) : Type := Except Errno c.Returns

/-- The bytes an open file is read from. -/
def Handle.bytes (h : Handle) (syscall : String) : Except Errno Bytes :=
  match h.node with
  | .file bytes _ => .ok bytes
  | .directory => .error (Reason.EISDIR.errno syscall [])
  | _ => .error (Reason.EINVAL.errno syscall [])

/-- `open(path, 'wx', mode)`: the name must be free. -/
def Volume.openExclusive (v : Volume) (p : JsString) (mode : Mode) :
    Except Errno Handle × Volume :=
  match v.locate false p with
  | .error r => (.error (r.errno "open" (quoted p)), v)
  | .ok path =>
      match v.node? path with
      | some _ => (.error (Reason.EEXIST.errno "open" (quoted p)), v)
      | none =>
          let node := Node.file [] (mode &&& ~~~v.umask)
          (.ok ⟨path, node⟩, v.put path node)

/-- The file of a handle that its process created is changed. -/
def Volume.edit (v : Volume) (h : Handle) (f : Bytes → Mode → Node) : Volume :=
  match v.node? h.path with
  | some (.file bytes mode) => v.put h.path (f bytes mode)
  | _ => v

/-- `link(existing, new)`: the new name must be free. -/
def Volume.link (v : Volume) (existing new : JsString) : Except Errno PUnit × Volume :=
  let operand := quoted existing ++ js " ->" ++ quoted new
  match v.locate false new with
  | .error r => (.error (r.errno "link" operand), v)
  | .ok path =>
      if (v.node? path).isSome then (.error (Reason.EEXIST.errno "link" operand), v)
      else
        match v.lookup false "link" existing with
        | .error e => (.error e, v)
        | .ok (_, .directory) => (.error (Reason.EPERM.errno "link" operand), v)
        | .ok (_, node) => (.ok ⟨⟩, v.put path node)

/-- `rename(old, new)`: whatever has the new name is replaced, but no
directory. The program never renames a directory. -/
def Volume.rename (v : Volume) (old new : JsString) : Except Errno PUnit × Volume :=
  let operand := quoted old ++ js " ->" ++ quoted new
  match v.lookup false "rename" old with
  | .error e => (.error e, v)
  | .ok (_, .directory) => (.error (Reason.ENOTDIR.errno "rename" operand), v)
  | .ok (source, node) =>
      match v.locate false new with
      | .error r => (.error (r.errno "rename" operand), v)
      | .ok path =>
          if v.node? path = some .directory then (.error (Reason.EISDIR.errno "rename" operand), v)
          else (.ok ⟨⟩, (v.erase source).put path node)

/-- `rm(path, { force: true })`. -/
def Volume.rm (v : Volume) (p : JsString) : Except Errno PUnit × Volume :=
  match v.locate false p with
  | .error .ENOENT => (.ok ⟨⟩, v)
  | .error r => (.error (r.errno "rm" (quoted p)), v)
  | .ok path =>
      match v.node? path with
      | none => (.ok ⟨⟩, v)
      | some .directory => (.error (Reason.EISDIR.errno "rm" (quoted p)), v)
      | some _ => (.ok ⟨⟩, v.erase path)

/-- One call, carried out. -/
def perform : (c : Call) → Volume → Answer c × Volume
  | .realpath p, v => ((v.lookup true "realpath" p).map fun found => Path.text found.1, v)
  | .lstat p, v => ((v.lookup false "lstat" p).map fun found => found.2.stats, v)
  | .readdir p, v =>
      (match v.lookup true "scandir" p with
        | .error e => .error e
        | .ok (path, .directory) => .ok (v.children path)
        | .ok _ => .error (Reason.ENOTDIR.errno "scandir" (quoted p)), v)
  | .openRead p, v => ((v.lookup true "open" p).map fun found => ⟨found.1, found.2⟩, v)
  | .openExclusive p mode, v => v.openExclusive p mode
  | .stat h, v => (.ok h.node.stats, v)
  | .read h position length, v =>
      ((h.bytes "read").map fun bytes => (bytes.drop position).take length, v)
  | .readFile h, v => (h.bytes "read", v)
  | .chmod h mode, v => (.ok ⟨⟩, v.edit h fun bytes _ => .file bytes mode)
  | .writeFile h content, v => (.ok ⟨⟩, v.edit h fun _ mode => .file content mode)
  | .sync _, v => (.ok ⟨⟩, v)
  | .close _, v => (.ok ⟨⟩, v)
  | .link existing new, v => v.link existing new
  | .rename old new, v => v.rename old new
  | .rm p, v => v.rm p

/-! ## Runs -/

/-- A failing call; a failing `writeFile` has written a first part. -/
structure Fault where
  errno : Errno
  written : Nat

def Fault.apply (fault : Fault) : (c : Call) → Volume → Answer c × Volume
  | .writeFile h content, v =>
      (.error fault.errno, v.edit h fun _ mode => .file (content.take fault.written) mode)
  | _, v => (.error fault.errno, v)

/-- What the outside adds to one call: steps of other processes before it, and
whether the call fails. -/
structure Turn where
  foreign : Volume → Volume
  fault : Call → Volume → Option Fault

/-- A call that was made: the volume it found and the one it left. -/
structure Event where
  call : Call
  before : Volume
  ok : Bool
  after : Volume

/-- A file system together with the calls made on it, the last one first. -/
structure World where
  vol : Volume
  log : List Event

/-- The operating system under an outside. -/
def answer (outside : Nat → Turn) (c : Call) (w : World) : Answer c × World :=
  let turn := outside w.log.length
  let before := turn.foreign w.vol
  let out := match turn.fault c before with
    | some fault => fault.apply c before
    | none => perform c before
  (out.1, ⟨out.2, ⟨c, before, out.1.toBool, out.2⟩ :: w.log⟩)

end Benchhand.Posix
