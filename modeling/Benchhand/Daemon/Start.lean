/-
Benchhand.Daemon.Start — startDaemon and the endpoint it listens on.

`Phase.advance` is `startDaemon`, cut where it waits or where other processes
can run in between: every look at the endpoint, every change of it and every
statement on the database is a step of its own. All calls name one socket path
and one database, of which the table operation_journal is kept. A Unix socket
stays at its path when its process dies, and `server.close()` unlinks the path
by name; a Windows pipe goes with its process.
-/
import Benchhand.Operations.Journal
import Benchhand.Process.Runs

namespace Benchhand.Daemon

open Text Js Operations

/-! ## Platforms and endpoints -/

/-- `process.platform`, as far as it is compared with anything. -/
inductive Platform where
  | win32
  | darwin
  | linux
  | other
  deriving DecidableEq

/-- `unixSocketPathMaximumBytes()`. -/
def Platform.socketPathMaximumBytes : Platform → Nat
  | .darwin => 103
  | .linux => 107
  | _ => 100

/-- What is at the socket path: nothing, something that is no socket, or a
socket with the call that listens on it; no call listens on a stale one. -/
inductive Endpoint where
  | absent
  | occupied
  | socket (owner : Option Nat)
  deriving DecidableEq

/-! ## Errors -/

/-- The codes of DaemonStartError. -/
inductive StartCode where
  | ipcPathTooLong
  | ipcPathOccupied
  | ipcEndpointInUse
  deriving DecidableEq

/-- What `startDaemon` rejects with; `outside` is an exception of a call of
the operating system, of the database or of the probe's timer. -/
inductive StartError where
  | type (message : JsString)
  | start (code : StartCode) (message : JsString)
  | integrity (storageIntegrity : JsString)
  | journal (failure : Failure)
  | addressInUse
  | outside (e : JsError)
  deriving DecidableEq

structure StartDaemonOptions where
  databasePath : JsString
  worktreeRoot : Option JsString
  deriving DecidableEq

/-- What all calls have in common. -/
structure Config where
  platform : Platform
  socketPath : JsString

/-! ## One call, cut at its steps -/

inductive Phase where
  | called (options : StartDaemonOptions)
  /-- `lstat(socketPath)`. -/
  | inspect
  /-- `isUnixSocketActive(socketPath)`. -/
  | probe
  /-- The probe found nobody; `unlink(socketPath)`. -/
  | unlink
  | openDatabase
  /-- `new OperationJournal(database)`. -/
  | openJournal
  /-- `journal.reconcileInterrupted()`. -/
  | reconcile
  /-- `new WorkspaceRegistry(database, …)`. -/
  | openRegistry
  | checkIntegrity
  /-- `listenOnIpc(server, socketPath)`. -/
  | listen
  /-- The handle was returned. -/
  | ready
  | closed
  | rejected (e : StartError)
  /-- The process died. -/
  | dead
  deriving DecidableEq

/-- The call is over, and so is its daemon. -/
def Phase.ended : Phase → Bool
  | .closed => true
  | .rejected _ => true
  | .dead => true
  | _ => false

/-- The checks before the first wait. -/
def checkOptions (config : Config) (options : StartDaemonOptions) : Except StartError Unit :=
  let pathBytes := (encodeUtf8 config.socketPath).length
  let maximumBytes := config.platform.socketPathMaximumBytes
  if options.databasePath = [] then .error (.type (js "databasePath must not be empty"))
  else if config.socketPath = [] then .error (.type (js "socketPath must not be empty"))
  else if options.worktreeRoot = some [] then
    .error (.type (js "worktreeRoot must not be empty"))
  else if config.platform ≠ .win32 ∧ maximumBytes < pathBytes then
    .error (.start .ipcPathTooLong
      (js "IPC path is " ++ js (Nat.repr pathBytes) ++ js " bytes; maximum supported length is " ++
        js (Nat.repr maximumBytes) ++ js " bytes"))
  else .ok ()

/-- The next step of call `i`: its phase, the endpoint and the journal after
it. `fault` is an exception from outside, thrown instead. -/
def Phase.advance (config : Config) (i : Nat) (endpoint : Endpoint) (journal : Journal)
    (fault : Option JsError) : Phase → Phase × Endpoint × Journal
  | .called options =>
      match checkOptions config options with
      | .error e => (.rejected e, endpoint, journal)
      | .ok _ =>
          (if config.platform = .win32 then .openDatabase else .inspect, endpoint, journal)
  | .inspect =>
      match fault with
      | some e => (.rejected (.outside e), endpoint, journal)
      | none =>
          match endpoint with
          | .absent => (.openDatabase, endpoint, journal)
          | .occupied =>
              (.rejected (.start .ipcPathOccupied
                (js "IPC path " ++ config.socketPath ++ js " exists and is not a Unix socket")),
                endpoint, journal)
          | .socket _ => (.probe, endpoint, journal)
  | .probe =>
      match fault with
      | some e => (.rejected (.outside e), endpoint, journal)
      | none =>
          match endpoint with
          | .socket (some _) =>
              (.rejected (.start .ipcEndpointInUse
                (js "IPC endpoint " ++ config.socketPath ++
                  js " is already owned by an active process")), endpoint, journal)
          -- ECONNREFUSED or ENOENT
          | _ => (.unlink, endpoint, journal)
  | .unlink =>
      match fault with
      | some e => (.rejected (.outside e), endpoint, journal)
      | none => (.openDatabase, .absent, journal)
  | .openDatabase =>
      match fault with
      | some e => (.rejected (.outside e), endpoint, journal)
      | none => (.openJournal, endpoint, journal)
  | .openJournal =>
      match fault with
      | some e => (.rejected (.outside e), endpoint, journal)
      | none => (.reconcile, endpoint, journal)
  | .reconcile =>
      match journal.reconcileInterrupted fault with
      | (.error failure, journal) => (.rejected (.journal failure), endpoint, journal)
      | (.ok _, journal) => (.openRegistry, endpoint, journal)
  | .openRegistry =>
      match fault with
      | some e => (.rejected (.outside e), endpoint, journal)
      | none => (.checkIntegrity, endpoint, journal)
  | .checkIntegrity =>
      match fault with
      -- the message is what the check reports
      | some e => (.rejected (.integrity e.message), endpoint, journal)
      | none => (.listen, endpoint, journal)
  | .listen =>
      match fault with
      | some e => (.rejected (.outside e), endpoint, journal)
      | none =>
          if endpoint = .absent then (.ready, .socket (some i), journal)
          else (.rejected .addressInUse, endpoint, journal)
  | phase => (phase, endpoint, journal)

/-! ## Calls in one machine -/

structure System where
  endpoint : Endpoint
  journal : Journal
  calls : List Phase

/-- The endpoint after its process has closed the server or died. -/
def Endpoint.afterClose (platform : Platform) (i : Nat) (endpoint : Endpoint) : Endpoint :=
  -- a pipe has no name that outlives it; a socket is unlinked, whoever listens on it
  if platform = .win32 ∧ endpoint ≠ .socket (some i) then endpoint else .absent

def Endpoint.afterDeath (platform : Platform) (i : Nat) (endpoint : Endpoint) : Endpoint :=
  if endpoint ≠ .socket (some i) then endpoint
  else if platform = .win32 then .absent else .socket none

inductive Action where
  | start (options : StartDaemonOptions)
  | advance (i : Nat) (fault : Option JsError)
  /-- `close()` of the handle. -/
  | close (i : Nat)
  | die (i : Nat)
  /-- A daemon works on its operations. -/
  | operate (f : Journal → Journal)

/-- One step; an action that is not possible changes nothing. -/
def System.step (config : Config) (s : System) : Action → System
  | .start options => { s with calls := s.calls ++ [.called options] }
  | .advance i fault =>
      match s.calls[i]? with
      | none => s
      | some phase =>
          let next := phase.advance config i s.endpoint s.journal fault
          ⟨next.2.1, next.2.2, s.calls.set i next.1⟩
  | .close i =>
      if s.calls[i]? = some .ready then
        { s with
          endpoint := s.endpoint.afterClose config.platform i
          calls := s.calls.set i .closed }
      else s
  | .die i =>
      match s.calls[i]? with
      | none => s
      | some phase =>
          if phase.ended then s
          else
            { s with
              endpoint := s.endpoint.afterDeath config.platform i
              calls := s.calls.set i .dead }
  | .operate f => { s with journal := f s.journal }

def System.run (config : Config) (s : System) (actions : List Action) : System :=
  Process.runFrom (System.step config) s actions

end Benchhand.Daemon
