import Mathlib.Data.List.AList
import NetworkExperiment.Lib.ActionSystem
import NetworkExperiment.Lib.Descriptors
import NetworkExperiment.Server.ServerFunc

namespace NetworkExperiment

open ActionSystems ByteBuffers DescriptorTables

/-!
# The server process — `server_run` and its threads

All connections of the server in one process with one table of descriptors:

* `Peer` — what a connection meets: the bytes its client sends, where they end, and what becomes of
  the bytes sent to it;
* `Connection` / `Connection.next` — a connection with its `server_func` thread, and its next call;
* `ServerProcess` — the connections that have been accepted and the descriptors;
* `serverProcess` — every interleaving of `server_run`, which accepts connections, with the threads,
  each call one step.

An assertion that fails, `SIGPIPE` and the return of `server_run` end the process.
-/

/-! ### Peers -/

/-- What `cmpsc311_send_bytes` comes to: everything is sent; or it fails, or raises `SIGPIPE`,
    behind some of the bytes. -/
inductive SendResult
  | sent
  | failed (sentBytes : ℕ)
  | brokenPipe (sentBytes : ℕ)
deriving DecidableEq, Repr

/-- The client has closed its end. -/
def SendResult.breaksPipe : SendResult → Bool
  | .brokenPipe _ => true
  | _ => false

/-- What a connection meets. -/
structure Peer where
  /-- The client is gone before the connection is accepted. -/
  aborts : Bool
  /-- All bytes that the client sends, -/
  input : List UInt8
  /-- and whether a read behind them fails; if not, it waits. -/
  ends : Bool
  /-- What becomes of each message sent to the client. -/
  send : ℕ → SendResult
  /-- What `malloc` leaves in the marshalling buffer of the thread. -/
  garbage : Buffer

/-- The files, the limit on descriptors and the clients. -/
structure ServerSetting where
  fs : FileSystem
  limit : ℕ
  peers : ℕ → Peer

/-! ### Connections -/

/-- A connection: its thread, the bytes received and not read, the bytes sent and the number of
    messages sent, with a record of whether `open` has returned a descriptor. -/
structure Connection where
  thread : ServerThread
  unread : List UInt8
  output : List UInt8
  sends : ℕ
  opened : Bool
  killed : Bool
deriving DecidableEq

namespace Connection

/-- A connection that has just been accepted: nothing is read, nothing is sent. -/
def start (sockfd : Fd) (peer : Peer) : Connection where
  thread := .start sockfd peer.garbage
  unread := peer.input
  output := []
  sends := 0
  opened := false
  killed := false

/-- The buffer as `cmpsc311_read_bytes` leaves it: if the input ends early, the rest of the buffer
    is as it was. -/
def received (c : Connection) : Buffer :=
  c.thread.marshallBuffer.write 0 (c.unread.take sizeofProtoMsg)

/-- `cmpsc311_read_bytes`, whose result is ignored, and the thread `next` behind it. -/
def readBytes (c : Connection) (peer : Peer) (next : ServerThread) : Option Connection :=
  if sizeofProtoMsg ≤ c.unread.length ∨ peer.ends = true then
    some { c with thread := next, unread := c.unread.drop sizeofProtoMsg }
  else none

/-- `cmpsc311_send_bytes` of the marshalling buffer, whose result is ignored, and the thread `next`
    behind it. -/
def sendBytes (c : Connection) (peer : Peer) (next : ServerThread) : Connection :=
  let bytes := c.thread.marshallBuffer.toList
  match peer.send c.sends with
  | .sent => { c with thread := next, output := c.output ++ bytes, sends := c.sends + 1 }
  | .failed sentBytes =>
      { c with thread := next, output := c.output ++ bytes.take sentBytes, sends := c.sends + 1 }
  | .brokenPipe sentBytes =>
      { c with killed := true, output := c.output ++ bytes.take sentBytes, sends := c.sends + 1 }

/-- The next call of `server_func`; `fd` is the descriptor that `open` finds for the file.  A read
    that waits, and a thread that has returned, have no next call. -/
def next (fs : FileSystem) (peer : Peer) (fd : Option Fd) (c : Connection) : Option Connection :=
  if c.killed then none
  else
    let s := c.thread
    match s.pc with
    | .readRequest => c.readBytes peer (s.afterReadRequest c.received)
    | .sendAck => some (c.sendBytes peer s.afterSendAck)
    | .access => some { c with thread := s.afterAccess (fs s.filename ≠ .noAccess) }
    | .openFile =>
        -- `open` fails where the process has no descriptor left, too
        match fs s.filename, fd with
        | .readable _, some fd => some { c with thread := s.afterOpen (some fd), opened := true }
        | _, _ => some { c with thread := s.afterOpen none }
    | .fdopen =>
        match fs s.filename with
        | .readable content => some { c with thread := s.afterFdopen content }
        | _ => none
    | .fread => some { c with thread := s.afterFread }
    | .sendBlock => some (c.sendBytes peer s.afterSendBlock)
    | .readAck => c.readBytes peer (s.afterReadAck c.received)
    | .sendComplete => some (c.sendBytes peer s.afterSendComplete)
    | .closeSock => some { c with thread := s.afterClose }
    | .returned | .assertFailed => none

/-- The thread has ended the process. -/
def Fatal (c : Connection) : Prop := c.killed = true ∨ c.thread.pc = .assertFailed

instance (c : Connection) : Decidable c.Fatal := inferInstanceAs (Decidable (_ ∨ _))

end Connection

/-! ### The process -/

/-- What an open descriptor of the server refers to. -/
inductive ServerFile
  | stdin
  | stdout
  | stderr
  | logFile
  | serverSock
  | connection (i : ℕ)
  | readfile (i : ℕ)
deriving DecidableEq, Repr

/-- The server process; each client connects once. -/
structure ServerProcess where
  conns : AList fun _ : ℕ => Connection
  table : Table ServerFile
  exited : Bool

/-- A step of the process: `server_run` accepts the connection of a client, or the thread of a
    connection makes its next call. -/
inductive ServerAction
  | accept (i : ℕ)
  | step (i : ℕ)
deriving DecidableEq, Repr

namespace ServerProcess

/-- The descriptor that a call which opens a file finds: the lowest one that is free, if it lies
    below the limit. -/
def free (p : ServerProcess) (limit : ℕ) : Option Fd :=
  if p.table.Full limit then none else some p.table.lowest

/-- The process when `server_run` is called.  `withLogFile` says that log messages go to a file and
    that this is open, as it is with the options `-l` and `-v`: the message behind `bind` opens it.
    Without `-l` they go to the standard error.  With `-l` alone the first error opens the file, in
    the middle of a run and at whatever descriptor is free then; no such run starts here. -/
def start (withLogFile : Bool) : ServerProcess where
  conns := ∅
  table := [some .stdin, some .stdout, some .stderr, some .serverSock]
    ++ if withLogFile then [some .logFile] else []
  exited := false

/-- `cmpsc311_accept_connection`, and the thread for the connection; if it fails, `server_run`
    returns and the process ends. -/
def acceptConnection (w : ServerSetting) (p : ServerProcess) (i : ℕ) : ServerProcess :=
  if (w.peers i).aborts then { p with exited := true }
  else
    match p.free w.limit with
    | some fd =>
        { p with
          conns := p.conns.insert i (.start fd (w.peers i))
          table := p.table.insert (.connection i) }
    | none => { p with exited := true }

/-- The descriptors after the next call of a connection; `fdopen` takes over the one it is given. -/
def tableAfter (w : ServerSetting) (p : ServerProcess) (i : ℕ) (c : Connection) :
    Table ServerFile :=
  match c.thread.pc with
  | .openFile =>
      match w.fs c.thread.filename, p.free w.limit with
      | .readable _, some _ => p.table.insert (.readfile i)
      | _, _ => p.table
  | .closeSock => p.table.close c.thread.sockfd
  -- nothing closes the stream over the file
  | _ => p.table

/-- The next call of the thread of a connection, with what it does to the descriptors; the other
    connections are as before. -/
def stepConnection (w : ServerSetting) (p : ServerProcess) (i : ℕ) (c : Connection) :
    Option ServerProcess :=
  (c.next w.fs (w.peers i) (p.free w.limit)).map fun c' =>
    { conns := p.conns.insert i c'
      table := p.tableAfter w i c
      exited := c'.Fatal }

/-- The thread of the connection has returned. -/
def Returned (p : ServerProcess) (i : ℕ) : Prop :=
  ∃ c, p.conns.lookup i = some c ∧ c.thread.pc = .returned

end ServerProcess

/-- The runs of the server process. -/
def serverProcess (w : ServerSetting) : ActionSystem ServerProcess ServerAction where
  act p a :=
    if p.exited then none
    else
      match a with
      | .accept i => if i ∈ p.conns then none else some (p.acceptConnection w i)
      | .step i =>
          match p.conns.lookup i with
          | some c => p.stepConnection w i c
          | none => none

/-- What a step can do. -/
theorem serverProcess_cases {w : ServerSetting} {p p' : ServerProcess} {a : ServerAction}
    (hact : (serverProcess w).act p a = some p') :
    p.exited = false ∧
      ((∃ i, a = .accept i ∧ i ∉ p.conns ∧ p' = p.acceptConnection w i) ∨
        ∃ i c, a = .step i ∧ p.conns.lookup i = some c ∧ p.stepConnection w i c = some p') := by
  unfold serverProcess at hact
  dsimp only at hact
  split_ifs at hact with hexited
  refine ⟨Bool.of_not_eq_true hexited, ?_⟩
  cases a with
  | accept i =>
    dsimp only at hact
    split_ifs at hact with hnew
    exact .inl ⟨i, rfl, hnew, (Option.some.inj hact).symm⟩
  | step i =>
    dsimp only at hact
    cases hc : p.conns.lookup i with
    | none => simp [hc] at hact
    | some c =>
      rw [hc] at hact
      exact .inr ⟨i, c, rfl, hc, hact⟩

/-! ### What the thread leaves alone -/

namespace ServerThread

variable (s : ServerThread)

@[simp] theorem exitConnection_sockfd : s.exitConnection.sockfd = s.sockfd := rfl

@[simp] theorem loopHead_sockfd : s.loopHead.sockfd = s.sockfd := by
  unfold loopHead; split <;> rfl
@[simp] theorem afterReadRequest_sockfd (buffer : Buffer) :
    (s.afterReadRequest buffer).sockfd = s.sockfd := by
  unfold afterReadRequest; dsimp only; split <;> rfl
@[simp] theorem afterAccess_sockfd (ok : Bool) : (s.afterAccess ok).sockfd = s.sockfd := by
  unfold afterAccess; split <;> rfl
@[simp] theorem afterOpen_sockfd (fd : Option Fd) : (s.afterOpen fd).sockfd = s.sockfd := by
  unfold afterOpen; split <;> rfl
@[simp] theorem afterFdopen_sockfd (content : List UInt8) :
    (s.afterFdopen content).sockfd = s.sockfd := by
  unfold afterFdopen; rw [loopHead_sockfd]
@[simp] theorem afterFread_sockfd : s.afterFread.sockfd = s.sockfd := by
  unfold afterFread; dsimp only; split <;> rfl
@[simp] theorem afterReadAck_sockfd (buffer : Buffer) :
    (s.afterReadAck buffer).sockfd = s.sockfd := by
  unfold afterReadAck; dsimp only; split
  · rw [loopHead_sockfd]
  · rfl

end ServerThread

end NetworkExperiment
