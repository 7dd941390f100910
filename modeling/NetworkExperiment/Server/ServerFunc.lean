import NetworkExperiment.Lib.Descriptors
import NetworkExperiment.Proto.Message

namespace NetworkExperiment

open ByteBuffers DescriptorTables

/-!
# One connection at the server — `server_func`, `exit_connection`

`server/server.c` serves a connection in a thread of its own.  `ServerThread` is the thread's
local state; its program counter names the call the thread is in front of, and one function
`after…` for each call gives the state the thread computes from the call's result, up to its
next call.  What the calls return is left to the systems the thread is placed in.

* `FileOutcome` — what `access`, `open` and the stream over the file can find;
* `Stream.fread` — `fread` of one block from a `FILE *`;
* `ServerThread.exitConnection` — the common tail of all paths;
* `ServerThread.loopHead` — the test `while (!feof(readfile))`.

The results of `cmpsc311_read_bytes` and `cmpsc311_send_bytes` are ignored by the code: the
functions for them take only the buffer.
-/

/-- `MAX_FILENAME`. -/
def maxFilename : ℕ := 128

/-- What the file system answers for a name: `access(…, R_OK)` fails, `open` fails, or the file
    can be read. -/
inductive FileOutcome
  | noAccess
  | noOpen
  | readable (content : List UInt8)
deriving DecidableEq

/-- `access` and `open` succeed. -/
def FileOutcome.isReadable : FileOutcome → Bool
  | .readable _ => true
  | _ => false

/-- The files the server finds, by the contents of its `filename` array. -/
abbrev FileSystem := Bytes maxFilename → FileOutcome

/-- A `FILE *`: the bytes not yet read and the end-of-file indicator. -/
structure Stream where
  rest : List UInt8
  eof : Bool
deriving DecidableEq

/-- `fread(…, 1, MAX_BLOCK_SIZE, f)`: the bytes read and the stream behind them.  End of file is
    indicated when the read comes up short. -/
def Stream.fread (f : Stream) : List UInt8 × Stream :=
  (f.rest.take maxBlockSize,
    ⟨f.rest.drop maxBlockSize, decide ((f.rest.take maxBlockSize).length < maxBlockSize)⟩)

/-- `memcpy(filename, msg.data, MAX_FILENAME)`. -/
def ProtoMsg.filename (msg : ProtoMsg) : Bytes maxFilename :=
  ⟨msg.data.toList.take maxFilename, by simp [maxFilename, maxBlockSize]⟩

/-- The call a thread in `server_func` is in front of. -/
inductive ServerPc
  | readRequest
  | sendAck
  | access
  | openFile
  | fdopen
  | fread
  | sendBlock
  | readAck
  | sendComplete
  | closeSock
  | returned
  | assertFailed
deriving DecidableEq, Repr

/-- The local variables of `server_func`, with the call that it is in front of.  `readfile` is the
    stream over the file, and `marshallBuffer` the one buffer for all frames. -/
structure ServerThread where
  pc : ServerPc
  sockfd : Fd
  msg : ProtoMsg
  marshallBuffer : Buffer
  filename : Bytes maxFilename
  fd : Fd
  readfile : Stream
deriving DecidableEq

namespace ServerThread

/-- A thread as it stands in front of its first call.  `garbage` is what `malloc` left in the
    marshalling buffer; the variables not assigned yet are zero. -/
def start (sockfd : Fd) (garbage : Buffer) : ServerThread where
  pc := .readRequest
  sockfd := sockfd
  msg := ⟨0, .zero _⟩
  marshallBuffer := garbage
  filename := .zero _
  fd := 0
  readfile := ⟨[], false⟩

/-- `bzero(&msg, …); msg.msgType = t; marshall(&msg, marshallBuffer);`, then the call at `pc`. -/
def compose (s : ServerThread) (t : ProtoType) (pc : ServerPc) : ServerThread :=
  { s with pc := pc, msg := .blank t, marshallBuffer := marshall (.blank t) s.marshallBuffer }

/-- `exit_connection`, up to its `cmpsc311_send_bytes`: it tells the client that the file is
    complete, on every path that leaves `server_func` without a failed assertion. -/
def exitConnection (s : ServerThread) : ServerThread := s.compose .fileComplete .sendComplete

/-- The loop test `while (!feof(readfile))`.  The indicator is set by a read that comes up short,
    and not by one that ends where the file does. -/
def loopHead (s : ServerThread) : ServerThread :=
  if s.readfile.eof then s.exitConnection else { s with pc := .fread }

/-- After the request was read into the buffer: an assertion on its type, and the name of the file
    is copied before the message is cleared. -/
def afterReadRequest (s : ServerThread) (buffer : Buffer) : ServerThread :=
  -- the type is checked, whatever the read has returned
  let msg := unmarshall buffer
  if msg.msgType = ProtoType.reqFile.code then
    { s with marshallBuffer := buffer, filename := msg.filename }.compose .reqAck .sendAck
  else { s with msg := msg, marshallBuffer := buffer, pc := .assertFailed }

/-- After `REQ_ACK` was sent. -/
def afterSendAck (s : ServerThread) : ServerThread := { s with pc := .access }

/-- After `access`: a file that may not be read is answered like an empty one. -/
def afterAccess (s : ServerThread) (ok : Bool) : ServerThread :=
  if ok then { s with pc := .openFile } else s.exitConnection

/-- After `open`, which returned a descriptor or `-1`. -/
def afterOpen (s : ServerThread) : Option Fd → ServerThread
  | some fd => { s with fd := fd, pc := .fdopen }
  | none => s.exitConnection

/-- After `fdopen`: the stream is at the start of the file. -/
def afterFdopen (s : ServerThread) (content : List UInt8) : ServerThread :=
  { s with readfile := ⟨content, false⟩ }.loopHead

/-- After `fread` into `msg.data`: leave the loop on an empty read, else send a block. -/
def afterFread (s : ServerThread) : ServerThread :=
  -- what is read lands in `msg`, which is cleared before it is sent
  let (chunk, readfile) := s.readfile.fread
  let s := { s with msg.data := s.msg.data.write 0 chunk, readfile := readfile }
  if chunk.length ≤ 0 then s.exitConnection else s.compose .fileBlock .sendBlock

/-- After a block was sent. -/
def afterSendBlock (s : ServerThread) : ServerThread :=
  { s with msg := ⟨0, .zero _⟩, pc := .readAck }

/-- After the answer to a block was read into the buffer: an assertion on its type, and then the
    loop test. -/
def afterReadAck (s : ServerThread) (buffer : Buffer) : ServerThread :=
  let msg := unmarshall buffer
  if msg.msgType = ProtoType.fileBlockAck.code then
    { s with msg := msg, marshallBuffer := buffer }.loopHead
  else { s with msg := msg, marshallBuffer := buffer, pc := .assertFailed }

/-- After `FILE_COMPLETE` was sent. -/
def afterSendComplete (s : ServerThread) : ServerThread := { s with pc := .closeSock }

/-- After `close(sockfd)`. -/
def afterClose (s : ServerThread) : ServerThread := { s with pc := .returned }

/-! ### What the steps assign -/

@[simp] theorem compose_pc (s : ServerThread) (t : ProtoType) (pc : ServerPc) :
    (s.compose t pc).pc = pc := rfl
@[simp] theorem compose_marshallBuffer (s : ServerThread) (t : ProtoType) (pc : ServerPc) :
    (s.compose t pc).marshallBuffer = frame (.blank t) := by
  simp only [compose, marshall_eq_frame]
@[simp] theorem compose_filename (s : ServerThread) (t : ProtoType) (pc : ServerPc) :
    (s.compose t pc).filename = s.filename := rfl
@[simp] theorem compose_readfile (s : ServerThread) (t : ProtoType) (pc : ServerPc) :
    (s.compose t pc).readfile = s.readfile := rfl
@[simp] theorem compose_sockfd (s : ServerThread) (t : ProtoType) (pc : ServerPc) :
    (s.compose t pc).sockfd = s.sockfd := rfl
@[simp] theorem compose_fd (s : ServerThread) (t : ProtoType) (pc : ServerPc) :
    (s.compose t pc).fd = s.fd := rfl

@[simp] theorem exitConnection_pc (s : ServerThread) : s.exitConnection.pc = .sendComplete := rfl
@[simp] theorem exitConnection_marshallBuffer (s : ServerThread) :
    s.exitConnection.marshallBuffer = frame (.blank .fileComplete) := by
  simp only [exitConnection, compose_marshallBuffer]

end ServerThread

end NetworkExperiment
