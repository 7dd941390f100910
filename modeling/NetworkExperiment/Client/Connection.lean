import NetworkExperiment.Client.SendRequest
import NetworkExperiment.Server.Process

namespace NetworkExperiment

open ActionSystems ByteBuffers DescriptorTables

/-!
# A connection of the client

`client_send_request` with the bytes that the server sends it:

* `ClientConnection` / `ClientConnection.next` — the thread with its stream, and its next call;
* `clientConnection` — its run, and `serverConnection` — that of a `server_func` thread.

`Peer` is what the server does here: the bytes it sends, where they end, and what becomes of the
bytes sent to it.
-/

/-- A connection: the thread, the bytes received and not read, the bytes sent and the number of
    messages sent. -/
structure ClientConnection where
  thread : ClientThread
  unread : List UInt8
  output : List UInt8
  sends : ℕ
  killed : Bool
deriving DecidableEq

namespace ClientConnection

/-- A connection that has just been made. -/
def start (peer : Peer) : ClientConnection where
  thread := .start peer.garbage
  unread := peer.input
  output := []
  sends := 0
  killed := false

/-- The buffer as `cmpsc311_read_bytes` leaves it. -/
def received (c : ClientConnection) : Buffer :=
  c.thread.marshallBuffer.write 0 (c.unread.take sizeofProtoMsg)

/-- `cmpsc311_read_bytes`, whose result is ignored, and the thread `next` behind it. -/
def readBytes (c : ClientConnection) (peer : Peer) (next : ClientThread) :
    Option ClientConnection :=
  if sizeofProtoMsg ≤ c.unread.length ∨ peer.ends = true then
    some { c with thread := next, unread := c.unread.drop sizeofProtoMsg }
  else none

/-- `cmpsc311_send_bytes` of the marshalling buffer, whose result is ignored, and the thread `next`
    behind it. -/
def sendBytes (c : ClientConnection) (peer : Peer) (next : ClientThread) : ClientConnection :=
  let bytes := c.thread.marshallBuffer.toList
  match peer.send c.sends with
  | .sent => { c with thread := next, output := c.output ++ bytes, sends := c.sends + 1 }
  | .failed sentBytes =>
      { c with thread := next, output := c.output ++ bytes.take sentBytes, sends := c.sends + 1 }
  | .brokenPipe sentBytes =>
      { c with killed := true, output := c.output ++ bytes.take sentBytes, sends := c.sends + 1 }

/-- The next call of `client_send_request`. -/
def next (peer : Peer) (c : ClientConnection) : Option ClientConnection :=
  if c.killed then none
  else
    let s := c.thread
    match s.pc with
    | .sendRequest => some (c.sendBytes peer s.afterSendRequest)
    | .readAck => c.readBytes peer (s.afterReadAck c.received)
    | .logStart => some { c with thread := s.afterLogStart }
    | .readBlock => c.readBytes peer (s.afterReadBlock c.received)
    | .sendAck last => some (c.sendBytes peer (s.afterSendAck last))
    | .logEnd last => some { c with thread := s.afterLogEnd last }
    | .update last => some { c with thread := s.afterUpdate last }
    | .closeSock => some { c with thread := s.afterCloseSock }
    | .closeLog => some { c with thread := s.afterCloseLog }
    | .returned | .assertFailed | .illegalType => none

end ClientConnection

/-- The run of `client_send_request` on a connection. -/
def clientConnection (peer : Peer) : ActionSystem ClientConnection Unit where
  act c _ := c.next peer

/-- The runs of `server_func` on a connection; the actions are what `open` finds, if it is
    called. -/
def serverConnection (fs : FileSystem) (peer : Peer) : ActionSystem Connection (Option Fd) where
  act c fd := c.next fs peer fd

end NetworkExperiment
