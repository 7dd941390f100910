import NetworkExperiment.Proto.Message

namespace NetworkExperiment

open ByteBuffers

/-!
# One request of the client — `client_send_request`

`ClientThread` is the local state of `client_send_request` in `client/client.c`; as at the
server, the program counter names the next call and one function `after…` for each call gives
the state the client computes from its result.  The calls made by `log_request_start` and
`log_request_end` are calls of their own here: the writes to the timing log and the critical
section of `update_request_counter`.

* `ClientThread.afterReadBlock` — the assertion and the `switch` on the message type;
* `ClientThread.afterUpdate` — the end of the loop body and the test `while (fileavlb)`.
-/

/-- `FILENAME`, the bytes `memcpy` copies into the request. -/
def requestFilename : List UInt8 := "large_file.txt".toList.map fun c => UInt8.ofNat c.toNat

/-- The request message: `FILENAME` in front of zero bytes. -/
def requestMsg : ProtoMsg where
  msgType := ProtoType.reqFile.code
  data := (Bytes.zero maxBlockSize).write 0 requestFilename

@[simp] theorem requestMsg_msgType : requestMsg.msgType = ProtoType.reqFile.code := rfl

/-- The call `client_send_request` is in front of.  `last` tells the calls made in the
    `FILE_COMPLETE` case from those made in the `FILE_BLOCK` case. -/
inductive ClientPc
  | sendRequest
  | readAck
  | logStart
  | readBlock
  | sendAck (last : Bool)
  | logEnd (last : Bool)
  | update (last : Bool)
  | closeSock
  | closeLog
  | returned
  | assertFailed
  | illegalType
deriving DecidableEq, Repr

/-- The local variables of `client_send_request`, with the call that it is in front of.  `fileavlb`
    is the condition of its loop. -/
structure ClientThread where
  pc : ClientPc
  msg : ProtoMsg
  marshallBuffer : Buffer
  fileavlb : Bool
deriving DecidableEq

namespace ClientThread

/-- In front of the first call: the request is marshalled; `garbage` is what `malloc` left in the
    buffer, of which nothing stays. -/
def start (garbage : Buffer) : ClientThread where
  pc := .sendRequest
  msg := requestMsg
  marshallBuffer := marshall requestMsg garbage
  fileavlb := false

/-- `bzero(&msg, …); msg.msgType = t; marshall(&msg, marshallBuffer);`, then the call at `pc`. -/
def compose (s : ClientThread) (t : ProtoType) (pc : ClientPc) : ClientThread :=
  { s with pc := pc, msg := .blank t, marshallBuffer := marshall (.blank t) s.marshallBuffer }

/-- After the request was sent. -/
def afterSendRequest (s : ClientThread) : ClientThread :=
  { s with msg := ⟨0, .zero _⟩, pc := .readAck }

/-- After the answer to the request was read into the buffer: an assertion on its type, and the
    loop begins. -/
def afterReadAck (s : ClientThread) (buffer : Buffer) : ClientThread :=
  let msg := unmarshall buffer
  if msg.msgType = ProtoType.reqAck.code then
    { s with msg := msg, marshallBuffer := buffer, fileavlb := true, pc := .logStart }
  else { s with msg := msg, marshallBuffer := buffer, pc := .assertFailed }

/-- After `log_request_start` wrote its line. -/
def afterLogStart (s : ClientThread) : ClientThread :=
  { s with msg := ⟨0, .zero _⟩, pc := .readBlock }

/-- After the next message was read into the buffer: the assertion, then the `switch`. -/
def afterReadBlock (s : ClientThread) (buffer : Buffer) : ClientThread :=
  let msg := unmarshall buffer
  let s := { s with msg := msg, marshallBuffer := buffer }
  if msg.msgType = ProtoType.fileBlock.code ∨ msg.msgType = ProtoType.fileComplete.code then
    if msg.msgType = ProtoType.fileBlock.code then s.compose .fileBlockAck (.sendAck false)
    else if msg.msgType = ProtoType.fileComplete.code then
      s.compose .fileCompleteAck (.sendAck true)
    -- `default`, which the assertion keeps from being reached
    else { s with pc := .illegalType }
  else { s with pc := .assertFailed }

/-- After the answer to the message was sent. -/
def afterSendAck (s : ClientThread) (last : Bool) : ClientThread := { s with pc := .logEnd last }

/-- After `log_request_end` wrote its line. -/
def afterLogEnd (s : ClientThread) (last : Bool) : ClientThread := { s with pc := .update last }

/-- After `update_request_counter`: in the `FILE_COMPLETE` case `fileavlb = 0`; then the loop test
    `while (fileavlb)`. -/
def afterUpdate (s : ClientThread) (last : Bool) : ClientThread :=
  let s := if last then { s with fileavlb := false } else s
  if s.fileavlb then { s with pc := .logStart } else { s with pc := .closeSock }

/-- After `close(socketfh)`. -/
def afterCloseSock (s : ClientThread) : ClientThread := { s with pc := .closeLog }

/-- After `close(timing_logfh)`. -/
def afterCloseLog (s : ClientThread) : ClientThread := { s with pc := .returned }

/-! ### What the steps assign -/

@[simp] theorem compose_pc (s : ClientThread) (t : ProtoType) (pc : ClientPc) :
    (s.compose t pc).pc = pc := rfl
@[simp] theorem compose_fileavlb (s : ClientThread) (t : ProtoType) (pc : ClientPc) :
    (s.compose t pc).fileavlb = s.fileavlb := rfl
@[simp] theorem compose_marshallBuffer (s : ClientThread) (t : ProtoType) (pc : ClientPc) :
    (s.compose t pc).marshallBuffer = frame (.blank t) := by
  simp only [compose, marshall_eq_frame]

@[simp] theorem start_marshallBuffer (garbage : Buffer) :
    (start garbage).marshallBuffer = frame requestMsg := by
  simp only [start, marshall_eq_frame]

/-- A block is answered by `FILE_BLOCK_ACK`, and its contents are cleared with the message. -/
theorem afterReadBlock_fileBlock (s : ClientThread) {buffer : Buffer}
    (h : (unmarshall buffer).msgType = ProtoType.fileBlock.code) :
    s.afterReadBlock buffer
      = { s with msg := unmarshall buffer, marshallBuffer := buffer
          : ClientThread }.compose .fileBlockAck (.sendAck false) := by
  simp [afterReadBlock, h]

/-- The end of the file is answered by `FILE_COMPLETE_ACK`. -/
theorem afterReadBlock_fileComplete (s : ClientThread) {buffer : Buffer}
    (h : (unmarshall buffer).msgType = ProtoType.fileComplete.code) :
    s.afterReadBlock buffer
      = { s with msg := unmarshall buffer, marshallBuffer := buffer
          : ClientThread }.compose .fileCompleteAck (.sendAck true) := by
  simp [afterReadBlock, h]

/-- Any other message fails the assertion, which comes before the `switch`. -/
theorem afterReadBlock_other (s : ClientThread) {buffer : Buffer}
    (hblock : (unmarshall buffer).msgType ≠ ProtoType.fileBlock.code)
    (hcomplete : (unmarshall buffer).msgType ≠ ProtoType.fileComplete.code) :
    (s.afterReadBlock buffer).pc = .assertFailed := by
  simp [afterReadBlock, hblock, hcomplete]

/-- Where the thread is after it has read a message: the `default` branch of the `switch` lies
    behind the assertion and is never taken. -/
theorem afterReadBlock_pc (s : ClientThread) (buffer : Buffer) :
    (∃ last, (s.afterReadBlock buffer).pc = .sendAck last) ∨
      (s.afterReadBlock buffer).pc = .assertFailed := by
  -- the two types that pass the assertion are the two cases of the `switch`
  by_cases hblock : (unmarshall buffer).msgType = ProtoType.fileBlock.code
  · rw [afterReadBlock_fileBlock s hblock]
    exact .inl ⟨false, rfl⟩
  by_cases hcomplete : (unmarshall buffer).msgType = ProtoType.fileComplete.code
  · rw [afterReadBlock_fileComplete s hcomplete]
    exact .inl ⟨true, rfl⟩
  · exact .inr (afterReadBlock_other s hblock hcomplete)

/-- Where the thread is after it has read the answer to its request: in the loop, or behind a
    failed assertion. -/
theorem afterReadAck_pc (s : ClientThread) (buffer : Buffer) :
    (s.afterReadAck buffer).pc = .logStart ∨ (s.afterReadAck buffer).pc = .assertFailed := by
  unfold afterReadAck
  by_cases hack : (unmarshall buffer).msgType = ProtoType.reqAck.code
  · exact .inl (by simp [hack])
  · exact .inr (by simp [hack])

/-- Where the thread is after the loop test: in front of the next message, or behind the loop. -/
theorem afterUpdate_pc (s : ClientThread) (last : Bool) :
    (s.afterUpdate last).pc = .logStart ∨ (s.afterUpdate last).pc = .closeSock := by
  unfold afterUpdate
  cases last with
  | true => exact .inr (by simp)
  | false => by_cases hmore : s.fileavlb = true <;> simp [hmore]

/-- After a block, the loop goes on, as only the end of the file clears `fileavlb`. -/
theorem afterUpdate_block {s : ClientThread} (hmore : s.fileavlb = true) :
    s.afterUpdate false = { s with pc := .logStart } := by
  simp [afterUpdate, hmore]

end ClientThread

end NetworkExperiment
