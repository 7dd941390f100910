import NetworkExperiment.Lib.ActionSystem
import NetworkExperiment.Lib.Script
import NetworkExperiment.Client.SendRequest
import NetworkExperiment.Server.ServerFunc

namespace NetworkExperiment

open ActionSystems ByteBuffers DescriptorTables Scripts

/-!
# One exchange — `client_send_request` against `server_func`

The two functions joined by two loss-free FIFO channels of frames, without I/O errors.  An
action names the side that makes its next call; everything else is determined.

* `Exchange` — the two threads, the frames in flight and, as a record for the statements, the
  messages the client has unmarshalled;
* `serverScript` / `clientScript` — the messages each side sends, in order, when the file has
  `m` blocks;
* `ServerThread.At` / `ClientThread.At` — what a thread holds after it has sent and received so
  many messages; one lemma for each side says how a call moves these counts;
* `Exchange.Inv` — both threads are where their counts say and each channel holds the
  messages sent and not yet received.
-/

/-! ### The system -/

/-- The two threads and the two channels. -/
structure Exchange where
  client : ClientThread
  server : ServerThread
  toServer : List Buffer
  toClient : List Buffer
  received : List ProtoMsg

/-- The side that makes its next call. -/
inductive Side
  | client
  | server
deriving DecidableEq, Repr

/-- The next call of the client.  A read waits for a frame; a write of the timing log, the
    critical section of `update_request_counter` and the two `close` calls always return. -/
def Exchange.clientStep (e : Exchange) : Option Exchange :=
  let c := e.client
  match c.pc with
  | .sendRequest =>
    some { e with toServer := e.toServer ++ [c.marshallBuffer], client := c.afterSendRequest }
  | .readAck =>
    match e.toClient with
    | [] => none
    | f :: rest => some { e with
        toClient := rest, client := c.afterReadAck f, received := e.received ++ [unmarshall f] }
  | .logStart => some { e with client := c.afterLogStart }
  | .readBlock =>
    match e.toClient with
    | [] => none
    | f :: rest => some { e with
        toClient := rest, client := c.afterReadBlock f, received := e.received ++ [unmarshall f] }
  | .sendAck last =>
    some { e with toServer := e.toServer ++ [c.marshallBuffer], client := c.afterSendAck last }
  | .logEnd last => some { e with client := c.afterLogEnd last }
  | .update last => some { e with client := c.afterUpdate last }
  | .closeSock => some { e with client := c.afterCloseSock }
  | .closeLog => some { e with client := c.afterCloseLog }
  | .returned | .assertFailed | .illegalType => none

/-- The next call of the server. -/
def Exchange.serverStep (fs : FileSystem) (e : Exchange) : Option Exchange :=
  let s := e.server
  match s.pc with
  | .readRequest =>
    match e.toServer with
    | [] => none
    | f :: rest => some { e with toServer := rest, server := s.afterReadRequest f }
  | .sendAck =>
    some { e with toClient := e.toClient ++ [s.marshallBuffer], server := s.afterSendAck }
  | .access => some { e with server := s.afterAccess (fs s.filename ≠ .noAccess) }
  | .openFile =>
    -- which descriptor `open` returns makes no difference to the exchange
    match fs s.filename with
    | .readable _ => some { e with server := s.afterOpen (some s.fd) }
    | _ => some { e with server := s.afterOpen none }
  | .fdopen =>
    match fs s.filename with
    | .readable content => some { e with server := s.afterFdopen content }
    | _ => none
  | .fread => some { e with server := s.afterFread }
  | .sendBlock =>
    some { e with toClient := e.toClient ++ [s.marshallBuffer], server := s.afterSendBlock }
  | .readAck =>
    match e.toServer with
    | [] => none
    | f :: rest => some { e with toServer := rest, server := s.afterReadAck f }
  | .sendComplete =>
    some { e with toClient := e.toClient ++ [s.marshallBuffer], server := s.afterSendComplete }
  | .closeSock => some { e with server := s.afterClose }
  | .returned | .assertFailed => none

/-- The exchange over the files `fs`. -/
def exchange (fs : FileSystem) : ActionSystem Exchange Side where
  act e
    | .client => e.clientStep
    | .server => e.serverStep fs

@[simp] theorem exchange_act_client (fs : FileSystem) (e : Exchange) :
    (exchange fs).act e .client = e.clientStep := rfl
@[simp] theorem exchange_act_server (fs : FileSystem) (e : Exchange) :
    (exchange fs).act e .server = e.serverStep fs := rfl

/-- Both threads in front of their first call, with whatever `malloc` left in their buffers. -/
def Exchange.start (sockfd : Fd) (clientGarbage serverGarbage : Buffer) : Exchange where
  client := .start clientGarbage
  server := .start sockfd serverGarbage
  toServer := []
  toClient := []
  received := []

/-- The name the server finds in the request. -/
def requestedName : Bytes maxFilename := requestMsg.filename

/-- `⌈n / MAX_BLOCK_SIZE⌉` for a file of `n` bytes, and `0` if the file is not available. -/
def FileOutcome.blocks : FileOutcome → ℕ
  | .readable content => (content.length + maxBlockSize - 1) / maxBlockSize
  | _ => 0

/-! ### The scripts -/

/-- What the server sends: `REQ_ACK`, `m` times `FILE_BLOCK`, `FILE_COMPLETE`. -/
def serverScript (m : ℕ) : ℕ → ProtoMsg
  | 0 => .blank .reqAck
  | k + 1 => if k < m then .blank .fileBlock else .blank .fileComplete

/-- What the client sends: the request, `m` times `FILE_BLOCK_ACK`, `FILE_COMPLETE_ACK`. -/
def clientScript (m : ℕ) : ℕ → ProtoMsg
  | 0 => requestMsg
  | k + 1 => if k < m then .blank .fileBlockAck else .blank .fileCompleteAck

/-- The script as frames. -/
def serverFrames (m : ℕ) (k : ℕ) : Buffer := frame (serverScript m k)

/-- The script as frames. -/
def clientFrames (m : ℕ) (k : ℕ) : Buffer := frame (clientScript m k)

/-! ### Where a thread is -/

/-- The server has sent `S` and received `R` messages in `k` calls; `out` is what it finds
    under the requested name.  The file is read one block ahead of the count of blocks sent. -/
def ServerThread.At (out : FileOutcome) (S R k : ℕ) (s : ServerThread) : Prop :=
  match s.pc with
  | .readRequest => S = 0 ∧ R = 0 ∧ k = 0
  | .sendAck => S = 0 ∧ R = 1 ∧ k = 1 ∧ s.filename = requestedName ∧
      s.marshallBuffer = serverFrames out.blocks 0
  | .access => S = 1 ∧ R = 1 ∧ k = 2 ∧ s.filename = requestedName
  | .openFile => S = 1 ∧ R = 1 ∧ k = 3 ∧ s.filename = requestedName
  | .fdopen => S = 1 ∧ R = 1 ∧ k = 4 ∧ s.filename = requestedName ∧
      ∃ content, out = .readable content
  | .fread => ∃ content j, out = .readable content ∧ S = 1 + j ∧ R = 1 + j ∧ k = 5 + 3 * j ∧
      s.readfile = ⟨content.drop (maxBlockSize * j), false⟩ ∧ maxBlockSize * j ≤ content.length
  | .sendBlock => ∃ content j, out = .readable content ∧ S = 1 + j ∧ R = 1 + j ∧ k = 6 + 3 * j ∧
      s.readfile = ⟨content.drop (maxBlockSize * (j + 1)),
        decide (content.length < maxBlockSize * (j + 1))⟩ ∧
      maxBlockSize * j < content.length ∧ s.marshallBuffer = serverFrames out.blocks S
  | .readAck => ∃ content j, out = .readable content ∧ S = 2 + j ∧ R = 1 + j ∧ k = 7 + 3 * j ∧
      s.readfile = ⟨content.drop (maxBlockSize * (j + 1)),
        decide (content.length < maxBlockSize * (j + 1))⟩ ∧
      maxBlockSize * j < content.length
  | .sendComplete => S = 1 + out.blocks ∧ R = 1 + out.blocks ∧ k ≤ 6 + 3 * out.blocks ∧
      s.marshallBuffer = serverFrames out.blocks S
  | .closeSock => S = 2 + out.blocks ∧ R = 1 + out.blocks ∧ k ≤ 7 + 3 * out.blocks
  | .returned => S = 2 + out.blocks ∧ R = 1 + out.blocks ∧ k ≤ 8 + 3 * out.blocks
  | .assertFailed => False

/-- The client has sent `S` and received `R` messages in `k` calls, in an exchange of a file of
    `m` blocks. -/
def ClientThread.At (m S R k : ℕ) (c : ClientThread) : Prop :=
  match c.pc with
  | .sendRequest => S = 0 ∧ R = 0 ∧ k = 0 ∧ c.marshallBuffer = clientFrames m 0
  | .readAck => S = 1 ∧ R = 0 ∧ k = 1
  | .logStart => ∃ i ≤ m, S = 1 + i ∧ R = 1 + i ∧ k = 2 + 5 * i ∧ c.fileavlb = true
  | .readBlock => ∃ i ≤ m, S = 1 + i ∧ R = 1 + i ∧ k = 3 + 5 * i ∧ c.fileavlb = true
  | .sendAck false => ∃ i < m, S = 1 + i ∧ R = 2 + i ∧ k = 4 + 5 * i ∧ c.fileavlb = true ∧
      c.marshallBuffer = clientFrames m S
  | .logEnd false => ∃ i < m, S = 2 + i ∧ R = 2 + i ∧ k = 5 + 5 * i ∧ c.fileavlb = true
  | .update false => ∃ i < m, S = 2 + i ∧ R = 2 + i ∧ k = 6 + 5 * i ∧ c.fileavlb = true
  | .sendAck true => S = 1 + m ∧ R = 2 + m ∧ k = 4 + 5 * m ∧ c.marshallBuffer = clientFrames m S
  | .logEnd true => S = 2 + m ∧ R = 2 + m ∧ k = 5 + 5 * m
  | .update true => S = 2 + m ∧ R = 2 + m ∧ k = 6 + 5 * m
  | .closeSock => S = 2 + m ∧ R = 2 + m ∧ k = 7 + 5 * m
  | .closeLog => S = 2 + m ∧ R = 2 + m ∧ k = 8 + 5 * m
  | .returned => S = 2 + m ∧ R = 2 + m ∧ k = 9 + 5 * m
  | .assertFailed | .illegalType => False

/-- **The invariant.**  After `n` steps both threads are where their counts say, each channel
    holds what was sent and not yet received, and the client has unmarshalled the server's
    messages in order. -/
def Exchange.Inv (out : FileOutcome) (n : ℕ) (e : Exchange) : Prop :=
  ∃ S R k S' R' k', e.server.At out S R k ∧ e.client.At out.blocks S' R' k' ∧
    R' ≤ S ∧ R ≤ S' ∧ n = k + k' ∧
    e.toClient = segment (serverFrames out.blocks) R' S ∧
    e.toServer = segment (clientFrames out.blocks) R S' ∧
    e.received = taken (serverScript out.blocks) R'

/-! ### Counting blocks -/

theorem FileOutcome.lt_blocks_iff {content : List UInt8} {j : ℕ} :
    j < (FileOutcome.readable content).blocks ↔ maxBlockSize * j < content.length := by
  simp only [blocks, maxBlockSize]
  omega

/-- A read that comes up short is the last one that returns anything. -/
theorem FileOutcome.blocks_of_short {content : List UInt8} {j : ℕ}
    (hlt : maxBlockSize * j < content.length) (hend : content.length < maxBlockSize * (j + 1)) :
    (FileOutcome.readable content).blocks = j + 1 := by
  simp only [blocks, maxBlockSize] at *
  omega

/-- A file that ends at a block boundary has no block behind it. -/
theorem FileOutcome.blocks_of_boundary {content : List UInt8} {j : ℕ}
    (h : maxBlockSize * j = content.length) : (FileOutcome.readable content).blocks = j := by
  simp only [blocks, maxBlockSize] at *
  omega

@[simp] theorem serverScript_zero (m : ℕ) : serverScript m 0 = .blank .reqAck := rfl

@[simp] theorem clientScript_zero (m : ℕ) : clientScript m 0 = requestMsg := rfl

theorem serverScript_of_lt {m k : ℕ} (h : k < m) : serverScript m (1 + k) = .blank .fileBlock := by
  rw [Nat.add_comm, serverScript, if_pos h]

theorem serverScript_last (m : ℕ) : serverScript m (1 + m) = .blank .fileComplete := by
  rw [Nat.add_comm, serverScript, if_neg (lt_irrefl m)]

theorem clientScript_of_lt {m k : ℕ} (h : k < m) :
    clientScript m (1 + k) = .blank .fileBlockAck := by
  rw [Nat.add_comm, clientScript, if_pos h]

theorem clientScript_last (m : ℕ) : clientScript m (1 + m) = .blank .fileCompleteAck := by
  rw [Nat.add_comm, clientScript, if_neg (lt_irrefl m)]

/-! ### The calls of the server -/

namespace ServerThread.At

variable {out : FileOutcome} {S R k : ℕ} {s : ServerThread}

/-- The tail `exit_connection` is entered when all blocks are sent and acknowledged. -/
theorem exitConnection (hS : S = 1 + out.blocks) (hR : R = 1 + out.blocks)
    (hk : k ≤ 6 + 3 * out.blocks) : s.exitConnection.At out S R k := by
  refine ⟨hS, hR, hk, ?_⟩
  rw [exitConnection_marshallBuffer, serverFrames, hS, serverScript_last]

/-- The loop test: read on, or leave the loop when the last read came up short. -/
theorem loopHead {content : List UInt8} (j : ℕ) (eof : Bool) (hout : out = .readable content)
    (hfile : s.readfile = ⟨content.drop (maxBlockSize * j), eof⟩) (hS : S = 1 + j)
    (hR : R = 1 + j) (hk : k = 5 + 3 * j)
    (hend : if eof then out.blocks = j else maxBlockSize * j ≤ content.length) :
    s.loopHead.At out S R k := by
  unfold ServerThread.loopHead
  cases eof with
  | true =>
    rw [if_pos (by rw [hfile])]
    have hj : out.blocks = j := hend
    exact exitConnection (by omega) (by omega) (by omega)
  | false =>
    rw [if_neg (by rw [hfile]; simp)]
    exact ⟨content, j, hout, hS, hR, hk, hfile, hend⟩

theorem afterReadRequest (h : s.At out S R k) (hpc : s.pc = .readRequest) :
    (s.afterReadRequest (clientFrames out.blocks R)).At out S (R + 1) (k + 1) := by
  simp only [At, hpc] at h
  obtain ⟨rfl, rfl, rfl⟩ := h
  rw [ServerThread.afterReadRequest, clientFrames, unmarshall_frame, clientScript_zero,
    requestMsg_msgType, if_pos rfl]
  refine ⟨rfl, rfl, rfl, rfl, ?_⟩
  rw [compose_marshallBuffer, serverFrames, serverScript_zero]

theorem afterSendAck (h : s.At out S R k) (hpc : s.pc = .sendAck) :
    s.marshallBuffer = serverFrames out.blocks S ∧ s.afterSendAck.At out (S + 1) R (k + 1) := by
  simp only [At, hpc] at h
  obtain ⟨rfl, rfl, rfl, hname, hbuf⟩ := h
  exact ⟨hbuf, rfl, rfl, rfl, hname⟩

theorem afterAccess {fs : FileSystem} (hfs : fs requestedName = out) (h : s.At out S R k)
    (hpc : s.pc = .access) : (s.afterAccess (fs s.filename ≠ .noAccess)).At out S R (k + 1) := by
  simp only [At, hpc] at h
  obtain ⟨rfl, rfl, rfl, hname⟩ := h
  rw [hname, hfs, ServerThread.afterAccess]
  cases out with
  | noAccess => exact exitConnection rfl rfl (by decide)
  | noOpen => exact ⟨rfl, rfl, rfl, hname⟩
  | readable content => exact ⟨rfl, rfl, rfl, hname⟩

theorem afterOpen (h : s.At out S R k) (hpc : s.pc = .openFile) (r : Option Fd)
    (hr : match r with
      | some _ => ∃ content, out = .readable content
      | none => out.blocks = 0) :
    (s.afterOpen r).At out S R (k + 1) := by
  simp only [At, hpc] at h
  obtain ⟨rfl, rfl, rfl, hname⟩ := h
  cases r with
  | none =>
    have h0 : out.blocks = 0 := hr
    exact exitConnection (by omega) (by omega) (by omega)
  | some fd => exact ⟨rfl, rfl, rfl, hname, hr⟩

theorem afterFdopen {content : List UInt8} (hout : out = .readable content) (h : s.At out S R k)
    (hpc : s.pc = .fdopen) : (s.afterFdopen content).At out S R (k + 1) := by
  simp only [At, hpc] at h
  obtain ⟨rfl, rfl, rfl, _, _⟩ := h
  exact loopHead 0 false hout (by simp) rfl rfl rfl (by simp)

/-- `fread` returns nothing only at a block boundary at the end of the file, and otherwise the
    next block is sent. -/
theorem afterFread (h : s.At out S R k) (hpc : s.pc = .fread) :
    s.afterFread.At out S R (k + 1) := by
  simp only [At, hpc] at h
  obtain ⟨content, j, hout, hS, hR, hk, hfile, hle⟩ := h
  have hchunk : ((content.drop (maxBlockSize * j)).take maxBlockSize).length
      = min maxBlockSize (content.length - maxBlockSize * j) := by simp
  simp only [ServerThread.afterFread, Stream.fread, hfile, hchunk]
  have hB : maxBlockSize = 8096 := rfl
  split
  case isTrue hempty =>
    have hblocks : out.blocks = j := hout ▸ FileOutcome.blocks_of_boundary (by omega)
    exact exitConnection (by omega) (by omega) (by omega)
  case isFalse hmore =>
    have hlt : maxBlockSize * j < content.length := by omega
    refine ⟨content, j, hout, hS, hR, by omega, ?_, hlt, ?_⟩
    · simp only [compose_readfile, List.drop_drop, Stream.mk.injEq, decide_eq_decide]
      exact ⟨by rw [Nat.mul_succ], by simp only [maxBlockSize] at *; omega⟩
    · rw [compose_marshallBuffer, serverFrames, hS,
        serverScript_of_lt (hout ▸ FileOutcome.lt_blocks_iff.mpr hlt)]

theorem afterSendBlock (h : s.At out S R k) (hpc : s.pc = .sendBlock) :
    s.marshallBuffer = serverFrames out.blocks S ∧ s.afterSendBlock.At out (S + 1) R (k + 1) := by
  simp only [At, hpc] at h
  obtain ⟨content, j, hout, rfl, hR, rfl, hfile, hlt, hbuf⟩ := h
  exact ⟨hbuf, content, j, hout, by omega, hR, by omega, hfile, hlt⟩

theorem afterReadAck (h : s.At out S R k) (hpc : s.pc = .readAck) :
    (s.afterReadAck (clientFrames out.blocks R)).At out S (R + 1) (k + 1) := by
  simp only [At, hpc] at h
  obtain ⟨content, j, hout, hS, rfl, rfl, hfile, hlt⟩ := h
  have hj : j < out.blocks := hout ▸ FileOutcome.lt_blocks_iff.mpr hlt
  rw [ServerThread.afterReadAck, clientFrames, unmarshall_frame, clientScript_of_lt hj,
    ProtoMsg.blank_msgType, if_pos rfl]
  refine loopHead (j + 1) _ hout hfile (by omega) (by omega) (by omega) ?_
  split
  case isTrue heof => exact hout ▸ FileOutcome.blocks_of_short hlt (of_decide_eq_true heof)
  case isFalse heof => simpa using heof

theorem afterSendComplete (h : s.At out S R k) (hpc : s.pc = .sendComplete) :
    s.marshallBuffer = serverFrames out.blocks S ∧
      s.afterSendComplete.At out (S + 1) R (k + 1) := by
  simp only [At, hpc] at h
  obtain ⟨rfl, rfl, hk, hbuf⟩ := h
  exact ⟨hbuf, by omega, rfl, by omega⟩

theorem afterClose (h : s.At out S R k) (hpc : s.pc = .closeSock) :
    s.afterClose.At out S R (k + 1) := by
  simp only [At, hpc] at h
  obtain ⟨rfl, rfl, hk⟩ := h
  exact ⟨rfl, rfl, by omega⟩

end ServerThread.At

/-! ### The calls of the client -/

namespace ClientThread.At

variable {m S R k : ℕ} {c : ClientThread}

theorem afterSendRequest (h : c.At m S R k) (hpc : c.pc = .sendRequest) :
    c.marshallBuffer = clientFrames m S ∧ c.afterSendRequest.At m (S + 1) R (k + 1) := by
  simp only [At, hpc] at h
  obtain ⟨rfl, rfl, rfl, hbuf⟩ := h
  exact ⟨hbuf, rfl, rfl, rfl⟩

theorem afterReadAck (h : c.At m S R k) (hpc : c.pc = .readAck) :
    (c.afterReadAck (serverFrames m R)).At m S (R + 1) (k + 1) := by
  simp only [At, hpc] at h
  obtain ⟨rfl, rfl, rfl⟩ := h
  rw [ClientThread.afterReadAck, serverFrames, unmarshall_frame, serverScript_zero,
    ProtoMsg.blank_msgType, if_pos rfl]
  exact ⟨0, Nat.zero_le m, rfl, rfl, rfl, rfl⟩

theorem afterLogStart (h : c.At m S R k) (hpc : c.pc = .logStart) :
    c.afterLogStart.At m S R (k + 1) := by
  simp only [At, hpc] at h
  obtain ⟨i, hi, rfl, rfl, rfl, hav⟩ := h
  exact ⟨i, hi, rfl, rfl, by omega, hav⟩

/-- The next message is a block while there are blocks left, and `FILE_COMPLETE` behind them. -/
theorem afterReadBlock (h : c.At m S R k) (hpc : c.pc = .readBlock) :
    (c.afterReadBlock (serverFrames m R)).At m S (R + 1) (k + 1) := by
  simp only [At, hpc] at h
  obtain ⟨i, hi, rfl, rfl, rfl, hav⟩ := h
  by_cases hlt : i < m
  · rw [afterReadBlock_fileBlock c (by
      rw [serverFrames, unmarshall_frame, serverScript_of_lt hlt, ProtoMsg.blank_msgType])]
    refine ⟨i, hlt, rfl, by omega, by omega, hav, ?_⟩
    rw [compose_marshallBuffer, clientFrames, clientScript_of_lt hlt]
  · obtain rfl : i = m := by omega
    rw [afterReadBlock_fileComplete c (by
      rw [serverFrames, unmarshall_frame, serverScript_last, ProtoMsg.blank_msgType])]
    refine ⟨rfl, by omega, by omega, ?_⟩
    rw [compose_marshallBuffer, clientFrames, clientScript_last]

theorem afterSendAck {last : Bool} (h : c.At m S R k) (hpc : c.pc = .sendAck last) :
    c.marshallBuffer = clientFrames m S ∧ (c.afterSendAck last).At m (S + 1) R (k + 1) := by
  cases last with
  | false =>
    simp only [At, hpc] at h
    obtain ⟨i, hi, rfl, rfl, rfl, hav, hbuf⟩ := h
    exact ⟨hbuf, i, hi, by omega, by omega, by omega, hav⟩
  | true =>
    simp only [At, hpc] at h
    obtain ⟨rfl, rfl, rfl, hbuf⟩ := h
    exact ⟨hbuf, by omega, rfl, by omega⟩

theorem afterLogEnd {last : Bool} (h : c.At m S R k) (hpc : c.pc = .logEnd last) :
    (c.afterLogEnd last).At m S R (k + 1) := by
  cases last with
  | false =>
    simp only [At, hpc] at h
    obtain ⟨i, hi, rfl, rfl, rfl, hav⟩ := h
    exact ⟨i, hi, rfl, rfl, by omega, hav⟩
  | true =>
    simp only [At, hpc] at h
    obtain ⟨rfl, rfl, rfl⟩ := h
    exact ⟨rfl, rfl, by omega⟩

theorem afterUpdate {last : Bool} (h : c.At m S R k) (hpc : c.pc = .update last) :
    (c.afterUpdate last).At m S R (k + 1) := by
  cases last with
  | false =>
    simp only [At, hpc] at h
    obtain ⟨i, hi, rfl, rfl, rfl, hav⟩ := h
    simp only [ClientThread.afterUpdate, hav, if_true, Bool.false_eq_true, if_false]
    exact ⟨i + 1, hi, by omega, by omega, by omega, rfl⟩
  | true =>
    simp only [At, hpc] at h
    obtain ⟨rfl, rfl, rfl⟩ := h
    exact ⟨rfl, rfl, by omega⟩

theorem afterCloseSock (h : c.At m S R k) (hpc : c.pc = .closeSock) :
    c.afterCloseSock.At m S R (k + 1) := by
  simp only [At, hpc] at h
  obtain ⟨rfl, rfl, rfl⟩ := h
  exact ⟨rfl, rfl, by omega⟩

theorem afterCloseLog (h : c.At m S R k) (hpc : c.pc = .closeLog) :
    c.afterCloseLog.At m S R (k + 1) := by
  simp only [At, hpc] at h
  obtain ⟨rfl, rfl, rfl⟩ := h
  exact ⟨rfl, rfl, by omega⟩

end ClientThread.At

/-! ### Every call keeps the invariant -/

/-- A receive takes the first frame of its channel. -/
theorem exists_of_recv {queue : List Buffer} {recv : Buffer → List Buffer → Exchange}
    {e : Exchange} (h : (match queue with
      | [] => none
      | f :: rest => some (recv f rest)) = some e) :
    ∃ f rest, queue = f :: rest ∧ recv f rest = e := by
  cases queue with
  | nil => cases h
  | cons f rest => exact ⟨f, rest, rfl, Option.some.inj h⟩

theorem Exchange.inv_start (out : FileOutcome) (sockfd : Fd)
    (clientGarbage serverGarbage : Buffer) :
    (Exchange.start sockfd clientGarbage serverGarbage).Inv out 0 :=
  ⟨0, 0, 0, 0, 0, 0, ⟨rfl, rfl, rfl⟩, ⟨rfl, rfl, rfl, ClientThread.start_marshallBuffer _⟩,
    le_rfl, le_rfl, rfl, rfl, rfl, rfl⟩

/-- One call of the client. -/
theorem Exchange.inv_clientStep {out : FileOutcome} {n : ℕ} {e e' : Exchange} (h : e.Inv out n)
    (hstep : e.clientStep = some e') : e'.Inv out (n + 1) := by
  obtain ⟨S, R, k, S', R', k', hs, hc, hRS, hRS', hn, hto, hfrom, hrecv⟩ := h
  -- a send puts the next frame of the client's script behind the channel to the server
  have hpush : ∀ {c' : ClientThread}, e.client.marshallBuffer = clientFrames out.blocks S' →
      c'.At out.blocks (S' + 1) R' (k' + 1) →
      Exchange.Inv out (n + 1) { e with
        toServer := e.toServer ++ [e.client.marshallBuffer], client := c' } := by
    intro c' hbuf hat
    refine ⟨S, R, k, S' + 1, R', k' + 1, hs, hat, hRS, by omega, by omega, hto, ?_, hrecv⟩
    show e.toServer ++ [e.client.marshallBuffer] = _
    rw [hfrom, hbuf, segment_push _ hRS']
  -- a receive takes the next frame of the server's script
  have hpop : ∀ {f : Buffer} {rest : List Buffer} (g : Buffer → ClientThread),
      e.toClient = f :: rest →
      (g (serverFrames out.blocks R')).At out.blocks S' (R' + 1) (k' + 1) →
      Exchange.Inv out (n + 1) { e with
        toClient := rest, client := g f, received := e.received ++ [unmarshall f] } := by
    intro f rest g hq hat
    obtain ⟨hlt, hf, hrest⟩ := segment_pop _ (hto ▸ hq)
    refine ⟨S, R, k, S', R' + 1, k' + 1, hs, ?_, by omega, hRS', by omega, hrest, hfrom, ?_⟩
    · rw [hf]; exact hat
    · show e.received ++ [unmarshall f] = _
      rw [hf, serverFrames, unmarshall_frame, hrecv, taken_succ]
  -- the other calls touch neither channel
  have hlocal : ∀ {c' : ClientThread}, c'.At out.blocks S' R' (k' + 1) →
      Exchange.Inv out (n + 1) { e with client := c' } := fun hat =>
    ⟨S, R, k, S', R', k' + 1, hs, hat, hRS, hRS', by omega, hto, hfrom, hrecv⟩
  unfold clientStep at hstep
  cases hpc : e.client.pc with
  | sendRequest =>
    simp only [hpc] at hstep
    cases hstep
    exact hpush (hc.afterSendRequest hpc).1 (hc.afterSendRequest hpc).2
  | readAck =>
    simp only [hpc] at hstep
    obtain ⟨f, rest, hq, rfl⟩ := exists_of_recv hstep
    exact hpop _ hq (hc.afterReadAck hpc)
  | logStart =>
    simp only [hpc] at hstep
    cases hstep
    exact hlocal (hc.afterLogStart hpc)
  | readBlock =>
    simp only [hpc] at hstep
    obtain ⟨f, rest, hq, rfl⟩ := exists_of_recv hstep
    exact hpop _ hq (hc.afterReadBlock hpc)
  | sendAck last =>
    simp only [hpc] at hstep
    cases hstep
    exact hpush (hc.afterSendAck hpc).1 (hc.afterSendAck hpc).2
  | logEnd last =>
    simp only [hpc] at hstep
    cases hstep
    exact hlocal (hc.afterLogEnd hpc)
  | update last =>
    simp only [hpc] at hstep
    cases hstep
    exact hlocal (hc.afterUpdate hpc)
  | closeSock =>
    simp only [hpc] at hstep
    cases hstep
    exact hlocal (hc.afterCloseSock hpc)
  | closeLog =>
    simp only [hpc] at hstep
    cases hstep
    exact hlocal (hc.afterCloseLog hpc)
  | returned | assertFailed | illegalType => simp [hpc] at hstep

/-- One call of the server. -/
theorem Exchange.inv_serverStep {fs : FileSystem} {out : FileOutcome}
    (hfs : fs requestedName = out) {n : ℕ} {e e' : Exchange} (h : e.Inv out n)
    (hstep : e.serverStep fs = some e') : e'.Inv out (n + 1) := by
  obtain ⟨S, R, k, S', R', k', hs, hc, hRS, hRS', hn, hto, hfrom, hrecv⟩ := h
  -- a send puts the next frame of the server's script behind the channel to the client
  have hpush : ∀ {s' : ServerThread}, e.server.marshallBuffer = serverFrames out.blocks S →
      s'.At out (S + 1) R (k + 1) →
      Exchange.Inv out (n + 1) { e with
        toClient := e.toClient ++ [e.server.marshallBuffer], server := s' } := by
    intro s' hbuf hat
    refine ⟨S + 1, R, k + 1, S', R', k', hat, hc, by omega, hRS', by omega, ?_, hfrom, hrecv⟩
    show e.toClient ++ [e.server.marshallBuffer] = _
    rw [hto, hbuf, segment_push _ hRS]
  -- a receive takes the next frame of the client's script
  have hpop : ∀ {f : Buffer} {rest : List Buffer} (g : Buffer → ServerThread),
      e.toServer = f :: rest → (g (clientFrames out.blocks R)).At out S (R + 1) (k + 1) →
      Exchange.Inv out (n + 1) { e with toServer := rest, server := g f } := by
    intro f rest g hq hat
    obtain ⟨hlt, hf, hrest⟩ := segment_pop _ (hfrom ▸ hq)
    refine ⟨S, R + 1, k + 1, S', R', k', ?_, hc, hRS, by omega, by omega, hto, hrest, hrecv⟩
    rw [hf]; exact hat
  -- the other calls touch neither channel
  have hlocal : ∀ {s' : ServerThread}, s'.At out S R (k + 1) →
      Exchange.Inv out (n + 1) { e with server := s' } := fun hat =>
    ⟨S, R, k + 1, S', R', k', hat, hc, hRS, hRS', by omega, hto, hfrom, hrecv⟩
  unfold serverStep at hstep
  cases hpc : e.server.pc with
  | readRequest =>
    simp only [hpc] at hstep
    obtain ⟨f, rest, hq, rfl⟩ := exists_of_recv hstep
    exact hpop _ hq (hs.afterReadRequest hpc)
  | sendAck =>
    simp only [hpc] at hstep
    cases hstep
    exact hpush (hs.afterSendAck hpc).1 (hs.afterSendAck hpc).2
  | access =>
    simp only [hpc] at hstep
    cases hstep
    exact hlocal (hs.afterAccess hfs hpc)
  | openFile =>
    -- the file is the requested one, and `open` finds what `access` has found
    have hname : e.server.filename = requestedName := by
      simp only [ServerThread.At, hpc] at hs
      exact hs.2.2.2
    simp only [hpc, hname, hfs] at hstep
    cases out with
    | readable content =>
      cases hstep
      exact hlocal (hs.afterOpen hpc _ ⟨content, rfl⟩)
    | noAccess | noOpen =>
      cases hstep
      exact hlocal (hs.afterOpen hpc none rfl)
  | fdopen =>
    have hname : e.server.filename = requestedName ∧ ∃ content, out = .readable content := by
      simp only [ServerThread.At, hpc] at hs
      exact hs.2.2.2
    obtain ⟨hname, content, hout⟩ := hname
    simp only [hpc, hname, hfs, hout] at hstep
    cases hstep
    exact hlocal (hs.afterFdopen hout hpc)
  | fread =>
    simp only [hpc] at hstep
    cases hstep
    exact hlocal (hs.afterFread hpc)
  | sendBlock =>
    simp only [hpc] at hstep
    cases hstep
    exact hpush (hs.afterSendBlock hpc).1 (hs.afterSendBlock hpc).2
  | readAck =>
    simp only [hpc] at hstep
    obtain ⟨f, rest, hq, rfl⟩ := exists_of_recv hstep
    exact hpop _ hq (hs.afterReadAck hpc)
  | sendComplete =>
    simp only [hpc] at hstep
    cases hstep
    exact hpush (hs.afterSendComplete hpc).1 (hs.afterSendComplete hpc).2
  | closeSock =>
    simp only [hpc] at hstep
    cases hstep
    exact hlocal (hs.afterClose hpc)
  | returned | assertFailed => simp [hpc] at hstep

/-- **Step lemma.** Every call of either side keeps the invariant. -/
theorem Exchange.inv_step (fs : FileSystem) :
    (exchange fs).Inductive (Exchange.Inv (fs requestedName)) := by
  intro n e a e' h hact
  cases a with
  | client => exact Exchange.inv_clientStep h hact
  | server => exact Exchange.inv_serverStep rfl h hact

/-- **Run lemma.** -/
theorem Exchange.inv_run {fs : FileSystem} {sockfd : Fd} {clientGarbage serverGarbage : Buffer}
    {acts : List Side} {e : Exchange}
    (h : (exchange fs).run acts (.start sockfd clientGarbage serverGarbage) = some e) :
    e.Inv (fs requestedName) acts.length := by
  have := (Exchange.inv_step fs).run (Exchange.inv_start _ sockfd clientGarbage serverGarbage) h
  rwa [Nat.zero_add] at this

end NetworkExperiment
