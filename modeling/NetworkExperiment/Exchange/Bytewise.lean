import NetworkExperiment.Lib.FramedPipe
import NetworkExperiment.Lib.Simulation
import NetworkExperiment.Network.Transfer
import NetworkExperiment.Exchange.Safety

namespace NetworkExperiment

open ActionSystems ByteBuffers DescriptorTables Scripts

/-!
# One exchange, byte by byte

The exchange below the level of frames: `cmpsc311_send_bytes` and `cmpsc311_read_bytes` run on
sockets that hold a limited number of bytes each way, and each `write` and `read` moves some of
the bytes that it is asked for.

* `SocketRoom` / `ByteExchange` — the sockets, and the two threads with the progress of their calls;
* `writeCall` / `readCall` — one pass through the loops, without errors;
* `ByteExchange.Shows` — the exchange of frames that a state shows: a frame is sent with its last
  byte, and received with its last byte;
* `byteExchange_refines` — every run shows a run of the exchange of frames.
-/

/-! ### The system -/

/-- How many bytes the sockets hold each way: what the kernel's buffers take before a `write`
    waits. -/
structure SocketRoom where
  toServer : ℕ
  toClient : ℕ

/-- The two threads, the bytes that their calls have moved, and the bytes in flight.  `clientMoved`
    is `sentBytes` or `readBytes` of the call that the client is in. -/
structure ByteExchange where
  client : ClientThread
  clientMoved : ℕ
  server : ServerThread
  serverMoved : ℕ
  toServer : List UInt8
  toClient : List UInt8
  received : List ProtoMsg

/-- `write` of the rest of the buffer, which takes `n` bytes: a pass of `cmpsc311_send_bytes`.  It
    waits while there is no room. -/
def writeCall {size : ℕ} (room n : ℕ) (buf : Bytes size) (moved : ℕ) (pipe : List UInt8) :
    Option (CallState size × List UInt8) :=
  if 0 < n ∧ n ≤ size - moved ∧ pipe.length + n ≤ room then
    some (sendBytesPass buf moved n, pipe ++ (buf.toList.drop moved).take n)
  else none

/-- `read` into the rest of the buffer, which gives `n` bytes: a pass of `cmpsc311_read_bytes`.  It
    waits while nothing is in flight. -/
def readCall {size : ℕ} (n : ℕ) (buf : Bytes size) (moved : ℕ) (pipe : List UInt8) :
    Option (CallState size × List UInt8) :=
  if 0 < n ∧ n ≤ size - moved ∧ n ≤ pipe.length then
    some (readBytesPass buf moved (pipe.take n) n, pipe.drop n)
  else none

namespace ByteExchange

/-- The client sends its buffer; `after` is the thread when the call has returned. -/
def clientSend (room n : ℕ) (b : ByteExchange) (after : ClientThread) : Option ByteExchange :=
  match writeCall room n b.client.marshallBuffer b.clientMoved b.toServer with
  | none => none
  | some (.running _ moved, pipe) => some { b with toServer := pipe, clientMoved := moved }
  | some (.returned _ _, pipe) =>
    some { b with toServer := pipe, clientMoved := 0, client := after }

/-- The client reads into its buffer, and unmarshalls it when the call has returned. -/
def clientRead (n : ℕ) (b : ByteExchange) (after : Buffer → ClientThread) : Option ByteExchange :=
  match readCall n b.client.marshallBuffer b.clientMoved b.toClient with
  | none => none
  | some (.running buf moved, pipe) => some { b with
      toClient := pipe, clientMoved := moved, client.marshallBuffer := buf }
  | some (.returned _ buf, pipe) => some { b with
      toClient := pipe, clientMoved := 0, client := after buf,
      received := b.received ++ [unmarshall buf] }

/-- The server sends its buffer. -/
def serverSend (room n : ℕ) (b : ByteExchange) (after : ServerThread) : Option ByteExchange :=
  match writeCall room n b.server.marshallBuffer b.serverMoved b.toClient with
  | none => none
  | some (.running _ moved, pipe) => some { b with toClient := pipe, serverMoved := moved }
  | some (.returned _ _, pipe) =>
    some { b with toClient := pipe, serverMoved := 0, server := after }

/-- The server reads into its buffer. -/
def serverRead (n : ℕ) (b : ByteExchange) (after : Buffer → ServerThread) : Option ByteExchange :=
  match readCall n b.server.marshallBuffer b.serverMoved b.toServer with
  | none => none
  | some (.running buf moved, pipe) => some { b with
      toServer := pipe, serverMoved := moved, server.marshallBuffer := buf }
  | some (.returned _ buf, pipe) =>
    some { b with toServer := pipe, serverMoved := 0, server := after buf }

/-- The next system call of the client, which moves `n` bytes if it moves any. -/
def clientStep (room n : ℕ) (b : ByteExchange) : Option ByteExchange :=
  let c := b.client
  match c.pc with
  | .sendRequest => b.clientSend room n c.afterSendRequest
  | .readAck => b.clientRead n c.afterReadAck
  | .logStart => some { b with client := c.afterLogStart }
  | .readBlock => b.clientRead n c.afterReadBlock
  | .sendAck last => b.clientSend room n (c.afterSendAck last)
  | .logEnd last => some { b with client := c.afterLogEnd last }
  | .update last => some { b with client := c.afterUpdate last }
  | .closeSock => some { b with client := c.afterCloseSock }
  | .closeLog => some { b with client := c.afterCloseLog }
  | .returned | .assertFailed | .illegalType => none

/-- The next system call of the server, which moves `n` bytes if it moves any. -/
def serverStep (fs : FileSystem) (room n : ℕ) (b : ByteExchange) : Option ByteExchange :=
  let s := b.server
  match s.pc with
  | .readRequest => b.serverRead n s.afterReadRequest
  | .sendAck => b.serverSend room n s.afterSendAck
  | .access => some { b with server := s.afterAccess (fs s.filename ≠ .noAccess) }
  | .openFile =>
    match fs s.filename with
    | .readable _ => some { b with server := s.afterOpen (some s.fd) }
    | _ => some { b with server := s.afterOpen none }
  | .fdopen =>
    match fs s.filename with
    | .readable content => some { b with server := s.afterFdopen content }
    | _ => none
  | .fread => some { b with server := s.afterFread }
  | .sendBlock => b.serverSend room n s.afterSendBlock
  | .readAck => b.serverRead n s.afterReadAck
  | .sendComplete => b.serverSend room n s.afterSendComplete
  | .closeSock => some { b with server := s.afterClose }
  | .returned | .assertFailed => none

/-- Both threads in front of their first call. -/
def start (sockfd : Fd) (clientGarbage serverGarbage : Buffer) : ByteExchange where
  client := .start clientGarbage
  clientMoved := 0
  server := .start sockfd serverGarbage
  serverMoved := 0
  toServer := []
  toClient := []
  received := []

end ByteExchange

/-- The exchange over the files `fs`; an action names a side and a number of bytes. -/
def byteExchange (fs : FileSystem) (room : SocketRoom) : ActionSystem ByteExchange (Side × ℕ) where
  act b
    | (.client, n) => b.clientStep room.toServer n
    | (.server, n) => b.serverStep fs room.toClient n

/-! ### The passes -/

variable {room n moved : ℕ} {buf : Buffer} {pipe pipe' part got : List UInt8}
  {call : CallState sizeofProtoMsg} {queue : List Buffer}

/-- The whole buffer. -/
theorem take_sizeofProtoMsg (buf : Buffer) : buf.toList.take sizeofProtoMsg = buf.toList :=
  List.take_of_length_le (Nat.le_of_eq buf.length_toList)

/-- A `write` puts the next bytes of the buffer behind those in flight, and the last one of the
    frame puts the frame behind the queue. -/
theorem writeCall_carries (hwrite : writeCall room n buf moved pipe = some (call, pipe'))
    (h : Carries queue (buf.toList.take moved) pipe got) :
    (∃ m, call = .running buf m ∧ moved < m ∧ m < sizeofProtoMsg ∧
      Carries queue (buf.toList.take m) pipe' got) ∨
    (call = .returned 0 buf ∧ Carries (queue ++ [buf]) [] pipe' got) := by
  unfold writeCall at hwrite
  split_ifs at hwrite with hn
  obtain ⟨rfl, rfl⟩ := Prod.mk.inj (Option.some.inj hwrite)
  rw [sendBytesPass, transferPass_of_pos _ _ (by omega), Int.toNat_natCast, loopTest]
  -- what has been sent of the frame, before and after
  have htake : buf.toList.take moved ++ (buf.toList.drop moved).take n
      = buf.toList.take (moved + n) := List.take_add.symm
  by_cases hmore : moved + n < sizeofProtoMsg
  · left
    refine ⟨moved + n, if_pos hmore, by omega, hmore, ?_⟩
    rw [← htake]
    exact h.write _
  · -- the whole frame is in the pipe
    right
    have hfull : moved + n = sizeofProtoMsg := by omega
    refine ⟨if_neg hmore, h.written ?_⟩
    rw [htake, hfull, take_sizeofProtoMsg]

/-- A `read` puts the first bytes in flight behind those in the buffer, and the last one of the
    frame takes the frame out of the queue. -/
theorem readCall_carries (hread : readCall n buf moved pipe = some (call, pipe'))
    (h : Carries queue part pipe (buf.toList.take moved)) (hpart : part.length < sizeofProtoMsg) :
    (∃ buf' m, call = .running buf' m ∧ moved < m ∧ m < sizeofProtoMsg ∧
      Carries queue part pipe' (buf'.toList.take m)) ∨
    (∃ buf' rest, call = .returned 0 buf' ∧ queue = buf' :: rest ∧ Carries rest part pipe' []) := by
  unfold readCall at hread
  split_ifs at hread with hn
  obtain ⟨rfl, rfl⟩ := Prod.mk.inj (Option.some.inj hread)
  rw [readBytesPass, transferPass_of_pos _ _ (by omega), Int.toNat_natCast, loopTest]
  have hlen : (pipe.take n).length = n := by
    rw [List.length_take]
    omega
  have hfront : (buf.toList.take moved ++ pipe.take n).length = moved + n := by
    rw [List.length_append, hlen, List.length_take, buf.length_toList]
    omega
  -- the bytes come behind those that the loop has read before
  have htake : (buf.write moved (pipe.take n)).toList.take (moved + n)
      = buf.toList.take moved ++ pipe.take n := by
    rw [Bytes.toList_write buf (by omega), List.take_left' hfront]
  rw [← List.take_append_drop n pipe] at h
  by_cases hmore : moved + n < sizeofProtoMsg
  · left
    refine ⟨_, moved + n, if_pos hmore, by omega, hmore, ?_⟩
    rw [htake]
    exact h.read
  · -- the buffer is full, so it holds the first frame of the queue
    right
    have hfull : moved + n = sizeofProtoMsg := by omega
    rw [hfull, take_sizeofProtoMsg] at htake
    obtain ⟨rest, hqueue, hrest⟩ := h.taken htake.symm hpart
    exact ⟨_, rest, if_neg hmore, hqueue, hrest⟩

/-! ### What the bytes show -/

/-- The calls of the client that read. -/
def ClientPc.reads : ClientPc → Bool
  | .readAck | .readBlock => true
  | _ => false

/-- The calls of the client that send. -/
def ClientPc.sends : ClientPc → Bool
  | .sendRequest | .sendAck _ => true
  | _ => false

/-- The calls of the server that read. -/
def ServerPc.reads : ServerPc → Bool
  | .readRequest | .readAck => true
  | _ => false

/-- The calls of the server that send. -/
def ServerPc.sends : ServerPc → Bool
  | .sendAck | .sendBlock | .sendComplete => true
  | _ => false

/-- The part of the buffer that a call has moved, if it is one that moves bytes this way. -/
def front (moves : Bool) (buf : Buffer) (moved : ℕ) : List UInt8 :=
  if moves then buf.toList.take moved else []

/-- The thread of the bytes is that of the frames; only the buffer may differ, while it is read
    into.  Outside the calls that move bytes, nothing has been moved. -/
structure ShowsClient (c : ClientThread) (moved : ℕ) (c' : ClientThread) : Prop where
  same : c = { c' with marshallBuffer := c.marshallBuffer }
  buffer : c'.pc.reads = false → c = c'
  lt : moved < sizeofProtoMsg
  zero : c'.pc.reads = false → c'.pc.sends = false → moved = 0

/-- The same at the server. -/
structure ShowsServer (s : ServerThread) (moved : ℕ) (s' : ServerThread) : Prop where
  same : s = { s' with marshallBuffer := s.marshallBuffer }
  buffer : s'.pc.reads = false → s = s'
  lt : moved < sizeofProtoMsg
  zero : s'.pc.reads = false → s'.pc.sends = false → moved = 0

/-- The exchange of frames that the bytes show.  The bytes in flight are those of the frames in
    flight, with the part that the sender has written of its next frame and without the part that
    the receiver has read of the first. -/
structure ByteExchange.Shows (b : ByteExchange) (e : Exchange) : Prop where
  client : ShowsClient b.client b.clientMoved e.client
  server : ShowsServer b.server b.serverMoved e.server
  toServer : Carries e.toServer (front e.client.pc.sends b.client.marshallBuffer b.clientMoved)
    b.toServer (front e.server.pc.reads b.server.marshallBuffer b.serverMoved)
  toClient : Carries e.toClient (front e.server.pc.sends b.server.marshallBuffer b.serverMoved)
    b.toClient (front e.client.pc.reads b.client.marshallBuffer b.clientMoved)
  received : b.received = e.received

variable {b b' : ByteExchange} {e : Exchange}

/-- A call that has moved nothing adds nothing, … -/
theorem front_zero (moves : Bool) (buf : Buffer) : front moves buf 0 = [] := by
  unfold front
  split_ifs
  · rfl
  · rfl

/-- … and neither does one that moves no bytes this way. -/
theorem front_false (buf : Buffer) (moved : ℕ) : front false buf moved = [] := rfl

theorem front_true (buf : Buffer) (moved : ℕ) : front true buf moved = buf.toList.take moved := rfl

/-- A call in progress has moved a part of a frame only. -/
theorem length_front_lt (moves : Bool) (buf : Buffer) (h : moved < sizeofProtoMsg) :
    (front moves buf moved).length < sizeofProtoMsg := by
  unfold front
  split_ifs
  · rw [List.length_take]
    omega
  · exact Nat.zero_lt_of_lt h

/-- Between two calls the thread is that of the frames. -/
theorem showsClient_self (c : ClientThread) : ShowsClient c 0 c :=
  ⟨rfl, fun _ => rfl, by decide, fun _ _ => rfl⟩

theorem showsServer_self (s : ServerThread) : ShowsServer s 0 s :=
  ⟨rfl, fun _ => rfl, by decide, fun _ _ => rfl⟩

theorem ShowsClient.pc {c c' : ClientThread} (h : ShowsClient c moved c') : c.pc = c'.pc := by
  rw [h.same]

theorem ShowsServer.pc {s s' : ServerThread} (h : ShowsServer s moved s') : s.pc = s'.pc := by
  rw [h.same]

/-- In front of their first calls, the two are the same. -/
theorem ByteExchange.shows_start (sockfd : Fd) (clientGarbage serverGarbage : Buffer) :
    (ByteExchange.start sockfd clientGarbage serverGarbage).Shows
      (.start sockfd clientGarbage serverGarbage) := by
  refine ⟨showsClient_self _, showsServer_self _, ?_, ?_, rfl⟩
  · unfold ByteExchange.start
    rw [front_zero, front_zero]
    exact carries_nil
  · unfold ByteExchange.start
    rw [front_zero, front_zero]
    exact carries_nil

/-! ### The steps of the client -/

namespace ByteExchange

/-- After a call of the client that moves no bytes. -/
theorem Shows.clientLocal (h : b.Shows e) (hreads : e.client.pc.reads = false)
    (hsends : e.client.pc.sends = false) (c : ClientThread) :
    ({ b with client := c } : ByteExchange).Shows { e with client := c } := by
  -- it is not inside a call, so the pipes are as before
  have hzero := h.client.zero hreads hsends
  have hto := h.toServer
  have hfrom := h.toClient
  rw [hsends, front_false] at hto
  rw [hreads, front_false] at hfrom
  refine ⟨?_, h.server, ?_, ?_, h.received⟩
  · rw [hzero]
    exact showsClient_self c
  · rw [hzero, front_zero]
    exact hto
  · rw [hzero, front_zero]
    exact hfrom

/-- A write of the client goes on with its frame, or ends it. -/
theorem Shows.clientSend (h : b.Shows e) (hreads : e.client.pc.reads = false)
    (hsends : e.client.pc.sends = true) {after : ClientThread}
    (hstep : b.clientSend room n after = some b') :
    (b'.Shows e ∧ b.clientMoved < b'.clientMoved ∧ b'.serverMoved = b.serverMoved) ∨
      b'.Shows { e with toServer := e.toServer ++ [e.client.marshallBuffer], client := after } := by
  have hto := h.toServer
  have hfrom := h.toClient
  rw [hsends, front_true] at hto
  rw [hreads, front_false] at hfrom
  unfold ByteExchange.clientSend at hstep
  split at hstep
  case h_1 => cases hstep
  case h_2 buf m pipe hwrite =>
    -- inside the frame: the exchange of frames has not moved
    obtain rfl := Option.some.inj hstep
    obtain ⟨m', hcall, hlt, hle, hto'⟩ | ⟨hcall, -⟩ := writeCall_carries hwrite hto
    · obtain ⟨-, rfl⟩ := CallState.running.inj hcall
      refine .inl ⟨⟨?_, h.server, ?_, ?_, h.received⟩, hlt, rfl⟩
      · exact ⟨h.client.same, h.client.buffer, hle, fun _ hno => by rw [hsends] at hno; cases hno⟩
      · rwa [hsends, front_true]
      · rwa [hreads, front_false]
    · cases hcall
  case h_3 ret buf pipe hwrite =>
    obtain rfl := Option.some.inj hstep
    obtain ⟨m', hcall, -⟩ | ⟨-, hto'⟩ := writeCall_carries hwrite hto
    · cases hcall
    · -- with its last byte, the frame is sent
      refine .inr ⟨showsClient_self after, h.server, ?_, ?_, h.received⟩
      · rw [front_zero, ← h.client.buffer hreads]
        exact hto'
      · rwa [front_zero]

/-- A read of the client goes on with its frame, or takes it. -/
theorem Shows.clientRead (h : b.Shows e) (hreads : e.client.pc.reads = true)
    (hsends : e.client.pc.sends = false) {after : Buffer → ClientThread}
    (hstep : b.clientRead n after = some b') :
    (b'.Shows e ∧ b.clientMoved < b'.clientMoved ∧ b'.serverMoved = b.serverMoved) ∨
      ∃ f rest, e.toClient = f :: rest ∧ b'.Shows { e with
        toClient := rest, client := after f, received := e.received ++ [unmarshall f] } := by
  have hto := h.toServer
  have hfrom := h.toClient
  rw [hsends, front_false] at hto
  rw [hreads, front_true] at hfrom
  have hpart := length_front_lt e.server.pc.sends b.server.marshallBuffer h.server.lt
  unfold ByteExchange.clientRead at hstep
  split at hstep
  case h_1 => cases hstep
  case h_2 buf m pipe hread =>
    obtain rfl := Option.some.inj hstep
    obtain ⟨buf', m', hcall, hlt, hle, hfrom'⟩ | ⟨buf', rest, hcall, -⟩ :=
      readCall_carries hread hfrom hpart
    · obtain ⟨rfl, rfl⟩ := CallState.running.inj hcall
      -- only the buffer and the count have changed
      refine .inl ⟨⟨⟨?_, ?_, hle, ?_⟩, h.server, ?_, ?_, h.received⟩, hlt, rfl⟩
      · rw [h.client.same]
      · intro hno
        rw [hreads] at hno
        cases hno
      · intro hno
        rw [hreads] at hno
        cases hno
      · rwa [hsends, front_false]
      · rwa [hreads, front_true]
    · cases hcall
  case h_3 ret buf pipe hread =>
    obtain rfl := Option.some.inj hstep
    obtain ⟨buf', m', hcall, -⟩ | ⟨buf', rest, hcall, hqueue, hfrom'⟩ :=
      readCall_carries hread hfrom hpart
    · cases hcall
    · obtain ⟨-, rfl⟩ := CallState.returned.inj hcall
      -- with its last byte, the frame is received and unmarshalled
      refine .inr ⟨buf, rest, hqueue, showsClient_self (after buf), h.server, ?_, ?_, ?_⟩
      · rwa [front_zero]
      · rwa [front_zero]
      · show b.received ++ [unmarshall buf] = _
        rw [h.received]

/-- **The client.**  Its system call goes on with the frame it moves, or is its next call.  The
    cases are the calls of the thread: those that send, those that read, and those that move no
    bytes. -/
theorem Shows.clientStep (h : b.Shows e) (hstep : b.clientStep room n = some b') :
    (b'.Shows e ∧ b.clientMoved < b'.clientMoved ∧ b'.serverMoved = b.serverMoved) ∨
      ∃ e', e.clientStep = some e' ∧ b'.Shows e' := by
  have hsame := h.client.same
  unfold ByteExchange.clientStep at hstep
  unfold Exchange.clientStep
  cases hpc : e.client.pc with
  | sendRequest | sendAck last =>
    have hpc' := h.client.pc.trans hpc
    simp only [hpc'] at hstep
    -- while it sends, the buffer is the one of the frames
    rw [h.client.buffer (by rw [hpc]; rfl)] at hstep
    simp only [hpc]
    exact (h.clientSend (by rw [hpc]; rfl) (by rw [hpc]; rfl) hstep).imp_right fun h' =>
      ⟨_, rfl, h'⟩
  | readAck | readBlock =>
    have hpc' := h.client.pc.trans hpc
    simp only [hpc'] at hstep
    rcases h.clientRead (by rw [hpc]; rfl) (by rw [hpc]; rfl) hstep with h' | ⟨f, rest, hq, h'⟩
    · exact .inl h'
    · -- what the thread computes from a frame does not depend on its buffer
      rw [hsame] at h'
      simp only [hpc, hq]
      exact .inr ⟨_, rfl, h'⟩
  | logStart | logEnd last | update last | closeSock | closeLog =>
    have hpc' := h.client.pc.trans hpc
    simp only [hpc'] at hstep
    obtain rfl := Option.some.inj hstep
    rw [h.client.buffer (by rw [hpc]; rfl)]
    simp only [hpc]
    exact .inr ⟨_, rfl, h.clientLocal (by rw [hpc]; rfl) (by rw [hpc]; rfl) _⟩
  | returned | assertFailed | illegalType =>
    have hpc' := h.client.pc.trans hpc
    simp only [hpc'] at hstep
    cases hstep

/-! ### The steps of the server -/

/-- After a call of the server that moves no bytes. -/
theorem Shows.serverLocal (h : b.Shows e) (hreads : e.server.pc.reads = false)
    (hsends : e.server.pc.sends = false) (s : ServerThread) :
    ({ b with server := s } : ByteExchange).Shows { e with server := s } := by
  have hzero := h.server.zero hreads hsends
  have hto := h.toClient
  have hfrom := h.toServer
  rw [hsends, front_false] at hto
  rw [hreads, front_false] at hfrom
  refine ⟨h.client, ?_, ?_, ?_, h.received⟩
  · rw [hzero]
    exact showsServer_self s
  · rw [hzero, front_zero]
    exact hfrom
  · rw [hzero, front_zero]
    exact hto

/-- A write of the server goes on with its frame, or ends it.  Both directions have the same
    argument, with the pipes exchanged. -/
theorem Shows.serverSend (h : b.Shows e) (hreads : e.server.pc.reads = false)
    (hsends : e.server.pc.sends = true) {after : ServerThread}
    (hstep : b.serverSend room n after = some b') :
    (b'.Shows e ∧ b.serverMoved < b'.serverMoved ∧ b'.clientMoved = b.clientMoved) ∨
      b'.Shows { e with toClient := e.toClient ++ [e.server.marshallBuffer], server := after } := by
  have hto := h.toClient
  have hfrom := h.toServer
  rw [hsends, front_true] at hto
  rw [hreads, front_false] at hfrom
  unfold ByteExchange.serverSend at hstep
  split at hstep
  case h_1 => cases hstep
  case h_2 buf m pipe hwrite =>
    obtain rfl := Option.some.inj hstep
    obtain ⟨m', hcall, hlt, hle, hto'⟩ | ⟨hcall, -⟩ := writeCall_carries hwrite hto
    · obtain ⟨-, rfl⟩ := CallState.running.inj hcall
      refine .inl ⟨⟨h.client, ?_, ?_, ?_, h.received⟩, hlt, rfl⟩
      · exact ⟨h.server.same, h.server.buffer, hle, fun _ hno => by rw [hsends] at hno; cases hno⟩
      · rwa [hreads, front_false]
      · rwa [hsends, front_true]
    · cases hcall
  case h_3 ret buf pipe hwrite =>
    obtain rfl := Option.some.inj hstep
    obtain ⟨m', hcall, -⟩ | ⟨-, hto'⟩ := writeCall_carries hwrite hto
    · cases hcall
    · refine .inr ⟨h.client, showsServer_self after, ?_, ?_, h.received⟩
      · rwa [front_zero]
      · rw [front_zero, ← h.server.buffer hreads]
        exact hto'

/-- A read of the server goes on with its frame, or takes it. -/
theorem Shows.serverRead (h : b.Shows e) (hreads : e.server.pc.reads = true)
    (hsends : e.server.pc.sends = false) {after : Buffer → ServerThread}
    (hstep : b.serverRead n after = some b') :
    (b'.Shows e ∧ b.serverMoved < b'.serverMoved ∧ b'.clientMoved = b.clientMoved) ∨
      ∃ f rest, e.toServer = f :: rest ∧
        b'.Shows { e with toServer := rest, server := after f } := by
  have hto := h.toClient
  have hfrom := h.toServer
  rw [hsends, front_false] at hto
  rw [hreads, front_true] at hfrom
  have hpart := length_front_lt e.client.pc.sends b.client.marshallBuffer h.client.lt
  unfold ByteExchange.serverRead at hstep
  split at hstep
  case h_1 => cases hstep
  case h_2 buf m pipe hread =>
    obtain rfl := Option.some.inj hstep
    obtain ⟨buf', m', hcall, hlt, hle, hfrom'⟩ | ⟨buf', rest, hcall, -⟩ :=
      readCall_carries hread hfrom hpart
    · obtain ⟨rfl, rfl⟩ := CallState.running.inj hcall
      refine .inl ⟨⟨h.client, ⟨?_, ?_, hle, ?_⟩, ?_, ?_, h.received⟩, hlt, rfl⟩
      · rw [h.server.same]
      · intro hno
        rw [hreads] at hno
        cases hno
      · intro hno
        rw [hreads] at hno
        cases hno
      · rwa [hreads, front_true]
      · rwa [hsends, front_false]
    · cases hcall
  case h_3 ret buf pipe hread =>
    obtain rfl := Option.some.inj hstep
    obtain ⟨buf', m', hcall, -⟩ | ⟨buf', rest, hcall, hqueue, hfrom'⟩ :=
      readCall_carries hread hfrom hpart
    · cases hcall
    · obtain ⟨-, rfl⟩ := CallState.returned.inj hcall
      refine .inr ⟨buf, rest, hqueue, h.client, showsServer_self (after buf), ?_, ?_, h.received⟩
      · rwa [front_zero]
      · rwa [front_zero]

/-- **The server.**  Its system call goes on with the frame it moves, or is its next call; what it
    opens and reads of the file is the same in both exchanges. -/
theorem Shows.serverStep {fs : FileSystem} (h : b.Shows e)
    (hstep : b.serverStep fs room n = some b') :
    (b'.Shows e ∧ b.serverMoved < b'.serverMoved ∧ b'.clientMoved = b.clientMoved) ∨
      ∃ e', e.serverStep fs = some e' ∧ b'.Shows e' := by
  have hsame := h.server.same
  unfold ByteExchange.serverStep at hstep
  unfold Exchange.serverStep
  cases hpc : e.server.pc with
  | readRequest | readAck =>
    have hpc' := h.server.pc.trans hpc
    simp only [hpc'] at hstep
    rcases h.serverRead (by rw [hpc]; rfl) (by rw [hpc]; rfl) hstep with h' | ⟨f, rest, hq, h'⟩
    · exact .inl h'
    · rw [hsame] at h'
      simp only [hpc, hq]
      exact .inr ⟨_, rfl, h'⟩
  | sendAck | sendBlock | sendComplete =>
    have hpc' := h.server.pc.trans hpc
    simp only [hpc'] at hstep
    rw [h.server.buffer (by rw [hpc]; rfl)] at hstep
    simp only [hpc]
    exact (h.serverSend (by rw [hpc]; rfl) (by rw [hpc]; rfl) hstep).imp_right fun h' =>
      ⟨_, rfl, h'⟩
  | openFile =>
    have hpc' := h.server.pc.trans hpc
    simp only [hpc'] at hstep
    rw [h.server.buffer (by rw [hpc]; rfl)] at hstep
    simp only [hpc]
    cases hfs : fs e.server.filename with
    | readable content | noOpen | noAccess =>
      simp only [hfs] at hstep
      obtain rfl := Option.some.inj hstep
      exact .inr ⟨_, rfl, h.serverLocal (by rw [hpc]; rfl) (by rw [hpc]; rfl) _⟩
  | fdopen =>
    have hpc' := h.server.pc.trans hpc
    simp only [hpc'] at hstep
    rw [h.server.buffer (by rw [hpc]; rfl)] at hstep
    simp only [hpc]
    cases hfs : fs e.server.filename with
    | readable content =>
      simp only [hfs] at hstep
      obtain rfl := Option.some.inj hstep
      exact .inr ⟨_, rfl, h.serverLocal (by rw [hpc]; rfl) (by rw [hpc]; rfl) _⟩
    | noOpen | noAccess =>
      simp only [hfs] at hstep
      cases hstep
  | access | fread | closeSock =>
    have hpc' := h.server.pc.trans hpc
    simp only [hpc'] at hstep
    obtain rfl := Option.some.inj hstep
    rw [h.server.buffer (by rw [hpc]; rfl)]
    simp only [hpc]
    exact .inr ⟨_, rfl, h.serverLocal (by rw [hpc]; rfl) (by rw [hpc]; rfl) _⟩
  | returned | assertFailed =>
    have hpc' := h.server.pc.trans hpc
    simp only [hpc'] at hstep
    cases hstep

end ByteExchange

/-! ### The refinement -/

/-- How many bytes the calls in progress have moved.  Between two steps of the frames this grows,
    which bounds the system calls. -/
def ByteExchange.bytesMoved (b : ByteExchange) : ℕ := b.clientMoved + b.serverMoved

/-- A step of bytes shows a step of frames, or moves bytes of a frame. -/
theorem byteExchange_simulates (fs : FileSystem) (room : SocketRoom) :
    ActionSystem.Refines (byteExchange fs room) (exchange fs) ByteExchange.Shows
      ByteExchange.bytesMoved (2 * sizeofProtoMsg) := by
  constructor
  · -- neither side has moved a whole frame
    intro b e h
    have hclient := h.client.lt
    have hserver := h.server.lt
    unfold ByteExchange.bytesMoved
    omega
  · rintro b ⟨side, n⟩ b' e h hstep
    unfold ByteExchange.bytesMoved
    cases side with
    | client =>
      rcases h.clientStep hstep with ⟨h', hlt, heq⟩ | ⟨e', hact, h'⟩
      · exact .inl ⟨h', by omega⟩
      · exact .inr ⟨.client, e', hact, h'⟩
    | server =>
      rcases h.serverStep hstep with ⟨h', hlt, heq⟩ | ⟨e', hact, h'⟩
      · exact .inl ⟨h', by omega⟩
      · exact .inr ⟨.server, e', hact, h'⟩

/-- **Segmentation does not matter.**  Whatever the sockets hold and however the calls cut the
    frames, a run of the bytes shows a run of the frames: the threads are where the frames have
    them, the bytes in flight are those of the frames in flight but for the parts that the calls
    in progress have moved, and the client has unmarshalled the same messages.  The run makes no
    more than a bounded number of system calls for each call of the frames. -/
theorem byteExchange_refines (fs : FileSystem) (room : SocketRoom) (sockfd : Fd)
    (clientGarbage serverGarbage : Buffer) (acts : List (Side × ℕ)) (b : ByteExchange)
    (h : (byteExchange fs room).run acts (.start sockfd clientGarbage serverGarbage) = some b) :
    ∃ sides e, (exchange fs).run sides (.start sockfd clientGarbage serverGarbage) = some e ∧
      b.Shows e ∧ acts.length ≤ 2 * sizeofProtoMsg * (sides.length + 1) := by
  obtain ⟨sides, e, hrun, hshows, hlen⟩ := (byteExchange_simulates fs room).run
    (ByteExchange.shows_start sockfd clientGarbage serverGarbage) h
  -- the calls since the last step of the frames
  have hlt := (byteExchange_simulates fs room).rank_lt hshows
  refine ⟨sides, e, hrun, hshows, ?_⟩
  rw [Nat.mul_succ]
  omega

/-- The client has written 3 bytes of its request, and the server has read 2 of them. -/
theorem byteExchange_refines_part_of_request :
    ∃ (b : ByteExchange) (sides : List Side) (e : Exchange),
      b.clientMoved = 3 ∧ b.serverMoved = 2 ∧ b.toServer.length = 1 ∧
      (exchange fun _ => .noAccess).run sides (.start 5 (.zero _) (.zero _)) = some e ∧
      b.Shows e := by
  have hsome : (((byteExchange (fun _ => .noAccess) ⟨100, 100⟩).run
      [(.client, 3), (.server, 2)] (.start 5 (.zero _) (.zero _))).any fun b =>
      decide (b.clientMoved = 3 ∧ b.serverMoved = 2 ∧ b.toServer.length = 1)) = true := by
    decide +kernel
  obtain ⟨b, hrun, hb⟩ := (Option.any_eq_true _ _).mp hsome
  obtain ⟨hclient, hserver, hlen⟩ := of_decide_eq_true hb
  obtain ⟨sides, e, hsides, hshows, -⟩ := byteExchange_refines _ _ _ _ _ _ _ hrun
  exact ⟨b, sides, e, hclient, hserver, hlen, hsides, hshows⟩

end NetworkExperiment
