import NetworkExperiment.Exchange.Bytewise

namespace NetworkExperiment

open ActionSystems ByteBuffers DescriptorTables Scripts

/-!
# How much room the exchange needs

The exchange of bytes waits where the exchange of frames does not: a `write` waits for room in the
socket.  The server never reads the last acknowledgement, so the client can return only if the
socket takes a whole frame that nobody reads; towards the client one byte is enough.

* `ByteExchange.client_enabled` / `ByteExchange.server_enabled` — when a thread can move;
* `Exchange.Inv.nothing_ahead` — the client sends into an empty channel;
* `Exchange.Inv.client_alive` — while the server sends, the client has not returned;
* `ByteExchange.Within` — the sockets hold no more than their room;
* `byteExchange_completes_iff` — the exact condition under which the exchange always completes.
-/

variable {fs : FileSystem} {room : SocketRoom} {out : FileOutcome} {n : ℕ} {b : ByteExchange}
  {e : Exchange}

/-! ### When a thread can move -/

/-- A `write` of one byte needs room for it.  One byte is the least that a call can move, so what
    holds here holds of whatever the kernel takes. -/
theorem writeCall_isSome {room moved : ℕ} (buf : Buffer) {pipe : List UInt8}
    (hmoved : moved < sizeofProtoMsg) (hroom : pipe.length < room) :
    (writeCall room 1 buf moved pipe).isSome := by
  unfold writeCall
  rw [if_pos ⟨by decide, by omega, by omega⟩]
  rfl

/-- A `read` of one byte needs one in flight. -/
theorem readCall_isSome {moved : ℕ} (buf : Buffer) {pipe : List UInt8}
    (hmoved : moved < sizeofProtoMsg) (hpipe : pipe ≠ []) :
    (readCall 1 buf moved pipe).isSome := by
  have hlen := List.length_pos_of_ne_nil hpipe
  unfold readCall
  rw [if_pos ⟨by decide, by omega, by omega⟩]
  rfl

namespace ByteExchange

/-- The client can go on in a `cmpsc311_send_bytes` as long as its socket has room, … -/
theorem clientSend_isSome {room : ℕ} {after : ClientThread}
    (hmoved : b.clientMoved < sizeofProtoMsg) (hroom : b.toServer.length < room) :
    (b.clientSend room 1 after).isSome := by
  obtain ⟨⟨call, pipe⟩, hcall⟩ := Option.isSome_iff_exists.mp
    (writeCall_isSome b.client.marshallBuffer hmoved hroom)
  unfold clientSend
  rw [hcall]
  cases call <;> rfl

/-- … and in a `cmpsc311_read_bytes` as long as something is in flight towards it. -/
theorem clientRead_isSome {after : Buffer → ClientThread} (hmoved : b.clientMoved < sizeofProtoMsg)
    (hpipe : b.toClient ≠ []) : (b.clientRead 1 after).isSome := by
  obtain ⟨⟨call, pipe⟩, hcall⟩ := Option.isSome_iff_exists.mp
    (readCall_isSome b.client.marshallBuffer hmoved hpipe)
  unfold clientRead
  rw [hcall]
  cases call <;> rfl

theorem serverSend_isSome {room : ℕ} {after : ServerThread}
    (hmoved : b.serverMoved < sizeofProtoMsg) (hroom : b.toClient.length < room) :
    (b.serverSend room 1 after).isSome := by
  obtain ⟨⟨call, pipe⟩, hcall⟩ := Option.isSome_iff_exists.mp
    (writeCall_isSome b.server.marshallBuffer hmoved hroom)
  unfold serverSend
  rw [hcall]
  cases call <;> rfl

theorem serverRead_isSome {after : Buffer → ServerThread} (hmoved : b.serverMoved < sizeofProtoMsg)
    (hpipe : b.toServer ≠ []) : (b.serverRead 1 after).isSome := by
  obtain ⟨⟨call, pipe⟩, hcall⟩ := Option.isSome_iff_exists.mp
    (readCall_isSome b.server.marshallBuffer hmoved hpipe)
  unfold serverRead
  rw [hcall]
  cases call <;> rfl

/-- The client can move unless it has returned, has no room to send into or nothing to read. -/
theorem client_enabled {room m S R k : ℕ} (h : b.Shows e) (hat : e.client.At m S R k)
    (hret : e.client.pc ≠ .returned) (hsend : e.client.pc.sends = true → b.toServer.length < room)
    (hread : e.client.pc.reads = true → b.toClient ≠ []) : (b.clientStep room 1).isSome := by
  have hmoved := h.client.lt
  unfold ByteExchange.clientStep
  cases hpc : e.client.pc with
  | sendRequest | sendAck last =>
    simp only [h.client.pc.trans hpc]
    exact clientSend_isSome hmoved (hsend (by rw [hpc]; rfl))
  | readAck | readBlock =>
    simp only [h.client.pc.trans hpc]
    exact clientRead_isSome hmoved (hread (by rw [hpc]; rfl))
  | logStart | logEnd last | update last | closeSock | closeLog =>
    -- neither a `read` nor a `write` of the socket
    simp only [h.client.pc.trans hpc]
    rfl
  | returned => exact absurd hpc hret
  | assertFailed | illegalType =>
    -- no thread of the protocol is here
    simp [ClientThread.At, hpc] at hat

/-- The server can move unless it has returned, has no room to send into or nothing to read. -/
theorem server_enabled {room S R k : ℕ} (h : b.Shows e)
    (hat : e.server.At (fs requestedName) S R k) (hret : e.server.pc ≠ .returned)
    (hsend : e.server.pc.sends = true → b.toClient.length < room)
    (hread : e.server.pc.reads = true → b.toServer ≠ []) : (b.serverStep fs room 1).isSome := by
  have hmoved := h.server.lt
  unfold ByteExchange.serverStep
  cases hpc : e.server.pc with
  | sendAck | sendBlock | sendComplete =>
    simp only [h.server.pc.trans hpc]
    exact serverSend_isSome hmoved (hsend (by rw [hpc]; rfl))
  | readRequest | readAck =>
    simp only [h.server.pc.trans hpc]
    exact serverRead_isSome hmoved (hread (by rw [hpc]; rfl))
  | openFile =>
    simp only [h.server.pc.trans hpc]
    split <;> rfl
  | fdopen =>
    -- `open` has found the file
    simp only [ServerThread.At, hpc] at hat
    obtain ⟨-, -, -, hname, content, hout⟩ := hat
    have hname' : b.server.filename = requestedName := by rw [h.server.same, ← hname]
    simp only [h.server.pc.trans hpc, hname', hout]
    rfl
  | access | fread | closeSock =>
    simp only [h.server.pc.trans hpc]
    rfl
  | returned => exact absurd hpc hret
  | assertFailed => simp [ServerThread.At, hpc] at hat

/-! ### Where the other side is -/

/-- The bytes of no frame are only those that a call in progress has moved: fewer than a frame
    has, as a call that has moved them all has returned. -/
theorem length_lt_of_no_frame {queue : List Buffer} {moved : ℕ} {moves : Bool} {buf : Buffer}
    {pipe got : List UInt8} (h : Carries queue (front moves buf moved) pipe got)
    (hqueue : queue = []) (hmoved : moved < sizeofProtoMsg) : pipe.length < sizeofProtoMsg := by
  have hlen := h.length
  have hfront := length_front_lt moves buf hmoved
  rw [hqueue, List.length_nil] at hlen
  omega

end ByteExchange

/-- The client sends into an empty channel: it waits for the server's answer to each of its
    messages. -/
theorem Exchange.Inv.nothing_ahead (h : e.Inv out n) (hsends : e.client.pc.sends = true) :
    e.toServer = [] := by
  obtain ⟨S, R, k, S', R', k', hs, hc, hRS, hRS', -, -, hto, -⟩ := h
  have hcounts := hs.counts
  -- before each of its messages it has received the answer to the last one, so the server
  -- has read all that was sent
  have hle : S' ≤ R := by
    cases hpc : e.client.pc with
    | sendRequest =>
      simp only [ClientThread.At, hpc] at hc
      omega
    | sendAck last =>
      cases last with
      | false =>
        simp only [ClientThread.At, hpc] at hc
        -- an acknowledgement of block `i`, for which the server waits
        obtain ⟨i, hi, rfl, rfl, -⟩ := hc
        omega
      | true =>
        simp only [ClientThread.At, hpc] at hc
        omega
    | readAck | logStart | readBlock | logEnd last | update last | closeSock | closeLog | returned
    | assertFailed | illegalType =>
      rw [hpc] at hsends
      cases hsends
  rw [hto]
  apply List.eq_nil_of_length_eq_zero
  rw [length_segment]
  omega

/-- While the server has something to send, the client has not returned: it returns behind
    `FILE_COMPLETE` only, the last message there is. -/
theorem Exchange.Inv.client_alive (h : e.Inv out n) (hsends : e.server.pc.sends = true) :
    e.client.pc ≠ .returned := by
  obtain ⟨S, R, k, S', R', k', hs, hc, hRS, hRS', -⟩ := h
  intro hpc
  simp only [ClientThread.At, hpc] at hc
  cases hpc' : e.server.pc with
  | sendAck =>
    simp only [ServerThread.At, hpc'] at hs
    omega
  | sendBlock =>
    simp only [ServerThread.At, hpc'] at hs
    obtain ⟨content, j, hout, rfl, -, -, -, hlt, -⟩ := hs
    -- a block is still to come, so the client has received fewer messages than there are
    have hj := hout ▸ FileOutcome.lt_blocks_iff.mpr hlt
    omega
  | sendComplete =>
    simp only [ServerThread.At, hpc'] at hs
    omega
  | readRequest | access | openFile | fdopen | fread | readAck | closeSock | returned
  | assertFailed =>
    rw [hpc'] at hsends
    cases hsends

/-- A thread that has returned, or waits for a frame that is not there, does nothing. -/
theorem Exchange.clientStep_eq_none
    (h : e.client.pc = .returned ∨ e.client.pc.reads = true ∧ e.toClient = []) :
    e.clientStep = none := by
  unfold Exchange.clientStep
  rcases h with hpc | ⟨hreads, hnil⟩
  · simp only [hpc]
  · cases hpc : e.client.pc with
    | readAck | readBlock => simp only [hpc, hnil]
    | sendRequest | logStart | sendAck last | logEnd last | update last | closeSock | closeLog
    | returned | assertFailed | illegalType =>
      rw [hpc] at hreads
      cases hreads

/-- So does the server. -/
theorem Exchange.serverStep_eq_none
    (h : e.server.pc = .returned ∨ e.server.pc.reads = true ∧ e.toServer = []) :
    e.serverStep fs = none := by
  unfold Exchange.serverStep
  rcases h with hpc | ⟨hreads, hnil⟩
  · simp only [hpc]
  · cases hpc : e.server.pc with
    | readRequest | readAck => simp only [hpc, hnil]
    | sendAck | access | openFile | fdopen | fread | sendBlock | sendComplete | closeSock | returned
    | assertFailed =>
      rw [hpc] at hreads
      cases hreads

/-- No byte in flight and no part of a frame sent: no frame in flight. -/
theorem no_frame_of_empty {queue : List Buffer} {moved : ℕ} {moves : Bool} {buf : Buffer}
    {pipe : List UInt8} (h : Carries queue [] pipe (front moves buf moved)) (hpipe : pipe = [])
    (hmoved : moved < sizeofProtoMsg) : queue = [] := by
  have hlen := h.length
  have hfront := length_front_lt moves buf hmoved
  rw [hpipe, List.length_nil] at hlen
  apply List.eq_nil_of_length_eq_zero
  -- one frame in flight would be more bytes than a call in progress can have moved
  by_contra hne
  have hmul := Nat.mul_le_mul_left sizeofProtoMsg (Nat.pos_of_ne_zero hne)
  omega

theorem ClientPc.sends_of_reads {pc : ClientPc} (h : pc = .returned ∨ pc.reads = true) :
    pc.sends = false := by
  cases pc <;> simp_all [ClientPc.sends, ClientPc.reads]

theorem ServerPc.sends_of_reads {pc : ServerPc} (h : pc = .returned ∨ pc.reads = true) :
    pc.sends = false := by
  cases pc <;> simp_all [ServerPc.sends, ServerPc.reads]

/-! ### Progress -/

/-- With room for a frame towards the server and for a byte towards the client, one of the threads
    can move until both have returned.  Were both to wait, the exchange of frames would be stuck as
    well, and it is not. -/
theorem ByteExchange.Shows.enabled (h : b.Shows e) (hinv : e.Inv (fs requestedName) n)
    (htoServer : sizeofProtoMsg ≤ room.toServer) (htoClient : 0 < room.toClient)
    (hret : ¬ (e.client.pc = .returned ∧ e.server.pc = .returned)) :
    ∃ a, ((byteExchange fs room).act b a).isSome := by
  by_contra hstuck
  have hclient : ¬ (b.clientStep room.toServer 1).isSome := fun h' => hstuck ⟨(.client, 1), h'⟩
  have hserver : ¬ (b.serverStep fs room.toClient 1).isSome := fun h' => hstuck ⟨(.server, 1), h'⟩
  -- the exchange of frames can go on with `a`
  obtain ⟨a, ha⟩ := hinv.enabled hret
  have hahead := hinv.nothing_ahead
  have halive := hinv.client_alive
  obtain ⟨S, R, k, S', R', k', hs, hc, -⟩ := hinv
  -- the client always has room, so it has returned or waits for a byte
  have hcw : e.client.pc = .returned ∨ e.client.pc.reads = true ∧ b.toClient = [] := by
    by_contra hno
    rw [not_or, not_and] at hno
    refine hclient (client_enabled h hc hno.1 (fun hsends => ?_) hno.2)
    exact (length_lt_of_no_frame h.toServer (hahead hsends) h.client.lt).trans_le htoServer
  -- so the server has room as well
  have hsw : e.server.pc = .returned ∨ e.server.pc.reads = true ∧ b.toServer = [] := by
    by_contra hno
    rw [not_or, not_and] at hno
    refine hserver (server_enabled h hs hno.1 (fun hsends => ?_) hno.2)
    rcases hcw with hpc | ⟨-, hnil⟩
    · exact absurd hpc (halive hsends)
    · rw [hnil]
      exact htoClient
  -- and the frames can go no further
  have hto := h.toServer
  have hfrom := h.toClient
  rw [ClientPc.sends_of_reads (hcw.imp_right And.left), front_false] at hto
  rw [ServerPc.sends_of_reads (hsw.imp_right And.left), front_false] at hfrom
  cases a with
  | client =>
    rw [exchange_act_client, Exchange.clientStep_eq_none (hcw.imp_right fun hw =>
      ⟨hw.1, no_frame_of_empty hfrom hw.2 h.client.lt⟩)] at ha
    cases ha
  | server =>
    rw [exchange_act_server, Exchange.serverStep_eq_none (hsw.imp_right fun hw =>
      ⟨hw.1, no_frame_of_empty hto hw.2 h.server.lt⟩)] at ha
    cases ha

/-! ### What the sockets hold -/

/-- The sockets hold no more than their room, and nothing comes through one without.  That is what
    a run with less room than is needed keeps, and why it cannot be complete. -/
structure ByteExchange.Within (room : SocketRoom) (b : ByteExchange) : Prop where
  toServer : b.toServer.length ≤ room.toServer
  toClient : b.toClient.length ≤ room.toClient
  received : room.toClient = 0 → b.received = []

/-- A `write` leaves no more in the socket than there is room for. -/
theorem writeCall_within {room n moved : ℕ} {buf : Buffer} {pipe pipe' : List UInt8}
    {call : CallState sizeofProtoMsg} (h : writeCall room n buf moved pipe = some (call, pipe')) :
    pipe'.length ≤ room := by
  unfold writeCall at h
  split_ifs at h with hn
  obtain ⟨-, rfl⟩ := Prod.mk.inj (Option.some.inj h)
  rw [List.length_append, List.length_take]
  omega

/-- A `read` that returns has found something, and puts nothing back. -/
theorem readCall_within {n moved : ℕ} {buf : Buffer} {pipe pipe' : List UInt8}
    {call : CallState sizeofProtoMsg} (h : readCall n buf moved pipe = some (call, pipe')) :
    0 < pipe.length ∧ pipe'.length ≤ pipe.length := by
  unfold readCall at h
  split_ifs at h with hn
  obtain ⟨-, rfl⟩ := Prod.mk.inj (Option.some.inj h)
  rw [List.length_drop]
  omega

namespace ByteExchange

variable {b' : ByteExchange}

theorem Within.clientStep (h : b.Within room) (hstep : b.clientStep room.toServer n = some b') :
    b'.Within room := by
  -- the two calls that move bytes, wherever the client makes them
  have hsend : ∀ {after : ClientThread}, b.clientSend room.toServer n after = some b' →
      b'.Within room := by
    intro after hsend
    unfold clientSend at hsend
    split at hsend
    case h_1 => cases hsend
    case h_2 | h_3 =>
      rename_i hwrite
      obtain rfl := Option.some.inj hsend
      exact ⟨writeCall_within hwrite, h.toClient, h.received⟩
  have hread : ∀ {after : Buffer → ClientThread}, b.clientRead n after = some b' →
      b'.Within room := by
    intro after hread
    unfold clientRead at hread
    split at hread
    case h_1 => cases hread
    case h_2 | h_3 =>
      rename_i hcall
      have hlen := readCall_within hcall
      have hroom := h.toClient
      obtain rfl := Option.some.inj hread
      exact ⟨h.toServer, hlen.2.trans hroom, fun hzero => by omega⟩
  unfold ByteExchange.clientStep at hstep
  cases hpc : b.client.pc with
  | sendRequest | sendAck last =>
    simp only [hpc] at hstep
    exact hsend hstep
  | readAck | readBlock =>
    simp only [hpc] at hstep
    exact hread hstep
  | logStart | logEnd last | update last | closeSock | closeLog =>
    simp only [hpc] at hstep
    obtain rfl := Option.some.inj hstep
    exact ⟨h.toServer, h.toClient, h.received⟩
  | returned | assertFailed | illegalType =>
    simp only [hpc] at hstep
    cases hstep

theorem Within.serverStep (h : b.Within room) (hstep : b.serverStep fs room.toClient n = some b') :
    b'.Within room := by
  -- as for the client, only that the server receives nothing in `received`
  have hsend : ∀ {after : ServerThread}, b.serverSend room.toClient n after = some b' →
      b'.Within room := by
    intro after hsend
    unfold serverSend at hsend
    split at hsend
    case h_1 => cases hsend
    case h_2 | h_3 =>
      rename_i hwrite
      obtain rfl := Option.some.inj hsend
      exact ⟨h.toServer, writeCall_within hwrite, h.received⟩
  have hread : ∀ {after : Buffer → ServerThread}, b.serverRead n after = some b' →
      b'.Within room := by
    intro after hread
    unfold serverRead at hread
    split at hread
    case h_1 => cases hread
    case h_2 | h_3 =>
      rename_i hcall
      obtain rfl := Option.some.inj hread
      exact ⟨(readCall_within hcall).2.trans h.toServer, h.toClient, h.received⟩
  unfold ByteExchange.serverStep at hstep
  cases hpc : b.server.pc with
  | sendAck | sendBlock | sendComplete =>
    simp only [hpc] at hstep
    exact hsend hstep
  | readRequest | readAck =>
    simp only [hpc] at hstep
    exact hread hstep
  | openFile =>
    simp only [hpc] at hstep
    cases hfs : fs b.server.filename with
    | readable content | noOpen | noAccess =>
      simp only [hfs] at hstep
      obtain rfl := Option.some.inj hstep
      exact ⟨h.toServer, h.toClient, h.received⟩
  | fdopen =>
    simp only [hpc] at hstep
    cases hfs : fs b.server.filename with
    | readable content =>
      simp only [hfs] at hstep
      obtain rfl := Option.some.inj hstep
      exact ⟨h.toServer, h.toClient, h.received⟩
    | noOpen | noAccess =>
      simp only [hfs] at hstep
      cases hstep
  | access | fread | closeSock =>
    simp only [hpc] at hstep
    obtain rfl := Option.some.inj hstep
    exact ⟨h.toServer, h.toClient, h.received⟩
  | returned | assertFailed =>
    simp only [hpc] at hstep
    cases hstep

/-- **Step lemma.**  No step of either side puts more into a socket than it has room for. -/
theorem within_step (fs : FileSystem) (room : SocketRoom) :
    (byteExchange fs room).Invariant (Within room) := by
  rintro b ⟨side, n⟩ b' h hstep
  cases side with
  | client => exact h.clientStep hstep
  | server => exact h.serverStep hstep

end ByteExchange

/-! ### The runs -/

section Runs

variable (fs : FileSystem) (room : SocketRoom) (sockfd : Fd) (clientGarbage serverGarbage : Buffer)

/-- What a run reaches: a state within the room that shows a state of the exchange of frames, of
    which the invariant is known. -/
theorem ByteExchange.shows_reaches
    (h : (byteExchange fs room).Reaches (.start sockfd clientGarbage serverGarbage) b) :
    b.Within room ∧ ∃ e n, b.Shows e ∧ e.Inv (fs requestedName) n := by
  obtain ⟨acts, hrun⟩ := h
  obtain ⟨sides, e, hsides, hshows, -⟩ := (byteExchange_simulates fs room).run
    (ByteExchange.shows_start sockfd clientGarbage serverGarbage) hrun
  have hstart : (ByteExchange.start sockfd clientGarbage serverGarbage).Within room :=
    ⟨Nat.zero_le _, Nat.zero_le _, fun _ => rfl⟩
  exact ⟨(ByteExchange.within_step fs room).run hstart hrun, e, _, hshows,
    Exchange.inv_run hsides⟩

/-- No run makes more system calls than this. -/
theorem ByteExchange.run_length_le (acts : List (Side × ℕ)) (b : ByteExchange)
    (h : (byteExchange fs room).run acts (.start sockfd clientGarbage serverGarbage) = some b) :
    acts.length ≤ 2 * sizeofProtoMsg * (17 + 8 * (fs requestedName).blocks)
      + 2 * sizeofProtoMsg :=
  (byteExchange_simulates fs room).length_le
    (ByteExchange.shows_start sockfd clientGarbage serverGarbage)
    (Exchange.run_length_le fs sockfd clientGarbage serverGarbage) h

/-- When both functions have returned, a whole frame has not been read: the acknowledgement of
    `FILE_COMPLETE`, which the server does not wait for. -/
theorem ByteExchange.Shows.length_of_returned (h : b.Shows e) (hinv : e.Inv out n)
    (hclient : e.client.pc = .returned) (hserver : e.server.pc = .returned) :
    b.toServer.length = sizeofProtoMsg := by
  obtain ⟨S, R, k, S', R', k', hs, hc, -, -, -, -, hto, -⟩ := hinv
  simp only [ServerThread.At, hserver] at hs
  simp only [ClientThread.At, hclient] at hc
  -- one frame more is sent than read, and neither side is inside one
  have hlen := h.toServer.length
  rw [hclient, hserver, show ClientPc.returned.sends = false from rfl,
    show ServerPc.returned.reads = false from rfl, front_false, front_false, hto,
    length_segment, show S' - R = 1 by omega, List.length_nil] at hlen
  omega

/-- **The exchange on sockets of limited room.**  No `read` or `write` fails here.  No run is
    infinite and no assertion fails, whatever the sockets hold.  Every run that can go no further
    has ended with both functions returned and every message received if and only if the socket
    towards the server takes a whole frame, and the one towards the client a byte. -/
theorem byteExchange_completes_iff :
    (¬ ∃ f, f 0 = ByteExchange.start sockfd clientGarbage serverGarbage ∧
      (byteExchange fs room).InfiniteRun f) ∧
    (∀ b, (byteExchange fs room).Reaches (.start sockfd clientGarbage serverGarbage) b →
      b.server.pc ≠ .assertFailed ∧ b.client.pc ≠ .assertFailed ∧ b.client.pc ≠ .illegalType) ∧
    ((∀ b, (byteExchange fs room).Reaches (.start sockfd clientGarbage serverGarbage) b →
      (byteExchange fs room).Stuck b →
        b.client.pc = .returned ∧ b.server.pc = .returned ∧
        b.received = .blank .reqAck ::
          (List.replicate (fs requestedName).blocks (.blank .fileBlock)
            ++ [.blank .fileComplete])) ↔
      sizeofProtoMsg ≤ room.toServer ∧ 0 < room.toClient) := by
  have hbound := ByteExchange.run_length_le fs room sockfd clientGarbage serverGarbage
  refine ⟨ActionSystem.no_infinite_run hbound, fun b hb => ?_, fun hall => ?_, fun hroom b hb => ?_⟩
  · obtain ⟨-, e, n, hshows, hinv⟩ := ByteExchange.shows_reaches fs room _ _ _ hb
    rw [hshows.client.pc, hshows.server.pc]
    exact hinv.no_failure
  · -- there is a run that can go no further
    obtain ⟨b, hb, hstuck⟩ := ActionSystem.exists_stuck_of_bounded hbound (.refl _ _)
    obtain ⟨hclient, hserver, hrecv⟩ := hall b hb hstuck
    obtain ⟨hwithin, e, n, hshows, hinv⟩ := ByteExchange.shows_reaches fs room _ _ _ hb
    rw [hshows.client.pc] at hclient
    rw [hshows.server.pc] at hserver
    -- it has returned, so the unread frame is in the one socket and messages came by the other
    refine ⟨?_, Nat.pos_of_ne_zero fun hzero => ?_⟩
    · rw [← hshows.length_of_returned hinv hclient hserver]
      exact hwithin.toServer
    · rw [hwithin.received hzero] at hrecv
      cases hrecv
  · intro hstuck
    obtain ⟨-, e, n, hshows, hinv⟩ := ByteExchange.shows_reaches fs room _ _ _ hb
    -- otherwise a thread could move
    have hret : e.client.pc = .returned ∧ e.server.pc = .returned := by
      by_contra hno
      obtain ⟨a, ha⟩ := hshows.enabled hinv hroom.1 hroom.2 hno
      rw [hstuck a] at ha
      cases ha
    rw [hshows.client.pc, hshows.server.pc, hshows.received]
    exact ⟨hret.1, hret.2, hinv.received_of_returned hret.1⟩

end Runs

end NetworkExperiment
