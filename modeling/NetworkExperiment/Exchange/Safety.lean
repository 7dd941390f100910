import NetworkExperiment.Exchange.Protocol

namespace NetworkExperiment

open ActionSystems ByteBuffers DescriptorTables Scripts

/-!
# One exchange — safety, progress and completion

What the invariant of the protocol says about the runs of an exchange.

* `Exchange.Inv.no_failure` — no assertion fails and the `default` branch is not reached;
* `Exchange.Inv.in_flight` — how far one side can be ahead of the other;
* `Exchange.Inv.enabled` — whoever waits, the other side can move;
* `Exchange.Inv.steps_le` — a bound on the number of calls, so every run ends;
* `exchange_safe_and_complete` — the four together, with what the client has received when
  the run can go no further.
-/

variable {out : FileOutcome} {n : ℕ} {e : Exchange}

/-! ### Counts -/

/-- The server is at most one message ahead of the answers it has received, and its calls are
    bounded by the number of blocks. -/
theorem ServerThread.At.counts {S R k : ℕ} {s : ServerThread} (h : s.At out S R k) :
    S ≤ R + 1 ∧ k ≤ 8 + 3 * out.blocks := by
  unfold ServerThread.At at h
  split at h
  case h_6 =>
    obtain ⟨content, j, rfl, rfl, rfl, rfl, -, hle⟩ := h
    simp only [FileOutcome.blocks, maxBlockSize] at *
    omega
  case h_7 =>
    obtain ⟨content, j, rfl, rfl, rfl, rfl, -, hlt, -⟩ := h
    have := FileOutcome.lt_blocks_iff.mpr hlt
    omega
  case h_8 =>
    obtain ⟨content, j, rfl, rfl, rfl, rfl, -, hlt⟩ := h
    have := FileOutcome.lt_blocks_iff.mpr hlt
    omega
  case h_12 => exact h.elim
  all_goals omega

/-- The client never sends ahead of what it has received, the request apart. -/
theorem ClientThread.At.counts {m S R k : ℕ} {c : ClientThread} (h : c.At m S R k) :
    (S ≤ R ∨ S = 1 ∧ R = 0) ∧ R ≤ 2 + m ∧ k ≤ 9 + 5 * m := by
  unfold ClientThread.At at h
  split at h
  case h_3 | h_4 =>
    obtain ⟨i, hi, rfl, rfl, rfl, -⟩ := h
    omega
  case h_5 =>
    obtain ⟨i, hi, rfl, rfl, rfl, -, -⟩ := h
    omega
  case h_6 | h_7 =>
    obtain ⟨i, hi, rfl, rfl, rfl, -⟩ := h
    omega
  case h_14 | h_15 => exact h.elim
  all_goals omega

/-! ### What the invariant gives -/

/-- **(a)** No assertion on a message type fails, and the client's `default` branch is not
    reached. -/
theorem Exchange.Inv.no_failure (h : e.Inv out n) :
    e.server.pc ≠ .assertFailed ∧ e.client.pc ≠ .assertFailed ∧ e.client.pc ≠ .illegalType := by
  obtain ⟨S, R, k, S', R', k', hs, hc, -⟩ := h
  refine ⟨?_, ?_, ?_⟩ <;> intro hpc
  · simp [ServerThread.At, hpc] at hs
  · simp [ClientThread.At, hpc] at hc
  · simp [ClientThread.At, hpc] at hc

/-- **(c)** At most two frames on the way to the client and one on the way to the server. -/
theorem Exchange.Inv.in_flight (h : e.Inv out n) :
    e.toClient.length ≤ 2 ∧ e.toServer.length ≤ 1 := by
  obtain ⟨S, R, k, S', R', k', hs, hc, hRS, hRS', -, hto, hfrom, -⟩ := h
  have hserver := hs.counts
  have hclient := hc.counts
  rw [hto, hfrom, length_segment, length_segment]
  omega

/-- The server can make its next call unless it waits for a frame or has ended. -/
theorem Exchange.server_enabled {fs : FileSystem} {S R k : ℕ}
    (hs : e.server.At (fs requestedName) S R k)
    (hwait : e.server.pc = .readRequest ∨ e.server.pc = .readAck → e.toServer ≠ [])
    (hret : e.server.pc ≠ .returned) : (e.serverStep fs).isSome := by
  unfold serverStep
  cases hpc : e.server.pc with
  | readRequest =>
    obtain ⟨f, rest, hq⟩ := List.exists_cons_of_ne_nil (hwait (.inl hpc))
    simp [hpc, hq]
  | readAck =>
    obtain ⟨f, rest, hq⟩ := List.exists_cons_of_ne_nil (hwait (.inr hpc))
    simp [hpc, hq]
  | openFile =>
    simp only [hpc]
    split <;> rfl
  | fdopen =>
    simp only [ServerThread.At, hpc] at hs
    obtain ⟨-, -, -, hname, content, hout⟩ := hs
    simp [hpc, hname, hout]
  | assertFailed => simp [ServerThread.At, hpc] at hs
  | returned => exact absurd hpc hret
  | sendAck | access | fread | sendBlock | sendComplete | closeSock => simp [hpc]

/-- The client can make its next call unless it waits for a frame or has ended. -/
theorem Exchange.client_enabled {m S R k : ℕ} (hc : e.client.At m S R k)
    (hwait : e.client.pc = .readAck ∨ e.client.pc = .readBlock → e.toClient ≠ [])
    (hret : e.client.pc ≠ .returned) : e.clientStep.isSome := by
  unfold clientStep
  cases hpc : e.client.pc with
  | readAck =>
    obtain ⟨f, rest, hq⟩ := List.exists_cons_of_ne_nil (hwait (.inl hpc))
    simp [hpc, hq]
  | readBlock =>
    obtain ⟨f, rest, hq⟩ := List.exists_cons_of_ne_nil (hwait (.inr hpc))
    simp [hpc, hq]
  | assertFailed | illegalType => simp [ClientThread.At, hpc] at hc
  | returned => exact absurd hpc hret
  | sendRequest | logStart | sendAck | logEnd | update | closeSock | closeLog => simp [hpc]

/-- **(b)** As long as not both functions have returned, one side can make its next call: the
    two sides never wait for each other. -/
theorem Exchange.Inv.enabled {fs : FileSystem} (h : e.Inv (fs requestedName) n)
    (hret : ¬ (e.client.pc = .returned ∧ e.server.pc = .returned)) :
    ∃ a, ((exchange fs).act e a).isSome := by
  obtain ⟨S, R, k, S', R', k', hs, hc, hRS, hRS', -, hto, hfrom, -⟩ := h
  by_contra hstuck
  have hserver : ¬ (e.serverStep fs).isSome := fun hsome => hstuck ⟨.server, hsome⟩
  have hclient : ¬ e.clientStep.isSome := fun hsome => hstuck ⟨.client, hsome⟩
  -- the server waits on an empty channel, or has returned
  have hsw : ((e.server.pc = .readRequest ∨ e.server.pc = .readAck) ∧ S' ≤ R) ∨
      e.server.pc = .returned := by
    by_contra hno
    rw [not_or, not_and] at hno
    refine hserver (server_enabled hs (fun hpc hnil => hno.1 hpc ?_) hno.2)
    exact le_of_segment_eq_nil _ (hfrom ▸ hnil)
  -- and so does the client
  have hcw : ((e.client.pc = .readAck ∨ e.client.pc = .readBlock) ∧ S ≤ R') ∨
      e.client.pc = .returned := by
    by_contra hno
    rw [not_or, not_and] at hno
    refine hclient (client_enabled hc (fun hpc hnil => hno.1 hpc ?_) hno.2)
    exact le_of_segment_eq_nil _ (hto ▸ hnil)
  -- where the threads are, the counts contradict each other
  rcases hsw with ⟨hpc | hpc, hSR⟩ | hpc <;> simp only [ServerThread.At, hpc] at hs <;>
    rcases hcw with ⟨hpc' | hpc', hSR'⟩ | hpc' <;> simp only [ClientThread.At, hpc'] at hc
  case inl.inl.inl.inl => omega
  case inl.inl.inl.inr => obtain ⟨i, hi, rfl, rfl, -⟩ := hc; omega
  case inl.inl.inr => omega
  case inl.inr.inl.inl => obtain ⟨content, j, -, rfl, rfl, -⟩ := hs; omega
  case inl.inr.inl.inr =>
    obtain ⟨content, j, -, rfl, rfl, -⟩ := hs
    obtain ⟨i, hi, rfl, rfl, -⟩ := hc
    omega
  case inl.inr.inr =>
    obtain ⟨content, j, hout, rfl, rfl, -, -, hlt⟩ := hs
    have := hout ▸ FileOutcome.lt_blocks_iff.mpr hlt
    omega
  case inr.inl.inl => omega
  case inr.inl.inr => obtain ⟨i, hi, rfl, rfl, -⟩ := hc; omega
  case inr.inr => exact hret ⟨hpc', hpc⟩

/-- A bound on the number of calls the two sides make together. -/
theorem Exchange.Inv.steps_le (h : e.Inv out n) : n ≤ 17 + 8 * out.blocks := by
  obtain ⟨S, R, k, S', R', k', hs, hc, -, -, hn, -⟩ := h
  have hserver := hs.counts
  have hclient := hc.counts
  omega

/-- What the client has unmarshalled when both functions have returned. -/
theorem Exchange.Inv.received_of_returned (h : e.Inv out n) (hret : e.client.pc = .returned) :
    e.received = .blank .reqAck ::
      (List.replicate out.blocks (.blank .fileBlock) ++ [.blank .fileComplete]) := by
  obtain ⟨S, R, k, S', R', k', hs, hc, -, -, -, -, -, hrecv⟩ := h
  simp only [ClientThread.At, hret] at hc
  obtain ⟨-, rfl, -⟩ := hc
  rw [hrecv, show 2 + out.blocks = (out.blocks + 1) + 1 by omega, taken_succ, taken,
    List.range_succ_eq_map, List.map_cons, List.map_map, serverScript_zero]
  rw [List.cons_append, show out.blocks + 1 = 1 + out.blocks by omega, serverScript_last]
  congr 2
  apply List.ext_getElem
  · simp
  · intro i hi hi'
    have hlt : i < out.blocks := by simpa using hi
    simp only [List.getElem_map, List.getElem_range, Function.comp_apply, List.getElem_replicate]
    rw [Nat.succ_eq_add_one, Nat.add_comm, serverScript_of_lt hlt]

/-! ### The runs of an exchange -/

section Runs

variable (fs : FileSystem) (sockfd : Fd) (clientGarbage serverGarbage : Buffer)

/-- What a run from the start reaches satisfies the invariant. -/
theorem Exchange.inv_reaches
    (h : (exchange fs).Reaches (.start sockfd clientGarbage serverGarbage) e) :
    ∃ n, e.Inv (fs requestedName) n := by
  obtain ⟨acts, hrun⟩ := h
  exact ⟨_, Exchange.inv_run hrun⟩

/-- No run is longer than the bound. -/
theorem Exchange.run_length_le (acts : List Side) (e : Exchange)
    (h : (exchange fs).run acts (.start sockfd clientGarbage serverGarbage) = some e) :
    acts.length ≤ 17 + 8 * (fs requestedName).blocks :=
  (Exchange.inv_run h).steps_le

/-- A run that can go no further has ended with both functions returned. -/
theorem Exchange.returned_of_stuck
    (h : (exchange fs).Reaches (.start sockfd clientGarbage serverGarbage) e)
    (hstuck : (exchange fs).Stuck e) : e.client.pc = .returned ∧ e.server.pc = .returned := by
  obtain ⟨n, hinv⟩ := Exchange.inv_reaches fs sockfd clientGarbage serverGarbage h
  by_contra hret
  obtain ⟨a, ha⟩ := hinv.enabled hret
  rw [hstuck a] at ha
  cases ha

/-- A complete exchange exists. -/
theorem Exchange.exists_complete :
    ∃ e, (exchange fs).Reaches (.start sockfd clientGarbage serverGarbage) e ∧
      e.client.pc = .returned ∧ e.server.pc = .returned := by
  obtain ⟨e, hreach, hstuck⟩ := ActionSystem.exists_stuck_of_bounded
    (Exchange.run_length_le fs sockfd clientGarbage serverGarbage) (.refl _ _)
  exact ⟨e, hreach, Exchange.returned_of_stuck fs sockfd clientGarbage serverGarbage hreach hstuck⟩

/-- **Safety, deadlock freedom and completion.**  For every outcome at the file system and every
    interleaving of the two sides: (a) no message-type assertion fails and the client's
    `default` branch is not reached; (b) a state in which not both functions have returned has
    an enabled step; (c) at most two frames are on the way to the client and one to the server;
    (d) every run ends, and one that can go no further has given the client `REQ_ACK`, then one
    `FILE_BLOCK` for each block of the file, then `FILE_COMPLETE`. -/
theorem exchange_safe_and_complete :
    (∀ e, (exchange fs).Reaches (.start sockfd clientGarbage serverGarbage) e →
      (e.server.pc ≠ .assertFailed ∧ e.client.pc ≠ .assertFailed ∧ e.client.pc ≠ .illegalType) ∧
      (¬ (e.client.pc = .returned ∧ e.server.pc = .returned) →
        ∃ a, ((exchange fs).act e a).isSome) ∧
      (e.toClient.length ≤ 2 ∧ e.toServer.length ≤ 1) ∧
      ((exchange fs).Stuck e →
        e.received.map ProtoMsg.msgType = ProtoType.reqAck.code ::
          (List.replicate (fs requestedName).blocks ProtoType.fileBlock.code
            ++ [ProtoType.fileComplete.code]))) ∧
    ¬ ∃ f, f 0 = Exchange.start sockfd clientGarbage serverGarbage ∧
      (exchange fs).InfiniteRun f := by
  refine ⟨fun e hreach => ?_, ActionSystem.no_infinite_run
    (Exchange.run_length_le fs sockfd clientGarbage serverGarbage)⟩
  obtain ⟨n, hinv⟩ := Exchange.inv_reaches fs sockfd clientGarbage serverGarbage hreach
  refine ⟨hinv.no_failure, hinv.enabled, hinv.in_flight, fun hstuck => ?_⟩
  have hret := Exchange.returned_of_stuck fs sockfd clientGarbage serverGarbage hreach hstuck
  rw [hinv.received_of_returned hret.1]
  simp

end Runs

theorem exchange_safe_and_complete_one_block :
    ∃ e, (exchange fun _ => .readable [0x41]).Reaches
        (.start 4 (.zero sizeofProtoMsg) (.zero sizeofProtoMsg)) e ∧
      e.received.map ProtoMsg.msgType
        = [ProtoType.reqAck.code, ProtoType.fileBlock.code, ProtoType.fileComplete.code] := by
  obtain ⟨e, hreach, hstuck⟩ := ActionSystem.exists_stuck_of_bounded
    (Exchange.run_length_le (fun _ => .readable [0x41]) 4 (.zero _) (.zero _)) (.refl _ _)
  have hall := (exchange_safe_and_complete (fun _ => .readable [0x41]) 4 (.zero _) (.zero _)).1
    e hreach
  exact ⟨e, hreach, hall.2.2.2 hstuck⟩

end NetworkExperiment
