import NetworkExperiment.Server.Conservation

namespace NetworkExperiment

open ActionSystems ByteBuffers DescriptorTables

/-!
# How long the server lives

Nothing closes the file of a request, so each request for a readable file takes a descriptor for
good, and a server without descriptors ends.  Log messages go to the standard error, or their file
is open before the first client comes:

* `ServerProcess.openings` — the requests for which `open` has returned a descriptor;
* `ServerProcess.full_iff` — when the descriptors are used up;
* `server_lifetime` — how many requests a server can serve, and when the next client ends it.
-/

namespace ServerProcess

variable {p p' : ServerProcess} {w : ServerSetting} {withLogFile : Bool} {i : ℕ} {c : Connection}

/-- The requests for which `open` has returned a descriptor. -/
def openings (p : ServerProcess) : ℕ := p.conns.entries.countP fun e => e.2.opened

/-- A connection holds its socket until its thread returns, and its file for good. -/
theorem length_held (p : ServerProcess) : p.held.length = p.running + p.openings := by
  unfold held running openings
  induction p.conns.entries with
  | nil => rfl
  | cons e l ih =>
    have hone : (e.2.held e.1).length =
        (if e.2.thread.pc ≠ .returned then 1 else 0) + if e.2.opened then 1 else 0 := by
      unfold Connection.held
      by_cases hreturned : e.2.thread.pc = .returned <;> cases e.2.opened <;> simp [hreturned]
    rw [List.flatMap_cons, List.length_append, List.countP_cons, List.countP_cons, ih, hone]
    simp only [decide_eq_true_eq]
    omega

/-- The descriptors that are used lie below the limit. -/
def Within (w : ServerSetting) (p : ServerProcess) : Prop := p.table.length ≤ w.limit

/-- A descriptor that is found lies below the limit. -/
theorem not_full_of_free {fd : Fd} (h : p.free w.limit = some fd) : ¬ p.table.Full w.limit := by
  intro hfull
  unfold free at h
  rw [if_pos hfull] at h
  exact absurd h (by simp)

theorem Within.accept (h : p.Within w) : (p.acceptConnection w i).Within w := by
  unfold acceptConnection
  split
  · exact h
  · split
    case h_1 fd hfd => exact length_insert_le h (not_full_of_free hfd)
    case h_2 => exact h

theorem Within.tableAfter (h : p.Within w) : (p.tableAfter w i c).length ≤ w.limit := by
  unfold ServerProcess.tableAfter
  split
  · split
    case h_1 content fd hfile hfd => exact length_insert_le h (not_full_of_free hfd)
    case h_2 => exact h
  · rw [Table.close, List.length_set]
    exact h
  · exact h

/-- **Step lemma.** -/
theorem within_step : (serverProcess w).Invariant (Within w) := by
  intro p a p' h hact
  rcases serverProcess_cases hact with ⟨-, ⟨i, rfl, -, rfl⟩ | ⟨i, c, rfl, -, hstep⟩⟩
  · exact h.accept
  · obtain ⟨c', -, rfl⟩ := Option.map_eq_some_iff.mp hstep
    exact h.tableAfter

/-- How many files are open: those of the start, the sockets of the threads that have not returned,
    and the file of every request that has been opened. -/
theorem Inv.length_openFiles (h : p.Inv withLogFile) :
    p.table.openFiles.length = openAtStart withLogFile + p.running + p.openings := by
  rw [h.files.length_eq, List.length_append, length_held, ← Nat.add_assoc]
  rfl

/-- When the descriptors are used up. -/
theorem full_iff (h : p.Inv withLogFile) (hwithin : p.Within w) :
    p.table.Full w.limit ↔ openAtStart withLogFile + p.running + p.openings = w.limit := by
  have hle : p.table.openFiles.length ≤ w.limit := length_openFiles_le.trans hwithin
  rw [← h.length_openFiles]
  constructor
  · intro hfull
    exact Nat.le_antisymm hle (le_length_of_full hfull)
  · intro heq
    exact full_of_le_openFiles hwithin heq.ge

/-- A client that waits for its answer ends the process if there is no descriptor for it. -/
theorem acceptConnection_exited (hrunning : p.exited = false) (hwaits : ¬ (w.peers i).aborts) :
    (p.acceptConnection w i).exited = true ↔ p.table.Full w.limit := by
  unfold acceptConnection free
  rw [if_neg hwaits]
  by_cases hfull : p.table.Full w.limit
  · rw [if_pos hfull]
    exact iff_of_true rfl hfull
  · rw [if_neg hfull]
    exact iff_of_false (by simp [hrunning]) hfull

end ServerProcess

open ServerProcess

/-- **The server's lifetime.**  In every run, the threads that have not returned and the requests
    that have ever opened their file are, with the files of the start, no more than the limit on
    descriptors.  So a server opens no more files in all its life than there are descriptors left at
    its start; and a client that connects ends the process, for all of them, exactly when they have
    come to the limit.  A log file that the first error opens in the middle of a run would take one
    more descriptor; `ServerProcess.start` has it open or has none. -/
theorem server_lifetime {w : ServerSetting} {withLogFile : Bool}
    (hroom : (start withLogFile).table.length ≤ w.limit) {as : List ServerAction}
    {p : ServerProcess} (hrun : (serverProcess w).run as (.start withLogFile) = some p) :
    openAtStart withLogFile + p.running + p.openings ≤ w.limit ∧
    ∀ i q, ¬ (w.peers i).aborts → (serverProcess w).act p (.accept i) = some q →
      (q.exited = true ↔ openAtStart withLogFile + p.running + p.openings = w.limit) := by
  have h := inv_of_run (inv_start withLogFile) hrun
  have hwithin := within_step.run hroom hrun
  refine ⟨?_, fun i q hwaits hact => ?_⟩
  · rw [← h.length_openFiles]
    exact length_openFiles_le.trans hwithin
  · obtain ⟨hrunning, ⟨j, hj, -, rfl⟩ | ⟨j, c, hj, -⟩⟩ := serverProcess_cases hact
    · obtain rfl := ServerAction.accept.inj hj
      rw [acceptConnection_exited hrunning hwaits, full_iff h hwithin]
    · exact absurd hj (by simp)

/-- A server with room for one connection and one file: the first client is served, and holds a
    descriptor for good; the second one is accepted, and the third one ends the process. -/
theorem server_lifetime_two_clients : ∃ p q,
    (serverProcess { oneClient (.readable []) with limit := 6 }).run
      (.accept 0 :: List.replicate 8 (.step 0) ++ [.accept 1]) (.start false) = some p ∧
    (serverProcess { oneClient (.readable []) with limit := 6 }).act p (.accept 2) = some q ∧
    p.Returned 0 ∧ q.exited = true := by
  have hsome : ((serverProcess { oneClient (.readable []) with limit := 6 }).run
      (.accept 0 :: List.replicate 8 (.step 0) ++ [.accept 1]) (.start false)).any fun p =>
        decide ((p.conns.lookup 0).map (fun c => c.thread.pc) = some .returned ∧
          openAtStart false + p.running + p.openings = 6 ∧ p.exited = false ∧
          p.conns.lookup 2 = none) := by
    decide +kernel
  obtain ⟨p, hrun, hp⟩ := (Option.any_eq_true _ _).mp hsome
  obtain ⟨hreturned, hfull, hrunning, hnew⟩ := of_decide_eq_true hp
  have hnew := AList.lookup_eq_none.mp hnew
  have hact : (serverProcess { oneClient (.readable []) with limit := 6 }).act p (.accept 2) =
      some (p.acceptConnection { oneClient (.readable []) with limit := 6 } 2) := by
    unfold serverProcess
    dsimp only
    rw [if_neg (by simp [hrunning]), if_neg hnew]
  have hends := (server_lifetime (by decide) hrun).2 2 _ (by simp [oneClient]) hact
  exact ⟨p, _, hrun, hact, Option.map_eq_some_iff.mp hreturned, hends.mpr hfull⟩

end NetworkExperiment
