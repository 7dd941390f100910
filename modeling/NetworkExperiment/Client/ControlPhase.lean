import NetworkExperiment.Client.Process

namespace NetworkExperiment

open ActionSystems ByteBuffers DescriptorTables

/-!
# The control phase

`request_counter` counts up until `flooder_state` is set and down from then on, and `client_run`
leaves its loop once it is negative:

* `Tally` — the process with a record of the updates made in each phase, the blocks of the last
  connection and the connections started since `flooder_state` was set;
* `Delivers` — a step at which the connection succeeds and the server sends what it should;
* `Tally.At` — how the counts are related, by where the main thread is;
* `control_phase_balances` — in every such run the two phases balance.
-/

/-! ### Counting -/

/-- The process and a record of what has happened in it. -/
structure Tally where
  process : ClientProcess
  /-- The updates made with `flooder_state = 0`. -/
  measured : ℕ
  /-- The updates made with `flooder_state = 1`. -/
  controlled : ℕ
  /-- The `FILE_BLOCK` frames received on the last connection. -/
  blocks : ℕ
  /-- The connections started with `flooder_state = 1`. -/
  started : ℕ

namespace Tally

/-- A connection is made. -/
def countConnection (s : Tally) : Tally :=
  { s with
    blocks := 0
    started := if s.process.flooderState then s.started + 1 else s.started }

/-- A message is read. -/
def countBlock (s : Tally) (buffer : Buffer) : Tally :=
  if (unmarshall buffer).msgType = ProtoType.fileBlock.code then { s with blocks := s.blocks + 1 }
  else s

/-- The counter is updated. -/
def countUpdate (s : Tally) : Tally :=
  if s.process.flooderState then { s with controlled := s.controlled + 1 }
  else { s with measured := s.measured + 1 }

/-- What a step adds to the record. -/
def count (s : Tally) (a : ClientAction) : Tally :=
  match s.process.main, a with
  | .connect _, .main .done => s.countConnection
  | .request _ thread, .main r =>
      match thread.pc, r with
      | .readBlock, .filled buffer => s.countBlock buffer
      | .update _, .done => s.countUpdate
      | _, _ => s
  | _, _ => s

/-- The record of a process that has just been started. -/
def start (withLogFile : Bool) : Tally := ⟨.start withLogFile, 0, 0, 0, 0⟩

end Tally

/-- The runs of the client process, with the record. -/
def tallied : ActionSystem Tally ClientAction where
  act s a := (clientProcess.act s.process a).map fun p => { s.count a with process := p }

/-- The connection succeeds, and the server answers the request and sends blocks and the end of the
    file. -/
def Delivers (p : ClientProcess) (a : ClientAction) : Bool :=
  match p.main, a with
  | .request _ thread, .main r =>
      match thread.pc, r with
      | .readAck, .filled buffer => (unmarshall buffer).msgType = ProtoType.reqAck.code
      | .readBlock, .filled buffer =>
          (unmarshall buffer).msgType = ProtoType.fileBlock.code ∨
            (unmarshall buffer).msgType = ProtoType.fileComplete.code
      | _, .killed => false
      | _, _ => true
  | _, .main .failed => false
  | _, _ => true

/-- The record does not take part in the runs, and every run has its record. -/
theorem map_tallied_run (as : List ClientAction) (s : Tally) :
    (tallied.run as s).map Tally.process = clientProcess.run as s.process := by
  apply ActionSystem.map_run_of_map_act
  intro s a
  show ((clientProcess.act s.process a).map _).map _ = _
  rw [Option.map_map]
  exact congrFun Option.map_id _

/-! ### The invariant -/

namespace Tally

/-- The counts, by where the main thread is.  Within a connection the updates with
    `flooder_state = 1` exceed the others by no more than the updates of the connection, and a
    connection started with `flooder_state = 1` makes at least one. -/
def At (s : Tally) : MainThread → Prop
  | .loopTest =>
      s.controlled ≤ s.measured + s.blocks + 1 ∧ s.started ≤ s.controlled ∧
        s.started ≤ s.measured + 1
  | .socket | .connect _ => s.controlled ≤ s.measured ∧ s.started ≤ s.controlled
  | .openLog _ =>
      s.controlled ≤ s.measured + s.blocks ∧ s.started ≤ s.controlled + 1 ∧
        s.started ≤ s.measured + 1
  | .request _ thread =>
      s.started ≤ s.measured + 1 ∧
        match thread.pc with
        | .sendRequest | .readAck =>
            s.controlled ≤ s.measured + s.blocks ∧ s.started ≤ s.controlled + 1
        | .logStart | .readBlock =>
            s.controlled ≤ s.measured + s.blocks ∧ s.started ≤ s.controlled + 1 ∧
              thread.fileavlb = true
        | .sendAck false | .logEnd false | .update false =>
            s.controlled + 1 ≤ s.measured + s.blocks ∧ s.started ≤ s.controlled + 1 ∧
              thread.fileavlb = true
        | .sendAck true | .logEnd true | .update true =>
            s.controlled ≤ s.measured + s.blocks ∧ s.started ≤ s.controlled + 1
        | .closeSock | .closeLog =>
            s.controlled ≤ s.measured + s.blocks + 1 ∧ s.started ≤ s.controlled
        | .returned | .assertFailed | .illegalType => False
  | .returned ret =>
      ret = 0 ∧ s.measured + 1 ≤ s.controlled ∧ s.controlled ≤ s.measured + s.blocks + 1 ∧
        s.started ≤ s.measured + 1

/-- **The invariant.** -/
structure Inv (s : Tally) : Prop where
  /-- The counter is the difference of the two phases, -/
  counter : s.process.requestCounter = Int32.ofInt (s.measured - s.controlled)
  /-- the second of which begins as `flooder_state` is set. -/
  unset : s.process.flooderState = false → s.controlled = 0 ∧ s.started = 0
  alive : s.process.exited = true → ∃ ret, s.process.main = .returned ret
  counts : s.At s.process.main

variable {s : Tally} {p' : ClientProcess} {sock : Fd} {thread : ClientThread} {r : CallResult}

/-- The sign of the counter, as long as there are fewer than `2 ^ 31` updates. -/
theorem Inv.counter_nonneg_iff (h : s.Inv) (hfew : s.measured + s.controlled < 2 ^ 31) :
    s.process.requestCounter ≥ 0 ↔ s.controlled ≤ s.measured := by
  rw [h.counter, ge_iff_le, Int32.le_iff_toInt_le, Int32.toInt_ofInt_of_le (by omega) (by omega)]
  show (0 : ℤ) ≤ s.measured - s.controlled ↔ s.controlled ≤ s.measured
  omega

/-- A step that counts nothing. -/
theorem Inv.keep (h : s.Inv) (hcounter : p'.requestCounter = s.process.requestCounter)
    (hstate : p'.flooderState = false → s.process.flooderState = false)
    (halive : p'.exited = true → ∃ ret, p'.main = .returned ret) (hcounts : s.At p'.main) :
    { s with process := p' : Tally }.Inv where
  counter := hcounter.trans h.counter
  unset hunset := h.unset (hstate hunset)
  alive := halive
  counts := hcounts

/-- A call of the listener counts nothing. -/
theorem Inv.listenerStep (h : s.Inv) {a : ClientAction}
    (hstep : s.process.listenerStep a = some p') : { s with process := p' : Tally }.Inv := by
  unfold ClientProcess.listenerStep at hstep
  split at hstep
  case h_1 => exact Option.some.inj hstep ▸ h
  case h_2 msg hread =>
    split at hstep
    all_goals
      obtain rfl := Option.some.inj hstep
      exact h.keep rfl id h.alive h.counts
  case h_3 marker hwrite =>
    obtain rfl := Option.some.inj hstep
    apply h.keep
    · exact ClientProcess.writeLog_requestCounter ..
    · intro hunset
      exact (ClientProcess.writeLog_flooderState ..).symm.trans hunset
    · show (s.process.writeLog _).exited = true →
        ∃ ret, (s.process.writeLog _).main = .returned ret
      rw [ClientProcess.writeLog_exited, ClientProcess.writeLog_main]
      exact h.alive
    · show s.At (s.process.writeLog _).main
      rw [ClientProcess.writeLog_main]
      exact h.counts
  case h_4 hset =>
    -- the second phase begins, with nothing counted in it
    obtain rfl := Option.some.inj hstep
    exact h.keep rfl (fun hunset => absurd hunset (by simp)) h.alive h.counts
  case h_5 => exact absurd hstep (by simp)

/-- After a call of `client_send_request`, the counts have only to fit where the thread is. -/
theorem inv_goOn {q : ClientProcess}
    (hcounter : q.requestCounter = Int32.ofInt (s.measured - s.controlled))
    (hunset : q.flooderState = false → s.controlled = 0 ∧ s.started = 0)
    (halive : q.exited = false) (hcounts : s.At (.request sock thread)) :
    { s with process := q.goOn sock thread : Tally }.Inv := by
  have hreturned : thread.pc ≠ .returned := fun hpc => by simp [At, hpc] at hcounts
  have hillegal : thread.pc ≠ .illegalType := fun hpc => by simp [At, hpc] at hcounts
  have hassert : thread.pc ≠ .assertFailed := fun hpc => by simp [At, hpc] at hcounts
  refine ⟨?_, ?_, ?_, ?_⟩
  · show (q.goOn sock thread).requestCounter = _
    rw [ClientProcess.goOn_requestCounter]
    exact hcounter
  · show (q.goOn sock thread).flooderState = false → _
    rw [ClientProcess.goOn_flooderState]
    exact hunset
  · show (q.goOn sock thread).exited = true → _
    rw [q.goOn_exited sock thread hassert, halive]
    exact fun hexited => absurd hexited (by simp)
  · show At _ (q.goOn sock thread).main
    rw [q.goOn_main sock thread hreturned hillegal]
    exact hcounts

/-- `update_request_counter` in the first phase counts up. -/
theorem Inv.updateMeasured (h : s.Inv) (halive : s.process.exited = false) {last : Bool}
    (hpc : thread.pc = .update last) (hat : s.At (.request sock thread))
    (hunset : s.process.flooderState = false) :
    { s with
      measured := s.measured + 1
      process :=
        s.process.updateRequestCounter.goOn sock (thread.afterUpdate last) : Tally }.Inv := by
  simp only [At, hpc] at hat
  have hcounter :
      s.process.updateRequestCounter.requestCounter = s.process.requestCounter + 1 := by
    unfold ClientProcess.updateRequestCounter
    rw [if_pos (by simp [hunset])]
  obtain ⟨hcontrolled, hstarted⟩ := h.unset hunset
  apply inv_goOn (s := { s with measured := s.measured + 1 })
  · show _ = Int32.ofInt ((s.measured + 1 : ℕ) - s.controlled)
    rw [hcounter, h.counter,
      show ((s.measured + 1 : ℕ) : ℤ) - s.controlled = s.measured - s.controlled + 1 by omega,
      Int32.ofInt_add _ 1]
    rfl
  · exact fun _ => ⟨hcontrolled, hstarted⟩
  · rw [ClientProcess.updateRequestCounter_exited]
    exact halive
  · cases last with
    | false =>
      rw [ClientThread.afterUpdate_block hat.2.2.2]
      refine ⟨?_, ?_, hat.2.2⟩
      · show s.started ≤ s.measured + 1 + 1
        omega
      · show s.controlled ≤ s.measured + 1 + s.blocks
        omega
    | true =>
      refine ⟨?_, ?_, ?_⟩
      · show s.started ≤ s.measured + 1 + 1
        omega
      · show s.controlled ≤ s.measured + 1 + s.blocks + 1
        omega
      · -- nothing has been started in the second phase
        show s.started ≤ s.controlled
        omega

/-- `update_request_counter` in the second phase counts down: the update is one of a block, or the
    last one of a connection, which makes up for its start. -/
theorem Inv.updateControlled (h : s.Inv) (halive : s.process.exited = false) {last : Bool}
    (hpc : thread.pc = .update last) (hat : s.At (.request sock thread))
    (hset : s.process.flooderState = true) :
    { s with
      controlled := s.controlled + 1
      process :=
        s.process.updateRequestCounter.goOn sock (thread.afterUpdate last) : Tally }.Inv := by
  simp only [At, hpc] at hat
  have hcounter :
      s.process.updateRequestCounter.requestCounter = s.process.requestCounter - 1 := by
    unfold ClientProcess.updateRequestCounter
    rw [if_neg (by simp [hset])]
  apply inv_goOn (s := { s with controlled := s.controlled + 1 })
  · show _ = Int32.ofInt (s.measured - (s.controlled + 1 : ℕ))
    rw [hcounter, h.counter,
      show (s.measured : ℤ) - (s.controlled + 1 : ℕ) = s.measured - s.controlled - 1 by omega,
      Int32.ofInt_sub _ 1]
    rfl
  · rw [ClientProcess.updateRequestCounter_flooderState, hset]
    exact fun hunset => absurd hunset (by simp)
  · rw [ClientProcess.updateRequestCounter_exited]
    exact halive
  · cases last with
    | false =>
      -- the block of this update has been counted as it came in
      rw [ClientThread.afterUpdate_block hat.2.2.2]
      refine ⟨hat.1, hat.2.1, ?_, hat.2.2.2⟩
      show s.started ≤ s.controlled + 1 + 1
      omega
    | true =>
      refine ⟨hat.1, ?_, hat.2.2⟩
      show s.controlled + 1 ≤ s.measured + s.blocks + 1
      omega

/-- `update_request_counter`. -/
theorem Inv.update (h : s.Inv) (halive : s.process.exited = false) {last : Bool}
    (hpc : thread.pc = .update last) (hat : s.At (.request sock thread)) :
    { s.countUpdate with
      process :=
        s.process.updateRequestCounter.goOn sock (thread.afterUpdate last) : Tally }.Inv := by
  by_cases hset : s.process.flooderState = true
  · have hcount : s.countUpdate = { s with controlled := s.controlled + 1 } := if_pos hset
    rw [hcount]
    exact h.updateControlled halive hpc hat hset
  · have hcount : s.countUpdate = { s with measured := s.measured + 1 } := if_neg hset
    rw [hcount]
    exact h.updateMeasured halive hpc hat (Bool.of_not_eq_true hset)

/-- A call of `client_send_request`. -/
theorem Inv.requestStep (h : s.Inv) (halive : s.process.exited = false)
    (hmain : s.process.main = .request sock thread) (hdelivers : Delivers s.process (.main r))
    (hstep : s.process.requestStep sock thread r = some p') :
    { s.count (.main r) with process := p' : Tally }.Inv := by
  have hat := h.counts
  rw [hmain] at hat
  unfold ClientProcess.requestStep at hstep
  unfold Delivers at hdelivers
  rw [hmain] at hdelivers
  unfold count
  rw [hmain]
  dsimp only at hdelivers ⊢
  split at hstep
  case h_1 hpc =>
    obtain rfl := Option.some.inj hstep
    simp only [At, hpc] at hat ⊢
    exact inv_goOn h.counter h.unset halive hat
  case h_2 buffer hpc =>
    obtain rfl := Option.some.inj hstep
    simp only [At, hpc, decide_eq_true_eq] at hat hdelivers ⊢
    apply inv_goOn h.counter h.unset halive
    unfold ClientThread.afterReadAck
    dsimp only
    rw [if_pos hdelivers]
    exact ⟨hat.1, hat.2.1, hat.2.2, rfl⟩
  case h_3 nsec hpc =>
    -- a line of the log changes no count
    obtain rfl := Option.some.inj hstep
    simp only [At, hpc] at hat ⊢
    exact inv_goOn (by simpa using h.counter) (by simpa using h.unset) (by simpa using halive) hat
  case h_4 buffer hpc =>
    obtain rfl := Option.some.inj hstep
    simp only [At, hpc, decide_eq_true_eq] at hat hdelivers ⊢
    obtain ⟨hlast, hupTo, hstarted, hmore⟩ := hat
    unfold countBlock
    rcases hdelivers with hblock | hcomplete
    · -- one more block, whose update is still to come
      rw [if_pos hblock, thread.afterReadBlock_fileBlock hblock]
      apply inv_goOn (s := { s with blocks := s.blocks + 1 }) h.counter h.unset halive
      refine ⟨hlast, ?_, hstarted, hmore⟩
      show s.controlled + 1 ≤ s.measured + (s.blocks + 1)
      omega
    · have hblock : (unmarshall buffer).msgType ≠ ProtoType.fileBlock.code := by
        rw [hcomplete]
        decide
      rw [if_neg hblock, thread.afterReadBlock_fileComplete hcomplete]
      exact inv_goOn h.counter h.unset halive ⟨hlast, hupTo, hstarted⟩
  case h_5 last hpc =>
    obtain rfl := Option.some.inj hstep
    simp only [At, hpc] at hat ⊢
    cases last <;> exact inv_goOn h.counter h.unset halive hat
  case h_6 last nsec hpc =>
    obtain rfl := Option.some.inj hstep
    simp only [At, hpc] at hat ⊢
    cases last <;>
      exact inv_goOn (by simpa using h.counter) (by simpa using h.unset) (by simpa using halive) hat
  case h_7 last hpc =>
    obtain rfl := Option.some.inj hstep
    rw [hpc]
    exact h.update halive hpc hat
  case h_8 hpc =>
    obtain rfl := Option.some.inj hstep
    simp only [At, hpc] at hat ⊢
    exact inv_goOn h.counter h.unset halive hat
  case h_9 hpc =>
    -- the request is over
    obtain rfl := Option.some.inj hstep
    simp only [At, hpc] at hat ⊢
    refine ⟨?_, ?_, ?_, ?_⟩
    · exact (ClientProcess.closeLog_requestCounter _).trans h.counter
    · intro hunset
      exact h.unset ((ClientProcess.closeLog_flooderState _).symm.trans hunset)
    · intro hexited
      exact absurd ((ClientProcess.closeLog_exited _).symm.trans hexited) (by simp [halive])
    · exact ⟨hat.2.1, hat.2.2, hat.1⟩
  -- the calls that fail are not delivered
  case h_10 hpc => simp [hpc] at hdelivers
  case h_11 last hpc => simp [hpc] at hdelivers
  case h_12 => exact absurd hstep (by simp)

/-- A call of the main thread. -/
theorem Inv.mainStep (h : s.Inv) (hfew : s.measured + s.controlled < 2 ^ 31)
    (halive : s.process.exited = false) (hdelivers : Delivers s.process (.main r))
    (hstep : s.process.mainStep r = some p') :
    { s.count (.main r) with process := p' : Tally }.Inv := by
  have hat := h.counts
  unfold ClientProcess.mainStep at hstep
  split at hstep
  case h_8 sock thread hmain => exact h.requestStep halive hmain hdelivers hstep
  case h_10 => exact absurd hstep (by simp)
  case h_1 hmain =>
    -- the loop test
    rw [hmain] at hat
    have hcount : s.count (.main .done) = s := by simp [count, hmain]
    rw [hcount]
    obtain rfl := Option.some.inj hstep
    refine h.keep rfl id (fun hexited => absurd (halive.symm.trans hexited) (by simp)) ?_
    by_cases htest : s.process.requestCounter ≥ 0
    · simp only [if_pos htest]
      exact ⟨(h.counter_nonneg_iff hfew).mp htest, hat.2.1⟩
    · simp only [if_neg htest]
      -- the counter is negative: the second phase has overtaken the first
      have hneg := (h.counter_nonneg_iff hfew).not.mp htest
      exact ⟨rfl, by omega, hat.1, hat.2.2⟩
  case h_2 hmain =>
    rw [hmain] at hat
    have hcount : s.count (.main .done) = s := by simp [count, hmain]
    rw [hcount]
    obtain rfl := Option.some.inj hstep
    exact h.keep rfl id (fun hexited => absurd (halive.symm.trans hexited) (by simp)) hat
  case h_3 sock hmain =>
    -- a connection is made
    rw [hmain] at hat
    have hcount : s.count (.main .done) = s.countConnection := by simp [count, hmain]
    rw [hcount]
    obtain rfl := Option.some.inj hstep
    refine ⟨h.counter, ?_, fun hexited => absurd (halive.symm.trans hexited) (by simp), ?_⟩
    · intro hunset
      obtain ⟨hcontrolled, hstarted⟩ := h.unset hunset
      exact ⟨hcontrolled, (if_neg (by rw [hunset]; simp)).trans hstarted⟩
    · have hstarted : s.countConnection.started ≤ s.started + 1 := by
        unfold countConnection
        dsimp only
        split <;> omega
      obtain ⟨hcontrolled, hmade⟩ := hat
      refine ⟨hcontrolled, ?_, ?_⟩
      · show s.countConnection.started ≤ s.controlled + 1
        omega
      · show s.countConnection.started ≤ s.measured + 1
        omega
  case h_4 sock garbage hmain =>
    rw [hmain] at hat
    have hcount : s.count (.main (.opened garbage)) = s := by simp [count, hmain]
    rw [hcount]
    obtain rfl := Option.some.inj hstep
    exact h.keep rfl id (fun hexited => absurd (halive.symm.trans hexited) (by simp))
      ⟨hat.2.2, hat.1, hat.2.1⟩
  case h_5 hmain | h_6 sock hmain | h_7 sock hmain => simp [Delivers, hmain] at hdelivers
  case h_9 ret hmain =>
    rw [hmain] at hat
    have hcount : s.count (.main .done) = s := by simp [count, hmain]
    rw [hcount]
    obtain rfl := Option.some.inj hstep
    refine h.keep rfl id (fun _ => ⟨ret, hmain⟩) ?_
    rw [hmain]
    exact hat

/-- The record does not lose updates. -/
theorem updates_le_count (s : Tally) (a : ClientAction) :
    s.measured + s.controlled ≤ (s.count a).measured + (s.count a).controlled := by
  have hupdate : s.measured + s.controlled ≤ s.countUpdate.measured + s.countUpdate.controlled := by
    unfold countUpdate
    split
    · exact Nat.le_succ _
    · show s.measured + s.controlled ≤ s.measured + 1 + s.controlled
      omega
  have hblock : ∀ buffer, (s.countBlock buffer).measured + (s.countBlock buffer).controlled
      = s.measured + s.controlled := by
    intro buffer
    unfold countBlock
    split <;> rfl
  unfold count
  split
  · exact le_refl _
  · split
    · exact (hblock _).ge
    · exact hupdate
    · exact le_refl _
  · exact le_refl _

/-- The connections started with `flooder_state = 1`. -/
theorem At.started_le {main : MainThread} (h : s.At main) : s.started ≤ s.measured + 1 := by
  cases main with
  | loopTest => exact h.2.2
  | socket | connect sock =>
    obtain ⟨hcontrolled, hstarted⟩ := h
    omega
  | openLog sock => exact h.2.2
  | request sock thread => exact h.1
  | returned ret => exact h.2.2.2

/-- A step at which the connection succeeds keeps the invariant. -/
theorem inv_step {t : Tally} {a : ClientAction} (h : s.Inv)
    (hfew : s.measured + s.controlled < 2 ^ 31) (hdelivers : Delivers s.process a)
    (hact : tallied.act s a = some t) : t.Inv := by
  obtain ⟨p, hp, rfl⟩ := Option.map_eq_some_iff.mp hact
  cases a with
  | main r =>
    obtain ⟨halive, hstep⟩ := ClientProcess.act_main hp
    exact h.mainStep hfew halive hdelivers hstep
  | hear msg | write | setState =>
    have hcount : ∀ a, (∀ r, a ≠ .main r) → s.count a = s := by
      intro a ha
      unfold count
      split <;> simp_all
    rw [hcount _ (by simp)]
    exact h.listenerStep (ClientProcess.act_listener hp (by simp)).2

theorem inv_start (withLogFile : Bool) : (start withLogFile).Inv where
  counter := rfl
  unset := fun _ => ⟨rfl, rfl⟩
  alive := fun hexited => absurd hexited (by simp [start, ClientProcess.start])
  counts := by simp [start, ClientProcess.start, At]

end Tally

open Tally

/-- **The control phase.**  In every run in which all connections succeed and there are fewer than
    `2 ^ 31` updates: `client_run` goes on as long as `flooder_state` is not set; if it returns `0`,
    the updates of the second phase exceed those of the first by at least one and by no more than
    the updates of the last connection; and no more connections are started with `flooder_state` set
    than there are updates of the first phase, and one.  The run is one of the client's process, and
    each of these has such a record beside it (`map_tallied_run`). -/
theorem control_phase_balances (withLogFile : Bool) (as : List ClientAction) {s : Tally}
    (hrun : tallied.run as (.start withLogFile) = some s)
    (hdelivers : tallied.StepsMeet (fun s a => Delivers s.process a) as (.start withLogFile))
    (hfew : s.measured + s.controlled < 2 ^ 31) :
    clientProcess.run as (.start withLogFile) = some s.process ∧
      (s.process.flooderState = false →
        s.process.exited = false ∧ ∀ ret, s.process.main ≠ .returned ret) ∧
      (s.process.main = .returned 0 →
        s.measured + 1 ≤ s.controlled ∧ s.controlled ≤ s.measured + s.blocks + 1) ∧
      s.started ≤ s.measured + 1 := by
  have hinv : tallied.InvariantOn (fun s a => Delivers s.process a)
      fun s => s.measured + s.controlled < 2 ^ 31 → s.Inv := by
    intro s a t h hdelivers hact hfew
    have hle : s.measured + s.controlled ≤ t.measured + t.controlled := by
      obtain ⟨p, -, rfl⟩ := Option.map_eq_some_iff.mp hact
      exact s.updates_le_count a
    exact inv_step (h (by omega)) (by omega) hdelivers hact
  have h : s.Inv := hinv.run (fun _ => inv_start withLogFile) hdelivers hrun hfew
  have hreturned : ∀ ret, s.process.main = .returned ret → s.measured + 1 ≤ s.controlled ∧
      s.controlled ≤ s.measured + s.blocks + 1 := by
    intro ret hmain
    have hat := h.counts
    rw [hmain] at hat
    exact ⟨hat.2.1, hat.2.2.1⟩
  have hprocess := map_tallied_run as (.start withLogFile)
  rw [hrun] at hprocess
  refine ⟨hprocess.symm, ?_, hreturned 0, h.counts.started_le⟩
  intro hunset
  -- without an update of the second phase it has not returned
  have hloop : ∀ ret, s.process.main ≠ .returned ret := by
    intro ret hmain
    have hexceeds := (hreturned ret hmain).1
    have hnone := (h.unset hunset).1
    omega
  refine ⟨?_, hloop⟩
  by_contra hexited
  obtain ⟨ret, hmain⟩ := h.alive (by simpa using hexited)
  exact hloop ret hmain

/-- The calls of a connection on which the file has one block, and what the listener does behind
    the count of this block. -/
def blockConnection (between : List ClientAction) : List ClientAction :=
  [.main .done, .main .done, .main .done, .main (.opened (.zero _)), .main .done,
    .main (.filled (frame (.blank .reqAck))), .main (.clock 1),
    .main (.filled (frame (.blank .fileBlock))), .main .done, .main (.clock 2), .main .done] ++
  between ++
  [.main (.clock 3), .main (.filled (frame (.blank .fileComplete))), .main .done,
    .main (.clock 4), .main .done, .main .done, .main .done]

/-- `flooder_state` is set between the two messages of the first connection: one update is made in
    the first phase and three in the second, two of them on the last connection, with its block. -/
theorem control_phase_balances_one_block : ∃ s, tallied.run (blockConnection
      [.hear (some ⟨[67, 79, 78, 84, 82, 79], rfl⟩), .write, .setState] ++ blockConnection [] ++
      [.main .done]) (.start false) = some s ∧
    s.process.main = .returned 0 ∧ s.measured = 1 ∧ s.controlled = 3 ∧ s.blocks = 1 ∧
    s.measured + 1 ≤ s.controlled ∧ s.controlled ≤ s.measured + s.blocks + 1 ∧
    s.started ≤ s.measured + 1 := by
  have hrun : (tallied.run (blockConnection
      [.hear (some ⟨[67, 79, 78, 84, 82, 79], rfl⟩), .write, .setState] ++ blockConnection [] ++
      [.main .done]) (.start false)).any fun s => decide (s.process.main = .returned 0 ∧
        s.measured = 1 ∧ s.controlled = 3 ∧ s.blocks = 1) := by
    decide +kernel
  obtain ⟨s, hrun, hs⟩ := (Option.any_eq_true _ _).mp hrun
  obtain ⟨hmain, hmeasured, hcontrolled, hblocks⟩ := of_decide_eq_true hs
  obtain ⟨-, -, hreturned, hstarted⟩ := control_phase_balances false _ hrun (by decide +kernel)
    (by rw [hmeasured, hcontrolled]; decide)
  exact ⟨s, hrun, hmain, hmeasured, hcontrolled, hblocks, (hreturned hmain).1, (hreturned hmain).2,
    hstarted⟩

end NetworkExperiment
